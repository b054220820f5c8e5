import Mathlib.Data.List.Perm.Subperm
import Mathlib.Data.String.Basic

open List

namespace kv

section

/-- A finite map kept as its rows in strictly increasing key order. Reads by
key, range reads and iteration all go through this one list, so the order in
which a scan meets the rows is the order of the keys. -/
@[ext]
structure OrdMap (K V : Type) [LinearOrder K] where
  rows : List (K × V)
  sorted : rows.Pairwise (fun a b => a.1 < b.1)
  deriving DecidableEq

variable {K V : Type} [LinearOrder K]

/-- Insertion into a sorted row list, replacing the row of an equal key. -/
def insertRow (k : K) (v : V) : List (K × V) → List (K × V)
  | [] => [(k, v)]
  | row :: rest =>
    if k < row.1 then (k, v) :: row :: rest
    else if k = row.1 then (k, v) :: rest
    else row :: insertRow k v rest

theorem mem_insertRow {k : K} {v : V} {row : K × V} :
    ∀ {rows : List (K × V)}, row ∈ insertRow k v rows → row = (k, v) ∨ row ∈ rows
  | [], h => by simpa [insertRow] using h
  | head :: rest, h => by
    unfold insertRow at h
    split at h
    · simpa using h
    · split at h
      · rcases mem_cons.mp h with h | h
        · exact .inl h
        · exact .inr (mem_cons_of_mem _ h)
      · rcases mem_cons.mp h with h | h
        · exact .inr (h ▸ mem_cons_self)
        · exact (mem_insertRow h).imp id (mem_cons_of_mem _)

theorem insertRow_sorted (k : K) (v : V) :
    ∀ {rows : List (K × V)}, rows.Pairwise (fun a b => a.1 < b.1) →
      (insertRow k v rows).Pairwise (fun a b => a.1 < b.1)
  | [], _ => by simp [insertRow]
  | head :: rest, h => by
    obtain ⟨hhead, hrest⟩ := pairwise_cons.mp h
    unfold insertRow
    split
    · rename_i hlt
      refine pairwise_cons.mpr ⟨fun row hrow => ?_, h⟩
      rcases mem_cons.mp hrow with rfl | hrow
      · exact hlt
      · exact hlt.trans (hhead _ hrow)
    · split
      · rename_i heq
        exact pairwise_cons.mpr ⟨fun row hrow => by simpa [heq] using hhead _ hrow, hrest⟩
      · rename_i hlt hne
        refine pairwise_cons.mpr ⟨fun row hrow => ?_, insertRow_sorted k v hrest⟩
        rcases mem_insertRow hrow with rfl | hrow
        · exact lt_of_le_of_ne (not_lt.mp hlt) (fun heq => hne heq.symm)
        · exact hhead _ hrow

namespace OrdMap

def empty : OrdMap K V := ⟨[], List.Pairwise.nil⟩

def get (m : OrdMap K V) (k : K) : Option V :=
  (m.rows.find? (fun row => decide (row.1 = k))).map Prod.snd

def set (m : OrdMap K V) (k : K) (v : V) : OrdMap K V :=
  ⟨insertRow k v m.rows, insertRow_sorted k v m.sorted⟩

def clear (m : OrdMap K V) (k : K) : OrdMap K V :=
  ⟨m.rows.filter (fun row => decide (row.1 ≠ k)), m.sorted.filter _⟩

/-- The rows whose keys lie in `[lo, hi)`, in key order. -/
def range (m : OrdMap K V) (lo hi : K) : List (K × V) :=
  m.rows.filter (fun row => decide (lo ≤ row.1) && decide (row.1 < hi))

def clearRange (m : OrdMap K V) (lo hi : K) : OrdMap K V :=
  ⟨m.rows.filter (fun row => decide (¬ (lo ≤ row.1 ∧ row.1 < hi))), m.sorted.filter _⟩

def contains (m : OrdMap K V) (k : K) : Bool := (m.get k).isSome

/-- Collects pairs into a map; a later pair replaces an earlier one. -/
def ofList (pairs : List (K × V)) : OrdMap K V :=
  pairs.foldl (fun m pair => m.set pair.1 pair.2) empty

/-- The same keys with their values mapped. -/
def mapVal {W : Type} (f : V → W) (m : OrdMap K V) : OrdMap K W :=
  ⟨m.rows.map (fun row => (row.1, f row.2)), by
    rw [List.pairwise_map]
    exact m.sorted⟩

/-- How many stored keys satisfy `p`. -/
def countKeys (p : K → Bool) (m : OrdMap K V) : Nat := m.rows.countP (fun row => p row.1)

@[simp] theorem get_empty (k : K) : (empty : OrdMap K V).get k = none := rfl

variable {k lo hi : K} {v : V} {m m' : OrdMap K V} {n : Nat} {l : List (K × V)}

theorem get_eq_some_iff_mem (m : OrdMap K V) : m.get k = some v ↔ (k, v) ∈ m.rows := by
  obtain ⟨rows, hsorted⟩ := m
  simp only [get]
  induction rows with
  | nil => simp
  | cons head _ ih =>
    obtain ⟨hhead, hrest⟩ := pairwise_cons.mp hsorted
    have ih := ih hrest
    by_cases heq : head.1 = k
    · rw [find?_cons_of_pos (by simpa using heq)]
      constructor
      · intro h
        have : head = (k, v) := Prod.ext heq (by simpa using h)
        simp [this]
      · intro h
        rcases mem_cons.mp h with h | h
        · simp [← h]
        · exact absurd (hhead _ h) (by simp [heq])
    · rw [find?_cons_of_neg (by simpa using heq), ih]
      constructor
      · exact mem_cons_of_mem _
      · intro h
        rcases mem_cons.mp h with h | h
        · exact absurd (by rw [← h]) heq
        · exact h

theorem get_eq_none_iff (m : OrdMap K V) : m.get k = none ↔ ∀ v, (k, v) ∉ m.rows := by
  constructor
  · intro h v hmem
    simp [(m.get_eq_some_iff_mem).mpr hmem] at h
  · intro h
    cases hget : m.get k with
    | none => rfl
    | some v => exact absurd (m.get_eq_some_iff_mem.mp hget) (h v)

theorem mem_range (m : OrdMap K V) {row : K × V} :
    row ∈ m.range lo hi ↔ row ∈ m.rows ∧ lo ≤ row.1 ∧ row.1 < hi := by
  simp [range]

theorem range_sorted (m : OrdMap K V) (lo hi : K) : (m.range lo hi).Pairwise fun a b => a.1 < b.1 :=
  m.sorted.filter _

/-- Reads determine the map. -/
theorem ext_get (h : ∀ k, m.get k = m'.get k) : m = m' := by
  have hmem : ∀ row, row ∈ m.rows ↔ row ∈ m'.rows := fun _ => by
    rw [← get_eq_some_iff_mem, h, get_eq_some_iff_mem]
  have hnodup : ∀ n : OrdMap K V, n.rows.Nodup := fun n =>
    n.sorted.imp (fun hlt heq => by simp [heq] at hlt)
  refine OrdMap.ext (Perm.eq_of_pairwise ?_ m.sorted m'.sorted
    ((perm_ext_iff_of_nodup (hnodup m) (hnodup m')).mpr hmem))
  intro a b _ _ hab hba
  exact absurd hab (lt_asymm hba)

theorem range_congr (h : ∀ k, lo ≤ k → k < hi → m.get k = m'.get k) : m.range lo hi = m'.range lo hi := by
  suffices hmap : (⟨_, m.range_sorted lo hi⟩ : OrdMap K V) = ⟨_, m'.range_sorted lo hi⟩ from congrArg rows hmap
  refine ext_get fun k => Option.ext fun v => ?_
  rw [get_eq_some_iff_mem, get_eq_some_iff_mem]
  simp only [mem_range, ← get_eq_some_iff_mem]
  exact and_congr_left fun hk => by rw [h k hk.1 hk.2]

/-- A scan that goes on right after its last key meets what it has not met yet. -/
theorem range_drop {lo' : K} (hnext : ∀ k', lo' ≤ k' ↔ k < k')
    (hlast : ((m.range lo hi).take n).getLast? = some (k, v)) : m.range lo' hi = (m.range lo hi).drop n := by
  have hsorted := m.range_sorted lo hi
  rw [← take_append_drop n (m.range lo hi), pairwise_append] at hsorted
  obtain ⟨hfront, _, hcross⟩ := hsorted
  have hmem := mem_of_getLast? hlast
  have hlo : lo ≤ k := (m.mem_range.mp (mem_of_mem_take hmem)).2.1
  have hbelow : ∀ row ∈ (m.range lo hi).take n, row.1 ≤ k := by
    obtain ⟨front, hfront'⟩ := getLast?_eq_some_iff.mp hlast
    rw [hfront', pairwise_append] at hfront
    intro row hrow
    rw [hfront'] at hrow
    obtain hrow | hrow := mem_append.mp hrow
    · exact (hfront.2.2 _ hrow _ mem_cons_self).le
    · rw [mem_singleton.mp hrow]
  have hfilter : m.range lo' hi = (m.range lo hi).filter fun row => decide (k < row.1) := by
    unfold range
    rw [filter_filter]
    refine filter_congr fun row _ => ?_
    by_cases hk : k < row.1
    · simp [hk, hnext, hlo.trans hk.le]
    · simp [hk, hnext]
  rw [hfilter]
  nth_rewrite 1 [← take_append_drop n (m.range lo hi)]
  rw [filter_append, filter_eq_nil_iff.mpr fun row hrow => by simpa using hbelow _ hrow,
    filter_eq_self.mpr fun row hrow => by simpa using hcross _ hmem _ hrow, nil_append]

/-- A map whose entries are all among equally many others is that map. -/
theorem eq_of_subset (hsub : ∀ row ∈ m.rows, row ∈ m'.rows)
    (hlength : m.rows.length = m'.rows.length) : m = m' := by
  have hnodup : m.rows.Nodup := m.sorted.imp fun h heq => absurd (congrArg _ heq) h.ne
  have hperm := (subperm_of_subset hnodup hsub).perm_of_length_le hlength.ge
  refine ext_get fun k => Option.ext fun v => ?_
  rw [get_eq_some_iff_mem, get_eq_some_iff_mem]
  exact hperm.mem_iff

/-- A map that has lost rows and changed none is shorter. -/
theorem length_lt_of_removed (h : ∀ k, m'.get k = none ∨ m'.get k = m.get k)
    (hk : m.get k ≠ none) (hk' : m'.get k = none) : m'.rows.length < m.rows.length := by
  obtain ⟨v, hv⟩ := Option.ne_none_iff_exists'.mp hk
  have hnodup : ((k, v) :: m'.rows).Nodup := nodup_cons.mpr ⟨(get_eq_none_iff m').mp hk' v,
    m'.sorted.imp fun h heq => absurd (congrArg _ heq) h.ne⟩
  have hsub : (k, v) :: m'.rows ⊆ m.rows := by
    intro row hrow
    obtain rfl | hrow := mem_cons.mp hrow
    · exact (get_eq_some_iff_mem m).mp hv
    · have hget := (get_eq_some_iff_mem m').mpr (show (row.1, row.2) ∈ m'.rows from hrow)
      obtain hnone | hsame := h _
      · rw [hnone] at hget
        cases hget
      · exact (get_eq_some_iff_mem m).mp (hsame ▸ hget)
  exact (subperm_of_subset hnodup hsub).length_le

section

variable (hsorted : l.Pairwise fun a b => a.1 < b.1)
include hsorted

theorem mem_take_of_le {x y : K × V} (hx : x ∈ l.take n) (hy : y ∈ l) (hle : y.1 ≤ x.1) : y ∈ l.take n := by
  rw [← take_append_drop n l] at hy hsorted
  obtain hy | hy := mem_append.mp hy
  · exact hy
  · exact absurd ((pairwise_append.mp hsorted).2.2 x hx y hy) (not_lt.mpr hle)

/-- A row is among the first `n` if fewer than `n` rows come before it. -/
theorem mem_take_iff {x : K × V} (hx : x ∈ l) : x ∈ l.take n ↔ (l.filter fun y => y.1 < x.1).length < n := by
  obtain ⟨before, later, rfl⟩ := append_of_mem hx
  obtain ⟨_, hlater, hcross⟩ := pairwise_append.mp hsorted
  have hbefore : (before ++ x :: later).filter (fun y => y.1 < x.1) = before := by
    rw [filter_append, filter_eq_self.mpr fun y hy => decide_eq_true (hcross y hy x mem_cons_self),
      filter_eq_nil_iff.mpr, append_nil]
    intro y hy
    obtain rfl | hy := mem_cons.mp hy
    · simp
    · simpa using ((pairwise_cons.mp hlater).1 y hy).le
  rw [hbefore]
  constructor
  · intro hmem
    by_contra hle
    rw [take_append_of_le_length (not_lt.mp hle)] at hmem
    exact lt_irrefl _ (hcross x (mem_of_mem_take hmem) x mem_cons_self)
  · intro hlt
    rw [take_append, mem_append]
    right
    obtain ⟨m, hm⟩ := Nat.exists_eq_add_of_lt hlt
    rw [hm, add_assoc, Nat.add_sub_cancel_left]
    exact mem_cons_self

/-- What holds between the rows in order holds whenever the keys are in order. -/
theorem pairwise_iff_forall_lt {R : K × V → K × V → Prop} : l.Pairwise R ↔ ∀ x ∈ l, ∀ y ∈ l, x.1 < y.1 → R x y := by
  refine ⟨fun h => ?_, fun h => hsorted.imp_of_mem fun hx hy hlt => h _ hx _ hy hlt⟩
  have hboth := hsorted.and h
  intro x hx y hy hlt
  obtain ⟨i, hi, rfl⟩ := mem_iff_getElem.mp hx
  obtain ⟨j, hj, rfl⟩ := mem_iff_getElem.mp hy
  rw [pairwise_iff_getElem] at hboth
  obtain hij | rfl | hji := lt_trichotomy i j
  · exact (hboth i j hi hj hij).2
  · exact absurd hlt (lt_irrefl _)
  · exact absurd hlt (lt_asymm (hboth j i hj hi hji).1)

end

theorem mem_rows_insertRow_of_ne {row : K × V} (hne : row.1 ≠ k) :
    ∀ {rows : List (K × V)}, row ∈ insertRow k v rows ↔ row ∈ rows
  | [] => by simp [insertRow]; rintro rfl; exact hne rfl
  | head :: rest => by
    unfold insertRow
    split
    · simp; rintro rfl; exact absurd rfl hne
    · split
      · rename_i heq
        simp only [mem_cons]
        constructor
        · rintro (rfl | h)
          · exact absurd rfl hne
          · exact .inr h
        · rintro (rfl | h)
          · exact absurd heq.symm hne
          · exact .inr h
      · simp [mem_rows_insertRow_of_ne hne]

theorem self_mem_insertRow (k : K) (v : V) : ∀ rows : List (K × V), (k, v) ∈ insertRow k v rows
  | [] => by simp [insertRow]
  | head :: rest => by
    unfold insertRow
    split
    · simp
    · split
      · simp
      · exact mem_cons_of_mem _ (self_mem_insertRow k v _)

@[simp] theorem get_set_self (m : OrdMap K V) (k : K) (v : V) : (m.set k v).get k = some v :=
  (get_eq_some_iff_mem _).mpr (self_mem_insertRow k v _)

theorem get_set_of_ne (m : OrdMap K V) {k' : K} (v : V) (hne : k' ≠ k) : (m.set k v).get k' = m.get k' := by
  apply Option.ext
  intro w
  simp only [get_eq_some_iff_mem, set]
  exact mem_rows_insertRow_of_ne hne

theorem get_set (m : OrdMap K V) (k k' : K) (v : V) : (m.set k v).get k' = if k' = k then some v else m.get k' := by
  split
  · rename_i heq
    subst heq
    exact m.get_set_self k' v
  · exact m.get_set_of_ne v ‹_›

theorem get_clear (m : OrdMap K V) (k k' : K) : (m.clear k).get k' = if k' = k then none else m.get k' := by
  apply Option.ext
  intro w
  rw [get_eq_some_iff_mem]
  simp only [clear, mem_filter, decide_eq_true_eq]
  split
  · simp_all
  · rename_i hne
    simp [hne, get_eq_some_iff_mem]

@[simp] theorem get_clear_self (m : OrdMap K V) (k : K) : (m.clear k).get k = none := by
  simp [get_clear]

theorem get_clear_of_ne (m : OrdMap K V) {k' : K} (hne : k' ≠ k) : (m.clear k).get k' = m.get k' := by
  simp [get_clear, hne]

theorem get_clearRange (m : OrdMap K V) (lo hi k : K) :
    (m.clearRange lo hi).get k = if lo ≤ k ∧ k < hi then none else m.get k := by
  apply Option.ext
  intro w
  rw [get_eq_some_iff_mem]
  simp only [clearRange, mem_filter, decide_eq_true_eq]
  split
  · simp_all
  · rename_i hout
    simp [hout, get_eq_some_iff_mem]

theorem get_mapVal {W : Type} (f : V → W) (m : OrdMap K V) (k : K) : (m.mapVal f).get k = (m.get k).map f := by
  apply Option.ext
  intro w
  simp only [get_eq_some_iff_mem, mapVal, mem_map, Prod.mk.injEq, Prod.exists, Option.map_eq_some_iff]
  constructor
  · rintro ⟨k', v, hmem, rfl, rfl⟩
    exact ⟨v, hmem, rfl⟩
  · rintro ⟨v, hmem, rfl⟩
    exact ⟨k, v, hmem, rfl, rfl⟩

theorem mapVal_eq_self_iff {f : V → V} : m.mapVal f = m ↔ ∀ k v, m.get k = some v → f v = v := by
  constructor
  · intro h k v hget
    have hmap := get_mapVal f m k
    rw [h, hget] at hmap
    exact (Option.some.inj hmap).symm
  · intro h
    refine ext_get fun k => ?_
    rw [get_mapVal]
    cases hget : m.get k with
    | none => rfl
    | some v => rw [Option.map_some, h k v hget]

theorem contains_eq_true_iff (m : OrdMap K V) : m.contains k = true ↔ ∃ v, m.get k = some v := by
  simp [contains, Option.isSome_iff_exists]

theorem get_ofList_eq_some {pairs : List (K × V)} (hget : (ofList pairs).get k = some v) : (k, v) ∈ pairs := by
  have hfold : ∀ (pairs : List (K × V)) (m : OrdMap K V),
      (pairs.foldl (fun m pair => m.set pair.1 pair.2) m).get k = some v →
        (k, v) ∈ pairs ∨ m.get k = some v := by
    intro pairs
    induction pairs with
    | nil => intro m h; exact .inr h
    | cons pair rest ih =>
      intro m h
      rcases ih _ h with h | h
      · exact .inl (mem_cons_of_mem _ h)
      · rw [get_set] at h
        split at h
        · rename_i heq
          exact .inl (by simp [Prod.ext_iff, heq, Option.some.inj h])
        · exact .inr h
  rcases hfold _ _ hget with h | h
  · exact h
  · simp at h

theorem contains_ofList {pairs : List (K × V)} : (ofList pairs).contains k = true ↔ ∃ v, (k, v) ∈ pairs := by
  have hfold : ∀ (pairs : List (K × V)) (m : OrdMap K V),
      (∃ v, (pairs.foldl (fun m pair => m.set pair.1 pair.2) m).get k = some v) ↔
        (∃ v, (k, v) ∈ pairs) ∨ ∃ v, m.get k = some v := by
    intro pairs
    induction pairs with
    | nil => simp
    | cons pair _ ih =>
      intro m
      simp only [foldl_cons, ih, get_set, mem_cons]
      by_cases heq : k = pair.1
      · subst heq
        simp only [↓reduceIte, Option.some.injEq, exists_eq', or_true, true_iff]
        exact .inl ⟨pair.2, .inl rfl⟩
      · simp [heq, ↓reduceIte, Prod.ext_iff, false_and, false_or]
  rw [contains_eq_true_iff]
  simpa [ofList] using hfold _ empty

/-- Collecting the rows of a map gives the map back. -/
theorem ofList_rows (m : OrdMap K V) : ofList m.rows = m := by
  refine ext_get fun k => ?_
  cases hget : (ofList m.rows).get k with
  | some => exact (m.get_eq_some_iff_mem.mpr (get_ofList_eq_some hget)).symm
  | none =>
    cases hrow : m.get k with
    | none => rfl
    | some v =>
      have hcontains : (ofList m.rows).contains k = true :=
        contains_ofList.mpr ⟨v, m.get_eq_some_iff_mem.mp hrow⟩
      simp [contains, hget] at hcontains

section Count

variable (p : K → Bool)

theorem countKeys_empty : countKeys p (empty : OrdMap K V) = 0 := rfl

theorem countKeys_insertRow (k : K) (v : V) :
    ∀ {rows : List (K × V)}, rows.Pairwise (fun a b => a.1 < b.1) → (∀ w, (k, w) ∉ rows) →
      (insertRow k v rows).countP (fun row => p row.1) =
        rows.countP (fun row => p row.1) + if p k then 1 else 0
  | [], _, _ => by simp [insertRow, countP_cons]
  | head :: rest, hsorted, hfresh => by
    unfold insertRow
    split
    · rw [countP_cons]
    · split
      · rename_i heq
        exact absurd (by simp [heq]) (hfresh head.2)
      · have ih := countKeys_insertRow k v (pairwise_cons.mp hsorted).2
          (fun w hmem => hfresh w (mem_cons_of_mem _ hmem))
        simp only [countP_cons, ih]
        omega

theorem countKeys_set_of_none (m : OrdMap K V) {k : K} (v : V) (hfresh : m.get k = none) :
    countKeys p (m.set k v) = countKeys p m + if p k then 1 else 0 :=
  countKeys_insertRow p k v m.sorted (m.get_eq_none_iff.mp hfresh)

theorem countKeys_filter_ne {k : K} :
    ∀ {rows : List (K × V)}, rows.Pairwise (fun a b => a.1 < b.1) → ∀ {v : V}, (k, v) ∈ rows →
      (rows.filter (fun row => decide (row.1 ≠ k))).countP (fun row => p row.1) +
        (if p k then 1 else 0) = rows.countP (fun row => p row.1)
  | [], _, _, hmem => by simp at hmem
  | head :: rest, hsorted, v, hmem => by
    obtain ⟨hhead, hrest⟩ := pairwise_cons.mp hsorted
    rcases mem_cons.mp hmem with rfl | hmem
    · have hall : rest.filter (fun row => decide (row.1 ≠ k)) = rest := by
        rw [filter_eq_self]
        intro row hrow
        simpa using (hhead _ hrow).ne'
      rw [filter_cons_of_neg (by simp), hall, countP_cons]
    · have hne : head.1 ≠ k := (hhead _ hmem).ne
      have ih := countKeys_filter_ne hrest hmem
      rw [filter_cons_of_pos (by simpa using hne)]
      simp only [countP_cons]
      omega

theorem countKeys_clear_of_some (m : OrdMap K V) {k : K} {v : V} (hget : m.get k = some v) :
    countKeys p (m.clear k) + (if p k then 1 else 0) = countKeys p m :=
  countKeys_filter_ne p m.sorted (m.get_eq_some_iff_mem.mp hget)

private theorem keys_nodup (m : OrdMap K V) : (m.rows.map Prod.fst).Nodup := by
  rw [Nodup, pairwise_map]
  exact m.sorted.imp fun hlt => hlt.ne

private theorem countKeys_eq_length (m : OrdMap K V) : countKeys p m = ((m.rows.map Prod.fst).filter p).length := by
  rw [← countP_eq_length_filter, countP_map]
  rfl

/-- Keys of one kind are no more than those of another to which they can be
mapped injectively. -/
theorem countKeys_le {q : K → Bool} {m m' : OrdMap K V} (f : K → K)
    (hf : ∀ k v, m.get k = some v → p k = true → ∃ v', m'.get (f k) = some v' ∧ q (f k) = true)
    (hinj : ∀ k k', p k = true → p k' = true → f k = f k' → k = k') : countKeys p m ≤ countKeys q m' := by
  rw [countKeys_eq_length, countKeys_eq_length, ← length_map f]
  refine Subperm.length_le (subperm_of_subset ?_ ?_)
  · rw [Nodup, pairwise_map, pairwise_filter]
    refine (keys_nodup m).imp ?_
    intro k k' hne hk hk' heq
    exact hne (hinj k k' hk hk' heq)
  · intro _ himage
    obtain ⟨k, hk, rfl⟩ := mem_map.mp himage
    obtain ⟨hmem, hp⟩ := mem_filter.mp hk
    obtain ⟨⟨_, v⟩, hrow, rfl⟩ := mem_map.mp hmem
    obtain ⟨v', hv', hq⟩ := hf _ v (m.get_eq_some_iff_mem.mpr hrow) hp
    exact mem_filter.mpr ⟨mem_map.mpr ⟨_, m'.get_eq_some_iff_mem.mp hv', rfl⟩, hq⟩

theorem countKeys_congr {m m' : OrdMap K V}
    (h : ∀ k, p k = true → (m.get k).isSome = (m'.get k).isSome) : countKeys p m = countKeys p m' := by
  refine le_antisymm (countKeys_le p id ?_ fun _ _ _ _ heq => heq)
    (countKeys_le p id ?_ fun _ _ _ _ heq => heq)
  · intro k v hv hp
    have hsome := h k hp
    rw [hv] at hsome
    obtain ⟨v', hv'⟩ := Option.isSome_iff_exists.mp hsome.symm
    exact ⟨v', hv', hp⟩
  · intro k v hv hp
    have hsome := h k hp
    rw [hv] at hsome
    obtain ⟨v', hv'⟩ := Option.isSome_iff_exists.mp hsome
    exact ⟨v', hv', hp⟩

theorem length_range_congr {m m' : OrdMap K V} {lo hi : K}
    (h : ∀ k, lo ≤ k → k < hi → (m.get k).isSome = (m'.get k).isSome) :
    (m.range lo hi).length = (m'.range lo hi).length := by
  have hcount := countKeys_congr (p := fun k => decide (lo ≤ k ∧ k < hi)) fun k hk =>
    h k (of_decide_eq_true hk).1 (of_decide_eq_true hk).2
  simpa [countKeys, range, countP_eq_length_filter] using hcount

end Count

section Loops

variable {ι : Type}

theorem get_foldl_clear (xs : List ι) (key : ι → K) (m : OrdMap K V) (k : K) :
    (xs.foldl (fun m x => m.clear (key x)) m).get k = if k ∈ xs.map key then none else m.get k := by
  induction xs generalizing m with
  | nil => simp
  | cons x rest ih =>
    rw [foldl_cons, ih, get_clear]
    by_cases hrest : k ∈ rest.map key
    · simp [hrest]
    · by_cases hx : k = key x <;> simp_all

/-- What is read after a loop over the rows, when a row touches it just if it has
the given key. -/
theorem foldl_rows_eq {σ β : Type} (m : OrdMap K V) (k : K) {step : σ → K × V → σ} (read : σ → β) (val : V → β)
    (hhit : ∀ s row, row.1 = k → read (step s row) = val row.2)
    (hmiss : ∀ s row, row.1 ≠ k → read (step s row) = read s) (s : σ) :
    read (m.rows.foldl step s) = ((m.get k).map val).getD (read s) := by
  obtain ⟨rows, hsorted⟩ := m
  rw [get]
  induction rows generalizing s with
  | nil => rfl
  | cons row rows ih =>
    obtain ⟨hrow, hrows⟩ := pairwise_cons.mp hsorted
    rw [foldl_cons, ih _ hrows]
    by_cases hk : row.1 = k
    · have hnone : rows.find? (fun row => decide (row.1 = k)) = none := by
        rw [find?_eq_none]
        intro row' hrow'
        simpa using fun heq : row'.1 = k => (hrow _ hrow').ne (hk.trans heq.symm)
      simp [hk, hnone, hhit]
    · simp [hk, hmiss]

theorem get_foldl_set_of_notMem {xs : List ι} {key : ι → K} {val : ι → V} {k : K}
    (hk : k ∉ xs.map key) (m : OrdMap K V) : (xs.foldl (fun m x => m.set (key x) (val x)) m).get k = m.get k := by
  induction xs generalizing m with
  | nil => rfl
  | cons _ _ ih =>
    simp only [map_cons, mem_cons, not_or] at hk
    rw [foldl_cons, ih hk.2, m.get_set_of_ne _ hk.1]

/-- When all rows written to one key carry one value, that value is read back. -/
theorem get_foldl_set_of_mem {xs : List ι} {key : ι → K} {val : ι → V} {k : K} {v : V}
    (hk : k ∈ xs.map key) (hval : ∀ x ∈ xs, key x = k → val x = v) (m : OrdMap K V) :
    (xs.foldl (fun m x => m.set (key x) (val x)) m).get k = some v := by
  induction xs generalizing m with
  | nil => simp at hk
  | cons x rest ih =>
    rw [foldl_cons]
    by_cases hrest : k ∈ rest.map key
    · exact ih hrest (fun y hy => hval y (mem_cons_of_mem _ hy)) _
    · rw [get_foldl_set_of_notMem hrest]
      have hx : key x = k := by
        rcases mem_cons.mp hk with h | h
        · exact h.symm
        · exact absurd h hrest
      rw [hx, get_set_self, hval x mem_cons_self hx]

section Count

variable (p : K → Bool) {xs : List ι} {key : ι → K}

theorem countKeys_foldl_clear (hnodup : (xs.map key).Nodup) {m : OrdMap K V}
    (hpresent : ∀ x ∈ xs, ∃ v, m.get (key x) = some v) :
    countKeys p (xs.foldl (fun m x => m.clear (key x)) m) + xs.countP (fun x => p (key x)) = countKeys p m := by
  induction xs generalizing m with
  | nil => simp
  | cons x _ ih =>
    obtain ⟨hx, hrest⟩ := nodup_cons.mp hnodup
    obtain ⟨v, hv⟩ := hpresent x mem_cons_self
    have hclear := countKeys_clear_of_some p m hv
    have hih := ih hrest fun y hy => by
      have hne : key y ≠ key x := fun heq => hx (heq ▸ mem_map_of_mem hy)
      rw [m.get_clear_of_ne hne]
      exact hpresent y (mem_cons_of_mem _ hy)
    rw [foldl_cons, countP_cons]
    omega

theorem countKeys_foldl_set (hnodup : (xs.map key).Nodup) {m : OrdMap K V} (v : V)
    (hfresh : ∀ x ∈ xs, m.get (key x) = none) : countKeys p (xs.foldl (fun m x => m.set (key x) v) m) =
      countKeys p m + xs.countP (fun x => p (key x)) := by
  induction xs generalizing m with
  | nil => simp
  | cons x _ ih =>
    obtain ⟨hx, hrest⟩ := nodup_cons.mp hnodup
    have hset := countKeys_set_of_none p m v (hfresh x mem_cons_self)
    have hih := ih hrest fun y hy => by
      have hne : key y ≠ key x := fun heq => hx (heq ▸ mem_map_of_mem hy)
      rw [m.get_set_of_ne v hne]
      exact hfresh y (mem_cons_of_mem _ hy)
    rw [foldl_cons, countP_cons]
    omega

end Count

end Loops

section Traverse

variable {W ε : Type}

/-- A conversion of the values that may fail, in the order of the keys. -/
def traverse (f : V → Except ε W) (m : OrdMap K V) : Except ε (OrdMap K W) :=
  (m.rows.mapM fun row => (f row.2).map fun w => (row.1, w)).map ofList

theorem traverse_mapVal {p : V → W} {f : W → Except ε V} {m : OrdMap K V}
    (h : ∀ k v, m.get k = some v → f (p v) = .ok v) : (m.mapVal p).traverse f = .ok m := by
  have hrows : ∀ rows : List (K × V), (∀ row ∈ rows, f (p row.2) = .ok row.2) →
      ((rows.map fun row => (row.1, p row.2)).mapM fun row => (f row.2).map fun v => (row.1, v)) = .ok rows := by
    intro rows hrows
    induction rows with
    | nil => rfl
    | cons _ _ ih =>
      obtain ⟨hrow, hrest⟩ := forall_mem_cons.mp hrows
      rw [map_cons, mapM_cons, hrow, ih hrest]
      rfl
  have hall := hrows _ fun _ hrow => h _ _ (m.get_eq_some_iff_mem.mpr hrow)
  rw [traverse, show (m.mapVal p).rows = m.rows.map fun row => (row.1, p row.2) from rfl, hall]
  exact congrArg _ (ofList_rows m)

theorem get_of_traverse {f : V → Except ε W} {m : OrdMap K V} {m' : OrdMap K W} (h : m.traverse f = .ok m') {k : K}
    {w : W} (hget : m'.get k = some w) : ∃ v, m.get k = some v ∧ f v = .ok w := by
  have hrows : ∀ (rows : List (K × V)) (out : List (K × W)),
      (rows.mapM fun row => (f row.2).map fun w => (row.1, w)) = .ok out → (k, w) ∈ out →
        ∃ v, (k, v) ∈ rows ∧ f v = .ok w := by
    intro rows
    induction rows with
    | nil =>
      rintro _ h hmem
      cases h
      cases hmem
    | cons row rows ih =>
      intro _ h hmem
      rw [mapM_cons] at h
      cases hrow : f row.2 with
      | error =>
        rw [hrow] at h
        cases h
      | ok =>
        cases hrest : rows.mapM fun row => (f row.2).map fun w => (row.1, w) with
        | error =>
          rw [hrow, hrest] at h
          cases h
        | ok out' =>
          rw [hrow, hrest] at h
          cases h
          obtain heq | hmem := mem_cons.mp hmem
          · obtain ⟨rfl, rfl⟩ := Prod.mk.inj heq
            exact ⟨row.2, mem_cons_self, hrow⟩
          · obtain ⟨v, hv, hf⟩ := ih _ hrest hmem
            exact ⟨v, mem_cons_of_mem _ hv, hf⟩
  unfold traverse at h
  cases hout : m.rows.mapM fun row => (f row.2).map fun w => (row.1, w) with
  | error =>
    rw [hout] at h
    cases h
  | ok out =>
    rw [hout] at h
    cases h
    obtain ⟨v, hv, hf⟩ := hrows _ _ hout (get_ofList_eq_some hget)
    exact ⟨v, m.get_eq_some_iff_mem.mpr hv, hf⟩

end Traverse
end OrdMap

end

variable {K V E : Type} [LinearOrder K]

/-- Things that are each stored under a group of keys, the same value under all
of them. Two groups that share a key are the same. -/
structure Grouping (K V E : Type) where
  group : E → List K
  Holds : E → V → Prop
  same_of_mem : ∀ {e e' : E} {k : K}, k ∈ group e → k ∈ group e' → group e = group e'

namespace Grouping

variable (g : Grouping K V E) (S : K → Prop)

/-- Every row in `S` belongs to a thing that is there under its whole group. -/
def Stored (rows : OrdMap K V) : Prop :=
  ∀ k v, S k → rows.get k = some v → ∃ e, k ∈ g.group e ∧ g.Holds e v ∧ ∀ k' ∈ g.group e, rows.get k' = some v

variable {g S} {rows rows' : OrdMap K V}

theorem stored_of_none (h : ∀ k, S k → rows.get k = none) : g.Stored S rows := by
  intro k v hk hget
  rw [h k hk] at hget
  cases hget

section

variable (h : g.Stored S rows)
include h

theorem Stored.put {e : E} {v : V} (hv : g.Holds e v)
    (hin : ∀ k ∈ g.group e, rows'.get k = some v) (hout : ∀ k, k ∉ g.group e → rows'.get k = rows.get k) :
    g.Stored S rows' := by
  intro k v' hk hv'
  by_cases hmem : k ∈ g.group e
  · rw [hin k hmem] at hv'
    cases hv'
    exact ⟨e, hmem, hv, hin⟩
  · rw [hout k hmem] at hv'
    obtain ⟨e', hmem', hholds, hall⟩ := h k v' hk hv'
    refine ⟨e', hmem', hholds, fun k' hk' => ?_⟩
    -- a shared key would put the row itself into the group that was written
    have hother : k' ∉ g.group e := fun hboth => hmem (g.same_of_mem hk' hboth ▸ hmem')
    rw [hout k' hother, hall k' hk']

theorem Stored.drop {es : List E} (hin : ∀ k ∈ es.flatMap g.group, rows'.get k = none)
    (hout : ∀ k, k ∉ es.flatMap g.group → rows'.get k = rows.get k) : g.Stored S rows' := by
  intro k v hk hv
  by_cases hmem : k ∈ es.flatMap g.group
  · rw [hin k hmem] at hv
    cases hv
  · rw [hout k hmem] at hv
    obtain ⟨e', hmem', hholds, hall⟩ := h k v hk hv
    refine ⟨e', hmem', hholds, fun k' hk' => ?_⟩
    have hother : k' ∉ es.flatMap g.group := by
      intro hboth
      obtain ⟨e, he, hboth⟩ := mem_flatMap.mp hboth
      exact hmem (mem_flatMap.mpr ⟨e, he, g.same_of_mem hk' hboth ▸ hmem'⟩)
    rw [hout k' hother, hall k' hk']

theorem Stored.keep (hS : ∀ {e v}, g.Holds e v → ∀ k ∈ g.group e, S k)
    (hget : ∀ k, S k → rows'.get k = rows.get k) : g.Stored S rows' := by
  intro k v hk hv
  rw [hget k hk] at hv
  obtain ⟨e, hmem, hholds, hall⟩ := h k v hk hv
  exact ⟨e, hmem, hholds, fun k' hk' => (hget k' (hS hholds k' hk')).trans (hall k' hk')⟩

/-- The rows of a group hold the same. -/
theorem Stored.get_eq {e : E} (hS : ∀ k ∈ g.group e, S k) {k k' : K} (hk : k ∈ g.group e)
    (hk' : k' ∈ g.group e) : rows.get k = rows.get k' := by
  have hsome : ∀ {k k' : K} {v : V}, k ∈ g.group e → k' ∈ g.group e → rows.get k = some v → rows.get k' = some v := by
    intro k k' v hk hk' hv
    obtain ⟨e', hmem, _, hall⟩ := h k v (hS k hk) hv
    exact hall k' (g.same_of_mem hk hmem ▸ hk')
  cases hv : rows.get k with
  | some => exact (hsome hk hk' hv).symm
  | none =>
    cases hv' : rows.get k' with
    | none => rfl
    | some =>
      rw [hsome hk' hk hv'] at hv
      cases hv

end

end Grouping

end kv
