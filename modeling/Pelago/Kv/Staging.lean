import Pelago.Kv.OrderedMap

namespace kv.OrdMap

open Option (bind_some getD_some map map_some)

variable {A K V : Type} [LinearOrder K]

/-- Writes a value under all of the keys, or removes what they hold. -/
def put (m : OrdMap K V) (keys : List K) (v : Option V) : OrdMap K V :=
  keys.foldl (fun m k => match v with
    | some x => m.set k x
    | none => m.clear k) m

theorem get_put (m : OrdMap K V) (keys : List K) (v : Option V) (k : K) :
    (m.put keys v).get k = if k ∈ keys then v else m.get k := by
  induction keys generalizing m with
  | nil => simp [put]
  | cons k' keys ih =>
    have hstep : (m.put (k' :: keys) v).get k = if k ∈ keys then v else (m.put [k'] v).get k := ih _
    rw [hstep]
    cases v <;> by_cases hk : k ∈ keys <;> simp [put, get_set, get_clear, hk]

variable (keys : A → List K)

/-- A change of an item, by what it is before: nothing, or what it becomes. -/
structure Change (A V : Type) where
  item : A
  become : Option V → Option (Option V)

/-- Does a change at once. An item is read under the first of its keys. -/
def act (m : OrdMap K V) (c : Change A V) : OrdMap K V :=
  ((c.become ((keys c.item).head?.bind m.get)).map (m.put (keys c.item))).getD m

/-- A change does the same to what reads the same. -/
def Change.Respects (f : V → V) (c : Change A V) : Prop :=
  ∀ x y, x.map f = y.map f → (c.become x).map (map f) = (c.become y).map (map f)

theorem mapVal_foldl_act {f : V → V} {changes : List (Change A V)} (hchanges : ∀ c ∈ changes, c.Respects f)
    {m m' : OrdMap K V} (h : m.mapVal f = m'.mapVal f) :
    (changes.foldl (act keys) m).mapVal f = (changes.foldl (act keys) m').mapVal f := by
  induction changes generalizing m m' with
  | nil => exact h
  | cons c _ ih =>
    refine ih (fun c hc => hchanges c (List.mem_cons_of_mem _ hc)) ?_
    have hget (k : K) : (m.get k).map f = (m'.get k).map f := by rw [← get_mapVal, h, get_mapVal]
    have hread := hchanges c List.mem_cons_self ((keys c.item).head?.bind m.get) ((keys c.item).head?.bind m'.get)
      (by cases (keys c.item).head? <;> simp [hget])
    rw [act, act]
    revert hread
    cases c.become ((keys c.item).head?.bind m.get) <;> cases c.become ((keys c.item).head?.bind m'.get) <;> intro hread
    · exact h
    · cases hread
    · cases hread
    · refine ext_get fun k => ?_
      simp only [map_some, getD_some, get_mapVal, get_put]
      split
      · exact Option.some.inj hread
      · exact hget k

theorem mapVal_idem {f : V → V} (hf : ∀ v, f (f v) = f v) (m : OrdMap K V) : (m.mapVal f).mapVal f = m.mapVal f := by
  refine mapVal_eq_self_iff.mpr fun k v hget => ?_
  obtain ⟨v, _, rfl⟩ := Option.map_eq_some_iff.mp ((get_mapVal f m k).symm.trans hget)
  exact hf v

variable [LinearOrder A]

/-- Writes out what is pending for each item: an item stands under all of its keys. -/
def flush (pending : OrdMap A (Option V)) (m : OrdMap K V) : OrdMap K V :=
  pending.rows.foldl (fun m row => m.put (keys row.1) row.2) m

/-- An item with what is pending for it. -/
def peek (m : OrdMap K V) (pending : OrdMap A (Option V)) (a : A) : Option V :=
  (pending.get a).getD ((keys a).head?.bind m.get)

/-- Makes a change pending, on top of what is pending already. -/
def stage (m : OrdMap K V) (pending : OrdMap A (Option V)) (c : Change A V) : OrdMap A (Option V) :=
  ((c.become (peek keys m pending c.item)).map (pending.set c.item)).getD pending

theorem peek_stage (m : OrdMap K V) (pending : OrdMap A (Option V)) (c : Change A V) (a : A) :
    peek keys m (stage keys m pending c) a =
      if c.item = a then (c.become (peek keys m pending a)).getD (peek keys m pending a) else peek keys m pending a := by
  rw [stage]
  split
  next ha =>
    rw [ha]
    cases c.become (peek keys m pending a) with
    | none => rfl
    | some => rw [map_some, getD_some, peek, get_set_self, getD_some, getD_some]
  next ha =>
    cases c.become (peek keys m pending c.item) with
    | none => rfl
    | some => rw [map_some, getD_some, peek, get_set_of_ne _ _ (symm ha), peek]

/-- The item has keys, and no other item has one of them. -/
def Owned (a : A) : Prop := keys a ≠ [] ∧ ∀ k ∈ keys a, ∀ a', k ∈ keys a' → a' = a

variable {keys} {pending : OrdMap A (Option V)} {a : A} {k : K}

theorem get_flush (ha : Owned keys a) (hk : k ∈ keys a) (pending : OrdMap A (Option V)) (m : OrdMap K V) :
    (flush keys pending m).get k = (pending.get a).getD (m.get k) := by
  refine (pending.foldl_rows_eq a (fun m : OrdMap K V => m.get k) id (fun m _ hrow => ?_)
    (fun m _ hrow => ?_) m).trans (by rw [Option.map_id, id])
  · rw [get_put, hrow, if_pos hk, id]
  · rw [get_put, if_neg fun hmem => hrow (ha.2 k hk _ hmem)]

theorem get_flush_of_notMem (h : ∀ row ∈ pending.rows, k ∉ keys row.1) (m : OrdMap K V) :
    (flush keys pending m).get k = m.get k := by
  rw [flush]
  generalize pending.rows = rows at h
  induction rows generalizing m with
  | nil => rfl
  | cons row _ ih =>
    rw [List.foldl_cons, ih _ fun row' hrow' => h _ (List.mem_cons_of_mem _ hrow'), get_put,
      if_neg (h _ List.mem_cons_self)]

/-- An item that becomes pending last is written last. -/
theorem flush_set (hpending : ∀ a v, pending.get a = some v → Owned keys a) (ha : Owned keys a) (v : Option V)
    (m : OrdMap K V) : flush keys (pending.set a v) m = (flush keys pending m).put (keys a) v := by
  apply ext_get
  intro k
  rw [get_put]
  split
  next hk => rw [get_flush ha hk, get_set_self, getD_some]
  next hk =>
    by_cases hrow : ∃ row ∈ pending.rows, k ∈ keys row.1
    · obtain ⟨row, hrow, hmem⟩ := hrow
      have howned := hpending _ _ (pending.get_eq_some_iff_mem.mpr hrow)
      rw [get_flush howned hmem, get_flush howned hmem, get_set_of_ne]
      rintro rfl
      exact hk hmem
    · rw [get_flush_of_notMem fun row hmem hk => hrow ⟨row, hmem, hk⟩, get_flush_of_notMem fun row hmem hkeys => ?_]
      have hget := (get_eq_some_iff_mem _).mpr hmem
      rw [get_set] at hget
      split at hget
      next ha => exact hk (ha ▸ hkeys)
      next => exact hrow ⟨row, pending.get_eq_some_iff_mem.mp hget, hkeys⟩

/-- Changes that are staged and then written out are done one by one. -/
theorem flush_foldl_stage {changes : List (Change A V)} (hchanges : ∀ c ∈ changes, Owned keys c.item)
    (hpending : ∀ a v, pending.get a = some v → Owned keys a) (m : OrdMap K V) :
    flush keys (changes.foldl (stage keys m) pending) m = changes.foldl (act keys) (flush keys pending m) := by
  induction changes generalizing pending with
  | nil => rfl
  | cons c _ ih =>
    have ha := hchanges c List.mem_cons_self
    obtain ⟨k, _, hkeys⟩ := List.exists_cons_of_ne_nil ha.1
    have hread := get_flush ha (hkeys ▸ List.mem_cons_self) pending m
    rw [List.foldl_cons, List.foldl_cons, stage, peek, act, hkeys, List.head?_cons, bind_some, bind_some, hread]
    have hrest := fun c hc => hchanges c (List.mem_cons_of_mem _ hc)
    cases c.become ((pending.get c.item).getD (m.get k)) with
    | none => exact ih hrest hpending
    | some =>
      refine (ih hrest fun a' v' hget => ?_).trans ?_
      · rw [map_some, getD_some, get_set] at hget
        split at hget
        next h => exact h ▸ ha
        next => exact hpending a' v' hget
      · rw [map_some, getD_some, flush_set hpending ha, hkeys]
        rfl

end kv.OrdMap
