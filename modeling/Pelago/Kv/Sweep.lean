import Pelago.Kv.OrderedMap

open List kv.OrdMap

namespace kv

/-- A pass over the rows of a range. For each row at most one key is cleared. -/
structure Sweep (K V : Type) where
  lo : K
  hi : K
  cleared : K × V → Option K

namespace Sweep

variable {K V : Type} [LinearOrder K]

/-- The next rows of a pass that has come to `start`. -/
def page (σ : Sweep K V) (start : Option K) (n : Nat) (m : OrdMap K V) : List (K × V) :=
  (m.range (start.getD σ.lo) σ.hi).take n

def clear (σ : Sweep K V) (page : List (K × V)) (m : OrdMap K V) : OrdMap K V :=
  (page.filterMap σ.cleared).foldl OrdMap.clear m

/-- The keys that a pass over `origin` clears. -/
def Clears (σ : Sweep K V) (origin : OrdMap K V) (k : K) : Prop :=
  ∃ row ∈ origin.range σ.lo σ.hi, σ.cleared row = some k

/-- What a pass over `origin` clears for the rows at some keys is gone from `m`. -/
def Gone (σ : Sweep K V) (origin m : OrdMap K V) (keys : K → Prop) : Prop :=
  ∀ row ∈ origin.range σ.lo σ.hi, keys row.1 → ∀ k, σ.cleared row = some k → m.get k = none

/-- A row that `σ` clears is not one that `τ` has to read in order to clear another. -/
def Spares (origin : OrdMap K V) (σ τ : Sweep K V) : Prop :=
  ∀ k, σ.Clears origin k → ∀ v k', (k, v) ∈ origin.range τ.lo τ.hi → τ.cleared (k, v) = some k' → k' = k

/-- The map of a sequence of passes over `origin`: only what they clear is gone, and a row that is
still to be read is there. -/
structure Swept (all : List (Sweep K V)) (origin m : OrdMap K V) : Prop where
  removed : ∀ k, m.get k = origin.get k ∨ m.get k = none ∧ ∃ σ ∈ all, σ.Clears origin k
  unread : ∀ σ ∈ all, ∀ row ∈ origin.range σ.lo σ.hi,
    m.get row.1 = some row.2 ∨ ∀ k, σ.cleared row = some k → m.get k = none

variable {σ : Sweep K V} {all : List (Sweep K V)} {origin m m' : OrdMap K V} {start : Option K} {n : Nat}

theorem get_clear (σ : Sweep K V) (page : List (K × V)) (m : OrdMap K V) (k : K) :
    (σ.clear page m).get k = if k ∈ page.filterMap σ.cleared then none else m.get k := by
  have hget := get_foldl_clear (page.filterMap σ.cleared) id m k
  rwa [map_id] at hget

theorem get_clear_none {page : List (K × V)} {k : K} (h : m.get k = none) : (σ.clear page m).get k = none := by
  rw [get_clear, h, ite_self]

theorem get_clear_of_mem {page : List (K × V)} {row : K × V} (hrow : row ∈ page) {k : K}
    (hk : σ.cleared row = some k) : (σ.clear page m).get k = none := by
  rw [get_clear, if_pos (mem_filterMap.mpr ⟨row, hrow, hk⟩)]

theorem Gone.mono {keys : K → Prop} (h : σ.Gone origin m keys) (hm : ∀ k, m.get k = none → m'.get k = none) :
    σ.Gone origin m' keys :=
  fun row hrow hkey k hk => hm k (h _ hrow hkey k hk)

theorem Swept.refl (all : List (Sweep K V)) (origin : OrdMap K V) : Swept all origin origin :=
  ⟨fun _ => .inl rfl, fun _ _ _ hrow => .inl (origin.get_eq_some_iff_mem.mpr (origin.mem_range.mp hrow).1)⟩

section

variable (h : Swept all origin m)
include h

/-- The rows that are left are rows of the beginning. -/
theorem Swept.get_origin {k : K} {v : V} (hget : m.get k = some v) : origin.get k = some v := by
  obtain hsame | ⟨hnone, _⟩ := h.removed k
  · rw [← hsame, hget]
  · simp [hnone] at hget

theorem Swept.mem_origin (hlow : σ.lo ≤ start.getD σ.lo) {row : K × V}
    (hrow : row ∈ σ.page start n m) : row ∈ origin.range σ.lo σ.hi := by
  obtain ⟨hmem, hge, hlt⟩ := m.mem_range.mp (mem_of_mem_take hrow)
  exact origin.mem_range.mpr ⟨origin.get_eq_some_iff_mem.mp (h.get_origin (m.get_eq_some_iff_mem.mpr hmem)),
    hlow.trans hge, hlt⟩

/-- A page keeps this, if each pass has come to its end or is spared. -/
theorem Swept.page (hσ : σ ∈ all) (hlow : σ.lo ≤ start.getD σ.lo)
    (hothers : ∀ τ ∈ all, (τ.Gone origin m fun _ => True) ∨ Spares origin σ τ) :
    Swept all origin (σ.clear (σ.page start n m) m) := by
  have hcleared : ∀ k, k ∈ (σ.page start n m).filterMap σ.cleared → σ.Clears origin k := by
    intro k hk
    obtain ⟨row, hrow, hk⟩ := mem_filterMap.mp hk
    exact ⟨row, h.mem_origin hlow hrow, hk⟩
  constructor
  · intro k
    rw [get_clear]
    split
    next hk => exact .inr ⟨rfl, σ, hσ, hcleared k hk⟩
    next => exact h.removed k
  · intro τ hτ row hrow
    obtain hhere | hgone := h.unread τ hτ _ hrow
    · rw [get_clear]
      split
      next hk =>
        -- the row of `τ` goes away now: `τ` is done with, or it would only clear the row itself
        refine .inr fun k hk' => ?_
        obtain hgone | hspares := hothers τ hτ
        · exact get_clear_none (hgone _ hrow trivial k hk')
        · obtain rfl := hspares _ (hcleared _ hk) _ k hrow hk'
          rw [get_clear, if_pos hk]
      next => exact .inl hhere
    · exact .inr fun k hk => get_clear_none (hgone k hk)

/-- A page moves the pass on to the end of what it holds. -/
theorem Swept.gone_page (hσ : σ ∈ all) (hgone : σ.Gone origin m (· < start.getD σ.lo)) {keys : K → Prop}
    (hkeys : ∀ row ∈ m.range (start.getD σ.lo) σ.hi, keys row.1 → row ∈ σ.page start n m) :
    σ.Gone origin (σ.clear (σ.page start n m) m) keys := by
  intro row hrow hkey k hk
  by_cases hpassed : row.1 < start.getD σ.lo
  · exact get_clear_none (hgone _ hrow hpassed k hk)
  obtain hhere | hgone := h.unread σ hσ _ hrow
  · have hmem : row ∈ m.range (start.getD σ.lo) σ.hi :=
      m.mem_range.mpr ⟨m.get_eq_some_iff_mem.mp hhere, not_lt.mp hpassed, (origin.mem_range.mp hrow).2.2⟩
    exact get_clear_of_mem (hkeys _ hmem hkey) hk
  · exact get_clear_none (hgone k hk)

theorem Swept.gone_of_short (hσ : σ ∈ all)
    (hgone : σ.Gone origin m (· < start.getD σ.lo)) (hshort : (σ.page start n m).length < n) :
    σ.Gone origin (σ.clear (σ.page start n m) m) fun _ => True := by
  refine h.gone_page hσ hgone fun _ _ _ => ?_
  rw [Sweep.page, length_take] at hshort
  rwa [Sweep.page, take_of_length_le (by omega)]

theorem Swept.gone_of_last (hσ : σ ∈ all) (hgone : σ.Gone origin m (· < start.getD σ.lo)) {last : K × V}
    (hlast : (σ.page start n m).getLast? = some last) {next : K} (hnext : ∀ k, next ≤ k ↔ last.1 < k) :
    σ.Gone origin (σ.clear (σ.page start n m) m) (· < next) := by
  refine h.gone_page hσ hgone fun row hrow hbefore => ?_
  have hle : row.1 ≤ last.1 := not_lt.mp fun hlt => absurd ((hnext _).mpr hlt) (not_le.mpr hbefore)
  exact mem_take_of_le (m.range_sorted ..) (mem_of_getLast? hlast) hrow hle

/-- After all passes exactly what they clear is gone. -/
theorem Swept.get_eq (hall : ∀ σ ∈ all, σ.Gone origin m fun _ => True) (k : K) :
    ((∃ σ ∈ all, σ.Clears origin k) → m.get k = none) ∧
      ((¬ ∃ σ ∈ all, σ.Clears origin k) → m.get k = origin.get k) := by
  constructor
  · rintro ⟨σ, hσ, row, hrow, hk⟩
    exact hall σ hσ _ hrow trivial k hk
  · intro hnot
    exact (h.removed k).resolve_right fun hgone => hnot hgone.2

end

/-- Behind a page less is left to read. -/
theorem length_range_clear_lt {last : K × V} (hlast : (σ.page start n m).getLast? = some last) {next : K}
    (hnext : ∀ k, next ≤ k ↔ last.1 < k) :
    ((σ.clear (σ.page start n m) m).range next σ.hi).length < (m.range (start.getD σ.lo) σ.hi).length := by
  have hsub : last :: (σ.clear (σ.page start n m) m).range next σ.hi ⊆ m.range (start.getD σ.lo) σ.hi := by
    have hmem := mem_of_mem_take (mem_of_getLast? hlast)
    intro _ hrow
    obtain rfl | hrow := mem_cons.mp hrow
    · exact hmem
    obtain ⟨hrow, hge, hlt⟩ := mem_range _ |>.mp hrow
    rw [← get_eq_some_iff_mem, get_clear] at hrow
    split at hrow
    · cases hrow
    · exact m.mem_range.mpr ⟨m.get_eq_some_iff_mem.mp hrow,
        (m.mem_range.mp hmem).2.1.trans ((hnext _).mp hge).le, hlt⟩
  have hnodup : (last :: (σ.clear (σ.page start n m) m).range next σ.hi).Nodup := by
    refine nodup_cons.mpr ⟨fun hmem => ?_, (range_sorted ..).imp fun hlt heq => ?_⟩
    · exact absurd ((hnext _).mp (mem_range _ |>.mp hmem).2.1) (lt_irrefl _)
    · exact absurd (congrArg _ heq) hlt.ne
  exact (subperm_of_subset hnodup hsub).length_le

end Sweep

end kv
