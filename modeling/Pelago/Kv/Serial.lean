import Pelago.Kv.Process

namespace kv

open List Function

variable {K V ι ε α J μ : Type}

/-- The end of a request as far as the rows in `S` are concerned: a result, or
one last write transaction that reads no row outside `S`. -/
def Proc.Finishes (S : K → Prop) : Proc K V ι ε α → Prop
  | .done _ => True
  | .commitThen t rest => t.Touches S (fun _ => True) ∧ rest.Confined (fun k => ¬ S k)
  | _ => False

/-- A request that reads one row of `S` and then writes to `S` in at most one
transaction, or is refused from the start. -/
def Proc.Single (S : K → Prop) : Proc K V ι ε α → Prop
  | .readThen k next => S k ∧ ∀ v, (next v).Finishes S
  | .done (.error _) => True
  | _ => False

variable {p : Proc K V ι ε α}

/-- Changing the result of a request does not change what it does. -/
theorem Proc.Finishes.map {β : Type} {S : K → Prop} (hp : p.Finishes S) (f : α → β) :
    (p >>= fun a => pure (f a)).Finishes S := by
  cases p with
  | done r => cases r <;> trivial
  | commitThen => exact ⟨hp.1, .bind hp.2 fun _ => trivial⟩
  | readThen | scanThen | inputThen => exact absurd hp (by simp [Finishes])

theorem Proc.Single.map {β : Type} {S : K → Prop} (hp : p.Single S) (f : α → β) :
    (p >>= fun a => pure (f a)).Single S := by
  cases p with
  | done r =>
    cases r with
    | ok => exact absurd hp (by simp [Single])
    | error => trivial
  | readThen => exact ⟨hp.1, fun v => (hp.2 v).map f⟩
  | scanThen | inputThen | commitThen => exact absurd hp (by simp [Single])

variable [LinearOrder K]

/-- What the request does to the database up to its first write transaction,
when nothing else runs. -/
inductive Proc.Effect : Proc K V ι ε α → Db K V → Db K V → Prop where
  | done (a : α) (db : Db K V) : Effect (.done (.ok a)) db db
  | read {k : K} {next : Option V → Proc K V ι ε α} {db db' : Db K V}
      (h : Effect (next (db.rows.get k)) db db') : Effect (.readThen k next) db db'
  | commit {t : Tx K V ε Unit} {rest : Proc K V ι ε α} {db db' : Db K V}
      (h : t.run db = .ok ((), db')) : Effect (.commitThen t rest) db db'

/-- The requests of a list, one after the other. -/
inductive SerialRun (p : J → Proc K V ι ε α) : List J → Db K V → Db K V → Prop where
  | nil (db : Db K V) : SerialRun p [] db db
  | snoc {order : List J} {j : J} {db mid db' : Db K V} (hrun : SerialRun p order db mid)
      (heff : (p j).Effect mid db') : SerialRun p (order ++ [j]) db db'

variable {db db' : Db K V}

theorem Proc.Effect.of_map {β : Type} {f : α → β}
    (h : (p >>= fun a => pure (f a)).Effect db db') : p.Effect db db' := by
  induction p with
  | done r =>
    cases r with
    | ok a =>
      cases h
      exact .done a db
    | error => cases h
  | readThen _ _ ih =>
    cases h with
    | read h => exact .read (ih _ h)
  | scanThen | inputThen => cases h
  | commitThen =>
    cases h with
    | commit h => exact .commit h

section Effect

variable {S : K → Prop}

private theorem Proc.Finishes.effect_agree (hp : p.Finishes S) {db₁ db₂ db₁' : Db K V}
    (hagree : Agree S db₁ db₂) (heff : p.Effect db₁ db₁') : ∃ db₂', p.Effect db₂ db₂' ∧ Agree S db₁' db₂' := by
  cases heff with
  | done a => exact ⟨db₂, .done a db₂, hagree⟩
  | read => exact absurd hp (by simp [Finishes])
  | commit hrun =>
    obtain ⟨db₂', hrun₂, hagree'⟩ := hp.1.run_agree hagree hrun
    exact ⟨db₂', .commit hrun₂, hagree'⟩

/-- The effect on `S` depends on the rows in `S` only. -/
theorem Proc.Single.effect_agree (hp : p.Single S) {db₁ db₂ db₁' : Db K V}
    (hagree : Agree S db₁ db₂) (heff : p.Effect db₁ db₁') : ∃ db₂', p.Effect db₂ db₂' ∧ Agree S db₁' db₂' := by
  cases heff with
  | done | commit => exact absurd hp (by simp [Single])
  | @read k _ _ _ h =>
    obtain ⟨hk, hnext⟩ := hp
    obtain ⟨db₂', _, hagree'⟩ := (hnext _).effect_agree hagree h
    refine ⟨db₂', .read ?_, hagree'⟩
    rwa [← hagree k hk]

variable {supply : Proc.World K V μ → ι × Proc.World K V μ}

/-- A request run alone leaves the rows in `S` as its effect says. -/
theorem Proc.Single.run_agree (hp : p.Single S) (heff : p.Effect db db')
    (hsupply : ∀ w k, S k → (supply w).2.db.rows.get k = w.db.rows.get k) (mem : μ) :
    Agree S (p.run supply ⟨db, mem⟩).2.db db' := by
  cases heff with
  | done | commit => exact absurd hp (by simp [Single])
  | @read k next db db' h =>
    obtain ⟨hk, hnext⟩ := hp
    have hfin := hnext (db.rows.get k)
    rw [run_readThen]
    generalize next (db.rows.get k) = q at h hfin
    cases h with
    | done => exact .refl S db
    | read => exact absurd hfin (by simp [Finishes])
    | @commit _ _ _ _ hrun =>
      rw [run_commitThen_of_ok hrun]
      intro k' hk'
      exact hfin.2.run_get_eq (by simpa using hk') (fun w => hsupply w k' hk') _

/-- Two requests run one after the other leave the rows in `S` as their effects
say. -/
theorem Proc.Single.run_agree_twice {q : Proc K V ι ε α} (hp : p.Single S) (hq : q.Single S)
    {mid : Db K V} (hmid : p.Effect db mid) (heff : q.Effect mid db')
    (hsupply : ∀ w k, S k → (supply w).2.db.rows.get k = w.db.rows.get k) (mem mem' : μ) :
    Agree S db' (q.run supply ⟨(p.run supply ⟨db, mem⟩).2.db, mem'⟩).2.db := by
  have hfirst := hp.run_agree hmid hsupply mem
  obtain ⟨final, heff', hagree⟩ := hq.effect_agree (fun k hk => (hfirst k hk).symm) heff
  have hsecond := hq.run_agree heff' hsupply mem'
  exact hagree.trans fun k hk => (hsecond k hk).symm

end Effect

theorem SerialRun.pair {p : J → Proc K V ι ε α} {i j : J}
    (h : SerialRun p [i, j] db db') : ∃ mid, (p i).Effect db mid ∧ (p j).Effect mid db' := by
  generalize horder : [i, j] = order at h
  cases h with
  | nil => cases horder
  | @snoc order' j' db mid db' hrun heff =>
    obtain ⟨rfl, rfl⟩ : order' = [i] ∧ j' = j := by
      have hinj := append_inj' (show [i] ++ [j] = order' ++ [j'] from horder) rfl
      exact ⟨hinj.1.symm, (singleton_inj.mp hinj.2).symm⟩
    refine ⟨mid, ?_, heff⟩
    generalize horder' : [i] = order'' at hrun
    cases hrun with
    | nil => cases horder'
    | @snoc order'' i' db _ _ hrun' heff' =>
      obtain ⟨rfl, rfl⟩ : order'' = [] ∧ i' = i := by
        have hinj := append_inj' (show [] ++ [i] = order'' ++ [i'] from horder') rfl
        exact ⟨hinj.1.symm, (singleton_inj.mp hinj.2).symm⟩
      generalize hnil : ([] : List J) = none' at hrun'
      cases hrun' with
      | nil => exact heff'
      | snoc => exact absurd hnil (by simp)

/-- A request that has not taken effect: not begun, between its read and its
write transaction, or failed. -/
inductive Waiting (p : Proc K V ι ε α) : Thread K V ι ε α → Prop where
  | start : Waiting p ⟨p, []⟩
  | reading {k : K} {next : Option V → Proc K V ι ε α} {v : Option V} {t : Tx K V ε Unit}
      {rest : Proc K V ι ε α} (hp : p = .readThen k next) (hnext : next v = .commitThen t rest) :
      Waiting p ⟨.commitThen t rest, [(k, v)]⟩
  | failed (e : ε) (reads : List (K × Option V)) : Waiting p ⟨.done (.error e), reads⟩

variable [DecidableEq J] {S : K → Prop}

/-- The requests in `order` have taken effect in that order, and no other one
has. -/
structure Serialized (S : K → Prop) (p : J → Proc K V ι ε α) (db₀ : Db K V) (order : List J)
    (c : Pool K V ι ε α J) : Prop where
  nodup : order.Nodup
  serial : ∃ s, SerialRun p order db₀ s ∧ Agree S s c.db
  past : ∀ j ∈ order, (c.threads j).proc.Confined (fun k => ¬ S k)
  waiting : ∀ j, j ∉ order → Waiting (p j) (c.threads j)

namespace Serialized

variable {p : J → Proc K V ι ε α} {db₀ : Db K V} {order : List J} {c : Pool K V ι ε α J}

/-- A step of request `j` that leaves the rows in `S` and the order alone. -/
private theorem keep (h : Serialized S p db₀ order c) (hdb : Agree S c.db db) {j : J}
    {th : Thread K V ι ε α} (hpast : j ∈ order → th.proc.Confined (fun k => ¬ S k))
    (hwait : j ∉ order → Waiting (p j) th) : Serialized S p db₀ order ({ c with db := db }.setThread j th) := by
  obtain ⟨s, hrun, hagree⟩ := h.serial
  refine ⟨h.nodup, ⟨s, hrun, hagree.trans hdb⟩, ?_, ?_⟩
  · intro i hi
    by_cases hij : i = j
    · subst hij
      simpa [Pool.setThread] using hpast hi
    · simpa [Pool.setThread, update_of_ne hij] using h.past i hi
  · intro i hi
    by_cases hij : i = j
    · subst hij
      simpa [Pool.setThread] using hwait hi
    · simpa [Pool.setThread, update_of_ne hij] using h.waiting i hi

/-- A step by which request `j` takes effect. -/
private theorem push (h : Serialized S p db₀ order c) {j : J} (hj : j ∉ order) {s : Db K V}
    {th : Thread K V ι ε α} (hserial : SerialRun p (order ++ [j]) db₀ s) (hdb : Agree S s db)
    (hpast : th.proc.Confined (fun k => ¬ S k)) :
    Serialized S p db₀ (order ++ [j]) ({ c with db := db }.setThread j th) := by
  refine ⟨?_, ⟨s, hserial, hdb⟩, ?_, ?_⟩
  · rw [nodup_append]
    refine ⟨h.nodup, by simp, ?_⟩
    rintro i hi _ (hij : _ ∈ [j]) rfl
    rw [mem_singleton] at hij
    exact hj (hij ▸ hi)
  · intro i hi
    by_cases hij : i = j
    · subst hij
      simpa [Pool.setThread] using hpast
    · have hmem : i ∈ order := by simpa [hij] using hi
      simpa [Pool.setThread, update_of_ne hij] using h.past i hmem
  · intro i hi
    obtain ⟨hnot, hij⟩ : i ∉ order ∧ i ≠ j := by simpa using hi
    simpa [Pool.setThread, update_of_ne hij] using h.waiting i hnot

private theorem step_read (hp : ∀ j, (p j).Single S) (h : Serialized S p db₀ order c) {j : J} {k : K}
    {next : Option V → Proc K V ι ε α} {reads : List (K × Option V)}
    (hthread : c.threads j = ⟨.readThen k next, reads⟩) : ∃ order', Serialized S p db₀ order'
      (c.setThread j ⟨next (c.db.rows.get k), (k, c.db.rows.get k) :: reads⟩) := by
  by_cases hj : j ∈ order
  · have hpast := h.past j hj
    rw [hthread] at hpast
    exact ⟨order, h.keep (.refl S c.db) (fun _ => hpast _) (absurd hj)⟩
  · have hwait := h.waiting j hj
    rw [hthread] at hwait
    generalize hq : p j = q at hwait
    cases hwait
    have hsingle := hp j
    rw [hq] at hsingle
    obtain ⟨hk, hfin⟩ := hsingle
    have hnext := hfin (c.db.rows.get k)
    cases hv : next (c.db.rows.get k) with
    | done r =>
      cases r with
      | error e =>
        exact ⟨order, h.keep (.refl S c.db) (fun hm => absurd hm hj)
          (fun _ => .failed e _)⟩
      | ok a =>
        obtain ⟨s, hrun, hagree⟩ := h.serial
        have heff : (p j).Effect s s := by
          rw [hq]
          refine .read ?_
          rw [hagree k hk, hv]
          exact .done a s
        exact ⟨order ++ [j], h.push hj (.snoc hrun heff) hagree trivial⟩
    | commitThen =>
      exact ⟨order, h.keep (.refl S c.db) (fun hm => absurd hm hj) (fun _ => .reading hq hv)⟩
    | readThen | scanThen | inputThen => simp [hv, Proc.Finishes] at hnext

private theorem step_commit (hp : ∀ j, (p j).Single S) (h : Serialized S p db₀ order c) {j : J}
    {t : Tx K V ε Unit} {rest : Proc K V ι ε α} {reads : List (K × Option V)}
    (hthread : c.threads j = ⟨.commitThen t rest, reads⟩) (hcurrent : Current c.db reads)
    (hrun : t.run c.db = .ok ((), db)) :
    ∃ order', Serialized S p db₀ order' ({ c with db := db }.setThread j ⟨rest, []⟩) := by
  by_cases hj : j ∈ order
  · have hpast := h.past j hj
    rw [hthread] at hpast
    have hdb : Agree S c.db db := fun k hk => (hpast.1.get_eq hrun (by simpa using hk)).symm
    exact ⟨order, h.keep hdb (fun _ => hpast.2) (absurd hj)⟩
  · have hwait := h.waiting j hj
    have hsingle := hp j
    rw [hthread] at hwait
    generalize hq : p j = q at hwait hsingle
    cases hwait with
    | start => exact absurd hsingle (by simp [Proc.Single])
    | @reading k _ v _ _ hq' hnext =>
      subst hq'
      obtain ⟨hk, hfin⟩ := hsingle
      have hfin := hfin v
      rw [hnext] at hfin
      obtain ⟨s, hserial, hagree⟩ := h.serial
      have hread : s.rows.get k = v := by
        rw [hagree k hk]
        exact hcurrent _ mem_cons_self
      obtain ⟨s', hrun', hagree'⟩ := hfin.1.run_agree (fun k hk => (hagree k hk).symm) hrun
      have heff : (p j).Effect s s' := by
        rw [hq]
        refine .read ?_
        rw [hread, hnext]
        exact .commit hrun'
      exact ⟨order ++ [j], h.push hj (.snoc hserial heff) (fun k hk => (hagree' k hk).symm) hfin.2⟩

/-- Every step extends the order by at most the request that makes it. -/
theorem step (hp : ∀ j, (p j).Single S) (h : Serialized S p db₀ order c) {c' : Pool K V ι ε α J}
    (hstep : Step Current c c') : ∃ order', Serialized S p db₀ order' c' := by
  cases hstep with
  | read hthread => exact step_read hp h hthread
  | commit hthread hvalid hrun => exact step_commit hp h hthread hvalid hrun
  | @scan j _ _ _ _ _ hthread | @input j _ _ _ hthread =>
    refine ⟨order, h.keep (.refl S c.db) (fun hj => ?_) (fun hj => ?_)⟩
    · have hpast := h.past j hj
      rw [hthread] at hpast
      exact hpast _
    · have hwait := h.waiting j hj
      have hsingle := hp j
      rw [hthread] at hwait
      generalize p j = q at hwait hsingle
      cases hwait
      exact absurd hsingle (by simp [Proc.Single])
  | @reject _ _ _ reads e | @abort _ _ _ reads e =>
    exact ⟨order, h.keep (.refl S c.db) (fun _ => trivial) (fun _ => .failed e reads)⟩

end Serialized

/-- Requests that commit only while what they read is still current are
serializable: on the rows in `S`, any interleaving equals a serial run of
requests that took effect, and every request that returned a result is one of
them. -/
theorem Reach.serializable {p : J → Proc K V ι ε α} (hp : ∀ j, (p j).Single S) {db₀ : Db K V}
    {c : Pool K V ι ε α J} (hreach : Reach Current ⟨db₀, fun j => .start (p j)⟩ c) :
    ∃ order s, order.Nodup ∧ SerialRun p order db₀ s ∧ Agree S s c.db ∧
      ∀ j a, (c.threads j).proc = .done (.ok a) → j ∈ order := by
  have hserialized : ∃ order, Serialized S p db₀ order c := by
    induction hreach with
    | refl =>
      refine ⟨[], nodup_nil, ⟨db₀, .nil db₀, .refl S db₀⟩, ?_, ?_⟩
      · intro j hj
        exact absurd hj not_mem_nil
      · intro j _
        exact .start
    | tail _ hstep ih =>
      obtain ⟨order, h⟩ := ih
      exact h.step hp hstep
  obtain ⟨order, h⟩ := hserialized
  obtain ⟨s, hrun, hagree⟩ := h.serial
  refine ⟨order, s, h.nodup, hrun, hagree, ?_⟩
  intro j a hdone
  by_contra hj
  have hwait := h.waiting j hj
  have hsingle := hp j
  generalize p j = q at hwait hsingle
  generalize c.threads j = th at hwait hdone
  cases hwait with
  | start =>
    subst hdone
    exact absurd hsingle (by simp [Proc.Single])
  | reading | failed => exact absurd hdone (by simp)

end kv
