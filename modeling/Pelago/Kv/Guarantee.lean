import Pelago.Kv.Effects

namespace kv

/-- What can happen next to requests that run side by side: one runs its next transaction,
or ends with a failure. -/
inductive Event (J ι ε : Type) where
  | turn (j : J) (i : ι)
  | fail (j : J) (e : ε)

variable {K V ι ε α J : Type} [LinearOrder K]

/-- Each write transaction of the request takes the database along `G`, given `valid` of the
reads made before it. `A` is known when the request goes on, and what a write transaction
leaves to be known afterwards must withstand `G`. -/
def Proc.Guarantees (valid : Db K V → List (K × Option V) → Prop) (G : Db K V → Db K V → Prop) :
    (A : Db K V → Prop) → List (K × Option V) → Proc K V ι ε α → Prop
  | _, _, .done _ => True
  | A, reads, .readThen k next => ∀ v, (next v).Guarantees valid G A ((k, v) :: reads)
  | A, reads, .scanThen _ _ _ next => ∀ rows, (next rows).Guarantees valid G A reads
  | A, reads, .inputThen next => ∀ i, (next i).Guarantees valid G A reads
  | A, reads, .commitThen t next =>
    ∃ A', (∀ db db', A db → valid db reads → t.run db = .ok ((), db') → G db db' ∧ A' db') ∧
      (∀ db db', A' db → G db db' → A' db') ∧ next.Guarantees valid G A' []

section Rules

variable {valid : Db K V → List (K × Option V) → Prop} {G : Db K V → Db K V → Prop} {A : Db K V → Prop}
  {reads : List (K × Option V)}

variable {p : Proc K V ι ε α} {β : Type}

/-- Transactions that keep `A` and only need it, whatever was read. -/
theorem Proc.Guarantees.of_kept (hA : ∀ db db', A db → G db db' → A db') {W : K → Prop} (hp : p.Confined W)
    (hW : ∀ t : Tx K V ε Unit, t.Touches (fun _ => True) W → ∀ db db', A db → t.run db = .ok ((), db') → G db db')
    (reads : List (K × Option V)) : p.Guarantees valid G A reads := by
  induction p generalizing reads with
  | done => trivial
  | readThen _ _ ih | scanThen _ _ _ _ ih | inputThen _ ih => exact fun v => ih v (hp v) _
  | commitThen t _ ih =>
    refine ⟨A, fun db db' hdb _ hrun => ?_, hA, ih hp.2 []⟩
    have hG := hW t hp.1 db _ hdb hrun
    exact ⟨hG, hA db _ hdb hG⟩

theorem Proc.guarantees_ofExcept_bind {r : Except ε α} {f : α → Proc K V ι ε β}
    (hf : ∀ a, r = .ok a → (f a).Guarantees valid G A reads) :
    (ofExcept r >>= f).Guarantees valid G A reads := by
  cases r with
  | ok a => exact hf a rfl
  | error => trivial

theorem Proc.guarantees_read_bind {k : K} {f : Option V → Proc K V ι ε α}
    (hf : ∀ v, (f v).Guarantees valid G A ((k, v) :: reads)) : (read k >>= f).Guarantees valid G A reads := hf

theorem Proc.guarantees_input_bind {f : ι → Proc K V ι ε α} (hf : ∀ i, (f i).Guarantees valid G A reads) :
    (input >>= f).Guarantees valid G A reads := hf

/-- A request that only reads adds to what has been read. -/
theorem Proc.Quiet.guarantees_bind (hp : p.Quiet) {f : α → Proc K V ι ε β}
    (hf : ∀ a reads', (∀ r ∈ reads, r ∈ reads') → (f a).Guarantees valid G A reads') :
    (p >>= f).Guarantees valid G A reads := by
  induction p generalizing reads with
  | done r =>
    cases r with
    | ok a => exact hf a _ fun _ h => h
    | error => trivial
  | readThen _ _ ih =>
    exact fun v => ih v (hp v) fun a _ h => hf a _ fun r hr => h r (List.mem_cons_of_mem _ hr)
  | scanThen _ _ _ _ ih | inputThen _ ih => exact fun v => ih v (hp v) hf
  | commitThen => exact absurd hp.1 id

/-- The result of a request does not matter. -/
theorem Proc.Guarantees.map (hp : p.Guarantees valid G A reads) (f : α → β) :
    (p >>= fun a => pure (f a)).Guarantees valid G A reads := by
  induction p generalizing A reads with
  | done r => cases r <;> trivial
  | readThen _ _ ih | scanThen _ _ _ _ ih | inputThen _ ih => exact fun v => ih v (hp v)
  | commitThen _ _ ih =>
    obtain ⟨A', hcommit, hstable, hnext⟩ := hp
    exact ⟨A', hcommit, hstable, ih hnext⟩

/-- The last write transaction of a request. -/
theorem Proc.guarantees_commit_bind {t : Tx K V ε Unit} {f : Unit → Proc K V ι ε β} {r : Except ε β}
    (hf : f () = .done r) (ht : ∀ db db', A db → valid db reads → t.run db = .ok ((), db') → G db db') :
    (commit t >>= f).Guarantees valid G A reads := by
  refine ⟨fun _ => True, fun db db' hdb hvalid hrun => ⟨ht db _ hdb hvalid hrun, trivial⟩, fun _ _ _ _ => trivial, ?_⟩
  change (f ()).Guarantees valid G _ []
  rw [hf]
  trivial

end Rules

variable [DecidableEq J]

/-- A request that is about to commit has made reads for which `valid` holds. -/
def Thread.Allowed (valid : List (K × Option V) → Prop) : Thread K V ι ε α → Prop
  | ⟨.commitThen _ _, reads⟩ => valid reads
  | _ => True

omit [LinearOrder K] in
instance (valid : List (K × Option V) → Prop) [DecidablePred valid] :
    (th : Thread K V ι ε α) → Decidable (th.Allowed valid)
  | ⟨.commitThen _ _, reads⟩ => inferInstanceAs (Decidable (valid reads))
  | ⟨.done _, _⟩ => isTrue trivial
  | ⟨.readThen _ _, _⟩ => isTrue trivial
  | ⟨.scanThen _ _ _ _, _⟩ => isTrue trivial
  | ⟨.inputThen _, _⟩ => isTrue trivial

namespace Pool

def play (c : Pool K V ι ε α J) : Event J ι ε → Pool K V ι ε α J
  | .turn j i => c.move j i
  | .fail j e => c.setThread j ⟨.done (.error e), []⟩

def plays (c : Pool K V ι ε α J) (events : List (Event J ι ε)) : Pool K V ι ε α J := events.foldl play c

/-- If the event is a commit of a request, then `valid` holds for it. -/
def Allows (valid : J → Db K V → List (K × Option V) → Prop) (c : Pool K V ι ε α J) : Event J ι ε → Prop
  | .turn j _ => (c.threads j).Allowed (valid j c.db)
  | .fail _ _ => True

/-- All commits of a run are `valid`. -/
def Admits (valid : J → Db K V → List (K × Option V) → Prop) : Pool K V ι ε α J → List (Event J ι ε) → Prop
  | _, [] => True
  | c, event :: events => c.Allows valid event ∧ (c.play event).Admits valid events

instance (valid : J → Db K V → List (K × Option V) → Prop) [∀ j db reads, Decidable (valid j db reads)]
    (c : Pool K V ι ε α J) : (event : Event J ι ε) → Decidable (c.Allows valid event)
  | .turn j _ => inferInstanceAs (Decidable ((c.threads j).Allowed (valid j c.db)))
  | .fail _ _ => isTrue trivial

instance decidableAdmits (valid : J → Db K V → List (K × Option V) → Prop)
    [∀ j db reads, Decidable (valid j db reads)] :
    (c : Pool K V ι ε α J) → (events : List (Event J ι ε)) → Decidable (c.Admits valid events)
  | _, [] => isTrue trivial
  | c, event :: events =>
    haveI := decidableAdmits valid (c.play event) events
    inferInstanceAs (Decidable (c.Allows valid event ∧ (c.play event).Admits valid events))

variable {valid : J → Db K V → List (K × Option V) → Prop} {G : Db K V → Db K V → Prop} {c : Pool K V ι ε α J}

/-- Every request guarantees `G` from what it knows. -/
def Guarded (valid : J → Db K V → List (K × Option V) → Prop) (G : Db K V → Db K V → Prop)
    (c : Pool K V ι ε α J) : Prop :=
  ∀ j, ∃ A, A c.db ∧ (∀ db db', A db → G db db' → A db') ∧
    (c.threads j).proc.Guarantees (valid j) G A (c.threads j).reads

/-- A step of one request leaves the others where they are. -/
private theorem Guarded.setThread (h : c.Guarded valid G) {db : Db K V} (hdb : db = c.db ∨ G c.db db) {j : J}
    {th : Thread K V ι ε α} (hth : ∃ A, A db ∧ (∀ db db', A db → G db db' → A db') ∧
      th.proc.Guarantees (valid j) G A th.reads) : ({ c with db := db }.setThread j th).Guarded valid G := by
  intro i
  by_cases hij : i = j
  · subst hij
    simpa [Pool.setThread] using hth
  · obtain ⟨A, hA, hstable, hproc⟩ := h i
    refine ⟨A, ?_, hstable, by simpa [Pool.setThread, Function.update_of_ne hij] using hproc⟩
    obtain rfl | hG := hdb
    · exact hA
    · exact hstable _ _ hA hG

/-- An event changes the database along `G`, if at all. -/
theorem Guarded.play (h : c.Guarded valid G) {event : Event J ι ε} (hallows : c.Allows valid event) :
    ((c.play event).db = c.db ∨ G c.db (c.play event).db) ∧ (c.play event).Guarded valid G := by
  cases event with
  | fail j =>
    obtain ⟨A, hA, hstable, _⟩ := h j
    exact ⟨.inl rfl, h.setThread (.inl rfl) ⟨A, hA, hstable, trivial⟩⟩
  | turn j i =>
    obtain ⟨A, hA, hstable, hproc⟩ := h j
    simp only [Allows] at hallows
    simp only [Pool.play, move]
    cases hthread : c.threads j with
    | mk p reads =>
      rw [hthread] at hproc hallows
      cases p with
      | done => exact ⟨.inl rfl, h⟩
      | readThen | scanThen | inputThen =>
        exact ⟨.inl rfl, h.setThread (.inl rfl) ⟨A, hA, hstable, hproc _⟩⟩
      | commitThen t next =>
        obtain ⟨A', hcommit, hstable', hnext⟩ := hproc
        dsimp only at hallows ⊢
        split
        · rename_i db hrun
          obtain ⟨hG, hA'⟩ := hcommit _ _ hA hallows hrun
          exact ⟨.inr hG, h.setThread (.inr hG) ⟨A', hA', hstable', hnext⟩⟩
        · exact ⟨.inl rfl, h.setThread (.inl rfl) ⟨A, hA, hstable, trivial⟩⟩

omit [DecidableEq J] in
/-- Requests that have not started, and know nothing. -/
theorem guarded_start {db : Db K V} {p : J → Proc K V ι ε α}
    (h : ∀ j, (p j).Guarantees (valid j) G (fun _ => True) []) :
    Guarded valid G ⟨db, fun j => Thread.start (p j)⟩ :=
  fun j => ⟨fun _ => True, trivial, fun _ _ _ _ => trivial, h j⟩

theorem plays_append (c : Pool K V ι ε α J) (events events' : List (Event J ι ε)) :
    c.plays (events ++ events') = (c.plays events).plays events' := List.foldl_append

private theorem Guarded.after (h : c.Guarded valid G) {events later : List (Event J ι ε)} {event : Event J ι ε}
    (hadmits : c.Admits valid (events ++ event :: later)) :
    (c.plays events).Guarded valid G ∧ (c.plays events).Allows valid event := by
  induction events generalizing c with
  | nil => exact ⟨h, hadmits.1⟩
  | cons _ _ ih => exact ih (h.play hadmits.1).2 hadmits.2

/-- Along a run whose commits are all `valid`, the database changes along `G` only. -/
theorem Guarded.plays_take (h : c.Guarded valid G) {events : List (Event J ι ε)} (hadmits : c.Admits valid events)
    {i : Nat} (hi : i < events.length) : (c.plays (events.take (i + 1))).db = (c.plays (events.take i)).db ∨
      G (c.plays (events.take i)).db (c.plays (events.take (i + 1))).db := by
  have hsplit : events = events.take i ++ events[i] :: events.drop (i + 1) := by
    rw [← List.drop_eq_getElem_cons hi, List.take_append_drop]
  rw [hsplit] at hadmits
  obtain ⟨hguarded, hallows⟩ := h.after hadmits
  rw [List.take_succ_eq_append_getElem hi, plays_append]
  exact (hguarded.play hallows).1

end Pool

end kv
