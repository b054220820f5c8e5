import Pelago.Kv.Transaction

namespace kv

/-- A request as the transactions it runs one after the other: single-row reads
and range reads in transactions of their own, values it asks its surroundings for, and write
transactions. A write transaction that fails ends the request with its error. -/
inductive Proc (K V ι ε α : Type) : Type where
  | done (r : Except ε α)
  | readThen (k : K) (next : Option V → Proc K V ι ε α)
  | scanThen (lo hi : K) (limit : Nat) (next : List (K × V) → Proc K V ι ε α)
  | inputThen (next : ι → Proc K V ι ε α)
  | commitThen (t : Tx K V ε Unit) (next : Proc K V ι ε α)

namespace Proc

variable {K V ι ε α β : Type}

def read (k : K) : Proc K V ι ε (Option V) := readThen k (fun v => done (.ok v))
def scan (lo hi : K) (limit : Nat) : Proc K V ι ε (List (K × V)) :=
  scanThen lo hi limit (fun rows => done (.ok rows))
def input : Proc K V ι ε ι := inputThen (fun i => done (.ok i))
def commit (t : Tx K V ε Unit) : Proc K V ι ε Unit := commitThen t (done (.ok ()))
def fail (e : ε) : Proc K V ι ε α := done (.error e)
def ofExcept (r : Except ε α) : Proc K V ι ε α := done r

def bind : Proc K V ι ε α → (α → Proc K V ι ε β) → Proc K V ι ε β
  | done (.ok a), f => f a
  | done (.error e), _ => done (.error e)
  | readThen k next, f => readThen k (fun v => (next v).bind f)
  | scanThen lo hi limit next, f => scanThen lo hi limit (fun rows => (next rows).bind f)
  | inputThen next, f => inputThen (fun i => (next i).bind f)
  | commitThen t next, f => commitThen t (next.bind f)

instance : Monad (Proc K V ι ε) where
  pure a := done (.ok a)
  bind := bind

/-- Performs `f` for each element in turn. -/
def forEach {σ : Type} (xs : List σ) (f : σ → Proc K V ι ε Unit) : Proc K V ι ε Unit :=
  match xs with
  | [] => pure ()
  | x :: rest => f x >>= fun _ => forEach rest f

/-- A loop whose body may skip its element, and otherwise pushes one result. -/
def collect {σ : Type} (f : σ → Proc K V ι ε (Option β)) : List σ → Proc K V ι ε (List β)
  | [] => pure []
  | x :: rest => f x >>= fun pushed => collect f rest >>= fun out => pure (pushed.toList ++ out)

@[simp] theorem pure_bind (a : α) (f : α → Proc K V ι ε β) : (pure a >>= f) = f a := rfl

@[simp] theorem ofExcept_ok_bind (a : α) (f : α → Proc K V ι ε β) :
    (ofExcept (.ok a) >>= f) = f a := rfl

@[simp] theorem ofExcept_error_bind (e : ε) (f : α → Proc K V ι ε β) :
    (ofExcept (.error e) >>= f) = done (.error e) := rfl

@[simp] theorem fail_bind (e : ε) (f : α → Proc K V ι ε β) :
    (fail e >>= f) = done (.error e) := rfl

@[simp] theorem done_ok_bind (a : α) (f : α → Proc K V ι ε β) : (done (.ok a) >>= f) = f a := rfl

@[simp] theorem done_error_bind (e : ε) (f : α → Proc K V ι ε β) :
    (done (.error e) >>= f) = done (.error e) := rfl

@[simp] theorem read_bind (k : K) (f : Option V → Proc K V ι ε β) :
    (read k >>= f) = readThen k f := rfl

@[simp] theorem readThen_bind (k : K) (next : Option V → Proc K V ι ε α) (f : α → Proc K V ι ε β) :
    (readThen k next >>= f) = readThen k (fun v => next v >>= f) := rfl

@[simp] theorem input_bind (f : ι → Proc K V ι ε β) : (input >>= f) = inputThen f := rfl

@[simp] theorem commit_bind (t : Tx K V ε Unit) (f : Unit → Proc K V ι ε β) :
    (commit t >>= f) = commitThen t (f ()) := rfl

@[simp] theorem commitThen_bind (t : Tx K V ε Unit) (next : Proc K V ι ε α)
    (f : α → Proc K V ι ε β) : (commitThen t next >>= f) = commitThen t (next >>= f) := rfl

theorem bind_assoc {γ : Type} (p : Proc K V ι ε α) (f : α → Proc K V ι ε β) (g : β → Proc K V ι ε γ) :
    (p >>= f) >>= g = p >>= fun a => f a >>= g := by
  change (p.bind f).bind g = p.bind fun a => (f a).bind g
  induction p with
  | done r => cases r <;> rfl
  | readThen _ _ ih | scanThen _ _ _ _ ih | inputThen _ ih | commitThen _ _ ih =>
    simp [bind, ih]

/-- The database together with what a server keeps in memory between requests. -/
structure World (K V μ : Type) [LinearOrder K] where
  db : Db K V
  mem : μ

variable {μ : Type} [LinearOrder K]

/-- A request run alone, its inputs answered by `supply`. -/
def run (supply : World K V μ → ι × World K V μ) :
    Proc K V ι ε α → World K V μ → Except ε α × World K V μ
  | done r, w => (r, w)
  | readThen k next, w => (next (w.db.rows.get k)).run supply w
  | scanThen lo hi limit next, w => (next ((w.db.rows.range lo hi).take limit)).run supply w
  | inputThen next, w => (next (supply w).1).run supply (supply w).2
  | commitThen t next, w =>
    match t.run w.db with
    | .ok (_, db) => next.run supply { w with db := db }
    | .error e => (.error e, w)

variable {supply : World K V μ → ι × World K V μ}

@[simp] theorem run_done (r : Except ε α) (w : World K V μ) :
    (done r : Proc K V ι ε α).run supply w = (r, w) := rfl

@[simp] theorem run_readThen (k : K) (next : Option V → Proc K V ι ε α) (w : World K V μ) :
    (readThen k next).run supply w = (next (w.db.rows.get k)).run supply w := rfl

@[simp] theorem run_inputThen (next : ι → Proc K V ι ε α) (w : World K V μ) :
    (inputThen next).run supply w = (next (supply w).1).run supply (supply w).2 := rfl

theorem run_commitThen_of_ok {t : Tx K V ε Unit} {next : Proc K V ι ε α} {w : World K V μ}
    {db : Db K V} (h : t.run w.db = .ok ((), db)) :
    (commitThen t next).run supply w = next.run supply { w with db := db } := by
  simp [run, h]

theorem run_commitThen_of_error {t : Tx K V ε Unit} {next : Proc K V ι ε α} {w : World K V μ} {e : ε}
    (h : t.run w.db = .error e) : (commitThen t next).run supply w = (.error e, w) := by
  simp [run, h]

/-- A request followed by another one run alone, stopping at the first error. -/
theorem run_bind (p : Proc K V ι ε α) (f : α → Proc K V ι ε β) (w : World K V μ) :
    (p >>= f).run supply w =
      match p.run supply w with
      | (.ok a, w') => (f a).run supply w'
      | (.error e, w') => (.error e, w') := by
  change (p.bind f).run supply w = _
  induction p generalizing w with
  | done r => cases r <;> rfl
  | readThen _ _ ih | scanThen _ _ _ _ ih => exact ih _ w
  | inputThen _ ih => exact ih ..
  | commitThen t _ ih =>
    simp only [bind, run]
    cases t.run w.db with
    | error => rfl
    | ok => exact ih _

/-- The request only reads single rows. -/
def ReadOnly : Proc K V ι ε α → Prop
  | done _ => True
  | readThen _ next => ∀ v, (next v).ReadOnly
  | _ => False

variable {p : Proc K V ι ε α} {W : K → Prop}

omit [LinearOrder K] in
theorem ReadOnly.bind {f : α → Proc K V ι ε β} (hp : p.ReadOnly)
    (hf : ∀ a, (f a).ReadOnly) : (p >>= f).ReadOnly := by
  change (p.bind f).ReadOnly
  induction p with
  | done r =>
    cases r with
    | ok a => exact hf a
    | error => trivial
  | readThen _ _ ih => exact fun v => ih v (hp v)
  | scanThen | inputThen | commitThen => exact absurd hp (by simp [ReadOnly])

theorem ReadOnly.run_eq (hp : p.ReadOnly)
    (supply : World K V μ → ι × World K V μ) (w : World K V μ) : (p.run supply w).2 = w := by
  induction p with
  | done => rfl
  | readThen _ _ ih => exact ih _ (hp _)
  | scanThen | inputThen | commitThen => exact absurd hp (by simp [ReadOnly])

/-- Every write transaction of the request writes only rows of `W`. -/
def Confined (W : K → Prop) : Proc K V ι ε α → Prop
  | done _ => True
  | readThen _ next => ∀ v, (next v).Confined W
  | scanThen _ _ _ next => ∀ rows, (next rows).Confined W
  | inputThen next => ∀ i, (next i).Confined W
  | commitThen t next => t.Touches (fun _ => True) W ∧ next.Confined W

omit [LinearOrder K] in
theorem Confined.bind {f : α → Proc K V ι ε β} (hp : p.Confined W)
    (hf : ∀ a, (f a).Confined W) : (p >>= f).Confined W := by
  change (p.bind f).Confined W
  induction p with
  | done r =>
    cases r with
    | ok a => exact hf a
    | error => trivial
  | readThen _ _ ih | scanThen _ _ _ _ ih | inputThen _ ih => exact fun v => ih v (hp v)
  | commitThen _ _ ih => exact ⟨hp.1, ih hp.2⟩

omit [LinearOrder K] in
theorem Confined.mono {W' : K → Prop} (hp : p.Confined W) (hW : ∀ k, W k → W' k) : p.Confined W' := by
  induction p with
  | done => trivial
  | readThen _ _ ih | scanThen _ _ _ _ ih | inputThen _ ih => exact fun v => ih v (hp v)
  | commitThen _ _ ih => exact ⟨hp.1.mono (fun _ h => h) hW, ih hp.2⟩

/-- A request leaves every row alone that its write transactions do not write
and that answering its inputs does not change. -/
theorem Confined.run_get_eq (hp : p.Confined W) {k : K}
    (hk : ¬ W k) (hsupply : ∀ w, (supply w).2.db.rows.get k = w.db.rows.get k) (w : World K V μ) :
    (p.run supply w).2.db.rows.get k = w.db.rows.get k := by
  induction p generalizing w with
  | done => rfl
  | readThen _ _ ih | scanThen _ _ _ _ ih => exact ih _ (hp _) w
  | inputThen _ ih =>
    rw [run_inputThen, ih _ (hp _), hsupply]
  | commitThen t _ ih =>
    cases hrun : t.run w.db with
    | error => rw [run_commitThen_of_error hrun]
    | ok =>
      rw [run_commitThen_of_ok hrun, ih hp.2]
      exact hp.1.get_eq hrun hk

end Proc

open Relation.ReflTransGen (refl single)

variable {K V ι ε α J : Type}

/-- A request in progress, with the single-row reads it has made since its last
write transaction. -/
structure Thread (K V ι ε α : Type) where
  proc : Proc K V ι ε α
  reads : List (K × Option V)

def Thread.start (p : Proc K V ι ε α) : Thread K V ι ε α := ⟨p, []⟩

/-- Requests running against one database. -/
structure Pool (K V ι ε α J : Type) [LinearOrder K] where
  db : Db K V
  threads : J → Thread K V ι ε α

variable [LinearOrder K] [DecidableEq J]

def Pool.setThread (c : Pool K V ι ε α J) (j : J) (th : Thread K V ι ε α) : Pool K V ι ε α J :=
  { c with threads := Function.update c.threads j th }

/-- One transaction of one request. Transactions are serializable, so each one
acts on the database at a single point. A write transaction commits only when
`valid` holds of the database and the reads its request has made; it may also
fail by itself, or be turned down by the database. -/
inductive Step (valid : Db K V → List (K × Option V) → Prop) :
    Pool K V ι ε α J → Pool K V ι ε α J → Prop where
  | read {c : Pool K V ι ε α J} {j : J} {k : K} {next : Option V → Proc K V ι ε α}
      {reads : List (K × Option V)} (hthread : c.threads j = ⟨.readThen k next, reads⟩) :
      Step valid c (c.setThread j ⟨next (c.db.rows.get k), (k, c.db.rows.get k) :: reads⟩)
  | scan {c : Pool K V ι ε α J} {j : J} {lo hi : K} {limit : Nat}
      {next : List (K × V) → Proc K V ι ε α} {reads : List (K × Option V)}
      (hthread : c.threads j = ⟨.scanThen lo hi limit next, reads⟩) :
      Step valid c (c.setThread j ⟨next ((c.db.rows.range lo hi).take limit), reads⟩)
  | input {c : Pool K V ι ε α J} {j : J} (i : ι) {next : ι → Proc K V ι ε α}
      {reads : List (K × Option V)} (hthread : c.threads j = ⟨.inputThen next, reads⟩) :
      Step valid c (c.setThread j ⟨next i, reads⟩)
  | commit {c : Pool K V ι ε α J} {j : J} {t : Tx K V ε Unit} {next : Proc K V ι ε α}
      {reads : List (K × Option V)} {db : Db K V} (hthread : c.threads j = ⟨.commitThen t next, reads⟩)
      (hvalid : valid c.db reads) (hrun : t.run c.db = .ok ((), db)) :
      Step valid c ({ c with db := db }.setThread j ⟨next, []⟩)
  | reject {c : Pool K V ι ε α J} {j : J} {t : Tx K V ε Unit} {next : Proc K V ι ε α}
      {reads : List (K × Option V)} {e : ε} (hthread : c.threads j = ⟨.commitThen t next, reads⟩)
      (hrun : t.run c.db = .error e) :
      Step valid c (c.setThread j ⟨.done (.error e), reads⟩)
  | abort {c : Pool K V ι ε α J} {j : J} {t : Tx K V ε Unit} {next : Proc K V ι ε α}
      {reads : List (K × Option V)} (e : ε) (hthread : c.threads j = ⟨.commitThen t next, reads⟩) :
      Step valid c (c.setThread j ⟨.done (.error e), reads⟩)

/-- Any interleaving of the requests' transactions. -/
def Reach (valid : Db K V → List (K × Option V) → Prop) :
    Pool K V ι ε α J → Pool K V ι ε α J → Prop :=
  Relation.ReflTransGen (Step valid)

/-- The reads a request has made still hold when it commits. -/
def Current (db : Db K V) (reads : List (K × Option V)) : Prop :=
  ∀ r ∈ reads, db.rows.get r.1 = r.2

/-- Each write transaction of the request keeps `Inv`, given `valid` of the
reads made before it. -/
def Proc.Preserves (valid : Db K V → List (K × Option V) → Prop) (Inv : Db K V → Prop) :
    List (K × Option V) → Proc K V ι ε α → Prop
  | _, .done _ => True
  | reads, .readThen k next => ∀ v, (next v).Preserves valid Inv ((k, v) :: reads)
  | reads, .scanThen _ _ _ next => ∀ rows, (next rows).Preserves valid Inv reads
  | reads, .inputThen next => ∀ i, (next i).Preserves valid Inv reads
  | reads, .commitThen t next =>
    (∀ db db', Inv db → valid db reads → t.run db = .ok ((), db') → Inv db') ∧
      next.Preserves valid Inv []

section Invariant

variable {valid : Db K V → List (K × Option V) → Prop} {Inv : Db K V → Prop}

private theorem preserves_setThread {c : Pool K V ι ε α J} {j : J} {th : Thread K V ι ε α}
    (hthreads : ∀ i, (c.threads i).proc.Preserves valid Inv (c.threads i).reads)
    (hth : th.proc.Preserves valid Inv th.reads) : ∀ i, ((c.setThread j th).threads i).proc.Preserves valid Inv
      ((c.setThread j th).threads i).reads := by
  intro i
  by_cases hij : i = j
  · subst hij
    simpa [Pool.setThread] using hth
  · simpa [Pool.setThread, Function.update_of_ne hij] using hthreads i

theorem Step.preserves {c c' : Pool K V ι ε α J} (hstep : Step valid c c') (hinv : Inv c.db)
    (hthreads : ∀ i, (c.threads i).proc.Preserves valid Inv (c.threads i).reads) :
    Inv c'.db ∧ ∀ i, (c'.threads i).proc.Preserves valid Inv (c'.threads i).reads := by
  cases hstep with
  | @read j _ _ _ hthread | @scan j _ _ _ _ _ hthread | @input j _ _ _ hthread =>
    have hj := hthreads j
    rw [hthread] at hj
    exact ⟨hinv, preserves_setThread hthreads (hj _)⟩
  | @commit j _ _ _ db hthread hvalid hrun =>
    have hj := hthreads j
    rw [hthread] at hj
    exact ⟨hj.1 _ _ hinv hvalid hrun, preserves_setThread hthreads hj.2⟩
  | @reject | @abort =>
    exact ⟨hinv, preserves_setThread hthreads trivial⟩

/-- An invariant that the write transactions of every request keep holds along
every interleaving. -/
theorem Reach.invariant {c c' : Pool K V ι ε α J} (hreach : Reach valid c c') (hinv : Inv c.db)
    (hthreads : ∀ i, (c.threads i).proc.Preserves valid Inv (c.threads i).reads) : Inv c'.db := by
  have hboth : Inv c'.db ∧ ∀ i, (c'.threads i).proc.Preserves valid Inv (c'.threads i).reads := by
    induction hreach with
    | refl => exact ⟨hinv, hthreads⟩
    | tail _ hstep ih => exact hstep.preserves ih.1 ih.2
  exact hboth.1

end Invariant

/-- The next transaction of request `j`, run to its end; `i` answers an input. -/
def Pool.move (c : Pool K V ι ε α J) (j : J) (i : ι) : Pool K V ι ε α J :=
  match c.threads j with
  | ⟨.done _, _⟩ => c
  | ⟨.readThen k next, reads⟩ =>
    c.setThread j ⟨next (c.db.rows.get k), (k, c.db.rows.get k) :: reads⟩
  | ⟨.scanThen lo hi limit next, reads⟩ =>
    c.setThread j ⟨next ((c.db.rows.range lo hi).take limit), reads⟩
  | ⟨.inputThen next, reads⟩ => c.setThread j ⟨next i, reads⟩
  | ⟨.commitThen t next, reads⟩ =>
    match t.run c.db with
    | .ok (_, db) => { c with db := db }.setThread j ⟨next, []⟩
    | .error e => c.setThread j ⟨.done (.error e), reads⟩

/-- A schedule names the requests in the order in which they take their turns. -/
def Pool.schedule (c : Pool K V ι ε α J) (turns : List (J × ι)) : Pool K V ι ε α J :=
  turns.foldl (fun c turn => c.move turn.1 turn.2) c

theorem Pool.reach_move {valid : Db K V → List (K × Option V) → Prop} (c : Pool K V ι ε α J) (j : J)
    (i : ι) (hvalid : ∀ t next reads, c.threads j = ⟨.commitThen t next, reads⟩ → valid c.db reads) :
    Reach valid c (c.move j i) := by
  unfold move
  split
  · exact refl
  · exact single (.read ‹_›)
  · exact single (.scan ‹_›)
  · exact single (.input i ‹_›)
  · rename_i t next reads hthread
    split
    · exact single (.commit hthread (hvalid t _ _ hthread) ‹_›)
    · exact single (.reject hthread ‹_›)

/-- Every schedule is one of the interleavings. -/
theorem Pool.reach_schedule (c : Pool K V ι ε α J) (turns : List (J × ι)) :
    Reach (fun _ _ => True) c (c.schedule turns) := by
  induction turns generalizing c with
  | nil => exact refl
  | cons turn _ ih => exact (c.reach_move _ _ fun _ _ _ _ => trivial).trans (ih _)

/-- No turn of the schedule commits on reads that are out of date. -/
def Pool.currentSchedule [DecidableEq V] (c : Pool K V ι ε α J) : List (J × ι) → Bool
  | [] => true
  | turn :: rest =>
    (match c.threads turn.1 with
      | ⟨.commitThen _ _, reads⟩ => reads.all fun r => decide (c.db.rows.get r.1 = r.2)
      | _ => true) && (c.move turn.1 turn.2).currentSchedule rest

theorem Pool.reach_currentSchedule [DecidableEq V] {c : Pool K V ι ε α J} {turns : List (J × ι)}
    (h : c.currentSchedule turns = true) : Reach Current c (c.schedule turns) := by
  induction turns generalizing c with
  | nil => exact refl
  | cons turn _ ih =>
    obtain ⟨hturn, hrest⟩ := Bool.and_eq_true_iff.mp h
    refine (c.reach_move _ _ ?_).trans (ih hrest)
    intro t _ _ hthread r hr
    rw [hthread] at hturn
    exact of_decide_eq_true (List.all_eq_true.mp hturn r hr)

/-- The request has returned a result. -/
def Proc.succeeded : Proc K V ι ε α → Bool
  | .done (.ok _) => true
  | _ => false

omit [LinearOrder K] in
theorem Proc.eq_done_of_succeeded {p : Proc K V ι ε α} (h : p.succeeded = true) : ∃ a, p = .done (.ok a) := by
  unfold Proc.succeeded at h
  split at h
  · exact ⟨_, rfl⟩
  · cases h

end kv
