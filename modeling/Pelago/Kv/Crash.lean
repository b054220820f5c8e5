import Pelago.Kv.Effects

namespace kv

section

variable {K V ι ε α β J : Type} [LinearOrder K]

/-- The value that the request has returned. -/
def Proc.returned : Proc K V ι ε α → Option α
  | .done (.ok a) => some a
  | _ => none

omit [LinearOrder K] in
theorem Proc.eq_done_of_returned {p : Proc K V ι ε α} {a : α} (h : p.returned = some a) : p = .done (.ok a) := by
  unfold returned at h
  split at h
  · cases h
    rfl
  · cases h

/-- What a request may rely on while others run: `Inv` always holds, and from
one moment to a later one the database changes along `Rely`. -/
structure Environment (K V : Type) [LinearOrder K] where
  Inv : Db K V → Prop
  Rely : Db K V → Db K V → Prop
  refl : ∀ db, Rely db db
  trans : ∀ {a b c}, Rely a b → Rely b c → Rely a c

namespace Environment

variable (env : Environment K V)

/-- The others cannot end `P`. -/
def Stable (P : Db K V → Prop) : Prop := ∀ {db db'}, env.Inv db' → env.Rely db db' → P db → P db'

/-- What the others do. -/
def Allows (db db' : Db K V) : Prop := env.Inv db → env.Inv db' ∧ env.Rely db db'

/-- If the request, from `db` on and with the others running in between, returns
a value, then `Q` holds of it and of the database. -/
def Ensures (Q : α → Db K V → Prop) : Proc K V ι ε α → Db K V → Prop
  | .done (.ok a), db => Q a db
  | .done (.error _), _ => True
  | .readThen k next, db => ∀ db', env.Inv db' → env.Rely db db' → Ensures Q (next (db'.rows.get k)) db'
  | .scanThen lo hi limit next, db =>
    ∀ db', env.Inv db' → env.Rely db db' → Ensures Q (next ((db'.rows.range lo hi).take limit)) db'
  | .inputThen next, db => ∀ i, Ensures Q (next i) db
  | .commitThen t next, db =>
    ∀ db' db'', env.Inv db' → env.Rely db db' → t.run db' = .ok ((), db'') → env.Inv db'' →
      Ensures Q next db''

variable {env} {Q Q' : α → Db K V → Prop} {p : Proc K V ι ε α} {db db' : Db K V}

theorem Ensures.stable (hQ : ∀ a, env.Stable (Q a)) (hp : env.Ensures Q p db) (hinv : env.Inv db')
    (hrely : env.Rely db db') : env.Ensures Q p db' := by
  induction p with
  | done r =>
    cases r with
    | ok a => exact hQ a hinv hrely hp
    | error => trivial
  | readThen | scanThen =>
    exact fun _ hlater hthen => hp _ hlater (env.trans hrely hthen)
  | inputThen _ ih => exact fun v => ih v (hp v)
  | commitThen =>
    exact fun _ last hlater hthen hrun hlast => hp _ _ hlater (env.trans hrely hthen) hrun hlast

theorem Ensures.bind {f : α → Proc K V ι ε β} {Q : β → Db K V → Prop} (hp : env.Ensures Q' p db)
    (hf : ∀ a db, Q' a db → env.Ensures Q (f a) db) : env.Ensures Q (p >>= f) db := by
  induction p generalizing db with
  | done r =>
    cases r with
    | ok a => exact hf a db hp
    | error => trivial
  | readThen _ _ ih | scanThen _ _ _ _ ih => exact fun db' hinv hrely => ih _ (hp _ hinv hrely)
  | inputThen _ ih => exact fun v => ih v (hp v)
  | commitThen _ _ ih => exact fun db' db'' hinv hrely hrun hlast => ih (hp _ _ hinv hrely hrun hlast)

/-- What the others cannot end is still there after a request whose own
transactions are of the kind that the others make. -/
theorem Ensures.of_stable {P : Db K V → Prop} {good : α → Prop} (hP : env.Stable P) (hp : p.Effects env.Allows good)
    (hdb : P db) : env.Ensures (fun a db => good a ∧ P db) p db := by
  induction p generalizing db with
  | done r =>
    cases r with
    | ok => exact ⟨hp, hdb⟩
    | error => trivial
  | readThen _ _ ih | scanThen _ _ _ _ ih => exact fun _ hinv hrely => ih _ (hp _) (hP hinv hrely hdb)
  | inputThen _ ih => exact fun v => ih v (hp v) hdb
  | commitThen _ _ ih =>
    intro db' db'' hinv hrely hrun hlast
    exact ih hp.2 (hP hlast (hp.1 _ _ hrun hinv).2 (hP hinv hrely hdb))

section Pools

variable [DecidableEq J] {valid : Db K V → List (K × Option V) → Prop} {c c' : Pool K V ι ε α J} {j : J}

/-- All requests stay within what the others are allowed to do, and request `j`
ensures `Q`. -/
structure Runs (env : Environment K V) (Q : α → Db K V → Prop) (j : J) (c : Pool K V ι ε α J) : Prop where
  inv : env.Inv c.db
  effects : ∀ i, (c.threads i).proc.Effects env.Allows fun _ => True
  ensures : env.Ensures Q (c.threads j).proc c.db

/-- The thread that `i` runs after a step of `j`. -/
private theorem setThread_proc (c : Pool K V ι ε α J) (i j : J) (th : Thread K V ι ε α) :
    ((c.setThread j th).threads i).proc = if i = j then th.proc else (c.threads i).proc := by
  by_cases hij : i = j
  · subst hij
    simp [Pool.setThread]
  · simp [Pool.setThread, hij]

section

variable (hruns : Runs env Q j c)
include hruns

section

variable (hQ : ∀ a, env.Stable (Q a))
include hQ

private theorem Runs.setThread {i : J} {th : Thread K V ι ε α}
    {db' : Db K V} (hinv : env.Inv db') (hrely : env.Rely c.db db')
    (heffects : th.proc.Effects env.Allows fun _ => True)
    (hensures : i = j → env.Ensures Q th.proc db') : Runs env Q j ({ c with db := db' }.setThread i th) := by
  refine ⟨hinv, fun i' => ?_, ?_⟩
  · rw [setThread_proc]
    split
    · exact heffects
    · exact hruns.effects i'
  · rw [setThread_proc]
    split
    · rename_i hji
      exact hensures hji.symm
    · exact hruns.ensures.stable hQ hinv hrely

theorem Runs.step (hstep : Step valid c c') : Runs env Q j c' := by
  have heffects := hruns.effects
  have hensures := hruns.ensures
  cases hstep with
  | @read i _ _ _ hthread | @scan i _ hi _ _ _ hthread =>
    have hi := heffects i
    rw [hthread] at hi
    refine hruns.setThread hQ hruns.inv (env.refl _) (hi _) ?_
    rintro rfl
    rw [hthread] at hensures
    exact hensures _ hruns.inv (env.refl _)
  | @input i answer _ _ hthread =>
    have hi := heffects i
    rw [hthread] at hi
    refine hruns.setThread hQ hruns.inv (env.refl _) (hi _) ?_
    rintro rfl
    rw [hthread] at hensures
    exact hensures _
  | @commit i _ _ _ _ hthread _ hrun =>
    have hi := heffects i
    rw [hthread] at hi
    obtain ⟨hinv, hrely⟩ := hi.1 _ _ hrun hruns.inv
    refine hruns.setThread hQ hinv hrely hi.2 ?_
    rintro rfl
    rw [hthread] at hensures
    exact hensures _ _ hruns.inv (env.refl _) hrun hinv
  | @reject | @abort =>
    exact hruns.setThread hQ hruns.inv (env.refl _) trivial fun _ => trivial

theorem Runs.reach (hreach : Reach valid c c') : Runs env Q j c' := by
  induction hreach with
  | refl => exact hruns
  | tail _ hstep ih => exact ih.step hQ hstep

/-- What the requests cannot end stays to the end of the run. -/
theorem Runs.keeps (hreach : Reach valid c c')
    {P : Db K V → Prop} (hP : env.Stable P) (hdb : P c.db) : P c'.db := by
  have hboth : Runs env Q j c' ∧ env.Rely c.db c'.db := by
    induction hreach with
    | refl => exact ⟨hruns, env.refl _⟩
    | tail _ hstep ih =>
      refine ⟨ih.1.step hQ hstep, env.trans ih.2 ?_⟩
      cases hstep with
      | @commit i _ _ _ _ hthread _ hrun =>
        have hi := ih.1.effects i
        rw [hthread] at hi
        exact (hi.1 _ _ hrun ih.1.inv).2
      | _ => exact env.refl _
  exact hP hboth.1.inv hboth.2 hdb

end

end

end Pools

end Environment

end

variable {K V ι ε α β : Type}

namespace Tx

/-- The transaction without its journal entries. -/
def mute : Tx K V ε α → Tx K V ε α
  | ret a => ret a
  | fail e => fail e
  | getThen k next => getThen k fun v => (next v).mute
  | setThen k v next => setThen k v next.mute
  | clearThen k next => clearThen k next.mute
  | appendThen _ _ next => next.mute

theorem mute_bind (t : Tx K V ε α) (f : α → Tx K V ε β) : (t >>= f).mute = t.mute >>= fun a => (f a).mute := by
  change (t.bind f).mute = t.mute.bind fun a => (f a).mute
  induction t with
  | ret | fail => rfl
  | getThen _ _ ih | setThen _ _ _ ih | clearThen _ _ ih | appendThen _ _ _ ih =>
    simp [bind, mute, ih]

variable [LinearOrder K]

/-- Journal entries have no part in what a transaction does to rows. -/
theorem mute_run {t : Tx K V ε α} {db db' : Db K V} (hrows : db'.rows = db.rows) :
    (t.mute.run db').map (fun r => (r.1, r.2.rows)) = (t.run db).map fun r => (r.1, r.2.rows) := by
  induction t generalizing db db' with
  | ret => simp [mute, run, Except.map, hrows]
  | fail => rfl
  | getThen _ _ ih =>
    simp only [mute, run, hrows]
    exact ih _ hrows
  | setThen _ _ _ ih | clearThen _ _ ih => exact ih (by simp [hrows])
  | appendThen _ _ _ ih => exact ih hrows

theorem mute_run_ok {t : Tx K V ε α} {db db' mid : Db K V} {a : α} (hrows : db'.rows = db.rows)
    (hrun : t.run db = .ok (a, mid)) : ∃ mid', t.mute.run db' = .ok (a, mid') ∧ mid'.rows = mid.rows := by
  have h := mute_run (t := t) hrows
  rw [hrun] at h
  cases hmute : t.mute.run db' with
  | error =>
    rw [hmute] at h
    cases h
  | ok r =>
    rw [hmute] at h
    obtain ⟨a', mid'⟩ := r
    simp only [Except.map, Except.ok.injEq, Prod.mk.injEq] at h
    obtain ⟨rfl, hmid⟩ := h
    exact ⟨mid', rfl, hmid⟩

theorem mute_run_error {t : Tx K V ε α} {db db' : Db K V} {e : ε} (hrows : db'.rows = db.rows)
    (hrun : t.run db = .error e) : t.mute.run db' = .error e := by
  have h := mute_run (t := t) hrows
  rw [hrun] at h
  cases hmute : t.mute.run db' with
  | error =>
    rw [hmute] at h
    cases h
    rfl
  | ok =>
    rw [hmute] at h
    cases h

end Tx

namespace Proc

/-- The request without its journal entries. -/
def mute : Proc K V ι ε α → Proc K V ι ε α
  | done r => done r
  | readThen k next => readThen k fun v => (next v).mute
  | scanThen lo hi limit next => scanThen lo hi limit fun rows => (next rows).mute
  | inputThen next => inputThen fun i => (next i).mute
  | commitThen t next => commitThen t.mute next.mute

theorem mute_bind (p : Proc K V ι ε α) (f : α → Proc K V ι ε β) :
    (p >>= f).mute = p.mute >>= fun a => (f a).mute := by
  change (p.bind f).mute = p.mute.bind fun a => (f a).mute
  induction p with
  | done r => cases r <;> rfl
  | readThen _ _ ih | scanThen _ _ _ _ ih | inputThen _ ih | commitThen _ _ ih =>
    simp [bind, mute, ih]

variable [LinearOrder K] (answer : ι)

/-- The request run alone, each input answered by `answer`. -/
def complete : Proc K V ι ε α → Db K V → Except ε α × Db K V
  | done r, db => (r, db)
  | readThen k next, db => (next (db.rows.get k)).complete db
  | scanThen lo hi limit next, db => (next ((db.rows.range lo hi).take limit)).complete db
  | inputThen next, db => (next answer).complete db
  | commitThen t next, db =>
    match t.run db with
    | .ok (_, db') => next.complete db'
    | .error e => (.error e, db)

/-- How many write transactions of the request go through when it runs alone. -/
def commitCount : Proc K V ι ε α → Db K V → Nat
  | done _, _ => 0
  | readThen k next, db => (next (db.rows.get k)).commitCount db
  | scanThen lo hi limit next, db => (next ((db.rows.range lo hi).take limit)).commitCount db
  | inputThen next, db => (next answer).commitCount db
  | commitThen t next, db =>
    match t.run db with
    | .ok (_, db') => next.commitCount db' + 1
    | .error _ => 0

/-- What the request leaves when its server stops after `n` write transactions. -/
def crash : Nat → Proc K V ι ε α → Db K V → Db K V
  | _, done _, db => db
  | n, readThen k next, db => (next (db.rows.get k)).crash n db
  | n, scanThen lo hi limit next, db => (next ((db.rows.range lo hi).take limit)).crash n db
  | n, inputThen next, db => (next answer).crash n db
  | 0, commitThen _ _, db => db
  | n + 1, commitThen t next, db =>
    match t.run db with
    | .ok (_, db') => next.crash n db'
    | .error _ => db

theorem complete_eq_run (p : Proc K V ι ε α) (db : Db K V) : p.complete answer db =
      ((p.run (fun w : World K V Unit => (answer, w)) ⟨db, ()⟩).1,
        (p.run (fun w : World K V Unit => (answer, w)) ⟨db, ()⟩).2.db) := by
  induction p generalizing db with
  | done => rfl
  | readThen _ _ ih | scanThen _ _ _ _ ih | inputThen _ ih => exact ih _ db
  | commitThen t _ ih =>
    cases hrun : t.run db with
    | error => simp [complete, run, hrun]
    | ok =>
      simp only [complete, run, hrun]
      exact ih _

section Commit

variable {answer} {t : Tx K V ε Unit} {next : Proc K V ι ε α} {db db' : Db K V}

section

variable (h : t.run db = .ok ((), db'))
include h

theorem complete_commit : (commitThen t next).complete answer db = next.complete answer db' := by
  simp [complete, h]

theorem commitCount_commit : (commitThen t next).commitCount answer db = next.commitCount answer db' + 1 := by
  simp [commitCount, h]

theorem crash_commit (n : Nat) : (commitThen t next).crash answer (n + 1) db = next.crash answer n db' := by
  simp [crash, h]

end

end Commit

@[simp] theorem commitCount_pure (a : α) (db : Db K V) : (pure a : Proc K V ι ε α).commitCount answer db = 0 := rfl

theorem crash_zero (p : Proc K V ι ε α) (db : Db K V) : p.crash answer 0 db = db := by
  induction p with
  | done | commitThen => rfl
  | readThen _ _ ih | scanThen _ _ _ _ ih | inputThen _ ih => exact ih _

/-- A server that stops after the last write transaction leaves what the whole
request does. -/
theorem crash_of_commitCount_le {p : Proc K V ι ε α} {n : Nat} {db : Db K V} (h : p.commitCount answer db ≤ n) :
    p.crash answer n db = (p.complete answer db).2 := by
  induction p generalizing n db with
  | done => rfl
  | readThen _ _ ih | scanThen _ _ _ _ ih | inputThen _ ih => exact ih _ h
  | commitThen t _ ih =>
    cases hrun : t.run db with
    | error => cases n <;> simp [crash, complete, hrun]
    | ok r =>
      rw [commitCount_commit hrun] at h
      obtain ⟨m, rfl⟩ : ∃ m, n = m + 1 := ⟨n - 1, by omega⟩
      rw [crash_commit hrun, complete_commit hrun]
      exact ih (by omega)

section Bind

variable {p : Proc K V ι ε α} {f : α → Proc K V ι ε β} {db db' : Db K V} {a : α}

/-- Up to its last write transaction the first part is all that runs. -/
theorem crash_bind_of_le {n : Nat} (h : n ≤ p.commitCount answer db) :
    (p >>= f).crash answer n db = p.crash answer n db := by
  change (p.bind f).crash answer n db = _
  induction p generalizing n db with
  | done r =>
    obtain rfl : n = 0 := Nat.le_zero.mp h
    cases r with
    | ok => exact crash_zero ..
    | error => rfl
  | readThen _ _ ih | scanThen _ _ _ _ ih | inputThen _ ih => exact ih _ h
  | commitThen t _ ih =>
    cases n with
    | zero => rfl
    | succ =>
      cases hrun : t.run db with
      | error => simp [bind, crash, hrun]
      | ok r =>
        rw [commitCount_commit hrun] at h
        rw [bind, crash_commit hrun, crash_commit hrun]
        exact ih (by omega)

theorem complete_bind (h : p.complete answer db = (.ok a, db')) :
    (p >>= f).complete answer db = (f a).complete answer db' := by
  change (p.bind f).complete answer db = _
  induction p generalizing db with
  | done =>
    cases h
    rfl
  | readThen _ _ ih | scanThen _ _ _ _ ih | inputThen _ ih => exact ih _ h
  | commitThen t _ ih =>
    cases hrun : t.run db with
    | error => simp [complete, hrun] at h
    | ok r =>
      rw [complete_commit hrun] at h
      rw [bind, complete_commit hrun]
      exact ih h

theorem complete_bind_eq_ok {b : β} (h : (p >>= f).complete answer db = (.ok b, db')) :
    ∃ a mid, p.complete answer db = (.ok a, mid) ∧ (f a).complete answer mid = (.ok b, db') := by
  change (p.bind f).complete answer db = _ at h
  induction p generalizing db with
  | done r =>
    cases r with
    | ok a => exact ⟨a, db, rfl, h⟩
    | error => cases h
  | readThen _ _ ih | scanThen _ _ _ _ ih | inputThen _ ih => exact ih _ h
  | commitThen t _ ih =>
    cases hrun : t.run db with
    | error => simp [bind, complete, hrun] at h
    | ok r =>
      rw [bind, complete_commit hrun] at h
      rw [complete_commit hrun]
      exact ih h

theorem complete_ofExcept_bind_eq_ok {r : Except ε α} {b : β}
    (h : (ofExcept r >>= f).complete answer db = (.ok b, db')) :
    ∃ a, r = .ok a ∧ (f a).complete answer db = (.ok b, db') := by
  cases r with
  | ok a => exact ⟨a, rfl, h⟩
  | error => cases h

theorem complete_commit_bind_eq_ok {t : Tx K V ε Unit} {f : Unit → Proc K V ι ε β} {b : β}
    (h : (commit t >>= f).complete answer db = (.ok b, db')) :
    ∃ mid, t.run db = .ok ((), mid) ∧ (f ()).complete answer mid = (.ok b, db') := by
  rw [commit_bind] at h
  cases hrun : t.run db with
  | error => simp [complete, hrun] at h
  | ok r =>
    obtain ⟨⟨⟩, mid⟩ := r
    exact ⟨mid, rfl, by rwa [complete_commit hrun] at h⟩

theorem commitCount_bind (h : p.complete answer db = (.ok a, db')) :
    (p >>= f).commitCount answer db = p.commitCount answer db + (f a).commitCount answer db' := by
  change (p.bind f).commitCount answer db = _
  induction p generalizing db with
  | done =>
    cases h
    exact (zero_add _).symm
  | readThen _ _ ih | scanThen _ _ _ _ ih | inputThen _ ih => exact ih _ h
  | commitThen t _ ih =>
    cases hrun : t.run db with
    | error => simp [complete, hrun] at h
    | ok r =>
      rw [complete_commit hrun] at h
      rw [bind, commitCount_commit hrun, commitCount_commit hrun, ih h]
      omega

end Bind

/-- Wherever the server stops, rows outside the written set keep their values. -/
theorem Confined.crash_get {W : K → Prop} {p : Proc K V ι ε α} (hp : p.Confined W) {k : K} (hk : ¬ W k) (n : Nat)
    (db : Db K V) : (p.crash answer n db).rows.get k = db.rows.get k := by
  induction p generalizing n db with
  | done => rfl
  | readThen _ _ ih | scanThen _ _ _ _ ih | inputThen _ ih => exact ih _ (hp _) n db
  | commitThen t _ ih =>
    cases n with
    | zero => rfl
    | succ n =>
      cases hrun : t.run db with
      | error => simp [crash, hrun]
      | ok r =>
        obtain ⟨⟨⟩, mid⟩ := r
        rw [crash_commit hrun, ih hp.2 n _, hp.1.get_eq hrun hk]

theorem Confined.complete_get {W : K → Prop} {p : Proc K V ι ε α} (hp : p.Confined W) {k : K} (hk : ¬ W k)
    (db : Db K V) : (p.complete answer db).2.rows.get k = db.rows.get k := by
  rw [← crash_of_commitCount_le _ (le_refl _), hp.crash_get _ hk]

section Mute

variable {p q : Proc K V ι ε α} {db db' : Db K V}

/-- Without its journal entries a request does the same to rows. -/
theorem complete_mute (hrows : db'.rows = db.rows) : (p.mute.complete answer db').1 = (p.complete answer db).1 ∧
      (p.mute.complete answer db').2.rows = (p.complete answer db).2.rows ∧
      p.mute.commitCount answer db' = p.commitCount answer db := by
  induction p generalizing db db' with
  | done => exact ⟨rfl, hrows, rfl⟩
  | readThen _ _ ih | scanThen _ _ _ _ ih =>
    simp only [mute, complete, commitCount, hrows]
    exact ih _ hrows
  | inputThen _ ih => exact ih _ hrows
  | commitThen t _ ih =>
    cases hrun : t.run db with
    | error => simp [mute, complete, commitCount, hrun, Tx.mute_run_error _ hrun, hrows]
    | ok r =>
      obtain ⟨mid', hrun', hmid⟩ := Tx.mute_run_ok hrows hrun
      rw [mute, complete_commit hrun, complete_commit hrun', commitCount_commit hrun, commitCount_commit hrun']
      obtain ⟨hresult, hrows', hcount⟩ := ih hmid
      exact ⟨hresult, hrows', by rw [hcount]⟩

/-- Two requests that differ in their journal entries do the same to rows. -/
theorem complete_eq_of_mute_eq (h : p.mute = q.mute) (hrows : db'.rows = db.rows) :
    (q.complete answer db').1 = (p.complete answer db).1 ∧
      (q.complete answer db').2.rows = (p.complete answer db).2.rows ∧
      q.commitCount answer db' = p.commitCount answer db := by
  obtain ⟨hresult, hrows₁, hcount⟩ := complete_mute _ hrows
  obtain ⟨hresult', hrows₂, hcount'⟩ := complete_mute _ (rfl : db'.rows = db'.rows)
  rw [h] at hresult hrows₁ hcount
  exact ⟨hresult'.symm.trans hresult, hrows₂.symm.trans hrows₁, hcount'.symm.trans hcount⟩

end Mute

end Proc

/-- What a request ensures while others run, it ensures when it runs alone. -/
theorem Environment.Ensures.complete [LinearOrder K] {env : Environment K V} {Q : α → Db K V → Prop}
    {p : Proc K V ι ε α} {answer : ι} {db db' : Db K V} {a : α} (hp : env.Ensures Q p db)
    (heffects : p.Effects env.Allows fun _ => True) (hinv : env.Inv db)
    (hrun : p.complete answer db = (.ok a, db')) : env.Inv db' ∧ Q a db' := by
  induction p generalizing db with
  | done =>
    cases hrun
    exact ⟨hinv, hp⟩
  | readThen _ _ ih | scanThen _ _ _ _ ih => exact ih _ (hp db hinv (env.refl db)) (heffects _) hinv hrun
  | inputThen _ ih => exact ih _ (hp _) (heffects _) hinv hrun
  | commitThen t _ ih =>
    cases htx : t.run db with
    | error => simp [Proc.complete, htx] at hrun
    | ok r =>
      obtain ⟨⟨⟩, mid⟩ := r
      rw [Proc.complete_commit htx] at hrun
      have hmid := (heffects.1 db _ htx hinv).1
      exact ih (hp db _ hinv (env.refl db) htx hmid) heffects.2 hmid hrun

end kv
