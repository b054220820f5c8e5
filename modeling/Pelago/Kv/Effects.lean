import Pelago.Kv.Process

namespace kv.Proc

section

variable {K V ι ε α β : Type}

/-- Every write transaction of the request is one of `C`, and what the request
returns is `good`. -/
def Commits (C : Tx K V ε Unit → Prop) (good : α → Prop) : Proc K V ι ε α → Prop
  | done (.ok a) => good a
  | done (.error _) => True
  | readThen _ next => ∀ v, (next v).Commits C good
  | scanThen _ _ _ next => ∀ rows, (next rows).Commits C good
  | inputThen next => ∀ i, (next i).Commits C good
  | commitThen t next => C t ∧ next.Commits C good

/-- The request writes nothing. -/
abbrev Quiet (p : Proc K V ι ε α) : Prop := p.Commits (fun _ => False) fun _ => True

section Rules

variable {C C' : Tx K V ε Unit → Prop} {good good' : α → Prop} {result : β → Prop} {p : Proc K V ι ε α}

theorem commits_pure {a : α} (h : good a) : (pure a : Proc K V ι ε α).Commits C good := h

theorem commits_ofExcept {r : Except ε α} (h : ∀ a, r = .ok a → good a) :
    (ofExcept r : Proc K V ι ε α).Commits C good := by
  cases r with
  | ok a => exact h a rfl
  | error => trivial

theorem Commits.mono (hp : p.Commits C good) (hC : ∀ t, C t → C' t) (hgood : ∀ a, good a → good' a) :
    p.Commits C' good' := by
  induction p with
  | done r =>
    cases r with
    | ok a => exact hgood a hp
    | error => trivial
  | readThen _ _ ih | scanThen _ _ _ _ ih | inputThen _ ih => exact fun v => ih v (hp v)
  | commitThen t _ ih => exact ⟨hC t hp.1, ih hp.2⟩

variable {f : α → Proc K V ι ε β}

theorem Commits.bind (hp : p.Commits C good)
    (hf : ∀ a, good a → (f a).Commits C result) : (p >>= f).Commits C result := by
  induction p with
  | done r =>
    cases r with
    | ok a => exact hf a hp
    | error => trivial
  | readThen _ _ ih | scanThen _ _ _ _ ih | inputThen _ ih => exact fun v => ih v (hp v)
  | commitThen _ _ ih => exact ⟨hp.1, ih hp.2⟩

theorem ReadOnly.quiet (hp : p.ReadOnly) : p.Quiet := by
  induction p with
  | done r => cases r <;> trivial
  | readThen _ _ ih => exact fun v => ih v (hp v)
  | scanThen | inputThen | commitThen => exact absurd hp (by simp [ReadOnly])

theorem Quiet.commits (hp : p.Quiet) : p.Commits C fun _ => True := hp.mono (fun _ h => h.elim) fun _ h => h

theorem Quiet.bind (hp : p.Quiet) (hf : ∀ a, (f a).Commits C result) : (p >>= f).Commits C result :=
  .bind hp.commits fun a _ => hf a

theorem commits_read_bind {k : K} {f : Option V → Proc K V ι ε β} (hf : ∀ v, (f v).Commits C result) :
    (read k >>= f).Commits C result := hf

theorem commits_scan_bind {lo hi : K} {limit : Nat} {f : List (K × V) → Proc K V ι ε β}
    (hf : ∀ rows, (f rows).Commits C result) : (scan lo hi limit >>= f).Commits C result := hf

theorem commits_input_bind {f : ι → Proc K V ι ε β} (hf : ∀ i, (f i).Commits C result) :
    (input >>= f).Commits C result := hf

theorem commits_ofExcept_bind {r : Except ε α}
    (hf : ∀ a, r = .ok a → (f a).Commits C result) : (ofExcept r >>= f).Commits C result := by
  cases r with
  | ok a => exact hf a rfl
  | error => trivial

theorem commits_commit_bind {t : Tx K V ε Unit} {f : Unit → Proc K V ι ε β} (ht : C t)
    (hf : (f ()).Commits C result) : (commit t >>= f).Commits C result :=
  ⟨ht, hf⟩

theorem quiet_collect {σ : Type} {f : σ → Proc K V ι ε (Option β)} (hf : ∀ x, (f x).Quiet) (xs : List σ) :
    (collect f xs).Quiet := by
  induction xs with
  | nil => trivial
  | cons x _ ih => exact (hf x).bind fun _ => ih.bind fun _ => commits_pure trivial

theorem quiet_forEach {σ : Type} {f : σ → Proc K V ι ε Unit} (hf : ∀ x, (f x).Quiet) (xs : List σ) :
    (forEach xs f).Quiet := by
  induction xs with
  | nil => trivial
  | cons x _ ih => exact (hf x).bind fun _ => ih

theorem Commits.confined {W : K → Prop} (hp : p.Commits (fun t => t.Touches (fun _ => True) W) good) :
    p.Confined W := by
  induction p with
  | done => trivial
  | readThen _ _ ih | scanThen _ _ _ _ ih | inputThen _ ih => exact fun v => ih v (hp v)
  | commitThen _ _ ih => exact ⟨hp.1, ih hp.2⟩

theorem Confined.commits {W : K → Prop} (hp : p.Confined W) :
    p.Commits (fun t => t.Touches (fun _ => True) W) fun _ => True := by
  induction p with
  | done r => cases r <;> trivial
  | readThen _ _ ih | scanThen _ _ _ _ ih | inputThen _ ih => exact fun v => ih v (hp v)
  | commitThen _ _ ih => exact ⟨hp.1, ih hp.2⟩

end Rules

variable [LinearOrder K]

/-- Each write transaction of the request takes the database along `E`. -/
abbrev Effects (E : Db K V → Db K V → Prop) (good : α → Prop) (p : Proc K V ι ε α) : Prop :=
  p.Commits (fun t => ∀ db db', t.run db = .ok ((), db') → E db db') good

theorem Effects.mono {E E' : Db K V → Db K V → Prop} {good good' : α → Prop} {p : Proc K V ι ε α}
    (hp : p.Effects E good) (hE : ∀ db db', E db db' → E' db db') (hgood : ∀ a, good a → good' a) :
    p.Effects E' good' :=
  Commits.mono hp (fun _ ht db db' hrun => hE db _ (ht db _ hrun)) hgood

/-- A property that every effect keeps is kept by the request's transactions. -/
theorem Effects.preserves {E : Db K V → Db K V → Prop} {good : α → Prop} {p : Proc K V ι ε α}
    {valid : Db K V → List (K × Option V) → Prop} {Inv : Db K V → Prop}
    (hp : p.Effects E good) (hE : ∀ db db', E db db' → Inv db → Inv db') (reads : List (K × Option V)) :
    p.Preserves valid Inv reads := by
  induction p generalizing reads with
  | done => trivial
  | readThen _ _ ih | scanThen _ _ _ _ ih | inputThen _ ih => exact fun v => ih v (hp v) _
  | commitThen _ _ ih => exact ⟨fun db db' hinv _ hrun => hE db _ (hp.1 db _ hrun) hinv, ih hp.2 _⟩

end

variable {K V ι ε α : Type} [LinearOrder K]

/-- The next transaction of a request; `i` answers an input. -/
def step (i : ι) : Proc K V ι ε α → Db K V → Proc K V ι ε α × Db K V
  | done r, db => (done r, db)
  | readThen k next, db => (next (db.rows.get k), db)
  | scanThen lo hi limit next, db => (next ((db.rows.range lo hi).take limit), db)
  | inputThen next, db => (next i, db)
  | commitThen t next, db =>
    match t.run db with
    | .ok (_, db') => (next, db')
    | .error e => (done (.error e), db)

/-- The database turns a write transaction down. -/
def refuse (e : ε) : Proc K V ι ε α → Proc K V ι ε α
  | commitThen _ _ => done (.error e)
  | p => p

end kv.Proc
