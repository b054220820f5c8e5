import Pelago.Kv.OrderedMap

namespace kv

open List

/-- A transactional store: rows under ordered keys, and append-only journals.
A journal under a key stands for the rows a versionstamped append creates below
that key: they are ordered by commit, and no transaction names them by key. -/
structure Db (K V : Type) [LinearOrder K] where
  rows : OrdMap K V
  journal : K → List V

/-- Two databases hold the same rows in `S`. -/
def Agree {K V : Type} [LinearOrder K] (S : K → Prop) (db₁ db₂ : Db K V) : Prop :=
  ∀ k, S k → db₁.rows.get k = db₂.rows.get k

theorem Agree.refl {K V : Type} [LinearOrder K] (S : K → Prop) (db : Db K V) : Agree S db db :=
  fun _ _ => rfl

theorem Agree.trans {K V : Type} [LinearOrder K] {S : K → Prop} {db₁ db₂ db₃ : Db K V}
    (h₁ : Agree S db₁ db₂) (h₂ : Agree S db₂ db₃) : Agree S db₁ db₃ :=
  fun k hk => (h₁ k hk).trans (h₂ k hk)

/-- A transaction as the operations it performs in program order. Each read
fixes the rest of the transaction by the value it returns, and includes the
transaction's own earlier writes. -/
inductive Tx (K V ε α : Type) : Type where
  | ret (a : α)
  | fail (e : ε)
  | getThen (k : K) (next : Option V → Tx K V ε α)
  | setThen (k : K) (v : V) (next : Tx K V ε α)
  | clearThen (k : K) (next : Tx K V ε α)
  | appendThen (k : K) (v : V) (next : Tx K V ε α)

namespace Tx

variable {K V ε α β : Type}

def get (k : K) : Tx K V ε (Option V) := getThen k ret
def set (k : K) (v : V) : Tx K V ε Unit := setThen k v (ret ())
def clear (k : K) : Tx K V ε Unit := clearThen k (ret ())
def append (k : K) (v : V) : Tx K V ε Unit := appendThen k v (ret ())

def bind : Tx K V ε α → (α → Tx K V ε β) → Tx K V ε β
  | ret a, f => f a
  | fail e, _ => fail e
  | getThen k next, f => getThen k (fun v => (next v).bind f)
  | setThen k v next, f => setThen k v (next.bind f)
  | clearThen k next, f => clearThen k (next.bind f)
  | appendThen k v next, f => appendThen k v (next.bind f)

instance : Monad (Tx K V ε) where
  pure := ret
  bind := bind

def ofExcept : Except ε α → Tx K V ε α
  | .ok a => ret a
  | .error e => fail e

/-- Performs `f` for each element in turn. -/
def forEach {ι : Type} (xs : List ι) (f : ι → Tx K V ε Unit) : Tx K V ε Unit :=
  match xs with
  | [] => ret ()
  | x :: rest => f x >>= fun _ => forEach rest f

variable [LinearOrder K]

/-- The effect of a committed transaction: it runs on the state it commits to,
all of it or nothing. -/
def run : Tx K V ε α → Db K V → Except ε (α × Db K V)
  | ret a, db => .ok (a, db)
  | fail e, _ => .error e
  | getThen k next, db => (next (db.rows.get k)).run db
  | setThen k v next, db => next.run { db with rows := db.rows.set k v }
  | clearThen k next, db => next.run { db with rows := db.rows.clear k }
  | appendThen k v next, db =>
    next.run { db with journal := Function.update db.journal k (db.journal k ++ [v]) }

@[simp] theorem run_pure (a : α) (db : Db K V) : (pure a : Tx K V ε α).run db = .ok (a, db) := rfl

@[simp] theorem run_ofExcept (r : Except ε α) (db : Db K V) :
    (ofExcept r : Tx K V ε α).run db = r.map (fun a => (a, db)) := by
  cases r <;> rfl

@[simp] theorem run_fail (e : ε) (db : Db K V) : (fail e : Tx K V ε α).run db = .error e := rfl

@[simp] theorem run_get (k : K) (db : Db K V) :
    (get k : Tx K V ε (Option V)).run db = .ok (db.rows.get k, db) := rfl

@[simp] theorem run_set (k : K) (v : V) (db : Db K V) :
    (set k v : Tx K V ε Unit).run db = .ok ((), { db with rows := db.rows.set k v }) := rfl

@[simp] theorem run_clear (k : K) (db : Db K V) :
    (clear k : Tx K V ε Unit).run db = .ok ((), { db with rows := db.rows.clear k }) := rfl

@[simp] theorem run_append (k : K) (v : V) (db : Db K V) :
    (append k v : Tx K V ε Unit).run db =
      .ok ((), { db with journal := Function.update db.journal k (db.journal k ++ [v]) }) := rfl

theorem run_bind (t : Tx K V ε α) (f : α → Tx K V ε β) (db : Db K V) :
    (t >>= f).run db = t.run db >>= fun r => (f r.1).run r.2 := by
  induction t generalizing db with
  | ret | fail => rfl
  | getThen _ _ ih => exact ih _ db
  | setThen _ _ _ ih | clearThen _ _ ih | appendThen _ _ _ ih => exact ih _

variable {t : Tx K V ε α} {f : α → Tx K V ε β} {db db' : Db K V}

/-- Inversion of a successful sequence. -/
theorem run_bind_eq_ok {r : β × Db K V} :
    (t >>= f).run db = .ok r ↔ ∃ a mid, t.run db = .ok (a, mid) ∧ (f a).run mid = .ok r := by
  rw [run_bind]
  cases t.run db with
  | error => simp [Bind.bind, Except.bind]
  | ok => simp [Bind.bind, Except.bind, Prod.ext_iff]

theorem run_bind_of_ok {mid : Db K V} {a : α} (h : t.run db = .ok (a, mid)) : (t >>= f).run db = (f a).run mid := by
  rw [run_bind, h]
  rfl

theorem run_ofExcept_bind_eq_ok {r : Except ε α} {out : β × Db K V} :
    (ofExcept r >>= f).run db = .ok out ↔ ∃ a, r = .ok a ∧ (f a).run db = .ok out := by
  cases r with
  | ok a =>
    constructor
    · exact fun h => ⟨a, rfl, h⟩
    · rintro ⟨_, ⟨⟩, h⟩
      exact h
  | error =>
    constructor
    · intro h
      cases h
    · rintro ⟨_, h, _⟩
      cases h

theorem run_get_bind (k : K) (f : Option V → Tx K V ε β) (db : Db K V) :
    (get k >>= f).run db = (f (db.rows.get k)).run db := rfl

/-- From a state with `I` the transaction succeeds and keeps `I`. -/
def Keeps (I : Db K V → Prop) (t : Tx K V ε α) : Prop :=
  ∀ db, I db → ∃ a db', t.run db = .ok (a, db') ∧ I db'

section Invariants

variable {I : Db K V → Prop}

theorem keeps_pure (a : α) : (pure a : Tx K V ε α).Keeps I := fun db h => ⟨a, db, rfl, h⟩

theorem keeps_bind (ht : t.Keeps I) (hf : ∀ a, (f a).Keeps I) : (t >>= f).Keeps I := by
  intro db h
  obtain ⟨a, mid, hrun, hmid⟩ := ht db h
  obtain ⟨b, db', hrun', hdb'⟩ := hf a _ hmid
  exact ⟨b, db', run_bind_eq_ok.mpr ⟨a, mid, hrun, hrun'⟩, hdb'⟩

theorem keeps_forEach {ι : Type} {xs : List ι} {f : ι → Tx K V ε Unit} (hf : ∀ x ∈ xs, (f x).Keeps I) :
    (forEach xs f).Keeps I := by
  induction xs with
  | nil => exact keeps_pure ()
  | cons x _ ih =>
    exact keeps_bind (hf x mem_cons_self) fun _ => ih fun y hy => hf y (mem_cons_of_mem _ hy)

end Invariants

section Loops

variable {ι : Type}

omit [LinearOrder K] in
theorem forEach_congr {xs : List ι} {f g : ι → Tx K V ε Unit} (h : ∀ x ∈ xs, f x = g x) :
    forEach xs f = forEach xs g := by
  induction xs with
  | nil => rfl
  | cons x _ ih =>
    rw [forEach, forEach, h x mem_cons_self, ih fun y hy => h y (mem_cons_of_mem _ hy)]

theorem run_forEach_clear (xs : List ι) (key : ι → K) (db : Db K V) :
    (forEach xs fun x => (clear (key x) : Tx K V ε Unit)).run db =
      .ok ((), { db with rows := xs.foldl (fun m x => m.clear (key x)) db.rows }) := by
  induction xs generalizing db with
  | nil => rfl
  | cons x _ ih =>
    rw [forEach, run_bind_of_ok (run_clear _ db), ih]
    rfl

theorem run_forEach_set (xs : List ι) (key : ι → K) (val : ι → V) (db : Db K V) :
    (forEach xs fun x => (set (key x) (val x) : Tx K V ε Unit)).run db =
      .ok ((), { db with rows := xs.foldl (fun m x => m.set (key x) (val x)) db.rows }) := by
  induction xs generalizing db with
  | nil => rfl
  | cons x _ ih =>
    rw [forEach, run_bind_of_ok (run_set _ _ db), ih]
    rfl

end Loops

/-- The transaction appends to no journal. -/
def Silent : Tx K V ε α → Prop
  | ret _ => True
  | fail _ => True
  | getThen _ next => ∀ v, (next v).Silent
  | setThen _ _ next => next.Silent
  | clearThen _ next => next.Silent
  | appendThen _ _ _ => False

section Silent

omit [LinearOrder K]

theorem silent_pure (a : α) : (pure a : Tx K V ε α).Silent := trivial

theorem silent_fail (e : ε) : (fail e : Tx K V ε α).Silent := trivial

theorem silent_ofExcept (r : Except ε α) : (ofExcept r : Tx K V ε α).Silent := by
  cases r <;> trivial

theorem silent_get (k : K) : (get k : Tx K V ε (Option V)).Silent := fun _ => trivial

theorem silent_set (k : K) (v : V) : (set k v : Tx K V ε Unit).Silent := trivial

theorem silent_clear (k : K) : (clear k : Tx K V ε Unit).Silent := trivial

theorem silent_bind (ht : t.Silent) (hf : ∀ a, (f a).Silent) : (t >>= f).Silent := by
  induction t with
  | ret a => exact hf a
  | fail => trivial
  | getThen _ _ ih => exact fun v => ih v (ht v)
  | setThen _ _ _ ih | clearThen _ _ ih => exact ih ht
  | appendThen => exact ht.elim

theorem silent_forEach {ι : Type} {xs : List ι} {f : ι → Tx K V ε Unit} (hf : ∀ x ∈ xs, (f x).Silent) :
    (forEach xs f).Silent := by
  induction xs with
  | nil => trivial
  | cons x _ ih =>
    exact silent_bind (hf x mem_cons_self) fun _ => ih fun y hy => hf y (mem_cons_of_mem _ hy)

end Silent

theorem Silent.journal_eq (ht : t.Silent) {a : α} (hrun : t.run db = .ok (a, db')) : db'.journal = db.journal := by
  induction t generalizing db with
  | ret =>
    cases hrun
    rfl
  | fail => cases hrun
  | getThen _ _ ih => exact ih _ (ht _) hrun
  | setThen k v next ih =>
    have hnext := ih ht (show next.run { db with rows := db.rows.set k v } = .ok (a, db') from hrun)
    exact hnext
  | clearThen k next ih =>
    have hnext := ih ht (show next.run { db with rows := db.rows.clear k } = .ok (a, db') from hrun)
    exact hnext
  | appendThen => exact ht.elim

/-- Every row a transaction reads lies in `R` and every row it writes in `W`,
whatever its reads return. -/
def Touches (R W : K → Prop) : Tx K V ε α → Prop
  | ret _ => True
  | fail _ => True
  | getThen k next => R k ∧ ∀ v, (next v).Touches R W
  | setThen k _ next => W k ∧ next.Touches R W
  | clearThen k next => W k ∧ next.Touches R W
  | appendThen _ _ next => next.Touches R W

section Touches

variable {R W : K → Prop}

omit [LinearOrder K]

@[simp] theorem touches_pure (a : α) : (pure a : Tx K V ε α).Touches R W := trivial

@[simp] theorem touches_fail (e : ε) : (fail e : Tx K V ε α).Touches R W := trivial

@[simp] theorem touches_ofExcept (r : Except ε α) : (ofExcept r : Tx K V ε α).Touches R W := by
  cases r <;> trivial

@[simp] theorem touches_get (k : K) : (get k : Tx K V ε (Option V)).Touches R W ↔ R k := by
  simp [get, Touches]

@[simp] theorem touches_set (k : K) (v : V) : (set k v : Tx K V ε Unit).Touches R W ↔ W k := by
  simp [set, Touches]

@[simp] theorem touches_clear (k : K) : (clear k : Tx K V ε Unit).Touches R W ↔ W k := by
  simp [clear, Touches]

@[simp] theorem touches_append (k : K) (v : V) : (append k v : Tx K V ε Unit).Touches R W := trivial

theorem touches_bind (ht : t.Touches R W) (hf : ∀ a, (f a).Touches R W) : (t >>= f).Touches R W := by
  induction t with
  | ret a => exact hf a
  | fail => trivial
  | getThen _ _ ih => exact ⟨ht.1, fun v => ih v (ht.2 v)⟩
  | setThen _ _ _ ih | clearThen _ _ ih => exact ⟨ht.1, ih ht.2⟩
  | appendThen _ _ _ ih => exact ih ht

theorem touches_forEach {ι : Type} {xs : List ι} {f : ι → Tx K V ε Unit}
    (hf : ∀ x ∈ xs, (f x).Touches R W) : (forEach xs f).Touches R W := by
  induction xs with
  | nil => trivial
  | cons x _ ih =>
    exact touches_bind (hf x mem_cons_self) fun _ =>
      ih fun y hy => hf y (mem_cons_of_mem _ hy)

theorem Touches.mono {R' W' : K → Prop} (ht : t.Touches R W)
    (hR : ∀ k, R k → R' k) (hW : ∀ k, W k → W' k) : t.Touches R' W' := by
  induction t with
  | ret | fail => trivial
  | getThen k _ ih => exact ⟨hR k ht.1, fun v => ih v (ht.2 v)⟩
  | setThen k _ _ ih | clearThen k _ ih => exact ⟨hW k ht.1, ih ht.2⟩
  | appendThen _ _ _ ih => exact ih ht

end Touches

/-- Rows outside the written set keep their values. -/
theorem Touches.get_eq {R W : K → Prop} (ht : t.Touches R W) {a : α}
    (hrun : t.run db = .ok (a, db')) {k : K} (hk : ¬ W k) : db'.rows.get k = db.rows.get k := by
  induction t generalizing db with
  | ret =>
    simp only [run, Except.ok.injEq, Prod.mk.injEq] at hrun
    rw [hrun.2]
  | fail => simp [run] at hrun
  | getThen _ _ ih => exact ih _ (ht.2 _) hrun
  | setThen _ v _ ih =>
    rw [ih ht.2 hrun]
    exact db.rows.get_set_of_ne v fun heq => hk (heq ▸ ht.1)
  | clearThen _ _ ih =>
    rw [ih ht.2 hrun]
    exact db.rows.get_clear_of_ne fun heq => hk (heq ▸ ht.1)
  | appendThen _ _ _ ih =>
    rw [ih ht hrun]

/-- Two states that agree on rows that include all a transaction reads give the
same outcome, and agree on these rows again afterwards. -/
theorem Touches.run_agree {R W : K → Prop} (ht : t.Touches R W) {db₁ db₂ : Db K V}
    (hagree : Agree R db₁ db₂) {a : α} {db₁' : Db K V} (hrun : t.run db₁ = .ok (a, db₁')) :
    ∃ db₂', t.run db₂ = .ok (a, db₂') ∧ Agree R db₁' db₂' := by
  induction t generalizing db₁ db₂ with
  | ret =>
    simp only [run, Except.ok.injEq, Prod.mk.injEq] at hrun
    refine ⟨db₂, ?_, ?_⟩
    · simp [run, hrun.1]
    · simpa [← hrun.2] using hagree
  | fail => simp [run] at hrun
  | getThen k _ ih =>
    simp only [run, hagree k ht.1] at hrun
    exact ih _ (ht.2 _) hagree hrun
  | setThen _ _ _ ih =>
    refine ih ht.2 (fun k' hk' => ?_) hrun
    simp [OrdMap.get_set, hagree k' hk']
  | clearThen _ _ ih =>
    refine ih ht.2 (fun k' hk' => ?_) hrun
    simp [OrdMap.get_clear, hagree k' hk']
  | appendThen _ _ _ ih =>
    exact ih ht (by simpa [Agree] using hagree) hrun

end Tx

end kv
