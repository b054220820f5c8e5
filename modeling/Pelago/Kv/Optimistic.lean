import Mathlib.Data.List.Induction

open List

namespace kv

open Function

/-- A request on one row: it asks its surroundings for values, reads the row in its
transaction, and commits a new row or returns without committing. -/
inductive RowTx (τ V R : Type) : Type where
  | input (next : τ → RowTx τ V R)
  | fetch (next : Option V → RowTx τ V R)
  | commit (v : V) (r : R)
  | done (r : R)

namespace RowTx

variable {τ V R : Type}

/-- The row and the result of a request that commits when the row it reads is `seen`. -/
inductive Commits (seen : Option V) : RowTx τ V R → V → R → Prop where
  | input {next : τ → RowTx τ V R} {t : τ} {v : V} {r : R} :
      Commits seen (next t) v r → Commits seen (.input next) v r
  | fetch {next : Option V → RowTx τ V R} {v : V} {r : R} :
      Commits seen (next seen) v r → Commits seen (.fetch next) v r
  | commit {v : V} {r : R} : Commits seen (.commit v r) v r

/-- The result of a request that returns without committing when the row it reads is `seen`. -/
inductive Returns (seen : Option V) : RowTx τ V R → R → Prop where
  | input {next : τ → RowTx τ V R} {t : τ} {r : R} : Returns seen (next t) r → Returns seen (.input next) r
  | fetch {next : Option V → RowTx τ V R} {r : R} : Returns seen (next seen) r → Returns seen (.fetch next) r
  | done {r : R} : Returns seen (.done r) r

variable {seen : Option V} {r r' : R}

@[simp] theorem commits_input {next : τ → RowTx τ V R} {v : V} :
    Commits seen (.input next) v r ↔ ∃ t, Commits seen (next t) v r :=
  ⟨fun h => by cases h with | input h => exact ⟨_, h⟩, fun ⟨_, h⟩ => .input h⟩

@[simp] theorem commits_fetch {next : Option V → RowTx τ V R} {v : V} :
    Commits seen (.fetch next) v r ↔ Commits seen (next seen) v r :=
  ⟨fun h => by cases h with | fetch h => exact h, .fetch⟩

@[simp] theorem commits_commit {v v' : V} :
    Commits seen (.commit v r : RowTx τ V R) v' r' ↔ v = v' ∧ r = r' :=
  ⟨fun h => by cases h with | commit => exact ⟨rfl, rfl⟩, by rintro ⟨rfl, rfl⟩; exact .commit⟩

@[simp] theorem not_commits_done {v : V} :
    ¬ Commits seen (.done r : RowTx τ V R) v r' := nofun

@[simp] theorem returns_input {next : τ → RowTx τ V R} :
    Returns seen (.input next) r ↔ ∃ t, Returns seen (next t) r :=
  ⟨fun h => by cases h with | input h => exact ⟨_, h⟩, fun ⟨_, h⟩ => .input h⟩

@[simp] theorem returns_fetch {next : Option V → RowTx τ V R} :
    Returns seen (.fetch next) r ↔ Returns seen (next seen) r :=
  ⟨fun h => by cases h with | fetch h => exact h, .fetch⟩

@[simp] theorem returns_done :
    Returns seen (.done r : RowTx τ V R) r' ↔ r = r' :=
  ⟨fun h => by cases h with | done => rfl, by rintro rfl; exact .done⟩

@[simp] theorem not_returns_commit {v : V} :
    ¬ Returns seen (.commit v r : RowTx τ V R) r' := nofun

end RowTx

/-- A commit with the row it replaced. -/
structure Commit (C V R : Type) where
  call : C
  before : Option V
  after : V
  result : R
  deriving DecidableEq

/-- A result handed to the caller, with the number of the commit it reports. -/
structure Reply (C R : Type) where
  call : C
  result : R
  commit : Option Nat
  deriving DecidableEq

inductive RowTask (C τ V R : Type) : Type where
  | idle
  | running (c : C) (p : RowTx τ V R) (seen : Option (Option V × Nat))

/-- One row, the commits made to it and the replies given, and the tasks that
call requests on it. The number of commits is the version of the row. -/
structure RowState (J C τ V R : Type) where
  value : Option V
  commits : List (Commit C V R)
  replies : List (Reply C R)
  tasks : J → RowTask C τ V R

inductive RowEvent (J C τ : Type) : Type where
  | call (j : J) (c : C)
  | input (j : J) (t : τ)
  | fetch (j : J)
  | commit (j : J) (acknowledged : Bool)
  | reply (j : J)
  | crash (j : J)
  deriving DecidableEq

namespace RowState

variable {J C τ V R : Type} [DecidableEq J] (program : C → RowTx τ V R)

def initial (value : Option V) : RowState J C τ V R := ⟨value, [], [], fun _ => .idle⟩

def move (s : RowState J C τ V R) (j : J) (task : RowTask C τ V R) : RowState J C τ V R :=
  { s with tasks := Function.update s.tasks j task }

/-- The row has not been written since a request read it. -/
def current (s : RowState J C τ V R) (seen : Option (Option V × Nat)) : Bool :=
  seen.all fun (_, version) => version == s.commits.length

/-- The row is replaced. The reply is lost when the commit is not acknowledged. -/
def replace (s : RowState J C τ V R) (c : C) (v : V) (r : R) (acknowledged : Bool) : RowState J C τ V R :=
  { s with
    value := some v
    commits := s.commits ++ [⟨c, s.value, v, r⟩]
    replies := if acknowledged then s.replies ++ [⟨c, r, some s.commits.length⟩] else s.replies }

/-- A request that returns without committing. -/
def answer (s : RowState J C τ V R) (c : C) (r : R) : RowState J C τ V R :=
  { s with replies := s.replies ++ [⟨c, r, none⟩] }

/-- A request reads the row once. It commits when the row has not been written
since, and otherwise fails. An event whose task is elsewhere changes nothing. -/
def step (s : RowState J C τ V R) : RowEvent J C τ → RowState J C τ V R
  | .call j c =>
    match s.tasks j with
    | .idle => s.move j (.running c (program c) none)
    | _ => s
  | .input j t =>
    match s.tasks j with
    | .running c (.input next) seen => s.move j (.running c (next t) seen)
    | _ => s
  | .fetch j =>
    match s.tasks j with
    | .running c (.fetch next) none => s.move j (.running c (next s.value) (some (s.value, s.commits.length)))
    | .running c (.fetch next) (some (v, version)) => s.move j (.running c (next v) (some (v, version)))
    | _ => s
  | .commit j acknowledged =>
    match s.tasks j with
    | .running c (.commit v r) seen =>
      if s.current seen then (s.replace c v r acknowledged).move j .idle else s.move j .idle
    | _ => s
  | .reply j =>
    match s.tasks j with
    | .running c (.done r) _ => (s.answer c r).move j .idle
    | _ => s
  | .crash j => s.move j .idle

def exec (s : RowState J C τ V R) (events : List (RowEvent J C τ)) : RowState J C τ V R :=
  events.foldl (step program) s

end RowState

/-- The values the tasks asked for, in the order in which they did. -/
def RowEvent.inputs {J C τ : Type} (events : List (RowEvent J C τ)) : List τ :=
  events.filterMap fun
    | .input _ t => some t
    | _ => none

/-- The row after a list of commits. -/
def latest {C V R : Type} (v : Option V) (xs : List (Commit C V R)) : Option V :=
  (xs.getLast?.map Commit.after).or v

/-- Every commit replaced the row its predecessors left. -/
def Chained {C V R : Type} (v : Option V) (xs : List (Commit C V R)) : Prop :=
  ∀ i x, xs[i]? = some x → x.before = latest v (xs.take i)

section Chained

variable {C V R : Type} {v : Option V} {xs : List (Commit C V R)}

@[simp] theorem latest_nil : latest v ([] : List (Commit C V R)) = v := by simp [latest]

@[simp] theorem latest_concat (x : Commit C V R) : latest v (xs ++ [x]) = some x.after := by simp [latest]

@[simp] theorem chained_nil : Chained v ([] : List (Commit C V R)) := by simp [Chained]

theorem chained_concat {x : Commit C V R} : Chained v (xs ++ [x]) ↔ Chained v xs ∧ x.before = latest v xs := by
  constructor
  · intro h
    refine ⟨fun i y hy => ?_, by simpa using h xs.length x (by simp)⟩
    have hi : i < xs.length := (List.getElem?_eq_some_iff.mp hy).1
    simpa [take_append_of_le_length (Nat.le_of_lt hi)] using h i y
      (by simpa [getElem?_append_left hi] using hy)
  · rintro ⟨h, hx⟩ i y hy
    rcases Nat.lt_trichotomy i xs.length with hi | rfl | hi
    · rw [take_append_of_le_length (Nat.le_of_lt hi)]
      exact h i y (by simpa [getElem?_append_left hi] using hy)
    · obtain rfl : x = y := by simpa using hy
      simpa using hx
    · rw [getElem?_eq_none (by simp; omega)] at hy
      cases hy

theorem Chained.take (h : Chained v xs) (n : Nat) : Chained v (xs.take n) := by
  intro i x hx
  obtain ⟨hi, hx⟩ : i < n ∧ xs[i]? = some x := by simpa [getElem?_take] using hx
  rw [take_take, Nat.min_eq_left (Nat.le_of_lt hi)]
  exact h i x hx

theorem latest_take_succ {i : Nat} {x : Commit C V R} (hx : xs[i]? = some x) :
    latest v (xs.take (i + 1)) = some x.after := by
  rw [take_add_one, hx, Option.toList_some, latest_concat]

theorem Chained.before_succ (h : Chained v xs) {i : Nat} {x y : Commit C V R} (hx : xs[i]? = some x)
    (hy : xs[i + 1]? = some y) : y.before = some x.after := by
  rw [h _ y hy, latest_take_succ hx]

/-- Induction over the commits in their order. -/
theorem Chained.induct {motive : List (Commit C V R) → Option V → Prop} (h : Chained v xs) (nil : motive [] v)
    (concat : ∀ ys x, x ∈ xs → motive ys x.before → motive (ys ++ [x]) (some x.after)) :
    motive xs (latest v xs) := by
  induction xs using reverseRecOn with
  | nil => simpa using nil
  | append_singleton xs x ih =>
    obtain ⟨hxs, hx⟩ := chained_concat.mp h
    rw [latest_concat]
    refine concat xs x (by simp) ?_
    rw [hx]
    exact ih hxs fun ys y hy => concat ys y (by simp [hy])

/-- A counter that every commit which satisfies `p` counts up, as long as it is below
its bound, has counted these commits. -/
theorem Chained.count_eq {n : Option V → Nat} {p : Commit C V R → Bool} {bound : Nat} (h : Chained v xs)
    (step : ∀ x ∈ xs, n x.before + (if p x then 1 else 0) < bound →
      n (some x.after) = n x.before + (if p x then 1 else 0))
    (hbound : n v + xs.countP p < bound) : n (latest v xs) = n v + xs.countP p := by
  induction xs using reverseRecOn with
  | nil => simp
  | append_singleton xs x ih =>
    obtain ⟨hxs, hbefore⟩ := chained_concat.mp h
    have hcount : (xs ++ [x]).countP p = xs.countP p + (if p x then 1 else 0) := by
      rw [countP_append, countP_singleton]
    have ih := ih hxs (fun y hy => step y (by simp [hy])) (by omega)
    rw [latest_concat, step x (by simp) (by rw [hbefore]; omega), hbefore]
    omega

theorem Chained.count_step {n : Option V → Nat} {p : Commit C V R → Bool} {bound : Nat} (h : Chained v xs)
    (step : ∀ x ∈ xs, n x.before + (if p x then 1 else 0) < bound →
      n (some x.after) = n x.before + (if p x then 1 else 0))
    (hbound : n v + xs.countP p < bound) {x : Commit C V R} (hx : x ∈ xs) :
    n (some x.after) = n x.before + (if p x then 1 else 0) := by
  obtain ⟨i, hi⟩ := getElem?_of_mem hx
  refine step x hx ?_
  have hle : (xs.take (i + 1)).countP p ≤ xs.countP p := (take_sublist _ xs).countP_le
  have hcount : (xs.take (i + 1)).countP p = (xs.take i).countP p + (if p x then 1 else 0) := by
    rw [take_add_one, hi, Option.toList_some, countP_append, countP_singleton]
  rw [h i x hi, (h.take i).count_eq (fun y hy => step y (mem_of_mem_take hy)) (by omega)]
  omega

theorem eq_or_of_pairwise {α : Type} {S : α → α → Prop} {xs : List α} (h : xs.Pairwise S) {x y : α} (hx : x ∈ xs)
    (hy : y ∈ xs) : x = y ∨ S x y ∨ S y x := by
  obtain ⟨ys, _, rfl⟩ := mem_iff_append.mp hx
  obtain ⟨-, hlater, hcross⟩ := pairwise_append.mp h
  rcases mem_append.mp hy with hy | hy
  · exact .inr (.inr (hcross y hy x mem_cons_self))
  · rcases mem_cons.mp hy with rfl | hy
    · exact .inl rfl
    · exact .inr (.inl ((pairwise_cons.mp hlater).1 y hy))

/-- What holds of a row when it is committed and is kept by every commit to it
holds of every later row. -/
theorem Chained.pairwise {I : Commit C V R → V → Prop} (h : Chained v xs) (start : ∀ x ∈ xs, I x x.after)
    (keep : ∀ x ∈ xs, ∀ y ∈ xs, ∀ b, y.before = some b → I x b → I x y.after) :
    xs.Pairwise fun x y => I x y.after := by
  have hall := induct h (motive := fun ys w =>
      (ys.Pairwise fun x y => x ∈ xs → I x y.after) ∧ ∀ x ∈ ys, x ∈ xs → ∃ b, w = some b ∧ I x b)
    (by simp) (fun ys y hy ih => by
      have hlater : ∀ x ∈ ys, x ∈ xs → I x y.after := by
        intro x hx hxs
        obtain ⟨b, hb, hI⟩ := ih.2 x hx hxs
        exact keep x hxs y hy b hb hI
      refine ⟨pairwise_append.mpr ⟨ih.1, by simp, fun x hx z hz => ?_⟩, fun x hx hxs => ⟨y.after, rfl, ?_⟩⟩
      · obtain rfl : z = y := by simpa using hz
        exact hlater x hx
      · rcases mem_append.mp hx with hx | hx
        · exact hlater x hx hxs
        · obtain rfl : x = y := by simpa using hx
          exact start x hy)
  exact hall.1.imp_of_mem fun hx _ hxy => hxy hx

end Chained

namespace RowState

variable {J C τ V R : Type} (program : C → RowTx τ V R) (v₀ : Option V)

/-- What is left of a request commits and returns only what the whole request
does on the row it has read, which is the present row unless that was written since. -/
def TaskSound (s : RowState J C τ V R) : RowTask C τ V R → Prop
  | .idle => True
  | .running c p seen =>
    (∀ b version, seen = some (b, version) →
      version ≤ s.commits.length ∧ (version = s.commits.length → b = s.value)) ∧
    ∀ b, (∀ b' version, seen = some (b', version) → b = b') →
      (∀ v r, p.Commits b v r → (program c).Commits b v r) ∧ ∀ r, p.Returns b r → (program c).Returns b r

/-- A reply with a commit reports the result of that commit. -/
def ReplySound (s : RowState J C τ V R) (y : Reply C R) : Prop :=
  match y.commit with
  | some i => ∃ x, s.commits[i]? = some x ∧ x.call = y.call ∧ x.result = y.result
  | none => ∃ b, (program y.call).Returns b y.result

structure Sound (s : RowState J C τ V R) : Prop where
  chained : Chained v₀ s.commits
  value : s.value = latest v₀ s.commits
  commits : ∀ x ∈ s.commits, (program x.call).Commits x.before x.after x.result
  tasks : ∀ j, TaskSound program s (s.tasks j)
  replies : ∀ y ∈ s.replies, ReplySound program s y
  distinct : (s.replies.filterMap Reply.commit).Nodup

variable {program v₀} {s : RowState J C τ V R}

theorem sound_initial : Sound program v₀ (initial v₀ : RowState J C τ V R) where
  chained := by simp [initial]
  value := by simp [initial]
  commits := by simp [initial]
  tasks j := by simp [initial, TaskSound]
  replies := by simp [initial]
  distinct := by simp [initial]

theorem taskSound_call (c : C) : TaskSound program s (.running c (program c) none) :=
  ⟨nofun, fun _ _ => ⟨fun _ _ h => h, fun _ h => h⟩⟩

variable {c : C} {seen : Option (Option V × Nat)} {r : R} {P : C → Prop}

theorem TaskSound.input {next : τ → RowTx τ V R} (h : TaskSound program s (.running c (.input next) seen)) (t : τ) :
    TaskSound program s (.running c (next t) seen) :=
  ⟨h.1, fun b hb => ⟨fun v r hv => (h.2 b hb).1 v r (.input hv), fun r hr => (h.2 b hb).2 r (.input hr)⟩⟩

theorem TaskSound.fetch {next : Option V → RowTx τ V R} (h : TaskSound program s (.running c (.fetch next) none)) :
    TaskSound program s (.running c (next s.value) (some (s.value, s.commits.length))) := by
  refine ⟨fun b version hb => ?_, fun b hb => ?_⟩
  · obtain ⟨rfl, rfl⟩ : s.value = b ∧ s.commits.length = version := by simpa using hb
    exact ⟨Nat.le_refl _, fun _ => rfl⟩
  · obtain rfl := hb _ _ rfl
    exact ⟨fun v r hv => (h.2 _ nofun).1 v r (.fetch hv), fun r hr => (h.2 _ nofun).2 r (.fetch hr)⟩

theorem TaskSound.fetch_again {next : Option V → RowTx τ V R} {v : Option V} {version : Nat}
    (h : TaskSound program s (.running c (.fetch next) (some (v, version)))) :
    TaskSound program s (.running c (next v) (some (v, version))) := by
  refine ⟨h.1, fun b hb => ?_⟩
  obtain rfl := hb _ _ rfl
  exact ⟨fun v r hv => (h.2 b hb).1 v r (.fetch hv), fun r hr => (h.2 b hb).2 r (.fetch hr)⟩

/-- A request that commits on a current read commits on the present row. -/
theorem TaskSound.commits {v : V}
    (h : TaskSound program s (.running c (.commit v r) seen)) (hcurrent : s.current seen = true) :
    (program c).Commits s.value v r := by
  refine (h.2 _ fun b version hb => ?_).1 v r .commit
  have hversion : version = s.commits.length := by simpa [current, hb] using hcurrent
  exact ((h.1 b _ hb).2 hversion).symm

theorem TaskSound.returns (h : TaskSound program s (.running c (.done r) seen)) : ∃ b, (program c).Returns b r := by
  cases seen with
  | none => exact ⟨none, (h.2 _ nofun).2 r .done⟩
  | some p => exact ⟨p.1, (h.2 _ (by rintro b _ ⟨⟩; rfl)).2 r .done⟩

theorem Sound.answer (h : Sound program v₀ s) (hr : ∃ b, (program c).Returns b r) :
    Sound program v₀ (s.answer c r) where
  chained := h.chained
  value := h.value
  commits := h.commits
  tasks := h.tasks
  replies y hy := by
    rcases mem_append.mp hy with hy | hy
    · exact h.replies y hy
    · obtain rfl : y = ⟨c, r, none⟩ := by simpa using hy
      exact hr
  distinct := by simpa [RowState.answer] using h.distinct

theorem ReplySound.replace {y : Reply C R} (hy : ReplySound program s y) (c : C) (v : V) (r : R)
    (acknowledged : Bool) : ReplySound program (s.replace c v r acknowledged) y := by
  unfold ReplySound at hy ⊢
  cases hcommit : y.commit with
  | none => simpa [hcommit] using hy
  | some i =>
    simp only [hcommit] at hy ⊢
    obtain ⟨x, hx, hcall⟩ := hy
    have hi : i < s.commits.length := (List.getElem?_eq_some_iff.mp hx).1
    exact ⟨x, by rw [RowState.replace, getElem?_append_left hi, hx], hcall⟩

/-- The replies that report a commit report one that was made. -/
theorem Sound.commit_lt (h : Sound program v₀ s) {i : Nat} (hi : i ∈ s.replies.filterMap Reply.commit) :
    i < s.commits.length := by
  obtain ⟨y, hy, hyi⟩ := mem_filterMap.mp hi
  have hsound := h.replies y hy
  simp only [ReplySound, hyi] at hsound
  obtain ⟨x, hx, -⟩ := hsound
  exact (List.getElem?_eq_some_iff.mp hx).1

theorem Sound.replace (h : Sound program v₀ s) {v : V} (hv : (program c).Commits s.value v r)
    (acknowledged : Bool) : Sound program v₀ (s.replace c v r acknowledged) where
  chained := chained_concat.mpr ⟨h.chained, h.value⟩
  value := by simp [RowState.replace]
  commits x hx := by
    rcases mem_append.mp hx with hx | hx
    · exact h.commits x hx
    · obtain rfl : x = ⟨c, s.value, v, r⟩ := by simpa using hx
      exact hv
  tasks j := by
    have hj := h.tasks j
    change TaskSound program (s.replace c v r acknowledged) (s.tasks j)
    cases htask : s.tasks j with
    | idle => trivial
    | running =>
      rw [htask] at hj
      refine ⟨fun b _ hb => ?_, hj.2⟩
      -- what was read before this commit is no longer current
      have hle := (hj.1 b _ hb).1
      simp only [RowState.replace, length_append, length_singleton]
      exact ⟨by omega, fun heq => absurd heq (by omega)⟩
  replies y hy := by
    cases acknowledged with
    | false => exact (h.replies y (by simpa [RowState.replace] using hy)).replace c v r false
    | true =>
      rcases mem_append.mp (by simpa [RowState.replace] using hy : y ∈ s.replies ++ [_]) with hy | hy
      · exact (h.replies y hy).replace c v r true
      · obtain rfl : y = ⟨c, r, some s.commits.length⟩ := by simpa using hy
        exact ⟨⟨c, s.value, v, r⟩, by simp [RowState.replace], rfl, rfl⟩
  distinct := by
    cases acknowledged with
    | false => simpa [RowState.replace] using h.distinct
    | true =>
      have hnew : s.commits.length ∉ s.replies.filterMap Reply.commit := fun hmem =>
        absurd (h.commit_lt hmem) (Nat.lt_irrefl _)
      simpa [RowState.replace, nodup_append] using
        ⟨h.distinct, fun i y hy hyi heq => hnew (heq ▸ mem_filterMap.mpr ⟨y, hy, hyi⟩)⟩

/-- Only calls that satisfy `P` are under way or have committed. -/
structure CallsSatisfy (P : C → Prop) (s : RowState J C τ V R) : Prop where
  commits : ∀ x ∈ s.commits, P x.call
  tasks : ∀ j c p seen, s.tasks j = .running c p seen → P c

theorem CallsSatisfy.replace (h : CallsSatisfy P s) (hc : P c) (v : V) (r : R)
    (acknowledged : Bool) : CallsSatisfy P (s.replace c v r acknowledged) where
  commits x hx := by
    rcases mem_append.mp hx with hx | hx
    · exact h.commits x hx
    · rw [mem_singleton.mp hx]
      exact hc
  tasks := h.tasks

theorem CallsSatisfy.answer (h : CallsSatisfy P s) (c : C) (r : R) : CallsSatisfy P (s.answer c r) :=
  ⟨h.commits, h.tasks⟩

variable [DecidableEq J]

theorem Sound.move (h : Sound program v₀ s) (j : J) {task : RowTask C τ V R} (htask : TaskSound program s task) :
    Sound program v₀ (s.move j task) where
  chained := h.chained
  value := h.value
  commits := h.commits
  tasks i := by
    change TaskSound program s (update s.tasks j task i)
    by_cases hi : i = j
    · rw [hi, update_self]
      exact htask
    · rw [update_of_ne hi]
      exact h.tasks i
  replies := h.replies
  distinct := h.distinct

theorem Sound.step (h : Sound program v₀ s) (e : RowEvent J C τ) : Sound program v₀ (s.step program e) := by
  unfold RowState.step
  split
  · split
    · exact h.move _ (taskSound_call _)
    · exact h
  · split
    · next htask => exact h.move _ ((htask ▸ h.tasks _ : TaskSound program s _).input _)
    · exact h
  · split
    · next htask => exact h.move _ (htask ▸ h.tasks _ : TaskSound program s _).fetch
    · next htask => exact h.move _ (htask ▸ h.tasks _ : TaskSound program s _).fetch_again
    · exact h
  · split
    · next htask =>
      split
      · next hcurrent =>
        have hsound : TaskSound program s _ := htask ▸ h.tasks _
        exact (h.replace (hsound.commits hcurrent) _).move _ trivial
      · exact h.move _ trivial
    · exact h
  · split
    · next htask => exact (h.answer (htask ▸ h.tasks _ : TaskSound program s _).returns).move _ trivial
    · exact h
  · exact h.move _ trivial

theorem Sound.exec (h : Sound program v₀ s) (events : List (RowEvent J C τ)) :
    Sound program v₀ (s.exec program events) := by
  induction events generalizing s with
  | nil => exact h
  | cons e _ ih => exact ih (h.step e)

/-- Every interleaving of requests is sound. -/
theorem sound_exec (events : List (RowEvent J C τ)) :
    Sound program v₀ ((initial v₀ : RowState J C τ V R).exec program events) :=
  sound_initial.exec events

theorem CallsSatisfy.move (h : CallsSatisfy P s) (j : J) {task : RowTask C τ V R}
    (htask : ∀ c p seen, task = .running c p seen → P c) : CallsSatisfy P (s.move j task) where
  commits := h.commits
  tasks i c p seen hi := by
    change update s.tasks j task i = _ at hi
    by_cases hij : i = j
    · rw [hij, update_self] at hi
      exact htask c p _ hi
    · rw [update_of_ne hij] at hi
      exact h.tasks i c p _ hi

theorem CallsSatisfy.step (h : CallsSatisfy P s) {e : RowEvent J C τ}
    (he : ∀ j c, e = .call j c → P c) : CallsSatisfy P (s.step program e) := by
  have again : ∀ {j c p seen}, s.tasks j = .running c p seen →
      ∀ p' seen', CallsSatisfy P (s.move j (.running c p' seen')) := by
    intro j c p seen htask _ _
    exact h.move j (by rintro _ _ _ ⟨⟩; exact h.tasks j c p _ htask)
  unfold RowState.step
  split
  · split
    · exact h.move _ (by rintro _ _ _ ⟨⟩; exact he _ _ rfl)
    · exact h
  · split
    · next htask => exact again htask ..
    · exact h
  · split
    · next htask => exact again htask ..
    · next htask => exact again htask ..
    · exact h
  · split
    · next htask =>
      split
      · exact (h.replace (h.tasks _ _ _ _ htask) ..).move _ nofun
      · exact h.move _ nofun
    · exact h
  · split
    · exact (h.answer ..).move _ nofun
    · exact h
  · exact h.move _ nofun

theorem CallsSatisfy.exec (h : CallsSatisfy P s) (events : List (RowEvent J C τ))
    (hP : ∀ j c, .call j c ∈ events → P c) : CallsSatisfy P (s.exec program events) := by
  induction events generalizing s with
  | nil => exact h
  | cons _ _ ih =>
    exact ih (h.step fun j c hc => hP j c (by simp [hc])) fun j c hc => hP j c (mem_cons_of_mem _ hc)

theorem callsSatisfy_exec (events : List (RowEvent J C τ)) (hP : ∀ j c, .call j c ∈ events → P c) :
    CallsSatisfy P ((initial v₀ : RowState J C τ V R).exec program events) :=
  .exec ⟨by simp [initial], by simp [initial]⟩ events hP

end RowState

end kv
