import Mathlib.Data.List.Basic

open List

namespace replication

variable {τ ε ρ : Type}

/-- Events applied at a replica one after the other, whatever each of them
returns. -/
def replay (apply : τ → ε → ρ × τ) : List ε → τ → List ρ × τ
  | [], t => ([], t)
  | e :: rest, t =>
    let r := apply t e
    let s := replay apply rest r.2
    (r.1 :: s.1, s.2)

theorem replay_append (apply : τ → ε → ρ × τ) (events events' : List ε) (t : τ) :
    replay apply (events ++ events') t =
      ((replay apply events t).1 ++ (replay apply events' (replay apply events t).2).1,
        (replay apply events' (replay apply events t).2).2) := by
  induction events generalizing t with
  | nil => rfl
  | cons _ _ ih => simp [cons_append, replay, ih]

/-- A log that grows by at most one event at each of `n` steps. -/
structure Grows (log : Nat → List ε) (n : Nat) : Prop where
  init : log 0 = []
  step : ∀ m < n, log (m + 1) = log m ∨ ∃ e, log (m + 1) = log m ++ [e]

namespace Grows

variable {log : Nat → List ε} {n : Nat}

theorem le {m : Nat} (h : Grows log n) (hm : m ≤ n) : Grows log m :=
  ⟨h.init, fun k hk => h.step k (by omega)⟩

/-- Every prefix of the log was the whole log at some time. -/
theorem exists_eq_take (h : Grows log n) {k : Nat} (hk : k ≤ (log n).length) : ∃ m ≤ n, log m = (log n).take k := by
  induction n with
  | zero =>
    refine ⟨0, Nat.le_refl 0, ?_⟩
    rw [h.init, take_nil]
  | succ n ih =>
    obtain heq | ⟨e, heq⟩ := h.step n (by omega)
    · obtain ⟨m, hm, htake⟩ := ih (h.le (by omega)) (by rwa [heq] at hk)
      exact ⟨m, by omega, by rw [htake, heq]⟩
    · by_cases hlast : k = (log (n + 1)).length
      · exact ⟨n + 1, Nat.le_refl _, by rw [hlast, take_length]⟩
      · have hlength : k ≤ (log n).length := by
          rw [heq, length_append, length_singleton] at hk hlast
          omega
        obtain ⟨m, hm, htake⟩ := ih (h.le (by omega)) hlength
        exact ⟨m, by omega, by rw [htake, heq, take_append_of_le_length hlength]⟩

/-- The log at any time is a prefix of the later log. -/
theorem prefix_of_le (h : Grows log n) {m : Nat} (hm : m ≤ n) : log m <+: log n := by
  induction n with
  | zero =>
    obtain rfl : m = 0 := by omega
    exact prefix_rfl
  | succ n ih =>
    obtain rfl | hlt := Nat.eq_or_lt_of_le hm
    · exact prefix_rfl
    have hbefore := ih (h.le (by omega)) (by omega)
    obtain heq | ⟨e, heq⟩ := h.step n (by omega)
    · rwa [heq]
    · rw [heq]
      exact hbefore.trans (prefix_append ..)

end Grows

/-- A source and a replica in step: each step of the source is silent or logs
one event, and the replica follows by applying that event. -/
structure Follows (log : Nat → List ε) (apply : τ → ε → ρ × τ) (answer : ε → ρ) (Sim : Nat → τ → Prop) (n : Nat)
    (t : τ) : Prop where
  log_init : log 0 = []
  init : Sim 0 t
  step : ∀ m < n, ∀ t', Sim m t' →
    (log (m + 1) = log m ∧ Sim (m + 1) t') ∨
      ∃ e, log (m + 1) = log m ++ [e] ∧ (apply t' e).1 = answer e ∧ Sim (m + 1) (apply t' e).2

namespace Follows

variable {log : Nat → List ε} {apply : τ → ε → ρ × τ} {answer : ε → ρ} {Sim : Nat → τ → Prop} {n : Nat} {t : τ}

/-- The replica that has applied the log so far is in step. -/
theorem sim (h : Follows log apply answer Sim n t) {m : Nat} (hm : m ≤ n) :
    Sim m (replay apply (log m) t).2 ∧ (replay apply (log m) t).1 = (log m).map answer := by
  induction m with
  | zero =>
    rw [h.log_init]
    exact ⟨h.init, rfl⟩
  | succ m ih =>
    obtain ⟨hsim, hanswers⟩ := ih (by omega)
    obtain ⟨heq, hnext⟩ | ⟨e, heq, hanswer, hnext⟩ := h.step m (by omega) _ hsim
    · rw [heq]
      exact ⟨hnext, hanswers⟩
    · rw [heq, replay_append, map_append, hanswers]
      exact ⟨hnext, by rw [replay, hanswer]; rfl⟩

theorem grows (h : Follows log apply answer Sim n t) : Grows log n := by
  refine ⟨h.log_init, fun m hm => ?_⟩
  obtain ⟨heq, _⟩ | ⟨e, heq, _⟩ := h.step m hm _ (h.sim (by omega)).1
  · exact .inl heq
  · exact .inr ⟨e, heq⟩

end Follows

end replication
