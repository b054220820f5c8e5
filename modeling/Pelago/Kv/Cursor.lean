import Mathlib.Order.WithBot
import Pelago.Kv.OrderedMap

open List

/-! Reading a growing log in order. A log is a map from positions to entries
that only grows at its end; a cursor is a position up to which it has been
read, the bottom standing for the start of the log. -/

namespace kv.OrdMap

variable {P E : Type} [LinearOrder P]

/-- The entries up to a cursor. -/
def upTo (log : OrdMap P E) (c : WithBot P) : List (P × E) :=
  log.rows.filter fun row => decide ((row.1 : WithBot P) ≤ c)

/-- The entries after a cursor. -/
def after (log : OrdMap P E) (c : WithBot P) : List (P × E) :=
  log.rows.filter fun row => decide (c < (row.1 : WithBot P))

/-- The entries after `c` up to `d`. -/
def between (log : OrdMap P E) (c d : WithBot P) : List (P × E) :=
  (log.after c).filter fun row => decide ((row.1 : WithBot P) ≤ d)

/-- A sorted list splits at a downward closed condition. -/
private theorem filter_append_filter_not {q : P → Bool} (hq : ∀ a b, a < b → q b = true → q a = true)
    {rows : List (P × E)} (hsorted : rows.Pairwise fun a b => a.1 < b.1) :
    (rows.filter fun row => q row.1) ++ (rows.filter fun row => !q row.1) = rows := by
  induction rows with
  | nil => rfl
  | cons row rest ih =>
    obtain ⟨hrow, hrest⟩ := pairwise_cons.mp hsorted
    cases hrow' : q row.1 with
    | true => simp [hrow', ih hrest]
    | false =>
      have hnone : rest.filter (fun row => q row.1) = [] := by
        rw [filter_eq_nil_iff]
        intro r hr hqr
        exact Bool.false_ne_true (hrow'.symm.trans (hq _ _ (hrow r hr) hqr))
      have hall : rest.filter (fun row => !q row.1) = rest := by
        have hsplit := ih hrest
        rwa [hnone] at hsplit
      simp [hrow', hnone, hall]

/-- The entries that meet a downward closed condition come first. -/
theorem filter_isPrefix {q : P → Bool} (hq : ∀ a b, a < b → q b = true → q a = true)
    {rows : List (P × E)} (hsorted : rows.Pairwise fun a b => a.1 < b.1) :
    (rows.filter fun row => q row.1) <+: rows :=
  ⟨_, filter_append_filter_not hq hsorted⟩

theorem upTo_append_after (log : OrdMap P E) (c : WithBot P) : log.upTo c ++ log.after c = log.rows := by
  have hsplit := filter_append_filter_not (q := fun p : P => decide ((p : WithBot P) ≤ c))
    (fun a b hab hb => decide_eq_true ((WithBot.coe_lt_coe.mpr hab).le.trans (of_decide_eq_true hb)))
    log.sorted
  simpa only [upTo, after, ← decide_not, not_le] using hsplit

variable {row : P × E}

variable {log : OrdMap P E} {c d : WithBot P}

theorem mem_upTo : row ∈ log.upTo c ↔ row ∈ log.rows ∧ (row.1 : WithBot P) ≤ c := by
  simp [upTo]

theorem mem_after : row ∈ log.after c ↔ row ∈ log.rows ∧ c < (row.1 : WithBot P) := by
  simp [after]

theorem mem_between :
    row ∈ log.between c d ↔ row ∈ log.rows ∧ c < (row.1 : WithBot P) ∧ (row.1 : WithBot P) ≤ d := by
  simp [between, mem_after, and_assoc]

@[simp] theorem upTo_bot (log : OrdMap P E) : log.upTo ⊥ = [] := by
  simp [upTo]

@[simp] theorem between_self (log : OrdMap P E) (c : WithBot P) : log.between c c = [] := by
  rw [eq_nil_iff_forall_not_mem]
  intro _ hrow
  obtain ⟨_, hlt, hle⟩ := mem_between.mp hrow
  exact absurd hle (not_le.mpr hlt)

theorem after_sorted (log : OrdMap P E) (c : WithBot P) : (log.after c).Pairwise fun a b => a.1 < b.1 :=
  log.sorted.filter _

theorem between_append_after (log : OrdMap P E) (hcd : c ≤ d) : log.between c d ++ log.after d = log.after c := by
  have hsplit := filter_append_filter_not (q := fun p : P => decide ((p : WithBot P) ≤ d))
    (fun a b hab hb => decide_eq_true ((WithBot.coe_lt_coe.mpr hab).le.trans (of_decide_eq_true hb)))
    (log.after_sorted c)
  have hafter : (log.after c).filter (fun row => !decide ((row.1 : WithBot P) ≤ d)) = log.after d := by
    rw [after, filter_filter]
    congr 1
    funext row
    by_cases hd : d < (row.1 : WithBot P)
    · simp [hd, hcd.trans_lt hd]
    · simp [hd, not_lt.mp hd]
  rwa [hafter] at hsplit

theorem upTo_append_between (log : OrdMap P E) (hcd : c ≤ d) : log.upTo c ++ log.between c d = log.upTo d := by
  have hrows : (log.upTo c ++ log.between c d) ++ log.after d = log.upTo d ++ log.after d := by
    rw [append_assoc, between_append_after _ hcd, upTo_append_after, upTo_append_after]
  exact append_cancel_right hrows

theorem between_append_between (log : OrdMap P E) {b : WithBot P} (hbc : b ≤ c) (hcd : c ≤ d) :
    log.between b c ++ log.between c d = log.between b d := by
  have hrows : (log.between b c ++ log.between c d) ++ log.after d = log.between b d ++ log.after d := by
    rw [append_assoc, between_append_after _ hcd, between_append_after _ hbc,
      between_append_after _ (hbc.trans hcd)]
  exact append_cancel_right hrows

/-- Entries read in order from the cursor `c` reach up to the last of them. -/
theorem between_of_after_eq {front back : List (P × E)}
    (h : log.after c = front ++ row :: back) : log.between c row.1 = front ++ [row] := by
  have hsorted := log.after_sorted c
  rw [h, pairwise_append] at hsorted
  obtain ⟨_, hback, hfront⟩ := hsorted
  rw [between, h, filter_append, filter_cons_of_pos (by simp)]
  congr 1
  · rw [filter_eq_self]
    intro r hr
    exact decide_eq_true (WithBot.coe_le_coe.mpr (hfront r hr _ mem_cons_self).le)
  · congr 1
    rw [filter_eq_nil_iff]
    intro r hr hle
    have hlt := (pairwise_cons.mp hback).1 r hr
    exact absurd (WithBot.coe_le_coe.mp (of_decide_eq_true hle)) (not_le.mpr hlt)

/-- Moving the cursor to the next entry that is wanted passes over that one only. -/
theorem after_of_after_eq {front back : List (P × E)} (h : log.after c = front ++ row :: back) :
    log.after row.1 = back := by
  have hmem : row ∈ log.after c := by simp [h]
  have hsplit := between_append_after log (mem_after.mp hmem).2.le
  rw [between_of_after_eq h, h, append_assoc] at hsplit
  exact (cons.inj (append_cancel_left hsplit)).2

theorem filter_after_cons {q : P × E → Bool} {rest : List (P × E)} (h : (log.after c).filter q = row :: rest) :
    row ∈ log.rows ∧ c < (row.1 : WithBot P) ∧ (log.between c row.1).filter q = [row] ∧
      (log.after row.1).filter q = rest := by
  obtain ⟨front, _, hafter, hfront, hrow, hback⟩ := filter_eq_cons_iff.mp h
  have hmem : row ∈ log.after c := by simp [hafter]
  obtain ⟨hrows, hlt⟩ := mem_after.mp hmem
  refine ⟨hrows, hlt, ?_, by rw [after_of_after_eq hafter, hback]⟩
  have hnone : front.filter q = [] := filter_eq_nil_iff.mpr fun r hr => by simpa using hfront r hr
  rw [between_of_after_eq hafter, filter_append, hnone, filter_cons_of_pos hrow]
  rfl

/-- The cursor lies within the log. -/
def Reached (log : OrdMap P E) (c : WithBot P) : Prop :=
  c = ⊥ ∨ ∃ row ∈ log.rows, c ≤ (row.1 : WithBot P)

theorem reached_bot (log : OrdMap P E) : log.Reached ⊥ := .inl rfl

theorem reached_of_mem (h : row ∈ log.rows) : log.Reached row.1 :=
  .inr ⟨row, h, le_rfl⟩

/-- `log'` continues `log`. -/
def Extends (log' log : OrdMap P E) : Prop := log.rows <+: log'.rows

theorem Extends.refl (log : OrdMap P E) : log.Extends log := prefix_refl _

theorem Extends.trans {log' log'' : OrdMap P E} (h : log'.Extends log) (h' : log''.Extends log') :
    log''.Extends log :=
  IsPrefix.trans h h'

/-- An entry at a position above all others goes to the end of the log. -/
theorem rows_set_of_lt {p : P} (e : E) (hlast : ∀ row ∈ log.rows, row.1 < p) :
    (log.set p e).rows = log.rows ++ [(p, e)] := by
  have hinsert : ∀ rows : List (P × E), (∀ row ∈ rows, row.1 < p) →
      insertRow p e rows = rows ++ [(p, e)] := by
    intro rows
    induction rows with
    | nil => exact fun _ => rfl
    | cons row _ ih =>
      intro h
      have hrow := h _ mem_cons_self
      rw [insertRow, if_neg hrow.asymm, if_neg hrow.ne', cons_append, ih fun r hr => h r (mem_cons_of_mem _ hr)]
  exact hinsert _ hlast

theorem extends_set {p : P} (e : E) (hlast : ∀ row ∈ log.rows, row.1 < p) : (log.set p e).Extends log :=
  ⟨_, (rows_set_of_lt e hlast).symm⟩

section Growth

variable {log log' : OrdMap P E} {c d : WithBot P}

section

variable (h : log'.Extends log)
include h

theorem Extends.mem {row : P × E} (hrow : row ∈ log.rows) : row ∈ log'.rows :=
  h.subset hrow

theorem Extends.reached (hc : log.Reached c) : log'.Reached c := by
  obtain hc | ⟨row, hrow, hle⟩ := hc
  · exact .inl hc
  · exact .inr ⟨row, h.mem hrow, hle⟩

/-- New entries lie after every cursor within the log. -/
theorem Extends.exists_after (hc : log.Reached c) :
    ∃ new, log'.rows = log.rows ++ new ∧ log'.after c = log.after c ++ new ∧ log'.upTo c = log.upTo c := by
  obtain ⟨new, hrows⟩ := h
  refine ⟨new, hrows.symm, ?_⟩
  have hnew : ∀ row ∈ new, c < (row.1 : WithBot P) := by
    intro row hrow
    obtain rfl | ⟨last, hlast, hle⟩ := hc
    · exact WithBot.bot_lt_coe _
    · have hsorted := log'.sorted
      rw [← hrows, pairwise_append] at hsorted
      exact hle.trans_lt (WithBot.coe_lt_coe.mpr (hsorted.2.2 _ hlast _ hrow))
  constructor
  · rw [after, ← hrows, filter_append]
    congr 1
    rw [filter_eq_self]
    exact fun row hrow => decide_eq_true (hnew _ hrow)
  · rw [upTo, ← hrows, filter_append]
    have hnone : new.filter (fun row => decide ((row.1 : WithBot P) ≤ c)) = [] := by
      rw [filter_eq_nil_iff]
      exact fun row hrow hle => absurd (of_decide_eq_true hle) (not_le.mpr (hnew _ hrow))
    rw [hnone, append_nil, upTo]

theorem Extends.upTo_eq (hc : log.Reached c) : log'.upTo c = log.upTo c := by
  obtain ⟨_, _, _, heq⟩ := h.exists_after hc
  exact heq

theorem Extends.between_eq (hcd : c ≤ d) (hd : log.Reached d) : log'.between c d = log.between c d := by
  have hc : log.Reached c := by
    obtain rfl | ⟨row, hrow, hle⟩ := hd
    · exact .inl (le_bot_iff.mp hcd)
    · exact .inr ⟨row, hrow, hcd.trans hle⟩
  have hrows : log'.upTo c ++ log'.between c d = log'.upTo c ++ log.between c d := by
    rw [upTo_append_between _ hcd, h.upTo_eq hd, h.upTo_eq hc, upTo_append_between _ hcd]
  exact append_cancel_left hrows

end

end Growth

end kv.OrdMap
