import Mathlib.Algebra.Order.Ring.Int
import Mathlib.Data.List.Lex

/-- Bytes compare as unsigned numbers, byte strings lexicographically. -/
instance UInt8.instLinearOrder : LinearOrder UInt8 where
  le_refl a := UInt8.le_refl a
  le_trans _ _ _ := UInt8.le_trans
  lt_iff_le_not_ge a b := by
    simp only [UInt8.le_iff_toNat_le, UInt8.lt_iff_toNat_lt]
    omega
  le_antisymm _ _ := UInt8.le_antisymm
  le_total a b := UInt8.le_total a b
  toDecidableLE := inferInstance
  toDecidableEq := inferInstance
  toDecidableLT := inferInstance

abbrev Bytes := List UInt8

namespace bytes

section

/-- The `w` low-order base-256 digits of `n`, most significant first. -/
def beBytes : Nat → Nat → Bytes
  | 0, _ => []
  | w + 1, n => UInt8.ofNat (n / 256 ^ w) :: beBytes w n

/-- The number a byte string denotes, most significant byte first. -/
def beValue : Bytes → Nat
  | [] => 0
  | b :: rest => b.toNat * 256 ^ rest.length + beValue rest

@[simp] theorem beBytes_length (w n : Nat) : (beBytes w n).length = w := by
  induction w with
  | zero => rfl
  | succ _ ih => simp [beBytes, ih]

theorem beValue_beBytes (w n : Nat) : beValue (beBytes w n) = n % 256 ^ w := by
  induction w with
  | zero => simp [beBytes, beValue, Nat.mod_one]
  | succ w ih =>
    have hsucc : n % 256 ^ (w + 1) = n % 256 ^ w + 256 ^ w * (n / 256 ^ w % 256) := Nat.mod_pow_succ
    simp only [beBytes, beValue, beBytes_length, ih, UInt8.toNat_ofNat', hsucc]
    rw [add_comm, mul_comm]

theorem beValue_lt (bs : Bytes) : beValue bs < 256 ^ bs.length := by
  induction bs with
  | nil => simp [beValue]
  | cons b rest =>
    have hb : b.toNat ≤ 255 := by have := b.toNat_lt; omega
    have hmul : b.toNat * 256 ^ rest.length ≤ 255 * 256 ^ rest.length := Nat.mul_le_mul_right _ hb
    simp only [beValue, List.length_cons, pow_succ]
    omega

theorem beValue_append (x y : Bytes) : beValue (x ++ y) = beValue x * 256 ^ y.length + beValue y := by
  induction x with
  | nil => simp [beValue]
  | cons _ _ ih =>
    rw [List.cons_append, beValue, beValue, ih, List.length_append, pow_add, add_mul, mul_assoc,
      add_assoc]

theorem beBytes_inj {w n m : Nat} (hn : n < 256 ^ w) (hm : m < 256 ^ w)
    (h : beBytes w n = beBytes w m) : n = m := by
  have hval := congrArg beValue h
  rwa [beValue_beBytes, beValue_beBytes, Nat.mod_eq_of_lt hn, Nat.mod_eq_of_lt hm] at hval

/-- A byte string is recovered from its length and the number it denotes. -/
theorem beBytes_beValue (bs : Bytes) : beBytes bs.length (beValue bs) = bs := by
  induction bs with
  | nil => rfl
  | cons b rest ih =>
    have hrest := beValue_lt rest
    have hdiv : (b.toNat * 256 ^ rest.length + beValue rest) / 256 ^ rest.length = b.toNat := by
      rw [add_comm, Nat.add_mul_div_right _ _ (Nat.pow_pos (by decide)), Nat.div_eq_of_lt hrest, zero_add]
    have hlow : ∀ w m c : Nat, beBytes w (c * 256 ^ w + m) = beBytes w m := by
      intro w
      induction w with
      | zero => intros; rfl
      | succ w ihw =>
        intro m c
        have hsplit : c * 256 ^ (w + 1) + m = (c * 256) * 256 ^ w + m := by
          rw [pow_succ, mul_assoc, mul_comm 256]
        rw [beBytes, hsplit, ihw]
        congr 1
        rw [add_comm, Nat.add_mul_div_right _ _ (Nat.pow_pos (by decide))]
        apply UInt8.toNat_inj.mp
        simp only [UInt8.toNat_ofNat']
        omega
    simp only [List.length_cons, beBytes, beValue, hdiv, hlow, ih]
    simp

theorem toInt64_toInt {n : UInt64} (h : n.toNat < 2 ^ 63) : n.toInt64.toInt = n.toNat := by
  have hbv : n.toInt64.toInt = n.toBitVec.toInt := rfl
  rw [hbv, BitVec.toInt_eq_toNat_cond]
  have hnat : n.toBitVec.toNat = n.toNat := rfl
  split <;> omega

open List

variable {p x y : Bytes}

theorem append_lt_append_iff : p ++ x < p ++ y ↔ x < y := by
  induction p with
  | nil => rfl
  | cons _ _ ih => simp [ih]

theorem append_le_append_iff : p ++ x ≤ p ++ y ↔ x ≤ y := by
  rw [← not_lt, ← not_lt, append_lt_append_iff]

theorem le_append (p x : Bytes) : p ≤ p ++ x := by
  have hle : p ++ [] ≤ p ++ x := append_le_append_iff.mpr (not_lt.mp (not_lt_nil x))
  rwa [append_nil] at hle

/-- A byte string below `FF` does not start with that byte. -/
theorem lt_top_iff : x < [0xFF] ↔ x.head? ≠ some 0xFF := by
  cases x with
  | nil => simp
  | cons b =>
    have hb : b < 0xFF ↔ b ≠ 0xFF := by
      rw [UInt8.lt_iff_toNat_lt, ne_eq, ← UInt8.toNat_inj]
      have := b.toNat_lt
      change b.toNat < 255 ↔ ¬ b.toNat = 255
      omega
    simp [cons_lt_cons_iff, hb]

/-- The range from `p` up to `p` followed by `FF` holds the strings that start
with `p` and do not go on with `FF`. -/
theorem mem_range_iff {k : Bytes} : (p ≤ k ∧ k < p ++ [0xFF]) ↔ ∃ rest, k = p ++ rest ∧ rest.head? ≠ some 0xFF := by
  constructor
  · rintro ⟨hle, hlt⟩
    induction p generalizing k with
    | nil => exact ⟨k, rfl, lt_top_iff.mp hlt⟩
    | cons b p ih =>
      cases k with
      | nil => exact absurd (nil_lt_cons b p) (not_lt.mpr hle)
      | cons =>
        rw [← not_lt, cons_lt_cons_iff, not_or, not_and] at hle
        obtain hcb | ⟨rfl, htail⟩ := cons_lt_cons_iff.mp hlt
        · exact absurd hcb hle.1
        · obtain ⟨rest, rfl, hrest⟩ := ih (not_lt.mp (hle.2 rfl)) htail
          exact ⟨rest, rfl, hrest⟩
  · rintro ⟨rest, rfl, hrest⟩
    exact ⟨le_append p _, append_lt_append_iff.mpr (lt_top_iff.mpr hrest)⟩

/-- The string that follows next. -/
theorem append_zero_le_iff : x ++ [0x00] ≤ y ↔ x < y := by
  induction x generalizing y with
  | nil =>
    cases y with
    | nil => decide
    | cons b y =>
      refine iff_of_true ?_ (nil_lt_cons b y)
      rw [nil_append, ← not_lt, cons_lt_cons_iff]
      rintro (h | ⟨_, h⟩)
      · exact absurd h (Nat.not_lt_zero _)
      · exact absurd h (not_lt_nil _)
  | cons _ _ ih =>
    cases y with
    | nil => exact iff_of_false (not_le.mpr (nil_lt_cons ..)) (not_lt_nil _)
    | cons =>
      rw [cons_append, ← not_lt, cons_lt_cons_iff, cons_lt_cons_iff, not_or, not_and, not_lt, not_lt, ih]
      constructor
      · rintro ⟨hle, htail⟩
        obtain hlt | rfl := hle.lt_or_eq
        · exact .inl hlt
        · exact .inr ⟨rfl, htail rfl⟩
      · rintro (hlt | ⟨rfl, htail⟩)
        · exact ⟨hlt.le, fun heq => absurd heq hlt.ne'⟩
        · exact ⟨le_rfl, fun _ => htail⟩

/-- What lies between a prefix and a string that has it has it too. -/
theorem isPrefix_of_le_of_le {r : Bytes} (hlo : p ≤ x) (hhi : x ≤ p ++ r) : p <+: x := by
  induction p generalizing x with
  | nil => exact nil_prefix
  | cons a p ih =>
    cases x with
    | nil => exact absurd (nil_lt_cons a p) (not_lt.mpr hlo)
    | cons b =>
      rw [cons_append] at hhi
      rw [← not_lt, cons_lt_cons_iff, not_or, not_and] at hlo hhi
      obtain rfl : a = b := le_antisymm (not_lt.mp hlo.1) (not_lt.mp hhi.1)
      exact cons_prefix_cons.mpr ⟨rfl, ih (not_lt.mp (hlo.2 rfl)) (not_lt.mp (hhi.2 rfl))⟩

/-- Strings of one length compare as the numbers they denote. -/
theorem lt_iff_beValue_lt (hlength : x.length = y.length) : x < y ↔ beValue x < beValue y := by
  induction x generalizing y with
  | nil =>
    cases y with
    | nil => simp [beValue]
    | cons => simp at hlength
  | cons b x ih =>
    cases y with
    | nil => simp at hlength
    | cons c y =>
      have htail : x.length = y.length := by simpa using hlength
      have hx := beValue_lt x
      have hy := beValue_lt y
      rw [cons_lt_cons_iff, ih htail, ← UInt8.toNat_inj]
      simp only [beValue, htail]
      rw [htail] at hx
      generalize 256 ^ y.length = scale at hx hy
      constructor
      · rintro (hlt | ⟨heq, hlt⟩)
        · have hmul : (b.toNat + 1) * scale ≤ c.toNat * scale := Nat.mul_le_mul_right _ hlt
          rw [Nat.add_mul] at hmul
          omega
        · rw [heq]
          omega
      · intro hlt
        obtain hbc | hbc | hcb := lt_trichotomy b.toNat c.toNat
        · exact .inl hbc
        · rw [hbc] at hlt
          exact .inr ⟨hbc, by omega⟩
        · have hmul : (c.toNat + 1) * scale ≤ b.toNat * scale := Nat.mul_le_mul_right _ hcb
          rw [add_mul] at hmul
          omega

end

open List

/-- NUL bytes written as `00 FF`, so that a bare `00` can end an element. -/
def escape : Bytes → Bytes
  | [] => []
  | b :: rest => if b = 0x00 then 0x00 :: 0xFF :: escape rest else b :: escape rest

/-- An escaped element ends at its first NUL that no `FF` follows: what comes
after the terminator is read back unambiguously unless it starts with `FF`. -/
theorem escape_append_inj {a b x y : Bytes} (hx : x.head? ≠ some 0xFF) (hy : y.head? ≠ some 0xFF)
    (h : escape a ++ 0x00 :: x = escape b ++ 0x00 :: y) : a = b ∧ x = y := by
  induction a generalizing b with
  | nil =>
    cases b with
    | nil => simpa using h
    | cons c =>
      by_cases hc : c = 0x00
      · simp only [escape, hc, ↓reduceIte, nil_append, cons_append, cons.injEq, true_and] at h
        simp [h] at hx
      · simp only [escape, hc, ↓reduceIte, nil_append, cons_append, cons.injEq] at h
        exact absurd h.1.symm hc
  | cons d _ ih =>
    cases b with
    | nil =>
      by_cases hd : d = 0x00
      · simp only [escape, hd, ↓reduceIte, nil_append, cons_append, cons.injEq, true_and] at h
        simp [← h] at hy
      · simp only [escape, hd, ↓reduceIte, nil_append, cons_append, cons.injEq] at h
        exact h.1.elim
    | cons c =>
      by_cases hd : d = 0x00 <;> by_cases hc : c = 0x00 <;>
        simp only [escape, hd, hc, ↓reduceIte, cons_append, cons.injEq, true_and] at h
      · obtain ⟨hrest, hxy⟩ := ih h
        exact ⟨by rw [hd, hc, hrest], hxy⟩
      · exact absurd h.1.symm hc
      · exact h.1.elim
      · obtain ⟨hrest, hxy⟩ := ih h.2
        exact ⟨by rw [h.1, hrest], hxy⟩

theorem escape_inj {a b : Bytes} (h : escape a = escape b) : a = b :=
  (escape_append_inj (x := []) (y := []) (by simp) (by simp) (by rw [h])).1

/-- An escaped element that is followed like a plain one is that plain one. -/
theorem escape_append_eq_plain {a l x y : Bytes} {b c : UInt8} (hl : 0x00 ∉ l) (hc : c ≠ 0xFF)
    (h : escape a ++ 0x00 :: b :: x = l ++ 0x00 :: c :: y) : escape a = l ∧ b = c := by
  induction a generalizing l with
  | nil =>
    cases l with
    | nil | cons => simp_all [escape]
  | cons d a ih =>
    rw [escape] at h ⊢
    split at h
    · cases l with
      | nil | cons => simp_all
    · rename_i hd
      rw [if_neg hd]
      cases l with
      | nil => simp_all
      | cons =>
        obtain ⟨rfl, hrest⟩ := cons.inj h
        obtain ⟨heq, hbc⟩ := ih (fun hmem => hl (mem_cons_of_mem _ hmem)) hrest
        exact ⟨by rw [heq], hbc⟩

end bytes
