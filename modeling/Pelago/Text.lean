import Mathlib.Tactic.Common

open List

namespace text

section

/-- Fields are written one after the other with a separator between them. The
separator is found again wherever it stands. -/
structure Separator (α : Type) where
  sep : List α
  split : List α → List (List α)
  split_ne_nil : ∀ xs, split xs ≠ []
  split_append : ∀ xs ys, split (xs ++ sep ++ ys) = split xs ++ split ys
  join_split : ∀ xs, sep.intercalate (split xs) = xs

namespace Separator

variable {α : Type} (S : Separator α)

/-- All fields as one text. -/
def join (fields : List (List α)) : List α := S.sep.intercalate fields

/-- A field that does not hold the separator. -/
def Whole (field : List α) : Prop := S.split field = [field]

variable {fields : List (List α)}

theorem split_join (hfields : fields ≠ []) : S.split (S.join fields) = fields.flatMap S.split := by
  induction fields with
  | nil => exact absurd rfl hfields
  | cons _ rest ih =>
    cases rest with
    | nil => simp [join]
    | cons =>
      rw [join, intercalate_cons_cons, split_append]
      exact congrArg _ (ih (cons_ne_nil _ _))

variable {S}

theorem flatMap_split_of_whole (h : ∀ field ∈ fields, S.Whole field) : fields.flatMap S.split = fields := by
  induction fields with
  | nil => rfl
  | cons field _ ih =>
    rw [flatMap_cons, h _ mem_cons_self, ih fun f hf => h f (mem_cons_of_mem _ hf)]
    rfl

/-- Fields that are whole are read back. -/
theorem split_join_of_whole (hfields : fields ≠ []) (h : ∀ field ∈ fields, S.Whole field) :
    S.split (S.join fields) = fields := by
  rw [S.split_join hfields, flatMap_split_of_whole h]

theorem whole_of_split_eq_singleton {xs part : List α} (h : S.split xs = [part]) : S.Whole xs := by
  have hjoin := S.join_split xs
  rw [h, intercalate_singleton] at hjoin
  rw [Whole, h, hjoin]

theorem length_le_flatMap_split (fields : List (List α)) : fields.length ≤ (fields.flatMap S.split).length := by
  induction fields with
  | nil => exact Nat.le_refl _
  | cons field =>
    have hpos := length_pos_iff.mpr (S.split_ne_nil field)
    rw [flatMap_cons, length_append, length_cons]
    omega

theorem whole_of_length_flatMap_split
    (h : (fields.flatMap S.split).length = fields.length) : ∀ field ∈ fields, S.Whole field := by
  induction fields with
  | nil => simp
  | cons field rest ih =>
    have hpos := length_pos_iff.mpr (S.split_ne_nil field)
    have hrest := length_le_flatMap_split (S := S) rest
    rw [flatMap_cons, length_append, length_cons] at h
    obtain ⟨part, hpart⟩ := length_eq_one_iff.mp (show (S.split field).length = 1 by omega)
    intro f hf
    obtain rfl | hf := mem_cons.mp hf
    · exact whole_of_split_eq_singleton hpart
    · exact ih (by omega) f hf

/-- No other fields, whole or not, are written like whole ones. -/
theorem join_inj {fields' : List (List α)} (hfields : ∀ field ∈ fields, S.Whole field)
    (hlength : fields'.length = fields.length) (h : S.join fields' = S.join fields) : fields' = fields := by
  cases hnil : fields with
  | nil =>
    rw [hnil] at hlength
    exact length_eq_zero_iff.mp hlength
  | cons =>
    have hne : fields ≠ [] := by simp [hnil]
    have hne' : fields' ≠ [] := ne_nil_of_length_pos (hlength ▸ length_pos_iff.mpr hne)
    have hsplit := congrArg S.split h
    rw [S.split_join hne', split_join_of_whole hne hfields] at hsplit
    have hcount : (fields'.flatMap S.split).length = fields'.length := by rw [hsplit, hlength]
    have hwhole := whole_of_length_flatMap_split hcount
    rw [flatMap_split_of_whole hwhole] at hsplit
    rw [hsplit, hnil]

/-- A whole field in front is read back. -/
theorem append_inj {a b x y : List α} (ha : S.Whole a) (hb : S.Whole b) (h : a ++ S.sep ++ x = b ++ S.sep ++ y) :
    a = b ∧ x = y := by
  have hsplit := congrArg S.split h
  rw [split_append, split_append, ha, hb] at hsplit
  obtain rfl := (cons.inj hsplit).1
  exact ⟨rfl, append_cancel_left h⟩

/-- A field that is not whole falls apart. -/
theorem exists_of_not_whole {xs : List α} (h : ¬ S.Whole xs) : ∃ x y, xs = x ++ S.sep ++ y := by
  have hjoin := S.join_split xs
  cases hsplit : S.split xs with
  | nil => exact absurd hsplit (S.split_ne_nil xs)
  | cons part rest =>
    cases rest with
    | nil => exact absurd (whole_of_split_eq_singleton hsplit) h
    | cons =>
      rw [hsplit, intercalate_cons_cons] at hjoin
      exact ⟨part, _, hjoin.symm⟩

theorem not_whole_of_append (x y : List α) : ¬ S.Whole (x ++ S.sep ++ y) := by
  intro h
  have hlength := congrArg length (h.symm.trans (S.split_append x y))
  have hx := length_pos_iff.mpr (S.split_ne_nil x)
  have hy := length_pos_iff.mpr (S.split_ne_nil y)
  rw [length_append, length_singleton] at hlength
  omega

section Symbol

variable [DecidableEq α]

/-- A separator of one symbol. -/
def symbol (a : α) : Separator α where
  sep := [a]
  split := List.splitOn a
  split_ne_nil := List.splitOn_ne_nil a
  split_append xs ys := by
    rw [List.append_assoc]
    exact List.splitOnP_append_cons xs ys (by simp)
  join_split _ := List.intercalate_splitOn a

theorem whole_symbol_iff {a : α} {xs : List α} : (symbol a).Whole xs ↔ a ∉ xs := by
  constructor
  · intro h hmem
    obtain ⟨x, y, hxs⟩ := append_of_mem hmem
    refine not_whole_of_append (S := symbol a) x y ?_
    rw [append_assoc]
    exact hxs ▸ h
  · intro h
    by_contra hnot
    obtain ⟨x, y, hxs⟩ := exists_of_not_whole hnot
    exact h (by rw [hxs]; simp [symbol])

end Symbol

section Pair

variable [DecidableEq α]

/-- The parts between the occurrences of two symbols in a row. -/
def splitPair (a b : α) : List α → List (List α)
  | [] => [[]]
  | [x] => [[x]]
  | x :: y :: rest =>
    if x = a ∧ y = b then [] :: splitPair a b rest else (splitPair a b (y :: rest)).modifyHead (x :: ·)

theorem splitPair_ne_nil (a b : α) (xs : List α) : splitPair a b xs ≠ [] := by
  induction xs using splitPair.induct a b with
  | case1 | case2 => simp [splitPair]
  | case3 _ _ _ h => simp [splitPair, h]
  | case4 _ _ _ h ih =>
    rw [splitPair, if_neg h]
    simpa using ih

theorem splitPair_cons_cons (a b : α) (rest : List α) : splitPair a b (a :: b :: rest) = [] :: splitPair a b rest := by
  rw [splitPair, if_pos ⟨rfl, rfl⟩]

-- the symbols differ, so the last of `xs` cannot be taken for part of the separator
theorem splitPair_append {a b : α} (hab : a ≠ b) (xs ys : List α) :
    splitPair a b (xs ++ a :: b :: ys) = splitPair a b xs ++ splitPair a b ys := by
  induction xs using splitPair.induct a b with
  | case1 => simp [splitPair_cons_cons, splitPair]
  | case2 x =>
    change splitPair a b (x :: a :: b :: ys) = [x] :: splitPair a b ys
    rw [splitPair, if_neg fun h => hab h.2, splitPair_cons_cons]
    rfl
  | case3 _ _ _ h ih =>
    obtain ⟨rfl, rfl⟩ := h
    simp [cons_append, splitPair_cons_cons, ih]
  | case4 _ y rest h ih =>
    rw [cons_append, cons_append, splitPair, if_neg h, splitPair, if_neg h, ← cons_append, ih]
    obtain ⟨part, _, hparts⟩ := exists_cons_of_ne_nil (splitPair_ne_nil a b _)
    rw [hparts]
    rfl

theorem join_splitPair (a b : α) (xs : List α) : [a, b].intercalate (splitPair a b xs) = xs := by
  induction xs using splitPair.induct a b with
  | case1 | case2 => simp [splitPair]
  | case3 x y rest h ih =>
    obtain ⟨rfl, rfl⟩ := h
    obtain ⟨part, _, hparts⟩ := exists_cons_of_ne_nil (splitPair_ne_nil x y _)
    rw [splitPair_cons_cons, hparts, intercalate_cons_cons, ← hparts, ih]
    rfl
  | case4 _ y rest h ih =>
    rw [splitPair, if_neg h]
    obtain ⟨part, parts, hparts⟩ := exists_cons_of_ne_nil (splitPair_ne_nil a b _)
    rw [hparts] at ih ⊢
    cases parts with
    | nil => simpa using ih
    | cons => simpa using ih

/-- A separator of two symbols. -/
def pair (a b : α) (hab : a ≠ b) : Separator α where
  sep := [a, b]
  split := splitPair a b
  split_ne_nil := splitPair_ne_nil a b
  split_append xs ys := by
    rw [List.append_assoc]
    exact splitPair_append hab xs ys
  join_split := join_splitPair a b

theorem whole_pair_iff {a b : α} (hab : a ≠ b) {xs : List α} : (pair a b hab).Whole xs ↔ ¬ [a, b] <:+: xs := by
  constructor
  · rintro h ⟨x, y, rfl⟩
    exact not_whole_of_append x y h
  · intro h
    by_contra hnot
    obtain ⟨x, y, hxs⟩ := exists_of_not_whole hnot
    exact h ⟨x, y, hxs.symm⟩

end Pair

end Separator

open text.Separator

variable {α : Type} [DecidableEq α]

/-- The parts of a text between its separators, without the empty ones. -/
def segments (sep : α) (xs : List α) : List (List α) := (xs.splitOn sep).filter fun part => !part.isEmpty

/-- A text that is a part on its own. -/
def Segment (sep : α) (xs : List α) : Prop := xs ≠ [] ∧ sep ∉ xs

instance (sep : α) (xs : List α) : Decidable (Segment sep xs) := inferInstanceAs (Decidable (_ ∧ _))

theorem segments_append (sep : α) (xs ys : List α) :
    segments sep (xs ++ sep :: ys) = segments sep xs ++ segments sep ys := by
  have h := (symbol sep).split_append xs ys
  simp only [symbol, append_assoc, singleton_append] at h
  simp [segments, h, filter_append]

/-- Without a separator in it, a text is one part, or none when it is empty. -/
theorem segments_of_not_mem {sep : α} {xs : List α} (h : sep ∉ xs) :
    segments sep xs = if xs = [] then [] else [xs] := by
  have hwhole : xs.splitOn sep = [xs] := whole_symbol_iff.mpr h
  cases xs with
  | nil | cons => simp [segments, hwhole]

theorem Segment.segments_eq {sep : α} {xs : List α} (h : Segment sep xs) : segments sep xs = [xs] := by
  rw [segments_of_not_mem h.2, if_neg h.1]

/-- Every part is a part on its own. -/
theorem segment_of_mem {sep : α} {xs part : List α} (h : part ∈ segments sep xs) : Segment sep part := by
  -- a text with a separator in it falls apart into two shorter ones
  induction hn : xs.length using Nat.strongRecOn generalizing xs with
  | ind n ih =>
    by_cases hmem : sep ∈ xs
    · obtain ⟨ys, zs, rfl⟩ := append_of_mem hmem
      simp only [length_append, length_cons] at hn
      rw [segments_append] at h
      rcases mem_append.mp h with h | h
      · exact ih _ (by omega) h rfl
      · exact ih _ (by omega) h rfl
    · rw [segments_of_not_mem hmem] at h
      split at h
      · cases h
      · rename_i hne
        rw [mem_singleton.mp h]
        exact ⟨hne, hmem⟩

end

/-- The white space of Unicode. -/
def isWhitespace (c : Char) : Bool :=
  let n := c.toNat
  (0x09 ≤ n && n ≤ 0x0D) || n == 0x20 || n == 0x85 || n == 0xA0 || n == 0x1680 ||
    (0x2000 ≤ n && n ≤ 0x200A) || n == 0x2028 || n == 0x2029 || n == 0x202F || n == 0x205F || n == 0x3000

/-- A text without the white space at both ends. -/
def trim (s : List Char) : List Char :=
  ((s.dropWhile isWhitespace).reverse.dropWhile isWhitespace).reverse

private theorem mem_dropWhile {p : Char → Bool} {c : Char} (hc : p c = false) {s : List Char} (h : c ∈ s) :
    c ∈ s.dropWhile p := by
  induction s with
  | nil => cases h
  | cons x s ih =>
    rw [dropWhile_cons]
    split
    · rename_i hx
      rcases mem_cons.mp h with rfl | h
      · rw [hc] at hx
        cases hx
      · exact ih h
    · exact h

/-- What is no white space is not cut off. -/
theorem mem_trim {c : Char} (hc : isWhitespace c = false) {s : List Char} (h : c ∈ s) : c ∈ trim s := by
  have hfront := mem_dropWhile hc h
  have hback := mem_dropWhile hc (mem_reverse.mpr hfront)
  exact mem_reverse.mpr hback

/-- What stands before and after the first `sep`. -/
def splitOnce (sep : Char) : List Char → Option (List Char × List Char)
  | [] => none
  | c :: rest =>
    if c = sep then some ([], rest)
    else (splitOnce sep rest).map fun (before, after) => (c :: before, after)

/-- An unsigned decimal number: an optional `+`, then at least one digit, and a
value of at most `max`. -/
def parseUnsigned (max : Nat) (cs : List Char) : Option Nat :=
  let digits := match cs with
    | '+' :: rest => rest
    | _ => cs
  if digits ≠ [] ∧ digits.all Char.isDigit then
    let n := Nat.ofDigitChars 10 digits 0
    if n ≤ max then some n else none
  else none

/-- The parts of a text between the occurrences of a separator. -/
def splitChar (sep : Char) : List Char → List (List Char)
  | [] => [[]]
  | c :: rest =>
    match splitChar sep rest with
    | [] => [[c]]
    | part :: parts => if c = sep then [] :: part :: parts else (c :: part) :: parts

theorem splitChar_ne_nil (sep : Char) (cs : List Char) : splitChar sep cs ≠ [] := by
  cases cs with
  | nil => simp [splitChar]
  | cons =>
    unfold splitChar
    split
    · simp
    · split <;> simp

theorem splitChar_of_notMem {sep : Char} {cs : List Char} (h : sep ∉ cs) : splitChar sep cs = [cs] := by
  induction cs with
  | nil => rfl
  | cons c rest ih =>
    have hc : c ≠ sep := fun heq => h (by simp [heq])
    have hrest : sep ∉ rest := fun hmem => h (by simp [hmem])
    simp [splitChar, ih hrest, hc]

theorem splitChar_append {sep : Char} {cs : List Char} (h : sep ∉ cs) (rest : List Char) :
    splitChar sep (cs ++ sep :: rest) = cs :: splitChar sep rest := by
  induction cs with
  | nil =>
    obtain ⟨part, _, hparts⟩ := exists_cons_of_ne_nil (splitChar_ne_nil sep rest)
    simp [splitChar, hparts]
  | cons c cs ih =>
    have hc : c ≠ sep := fun heq => h (by simp [heq])
    have hcs : sep ∉ cs := fun hmem => h (by simp [hmem])
    simp [splitChar, ih hcs, hc]

theorem digit_of_mem_repr {n : Nat} {c : Char} (h : c ∈ (Nat.repr n).toList) : c.isDigit = true := by
  rw [Nat.toList_repr] at h
  exact Nat.isDigit_of_mem_toDigits (by decide) (by decide) h

/-- Printing a number and reading it back. -/
theorem parseUnsigned_repr {max n : Nat} (h : n ≤ max) : parseUnsigned max (Nat.repr n).toList = some n := by
  have hdigits : ∀ c ∈ Nat.toDigits 10 n, c.isDigit = true := fun c hc =>
    Nat.isDigit_of_mem_toDigits (by decide) (by decide) hc
  have hne : Nat.toDigits 10 n ≠ [] := Nat.toDigits_ne_nil
  have hplus : ∀ rest, Nat.toDigits 10 n ≠ '+' :: rest := by
    intro _ heq
    have := hdigits '+' (by simp [heq])
    simp at this
  unfold parseUnsigned
  rw [Nat.toList_repr]
  split
  · rename_i rest heq
    exact absurd heq (hplus _)
  · simp only [ne_eq, hne, not_false_eq_true, all_eq_true, true_and]
    rw [if_pos hdigits, Nat.ofDigitChars_ten_toDigits, if_pos h]

/-- The UTF-8 bytes of characters. -/
def encodeUtf8 (cs : List Char) : List UInt8 := cs.flatMap String.utf8EncodeChar

theorem encodeUtf8_append (cs cs' : List Char) : encodeUtf8 (cs ++ cs') = encodeUtf8 cs ++ encodeUtf8 cs' :=
  flatMap_append

/-- The bytes of a character beyond ASCII all have their highest bit set. -/
theorem utf8EncodeChar_of_mem {c : Char} {b : UInt8} (hb : b.toNat < 128) (h : b ∈ String.utf8EncodeChar c) :
    String.utf8EncodeChar c = [b] ∧ c = .ofNat b.toNat := by
  have hhigh : ∀ n : Nat, 128 ≤ n → n < 256 → b ≠ .ofNat n := by
    rintro n hn hlt rfl
    rw [UInt8.toNat_ofNat_of_lt' hlt] at hb
    omega
  unfold String.utf8EncodeChar at h ⊢
  dsimp only at h ⊢
  split at h
  · rename_i hascii
    rw [if_pos hascii]
    obtain rfl := mem_singleton.mp h
    refine ⟨rfl, ?_⟩
    rw [UInt8.toNat_ofNat_of_lt' (show c.val.toNat < 256 by omega)]
    exact (Char.ofNat_toNat c).symm
  · exfalso
    split at h
    · simp only [mem_cons, not_mem_nil, or_false] at h
      obtain h | h := h <;> exact hhigh _ (by omega) (by omega) h
    split at h
    · simp only [mem_cons, not_mem_nil, or_false] at h
      obtain h | h | h := h <;> exact hhigh _ (by omega) (by omega) h
    · simp only [mem_cons, not_mem_nil, or_false] at h
      obtain h | h | h | h := h <;> exact hhigh _ (by omega) (by omega) h

/-- An ASCII byte is a character, and splits the text in two. -/
theorem encodeUtf8_eq_append_cons {cs : List Char} {x y : List UInt8} {b : UInt8} (hb : b.toNat < 128)
    (h : encodeUtf8 cs = x ++ b :: y) :
    ∃ cs₁ cs₂, cs = cs₁ ++ .ofNat b.toNat :: cs₂ ∧ encodeUtf8 cs₁ = x ∧ encodeUtf8 cs₂ = y := by
  induction cs generalizing x with
  | nil => simp [encodeUtf8] at h
  | cons c cs ih =>
    obtain ⟨x', rfl, hrest⟩ | ⟨tail, hc, hrest⟩ := append_eq_append_iff.mp h
    · obtain ⟨cs₁, cs₂, rfl, hx, hy⟩ := ih hrest
      exact ⟨c :: cs₁, cs₂, rfl, by rw [← hx]; rfl, hy⟩
    · cases tail with
      | nil =>
        obtain ⟨cs₁, cs₂, rfl, hx, hy⟩ := ih (x := []) hrest.symm
        refine ⟨c :: cs₁, cs₂, rfl, ?_, hy⟩
        rw [append_nil] at hc
        rw [encodeUtf8, flatMap_cons, hc]
        exact (congrArg _ hx).trans (append_nil x)
      | cons _ tail =>
        obtain ⟨rfl, hy⟩ := cons.inj hrest
        obtain ⟨hsingle, rfl⟩ := utf8EncodeChar_of_mem hb (by rw [hc]; simp)
        rw [hsingle] at hc
        obtain ⟨rfl, htail⟩ : x = [] ∧ tail = [] := by
          have hlength := congrArg length hc
          simp only [length_append, length_cons, length_nil] at hlength
          exact ⟨length_eq_zero_iff.mp (by omega), length_eq_zero_iff.mp (by omega)⟩
        subst htail
        exact ⟨[], cs, rfl, rfl, hy.symm⟩

theorem utf8EncodeChar_ascii : ∀ n < 128, String.utf8EncodeChar (.ofNat n) = [.ofNat n] := by decide

end text
