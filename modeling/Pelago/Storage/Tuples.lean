import Pelago.Storage.Edge
import Pelago.Storage.Retention

open bytes pelago_core pelago_core.encoding List pelago_core.encoding.TupleBuilder

namespace bytes

/-- Escaped strings with their terminator compare as the strings do, and then as what
follows. -/
theorem escape_append_lt_iff {a b x y : Bytes} (hx : x < [0xFF]) (hy : y < [0xFF]) :
    escape a ++ 0x00 :: x < escape b ++ 0x00 :: y ↔ a < b ∨ a = b ∧ x < y := by
  have hpos : ∀ {c : UInt8}, c ≠ 0x00 → (0x00 : UInt8) < c := UInt8.pos_iff_ne_zero.mpr
  induction a generalizing b with
  | nil =>
    cases b with
    | nil => simp [escape]
    | cons c b =>
      by_cases hc : c = 0x00
      · -- the terminator is followed by less than the escaped NUL is
        have hlt : x < 0xFF :: (escape b ++ 0x00 :: y) := lt_of_lt_of_le hx (le_append ..)
        simpa [escape, hc] using hlt
      · simp [escape, hc, cons_lt_cons_iff, hpos hc]
  | cons d a ih =>
    cases b with
    | nil =>
      by_cases hd : d = 0x00
      · have hle : y ≤ 0xFF :: (escape a ++ 0x00 :: x) := (lt_of_lt_of_le hy (le_append ..)).le
        simpa [escape, hd] using hle
      · simp [escape, hd, cons_lt_cons_iff]
    | cons c =>
      by_cases hd : d = 0x00 <;> by_cases hc : c = 0x00
      · simp [escape, hd, hc, ih]
      · simp [escape, hd, hc, Ne.symm hc, cons_lt_cons_iff]
      · simp [escape, hd, hc, cons_lt_cons_iff]
      · simp [escape, hd, hc, ↓reduceIte, cons_append, cons_lt_cons_iff, ih, cons.injEq,
          and_or_left, or_assoc, and_assoc]

end bytes

namespace pelago_storage

/-- What is put in a key: texts and byte strings. -/
inductive Element where
  | text (s : String)
  | bytes (b : Bytes)
  deriving DecidableEq

namespace Element

def content : Element → Bytes
  | text s => utf8 s
  | bytes b => b

def kind : Element → UInt8
  | text _ => 0x02
  | bytes _ => 0x01

def add (builder : TupleBuilder) : Element → TupleBuilder
  | text s => builder.add_string s
  | bytes b => builder.add_bytes b

theorem eq_of_content {a b : Element} (hkind : a.kind = b.kind) (hcontent : a.content = b.content) : a = b := by
  cases a <;> cases b
  · exact congrArg _ (utf8_inj hcontent)
  · simp [kind] at hkind
  · simp [kind] at hkind
  · exact congrArg _ hcontent

theorem buf_add (builder : TupleBuilder) (a : Element) :
    (add builder a).buf = builder.buf ++ a.kind :: (escape a.content ++ [0x00]) := by
  cases a <;> rfl

end Element

/-- The key of a list of elements. -/
def tupleKey (l : List Element) : Bytes := (l.foldl Element.add TupleBuilder.new).build

variable {rest : Bytes}

section Layout

@[simp] theorem tupleKey_nil : tupleKey [] = [] := rfl

theorem buf_foldl_add (l : List Element) (builder : TupleBuilder) :
    (l.foldl Element.add builder).buf = builder.buf ++ tupleKey l := by
  induction l generalizing builder with
  | nil => simp [tupleKey, build, new]
  | cons _ _ ih =>
    rw [tupleKey, build, foldl_cons, foldl_cons, ih, ih, Element.buf_add, Element.buf_add]
    simp [new]

theorem tupleKey_cons (a : Element) (l : List Element) :
    tupleKey (a :: l) = a.kind :: (escape a.content ++ 0x00 :: tupleKey l) := by
  rw [tupleKey, build, foldl_cons, buf_foldl_add, Element.buf_add]
  simp [new]

theorem tupleKey_append_lt_top (l : List Element) (hrest : rest < [0xFF]) : tupleKey l ++ rest < [0xFF] := by
  cases l with
  | nil => exact hrest
  | cons a =>
    rw [tupleKey_cons, lt_top_iff]
    cases a <;> simp [Element.kind]

theorem tupleKey_lt_top (l : List Element) : tupleKey l < [0xFF] := by
  simpa using tupleKey_append_lt_top l (nil_lt_cons _ [])

end Layout

section Order

variable {l m : List Element}

/-- The keys that start with the key of a list are those of the lists that start with it. -/
theorem tupleKey_append_eq (hrest : rest < [0xFF]) (h : tupleKey m = tupleKey l ++ rest) : l <+: m := by
  induction l generalizing m with
  | nil => exact nil_prefix
  | cons _ l ih =>
    cases m with
    | nil => simp [tupleKey_cons] at h
    | cons _ m =>
      rw [tupleKey_cons, tupleKey_cons, cons_append, append_assoc] at h
      obtain ⟨hkind, h⟩ := cons.inj h
      obtain ⟨hcontent, htail⟩ := escape_append_inj (lt_top_iff.mp (tupleKey_lt_top m))
        (lt_top_iff.mp (tupleKey_append_lt_top l hrest)) h
      exact cons_prefix_cons.mpr ⟨(Element.eq_of_content hkind hcontent).symm, ih htail⟩

theorem tupleKey_append (l m : List Element) : tupleKey (l ++ m) = tupleKey l ++ tupleKey m := by
  rw [tupleKey, build, foldl_append, buf_foldl_add]
  rfl

theorem tupleKey_inj (h : tupleKey l = tupleKey m) : l = m := by
  have hnil : ([] : Bytes) < [0xFF] := nil_lt_cons _ []
  have hlm := tupleKey_append_eq hnil (h.symm.trans (append_nil _).symm)
  have hml := tupleKey_append_eq hnil (h.trans (append_nil _).symm)
  exact hlm.eq_of_length_le hml.length_le

theorem tupleKey_mem_range_iff (l m : List Element) :
    (tupleKey l ≤ tupleKey m ∧ tupleKey m < tupleKey l ++ [0xFF]) ↔ l <+: m := by
  rw [mem_range_iff]
  constructor
  · rintro ⟨rest, heq, hrest⟩
    exact tupleKey_append_eq (lt_top_iff.mpr hrest) heq
  · rintro ⟨more, rfl⟩
    exact ⟨tupleKey more, tupleKey_append l _, lt_top_iff.mp (tupleKey_lt_top _)⟩

theorem tupleKey_lt_iff (hkinds : ∀ pair ∈ l.zip m, pair.1.kind = pair.2.kind) :
    tupleKey l < tupleKey m ↔ l.map Element.content < m.map Element.content := by
  induction l generalizing m with
  | nil =>
    cases m with
    | nil => simp
    | cons => simp [tupleKey_cons]
  | cons a l ih =>
    cases m with
    | nil => simp [tupleKey_cons]
    | cons b m =>
      have hkind : a.kind = b.kind := hkinds _ mem_cons_self
      have hrest := ih fun pair hpair => hkinds _ (mem_cons_of_mem _ hpair)
      rw [tupleKey_cons, tupleKey_cons, hkind, cons_lt_cons_iff,
        escape_append_lt_iff (tupleKey_lt_top l) (tupleKey_lt_top m), hrest, map_cons, map_cons,
        cons_lt_cons_iff]
      simp

end Order

section Decoding

theorem fromUTF8?_utf8 (s : String) : String.fromUTF8? ⟨(utf8 s).toArray⟩ = some s :=
  dif_pos _

theorem take_escaped_escape (a : Bytes) (hrest : rest < [0xFF]) :
    edge.take_escaped (escape a ++ 0x00 :: rest) = some (a, rest) := by
  induction a with
  | nil =>
    cases rest with
    | nil => rfl
    | cons =>
      have hb := lt_top_iff.mp hrest
      simp only [head?_cons, ne_eq, Option.some.injEq] at hb
      simp [escape, edge.take_escaped, hb]
  | cons b _ ih =>
    by_cases hb : b = 0x00
    · simp [escape, hb, edge.take_escaped, ih]
    · simp [escape, hb, edge.take_escaped, ih]

theorem tuple_bytes_escape (a : Bytes) (hrest : rest < [0xFF]) :
    consumer.tuple_bytes (escape a ++ 0x00 :: rest) = a := by
  induction a with
  | nil =>
    cases rest with
    | nil => rfl
    | cons =>
      have hb := lt_top_iff.mp hrest
      simp only [head?_cons, ne_eq, Option.some.injEq] at hb
      simp [escape, consumer.tuple_bytes, hb]
  | cons b a ih =>
    by_cases hb : b = 0x00
    · simp [escape, hb, consumer.tuple_bytes, ih]
    · obtain ⟨c, tail, htail⟩ : ∃ c tail, escape a ++ 0x00 :: rest = c :: tail := by
        cases h : escape a <;> simp
      rw [escape, if_neg hb, cons_append, htail, consumer.tuple_bytes, if_neg hb, ← htail, ih]

theorem decode_tuple_string_text (s : String) (l : List Element) :
    edge.decode_tuple_string (tupleKey (.text s :: l)) = some (s, tupleKey l) := by
  rw [tupleKey_cons]
  simp [Element.kind, Element.content, edge.decode_tuple_string, take_escaped_escape _ (tupleKey_lt_top l),
    fromUTF8?_utf8]

/-- The decoder applied again to what it left, a number of times. -/
def decode_strings : Nat → Bytes → Option (List String × Bytes)
  | 0, key => some ([], key)
  | n + 1, key => do
    let (s, rest) ← edge.decode_tuple_string key
    let (strings, rest) ← decode_strings n rest
    pure (s :: strings, rest)

theorem decode_strings_texts (strings : List String) (l : List Element) :
    decode_strings strings.length (tupleKey (strings.map .text ++ l)) = some (strings, tupleKey l) := by
  induction strings with
  | nil => rfl
  | cons _ _ ih =>
    simp [decode_strings, decode_tuple_string_text, ih]

theorem extract_tuple_string_text (s : String) (l : List Element) :
    consumer.extract_tuple_string (tupleKey (.text s :: l)) = s := by
  rw [tupleKey_cons]
  simp [Element.kind, Element.content, consumer.extract_tuple_string, tuple_bytes_escape _ (tupleKey_lt_top l),
    fromUTF8?_utf8]

theorem parse_reverse_key_parts_texts (pfx : Bytes) (target : NodeRef) (label source_type source_id : String)
    (l : List Element) :
    edge.parse_reverse_key_parts (pfx ++ edge.edge_markers.REVERSE :: tupleKey ([target.database, target.ns,
      target.entity_type, target.node_id, label, source_type, source_id].map .text ++ l)) pfx.length =
        some (target, label, source_type, source_id) := by
  simp [edge.parse_reverse_key_parts, decode_tuple_string_text]

end Decoding

/-- Keys of lists tell the lists apart, are in the order of the lists, have those of the longer lists
right after them, and are read back by all three decoders. -/
theorem tuple_keys (l m : List Element) (hkinds : ∀ pair ∈ l.zip m, pair.1.kind = pair.2.kind) :
    (tupleKey l = tupleKey m → l = m) ∧
      (tupleKey l < tupleKey m ↔ l.map Element.content < m.map Element.content) ∧
      (tupleKey l ≤ tupleKey m ∧ tupleKey m < tupleKey l ++ [0xFF] ↔ l <+: m) ∧
      (∀ strings : List String,
        decode_strings strings.length (tupleKey (strings.map .text ++ l)) = some (strings, tupleKey l)) ∧
      (∀ s, consumer.extract_tuple_string (tupleKey (.text s :: l)) = s) ∧
      ∀ (pfx : Bytes) (target : NodeRef) (label source_type source_id : String),
        edge.parse_reverse_key_parts (pfx ++ edge.edge_markers.REVERSE :: tupleKey ([target.database, target.ns,
          target.entity_type, target.node_id, label, source_type, source_id].map .text ++ l)) pfx.length =
            some (target, label, source_type, source_id) :=
  ⟨tupleKey_inj, tupleKey_lt_iff hkinds, tupleKey_mem_range_iff l m, fun strings => decode_strings_texts _ l,
    fun s => extract_tuple_string_text s l,
    fun pfx target label source_type source_id => parse_reverse_key_parts_texts pfx _ _ _ _ l⟩

/-- A text that another one extends by a NUL, and what follows them. -/
theorem tuple_keys_nul : tupleKey [.text "a", .bytes [0xFF]] < tupleKey [.text "a\x00", .bytes []] :=
  (tuple_keys [.text "a", .bytes [0xFF]] [.text "a\x00", .bytes []] (by decide +kernel)).2.1.mpr (by decide +kernel)

end pelago_storage
