import Pelago.Bytes.Order
import Pelago.Kv.OrderedMap
import Pelago.Text

open bytes

namespace pelago_core

open List Option

/-- UTF-8 bytes of a text, as `str::as_bytes`. -/
def utf8 (s : String) : Bytes := s.toUTF8.data.toList

theorem utf8_inj {s t : String} (h : utf8 s = utf8 t) : s = t := by
  apply String.toByteArray_inj.mp
  apply ByteArray.ext
  exact Array.toList_inj.mp h

/-- Node ID: originating site and sequence number. -/
structure NodeId where
  site : UInt8
  seq : UInt64
  deriving DecidableEq, Repr

def NodeId.new (site : UInt8) (seq : UInt64) : NodeId := ⟨site, seq⟩

/-- Nine bytes: the site, then the sequence number in big-endian order. -/
def NodeId.to_bytes (id : NodeId) : Bytes := id.site :: beBytes 8 id.seq.toNat

/-- `None` unless the slice holds exactly nine bytes. -/
def NodeId.try_from_slice (bs : Bytes) : Option NodeId :=
  match bs with
  | site :: seq => if seq.length = 8 then some ⟨site, UInt64.ofNat (beValue seq)⟩ else none
  | [] => none

def NodeId.to_string (id : NodeId) : String :=
  Nat.repr id.site.toNat ++ "_" ++ Nat.repr id.seq.toNat

def NodeId.from_str (s : String) : Option NodeId :=
  match text.splitChar '_' s.toList with
  | [site, seq] => do
    let site ← text.parseUnsigned 255 site
    let seq ← text.parseUnsigned (2 ^ 64 - 1) seq
    pure ⟨UInt8.ofNat site, UInt64.ofNat seq⟩
  | _ => none

@[simp] theorem NodeId.to_bytes_length (id : NodeId) : id.to_bytes.length = 9 := by
  simp [to_bytes]

theorem NodeId.to_bytes_inj {a b : NodeId} (h : a.to_bytes = b.to_bytes) : a = b := by
  obtain ⟨hsite, hseq⟩ := cons.inj h
  have ha : a.seq.toNat < 256 ^ 8 := a.seq.toNat_lt
  have hb : b.seq.toNat < 256 ^ 8 := b.seq.toNat_lt
  have hnat : a.seq.toNat = b.seq.toNat := beBytes_inj ha hb hseq
  cases a
  simp_all [UInt64.toNat_inj]

theorem NodeId.try_from_slice_to_bytes (id : NodeId) : try_from_slice id.to_bytes = some id := by
  simp [try_from_slice, to_bytes, beValue_beBytes]

theorem NodeId.to_bytes_of_try_from_slice {bs : Bytes} {id : NodeId}
    (h : try_from_slice bs = some id) : id.to_bytes = bs := by
  cases bs with
  | nil => simp [try_from_slice] at h
  | cons _ seq =>
    simp only [try_from_slice, ite_none_right_eq_some, some.injEq] at h
    obtain ⟨hlen, rfl⟩ := h
    have hlt : beValue seq < 2 ^ 64 := by
      have := beValue_lt seq
      rw [hlen] at this
      exact this
    have hback := beBytes_beValue seq
    rw [hlen] at hback
    simp only [to_bytes, UInt64.toNat_ofNat', Nat.mod_eq_of_lt hlt, hback]

/-- Every nine-byte slice is a node id. -/
theorem NodeId.exists_of_length {bs : Bytes} (h : bs.length = 9) :
    ∃ id : NodeId, try_from_slice bs = some id ∧ id.to_bytes = bs := by
  cases bs with
  | nil => simp at h
  | cons site seq =>
    have hlen : seq.length = 8 := by simpa using h
    have hsome : try_from_slice (site :: seq) = some ⟨site, .ofNat (beValue seq)⟩ := by
      simp [try_from_slice, hlen]
    exact ⟨_, hsome, to_bytes_of_try_from_slice hsome⟩

/-- Reading a printed node id gives it back. -/
theorem NodeId.from_str_to_string (id : NodeId) : from_str id.to_string = some id := by
  have hsite : '_' ∉ (Nat.repr id.site.toNat).toList := fun hmem => by
    have := text.digit_of_mem_repr hmem
    simp at this
  have hseq : '_' ∉ (Nat.repr id.seq.toNat).toList := fun hmem => by
    have := text.digit_of_mem_repr hmem
    simp at this
  have hsplit : text.splitChar '_' id.to_string.toList =
      [(Nat.repr id.site.toNat).toList, (Nat.repr id.seq.toNat).toList] := by
    have htext : id.to_string.toList =
        (Nat.repr id.site.toNat).toList ++ '_' :: (Nat.repr id.seq.toNat).toList := by
      simp [to_string]
    rw [htext, text.splitChar_append hsite, text.splitChar_of_notMem hseq]
  have hsiteMax : id.site.toNat ≤ 255 := by
    have := id.site.toNat_lt
    omega
  have hseqMax : id.seq.toNat ≤ 2 ^ 64 - 1 := by
    have := id.seq.toNat_lt
    omega
  simp only [from_str, hsplit, text.parseUnsigned_repr hsiteMax, text.parseUnsigned_repr hseqMax]
  simp

/-- A 64-bit IEEE 754 number by its bits. -/
structure F64 where
  bits : UInt64
  deriving DecidableEq, Repr

/-- The bits without the sign. -/
def F64.magnitude (f : F64) : Nat := f.bits.toNat % 2 ^ 63

def F64.is_sign_negative (f : F64) : Bool := decide (2 ^ 63 ≤ f.bits.toNat)

def F64.is_nan (f : F64) : Bool := decide (0x7FF0000000000000 < f.magnitude)

/-- IEEE equality: a NaN equals nothing, the two zeros equal each other. -/
def F64.eq (a b : F64) : Bool :=
  !a.is_nan && !b.is_nan && (a.bits == b.bits || (a.magnitude == 0 && b.magnitude == 0))

/-- Property values. -/
inductive Value where
  | string (s : String)
  | int (n : Int64)
  | float (f : F64)
  | bool (b : Bool)
  | timestamp (t : Int64)
  | bytes (b : Bytes)
  | null
  deriving DecidableEq, Repr

def Value.type_name : Value → String
  | .string _ => "string"
  | .int _ => "int"
  | .float _ => "float"
  | .bool _ => "bool"
  | .timestamp _ => "timestamp"
  | .bytes _ => "bytes"
  | .null => "null"

def Value.is_null : Value → Bool
  | .null => true
  | _ => false

/-- The derived `PartialEq`: variants differ from each other, and floats compare
as IEEE numbers. -/
def Value.eq (a b : Value) : Bool :=
  match a with
  | .string a => match b with
    | .string b => a == b
    | _ => false
  | .int a => match b with
    | .int b => a == b
    | _ => false
  | .float a => match b with
    | .float b => a.eq b
    | _ => false
  | .bool a => match b with
    | .bool b => a == b
    | _ => false
  | .timestamp a => match b with
    | .timestamp b => a == b
    | _ => false
  | .bytes a => match b with
    | .bytes b => a == b
    | _ => false
  | .null => match b with
    | .null => true
    | _ => false

/-- A float stored as `-0.0`. -/
def Value.isNegativeZero : Value → Bool
  | .float f => f.is_sign_negative && f.magnitude == 0
  | _ => false

def Value.isFloat : Value → Bool
  | .float _ => true
  | _ => false

def Value.isTimestamp : Value → Bool
  | .timestamp _ => true
  | _ => false

theorem Value.eq_of_eq {a b : Value} (h : a.eq b = true) (ha : a.isNegativeZero = false)
    (hb : b.isNegativeZero = false) : a = b := by
  cases a <;> cases b <;> simp only [eq, beq_iff_eq, Bool.false_eq_true] at h
  case float f g =>
    obtain ⟨⟨_, _⟩, heq⟩ : (_ ∧ _) ∧ _ := by simpa [F64.eq] using h
    rcases heq with heq | ⟨hf, hg⟩
    · cases f
      cases g
      simpa using heq
    · have hfpos : f.bits.toNat < 2 ^ 63 := by
        simpa [isNegativeZero, F64.is_sign_negative, hf] using ha
      have hgpos : g.bits.toNat < 2 ^ 63 := by
        simpa [isNegativeZero, F64.is_sign_negative, hg] using hb
      have hbits : f.bits.toNat = g.bits.toNat := by
        unfold F64.magnitude at hf hg
        omega
      cases f
      cases g
      simpa [UInt64.toNat_inj] using hbits
  all_goals first | rfl | simp [h]

theorem Value.eq_of_not_float {a b : Value} (h : a.eq b = true) (ha : a.isFloat = false) : a = b := by
  cases a <;> cases b <;> simp_all [eq, isFloat]

theorem Value.eq_self {a : Value} (h : a.isFloat = false) : a.eq a = true := by
  cases a <;> simp_all [eq, isFloat]

/-- Property maps. Iteration order is unspecified in the source; here it is the
order of the names. -/
abbrev Properties := kv.OrdMap String Value

/-- `HashMap` equality: equally many entries, and each entry of one equal to the
other's. -/
def Properties.eq (a b : Properties) : Bool :=
  a.rows.length == b.rows.length &&
    a.rows.all (fun row => (b.get row.1).any (fun v => row.2.eq v))

theorem Properties.eq_of_eq {a b : Properties} (h : a.eq b = true)
    (ha : ∀ field v, a.get field = some v → v.isFloat = false) : a = b := by
  simp only [eq, Bool.and_eq_true, beq_iff_eq, List.all_eq_true] at h
  refine kv.OrdMap.eq_of_subset (fun row hrow => ?_) h.1
  have hany := h.2 _ hrow
  cases hget : b.get row.1 with
  | none => simp [hget] at hany
  | some =>
    rw [hget] at hany
    have heq := Value.eq_of_not_float hany (ha _ _ (a.get_eq_some_iff_mem.mpr hrow))
    rw [← heq] at hget
    exact b.get_eq_some_iff_mem.mp hget

/-- Insertion of every entry of `changes` over `base`. -/
def Properties.overlay (base changes : Properties) : Properties :=
  changes.rows.foldl (fun m row => m.set row.1 row.2) base

theorem Properties.get_overlay (base changes : Properties) (field : String) :
    (base.overlay changes).get field = (changes.get field).or (base.get field) := by
  unfold overlay
  cases hget : changes.get field with
  | none =>
    have hnot : field ∉ changes.rows.map Prod.fst := by
      intro hmem
      obtain ⟨row, hrow, rfl⟩ := mem_map.mp hmem
      exact changes.get_eq_none_iff.mp hget row.2 hrow
    rw [kv.OrdMap.get_foldl_set_of_notMem hnot, none_or]
  | some =>
    have hrow := changes.get_eq_some_iff_mem.mp hget
    refine kv.OrdMap.get_foldl_set_of_mem (mem_map.mpr ⟨_, hrow, rfl⟩) ?_ _
    rintro _ hmem rfl
    have hother := changes.get_eq_some_iff_mem.mpr hmem
    rw [hget] at hother
    exact (some.inj hother).symm

inductive PropertyType where
  | string
  | int
  | float
  | bool
  | timestamp
  | bytes
  deriving DecidableEq, Repr

/-- Null matches any type. -/
def PropertyType.matches : PropertyType → Value → Bool
  | .string, .string _ => true
  | .int, .int _ => true
  | .float, .float _ => true
  | .bool, .bool _ => true
  | .timestamp, .timestamp _ => true
  | .bytes, .bytes _ => true
  | _, .null => true
  | _, _ => false

def PropertyType.as_str : PropertyType → String
  | .string => "string"
  | .int => "int"
  | .float => "float"
  | .bool => "bool"
  | .timestamp => "timestamp"
  | .bytes => "bytes"

inductive IndexType where
  | none
  | unique
  | equality
  | range
  deriving DecidableEq, Repr

inductive ExtrasPolicy where
  | reject
  | allow
  | warn
  deriving DecidableEq, Repr

structure PropertyDef where
  property_type : PropertyType
  required : Bool := false
  index : IndexType := .none
  default_value : Option Value := .none
  deriving DecidableEq, Repr

/-- Target type constraint for edges. -/
inductive EdgeTarget where
  | Specific (entity_type : String)
  | Polymorphic
  deriving DecidableEq, Repr

inductive EdgeDirection where
  | Outgoing
  | Bidirectional
  deriving DecidableEq, Repr

/-- Ownership mode for edges, which replication reads. -/
inductive OwnershipMode where
  | SourceSite
  | Independent
  deriving DecidableEq, Repr

structure EdgeDef where
  target : EdgeTarget
  direction : EdgeDirection := .Outgoing
  sort_key : Option String := .none
  ownership : OwnershipMode := .SourceSite
  deriving DecidableEq, Repr

structure SchemaMeta where
  allow_undeclared_edges : Bool := false
  extras_policy : ExtrasPolicy := .allow
  deriving DecidableEq, Repr

/-- An entity schema, with the parts that storage and queries read. -/
structure EntitySchema where
  name : String
  properties : kv.OrdMap String PropertyDef
  schema_meta : SchemaMeta
  edges : kv.OrdMap String EdgeDef
  deriving DecidableEq

open text

theorem utf8_eq_encodeUtf8 (s : String) : utf8 s = encodeUtf8 s.toList := by
  rw [utf8, String.toUTF8, ← String.utf8Encode_toList]
  exact toList_data_toByteArray

theorem utf8_append (s t : String) : utf8 (s ++ t) = utf8 s ++ utf8 t := by
  rw [utf8_eq_encodeUtf8, String.toList_append, encodeUtf8_append, ← utf8_eq_encodeUtf8, ← utf8_eq_encodeUtf8]

/-- An ASCII byte splits a text in two. -/
theorem utf8_eq_append_cons {s : String} {x y : Bytes} {b : UInt8} (hb : b.toNat < 128) (h : utf8 s = x ++ b :: y) :
    ∃ s₁ s₂ : String, s = s₁ ++ .ofList [.ofNat b.toNat] ++ s₂ ∧ utf8 s₁ = x ∧ utf8 s₂ = y := by
  rw [utf8_eq_encodeUtf8] at h
  obtain ⟨cs₁, cs₂, hcs, rfl, rfl⟩ := encodeUtf8_eq_append_cons hb h
  refine ⟨.ofList cs₁, .ofList cs₂, ?_, ?_, ?_⟩
  · apply String.toList_inj.mp
    simp [hcs]
  · rw [utf8_eq_encodeUtf8, String.toList_ofList]
  · rw [utf8_eq_encodeUtf8, String.toList_ofList]

theorem utf8_ascii {b : UInt8} (hb : b.toNat < 128) : utf8 (.ofList [.ofNat b.toNat]) = [b] := by
  rw [utf8_eq_encodeUtf8]
  simp [encodeUtf8, utf8EncodeChar_ascii _ hb]

theorem mem_utf8_iff {s : String} {b : UInt8} (hb : b.toNat < 128) :
    b ∈ utf8 s ↔ .ofNat b.toNat ∈ s.toList := by
  constructor
  · intro h
    obtain ⟨x, y, hxy⟩ := append_of_mem h
    obtain ⟨s₁, _, rfl, _, _⟩ := utf8_eq_append_cons hb hxy
    simp
  · intro h
    obtain ⟨cs₁, cs₂, hcs⟩ := append_of_mem h
    have hs : s = .ofList cs₁ ++ .ofList [.ofNat b.toNat] ++ .ofList cs₂ := by
      apply String.toList_inj.mp
      simp [hcs]
    rw [hs, utf8_append, utf8_append, utf8_ascii hb]
    simp

theorem NodeId.to_string_inj {id id' : NodeId} (h : id.to_string = id'.to_string) : id = id' := by
  have hread := id.from_str_to_string
  rw [h, id'.from_str_to_string] at hread
  exact (some.inj hread).symm

/-- The errors the modelled operations return. `UniqueConstraintViolation`
carries the offending value itself where the source prints it. -/
inductive PelagoError where
  | UnregisteredType (entity_type : String)
  | MissingRequired (entity_type field : String)
  | TypeMismatch (field expected actual : String)
  | ExtraProperty (field : String)
  | CelSyntax (expression : String)
  | CelType (field message : String)
  | InvalidId (value : String)
  | InvalidValue (field reason : String)
  | NodeNotFound (entity_type node_id : String)
  | SourceNotFound (entity_type node_id : String)
  | TargetNotFound (entity_type node_id : String)
  | UndeclaredEdgeType (entity_type edge_type : String)
  | TargetTypeMismatch (edge_type expected actual : String)
  | UniqueConstraintViolation (entity_type field : String) (value : Value)
  | VersionConflict (entity_type node_id : String)
  | SchemaValidation (message : String)
  | SchemaMismatch (expected actual : UInt32)
  | NamespaceSchemaOwnershipConflict (database ns owner_site_id actor_site_id : String)
  | TraversalTimeout (max_depth reached_depth : UInt32)
  | Internal (message : String)
  deriving DecidableEq, Repr

/-- A loop whose body may fail or skip its element, and otherwise pushes one
result. -/
def collect {α β : Type} (f : α → Except PelagoError (Option β)) :
    List α → Except PelagoError (List β)
  | [] => .ok []
  | a :: rest => do
    let pushed ← f a
    let out ← collect f rest
    pure (pushed.toList ++ out)

/-- A loop that stops at the first failing check. -/
def checkAll {α : Type} (f : α → Except PelagoError Unit) : List α → Except PelagoError Unit
  | [] => .ok ()
  | a :: rest => do
    f a
    checkAll f rest

theorem checkAll_eq_ok {α : Type} {f : α → Except PelagoError Unit} {xs : List α} :
    checkAll f xs = .ok () ↔ ∀ a ∈ xs, f a = .ok () := by
  induction xs with
  | nil => simp [checkAll]
  | cons a _ ih =>
    rw [checkAll, forall_mem_cons, ← ih]
    cases f a <;> simp [bind, Except.bind]

theorem collect_eq_filterMap {α β : Type} {f : α → Except PelagoError (Option β)} {g : α → Option β}
    {xs : List α} (h : ∀ a ∈ xs, f a = .ok (g a)) : collect f xs = .ok (xs.filterMap g) := by
  induction xs with
  | nil => rfl
  | cons a _ ih =>
    have hrest := ih fun b hb => h b (mem_cons_of_mem _ hb)
    rw [collect, h a mem_cons_self, hrest]
    cases hga : g a <;> simp [hga, bind, Except.bind, pure, Except.pure]

end pelago_core
