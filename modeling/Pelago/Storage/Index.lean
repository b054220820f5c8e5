import Pelago.Storage.Records

open bytes pelago_core pelago_core.encoding

namespace pelago_storage.index

namespace markers

def UNIQUE : UInt8 := 0x75
def EQUALITY : UInt8 := 0x65
def RANGE : UInt8 := 0x72

end markers

inductive IndexEntryType where
  | unique
  | equality
  | range
  deriving DecidableEq, Repr

/-- An index entry to write or remove. For unique indexes `value_bytes` is the
node id. -/
structure IndexEntry where
  key : Bytes
  entry_type : IndexEntryType
  value_bytes : Option Bytes
  deriving DecidableEq, Repr

/-- The key shared by all entries of one property and index kind. -/
def entry_base (idx_subspace : Subspace) (entity_type prop_name : String) (marker : UInt8) :
    TupleBuilder :=
  idx_subspace.pack.add_string entity_type |>.add_string prop_name |>.add_marker marker

/-- `none` stands for the arm that the source marks unreachable: callers skip
properties without an index. -/
def build_index_entry (idx_subspace : Subspace) (entity_type prop_name : String) (node_id : Bytes)
    (prop_def : PropertyDef) (value : Value) : Except PelagoError (Option IndexEntry) := do
  let encoded_value ← encode_value_for_index value
  match prop_def.index with
  | .unique =>
    let key := (entry_base idx_subspace entity_type prop_name markers.UNIQUE
      |>.add_raw_bytes encoded_value).build
    pure (some ⟨key, .unique, some node_id⟩)
  | .equality =>
    let key := (entry_base idx_subspace entity_type prop_name markers.EQUALITY
      |>.add_raw_bytes encoded_value |>.add_raw_bytes node_id).build
    pure (some ⟨key, .equality, none⟩)
  | .range =>
    let key := (entry_base idx_subspace entity_type prop_name markers.RANGE
      |>.add_raw_bytes encoded_value |>.add_raw_bytes node_id).build
    pure (some ⟨key, .range, none⟩)
  | .none => pure none

/-- Entries that have to be written for a node: one for each indexed property
with a value other than null. -/
def compute_index_entries (subspace : Subspace) (entity_type : String) (node_id : Bytes)
    (schema : EntitySchema) (properties : Properties) : Except PelagoError (List IndexEntry) :=
  collect (fun (prop_name, prop_def) =>
    if prop_def.index = .none then pure none
    else
      match properties.get prop_name with
      | some value =>
        if value.is_null then pure none
        else build_index_entry subspace.index entity_type prop_name node_id prop_def value
      | none => pure none) schema.properties.rows

/-- Whether an old value is missing, null or different afterwards. -/
def needs_removal (old_val : Value) (new_value : Option Value) : Bool :=
  match new_value with
  | some new_val => if new_val.is_null then true else !old_val.eq new_val
  | none => true

/-- Entries of old values that do not persist. -/
def compute_index_removals (subspace : Subspace) (entity_type : String) (node_id : Bytes)
    (schema : EntitySchema) (old_properties new_properties : Properties) :
    Except PelagoError (List IndexEntry) :=
  collect (fun (prop_name, prop_def) =>
    if prop_def.index = .none then pure none
    else
      match old_properties.get prop_name with
      | some old_val =>
        if old_val.is_null then pure none
        else if needs_removal old_val (new_properties.get prop_name) then
          build_index_entry subspace.index entity_type prop_name node_id prop_def old_val
        else pure none
      | none => pure none) schema.properties.rows

end pelago_storage.index
