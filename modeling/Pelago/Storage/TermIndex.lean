import Pelago.Storage.Records

open bytes kv pelago_core pelago_core.encoding

namespace pelago_storage.term_index

def TEMPLATE_FIELD_SHOW_SCHEME_SHOT_SEQUENCE : String := "__tpl_show_scheme_shot_sequence"

def TEMPLATE_FIELD_SHOW_SCHEME_SHOT_SEQUENCE_TASK_LABEL : String :=
  "__tpl_show_scheme_shot_sequence_task_label"

namespace markers

def TERM_POSTING : UInt8 := 0x74
def DF_STAT : UInt8 := 0x64
def NDOCS_STAT : UInt8 := 0x6E

end markers

structure TermKey where
  field : String
  encoded_value : Bytes
  deriving DecidableEq, Repr

structure TermPosting where
  key : Bytes
  term : TermKey
  deriving DecidableEq, Repr

structure TermPostingChanges where
  additions : List TermPosting
  removals : List TermPosting

def posting_prefix (idx_subspace : Subspace) (entity_type field : String) (encoded_value : Bytes) :
    Bytes :=
  (idx_subspace.pack.add_string entity_type |>.add_marker markers.TERM_POSTING |>.add_string field
    |>.add_bytes encoded_value).build

def df_key (idx_subspace : Subspace) (entity_type field : String) (encoded_value : Bytes) : Bytes :=
  (idx_subspace.pack.add_string entity_type |>.add_marker markers.DF_STAT |>.add_string field
    |>.add_bytes encoded_value).build

def n_docs_key (idx_subspace : Subspace) (entity_type : String) : Bytes :=
  (idx_subspace.pack.add_string entity_type |>.add_marker markers.NDOCS_STAT).build

def build_posting (idx_subspace : Subspace) (entity_type field : String)
    (encoded_value node_id : Bytes) : TermPosting :=
  let key := (idx_subspace.pack.add_string entity_type |>.add_marker markers.TERM_POSTING
    |>.add_string field |>.add_bytes encoded_value |>.add_raw_bytes node_id).build
  ⟨key, ⟨field, encoded_value⟩⟩

/-- Null and byte-string values have no term. -/
def encode_term_value (value : Value) : Except PelagoError (Option Bytes) :=
  match value with
  | .null => .ok none
  | .bytes _ => .ok none
  | _ => do
    let encoded ← encode_value_for_index value
    pure (some encoded)

def extract_string (properties : Properties) (field : String) : Option String :=
  match properties.get field with
  | some (.string s) => if s.isEmpty then none else some s
  | _ => none

/-- The combined terms of the context fields, when all of them are present. -/
def append_template_postings (idx_subspace : Subspace) (entity_type : String) (node_id : Bytes)
    (properties : Properties) (postings : List TermPosting) : List TermPosting :=
  match extract_string properties "show", extract_string properties "scheme",
    extract_string properties "shot", extract_string properties "sequence" with
  | some show_, some scheme, some shot, some sequence =>
    let shot_sequence_value := show_ ++ "|" ++ scheme ++ "|" ++ shot ++ "|" ++ sequence
    let postings := postings ++ [build_posting idx_subspace entity_type
      TEMPLATE_FIELD_SHOW_SCHEME_SHOT_SEQUENCE (utf8 shot_sequence_value) node_id]
    match extract_string properties "task", extract_string properties "label" with
    | some task, some label =>
      let full_template_value := shot_sequence_value ++ "|" ++ task ++ "|" ++ label
      postings ++ [build_posting idx_subspace entity_type
        TEMPLATE_FIELD_SHOW_SCHEME_SHOT_SEQUENCE_TASK_LABEL (utf8 full_template_value) node_id]
    | _, _ => postings
  | _, _, _, _ => postings

/-- The posting of a field, if its value has a term. -/
def field_posting (subspace : Subspace) (entity_type : String) (node_id : Bytes)
    (row : String × Value) : Except PelagoError (Option TermPosting) := do
  match ← encode_term_value row.2 with
  | some encoded => pure (some (build_posting subspace.index entity_type row.1 encoded node_id))
  | none => pure none

def compute_term_postings (subspace : Subspace) (entity_type : String) (node_id : Bytes)
    (properties : Properties) : Except PelagoError (List TermPosting) := do
  let postings ← collect (field_posting subspace entity_type node_id) properties.rows
  pure (append_template_postings subspace.index entity_type node_id properties postings)

/-- Postings by their keys. -/
def posting_map (postings : List TermPosting) : OrdMap Bytes TermPosting :=
  OrdMap.ofList (postings.map fun posting => (posting.key, posting))

/-- The postings of one map whose keys the other one lacks. -/
def missing_from (map other : OrdMap Bytes TermPosting) : List TermPosting :=
  map.rows.filterMap fun row => if other.contains row.1 then none else some row.2

/-- The difference of the posting sets, by key. -/
def compute_term_posting_changes (subspace : Subspace) (entity_type : String) (node_id : Bytes)
    (old_properties new_properties : Properties) : Except PelagoError TermPostingChanges := do
  let old_postings ← compute_term_postings subspace entity_type node_id old_properties
  let new_postings ← compute_term_postings subspace entity_type node_id new_properties
  let old_map := posting_map old_postings
  let new_map := posting_map new_postings
  pure ⟨missing_from new_map old_map, missing_from old_map new_map⟩

/-- `i64::from_be_bytes` of eight bytes. -/
def i64OfBytes (bs : Bytes) : Int :=
  if beValue bs < 2 ^ 63 then (beValue bs : Int) else (beValue bs : Int) - 2 ^ 64

/-- `i64::to_be_bytes`. -/
def i64ToBytes (n : Int) : Bytes := beBytes 8 (n % 2 ^ 64).toNat

def read_i64_counter (key : Bytes) : Tx Int := do
  match ← Tx.get key with
  | some (.raw bs) =>
    if bs.length ≠ 8 then .fail (.Internal s!"Invalid term counter length: {bs.length}")
    else pure (i64OfBytes bs)
  | some _ => .fail (.Internal "Invalid term counter length")
  | none => pure 0

/-- Adds `delta` to a counter, with `i64` wrapping, clamps it at zero and drops
a counter of zero. -/
def add_to_counter (key : Bytes) (delta : Int) : Tx Unit := do
  let current ← read_i64_counter key
  let next := max ((current + delta).bmod (2 ^ 64)) 0
  if next = 0 then Tx.clear key else Tx.set key (.raw (i64ToBytes next))

/-- `*term_deltas.entry(term).or_insert(0) += n`. -/
def bump (term_deltas : List (TermKey × Int)) (term : TermKey) (n : Int) : List (TermKey × Int) :=
  match term_deltas with
  | [] => [(term, n)]
  | (key, m) :: rest => if key = term then (key, m + n) :: rest else (key, m) :: bump rest term n

def term_deltas (changes : TermPostingChanges) : List (TermKey × Int) :=
  let deltas := changes.additions.foldl (fun deltas posting => bump deltas posting.term 1) []
  changes.removals.foldl (fun deltas posting => bump deltas posting.term (-1)) deltas

def apply_term_posting_changes (subspace : Subspace) (entity_type : String)
    (changes : TermPostingChanges) (n_docs_delta : Int) : Tx Unit := do
  Tx.forEach changes.removals fun posting => Tx.clear posting.key
  Tx.forEach changes.additions fun posting => Tx.set posting.key (.raw [])
  Tx.forEach (term_deltas changes) fun (term, delta) =>
    if delta = 0 then pure ()
    else add_to_counter (df_key subspace.index entity_type term.field term.encoded_value) delta
  if n_docs_delta ≠ 0 then add_to_counter (n_docs_key subspace.index entity_type) n_docs_delta

end pelago_storage.term_index
