import Pelago.Storage.Documents
import Pelago.Storage.Keys
import Pelago.Storage.Namespace

open bytes kv pelago_core pelago_core.encoding

namespace pelago_storage

deriving instance DecidableEq for EdgeDefDocument, SchemaDocument

namespace schema

open namespace_settings

/-- The rows the registry works with: version pointers, schemas and the settings of the
namespace. Of CBOR documents only what they decode to is kept. -/
inductive RegistryCell where
  | raw (b : Bytes)
  | schema (d : SchemaDocument)
  | settings (s : NamespaceSettings)
  deriving DecidableEq

abbrev Rows := OrdMap Bytes RegistryCell

def encode_cbor_schema (schema : SchemaDocument) : RegistryCell := .schema schema.stored

def decode_cbor_schema : RegistryCell → Except PelagoError SchemaDocument
  | .schema schema => .ok schema
  | _ => .error (.Internal "CBOR deserialization failed")

def encode_version (version : UInt32) : Bytes := beBytes 4 version.toNat

def decode_version (bs : Bytes) : Except PelagoError UInt32 :=
  if bs.length ≠ 4 then .error (.Internal ("Invalid version bytes length: " ++ toString bs.length))
  else .ok (UInt32.ofNat (beValue bs))

theorem decode_encode_version (version : UInt32) : decode_version (encode_version version) = .ok version := by
  rw [decode_version, encode_version, beValue_beBytes]
  simp

section Validation

-- `char::is_alphanumeric`
variable (is_alphanumeric : Char → Bool)

def validate_edge (edge : String × EdgeDefDocument) : Except PelagoError Unit :=
  let (edge_name, edge_def) := edge
  if edge_name = "" then .error (.SchemaValidation "Edge name cannot be empty")
  else
    match edge_def.sort_key with
    | some sort_key =>
      if ¬ edge_def.properties.contains sort_key then
        .error (.SchemaValidation
          ("Edge '" ++ edge_name ++ "' sort_key '" ++ sort_key ++ "' is not a defined edge property"))
      else ownership edge_name edge_def
    | none => ownership edge_name edge_def
where
  ownership (edge_name : String) (edge_def : EdgeDefDocument) : Except PelagoError Unit :=
    if edge_def.ownership = .Independent then
      .error (.SchemaValidation
        ("Edge '" ++ edge_name ++ "' uses ownership=independent, which is not supported in v1"))
    else .ok ()

/-- The maps of a schema are checked in the order of their keys; in the source the order
decides only which of several errors is reported. -/
def validate_schema (schema : SchemaDocument) : Except PelagoError Unit := do
  if schema.name = "" then .error (.SchemaValidation "Schema name cannot be empty")
  if ¬ schema.name.toList.all (fun c => is_alphanumeric c || c == '_') then
    .error (.SchemaValidation ("Schema name '" ++ schema.name ++
      "' contains invalid characters (only alphanumeric and underscore allowed)"))
  checkAll (fun prop : String × PropertyDef =>
    if prop.1 = "" then .error (.SchemaValidation "Property name cannot be empty") else .ok ()) schema.properties.rows
  checkAll validate_edge schema.edges.rows

end Validation

variable (database ns : String)

def get_namespace_settings (rows : Rows) : Except PelagoError (Option NamespaceSettings) :=
  match rows.get (namespace_settings_key database ns) with
  | some (.settings settings) => .ok (some settings)
  | some _ => .error (.Internal "CBOR deserialization failed")
  | none => .ok none

def enforce_owner (rows : Rows) (actor_site_id : String) : Except PelagoError Unit := do
  let stored ← get_namespace_settings database ns rows
  enforce_namespace_schema_owner stored actor_site_id

/-- The key of the version pointer of a type. -/
def latestKey (entity_type : String) : Bytes :=
  latest_version_key (Subspace.of_namespace database ns).schema entity_type

/-- The key of a version of a type. -/
def versionKey (entity_type : String) (version : UInt32) : Bytes :=
  version_key (Subspace.of_namespace database ns).schema entity_type version

/-- The latest version of a type, zero when it has none. -/
def current_version (rows : Rows) (entity_type : String) : Except PelagoError UInt32 :=
  match rows.get (latestKey database ns entity_type) with
  | some (.raw bs) => decode_version bs
  | some _ => .error (.Internal "Invalid version bytes length")
  | none => .ok 0

/-- The write transaction of a registration. -/
def write_version (rows : Rows) (schema : SchemaDocument) (version : UInt32) : Rows :=
  (rows.set (latestKey database ns schema.name) (.raw (encode_version version))).set
    (versionKey database ns schema.name version) (encode_cbor_schema { schema with version })

def get_schema_version (rows : Rows) (entity_type : String) (version : UInt32) :
    Except PelagoError (Option SchemaDocument) :=
  match rows.get (versionKey database ns entity_type version) with
  | some cell => (decode_cbor_schema cell).map some
  | none => .ok none

/-- A job that fills the index of one property. -/
structure IndexBackfill where
  entity_type : String
  property_name : String
  index_type : IndexType
  deriving DecidableEq

/-- The jobs a registration creates: one for every property that has an index now and had none. -/
def backfill_jobs (old_schema schema : SchemaDocument) : List IndexBackfill :=
  schema.properties.rows.filterMap fun (prop_name, new_def) =>
    let old_index := ((old_schema.properties.get prop_name).map PropertyDef.index).getD .none
    if new_def.index ≠ .none ∧ old_index = .none then some ⟨schema.name, prop_name, new_def.index⟩ else none

/-- After an update, the version before it is read back. -/
def jobs_after (rows : Rows) (schema : SchemaDocument) (current : UInt32) : List IndexBackfill :=
  if current > 0 then
    match get_schema_version database ns rows schema.name current with
    | .ok (some old_schema) => backfill_jobs old_schema schema
    | _ => []
  else []

variable (is_alphanumeric : Char → Bool)

/-- A call that runs alone. It returns the version, and leaves rows and new jobs. -/
def register_schema (site_id : String) (schema : SchemaDocument) (rows : Rows) :
    Except PelagoError (UInt32 × Rows × List IndexBackfill) := do
  validate_schema is_alphanumeric schema
  enforce_owner database ns rows site_id
  let current ← current_version database ns rows schema.name
  let new_version := current + 1
  let rows := write_version database ns rows schema new_version
  pure (new_version, rows, jobs_after database ns rows { schema with version := new_version } current)

structure ReplicaCall where
  document : SchemaDocument
  expected_version : UInt32
  origin_site_id : String

/-- A replicated registration that runs alone. Nothing is written unless it returns `true`. -/
def apply_replica_schema_register (call : ReplicaCall) (rows : Rows) : Except PelagoError Bool × Rows :=
  match validate_schema is_alphanumeric call.document with
  | .error e => (.error e, rows)
  | .ok () =>
    match enforce_owner database ns rows call.origin_site_id with
    | .error e => (.error e, rows)
    | .ok () =>
      match current_version database ns rows call.document.name with
      | .error e => (.error e, rows)
      | .ok current =>
        if current ≥ call.expected_version then (.ok false, rows)
        else if current + 1 ≠ call.expected_version then
          (.error (.SchemaMismatch (current + 1) call.expected_version), rows)
        else (.ok true, write_version database ns rows call.document call.expected_version)

end schema

end pelago_storage
