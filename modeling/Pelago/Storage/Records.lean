import Pelago.Core.Encoding
import Pelago.Kv.Process

open bytes pelago_core pelago_core.encoding

namespace pelago_storage

/-- Subspace helper for building keys. -/
structure Subspace where
  pfx : Bytes
  deriving DecidableEq

namespace Subspace

def root : Subspace := ⟨[]⟩

/-- The subspace of a namespace within a database. -/
def of_namespace (db ns : String) : Subspace :=
  ⟨(TupleBuilder.new.add_string db |>.add_string ns).build⟩

/-- A child subspace. The name is written without escaping. -/
def subspace (s : Subspace) (name : String) : Subspace :=
  ⟨s.pfx ++ 0x02 :: (utf8 name ++ [0x00])⟩

/-- A named child subspace. -/
def child (s : Subspace) (name : String) : Subspace := s.subspace name

/-- Metadata of the whole deployment. -/
def system : Subspace := root.subspace "_sys"

def schema (s : Subspace) : Subspace := s.subspace "_schema"
def data (s : Subspace) : Subspace := s.subspace "data"
def index (s : Subspace) : Subspace := s.subspace "idx"
def edge (s : Subspace) : Subspace := s.subspace "edge"
def cdc (s : Subspace) : Subspace := s.subspace "_cdc"
def jobs (s : Subspace) : Subspace := s.subspace "_jobs"
def ids (s : Subspace) : Subspace := s.subspace "_ids"
def metadata (s : Subspace) : Subspace := s.subspace "_meta"

/-- A builder that starts with the subspace's bytes. -/
def pack (s : Subspace) : TupleBuilder := TupleBuilder.new.add_raw_bytes s.pfx

/-- The end of a scan over the subspace. Keys that go on with `FF` lie behind it. -/
def range_end (s : Subspace) : Bytes := s.pfx ++ [0xFF]

end Subspace

namespace replication

def site_claim_subspace : Subspace := Subspace.system.child "site_claim"

def replication_position_subspace : Subspace := Subspace.system.child "repl_position"

def scoped_replication_position_subspace (database ns : String) : Subspace :=
  ((Subspace.system.child "repl_position_scoped").child database).child ns

def replicator_lease_subspace (site_id database ns : String) : Subspace :=
  (((Subspace.system.child "repl_lease").child site_id).child database).child ns

def site_claim_key (site_id : String) : Bytes := (site_claim_subspace.pack.add_string site_id).build

def replication_position_key (remote_site_id : String) : Bytes :=
  (replication_position_subspace.pack.add_string remote_site_id).build

def scoped_replication_position_key (database ns remote_site_id : String) : Bytes :=
  ((scoped_replication_position_subspace database ns).pack.add_string remote_site_id).build

def replicator_lease_key (site_id database ns : String) : Bytes := (replicator_lease_subspace site_id database ns).pfx

end replication

namespace security

def policy_subspace : Subspace := Subspace.system.child "policies"

def auth_access_subspace : Subspace := (Subspace.system.child "auth").child "access"

def auth_refresh_subspace : Subspace := (Subspace.system.child "auth").child "refresh"

def audit_subspace : Subspace := Subspace.system.child "audit"

def policy_key (policy_id : String) : Bytes := (policy_subspace.pack.add_string policy_id).build

def access_token_key (token : String) : Bytes := (auth_access_subspace.pack.add_string token).build

def refresh_token_key (token : String) : Bytes := (auth_refresh_subspace.pack.add_string token).build

def audit_key (ts : Int64) (event_id : String) : Bytes :=
  (audit_subspace.pack.add_int ts |>.add_string event_id).build

end security

namespace watch_state

def query_watch_state_root_subspace : Subspace := (Subspace.system.child "watch").child "qstate"

def query_watch_state_subspace (database ns : String) : Subspace :=
  (query_watch_state_root_subspace.child database).child ns

def query_watch_state_key (database ns state_id : String) : Bytes :=
  ((query_watch_state_subspace database ns).pack.add_string state_id).build

end watch_state

/-- Settings are kept with the namespace. -/
def namespace_settings_subspace (database ns : String) : Subspace :=
  ((Subspace.of_namespace database ns).child "_ns").child "settings"

def namespace_settings_key (database ns : String) : Bytes := (namespace_settings_subspace database ns).pfx

namespace jobs

def job_key (database ns job_id : String) : Bytes :=
  ((Subspace.of_namespace database ns).jobs.pack.add_string job_id).build

end jobs

namespace schema

def latest_version_key (subspace : Subspace) (entity_type : String) : Bytes :=
  (subspace.pack.add_string entity_type |>.add_string "latest").build

def version_key (subspace : Subspace) (entity_type : String) (version : UInt32) : Bytes :=
  (subspace.pack.add_string entity_type |>.add_string "v" |>.add_int (Int64.ofNat version.toNat)).build

end schema

/-- What the server keeps about the deployment and its namespaces. -/
inductive SystemRecord where
  | site_claim (site_id : String)
  | position (remote_site_id : String)
  | scoped_position (database ns remote_site_id : String)
  | lease (site_id database ns : String)
  | policy (policy_id : String)
  | access_token (token : String)
  | refresh_token (token : String)
  | audit (ts : Int64) (event_id : String)
  | watch_state (database ns state_id : String)
  | settings (database ns : String)
  deriving DecidableEq

namespace SystemRecord

def key : SystemRecord → Bytes
  | site_claim site_id => replication.site_claim_key site_id
  | position remote_site_id => replication.replication_position_key remote_site_id
  | scoped_position database ns remote_site_id => replication.scoped_replication_position_key database ns remote_site_id
  | lease site_id database ns => replication.replicator_lease_key site_id database ns
  | policy policy_id => security.policy_key policy_id
  | access_token token => security.access_token_key token
  | refresh_token token => security.refresh_token_key token
  | audit ts event_id => security.audit_key ts event_id
  | watch_state database ns state_id => watch_state.query_watch_state_key database ns state_id
  | settings database ns => namespace_settings_key database ns

/-- The names that stand in the key without escaping. -/
def bareNames : SystemRecord → List String
  | scoped_position database ns _ | watch_state database ns _ => [database, ns]
  | lease site_id database ns => [site_id, database, ns]
  | _ => []

end SystemRecord

/-- Internal node data. Times are microseconds. -/
structure NodeData where
  properties : Properties
  locality : UInt8
  created_at : Int
  updated_at : Int
  deriving DecidableEq

/-- Node data for API responses. -/
structure StoredNode where
  id : String
  entity_type : String
  properties : Properties
  locality : UInt8
  created_at : Int
  updated_at : Int
  deriving DecidableEq

/-- Reference to a node, for edge endpoints. -/
structure NodeRef where
  database : String
  ns : String
  entity_type : String
  node_id : String
  deriving DecidableEq

/-- Internal edge data. Rows of older versions lack the last three fields. -/
structure EdgeData where
  edge_id : String
  properties : Properties
  created_at : Int
  source : Option NodeRef
  target : Option NodeRef
  label : Option String
  deriving DecidableEq

/-- The change-data-capture operations of nodes and edges. -/
inductive CdcOperation where
  | NodeCreate (entity_type node_id : String) (properties : Properties) (home_site : String)
  | NodeUpdate (entity_type node_id : String) (changed_properties old_properties : Properties)
  | NodeDelete (entity_type node_id : String)
  | EdgeCreate (source_type source_id target_type target_id edge_type edge_id : String)
      (properties : Properties)
  | EdgeDelete (source_type source_id target_type target_id edge_type : String)
  | OwnershipTransfer (entity_type node_id previous_site_id current_site_id : String)
  deriving DecidableEq

structure CdcEntry where
  site : String
  timestamp : Int
  operations : List CdcOperation
  deriving DecidableEq

/-- A property value after a round trip through CBOR, which writes integers and
timestamps alike. -/
def storedValue : Value → Value
  | .timestamp t => .int t
  | v => v

def storedProperties (properties : Properties) : Properties := properties.mapVal storedValue

def NodeData.stored (d : NodeData) : NodeData := { d with properties := storedProperties d.properties }

def EdgeData.stored (d : EdgeData) : EdgeData := { d with properties := storedProperties d.properties }

def CdcOperation.stored : CdcOperation → CdcOperation
  | .NodeCreate entity_type node_id properties home_site =>
    .NodeCreate entity_type node_id (storedProperties properties) home_site
  | .NodeUpdate entity_type node_id changed_properties old_properties =>
    .NodeUpdate entity_type node_id (storedProperties changed_properties) (storedProperties old_properties)
  | .EdgeCreate source_type source_id target_type target_id edge_type edge_id properties =>
    .EdgeCreate source_type source_id target_type target_id edge_type edge_id (storedProperties properties)
  | op => op

/-- The contents of a row: plain bytes, or a CBOR document, of which only what
it decodes to is kept. -/
inductive Cell where
  | raw (b : Bytes)
  | node (d : NodeData)
  | edge (d : EdgeData)
  | cdc (e : CdcEntry)
  deriving DecidableEq

def encode_cbor (d : NodeData) : Cell := .node d.stored

def encode_cbor_edge (d : EdgeData) : Cell := .edge d.stored

def encode_cbor_entry (e : CdcEntry) : Cell :=
  .cdc { e with operations := e.operations.map CdcOperation.stored }

def decode_cbor (c : Cell) : Except PelagoError NodeData :=
  match c with
  | .node d => .ok d
  | _ => .error (.Internal "CBOR deserialization failed")

def decode_cbor_edge (c : Cell) : Except PelagoError EdgeData :=
  match c with
  | .edge d => .ok d
  | _ => .error (.Internal "CBOR deserialization failed")

def decode_cbor_entry (c : Cell) : Except PelagoError CdcEntry :=
  match c with
  | .cdc e => .ok e
  | _ => .error (.Internal "CBOR deserialization failed")

@[simp] theorem decode_cbor_encode_cbor (d : NodeData) : decode_cbor (encode_cbor d) = .ok d.stored := rfl

theorem decode_cbor_eq_ok {c : Cell} {d : NodeData} : decode_cbor c = .ok d ↔ c = .node d := by
  cases c <;> simp [decode_cbor]

theorem storedValue_idem (v : Value) : storedValue (storedValue v) = storedValue v := by
  cases v <;> rfl

/-- Storing a value does not change its index bytes. -/
theorem encodedValue_storedValue (v : Value) : encoding.encodedValue (storedValue v) = encoding.encodedValue v := by
  cases v <;> rfl

theorem storedValue_is_null (v : Value) : (storedValue v).is_null = v.is_null := by
  cases v <;> rfl

theorem storedValue_isNegativeZero (v : Value) : (storedValue v).isNegativeZero = v.isNegativeZero := by
  cases v <;> rfl

theorem storedProperties_get (properties : Properties) (field : String) :
    (storedProperties properties).get field = (properties.get field).map storedValue :=
  kv.OrdMap.get_mapVal ..

theorem storedProperties_idem (properties : Properties) :
    storedProperties (storedProperties properties) = storedProperties properties := by
  apply kv.OrdMap.ext_get
  intro _
  simp only [storedProperties, kv.OrdMap.get_mapVal, Option.map_map]
  congr 1
  funext v
  exact storedValue_idem v

abbrev Db := kv.Db Bytes Cell
abbrev Tx := kv.Tx Bytes Cell PelagoError

/-- Requests of the storage layer. The values they ask for are fresh node ids. -/
abbrev Proc := kv.Proc Bytes Cell NodeId PelagoError

end pelago_storage
