import Pelago.Storage.Node

open bytes kv pelago_core pelago_core.encoding

namespace pelago_storage

/-- Edge data for API responses. -/
structure StoredEdge where
  edge_id : String
  source : NodeRef
  target : NodeRef
  label : String
  properties : Properties
  created_at : Int
  deriving DecidableEq

namespace edge

namespace edge_markers

def FORWARD : UInt8 := 0x66
def FORWARD_META : UInt8 := 0x6D
def REVERSE : UInt8 := 0x72

end edge_markers

open edge_markers

/-- The keys of an edge, and for a bidirectional one the forward and reverse key
of the other direction. -/
structure EdgeKeys where
  forward_key : Bytes
  meta_key : Bytes
  reverse_key : Bytes
  reverse_direction_keys : Option (Bytes × Bytes)
  deriving DecidableEq

/-- What the keys of a node's outgoing edges start with. -/
def outgoing_start (edge_subspace : Subspace) (marker : UInt8) (entity_type node_id : String) : TupleBuilder :=
  edge_subspace.pack.add_marker marker |>.add_string entity_type |>.add_string node_id

/-- A forward or metadata key. The bytes of the sort key are not delimited. -/
def outgoing_key (edge_subspace : Subspace) (marker : UInt8) (source target : NodeRef) (label : String)
    (sort_key_bytes : Option Bytes) : Bytes :=
  let builder := (outgoing_start edge_subspace marker source.entity_type source.node_id).add_string label
  let builder := match sort_key_bytes with
    | some sk => builder.add_raw_bytes sk
    | none => builder
  (builder.add_string target.database |>.add_string target.ns |>.add_string target.entity_type
    |>.add_string target.node_id).build

/-- What the reverse keys of a node's incoming edges start with. -/
def incoming_start (edge_subspace : Subspace) (database ns entity_type node_id : String) : TupleBuilder :=
  edge_subspace.pack.add_marker REVERSE |>.add_string database |>.add_string ns |>.add_string entity_type
    |>.add_string node_id

def incoming_key (edge_subspace : Subspace) (source target : NodeRef) (label : String) : Bytes :=
  (incoming_start edge_subspace target.database target.ns target.entity_type target.node_id
    |>.add_string label |>.add_string source.entity_type |>.add_string source.node_id).build

/-- The sort key as it stands in a key; a null counts as absent. -/
def encode_sort_key (sort_key_value : Option Value) : Except PelagoError (Option Bytes) :=
  match sort_key_value with
  | some v => if v.is_null then .ok none else (encode_value_for_index v).map some
  | none => .ok none

def compute_edge_keys (subspace : Subspace) (source target : NodeRef) (label : String)
    (sort_key_value : Option Value) (is_bidirectional : Bool) : Except PelagoError EdgeKeys := do
  let edge_subspace := subspace.edge
  let sort_key_bytes ← encode_sort_key sort_key_value
  pure {
    forward_key := outgoing_key edge_subspace FORWARD source target label sort_key_bytes
    meta_key := outgoing_key edge_subspace FORWARD_META source target label sort_key_bytes
    reverse_key := incoming_key edge_subspace source target label
    reverse_direction_keys :=
      if is_bidirectional then
        some (outgoing_key edge_subspace FORWARD target source label sort_key_bytes,
          incoming_key edge_subspace target source label)
      else none }

def validate_edge_type (schema : EntitySchema) (label target_type : String) :
    Except PelagoError EdgeDirection :=
  match schema.edges.get label with
  | some edge_def =>
    match edge_def.target with
    | .Specific expected_type =>
      if expected_type ≠ target_type then .error (.TargetTypeMismatch label expected_type target_type)
      else .ok edge_def.direction
    | .Polymorphic => .ok edge_def.direction
  | none =>
    if schema.schema_meta.allow_undeclared_edges then .ok .Outgoing
    else .error (.UndeclaredEdgeType schema.name label)

def sort_key_for_label (schema : Option EntitySchema) (label : String) (properties : Properties) :
    Option Value := do
  let schema ← schema
  let edge_def ← schema.edges.get label
  let sort_key ← edge_def.sort_key
  properties.get sort_key

/-- The direction that deletions go by; an undeclared label is one-way. -/
def is_bidirectional (schema : Option EntitySchema) (label : String) : Bool :=
  match schema.bind fun s => s.edges.get label with
  | some edge_def => edge_def.direction = .Bidirectional
  | none => false

/-- The ownership that replication goes by; an undeclared label belongs to the
source's site. -/
def ownership_for_label (schema : Option EntitySchema) (label : String) : OwnershipMode :=
  match schema.bind fun s => s.edges.get label with
  | some edge_def => edge_def.ownership
  | none => .SourceSite

/-- The metadata key next to a forward key. -/
def meta_key_of (edge_subspace : Subspace) (key : Bytes) : Bytes :=
  key.set edge_subspace.pfx.length FORWARD_META

/-- The edge data of a forward row; rows of older versions are empty and have it
in their metadata row. -/
def read_edge_data (edge_subspace : Subspace) (row : Bytes × Cell) : Proc (Option EdgeData) :=
  if row.2 ≠ .raw [] then pure (decode_cbor_edge row.2).toOption
  else do
    match ← .read (meta_key_of edge_subspace row.1) with
    | some bytes => do
      let edge_data ← .ofExcept (decode_cbor_edge bytes)
      pure (some edge_data)
    | none => pure none

/-- The record is that of the given edge, as far as it tells. -/
def is_edge (source target : NodeRef) (label : String) (edge_data : EdgeData) : Bool :=
  decide (edge_data.label.getD label = label ∧ edge_data.source.getD source = source ∧
    edge_data.target.getD target = target)

/-- The first row with the record of the given edge. -/
def find_in_rows (edge_subspace : Subspace) (source target : NodeRef) (label : String) :
    List (Bytes × Cell) → Proc (Option EdgeData)
  | [] => pure none
  | row :: rest => do
    match ← read_edge_data edge_subspace row with
    | some edge_data =>
      if is_edge source target label edge_data then pure (some edge_data)
      else find_in_rows edge_subspace source target label rest
    | none => find_in_rows edge_subspace source target label rest

def find_edge_data_by_endpoints (database ns : String) (source target : NodeRef) (label : String) :
    Proc (Option EdgeData) := do
  let edge_subspace := (Subspace.of_namespace database ns).edge
  let range_start :=
    ((outgoing_start edge_subspace FORWARD source.entity_type source.node_id).add_string label).build
  let rows ← .scan range_start (range_start ++ [0xFF]) 2048
  find_in_rows edge_subspace source target label rows

/-- A row of `list_edges`, with the metadata rows that were read for empty rows. -/
def outgoing_edge (edge_subspace : Subspace) (database ns entity_type node_id : String)
    (label_filter : Option String) (legacy_meta_by_key : List (Bytes × Cell)) (row : Bytes × Cell) :
    Except PelagoError (Option StoredEdge) := do
  let edge_data ←
    match if row.2 ≠ .raw [] then (decode_cbor_edge row.2).toOption else none with
    | some edge_data => .ok (some edge_data)
    | none =>
      match legacy_meta_by_key.lookup (meta_key_of edge_subspace row.1) with
      | some meta_bytes => (decode_cbor_edge meta_bytes).map some
      | none => .ok none
  pure (edge_data.map fun d =>
    { edge_id := d.edge_id
      source := d.source.getD ⟨database, ns, entity_type, node_id⟩
      target := d.target.getD ⟨database, ns, "Unknown", "Unknown"⟩
      label := d.label.getD (label_filter.getD "unknown")
      properties := d.properties
      created_at := d.created_at })

/-- Where the scan of a node's outgoing edges starts. -/
def list_start (edge_subspace : Subspace) (marker : UInt8) (entity_type node_id : String)
    (label_filter : Option String) : Bytes :=
  match label_filter with
  | some label => ((outgoing_start edge_subspace marker entity_type node_id).add_string label).build
  | none => (outgoing_start edge_subspace marker entity_type node_id).build

/-- The metadata rows, read when one of the forward rows is empty. -/
def legacy_meta_rows (meta_start : Bytes) (results : List (Bytes × Cell)) (limit : Nat) :
    Proc (List (Bytes × Cell)) :=
  if results.any fun row => decide (row.2 = .raw []) then .scan meta_start (meta_start ++ [0xFF]) limit
  else pure []

def list_edges (database ns entity_type node_id : String) (label_filter : Option String) (limit : Nat) :
    Proc (List StoredEdge) := do
  let edge_subspace := (Subspace.of_namespace database ns).edge
  let range_start := list_start edge_subspace FORWARD entity_type node_id label_filter
  let results ← .scan range_start (range_start ++ [0xFF]) limit
  let legacy_meta_by_key ← legacy_meta_rows
    (list_start edge_subspace FORWARD_META entity_type node_id label_filter) results limit
  .ofExcept (collect
    (outgoing_edge edge_subspace database ns entity_type node_id label_filter legacy_meta_by_key) results)

/-- The bytes of a text element up to its terminator. -/
def take_escaped : Bytes → Option (Bytes × Bytes)
  | [] => none
  | 0x00 :: 0xFF :: rest => (take_escaped rest).map fun (out, rest) => (0x00 :: out, rest)
  | 0x00 :: rest => some ([], rest)
  | b :: rest => (take_escaped rest).map fun (out, rest) => (b :: out, rest)

def decode_tuple_string (key : Bytes) : Option (String × Bytes) :=
  match key with
  | 0x02 :: rest => do
    let (out, rest) ← take_escaped rest
    let text ← String.fromUTF8? ⟨out.toArray⟩
    pure (text, rest)
  | _ => none

/-- The target, the label, and the source's type and id in a reverse key. -/
def parse_reverse_key_parts (key : Bytes) (marker_pos : Nat) :
    Option (NodeRef × String × String × String) :=
  match key.drop marker_pos with
  | marker :: rest =>
    if marker ≠ REVERSE then none
    else do
      let (target_database, rest) ← decode_tuple_string rest
      let (target_namespace, rest) ← decode_tuple_string rest
      let (target_entity_type, rest) ← decode_tuple_string rest
      let (target_node_id, rest) ← decode_tuple_string rest
      let (label, rest) ← decode_tuple_string rest
      let (source_entity_type, rest) ← decode_tuple_string rest
      let (source_node_id, _) ← decode_tuple_string rest
      pure (⟨target_database, target_namespace, target_entity_type, target_node_id⟩, label,
        source_entity_type, source_node_id)
  | [] => none

/-- The edge data of a reverse row. An empty row is looked up by the endpoints
in its key. -/
def incoming_edge_data (edge_subspace : Subspace) (database ns : String) (row : Bytes × Cell) :
    Proc (Option EdgeData) :=
  if row.2 ≠ .raw [] then pure (decode_cbor_edge row.2).toOption
  else
    match parse_reverse_key_parts row.1 edge_subspace.pfx.length with
    | some (target, label, source_entity_type, source_node_id) =>
      find_edge_data_by_endpoints database ns ⟨database, ns, source_entity_type, source_node_id⟩ target label
    | none => pure none

/-- A row of `list_incoming_edges`. -/
def incoming_edge (edge_subspace : Subspace) (database ns entity_type node_id : String)
    (label_filter : Option String) (row : Bytes × Cell) : Proc (Option StoredEdge) := do
  let edge_data ← incoming_edge_data edge_subspace database ns row
  pure (edge_data.bind fun d =>
    let target := d.target.getD ⟨database, ns, entity_type, node_id⟩
    if target.entity_type = entity_type ∧ target.node_id = node_id then
      some
        { edge_id := d.edge_id
          source := d.source.getD ⟨database, ns, "Unknown", "Unknown"⟩
          target := target
          label := d.label.getD (label_filter.getD "unknown")
          properties := d.properties
          created_at := d.created_at }
    else none)

def list_incoming_edges (database ns entity_type node_id : String) (label_filter : Option String)
    (limit : Nat) : Proc (List StoredEdge) := do
  let edge_subspace := (Subspace.of_namespace database ns).edge
  let builder := incoming_start edge_subspace database ns entity_type node_id
  let range_start := match label_filter with
    | some label => (builder.add_string label).build
    | none => builder.build
  let rows ← .scan range_start (range_start ++ [0xFF]) limit
  Proc.collect (incoming_edge edge_subspace database ns entity_type node_id label_filter) rows

end edge

end pelago_storage
