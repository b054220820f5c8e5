import Pelago.Storage.Edge
import Pelago.Storage.Node.Mutations
import Pelago.Storage.Keys

open bytes kv pelago_core pelago_core.encoding
open pelago_storage.node (parse_u8 parse_site_id parse_node_id data_key delete_guard_key get_node)

namespace pelago_storage.edge

open edge_markers
open Subspace (of_namespace)

/-- Edge storage operations. The number of rounds a cascade may take is not
bounded in the source; `cascade_rounds` can be any number, and
`cascade_clock` gives the time of each round. -/
structure Store where
  get_schema : (database ns entity_type : String) → Option EntitySchema
  site_id : String
  cascade_rounds : Nat
  cascade_clock : Nat → Int

def enforce_source_ownership (self : Store) (source_type source_id : String) (source_locality : UInt8) :
    Except PelagoError Unit :=
  match parse_u8 self.site_id with
  | some local_site =>
    if local_site ≠ source_locality then .error (.VersionConflict source_type source_id) else .ok ()
  | none => .ok ()

def lookup_schema (self : Store) (source : NodeRef) : Except PelagoError EntitySchema :=
  match self.get_schema source.database source.ns source.entity_type with
  | some schema => .ok schema
  | none => .error (.UnregisteredType source.entity_type)

/-- The source of an edge, which has to be there. -/
def get_source (source : NodeRef) : Proc StoredNode := do
  match ← get_node source.database source.ns source.entity_type source.node_id with
  | some source_node => pure source_node
  | none => .fail (.SourceNotFound source.entity_type source.node_id)

def get_target (target : NodeRef) : Proc StoredNode := do
  match ← get_node target.database target.ns target.entity_type target.node_id with
  | some target_node => pure target_node
  | none => .fail (.TargetNotFound target.entity_type target.node_id)

def read_node_locality_in_txn (node : NodeRef) : Tx (Option UInt8) := do
  let parsed ← .ofExcept (parse_node_id node.node_id)
  match ← Tx.get (data_key (of_namespace node.database node.ns).data node.entity_type
      parsed.to_bytes) with
  | some bytes => do
    let node_data ← .ofExcept (decode_cbor bytes)
    pure (some node_data.locality)
  | none => pure none

def node_delete_guard_exists_in_txn (node : NodeRef) : Tx Bool := do
  let parsed ← .ofExcept (parse_node_id node.node_id)
  let value ← Tx.get (delete_guard_key (of_namespace node.database node.ns).data node.entity_type
    parsed.to_bytes)
  pure value.isSome

/-- Writes the rows of an edge. -/
def set_edge_rows (keys : EdgeKeys) (edge_bytes : Cell) : Tx Unit := do
  Tx.set keys.forward_key edge_bytes
  Tx.set keys.meta_key edge_bytes
  Tx.set keys.reverse_key edge_bytes
  match keys.reverse_direction_keys with
  | some (rev_forward, rev_reverse) => do
    Tx.set rev_forward edge_bytes
    Tx.set rev_reverse edge_bytes
  | none => pure ()

/-- Removes the rows of an edge. -/
def clear_edge_rows (keys : EdgeKeys) : Tx Unit := do
  Tx.clear keys.forward_key
  Tx.clear keys.meta_key
  Tx.clear keys.reverse_key
  match keys.reverse_direction_keys with
  | some (rev_forward, rev_reverse) => do
    Tx.clear rev_forward
    Tx.clear rev_reverse
  | none => pure ()

/-- Appends the accumulated operations as one entry. -/
def cdc_flush (self : Store) (database ns : String) (cdc_now : Int) (operations : List CdcOperation) :
    Tx Unit :=
  if operations.isEmpty then pure ()
  else
    Tx.append (of_namespace database ns).cdc.pfx
      (encode_cbor_entry ⟨self.site_id, cdc_now, operations⟩)

/-- The checks of the write transaction of `create_edge`: neither end is being
deleted, both are there, and the source belongs to this site. -/
def check_endpoints (self : Store) (source target : NodeRef) : Tx Unit := do
  if ← node_delete_guard_exists_in_txn source then
    .fail (.VersionConflict source.entity_type source.node_id)
  else if ← node_delete_guard_exists_in_txn target then
    .fail (.VersionConflict target.entity_type target.node_id)
  else
    match ← read_node_locality_in_txn source with
    | none => .fail (.SourceNotFound source.entity_type source.node_id)
    | some source_locality => do
      .ofExcept (enforce_source_ownership self source.entity_type source.node_id source_locality)
      match ← read_node_locality_in_txn target with
      | none => .fail (.TargetNotFound target.entity_type target.node_id)
      | some _ => pure ()

/-- `returned_at` is the time in the result, which is not the stored one. -/
def create_edge (self : Store) (database ns : String) (source target : NodeRef) (label : String)
    (properties : Properties) (clock : Clock) (returned_at : Int) : Proc StoredEdge := do
  let schema ← .ofExcept (lookup_schema self source)
  let direction ← .ofExcept (validate_edge_type schema label target.entity_type)
  let sort_key_value := sort_key_for_label (some schema) label properties
  let edge_id ← .input
  let keys ← .ofExcept (compute_edge_keys (of_namespace database ns) source target label
    sort_key_value (direction = .Bidirectional))
  let edge_data : EdgeData :=
    ⟨edge_id.to_string, properties, clock.now, some source, some target, some label⟩
  .commit (do
    check_endpoints self source target
    set_edge_rows keys (encode_cbor_edge edge_data)
    cdc_flush self database ns clock.cdc_now
      [.EdgeCreate source.entity_type source.node_id target.entity_type target.node_id label
        edge_id.to_string properties])
  pure ⟨edge_id.to_string, source, target, label, properties, returned_at⟩

def delete_edge (self : Store) (database ns : String) (source target : NodeRef) (label : String)
    (clock : Clock) : Proc Bool := do
  let source_node ← get_source source
  .ofExcept (enforce_source_ownership self source.entity_type source.node_id source_node.locality)
  let schema := self.get_schema source.database source.ns source.entity_type
  match ← find_edge_data_by_endpoints database ns source target label with
  | none => pure false
  | some edge_data => do
    let keys ← .ofExcept (compute_edge_keys (of_namespace database ns) source target label
      (sort_key_for_label schema label edge_data.properties) (is_bidirectional schema label))
    match ← .read keys.forward_key with
    | none => pure false
    | some _ => do
      .commit (do
        clear_edge_rows keys
        cdc_flush self database ns clock.cdc_now
          [.EdgeDelete source.entity_type source.node_id target.entity_type target.node_id label])
      pure true

/-- Applies a replicated creation. An edge that is already there is left alone. -/
def apply_replica_edge_create (self : Store) (database ns : String) (source target : NodeRef)
    (label edge_id : String) (properties : Properties) (event_timestamp : Int) (origin_site : String) :
    Proc Bool := do
  let actor_site ← .ofExcept (parse_site_id origin_site "origin_site")
  let source_node ← get_source source
  let _ ← get_target target
  let schema ← .ofExcept (lookup_schema self source)
  let direction ← .ofExcept (validate_edge_type schema label target.entity_type)
  if ownership_for_label (some schema) label = .SourceSite ∧ source_node.locality ≠ actor_site ∧
      event_timestamp ≤ source_node.updated_at then pure false
  else do
    let keys ← .ofExcept (compute_edge_keys (of_namespace database ns) source target label
      (sort_key_for_label (some schema) label properties) (direction = .Bidirectional))
    match ← .read keys.forward_key with
    | some _ => pure false
    | none => do
      let edge_data : EdgeData :=
        ⟨edge_id, properties, event_timestamp, some source, some target, some label⟩
      .commit (set_edge_rows keys (encode_cbor_edge edge_data))
      pure true

/-- Applies a replicated deletion. -/
def apply_replica_edge_delete (self : Store) (database ns : String) (source target : NodeRef)
    (label : String) (event_timestamp : Int) (origin_site : String) : Proc Bool := do
  let actor_site ← .ofExcept (parse_site_id origin_site "origin_site")
  let source_node ← get_source source
  let schema := self.get_schema source.database source.ns source.entity_type
  if ownership_for_label schema label = .SourceSite ∧ source_node.locality ≠ actor_site ∧
      event_timestamp ≤ source_node.updated_at then pure false
  else do
    match ← find_edge_data_by_endpoints database ns source target label with
    | none => pure false
    | some edge_data => do
      let keys ← .ofExcept (compute_edge_keys (of_namespace database ns) source target label
        (sort_key_for_label schema label edge_data.properties) (is_bidirectional schema label))
      match ← .read keys.forward_key with
      | none => pure false
      | some _ => do
        .commit (clear_edge_rows keys)
        pure true

def CASCADE_FETCH_LIMIT : Nat := 2048

def CASCADE_TX_EDGE_LIMIT : Nat := 256

/-- An edge that a cascade is about to remove. -/
structure PlannedEdge where
  keys : EdgeKeys
  source : NodeRef
  target : NodeRef
  label : String

/-- By what a cascade tells edges apart. -/
def dedupe_key (edge : StoredEdge) : String :=
  edge.edge_id ++ "|" ++ edge.source.entity_type ++ "|" ++ edge.source.node_id ++ "|" ++ edge.label ++ "|" ++
    edge.target.entity_type ++ "|" ++ edge.target.node_id ++ "|" ++ toString edge.created_at

/-- Resolves the keys of the listed edges, each one once, until enough are
planned. -/
def plan_edges (self : Store) : List StoredEdge → (seen : List String) → (planned : List PlannedEdge) →
    Proc (List PlannedEdge)
  | [], _, planned => pure planned
  | edge :: rest, seen, planned =>
    if dedupe_key edge ∈ seen then plan_edges self rest seen planned
    else do
      let seen := dedupe_key edge :: seen
      let schema := self.get_schema edge.source.database edge.source.ns edge.source.entity_type
      match ← find_edge_data_by_endpoints edge.source.database edge.source.ns edge.source edge.target
          edge.label with
      | none => plan_edges self rest seen planned
      | some edge_data => do
        let keys ← .ofExcept (compute_edge_keys (of_namespace edge.source.database edge.source.ns)
          edge.source edge.target edge.label (sort_key_for_label schema edge.label edge_data.properties)
          (is_bidirectional schema edge.label))
        let planned := planned ++ [⟨keys, edge.source, edge.target, edge.label⟩]
        if CASCADE_TX_EDGE_LIMIT ≤ planned.length then pure planned
        else plan_edges self rest seen planned

/-- The write transaction of one round of a cascade. -/
def cascade_txn (self : Store) (database ns : String) (emit_cdc : Bool) (cdc_now : Int)
    (planned : List PlannedEdge) : Tx Unit := do
  Tx.forEach planned fun edge => clear_edge_rows edge.keys
  if emit_cdc then
    cdc_flush self database ns cdc_now (planned.map fun edge =>
      .EdgeDelete edge.source.entity_type edge.source.node_id edge.target.entity_type edge.target.node_id
        edge.label)
  else pure ()

/-- The loop of `delete_edges_for_node_internal`, given up after `rounds` rounds. -/
def cascade (self : Store) (database ns entity_type node_id : String) (emit_cdc : Bool) :
    (rounds : Nat) → (total_deleted : Nat) → Proc Nat
  | 0, _ => .fail (.Internal "cascade has not ended")
  | rounds + 1, total_deleted => do
    let outgoing ← list_edges database ns entity_type node_id none CASCADE_FETCH_LIMIT
    let incoming ← list_incoming_edges database ns entity_type node_id none CASCADE_FETCH_LIMIT
    let candidates := outgoing ++ incoming
    if candidates.isEmpty then pure total_deleted
    else do
      let planned ← plan_edges self candidates [] []
      if planned.isEmpty then
        .fail (.Internal "Unable to resolve edge keys during node cascade delete")
      else do
        .commit (cascade_txn self database ns emit_cdc (self.cascade_clock rounds) planned)
        cascade self database ns entity_type node_id emit_cdc rounds (total_deleted + planned.length)

/-- Removes all edges of a node, in rounds. -/
def delete_edges_for_node_internal (self : Store) (database ns entity_type node_id : String)
    (emit_cdc : Bool) : Proc Nat :=
  cascade self database ns entity_type node_id emit_cdc (self.cascade_rounds + 1) 0

def delete_edges_for_node (self : Store) (database ns entity_type node_id : String) : Proc Nat :=
  delete_edges_for_node_internal self database ns entity_type node_id true

def delete_edges_for_node_replica (self : Store) (database ns entity_type node_id : String) : Proc Nat :=
  delete_edges_for_node_internal self database ns entity_type node_id false

open List pelago_core.encoding.TupleBuilder
open pelago_storage.Subspace (of_namespace)

/-- A row of the edges of a namespace. -/
def edgeRow (database ns : String) (marker : UInt8) (rest : Bytes) : Bytes :=
  (Subspace.of_namespace database ns).edge.pfx ++ marker :: rest

theorem edgeKey_edgeRow (database ns : String) (marker : UInt8) (rest : Bytes) :
    EdgeKey (edgeRow database ns marker rest) :=
  ⟨database, ns, _, rfl⟩

theorem edgeRow_inj {database ns database' ns' : String} {marker marker' : UInt8} {rest rest' : Bytes}
    (h : edgeRow database ns marker rest = edgeRow database' ns' marker' rest') :
    database = database' ∧ ns = ns' ∧ marker = marker' ∧ rest = rest' := by
  obtain ⟨hdatabase, hns, htail⟩ := subspace_append_inj h
  obtain ⟨_, hrest⟩ := cons.inj (append_cancel_left htail)
  exact ⟨hdatabase, hns, cons.inj hrest⟩

/-- The other end of an edge as it stands in a key. -/
def endpoint (node : NodeRef) : Bytes :=
  element node.database ++ (element node.ns ++ (element node.entity_type ++ element node.node_id))

theorem endpoint_append_inj {node node' : NodeRef} {x y : Bytes} (hx : x.head? ≠ some 0xFF)
    (hy : y.head? ≠ some 0xFF) (h : endpoint node ++ x = endpoint node' ++ y) : node = node' ∧ x = y := by
  simp only [endpoint, append_assoc] at h
  obtain ⟨hdatabase, h⟩ := element_append_inj (element_head _ _) (element_head _ _) h
  obtain ⟨hns, h⟩ := element_append_inj (element_head _ _) (element_head _ _) h
  obtain ⟨htype, h⟩ := element_append_inj (element_head _ _) (element_head _ _) h
  obtain ⟨hid, hrest⟩ := element_append_inj hx hy h
  cases node
  simp_all

theorem endpoint_head (node : NodeRef) (x : Bytes) : (endpoint node ++ x).head? ≠ some 0xFF := by
  simp [endpoint, element]

section Layout

variable (database ns : String)

theorem outgoing_start_eq (marker : UInt8) (entity_type node_id : String) :
    (outgoing_start (of_namespace database ns).edge marker entity_type node_id).build =
      edgeRow database ns marker (element entity_type ++ element node_id) := by
  simp [outgoing_start, edgeRow, Subspace.pack, build, add_string, add_raw_bytes, add_marker, new, element]

theorem outgoing_label_start_eq (marker : UInt8) (entity_type node_id label : String) :
    ((outgoing_start (of_namespace database ns).edge marker entity_type node_id).add_string label).build =
      edgeRow database ns marker (element entity_type ++ (element node_id ++ element label)) := by
  simp [outgoing_start, edgeRow, Subspace.pack, build, add_string, add_raw_bytes, add_marker, new, element]

theorem outgoing_key_eq (marker : UInt8) (source target : NodeRef) (label : String) (sk : Option Bytes) :
    outgoing_key (of_namespace database ns).edge marker source target label sk =
      edgeRow database ns marker (element source.entity_type ++ (element source.node_id ++
        (element label ++ (sk.getD [] ++ endpoint target)))) := by
  cases sk <;>
  simp [outgoing_key, outgoing_start, edgeRow, Subspace.pack, build, add_string,
    add_raw_bytes, add_marker, new, element, endpoint]

theorem incoming_start_eq (database' ns' entity_type node_id : String) :
    (incoming_start (of_namespace database ns).edge database' ns' entity_type node_id).build =
      edgeRow database ns REVERSE (endpoint ⟨database', ns', entity_type, node_id⟩) := by
  simp [incoming_start, edgeRow, Subspace.pack, build, add_string,
    add_raw_bytes, add_marker, new, element, endpoint]

theorem incoming_label_start_eq (database' ns' entity_type node_id label : String) :
    ((incoming_start (of_namespace database ns).edge database' ns' entity_type node_id).add_string label).build =
      edgeRow database ns REVERSE (endpoint ⟨database', ns', entity_type, node_id⟩ ++ element label) := by
  simp [incoming_start, edgeRow, Subspace.pack, build, add_string,
    add_raw_bytes, add_marker, new, element, endpoint]

theorem incoming_key_eq (source target : NodeRef) (label : String) :
    incoming_key (of_namespace database ns).edge source target label =
      edgeRow database ns REVERSE (endpoint target ++ (element label ++
        (element source.entity_type ++ element source.node_id))) := by
  simp [incoming_key, incoming_start, edgeRow, Subspace.pack, build, add_string,
    add_raw_bytes, add_marker, new, element, endpoint]

end Layout

/-- The sort key as it stands in a key. -/
def sortBytes (sort_key_value : Option Value) : Option Bytes :=
  sort_key_value.bind fun v => if v.is_null then none else some (encodedValue v)

theorem encode_sort_key_eq (sort_key_value : Option Value) :
    encode_sort_key sort_key_value = .ok (sortBytes sort_key_value) := by
  cases sort_key_value with
  | none => rfl
  | some v =>
    unfold encode_sort_key sortBytes
    cases hnull : v.is_null with
    | true => simp [hnull]
    | false => simp [hnull, encode_value_for_index_eq, Except.map]

/-- All rows of an edge. -/
def EdgeKeys.all_keys (keys : EdgeKeys) : List Bytes :=
  [keys.forward_key, keys.meta_key, keys.reverse_key] ++
    match keys.reverse_direction_keys with
    | some (rev_forward, rev_reverse) => [rev_forward, rev_reverse]
    | none => []

/-- An edge in the rows of a namespace. -/
structure EdgeAt where
  database : String
  ns : String
  source : NodeRef
  target : NodeRef
  label : String
  properties : Properties

/-- The rows of an edge, by the schema of its source. -/
def EdgeAt.keys (schema : Option EntitySchema) (e : EdgeAt) : EdgeKeys :=
  let edge_subspace := (Subspace.of_namespace e.database e.ns).edge
  let sk := sortBytes (sort_key_for_label schema e.label e.properties)
  { forward_key := outgoing_key edge_subspace FORWARD e.source e.target e.label sk
    meta_key := outgoing_key edge_subspace FORWARD_META e.source e.target e.label sk
    reverse_key := incoming_key edge_subspace e.source e.target e.label
    reverse_direction_keys :=
      if is_bidirectional schema e.label then
        some (outgoing_key edge_subspace FORWARD e.target e.source e.label sk,
          incoming_key edge_subspace e.target e.source e.label)
      else none }

theorem compute_edge_keys_eq (schema : Option EntitySchema) (e : EdgeAt) :
    compute_edge_keys (of_namespace e.database e.ns) e.source e.target e.label
      (sort_key_for_label schema e.label e.properties) (is_bidirectional schema e.label) = .ok (e.keys schema) := by
  unfold compute_edge_keys
  rw [encode_sort_key_eq]
  rfl

section Rows

variable {schema : Option EntitySchema} {e : EdgeAt} {k : Bytes}

/-- The other direction of an edge. -/
def EdgeAt.flip (e : EdgeAt) : EdgeAt := { e with source := e.target, target := e.source }

theorem mem_all_keys : k ∈ (e.keys schema).all_keys ↔
    k = (e.keys schema).forward_key ∨ k = (e.keys schema).meta_key ∨ k = (e.keys schema).reverse_key ∨
      is_bidirectional schema e.label = true ∧
        (k = (e.flip.keys schema).forward_key ∨ k = (e.flip.keys schema).reverse_key) := by
  unfold EdgeKeys.all_keys
  cases hdirection : is_bidirectional schema e.label <;>
    simp [EdgeAt.keys, EdgeAt.flip, hdirection]

theorem forward_key_eq : (e.keys schema).forward_key =
    edgeRow e.database e.ns FORWARD (element e.source.entity_type ++ (element e.source.node_id ++
      (element e.label ++ ((sortBytes (sort_key_for_label schema e.label e.properties)).getD [] ++
        endpoint e.target)))) :=
  outgoing_key_eq ..

theorem meta_key_eq : (e.keys schema).meta_key =
    edgeRow e.database e.ns FORWARD_META (element e.source.entity_type ++ (element e.source.node_id ++
      (element e.label ++ ((sortBytes (sort_key_for_label schema e.label e.properties)).getD [] ++
        endpoint e.target)))) :=
  outgoing_key_eq ..

theorem reverse_key_eq : (e.keys schema).reverse_key =
    edgeRow e.database e.ns REVERSE (endpoint e.target ++ (element e.label ++
      (element e.source.entity_type ++ element e.source.node_id))) :=
  incoming_key_eq ..

/-- All rows of an edge lie in its namespace. -/
theorem exists_edgeRow_of_mem_all_keys (h : k ∈ (e.keys schema).all_keys) :
    ∃ marker rest, k = edgeRow e.database e.ns marker rest := by
  obtain rfl | rfl | rfl | ⟨_, rfl | rfl⟩ := mem_all_keys.mp h
  · exact ⟨_, _, forward_key_eq⟩
  · exact ⟨_, _, meta_key_eq⟩
  · exact ⟨_, _, reverse_key_eq⟩
  · exact ⟨_, _, forward_key_eq⟩
  · exact ⟨_, _, reverse_key_eq⟩

theorem edgeKey_of_mem_all_keys (h : k ∈ (e.keys schema).all_keys) : EdgeKey k := by
  obtain ⟨marker, _, rfl⟩ := exists_edgeRow_of_mem_all_keys h
  exact edgeKey_edgeRow ..

end Rows

end pelago_storage.edge
