import Pelago.Storage.Node

open bytes kv pelago_core pelago_core.encoding
open pelago_storage.index pelago_storage.term_index

namespace pelago_storage.node

open Subspace (of_namespace)

/-- The index part of a node transaction: entries to remove, entries to write,
then postings and counters. A create has nothing to remove and a delete nothing
to write. -/
def change_index_rows (subspace : Subspace) (entity_type : String)
    (removals additions : List IndexEntry) (term_changes : TermPostingChanges) (n_docs_delta : Int) :
    Tx Unit := do
  Tx.forEach removals fun entry => Tx.clear entry.key
  Tx.forEach additions write_index_entry
  apply_term_posting_changes subspace entity_type term_changes n_docs_delta

/-- The write transaction of `create_node`. -/
def create_txn (self : NodeStore) (database ns entity_type : String) (properties : Properties)
    (node_id : NodeId) (index_entries : List IndexEntry) (term_additions : List TermPosting)
    (clock : Clock) : Tx Unit := do
  let subspace := of_namespace database ns
  Tx.set (data_key subspace.data entity_type node_id.to_bytes)
    (encode_cbor ⟨properties, node_id.site, clock.now, clock.now⟩)
  change_index_rows subspace entity_type [] index_entries ⟨term_additions, []⟩ 1
  cdc_flush self database ns clock
    [.NodeCreate entity_type node_id.to_string properties self.site_id]

/-- The check of one property before a node is created. -/
def check_new_value (database ns entity_type : String) (properties : Properties)
    (row : String × PropertyDef) : Proc Unit :=
  if row.2.index = .unique then
    match properties.get row.1 with
    | some value => do
      match ← check_unique_constraint database ns entity_type row.1 value with
      | some _ => .fail (.UniqueConstraintViolation entity_type row.1 value)
      | none => pure ()
    | none => pure ()
  else pure ()

def create_node (self : NodeStore) (database ns entity_type : String) (properties : Properties)
    (clock : Clock) : Proc StoredNode := do
  let schema ← .ofExcept (lookup_schema self database ns entity_type)
  let properties := apply_defaults schema properties
  .ofExcept (validate_properties entity_type schema properties)
  Proc.forEach schema.properties.rows (check_new_value database ns entity_type properties)
  let node_id ← .input
  let subspace := of_namespace database ns
  let index_entries ← .ofExcept
    (compute_index_entries subspace entity_type node_id.to_bytes schema properties)
  let term_additions ← .ofExcept
    (compute_term_postings subspace entity_type node_id.to_bytes properties)
  .commit (create_txn self database ns entity_type properties node_id index_entries term_additions clock)
  pure ⟨node_id.to_string, entity_type, properties, node_id.site, clock.now, clock.now⟩

/-- The values of unique properties that an update changes. A value counts as
unchanged when it equals the old one. -/
def unique_constraints_to_check (schema : EntitySchema) (old_properties merged_properties : Properties) :
    List (String × Value) :=
  schema.properties.rows.filterMap fun (prop_name, prop_def) =>
    if prop_def.index ≠ .unique then none
    else
      match merged_properties.get prop_name with
      | none => none
      | some new_value =>
        if new_value.is_null then none
        else if (old_properties.get prop_name).any (fun old => old.eq new_value) then none
        else some (prop_name, new_value)

/-- The write transaction of `update_node`. -/
def update_txn (self : NodeStore) (database ns entity_type node_id : String) (node_id_bytes : Bytes)
    (unique : List (String × Value)) (removals additions : List IndexEntry)
    (term_changes : TermPostingChanges) (updated_data : NodeData)
    (new_properties old_properties : Properties) (clock : Clock) : Tx Unit := do
  let subspace := of_namespace database ns
  Tx.forEach unique fun (property, value) =>
    check_unique_constraint_in_txn database ns entity_type property value node_id_bytes
  change_index_rows subspace entity_type removals additions term_changes 0
  Tx.set (data_key subspace.data entity_type node_id_bytes) (encode_cbor updated_data)
  cdc_flush self database ns clock [.NodeUpdate entity_type node_id new_properties old_properties]

def update_node (self : NodeStore) (database ns entity_type node_id : String)
    (new_properties : Properties) (clock : Clock) : Proc StoredNode := do
  let schema ← .ofExcept (lookup_schema self database ns entity_type)
  let parsed_id ← .ofExcept (parse_node_id node_id)
  let node_id_bytes := parsed_id.to_bytes
  let subspace := of_namespace database ns
  match ← .read (data_key subspace.data entity_type node_id_bytes) with
  | none => .fail (.NodeNotFound entity_type node_id)
  | some existing_bytes => do
    let existing_data ← .ofExcept (decode_cbor existing_bytes)
    .ofExcept (enforce_local_ownership self entity_type node_id existing_data.locality)
    let old_properties := existing_data.properties
    let merged_properties := old_properties.overlay new_properties
    .ofExcept (validate_properties entity_type schema merged_properties)
    let unique := unique_constraints_to_check schema old_properties merged_properties
    let removals ← .ofExcept
      (compute_index_removals subspace entity_type node_id_bytes schema old_properties merged_properties)
    let additions ← .ofExcept
      (compute_index_entries subspace entity_type node_id_bytes schema merged_properties)
    let term_changes ← .ofExcept
      (compute_term_posting_changes subspace entity_type node_id_bytes old_properties merged_properties)
    let updated_data : NodeData :=
      ⟨merged_properties, existing_data.locality, existing_data.created_at, clock.now⟩
    .commit (update_txn self database ns entity_type node_id node_id_bytes unique removals additions
      term_changes updated_data new_properties old_properties clock)
    pure ⟨node_id, entity_type, merged_properties, existing_data.locality, existing_data.created_at,
      clock.now⟩

/-- The write transaction of `delete_node`. -/
def delete_txn (self : NodeStore) (database ns entity_type node_id : String) (node_id_bytes : Bytes)
    (removals : List IndexEntry) (term_removals : List TermPosting) (clock : Clock) : Tx Unit := do
  let subspace := of_namespace database ns
  Tx.clear (data_key subspace.data entity_type node_id_bytes)
  Tx.set (delete_guard_key subspace.data entity_type node_id_bytes) (.raw [0x31])
  change_index_rows subspace entity_type removals [] ⟨[], term_removals⟩ (-1)
  cdc_flush self database ns clock [.NodeDelete entity_type node_id]

def delete_node (self : NodeStore) (database ns entity_type node_id : String) (clock : Clock) :
    Proc Bool := do
  let schema ← .ofExcept (lookup_schema self database ns entity_type)
  let parsed_id ← .ofExcept (parse_node_id node_id)
  let node_id_bytes := parsed_id.to_bytes
  let subspace := of_namespace database ns
  match ← .read (data_key subspace.data entity_type node_id_bytes) with
  | none => pure false
  | some existing_bytes => do
    let existing_data ← .ofExcept (decode_cbor existing_bytes)
    .ofExcept (enforce_local_ownership self entity_type node_id existing_data.locality)
    let removals ← .ofExcept
      (compute_index_entries subspace entity_type node_id_bytes schema existing_data.properties)
    let term_removals ← .ofExcept
      (compute_term_postings subspace entity_type node_id_bytes existing_data.properties)
    .commit (delete_txn self database ns entity_type node_id node_id_bytes removals term_removals clock)
    let _ ← self.edge_store.delete_edges_for_node_internal database ns entity_type node_id true
    .commit (Tx.clear (delete_guard_key subspace.data entity_type node_id_bytes))
    pure true

/-- The write transaction of `transfer_ownership`. -/
def transfer_txn (self : NodeStore) (database ns entity_type node_id : String) (node_id_bytes : Bytes)
    (node_data : NodeData) (previous_site_id target_site_id : UInt8) (clock : Clock) : Tx Unit := do
  let subspace := of_namespace database ns
  Tx.set (data_key subspace.data entity_type node_id_bytes) (encode_cbor node_data)
  cdc_flush self database ns clock [.OwnershipTransfer entity_type node_id
    (Nat.repr previous_site_id.toNat) (Nat.repr target_site_id.toNat)]

def transfer_ownership (self : NodeStore) (database ns entity_type node_id : String)
    (target_site_id : UInt8) (clock : Clock) : Proc (Bool × UInt8 × UInt8) := do
  let parsed_id ← .ofExcept (parse_node_id node_id)
  let node_id_bytes := parsed_id.to_bytes
  let subspace := of_namespace database ns
  match ← .read (data_key subspace.data entity_type node_id_bytes) with
  | none => .fail (.NodeNotFound entity_type node_id)
  | some existing_bytes => do
    let existing_data ← .ofExcept (decode_cbor existing_bytes)
    let previous_site_id := existing_data.locality
    .ofExcept (enforce_local_ownership self entity_type node_id previous_site_id)
    if previous_site_id = target_site_id then pure (false, previous_site_id, target_site_id)
    else do
      let node_data := { existing_data with locality := target_site_id, updated_at := clock.now }
      .commit (transfer_txn self database ns entity_type node_id node_id_bytes node_data
        previous_site_id target_site_id clock)
      pure (true, previous_site_id, target_site_id)

/-- Applies a replicated creation. A record that is already there is left
alone; the result tells whether it is the same one. -/
def apply_replica_node_create (self : NodeStore) (database ns entity_type node_id : String)
    (properties : Properties) (home_site : String) (event_timestamp : Int) (origin_site : String) :
    Proc Bool := do
  if home_site ≠ origin_site then .fail (.VersionConflict entity_type node_id)
  else do
    let schema ← .ofExcept (lookup_schema self database ns entity_type)
    .ofExcept (validate_properties entity_type schema properties)
    let parsed_id ← .ofExcept (parse_node_id node_id)
    let node_id_bytes := parsed_id.to_bytes
    let home_site_id ← .ofExcept (parse_site_id home_site "home_site")
    let subspace := Subspace.of_namespace database ns
    match ← .read (data_key subspace.data entity_type node_id_bytes) with
    | some existing => do
      let existing_data ← .ofExcept (decode_cbor existing)
      pure (decide (existing_data.locality = home_site_id) && existing_data.properties.eq properties)
    | none => do
      let index_entries ← .ofExcept
        (compute_index_entries subspace entity_type node_id_bytes schema properties)
      let term_additions ← .ofExcept
        (compute_term_postings subspace entity_type node_id_bytes properties)
      .commit (do
        Tx.set (data_key subspace.data entity_type node_id_bytes)
          (encode_cbor ⟨properties, home_site_id, event_timestamp, event_timestamp⟩)
        change_index_rows subspace entity_type [] index_entries ⟨term_additions, []⟩ 1)
      pure true

/-- Applies a replicated update. The owner wins; an update by another site, or
one whose old state differs, counts only when it is newer. -/
def apply_replica_node_update (self : NodeStore) (database ns entity_type node_id : String)
    (changed_properties old_properties : Properties) (event_timestamp : Int) (origin_site : String) :
    Proc Bool := do
  let actor_site ← .ofExcept (parse_site_id origin_site "origin_site")
  let schema ← .ofExcept (lookup_schema self database ns entity_type)
  let parsed_id ← .ofExcept (parse_node_id node_id)
  let node_id_bytes := parsed_id.to_bytes
  let subspace := Subspace.of_namespace database ns
  match ← .read (data_key subspace.data entity_type node_id_bytes) with
  | none => .fail (.NodeNotFound entity_type node_id)
  | some existing_bytes => do
    let existing_data ← .ofExcept (decode_cbor existing_bytes)
    let ownership_mismatch := decide (existing_data.locality ≠ actor_site)
    if ownership_mismatch ∧ event_timestamp ≤ existing_data.updated_at then pure false
    else if ¬ existing_data.properties.eq old_properties ∧ event_timestamp ≤ existing_data.updated_at then
      pure false
    else do
      let merged := existing_data.properties.overlay changed_properties
      .ofExcept (validate_properties entity_type schema merged)
      let removals ← .ofExcept
        (compute_index_removals subspace entity_type node_id_bytes schema existing_data.properties merged)
      let additions ← .ofExcept
        (compute_index_entries subspace entity_type node_id_bytes schema merged)
      let term_changes ← .ofExcept
        (compute_term_posting_changes subspace entity_type node_id_bytes existing_data.properties merged)
      let updated_data : NodeData :=
        ⟨merged, if ownership_mismatch then actor_site else existing_data.locality,
          existing_data.created_at, max existing_data.updated_at event_timestamp⟩
      .commit (do
        change_index_rows subspace entity_type removals additions term_changes 0
        Tx.set (data_key subspace.data entity_type node_id_bytes) (encode_cbor updated_data))
      pure true

/-- Applies a replicated deletion. -/
def apply_replica_node_delete (self : NodeStore) (database ns entity_type node_id : String)
    (event_timestamp : Int) (origin_site : String) : Proc Bool := do
  let actor_site ← .ofExcept (parse_site_id origin_site "origin_site")
  let schema ← .ofExcept (lookup_schema self database ns entity_type)
  let parsed_id ← .ofExcept (parse_node_id node_id)
  let node_id_bytes := parsed_id.to_bytes
  let subspace := Subspace.of_namespace database ns
  match ← .read (data_key subspace.data entity_type node_id_bytes) with
  | none => pure false
  | some existing_bytes => do
    let existing_data ← .ofExcept (decode_cbor existing_bytes)
    if existing_data.locality ≠ actor_site ∧ event_timestamp ≤ existing_data.updated_at then pure false
    else do
      let removals ← .ofExcept
        (compute_index_entries subspace entity_type node_id_bytes schema existing_data.properties)
      let term_removals ← .ofExcept
        (compute_term_postings subspace entity_type node_id_bytes existing_data.properties)
      .commit (do
        Tx.clear (data_key subspace.data entity_type node_id_bytes)
        change_index_rows subspace entity_type removals [] ⟨[], term_removals⟩ (-1))
      let _ ← self.edge_store.delete_edges_for_node_internal database ns entity_type node_id false
      pure true

/-- Applies a replicated ownership transfer, which only the previous owner may
make. -/
def apply_replica_ownership_transfer (database ns entity_type node_id : String)
    (previous_site_id current_site_id : String) (event_timestamp : Int) (origin_site : String) :
    Proc Bool := do
  let actor_site ← .ofExcept (parse_site_id origin_site "origin_site")
  let previous ← .ofExcept (parse_site_id previous_site_id "previous_site_id")
  let current ← .ofExcept (parse_site_id current_site_id "current_site_id")
  if actor_site ≠ previous then pure false
  else do
    let parsed_id ← .ofExcept (parse_node_id node_id)
    let node_id_bytes := parsed_id.to_bytes
    let subspace := Subspace.of_namespace database ns
    match ← .read (data_key subspace.data entity_type node_id_bytes) with
    | none => .fail (.NodeNotFound entity_type node_id)
    | some existing_bytes => do
      let existing_data ← .ofExcept (decode_cbor existing_bytes)
      if existing_data.locality ≠ previous ∧ existing_data.updated_at > event_timestamp then pure false
      else do
        let node_data := { existing_data with locality := current, updated_at := event_timestamp }
        .commit (Tx.set (data_key subspace.data entity_type node_id_bytes) (encode_cbor node_data))
        pure true

end pelago_storage.node
