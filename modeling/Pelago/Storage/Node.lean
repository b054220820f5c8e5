import Pelago.Storage.Ids
import Pelago.Storage.Index
import Pelago.Storage.TermIndex

open bytes kv pelago_core pelago_core.encoding
open pelago_storage.index pelago_storage.term_index

namespace pelago_storage

/-- Keys of edge rows, in any namespace. -/
def EdgeKey (k : Bytes) : Prop :=
  ∃ database ns rest, k = (Subspace.of_namespace database ns).edge.pfx ++ rest

/-- A namespace without edges. -/
def NoEdges (database ns : String) (db : Db) : Prop :=
  ∀ rest, db.rows.get ((Subspace.of_namespace database ns).edge.pfx ++ rest) = none

/-- The operations on edges that node storage and replication call. The removal
of all edges of a node, with or without change-data-capture entries, writes edge
rows only, and does nothing in a namespace without edges. -/
structure EdgeStore where
  apply_replica_edge_create :
    (database ns : String) → (source target : NodeRef) → (label edge_id : String) →
      (properties : Properties) → (event_timestamp : Int) → (origin_site : String) → Proc Bool
  apply_replica_edge_delete :
    (database ns : String) → (source target : NodeRef) → (label : String) → (event_timestamp : Int) →
      (origin_site : String) → Proc Bool
  delete_edges_for_node_internal :
    (database ns entity_type node_id : String) → (emit_cdc : Bool) → Proc Nat
  confined : ∀ database ns entity_type node_id emit_cdc,
    (delete_edges_for_node_internal database ns entity_type node_id emit_cdc).Confined EdgeKey
  idle : ∀ database ns entity_type node_id emit_cdc {μ : Type}
    (supply : kv.Proc.World Bytes Cell μ → NodeId × kv.Proc.World Bytes Cell μ)
    (w : kv.Proc.World Bytes Cell μ), NoEdges database ns w.db →
    (delete_edges_for_node_internal database ns entity_type node_id emit_cdc).run supply w = (.ok 0, w)

/-- No edges at all. -/
def EdgeStore.none : EdgeStore where
  apply_replica_edge_create _ _ _ _ _ _ _ _ _ := pure false
  apply_replica_edge_delete _ _ _ _ _ _ _ := pure false
  delete_edges_for_node_internal _ _ _ _ _ := pure 0
  confined _ _ _ _ _ := trivial
  idle _ _ _ _ _ _ _ _ _ := rfl

/-- Node storage operations. -/
structure NodeStore where
  get_schema : (database ns entity_type : String) → Option EntitySchema
  site_id : String
  edge_store : EdgeStore

/-- The clock readings of one operation: for the record and for the
change-data-capture entry. -/
structure Clock where
  now : Int
  cdc_now : Int

namespace node

def data_key (subspace : Subspace) (entity_type : String) (node_id : Bytes) : Bytes :=
  (subspace.pack.add_string entity_type |>.add_raw_bytes node_id).build

def delete_guard_key (subspace : Subspace) (entity_type : String) (node_id : Bytes) : Bytes :=
  (subspace.pack.add_string "__deleting" |>.add_string entity_type |>.add_raw_bytes node_id).build

/-- `str::parse::<u8>`. -/
def parse_u8 (value : String) : Option UInt8 := (text.parseUnsigned 255 value.toList).map UInt8.ofNat

def local_site_id (self : NodeStore) : Option UInt8 := parse_u8 self.site_id

def parse_site_id (value field : String) : Except PelagoError UInt8 :=
  match parse_u8 value with
  | some site => .ok site
  | none => .error (.InvalidValue field ("'" ++ value ++ "' is not a valid site id"))

def enforce_local_ownership (self : NodeStore) (entity_type node_id : String) (owner_site : UInt8) :
    Except PelagoError Unit :=
  match local_site_id self with
  | some local_site =>
    if local_site ≠ owner_site then .error (.VersionConflict entity_type node_id) else .ok ()
  | none => .ok ()

def lookup_schema (self : NodeStore) (database ns entity_type : String) :
    Except PelagoError EntitySchema :=
  match self.get_schema database ns entity_type with
  | some schema => .ok schema
  | none => .error (.UnregisteredType entity_type)

def parse_node_id (node_id : String) : Except PelagoError NodeId :=
  match NodeId.from_str node_id with
  | some id => .ok id
  | none => .error (.InvalidId node_id)

def validate_properties (entity_type : String) (schema : EntitySchema) (properties : Properties) :
    Except PelagoError Unit := do
  checkAll (fun (prop_name, prop_def) =>
    if prop_def.required then
      match properties.get prop_name with
      | none => .error (.MissingRequired entity_type prop_name)
      | some .null => .error (.MissingRequired entity_type prop_name)
      | some _ => .ok ()
    else .ok ()) schema.properties.rows
  checkAll (fun (prop_name, value) =>
    match schema.properties.get prop_name with
    | some prop_def =>
      if prop_def.property_type.matches value then .ok ()
      else .error (.TypeMismatch prop_name prop_def.property_type.as_str value.type_name)
    | none =>
      match schema.schema_meta.extras_policy with
      | .reject => .error (.ExtraProperty prop_name)
      | .warn => .ok ()
      | .allow => .ok ()) properties.rows

/-- Default values fill in for missing properties; a property set to null is
not missing. -/
def apply_defaults (schema : EntitySchema) (properties : Properties) : Properties :=
  schema.properties.rows.foldl (fun properties (prop_name, prop_def) =>
    if properties.contains prop_name then properties
    else
      match prop_def.default_value with
      | some default => properties.set prop_name default
      | none => properties) properties

/-- A property has its own value or the default of the schema. -/
theorem get_apply_defaults {schema : EntitySchema} {properties : Properties} {field : String} {v : Value}
    (h : (apply_defaults schema properties).get field = some v) : properties.get field = some v ∨
      ∃ prop_def, schema.properties.get field = some prop_def ∧ prop_def.default_value = some v := by
  have hrows : ∀ (rows : List (String × PropertyDef)) (properties : Properties),
      (∀ row ∈ rows, row ∈ schema.properties.rows) →
      (rows.foldl (fun properties (prop_name, prop_def) =>
        if properties.contains prop_name then properties
        else
          match prop_def.default_value with
          | some default => properties.set prop_name default
          | none => properties) properties).get field = some v →
      properties.get field = some v ∨
        ∃ prop_def, schema.properties.get field = some prop_def ∧ prop_def.default_value = some v := by
    intro rows
    induction rows with
    | nil => exact fun _ _ h => .inl h
    | cons row rest ih =>
      intro _ hsub h
      obtain h | h := ih _ (fun r hr => hsub r (List.mem_cons_of_mem _ hr)) h
      · dsimp only at h
        split at h
        · exact .inl h
        split at h
        · rename_i default hdefault
          rw [OrdMap.get_set] at h
          split at h
          · rename_i hfield
            have hdef := schema.properties.get_eq_some_iff_mem.mpr (hsub _ List.mem_cons_self)
            rw [← hfield] at hdef
            exact .inr ⟨row.2, hdef, hdefault.trans h⟩
          · exact .inl h
        · exact .inl h
      · exact .inr h
  exact hrows _ _ (fun _ hr => hr) h

def write_index_entry (entry : IndexEntry) : Tx Unit :=
  match entry.entry_type with
  | .unique =>
    match entry.value_bytes with
    | some value => Tx.set entry.key (.raw value)
    | none => .fail (.Internal "Unique index entry missing value")
  | .equality => Tx.set entry.key (.raw [])
  | .range => Tx.set entry.key (.raw [])

/-- The row of a unique value. -/
def unique_key (database ns entity_type property : String) (encoded_value : Bytes) : Bytes :=
  (entry_base (Subspace.of_namespace database ns).index entity_type property index.markers.UNIQUE
    |>.add_raw_bytes encoded_value).build

/-- The node that holds a unique value, read in a transaction of its own. -/
def check_unique_constraint (database ns entity_type property : String) (value : Value) :
    Proc (Option String) := do
  let encoded_value ← .ofExcept (encode_value_for_index value)
  match ← .read (unique_key database ns entity_type property encoded_value) with
  | some (.raw node_id_bytes) => pure ((NodeId.try_from_slice node_id_bytes).map NodeId.to_string)
  | some _ => pure none
  | none => pure none

/-- Fails when another node holds the value. -/
def check_unique_constraint_in_txn (database ns entity_type property : String) (value : Value)
    (current_node_id : Bytes) : Tx Unit := do
  let encoded_value ← .ofExcept (encode_value_for_index value)
  match ← Tx.get (unique_key database ns entity_type property encoded_value) with
  | some existing =>
    if existing ≠ .raw current_node_id then
      .fail (.UniqueConstraintViolation entity_type property value)
    else pure ()
  | none => pure ()

def get_node (database ns entity_type node_id : String) : Proc (Option StoredNode) := do
  let parsed_id ← .ofExcept (parse_node_id node_id)
  match ← .read (data_key (Subspace.of_namespace database ns).data entity_type parsed_id.to_bytes) with
  | some bytes => do
    let data ← .ofExcept (decode_cbor bytes)
    pure (some ⟨node_id, entity_type, data.properties, data.locality, data.created_at, data.updated_at⟩)
  | none => pure none

/-- Appends the accumulated operations as one entry. -/
def cdc_flush (self : NodeStore) (database ns : String) (clock : Clock)
    (operations : List CdcOperation) : Tx Unit :=
  if operations.isEmpty then pure ()
  else
    Tx.append (Subspace.of_namespace database ns).cdc.pfx
      (encode_cbor_entry ⟨self.site_id, clock.cdc_now, operations⟩)

end node

end pelago_storage
