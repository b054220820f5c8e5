import Pelago.Api.SchemaService
import Pelago.Storage.SchemaRegistry.History

open kv pelago_core pelago_storage pelago_storage.schema
open pelago_api.schema_service

namespace pelago_api.replication_service

structure SchemaRegisterOp where
  entity_type : String
  version : UInt32
  schema : Option pelago_proto.EntitySchema
  deriving DecidableEq

/-- An operation on the wire. Those of nodes and edges are sent field by field and stand for
themselves. -/
inductive OperationProto where
  | data (op : CdcOperation)
  | SchemaRegister (op : SchemaRegisterOp)
  deriving DecidableEq

def cdc_op_to_proto : OperationDocument → OperationProto
  | .data op => .data op
  | .SchemaRegister entity_type version schema =>
    .SchemaRegister ⟨entity_type, version, some (core_to_proto_schema schema)⟩

/-- What a row of the log is sent as. -/
def sent (row : serde.Data) : Option (List OperationProto) :=
  (entry.read row).map fun d => d.operations.map cdc_op_to_proto

end pelago_api.replication_service

namespace pelago_server.replicator

open pelago_api.replication_service

/-- The row of the log that the registration of a schema writes. -/
def registration_row (site_id : String) (timestamp : Int) (schema : SchemaDocument) (version : UInt32) : serde.Data :=
  entry.write ⟨site_id, timestamp, none, [.SchemaRegister schema.name version { schema with version }]⟩

variable (database ns : String) (is_alphanumeric : Char → Bool)

/-- `apply_replication_op` for the registration of a schema. -/
def apply_schema_register (op : SchemaRegisterOp) (remote_site_id : String) (rows : Rows) :
    Except PelagoError (Option OperationDocument) × Rows :=
  match op.schema with
  | none => (.error (.SchemaValidation "replicated schema register missing schema payload"), rows)
  | some proto_schema =>
    match proto_to_core_schema .AutoByTypeV1 proto_schema with
    | .error e => (.error (.SchemaValidation ("invalid replicated schema payload: " ++ e.message)), rows)
    | .ok schema =>
      if schema.name ≠ op.entity_type then
        (.error (.SchemaValidation ("schema payload name '" ++ schema.name ++ "' does not match op entity_type '" ++
          op.entity_type ++ "'")), rows)
      else
        let (applied, rows) :=
          apply_replica_schema_register database ns is_alphanumeric ⟨schema, op.version, remote_site_id⟩ rows
        (applied.map fun applied =>
          if applied then some (.SchemaRegister op.entity_type op.version schema) else none, rows)

section Stored

variable {is_alphanumeric}

private theorem stored_option_idem (x : Option Value) : value.option.stored (value.option.stored x) =
    value.option.stored x := by
  cases x with
  | none => rfl
  | some v => cases v <;> rfl

private theorem mapVal_idem {V : Type} {f : V → V} (h : ∀ v, f (f v) = f v) (m : OrdMap String V) :
    (m.mapVal f).mapVal f = m.mapVal f := by
  refine OrdMap.ext_get fun k => ?_
  simp only [OrdMap.get_mapVal, Option.map_map]
  congr 1
  exact funext h

private theorem propertyDef_stored_idem (d : PropertyDef) :
    PropertyDef.stored (PropertyDef.stored d) = PropertyDef.stored d := by
  simp [PropertyDef.stored, stored_option_idem]

/-- What has been stored once is stored as it is. -/
theorem schema_stored_idem (d : SchemaDocument) : d.stored.stored = d.stored := by
  have hedge : ∀ e : EdgeDefDocument, e.stored.stored = e.stored := by
    simp [EdgeDefDocument.stored, mapVal_idem propertyDef_stored_idem]
  simp [SchemaDocument.stored, mapVal_idem propertyDef_stored_idem, mapVal_idem hedge]

theorem sortKeysSet_stored {d : SchemaDocument} (h : SortKeysSet d) : SortKeysSet d.stored := by
  intro name edge_def hget
  rw [SchemaDocument.stored, OrdMap.get_mapVal, Option.map_eq_some_iff] at hget
  obtain ⟨edge_def, hedge, rfl⟩ := hget
  exact h _ edge_def hedge

theorem checkAll_map {α β : Type} {f : β → Except PelagoError Unit} {g : α → Except PelagoError Unit} {h : α → β}
    (hfg : ∀ x, f (h x) = g x) (xs : List α) : checkAll f (xs.map h) = checkAll g xs := by
  induction xs with
  | nil => rfl
  | cons _ _ ih => rw [List.map_cons, checkAll, checkAll, hfg, ih]

/-- The validation does not look at what storing changes. -/
theorem validate_schema_stored (d : SchemaDocument) :
    validate_schema is_alphanumeric d.stored = validate_schema is_alphanumeric d := by
  have hedge : ∀ row : String × EdgeDefDocument, validate_edge (row.1, row.2.stored) = validate_edge row := by
    rintro ⟨name, edge_def⟩
    have hcontains : ∀ key, (edge_def.properties.mapVal PropertyDef.stored).contains key =
        edge_def.properties.contains key := by
      simp [OrdMap.contains, OrdMap.get_mapVal]
    simp only [validate_edge, EdgeDefDocument.stored, hcontains]
    rfl
  have hproperties : checkAll (fun prop : String × PropertyDef =>
        if prop.1 = "" then .error (.SchemaValidation "Property name cannot be empty") else .ok ())
        (d.properties.mapVal PropertyDef.stored).rows =
      checkAll (fun prop : String × PropertyDef =>
        if prop.1 = "" then .error (.SchemaValidation "Property name cannot be empty") else .ok ())
        d.properties.rows := checkAll_map (fun _ => rfl) _
  have hedges : checkAll validate_edge (d.edges.mapVal .stored).rows =
      checkAll validate_edge d.edges.rows := checkAll_map hedge _
  simp only [validate_schema, SchemaDocument.stored, hproperties, hedges]

end Stored

section Replication

variable {database ns is_alphanumeric} {index_default_mode : pelago_proto.IndexDefaultMode}
  {proto : pelago_proto.EntitySchema} {core : SchemaDocument} {site_id remote_site_id : String}
  {origin origin' replica : Rows} {version previous : UInt32} {jobs : List IndexBackfill}

theorem register_schema_valid
    (h : register_schema database ns is_alphanumeric site_id core origin = .ok (version, origin', jobs)) :
    validate_schema is_alphanumeric core = .ok () ∧ origin' = write_version database ns origin core version := by
  unfold register_schema at h
  simp only [bind, Except.bind, pure, pure] at h
  split at h
  · cases h
  rename_i hvalid
  split at h
  · cases h
  split at h
  · cases h
  obtain ⟨rfl, rfl, _⟩ := h
  exact ⟨hvalid, rfl⟩

theorem sent_registration_row (timestamp : Int) : sent (registration_row site_id timestamp core version) =
    some [.SchemaRegister ⟨core.name, version, some (core_to_proto_schema { core with version }.stored)⟩] := by
  rw [sent, registration_row, entry.read_write]
  rfl

/-- A valid schema of the next version is applied as it was sent. -/
theorem apply_schema_register_next {document : SchemaDocument} (hsort : SortKeysSet document)
    (hvalid : validate_schema is_alphanumeric document = .ok ())
    (hlatest : current_version database ns replica document.name = .ok previous)
    (hnext : version.toNat = previous.toNat + 1)
    (howner : enforce_owner database ns replica remote_site_id = .ok ()) :
    apply_schema_register database ns is_alphanumeric
        ⟨document.name, version, some (core_to_proto_schema document)⟩ remote_site_id replica =
      (.ok (some (.SchemaRegister document.name version { document with version := 1 })),
        write_version database ns replica { document with version := 1 } version) := by
  have hlt : ¬ previous ≥ version := by
    rw [ge_iff_le, UInt32.le_iff_toNat_le]
    omega
  have hsucc : previous + 1 = version := by
    apply UInt32.toNat_inj.mp
    have hbound := version.toNat_lt
    rw [UInt32.toNat_add, hnext, UInt32.toNat_one]
    exact Nat.mod_eq_of_lt (by omega)
  have hvalid' : validate_schema is_alphanumeric { document with version := 1 } = .ok () := hvalid
  have happly : apply_replica_schema_register database ns is_alphanumeric
      ⟨{ document with version := 1 }, version, remote_site_id⟩ replica =
        (.ok true, write_version database ns replica { document with version := 1 } version) := by
    unfold apply_replica_schema_register
    simp [hvalid', howner, hlatest, hlt, if_false, hsucc, ne_eq, not_true_eq_false]
  simp only [apply_schema_register, proto_to_core_schema_of_core hsort, happly, ne_eq, not_true_eq_false, if_false]
  rfl

/-- A schema that was accepted from the wire and registered is the same at the origin and at a
replica: the log row is read back, sent, received and applied, and what is then stored for the
version decodes to the same schema. -/
theorem schema_replicates_faithfully (timestamp : Int)
    (haccepted : proto_to_core_schema index_default_mode proto = .ok core)
    (hregister : register_schema database ns is_alphanumeric site_id core origin = .ok (version, origin', jobs))
    (hlatest : current_version database ns replica core.name = .ok previous)
    (hnext : version.toNat = previous.toNat + 1)
    (howner : enforce_owner database ns replica remote_site_id = .ok ()) :
    ∃ op schema replica' applied,
      sent (registration_row site_id timestamp core version) = some [.SchemaRegister op] ∧
      apply_schema_register database ns is_alphanumeric op remote_site_id replica = (.ok (some applied), replica') ∧
      get_schema_version database ns origin' core.name version = .ok (some schema) ∧
      get_schema_version database ns replica' core.name version = .ok (some schema) := by
  obtain ⟨hvalid, rfl⟩ := register_schema_valid hregister
  obtain ⟨stored, hstored⟩ : ∃ stored, stored = { core with version }.stored := ⟨_, rfl⟩
  have hname : stored.name = core.name := by rw [hstored]; rfl
  have hversion : stored.version = version := by rw [hstored]; rfl
  have hidem : stored.stored = stored := by rw [hstored, schema_stored_idem]
  have hsort : SortKeysSet stored := by
    rw [hstored]
    exact sortKeysSet_stored (sortKeysSet_of_accepted haccepted : SortKeysSet core)
  have hvalid' : validate_schema is_alphanumeric stored = .ok () := by
    rw [hstored, validate_schema_stored]
    exact hvalid
  have hsent : sent (registration_row site_id timestamp core version) =
      some [.SchemaRegister ⟨stored.name, version, some (core_to_proto_schema stored)⟩] := by
    rw [sent_registration_row, hname, hstored]
  refine ⟨_, stored, _, _, hsent, apply_schema_register_next hsort hvalid' (hname ▸ hlatest) hnext howner, ?_, ?_⟩
  · rw [get_schema_version, get_write_version_version, hstored]
    rfl
  · have hget : (write_version database ns replica { stored with version := 1 } version).get
        (versionKey database ns stored.name version) = some (encode_cbor_schema { stored with version }) :=
      get_write_version_version
    rw [get_schema_version, ← hname, hget, ← hversion]
    exact congrArg (fun d => Except.ok (some d)) hidem

end Replication

/-- A schema with an inferred index, defaults that are stored as something else, and an edge
with a sort key. -/
def personProto : pelago_proto.EntitySchema where
  name := "Person"
  version := 0
  properties := .ofList [("born", ⟨5, false, none, some ⟨some (.TimestampValue 7)⟩⟩),
    ("nick", ⟨1, true, some 1, some ⟨some (.NullValue true)⟩⟩)]
  edges := .ofList [("knows", ⟨some ⟨some (.SpecificType "Person")⟩, 2,
    .ofList [("since", ⟨2, false, some 0, none⟩)], "since", 1⟩)]
  schema_meta := none
  created_at := 3
  created_by := "me"

def personCore : SchemaDocument where
  name := "Person"
  version := 1
  properties := .ofList [("born", ⟨.timestamp, false, .range, some (.timestamp 7)⟩),
    ("nick", ⟨.string, true, .unique, some .null⟩)]
  edges := .ofList [("knows", ⟨⟨.Specific "Person", .Bidirectional, some "since", .SourceSite⟩,
    .ofList [("since", ⟨.int, false, .none, none⟩)]⟩)]
  schema_meta := {}
  created_at := 3
  created_by := "me"

theorem person_replicates :
    proto_to_core_schema .AutoByTypeV1 personProto = .ok personCore ∧
    ∃ op schema replica' applied,
      sent (registration_row "1" 5 personCore 1) = some [.SchemaRegister op] ∧
      apply_schema_register "shop" "main" Char.isAlphanum op "1" .empty = (.ok (some applied), replica') ∧
      get_schema_version "shop" "main" (write_version "shop" "main" .empty personCore 1) "Person" 1 =
        .ok (some schema) ∧
      get_schema_version "shop" "main" replica' "Person" 1 = .ok (some schema) := by
  have haccepted : proto_to_core_schema .AutoByTypeV1 personProto = .ok personCore := by decide +kernel
  have hregister : register_schema "shop" "main" Char.isAlphanum "1" personCore .empty =
      .ok (1, write_version "shop" "main" .empty personCore 1, []) := by
    decide +kernel
  exact ⟨haccepted, schema_replicates_faithfully 5 haccepted hregister rfl rfl rfl⟩

end pelago_server.replicator
