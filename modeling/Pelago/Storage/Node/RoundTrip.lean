import Pelago.Kv.Crash
import Pelago.Storage.Documents
import Pelago.Storage.Node.PropertyIndex

open bytes kv pelago_core pelago_core.encoding serde

namespace pelago_storage

open Codec Option

theorem storedValue_eq_iff (v : Value) : storedValue v = v ↔ v.isTimestamp = false := by
  cases v <;> simp [storedValue, Value.isTimestamp]

/-- No property holds a timestamp. -/
def NoTimestamps (properties : Properties) : Prop :=
  ∀ field v, properties.get field = some v → v.isTimestamp = false

theorem storedProperties_eq_iff (properties : Properties) :
    storedProperties properties = properties ↔ NoTimestamps properties := by
  simp [storedProperties, OrdMap.mapVal_eq_self_iff, storedValue_eq_iff, NoTimestamps]

section Durable

/-- The default comes back from a stored schema. -/
def PropertyDef.Durable (d : PropertyDef) : Prop :=
  ∀ v, d.default_value = some v → v ≠ .null ∧ v.isTimestamp = false

theorem PropertyDef.stored_eq_iff (d : PropertyDef) : stored d = d ↔ Durable d := by
  obtain ⟨property_type, _, _, default_value⟩ := d
  cases default_value with
  | none => simp [stored, Durable, option]
  | some v => cases v <;> simp [stored, Durable, option, value, writeValue, storedValue,
      Value.isTimestamp]

def EdgeDefDocument.Durable (d : EdgeDefDocument) : Prop :=
  ∀ field prop_def, d.properties.get field = some prop_def → PropertyDef.Durable prop_def

theorem EdgeDefDocument.stored_eq_iff (d : EdgeDefDocument) : d.stored = d ↔ d.Durable := by
  obtain ⟨edge_def, properties⟩ := d
  simp only [stored, mk.injEq, true_and, OrdMap.mapVal_eq_self_iff,
    PropertyDef.stored_eq_iff, Durable]

/-- All defaults come back from the stored schema. -/
structure SchemaDocument.Durable (d : SchemaDocument) : Prop where
  properties : ∀ field prop_def, d.properties.get field = some prop_def → PropertyDef.Durable prop_def
  edges : ∀ label edge_def, d.edges.get label = some edge_def → edge_def.Durable

theorem SchemaDocument.stored_eq_iff (d : SchemaDocument) : d.stored = d ↔ d.Durable := by
  obtain ⟨name, _, _, _, _, _, created_by⟩ := d
  simp only [stored, mk.injEq, true_and, and_true, OrdMap.mapVal_eq_self_iff,
    PropertyDef.stored_eq_iff, EdgeDefDocument.stored_eq_iff]
  exact ⟨fun h => ⟨h.1, h.2⟩, fun h => ⟨h.properties, h.edges⟩⟩

/-- All values of the operation come back from the stored entry. -/
def OperationDocument.Durable : OperationDocument → Prop
  | .data (.NodeCreate _ _ properties _) => NoTimestamps properties
  | .data (.NodeUpdate _ _ changed_properties old_properties) =>
    NoTimestamps changed_properties ∧ NoTimestamps old_properties
  | .data (.EdgeCreate _ _ _ _ _ _ properties) => NoTimestamps properties
  | .data (.NodeDelete ..) | .data (.EdgeDelete ..) | .data (.OwnershipTransfer ..) => True
  | .SchemaRegister _ _ schema => schema.Durable

theorem OperationDocument.stored_eq_iff (op : OperationDocument) : op.stored = op ↔ op.Durable := by
  cases op with
  | data op => cases op <;> simp [stored, CdcOperation.stored, Durable,
      storedProperties_eq_iff]
  | SchemaRegister =>
    simp [stored, Durable, SchemaDocument.stored_eq_iff]

theorem EntryDocument.stored_eq_iff (d : EntryDocument) : d.stored = d ↔ ∀ op ∈ d.operations, op.Durable := by
  obtain ⟨site, _, _, operations⟩ := d
  simp only [stored, mk.injEq, true_and]
  nth_rewrite 2 [← List.map_id operations]
  simp only [List.map_inj_left, id_eq, OperationDocument.stored_eq_iff]

end Durable

namespace node

/-- All properties of a map pass their checks. -/
theorem validate_properties_eq_ok_iff {entity_type : String} {schema : EntitySchema} {properties : Properties} :
    validate_properties entity_type schema properties = .ok () ↔
      (∀ field prop_def, schema.properties.get field = some prop_def → prop_def.required = true →
        ∃ v, properties.get field = some v ∧ v ≠ .null) ∧
      ∀ field v, properties.get field = some v →
        match schema.properties.get field with
        | some prop_def => prop_def.property_type.matches v = true
        | none => schema.schema_meta.extras_policy ≠ .reject := by
  have hboth : ∀ (a b : Except PelagoError Unit), (do a; b) = .ok () ↔ a = .ok () ∧ b = .ok () := by
    intro a b
    cases a <;> simp [bind, Except.bind]
  unfold validate_properties
  rw [hboth, checkAll_eq_ok, checkAll_eq_ok]
  refine and_congr ⟨fun h _ _ hdef hrequired => ?_, fun h _ hrow => ?_⟩
    ⟨fun h field v hget => ?_, fun h _ hrow => ?_⟩
  · have hrow := h _ (schema.properties.get_eq_some_iff_mem.mp hdef)
    dsimp only at hrow
    rw [if_pos hrequired] at hrow
    split at hrow
    · cases hrow
    · cases hrow
    · rename_i v hnull hget
      exact ⟨v, hget, hnull⟩
  · dsimp only
    split
    · rename_i hrequired
      obtain ⟨v, hget, hnull⟩ := h _ _ (schema.properties.get_eq_some_iff_mem.mpr hrow) hrequired
      rw [hget]
      cases v <;> first | rfl | exact absurd rfl hnull
    · rfl
  · have hrow := h _ (properties.get_eq_some_iff_mem.mp hget)
    cases hdef : schema.properties.get field with
    | some =>
      simp only [hdef] at hrow ⊢
      split at hrow
      · assumption
      · cases hrow
    | none =>
      simp only [hdef] at hrow ⊢
      split at hrow <;> simp_all
  · have hrow' := h _ _ (properties.get_eq_some_iff_mem.mpr hrow)
    dsimp only at hrow' ⊢
    split
    · rename_i prop_def hdef
      rw [hdef] at hrow'
      rw [if_pos hrow']
    · cases hpolicy : schema.schema_meta.extras_policy <;> simp_all

/-- A stored map is as valid as the map that was written, but for timestamps. -/
theorem validate_stored_overlay_iff {entity_type : String} {schema : EntitySchema} {properties patch : Properties}
    (hvalid : validate_properties entity_type schema properties = .ok ())
    (hpatched : validate_properties entity_type schema (properties.overlay patch) = .ok ()) :
    validate_properties entity_type schema ((storedProperties properties).overlay patch) = .ok () ↔
      ∀ field t, properties.get field = some (.timestamp t) → patch.get field = none →
        schema.properties.get field = none := by
  rw [validate_properties_eq_ok_iff] at hvalid hpatched ⊢
  constructor
  · intro h field t hget hpatch
    cases hdef : schema.properties.get field with
    | none => rfl
    | some prop_def =>
      -- a declared timestamp has come back as an integer
      have hwritten := hvalid.2 _ _ hget
      have hstored := h.2 _ (.int t) (by
        rw [Properties.get_overlay, hpatch, storedProperties_get, hget]
        rfl)
      rw [hdef] at hwritten hstored
      cases htype : prop_def.property_type <;> simp_all [PropertyType.matches]
  · intro h
    constructor
    · intro field prop_def hdef hrequired
      obtain ⟨v, hget, hnull⟩ := hpatched.1 _ _ hdef hrequired
      rw [Properties.get_overlay] at hget
      rw [Properties.get_overlay, storedProperties_get]
      cases hpatch : patch.get field with
      | some => exact ⟨v, by rwa [hpatch] at hget, hnull⟩
      | none =>
        rw [hpatch, none_or] at hget
        rw [hget, map_some]
        cases v <;> simp_all [storedValue]
    · intro field v hget
      rw [Properties.get_overlay, storedProperties_get] at hget
      cases hpatch : patch.get field with
      | some =>
        rw [hpatch, some_or] at hget
        refine hpatched.2 _ v ?_
        rw [Properties.get_overlay, hpatch, some_or, hget]
      | none =>
        rw [hpatch] at hget
        obtain ⟨given, hgiven, rfl⟩ := map_eq_some_iff.mp hget
        have hwritten := hvalid.2 _ _ hgiven
        cases given with
        | timestamp t =>
          rw [h field t hgiven hpatch] at hwritten ⊢
          exact hwritten
        | _ => exact hwritten

section Create

variable {self : NodeStore} {database ns entity_type : String} {properties : Properties} {clock : Clock}
  {answer : NodeId} {db db' : Db} {created : StoredNode}

/-- A node that was created has its properties in the record. -/
theorem create_node_complete
    (h : (create_node self database ns entity_type properties clock).complete answer db = (.ok created, db')) :
    created.id = answer.to_string ∧ (∃ schema, self.get_schema database ns entity_type = some schema ∧
      validate_properties entity_type schema created.properties = .ok ()) ∧
    recordOf database ns entity_type db' answer =
      some (encode_cbor ⟨created.properties, answer.site, clock.now, clock.now⟩) := by
  revert h
  refine create_node_cases _ _ _ _ _ _ (fun _ h => by cases h) fun schema _ hschema hvalid hnext h => ?_
  obtain ⟨_, mid, _, h⟩ := Proc.complete_bind_eq_ok _ h
  obtain ⟨entries, postings, hplan, hcommit⟩ := hnext _
  rw [Proc.complete, hcommit] at h
  cases hrun : (create_txn self database ns entity_type (apply_defaults schema properties) answer entries postings
      clock).run mid with
  | error => simp [Proc.complete, hrun] at h
  | ok r =>
    rw [Proc.complete_commit hrun] at h
    cases h
    exact ⟨rfl, ⟨schema, hschema, hvalid⟩, (create_txn_change hplan hrun).record⟩

theorem get_node_of_record {node_id : String} {id : NodeId} {d : NodeData} (hid : NodeId.from_str node_id = some id)
    (hrecord : recordOf database ns entity_type db id = some (encode_cbor d)) :
    (get_node database ns entity_type node_id).complete answer db =
      (.ok (some ⟨node_id, entity_type, storedProperties d.properties, d.locality, d.created_at, d.updated_at⟩),
        db) := by
  have hparse : parse_node_id node_id = .ok id := by simp [parse_node_id, hid]
  have hread : (.read (data_key (Subspace.of_namespace database ns).data entity_type id.to_bytes) : Proc _).complete
      answer db = (.ok (some (encode_cbor d)), db) := congrArg (fun cell => (Except.ok cell, db)) hrecord
  rw [get_node, hparse]
  exact (Proc.complete_bind _ (a := id) rfl).trans ((Proc.complete_bind _ hread).trans rfl)

end Create

/-- Values come back from storage as they were written exactly if they are not
timestamps, and records, log entries and schemas exactly if they hold none (a
schema no default that is null, either). So a created node is read with the
properties that were written exactly if none of them is a timestamp, and a later
update of it passes validation exactly if it replaces all timestamps that the
schema declares. -/
theorem stored_values_round_trip_iff (v : Value) (record : NodeData) (link : EdgeData) (log : EntryDocument)
    (document : SchemaDocument) :
    (value.read (value.write v) = some v ↔ v.isTimestamp = false) ∧
    (nodeData.read (nodeData.write record) = some record ↔ NoTimestamps record.properties) ∧
    (edgeData.read (edgeData.write link) = some link ↔ NoTimestamps link.properties) ∧
    (entry.read (entry.write log) = some log ↔ ∀ op ∈ log.operations, op.Durable) ∧
    (entitySchema.read (entitySchema.write document) = some document ↔ document.Durable) ∧
    ∀ (self : NodeStore) (database ns entity_type : String) (properties : Properties) (clock : Clock)
      (answer : NodeId) (db db' : Db) (created : StoredNode),
      (create_node self database ns entity_type properties clock).complete answer db = (.ok created, db') →
      ∃ schema found, self.get_schema database ns entity_type = some schema ∧
        (get_node database ns entity_type created.id).complete answer db' = (.ok (some found), db') ∧
        (found.properties = created.properties ↔ NoTimestamps created.properties) ∧
        ∀ patch, validate_properties entity_type schema (created.properties.overlay patch) = .ok () →
          (validate_properties entity_type schema (found.properties.overlay patch) = .ok () ↔
            ∀ field t, created.properties.get field = some (.timestamp t) → patch.get field = none →
              schema.properties.get field = none) := by
  refine ⟨(value.faithful_iff v).trans (storedValue_eq_iff v), ?_, ?_, (entry.faithful_iff log).trans log.stored_eq_iff,
    (entitySchema.faithful_iff _).trans document.stored_eq_iff, ?_⟩
  · rw [faithful_iff, ← storedProperties_eq_iff]
    obtain ⟨properties, _, created_at, updated_at⟩ := record
    simp [nodeData, NodeData.stored]
  · rw [faithful_iff, ← storedProperties_eq_iff]
    obtain ⟨edge_id, properties, created_at, _, _, label⟩ := link
    simp [edgeData, EdgeData.stored]
  · intro self database ns entity_type properties clock answer db db' created h
    obtain ⟨hid, ⟨schema, hschema, hvalid⟩, hrecord⟩ := create_node_complete h
    refine ⟨schema, _, hschema, get_node_of_record ?_ hrecord, storedProperties_eq_iff _, fun patch hpatched => ?_⟩
    · rw [hid, NodeId.from_str_to_string]
    · exact validate_stored_overlay_iff hvalid hpatched

/-- Events that have a time. -/
def eventSchema : EntitySchema :=
  ⟨"Event", OrdMap.ofList [("at", ⟨.timestamp, true, .none, none⟩), ("name", ⟨.string, false, .none, none⟩)], {},
    .empty⟩

def events : NodeStore := ⟨fun _ _ _ => some eventSchema, "1", .none⟩

def launch : Properties := OrdMap.ofList [("at", .timestamp 5), ("name", .string "launch")]

/-- The event as it was created. -/
def launched : Except PelagoError StoredNode × Db :=
  (create_node events "db" "ns" "Event" launch ⟨1, 1⟩).complete ⟨1, 0⟩ ⟨.empty, fun _ => []⟩

/-- The time of an event comes back as an integer, and the event can then not be
updated any more, not even with nothing. -/
theorem launch_time_becomes_integer :
    launched.1.toOption.map StoredNode.properties = some launch ∧
    (((get_node "db" "ns" "Event" "1_0").complete ⟨1, 0⟩ launched.2).1.toOption.bind id).bind
      (fun found => found.properties.get "at") = some (.int 5) ∧
    ((update_node events "db" "ns" "Event" "1_0" .empty ⟨2, 2⟩).complete ⟨1, 0⟩ launched.2).1 =
      .error (.TypeMismatch "at" "timestamp" "int") := by
  refine ⟨by decide +kernel, by decide +kernel, ?_⟩
  rfl

def hired : StoredNode := ⟨"1_0", "Person", named "a", 1, 1, 1⟩

theorem named_noTimestamps : NoTimestamps (named "a") := (storedProperties_eq_iff _).mp (by decide +kernel)

/-- A person is read with the name that was written, and can be updated. -/
theorem hired_round_trip :
    ∃ db' schema found, (create_node people.store "db" "ns" "Person" (named "a") ⟨1, 1⟩).complete ⟨1, 0⟩ noRows.db =
        (.ok hired, db') ∧
      (get_node "db" "ns" "Person" hired.id).complete ⟨1, 0⟩ db' = (.ok (some found), db') ∧
      found.properties = hired.properties ∧
      validate_properties "Person" schema (found.properties.overlay .empty) = .ok () := by
  have hcreate : (create_node people.store "db" "ns" "Person" (named "a") ⟨1, 1⟩).complete ⟨1, 0⟩ noRows.db =
      (.ok hired, _) := rfl
  obtain ⟨schema, found, hschema, hget, hproperties, hpatch⟩ :=
    (stored_values_round_trip_iff .null ⟨.empty, 1, 0, 0⟩ ⟨"", .empty, 0, none, none, none⟩ ⟨"1", 0, none, []⟩
      ⟨"Person", 1, .empty, .empty, {}, 0, "1"⟩).2.2.2.2.2 _ _ _ _ _ _ _ _ _ _ hcreate
  cases hschema
  refine ⟨_, personSchema, found, hcreate, hget, hproperties.mpr named_noTimestamps, (hpatch .empty (by rfl)).mpr ?_⟩
  intro field t ht
  cases named_noTimestamps field _ ht

end node

end pelago_storage
