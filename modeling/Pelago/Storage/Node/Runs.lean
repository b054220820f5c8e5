import Pelago.Storage.Node.ReplicaShapes

open bytes kv pelago_core pelago_core.encoding
open pelago_storage.index pelago_storage.term_index List pelago_storage.node.Deployment

namespace pelago_storage.node

section

/-- The calls that change nodes of a type, by local and by replicated
operations. -/
inductive Call where
  | create (properties : Properties) (clock : Clock)
  | update (node_id : String) (patch : Properties) (clock : Clock)
  | delete (node_id : String) (clock : Clock)
  | replicaCreate (node_id : String) (properties : Properties) (home_site : String)
      (event_timestamp : Int) (origin_site : String)
  | replicaUpdate (node_id : String) (changed old : Properties) (event_timestamp : Int)
      (origin_site : String)
  | replicaDelete (node_id : String) (event_timestamp : Int) (origin_site : String)

def Deployment.step (dep : Deployment) (w : ids.World) : Call → ids.World
  | .create properties clock =>
    dep.exec (create_node dep.store dep.database dep.ns dep.entity_type properties clock) w
  | .update node_id patch clock =>
    dep.exec (update_node dep.store dep.database dep.ns dep.entity_type node_id patch clock) w
  | .delete node_id clock =>
    dep.exec (delete_node dep.store dep.database dep.ns dep.entity_type node_id clock) w
  | .replicaCreate node_id properties home_site event_timestamp origin_site =>
    dep.exec (apply_replica_node_create dep.store dep.database dep.ns dep.entity_type node_id properties
      home_site event_timestamp origin_site) w
  | .replicaUpdate node_id changed old event_timestamp origin_site =>
    dep.exec (apply_replica_node_update dep.store dep.database dep.ns dep.entity_type node_id changed old
      event_timestamp origin_site) w
  | .replicaDelete node_id event_timestamp origin_site =>
    dep.exec (apply_replica_node_delete dep.store dep.database dep.ns dep.entity_type node_id
      event_timestamp origin_site) w

/-- The calls one after the other, each succeeding or failing. -/
def Deployment.runCalls (dep : Deployment) (calls : List Call) (w : ids.World) : ids.World :=
  calls.foldl dep.step w

variable {call : Call}

theorem Deployment.runCalls_take_succ (dep : Deployment) {calls : List Call} {n : Nat}
    (hcall : calls[n]? = some call) (w : ids.World) :
    dep.runCalls (calls.take (n + 1)) w = dep.step (dep.runCalls (calls.take n) w) call := by
  rw [take_add_one, hcall]
  exact foldl_append

def Call.isCreate : Call → Bool
  | .create _ _ => true
  | _ => false

/-- The properties that a call sets. -/
def Call.values : Call → Properties
  | .create properties _ => properties
  | .update _ patch _ => patch
  | .replicaCreate _ properties _ _ _ => properties
  | .replicaUpdate _ changed _ _ _ => changed
  | _ => OrdMap.empty

/-- A property value that a call may bring into a record: its own, or the
schema's default. -/
def Call.Brings (schema : EntitySchema) (call : Call) (field : String) (v : Value) : Prop :=
  call.values.get field = some v ∨ call.isCreate = true ∧
    ∃ prop_def, schema.properties.get field = some prop_def ∧ prop_def.default_value = some v

/-- What a call does to the rows of the type: nothing, or a change of one
record to a valid one. -/
inductive CallEffect (dep : Deployment) (schema : EntitySchema) (call : Call) (db db' : Db) : Prop where
  | unchanged (h : Agree (TypeRow dep.database dep.ns dep.entity_type) db db')
  | change (id : NodeId) (old new : Option NodeData)
      (hbefore : recordOf dep.database dep.ns dep.entity_type db id = old.map .node)
      (hchange : RecordChange dep.database dep.ns dep.entity_type schema id old new db db')
      (hvalid : ∀ d, new = some d → validate_properties dep.entity_type schema d.properties = .ok ())
      (hvalues : ∀ d field v, new = some d → d.properties.get field = some v →
        call.Brings schema field v ∨ (propsOf old).get field = some v)

section Calls

variable {dep : Deployment} {schema : EntitySchema} {w : ids.World}

/-- A write transaction that changes a record, then work elsewhere. -/
private theorem callEffect_of_commit {α : Type} {t : Tx Unit} {next : Proc α} (id : NodeId)
    (old new : Option NodeData) (hnext : next.Confined fun k => ¬ dep.typeRow k)
    (hbefore : dep.record w.db id = old.map .node) (hchange : ∀ db', t.run w.db = .ok ((), db') →
      dep.Changes schema id old new w.db db')
    (hvalid : ∀ d, new = some d → validate_properties dep.entity_type schema d.properties = .ok ())
    (hvalues : ∀ d field v, new = some d → d.properties.get field = some v →
      call.Brings schema field v ∨ (propsOf old).get field = some v) :
    CallEffect dep schema call w.db (dep.exec (.commitThen t next) w).db := by
  obtain h | ⟨db', hrun, h⟩ := exec_commitThen t _ w <;> rw [h]
  · exact .unchanged (.refl _ _)
  · have hafter := exec_agree hnext { w with db := db' }
    exact .change id old new hbefore ((hchange _ hrun).congr (.refl _ _) hafter) hvalid hvalues

private theorem callEffect_of_done {α : Type} (r : Except PelagoError α) :
    CallEffect dep schema call w.db (dep.exec (.done r) w).db :=
  .unchanged (.refl _ _)

/-- A create that is handed the node's id, or another local call on the node. -/
def Call.On (dep : Deployment) (id : NodeId) (w : ids.World) : Call → Prop
  | .create _ _ => dep.nextId w = id
  | .update node_id _ _ | .delete node_id _ => NodeId.from_str node_id = some id
  | _ => False

def Call.isLocal : Call → Bool
  | .create _ _ | .update _ _ _ | .delete _ _ => true
  | _ => false

section

variable (hschema : dep.schema? = some schema)
include hschema

/-- A local call changes the record of its node, or nothing, provided that a created
node gets an id that is not in use. -/
theorem local_effect (hlocal : call.isLocal = true)
    (hfresh : call.isCreate = true → dep.record w.db (dep.nextId w) = none) :
    Agree dep.typeRow w.db (dep.step w call).db ∨ ∃ id old new, call.On dep id w ∧
      dep.record w.db id = old.map .node ∧ dep.Changes schema id old new w.db (dep.step w call).db ∧
      (∀ d, new = some d → validate_properties dep.entity_type schema d.properties = .ok ()) ∧
      ∀ d field v, new = some d → d.properties.get field = some v →
        call.Brings schema field v ∨ (propsOf old).get field = some v := by
  unfold step
  cases call with
  | create properties clock =>
    have hagree := allocate_agree dep w
    dsimp only
    obtain h | h | ⟨entries, postings, db', hvalid, hplan, hrun, h⟩ :=
      create_node_exec hschema .. <;> rw [h]
    · exact .inl (.refl _ _)
    · exact .inl hagree
    · refine .inr ⟨_, none, some ⟨apply_defaults schema properties, (dep.nextId w).site, clock.now, clock.now⟩, rfl,
        hfresh rfl, (create_txn_change hplan hrun).congr hagree (.refl _ _), ?_, ?_⟩
      · rintro _ ⟨rfl⟩
        exact hvalid
      · rintro _ _ v ⟨rfl⟩ hv
        exact .inl ((get_apply_defaults hv).imp_right fun hdefault => ⟨rfl, hdefault⟩)
  | update node_id patch clock =>
    dsimp only
    obtain h | ⟨id, d, removals, _, changes, db', hid, hrecord, _, hvalid, hplan, hrun, h⟩ :=
      update_node_exec hschema .. <;> rw [h]
    · exact .inl (.refl _ _)
    · refine .inr ⟨id, some d, some ⟨d.properties.overlay patch, d.locality, d.created_at, clock.now⟩, hid, hrecord,
        (update_txn_change hplan hrun).1, ?_, ?_⟩
      · rintro _ ⟨rfl⟩
        exact hvalid
      · rintro _ _ v ⟨rfl⟩ hv
        rw [Properties.get_overlay, Option.or_eq_some_iff] at hv
        exact hv.imp .inl And.right
  | delete node_id clock =>
    dsimp only
    obtain h | ⟨id, d, removals, postings, db', hid, hrecord, _, hplan, hrun, h⟩ :=
      delete_node_exec hschema .. <;> rw [h]
    · exact .inl (.refl _ _)
    · exact .inr ⟨id, some d, none, hid, hrecord, (delete_txn_change hplan hrun).congr (.refl _ _)
        (finishDelete_agree _ _ id ⟨db', w.mem⟩), by simp, by simp⟩
  | _ => cases hlocal

/-- A replicated call changes at most one record, and to a valid one. -/
theorem replica_effect (hlocal : call.isLocal = false) : CallEffect dep schema call w.db (dep.step w call).db := by
  unfold step
  cases call with
  | replicaCreate node_id properties home_site event_timestamp origin_site =>
    dsimp only
    refine apply_replica_node_create_cases _ _ _ _ _ _ _ _ _ (fun _ => callEffect_of_done _)
      fun _ id _ _ hschema' hvalid _ hnext => ?_
    obtain rfl := get_schema_inj hschema hschema'
    obtain ⟨p, _, hexec, houtcome⟩ := reads_record id rfl hnext w
    rw [hexec]
    generalize hcell : dep.record w.db id = cell at houtcome
    cases houtcome with
    | broken | present => exact callEffect_of_done _
    | @commit _ _ hplan =>
      refine callEffect_of_commit id none _
        trivial hcell (fun _ hrun => recordChange_of_set_first hplan hrun) ?_ ?_
      · rintro _ ⟨rfl⟩
        exact hvalid
      · rintro _ _ v ⟨rfl⟩ hv
        exact .inl (.inl hv)
  | replicaUpdate node_id changed old_properties event_timestamp origin_site =>
    dsimp only
    refine apply_replica_node_update_cases _ _ _ _ _ _ _ _ _ (fun _ => callEffect_of_done _)
      fun _ id _ _ hschema' _ hnext => ?_
    obtain rfl := get_schema_inj hschema hschema'
    obtain ⟨p, _, hexec, houtcome⟩ := reads_record id rfl hnext w
    rw [hexec]
    generalize hcell : dep.record w.db id = cell at houtcome
    cases houtcome with
    | absent | broken | stale | invalid => exact callEffect_of_done _
    | @commit d _ _ _ _ hvalid hplan =>
      refine callEffect_of_commit id (some d) _
        trivial hcell (fun _ hrun => recordChange_of_set_last hplan hrun) ?_ ?_
      · rintro _ ⟨rfl⟩
        exact hvalid
      · rintro _ _ v ⟨rfl⟩ hv
        rw [updatedRecord, Properties.get_overlay, Option.or_eq_some_iff] at hv
        exact hv.imp .inl And.right
  | replicaDelete node_id event_timestamp origin_site =>
    dsimp only
    refine apply_replica_node_delete_cases _ _ _ _ _ _ _ (fun _ => callEffect_of_done _)
      fun _ id _ _ hschema' _ hnext => ?_
    obtain rfl := get_schema_inj hschema hschema'
    obtain ⟨p, _, hexec, houtcome⟩ := reads_record id rfl hnext w
    rw [hexec]
    generalize hcell : dep.record w.db id = cell at houtcome
    cases houtcome with
    | absent | broken | stale => exact callEffect_of_done _
    | @commit d _ _ _ hplan =>
      refine callEffect_of_commit id (some d) _ ?_ hcell
        (fun _ hrun => recordChange_of_clear_first hplan hrun) (by simp) (by simp)
      exact ((dep.store.edge_store.confined ..).mono fun k => not_typeRow_of_edgeKey).bind
        fun _ => trivial
  | _ => cases hlocal

/-- Every call changes at most one record, and to a valid one, provided that a
created node gets an id that is not in use. -/
theorem Deployment.step_effect (call : Call) (hfresh : call.isCreate = true →
      dep.record w.db (dep.nextId w) = none) : CallEffect dep schema call w.db (dep.step w call).db := by
  cases hlocal : call.isLocal with
  | false => exact replica_effect hschema hlocal
  | true =>
    obtain h | ⟨id, old, new, _, hbefore, hchange, hvalid, hvalues⟩ := local_effect hschema hlocal hfresh
    exacts [.unchanged h, .change id old new hbefore hchange hvalid hvalues]

/-- What the effect of each call keeps holds after a run in which no create is handed the id
of a live node. -/
theorem Deployment.runCalls_keeps {calls : List Call} (hfresh : ∀ n properties clock,
      calls[n]? = some (.create properties clock) →
      dep.record (dep.runCalls (calls.take n) w).db (dep.nextId (dep.runCalls (calls.take n) w)) = none)
    {P : Db → Prop} (hinit : P w.db) (hstep : ∀ n call, calls[n]? = some call → P (dep.runCalls (calls.take n) w).db →
      CallEffect dep schema call (dep.runCalls (calls.take n) w).db (dep.runCalls (calls.take (n + 1)) w).db →
      P (dep.runCalls (calls.take (n + 1)) w).db) : P (dep.runCalls calls w).db := by
  have hrun : ∀ n, P (dep.runCalls (calls.take n) w).db := by
    intro n
    induction n with
    | zero => exact hinit
    | succ n ih =>
      cases hcall : calls[n]? with
      | none => rwa [take_add_one, hcall, Option.toList_none, append_nil]
      | some call =>
        refine hstep n _ hcall ih ?_
        rw [dep.runCalls_take_succ hcall]
        refine dep.step_effect hschema _ fun hcreate => ?_
        cases call with
        | create => exact hfresh n _ _ hcall
        | _ => cases hcreate
  simpa using hrun calls.length

end

end Calls

/-- People with an indexed name. -/
def personSchema : EntitySchema :=
  ⟨"Person", OrdMap.ofList [("name", ⟨.string, false, .equality, none⟩)], {}, .empty⟩

/-- A site that stores people. -/
def people : Deployment where
  store := ⟨fun _ _ _ => some personSchema, "1", .none⟩
  allocator := ⟨1, 100⟩
  database := "db"
  ns := "ns"
  entity_type := "Person"

def named (name : String) : Properties := OrdMap.ofList [("name", .string name)]

def noRows : ids.World := ⟨⟨OrdMap.empty, fun _ => []⟩, OrdMap.empty⟩

theorem person_property {property : String} {prop_def : PropertyDef}
    (h : personSchema.properties.get property = some prop_def) :
    property = "name" ∧ prop_def = ⟨.string, false, .equality, none⟩ := by
  simpa using OrdMap.get_ofList_eq_some h

/-- People have no defaults, so calls bring in their own values only. -/
theorem person_brings {field : String} {v : Value} (h : call.Brings personSchema field v) :
    call.values.get field = some v := by
  obtain h | ⟨_, _, hdef, hdefault⟩ := h
  · exact h
  · obtain ⟨_, rfl⟩ := person_property hdef
    cases hdefault

/-- A replicated person whose id is the next one of the local allocator, then
a local one. -/
def takenId : List Call :=
  [.replicaCreate "1_0" (named "a") "2" 5 "2", .create (named "b") ⟨6, 6⟩]

/-- Two local people, a change of a name, and a replicated person with an id of
another site. -/
def ownIds : List Call :=
  [.create (named "a") ⟨1, 1⟩, .create (named "b") ⟨2, 2⟩, .update "1_0" (named "c") ⟨3, 3⟩,
    .replicaCreate "2_0" (named "a") "2" 4 "2", .delete "1_1" ⟨5, 5⟩]

theorem ownIds_fresh (n : Nat) (properties : Properties) (clock : Clock)
    (h : ownIds[n]? = some (.create properties clock)) :
    recordOf people.database people.ns people.entity_type (people.runCalls (ownIds.take n) noRows).db
      (people.nextId (people.runCalls (ownIds.take n) noRows)) = none := by
  match n, h with
  | 0, _ => decide +kernel
  | 1, _ => decide +kernel
  | n + 2, h =>
    match n, h with
    | 0, h => simp [ownIds] at h
    | 1, h => simp [ownIds] at h
    | 2, h => simp [ownIds] at h
    | n + 3, h => simp [ownIds] at h

end

open Tx Proc

section Runs

variable {dep : Deployment} {schema : EntitySchema} {node_id : String} {id : NodeId} {w : ids.World}
  (hschema : dep.store.get_schema dep.database dep.ns dep.entity_type = some schema)
  (hid : NodeId.from_str node_id = some id)

include hschema hid

/-- A replicated creation of a node that is not there. -/
theorem replica_create_absent {properties : Properties} {site : String} {site_id : UInt8}
    (hvalid : validate_properties dep.entity_type schema properties = .ok ())
    (hsite : parse_u8 site = some site_id) (hrecord : dep.record w.db id = none)
    (hready : CountersReadable dep.subspace dep.entity_type w.db) (event_timestamp : Int) :
    ∃ db', (apply_replica_node_create dep.store dep.database dep.ns dep.entity_type node_id properties site
        event_timestamp site).run dep.supply w = (.ok true, { w with db := db' }) ∧
      dep.Changes schema id none
        (some ⟨properties, site_id, event_timestamp, event_timestamp⟩) w.db db' ∧
      (NoEdges dep.database dep.ns w.db → NoEdges dep.database dep.ns db') := by
  obtain ⟨next, heq, hnext⟩ := apply_replica_node_create_outcome _ _ _ hschema
    hvalid hid hsite
  obtain ⟨p, hread, _, houtcome⟩ := reads_record id heq hnext w
  rw [hread]
  rw [hrecord] at houtcome
  cases houtcome with
  | commit hplan =>
    obtain ⟨_, db', hrun, _⟩ := keeps_bind (keeps_set_data_key _ _) (fun _ => hplan.keeps) _ hready
    refine ⟨db', run_commitThen_of_ok hrun, recordChange_of_set_first hplan hrun, ?_⟩
    refine noEdges_of_touches dep.entity_type ?_ hrun
    refine touches_bind ((touches_set ..).mpr (nodeRow_data_key _)) fun _ => ?_
    exact hplan.touches.mono (fun _ _ => trivial) fun _ => nodeRow_of_indexRow

/-- A replicated creation changes nothing when its properties are not valid or
the node is there. -/
theorem replica_create_unchanged {properties : Properties} {site : String} {site_id : UInt8}
    (hsite : parse_u8 site = some site_id) (hskip : validate_properties dep.entity_type schema properties ≠ .ok () ∨
      ∃ d, dep.record w.db id = some (.node d)) (event_timestamp : Int) :
    ((apply_replica_node_create dep.store dep.database dep.ns dep.entity_type node_id properties site
      event_timestamp site).run dep.supply w).2 = w := by
  cases hvalid : validate_properties dep.entity_type schema properties with
  | error =>
    unfold apply_replica_node_create lookup_schema
    simp only [ne_eq, not_true_eq_false, ↓reduceIte, hschema, hvalid, ofExcept_ok_bind,
      ofExcept_error_bind, run_done]
  | ok =>
    obtain hinvalid | ⟨d, hrecord⟩ := hskip
    · exact absurd hvalid hinvalid
    obtain ⟨next, heq, hnext⟩ := apply_replica_node_create_outcome _ _ _ hschema
      hvalid hid hsite
    obtain ⟨p, hread, _, houtcome⟩ := reads_record id heq hnext w
    rw [hread]
    rw [hrecord] at houtcome
    cases houtcome with
    | broken | present => rfl

section Update

variable {changed old_properties : Properties} {origin_site : String} {actor : UInt8} {event_timestamp : Int}
  (hsite : parse_u8 origin_site = some actor)

include hsite

/-- A replicated update changes nothing when the node is not there, or when the
update is stale or leads to properties that are not valid. -/
theorem replica_update_unchanged
    (hskip : ∀ d, dep.record w.db id = some (.node d) → UpdateStale d actor old_properties event_timestamp ∨
      validate_properties dep.entity_type schema (d.properties.overlay changed) ≠ .ok ()) :
    ((apply_replica_node_update dep.store dep.database dep.ns dep.entity_type node_id changed old_properties
      event_timestamp origin_site).run dep.supply w).2 = w := by
  obtain ⟨next, heq, hnext⟩ := apply_replica_node_update_outcome _ _ _
    _ hschema hid hsite
  obtain ⟨p, hread, _, houtcome⟩ := reads_record id heq hnext w
  rw [hread]
  generalize hcell : dep.record w.db id = cell at houtcome
  cases houtcome with
  | absent | broken | stale | invalid => rfl
  | commit hfresh hvalid =>
    obtain hstale | hinvalid := hskip _ hcell
    · exact absurd hstale hfresh
    · exact absurd hvalid hinvalid

/-- A replicated update that is not stale. -/
theorem replica_update_applied {d : NodeData} (hrecord : dep.record w.db id = some (.node d))
    (hfresh : ¬ UpdateStale d actor old_properties event_timestamp)
    (hvalid : validate_properties dep.entity_type schema (d.properties.overlay changed) = .ok ())
    (hready : CountersReadable dep.subspace dep.entity_type w.db) :
    ∃ db', (apply_replica_node_update dep.store dep.database dep.ns dep.entity_type node_id changed
        old_properties event_timestamp origin_site).run dep.supply w = (.ok true, { w with db := db' }) ∧
      dep.Changes schema id (some d)
        (some (updatedRecord d actor changed event_timestamp)) w.db db' ∧
      (NoEdges dep.database dep.ns w.db → NoEdges dep.database dep.ns db') := by
  obtain ⟨next, heq, hnext⟩ := apply_replica_node_update_outcome _ _ _
    _ hschema hid hsite
  obtain ⟨p, hread, _, houtcome⟩ := reads_record id heq hnext w
  rw [hread]
  rw [hrecord] at houtcome
  cases houtcome with
  | broken _ hbroken => exact absurd rfl (hbroken d)
  | stale hstale => exact absurd hstale hfresh
  | invalid _ _ hinvalid => exact absurd (hvalid.symm.trans hinvalid) (by simp)
  | commit _ _ hplan =>
    obtain ⟨_, db', hrun, _⟩ := keeps_bind hplan.keeps (fun _ => keeps_set_data_key _ _) _ hready
    refine ⟨db', run_commitThen_of_ok hrun, recordChange_of_set_last hplan hrun, ?_⟩
    refine noEdges_of_touches dep.entity_type ?_ hrun
    refine touches_bind (hplan.touches.mono (fun _ _ => trivial) fun _ => nodeRow_of_indexRow) fun _ => ?_
    exact (touches_set ..).mpr (nodeRow_data_key _)

end Update

section Delete

variable {origin_site : String} {actor : UInt8} {event_timestamp : Int}
  (hsite : parse_u8 origin_site = some actor)

include hsite

/-- A replicated deletion changes nothing when the node is not there or a newer
one of another owner is. -/
theorem replica_delete_unchanged
    (hskip : ∀ d, dep.record w.db id = some (.node d) → d.locality ≠ actor ∧ event_timestamp ≤ d.updated_at) :
    ((apply_replica_node_delete dep.store dep.database dep.ns dep.entity_type node_id event_timestamp
      origin_site).run dep.supply w).2 = w := by
  obtain ⟨next, heq, hnext⟩ := apply_replica_node_delete_outcome _ _ hschema hid hsite
  obtain ⟨p, hread, _, houtcome⟩ := reads_record id heq hnext w
  rw [hread]
  generalize hcell : dep.record w.db id = cell at houtcome
  cases houtcome with
  | absent | broken | stale => rfl
  | commit hfresh => exact absurd (hskip _ hcell) hfresh

/-- A replicated deletion in a namespace without edges. -/
theorem replica_delete_applied {d : NodeData} (hrecord : dep.record w.db id = some (.node d))
    (hfresh : ¬ (d.locality ≠ actor ∧ event_timestamp ≤ d.updated_at))
    (hready : CountersReadable dep.subspace dep.entity_type w.db) (hedges : NoEdges dep.database dep.ns w.db) :
    ∃ db', (apply_replica_node_delete dep.store dep.database dep.ns dep.entity_type node_id event_timestamp
        origin_site).run dep.supply w = (.ok true, { w with db := db' }) ∧
      dep.Changes schema id (some d) none w.db db' ∧
      NoEdges dep.database dep.ns db' := by
  obtain ⟨next, heq, hnext⟩ := apply_replica_node_delete_outcome _ _ hschema hid hsite
  obtain ⟨p, hread, _, houtcome⟩ := reads_record id heq hnext w
  rw [hread]
  rw [hrecord] at houtcome
  cases houtcome with
  | broken _ hbroken => exact absurd rfl (hbroken d)
  | stale hstale => exact absurd hstale hfresh
  | commit _ hplan =>
    obtain ⟨_, db', hrun, _⟩ := keeps_bind
      (keeps_clear (data_key dep.subspace.data dep.entity_type id.to_bytes)) (fun _ => hplan.keeps) _ hready
    have hafter : NoEdges dep.database dep.ns db' := by
      refine noEdges_of_touches dep.entity_type ?_ hrun hedges
      refine touches_bind ((touches_clear _).mpr (nodeRow_data_key _)) fun _ => ?_
      exact hplan.touches.mono (fun _ _ => trivial) fun _ => nodeRow_of_indexRow
    refine ⟨db', ?_, recordChange_of_clear_first hplan hrun, hafter⟩
    rw [run_commitThen_of_ok hrun, Proc.run_bind, dep.store.edge_store.idle _ _ _ _ _ _ _ hafter]
    rfl

end Delete

end Runs

section Transfer

variable (dep : Deployment) {node_id origin_site previous_site_id current_site_id : String} {id : NodeId}
  {previous current : UInt8} (event_timestamp : Int) {w : ids.World}
  (hid : NodeId.from_str node_id = some id) (hsite : parse_u8 origin_site = some previous)
  (hprevious : parse_u8 previous_site_id = some previous) (hcurrent : parse_u8 current_site_id = some current)

include hid hsite hprevious hcurrent

/-- A replicated transfer by the previous owner changes nothing when the node is
not there or is newer and of another owner. -/
theorem replica_transfer_unchanged
    (hskip : ∀ d, dep.record w.db id = some (.node d) → d.locality ≠ previous ∧ d.updated_at > event_timestamp) :
    ((apply_replica_ownership_transfer dep.database dep.ns dep.entity_type node_id previous_site_id
      current_site_id event_timestamp origin_site).run dep.supply w).2 = w := by
  unfold apply_replica_ownership_transfer parse_node_id parse_site_id
  simp only [hid, hsite, hprevious, hcurrent, ofExcept_ok_bind, ne_eq, not_true_eq_false, ↓reduceIte,
    read_bind, run_readThen]
  generalize hcell : w.db.rows.get _ = cell
  cases cell with
  | none => rfl
  | some c =>
    cases c with
    | raw | edge | cdc => rfl
    | node d =>
      simp only [decode_cbor, ofExcept_ok_bind]
      rw [if_pos (hskip d hcell)]
      rfl

/-- Otherwise it writes the record with its new owner. -/
theorem replica_transfer_applied {d : NodeData} (hrecord : dep.record w.db id = some (.node d))
    (hfresh : ¬ (d.locality ≠ previous ∧ d.updated_at > event_timestamp)) :
    (apply_replica_ownership_transfer dep.database dep.ns dep.entity_type node_id previous_site_id
      current_site_id event_timestamp origin_site).run dep.supply w = (.ok true,
        ⟨dep.putRecord w.db id { d with locality := current, updated_at := event_timestamp }, w.mem⟩) := by
  unfold apply_replica_ownership_transfer parse_node_id parse_site_id
  simp only [hid, hsite, hprevious, hcurrent, ofExcept_ok_bind, ne_eq, not_true_eq_false, ↓reduceIte,
    read_bind, run_readThen]
  rw [show w.db.rows.get _ = some (.node d) from hrecord]
  simp only [decode_cbor, ofExcept_ok_bind]
  rw [if_neg hfresh]
  exact run_commitThen_of_ok (run_set ..)

end Transfer

theorem parse_u8_repr (site : UInt8) : parse_u8 (Nat.repr site.toNat) = some site := by
  have hlt := site.toNat_lt
  unfold parse_u8
  rw [text.parseUnsigned_repr (by omega), Option.map_some, UInt8.ofNat_toNat]

end pelago_storage.node
