import Pelago.Storage.Node.Deployment

open bytes kv pelago_core pelago_core.encoding
open pelago_storage.index pelago_storage.term_index

namespace pelago_storage.node

open Tx

section Silent

theorem add_to_counter_silent (key : Bytes) (delta : Int) : (add_to_counter key delta).Silent := by
  refine silent_bind (silent_bind (silent_get _) fun _ => ?_) fun _ => ?_
  · split
    · split
      · exact silent_fail _
      · exact silent_pure _
    · exact silent_fail _
    · exact silent_pure _
  · dsimp only
    split
    · exact silent_clear _
    · exact silent_set ..

theorem write_index_entry_silent (entry : IndexEntry) : (write_index_entry entry).Silent := by
  unfold write_index_entry
  split
  · split
    · exact silent_set ..
    · exact silent_fail _
  · exact silent_set ..
  · exact silent_set ..

theorem change_index_rows_silent (subspace : Subspace) (entity_type : String)
    (removals additions : List IndexEntry) (term_changes : TermPostingChanges) (n_docs_delta : Int) :
    (change_index_rows subspace entity_type removals additions term_changes n_docs_delta).Silent := by
  refine silent_bind (silent_forEach fun _ _ => silent_clear _) fun _ =>
    silent_bind (silent_forEach fun _ _ => write_index_entry_silent _) fun _ =>
    silent_bind (silent_forEach fun _ _ => silent_clear _) fun _ =>
    silent_bind (silent_forEach fun _ _ => silent_set ..) fun _ =>
    silent_bind (silent_forEach ?_) fun _ => ?_
  · rintro ⟨term, delta⟩ _
    dsimp only
    split
    · exact silent_pure _
    · exact add_to_counter_silent _ _
  · split
    · exact add_to_counter_silent _ _
    · exact silent_pure _

end Silent

/-- A committed operation on nodes of the type: it writes rows of nodes only,
and one entry to the log. -/
structure Logged (dep : Deployment) (timestamp : Int) (op : CdcOperation) (db db' : Db) : Prop where
  rows : ∀ k, ¬ NodeRow dep.database dep.ns dep.entity_type k → db'.rows.get k = db.rows.get k
  journal : db'.journal dep.subspace.cdc.pfx =
    db.journal dep.subspace.cdc.pfx ++ [encode_cbor_entry ⟨dep.store.site_id, timestamp, [op]⟩]

section Logged

variable {dep : Deployment} {timestamp : Int} {op : CdcOperation} {db mid db' : Db}

/-- Work on rows of nodes before the entry. -/
private theorem Logged.after {α : Type} {t : Tx α} {a : α} (h : Logged dep timestamp op mid db') (hsilent : t.Silent)
    (htouches : t.Touches (fun _ => True) (NodeRow dep.database dep.ns dep.entity_type))
    (hrun : t.run db = .ok (a, mid)) : Logged dep timestamp op db db' := by
  refine ⟨fun k hk => (h.rows k hk).trans (htouches.get_eq hrun hk), ?_⟩
  rw [h.journal, hsilent.journal_eq hrun]

/-- Work on rows of nodes after the entry. -/
theorem Logged.before {α : Type} {t : Tx α} {a : α} (h : Logged dep timestamp op db mid) (hsilent : t.Silent)
    (htouches : t.Touches (fun _ => True) (NodeRow dep.database dep.ns dep.entity_type))
    (hrun : t.run mid = .ok (a, db')) : Logged dep timestamp op db db' := by
  refine ⟨fun k hk => (htouches.get_eq hrun hk).trans (h.rows k hk), ?_⟩
  rw [hsilent.journal_eq hrun, h.journal]

private theorem logged_of_flush {clock : Clock}
    (hrun : (cdc_flush dep.store dep.database dep.ns clock [op]).run db = .ok ((), db')) :
    Logged dep clock.cdc_now op db db' := by
  obtain ⟨⟩ := hrun
  exact ⟨fun _ _ => rfl, dif_pos rfl⟩

private theorem touches_data_key (id : Bytes) (c : Cell) :
    (set (data_key dep.subspace.data dep.entity_type id) c : Tx Unit).Touches (fun _ => True)
      (NodeRow dep.database dep.ns dep.entity_type) :=
  (touches_set ..).mpr (nodeRow_data_key _)

variable {schema : EntitySchema} {id : NodeId} {clock : Clock}

variable {removals additions : List IndexEntry} {changes : TermPostingChanges}

private theorem touches_plan {old new : Option Properties} {n_docs_delta : Int}
    (hplan : IndexPlan dep.subspace dep.entity_type schema id.to_bytes old new removals additions changes
      n_docs_delta) :
    (change_index_rows dep.subspace dep.entity_type removals additions changes n_docs_delta).Touches
      (fun _ => True) (NodeRow dep.database dep.ns dep.entity_type) :=
  hplan.touches.mono (fun _ _ => trivial) fun _ => nodeRow_of_indexRow

theorem create_txn_logged {properties : Properties} {entries : List IndexEntry} {postings : List TermPosting}
    (hplan : IndexPlan dep.subspace dep.entity_type schema id.to_bytes none (some properties) [] entries
      ⟨postings, []⟩ 1)
    (hrun : (create_txn dep.store dep.database dep.ns dep.entity_type properties id entries postings clock).run
      db = .ok ((), db')) : Logged dep clock.cdc_now
      (.NodeCreate dep.entity_type id.to_string properties dep.store.site_id) db db' := by
  unfold create_txn at hrun
  rw [run_bind_of_ok (run_set ..), run_bind_eq_ok] at hrun
  obtain ⟨_, _, hindex, hflush⟩ := hrun
  exact ((logged_of_flush hflush).after (change_index_rows_silent ..) (touches_plan hplan) hindex).after
    (silent_set ..) (touches_data_key ..) (run_set ..)

private theorem check_unique_silent (property : String) (value : Value) (node_id : Bytes) :
    (check_unique_constraint_in_txn dep.database dep.ns dep.entity_type property value node_id).Silent ∧
      (check_unique_constraint_in_txn dep.database dep.ns dep.entity_type property value node_id).Touches
        (fun _ => True) (NodeRow dep.database dep.ns dep.entity_type) := by
  constructor
  · refine silent_bind (silent_ofExcept _) fun _ => silent_bind (silent_get _) fun _ => ?_
    split
    · split
      · exact silent_fail _
      · exact silent_pure _
    · exact silent_pure _
  · refine touches_bind (touches_ofExcept _) fun _ =>
      touches_bind ((touches_get _).mpr trivial) fun _ => ?_
    split
    · split
      · exact touches_fail _
      · exact touches_pure _
    · exact touches_pure _

theorem update_txn_logged {node_id : String} {unique : List (String × Value)} {data : NodeData}
    {old merged patch : Properties}
    (hplan : IndexPlan dep.subspace dep.entity_type schema id.to_bytes (some old) (some merged) removals
      additions changes 0)
    (hrun : (update_txn dep.store dep.database dep.ns dep.entity_type node_id id.to_bytes unique removals
      additions changes data patch old clock).run db = .ok ((), db')) :
    Logged dep clock.cdc_now (.NodeUpdate dep.entity_type node_id patch old) db db' := by
  unfold update_txn at hrun
  rw [run_bind_eq_ok] at hrun
  obtain ⟨_, _, hcheck, hrun⟩ := hrun
  rw [run_bind_eq_ok] at hrun
  obtain ⟨_, _, hindex, hrun⟩ := hrun
  rw [run_bind_of_ok (run_set ..)] at hrun
  have hflush := (logged_of_flush hrun).after (silent_set ..) (touches_data_key ..) (run_set ..)
  refine (hflush.after (change_index_rows_silent ..) (touches_plan hplan) hindex).after
    (silent_forEach fun _ _ => (check_unique_silent ..).1)
    (touches_forEach fun _ _ => (check_unique_silent ..).2) hcheck

theorem delete_txn_logged {node_id : String} {old : Properties} {postings : List TermPosting}
    (hplan : IndexPlan dep.subspace dep.entity_type schema id.to_bytes (some old) none removals []
      ⟨[], postings⟩ (-1))
    (hrun : (delete_txn dep.store dep.database dep.ns dep.entity_type node_id id.to_bytes removals postings
      clock).run db = .ok ((), db')) : Logged dep clock.cdc_now (.NodeDelete dep.entity_type node_id) db db' := by
  unfold delete_txn at hrun
  rw [run_bind_of_ok (run_clear ..), run_bind_of_ok (run_set ..), run_bind_eq_ok] at hrun
  obtain ⟨_, _, hindex, hflush⟩ := hrun
  have hguard := ((logged_of_flush hflush).after (change_index_rows_silent ..) (touches_plan hplan)
    hindex).after (silent_set ..) ((touches_set ..).mpr (nodeRow_delete_guard_key _)) (run_set ..)
  exact hguard.after (silent_clear _) ((touches_clear _).mpr (nodeRow_data_key _)) (run_clear ..)

theorem transfer_txn_logged {node_id : String} {data : NodeData} {previous target : UInt8}
    (hrun : (transfer_txn dep.store dep.database dep.ns dep.entity_type node_id id.to_bytes data previous target
      clock).run db = .ok ((), db')) : Logged dep clock.cdc_now
      (.OwnershipTransfer dep.entity_type node_id (Nat.repr previous.toNat) (Nat.repr target.toNat)) db db' := by
  exact (logged_of_flush hrun).after (silent_set ..) (touches_data_key ..) (run_set ..)

end Logged

open List pelago_storage.node.Deployment

/-- The operations a site runs on its own nodes of a type. -/
inductive SiteCall where
  | create (properties : Properties) (clock : Clock)
  | update (node_id : String) (patch : Properties) (clock : Clock)
  | delete (node_id : String) (clock : Clock)
  | transfer (node_id : String) (target_site_id : UInt8) (clock : Clock)

def Deployment.siteStep (dep : Deployment) (w : ids.World) : SiteCall → ids.World
  | .create properties clock =>
    dep.exec (create_node dep.store dep.database dep.ns dep.entity_type properties clock) w
  | .update node_id patch clock =>
    dep.exec (update_node dep.store dep.database dep.ns dep.entity_type node_id patch clock) w
  | .delete node_id clock =>
    dep.exec (delete_node dep.store dep.database dep.ns dep.entity_type node_id clock) w
  | .transfer node_id target_site_id clock =>
    dep.exec (transfer_ownership dep.store dep.database dep.ns dep.entity_type node_id target_site_id clock) w

/-- The operations one after the other, each succeeding or failing. -/
def Deployment.runSite (dep : Deployment) (calls : List SiteCall) (w : ids.World) : ids.World :=
  calls.foldl dep.siteStep w

theorem Deployment.runSite_take_succ (dep : Deployment) {calls : List SiteCall} {n : Nat} {call : SiteCall}
    (hcall : calls[n]? = some call) (w : ids.World) :
    dep.runSite (calls.take (n + 1)) w = dep.siteStep (dep.runSite (calls.take n) w) call := by
  unfold runSite
  rw [take_add_one, hcall, foldl_append]
  rfl

/-- The entries of the namespace's log. -/
def Deployment.log (dep : Deployment) (db : Db) : List CdcEntry :=
  (db.journal dep.subspace.cdc.pfx).filterMap fun
    | .cdc entry => some entry
    | _ => none

/-- Values that come back from storage as they are and equal themselves:
neither timestamps nor a NaN. -/
def plainValue : Value → Bool
  | .timestamp _ => false
  | .float f => !f.is_nan
  | _ => true

def Plain (properties : Properties) : Prop := ∀ field v, properties.get field = some v → plainValue v = true

def SiteCall.values : SiteCall → Properties
  | .create properties _ => properties
  | .update _ patch _ => patch
  | _ => OrdMap.empty

/-- Every default is plain. -/
def PlainDefaults (schema : EntitySchema) : Prop := ∀ property prop_def v,
  schema.properties.get property = some prop_def → prop_def.default_value = some v → plainValue v = true

section Plain

variable {properties patch : Properties}

theorem Plain.stored (h : Plain properties) : storedProperties properties = properties := by
  refine OrdMap.ext_get fun field => ?_
  rw [storedProperties_get]
  cases hget : properties.get field with
  | none => rfl
  | some v =>
    have hv := h _ v hget
    cases v <;> first | rfl | cases hv

theorem plainValue_eq_self {v : Value} (h : plainValue v = true) : v.eq v = true := by
  cases v with
  | float =>
    simp only [plainValue, Bool.not_eq_true'] at h
    simp [Value.eq, F64.eq, h]
  | timestamp => cases h
  | _ => simp [Value.eq]

theorem Plain.eq_self (h : Plain properties) : properties.eq properties = true := by
  simp only [Properties.eq, beq_self_eq_true, Bool.true_and, all_eq_true]
  intro _ hrow
  have hget := properties.get_eq_some_iff_mem.mpr hrow
  rw [hget]
  exact plainValue_eq_self (h _ _ hget)

theorem Plain.overlay (h : Plain properties) (hpatch : Plain patch) : Plain (properties.overlay patch) := by
  intro _ v hget
  rw [Properties.get_overlay, Option.or_eq_some_iff] at hget
  obtain hget | ⟨_, hget⟩ := hget
  · exact hpatch _ v hget
  · exact h _ v hget

theorem Plain.apply_defaults {schema : EntitySchema} (h : Plain properties) (hdefaults : PlainDefaults schema) :
    Plain (apply_defaults schema properties) := by
  intro _ v hget
  obtain hget | ⟨prop_def, hdef, hdefault⟩ := get_apply_defaults hget
  · exact h _ v hget
  · exact hdefaults _ _ v hdef hdefault

end Plain

/-- The change of one record of the site that an operation in the log tells of. -/
inductive Event (dep : Deployment) (schema : EntitySchema) (db db' : Db) : CdcOperation → Prop where
  | update {node_id : String} {id : NodeId} {d : NodeData} {patch : Properties} {now : Int}
      (hid : NodeId.from_str node_id = some id) (hrecord : dep.record db id = some (.node d))
      (howner : enforce_local_ownership dep.store dep.entity_type node_id d.locality = .ok ())
      (hvalid : validate_properties dep.entity_type schema (d.properties.overlay patch) = .ok ())
      (hplain : Plain patch)
      (hchange : RecordChange dep.database dep.ns dep.entity_type schema id (some d)
        (some ⟨d.properties.overlay patch, d.locality, d.created_at, now⟩) db db') :
      Event dep schema db db' (.NodeUpdate dep.entity_type node_id patch d.properties)
  | delete {node_id : String} {id : NodeId} {d : NodeData} (hid : NodeId.from_str node_id = some id)
      (hrecord : dep.record db id = some (.node d))
      (howner : enforce_local_ownership dep.store dep.entity_type node_id d.locality = .ok ())
      (hchange : RecordChange dep.database dep.ns dep.entity_type schema id (some d) none db db') :
      Event dep schema db db' (.NodeDelete dep.entity_type node_id)
  | transfer {node_id : String} {id : NodeId} {d : NodeData} {target : UInt8} {now : Int}
      (hid : NodeId.from_str node_id = some id) (hrecord : dep.record db id = some (.node d))
      (howner : enforce_local_ownership dep.store dep.entity_type node_id d.locality = .ok ())
      (hrows : db'.rows = (dep.putRecord db id { d with locality := target, updated_at := now }).rows) :
      Event dep schema db db' (.OwnershipTransfer dep.entity_type node_id (Nat.repr d.locality.toNat)
        (Nat.repr target.toNat))

/-- What an operation of a site does: nothing, take an id, create a node with
that id, or change a record. The last two are logged. -/
inductive SiteEffect (dep : Deployment) (schema : EntitySchema) (w w' : ids.World) : Prop where
  | idle (h : w' = w)
  | taken (h : w' = (dep.supply w).2)
  | created {properties : Properties} {now timestamp : Int} (hplain : Plain properties)
      (hvalid : validate_properties dep.entity_type schema properties = .ok ())
      (hchange : RecordChange dep.database dep.ns dep.entity_type schema (dep.nextId w) none
        (some ⟨properties, (dep.nextId w).site, now, now⟩) (dep.supply w).2.db w'.db)
      (hlogged : Logged dep timestamp
        (.NodeCreate dep.entity_type (dep.nextId w).to_string properties dep.store.site_id)
        (dep.supply w).2.db w'.db)
      (hmem : w'.mem = (dep.supply w).2.mem)
  | changed {op : CdcOperation} {timestamp : Int} (hevent : Event dep schema w.db w'.db op)
      (hlogged : Logged dep timestamp op w.db w'.db) (hmem : w'.mem = w.mem)

section Effects

variable {dep : Deployment} {schema : EntitySchema} {w : ids.World}

/-- A transfer does nothing, or writes the record with its new owner. -/
theorem transfer_ownership_exec (dep : Deployment) (w : ids.World) (node_id : String) (target : UInt8) (clock : Clock) :
    dep.exec (transfer_ownership dep.store dep.database dep.ns dep.entity_type node_id target clock) w = w ∨
    ∃ id d db', NodeId.from_str node_id = some id ∧ dep.record w.db id = some (.node d) ∧
      enforce_local_ownership dep.store dep.entity_type node_id d.locality = .ok () ∧
      (transfer_txn dep.store dep.database dep.ns dep.entity_type node_id id.to_bytes
        { d with locality := target, updated_at := clock.now } d.locality target clock).run w.db =
          .ok ((), db') ∧
      dep.exec (transfer_ownership dep.store dep.database dep.ns dep.entity_type node_id target clock) w =
        ⟨db', w.mem⟩ := by
  unfold transfer_ownership parse_node_id exec
  cases hid : NodeId.from_str node_id with
  | none => exact .inl rfl
  | some id =>
    simp only [Proc.ofExcept_ok_bind, Proc.read_bind, Proc.run_readThen]
    generalize hcell : w.db.rows.get _ = cell
    cases cell with
    | none => exact .inl rfl
    | some c =>
      cases c with
      | raw | edge | cdc => exact .inl rfl
      | node d =>
        simp only [decode_cbor, Proc.ofExcept_ok_bind]
        cases howner : enforce_local_ownership dep.store dep.entity_type node_id d.locality with
        | error => exact .inl rfl
        | ok =>
          split
          · exact .inl rfl
          · exact .inr ⟨id, d, _, rfl, hcell, howner, rfl, rfl⟩

/-- The end of a delete in a namespace without edges. -/
theorem finishDelete_exec (w : ids.World) (node_id : String) (id : NodeId)
    (hedges : NoEdges dep.database dep.ns w.db) :
    ∃ db', (clear (delete_guard_key dep.subspace.data dep.entity_type id.to_bytes) : Tx Unit).run w.db =
        .ok ((), db') ∧ dep.exec (dep.finishDelete node_id id) w = ⟨db', w.mem⟩ := by
  refine ⟨_, run_clear .., ?_⟩
  unfold exec finishDelete
  rw [Proc.run_bind, dep.store.edge_store.idle _ _ _ _ _ _ _ hedges]
  rfl

/-- Nodes of a type lie apart from edges. -/
theorem Logged.noEdges {timestamp : Int} {op : CdcOperation} {db db' : Db} (h : Logged dep timestamp op db db')
    (hedges : NoEdges dep.database dep.ns db) : NoEdges dep.database dep.ns db' :=
  fun rest => (h.rows _ (edge_not_nodeRow _)).trans (hedges _)

/-- Every operation of a site in a namespace without edges has one of the
effects. -/
theorem Deployment.siteStep_effect (hschema : dep.schema? = some schema)
    (hdefaults : PlainDefaults schema) (hedges : NoEdges dep.database dep.ns w.db) (call : SiteCall)
    (hplain : Plain call.values) : SiteEffect dep schema w (dep.siteStep w call) := by
  cases call with
  | create properties clock =>
    obtain hidle | htaken | ⟨entries, _, _, hvalid, hplan, hrun, heq⟩ :=
      create_node_exec hschema ..
    · exact .idle hidle
    · exact .taken htaken
    · rw [siteStep, heq]
      exact .created (hplain.apply_defaults hdefaults) hvalid (create_txn_change hplan hrun)
        (create_txn_logged hplan hrun) rfl
  | update node_id patch clock =>
    obtain hidle | ⟨id, d, _, _, _, _, hid, hrecord, howner, hvalid, hplan, hrun, heq⟩ :=
      update_node_exec hschema ..
    · exact .idle hidle
    · rw [siteStep, heq]
      exact .changed (.update hid hrecord howner hvalid hplain (update_txn_change hplan hrun).1)
        (update_txn_logged hplan hrun) rfl
  | delete node_id clock =>
    obtain hidle | ⟨id, d, _, _, db', hid, hrecord, howner, hplan, hrun, heq⟩ :=
      delete_node_exec hschema ..
    · exact .idle hidle
    · have hlogged := delete_txn_logged hplan hrun
      obtain ⟨db'', hclear, hfinish⟩ := finishDelete_exec ⟨db', w.mem⟩ _ id (hlogged.noEdges hedges)
      have hagree := finishDelete_agree dep node_id id ⟨db', w.mem⟩
      rw [hfinish] at hagree
      rw [siteStep, heq, hfinish]
      exact .changed
        (.delete hid hrecord howner ((delete_txn_change hplan hrun).congr (.refl _ _) hagree))
        (hlogged.before (silent_clear _) ((touches_clear _).mpr (nodeRow_delete_guard_key _)) hclear) rfl
  | transfer node_id target clock =>
    obtain hidle | ⟨id, d, db', hid, hrecord, howner, hrun, heq⟩ :=
      transfer_ownership_exec _ w ..
    · exact .idle hidle
    · rw [siteStep, heq]
      have hrows : db'.rows =
          (dep.putRecord w.db id { d with locality := target, updated_at := clock.now }).rows := by
        obtain ⟨⟩ := hrun
        rfl
      exact .changed (.transfer hid hrecord howner hrows) (transfer_txn_logged hrun) rfl

end Effects

end pelago_storage.node
