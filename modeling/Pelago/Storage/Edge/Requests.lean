import Pelago.Storage.Edge.Lists

open bytes kv pelago_core pelago_core.encoding
open pelago_storage.index pelago_storage.term_index pelago_storage.node
open pelago_storage.Subspace (of_namespace)

namespace pelago_storage.edge

open Proc

section

variable {database ns entity_type : String}

theorem edgeKey_not_nodeRow {k : Bytes} (h : EdgeKey k) : ¬ NodeRow database ns entity_type k := by
  rintro (hindex | ⟨rest, rfl⟩)
  · exact edgeKey_not_indexRow h hindex
  · obtain ⟨database', _, _, heq⟩ := h
    exact edge_ne_data heq.symm

/-- A transaction on nodes of a type. -/
abbrev NodeTx (database ns entity_type : String) (t : Tx Unit) : Prop :=
  t.Touches (fun _ => True) (NodeRow database ns entity_type)

theorem NodeTx.keep {t : Tx Unit} (ht : NodeTx database ns entity_type t)
    {schemas : Schemas} {Put : EdgeAt → Db → Prop} {Drop : EdgeAt → Prop} {Other : Db → Db → Prop} {db db' : Db}
    (hrun : t.run db = .ok ((), db')) (hother : Other db db') : EdgeEffect schemas Put Drop Other db db' :=
  .keep hother fun _ hk => ht.get_eq hrun (edgeKey_not_nodeRow hk)

/-- No record comes into the namespace. -/
def RecordsLeave (database ns : String) (db db' : Db) : Prop :=
  ∀ (entity_type : String) (id : NodeId),
    db.rows.get (data_key (Subspace.of_namespace database ns).data entity_type id.to_bytes) = none →
    db'.rows.get (data_key (Subspace.of_namespace database ns).data entity_type id.to_bytes) = none

/-- A row that a deletion writes besides the record. -/
def Beside (database ns entity_type : String) (k : Bytes) : Prop :=
  (∃ id : NodeId, k = delete_guard_key (Subspace.of_namespace database ns).data entity_type id.to_bytes) ∨
    IndexRow (Subspace.of_namespace database ns) entity_type k

theorem not_beside_data_key (entity_type' : String) (id : NodeId) : ¬ Beside database ns entity_type
      (data_key (of_namespace database ns).data entity_type' id.to_bytes) := by
  rintro (⟨id', hguard⟩ | hindex)
  · exact data_key_ne_delete_guard_key _ _ _ _ hguard
  · exact data_key_not_indexRow _ _ hindex

theorem recordsLeave_of_beside {t : Tx Unit}
    (ht : t.Touches (fun _ => True) (Beside database ns entity_type)) {db db' : Db}
    (hrun : t.run db = .ok ((), db')) : RecordsLeave database ns db db' := by
  intro _ id hnone
  rw [ht.get_eq hrun (not_beside_data_key _ id), hnone]

/-- The record is removed, then rows besides records are written. -/
theorem recordsLeave_of_clear {id : NodeId} {t : Tx Unit}
    (ht : t.Touches (fun _ => True) (Beside database ns entity_type)) {db db' : Db}
    (hrun : (Tx.clear (data_key (of_namespace database ns).data entity_type id.to_bytes) >>=
      fun _ => t).run db = .ok ((), db')) : RecordsLeave database ns db db' ∧
      db'.rows.get (data_key (of_namespace database ns).data entity_type id.to_bytes) = none := by
  obtain ⟨_, _, hclear, hrest⟩ := Tx.run_bind_eq_ok.mp hrun
  cases hclear
  have hleave := recordsLeave_of_beside ht hrest
  refine ⟨fun _ id' hnone => hleave _ _ ?_, hleave _ id ?_⟩
  · rw [OrdMap.get_clear]
    split
    · rfl
    · exact hnone
  · exact OrdMap.get_clear_self ..

section Deletions

variable {self : NodeStore} {database ns entity_type node_id : String} {schema : EntitySchema} {id : NodeId}
  {C : Tx Unit → Prop}

/-- What the transactions of `delete_node` are. -/
theorem delete_node_commits (clock : Clock)
    (hdelete : ∀ schema id old removals postings, NodeId.from_str node_id = some id →
      IndexPlan (of_namespace database ns) entity_type schema id.to_bytes old none removals [] ⟨[], postings⟩ (-1) →
      C (delete_txn self database ns entity_type node_id id.to_bytes removals postings clock))
    (hguard : ∀ id, C (.clear (delete_guard_key (of_namespace database ns).data entity_type
      (NodeId.to_bytes id))))
    (hcascade : (self.edge_store.delete_edges_for_node_internal database ns entity_type node_id true).Commits C
      fun _ => True) : (delete_node self database ns entity_type node_id clock).Commits C fun _ => True := by
  refine delete_node_cases _ _ _ _ _ _ (fun _ => trivial) fun _ id next _ hid hnext cell => ?_
  have hcell := hnext cell
  generalize next cell = p at hcell ⊢
  cases hcell with
  | absent | fail => trivial
  | commit _ hplan =>
    refine ⟨hdelete _ id _ _ _ hid hplan, .bind hcascade fun _ _ => ?_⟩
    exact commits_commit_bind (hguard id) trivial

/-- What the transactions of `apply_replica_node_delete` are. -/
theorem apply_replica_node_delete_commits (event_timestamp : Int) (origin_site : String)
    (hdelete : ∀ schema id old removals postings, NodeId.from_str node_id = some id →
      IndexPlan (of_namespace database ns) entity_type schema id.to_bytes old none removals []
        ⟨[], postings⟩ (-1) →
      C (do
        .clear (data_key (of_namespace database ns).data entity_type (NodeId.to_bytes id))
        change_index_rows (of_namespace database ns) entity_type removals [] ⟨[], postings⟩ (-1)))
    (hcascade : (self.edge_store.delete_edges_for_node_internal database ns entity_type node_id false).Commits C
      fun _ => True) :
    (apply_replica_node_delete self database ns entity_type node_id event_timestamp origin_site).Commits C
      fun _ => True := by
  refine apply_replica_node_delete_cases _ _ _ _ _ _ _ (fun _ => trivial) fun _ id _ next _ hid hnext cell => ?_
  have hcell := hnext cell
  generalize next cell = p at hcell ⊢
  cases hcell with
  | absent | broken | stale => trivial
  | commit _ hplan =>
    exact ⟨hdelete _ id _ _ _ hid hplan, .bind hcascade fun _ _ => commits_pure trivial⟩

variable {old : Option Properties} {removals : List IndexEntry}

theorem beside_plan {new : Option Properties} {additions : List IndexEntry}
    {changes : TermPostingChanges} {n_docs_delta : Int}
    (hplan : IndexPlan (of_namespace database ns) entity_type schema id.to_bytes old new removals additions
      changes n_docs_delta) : (change_index_rows (of_namespace database ns) entity_type removals additions changes
      n_docs_delta).Touches (fun _ => True) (Beside database ns entity_type) :=
  hplan.touches.mono (fun _ _ => trivial) fun _ => .inr

theorem nodeTx_plan {new : Option Properties} {additions : List IndexEntry}
    {changes : TermPostingChanges} {n_docs_delta : Int}
    (hplan : IndexPlan (of_namespace database ns) entity_type schema id.to_bytes old new removals additions
      changes n_docs_delta) : NodeTx database ns entity_type
      (change_index_rows (of_namespace database ns) entity_type removals additions changes n_docs_delta) :=
  hplan.touches.mono (fun _ _ => trivial) fun _ => nodeRow_of_indexRow

/-- The rest of the write transaction of `delete_node`. -/
theorem beside_delete_txn {clock : Clock}
    {postings : List TermPosting}
    (hplan : IndexPlan (of_namespace database ns) entity_type schema id.to_bytes old none removals []
      ⟨[], postings⟩ (-1)) :
    Tx.Touches (fun _ => True) (Beside database ns entity_type) (do
      .set (delete_guard_key (of_namespace database ns).data entity_type id.to_bytes) (.raw [0x31])
      change_index_rows (of_namespace database ns) entity_type removals [] ⟨[], postings⟩ (-1)
      node.cdc_flush self database ns clock [.NodeDelete entity_type node_id]) := by
  refine Tx.touches_bind ((Tx.touches_set ..).mpr (.inl ⟨id, rfl⟩)) fun _ => ?_
  refine Tx.touches_bind (beside_plan hplan) fun _ => ?_
  unfold node.cdc_flush
  split <;> trivial

theorem nodeTx_delete_txn {clock : Clock} {postings : List TermPosting}
    (hplan : IndexPlan (of_namespace database ns) entity_type schema id.to_bytes old none removals []
      ⟨[], postings⟩ (-1)) : NodeTx database ns entity_type
      (delete_txn self database ns entity_type node_id id.to_bytes removals postings clock) := by
  refine Tx.touches_bind ((Tx.touches_clear _).mpr (nodeRow_data_key _)) fun _ => ?_
  refine Tx.touches_bind ((Tx.touches_set ..).mpr (nodeRow_delete_guard_key _)) fun _ => ?_
  refine Tx.touches_bind (nodeTx_plan hplan) fun _ => ?_
  unfold node.cdc_flush
  split <;> trivial

end Deletions

section Effects

variable (self : Store) (database ns entity_type node_id : String) {Put : EdgeAt → Db → Prop}

theorem delete_node_effects (clock : Clock) :
    (delete_node self.node_store database ns entity_type node_id clock).Effects
      (EdgeEffect self.get_schema Put EdgeAt.Home (RecordsLeave database ns)) fun _ => True := by
  refine delete_node_commits _ (fun _ _ _ _ _ _ hplan _ _ hrun => (nodeTx_delete_txn hplan).keep hrun
    (recordsLeave_of_clear (beside_delete_txn hplan) hrun).1)
    (fun id _ _ hrun => ?_) (delete_edges_for_node_effects _ _ ns _ _ _)
  have hguard : NodeTx database ns entity_type
      (.clear (delete_guard_key (of_namespace database ns).data entity_type id.to_bytes)) :=
    (Tx.touches_clear _).mpr (nodeRow_delete_guard_key _)
  exact hguard.keep hrun (recordsLeave_of_beside ((Tx.touches_clear _).mpr (.inl ⟨id, rfl⟩)) hrun)

theorem apply_replica_node_delete_effects (event_timestamp : Int) (origin_site : String) :
    (apply_replica_node_delete self.node_store database ns entity_type node_id event_timestamp
      origin_site).Effects (EdgeEffect self.get_schema Put EdgeAt.Home (RecordsLeave database ns)) fun _ => True :=
  apply_replica_node_delete_commits _ _
    (fun _ _ _ _ _ _ hplan _ _ hrun => NodeTx.keep
      (Tx.touches_bind ((Tx.touches_clear _).mpr (nodeRow_data_key _)) fun _ => nodeTx_plan hplan) hrun
      (recordsLeave_of_clear (beside_plan hplan) hrun).1)
    (delete_edges_for_node_effects _ _ ns _ _ _)

end Effects

end

open Tx

section NodeTransactions

variable {self : NodeStore} {database ns entity_type node_id : String} {schema : EntitySchema} {id : NodeId}
  {clock : Clock}

private theorem nodeTx_flush (operations : List CdcOperation) :
    NodeTx database ns entity_type (node.cdc_flush self database ns clock operations) := by
  unfold node.cdc_flush
  split <;> trivial

private theorem nodeTx_set_record (c : Cell) : NodeTx database ns entity_type
      (set (data_key (of_namespace database ns).data entity_type (NodeId.to_bytes id)) c) :=
  (touches_set ..).mpr (nodeRow_data_key _)

theorem nodeTx_create_txn {properties : Properties} {entries : List IndexEntry} {postings : List TermPosting}
    (hplan : IndexPlan (of_namespace database ns) entity_type schema id.to_bytes none (some properties) []
      entries ⟨postings, []⟩ 1) : NodeTx database ns entity_type
      (create_txn self database ns entity_type properties id entries postings clock) :=
  touches_bind (nodeTx_set_record _) fun _ => touches_bind (nodeTx_plan hplan) fun _ => nodeTx_flush _

theorem nodeTx_update_txn {unique : List (String × Value)} {data : NodeData} {old merged patch : Properties}
    {removals additions : List IndexEntry} {changes : TermPostingChanges}
    (hplan : IndexPlan (of_namespace database ns) entity_type schema id.to_bytes (some old) (some merged)
      removals additions changes 0) :
    NodeTx database ns entity_type (update_txn self database ns entity_type node_id id.to_bytes unique removals
      additions changes data patch old clock) := by
  refine touches_bind (touches_forEach fun _ _ => ?_) fun _ => touches_bind (nodeTx_plan hplan) fun _ =>
    touches_bind (nodeTx_set_record _) fun _ => nodeTx_flush _
  refine touches_bind (touches_ofExcept _) fun _ =>
    touches_bind ((touches_get _).mpr trivial) fun cell => ?_
  cases cell with
  | none => exact touches_pure _
  | some =>
    dsimp only
    split
    · exact touches_fail _
    · exact touches_pure _

end NodeTransactions

/-- A request on nodes writes rows of nodes only. -/
abbrev NodeRequest {α : Type} (database ns entity_type : String) (p : Proc α) : Prop :=
  p.Commits (NodeTx database ns entity_type) fun _ => True

section NodeRequests

variable (self : NodeStore) (database ns entity_type node_id : String) (clock : Clock)

theorem create_node_request (properties : Properties) :
    NodeRequest database ns entity_type (create_node self database ns entity_type properties clock) := by
  refine create_node_cases _ _ _ _ _ _ (fun _ => trivial) fun _ _ _ _ hnext => ?_
  refine (check_all_readOnly ..).quiet.bind fun _ => fun id => ?_
  obtain ⟨entries, _, hplan, hid⟩ := hnext id
  rw [hid]
  exact ⟨nodeTx_create_txn hplan, trivial⟩

theorem update_node_request (new_properties : Properties) : NodeRequest database ns entity_type
      (update_node self database ns entity_type node_id new_properties clock) := by
  refine update_node_cases _ _ _ _ _ _ _ (fun _ => trivial) fun _ _ next _ _ hnext cell => ?_
  have hcell := hnext cell
  generalize next cell = p at hcell ⊢
  cases hcell with
  | fail => trivial
  | commit _ _ hplan => exact ⟨nodeTx_update_txn hplan, trivial⟩

theorem transfer_ownership_request (target_site_id : UInt8) : NodeRequest database ns entity_type
      (transfer_ownership self database ns entity_type node_id target_site_id clock) := by
  refine commits_ofExcept_bind fun _ _ => commits_read_bind fun cell => ?_
  cases cell with
  | none => trivial
  | some =>
    refine commits_ofExcept_bind fun _ _ => commits_ofExcept_bind fun _ _ => ?_
    split
    · trivial
    · exact commits_commit_bind (touches_bind (nodeTx_set_record _) fun _ => nodeTx_flush _) trivial

variable (event_timestamp : Int) (origin_site : String)

theorem apply_replica_node_create_request (properties : Properties) (home_site : String) :
    NodeRequest database ns entity_type (apply_replica_node_create self database ns entity_type node_id properties
      home_site event_timestamp origin_site) := by
  refine apply_replica_node_create_cases _ _ _ _ _ _ _ _ _ (fun _ => trivial) fun _ _ _ next _ _ _ hnext cell => ?_
  have hcell := hnext cell
  generalize next cell = p at hcell ⊢
  cases hcell with
  | broken | present => trivial
  | commit hplan => exact ⟨touches_bind (nodeTx_set_record _) fun _ => nodeTx_plan hplan, trivial⟩

theorem apply_replica_node_update_request (changed old_properties : Properties) :
    NodeRequest database ns entity_type (apply_replica_node_update self database ns entity_type node_id changed
      old_properties event_timestamp origin_site) := by
  refine apply_replica_node_update_cases _ _ _ _ _ _ _ _ _ (fun _ => trivial) fun _ _ _ next _ _ hnext cell => ?_
  have hcell := hnext cell
  generalize next cell = p at hcell ⊢
  cases hcell with
  | absent | broken | stale | invalid => trivial
  | commit _ _ hplan =>
    exact ⟨touches_bind (nodeTx_plan hplan) fun _ => nodeTx_set_record _, trivial⟩

theorem apply_replica_ownership_transfer_request (previous_site_id current_site_id : String) :
    NodeRequest database ns entity_type (apply_replica_ownership_transfer database ns entity_type node_id
      previous_site_id current_site_id event_timestamp origin_site) := by
  refine commits_ofExcept_bind fun _ _ => commits_ofExcept_bind fun _ _ => ?_
  refine commits_ofExcept_bind fun _ _ => ?_
  split
  · trivial
  refine commits_ofExcept_bind fun _ _ => commits_read_bind fun cell => ?_
  cases cell with
  | none => trivial
  | some =>
    refine commits_ofExcept_bind fun _ _ => ?_
    split
    · trivial
    · exact commits_commit_bind (nodeTx_set_record _) trivial

end NodeRequests

/-- The requests of node and edge storage that write. -/
inductive StorageCall where
  | create_node (database ns entity_type : String) (properties : Properties) (clock : Clock)
  | update_node (database ns entity_type node_id : String) (new_properties : Properties) (clock : Clock)
  | delete_node (database ns entity_type node_id : String) (clock : Clock)
  | transfer_ownership (database ns entity_type node_id : String) (target_site_id : UInt8) (clock : Clock)
  | apply_replica_node_create (database ns entity_type node_id : String) (properties : Properties)
      (home_site : String) (event_timestamp : Int) (origin_site : String)
  | apply_replica_node_update (database ns entity_type node_id : String) (changed old_properties : Properties)
      (event_timestamp : Int) (origin_site : String)
  | apply_replica_node_delete (database ns entity_type node_id : String) (event_timestamp : Int)
      (origin_site : String)
  | apply_replica_ownership_transfer (database ns entity_type node_id previous_site_id current_site_id : String)
      (event_timestamp : Int) (origin_site : String)
  | create_edge (database ns : String) (source target : NodeRef) (label : String) (properties : Properties)
      (clock : Clock) (returned_at : Int)
  | delete_edge (database ns : String) (source target : NodeRef) (label : String) (clock : Clock)
  | apply_replica_edge_create (database ns : String) (source target : NodeRef) (label edge_id : String)
      (properties : Properties) (event_timestamp : Int) (origin_site : String)
  | apply_replica_edge_delete (database ns : String) (source target : NodeRef) (label : String)
      (event_timestamp : Int) (origin_site : String)
  | delete_edges_for_node (database ns entity_type node_id : String)
  | delete_edges_for_node_replica (database ns entity_type node_id : String)

/-- The request, with its result left out. -/
def StorageCall.proc (self : Store) : StorageCall → Proc Unit
  | create_node database ns entity_type properties clock => do
    let _ ← node.create_node self.node_store database ns entity_type properties clock
  | update_node database ns entity_type node_id new_properties clock => do
    let _ ← node.update_node self.node_store database ns entity_type node_id new_properties clock
  | delete_node database ns entity_type node_id clock => do
    let _ ← node.delete_node self.node_store database ns entity_type node_id clock
  | transfer_ownership database ns entity_type node_id target_site_id clock => do
    let _ ← node.transfer_ownership self.node_store database ns entity_type node_id target_site_id clock
  | apply_replica_node_create database ns entity_type node_id properties home_site event_timestamp origin_site => do
    let _ ← node.apply_replica_node_create self.node_store database ns entity_type node_id properties home_site
      event_timestamp origin_site
  | apply_replica_node_update database ns entity_type node_id changed old_properties event_timestamp
      origin_site => do
    let _ ← node.apply_replica_node_update self.node_store database ns entity_type node_id changed old_properties
      event_timestamp origin_site
  | apply_replica_node_delete database ns entity_type node_id event_timestamp origin_site => do
    let _ ← node.apply_replica_node_delete self.node_store database ns entity_type node_id event_timestamp
      origin_site
  | apply_replica_ownership_transfer database ns entity_type node_id previous_site_id current_site_id
      event_timestamp origin_site => do
    let _ ← node.apply_replica_ownership_transfer database ns entity_type node_id previous_site_id
      current_site_id event_timestamp origin_site
  | create_edge database ns source target label properties clock returned_at => do
    let _ ← edge.create_edge self database ns source target label properties clock returned_at
  | delete_edge database ns source target label clock => do
    let _ ← edge.delete_edge self database ns source target label clock
  | apply_replica_edge_create database ns source target label edge_id properties event_timestamp origin_site => do
    let _ ← edge.apply_replica_edge_create self database ns source target label edge_id properties
      event_timestamp origin_site
  | apply_replica_edge_delete database ns source target label event_timestamp origin_site => do
    let _ ← edge.apply_replica_edge_delete self database ns source target label event_timestamp origin_site
  | delete_edges_for_node database ns entity_type node_id => do
    let _ ← edge.delete_edges_for_node self database ns entity_type node_id
  | delete_edges_for_node_replica database ns entity_type node_id => do
    let _ ← edge.delete_edges_for_node_replica self database ns entity_type node_id

/-- Edges are created in the namespace of their source. -/
def StorageCall.Home : StorageCall → Prop
  | create_edge database ns source _ _ _ _ _ => database = source.database ∧ ns = source.ns
  | apply_replica_edge_create database ns source _ _ _ _ _ _ => database = source.database ∧ ns = source.ns
  | _ => True

section Effects

variable {self : Store} {Put : EdgeAt → Db → Prop} {Drop : EdgeAt → Prop}

private theorem NodeRequest.effects {α : Type} {database ns entity_type : String} {p : Proc α}
    (h : NodeRequest database ns entity_type p) :
    (do let _ ← p).Effects (EdgeEffect self.get_schema Put Drop fun _ _ => True) fun _ => True :=
  .bind (.mono h (fun _ ht _ _ hrun => ht.keep hrun trivial) fun _ h => h) fun _ _ => commits_pure trivial

private theorem ignored_effects {α : Type} {p : Proc α} {Put' : EdgeAt → Db → Prop} {Drop' : EdgeAt → Prop}
    (h : p.Effects (EdgeEffect self.get_schema Put' Drop' fun _ _ => True) fun _ => True)
    (hput : ∀ e db, Put' e db → Put e db) (hdrop : ∀ e, Drop' e → Drop e) :
    (do let _ ← p).Effects (EdgeEffect self.get_schema Put Drop fun _ _ => True) fun _ => True :=
  .bind (h.mono (fun _ _ heffect => heffect.mono hput hdrop) fun _ h => h) fun _ _ => commits_pure trivial

/-- Every request that writes edges writes all rows of one, or removes all rows
of some. -/
theorem StorageCall.proc_effects (self : Store) (call : StorageCall) : (call.proc self).Effects
      (EdgeEffect self.get_schema (fun e _ => call.Home → e.Home) (fun _ => True) fun _ _ => True)
      fun _ => True := by
  cases call with
  | create_node database ns entity_type properties clock =>
    exact (create_node_request _ _ ns _ _ _).effects
  | update_node database ns entity_type node_id new_properties clock =>
    exact (update_node_request _ _ ns ..).effects
  | delete_node database ns entity_type node_id clock =>
    exact ignored_effects ((delete_node_effects _ _ ns ..).mono
      (fun _ _ h => h.weaken fun _ _ _ => trivial) fun _ h => h) (fun _ _ h => h) fun _ _ => trivial
  | transfer_ownership database ns entity_type node_id target_site_id clock =>
    exact (transfer_ownership_request _ _ ns _ _ _ _).effects
  | apply_replica_node_create database ns entity_type node_id properties home_site event_timestamp origin_site =>
    exact (apply_replica_node_create_request _ _ ns ..).effects
  | apply_replica_node_update database ns entity_type node_id changed old_properties event_timestamp origin_site =>
    exact (apply_replica_node_update_request _ _ ns _ _ ..).effects
  | apply_replica_node_delete database ns entity_type node_id event_timestamp origin_site =>
    exact ignored_effects ((apply_replica_node_delete_effects _ _ ns ..).mono (fun _ _ h => h.weaken fun _ _ _ => trivial) fun _ h => h) (fun _ _ h => h)
      fun _ _ => trivial
  | apply_replica_ownership_transfer database ns entity_type node_id previous_site_id current_site_id
      event_timestamp origin_site =>
    exact (apply_replica_ownership_transfer_request _ ns _ _ ..).effects
  | create_edge database ns source target label properties clock returned_at =>
    refine ignored_effects (create_edge_effects _ _ ns ..)
      ?_ fun _ h => h.elim
    rintro e _ ⟨rfl, _⟩ hhome
    exact hhome
  | delete_edge database ns source target label clock =>
    exact ignored_effects (delete_edge_effects _ _ ns ..)
      (fun _ _ h => h.elim) fun _ _ => trivial
  | apply_replica_edge_create database ns source target label edge_id properties event_timestamp origin_site =>
    refine ignored_effects (apply_replica_edge_create_effects _ _ ns ..) ?_ fun _ h => h.elim
    rintro e _ rfl hhome
    exact hhome
  | apply_replica_edge_delete database ns source target label event_timestamp origin_site =>
    exact ignored_effects (apply_replica_edge_delete_effects _ _ ns ..) (fun _ _ h => h.elim) fun _ _ => trivial
  | delete_edges_for_node database ns entity_type node_id =>
    exact ignored_effects (delete_edges_for_node_effects _ _ ns _ _ _)
      (fun _ _ h => h) fun _ _ => trivial
  | delete_edges_for_node_replica database ns entity_type node_id =>
    exact ignored_effects (delete_edges_for_node_effects _ _ ns _ _ _)
      (fun _ _ h => h) fun _ _ => trivial

end Effects

end pelago_storage.edge
