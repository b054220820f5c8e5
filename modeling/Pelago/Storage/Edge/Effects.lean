import Pelago.Kv.Effects
import Pelago.Storage.Edge.Mutations
import Pelago.Storage.Node.ReplicaShapes

open bytes kv pelago_core pelago_core.encoding
open pelago_storage.node (data_key parse_node_id)
open List kv.OrdMap

namespace pelago_storage.edge

/-- The registered schemas. -/
abbrev Schemas := (database ns entity_type : String) → Option EntitySchema

/-- The rows of an edge. -/
abbrev EdgeAt.rows (schemas : Schemas) (e : EdgeAt) : List Bytes :=
  (e.keys (schemas e.source.database e.source.ns e.source.entity_type)).all_keys

/-- The record of an edge. -/
structure RecordOf (e : EdgeAt) (data : EdgeData) : Prop where
  source : data.source = some e.source
  target : data.target = some e.target
  label : data.label = some e.label
  properties : data.properties = storedProperties e.properties

/-- The node has a record. -/
def Live (node : NodeRef) (db : Db) : Prop :=
  ∃ id c, NodeId.from_str node.node_id = some id ∧
    db.rows.get (data_key (Subspace.of_namespace node.database node.ns).data node.entity_type id.to_bytes) = some c

/-- The node has a record, which belongs to the site. -/
def StoredAt (node : NodeRef) (locality : UInt8) (db : Db) : Prop :=
  ∃ id d, NodeId.from_str node.node_id = some id ∧ d.locality = locality ∧
    db.rows.get (data_key (Subspace.of_namespace node.database node.ns).data node.entity_type id.to_bytes) =
      some (.node d)

theorem StoredAt.live {node : NodeRef} {locality : UInt8} {db : Db} (h : StoredAt node locality db) :
    Live node db := by
  obtain ⟨id, d, hid, _, hget⟩ := h
  exact ⟨id, .node d, hid, hget⟩

/-- What a write transaction does to edges: it writes all rows of one edge,
removes all rows of some, or leaves edges alone and does something else. -/
inductive EdgeEffect (schemas : Schemas) (Put : EdgeAt → Db → Prop) (Drop : EdgeAt → Prop)
    (Other : Db → Db → Prop) (db db' : Db) : Prop where
  | put (e : EdgeAt) (data : EdgeData) (hput : Put e db) (hdata : RecordOf e data)
      (hget : ∀ k, db'.rows.get k = if k ∈ e.rows schemas then some (.edge data) else db.rows.get k)
  | drop (edges : List EdgeAt) (hdrop : ∀ e ∈ edges, Drop e)
      (hget : ∀ k, db'.rows.get k = if k ∈ edges.flatMap (EdgeAt.rows schemas) then none else db.rows.get k)
  | keep (hother : Other db db') (hget : ∀ k, EdgeKey k → db'.rows.get k = db.rows.get k)

theorem EdgeEffect.mono {schemas : Schemas} {Put Put' : EdgeAt → Db → Prop} {Drop Drop' : EdgeAt → Prop}
    {Other : Db → Db → Prop} {db db' : Db} (h : EdgeEffect schemas Put Drop Other db db')
    (hput : ∀ e db, Put e db → Put' e db) (hdrop : ∀ e, Drop e → Drop' e) :
    EdgeEffect schemas Put' Drop' Other db db' := by
  cases h with
  | put e data h hdata hget => exact .put e _ (hput e db h) hdata hget
  | drop edges h hget => exact .drop edges (fun e he => hdrop e (h e he)) hget
  | keep hother hget => exact .keep hother hget

theorem EdgeEffect.weaken {schemas : Schemas} {Put : EdgeAt → Db → Prop} {Drop : EdgeAt → Prop}
    {Other Other' : Db → Db → Prop} {db db' : Db} (h : EdgeEffect schemas Put Drop Other db db')
    (hother : ∀ db db', Other db db' → Other' db db') : EdgeEffect schemas Put Drop Other' db db' := by
  cases h with
  | put e data h hdata hget => exact .put e _ h hdata hget
  | drop edges h hget => exact .drop edges h hget
  | keep h hget => exact .keep (hother db _ h) hget

section Transactions

variable {db db' : Db}

theorem run_set_edge_rows (keys : EdgeKeys) (c : Cell) (db : Db) :
    ∃ db', (set_edge_rows keys c).run db = .ok ((), db') ∧ db'.journal = db.journal ∧
      ∀ k, db'.rows.get k = if k ∈ keys.all_keys then some c else db.rows.get k := by
  obtain ⟨f, m, r, twins⟩ := keys
  cases twins <;> refine ⟨_, rfl, rfl, fun k => ?_⟩ <;>
  simp only [get_set, EdgeKeys.all_keys, append_nil, cons_append, nil_append, mem_cons, not_mem_nil, or_false] <;>
  grind

theorem run_clear_edge_rows (keys : EdgeKeys) (db : Db) :
    ∃ db', (clear_edge_rows keys).run db = .ok ((), db') ∧ db'.journal = db.journal ∧
      ∀ k, db'.rows.get k = if k ∈ keys.all_keys then none else db.rows.get k := by
  obtain ⟨f, m, r, twins⟩ := keys
  cases twins <;> refine ⟨_, rfl, rfl, fun k => ?_⟩ <;>
  simp only [get_clear, EdgeKeys.all_keys, append_nil, cons_append, nil_append, mem_cons, not_mem_nil, or_false] <;>
  grind

theorem cdc_flush_rows {self : Store} {database ns : String} {cdc_now : Int} {operations : List CdcOperation}
    (hrun : (cdc_flush self database ns cdc_now operations).run db = .ok ((), db')) : db'.rows = db.rows := by
  unfold cdc_flush at hrun
  split at hrun <;> cases hrun <;> rfl

theorem from_str_of_parse {node_id : String} {id : NodeId} (h : parse_node_id node_id = .ok id) :
    NodeId.from_str node_id = some id := by
  unfold parse_node_id at h
  split at h <;> simp_all

theorem run_read_node_locality {node : NodeRef} {found : Option UInt8}
    (hrun : (read_node_locality_in_txn node).run db = .ok (found, db')) :
    db' = db ∧ ∀ locality, found = some locality → StoredAt node locality db := by
  obtain ⟨id, hid, hrun⟩ := Tx.run_ofExcept_bind_eq_ok.mp hrun
  rw [Tx.run_get_bind] at hrun
  split at hrun
  · rename_i c hc
    obtain ⟨d, hd, hrun⟩ := Tx.run_ofExcept_bind_eq_ok.mp hrun
    cases hrun
    rw [decode_cbor_eq_ok.mp hd] at hc
    exact ⟨rfl, fun _ h => ⟨id, d, from_str_of_parse hid, Option.some.inj h, hc⟩⟩
  · cases hrun
    exact ⟨rfl, fun _ h => by cases h⟩

theorem run_node_delete_guard_exists {node : NodeRef} {guarded : Bool}
    (hrun : (node_delete_guard_exists_in_txn node).run db = .ok (guarded, db')) : db' = db := by
  obtain ⟨id, _, hrun⟩ := Tx.run_ofExcept_bind_eq_ok.mp hrun
  cases hrun
  rfl

/-- An edge is written only between nodes with records, and by the site of its
source. -/
theorem run_check_endpoints {self : Store} {source target : NodeRef}
    (hrun : (check_endpoints self source target).run db = .ok ((), db')) : db' = db ∧
      (∃ locality, StoredAt source locality db ∧
        enforce_source_ownership self source.entity_type source.node_id locality = .ok ()) ∧
      ∃ locality, StoredAt target locality db := by
  obtain ⟨guarded, mid, hguard, hrun⟩ := Tx.run_bind_eq_ok.mp hrun
  cases run_node_delete_guard_exists hguard
  split at hrun
  · cases hrun
  obtain ⟨guarded', mid, hguard', hrun⟩ := Tx.run_bind_eq_ok.mp hrun
  cases run_node_delete_guard_exists hguard'
  split at hrun
  · cases hrun
  obtain ⟨locality, _, hlocality, hrun⟩ := Tx.run_bind_eq_ok.mp hrun
  obtain ⟨rfl, hsource⟩ := run_read_node_locality hlocality
  cases locality with
  | none => cases hrun
  | some locality =>
    obtain ⟨_, howner, hrun⟩ := Tx.run_ofExcept_bind_eq_ok.mp hrun
    obtain ⟨locality', _, hlocality', hrun⟩ := Tx.run_bind_eq_ok.mp hrun
    obtain ⟨rfl, htarget⟩ := run_read_node_locality hlocality'
    cases locality' with
    | none => cases hrun
    | some locality' =>
      cases hrun
      exact ⟨rfl, ⟨locality, hsource _ rfl, howner⟩, locality', htarget _ rfl⟩

end Transactions

section Reads

open Proc

theorem get_node_quiet (database ns entity_type node_id : String) :
    (node.get_node database ns entity_type node_id).Quiet := by
  refine commits_ofExcept_bind fun _ _ => commits_read_bind fun v => ?_
  cases v with
  | none => trivial
  | some => exact commits_ofExcept_bind fun d _ => trivial

theorem get_source_quiet (source : NodeRef) : (get_source source).Quiet := by
  refine (get_node_quiet ..).bind fun found => ?_
  cases found <;> trivial

theorem get_target_quiet (target : NodeRef) : (get_target target).Quiet := by
  refine (get_node_quiet ..).bind fun found => ?_
  cases found <;> trivial

theorem find_in_rows_quiet (edge_subspace : Subspace) (source target : NodeRef) (label : String)
    (rows : List (Bytes × Cell)) : (find_in_rows edge_subspace source target label rows).Quiet := by
  induction rows with
  | nil => trivial
  | cons row _ ih =>
    have hread : (read_edge_data edge_subspace row).Quiet := by
      unfold read_edge_data
      split
      · trivial
      · refine commits_read_bind fun v => ?_
        cases v with
        | none => trivial
        | some => exact commits_ofExcept_bind fun d _ => trivial
    refine hread.bind fun found => ?_
    cases found with
    | none => exact ih
    | some =>
      dsimp only
      split
      · trivial
      · exact ih

theorem find_edge_data_quiet (database ns : String) (source target : NodeRef) (label : String) :
    (find_edge_data_by_endpoints database ns source target label).Quiet :=
  commits_scan_bind fun rows => find_in_rows_quiet _ _ _ _ _

theorem list_edges_quiet (database ns entity_type node_id : String) (label_filter : Option String)
    (limit : Nat) : (list_edges database ns entity_type node_id label_filter limit).Quiet := by
  have hlegacy : ∀ meta_start rows, (legacy_meta_rows meta_start rows limit).Quiet := by
    intro _ _
    unfold legacy_meta_rows
    split
    · exact fun _ => trivial
    · trivial
  exact commits_scan_bind fun rows => (hlegacy _ _).bind fun _ => commits_ofExcept fun _ _ => trivial

theorem list_incoming_edges_quiet (database ns entity_type node_id : String) (label_filter : Option String)
    (limit : Nat) : (list_incoming_edges database ns entity_type node_id label_filter limit).Quiet := by
  have hdata : ∀ edge_subspace row, (incoming_edge_data edge_subspace database ns row).Quiet := by
    intro _ _
    unfold incoming_edge_data
    split
    · trivial
    · split
      · exact find_edge_data_quiet _ _ _ _ _
      · trivial
  have hrow : ∀ edge_subspace row,
      (incoming_edge edge_subspace database ns entity_type node_id label_filter row).Quiet := by
    intro _ row
    exact (hdata _ _).bind fun _ => commits_pure trivial
  exact commits_scan_bind fun rows => quiet_collect (hrow _) _

end Reads

section Requests

open Proc

variable (self : Store)

theorem direction_eq {schema : EntitySchema} {label target_type : String} {direction : EdgeDirection}
    (h : validate_edge_type schema label target_type = .ok direction) :
    decide (direction = .Bidirectional) = is_bidirectional (some schema) label := by
  unfold validate_edge_type at h
  unfold is_bidirectional
  rw [Option.bind_some]
  cases hlabel : schema.edges.get label with
  | none =>
    rw [hlabel] at h
    dsimp only at h
    split at h <;> cases h
    rfl
  | some =>
    rw [hlabel] at h
    dsimp only at h ⊢
    split at h
    · split at h <;> cases h
      rfl
    · cases h
      rfl

theorem get_schema_of_lookup {source : NodeRef} {schema : EntitySchema}
    (h : lookup_schema self source = .ok schema) :
    self.get_schema source.database source.ns source.entity_type = some schema := by
  unfold lookup_schema at h
  split at h <;> simp_all

variable (database ns : String) (source target : NodeRef) (label : String) {Other : Db → Db → Prop}

/-- `create_edge` writes the edge, between nodes with records. -/
theorem create_edge_effects (properties : Properties) (clock : Clock) (returned_at : Int) :
    (create_edge self database ns source target label properties clock returned_at).Effects
      (EdgeEffect self.get_schema
        (fun e db => e = ⟨database, ns, source, target, label, properties⟩ ∧ Live source db ∧ Live target db)
        (fun _ => False) Other) fun _ => True := by
  refine commits_ofExcept_bind fun schema hschema => commits_ofExcept_bind fun _ hdirection => ?_
  refine commits_input_bind fun edge_id => commits_ofExcept_bind fun _ hkeys => ?_
  refine commits_commit_bind (fun _ _ hrun => ?_) trivial
  have hkeys' := compute_edge_keys_eq (some schema) ⟨database, ns, source, target, label, properties⟩
  rw [direction_eq hdirection, hkeys'] at hkeys
  cases hkeys
  obtain ⟨_, mid, hcheck, hrest⟩ := Tx.run_bind_eq_ok.mp hrun
  obtain ⟨hmid, ⟨_, hsource, _⟩, _, htarget⟩ := run_check_endpoints hcheck
  obtain ⟨_, mid', hset, hflush⟩ := Tx.run_bind_eq_ok.mp hrest
  obtain ⟨db'', hset', _, hget⟩ := run_set_edge_rows
    _
    _ _
  cases hset.symm.trans hset'
  subst hmid
  refine .put _
    (.stored ⟨edge_id.to_string, properties, clock.now, some source, some target, some label⟩)
    ⟨rfl, hsource.live, htarget.live⟩ ⟨rfl, rfl, rfl, rfl⟩ fun k => ?_
  rw [cdc_flush_rows hflush, hget, EdgeAt.rows, get_schema_of_lookup _ hschema]
  rfl

/-- The rows of an edge are removed. -/
private theorem drop_effect {Put : EdgeAt → Db → Prop} {Drop : EdgeAt → Prop} (e : EdgeAt) (hdrop : Drop e)
    {keys : EdgeKeys} {db db' : Db}
    (hkeys : compute_edge_keys (.of_namespace e.database e.ns) e.source e.target e.label
      (sort_key_for_label (self.get_schema e.source.database e.source.ns e.source.entity_type) e.label e.properties)
      (is_bidirectional (self.get_schema e.source.database e.source.ns e.source.entity_type) e.label) = .ok keys)
    (hget : ∀ k, db'.rows.get k = if k ∈ keys.all_keys then none else db.rows.get k) :
    EdgeEffect self.get_schema Put Drop Other db db' := by
  rw [compute_edge_keys_eq] at hkeys
  cases hkeys
  refine .drop [e] (fun _ he' => mem_singleton.mp he' ▸ hdrop) fun k => ?_
  rw [hget, flatMap_singleton]

/-- `delete_edge` removes all rows of one edge with the given ends. -/
theorem delete_edge_effects (clock : Clock) : (delete_edge self database ns source target label clock).Effects
      (EdgeEffect self.get_schema (fun _ _ => False)
        (fun e => ∃ properties, e = ⟨database, ns, source, target, label, properties⟩) Other) fun _ => True := by
  refine (get_source_quiet _).bind fun _ => commits_ofExcept_bind fun _ _ => ?_
  refine (find_edge_data_quiet _ _ _ _ _).bind fun found => ?_
  cases found with
  | none => trivial
  | some edge_data =>
    refine commits_ofExcept_bind fun keys hkeys => commits_read_bind fun row => ?_
    cases row with
    | none => trivial
    | some =>
      refine commits_commit_bind (fun db _ hrun => ?_) trivial
      obtain ⟨_, _, hclear, hflush⟩ := Tx.run_bind_eq_ok.mp hrun
      obtain ⟨db'', hclear', _, hget⟩ := run_clear_edge_rows _ db
      cases hclear.symm.trans hclear'
      refine drop_effect _ ⟨database, ns, source, target, label, edge_data.properties⟩ ⟨_, rfl⟩ hkeys fun k => ?_
      rw [cdc_flush_rows hflush, hget]

/-- `apply_replica_edge_create` writes the edge. -/
theorem apply_replica_edge_create_effects (edge_id : String) (properties : Properties)
    (event_timestamp : Int) (origin_site : String) :
    (apply_replica_edge_create self database ns source target label edge_id properties event_timestamp
      origin_site).Effects
      (EdgeEffect self.get_schema (fun e _ => e = ⟨database, ns, source, target, label, properties⟩)
        (fun _ => False) Other) fun _ => True := by
  refine commits_ofExcept_bind fun _ _ => (get_source_quiet _).bind fun _ => ?_
  refine (get_target_quiet _).bind fun _ => commits_ofExcept_bind fun schema hschema => ?_
  refine commits_ofExcept_bind fun _ hdirection => ?_
  split
  · trivial
  refine commits_ofExcept_bind fun _ hkeys => commits_read_bind fun row => ?_
  cases row with
  | some => trivial
  | none =>
    refine commits_commit_bind (fun db _ hrun => ?_) trivial
    have hkeys' := compute_edge_keys_eq (some schema) ⟨database, ns, source, target, label, properties⟩
    rw [direction_eq hdirection, hkeys'] at hkeys
    cases hkeys
    obtain ⟨db'', hset', _, hget⟩ := run_set_edge_rows
      _
      _ db
    cases hrun.symm.trans hset'
    refine .put _
      (.stored ⟨edge_id, properties, event_timestamp, some source, some target, some label⟩)
      rfl ⟨rfl, rfl, rfl, rfl⟩ fun k => ?_
    rw [hget, EdgeAt.rows, get_schema_of_lookup _ hschema]
    rfl

theorem apply_replica_edge_delete_effects (event_timestamp : Int) (origin_site : String) :
    (apply_replica_edge_delete self database ns source target label event_timestamp origin_site).Effects
      (EdgeEffect self.get_schema (fun _ _ => False)
        (fun e => ∃ properties, e = ⟨database, ns, source, target, label, properties⟩) Other) fun _ => True := by
  refine commits_ofExcept_bind fun _ _ => (get_source_quiet _).bind fun _ => ?_
  dsimp only
  split
  · trivial
  refine (find_edge_data_quiet _ _ _ _ _).bind fun found => ?_
  cases found with
  | none => trivial
  | some edge_data =>
    refine commits_ofExcept_bind fun keys hkeys => commits_read_bind fun row => ?_
    cases row with
    | none => trivial
    | some =>
      refine commits_commit_bind (fun db _ hrun => ?_) trivial
      obtain ⟨db'', hclear', _, hget⟩ := run_clear_edge_rows _ db
      cases hrun.symm.trans hclear'
      exact drop_effect _ ⟨database, ns, source, target, label, edge_data.properties⟩ ⟨_, rfl⟩ hkeys hget

end Requests

open Proc

/-- An edge kept in the namespace of its source. -/
def EdgeAt.Home (e : EdgeAt) : Prop := e.database = e.source.database ∧ e.ns = e.source.ns

/-- The edge that a cascade has planned to remove. -/
structure PlannedEdge.Of (schemas : Schemas) (planned : PlannedEdge) (e : EdgeAt) : Prop where
  home : e.Home
  source : e.source = planned.source
  target : e.target = planned.target
  label : e.label = planned.label
  keys : e.rows schemas = planned.keys.all_keys

section Plan

variable (self : Store)

/-- Every planned edge has the rows that its source's schema gives it. -/
theorem plan_edges_commits (candidates : List StoredEdge) (seen : List String) (planned : List PlannedEdge)
    (hplanned : ∀ p ∈ planned, ∃ e, p.Of self.get_schema e) :
    (plan_edges self candidates seen planned).Commits (fun _ => False)
      fun planned => ∀ p ∈ planned, ∃ e, p.Of self.get_schema e := by
  induction candidates generalizing seen planned with
  | nil => exact hplanned
  | cons edge _ ih =>
    unfold plan_edges
    split
    · exact ih _ _ hplanned
    refine (find_edge_data_quiet _ _ _ _ _).bind fun found => ?_
    cases found with
    | none => exact ih _ _ hplanned
    | some edge_data =>
      refine commits_ofExcept_bind fun keys hkeys => ?_
      have hkeys' := compute_edge_keys_eq
        (self.get_schema edge.source.database edge.source.ns edge.source.entity_type)
        ⟨edge.source.database, edge.source.ns, edge.source, edge.target, edge.label, edge_data.properties⟩
      have hrows := congrArg EdgeKeys.all_keys (Except.ok.inj (hkeys'.symm.trans hkeys))
      have hmore : ∀ p ∈ planned ++ [⟨keys, edge.source, edge.target, edge.label⟩], ∃ e, p.Of self.get_schema e := by
        intro p hp
        obtain hold | hnew := mem_append.mp hp
        · exact hplanned p hold
        · rw [mem_singleton.mp hnew]
          exact ⟨⟨edge.source.database, edge.source.ns, edge.source, edge.target, edge.label,
            edge_data.properties⟩, ⟨rfl, rfl⟩, rfl, rfl, rfl, hrows⟩
      dsimp only
      split
      · exact hmore
      · exact ih _ _ hmore

theorem run_clear_planned (planned : List PlannedEdge) (db : Db) :
    ∃ db', (Tx.forEach planned fun edge => clear_edge_rows edge.keys).run db = .ok ((), db') ∧
      db'.journal = db.journal ∧
      ∀ k, db'.rows.get k = if k ∈ planned.flatMap (·.keys.all_keys) then none else db.rows.get k := by
  induction planned generalizing db with
  | nil => exact ⟨db, rfl, rfl, fun k => by simp⟩
  | cons edge rest ih =>
    obtain ⟨mid, hclear, hjournal, hget⟩ := run_clear_edge_rows _ db
    obtain ⟨db', hrest, hjournal', hget'⟩ := ih _
    refine ⟨db', ?_, hjournal'.trans hjournal, fun k => ?_⟩
    · exact (Tx.run_bind_of_ok hclear).trans hrest
    · rw [hget', hget]
      by_cases h₁ : k ∈ edge.keys.all_keys <;> by_cases h₂ : k ∈ rest.flatMap (·.keys.all_keys) <;> simp [h₁, h₂]

/-- The edges of a plan. -/
theorem exists_edges {schemas : Schemas} {planned : List PlannedEdge} (h : ∀ p ∈ planned, ∃ e, p.Of schemas e) :
    ∃ edges : List EdgeAt, (∀ e ∈ edges, e.Home) ∧
      edges.flatMap (EdgeAt.rows schemas) = planned.flatMap (·.keys.all_keys) := by
  induction planned with
  | nil => exact ⟨[], by simp, rfl⟩
  | cons p _ ih =>
    obtain ⟨e, he⟩ := h p mem_cons_self
    obtain ⟨edges, hhome, hrows⟩ := ih fun p' hp' => h p' (mem_cons_of_mem _ hp')
    refine ⟨e :: edges, ?_, ?_⟩
    · simpa using ⟨he.home, hhome⟩
    · rw [flatMap_cons, flatMap_cons, he.keys, hrows]

theorem cascade_txn_effect {database ns : String} {emit_cdc : Bool} {cdc_now : Int} {planned : List PlannedEdge}
    (hplanned : ∀ p ∈ planned, ∃ e, p.Of self.get_schema e) {Put : EdgeAt → Db → Prop} {Other : Db → Db → Prop}
    {db db' : Db} (hrun : (cascade_txn self database ns emit_cdc cdc_now planned).run db = .ok ((), db')) :
    EdgeEffect self.get_schema Put EdgeAt.Home Other db db' := by
  obtain ⟨_, mid, hclear, hflush⟩ := Tx.run_bind_eq_ok.mp hrun
  obtain ⟨mid', hclear', _, hget⟩ := run_clear_planned _ db
  cases hclear.symm.trans hclear'
  obtain ⟨edges, hhome, hrows⟩ := exists_edges hplanned
  have hrows' : db'.rows = mid.rows := by
    split at hflush
    · exact cdc_flush_rows hflush
    · cases hflush
      rfl
  exact .drop edges hhome fun k => by rw [hrows', hget, hrows]

variable (database ns entity_type node_id : String) (emit_cdc : Bool)

/-- Each round of a cascade removes all rows of some edges. -/
theorem cascade_commits {C : Tx Unit → Prop} (rounds total_deleted : Nat)
    (hC : ∀ cdc_now planned, (∀ p ∈ planned, ∃ e, p.Of self.get_schema e) →
      C (cascade_txn self database ns emit_cdc cdc_now planned)) :
    (cascade self database ns entity_type node_id emit_cdc rounds total_deleted).Commits C fun _ => True := by
  induction rounds generalizing total_deleted with
  | zero => trivial
  | succ _ ih =>
    refine (list_edges_quiet _ _ _ _ _ _).bind fun _ => ?_
    refine (list_incoming_edges_quiet _ _ _ _ _ _).bind fun _ => ?_
    dsimp only
    split
    · trivial
    refine .bind ((plan_edges_commits _ _ [] [] (by simp)).mono (fun _ h => h.elim) fun _ h => h)
      fun _ hplanned => ?_
    split
    · trivial
    · exact commits_commit_bind (hC _ _ hplanned) (ih _)

theorem delete_edges_for_node_effects {Put : EdgeAt → Db → Prop} {Other : Db → Db → Prop} :
    (delete_edges_for_node_internal self database ns entity_type node_id emit_cdc).Effects
      (EdgeEffect self.get_schema Put EdgeAt.Home Other) fun _ => True :=
  cascade_commits _ _ ns _ _ _ _ _ fun _ _ hplanned _ _ hrun =>
    cascade_txn_effect _ hplanned hrun

end Plan

end pelago_storage.edge
