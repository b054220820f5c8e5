import Pelago.Storage.Edge.Effects
import Pelago.Kv.Crash

open bytes kv pelago_core pelago_core.encoding

namespace pelago_storage.edge

open edge_markers Proc List Option
open Subspace (of_namespace)

section

/-- The rows all hold edge records, as the ones of this version do. -/
def EdgeRows (rows : List (Bytes × Cell)) : Prop := ∀ row ∈ rows, ∃ data, row.2 = .edge data

theorem edgeRows_cons {row : Bytes × Cell} {rows : List (Bytes × Cell)} :
    EdgeRows (row :: rows) ↔ (∃ data, row.2 = .edge data) ∧ EdgeRows rows := by
  simp [EdgeRows]

/-- The record in a row. -/
def rowData (row : Bytes × Cell) : Option EdgeData :=
  match row.2 with
  | .edge data => some data
  | _ => none

/-- A record as `list_edges` returns it. -/
def outgoingOf (database ns entity_type node_id : String) (label_filter : Option String) (d : EdgeData) :
    StoredEdge :=
  { edge_id := d.edge_id
    source := d.source.getD ⟨database, ns, entity_type, node_id⟩
    target := d.target.getD ⟨database, ns, "Unknown", "Unknown"⟩
    label := d.label.getD (label_filter.getD "unknown")
    properties := d.properties
    created_at := d.created_at }

/-- A record as `list_incoming_edges` returns it. -/
def incomingOf (database ns entity_type node_id : String) (label_filter : Option String) (d : EdgeData) :
    Option StoredEdge :=
  let target := d.target.getD ⟨database, ns, entity_type, node_id⟩
  if target.entity_type = entity_type ∧ target.node_id = node_id then
    some
      { edge_id := d.edge_id
        source := d.source.getD ⟨database, ns, "Unknown", "Unknown"⟩
        target := target
        label := d.label.getD (label_filter.getD "unknown")
        properties := d.properties
        created_at := d.created_at }
  else none

variable {source target : NodeRef} {label : String}

section Rows

variable {database ns entity_type node_id : String} {label_filter : Option String} {rows : List (Bytes × Cell)}

/-- What `list_edges` makes of the rows it has scanned. -/
def outgoingRows (database ns entity_type node_id : String) (label_filter : Option String) (limit : Nat)
    (results : List (Bytes × Cell)) : Proc (List StoredEdge) := do
  let edge_subspace := (of_namespace database ns).edge
  let legacy_meta_by_key ← legacy_meta_rows
    (list_start edge_subspace FORWARD_META entity_type node_id label_filter) results limit
  .ofExcept (collect
    (outgoing_edge edge_subspace database ns entity_type node_id label_filter legacy_meta_by_key) results)

theorem list_edges_eq (limit : Nat) : list_edges database ns entity_type node_id label_filter limit =
    let start := list_start (of_namespace database ns).edge FORWARD entity_type node_id label_filter
    .scanThen start (start ++ [0xFF]) limit (outgoingRows database ns entity_type node_id label_filter limit) :=
  rfl

theorem outgoingRows_eq (limit : Nat) (h : EdgeRows rows) :
    outgoingRows database ns entity_type node_id label_filter limit rows =
      pure ((rows.filterMap rowData).map (outgoingOf database ns entity_type node_id label_filter)) := by
  have hfull : (rows.any fun row => decide (row.2 = .raw [])) = false := by
    rw [List.any_eq_false]
    intro row hrow
    obtain ⟨data, hdata⟩ := h _ hrow
    simp [hdata]
  have hcollect : collect (outgoing_edge (of_namespace database ns).edge database ns entity_type node_id
      label_filter []) rows =
      .ok (rows.filterMap fun row => (rowData row).map (outgoingOf database ns entity_type node_id label_filter)) := by
    refine collect_eq_filterMap fun row hrow => ?_
    obtain ⟨data, hdata⟩ := h _ hrow
    simp [outgoing_edge, rowData, hdata, decode_cbor_edge, Except.toOption, outgoingOf, Bind.bind, Except.bind,
      pure, Except.pure]
  unfold outgoingRows legacy_meta_rows
  rw [hfull, map_filterMap]
  simp only [Bool.false_eq_true, ↓reduceIte, pure_bind, hcollect]
  rfl

/-- What `list_incoming_edges` makes of the rows it has scanned. -/
def incomingRows (database ns entity_type node_id : String) (label_filter : Option String)
    (rows : List (Bytes × Cell)) : Proc (List StoredEdge) :=
  Proc.collect (incoming_edge (of_namespace database ns).edge database ns entity_type node_id
    label_filter) rows

theorem incomingRows_eq (h : EdgeRows rows) : incomingRows database ns entity_type node_id label_filter rows =
      pure ((rows.filterMap rowData).filterMap (incomingOf database ns entity_type node_id label_filter)) := by
  induction rows with
  | nil => rfl
  | cons row _ ih =>
    obtain ⟨⟨data, hdata⟩, hrest⟩ := edgeRows_cons.mp h
    have hrow : incoming_edge (of_namespace database ns).edge database ns entity_type node_id
        label_filter row = pure (incomingOf database ns entity_type node_id label_filter data) := by
      simp [incoming_edge, incoming_edge_data, hdata, decode_cbor_edge, Except.toOption, incomingOf]
    have hrest' := ih hrest
    unfold incomingRows at hrest' ⊢
    rw [Proc.collect, hrow, hrest']
    simp only [pure_bind, filterMap_cons, rowData, hdata]
    cases incomingOf database ns entity_type node_id label_filter data <;> rfl

theorem find_in_rows_eq (edge_subspace : Subspace) (h : EdgeRows rows) :
    find_in_rows edge_subspace source target label rows =
      pure ((rows.filterMap rowData).find? (is_edge source target label)) := by
  induction rows with
  | nil => rfl
  | cons row _ ih =>
    obtain ⟨⟨data, hdata⟩, hrest⟩ := edgeRows_cons.mp h
    have hread : read_edge_data edge_subspace row = pure (some data) := by
      simp [read_edge_data, hdata, decode_cbor_edge, Except.toOption]
    rw [find_in_rows, hread, filterMap_cons, show rowData row = some data by simp [rowData, hdata]]
    cases hedge : is_edge source target label data with
    | true => simp [hedge]
    | false => simpa [hedge] using ih hrest

theorem find_edge_data_eq : find_edge_data_by_endpoints database ns source target label =
      let start := ((outgoing_start (of_namespace database ns).edge FORWARD source.entity_type
        source.node_id).add_string label).build
      .scanThen start (start ++ [0xFF]) 2048
        (find_in_rows (of_namespace database ns).edge source target label) :=
  rfl

end Rows

/-- The rows that a scan from `start` meets. -/
def scanned (db : Db) (start : Bytes) (limit : Nat) : List (Bytes × Cell) :=
  (db.rows.range start (start ++ [0xFF])).take limit

/-- The label that a list is for, as it stands in a key. -/
def filterBytes (label_filter : Option String) : Bytes := (label_filter.map element).getD []

/-- Where the outgoing edges of a node start. -/
def outgoingStart (database ns entity_type node_id : String) (label_filter : Option String) : Bytes :=
  edgeRow database ns FORWARD (element entity_type ++ (element node_id ++ filterBytes label_filter))

/-- Where the incoming edges of a node start. -/
def incomingStart (database ns entity_type node_id : String) (label_filter : Option String) : Bytes :=
  edgeRow database ns REVERSE (endpoint ⟨database, ns, entity_type, node_id⟩ ++ filterBytes label_filter)

theorem list_start_eq (database ns entity_type node_id : String) (label_filter : Option String) :
    list_start (of_namespace database ns).edge FORWARD entity_type node_id label_filter =
      outgoingStart database ns entity_type node_id label_filter := by
  cases label_filter with
  | none => simp [list_start, outgoing_start_eq, outgoingStart, filterBytes]
  | some => simp [list_start, outgoing_label_start_eq, outgoingStart, filterBytes]

theorem list_incoming_edges_eq (database ns entity_type node_id : String) (label_filter : Option String) (limit : Nat) :
    list_incoming_edges database ns entity_type node_id label_filter limit =
      let start := incomingStart database ns entity_type node_id label_filter
      .scanThen start (start ++ [0xFF]) limit (incomingRows database ns entity_type node_id label_filter) := by
  cases label_filter with
  | none =>
    unfold list_incoming_edges
    simp only [incoming_start_eq, incomingStart, filterBytes, map_none, getD_none, append_nil]
    rfl
  | some =>
    unfold list_incoming_edges
    simp only [incoming_label_start_eq, incomingStart, filterBytes, map_some, getD_some]
    rfl

section Runs

variable {database ns entity_type node_id : String} {label_filter : Option String} {limit : Nat} {μ : Type}
  {supply : kv.Proc.World Bytes Cell μ → NodeId × kv.Proc.World Bytes Cell μ} {w : kv.Proc.World Bytes Cell μ}

theorem list_edges_run
    (h : EdgeRows (scanned w.db (outgoingStart database ns entity_type node_id label_filter) limit)) :
    (list_edges database ns entity_type node_id label_filter limit).run supply w =
      (.ok (((scanned w.db (outgoingStart database ns entity_type node_id label_filter) limit).filterMap rowData).map
        (outgoingOf database ns entity_type node_id label_filter)), w) := by
  rw [list_edges_eq, list_start_eq]
  change (outgoingRows database ns entity_type node_id label_filter limit (scanned w.db _ limit)).run supply w = _
  rw [outgoingRows_eq _ h]
  rfl

theorem list_incoming_edges_run
    (h : EdgeRows (scanned w.db (incomingStart database ns entity_type node_id label_filter) limit)) :
    (list_incoming_edges database ns entity_type node_id label_filter limit).run supply w =
      (.ok (((scanned w.db (incomingStart database ns entity_type node_id label_filter) limit).filterMap
        rowData).filterMap (incomingOf database ns entity_type node_id label_filter)), w) := by
  rw [list_incoming_edges_eq]
  change (incomingRows database ns entity_type node_id label_filter (scanned w.db _ limit)).run supply w = _
  rw [incomingRows_eq h]
  rfl

theorem find_edge_data_run
    (h : EdgeRows (scanned w.db (outgoingStart database ns source.entity_type source.node_id (some label)) 2048)) :
    (find_edge_data_by_endpoints database ns source target label).run supply w =
      (.ok (((scanned w.db (outgoingStart database ns source.entity_type source.node_id (some label)) 2048).filterMap
        rowData).find? (is_edge source target label)), w) := by
  rw [find_edge_data_eq, outgoing_label_start_eq]
  change (find_in_rows _ source target label
    (scanned w.db (outgoingStart database ns source.entity_type source.node_id (some label)) 2048)).run supply w = _
  rw [find_in_rows_eq _ h]
  rfl

end Runs

end

open pelago_storage.node

theorem touches_clear_edge_rows {keys : EdgeKeys} (h : ∀ k ∈ keys.all_keys, EdgeKey k) :
    (clear_edge_rows keys).Touches (fun _ => True) EdgeKey := by
  obtain ⟨f, m, r, twins⟩ := keys
  cases twins with
  | none =>
    simp only [EdgeKeys.all_keys, append_nil, mem_cons, not_mem_nil, or_false, forall_eq_or_imp, forall_eq] at h
    exact ⟨h.1, h.2.1, h.2.2, trivial⟩
  | some =>
    simp only [EdgeKeys.all_keys, cons_append, nil_append, mem_cons, not_mem_nil, or_false,
      forall_eq_or_imp, forall_eq] at h
    exact ⟨h.1, h.2.1, h.2.2.1, h.2.2.2.1, h.2.2.2.2, trivial⟩

theorem touches_cascade_txn (self : Store) (database ns : String) (emit_cdc : Bool) (cdc_now : Int)
    {planned : List PlannedEdge} (hplanned : ∀ p ∈ planned, ∃ e, p.Of self.get_schema e) :
    (cascade_txn self database ns emit_cdc cdc_now planned).Touches (fun _ => True) EdgeKey := by
  refine Tx.touches_bind (Tx.touches_forEach fun p hp => ?_) fun _ => ?_
  · obtain ⟨e, he⟩ := hplanned p hp
    refine touches_clear_edge_rows fun k hk => ?_
    rw [← he.keys] at hk
    exact edgeKey_of_mem_all_keys hk
  · split
    · unfold cdc_flush
      split <;> trivial
    · trivial

/-- A scan of edges in a namespace without any. -/
theorem scanned_eq_nil {database ns : String} {db : Db} (h : NoEdges database ns db) (marker : UInt8)
    (rest : Bytes) (limit : Nat) : scanned db (edgeRow database ns marker rest) limit = [] := by
  have hnil : db.rows.range (edgeRow database ns marker rest) (edgeRow database ns marker rest ++ [0xFF]) = [] := by
    rw [eq_nil_iff_forall_not_mem]
    intro row hrow
    obtain ⟨hmem, hlo, hhi⟩ := (OrdMap.mem_range _).mp hrow
    obtain ⟨tail, htail, _⟩ := mem_range_iff.mp ⟨hlo, hhi⟩
    have hget := (OrdMap.get_eq_some_iff_mem _).mpr (show (row.1, row.2) ∈ db.rows.rows from hmem)
    rw [htail, edgeRow, append_assoc, h] at hget
    cases hget
  rw [scanned, hnil, take_nil]

theorem delete_edges_idle (self : Store) (database ns entity_type node_id : String) (emit_cdc : Bool) {μ : Type}
    (supply : kv.Proc.World Bytes Cell μ → NodeId × kv.Proc.World Bytes Cell μ) (w : kv.Proc.World Bytes Cell μ)
    (h : NoEdges database ns w.db) :
    (delete_edges_for_node_internal self database ns entity_type node_id emit_cdc).run supply w = (.ok 0, w) := by
  have hrows : ∀ marker rest, EdgeRows (scanned w.db (edgeRow database ns marker rest) CASCADE_FETCH_LIMIT) := by
    intro _ _ _ hrow
    rw [scanned_eq_nil h] at hrow
    cases hrow
  unfold delete_edges_for_node_internal cascade
  rw [run_bind, list_edges_run (hrows _ _), outgoingStart, scanned_eq_nil h]
  dsimp only
  rw [run_bind, list_incoming_edges_run (hrows _ _), incomingStart, scanned_eq_nil h]
  rfl

/-- The operations that node storage and replication call. -/
def Store.edge_store (self : Store) : EdgeStore where
  apply_replica_edge_create := apply_replica_edge_create self
  apply_replica_edge_delete := apply_replica_edge_delete self
  delete_edges_for_node_internal := delete_edges_for_node_internal self
  confined database ns entity_type node_id emit_cdc :=
    (cascade_commits self database ns entity_type node_id emit_cdc _ _ fun cdc_now _ hplanned =>
      touches_cascade_txn self database ns emit_cdc cdc_now hplanned).confined
  idle := delete_edges_idle self

/-- Node storage with these edges. -/
def Store.node_store (self : Store) : NodeStore := ⟨self.get_schema, self.site_id, self.edge_store⟩

open edge_markers Proc
open pelago_storage.node (data_key delete_guard_key parse_node_id parse_u8 parse_site_id get_node)

section Alone

variable {self : Store} {database ns : String} {source target : NodeRef} {label : String} {properties : Properties}
  {db db' : Db} {answer : NodeId}

/-- A creation that has gone through. -/
structure Created (store : Store) (e : EdgeAt) (edge_id : String) (clock : Clock) (db db' : Db) : Prop where
  valid : ∃ schema direction, lookup_schema store e.source = .ok schema ∧
    validate_edge_type schema e.label e.target.entity_type = .ok direction
  source : ∃ locality, StoredAt e.source locality db ∧
    enforce_source_ownership store e.source.entity_type e.source.node_id locality = .ok ()
  target : ∃ locality, StoredAt e.target locality db
  rows : ∀ k, db'.rows.get k = if k ∈ e.rows store.get_schema then
    some (encode_cbor_edge ⟨edge_id, e.properties, clock.now, some e.source, some e.target, some e.label⟩)
    else db.rows.get k
  journal : db'.journal (Subspace.of_namespace e.database e.ns).cdc.pfx =
    db.journal (Subspace.of_namespace e.database e.ns).cdc.pfx ++ [encode_cbor_entry ⟨store.site_id, clock.cdc_now,
      [.EdgeCreate e.source.entity_type e.source.node_id e.target.entity_type e.target.node_id e.label edge_id
        e.properties]⟩]

theorem create_edge_complete {clock : Clock} {returned_at : Int} {r : StoredEdge}
    (h : (create_edge self database ns source target label properties clock returned_at).complete answer db =
      (.ok r, db')) :
    Created self ⟨database, ns, source, target, label, properties⟩ answer.to_string clock db db' := by
  obtain ⟨schema, hschema, h⟩ := complete_ofExcept_bind_eq_ok _ h
  obtain ⟨direction, hdirection, h⟩ := complete_ofExcept_bind_eq_ok _ h
  obtain ⟨edge_id, _, hinput, h⟩ := complete_bind_eq_ok _ h
  cases hinput
  obtain ⟨keys, hkeys, h⟩ := complete_ofExcept_bind_eq_ok _ h
  obtain ⟨db'', hrun, h⟩ := complete_commit_bind_eq_ok _ h
  cases h
  rw [direction_eq hdirection,
    compute_edge_keys_eq _ ⟨database, ns, source, target, label, properties⟩] at hkeys
  cases hkeys
  obtain ⟨_, _, hcheck, hwrite⟩ := Tx.run_bind_eq_ok.mp hrun
  obtain ⟨rfl, hsource, htarget⟩ := run_check_endpoints hcheck
  obtain ⟨_, _, hset, hflush⟩ := Tx.run_bind_eq_ok.mp hwrite
  obtain ⟨_, hset', hjournal, hget⟩ := run_set_edge_rows ..
  cases hset.symm.trans hset'
  cases hflush
  refine ⟨⟨schema, direction, hschema, hdirection⟩, hsource, htarget, fun k => ?_, ?_⟩
  · rw [EdgeAt.rows, get_schema_of_lookup _ hschema]
    exact hget k
  · simp [hjournal]

/-- No deletion of the node is under way. -/
def Unguarded (node : NodeRef) (db : Db) : Prop :=
  ∀ id, NodeId.from_str node.node_id = some id →
    db.rows.get (delete_guard_key (Subspace.of_namespace node.database node.ns).data node.entity_type id.to_bytes) =
      none

theorem run_guard_of_unguarded {node : NodeRef} {locality : UInt8} (hstored : StoredAt node locality db)
    (h : Unguarded node db) : (node_delete_guard_exists_in_txn node).run db = .ok (false, db) := by
  obtain ⟨id, d, hid, _, _⟩ := hstored
  have hparse : parse_node_id node.node_id = .ok id := by simp [parse_node_id, hid]
  refine Tx.run_ofExcept_bind_eq_ok.mpr ⟨id, hparse, ?_⟩
  rw [Tx.run_get_bind, h id hid]
  rfl

theorem run_locality_of_storedAt {node : NodeRef} {locality : UInt8} (h : StoredAt node locality db) :
    (read_node_locality_in_txn node).run db = .ok (some locality, db) := by
  obtain ⟨id, d, hid, hlocality, hrow⟩ := h
  have hparse : parse_node_id node.node_id = .ok id := by simp [parse_node_id, hid]
  refine Tx.run_ofExcept_bind_eq_ok.mpr ⟨id, hparse, ?_⟩
  rw [Tx.run_get_bind, hrow, ← hlocality]
  rfl

/-- An edge between nodes with records is created by the site of its source. -/
theorem create_edge_ok {schema : EntitySchema} {direction : EdgeDirection} {locality locality' : UInt8}
    (hschema : lookup_schema self source = .ok schema)
    (hvalid : validate_edge_type schema label target.entity_type = .ok direction)
    (hsource : StoredAt source locality db)
    (howner : enforce_source_ownership self source.entity_type source.node_id locality = .ok ())
    (htarget : StoredAt target locality' db) (hsource' : Unguarded source db) (htarget' : Unguarded target db)
    (clock : Clock) (returned_at : Int) :
    ∃ r db', (create_edge self database ns source target label properties clock returned_at).complete answer db =
      (.ok r, db') := by
  have hcheck : (check_endpoints self source target).run db = .ok ((), db) := by
    refine Tx.run_bind_eq_ok.mpr ⟨_, _, run_guard_of_unguarded hsource hsource', ?_⟩
    refine Tx.run_bind_eq_ok.mpr ⟨_, _, run_guard_of_unguarded htarget htarget', ?_⟩
    refine Tx.run_bind_eq_ok.mpr ⟨_, _, run_locality_of_storedAt hsource, ?_⟩
    refine Tx.run_ofExcept_bind_eq_ok.mpr ⟨(), howner, ?_⟩
    exact Tx.run_bind_eq_ok.mpr ⟨_, _, run_locality_of_storedAt htarget, rfl⟩
  unfold create_edge
  rw [hschema, ofExcept_ok_bind, hvalid, ofExcept_ok_bind, input_bind, complete, direction_eq hvalid,
    compute_edge_keys_eq _ ⟨database, ns, source, target, label, properties⟩]
  obtain ⟨mid, hset, _⟩ := run_set_edge_rows
    _
    _ db
  exact ⟨_, _, complete_commit (Tx.run_bind_eq_ok.mpr ⟨_, _, hcheck, Tx.run_bind_eq_ok.mpr ⟨_, _, hset, rfl⟩⟩)⟩

end Alone

end pelago_storage.edge
