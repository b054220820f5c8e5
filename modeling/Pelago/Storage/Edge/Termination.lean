import Pelago.Storage.Edge.Bijection

open bytes kv pelago_core pelago_core.encoding
open pelago_storage.node kv.OrdMap List

namespace pelago_storage.edge

open edge_markers Proc

section

/-- The direction and the sort key that a label has; those of an undeclared one
are fixed. -/
def labelOf (schema : Option EntitySchema) (label : String) : EdgeDirection × Option String :=
  match schema.bind fun s => s.edges.get label with
  | some edge_def => (edge_def.direction, edge_def.sort_key)
  | none => (.Outgoing, none)

theorem is_bidirectional_eq (schema : Option EntitySchema) (label : String) :
    is_bidirectional schema label = decide ((labelOf schema label).1 = .Bidirectional) := by
  unfold is_bidirectional labelOf
  cases schema.bind fun s => s.edges.get label <;> rfl

theorem sort_key_for_label_eq (schema : Option EntitySchema) (label : String) (properties : Properties) :
    sort_key_for_label schema label properties = (labelOf schema label).2.bind properties.get := by
  unfold sort_key_for_label labelOf
  cases schema with
  | none => rfl
  | some s =>
    cases hlabel : s.edges.get label with
    | none => simp [hlabel]
    | some => simp [hlabel, Option.bind_eq_bind]

/-- All labels have the same direction and sort key. -/
def SameLabels (schemas schemas' : Schemas) : Prop :=
  ∀ database ns entity_type label,
    labelOf (schemas database ns entity_type) label = labelOf (schemas' database ns entity_type) label

theorem keys_congr {schema schema' : Option EntitySchema} {e : EdgeAt}
    (h : labelOf schema e.label = labelOf schema' e.label) : e.keys schema = e.keys schema' := by
  simp [EdgeAt.keys, sort_key_for_label_eq, is_bidirectional_eq, h]

theorem SameLabels.rows_eq {schemas schemas' : Schemas} (h : SameLabels schemas schemas') (e : EdgeAt) :
    e.rows schemas = e.rows schemas' := by
  rw [EdgeAt.rows, keys_congr (h ..)]

/-- The sort key in a record is the one the edge was written with. -/
theorem sortBytes_stored (schema : Option EntitySchema) (label : String) (properties : Properties) :
    sortBytes (sort_key_for_label schema label (storedProperties properties)) =
      sortBytes (sort_key_for_label schema label properties) := by
  rw [sort_key_for_label_eq, sort_key_for_label_eq]
  cases (labelOf schema label).2 with
  | none => rfl
  | some sort_key =>
    simp only [Option.bind_some, storedProperties, get_mapVal]
    cases properties.get sort_key with
    | none => rfl
    | some v => cases v <;> rfl

theorem keys_stored (schema : Option EntitySchema) {e : EdgeAt} {data : EdgeData} (h : RecordOf e data) :
    EdgeAt.keys schema { e with properties := data.properties } = e.keys schema := by
  simp [EdgeAt.keys, h.properties, sortBytes_stored]

/-- Every edge row holds the record of an edge of which it is a row. -/
def Owned (schemas : Schemas) (Kept : EdgeAt → Prop) (db : Db) : Prop :=
  ∀ k cell, EdgeKey k → db.rows.get k = some cell →
    ∃ e data, Kept e ∧ cell = .edge data ∧ RecordOf e data ∧ k ∈ e.rows schemas

variable {database ns : String} {marker : UInt8}

section Owned

variable {schemas schemas' : Schemas} {Kept : EdgeAt → Prop} {db db' : Db}

theorem EdgeEffect.owned {Put : EdgeAt → Db → Prop} {Drop : EdgeAt → Prop} {Other : Db → Db → Prop}
    (heffect : EdgeEffect schemas' Put Drop Other db db') (hlabels : SameLabels schemas' schemas)
    (hput : ∀ e db, Put e db → Kept e) (h : Owned schemas Kept db) : Owned schemas Kept db' := by
  intro k cell hk hget'
  cases heffect with
  | put e data he hdata hget =>
    rw [hget, hlabels.rows_eq] at hget'
    split at hget'
    · rename_i hmem
      cases hget'
      exact ⟨e, data, hput e db he, rfl, hdata, hmem⟩
    · exact h k _ hk hget'
  | drop _ _ hget =>
    rw [hget] at hget'
    split at hget'
    · cases hget'
    · exact h k _ hk hget'
  | keep _ hget =>
    rw [hget k hk] at hget'
    exact h k _ hk hget'

theorem Owned.mono {Kept' : EdgeAt → Prop} (h : Owned schemas Kept db) (hkept : ∀ e, Kept e → Kept' e) :
    Owned schemas Kept' db := by
  intro k cell hk hget
  obtain ⟨e, data, he, hcell⟩ := h k _ hk hget
  exact ⟨e, data, hkept e he, hcell⟩

/-- What a scan of edge rows meets. -/
theorem Owned.scanned (h : Owned schemas Kept db) {start rest : Bytes}
    (hstart : start = edgeRow database ns marker rest) {limit : Nat} {row : Bytes × Cell}
    (hrow : row ∈ scanned db start limit) :
    ∃ e data, Kept e ∧ row.2 = .edge data ∧ RecordOf e data ∧ row.1 ∈ e.rows schemas ∧
      db.rows.get row.1 = some (.edge data) ∧
      ∃ tail, row.1 = edgeRow database ns marker (rest ++ tail) ∧ tail.head? ≠ some 0xFF := by
  obtain ⟨hmem, hlo, hhi⟩ := (mem_range _).mp (mem_of_mem_take hrow)
  obtain ⟨tail, htail, hhead⟩ := mem_range_iff.mp ⟨hlo, hhi⟩
  have hget := (get_eq_some_iff_mem _).mpr (show (row.1, row.2) ∈ db.rows.rows from hmem)
  have hkey : row.1 = edgeRow database ns marker (rest ++ tail) := by rw [htail, hstart]; simp [edgeRow]
  obtain ⟨e, data, he, hcell, hdata, hrows⟩ := h _ _ (hkey ▸ edgeKey_edgeRow ..) hget
  exact ⟨e, data, he, hcell, hdata, hrows, hcell ▸ hget, tail, hkey, hhead⟩

theorem Owned.edgeRows (h : Owned schemas Kept db) {start rest : Bytes}
    (hstart : start = edgeRow database ns marker rest) (limit : Nat) : EdgeRows (edge.scanned db start limit) := by
  intro _ hrow
  obtain ⟨e, data, _, hcell, _⟩ := h.scanned hstart hrow
  exact ⟨data, hcell⟩

end Owned

/-- A row of an edge tells the namespace that the edge is kept in. -/
theorem namespace_of_mem_rows {schemas : Schemas} {e : EdgeAt} {x : Bytes}
    (h : edgeRow database ns marker x ∈ e.rows schemas) : e.database = database ∧ e.ns = ns := by
  obtain h | h | h | ⟨_, h | h⟩ := mem_all_keys.mp h <;>
  simp only [forward_key_eq, meta_key_eq, reverse_key_eq] at h <;>
  exact ⟨(edgeRow_inj h).1.symm, (edgeRow_inj h).2.1.symm⟩

theorem RecordOf.is_edge_iff {e : EdgeAt} {data : EdgeData} (h : RecordOf e data) {source target : NodeRef}
    {label : String} :
    is_edge source target label data = true ↔ e.label = label ∧ e.source = source ∧ e.target = target := by
  simp [is_edge, h.source, h.target, h.label]

/-- The first record that a search comes upon. -/
theorem find_first {rows : List (Bytes × Cell)} (hsorted : rows.Pairwise fun a b => a.1 < b.1) {q : EdgeData → Bool}
    {data : EdgeData} (h : (rows.filterMap rowData).find? q = some data) :
    ∃ row ∈ rows, row.2 = .edge data ∧ q data = true ∧
      ∀ row' ∈ rows, ∀ data', row'.2 = .edge data' → q data' = true → row.1 ≤ row'.1 := by
  induction rows with
  | nil => cases h
  | cons row rest ih =>
    obtain ⟨hhead, hrest⟩ := pairwise_cons.mp hsorted
    by_cases hfirst : ∃ data', row.2 = .edge data' ∧ q data' = true
    · obtain ⟨data', hdata', hq⟩ := hfirst
      have hrow : rowData row = some data' := by simp [rowData, hdata']
      rw [filterMap_cons_some hrow, find?_cons_of_pos hq] at h
      cases h
      refine ⟨row, mem_cons_self, hdata', hq, fun row' hrow' _ _ _ => ?_⟩
      obtain rfl | hrow' := mem_cons.mp hrow'
      · exact le_refl _
      · exact (hhead _ hrow').le
    · have htail : (rest.filterMap rowData).find? q = some data := by
        rw [filterMap_cons] at h
        split at h
        · exact h
        · rename_i data' hdata'
          have hcell : row.2 = .edge data' := by
            unfold rowData at hdata'
            split at hdata' <;> simp_all
          rwa [find?_cons_of_neg fun hq => hfirst ⟨data', hcell, hq⟩] at h
      obtain ⟨found, hfound, hdata, hq, hmin⟩ := ih hrest htail
      refine ⟨found, mem_cons_of_mem _ hfound, hdata, hq, fun row' hrow' data' hdata' hq' => ?_⟩
      obtain rfl | hrow' := mem_cons.mp hrow'
      · exact absurd ⟨data', hdata', hq'⟩ hfirst
      · exact hmin _ hrow' _ hdata' hq'

/-- Where a cascade looks an edge up. -/
def searched (db : Db) (edge : StoredEdge) : List (Bytes × Cell) :=
  scanned db (outgoingStart edge.source.database edge.source.ns edge.source.entity_type edge.source.node_id
    (some edge.label)) 2048

/-- The edge was planned with the first record that the search comes upon. -/
structure Resolved (self : Store) (db : Db) (edge : StoredEdge) (planned : PlannedEdge) : Prop where
  found : ∃ data, ((searched db edge).filterMap rowData).find? (is_edge edge.source edge.target edge.label) =
      some data ∧
    planned.keys = EdgeAt.keys (self.get_schema edge.source.database edge.source.ns edge.source.entity_type)
      ⟨edge.source.database, edge.source.ns, edge.source, edge.target, edge.label, data.properties⟩

section Plan

variable {self : Store} {schemas : Schemas} {Kept : EdgeAt → Prop} {db : Db}

theorem plan_edges_complete (self : Store) (answer : NodeId) (howned : Owned schemas Kept db)
    (candidates : List StoredEdge) (seen : List String) (planned : List PlannedEdge) :
    ∃ out, (plan_edges self candidates seen planned).complete answer db = (.ok out, db) ∧
      ∀ p ∈ out, p ∈ planned ∨ ∃ edge ∈ candidates, Resolved self db edge p := by
  induction candidates generalizing seen planned with
  | nil => exact ⟨planned, rfl, fun p hp => .inl hp⟩
  | cons edge rest ih =>
    have hskip : ∀ seen, ∃ out, (plan_edges self rest seen planned).complete answer db = (.ok out, db) ∧
        ∀ p ∈ out, p ∈ planned ∨ ∃ edge' ∈ edge :: rest, Resolved self db edge' p := by
      intro seen
      obtain ⟨out, hout, hall⟩ := ih _ _
      refine ⟨out, hout, fun p hp => (hall p hp).imp id ?_⟩
      rintro ⟨edge', hedge', hresolved⟩
      exact ⟨edge', mem_cons_of_mem _ hedge', hresolved⟩
    rw [plan_edges]
    split
    · exact hskip _
    have hfind : (find_edge_data_by_endpoints edge.source.database edge.source.ns edge.source edge.target
        edge.label).complete answer db =
        (.ok (((searched db edge).filterMap rowData).find? (is_edge edge.source edge.target edge.label)), db) := by
      rw [complete_eq_run, find_edge_data_run (howned.edgeRows rfl _)]
      rfl
    rw [complete_bind _ hfind]
    cases hfound : ((searched db edge).filterMap rowData).find? (is_edge edge.source edge.target edge.label) with
    | none => exact hskip _
    | some data =>
      have hkeys := compute_edge_keys_eq
        (self.get_schema edge.source.database edge.source.ns edge.source.entity_type)
        ⟨edge.source.database, edge.source.ns, edge.source, edge.target, edge.label, data.properties⟩
      dsimp only at hkeys ⊢
      rw [hkeys, ofExcept_ok_bind]
      have hnew : Resolved self db edge ⟨_, edge.source, edge.target, edge.label⟩ := ⟨data, hfound, rfl⟩
      split
      · refine ⟨_, rfl, fun p hp => ?_⟩
        obtain hp | hp := mem_append.mp hp
        · exact .inl hp
        · exact .inr ⟨edge, mem_cons_self, mem_singleton.mp hp ▸ hnew⟩
      · obtain ⟨out, hout, hall⟩ := ih ..
        refine ⟨out, hout, fun p hp => ?_⟩
        obtain hp | ⟨edge', hedge', hresolved⟩ := hall p hp
        · obtain hp | hp := mem_append.mp hp
          · exact .inl hp
          · exact .inr ⟨edge, mem_cons_self, mem_singleton.mp hp ▸ hnew⟩
        · exact .inr ⟨edge', mem_cons_of_mem _ hedge', hresolved⟩

/-- The keys of a planned edge include the row that the search came upon. -/
theorem Resolved.row (howned : Owned schemas Kept db) (hlabels : SameLabels self.get_schema schemas)
    {edge : StoredEdge} {p : PlannedEdge} (h : Resolved self db edge p) :
    ∃ row ∈ searched db edge, row.1 ∈ p.keys.all_keys ∧ db.rows.get row.1 ≠ none ∧
      (∀ row' ∈ searched db edge, ∀ data, row'.2 = .edge data →
        is_edge edge.source edge.target edge.label data = true → row.1 ≤ row'.1) ∧
      ∃ e : EdgeAt, e.database = edge.source.database ∧ e.ns = edge.source.ns ∧ e.source = edge.source ∧
        e.target = edge.target ∧ e.label = edge.label ∧ p.keys.all_keys = e.rows schemas := by
  obtain ⟨data, hfound, hkeys⟩ := h
  obtain ⟨row, hrow, hcell, hedge, hmin⟩ :=
    find_first ((range_sorted ..).sublist (take_sublist ..)) hfound
  obtain ⟨e, data', _, hcell', hdata, hrows, hget, tail, hkey, _⟩ := howned.scanned rfl hrow
  cases hcell.symm.trans hcell'
  obtain ⟨hlabel, hsource, htarget⟩ := hdata.is_edge_iff.mp hedge
  obtain ⟨hdatabase, hns⟩ := namespace_of_mem_rows (hkey ▸ hrows)
  have hall : p.keys.all_keys = e.rows schemas := by
    obtain ⟨edatabase, ens, esource, etarget, elabel, eproperties⟩ := e
    subst hlabel hsource htarget hdatabase hns
    rw [hkeys, EdgeAt.rows, ← keys_stored _ hdata, keys_congr (hlabels ..)]
  exact ⟨row, hrow, hall ▸ hrows, by rw [hget]; simp, hmin, e, hdatabase, hns, hsource, htarget, hlabel, hall⟩

end Plan

section Rounds

variable (self : Store) (database ns entity_type node_id : String) (emit_cdc : Bool) {schemas : Schemas}
  {Kept : EdgeAt → Prop} {db : Db} {answer : NodeId}

theorem run_cascade_txn (cdc_now : Int) (planned : List PlannedEdge) (db : Db) :
    ∃ db', (cascade_txn self database ns emit_cdc cdc_now planned).run db = .ok ((), db') ∧
      ∀ k, db'.rows.get k = if k ∈ planned.flatMap (·.keys.all_keys) then none else db.rows.get k := by
  obtain ⟨mid, hclear, _, hget⟩ := run_clear_planned _ db
  unfold cascade_txn
  rw [Tx.run_bind_of_ok hclear]
  split
  · unfold cdc_flush
    split
    · exact ⟨mid, rfl, hget⟩
    · exact ⟨_, rfl, hget⟩
  · exact ⟨mid, rfl, hget⟩

/-- The rows that a round of a cascade lists. -/
def listed (database ns entity_type node_id : String) (db : Db) : List (Bytes × Cell) × List (Bytes × Cell) :=
  (scanned db (outgoingStart database ns entity_type node_id none) CASCADE_FETCH_LIMIT,
    scanned db (incomingStart database ns entity_type node_id none) CASCADE_FETCH_LIMIT)

/-- The edges that a round goes through. -/
def candidates (database ns entity_type node_id : String) (db : Db) : List StoredEdge :=
  ((listed database ns entity_type node_id db).1.filterMap rowData).map
      (outgoingOf database ns entity_type node_id none) ++
    ((listed database ns entity_type node_id db).2.filterMap rowData).filterMap
      (incomingOf database ns entity_type node_id none)

/-- What the loop does in one round. -/
theorem cascade_succ (howned : Owned schemas Kept db) (rounds total_deleted : Nat) {planned : List PlannedEdge}
    (hplan : (plan_edges self (candidates database ns entity_type node_id db) [] []).complete answer db =
      (.ok planned, db)) {db' : Db}
    (hrun : (cascade_txn self database ns emit_cdc (self.cascade_clock rounds) planned).run db = .ok ((), db')) :
    (cascade self database ns entity_type node_id emit_cdc (rounds + 1) total_deleted).complete answer db =
      if candidates database ns entity_type node_id db = [] then (.ok total_deleted, db) else if planned = [] then
        (.error (.Internal "Unable to resolve edge keys during node cascade delete"), db)
      else (cascade self database ns entity_type node_id emit_cdc rounds (total_deleted + planned.length)).complete
        answer db' := by
  have hout : (list_edges database ns entity_type node_id none CASCADE_FETCH_LIMIT).complete answer db =
      (.ok (((listed database ns entity_type node_id db).1.filterMap rowData).map
        (outgoingOf database ns entity_type node_id none)), db) := by
    rw [complete_eq_run, list_edges_run (howned.edgeRows rfl _)]
    rfl
  have hin : (list_incoming_edges database ns entity_type node_id none CASCADE_FETCH_LIMIT).complete answer db =
      (.ok (((listed database ns entity_type node_id db).2.filterMap rowData).filterMap
        (incomingOf database ns entity_type node_id none)), db) := by
    rw [complete_eq_run, list_incoming_edges_run (howned.edgeRows rfl _)]
    rfl
  rw [cascade, complete_bind _ hout, complete_bind _ hin]
  change (if (candidates database ns entity_type node_id db).isEmpty = true then _ else _ : Proc Nat).complete
    answer db = _
  simp only [List.isEmpty_iff]
  split
  · rfl
  · change (plan_edges self (candidates database ns entity_type node_id db) [] [] >>= _).complete answer db = _
    rw [complete_bind _ hplan]
    split
    · rfl
    · rw [commit_bind, complete_commit hrun]

/-- A loop that a cascade gives up. -/
def NotEnded : PelagoError := .Internal "cascade has not ended"

/-- While labels keep their direction and sort key, every round that commits
removes a row, so the loop ends. -/
theorem cascade_ends (howned : Owned schemas Kept db) (hlabels : SameLabels self.get_schema schemas) (rounds : Nat)
    (hrounds : db.rows.rows.length < rounds) (total_deleted : Nat) :
    ((cascade self database ns entity_type node_id emit_cdc rounds total_deleted).complete answer db).1 ≠
      .error NotEnded := by
  induction rounds generalizing db total_deleted with
  | zero => omega
  | succ rounds ih =>
    obtain ⟨planned, hplan, hresolved⟩ := plan_edges_complete _ _ howned
      _ [] []
    obtain ⟨db', hrun, hget⟩ :=
      run_cascade_txn _ _ ns _ _ _ db
    rw [cascade_succ _ _ ns _ _ _ howned _ _ hplan hrun]
    split
    · simp
    split
    · simp [NotEnded]
    · rename_i hne
      obtain ⟨p, hp⟩ := exists_mem_of_ne_nil _ hne
      obtain hnil | ⟨edge, _, hedge⟩ := hresolved p hp
      · cases hnil
      obtain ⟨row, _, hmem, hrow, _⟩ := hedge.row howned hlabels
      have hshrinks : ∀ k, db'.rows.get k = none ∨ db'.rows.get k = db.rows.get k := by
        intro k
        rw [hget]
        split
        · exact .inl rfl
        · exact .inr rfl
      have howned' : Owned schemas Kept db' := by
        intro k cell hk hcell
        obtain hnone | hsame := hshrinks k
        · rw [hnone] at hcell
          cases hcell
        · exact howned k _ hk (hsame ▸ hcell)
      have hremoved : db'.rows.get row.1 = none := by
        rw [hget, if_pos (mem_flatMap.mpr ⟨p, hp, hmem⟩)]
      have hlength := length_lt_of_removed hshrinks hrow hremoved
      exact ih howned' (by omega) _

end Rounds

end

open NodeId

section Listed

variable {self : Store} {database ns entity_type node_id : String} {schemas : Schemas} {db db' : Db}
  {answer : NodeId}

/-- No label is both two-way and sorted. -/
def OneWayIfSorted (schemas : Schemas) : Prop :=
  ∀ database ns entity_type label, (labelOf (schemas database ns entity_type) label).1 = .Bidirectional →
    (labelOf (schemas database ns entity_type) label).2 = none

theorem incomingOf_eq_some {e : Triple} {data : EdgeData} {edge : StoredEdge} (h : e.Names data)
    (hedge : incomingOf database ns entity_type node_id none data = some edge) : edge = e.stored data := by
  simp only [incomingOf, h.source, h.target, h.label, Option.getD_some] at hedge
  split at hedge
  · exact (Option.some.inj hedge).symm
  · cases hedge

/-- The incoming rows of an edge do not depend on its sort key. -/
theorem reverse_mem_rows {e : EdgeAt} {properties : Properties} {x : Bytes}
    (h : edgeRow database ns REVERSE x ∈ e.rows schemas) :
    edgeRow database ns REVERSE x ∈ EdgeAt.rows schemas { e with properties := properties } := by
  obtain h | h | h | ⟨hdirection, h | h⟩ := mem_all_keys.mp h
  · rw [forward_key_eq] at h
    exact absurd (edgeRow_inj h).2.2.1 (by decide)
  · rw [meta_key_eq] at h
    exact absurd (edgeRow_inj h).2.2.1 (by decide)
  · exact mem_all_keys.mpr (.inr (.inr (.inl h)))
  · rw [forward_key_eq] at h
    exact absurd (edgeRow_inj h).2.2.1 (by decide)
  · exact mem_all_keys.mpr (.inr (.inr (.inr ⟨hdirection, .inr h⟩)))

theorem EdgeAt.eq_with_properties {e e₀ : EdgeAt} (hhome : e₀.Home) (hdatabase : e.database = e₀.source.database)
    (hns : e.ns = e₀.source.ns) (hsource : e.source = e₀.source) (htarget : e.target = e₀.target)
    (hlabel : e.label = e₀.label) : e₀ = { e with properties := e₀.properties } := by
  obtain ⟨hhome₁, hhome₂⟩ := hhome
  cases e₀
  simp_all

/-- The rows of an edge without a sort key depend on its ends and label only. -/
theorem rows_of_unsorted {e : EdgeAt} (properties : Properties)
    (h : (labelOf (schemas e.source.database e.source.ns e.source.entity_type) e.label).2 = none) :
    EdgeAt.rows schemas { e with properties := properties } = e.rows schemas := by
  simp [EdgeAt.rows, EdgeAt.keys, sort_key_for_label_eq, h, Option.bind_none]

/-- The outgoing row of an edge in one direction. -/
theorem forward_of_mem_rows {e : EdgeAt} {x : Bytes}
    (hdirection : is_bidirectional (schemas e.source.database e.source.ns e.source.entity_type) e.label = false)
    (h : edgeRow database ns FORWARD x ∈ e.rows schemas) : edgeRow database ns FORWARD x =
      (e.keys (schemas e.source.database e.source.ns e.source.entity_type)).forward_key := by
  obtain h | h | h | ⟨hboth, _⟩ := mem_all_keys.mp h
  · exact h
  · rw [meta_key_eq] at h
    exact absurd (edgeRow_inj h).2.2.1 (by decide)
  · rw [reverse_key_eq] at h
    exact absurd (edgeRow_inj h).2.2.1 (by decide)
  · rw [hdirection] at hboth
    cases hboth

/-- The row that the search for a listed edge comes upon is listed, too. -/
theorem searched_row_listed {edge : StoredEdge} {row found : Bytes × Cell} {tail : Bytes}
    (hrow : row ∈ (listed database ns entity_type node_id db).1) (hkey : row.1 = edgeRow database ns FORWARD
      (element entity_type ++ (element node_id ++ (element edge.label ++ tail))))
    (hsource : edge.source = ⟨database, ns, entity_type, node_id⟩) (hfound : found ∈ searched db edge)
    (hmin : row ∈ searched db edge → found.1 ≤ row.1) : found ∈ (listed database ns entity_type node_id db).1 := by
  have hstart : outgoingStart edge.source.database edge.source.ns edge.source.entity_type edge.source.node_id
      (some edge.label) =
      edgeRow database ns FORWARD (element entity_type ++ (element node_id ++ element edge.label)) := by
    rw [hsource]
    rfl
  unfold searched scanned at hfound hmin
  rw [hstart] at hfound hmin
  obtain ⟨hmem, hlo, hhi⟩ := (mem_range _).mp (mem_of_mem_take hfound)
  obtain ⟨rest, hrest, _⟩ := mem_range_iff.mp ⟨hlo, hhi⟩
  have hinrange : found ∈ db.rows.range (outgoingStart database ns entity_type node_id none)
      (outgoingStart database ns entity_type node_id none ++ [0xFF]) := by
    refine (mem_range _).mpr ⟨hmem, mem_range_iff.mpr ⟨element edge.label ++ rest, ?_, element_head _ _⟩⟩
    rw [hrest]
    simp [outgoingStart, filterBytes, edgeRow]
  refine mem_take_of_le (range_sorted ..) hrow hinrange ?_
  by_contra hlt
  rw [not_le] at hlt
  -- a listed row before the one found would have been found first
  have hbefore : row ∈ (db.rows.range
      (edgeRow database ns FORWARD (element entity_type ++ (element node_id ++ element edge.label)))
      (edgeRow database ns FORWARD (element entity_type ++ (element node_id ++ element edge.label)) ++ [0xFF])).take
        2048 := by
    refine mem_take_of_le (range_sorted ..) hfound ?_ hlt.le
    refine (mem_range _).mpr ⟨((mem_range _).mp (mem_of_mem_take hrow)).1, ?_, hlt.trans hhi⟩
    rw [hkey]
    simpa [edgeRow] using le_append (edgeRow database ns FORWARD
      (element entity_type ++ (element node_id ++ element edge.label))) _
  exact absurd (hmin hbefore) (not_le.mpr hlt)

/-- Every round that commits removes a row that it has listed. -/
theorem round_removes_listed (howned : Owned schemas EdgeAt.Home db) (hlabels : SameLabels self.get_schema schemas)
    (hsorted : OneWayIfSorted schemas) {planned : List PlannedEdge}
    (hplan : (plan_edges self (candidates database ns entity_type node_id db) [] []).complete answer db =
      (.ok planned, db)) (hne : planned ≠ []) {emit_cdc : Bool} {cdc_now : Int}
    (hrun : (cascade_txn self database ns emit_cdc cdc_now planned).run db = .ok ((), db')) :
    ∃ row, (row ∈ (listed database ns entity_type node_id db).1 ∨ row ∈ (listed database ns entity_type node_id db).2) ∧
      db.rows.get row.1 ≠ none ∧ db'.rows.get row.1 = none := by
  obtain ⟨out, hout, hresolved⟩ := plan_edges_complete _ _ howned
    _ [] []
  cases hplan.symm.trans hout
  obtain ⟨db'', hrun', hget⟩ := run_cascade_txn _ _ ns _ _ _ db
  cases hrun.symm.trans hrun'
  obtain ⟨p, hp⟩ := exists_mem_of_ne_nil _ hne
  obtain hnil | ⟨edge, hedge, hfound⟩ := hresolved p hp
  · cases hnil
  have hremoved : ∀ {k}, k ∈ p.keys.all_keys → db'.rows.get k = none := fun hk => by
    rw [hget, if_pos (mem_flatMap.mpr ⟨p, hp, hk⟩)]
  obtain ⟨found, hsearched, hmem, hthere, hmin, e, hdatabase, hns, hsource, htarget, hlabel, hall⟩ :=
    hfound.row howned hlabels
  -- the edge that is planned has the ends and the label of the one that is listed
  have hsame : ∀ {e₀ : EdgeAt} {data : EdgeData}, e₀.Home → edge = e₀.triple.stored data →
      e₀ = { e with properties := e₀.properties } := by
    rintro _ _ hhome rfl
    exact EdgeAt.eq_with_properties hhome hdatabase hns hsource htarget hlabel
  obtain hedge | hedge := mem_append.mp hedge
  · obtain ⟨data, hdata, hedge⟩ := mem_map.mp hedge
    obtain ⟨row, hrow, hrowdata⟩ := mem_filterMap.mp hdata
    obtain ⟨e₀, data', hhome, hcell, hrecord, hrows, hget₀, _, hkey, hhead⟩ := howned.scanned rfl hrow
    have hthere₀ : db.rows.get row.1 ≠ none := by simp [hget₀]
    obtain rfl : data' = data := by simpa [rowData, hcell] using hrowdata
    rw [outgoingOf_eq hrecord.names] at hedge
    have he₀ := hsame hhome hedge.symm
    by_cases hunsorted : (labelOf (schemas e.source.database e.source.ns e.source.entity_type) e.label).2 = none
    · rw [he₀, rows_of_unsorted _ hunsorted, ← hall] at hrows
      exact ⟨row, .inl hrow, hthere₀, hremoved hrows⟩
    · have hdirection : is_bidirectional (schemas e₀.source.database e₀.source.ns e₀.source.entity_type) e₀.label =
          false := by
        rw [he₀, is_bidirectional_eq, decide_eq_false_iff_not]
        exact fun hboth => hunsorted (hsorted _ _ _ _ hboth)
      rw [hkey] at hrows
      have hforward := forward_of_mem_rows hdirection hrows
      rw [forward_key_eq] at hforward
      obtain ⟨hd, hn, _, hrest⟩ := edgeRow_inj hforward
      simp only [filterBytes, Option.map_none, Option.getD_none, append_nil, append_assoc] at hrest
      obtain ⟨htype, hrest⟩ := element_append_inj (element_head _ _) (element_head _ _) hrest
      obtain ⟨hid, htail⟩ := element_append_inj hhead (element_head _ _) hrest
      have hsource₀ : edge.source = ⟨database, ns, entity_type, node_id⟩ := by
        rw [← hedge, htype, hid, hd, hn, hhome.1, hhome.2]
        rfl
      simp only [htail, filterBytes, Option.map_none, Option.getD_none, append_nil, append_assoc] at hkey
      have hlabel₀ : edge.label = e₀.label := by
        rw [← hedge]
        rfl
      rw [← hlabel₀] at hkey
      refine ⟨found, .inl (searched_row_listed hrow hkey hsource₀ hsearched fun hbefore => ?_), hthere,
        hremoved hmem⟩
      refine hmin _ hbefore _ hcell (hrecord.is_edge_iff.mpr ?_)
      rw [← hedge]
      exact ⟨rfl, rfl, rfl⟩
  · obtain ⟨data, hdata, hincoming⟩ := mem_filterMap.mp hedge
    obtain ⟨row, hrow, hrowdata⟩ := mem_filterMap.mp hdata
    obtain ⟨e₀, data', hhome, hcell, hrecord, hrows, hget₀, _, hkey, _⟩ := howned.scanned rfl hrow
    have hthere₀ : db.rows.get row.1 ≠ none := by simp [hget₀]
    obtain rfl : data' = data := by simpa [rowData, hcell] using hrowdata
    have he₀ := hsame hhome (incomingOf_eq_some hrecord.names hincoming)
    refine ⟨row, .inr hrow, hthere₀, hremoved ?_⟩
    rw [hkey] at hrows ⊢
    rw [hall, show e = { e₀ with properties := e.properties } by rw [he₀]]
    exact reverse_mem_rows hrows

end Listed

section Runs

variable {J : Type} [DecidableEq J] {schemas : Schemas} {stores : J → Store} {calls : J → StorageCall}
  {c c' : Pool Bytes Cell NodeId PelagoError Unit J} {valid : Db → List (Bytes × Option Cell) → Prop}

/-- Requests started on a database without edges. Each sees the schemas as they
are at its time; none of their versions changes the direction or the sort key of
a label. -/
structure Settled (schemas : Schemas) (stores : J → Store) (calls : J → StorageCall)
    (c : Pool Bytes Cell NodeId PelagoError Unit J) : Prop where
  labels : ∀ j, SameLabels (stores j).get_schema schemas
  threads : ∀ j, c.threads j = .start ((calls j).proc (stores j))
  edges : ∀ k, EdgeKey k → c.db.rows.get k = none

theorem Settled.owned (hstart : Settled schemas stores calls c) (hreach : Reach valid c c') :
    Owned schemas (fun e => (∀ j, (calls j).Home) → e.Home) c'.db := by
  refine hreach.invariant (fun k _ hk hget => ?_) fun j => ?_
  · rw [hstart.edges k hk] at hget
    cases hget
  · rw [hstart.threads j]
    refine ((calls j).proc_effects _).preserves (fun _ _ heffect howned => ?_) _
    exact heffect.owned (hstart.labels j) (fun e _ hput hall => hput (hall j)) howned

/-- In every store that requests reach while no label changes its direction or
sort key, `delete_edges_for_node` ends after at most as many rounds as there are
rows. Where edges are kept with their sources and no label is both two-way and
sorted, every round that commits removes a row that it has listed. -/
theorem cascade_terminates (hstart : Settled schemas stores calls c) (hreach : Reach valid c c') {self : Store}
    (hself : SameLabels self.get_schema schemas) (database ns entity_type node_id : String) (answer : NodeId) :
    (c'.db.rows.rows.length ≤ self.cascade_rounds →
      ((delete_edges_for_node self database ns entity_type node_id).complete answer c'.db).1 ≠ .error NotEnded) ∧
    ((∀ j, (calls j).Home) → OneWayIfSorted schemas → ∀ planned,
      (plan_edges self (candidates database ns entity_type node_id c'.db) [] []).complete answer c'.db =
        (.ok planned, c'.db) → planned ≠ [] → ∀ emit_cdc cdc_now db',
      (cascade_txn self database ns emit_cdc cdc_now planned).run c'.db = .ok ((), db') →
      ∃ row, (row ∈ (listed database ns entity_type node_id c'.db).1 ∨
          row ∈ (listed database ns entity_type node_id c'.db).2) ∧
        c'.db.rows.get row.1 ≠ none ∧ db'.rows.get row.1 = none) := by
  have howned := hstart.owned hreach
  refine ⟨fun hrounds => cascade_ends self _ ns _ _ true howned hself _ (by omega) 0,
    fun hhome hsorted planned hplan hne emit_cdc cdc_now db' hrun => ?_⟩
  exact round_removes_listed (howned.mono fun e he => he hhome) hself hsorted hplan hne hrun

end Runs

/-- Knowing someone, sorted by the time since when. -/
def datedSchema : EntitySchema :=
  ⟨"Person", .empty, {}, OrdMap.ofList [("knows", ⟨.Specific "Person", .Outgoing, some "since", .SourceSite⟩)]⟩

def dated : Store := ⟨fun _ _ _ => some datedSchema, "1", 10, fun _ => 0⟩

def introduction : StorageCall :=
  .create_edge "db" "ns" ⟨"db", "ns", "Person", NodeId.to_string ⟨1, 1⟩⟩ ⟨"db", "ns", "Person", NodeId.to_string ⟨1, 2⟩⟩
    "knows" (OrdMap.ofList [("since", .int 5)]) ⟨5, 5⟩ 5

def introductionPool (self : Store) : Pool Bytes Cell NodeId PelagoError Unit Unit :=
  ⟨twoPeople, fun _ => .start (introduction.proc self)⟩

theorem introduction_settled (self : Store) :
    Settled self.get_schema (fun _ : Unit => self) (fun _ => introduction) (introductionPool self) :=
  ⟨fun _ _ _ _ _ => rfl, fun _ => rfl, fun _ hk => twoPeople_edgeless hk⟩

/-- One person has got to know the other. -/
def introduced (self : Store) : Db := ((introductionPool self).schedule [((), ⟨1, 7⟩), ((), ⟨1, 7⟩)]).db

theorem introduced_cascade_ends :
    ((delete_edges_for_node friends "db" "ns" "Person" (NodeId.to_string ⟨1, 1⟩)).complete ⟨1, 7⟩
      (introduced friends)).1 ≠ .error NotEnded :=
  (cascade_terminates (introduction_settled friends) (Pool.reach_schedule _ _) (fun _ _ _ _ => rfl) _ _ _ _ _).1
    (by decide +kernel)

/-- The keys that a round clears. -/
def cleared (rows : OrdMap Bytes Cell) : List Bytes :=
  match ((plan_edges friends (candidates "db" "ns" "Person" (NodeId.to_string ⟨1, 1⟩) ⟨rows, fun _ => []⟩)
    [] []).complete ⟨1, 7⟩ ⟨rows, fun _ => []⟩).1 with
  | .ok planned => planned.flatMap (·.keys.all_keys)
  | .error _ => []

theorem cascade_round {schemas : Schemas} {Kept : EdgeAt → Prop} {db : Db} (howned : Owned schemas Kept db)
    (hlisted : (candidates "db" "ns" "Person" (to_string ⟨1, 1⟩) ⟨db.rows, fun _ => []⟩).isEmpty = false)
    (hcleared : (cleared db.rows).isEmpty = false) (rounds total : Nat) :
    ∃ db' total', Owned schemas Kept db' ∧ db'.rows = (cleared db.rows).foldl (fun m k => m.clear k) db.rows ∧
      (cascade friends "db" "ns" "Person" (to_string ⟨1, 1⟩) true (rounds + 1) total).complete ⟨1, 7⟩ db =
        (cascade friends "db" "ns" "Person" (to_string ⟨1, 1⟩) true rounds total').complete ⟨1, 7⟩ db' := by
  obtain ⟨planned, hplan, _⟩ := plan_edges_complete _ _ howned
    _ [] []
  obtain ⟨db', hrun, hget⟩ := run_cascade_txn _ _ _ _ _ _ db
  have hkeys : cleared db.rows = planned.flatMap (·.keys.all_keys) := by
    have hsame : ((plan_edges friends (candidates "db" "ns" "Person" (to_string ⟨1, 1⟩) db) [] []).complete
        ⟨1, 7⟩ ⟨db.rows, fun _ => []⟩).1 = .ok planned := by
      have hrows : (⟨db.rows, fun _ => []⟩ : Db).rows = db.rows := rfl
      rw [(complete_eq_of_mute_eq _ rfl hrows).1, hplan]
    unfold cleared
    rw [show candidates "db" "ns" "Person" (to_string ⟨1, 1⟩) ⟨db.rows, fun _ => []⟩ =
      candidates "db" "ns" "Person" (to_string ⟨1, 1⟩) db from rfl, hsame]
  have hne : planned ≠ [] := by
    rintro rfl
    rw [hkeys] at hcleared
    cases hcleared
  refine ⟨db', total + planned.length, fun k cell hk hcell => ?_, ext_get fun k => ?_, ?_⟩
  · rw [hget] at hcell
    split at hcell
    · cases hcell
    · exact howned k _ hk hcell
  · rw [hget, get_foldl_clear, map_id', hkeys]
    by_cases hk : k ∈ planned.flatMap (·.keys.all_keys)
    · rw [if_pos hk, if_pos hk]
    · rw [if_neg hk, if_neg hk]
  · rw [cascade_succ _ _ _ _ _ _ howned _ _ hplan hrun, if_neg, if_neg hne]
    exact fun hnil => by rw [show candidates _ _ _ _ ⟨db.rows, fun _ => []⟩ = [] from hnil] at hlisted; cases hlisted

/-- The sort key of a label is given up after an edge was created with it.
`delete_edges_for_node` then looks for the row of the edge where it would be
without the sort key, clears nothing there, and lists the edge again in every
round. -/
theorem cascade_lists_edge_forever :
    Reach (fun _ _ => True) (introductionPool dated)
      ((introductionPool dated).schedule [((), ⟨1, 7⟩), ((), ⟨1, 7⟩)]) ∧
    ∀ rounds, ((cascade friends "db" "ns" "Person" (NodeId.to_string ⟨1, 1⟩) true rounds 0).complete ⟨1, 7⟩
      (introduced dated)).1 = .error NotEnded := by
  refine ⟨Pool.reach_schedule .., fun rounds => ?_⟩
  have howned := (introduction_settled _).owned
    (Pool.reach_schedule (introductionPool dated) [((), ⟨1, 7⟩), ((), ⟨1, 7⟩)])
  -- the first round clears the incoming row, later ones clear nothing
  let rows₀ := (introduced dated).rows
  let rows₁ := (cleared rows₀).foldl (fun m k => m.clear k) rows₀
  have hlisted : ∀ rows ∈ [rows₀, rows₁],
      (candidates "db" "ns" "Person" (to_string ⟨1, 1⟩) ⟨rows, fun _ => []⟩).isEmpty = false := by decide +kernel
  have hcleared : ∀ rows ∈ [rows₀, rows₁], (cleared rows).isEmpty = false := by decide +kernel
  have hsame : ∀ rows ∈ [rows₀, rows₁], (cleared rows).foldl (fun m k => m.clear k) rows = rows₁ := by decide +kernel
  suffices h : ∀ rounds total db, Owned dated.get_schema (fun e => (∀ _ : Unit, introduction.Home) → e.Home) db →
      db.rows ∈ [rows₀, rows₁] →
      ((cascade friends "db" "ns" "Person" (to_string ⟨1, 1⟩) true rounds total).complete ⟨1, 7⟩ db).1 =
        .error NotEnded from h _ 0 _ howned (by simp [rows₀, introduced])
  intro rounds
  induction rounds with
  | zero => exact fun _ _ _ _ => rfl
  | succ rounds ih =>
    intro total db howned hrows
    obtain ⟨db', total', howned', hrows', hround⟩ :=
      cascade_round howned (hlisted _ hrows) (hcleared _ hrows) _ _
    rw [hround]
    refine ih _ db' howned' ?_
    rw [hrows', hsame _ hrows]
    simp

end pelago_storage.edge
