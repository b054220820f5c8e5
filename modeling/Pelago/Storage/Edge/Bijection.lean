import Pelago.Storage.Edge.Requests

open bytes kv pelago_core pelago_core.encoding
open pelago_storage.node

namespace pelago_storage.edge

open edge_markers List
open Subspace (of_namespace)

/-- Every declared label is one-way and has no sort key. -/
def Plain (schemas : Schemas) : Prop :=
  ∀ ⦃database ns entity_type schema label edge_def⦄, schemas database ns entity_type = some schema →
    schema.edges.get label = some edge_def → edge_def.direction = .Outgoing ∧ edge_def.sort_key = none

section Plain

variable {schemas : Schemas} (hplain : Plain schemas) (database ns entity_type label : String)

include hplain

theorem Plain.not_bidirectional : is_bidirectional (schemas database ns entity_type) label = false := by
  unfold is_bidirectional
  cases hschema : schemas database ns entity_type with
  | none => rfl
  | some schema =>
    rw [Option.bind_some]
    cases hlabel : schema.edges.get label with
    | none => rfl
    | some => simp [(hplain hschema hlabel).1]

theorem Plain.no_sort_key (properties : Properties) :
    sort_key_for_label (schemas database ns entity_type) label properties = none := by
  unfold sort_key_for_label
  cases hschema : schemas database ns entity_type with
  | none => rfl
  | some schema =>
    cases hlabel : schema.edges.get label with
    | none => simp [hlabel]
    | some => simp [hlabel, (hplain hschema hlabel).2]

end Plain

/-- The ends and the label of an edge that is kept with its source. -/
structure Triple where
  source : NodeRef
  target : NodeRef
  label : String

namespace Triple

def forward (e : Triple) : Bytes :=
  outgoing_key (of_namespace e.source.database e.source.ns).edge FORWARD e.source e.target e.label none

def metadata (e : Triple) : Bytes :=
  outgoing_key (of_namespace e.source.database e.source.ns).edge FORWARD_META e.source e.target e.label none

def reverse (e : Triple) : Bytes :=
  incoming_key (of_namespace e.source.database e.source.ns).edge e.source e.target e.label

def rows (e : Triple) : List Bytes := [e.forward, e.metadata, e.reverse]

theorem edgeKey_of_mem_rows {e : Triple} {k : Bytes} (h : k ∈ e.rows) : EdgeKey k := by
  simp only [rows, mem_cons, not_mem_nil, or_false] at h
  obtain rfl | rfl | rfl := h
  · rw [forward, outgoing_key_eq]
    exact edgeKey_edgeRow ..
  · rw [metadata, outgoing_key_eq]
    exact edgeKey_edgeRow ..
  · rw [reverse, incoming_key_eq]
    exact edgeKey_edgeRow ..

private theorem eq_of_parts {e e' : Triple} (hdatabase : e.source.database = e'.source.database)
    (hns : e.source.ns = e'.source.ns) (htype : e.source.entity_type = e'.source.entity_type)
    (hid : e.source.node_id = e'.source.node_id) (htarget : e.target = e'.target) (hlabel : e.label = e'.label) :
    e = e' := by
  obtain ⟨⟨_, _, _, _⟩, _, _⟩ := e
  simp_all

theorem outgoing_inj {e e' : Triple} {marker marker' : UInt8}
    (h : outgoing_key (of_namespace e.source.database e.source.ns).edge marker e.source e.target e.label none =
      outgoing_key (of_namespace e'.source.database e'.source.ns).edge marker' e'.source e'.target e'.label
        none) : marker = marker' ∧ e = e' := by
  rw [outgoing_key_eq, outgoing_key_eq] at h
  obtain ⟨hdatabase, hns, hmarker, h⟩ := edgeRow_inj h
  obtain ⟨htype, h⟩ := element_append_inj (element_head _ _) (element_head _ _) h
  obtain ⟨hid, h⟩ := element_append_inj (element_head _ _) (element_head _ _) h
  have hhead : ∀ node : NodeRef, (endpoint node).head? ≠ some 0xFF := fun node => by
    simpa using endpoint_head _ []
  obtain ⟨hlabel, h⟩ := element_append_inj (hhead _) (hhead _) h
  have htarget : endpoint e.target ++ [] = endpoint e'.target ++ [] := by rw [h]
  obtain ⟨htarget, _⟩ := endpoint_append_inj (by simp) (by simp) htarget
  exact ⟨hmarker, eq_of_parts hdatabase hns htype hid htarget hlabel⟩

theorem reverse_inj {e e' : Triple} (h : e.reverse = e'.reverse) : e = e' := by
  unfold reverse at h
  rw [incoming_key_eq, incoming_key_eq] at h
  obtain ⟨hdatabase, hns, _, h⟩ := edgeRow_inj h
  obtain ⟨htarget, h⟩ := endpoint_append_inj (element_head _ _) (element_head _ _) h
  obtain ⟨hlabel, h⟩ := element_append_inj (element_head _ _) (element_head _ _) h
  have hhead : ∀ s : String, (element s).head? ≠ some 0xFF := fun s => by simpa using element_head s []
  obtain ⟨htype, h⟩ := element_append_inj (hhead _) (hhead _) h
  have hid : element e.source.node_id ++ [] = element e'.source.node_id ++ [] := by rw [h]
  obtain ⟨hid, _⟩ := element_append_inj (by simp) (by simp) hid
  exact eq_of_parts hdatabase hns htype hid htarget hlabel

theorem outgoing_ne_reverse (e e' : Triple) {marker : UInt8} (hmarker : marker ≠ REVERSE) :
    outgoing_key (of_namespace e.source.database e.source.ns).edge marker e.source e.target e.label none ≠
      e'.reverse := by
  unfold reverse
  rw [outgoing_key_eq, incoming_key_eq]
  exact fun h => hmarker (edgeRow_inj h).2.2.1

/-- A row belongs to one triple only. -/
theorem eq_of_mem_rows {e e' : Triple} {k : Bytes} (h : k ∈ e.rows) (h' : k ∈ e'.rows) : e = e' := by
  simp only [rows, mem_cons, not_mem_nil, or_false] at h h'
  obtain rfl | rfl | rfl := h <;> obtain h' | h' | h' := h'
  · exact (outgoing_inj h').2
  · exact (outgoing_inj h').2
  · exact absurd h' (outgoing_ne_reverse e e' (by decide))
  · exact (outgoing_inj h').2
  · exact (outgoing_inj h').2
  · exact absurd h' (outgoing_ne_reverse e e' (by decide))
  · exact absurd h'.symm (outgoing_ne_reverse e' e (by decide))
  · exact absurd h'.symm (outgoing_ne_reverse e' e (by decide))
  · exact reverse_inj h'

/-- Both ends lie in the namespace. -/
structure Within (database ns : String) (e : Triple) : Prop where
  source_database : e.source.database = database
  source_ns : e.source.ns = ns
  target_database : e.target.database = database
  target_ns : e.target.ns = ns

/-- The record is one of this edge. -/
structure Names (e : Triple) (data : EdgeData) : Prop where
  source : data.source = some e.source
  target : data.target = some e.target
  label : data.label = some e.label

end Triple

def EdgeAt.triple (e : EdgeAt) : Triple := ⟨e.source, e.target, e.label⟩

theorem RecordOf.names {e : EdgeAt} {data : EdgeData} (h : RecordOf e data) : e.triple.Names data :=
  ⟨h.source, h.target, h.label⟩

/-- One-way edges without sort keys have three rows. -/
theorem Plain.rows_eq {schemas : Schemas} (hplain : Plain schemas) {e : EdgeAt} (hhome : e.Home) :
    e.rows schemas = e.triple.rows := by
  obtain ⟨database, ns, source, _, _, properties⟩ := e
  obtain ⟨rfl, rfl⟩ : database = source.database ∧ ns = source.ns := hhome
  simp [EdgeAt.rows, EdgeKeys.all_keys, EdgeAt.keys, hplain.not_bidirectional, hplain.no_sort_key, sortBytes,
    EdgeAt.triple, Triple.rows, Triple.forward, Triple.metadata, Triple.reverse]

/-- A row of the edges of the namespace. -/
def EdgeRowOf (database ns : String) (k : Bytes) : Prop :=
  ∃ rest, k = (of_namespace database ns).edge.pfx ++ rest

theorem EdgeRowOf.edgeKey {database ns : String} {k : Bytes} (h : EdgeRowOf database ns k) : EdgeKey k :=
  ⟨database, ns, h⟩

/-- Edges within a namespace, each stored under its three rows. -/
def triples (database ns : String) : Grouping Bytes Cell Triple where
  group := Triple.rows
  Holds e c := e.Within database ns ∧ ∃ data, c = .edge data ∧ e.Names data
  same_of_mem h h' := by rw [Triple.eq_of_mem_rows h h']

/-- Every edge row of the namespace belongs to an edge within it that has all of
its rows. -/
abbrev Paired (database ns : String) (db : Db) : Prop :=
  (triples database ns).Stored (EdgeRowOf database ns) db.rows

section Paired

variable {database ns : String} {db db' : Db}

theorem edgeRowOf_of_mem_rows {e : Triple} (he : e.Within database ns) {k : Bytes} (hk : k ∈ e.rows) :
    EdgeRowOf database ns k := by
  simp only [Triple.rows, Triple.forward, Triple.metadata, Triple.reverse, outgoing_key_eq, incoming_key_eq,
    he.source_database, he.source_ns, edgeRow, mem_cons, not_mem_nil, or_false] at hk
  obtain hk | hk | hk := hk <;> exact ⟨_, hk⟩

theorem paired_of_noEdges (h : NoEdges database ns db) : Paired database ns db := by
  refine Grouping.stored_of_none fun k hk => ?_
  obtain ⟨rest, rfl⟩ := hk
  exact h _

/-- A write transaction on edges within the namespace keeps their rows paired. -/
theorem EdgeEffect.paired {schemas : Schemas} {Put : EdgeAt → Db → Prop} {Drop : EdgeAt → Prop}
    {Other : Db → Db → Prop} (heffect : EdgeEffect schemas Put Drop Other db db') (hplain : Plain schemas)
    (hput : ∀ e db, Put e db → e.Home ∧ e.triple.Within database ns) (hdrop : ∀ e, Drop e → e.Home)
    (h : Paired database ns db) : Paired database ns db' := by
  cases heffect with
  | put e data he hdata hget =>
    obtain ⟨hhome, hwithin⟩ := hput e db he
    rw [hplain.rows_eq hhome] at hget
    exact h.put ⟨hwithin, data, rfl, hdata.names⟩ (fun k hk => (hget k).trans (if_pos hk))
      fun k hk => (hget k).trans (if_neg hk)
  | drop edges hedges hget =>
    have hrows : edges.flatMap (EdgeAt.rows schemas) = (edges.map EdgeAt.triple).flatMap Triple.rows := by
      rw [flatMap_map]
      exact flatMap_congr fun e he => hplain.rows_eq (hdrop e (hedges e he))
    rw [hrows] at hget
    exact h.drop (fun k hk => (hget k).trans (if_pos hk)) fun k hk => (hget k).trans (if_neg hk)
  | keep _ hget =>
    exact h.keep (fun hholds k hk => edgeRowOf_of_mem_rows hholds.1 hk) fun k hk => hget k hk.edgeKey

end Paired

open Option Triple

/-- A record of the edge as the lists return it. -/
def Triple.stored (e : Triple) (data : EdgeData) : StoredEdge :=
  ⟨data.edge_id, e.source, e.target, e.label, data.properties, data.created_at⟩

/-- The label passes the filter of a list. -/
def Passes (label_filter : Option String) (label : String) : Prop := ∀ l, label_filter = some l → label = l

theorem passes_none (label : String) : Passes none label := by
  intro l hl
  cases hl

section Scans

variable {database ns entity_type node_id : String} {label_filter : Option String} {k rest : Bytes}

theorem edgeRow_append (marker : UInt8) (x y : Bytes) :
    edgeRow database ns marker x ++ y = edgeRow database ns marker (x ++ y) := by
  simp [edgeRow]

theorem filterBytes_head (h : rest.head? ≠ some 0xFF) : (filterBytes label_filter ++ rest).head? ≠ some 0xFF := by
  cases label_filter with
  | none => exact h
  | some => exact element_head _ _

private theorem label_rest {label : String} {tail : Bytes} (htail : tail.head? ≠ some 0xFF) :
    (∃ rest, element label ++ tail = filterBytes label_filter ++ rest ∧ rest.head? ≠ some 0xFF) ↔
      Passes label_filter label := by
  cases label_filter with
  | none => exact ⟨fun _ => passes_none _, fun _ => ⟨_, rfl, element_head _ _⟩⟩
  | some l =>
    constructor
    · rintro ⟨rest, heq, hrest⟩ _ hl'
      cases hl'
      exact (element_append_inj htail hrest heq).1
    · intro h
      obtain rfl := h l rfl
      exact ⟨tail, rfl, htail⟩

/-- The forward rows that a scan of a node's outgoing edges meets. -/
theorem forward_in_scan {e : Triple} (he : e.Within database ns) :
    (outgoingStart database ns entity_type node_id label_filter ≤ e.forward ∧
      e.forward < outgoingStart database ns entity_type node_id label_filter ++ [0xFF]) ↔
      e.source = ⟨database, ns, entity_type, node_id⟩ ∧ Passes label_filter e.label := by
  rw [mem_range_iff, forward, outgoing_key_eq, outgoingStart]
  simp only [edgeRow_append, getD_none, nil_append, append_assoc]
  have htarget : (endpoint e.target).head? ≠ some 0xFF := by simpa using endpoint_head _ []
  constructor
  · rintro ⟨rest, heq, hrest⟩
    obtain ⟨_, _, _, heq⟩ := edgeRow_inj heq
    obtain ⟨htype, heq⟩ := element_append_inj (element_head _ _) (element_head _ _) heq
    obtain ⟨hid, heq⟩ := element_append_inj (element_head _ _) (filterBytes_head hrest) heq
    refine ⟨?_, (label_rest htarget).mp ⟨rest, heq, hrest⟩⟩
    rw [← htype, ← hid, ← he.source_database, ← he.source_ns]
  · rintro ⟨hsource, hlabel⟩
    obtain ⟨rest, heq, hrest⟩ := (label_rest htarget).mpr hlabel
    refine ⟨rest, ?_, hrest⟩
    rw [hsource, heq]

/-- The reverse rows that a scan of a node's incoming edges meets. -/
theorem reverse_in_scan {e : Triple} (he : e.Within database ns) :
    (incomingStart database ns entity_type node_id label_filter ≤ e.reverse ∧
      e.reverse < incomingStart database ns entity_type node_id label_filter ++ [0xFF]) ↔
      e.target = ⟨database, ns, entity_type, node_id⟩ ∧ Passes label_filter e.label := by
  rw [mem_range_iff, Triple.reverse, incoming_key_eq, incomingStart]
  simp only [edgeRow_append, append_assoc]
  have hsource : (element e.source.entity_type ++ element e.source.node_id).head? ≠ some 0xFF := element_head _ _
  constructor
  · rintro ⟨rest, heq, hrest⟩
    obtain ⟨_, _, _, heq⟩ := edgeRow_inj heq
    obtain ⟨htarget, heq⟩ := endpoint_append_inj (element_head _ _) (filterBytes_head hrest) heq
    exact ⟨htarget, (label_rest hsource).mp ⟨rest, heq, hrest⟩⟩
  · rintro ⟨htarget, hlabel⟩
    obtain ⟨rest, heq, hrest⟩ := (label_rest hsource).mpr hlabel
    refine ⟨rest, ?_, hrest⟩
    rw [htarget, heq, he.source_database, he.source_ns]

end Scans

/-- The edge is there under all of its rows. -/
structure Present (database ns : String) (db : Db) (e : Triple) (data : EdgeData) : Prop where
  within : e.Within database ns
  names : e.Names data
  rows : ∀ k ∈ e.rows, db.rows.get k = some (.edge data)

section Lists

variable {database ns entity_type node_id : String} {label_filter : Option String} {db : Db}

theorem Paired.present (h : Paired database ns db) {k : Bytes} (hk : EdgeRowOf database ns k) {c : Cell}
    (hget : db.rows.get k = some c) : ∃ e data, Present database ns db e data ∧ k ∈ e.rows ∧ c = .edge data := by
  obtain ⟨e, hmem, ⟨hwithin, data, rfl, hnames⟩, hall⟩ := h k c hk hget
  exact ⟨e, data, ⟨hwithin, hnames, hall⟩, hmem, rfl⟩

/-- The rows that a scan of a node's outgoing edges meets. -/
theorem Paired.outgoing_rows (h : Paired database ns db) {row : Bytes × Cell} :
    row ∈ db.rows.range (outgoingStart database ns entity_type node_id label_filter)
        (outgoingStart database ns entity_type node_id label_filter ++ [0xFF]) ↔
      ∃ e data, Present database ns db e data ∧ e.source = ⟨database, ns, entity_type, node_id⟩ ∧
        Passes label_filter e.label ∧ row = (e.forward, .edge data) := by
  rw [OrdMap.mem_range, ← OrdMap.get_eq_some_iff_mem]
  constructor
  · rintro ⟨hget, hrange⟩
    obtain ⟨rest, hrest, _⟩ := mem_range_iff.mp hrange
    rw [outgoingStart, edgeRow_append] at hrest
    obtain ⟨e, data, hpresent, hmem, hdata⟩ := h.present ⟨_, hrest⟩ hget
    have hmarker : row.1 = e.forward := by
      simp only [rows, mem_cons, not_mem_nil, or_false] at hmem
      obtain hmem | hmem | hmem := hmem
      · exact hmem
      · rw [hmem, metadata, outgoing_key_eq] at hrest
        exact absurd (edgeRow_inj hrest).2.2.1 (by decide)
      · rw [hmem, Triple.reverse, incoming_key_eq] at hrest
        exact absurd (edgeRow_inj hrest).2.2.1 (by decide)
    rw [hmarker] at hrange
    obtain ⟨hsource, hlabel⟩ := (forward_in_scan hpresent.within).mp hrange
    exact ⟨e, data, hpresent, hsource, hlabel, Prod.ext hmarker hdata⟩
  · rintro ⟨e, _, hpresent, hsource, hlabel, rfl⟩
    exact ⟨hpresent.rows _ (by simp [rows]), (forward_in_scan hpresent.within).mpr ⟨hsource, hlabel⟩⟩

/-- The rows that a scan of a node's incoming edges meets. -/
theorem Paired.incoming_rows (h : Paired database ns db) {row : Bytes × Cell} :
    row ∈ db.rows.range (incomingStart database ns entity_type node_id label_filter)
        (incomingStart database ns entity_type node_id label_filter ++ [0xFF]) ↔
      ∃ e data, Present database ns db e data ∧ e.target = ⟨database, ns, entity_type, node_id⟩ ∧
        Passes label_filter e.label ∧ row = (e.reverse, .edge data) := by
  rw [OrdMap.mem_range, ← OrdMap.get_eq_some_iff_mem]
  constructor
  · rintro ⟨hget, hrange⟩
    obtain ⟨rest, hrest, _⟩ := mem_range_iff.mp hrange
    rw [incomingStart, edgeRow_append] at hrest
    obtain ⟨e, data, hpresent, hmem, hdata⟩ := h.present ⟨_, hrest⟩ hget
    have hmarker : row.1 = e.reverse := by
      simp only [rows, mem_cons, not_mem_nil, or_false] at hmem
      obtain hmem | hmem | hmem := hmem
      · rw [hmem, forward, outgoing_key_eq] at hrest
        exact absurd (edgeRow_inj hrest).2.2.1 (by decide)
      · rw [hmem, metadata, outgoing_key_eq] at hrest
        exact absurd (edgeRow_inj hrest).2.2.1 (by decide)
      · exact hmem
    rw [hmarker] at hrange
    obtain ⟨htarget, hlabel⟩ := (reverse_in_scan hpresent.within).mp hrange
    exact ⟨e, data, hpresent, htarget, hlabel, Prod.ext hmarker hdata⟩
  · rintro ⟨e, _, hpresent, htarget, hlabel, rfl⟩
    exact ⟨hpresent.rows _ (by simp [rows]), (reverse_in_scan hpresent.within).mpr ⟨htarget, hlabel⟩⟩

theorem outgoingOf_eq {e : Triple} {data : EdgeData} (h : e.Names data) :
    outgoingOf database ns entity_type node_id label_filter data = e.stored data := by
  simp [outgoingOf, stored, h.source, h.target, h.label]

theorem incomingOf_eq {e : Triple} {data : EdgeData} (h : e.Names data)
    (htarget : e.target = ⟨database, ns, entity_type, node_id⟩) :
    incomingOf database ns entity_type node_id label_filter data = some (e.stored data) := by
  simp [incomingOf, stored, h.source, h.target, h.label, htarget]

theorem Paired.edgeRows_outgoing (h : Paired database ns db) (limit : Nat) :
    EdgeRows (scanned db (outgoingStart database ns entity_type node_id label_filter) limit) := by
  intro _ hrow
  obtain ⟨e, data, _, _, _, rfl⟩ := h.outgoing_rows.mp (mem_of_mem_take hrow)
  exact ⟨data, rfl⟩

theorem Paired.edgeRows_incoming (h : Paired database ns db) (limit : Nat) :
    EdgeRows (scanned db (incomingStart database ns entity_type node_id label_filter) limit) := by
  intro _ hrow
  obtain ⟨e, data, _, _, _, rfl⟩ := h.incoming_rows.mp (mem_of_mem_take hrow)
  exact ⟨data, rfl⟩

theorem scanned_eq_range {start : Bytes} {limit : Nat} (hlimit : db.rows.rows.length ≤ limit) :
    scanned db start limit = db.rows.range start (start ++ [0xFF]) :=
  take_of_length_le ((length_filter_le ..).trans hlimit)

end Lists

section ListRuns

variable {database ns : String} {limit : Nat} {μ : Type}
  (supply : kv.Proc.World Bytes Cell μ → NodeId × kv.Proc.World Bytes Cell μ) {w : kv.Proc.World Bytes Cell μ}

/-- `list_edges` returns the edges with the node as their source. -/
theorem Paired.list_edges_spec (h : Paired database ns w.db) (hlimit : w.db.rows.rows.length ≤ limit)
    (entity_type node_id : String) (label_filter : Option String) :
    ∃ edges, (list_edges database ns entity_type node_id label_filter limit).run supply w = (.ok edges, w) ∧
      ∀ edge, edge ∈ edges ↔ ∃ e data, Present database ns w.db e data ∧
        e.source = ⟨database, ns, entity_type, node_id⟩ ∧ Passes label_filter e.label ∧ edge = e.stored data := by
  refine ⟨_, list_edges_run (h.edgeRows_outgoing _), fun _ => ?_⟩
  rw [scanned_eq_range hlimit]
  simp only [List.mem_map, mem_filterMap, h.outgoing_rows]
  constructor
  · rintro ⟨data, ⟨_, ⟨e, held, hpresent, hsource, hlabel, rfl⟩, hdata⟩, rfl⟩
    obtain rfl : held = data := some.inj hdata
    exact ⟨e, held, hpresent, hsource, hlabel, outgoingOf_eq hpresent.names⟩
  · rintro ⟨e, data, hpresent, hsource, hlabel, rfl⟩
    exact ⟨data, ⟨_, ⟨e, data, hpresent, hsource, hlabel, rfl⟩, rfl⟩, outgoingOf_eq hpresent.names⟩

/-- `list_incoming_edges` returns the edges with the node as their target. -/
theorem Paired.list_incoming_edges_spec (h : Paired database ns w.db) (hlimit : w.db.rows.rows.length ≤ limit)
    (entity_type node_id : String) (label_filter : Option String) :
    ∃ edges, (list_incoming_edges database ns entity_type node_id label_filter limit).run supply w =
        (.ok edges, w) ∧ ∀ edge, edge ∈ edges ↔ ∃ e data, Present database ns w.db e data ∧
        e.target = ⟨database, ns, entity_type, node_id⟩ ∧ Passes label_filter e.label ∧ edge = e.stored data := by
  refine ⟨_, list_incoming_edges_run (h.edgeRows_incoming _), fun _ => ?_⟩
  rw [scanned_eq_range hlimit]
  simp only [mem_filterMap, h.incoming_rows]
  constructor
  · rintro ⟨data, ⟨_, ⟨e, held, hpresent, htarget, hlabel, rfl⟩, hdata⟩, hedge⟩
    obtain rfl : held = data := some.inj hdata
    rw [incomingOf_eq hpresent.names htarget] at hedge
    exact ⟨e, held, hpresent, htarget, hlabel, (some.inj hedge).symm⟩
  · rintro ⟨e, data, hpresent, htarget, hlabel, rfl⟩
    exact ⟨data, ⟨_, ⟨e, data, hpresent, htarget, hlabel, rfl⟩, rfl⟩, incomingOf_eq hpresent.names htarget⟩

end ListRuns

/-- The requests that change edges, with their ends in one namespace. -/
inductive EdgeCall where
  | create_edge (source_type source_id target_type target_id label : String) (properties : Properties)
      (clock : Clock) (returned_at : Int)
  | delete_edge (source_type source_id target_type target_id label : String) (clock : Clock)
  | delete_node (entity_type node_id : String) (clock : Clock)
  | apply_replica_edge_create (source_type source_id target_type target_id label edge_id : String)
      (properties : Properties) (event_timestamp : Int) (origin_site : String)
  | apply_replica_edge_delete (source_type source_id target_type target_id label : String)
      (event_timestamp : Int) (origin_site : String)
  | apply_replica_node_delete (entity_type node_id : String) (event_timestamp : Int) (origin_site : String)

/-- The request as it runs in the namespace. -/
def EdgeCall.proc (self : Store) (database ns : String) : EdgeCall → Proc Bool
  | create_edge source_type source_id target_type target_id label properties clock returned_at => do
    let _ ← edge.create_edge self database ns ⟨database, ns, source_type, source_id⟩
      ⟨database, ns, target_type, target_id⟩ label properties clock returned_at
    pure true
  | delete_edge source_type source_id target_type target_id label clock =>
    edge.delete_edge self database ns ⟨database, ns, source_type, source_id⟩
      ⟨database, ns, target_type, target_id⟩ label clock
  | delete_node entity_type node_id clock =>
    node.delete_node self.node_store database ns entity_type node_id clock
  | apply_replica_edge_create source_type source_id target_type target_id label edge_id properties
      event_timestamp origin_site =>
    edge.apply_replica_edge_create self database ns ⟨database, ns, source_type, source_id⟩
      ⟨database, ns, target_type, target_id⟩ label edge_id properties event_timestamp origin_site
  | apply_replica_edge_delete source_type source_id target_type target_id label event_timestamp origin_site =>
    edge.apply_replica_edge_delete self database ns ⟨database, ns, source_type, source_id⟩
      ⟨database, ns, target_type, target_id⟩ label event_timestamp origin_site
  | apply_replica_node_delete entity_type node_id event_timestamp origin_site =>
    node.apply_replica_node_delete self.node_store database ns entity_type node_id event_timestamp origin_site

/-- The requests of users; the others come from replication. -/
def EdgeCall.Local : EdgeCall → Prop
  | create_edge .. | delete_edge .. | delete_node .. => True
  | apply_replica_edge_create .. | apply_replica_edge_delete .. | apply_replica_node_delete .. => False

/-- Every request writes only edges that are kept with their sources within the
namespace, users' requests only between nodes with records, and removes only
edges that are kept with their sources. -/
theorem EdgeCall.proc_effects (self : Store) (database ns : String) (call : EdgeCall) :
    (call.proc self database ns).Effects (EdgeEffect self.get_schema
        (fun e db => e.Home ∧ e.triple.Within database ns ∧ (call.Local → Live e.source db ∧ Live e.target db))
        EdgeAt.Home (RecordsLeave database ns)) fun _ => True := by
  cases call with
  | create_edge _ _ _ _ label properties clock returned_at =>
    refine Proc.Commits.bind (Proc.Effects.mono (create_edge_effects _ _ ns ..) (fun _ _ h => h.mono ?_ fun e h => h.elim) fun _ h => h) fun _ _ => Proc.commits_pure trivial
    rintro e _ ⟨rfl, hlive⟩
    exact ⟨⟨rfl, rfl⟩, ⟨rfl, rfl, rfl, rfl⟩, fun _ => hlive⟩
  | delete_edge _ _ _ _ label clock =>
    refine (delete_edge_effects _ _ ns ..).mono
      (fun _ _ h => h.mono (fun e _ h => h.elim) ?_) fun _ h => h
    rintro e ⟨properties, rfl⟩
    exact ⟨rfl, rfl⟩
  | delete_node entity_type node_id clock => exact delete_node_effects _ _ ns ..
  | apply_replica_edge_create source_type source_id target_type target_id label edge_id properties
      event_timestamp origin_site =>
    refine (apply_replica_edge_create_effects _ _ ns ..).mono (fun _ _ h => h.mono ?_ fun e h => h.elim) fun _ h => h
    rintro e _ rfl
    exact ⟨⟨rfl, rfl⟩, ⟨rfl, rfl, rfl, rfl⟩, fun h => h.elim⟩
  | apply_replica_edge_delete _ _ _ _ label event_timestamp origin_site =>
    refine (apply_replica_edge_delete_effects _ _ ns ..).mono
      (fun _ _ h => h.mono (fun e _ h => h.elim) ?_) fun _ h => h
    rintro e ⟨properties, rfl⟩
    exact ⟨rfl, rfl⟩
  | apply_replica_node_delete entity_type node_id event_timestamp origin_site =>
    exact apply_replica_node_delete_effects _ _ ns ..

section Runs

variable {J : Type} [DecidableEq J] {schemas : Schemas} {stores : J → Store} {calls : J → EdgeCall}
  {database ns : String}

/-- Requests on edges of one namespace, started on a database without any. -/
structure Started (schemas : Schemas) (stores : J → Store) (calls : J → EdgeCall) (database ns : String)
    (c : Pool Bytes Cell NodeId PelagoError Bool J) : Prop where
  schemas : ∀ j, (stores j).get_schema = schemas
  threads : ∀ j, c.threads j = .start ((calls j).proc (stores j) database ns)
  edges : NoEdges database ns c.db

theorem Started.paired {c c' : Pool Bytes Cell NodeId PelagoError Bool J}
    {valid : Db → List (Bytes × Option Cell) → Prop} (hstart : Started schemas stores calls database ns c)
    (hplain : Plain schemas) (hreach : Reach valid c c') : Paired database ns c'.db := by
  refine hreach.invariant (paired_of_noEdges hstart.edges) fun j => ?_
  rw [hstart.threads j]
  refine ((calls j).proc_effects _ _ ns).preserves (fun _ _ heffect hpaired => ?_) _
  rw [hstart.schemas j] at heffect
  exact heffect.paired hplain (fun _ _ h => ⟨h.1, h.2.1⟩) (fun _ h => h) hpaired

/-- In every state that any interleaving of requests reaches, an edge has its
forward row exactly when it has its metadata row and its reverse row, all with
one record that names it; there are no other edge rows; and the lists of
outgoing and of incoming edges show the same edges from their two ends. -/
theorem edge_rows_in_bijection {c c' : Pool Bytes Cell NodeId PelagoError Bool J}
    {valid : Db → List (Bytes × Option Cell) → Prop} (hstart : Started schemas stores calls database ns c)
    (hplain : Plain schemas) (hreach : Reach valid c c') :
    (∀ e : Triple, e.Within database ns →
      c'.db.rows.get e.forward = c'.db.rows.get e.metadata ∧
      c'.db.rows.get e.forward = c'.db.rows.get e.reverse ∧
      ∀ cell, c'.db.rows.get e.forward = some cell → ∃ data, cell = .edge data ∧ e.Names data) ∧
    (∀ k, EdgeRowOf database ns k → c'.db.rows.get k ≠ none →
      ∃ e : Triple, e.Within database ns ∧ (k = e.forward ∨ k = e.metadata ∨ k = e.reverse)) ∧
    ∀ {μ : Type} (supply : kv.Proc.World Bytes Cell μ → NodeId × kv.Proc.World Bytes Cell μ)
      (w : kv.Proc.World Bytes Cell μ), w.db = c'.db →
      ∀ (label_filter : Option String) (limit : Nat), c'.db.rows.rows.length ≤ limit →
      ∀ source_type source_id target_type target_id, ∃ outgoing incoming,
        (list_edges database ns source_type source_id label_filter limit).run supply w = (.ok outgoing, w) ∧
        (list_incoming_edges database ns target_type target_id label_filter limit).run supply w =
          (.ok incoming, w) ∧
        (∀ edge ∈ outgoing, edge.source = ⟨database, ns, source_type, source_id⟩) ∧
        (∀ edge ∈ incoming, edge.target = ⟨database, ns, target_type, target_id⟩) ∧
        ∀ edge, edge ∈ outgoing ∧ edge.target = ⟨database, ns, target_type, target_id⟩ ↔
          edge ∈ incoming ∧ edge.source = ⟨database, ns, source_type, source_id⟩ := by
  have hpaired : Paired database ns c'.db := hstart.paired hplain hreach
  refine ⟨fun e he => ?_, fun k hk hget => ?_, ?_⟩
  · have hrow : ∀ k ∈ e.rows, EdgeRowOf database ns k := fun k => edgeRowOf_of_mem_rows he
    refine ⟨hpaired.get_eq hrow (by simp [triples, rows]) (by simp [triples, rows]),
      hpaired.get_eq hrow (by simp [triples, rows]) (by simp [triples, rows]), fun cell hcell => ?_⟩
    have hforward : e.forward ∈ e.rows := by simp [rows]
    obtain ⟨e', data, hpresent, hmem, rfl⟩ := hpaired.present (hrow _ hforward) hcell
    obtain rfl := eq_of_mem_rows hforward hmem
    exact ⟨data, rfl, hpresent.names⟩
  · obtain ⟨cell, hcell⟩ := ne_none_iff_exists'.mp hget
    obtain ⟨e, data, hpresent, hmem, _⟩ := hpaired.present hk hcell
    exact ⟨e, hpresent.within, by simpa [rows] using hmem⟩
  · intro μ supply w hw label_filter limit hlimit source_type source_id target_type target_id
    rw [← hw] at hpaired hlimit
    obtain ⟨outgoing, hout, hmem_out⟩ :=
      hpaired.list_edges_spec _ hlimit _ _ _
    obtain ⟨incoming, hin, hmem_in⟩ :=
      hpaired.list_incoming_edges_spec _ hlimit _ _ _
    refine ⟨outgoing, incoming, hout, hin, fun edge hedge => ?_, fun edge hedge => ?_, fun edge => ?_⟩
    · obtain ⟨e, data, _, hsource, _, rfl⟩ := (hmem_out edge).mp hedge
      exact hsource
    · obtain ⟨e, data, _, htarget, _, rfl⟩ := (hmem_in edge).mp hedge
      exact htarget
    · rw [hmem_out, hmem_in]
      constructor
      · rintro ⟨⟨e, data, hpresent, hsource, hlabel, rfl⟩, htarget⟩
        exact ⟨⟨e, data, hpresent, htarget, hlabel, rfl⟩, hsource⟩
      · rintro ⟨⟨e, data, hpresent, htarget, hlabel, rfl⟩, hsource⟩
        exact ⟨⟨e, data, hpresent, hsource, hlabel, rfl⟩, htarget⟩

end Runs

/-- People who know each other. -/
def friendSchema : EntitySchema :=
  ⟨"Person", .empty, {}, OrdMap.ofList [("knows", ⟨.Specific "Person", .Outgoing, none, .SourceSite⟩)]⟩

def friends : Store := ⟨fun _ _ _ => some friendSchema, "1", 10, fun _ => 0⟩

theorem friends_plain : Plain friends.get_schema := by
  intro _ _ _ _ label edge_def hschema hlabel
  cases hschema
  obtain ⟨_, rfl⟩ : label = "knows" ∧ edge_def = ⟨.Specific "Person", .Outgoing, none, .SourceSite⟩ := by
    simpa using OrdMap.get_ofList_eq_some hlabel
  exact ⟨rfl, rfl⟩

/-- The record of a person. -/
def personRow (db : Db) (id : NodeId) : Db :=
  ⟨db.rows.set (data_key (Subspace.of_namespace "db" "ns").data "Person" id.to_bytes)
    (encode_cbor ⟨.empty, 1, 0, 0⟩), db.journal⟩

def twoPeople : Db := personRow (personRow ⟨.empty, fun _ => []⟩ ⟨1, 1⟩) ⟨1, 2⟩

theorem twoPeople_edgeless {k : Bytes} (hk : EdgeKey k) : twoPeople.rows.get k = none := by
  simp only [twoPeople, personRow, OrdMap.get_set, OrdMap.get_empty]
  rw [if_neg (edgeKey_ne_data_key hk _), if_neg (edgeKey_ne_data_key hk _)]

theorem twoPeople_noEdges : NoEdges "db" "ns" twoPeople :=
  fun rest => twoPeople_edgeless ⟨_, _, rest, rfl⟩

/-- One person gets to know the other while the other is being deleted. -/
def meeting : Bool → EdgeCall
  | true => .create_edge "Person" (NodeId.to_string ⟨1, 1⟩) "Person" (NodeId.to_string ⟨1, 2⟩) "knows" .empty ⟨5, 5⟩ 5
  | false => .delete_node "Person" (NodeId.to_string ⟨1, 2⟩) ⟨6, 6⟩

def meetingPool : Pool Bytes Cell NodeId PelagoError Bool Bool :=
  ⟨twoPeople, fun j => .start ((meeting j).proc friends "db" "ns")⟩

theorem meeting_started : Started friends.get_schema (fun _ : Bool => friends) meeting "db" "ns" meetingPool :=
  ⟨fun _ => rfl, fun _ => rfl, twoPeople_noEdges⟩

theorem meeting_rows_in_bijection :
    let c := meetingPool.schedule [(false, ⟨1, 7⟩), (true, ⟨1, 7⟩), (true, ⟨1, 7⟩)]
    let e : Triple := ⟨⟨"db", "ns", "Person", NodeId.to_string ⟨1, 1⟩⟩, ⟨"db", "ns", "Person", NodeId.to_string ⟨1, 2⟩⟩,
      "knows"⟩
    c.db.rows.get e.forward ≠ none ∧ c.db.rows.get e.forward = c.db.rows.get e.reverse :=
  ⟨by decide +kernel, ((edge_rows_in_bijection meeting_started friends_plain (Pool.reach_schedule _ _)).1 _
    ⟨rfl, rfl, rfl, rfl⟩).2.1⟩

end pelago_storage.edge
