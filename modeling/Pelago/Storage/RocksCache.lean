import Pelago.Storage.Cdc
import Pelago.Storage.Edge
import Pelago.Storage.Ids.Processes

open bytes kv pelago_core pelago_storage.node

namespace pelago_storage.rocks_cache

section

/-- Node key: `n:<db>:<ns>:<type>:<node_id>`. -/
def node_key (db ns entity_type node_id : String) : Bytes :=
  utf8 ("n:" ++ db ++ ":" ++ ns ++ ":" ++ entity_type ++ ":" ++ node_id)

/-- Edge key: `e:<db>:<ns>:<src_type>:<src_id>:<label>:<tgt_type>:<tgt_id>`. -/
def edge_key (db ns : String) (source : NodeRef) (label : String) (target : NodeRef) : Bytes :=
  utf8 ("e:" ++ db ++ ":" ++ ns ++ ":" ++ source.entity_type ++ ":" ++ source.node_id ++ ":" ++ label ++ ":" ++
    target.entity_type ++ ":" ++ target.node_id)

/-- Incoming edge key: `i:<db>:<ns>:<tgt_type>:<tgt_id>:<label>:<src_type>:<src_id>`. -/
def incoming_edge_key (db ns : String) (source : NodeRef) (label : String) (target : NodeRef) : Bytes :=
  utf8 ("i:" ++ db ++ ":" ++ ns ++ ":" ++ target.entity_type ++ ":" ++ target.node_id ++ ":" ++ label ++ ":" ++
    source.entity_type ++ ":" ++ source.node_id)

def edge_prefix_of (shape db ns entity_type node_id : String) (label : Option String) : Bytes :=
  match label with
  | some l => utf8 (shape ++ db ++ ":" ++ ns ++ ":" ++ entity_type ++ ":" ++ node_id ++ ":" ++ l ++ ":")
  | none => utf8 (shape ++ db ++ ":" ++ ns ++ ":" ++ entity_type ++ ":" ++ node_id ++ ":")

/-- What the keys of a node's edges start with, with a label or without. -/
def edge_pfx : (db ns entity_type node_id : String) → (label : Option String) → Bytes := edge_prefix_of "e:"

def incoming_edge_pfx : (db ns entity_type node_id : String) → (label : Option String) → Bytes := edge_prefix_of "i:"

/-- The cache. Rows are kept as what they decode to. Nodes, edges and the mark
have column families of their own; without those, their keys differ in the first
letter. -/
structure RocksCacheStore where
  nodes : OrdMap Bytes StoredNode
  edges : OrdMap Bytes StoredEdge
  hwm : Option Versionstamp
  hwm_updated_at_ms : Option Nat

namespace RocksCacheStore

def empty : RocksCacheStore := ⟨.empty, .empty, none, none⟩

def get_node (self : RocksCacheStore) (db ns entity_type node_id : String) : Option StoredNode :=
  self.nodes.get (node_key db ns entity_type node_id)

def get_hwm (self : RocksCacheStore) : Versionstamp := self.hwm.getD Versionstamp.zero

/-- The rows from a prefix on, up to the first key that does not start with it. -/
def scan (self : RocksCacheStore) (pfx : Bytes) : List StoredEdge :=
  (((self.edges.rows.filter fun row => decide (pfx ≤ row.1)).takeWhile fun row => pfx.isPrefixOf row.1).map Prod.snd)

def list_edges_cached (self : RocksCacheStore) (db ns entity_type node_id : String) (label : Option String) :
    List StoredEdge :=
  self.scan (edge_pfx db ns entity_type node_id label)

def list_incoming_edges_cached (self : RocksCacheStore) (db ns entity_type node_id : String) (label : Option String) :
    List StoredEdge :=
  self.scan (incoming_edge_pfx db ns entity_type node_id label)

/-- What the operations seen so far leave to write, by node and by edge. -/
structure Pending where
  nodes : OrdMap (List String) (Option StoredNode)
  edges : OrdMap (List String) (Option StoredEdge)

/-- How an update changes the properties of a cached node: null removes. -/
def merge_properties (properties changed_properties : Properties) : Properties :=
  changed_properties.rows.foldl
    (fun properties (k, v) => if v.is_null then properties.clear k else properties.set k v) properties

/-- A node as it stands after the operations seen so far. -/
def staged (self : RocksCacheStore) (db ns entity_type node_id : String) (pending : Pending) : Option StoredNode :=
  match pending.nodes.get [entity_type, node_id] with
  | some staged => staged
  | none => self.get_node db ns entity_type node_id

def stage (self : RocksCacheStore) (db ns : String) (entry_timestamp : Int) (pending : Pending) :
    CdcOperation → Pending
  | .NodeCreate entity_type node_id properties home_site =>
    let node : StoredNode := ⟨node_id, entity_type, properties, (parse_u8 home_site).getD 1, entry_timestamp,
      entry_timestamp⟩
    { pending with nodes := pending.nodes.set [entity_type, node_id] (some node) }
  | .NodeUpdate entity_type node_id changed_properties _ =>
    match self.staged db ns entity_type node_id pending with
    | some node =>
      let node := { node with
        properties := merge_properties node.properties changed_properties
        updated_at := max node.updated_at entry_timestamp }
      { pending with nodes := pending.nodes.set [entity_type, node_id] (some node) }
    | none => pending
  | .NodeDelete entity_type node_id =>
    { pending with nodes := pending.nodes.set [entity_type, node_id] none }
  | .EdgeCreate source_type source_id target_type target_id edge_type edge_id properties =>
    let edge : StoredEdge := ⟨edge_id, ⟨db, ns, source_type, source_id⟩, ⟨db, ns, target_type, target_id⟩, edge_type,
      properties, entry_timestamp⟩
    { pending with edges := pending.edges.set [source_type, source_id, edge_type, target_type, target_id] (some edge) }
  | .EdgeDelete source_type source_id target_type target_id edge_type =>
    { pending with edges := pending.edges.set [source_type, source_id, edge_type, target_type, target_id] none }
  | .OwnershipTransfer entity_type node_id _ current_site_id =>
    match self.staged db ns entity_type node_id pending with
    | some node =>
      let node := { node with
        locality := (parse_u8 current_site_id).getD node.locality
        updated_at := max node.updated_at entry_timestamp }
      { pending with nodes := pending.nodes.set [entity_type, node_id] (some node) }
    | none => pending

/-- Writes an edge under both of its keys, or removes it from both. -/
def write_edge (db ns : String) (edges : OrdMap Bytes StoredEdge) : List String × Option StoredEdge →
    OrdMap Bytes StoredEdge
  | ([source_type, source_id, label, target_type, target_id], maybe_edge) =>
    let source : NodeRef := ⟨db, ns, source_type, source_id⟩
    let target : NodeRef := ⟨db, ns, target_type, target_id⟩
    let key := edge_key db ns source label target
    let incoming_key := incoming_edge_key db ns source label target
    match maybe_edge with
    | some edge => (edges.set key edge).set incoming_key edge
    | none => (edges.clear key).clear incoming_key
  | _ => edges

def write_node (db ns : String) (nodes : OrdMap Bytes StoredNode) : List String × Option StoredNode →
    OrdMap Bytes StoredNode
  | ([entity_type, node_id], maybe_node) =>
    let key := node_key db ns entity_type node_id
    match maybe_node with
    | some node => nodes.set key node
    | none => nodes.clear key
  | _ => nodes

/-- Applies a batch of operations together with the new mark. -/
def apply_cdc_operations (self : RocksCacheStore) (db ns : String) (operations : List CdcOperation)
    (entry_timestamp : Int) (hwm : Versionstamp) (now_ms : Nat) : RocksCacheStore :=
  let pending := operations.foldl (self.stage db ns entry_timestamp) ⟨.empty, .empty⟩
  { nodes := pending.nodes.rows.foldl (write_node db ns) self.nodes
    edges := pending.edges.rows.foldl (write_edge db ns) self.edges
    hwm := some hwm
    hwm_updated_at_ms := some now_ms }

end RocksCacheStore

open text List text.Separator

/-- The cache tells the parts of a key apart by colons. -/
def colon : Separator UInt8 := Separator.symbol 0x3A

/-- A name without a colon. -/
def Plain (s : String) : Prop := ':' ∉ s.toList

instance (s : String) : Decidable (Plain s) := inferInstanceAs (Decidable (_ ∉ _))

theorem whole_iff {s : String} : colon.Whole (utf8 s) ↔ Plain s :=
  whole_symbol_iff.trans (not_congr (mem_utf8_iff (by decide)))

theorem plain_node_id (id : NodeId) : Plain id.to_string := by
  intro h
  have htext : id.to_string.toList = (Nat.repr id.site.toNat).toList ++ '_' :: (Nat.repr id.seq.toNat).toList := by
    simp [NodeId.to_string]
  rw [htext] at h
  obtain h | h := mem_append.mp h
  · exact absurd (digit_of_mem_repr h) (by decide)
  obtain h | h := mem_cons.mp h
  · exact absurd h (by decide)
  · exact absurd (digit_of_mem_repr h) (by decide)

/-- A name with a colon is two names. -/
theorem exists_of_not_plain {s : String} (h : ¬ Plain s) :
    ∃ x y : String, s = x ++ ":" ++ y ∧ Plain x ∧ x ≠ s ∧ y ≠ s := by
  obtain ⟨x, y, hxy, hx⟩ := eq_append_cons_of_mem (not_not.mp h)
  have hlength := congrArg length hxy
  refine ⟨.ofList x, .ofList y, ?_, ?_, ?_, ?_⟩
  · apply String.toList_inj.mp
    simp [hxy]
  · simpa [Plain] using hx
  · rintro rfl
    simp at hlength
  · rintro rfl
    simp at hlength
    omega

/-- A namespace with a colon in one of its names is written like another one. -/
theorem exists_same_scope {database ns : String} (h : ¬ (Plain database ∧ Plain ns)) :
    ∃ database' ns', ¬ (database' = database ∧ ns' = ns) ∧ database' ++ ":" ++ ns' = database ++ ":" ++ ns := by
  by_cases hdatabase : Plain database
  · obtain ⟨x, y, rfl, _, _, hy⟩ := exists_of_not_plain fun hns => h ⟨hdatabase, hns⟩
    exact ⟨database ++ ":" ++ x, y, fun heq => hy heq.2, by simp [String.append_assoc]⟩
  · obtain ⟨x, y, rfl, _, hx, _⟩ := exists_of_not_plain hdatabase
    exact ⟨x, y ++ ":" ++ ns, fun heq => hx heq.1, by simp [String.append_assoc]⟩

section Scope

variable {database ns database' ns' : String} (h : database' ++ ":" ++ ns' = database ++ ":" ++ ns)
include h

private theorem scope_append (x y : String) : x ++ database' ++ ":" ++ ns' ++ y = x ++ database ++ ":" ++ ns ++ y := by
  have hscope : x ++ (database' ++ ":" ++ ns') ++ y = x ++ (database ++ ":" ++ ns) ++ y := by rw [h]
  simpa only [String.append_assoc] using hscope

theorem node_key_congr (entity_type node_id : String) :
    node_key database' ns' entity_type node_id = node_key database ns entity_type node_id := by
  have hkey := scope_append h "n:" (":" ++ entity_type ++ ":" ++ node_id)
  simp only [← String.append_assoc] at hkey
  rw [node_key, node_key, hkey]

theorem edge_key_congr (source : NodeRef) (label : String) (target : NodeRef) :
    edge_key database' ns' source label target = edge_key database ns source label target := by
  have hkey := scope_append h "e:" (":" ++ source.entity_type ++ ":" ++ source.node_id ++ ":" ++ label ++ ":" ++
    target.entity_type ++ ":" ++ target.node_id)
  simp only [← String.append_assoc] at hkey
  rw [edge_key, edge_key, hkey]

end Scope

theorem letters : utf8 ":" = [0x3A] ∧ utf8 "n:" = [0x6E, 0x3A] ∧ utf8 "e:" = [0x65, 0x3A] ∧
    utf8 "i:" = [0x69, 0x3A] := by
  decide +kernel

theorem node_key_eq (database ns entity_type node_id : String) : node_key database ns entity_type node_id =
    colon.join [[0x6E], utf8 database, utf8 ns, utf8 entity_type, utf8 node_id] := by
  simp [node_key, utf8_append, letters, join, intercalate_cons_cons, colon, symbol]

/-- No other node is kept where one without colons is. -/
theorem node_key_inj {database ns entity_type node_id : String} (hdatabase : Plain database) (hns : Plain ns)
    (htype : Plain entity_type) (hid : Plain node_id) {database' ns' entity_type' node_id' : String}
    (h : node_key database' ns' entity_type' node_id' = node_key database ns entity_type node_id) :
    database' = database ∧ ns' = ns ∧ entity_type' = entity_type ∧ node_id' = node_id := by
  have hwhole : ∀ field ∈ [[0x6E], utf8 database, utf8 ns, utf8 entity_type, utf8 node_id], colon.Whole field := by
    simp only [forall_mem_cons, not_mem_nil, false_implies, implies_true, and_true, whole_iff]
    exact ⟨whole_symbol_iff.mpr (by decide), hdatabase, hns, htype, hid⟩
  rw [node_key_eq, node_key_eq] at h
  have hfields := join_inj hwhole (by rfl) h
  simp only [cons.injEq, and_true, true_and] at hfields
  obtain ⟨hd, hn, ht, hi⟩ := hfields
  exact ⟨utf8_inj hd, utf8_inj hn, utf8_inj ht, utf8_inj hi⟩

/-- A node of a namespace. -/
structure CachedNode where
  database : String
  ns : String
  entity_type : String
  id : NodeId

/-- An edge of a namespace. -/
structure CachedEdge where
  database : String
  ns : String
  source_type : String
  source : NodeId
  label : String
  target_type : String
  target : NodeId

namespace CachedNode

def key (n : CachedNode) : Bytes := node_key n.database n.ns n.entity_type n.id.to_string

def fields (n : CachedNode) : List Bytes :=
  [[0x6E], utf8 n.database, utf8 n.ns, utf8 n.entity_type, utf8 n.id.to_string]

theorem key_eq (n : CachedNode) : n.key = colon.join n.fields := node_key_eq ..

/-- No other node has the key of one without colons. -/
theorem key_inj {n n' : CachedNode} (hdatabase : Plain n.database) (hns : Plain n.ns) (htype : Plain n.entity_type)
    (h : n'.key = n.key) : n' = n := by
  obtain ⟨hd, hn, ht, hid⟩ := node_key_inj hdatabase hns htype (plain_node_id _) h
  cases n
  cases n'
  simp only [mk.injEq]
  exact ⟨hd, hn, ht, NodeId.to_string_inj hid⟩

end CachedNode

variable {letter letter' : UInt8}

namespace CachedEdge

def sourceRef (e : CachedEdge) : NodeRef := ⟨e.database, e.ns, e.source_type, e.source.to_string⟩

def targetRef (e : CachedEdge) : NodeRef := ⟨e.database, e.ns, e.target_type, e.target.to_string⟩

def key (e : CachedEdge) : Bytes := edge_key e.database e.ns e.sourceRef e.label e.targetRef

def incomingKey (e : CachedEdge) : Bytes := incoming_edge_key e.database e.ns e.sourceRef e.label e.targetRef

/-- The edge met from its other end. -/
def flip (e : CachedEdge) : CachedEdge :=
  { e with source_type := e.target_type, source := e.target, target_type := e.source_type, target := e.source }

/-- The parts of a key that starts with a letter and the source. -/
def fields (letter : UInt8) (e : CachedEdge) : List Bytes :=
  [[letter], utf8 e.database, utf8 e.ns, utf8 e.source_type, utf8 e.source.to_string, utf8 e.label, utf8 e.target_type,
    utf8 e.target.to_string]

theorem key_eq (e : CachedEdge) : e.key = colon.join (e.fields 0x65) := by
  simp [key, edge_key, fields, utf8_append, letters, join, intercalate_cons_cons, colon,
    symbol, sourceRef, targetRef]

theorem incomingKey_eq (e : CachedEdge) : e.incomingKey = colon.join (e.flip.fields 0x69) := by
  simp [incomingKey, incoming_edge_key, fields, flip, utf8_append, letters, join,
    intercalate_cons_cons, colon, symbol, sourceRef, targetRef]

/-- All names of the edge. -/
structure AllPlain (e : CachedEdge) : Prop where
  database : Plain e.database
  ns : Plain e.ns
  label : Plain e.label
  source_type : Plain e.source_type
  target_type : Plain e.target_type

theorem AllPlain.flip {e : CachedEdge} (h : e.AllPlain) : e.flip.AllPlain :=
  ⟨h.database, h.ns, h.label, h.target_type, h.source_type⟩

theorem AllPlain.whole {e : CachedEdge} (h : e.AllPlain) (hletter : letter ≠ 0x3A) :
    ∀ field ∈ e.fields letter, colon.Whole field := by
  simp only [fields, forall_mem_cons, not_mem_nil, false_implies, implies_true, and_true, whole_iff]
  exact ⟨whole_symbol_iff.mpr (by simpa using hletter.symm), h.database, h.ns, h.source_type, plain_node_id _,
    h.label, h.target_type, plain_node_id _⟩

theorem fields_inj {e e' : CachedEdge} (h : e'.fields letter' = e.fields letter) : letter' = letter ∧ e' = e := by
  simp only [fields, cons.injEq, and_true] at h
  obtain ⟨hletter, hdatabase, hns, hsource_type, hsource, hlabel, htarget_type, htarget⟩ := h
  refine ⟨hletter, ?_⟩
  cases e
  cases e'
  simp only [mk.injEq]
  exact ⟨utf8_inj hdatabase, utf8_inj hns, utf8_inj hsource_type, NodeId.to_string_inj (utf8_inj hsource),
    utf8_inj hlabel, utf8_inj htarget_type, NodeId.to_string_inj (utf8_inj htarget)⟩

/-- No other edge has the key of one without colons. -/
theorem join_fields_inj (hletter : letter ≠ 0x3A) {e e' : CachedEdge} (he : e.AllPlain)
    (h : colon.join (e'.fields letter) = colon.join (e.fields letter)) : e' = e :=
  (fields_inj (join_inj (he.whole hletter) (by rfl) h)).2

end CachedEdge

/-- What is asked of a listing: the edges of a node, with a label or with any. -/
structure Request where
  database : String
  ns : String
  entity_type : String
  id : NodeId
  label : Option String

namespace Request

structure AllPlain (r : Request) : Prop where
  database : Plain r.database
  ns : Plain r.ns
  entity_type : Plain r.entity_type
  label : ∀ l, r.label = some l → Plain l

/-- The edge starts at the node of the request and has its label. -/
structure Matches (r : Request) (e : CachedEdge) : Prop where
  database : e.database = r.database
  ns : e.ns = r.ns
  entity_type : e.source_type = r.entity_type
  id : e.source = r.id
  label : ∀ l, r.label = some l → e.label = l

def fields (r : Request) (letter : UInt8) : List Bytes :=
  [[letter], utf8 r.database, utf8 r.ns, utf8 r.entity_type, utf8 r.id.to_string] ++ r.label.toList.map utf8

theorem edge_pfx_append (r : Request) (rest : Bytes) :
    edge_pfx r.database r.ns r.entity_type r.id.to_string r.label ++ rest = colon.join (r.fields 0x65 ++ [rest]) := by
  cases hlabel : r.label <;>
  simp [edge_pfx, edge_prefix_of, fields, hlabel, utf8_append, letters, join, intercalate_cons_cons, colon, symbol]

theorem incoming_edge_pfx_append (r : Request) (rest : Bytes) :
    incoming_edge_pfx r.database r.ns r.entity_type r.id.to_string r.label ++ rest =
      colon.join (r.fields 0x69 ++ [rest]) := by
  cases hlabel : r.label <;>
  simp [incoming_edge_pfx, edge_prefix_of, fields, hlabel, utf8_append, letters, join,
    intercalate_cons_cons, colon, symbol]

theorem AllPlain.whole {r : Request} (h : r.AllPlain) (hletter : letter ≠ 0x3A) :
    ∀ field ∈ r.fields letter, colon.Whole field := by
  have hhead : ∀ field ∈ [[letter], utf8 r.database, utf8 r.ns, utf8 r.entity_type, utf8 r.id.to_string],
      colon.Whole field := by
    simp only [forall_mem_cons, not_mem_nil, false_implies, implies_true, and_true, whole_iff]
    exact ⟨whole_symbol_iff.mpr (by simpa using hletter.symm), h.database, h.ns, h.entity_type,
      plain_node_id _⟩
  intro _ hfield
  obtain hfield | hfield := mem_append.mp hfield
  · exact hhead _ hfield
  · obtain ⟨l, hl, rfl⟩ := mem_map.mp hfield
    exact whole_iff.mpr (h.label l (Option.mem_toList.mp hl))

/-- A listing without colons meets only keys of edges that match. -/
theorem matches_of_join {r : Request} (hr : r.AllPlain) {e : CachedEdge} (he : e.AllPlain)
    (hletter : letter ≠ 0x3A) (hletter' : letter' ≠ 0x3A) {rest : Bytes}
    (h : colon.join (r.fields letter ++ [rest]) = colon.join (e.fields letter')) : letter = letter' ∧ r.Matches e := by
  have hsplit := congrArg colon.split h
  rw [colon.split_join (by simp), split_join_of_whole (by simp [CachedEdge.fields]) (he.whole hletter'),
    flatMap_append, flatMap_split_of_whole (hr.whole hletter)] at hsplit
  simp only [fields, CachedEdge.fields, cons_append, nil_append, cons.injEq, and_true] at hsplit
  obtain ⟨hletters, hdatabase, hns, htype, hid, hrest⟩ := hsplit
  refine ⟨hletters, (utf8_inj hdatabase).symm, (utf8_inj hns).symm, (utf8_inj htype).symm,
    (NodeId.to_string_inj (utf8_inj hid)).symm, fun l hl => ?_⟩
  rw [hl] at hrest
  exact (utf8_inj (cons.inj hrest).1).symm

end Request

end

open text pelago_storage.ids List kv.OrdMap
open CachedEdge (incomingKey_eq join_fields_inj key key_eq sourceRef targetRef)

namespace RocksCacheStore

section Scan

variable (self : RocksCacheStore) (pfx : Bytes)

private theorem takeWhile_eq_filter {α : Type} {p : α → Bool} {l : List α}
    (h : l.Pairwise fun a b => p b = true → p a = true) : l.takeWhile p = l.filter p := by
  induction l with
  | nil => rfl
  | cons a l ih =>
    obtain ⟨hhead, hrest⟩ := pairwise_cons.mp h
    cases ha : p a with
    | true => rw [takeWhile_cons_of_pos ha, filter_cons_of_pos ha, ih hrest]
    | false =>
      rw [takeWhile_cons_of_neg (by simp [ha]), filter_cons_of_neg (by simp [ha])]
      refine (filter_eq_nil_iff.mpr fun b hb hpb => ?_).symm
      exact absurd (hhead b hb hpb) (by simp [ha])

/-- A scan meets all rows with the prefix, as they follow each other. -/
theorem mem_scan_iff {edge : StoredEdge} :
    edge ∈ self.scan pfx ↔ ∃ k, self.edges.get k = some edge ∧ pfx <+: k := by
  have hsorted : (self.edges.rows.filter fun row => decide (pfx ≤ row.1)).Pairwise fun a b =>
      pfx.isPrefixOf b.1 = true → pfx.isPrefixOf a.1 = true := by
    refine (self.edges.sorted.filter _).imp_of_mem fun {a b} ha _ hab hb => ?_
    obtain ⟨rest, hrest⟩ := isPrefixOf_iff_prefix.mp hb
    have hlo := of_decide_eq_true (mem_filter.mp ha).2
    exact isPrefixOf_iff_prefix.mpr (isPrefix_of_le_of_le hlo (hrest ▸ hab.le))
  unfold scan
  rw [takeWhile_eq_filter hsorted]
  simp only [mem_map, mem_filter, decide_eq_true_eq, isPrefixOf_iff_prefix, Prod.exists,
    exists_eq_right, get_eq_some_iff_mem]
  constructor
  · rintro ⟨k, ⟨hrow, _⟩, hpfx⟩
    exact ⟨k, hrow, hpfx⟩
  · rintro ⟨k, hrow, rest, rfl⟩
    exact ⟨_, ⟨hrow, le_append _ _⟩, rest, rfl⟩

end Scan

end RocksCacheStore

/-- What the cache holds for an edge of a namespace. -/
structure IsOf (edge : StoredEdge) (e : CachedEdge) : Prop where
  source : edge.source = e.sourceRef
  target : edge.target = e.targetRef
  label : edge.label = e.label

variable {e : CachedEdge}

theorem IsOf.inj {edge : StoredEdge} {e' : CachedEdge} (h : IsOf edge e) (h' : IsOf edge e') : e = e' := by
  have hsource := h.source.symm.trans h'.source
  have htarget := h.target.symm.trans h'.target
  have hlabel := h.label.symm.trans h'.label
  simp only [sourceRef, targetRef, NodeRef.mk.injEq] at hsource htarget
  obtain ⟨hdatabase, hns, hsource_type, hsource⟩ := hsource
  obtain ⟨_, _, htarget_type, htarget⟩ := htarget
  cases e
  cases e'
  simp only [CachedEdge.mk.injEq]
  exact ⟨hdatabase, hns, hsource_type, NodeId.to_string_inj hsource, hlabel, htarget_type, NodeId.to_string_inj htarget⟩

section Separation

-- the names that schemas accept for entity types
variable (valid : String → Prop)

/-- The types of the edge. -/
def CachedEdge.Typed (e : CachedEdge) : Prop := valid e.source_type ∧ valid e.target_type

/-- Every row of the edges stands under a key of its edge. -/
def EdgesFiled (edges : OrdMap Bytes StoredEdge) : Prop :=
  ∀ k edge, edges.get k = some edge →
    ∃ e : CachedEdge, e.Typed valid ∧ IsOf edge e ∧ (k = e.key ∨ k = e.incomingKey)

def Filed (self : RocksCacheStore) : Prop := EdgesFiled valid self.edges

/-- No other node has the key of the node. -/
def NodeSeparate (n : CachedNode) : Prop := ∀ n' : CachedNode, valid n'.entity_type → n' ≠ n → n'.key ≠ n.key

/-- No other edge has a key of the edge, and a listing without colons returns
the edge only if it matches. -/
structure EdgeSeparate (e : CachedEdge) : Prop where
  key : ∀ e' : CachedEdge, e'.Typed valid → e' ≠ e → e'.key ≠ e.key ∧ e'.incomingKey ≠ e.incomingKey
  outgoing : ∀ self : RocksCacheStore, Filed valid self → ∀ r : Request, r.AllPlain → ∀ edge,
    edge ∈ self.list_edges_cached r.database r.ns r.entity_type r.id.to_string r.label → IsOf edge e → r.Matches e
  incoming : ∀ self : RocksCacheStore, Filed valid self → ∀ r : Request, r.AllPlain → ∀ edge,
    edge ∈ self.list_incoming_edges_cached r.database r.ns r.entity_type r.id.to_string r.label → IsOf edge e →
      r.Matches e.flip

/-- No other type has its batch where the type has it. -/
def TypeSeparate (key : TypeKey) : Prop :=
  ∀ key' : TypeKey, valid key'.entity_type → key' ≠ key → key'.cacheKey ≠ key.cacheKey

variable {valid}

/-- An edge under its two keys. -/
theorem exists_filed (he : e.Typed valid) :
    ∃ (self : RocksCacheStore) (edge : StoredEdge), Filed valid self ∧ IsOf edge e ∧
      self.edges.get e.key = some edge := by
  let edge : StoredEdge := ⟨"", e.sourceRef, e.targetRef, e.label, .empty, 0⟩
  have hedge : IsOf edge e := ⟨rfl, rfl, rfl⟩
  refine ⟨{ RocksCacheStore.empty with edges := (empty.set e.incomingKey edge).set e.key edge }, edge, ?_, hedge,
    get_set_self ..⟩
  intro k _ hget
  rw [get_set, get_set] at hget
  split at hget
  · rename_i hk
    cases hget
    exact ⟨e, he, hedge, .inl hk⟩
  split at hget
  · rename_i hk
    cases hget
    exact ⟨e, he, hedge, .inr hk⟩
  · cases hget

/-- A listing by what stands before a colon in the label meets the edge. -/
theorem edge_pfx_isPrefix {x y : String} (hlabel : e.label = x ++ ":" ++ y) :
    edge_pfx e.database e.ns e.source_type e.source.to_string (some x) <+: e.key := by
  refine ⟨utf8 (y ++ ":" ++ e.target_type ++ ":" ++ e.target.to_string), ?_⟩
  simp [edge_pfx, edge_prefix_of, key, edge_key, sourceRef, targetRef, hlabel,
    utf8_append, append_assoc]

theorem edgeSeparate_of_plain (he : e.AllPlain) : EdgeSeparate valid e where
  key e' _ hne := by
    refine ⟨fun h => hne ?_, fun h => hne ?_⟩
    · rw [key_eq, key_eq] at h
      exact join_fields_inj (by decide) he h
    · rw [incomingKey_eq, incomingKey_eq] at h
      have hflip := join_fields_inj (by decide) he.flip h
      rw [show e' = e'.flip.flip from rfl, hflip]
      rfl
  outgoing self hself r hr edge hedge hof := by
    obtain ⟨k, hget, _, rfl⟩ := (self.mem_scan_iff _).mp hedge
    obtain ⟨e', _, hof', hkey⟩ := hself _ _ hget
    obtain rfl := hof.inj hof'
    rw [Request.edge_pfx_append, key_eq, incomingKey_eq] at hkey
    obtain hkey | hkey := hkey
    · exact (Request.matches_of_join hr he (by decide) (by decide) hkey).2
    · exact absurd (Request.matches_of_join hr he.flip (by decide) (by decide) hkey).1 (by decide)
  incoming self hself r hr edge hedge hof := by
    obtain ⟨k, hget, _, rfl⟩ := (self.mem_scan_iff _).mp hedge
    obtain ⟨e', _, hof', hkey⟩ := hself _ _ hget
    obtain rfl := hof.inj hof'
    rw [Request.incoming_edge_pfx_append, key_eq, incomingKey_eq] at hkey
    obtain hkey | hkey := hkey
    · exact absurd (Request.matches_of_join hr he (by decide) (by decide) hkey).1 (by decide)
    · exact (Request.matches_of_join hr he.flip (by decide) (by decide) hkey).2

variable (hvalid : ∀ name, valid name → Plain name)
include hvalid

theorem nodeSeparate_iff {n : CachedNode} (hn : valid n.entity_type) :
    NodeSeparate valid n ↔ Plain n.database ∧ Plain n.ns := by
  constructor
  · intro h
    by_contra hnot
    obtain ⟨database, ns, hne, hscope⟩ := exists_same_scope hnot
    refine h ⟨database, ns, n.entity_type, n.id⟩ hn (fun heq => hne ?_) (node_key_congr hscope ..)
    exact ⟨congrArg CachedNode.database heq, congrArg CachedNode.ns heq⟩
  · rintro ⟨hdatabase, hns⟩ _ _ hne heq
    exact hne (CachedNode.key_inj hdatabase hns (hvalid _ hn) heq)

theorem typeSeparate_iff {key : TypeKey} (hkey : valid key.entity_type) :
    TypeSeparate valid key ↔ Plain key.database ∧ Plain key.ns := by
  constructor
  · intro h
    by_contra hnot
    obtain ⟨database, ns, hne, hscope⟩ := exists_same_scope hnot
    refine h ⟨database, ns, key.entity_type⟩ hkey (fun heq => hne ?_) ?_
    · exact ⟨congrArg TypeKey.database heq, congrArg TypeKey.ns heq⟩
    · simp [TypeKey.cacheKey, hscope]
  · rintro ⟨hdatabase, hns⟩ _ _ hne heq
    exact hne (TypeKey.cacheKey_inj ⟨hdatabase, hns, hvalid _ hkey⟩ heq)

theorem edgeSeparate_iff (he : e.Typed valid) :
    EdgeSeparate valid e ↔ Plain e.database ∧ Plain e.ns ∧ Plain e.label := by
  constructor
  · intro h
    have hscope : Plain e.database ∧ Plain e.ns := by
      by_contra hnot
      obtain ⟨database, ns, hne, hscope⟩ := exists_same_scope hnot
      refine (h.key { e with database := database, ns := ns } he (fun heq => hne ?_)).1 (edge_key_congr hscope ..)
      exact ⟨congrArg CachedEdge.database heq, congrArg CachedEdge.ns heq⟩
    refine ⟨hscope.1, hscope.2, ?_⟩
    by_contra hnot
    obtain ⟨x, y, hxy, hx, hne, _⟩ := exists_of_not_plain hnot
    obtain ⟨self, edge, hself, hedge, hget⟩ := exists_filed he
    have hmatches := h.outgoing _ hself ⟨e.database, e.ns, e.source_type, e.source, some x⟩
      ⟨hscope.1, hscope.2, hvalid _ he.1, fun l hl => Option.some.inj hl ▸ hx⟩ _
      ((self.mem_scan_iff _).mpr ⟨e.key, hget, edge_pfx_isPrefix hxy⟩) hedge
    exact hne (hmatches.label x rfl).symm
  · rintro ⟨hdatabase, hns, hlabel⟩
    exact edgeSeparate_of_plain ⟨hdatabase, hns, hlabel, hvalid _ he.1, hvalid _ he.2⟩

end Separation

/-- Keys of different shapes differ in their first letter. -/
theorem shapes_differ (n : CachedNode) (e e' : CachedEdge) :
    n.key ≠ e.key ∧ n.key ≠ e.incomingKey ∧ e'.key ≠ e.incomingKey := by
  have hhead : ∀ (letter : UInt8) (field : Bytes) (rest : List Bytes),
      (colon.join ([letter] :: field :: rest)).head? = some letter := by
    intro _ _ _
    rw [Separator.join, intercalate_cons_cons]
    rfl
  have hn : n.key.head? = some 0x6E := by rw [n.key_eq]; exact hhead ..
  have hkey : ∀ e : CachedEdge, e.key.head? = some 0x65 := fun e => by rw [e.key_eq]; exact hhead ..
  have hincoming : e.incomingKey.head? = some 0x69 := by rw [e.incomingKey_eq]; exact hhead ..
  refine ⟨fun h => ?_, fun h => ?_, fun h => ?_⟩
  · exact absurd (hn.symm.trans ((congrArg _ h).trans (hkey e))) (by decide)
  · exact absurd (hn.symm.trans ((congrArg _ h).trans hincoming)) (by decide)
  · exact absurd ((hkey e').symm.trans ((congrArg _ h).trans hincoming)) (by decide)

/-- Cache entries and batches of ids are kept apart from all others just when
the names that they are found by hold no colon. -/
theorem cache_entries_separate_iff {valid : String → Prop} (hvalid : ∀ name, valid name → Plain name) (n : CachedNode)
    (hn : valid n.entity_type) (e : CachedEdge) (he : e.Typed valid) (key : TypeKey) (hkey : valid key.entity_type) :
    (NodeSeparate valid n ↔ Plain n.database ∧ Plain n.ns) ∧
    (EdgeSeparate valid e ↔ Plain e.database ∧ Plain e.ns ∧ Plain e.label) ∧
    (TypeSeparate valid key ↔ Plain key.database ∧ Plain key.ns) ∧
    ∀ e' : CachedEdge, n.key ≠ e.key ∧ n.key ≠ e.incomingKey ∧ e'.key ≠ e.incomingKey :=
  ⟨nodeSeparate_iff hvalid hn, edgeSeparate_iff hvalid he, typeSeparate_iff hvalid hkey, shapes_differ n e⟩

/-- Letters, digits and underscores of ASCII. -/
def asciiName (name : String) : Bool := name.toList.all fun c => c.isAlphanum || c == '_'

theorem plain_entries_separate :
    NodeSeparate (fun name => asciiName name = true) ⟨"shop", "main", "Person", ⟨1, 1⟩⟩ ∧
    EdgeSeparate (fun name => asciiName name = true) ⟨"shop", "main", "Person", ⟨1, 1⟩, "knows", "Person", ⟨1, 2⟩⟩ ∧
    TypeSeparate (fun name => asciiName name = true) ⟨"shop", "main", "Person"⟩ := by
  have hvalid : ∀ name, asciiName name = true → Plain name := by
    intro name hname hcolon
    exact absurd (all_eq_true.mp hname ':' hcolon) (by decide)
  have h := cache_entries_separate_iff hvalid ⟨"shop", "main", "Person", ⟨1, 1⟩⟩ (by decide)
    ⟨"shop", "main", "Person", ⟨1, 1⟩, "knows", "Person", ⟨1, 2⟩⟩ ⟨by decide, by decide⟩ ⟨"shop", "main", "Person"⟩
    (by decide)
  have hnames : Plain "shop" ∧ Plain "main" ∧ Plain "knows" := ⟨by decide, by decide, by decide⟩
  exact ⟨h.1.mpr ⟨hnames.1, hnames.2.1⟩, h.2.1.mpr hnames, h.2.2.1.mpr ⟨hnames.1, hnames.2.1⟩⟩

/-- A node projected for the namespace `c` of the database `a:b` is found in the
namespace `b:c` of `a`, an edge `a:b` is listed as `a`, and the types of both
namespaces share a batch of ids. -/
theorem colon_mixes_namespaces :
    let cache := RocksCacheStore.empty.apply_cdc_operations "a:b" "c"
      [.NodeCreate "Person" "1_1" .empty "1", .EdgeCreate "Person" "1_1" "Person" "1_2" "a:b" "1_3" .empty] 5
        Versionstamp.zero 0
    (cache.get_node "a" "b:c" "Person" "1_1").map StoredNode.id = some "1_1" ∧
    (cache.list_edges_cached "a:b" "c" "Person" "1_1" (some "a")).map StoredEdge.label = ["a:b"] ∧
    TypeKey.cacheKey ⟨"a:b", "c", "Person"⟩ = TypeKey.cacheKey ⟨"a", "b:c", "Person"⟩ := by
  decide +kernel

end pelago_storage.rocks_cache
