import Pelago.Kv.Staging
import Pelago.Storage.Documents
import Pelago.Storage.RocksCache
import Mathlib.Data.List.Induction

open bytes kv pelago_core text pelago_storage.node List kv.OrdMap text.Separator

namespace pelago_storage.rocks_cache

open Versionstamp (zero)

section

theorem notMem_of_splitChar {sep c : Char} (hc : c ≠ sep) {cs : List Char} (h : ∀ part ∈ splitChar sep cs, c ∉ part) :
    c ∉ cs := by
  induction cs with
  | nil => exact not_mem_nil
  | cons d rest ih =>
    obtain ⟨part, parts, hparts⟩ := exists_cons_of_ne_nil (splitChar_ne_nil sep rest)
    rw [splitChar] at h
    by_cases hd : d = sep <;> simp_all

theorem plain_of_parseUnsigned {max n : Nat} {cs : List Char} (h : parseUnsigned max cs = some n) : ':' ∉ cs := by
  intro hmem
  simp only [parseUnsigned, Option.ite_none_right_eq_some, all_eq_true] at h
  have hdigit := h.1.2 ':' (by split <;> simp_all)
  exact absurd hdigit (by decide)

/-- A text that is read as a node id has no colon. -/
theorem plain_of_from_str {s : String} (h : (NodeId.from_str s).isSome) : Plain s := by
  obtain ⟨_, h⟩ := Option.isSome_iff_exists.mp h
  unfold NodeId.from_str at h
  split at h
  next site seq hsplit =>
    simp only [Option.bind_eq_bind, Option.bind_eq_some_iff] at h
    obtain ⟨_, hsite, _, hseq, _⟩ := h
    have hparts : ∀ part ∈ splitChar '_' s.toList, ':' ∉ part := by
      rw [hsplit]
      simpa using ⟨plain_of_parseUnsigned hsite, plain_of_parseUnsigned hseq⟩
    exact notMem_of_splitChar (by decide) hparts
  next => cases h

/-- A row of a namespace: a letter, the namespace and names. -/
def rowKey (db ns : String) (letter : UInt8) (names : List String) : Bytes :=
  letter :: utf8 (":" ++ db ++ ":" ++ ns ++ ":") ++ colon.join (names.map utf8)

variable {db ns : String}

theorem rowKey_inj {letter letter' : UInt8} {names names' : List String}
    (hplain : ∀ name ∈ names, Plain name) (hlength : names'.length = names.length)
    (h : rowKey db ns letter' names' = rowKey db ns letter names) : letter' = letter ∧ names' = names := by
  obtain ⟨hletter, h⟩ := cons.inj h
  refine ⟨hletter, map_injective_iff.mpr (fun _ _ => utf8_inj) (join_inj ?_ (by simpa)
    (append_cancel_left h))⟩
  simpa [whole_iff] using hplain

/-- The rows of a node and those of an edge, by the names that they are staged under. -/
def nodeKeys (db ns : String) : List String → List Bytes
  | [entity_type, node_id] => [node_key db ns entity_type node_id]
  | _ => []

def edgeKeys (db ns : String) : List String → List Bytes
  | [st, si, label, tt, ti] => [edge_key db ns ⟨db, ns, st, si⟩ label ⟨db, ns, tt, ti⟩,
      incoming_edge_key db ns ⟨db, ns, st, si⟩ label ⟨db, ns, tt, ti⟩]
  | _ => []

section Owned

variable {db ns : String} {names : List String} {k : Bytes}

private theorem mem_nodeKeys (h : k ∈ nodeKeys db ns names) : names.length = 2 ∧ k = rowKey db ns 0x6E names := by
  unfold nodeKeys at h
  split at h
  · refine ⟨rfl, (mem_singleton.mp h).trans ?_⟩
    simp [node_key, rowKey, utf8_append, letters, join, intercalate_cons_cons, colon, symbol]
  · cases h

private theorem mem_edgeKeys (h : k ∈ edgeKeys db ns names) : ∃ st si l tt ti, names = [st, si, l, tt, ti] ∧
    (k = rowKey db ns 0x65 [st, si, l, tt, ti] ∨ k = rowKey db ns 0x69 [tt, ti, l, st, si]) := by
  unfold edgeKeys at h
  split at h
  · refine ⟨_, _, _, _, _, rfl, (mem_pair.mp h).imp (fun h => h.trans ?_) fun h => h.trans ?_⟩ <;>
    simp [edge_key, incoming_edge_key, rowKey, utf8_append, letters, join, intercalate_cons_cons, colon, symbol]
  · cases h

variable (hplain : ∀ name ∈ names, Plain name)
include hplain

theorem nodeKeys_owned (hlength : names.length = 2) : Owned (nodeKeys db ns) names := by
  obtain ⟨t, i, rfl⟩ := length_eq_two.mp hlength
  refine ⟨cons_ne_nil _ _, fun k hk _ hk' => ?_⟩
  obtain ⟨hlength', heq⟩ := mem_nodeKeys hk'
  exact (rowKey_inj hplain (hlength'.trans hlength.symm) (heq.symm.trans (mem_nodeKeys hk).2)).2

theorem edgeKeys_owned (hlength : names.length = 5) : Owned (edgeKeys db ns) names := by
  refine ⟨fun hnil => ?_, fun k hk _ hk' => ?_⟩
  · match names, hlength with
    | [_, _, _, _, _], _ => cases hnil
  obtain ⟨st, si, l, tt, ti, rfl, hkey⟩ := mem_edgeKeys hk
  obtain ⟨st', si', l', tt', ti', rfl, hkey'⟩ := mem_edgeKeys hk'
  have hflip : ∀ name ∈ [tt, ti, l, st, si], Plain name := by simp_all
  obtain rfl | rfl := hkey <;> obtain heq | heq := hkey'
  · exact (rowKey_inj hplain (by rfl) heq.symm).2
  · cases (rowKey_inj hplain (by rfl) heq.symm).1
  · cases (rowKey_inj hflip (by rfl) heq.symm).1
  · have heq := (rowKey_inj hflip (by rfl) heq.symm).2
    simp_all

end Owned

/-- Types and labels have no colon, node ids are node ids. -/
def Proper : CdcOperation → Prop
  | .NodeCreate entity_type node_id .. | .NodeUpdate entity_type node_id .. | .NodeDelete entity_type node_id
  | .OwnershipTransfer entity_type node_id .. => Plain entity_type ∧ (NodeId.from_str node_id).isSome
  | .EdgeCreate source_type source_id target_type target_id edge_type ..
  | .EdgeDelete source_type source_id target_type target_id edge_type =>
    (Plain source_type ∧ (NodeId.from_str source_id).isSome) ∧ Plain edge_type ∧
      Plain target_type ∧ (NodeId.from_str target_id).isSome

/-- What an operation makes of a node, and what it makes of an edge. -/
def nodeChange (entry_timestamp : Int) : CdcOperation → Option (Change (List String) StoredNode)
  | .NodeCreate t i properties home_site =>
    some ⟨[t, i], fun _ => some (some ⟨i, t, properties, (parse_u8 home_site).getD 1, entry_timestamp, entry_timestamp⟩)⟩
  | .NodeUpdate t i changed_properties _ => some ⟨[t, i], Option.map fun node => some { node with
      properties := RocksCacheStore.merge_properties node.properties changed_properties
      updated_at := max node.updated_at entry_timestamp }⟩
  | .NodeDelete t i => some ⟨[t, i], fun _ => some none⟩
  | .OwnershipTransfer t i _ current_site_id => some ⟨[t, i], Option.map fun node => some { node with
      locality := (parse_u8 current_site_id).getD node.locality
      updated_at := max node.updated_at entry_timestamp }⟩
  | _ => none

def edgeChange (db ns : String) (entry_timestamp : Int) :
    CdcOperation → Option (Change (List String) StoredEdge)
  | .EdgeCreate st si tt ti label edge_id properties => some ⟨[st, si, label, tt, ti], fun _ =>
      some (some ⟨edge_id, ⟨db, ns, st, si⟩, ⟨db, ns, tt, ti⟩, label, properties, entry_timestamp⟩)⟩
  | .EdgeDelete st si tt ti label => some ⟨[st, si, label, tt, ti], fun _ => some none⟩
  | _ => none

variable {operations : List CdcOperation}

theorem nodeChange_owned {entry_timestamp : Int} (h : ∀ op ∈ operations, Proper op) :
    ∀ c ∈ operations.filterMap (nodeChange entry_timestamp), Owned (nodeKeys db ns) c.item := by
  intro c hc
  obtain ⟨op, hop, hc⟩ := mem_filterMap.mp hc
  have hproper := h op hop
  cases op <;> cases hc <;> exact nodeKeys_owned (by simpa using hproper.imp_right plain_of_from_str) rfl

theorem edgeChange_owned {entry_timestamp : Int} (h : ∀ op ∈ operations, Proper op) :
    ∀ c ∈ operations.filterMap (edgeChange db ns entry_timestamp), Owned (edgeKeys db ns) c.item := by
  intro c hc
  obtain ⟨op, hop, hc⟩ := mem_filterMap.mp hc
  have hproper := h op hop
  cases op <;> cases hc <;> refine edgeKeys_owned ?_ rfl <;>
  simpa using ⟨hproper.1.1, plain_of_from_str hproper.1.2, hproper.2.1, hproper.2.2.1, plain_of_from_str hproper.2.2.2⟩

/-- A node and an edge as they are read back. -/
def rereadNode (node : StoredNode) : StoredNode := { node with properties := storedProperties node.properties }

def rereadEdge (edge : StoredEdge) : StoredEdge := { edge with properties := storedProperties edge.properties }

theorem RocksCacheStore.get_merge_properties (properties changed_properties : Properties) (k : String) :
    (merge_properties properties changed_properties).get k =
      ((changed_properties.get k).map fun v => if v.is_null then none else some v).getD (properties.get k) := by
  refine changed_properties.foldl_rows_eq k (fun properties : Properties => properties.get k)
    _ (fun _ row hrow => ?_)
    (fun _ row hrow => ?_) _
  · by_cases hnull : row.2.is_null <;> simp [hnull, hrow]
  · by_cases hnull : row.2.is_null
    · simpa [hnull] using get_clear_of_ne _ (symm hrow)
    · simpa [hnull] using get_set_of_ne _ _ (symm hrow)

theorem storedProperties_merge (properties changed_properties : Properties) :
    storedProperties (RocksCacheStore.merge_properties (storedProperties properties) changed_properties) =
      storedProperties (RocksCacheStore.merge_properties properties changed_properties) := by
  apply OrdMap.ext_get
  intro k
  simp only [storedProperties_get, RocksCacheStore.get_merge_properties]
  cases changed_properties.get k with
  | none => cases properties.get k <;> simp [storedValue_idem]
  | some => rfl

private theorem respects_map {t i : String} {f : StoredNode → StoredNode}
    (hf : ∀ node, rereadNode (f (rereadNode node)) = rereadNode (f node)) :
    Change.Respects rereadNode ⟨[t, i], .map fun node => some (f node)⟩ := by
  intro x y hxy
  cases x <;> cases y <;> simp_all
  rw [← hf, hxy, hf]

theorem nodeChange_respects (entry_timestamp : Int) (operations : List CdcOperation) :
    ∀ c ∈ operations.filterMap (nodeChange entry_timestamp), c.Respects rereadNode := by
  intro c hc
  obtain ⟨op, -, hc⟩ := mem_filterMap.mp hc
  cases op <;> cases hc
  · exact fun _ _ _ => rfl
  · exact respects_map fun _ => by simp [rereadNode, storedProperties_merge]
  · exact fun _ _ _ => rfl
  · exact respects_map fun _ => by simp [rereadNode, storedProperties_idem]

theorem edgeChange_respects (entry_timestamp : Int) (operations : List CdcOperation) :
    ∀ c ∈ operations.filterMap (edgeChange db ns entry_timestamp), c.Respects rereadEdge := by
  intro c hc
  obtain ⟨op, -, hc⟩ := mem_filterMap.mp hc
  cases op <;> cases hc <;> exact fun _ _ _ => rfl

/-- The operations of a log entry that the cache acts on: a registration changes nothing. -/
def cached : OperationDocument → List CdcOperation
  | .data op => [op]
  | .SchemaRegister .. => []

namespace RocksCacheStore

variable {self : RocksCacheStore} {db ns : String} {entry_timestamp : Int}

theorem write_node_eq (nodes : OrdMap Bytes StoredNode) (row : List String × Option StoredNode) :
    write_node db ns nodes row = nodes.put (nodeKeys db ns row.1) row.2 := by
  obtain ⟨_ | ⟨_, _ | ⟨_, _ | _⟩⟩, node⟩ := row <;> cases node <;> rfl

theorem write_edge_eq (edges : OrdMap Bytes StoredEdge) (row : List String × Option StoredEdge) :
    write_edge db ns edges row = edges.put (edgeKeys db ns row.1) row.2 := by
  obtain ⟨_ | ⟨_, _ | ⟨_, _ | ⟨_, _ | ⟨_, _ | ⟨_, _ | _⟩⟩⟩⟩⟩, edge⟩ := row <;> cases edge <;> rfl

theorem stage_nodes (pending : Pending) (op : CdcOperation) : (self.stage db ns entry_timestamp pending op).nodes =
    (nodeChange entry_timestamp op).elim pending.nodes (.stage (nodeKeys db ns) self.nodes pending.nodes) := by
  have hread (t i : String) : peek (nodeKeys db ns) self.nodes pending.nodes [t, i] =
      self.staged db ns t i pending := by
    rw [peek, staged]
    cases pending.nodes.get [t, i] <;> rfl
  cases op with
  | NodeUpdate t i | OwnershipTransfer t i =>
    rw [stage, nodeChange, Option.elim_some, OrdMap.stage, hread]
    cases self.staged db ns t i pending <;> rfl
  | _ => rfl

theorem stage_edges (pending : Pending) (op : CdcOperation) : (self.stage db ns entry_timestamp pending op).edges =
    (edgeChange db ns entry_timestamp op).elim pending.edges
      (.stage (edgeKeys db ns) self.edges pending.edges) := by
  cases op with
  | NodeUpdate t i | OwnershipTransfer t i =>
    rw [stage]
    cases self.staged db ns t i pending <;> rfl
  | _ => rfl

theorem stage_foldl (operations : List CdcOperation) (pending : Pending) :
    operations.foldl (self.stage db ns entry_timestamp) pending =
      ⟨(operations.filterMap (nodeChange entry_timestamp)).foldl (.stage (nodeKeys db ns) self.nodes) pending.nodes,
        (operations.filterMap (edgeChange db ns entry_timestamp)).foldl (.stage (edgeKeys db ns) self.edges)
          pending.edges⟩ := by
  induction operations generalizing pending with
  | nil => rfl
  | cons op _ ih =>
    rw [foldl_cons, ih, stage_nodes, stage_edges, filterMap_cons, filterMap_cons]
    cases nodeChange entry_timestamp op <;> cases edgeChange db ns entry_timestamp op <;> rfl

/-- A batch does the changes of its operations, one by one. -/
theorem apply_eq (h : ∀ op ∈ operations, Proper op) (self : RocksCacheStore)
    (hwm : Versionstamp) (now_ms : Nat) : self.apply_cdc_operations db ns operations entry_timestamp hwm now_ms =
      { nodes := (operations.filterMap (nodeChange entry_timestamp)).foldl (act (nodeKeys db ns)) self.nodes
        edges := (operations.filterMap (edgeChange db ns entry_timestamp)).foldl (act (edgeKeys db ns)) self.edges
        hwm := some hwm
        hwm_updated_at_ms := some now_ms } := by
  rw [apply_cdc_operations, funext₂ write_node_eq, funext₂ write_edge_eq, stage_foldl]
  congr 1
  · exact flush_foldl_stage (nodeChange_owned h) (fun _ _ h => by cases h) _
  · exact flush_foldl_stage (edgeChange_owned h) (fun _ _ h => by cases h) _

/-- The cache as it is read back: a CBOR timestamp is read as an integer. -/
def reread (self : RocksCacheStore) : RocksCacheStore :=
  { self with nodes := self.nodes.mapVal rereadNode, edges := self.edges.mapVal rereadEdge }

/-- Each operation in a call of its own; what one call writes is read back by the next. -/
def apply_each (self : RocksCacheStore) (db ns : String) (entry_timestamp : Int)
    (calls : List (OperationDocument × Versionstamp × Nat)) : RocksCacheStore :=
  calls.foldl (fun c (op, hwm, now_ms) =>
    (c.apply_cdc_operations db ns (cached op) entry_timestamp hwm now_ms).reread) self

variable {calls : List (OperationDocument × Versionstamp × Nat)}

theorem apply_each_eq (hproper : ∀ call ∈ calls, ∀ op ∈ cached call.1, Proper op) {nodes : OrdMap Bytes StoredNode}
    {edges : OrdMap Bytes StoredEdge} {c : RocksCacheStore}
    (hnodes : nodes.mapVal rereadNode = c.nodes.mapVal rereadNode)
    (hedges : edges.mapVal rereadEdge = c.edges.mapVal rereadEdge) :
    (((calls.flatMap (cached ·.1)).filterMap (nodeChange entry_timestamp)).foldl (act (nodeKeys db ns))
      nodes).mapVal rereadNode = (c.apply_each db ns entry_timestamp calls).nodes.mapVal rereadNode ∧
    (((calls.flatMap (cached ·.1)).filterMap (edgeChange db ns entry_timestamp)).foldl (act (edgeKeys db ns))
      edges).mapVal rereadEdge = (c.apply_each db ns entry_timestamp calls).edges.mapVal rereadEdge := by
  induction calls generalizing nodes edges c with
  | nil => exact ⟨hnodes, hedges⟩
  | cons call _ ih =>
    rw [flatMap_cons, filterMap_append, filterMap_append, foldl_append, foldl_append]
    refine ih (fun call hcall => hproper _ (mem_cons_of_mem _ hcall)) ?_ ?_ <;> dsimp only <;>
    rw [apply_eq (hproper _ mem_cons_self)]
    · exact (mapVal_foldl_act _ (nodeChange_respects _ _) hnodes).trans
        (mapVal_idem (fun _ => by simp [rereadNode, storedProperties_idem]) _).symm
    · exact (mapVal_foldl_act _ (edgeChange_respects _ _) hedges).trans
        (mapVal_idem (fun _ => by simp [rereadEdge, storedProperties_idem]) _).symm

/-- A batch of operations leaves the nodes and edges, as they are read back, that the
operations leave one by one. -/
theorem apply_batch_eq_each (self : RocksCacheStore) (db ns : String) (entry_timestamp : Int)
    (hproper : ∀ call ∈ calls, ∀ op ∈ cached call.1, Proper op) (hwm : Versionstamp) (now_ms : Nat) :
    let batch := self.apply_cdc_operations db ns (calls.flatMap (cached ·.1)) entry_timestamp hwm now_ms
    let each := self.apply_each db ns entry_timestamp calls
    batch.reread.nodes = each.reread.nodes ∧ batch.reread.edges = each.reread.edges := by
  have hall : ∀ op ∈ calls.flatMap (cached ·.1), Proper op := by
    intro op hop
    obtain ⟨call, hcall, hop⟩ := mem_flatMap.mp hop
    exact hproper call hcall op hop
  rw [apply_eq hall]
  exact apply_each_eq hproper rfl rfl

/-- A node is created, changed, removed and created again. -/
theorem created_again_eq_each :
    let calls : List (OperationDocument × Versionstamp × Nat) := [
      (.data (.NodeCreate "Person" "1_0" (ofList [("age", .timestamp 3)]) "1"), zero, 0),
      (.data (.NodeUpdate "Person" "1_0" (ofList [("name", .string "a")]) .empty), zero, 1),
      (.data (.NodeDelete "Person" "1_0"), zero, 2),
      (.data (.NodeCreate "Person" "1_0" .empty "2"), zero, 3)]
    let batch := empty.apply_cdc_operations "db" "ns" (calls.flatMap (cached ·.1)) 5 zero 4
    let each := empty.apply_each "db" "ns" 5 calls
    batch.nodes.rows.length = 1 ∧ batch.reread.nodes = each.reread.nodes ∧ batch.reread.edges = each.reread.edges := by
  refine ⟨by decide +kernel, apply_batch_eq_each empty "db" "ns" 5 ?_ zero 4⟩
  simp only [forall_mem_cons, cached, Proper, not_mem_nil, false_implies, implies_true, and_true, and_self]
  decide +kernel

end RocksCacheStore

end

/-- What is known of a node apart from its times. -/
abbrev NodeValue := Properties × UInt8

def valueOf (node : StoredNode) : NodeValue := (node.properties, node.locality)

/-- What an operation makes of a node. -/
def project (entity_type node_id : String) (value : Option NodeValue) : CdcOperation → Option NodeValue
  | .NodeCreate t i properties home_site =>
    if t = entity_type ∧ i = node_id then some (properties, (parse_u8 home_site).getD 1) else value
  | .NodeUpdate t i changed_properties _ =>
    if t = entity_type ∧ i = node_id then
      value.map fun v => (RocksCacheStore.merge_properties v.1 changed_properties, v.2)
    else value
  | .NodeDelete t i => if t = entity_type ∧ i = node_id then none else value
  | .OwnershipTransfer t i _ current_site_id =>
    if t = entity_type ∧ i = node_id then value.map fun v => (v.1, (parse_u8 current_site_id).getD v.2) else value
  | .EdgeCreate .. | .EdgeDelete .. => value

theorem project_nodeChange (entry_timestamp : Int) (entity_type node_id : String) (node : Option StoredNode)
    (op : CdcOperation) : project entity_type node_id (node.map valueOf) op =
      ((nodeChange entry_timestamp op).elim node fun c =>
        if c.item = [entity_type, node_id] then (c.become node).getD node else node).map valueOf := by
  cases op with
  | EdgeCreate | EdgeDelete => rfl
  | _ =>
    simp only [project, nodeChange, Option.elim_some, cons.injEq, and_true]
    cases node <;> split <;> rfl

/-- What is projected for a namespace changes the nodes of that namespace, operation
by operation, and those of no other. -/
theorem RocksCacheStore.get_node_apply_cdc_operations {db ns database ns' entity_type node_id : String}
    (hdatabase : Plain database) (hns : Plain ns') (htype : Plain entity_type) (hid : Plain node_id)
    (self : RocksCacheStore) (operations : List CdcOperation) (entry_timestamp : Int)
    (hwm : Versionstamp) (now_ms : Nat) :
    ((self.apply_cdc_operations db ns operations entry_timestamp hwm now_ms).get_node database ns' entity_type
        node_id).map valueOf = if db = database ∧ ns = ns' then
        operations.foldl (project entity_type node_id) ((self.get_node database ns' entity_type node_id).map valueOf)
      else (self.get_node database ns' entity_type node_id).map valueOf := by
  rw [apply_cdc_operations, funext₂ write_node_eq]
  split
  · rename_i hscope
    obtain ⟨rfl, rfl⟩ := hscope
    have hread (pending : Pending) :
        (peek (nodeKeys db ns) self.nodes (operations.foldl (self.stage db ns entry_timestamp) pending).nodes
          [entity_type, node_id]).map valueOf = operations.foldl (project entity_type node_id)
            ((peek (nodeKeys db ns) self.nodes pending.nodes [entity_type, node_id]).map valueOf) := by
      induction operations generalizing pending with
      | nil => rfl
      | cons op _ ih =>
        rw [foldl_cons, foldl_cons, ih, stage_nodes, project_nodeChange]
        cases nodeChange entry_timestamp op with
        | none => rfl
        | some =>
          rw [Option.elim_some, peek_stage]
          congr
    have howned : Owned (nodeKeys db ns) [entity_type, node_id] := nodeKeys_owned (by simp [htype, hid]) rfl
    exact (congrArg _ (get_flush howned (mem_singleton_self _) ..)).trans (hread _)
  · rename_i hscope
    refine congrArg _ (get_flush_of_notMem (fun _ _ hk => hscope ?_) _)
    unfold nodeKeys at hk
    split at hk
    · obtain ⟨rfl, rfl, _⟩ := node_key_inj hdatabase hns htype hid (mem_singleton.mp hk).symm
      exact ⟨rfl, rfl⟩
    · cases hk

/-- What a run of operations does to a node: it leaves it in one state, or it
overwrites some of its properties and perhaps its locality. -/
def Settles (f : Option NodeValue → Option NodeValue) : Prop :=
  (∃ value, ∀ x, f x = value) ∨
    ∃ (properties : String → Option (Option Value)) (locality : Option UInt8), f none = none ∧
      ∀ v, ∃ v', f (some v) = some v' ∧ v'.2 = locality.getD v.2 ∧
        ∀ k, v'.1.get k = (properties k).getD (v.1.get k)

/-- Done twice is done once. -/
theorem Settles.idem {f : Option NodeValue → Option NodeValue} (h : Settles f) (x : Option NodeValue) :
    f (f x) = f x := by
  obtain ⟨value, hvalue⟩ | ⟨properties, locality, hnone, hsome⟩ := h
  · rw [hvalue, hvalue]
  · cases x with
    | none => rw [hnone, hnone]
    | some v =>
      obtain ⟨v', hv', hlocality', hproperties'⟩ := hsome v
      obtain ⟨v'', hv'', hlocality'', hproperties''⟩ := hsome v'
      rw [hv', hv'']
      have hsame : v''.1 = v'.1 := ext_get fun k => by
        rw [hproperties'', hproperties']
        cases properties k <;> rfl
      have hsite : v''.2 = v'.2 := by
        rw [hlocality'', hlocality']
        cases locality <;> rfl
      rw [Prod.ext hsame hsite]

theorem Settles.project {f : Option NodeValue → Option NodeValue} (h : Settles f) (entity_type node_id : String)
    (op : CdcOperation) : Settles fun x => project entity_type node_id (f x) op := by
  obtain ⟨value, hvalue⟩ | ⟨properties, locality, hnone, hsome⟩ := h
  · exact .inl ⟨rocks_cache.project entity_type node_id value op, fun x => by simp [hvalue]⟩
  have hkeep : Settles f := .inr ⟨properties, locality, hnone, hsome⟩
  cases op with
  | NodeCreate t i | NodeDelete t i =>
    by_cases hnode : t = entity_type ∧ i = node_id
    · exact .inl ⟨_, fun _ => if_pos hnode⟩
    · simpa only [rocks_cache.project, if_neg hnode] using hkeep
  | NodeUpdate t i changed_properties =>
    by_cases hnode : t = entity_type ∧ i = node_id
    case neg => simpa only [rocks_cache.project, if_neg hnode] using hkeep
    simp only [rocks_cache.project, if_pos hnode]
    refine .inr ⟨fun k =>
        ((changed_properties.get k).map fun v => if v.is_null then none else some v).or (properties k),
      locality, by simp [hnone], fun v => ?_⟩
    obtain ⟨v', hv', hlocality', hproperties'⟩ := hsome v
    refine ⟨(RocksCacheStore.merge_properties v'.1 changed_properties, v'.2), by simp [hv'], hlocality', fun k => ?_⟩
    rw [RocksCacheStore.get_merge_properties, hproperties']
    dsimp only
    cases changed_properties.get k <;> rfl
  | OwnershipTransfer t i _ current_site_id =>
    by_cases hnode : t = entity_type ∧ i = node_id
    case neg => simpa only [rocks_cache.project, if_neg hnode] using hkeep
    simp only [rocks_cache.project, if_pos hnode]
    refine .inr ⟨properties, (parse_u8 current_site_id).or locality, by simp [hnone], fun v => ?_⟩
    obtain ⟨v', hv', hlocality', hproperties'⟩ := hsome v
    refine ⟨(v'.1, (parse_u8 current_site_id).getD v'.2), by simp [hv'], ?_, hproperties'⟩
    rw [hlocality']
    cases parse_u8 current_site_id <;> rfl
  | EdgeCreate | EdgeDelete => exact hkeep

theorem settles_foldl_project (entity_type node_id : String) (operations : List CdcOperation) :
    Settles fun x => operations.foldl (project entity_type node_id) x := by
  induction operations using reverseRecOn with
  | nil => exact .inr ⟨fun _ => none, none, rfl, fun v => ⟨v, rfl, rfl, fun _ => rfl⟩⟩
  | append_singleton _ op ih =>
    simp only [foldl_append, foldl_cons, foldl_nil]
    exact ih.project _ _ op

/-- A batch that is applied several times in a row is applied once. -/
theorem foldl_project_replicate (entity_type node_id : String) {α : Type} (entries : List α)
    (operations : α → List CdcOperation) (n : Nat) (value : Option NodeValue) :
    ((replicate (n + 1) entries).flatten.flatMap operations).foldl (project entity_type node_id) value =
      (entries.flatMap operations).foldl (project entity_type node_id) value := by
  induction n generalizing value with
  | zero => simp
  | succ _ ih =>
    rw [replicate_succ, flatten_cons, flatMap_append, foldl_append, ih]
    exact (settles_foldl_project ..).idem value

end pelago_storage.rocks_cache
