import Pelago.Query.Traversal
import Pelago.Storage.Edge.Bijection

open bytes kv pelago_core pelago_storage
open pelago_storage.edge
open pelago_storage.node (data_key delete_guard_key)

namespace pelago_query.traversal

-- Node ids under a change of their spelling.
section Respell

variable (f : String → String)

def respellRef (node : NodeRef) : NodeRef := { node with node_id := f node.node_id }

def respellNode (node : StoredNode) : StoredNode := { node with id := f node.id }

def respellEdge (edge : StoredEdge) : StoredEdge :=
  { edge with source := respellRef f edge.source, target := respellRef f edge.target }

def respellError : PelagoError → PelagoError
  | .NodeNotFound entity_type node_id => .NodeNotFound entity_type (f node_id)
  | .SourceNotFound entity_type node_id => .SourceNotFound entity_type (f node_id)
  | .TargetNotFound entity_type node_id => .TargetNotFound entity_type (f node_id)
  | .VersionConflict entity_type node_id => .VersionConflict entity_type (f node_id)
  | e => e

def respellPath (path : TraversalPath) : TraversalPath :=
  ⟨respellNode f path.start, path.hops.map fun hop => ⟨respellEdge f hop.edge, respellNode f hop.node⟩⟩

/-- The texts of the visited nodes are not shown, and sizes are those of the
spellings. -/
def respellResults (results : TraversalResults) : TraversalResults :=
  { results with
    paths := results.paths.map (respellPath f)
    continuation_token := results.continuation_token.map fun
      | .cbor state => .cbor ⟨[], state.frontier.map fun e => ⟨e.hop_idx, respellPath f e.path⟩⟩
      | .raw bytes => .raw bytes
    frontier := results.frontier.map fun (entity_type, node_id) => (entity_type, f node_id)
    result_bytes := 0 }

end Respell

/-- The calls that name nodes by text. -/
inductive Call where
  | create_edge (database ns : String) (source target : NodeRef) (label : String) (properties : Properties)
      (clock : Clock) (returned_at : Int)
  | delete_edge (database ns : String) (source target : NodeRef) (label : String) (clock : Clock)
  | list_edges (database ns entity_type node_id : String) (label_filter : Option String) (limit : Nat)
  | list_incoming_edges (database ns entity_type node_id : String) (label_filter : Option String) (limit : Nat)
  | delete_node (database ns entity_type node_id : String) (clock : Clock)
  | traverse (engine : TraversalEngine) (database ns entity_type node_id : String) (hops : List TraversalHop)
      (fuel : Nat)

/-- What a call returns. -/
inductive Outcome where
  | edge (edge : StoredEdge)
  | deleted (deleted : Bool)
  | edges (edges : List StoredEdge)
  | traversed (results : Option TraversalResults)
  deriving DecidableEq

def respellOutcome (f : String → String) : Except PelagoError Outcome → Except PelagoError Outcome
  | .ok (.edge edge) => .ok (.edge (respellEdge f edge))
  | .ok (.deleted deleted) => .ok (.deleted deleted)
  | .ok (.edges edges) => .ok (.edges (edges.map (respellEdge f)))
  | .ok (.traversed results) => .ok (.traversed (results.map (respellResults f)))
  | .error e => .error (respellError f e)

namespace Call

def respell (f : String → String) : Call → Call
  | create_edge database ns source target label properties clock returned_at =>
    create_edge database ns (respellRef f source) (respellRef f target) label properties clock returned_at
  | delete_edge database ns source target label clock =>
    delete_edge database ns (respellRef f source) (respellRef f target) label clock
  | list_edges database ns entity_type node_id label_filter limit =>
    list_edges database ns entity_type (f node_id) label_filter limit
  | list_incoming_edges database ns entity_type node_id label_filter limit =>
    list_incoming_edges database ns entity_type (f node_id) label_filter limit
  | delete_node database ns entity_type node_id clock => delete_node database ns entity_type (f node_id) clock
  | traverse engine database ns entity_type node_id hops fuel =>
    traverse engine database ns entity_type (f node_id) hops fuel

def proc (self : Store) : Call → Proc Outcome
  | create_edge database ns source target label properties clock returned_at => do
    let edge ← edge.create_edge self database ns source target label properties clock returned_at
    pure (.edge edge)
  | delete_edge database ns source target label clock => do
    let deleted ← edge.delete_edge self database ns source target label clock
    pure (.deleted deleted)
  | list_edges database ns entity_type node_id label_filter limit => do
    let edges ← edge.list_edges database ns entity_type node_id label_filter limit
    pure (.edges edges)
  | list_incoming_edges database ns entity_type node_id label_filter limit => do
    let edges ← edge.list_incoming_edges database ns entity_type node_id label_filter limit
    pure (.edges edges)
  | delete_node database ns entity_type node_id clock => do
    let deleted ← node.delete_node self.node_store database ns entity_type node_id clock
    pure (.deleted deleted)
  | traverse engine database ns entity_type node_id hops fuel => do
    let results ← engine.traverse database ns entity_type node_id hops none fuel
    pure (.traversed results)

end Call

/-- What the calls of a history return one after the other, each with the id it
is given for a new edge. -/
def outcomes (self : Store) : List (Call × NodeId) → Db → List (Except PelagoError Outcome)
  | [], _ => []
  | (call, edge_id) :: rest, db =>
    let ended := (call.proc self).complete edge_id db
    ended.1 :: outcomes self rest ended.2

/-- The spelling that ids are printed in. -/
def canonical (text : String) : String := ((NodeId.from_str text).map NodeId.to_string).getD text

/-- The one text in place of the other. -/
def substitute (s₁ s₂ text : String) : String := if text = s₁ then s₂ else text

/-- The second history has the one text replaced by the other in some calls. -/
def Respelled (s₁ s₂ : String) : List (Call × NodeId) → List (Call × NodeId) → Prop :=
  List.Forall₂ fun c c' => c'.2 = c.2 ∧ (c'.1 = c.1 ∨ c'.1 = c.1.respell (substitute s₁ s₂))

/-- No history tells the texts apart, whatever the store holds. -/
def Interchangeable (s₁ s₂ : String) : Prop :=
  ∀ (self : Store) (db : Db) (history history' : List (Call × NodeId)), Respelled s₁ s₂ history history' →
    (outcomes self history db).map (respellOutcome canonical) =
      (outcomes self history' db).map (respellOutcome canonical)

section Created

variable {self : Store} {e : EdgeAt} {edge_id : String} {clock : Clock} {db db' : Db}

theorem present_of_created (hplain : Plain self.get_schema) (hhome : e.Home) (hwithin : e.triple.Within e.database e.ns)
    (h : Created self e edge_id clock db db') : ∃ data, Present e.database e.ns db' e.triple data := by
  refine ⟨.stored ⟨edge_id, e.properties, clock.now, some e.source, some e.target, some e.label⟩, hwithin,
    ⟨rfl, rfl, rfl⟩, fun k _ => ?_⟩
  rw [h.rows, if_pos (by rwa [hplain.rows_eq hhome])]
  rfl

/-- The first edge of a namespace is listed for its source as the source is
spelled, and for no other text. -/
theorem list_edges_of_created (hplain : Plain self.get_schema) (hhome : e.Home)
    (hwithin : e.triple.Within e.database e.ns) (hempty : NoEdges e.database e.ns db)
    (h : Created self e edge_id clock db db') (entity_type node_id : String) (answer : NodeId) :
    ∃ edges, (list_edges e.database e.ns entity_type node_id none db'.rows.rows.length).complete answer db' =
        (.ok edges, db') ∧ (edges = [] ↔ e.source ≠ ⟨e.database, e.ns, entity_type, node_id⟩) := by
  have hrow : ∀ k, db'.rows.get k ≠ none → EdgeRowOf e.database e.ns k → k ∈ e.triple.rows := by
    rintro k hk ⟨rest, rfl⟩
    by_contra hmem
    rw [h.rows, if_neg (by rwa [hplain.rows_eq hhome]), hempty _] at hk
    exact hk rfl
  have hpaired : Paired e.database e.ns db' := by
    obtain ⟨data, hpresent⟩ := present_of_created hplain hhome hwithin h
    intro k c hk hget
    have hmem := hrow k (by simp [hget]) hk
    rw [hpresent.rows k hmem] at hget
    exact ⟨e.triple, hmem, ⟨hwithin, data, (Option.some.inj hget).symm, hpresent.names⟩,
      fun k' hk' => by rw [hpresent.rows k' hk', hget]⟩
  obtain ⟨edges, hrun, hedges⟩ := hpaired.list_edges_spec
    _ (w := ⟨db', ()⟩) le_rfl _ _ _
  refine ⟨edges, by rw [Proc.complete_eq_run, hrun], ?_⟩
  rw [List.eq_nil_iff_forall_not_mem]
  constructor
  · intro hnone hsource
    obtain ⟨data, hpresent⟩ := present_of_created hplain hhome hwithin h
    exact hnone _ ((hedges _).mpr ⟨e.triple, data, hpresent, hsource, passes_none _, rfl⟩)
  · intro hsource edge hedge
    obtain ⟨e', _, hpresent, hsource', _, _⟩ := (hedges _).mp hedge
    have hforward : e'.forward ∈ e'.rows := by simp [Triple.rows]
    have hmem := hrow _ (by simp [hpresent.rows _ hforward])
      (edgeRowOf_of_mem_rows hpresent.within hforward)
    obtain rfl := Triple.eq_of_mem_rows hforward hmem
    exact hsource hsource'

end Created

theorem respell_self (s : String) (call : Call) : call.respell (substitute s s) = call := by
  have hsubstitute : substitute s s = id := by
    funext text
    unfold substitute
    split <;> simp_all
  rw [hsubstitute]
  cases call <;> rfl

theorem respelled_self {s : String} {history history' : List (Call × NodeId)} (h : Respelled s s history history') :
    history' = history := by
  induction h with
  | nil => rfl
  | cons hcall _ ih =>
    obtain ⟨hid, hcall⟩ := hcall
    rw [respell_self, or_self] at hcall
    rw [Prod.ext hcall hid, ih]

/-- A database with the record of one person. -/
def onePerson (id : NodeId) : Db := personRow ⟨.empty, fun _ => []⟩ id

theorem onePerson_noEdges (id : NodeId) : NoEdges "db" "ns" (onePerson id) := by
  intro _
  rfl

/-- A person by a spelling of the id. -/
def person (text : String) : NodeRef := ⟨"db", "ns", "Person", text⟩

theorem onePerson_storedAt {text : String} {id : NodeId} (h : NodeId.from_str text = some id) :
    StoredAt (person text) 1 (onePerson id) :=
  ⟨id, _, h, rfl, OrdMap.get_set_self ..⟩

theorem onePerson_unguarded (text : String) (id : NodeId) : Unguarded (person text) (onePerson id) := by
  intro id' _
  have hne : delete_guard_key (Subspace.of_namespace "db" "ns").data "Person" id'.to_bytes ≠
      data_key (Subspace.of_namespace "db" "ns").data "Person" id.to_bytes :=
    (data_key_ne_delete_guard_key _ _ _ _).symm
  exact (OrdMap.get_set_of_ne _ _ hne).trans rfl

/-- Someone gets to know themselves. -/
def meetSelf (text : String) : Call := .create_edge "db" "ns" (person text) (person text) "knows" .empty ⟨5, 5⟩ 5

/-- After an edge is made from a node the lists tell its spellings apart. -/
theorem outcomes_meetSelf {s₁ : String} {id : NodeId} (h₁ : NodeId.from_str s₁ = some id) :
    ∃ edge limit, ∀ text, ∃ edges,
      outcomes friends [(meetSelf s₁, ⟨1, 9⟩), (.list_edges "db" "ns" "Person" text none limit, ⟨1, 9⟩)]
        (onePerson id) = [.ok (.edge edge), .ok (.edges edges)] ∧ (edges = [] ↔ s₁ ≠ text) := by
  obtain ⟨created, db', hcreate⟩ : ∃ created db', (edge.create_edge friends "db" "ns" (person s₁) (person s₁)
      "knows" .empty ⟨5, 5⟩ 5).complete ⟨1, 9⟩ (onePerson id) = (.ok created, db') :=
    create_edge_ok rfl rfl (onePerson_storedAt h₁) rfl (onePerson_storedAt h₁) (onePerson_unguarded _ _)
      (onePerson_unguarded _ _) ..
  refine ⟨created, db'.rows.rows.length, fun text => ?_⟩
  obtain ⟨edges, hlist, hnil⟩ := list_edges_of_created (e := ⟨"db", "ns", person s₁, person s₁, "knows", .empty⟩)
    friends_plain ⟨rfl, rfl⟩ ⟨rfl, rfl, rfl, rfl⟩ (onePerson_noEdges id) (create_edge_complete hcreate) "Person" text
    _
  refine ⟨edges, ?_, hnil.trans (by simp [person])⟩
  have hfirst : ((meetSelf s₁).proc friends).complete ⟨1, 9⟩ (onePerson id) = (.ok (.edge created), db') :=
    Proc.complete_bind _ hcreate
  have hsecond : ((Call.list_edges "db" "ns" "Person" text none db'.rows.rows.length).proc friends).complete ⟨1, 9⟩
      db' = (.ok (.edges edges), db') := Proc.complete_bind _ hlist
  simp [outcomes, hfirst, hsecond]

/-- Two spellings of a node id are interchangeable only when they are the same
text: edges are kept under the texts of their ends. -/
theorem spellings_interchangeable_iff {s₁ s₂ : String} {id : NodeId} (h₁ : NodeId.from_str s₁ = some id)
    (h₂ : NodeId.from_str s₂ = some id) : Interchangeable s₁ s₂ ↔ s₁ = s₂ := by
  constructor
  · intro h
    by_contra hne
    obtain ⟨edge, limit, hout⟩ := outcomes_meetSelf h₁
    obtain ⟨edges₁, hedges₁, hnil₁⟩ := hout s₁
    obtain ⟨edges₂, hedges₂, hnil₂⟩ := hout s₂
    have hrespelled : Respelled s₁ s₂
        [(meetSelf s₁, ⟨1, 9⟩), (.list_edges "db" "ns" "Person" s₁ none limit, ⟨1, 9⟩)]
        [(meetSelf s₁, ⟨1, 9⟩), (.list_edges "db" "ns" "Person" s₂ none limit, ⟨1, 9⟩)] :=
      .cons ⟨rfl, .inl rfl⟩ (.cons ⟨rfl, .inr (by simp [Call.respell, substitute])⟩ .nil)
    have hsame := h friends (onePerson id) _ _ hrespelled
    rw [hedges₁, hedges₂, hnil₂.mpr hne] at hsame
    have hempty : edges₁ = [] := by simpa [respellOutcome] using hsame
    exact hnil₁.mp hempty rfl
  · rintro rfl self db history history' hrespelled
    rw [respelled_self hrespelled]

theorem leading_zero_interchangeable_iff : Interchangeable "01_7" "1_7" ↔ "01_7" = "1_7" :=
  spellings_interchangeable_iff (show NodeId.from_str "01_7" = some ⟨1, 7⟩ by decide +kernel) (by decide +kernel)

/-- An engine for hops without filters. -/
def unfiltered : TraversalEngine := ⟨{}, ⟨Unit, fun _ => none, fun _ _ => none⟩, fun _ => 0, fun _ => 0, fun _ => 0⟩

/-- One person gets to know another, is looked at and deleted. -/
def visit (text : String) : List (Call × NodeId) :=
  [(.create_edge "db" "ns" (person "01_7") (person "1_8") "knows" .empty ⟨5, 5⟩ 5, ⟨1, 9⟩),
    (.list_edges "db" "ns" "Person" text none 10, ⟨1, 9⟩),
    (.traverse unfiltered "db" "ns" "Person" text [⟨[], .Outbound, none, none⟩] 5, ⟨1, 9⟩),
    (.delete_node "db" "ns" "Person" text ⟨6, 6⟩, ⟨1, 9⟩),
    (.list_incoming_edges "db" "ns" "Person" "1_8" none 10, ⟨1, 9⟩)]

/-- How much a call has found. -/
def found : Except PelagoError Outcome → Option Nat
  | .ok (.edge _) => some 1
  | .ok (.deleted deleted) => some deleted.toNat
  | .ok (.edges edges) => some edges.length
  | .ok (.traversed results) => results.map fun r => r.paths.length
  | .error _ => none

/-- The lists and the traversal find nothing under the other spelling, and the
deletion leaves the edge behind. -/
theorem leading_zero_told_apart :
    NodeId.from_str "01_7" = NodeId.from_str "1_7" ∧ Respelled "01_7" "1_7" (visit "01_7") (visit "1_7") ∧
      ((outcomes friends (visit "01_7") (personRow (onePerson ⟨1, 7⟩) ⟨1, 8⟩)).map (respellOutcome canonical)).map
        found = [some 1, some 1, some 1, some 1, some 0] ∧
      ((outcomes friends (visit "1_7") (personRow (onePerson ⟨1, 7⟩) ⟨1, 8⟩)).map (respellOutcome canonical)).map
        found = [some 1, some 0, some 0, some 1, some 1] := by
  refine ⟨by decide +kernel, ?_, by decide +kernel, by decide +kernel⟩
  exact .cons ⟨rfl, .inl rfl⟩ (.cons ⟨rfl, .inr rfl⟩ (.cons ⟨rfl, .inr rfl⟩ (.cons ⟨rfl, .inr rfl⟩
    (.cons ⟨rfl, .inl rfl⟩ .nil))))

end pelago_query.traversal
