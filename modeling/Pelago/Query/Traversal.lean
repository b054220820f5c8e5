import Pelago.Storage.Edge

open bytes kv pelago_core pelago_storage
open pelago_storage.edge (list_edges list_incoming_edges)
open pelago_storage.node (get_node)

namespace pelago_query.traversal

/-- Traversal configuration; times are in nanoseconds. -/
structure TraversalConfig where
  max_depth : UInt32 := 10
  max_results : UInt32 := 1000
  timeout : Nat := 30 * 1000000000

/-- Direction of traversal. -/
inductive TraversalDirection where
  | Outbound
  | Inbound
  | Both
  deriving DecidableEq, Repr

/-- A single hop in a traversal. No labels are all labels. -/
structure TraversalHop where
  edge_labels : List String := []
  direction : TraversalDirection
  edge_filter : Option String := none
  node_filter : Option String := none
  deriving DecidableEq

/-- A single hop in a path. -/
structure PathHop where
  edge : StoredEdge
  node : StoredNode
  deriving DecidableEq

/-- A path through the graph. -/
structure TraversalPath where
  start : StoredNode
  hops : List PathHop
  deriving DecidableEq

namespace TraversalPath

def new (start : StoredNode) : TraversalPath := ⟨start, []⟩

def push (self : TraversalPath) (edge : StoredEdge) (node : StoredNode) : TraversalPath :=
  { self with hops := self.hops ++ [⟨edge, node⟩] }

def end_node (self : TraversalPath) : StoredNode :=
  (self.hops.getLast?.map PathHop.node).getD self.start

end TraversalPath

/-- A single frontier entry in a continuation token. -/
structure FrontierEntry where
  hop_idx : Nat
  path : TraversalPath
  deriving DecidableEq

/-- The state of a truncated traversal. The visited nodes are a set. -/
structure ContinuationState where
  visited : List String
  frontier : List FrontierEntry
  deriving DecidableEq

/-- The bytes of a continuation token: an encoded state or something else. -/
inductive Token where
  | cbor (state : ContinuationState)
  | raw (bytes : Bytes)
  deriving DecidableEq

def decode_cbor_token : Token → Except PelagoError ContinuationState
  | .cbor state => .ok state
  | .raw _ => .error (.Internal "CBOR deserialization failed")

/-- The values of the expression language, as far as they are looked at. -/
inductive CelValue where
  | String (s : String)
  | Int (n : Int64)
  | Float (f : F64)
  | Bool (b : Bool)
  | Bytes (b : Bytes)
  | Null
  | Other

/-- The interpreter of the expression language. -/
structure Cel where
  Program : Type
  compile : String → Option Program
  execute : Program → List (String × CelValue) → Option CelValue

def pelago_value_to_cel : Value → CelValue
  | .string s => .String s
  | .int n => .Int n
  | .float f => .Float f
  | .bool b => .Bool b
  | .timestamp t => .Int t
  | .bytes b => .Bytes b
  | .null => .Null

/-- A filter on properties. What is no boolean counts as false, and so does an
evaluation that fails. -/
def Cel.matches_filter (cel : Cel) (properties : Properties) (filter : String) : Except PelagoError Bool :=
  match cel.compile filter with
  | none => .error (.CelSyntax filter)
  | some program =>
    match cel.execute program (properties.rows.map fun (key, value) => (key, pelago_value_to_cel value)) with
    | some (.Bool b) => .ok b
    | _ => .ok false

/-- The traversal engine. `elapsed` tells how long the traversal has been
running when it looks at the clock for the n-th time. -/
structure TraversalEngine where
  config : TraversalConfig
  cel : Cel
  elapsed : Nat → Nat
  node_bytes : StoredNode → Nat
  edge_bytes : StoredEdge → Nat

namespace TraversalEngine

def matches_edge_filter (self : TraversalEngine) (edge : StoredEdge) (filter : String) : Except PelagoError Bool :=
  self.cel.matches_filter edge.properties filter

def matches_node_filter (self : TraversalEngine) (node : StoredNode) (filter : String) : Except PelagoError Bool :=
  self.cel.matches_filter node.properties filter

def filter_edges (self : TraversalEngine) (edges : List StoredEdge) (filter : String) :
    Except PelagoError (List StoredEdge) :=
  collect (fun edge => do
    let keep ← self.matches_edge_filter edge filter
    pure (if keep then some edge else none)) edges

end TraversalEngine

/-- What tells the edges of a merged list apart. -/
def edge_key (edge : StoredEdge) : String :=
  String.intercalate "|" [edge.edge_id, edge.source.entity_type, edge.source.node_id, edge.label,
    edge.target.entity_type, edge.target.node_id, toString edge.created_at]

/-- The first edge of each key. -/
def merge_edges : List String → List StoredEdge → List StoredEdge
  | _, [] => []
  | seen, edge :: rest =>
    if edge_key edge ∈ seen then merge_edges seen rest
    else edge :: merge_edges (edge_key edge :: seen) rest

/-- The label that the lists filter by; several labels are filtered afterwards. -/
def label_filter (hop : TraversalHop) : Option String :=
  match hop.edge_labels with
  | [label] => some label
  | _ => none

def HOP_EDGE_LIMIT : Nat := 1000

/-- Edges for a hop based on direction and labels. -/
def get_edges_for_hop (database ns entity_type node_id : String) (hop : TraversalHop) : Proc (List StoredEdge) := do
  let edges ← match hop.direction with
    | .Outbound => list_edges database ns entity_type node_id (label_filter hop) HOP_EDGE_LIMIT
    | .Inbound => list_incoming_edges database ns entity_type node_id (label_filter hop) HOP_EDGE_LIMIT
    | .Both => do
      let outgoing ← list_edges database ns entity_type node_id (label_filter hop) HOP_EDGE_LIMIT
      let incoming ← list_incoming_edges database ns entity_type node_id (label_filter hop) HOP_EDGE_LIMIT
      pure (merge_edges [] (outgoing ++ incoming))
  pure (if hop.edge_labels.length > 1 then edges.filter fun edge => decide (edge.label ∈ hop.edge_labels) else edges)

/-- The node that an edge leads to. -/
def target_ref (direction : TraversalDirection) (current_node : StoredNode) (edge : StoredEdge) : String × String :=
  match direction with
  | .Outbound => (edge.target.entity_type, edge.target.node_id)
  | .Inbound => (edge.source.entity_type, edge.source.node_id)
  | .Both =>
    if edge.source.entity_type = current_node.entity_type ∧ edge.source.node_id = current_node.id then
      (edge.target.entity_type, edge.target.node_id)
    else (edge.source.entity_type, edge.source.node_id)

/-- How a node stands in the set of visited ones. -/
def visited_key (entity_type node_id : String) : String := entity_type ++ ":" ++ node_id

/-- An edge whose other end is still to be fetched. -/
structure Pending where
  edge : StoredEdge
  target_entity : String
  target_id : String

def Pending.target_key (p : Pending) : String := visited_key p.target_entity p.target_id

/-- The edges that lead to nodes not visited before. -/
def pending_edges (direction : TraversalDirection) (current_node : StoredNode) (visited : List String)
    (edges : List StoredEdge) : List Pending :=
  (edges.map fun edge =>
    let (target_entity, target_id) := target_ref direction current_node edge
    ⟨edge, target_entity, target_id⟩).filter fun p => decide (p.target_key ∉ visited)

/-- The nodes that are there, in the order of their edges. Batches of nodes are
fetched side by side. -/
def fetch_nodes (database ns : String) (pending : List Pending) : Proc (List (Pending × StoredNode)) :=
  Proc.collect (fun p => do
    let maybe_node ← get_node database ns p.target_entity p.target_id
    pure (maybe_node.map fun node => (p, node))) pending

/-- The variables of the traversal loop, and how often it has looked at the
clock. -/
structure Bfs where
  results : List TraversalPath
  visited : List String
  queue : List (TraversalPath × Nat)
  scanned_edges : Nat
  looks : Nat
  deriving DecidableEq

/-- Results from a traversal. -/
structure TraversalResults where
  paths : List TraversalPath
  truncated : Bool
  continuation_token : Option Token
  frontier : List (String × String)
  scanned_keys : Nat
  result_bytes : Nat
  elapsed_ms : Nat
  deriving DecidableEq

namespace TraversalEngine

variable (self : TraversalEngine)

/-- Queues the paths to the fetched nodes that pass the filter and are not
visited yet. -/
def enqueue (hop : TraversalHop) (current_path : TraversalPath) (hop_idx : Nat) :
    List (Pending × StoredNode) → Bfs → Except PelagoError Bfs
  | [], s => .ok s
  | (p, target_node) :: rest, s => do
    let keep ← match hop.node_filter with
      | some filter => self.matches_node_filter target_node filter
      | none => .ok true
    if keep ∧ p.target_key ∉ s.visited then
      enqueue hop current_path hop_idx rest
        { s with
          visited := p.target_key :: s.visited
          queue := s.queue ++ [(current_path.push p.edge target_node, hop_idx + 1)] }
    else enqueue hop current_path hop_idx rest s

/-- Follows one hop from the end of a path that has been taken off the queue. -/
def expand (database ns : String) (hop : TraversalHop) (current_path : TraversalPath) (hop_idx : Nat) (s : Bfs) :
    Proc Bfs := do
  let current_node := current_path.end_node
  let edges ← get_edges_for_hop database ns current_node.entity_type current_node.id hop
  let filtered_edges ← .ofExcept (match hop.edge_filter with
    | some filter => self.filter_edges edges filter
    | none => .ok edges)
  let fetched ← fetch_nodes database ns (pending_edges hop.direction current_node s.visited filtered_edges)
  .ofExcept (self.enqueue hop current_path hop_idx fetched
    { s with scanned_edges := min (s.scanned_edges + edges.length) (2 ^ 64 - 1) })

/-- One round of the loop, which tells whether there is another. -/
def round (database ns : String) (hops : List TraversalHop) (s : Bfs) : Proc (Bool × Bfs) :=
  match s.queue with
  | [] => pure (false, s)
  | (current_path, hop_idx) :: queue =>
    if self.elapsed s.looks > self.config.timeout then
      .fail (.TraversalTimeout self.config.max_depth (UInt32.ofNat hop_idx))
    else if s.results.length ≥ self.config.max_results.toNat then
      -- the path stays at the front of the queue
      pure (false, { s with looks := s.looks + 1 })
    else
      let s := { s with queue := queue, looks := s.looks + 1 }
      match hops[hop_idx]? with
      | none => pure (true, { s with results := s.results ++ [current_path] })
      | some hop =>
        if UInt32.ofNat hop_idx ≥ self.config.max_depth then
          pure (true, { s with results := s.results ++ [current_path] })
        else do
          let s ← self.expand database ns hop current_path hop_idx s
          pure (true, s)

/-- At most so many rounds of the loop, `none` when it has not ended by then. -/
def rounds (database ns : String) (hops : List TraversalHop) : Nat → Bfs → Proc (Option Bfs)
  | 0, _ => pure none
  | fuel + 1, s => do
    let (more, s) ← self.round database ns hops s
    if more then rounds database ns hops fuel s else pure (some s)

def estimate_traversal_result_bytes (paths : List TraversalPath) : Nat :=
  (paths.map fun path => self.node_bytes path.start +
    (path.hops.map fun hop => self.node_bytes hop.node + self.edge_bytes hop.edge).sum).sum

/-- The results of a loop that has ended. -/
def finish (s : Bfs) : TraversalResults :=
  let truncated := decide (s.results.length ≥ self.config.max_results.toNat ∧ s.queue ≠ [])
  let frontier_entries := s.queue.map fun (path, hop_idx) => (⟨hop_idx, path⟩ : FrontierEntry)
  { paths := s.results
    truncated := truncated
    continuation_token := if truncated then some (.cbor ⟨s.visited, frontier_entries⟩) else none
    frontier :=
      if truncated then frontier_entries.map fun e => (e.path.end_node.entity_type, e.path.end_node.id) else []
    scanned_keys := s.scanned_edges
    result_bytes := self.estimate_traversal_result_bytes s.results
    elapsed_ms := self.elapsed s.looks / 1000000 }

/-- The variables at the start of the loop, from a token or from the start node. -/
def initial (start_node : StoredNode) (start_entity_type start_node_id : String) :
    Option Token → Except PelagoError Bfs
  | some token => do
    let state ← decode_cbor_token token
    pure ⟨[], state.visited, state.frontier.map fun e => (e.path, e.hop_idx), 0, 0⟩
  | none =>
    .ok ⟨[], [visited_key start_entity_type start_node_id], [(.new start_node, 0)], 0, 0⟩

/-- Executes a traversal starting from a node, with a bound on the rounds of its
loop. Its reads are at the current version. -/
def traverse (database ns start_entity_type start_node_id : String) (hops : List TraversalHop)
    (continuation_token : Option Token) (fuel : Nat) : Proc (Option TraversalResults) := do
  match ← get_node database ns start_entity_type start_node_id with
  | none => .fail (.NodeNotFound start_entity_type start_node_id)
  | some start_node => do
    let s ← .ofExcept (initial start_node start_entity_type start_node_id continuation_token)
    let ended ← self.rounds database ns hops fuel s
    pure (ended.map self.finish)

end TraversalEngine

end pelago_query.traversal
