import Mathlib.Data.Finset.Basic
import Pelago.Api.Authz
import Pelago.Api.SchemaService
import Pelago.Query.Cel
import Pelago.Storage.Cdc

open bytes kv pelago_core pelago_storage text
open pelago_query.traversal (Cel)
open pelago_api.schema_service (core_to_proto_value)

namespace pelago_api.watch_service

structure PointNodeTarget where
  entity_type : String
  node_id : String
  properties : List String
  deriving DecidableEq

structure PointEdgeTarget where
  source_entity_type : String
  source_node_id : String
  label : String
  target : Option (String × String)
  direction : Int32
  deriving DecidableEq

structure PqlPredicate where
  root_entity_type : Option String
  cel_expression : Option String
  deriving DecidableEq

structure QueryFilter where
  entity_type : String
  cel_expression : Option String
  pql_predicate : Option PqlPredicate
  deriving DecidableEq

inductive WatchFilter where
  | Point (nodes : List PointNodeTarget) (edges : List PointEdgeTarget)
  | Query (filter : QueryFilter)
  | Namespace
  deriving DecidableEq

inductive WatchEventType where
  | Enter
  | Update
  | Exit
  | Delete
  | Heartbeat
  deriving DecidableEq

/-- Properties on the wire. -/
abbrev ProtoProperties := OrdMap String pelago_proto.Value

structure Node where
  id : String
  entity_type : String
  properties : ProtoProperties
  locality : String
  created_at : Int
  updated_at : Int
  deriving DecidableEq

/-- The ends of an edge event name neither database nor namespace. -/
structure EdgeEnd where
  entity_type : String
  node_id : String
  deriving DecidableEq

structure Edge where
  edge_id : String
  source : EdgeEnd
  target : EdgeEnd
  label : String
  properties : ProtoProperties
  created_at : Int
  deriving DecidableEq

structure WatchEvent where
  subscription_id : String
  type : WatchEventType
  versionstamp : Versionstamp
  node : Option Node
  edge : Option Edge
  reason : String
  deriving DecidableEq

def core_to_proto_properties (props : Properties) : ProtoProperties := props.mapVal core_to_proto_value

/-- What a watch asks: the schemas of its namespace and the interpreter of the
expression language. -/
structure Registry where
  schemas : OrdMap String EntitySchema
  cel : Cel

namespace Registry

def get_schema (self : Registry) (entity_type : String) : Option EntitySchema := self.schemas.get entity_type

def list_schemas (self : Registry) : List String := self.schemas.rows.map Prod.fst

end Registry

section Filter

def query_scope_matches (filter : QueryFilter) (entity_type : String) : Bool :=
  if filter.entity_type ≠ "" ∧ filter.entity_type ≠ entity_type then false
  else
    match filter.pql_predicate.bind PqlPredicate.root_entity_type with
    | some root_et => root_et == entity_type
    | none => true

def matches_node_scope (filter : WatchFilter) (entity_type node_id : String) : Bool :=
  match filter with
  | .Namespace => true
  | .Point nodes _ => nodes.any fun target => target.entity_type == entity_type && target.node_id == node_id
  | .Query q => query_scope_matches q entity_type

def matches_node_update_scope (filter : WatchFilter) (entity_type node_id : String)
    (changed_properties : Properties) : Bool :=
  match filter with
  | .Point nodes _ =>
    (nodes.filter fun target => target.entity_type == entity_type && target.node_id == node_id).any fun target =>
      target.properties.isEmpty || changed_properties.rows.any fun row => target.properties.contains row.1
  | _ => matches_node_scope filter entity_type node_id

/-- Directions are numbers on the wire. Whatever is neither of the two is
outgoing. -/
def EdgeDirection.Incoming : Int32 := 2
def EdgeDirection.Both : Int32 := 3

def point_edge_target_matches (target : PointEdgeTarget)
    (source_type source_id target_type target_id label : String) : Bool :=
  if target.label ≠ "" ∧ target.label ≠ label then false
  else
    let outbound_match := target.source_entity_type == source_type && target.source_node_id == source_id &&
      (target.target.map fun (et, id) => et == target_type && id == target_id).getD true
    let inbound_match := target.source_entity_type == target_type && target.source_node_id == target_id &&
      (target.target.map fun (et, id) => et == source_type && id == source_id).getD true
    if target.direction = EdgeDirection.Incoming then inbound_match
    else if target.direction = EdgeDirection.Both then outbound_match || inbound_match
    else outbound_match

def matches_edge_scope (filter : WatchFilter) (source_type source_id target_type target_id label : String) : Bool :=
  match filter with
  | .Namespace => true
  | .Point nodes edges =>
    let node_touch := nodes.any fun target =>
      (target.entity_type == source_type && target.node_id == source_id) ||
        (target.entity_type == target_type && target.node_id == target_id)
    let edge_match := edges.any fun target =>
      point_edge_target_matches target source_type source_id target_type target_id label
    node_touch || edge_match
  | .Query q => query_scope_matches q source_type || query_scope_matches q target_type

def evaluate_cel (registry : Registry) (entity_type cel_expression : String) (properties : Properties) : Bool :=
  if (trim cel_expression.toList).isEmpty then true
  else
    match registry.get_schema entity_type with
    | none => false
    | some schema =>
      match pelago_query.cel.compile registry.cel schema cel_expression with
      | .error _ => false
      | .ok compiled =>
        match compiled.evaluate properties with
        | .ok b => b
        | .error _ => false

def query_matches_node (registry : Registry) (filter : QueryFilter) (entity_type : String)
    (properties : Properties) : Bool :=
  query_scope_matches filter entity_type &&
    (filter.cel_expression.all fun cel => evaluate_cel registry entity_type cel properties) &&
    ((filter.pql_predicate.bind PqlPredicate.cel_expression).all fun cel =>
      evaluate_cel registry entity_type cel properties)

def blank_to_none (s : String) : Option String :=
  let trimmed := trim s.toList
  if trimmed.isEmpty then none else some (String.ofList trimmed)

/-- The parser of the query language is a parameter. -/
def build_query_filter (build_pql_predicate : String → Except Status PqlPredicate)
    (entity_type cel_expression pql_query : String) : Except Status QueryFilter := do
  let pql_predicate ← match blank_to_none pql_query with
    | none => .ok none
    | some query => (build_pql_predicate query).map some
  pure ⟨entity_type, blank_to_none cel_expression, pql_predicate⟩

end Filter

def node_key (entity_type node_id : String) : String := entity_type ++ ":" ++ node_id

section Events

variable (sub_id : String) (versionstamp : Versionstamp)

def node_event (type : WatchEventType) (entity_type node_id : String) (properties : Properties) (locality : String)
    (reason : String) : WatchEvent :=
  ⟨sub_id, type, versionstamp,
    some ⟨node_id, entity_type, core_to_proto_properties properties, locality, 0, 0⟩, none, reason⟩

def edge_event (type : WatchEventType) (edge_id : String) (source target : EdgeEnd) (label : String)
    (properties : Properties) (reason : String) : WatchEvent :=
  ⟨sub_id, type, versionstamp, none,
    some ⟨edge_id, source, target, label, core_to_proto_properties properties, 0⟩, reason⟩

variable (registry : Registry) (filter : WatchFilter)

/-- For query subscriptions, edge events are emitted only if at least one end
is tracked. -/
def edge_visible (source_type source_id target_type target_id edge_type : String) (matched_nodes : Finset String) :
    Bool :=
  matches_edge_scope filter source_type source_id target_type target_id edge_type &&
    match filter with
    | .Query _ =>
      decide (node_key source_type source_id ∈ matched_nodes) || decide (node_key target_type target_id ∈ matched_nodes)
    | _ => true

/-- How an update looks to a query: the event it yields, if any, and whether
the node is tracked afterwards. -/
def update_transition (was_match new_match : Bool) : Option WatchEventType :=
  match was_match, new_match with
  | false, true => some .Enter
  | true, true => some .Update
  | true, false => some .Exit
  | false, false => none

def retrack (key : String) (transition : Option WatchEventType) (matched_nodes : Finset String) : Finset String :=
  match transition with
  | some .Enter | some .Update => insert key matched_nodes
  | some .Exit => matched_nodes.erase key
  | _ => matched_nodes

/-- The events of one operation of the log, and the nodes tracked after it. -/
def cdc_op_to_watch_events (op : OperationDocument) (matched_nodes : Finset String) :
    List WatchEvent × Finset String :=
  match op with
  | .data (.NodeCreate entity_type node_id properties home_site) =>
    let event := node_event sub_id versionstamp .Enter entity_type node_id properties home_site "node_create"
    if matches_node_scope filter entity_type node_id then
      match filter with
      | .Query query_filter =>
        if query_matches_node registry query_filter entity_type properties then
          ([event], insert (node_key entity_type node_id) matched_nodes)
        else ([], matched_nodes)
      | _ => ([event], matched_nodes)
    else ([], matched_nodes)
  | .data (.NodeUpdate entity_type node_id changed_properties old_properties) =>
    let event type :=
      node_event sub_id versionstamp type entity_type node_id changed_properties "" "node_update"
    if matches_node_update_scope filter entity_type node_id changed_properties then
      match filter with
      | .Query query_filter =>
        let old_match := query_matches_node registry query_filter entity_type old_properties
        let new_match :=
          query_matches_node registry query_filter entity_type (old_properties.overlay changed_properties)
        let key := node_key entity_type node_id
        let transition := update_transition (decide (key ∈ matched_nodes) || old_match) new_match
        ((transition.map event).toList, retrack key transition matched_nodes)
      | _ => ([event .Update], matched_nodes)
    else ([], matched_nodes)
  | .data (.NodeDelete entity_type node_id) =>
    let event := node_event sub_id versionstamp .Delete entity_type node_id .empty "" "node_delete"
    if matches_node_scope filter entity_type node_id then
      match filter with
      | .Query _ =>
        let key := node_key entity_type node_id
        if key ∈ matched_nodes then ([event], matched_nodes.erase key) else ([], matched_nodes)
      | _ => ([event], matched_nodes)
    else ([], matched_nodes)
  | .data (.EdgeCreate source_type source_id target_type target_id edge_type edge_id properties) =>
    if edge_visible filter source_type source_id target_type target_id edge_type matched_nodes then
      ([edge_event sub_id versionstamp .Update edge_id ⟨source_type, source_id⟩ ⟨target_type, target_id⟩ edge_type
        properties "edge_create"], matched_nodes)
    else ([], matched_nodes)
  | .data (.EdgeDelete source_type source_id target_type target_id edge_type) =>
    if edge_visible filter source_type source_id target_type target_id edge_type matched_nodes then
      ([edge_event sub_id versionstamp .Delete "" ⟨source_type, source_id⟩ ⟨target_type, target_id⟩ edge_type
        .empty "edge_delete"], matched_nodes)
    else ([], matched_nodes)
  | .SchemaRegister _ _ _ => ([], matched_nodes)
  | .data (.OwnershipTransfer entity_type node_id _ current_site_id) =>
    let event :=
      node_event sub_id versionstamp .Update entity_type node_id .empty current_site_id "ownership_transfer"
    if matches_node_scope filter entity_type node_id then
      match filter with
      | .Query _ => if node_key entity_type node_id ∈ matched_nodes then ([event], matched_nodes) else ([], matched_nodes)
      | _ => ([event], matched_nodes)
    else ([], matched_nodes)

end Events

end pelago_api.watch_service
