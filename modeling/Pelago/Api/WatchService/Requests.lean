import Pelago.Api.WatchService

open bytes kv pelago_core pelago_storage text

namespace pelago_api.watch_service

/-- The change log of a namespace. -/
abbrev Log := OrdMap Versionstamp (List OperationDocument)

section Positions

/-- The position before every entry counts as one that exists. -/
def cdc_position_exists (log : Log) (versionstamp : Versionstamp) : Bool :=
  versionstamp.is_zero || (log.get versionstamp).isSome

/-- Scans do not see entries whose versionstamp starts with `FF`. -/
def oldest_cdc_position (log : Log) : Option Versionstamp :=
  (log.rows.find? fun row => decide row.1.Regular).map Prod.fst

def parse_resume_after (resume_after : Bytes) : Except Status (Option Versionstamp) :=
  if resume_after.isEmpty then .ok none
  else
    match Versionstamp.from_bytes resume_after with
    | some vs => .ok (some vs)
    | none => .error (.invalid_argument "resume_after must be a 10-byte versionstamp")

def resolve_resume_position (requested : Versionstamp) (exists_ : Bool) (oldest_available : Option Versionstamp) :
    Except Status Versionstamp :=
  if exists_ then .ok requested
  else if oldest_available.any fun oldest => decide (requested < oldest) then
    .error (.out_of_range "resume_after versionstamp is expired relative to CDC retention")
  else .ok .zero

def validate_resume_position (log : Log) (resume_after : Bytes) : Except Status Versionstamp := do
  match ← parse_resume_after resume_after with
  | none => pure .zero
  | some vs =>
    if cdc_position_exists log vs then pure vs
    else resolve_resume_position vs false (oldest_cdc_position log)

end Positions

section StateIds

def OFFSET_BASIS : UInt64 := 0xcbf29ce484222325
def PRIME : UInt64 := 0x100000001b3

def fnv1a64 (bytes : Bytes) : UInt64 :=
  bytes.foldl (fun hash b => (hash ^^^ b.toUInt64) * PRIME) OFFSET_BASIS

/-- Sixteen hexadecimal digits. -/
def hex16 (n : UInt64) : String :=
  let digits := Nat.toDigits 16 n.toNat
  String.ofList (List.replicate (16 - digits.length) '0' ++ digits)

def compute_query_state_id (database ns : String) (filter : QueryFilter) : String :=
  let signature := database ++ "\n" ++ ns ++ "\n" ++ filter.entity_type ++ "\n" ++ filter.cel_expression.getD ""
  let signature := match filter.pql_predicate with
    | some pql => signature ++ "\n" ++ pql.root_entity_type.getD "" ++ "\n" ++ pql.cel_expression.getD ""
    | none => signature
  "qws-" ++ hex16 (fnv1a64 (utf8 signature))

end StateIds

section Options

structure WatchOptions where
  include_initial : Bool := false
  ttl_secs : Nat := 0
  max_queue_size : Nat := 0
  heartbeat_secs : Nat := 0
  initial_snapshot : Bool := false
  deriving DecidableEq

structure WatchLimits where
  max_total_subscriptions : Nat := 1024
  max_namespace_subscriptions : Nat := 256
  max_query_watches_namespace : Nat := 1000
  max_principal_subscriptions : Nat := 128
  max_ttl_secs : Nat := 86400
  default_heartbeat_secs : Nat := 30
  max_heartbeat_secs : Nat := 300
  max_queue_size : Nat := 8192
  max_dropped_events : Nat := 512

/-- A limit between a least and a largest value, where zero asks for the
default. -/
def clampOption (value default limit least : Nat) : Nat :=
  max (min (if value = 0 then default else value) limit) least

def normalize_options (options : WatchOptions) (limits : WatchLimits) : WatchOptions :=
  { include_initial := options.initial_snapshot || options.include_initial
    ttl_secs := clampOption options.ttl_secs 60 limits.max_ttl_secs 60
    max_queue_size := clampOption options.max_queue_size 256 limits.max_queue_size 32
    heartbeat_secs :=
      clampOption options.heartbeat_secs (max limits.default_heartbeat_secs 5) limits.max_heartbeat_secs 5
    initial_snapshot := options.initial_snapshot }

end Options

section Subscriptions

inductive WatchSubscriptionType where
  | Point
  | Query
  | Namespace
  deriving DecidableEq

structure ActiveSubscription where
  subscription_type : WatchSubscriptionType
  database : String
  ns : String
  principal_id : Option String
  deriving DecidableEq

/-- Fails when one more subscription would be too many. -/
def try_insert (active : List ActiveSubscription) (sub : ActiveSubscription) (limits : WatchLimits) :
    Except Status Unit :=
  let here := active.filter fun s => s.database == sub.database && s.ns == sub.ns
  if active.length ≥ limits.max_total_subscriptions then
    .error (.resource_exhausted ("max subscriptions reached (" ++ Nat.repr limits.max_total_subscriptions ++ ")"))
  else if here.length ≥ limits.max_namespace_subscriptions then
    .error (.resource_exhausted ("max subscriptions reached for namespace " ++ sub.database ++ "/" ++ sub.ns ++
      " (" ++ Nat.repr limits.max_namespace_subscriptions ++ ")"))
  else if sub.subscription_type = .Query ∧
      (here.filter fun s => s.subscription_type = .Query).length ≥ limits.max_query_watches_namespace then
    .error (.resource_exhausted ("max query watches reached for namespace " ++ sub.database ++ "/" ++ sub.ns ++
      " (" ++ Nat.repr limits.max_query_watches_namespace ++ ")"))
  else
    match sub.principal_id with
    | some principal_id =>
      if (active.filter fun s => s.principal_id = some principal_id).length ≥ limits.max_principal_subscriptions then
        .error (.resource_exhausted ("max subscriptions reached for principal '" ++ principal_id ++ "' (" ++
          Nat.repr limits.max_principal_subscriptions ++ ")"))
      else .ok ()
    | none => .ok ()

/-- Times are microseconds. -/
structure WatchContext where
  subscription_id : String
  database : String
  ns : String
  expires_at : Int
  after : Versionstamp
  max_dropped_events : Nat
  include_initial_snapshot : Bool
  heartbeat_secs : Nat
  initial_snapshot_limit : Nat
  query_state_id : Option String

/-- An accepted watch: what its loop is started with. -/
structure Subscription where
  filter : WatchFilter
  ctx : WatchContext
  queue_size : Nat

structure NodeWatch where
  entity_type : String
  node_id : String
  properties : List String := []

structure EdgeWatch where
  source : Option EdgeEnd
  label : String
  target : Option EdgeEnd
  direction : Int32

structure WatchPointRequest where
  context : Option RequestContext
  entity_type : String := ""
  node_id : String := ""
  options : WatchOptions := {}
  resume_after : Bytes := []
  nodes : List NodeWatch
  edges : List EdgeWatch

structure WatchQueryRequest where
  context : Option RequestContext
  entity_type : String
  cel_expression : String := ""
  pql_query : String := ""
  options : WatchOptions := {}
  resume_after : Bytes := []

structure WatchNamespaceRequest where
  context : Option RequestContext
  options : WatchOptions := {}
  resume_after : Bytes := []

/-- What the service works with: policies, the change log of the namespace, the
active subscriptions, its limits, the parser of the query language, the clock
and a new id. -/
structure WatchServiceImpl where
  db : security.Rows
  log : Log
  active : List ActiveSubscription
  limits : WatchLimits
  build_pql_predicate : String → Except Status PqlPredicate
  created_at : Int
  sub_id : String

variable (self : WatchServiceImpl) (principal : Option AuthPrincipal)

/-- The end of each kind of watch request. -/
def start_watch (subscription_type : WatchSubscriptionType) (filter : WatchFilter) (ctx : RequestContext)
    (options : WatchOptions) (after : Versionstamp) (query_state_id : Option String) : Except Status Subscription := do
  try_insert self.active ⟨subscription_type, ctx.database, ctx.ns, principal.map AuthPrincipal.principal_id⟩ self.limits
  pure ⟨filter,
    { subscription_id := self.sub_id
      database := ctx.database
      ns := ctx.ns
      expires_at := self.created_at + options.ttl_secs * 1000000
      after := after
      max_dropped_events := self.limits.max_dropped_events
      include_initial_snapshot := options.initial_snapshot || options.include_initial
      heartbeat_secs := options.heartbeat_secs
      initial_snapshot_limit := options.max_queue_size * 4
      query_state_id := query_state_id }, options.max_queue_size⟩

def EdgeEnd.named (e : EdgeEnd) : Bool := e.entity_type != "" && e.node_id != ""

def point_node_targets (req : WatchPointRequest) : List PointNodeTarget :=
  let node_targets := (req.nodes.filter fun node => node.entity_type != "" && node.node_id != "").map
    fun node => ⟨node.entity_type, node.node_id, node.properties⟩
  if node_targets.isEmpty ∧ req.entity_type ≠ "" ∧ req.node_id ≠ "" then [⟨req.entity_type, req.node_id, []⟩]
  else node_targets

def point_edge_targets (req : WatchPointRequest) : List PointEdgeTarget :=
  req.edges.filterMap fun edge => do
    let source ← edge.source
    if source.named then
      some ⟨source.entity_type, source.node_id, edge.label,
        (edge.target.filter EdgeEnd.named).map fun n => (n.entity_type, n.node_id), edge.direction⟩
    else none

/-- Only the type of the first node target is asked for. -/
def watch_point (req : WatchPointRequest) : Except Status Subscription := do
  let ctx ← require_field req.context "context"
  let node_targets := point_node_targets req
  let edge_targets := point_edge_targets req
  if node_targets.isEmpty && edge_targets.isEmpty then
    .error (.invalid_argument "watch_point requires at least one node or edge target")
  else do
    let acl_entity := (node_targets.head?.map PointNodeTarget.entity_type).getD "*"
    authorize_with_context self.db principal "watch.subscribe" ctx acl_entity
    let options := normalize_options req.options self.limits
    let after ← validate_resume_position self.log req.resume_after
    start_watch self principal .Point (.Point node_targets edge_targets) ctx options after none

def watch_query (req : WatchQueryRequest) : Except Status Subscription := do
  let ctx ← require_field req.context "context"
  authorize_with_context self.db principal "watch.subscribe" ctx
    (if req.entity_type = "" then "*" else req.entity_type)
  let options := normalize_options req.options self.limits
  let after ← validate_resume_position self.log req.resume_after
  let query_filter ← build_query_filter self.build_pql_predicate req.entity_type req.cel_expression req.pql_query
  start_watch self principal .Query (.Query query_filter) ctx options after
    (some (compute_query_state_id ctx.database ctx.ns query_filter))

def watch_namespace (req : WatchNamespaceRequest) : Except Status Subscription := do
  let ctx ← require_field req.context "context"
  authorize_with_context self.db principal "watch.subscribe" ctx "*"
  let options := normalize_options req.options self.limits
  let after ← validate_resume_position self.log req.resume_after
  start_watch self principal .Namespace .Namespace ctx options after none

/-- The three kinds of watch requests. -/
inductive WatchRequest where
  | point (req : WatchPointRequest)
  | query (req : WatchQueryRequest)
  | namespace (req : WatchNamespaceRequest)

def watch : WatchRequest → Except Status Subscription
  | .point req => watch_point self principal req
  | .query req => watch_query self principal req
  | .namespace req => watch_namespace self principal req

end Subscriptions

open pelago_storage.node (data_key)

structure SnapshotNode where
  entity_type : String
  node_id : String
  data : NodeData
  deriving DecidableEq

variable (rows : OrdMap Bytes Cell) (ctx : WatchContext)

def fetch_node_snapshot (entity_type node_id : String) : Except Status (Option SnapshotNode) :=
  match NodeId.from_str node_id with
  | none => .error (.invalid_argument "invalid node_id in watch target")
  | some parsed =>
    match rows.get (data_key (Subspace.of_namespace ctx.database ctx.ns).data entity_type parsed.to_bytes) with
    | none => .ok none
    | some value =>
      match decode_cbor value with
      | .ok data => .ok (some ⟨entity_type, node_id, data⟩)
      | .error e => .error (.internal "snapshot decode failed: " e)

/-- The bytes before the id in the keys of a type. -/
def type_prefix_bytes (entity_type : String) : Bytes :=
  ((Subspace.of_namespace ctx.database ctx.ns).data.pack.add_string entity_type).build

/-- Rows that do not decode are skipped, but count for the limit. -/
def scan_entity_snapshots (entity_type : String) (limit : Nat) : List SnapshotNode :=
  let start := type_prefix_bytes ctx entity_type
  ((rows.range start (start ++ [0xFF])).take (max limit 1)).filterMap fun (key, value) =>
    if key.length < 9 then none
    else do
      let id ← NodeId.try_from_slice (key.drop (key.length - 9))
      let data ← (decode_cbor value).toOption
      some ⟨entity_type, id.to_string, data⟩

def snapshot_event (snapshot : SnapshotNode) (properties : Properties) : WatchEvent :=
  ⟨ctx.subscription_id, .Enter, ctx.after,
    some ⟨snapshot.node_id, snapshot.entity_type, core_to_proto_properties properties,
      Nat.repr snapshot.data.locality.toNat, snapshot.data.created_at, snapshot.data.updated_at⟩,
    none, "initial_snapshot"⟩

/-- The properties that a target asks for. -/
def retain_properties (target : PointNodeTarget) (properties : Properties) : Properties :=
  if target.properties.isEmpty then properties
  else ⟨properties.rows.filter fun row => target.properties.contains row.1, properties.sorted.filter _⟩

/-- The events for the targets of a point watch, and the error that ended them, if any. -/
def snapshot_points : List PointNodeTarget → Nat → List WatchEvent × Option Status
  | [], _ => ([], none)
  | target :: rest, emitted =>
    if emitted ≥ max ctx.initial_snapshot_limit 1 then ([], none)
    else
      match fetch_node_snapshot rows ctx target.entity_type target.node_id with
      | .error e => ([], some e)
      | .ok none => snapshot_points rest emitted
      | .ok (some snapshot) =>
        let (events, error) := snapshot_points rest (emitted + 1)
        (snapshot_event ctx snapshot (retain_properties target snapshot.data.properties) :: events, error)

/-- The wanted nodes of the types, until none remains to be sent. -/
def scan_types (wanted : SnapshotNode → Bool) : List String → Nat → List SnapshotNode
  | [], _ => []
  | entity_type :: rest, remaining =>
    if remaining = 0 then []
    else
      let found := (scan_entity_snapshots rows ctx entity_type remaining).filter wanted
      found ++ scan_types wanted rest (remaining - found.length)

def snapshot_types (registry : Registry) (query_filter : QueryFilter) : List String :=
  if query_filter.entity_type ≠ "" then [query_filter.entity_type]
  else
    match query_filter.pql_predicate.bind PqlPredicate.root_entity_type with
    | some root => [root]
    | none => registry.list_schemas

def snapshot_matches (registry : Registry) (query_filter : QueryFilter) (snapshot : SnapshotNode) : Bool :=
  query_matches_node registry query_filter snapshot.entity_type snapshot.data.properties

/-- The events of the initial snapshot in the order they are sent, and the error
that ended them, if any. The events of a query are about the nodes that are
tracked from then on. -/
def emit_initial_snapshot (registry : Registry) (filter : WatchFilter) : List WatchEvent × Option Status :=
  match filter with
  | .Point nodes _ => snapshot_points rows ctx nodes 0
  | .Query query_filter =>
    ((scan_types rows ctx (snapshot_matches registry query_filter) (snapshot_types registry query_filter)
      (max ctx.initial_snapshot_limit 1)).map fun snapshot => snapshot_event ctx snapshot snapshot.data.properties, none)
  | .Namespace =>
    ((scan_types rows ctx (fun _ => true) registry.list_schemas
      (max ctx.initial_snapshot_limit 1)).map fun snapshot => snapshot_event ctx snapshot snapshot.data.properties, none)

/-- The node that a query tracks once it has sent an event about it. -/
def track_snapshot (filter : WatchFilter) (event : WatchEvent) (matched_nodes : Finset String) : Finset String :=
  match filter, event.node with
  | .Query _, some node => insert (node_key node.entity_type node.id) matched_nodes
  | _, _ => matched_nodes

end pelago_api.watch_service
