import Pelago.Storage.Documents

open kv pelago_core pelago_storage

-- The messages of the wire format that describe schemas. Enumerations are numbers.
namespace pelago_proto

inductive Kind where
  | StringValue (s : String)
  | IntValue (i : Int64)
  | FloatValue (f : F64)
  | BoolValue (b : Bool)
  | TimestampValue (t : Int64)
  | BytesValue (b : Bytes)
  | NullValue (b : Bool)
  deriving DecidableEq

structure Value where
  kind : Option Kind
  deriving DecidableEq

structure PropertyDef where
  type : Int32
  required : Bool
  index : Option Int32
  default_value : Option Value
  deriving DecidableEq

inductive TargetKind where
  | SpecificType (name : String)
  | Polymorphic (any : Bool)
  deriving DecidableEq

structure EdgeTarget where
  kind : Option TargetKind
  deriving DecidableEq

structure EdgeDef where
  target : Option EdgeTarget
  direction : Int32
  properties : OrdMap String PropertyDef
  sort_key : String
  ownership : Int32
  deriving DecidableEq

structure SchemaMeta where
  allow_undeclared_edges : Bool
  extras_policy : Int32
  deriving DecidableEq

structure EntitySchema where
  name : String
  version : UInt32
  properties : OrdMap String PropertyDef
  edges : OrdMap String EdgeDef
  schema_meta : Option SchemaMeta
  created_at : Int
  created_by : String
  deriving DecidableEq

inductive IndexDefaultMode where
  | Unspecified
  | AutoByTypeV1
  deriving DecidableEq

end pelago_proto

namespace pelago_api.schema_service

/-- The numbers of an enumeration. Others, that of the unspecified value included, are not
read. -/
structure WireEnum (α : Type) where
  number : α → Int32
  try_from : Int32 → Option α
  try_from_number : ∀ x, try_from (number x) = some x

attribute [simp] WireEnum.try_from_number

def property_type : WireEnum PropertyType where
  number
    | .string => 1
    | .int => 2
    | .float => 3
    | .bool => 4
    | .timestamp => 5
    | .bytes => 6
  try_from n :=
    if n = 1 then some .string
    else if n = 2 then some .int
    else if n = 3 then some .float
    else if n = 4 then some .bool
    else if n = 5 then some .timestamp
    else if n = 6 then some .bytes
    else none
  try_from_number x := by cases x <;> rfl

def index_type : WireEnum IndexType where
  number
    | .none => 0
    | .unique => 1
    | .equality => 2
    | .range => 3
  try_from n :=
    if n = 0 then some .none
    else if n = 1 then some .unique
    else if n = 2 then some .equality
    else if n = 3 then some .range
    else none
  try_from_number x := by cases x <;> rfl

def edge_direction : WireEnum EdgeDirection where
  number
    | .Outgoing => 1
    | .Bidirectional => 2
  try_from n :=
    if n = 1 then some .Outgoing
    else if n = 2 then some .Bidirectional
    else none
  try_from_number x := by cases x <;> rfl

def ownership_mode : WireEnum OwnershipMode where
  number
    | .SourceSite => 1
    | .Independent => 2
  try_from n :=
    if n = 1 then some .SourceSite
    else if n = 2 then some .Independent
    else none
  try_from_number x := by cases x <;> rfl

def extras_policy : WireEnum ExtrasPolicy where
  number
    | .reject => 1
    | .allow => 2
    | .warn => 3
  try_from n :=
    if n = 1 then some .reject
    else if n = 2 then some .allow
    else if n = 3 then some .warn
    else none
  try_from_number x := by cases x <;> rfl

/-- The one status that the conversions return, with its message. -/
inductive Status where
  | invalid_argument (message : String)
  deriving DecidableEq

def Status.message : Status → String
  | .invalid_argument message => message

/-- The first error of a conversion, when the number is not read. -/
def WireEnum.read {α : Type} (e : WireEnum α) (n : Int32) (message : String) : Except Status α :=
  match e.try_from n with
  | some x => .ok x
  | none => .error (.invalid_argument message)

@[simp] theorem WireEnum.read_number {α : Type} (e : WireEnum α) (x : α) (message : String) :
    e.read (e.number x) message = .ok x := by
  simp [read]

def proto_to_core_value (proto : pelago_proto.Value) : Option Value :=
  proto.kind.map fun
    | .StringValue s => .string s
    | .IntValue i => .int i
    | .FloatValue f => .float f
    | .BoolValue b => .bool b
    | .TimestampValue t => .timestamp t
    | .BytesValue b => .bytes b
    | .NullValue _ => .null

def core_to_proto_value (core : Value) : pelago_proto.Value :=
  ⟨some (match core with
    | .string s => .StringValue s
    | .int i => .IntValue i
    | .float f => .FloatValue f
    | .bool b => .BoolValue b
    | .timestamp t => .TimestampValue t
    | .bytes b => .BytesValue b
    | .null => .NullValue true)⟩

def infer_index_type (prop_type : PropertyType) (index_default_mode : pelago_proto.IndexDefaultMode) :
    Except Status IndexType :=
  match index_default_mode with
  | .AutoByTypeV1 => .ok (match prop_type with
    | .int | .float | .timestamp => .range
    | .bool => .equality
    | .string | .bytes => .none)
  | _ => .error (.invalid_argument "index_default_mode must be INDEX_DEFAULT_MODE_AUTO_BY_TYPE_V1")

variable (index_default_mode : pelago_proto.IndexDefaultMode)

def proto_to_core_property_def (proto : pelago_proto.PropertyDef) : Except Status PropertyDef := do
  let prop_type ← property_type.read proto.type "invalid property type"
  let index ← match proto.index with
    | some raw_index => index_type.read raw_index "invalid index type"
    | none => infer_index_type prop_type index_default_mode
  pure ⟨prop_type, proto.required, index, proto.default_value.bind proto_to_core_value⟩

def core_to_proto_property_def (core : PropertyDef) : pelago_proto.PropertyDef :=
  ⟨property_type.number core.property_type, core.required, some (index_type.number core.index),
    core.default_value.map core_to_proto_value⟩

def proto_to_core_edge_target (proto : pelago_proto.EdgeTarget) : Except Status EdgeTarget :=
  match proto.kind with
  | some (.SpecificType name) => .ok (.Specific name)
  | some (.Polymorphic _) => .ok .Polymorphic
  | none => .error (.invalid_argument "edge target kind is required")

def core_to_proto_edge_target : EdgeTarget → pelago_proto.EdgeTarget
  | .Specific name => ⟨some (.SpecificType name)⟩
  | .Polymorphic => ⟨some (.Polymorphic true)⟩

def required_target (proto : pelago_proto.EdgeDef) : Except Status EdgeTarget :=
  match proto.target with
  | some target_proto => proto_to_core_edge_target target_proto
  | none => .error (.invalid_argument "edge target is required")

/-- An empty sort key stands for none. -/
def proto_to_core_edge_def (proto : pelago_proto.EdgeDef) : Except Status EdgeDefDocument := do
  let target ← required_target proto
  let properties ← proto.properties.traverse (proto_to_core_property_def index_default_mode)
  pure
    { target
      direction := (edge_direction.try_from proto.direction).getD .Outgoing
      sort_key := if proto.sort_key = "" then none else some proto.sort_key
      ownership := (ownership_mode.try_from proto.ownership).getD .SourceSite
      properties }

def core_to_proto_edge_def (core : EdgeDefDocument) : pelago_proto.EdgeDef where
  target := some (core_to_proto_edge_target core.target)
  direction := edge_direction.number core.direction
  properties := core.properties.mapVal core_to_proto_property_def
  sort_key := core.sort_key.getD ""
  ownership := ownership_mode.number core.ownership

def proto_to_core_schema_meta (proto : pelago_proto.SchemaMeta) : SchemaMeta :=
  ⟨proto.allow_undeclared_edges, (extras_policy.try_from proto.extras_policy).getD .reject⟩

def core_to_proto_schema_meta (core : SchemaMeta) : pelago_proto.SchemaMeta :=
  ⟨core.allow_undeclared_edges, extras_policy.number core.extras_policy⟩

/-- The version is not taken over: the registry assigns it. The maps are converted in the
order of their keys; in the source the order decides only which error is reported. -/
def proto_to_core_schema (proto : pelago_proto.EntitySchema) : Except Status SchemaDocument := do
  let properties ← proto.properties.traverse (proto_to_core_property_def index_default_mode)
  let edges ← proto.edges.traverse (proto_to_core_edge_def index_default_mode)
  pure
    { name := proto.name
      version := 1
      properties
      edges
      schema_meta := (proto.schema_meta.map proto_to_core_schema_meta).getD {}
      created_at := proto.created_at
      created_by := proto.created_by }

def core_to_proto_schema (core : SchemaDocument) : pelago_proto.EntitySchema where
  name := core.name
  version := core.version
  properties := core.properties.mapVal core_to_proto_property_def
  edges := core.edges.mapVal core_to_proto_edge_def
  schema_meta := some (core_to_proto_schema_meta core.schema_meta)
  created_at := core.created_at
  created_by := core.created_by

section RoundTrip

variable {index_default_mode}

@[simp] theorem proto_to_core_value_of_core (v : Value) : proto_to_core_value (core_to_proto_value v) = some v := by
  cases v <;> rfl

/-- The index kind is always sent, so nothing is inferred. -/
theorem proto_to_core_property_def_of_core (core : PropertyDef) :
    proto_to_core_property_def index_default_mode (core_to_proto_property_def core) = .ok core := by
  obtain ⟨prop_type, _, _, default_value⟩ := core
  cases default_value <;>
    simp [proto_to_core_property_def, core_to_proto_property_def, bind, Except.bind, pure, Except.pure]

theorem proto_to_core_edge_target_of_core (core : EdgeTarget) :
    proto_to_core_edge_target (core_to_proto_edge_target core) = .ok core := by
  cases core <;> rfl

theorem proto_to_core_edge_def_of_core {core : EdgeDefDocument} (hsort : core.sort_key ≠ some "") :
    proto_to_core_edge_def index_default_mode (core_to_proto_edge_def core) = .ok core := by
  obtain ⟨⟨target, _, sort_key, ownership⟩, properties⟩ := core
  have hproperties : (properties.mapVal core_to_proto_property_def).traverse
      (proto_to_core_property_def index_default_mode) = .ok properties :=
    OrdMap.traverse_mapVal fun _ v _ => proto_to_core_property_def_of_core v
  have hkey : ∀ key, sort_key = some key → key ≠ "" := fun _ h hempty => hsort (h.trans (congrArg _ hempty))
  cases sort_key with
  | none =>
    simp [proto_to_core_edge_def, required_target, core_to_proto_edge_def, proto_to_core_edge_target_of_core,
      hproperties, bind, Except.bind, pure, Except.pure]
  | some key =>
    simp [proto_to_core_edge_def, required_target, core_to_proto_edge_def, proto_to_core_edge_target_of_core,
      hproperties, hkey _ _, bind, Except.bind, pure, Except.pure]

theorem proto_to_core_schema_meta_of_core (core : SchemaMeta) :
    proto_to_core_schema_meta (core_to_proto_schema_meta core) = core := by
  simp [proto_to_core_schema_meta, core_to_proto_schema_meta]

/-- No edge has an empty sort key. -/
def SortKeysSet (core : SchemaDocument) : Prop :=
  ∀ name edge_def, core.edges.get name = some edge_def → edge_def.sort_key ≠ some ""

/-- A schema comes back from the wire but for its version. -/
theorem proto_to_core_schema_of_core {core : SchemaDocument} (hsort : SortKeysSet core) :
    proto_to_core_schema index_default_mode (core_to_proto_schema core) = .ok { core with version := 1 } := by
  have hproperties : (core.properties.mapVal core_to_proto_property_def).traverse
      (proto_to_core_property_def index_default_mode) = .ok core.properties :=
    OrdMap.traverse_mapVal fun _ v _ => proto_to_core_property_def_of_core v
  have hedges : (core.edges.mapVal core_to_proto_edge_def).traverse
      (proto_to_core_edge_def index_default_mode) = .ok core.edges :=
    OrdMap.traverse_mapVal fun name _ h => proto_to_core_edge_def_of_core (hsort _ _ h)
  simp [proto_to_core_schema, core_to_proto_schema, hproperties, hedges, proto_to_core_schema_meta_of_core,
    bind, Except.bind, pure, Except.pure]

private theorem sort_key_of_accepted {proto : pelago_proto.EdgeDef} {core : EdgeDefDocument}
    (h : proto_to_core_edge_def index_default_mode proto = .ok core) : core.sort_key ≠ some "" := by
  unfold proto_to_core_edge_def at h
  generalize required_target proto = target at h
  cases target with
  | error => cases h
  | ok =>
    cases hproperties : proto.properties.traverse (proto_to_core_property_def index_default_mode) with
    | error =>
      rw [hproperties] at h
      cases h
    | ok =>
      rw [hproperties] at h
      obtain rfl := Except.ok.inj h
      split
      · simp
      · simpa using ‹¬ _›

/-- What is accepted from the wire has no empty sort key. -/
theorem sortKeysSet_of_accepted {proto : pelago_proto.EntitySchema} {core : SchemaDocument}
    (h : proto_to_core_schema index_default_mode proto = .ok core) : SortKeysSet core := by
  intro _ _ hget
  unfold proto_to_core_schema at h
  simp only [bind, Except.bind, pure, pure] at h
  split at h
  · cases h
  split at h
  · cases h
  rename_i edges hedges
  obtain rfl := Except.ok.inj h
  obtain ⟨edge_proto, _, hedge⟩ := OrdMap.get_of_traverse hedges hget
  exact sort_key_of_accepted hedge

end RoundTrip

end pelago_api.schema_service
