import Pelago.Core.Serde
import Pelago.Storage.Records

open kv pelago_core serde

namespace pelago_storage

open Option Codec
open Codec (readField readOption read_write writeOption)

section Values

/-- The readers of the variants of `Value`, in their order. Integers beyond 64
bits, which are never written, are left out. -/
def readString : Data → Option Value
  | .text s => some (.string s)
  | _ => none

/-- A 64-bit integer. -/
def readI64 (d : Data) : Option Int64 :=
  match d with
  | .int n => if -2 ^ 63 ≤ n ∧ n < 2 ^ 63 then some (Int64.ofInt n) else none
  | _ => none

def readFloat : Data → Option Value
  | .float bits => some (.float ⟨bits⟩)
  | _ => none

def readBool : Data → Option Value
  | .bool b => some (.bool b)
  | _ => none

/-- A byte string is a sequence of integers. -/
def readBytes : Data → Option Value
  | .seq items => (items.mapM Codec.u8.read).map .bytes
  | _ => none

def readNull : Data → Option Value
  | .null => some .null
  | _ => none

/-- `Value` is an untagged enum. -/
def readValue : Data → Option Value :=
  untagged [readString, fun d => (readI64 d).map .int, readFloat, readBool, fun d => (readI64 d).map .timestamp,
    readBytes, readNull]

def writeValue : Value → Data
  | .string s => .text s
  | .int n => .int n.toInt
  | .float f => .float f.bits
  | .bool b => .bool b
  | .timestamp t => .int t.toInt
  | .bytes b => .seq (b.map Codec.u8.write)
  | .null => .null

theorem readI64_write (n : Int64) : readI64 (.int n.toInt) = some n := by
  have hrange : -2 ^ 63 ≤ n.toInt ∧ n.toInt < 2 ^ 63 := ⟨n.le_toInt, n.toInt_lt⟩
  simp only [readI64]
  rw [if_pos hrange, Int64.ofInt_toInt]

/-- Of the variants, a timestamp is written like an integer, which comes first. -/
theorem readValue_write (v : Value) : readValue (writeValue v) = some (storedValue v) := by
  cases v with
  | int | timestamp =>
    simp [readValue, untagged, writeValue, List.findSome?_cons, readString, readI64_write, storedValue]
  | bytes b =>
    have hbytes := u8.mapM_read_write b
    simp only [readValue, untagged, writeValue, List.findSome?_cons, readString, readI64, readFloat, readBool,
      readBytes, hbytes, map_none, map_some]
    simp [u8, storedValue]
  | string | float | bool | null => rfl

def value : Codec Value := ⟨writeValue, readValue, storedValue, readValue_write⟩

def propertyMap : Codec Properties := value.map

end Values

section Schemas

def propertyType : Codec PropertyType :=
  .variants PropertyType.as_str (fun s =>
    if s = "string" then some .string
    else if s = "int" then some .int
    else if s = "float" then some .float
    else if s = "bool" then some .bool
    else if s = "timestamp" then some .timestamp
    else if s = "bytes" then some .bytes
    else none) fun x => by cases x <;> rfl

def indexType : Codec IndexType :=
  .variants (fun
    | .none => "none"
    | .unique => "unique"
    | .equality => "equality"
    | .range => "range") (fun s =>
    if s = "none" then some .none
    else if s = "unique" then some .unique
    else if s = "equality" then some .equality
    else if s = "range" then some .range
    else Option.none) fun x => by cases x <;> rfl

def edgeDirection : Codec EdgeDirection :=
  .variants (fun
    | .Outgoing => "outgoing"
    | .Bidirectional => "bidirectional") (fun s =>
    if s = "outgoing" then some .Outgoing
    else if s = "bidirectional" then some .Bidirectional
    else none) fun x => by cases x <;> rfl

def ownershipMode : Codec OwnershipMode :=
  .variants (fun
    | .SourceSite => "source_site"
    | .Independent => "independent") (fun s =>
    if s = "source_site" then some .SourceSite
    else if s = "independent" then some .Independent
    else none) fun x => by cases x <;> rfl

def extrasPolicy : Codec ExtrasPolicy :=
  .variants (fun
    | .reject => "reject"
    | .allow => "allow"
    | .warn => "warn") (fun s =>
    if s = "reject" then some .reject
    else if s = "allow" then some .allow
    else if s = "warn" then some .warn
    else none) fun x => by cases x <;> rfl

/-- `EdgeTarget` is untagged, too: a name, or null for any type. -/
def edgeTarget : Codec EdgeTarget where
  write
    | .Specific entity_type => .text entity_type
    | .Polymorphic => .null
  read := untagged [
    fun
      | .text entity_type => some (.Specific entity_type)
      | _ => none,
    fun
      | .null => some .Polymorphic
      | _ => none]
  stored x := x
  read_write x := by cases x <;> rfl

@[simp] theorem propertyType_stored (x : PropertyType) : propertyType.stored x = x := rfl
@[simp] theorem indexType_stored (x : IndexType) : indexType.stored x = x := rfl
@[simp] theorem edgeDirection_stored (x : EdgeDirection) : edgeDirection.stored x = x := rfl
@[simp] theorem ownershipMode_stored (x : OwnershipMode) : ownershipMode.stored x = x := rfl
@[simp] theorem extrasPolicy_stored (x : ExtrasPolicy) : extrasPolicy.stored x = x := rfl
@[simp] theorem edgeTarget_stored (x : EdgeTarget) : edgeTarget.stored x = x := rfl

/-- A default that is null is read as no default. -/
def PropertyDef.stored (d : PropertyDef) : PropertyDef :=
  { d with default_value := value.option.stored d.default_value }

def propertyDef : Codec PropertyDef where
  write d := .map ([("property_type", propertyType.write d.property_type), ("required", Codec.bool.write d.required),
    ("index", indexType.write d.index)] ++ value.writeOption "default_value" d.default_value)
  read d := do
    let property_type ← propertyType.readField "property_type" d
    let required ← Codec.bool.readField "required" d
    let index ← indexType.readField "index" d
    let default_value ← value.readOption "default_value" d
    pure ⟨property_type, required, index, default_value⟩
  stored := PropertyDef.stored
  read_write d := by
    obtain ⟨property_type, required, index, default_value⟩ := d
    cases default_value with
    | none => simp [readField, readOption, writeOption, read_write,
        PropertyDef.stored, Codec.option]
    | some v => simp [readField, readOption, writeOption, read_write,
        PropertyDef.stored, Codec.option_read_write_some]

/-- An edge definition with its properties. -/
structure EdgeDefDocument extends EdgeDef where
  properties : OrdMap String PropertyDef

def EdgeDefDocument.stored (d : EdgeDefDocument) : EdgeDefDocument :=
  { d with properties := d.properties.mapVal PropertyDef.stored }

def edgeDef : Codec EdgeDefDocument where
  write d := .map ([("target", edgeTarget.write d.target), ("direction", edgeDirection.write d.direction),
    ("properties", propertyDef.map.write d.properties)] ++ Codec.text.writeOption "sort_key" d.sort_key ++
    [("ownership", ownershipMode.write d.ownership)])
  read d := do
    let target ← edgeTarget.readField "target" d
    let direction ← edgeDirection.readField "direction" d
    let properties ← propertyDef.map.readField "properties" d
    let sort_key ← Codec.text.readOption "sort_key" d
    let ownership ← ownershipMode.readField "ownership" d
    pure ⟨⟨target, direction, sort_key, ownership⟩, properties⟩
  stored := EdgeDefDocument.stored
  read_write d := by
    obtain ⟨⟨target, direction, sort_key, ownership⟩, properties⟩ := d
    have hproperties : propertyDef.map.stored properties = properties.mapVal PropertyDef.stored := rfl
    cases sort_key with
    | none => simp [readField, readOption, writeOption, read_write,
        EdgeDefDocument.stored, hproperties]
    | some sort_key => simp [readField, readOption, writeOption, read_write,
        EdgeDefDocument.stored, hproperties, Codec.option_read_write_some, Codec.option_stored_text]

def schemaMeta : Codec SchemaMeta where
  write d := .map [("allow_undeclared_edges", Codec.bool.write d.allow_undeclared_edges),
    ("extras_policy", extrasPolicy.write d.extras_policy)]
  read d := do
    let allow_undeclared_edges ← Codec.bool.readDefault "allow_undeclared_edges" false d
    let extras_policy ← extrasPolicy.readDefault "extras_policy" .allow d
    pure ⟨allow_undeclared_edges, extras_policy⟩
  stored d := d
  read_write d := by simp [Codec.readDefault, read_write]

@[simp] theorem schemaMeta_stored (x : SchemaMeta) : schemaMeta.stored x = x := rfl

/-- An entity schema with all its parts. -/
structure SchemaDocument where
  name : String
  version : UInt32
  properties : OrdMap String PropertyDef
  edges : OrdMap String EdgeDefDocument
  schema_meta : SchemaMeta
  created_at : Int
  created_by : String

def SchemaDocument.stored (d : SchemaDocument) : SchemaDocument :=
  { d with
    properties := d.properties.mapVal PropertyDef.stored
    edges := d.edges.mapVal EdgeDefDocument.stored }

def writeSchema (d : SchemaDocument) : Data :=
  .map [("name", Codec.text.write d.name), ("version", Codec.u32.write d.version),
    ("properties", propertyDef.map.write d.properties), ("edges", edgeDef.map.write d.edges),
    ("meta", schemaMeta.write d.schema_meta), ("created_at", Codec.int.write d.created_at),
    ("created_by", Codec.text.write d.created_by)]

def readSchema (d : Data) : Option SchemaDocument := do
  let name ← Codec.text.readField "name" d
  let version ← Codec.u32.readField "version" d
  let properties ← propertyDef.map.readField "properties" d
  let edges ← edgeDef.map.readField "edges" d
  let schema_meta ← schemaMeta.readField "meta" d
  let created_at ← Codec.int.readField "created_at" d
  let created_by ← Codec.text.readField "created_by" d
  pure ⟨name, version, properties, edges, schema_meta, created_at, created_by⟩

theorem readSchema_write (d : SchemaDocument) : readSchema (writeSchema d) = some d.stored := by
  have hname : text.readField "name" (writeSchema d) = some d.name := by
    simp [writeSchema, readField, read_write]
  have hversion : u32.readField "version" (writeSchema d) = some d.version := by
    rw [writeSchema, readField, Data.field_cons, if_neg (by simp), Data.field_cons, if_pos rfl, bind_some,
      read_write]
    rfl
  have hproperties : propertyDef.map.readField "properties" (writeSchema d) =
      some (d.properties.mapVal PropertyDef.stored) := by
    exact propertyDef.map.read_write _
  have hedges : edgeDef.map.readField "edges" (writeSchema d) = some (d.edges.mapVal .stored) := by
    exact edgeDef.map.read_write _
  have hmeta : schemaMeta.readField "meta" (writeSchema d) = some d.schema_meta := by
    simp [writeSchema, readField, read_write]
  have hat : int.readField "created_at" (writeSchema d) = some d.created_at := by
    simp [writeSchema, readField, read_write]
  have hby : text.readField "created_by" (writeSchema d) = some d.created_by := by
    simp [writeSchema, readField, read_write]
  simp only [readSchema, hname, hversion, hproperties, hedges, hmeta, hat, hby]
  rfl

def entitySchema : Codec SchemaDocument := ⟨writeSchema, readSchema, SchemaDocument.stored, readSchema_write⟩

end Schemas

section Records

def nodeRef : Codec NodeRef where
  write d := .map [("database", Codec.text.write d.database), ("namespace", Codec.text.write d.ns),
    ("entity_type", Codec.text.write d.entity_type), ("node_id", Codec.text.write d.node_id)]
  read d := do
    let database ← Codec.text.readField "database" d
    let ns ← Codec.text.readField "namespace" d
    let entity_type ← Codec.text.readField "entity_type" d
    let node_id ← Codec.text.readField "node_id" d
    pure ⟨database, ns, entity_type, node_id⟩
  stored d := d
  read_write d := by simp [readField, read_write]

theorem propertyMap_stored (properties : Properties) : propertyMap.stored properties = storedProperties properties :=
  rfl

theorem nodeRef_option_stored (node : Option NodeRef) : nodeRef.option.stored node = node := by
  cases node <;> rfl

theorem text_option_stored (s : Option String) : text.option.stored s = s := by
  cases s <;> rfl

def nodeData : Codec NodeData where
  write d := .map [("properties", propertyMap.write d.properties), ("locality", Codec.u8.write d.locality),
    ("created_at", Codec.int.write d.created_at), ("updated_at", Codec.int.write d.updated_at)]
  read d := do
    let properties ← propertyMap.readField "properties" d
    let locality ← Codec.u8.readField "locality" d
    let created_at ← Codec.int.readField "created_at" d
    let updated_at ← Codec.int.readField "updated_at" d
    pure ⟨properties, locality, created_at, updated_at⟩
  stored := NodeData.stored
  read_write d := by simp [readField, read_write, propertyMap_stored, NodeData.stored]

/-- Records of older versions lack the last three fields. -/
def edgeData : Codec EdgeData where
  write d := .map [("edge_id", Codec.text.write d.edge_id), ("properties", propertyMap.write d.properties),
    ("created_at", Codec.int.write d.created_at), ("source", nodeRef.option.write d.source),
    ("target", nodeRef.option.write d.target), ("label", Codec.text.option.write d.label)]
  read d := do
    let edge_id ← Codec.text.readField "edge_id" d
    let properties ← propertyMap.readField "properties" d
    let created_at ← Codec.int.readField "created_at" d
    let source ← nodeRef.option.readDefault "source" none d
    let target ← nodeRef.option.readDefault "target" none d
    let label ← Codec.text.option.readDefault "label" none d
    pure ⟨edge_id, properties, created_at, source, target, label⟩
  stored := EdgeData.stored
  read_write d := by
    simp [readField, Codec.readDefault, read_write, propertyMap_stored, nodeRef_option_stored,
      text_option_stored, EdgeData.stored]

/-- An operation of a log entry: one on nodes and edges, or a schema. -/
inductive OperationDocument where
  | data (op : CdcOperation)
  | SchemaRegister (entity_type : String) (version : UInt32) (schema : SchemaDocument)

def OperationDocument.stored : OperationDocument → OperationDocument
  | .data op => .data op.stored
  | .SchemaRegister entity_type version schema => .SchemaRegister entity_type version schema.stored

/-- What stands for the schema in entries of older versions. -/
def legacy_missing_schema_payload : SchemaDocument := ⟨"", 0, .empty, .empty, {}, 0, ""⟩

/-- A variant with its fields, under its name. -/
def writeOperation : OperationDocument → Data
  | .data (.NodeCreate entity_type node_id properties home_site) => .map [("NodeCreate", .map
      [("entity_type", .text entity_type), ("node_id", .text node_id), ("properties", propertyMap.write properties),
        ("home_site", .text home_site)])]
  | .data (.NodeUpdate entity_type node_id changed_properties old_properties) => .map [("NodeUpdate", .map
      [("entity_type", .text entity_type), ("node_id", .text node_id),
        ("changed_properties", propertyMap.write changed_properties),
        ("old_properties", propertyMap.write old_properties)])]
  | .data (.NodeDelete entity_type node_id) => .map [("NodeDelete", .map
      [("entity_type", .text entity_type), ("node_id", .text node_id)])]
  | .data (.EdgeCreate source_type source_id target_type target_id edge_type edge_id properties) =>
    .map [("EdgeCreate", .map
      [("source_type", .text source_type), ("source_id", .text source_id), ("target_type", .text target_type),
        ("target_id", .text target_id), ("edge_type", .text edge_type), ("edge_id", .text edge_id),
        ("properties", propertyMap.write properties)])]
  | .data (.EdgeDelete source_type source_id target_type target_id edge_type) => .map [("EdgeDelete", .map
      [("source_type", .text source_type), ("source_id", .text source_id), ("target_type", .text target_type),
        ("target_id", .text target_id), ("edge_type", .text edge_type)])]
  | .data (.OwnershipTransfer entity_type node_id previous_site_id current_site_id) => .map [("OwnershipTransfer", .map
      [("entity_type", .text entity_type), ("node_id", .text node_id), ("previous_site_id", .text previous_site_id),
        ("current_site_id", .text current_site_id)])]
  | .SchemaRegister entity_type version schema => .map [("SchemaRegister", .map
      [("entity_type", .text entity_type), ("version", Codec.u32.write version),
        ("schema", entitySchema.write schema)])]

def readOperation : Data → Option OperationDocument
  | .map [(tag, d)] =>
    if tag = "NodeCreate" then do
      let entity_type ← Codec.text.readField "entity_type" d
      let node_id ← Codec.text.readField "node_id" d
      let properties ← propertyMap.readField "properties" d
      let home_site ← Codec.text.readField "home_site" d
      pure (.data (.NodeCreate entity_type node_id properties home_site))
    else if tag = "NodeUpdate" then do
      let entity_type ← Codec.text.readField "entity_type" d
      let node_id ← Codec.text.readField "node_id" d
      let changed_properties ← propertyMap.readField "changed_properties" d
      let old_properties ← propertyMap.readField "old_properties" d
      pure (.data (.NodeUpdate entity_type node_id changed_properties old_properties))
    else if tag = "NodeDelete" then do
      let entity_type ← Codec.text.readField "entity_type" d
      let node_id ← Codec.text.readField "node_id" d
      pure (.data (.NodeDelete entity_type node_id))
    else if tag = "EdgeCreate" then do
      let source_type ← Codec.text.readField "source_type" d
      let source_id ← Codec.text.readField "source_id" d
      let target_type ← Codec.text.readField "target_type" d
      let target_id ← Codec.text.readField "target_id" d
      let edge_type ← Codec.text.readField "edge_type" d
      let edge_id ← Codec.text.readField "edge_id" d
      let properties ← propertyMap.readField "properties" d
      pure (.data (.EdgeCreate source_type source_id target_type target_id edge_type edge_id properties))
    else if tag = "EdgeDelete" then do
      let source_type ← Codec.text.readField "source_type" d
      let source_id ← Codec.text.readField "source_id" d
      let target_type ← Codec.text.readField "target_type" d
      let target_id ← Codec.text.readField "target_id" d
      let edge_type ← Codec.text.readField "edge_type" d
      pure (.data (.EdgeDelete source_type source_id target_type target_id edge_type))
    else if tag = "OwnershipTransfer" then do
      let entity_type ← Codec.text.readField "entity_type" d
      let node_id ← Codec.text.readField "node_id" d
      let previous_site_id ← Codec.text.readField "previous_site_id" d
      let current_site_id ← Codec.text.readField "current_site_id" d
      pure (.data (.OwnershipTransfer entity_type node_id previous_site_id current_site_id))
    else if tag = "SchemaRegister" then do
      let entity_type ← Codec.text.readField "entity_type" d
      let version ← Codec.u32.readField "version" d
      let schema ← entitySchema.readDefault "schema" legacy_missing_schema_payload d
      pure (.SchemaRegister entity_type version schema)
    else none
  | _ => none

theorem readOperation_write (op : OperationDocument) : readOperation (writeOperation op) = some op.stored := by
  cases op with
  | data op =>
    cases op <;>
      simp [readOperation, writeOperation, readField, read_write, propertyMap_stored,
        OperationDocument.stored, CdcOperation.stored]
  | SchemaRegister entity_type version schema =>
    have hversion : u32.readField "version" (.map [("entity_type", .text entity_type),
        ("version", u32.write version), ("schema", entitySchema.write schema)]) = some version := by
      rw [readField, Data.field_cons, if_neg (by simp), Data.field_cons, if_pos rfl, bind_some, read_write]
      rfl
    have hschema : entitySchema.readDefault "schema" legacy_missing_schema_payload (.map
        [("entity_type", .text entity_type), ("version", u32.write version),
          ("schema", entitySchema.write schema)]) = some schema.stored := by
      exact entitySchema.read_write _
    have htype : text.readField "entity_type" (.map [("entity_type", .text entity_type),
        ("version", u32.write version), ("schema", entitySchema.write schema)]) = some entity_type := by
      simp [readField]
    simp only [readOperation, writeOperation, String.reduceEq, if_false, if_true, htype, hversion, hschema]
    rfl

def operation : Codec OperationDocument :=
  ⟨writeOperation, readOperation, OperationDocument.stored, readOperation_write⟩

/-- A log entry with all its parts. -/
structure EntryDocument where
  site : String
  timestamp : Int
  batch_id : Option String
  operations : List OperationDocument

def EntryDocument.stored (d : EntryDocument) : EntryDocument :=
  { d with operations := d.operations.map OperationDocument.stored }

def entry : Codec EntryDocument where
  write d := .map ([("site", Codec.text.write d.site), ("timestamp", Codec.int.write d.timestamp)] ++
    Codec.text.writeOption "batch_id" d.batch_id ++ [("operations", operation.seq.write d.operations)])
  read d := do
    let site ← Codec.text.readField "site" d
    let timestamp ← Codec.int.readField "timestamp" d
    let batch_id ← Codec.text.readOption "batch_id" d
    let operations ← operation.seq.readField "operations" d
    pure ⟨site, timestamp, batch_id, operations⟩
  stored := EntryDocument.stored
  read_write d := by
    obtain ⟨site, timestamp, batch_id, operations⟩ := d
    have hoperations : operation.seq.stored operations = operations.map OperationDocument.stored := rfl
    cases batch_id with
    | none => simp [readField, readOption, writeOption, read_write, EntryDocument.stored,
        hoperations]
    | some batch_id => simp [readField, readOption, writeOption, read_write,
        EntryDocument.stored, hoperations, Codec.option_read_write_some, Codec.option_stored_text]

end Records

end pelago_storage
