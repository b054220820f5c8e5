import Pelago.Query.Traversal

open kv pelago_core
open pelago_query.traversal (Cel CelValue pelago_value_to_cel)

namespace pelago_query.cel

/-- A compiled expression, for nodes of a schema. -/
structure CelExpression (interpreter : Cel) where
  program : interpreter.Program
  expression : String
  schema : EntitySchema

variable (interpreter : Cel)

def compile (schema : EntitySchema) (expression : String) : Except PelagoError (CelExpression interpreter) :=
  match interpreter.compile expression with
  | some program => .ok ⟨program, expression, schema⟩
  | none => .error (.CelSyntax expression)

/-- Values that are not looked at are lumped together. -/
def cel_type_name : CelValue → String
  | .Bool _ => "bool"
  | .Int _ => "int"
  | .Float _ => "float"
  | .String _ => "string"
  | .Bytes _ => "bytes"
  | .Null => "null"
  | .Other => "unknown"

variable {interpreter}

/-- The properties, and null for those of the schema that are missing. -/
def CelExpression.context (self : CelExpression interpreter) (properties : Properties) : List (String × CelValue) :=
  properties.rows.map (fun (key, value) => (key, pelago_value_to_cel value)) ++
    ((self.schema.properties.rows.filter fun (prop_name, _) => !properties.contains prop_name).map
      fun (prop_name, _) => (prop_name, .Null))

/-- An evaluation that fails counts as false. -/
def CelExpression.evaluate (self : CelExpression interpreter) (properties : Properties) : Except PelagoError Bool :=
  match interpreter.execute self.program (self.context properties) with
  | some (.Bool b) => .ok b
  | some .Null => .ok false
  | some other => .error (.CelType "expression" ("Expected bool, got " ++ cel_type_name other))
  | none => .ok false

end pelago_query.cel
