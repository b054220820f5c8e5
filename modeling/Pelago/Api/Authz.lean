import Pelago.Storage.Security

open pelago_core pelago_storage pelago_storage.security

namespace pelago_api

/-- The statuses of failed calls. The message of an internal one is the context
followed by the error. -/
inductive Status where
  | invalid_argument (message : String)
  | unauthenticated (message : String)
  | permission_denied (message : String)
  | not_found (message : String)
  | out_of_range (message : String)
  | resource_exhausted (message : String)
  | cancelled (message : String)
  | internal (context : String) (error : PelagoError)
  deriving DecidableEq

structure AuthPrincipal where
  principal_id : String
  principal_type : String
  roles : List String
  deriving DecidableEq

structure RequestContext where
  database : String
  ns : String
  deriving DecidableEq

def require_field {α : Type} (value : Option α) (field : String) : Except Status α :=
  match value with
  | some a => .ok a
  | none => .error (.invalid_argument ("missing " ++ field))

namespace authz

def has_admin_role (roles : List String) : Bool := roles.any fun r => eq_ignore_ascii_case r "admin"

def has_read_only_role (roles : List String) : Bool := roles.any fun r => eq_ignore_ascii_case r "read-only"

/-- The parts of a scoped role after its name; missing ones are empty. -/
def scope_part (rest : List Char) (n : Nat) : String := String.ofList ((text.splitChar ':' rest)[n]?.getD [])

def has_namespace_admin_role (roles : List String) (database ns : String) : Bool :=
  roles.any fun role =>
    eq_ignore_ascii_case role "namespace-admin" ||
      (starts_with role "namespace-admin:" &&
        let rest := role.toList.drop "namespace-admin:".length
        scope_part rest 0 == database && scope_part rest 1 == ns)

def is_read_action (action : String) : Bool :=
  starts_with action "read." || starts_with action "query." || starts_with action "watch." ||
    action == "schema.read" || action == "node.read" || action == "edge.read" || action == "admin.read" ||
    action == "auth.policy.read" || action == "auth.policy.check" || action == "auth.token.read" ||
    action == "replication.pull"

/-- Without a principal everything is allowed. -/
def authorize (db : Rows) (principal : Option AuthPrincipal) (action database ns entity_type : String) :
    Except Status Unit :=
  match principal with
  | none => .ok ()
  | some principal => do
    let allowed ←
      if has_admin_role principal.roles then .ok true
      else if has_namespace_admin_role principal.roles database ns then .ok true
      else if has_read_only_role principal.roles then .ok (is_read_action action)
      else
        (check_permission db principal.principal_id action database ns entity_type).mapError
          (Status.internal "authorization check failed: ")
    if allowed then .ok ()
    else .error (.permission_denied
      ("principal '" ++ principal.principal_id ++ "' is not authorized for '" ++ action ++ "'"))

end authz

def authorize_with_context (db : Rows) (principal : Option AuthPrincipal) (action : String)
    (context : RequestContext) (entity_type : String) : Except Status Unit :=
  authz.authorize db principal action context.database context.ns entity_type

end pelago_api
