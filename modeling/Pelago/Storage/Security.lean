import Mathlib.Data.List.Sort
import Pelago.Storage.Records

open bytes kv pelago_core text

namespace pelago_storage.security

open List

structure PolicyPermission where
  database : String
  ns : String
  entity_type : String
  actions : List String
  path : String := ""
  deriving DecidableEq

structure AuthPolicy where
  policy_id : String
  principal_id : String
  permissions : List PolicyPermission
  created_at : Int
  deriving DecidableEq

/-- Times are seconds. -/
structure AuthTokenSession where
  access_token : String
  refresh_token : String
  principal_id : String
  principal_type : String
  roles : List String
  issued_at : Int
  expires_at : Int
  revoked_at : Option Int
  deriving DecidableEq

structure RefreshTokenBinding where
  access_token : String
  expires_at : Int
  deriving DecidableEq

/-- The documents that the rows of the system area decode to. -/
inductive Document where
  | policy (p : AuthPolicy)
  | session (s : AuthTokenSession)
  | binding (b : RefreshTokenBinding)
  deriving DecidableEq

/-- The rows of policies and tokens. -/
abbrev Rows := OrdMap Bytes Document

def undecodable : PelagoError := .Internal "CBOR deserialization failed"

def decode_policy : Document → Except PelagoError AuthPolicy
  | .policy p => .ok p
  | _ => .error undecodable

def decode_session : Document → Except PelagoError AuthTokenSession
  | .session s => .ok s
  | _ => .error undecodable

def decode_binding : Document → Except PelagoError RefreshTokenBinding
  | .binding b => .ok b
  | _ => .error undecodable

section Policies

def upsert_policy (db : Rows) (policy : AuthPolicy) : Rows := db.set (policy_key policy.policy_id) (.policy policy)

def get_policy (db : Rows) (policy_id : String) : Except PelagoError (Option AuthPolicy) :=
  match db.get (policy_key policy_id) with
  | some bytes => (decode_policy bytes).map some
  | none => .ok none

def delete_policy (db : Rows) (policy_id : String) : Bool × Rows :=
  if (db.get (policy_key policy_id)).isSome then (true, db.clear (policy_key policy_id)) else (false, db)

def POLICY_LIMIT : Nat := 10000

/-- The policies of a principal, or all. -/
def list_policies (db : Rows) (principal_filter : Option String) : Except PelagoError (List AuthPolicy) := do
  let rows := (db.range policy_subspace.pfx policy_subspace.range_end).take POLICY_LIMIT
  let out ← collect (fun row => do
    let policy ← decode_policy row.2
    pure (if (principal_filter.map (· == policy.principal_id)).getD true then some policy else none)) rows
  pure (out.insertionSort fun a b => a.policy_id ≤ b.policy_id)

end Policies

section Matching

def starts_with (s pfx : String) : Bool := pfx.toList.isPrefixOf s.toList

def eq_ignore_ascii_case (a b : String) : Bool := a.toList.map Char.toLower == b.toList.map Char.toLower

def field_match (rule value : String) : Bool := rule == "*" || rule == "+" || rule == "" || rule == value

def action_match (rule action : String) : Bool := rule == "*" || eq_ignore_ascii_case rule action

def action_subspace (action : String) : String :=
  if starts_with action "schema." then "_schema"
  else if starts_with action "edge." then "edge"
  else if starts_with action "auth.policy." then "_sys/policies"
  else if starts_with action "auth.token." then "_sys/tokens"
  else if starts_with action "replication." then "_replication"
  else "data"

def build_resource_path (action database ns entity_type : String) : String :=
  if entity_type = "" then database ++ "/" ++ ns ++ "/" ++ action_subspace action
  else database ++ "/" ++ ns ++ "/" ++ action_subspace action ++ "/" ++ entity_type

/-- The segments of a path; empty ones do not count. -/
def parts (path : String) : List String := (segments '/' path.toList).map String.ofList

/-- A `*` stands for one segment, a `+` for one or more. -/
def path_match_segments : List String → List String → Bool
  | [], value => value.isEmpty
  | segment :: rule, value =>
    if segment = "*" then
      match value with
      | [] => false
      | _ :: value => path_match_segments rule value
    else if segment = "+" then
      (List.range value.length).any fun consumed => path_match_segments rule (value.drop (consumed + 1))
    else
      match value with
      | [] => false
      | first :: value => if first = segment then path_match_segments rule value else false

def path_match (rule value : String) : Bool := path_match_segments (parts rule) (parts value)

end Matching

/-- What a permission says about a request. -/
def PolicyPermission.grants (perm : PolicyPermission) (action database ns entity_type : String) : Bool :=
  let resource_match :=
    if (trim perm.path.toList).isEmpty then
      field_match perm.database database && field_match perm.ns ns && field_match perm.entity_type entity_type
    else
      path_match perm.path (build_resource_path action database ns entity_type) ||
        path_match perm.path (database ++ "/" ++ ns ++ "/" ++ entity_type)
  resource_match && perm.actions.any fun a => action_match a action

def check_permission (db : Rows) (principal_id action database ns entity_type : String) :
    Except PelagoError Bool := do
  let policies ← list_policies db (some principal_id)
  pure (policies.any fun p => p.permissions.any fun perm => perm.grants action database ns entity_type)

section Segments

theorem parts_append_slash (a b : String) : parts (a ++ "/" ++ b) = parts a ++ parts b := by
  have hlist : (a ++ "/" ++ b).toList = a.toList ++ '/' :: b.toList := by simp
  rw [parts, hlist, segments_append, map_append]
  rfl

/-- A name that is one segment of a path. -/
def OneSegment (name : String) : Prop := Segment '/' name.toList

instance (name : String) : Decidable (OneSegment name) := inferInstanceAs (Decidable (Segment _ _))

theorem OneSegment.parts_eq {name : String} (h : OneSegment name) : parts name = [name] := by
  rw [parts, Segment.segments_eq h]
  simp

theorem oneSegment_of_mem {path part : String} (h : part ∈ parts path) : OneSegment part := by
  obtain ⟨cs, hcs, rfl⟩ := mem_map.mp h
  have hpart := segment_of_mem hcs
  simpa [OneSegment] using hpart

/-- A segment of a rule that stands for itself only. -/
def Literal (segment : String) : Prop := segment ≠ "*" ∧ segment ≠ "+"

instance (segment : String) : Decidable (Literal segment) := inferInstanceAs (Decidable (_ ∧ _))

/-- What a segment of a rule takes of a path. -/
def Takes (segment : String) (block : List String) : Prop :=
  if segment = "*" then block.length = 1 else if segment = "+" then block ≠ [] else block = [segment]

theorem Takes.ne_nil {segment : String} {block : List String} (h : Takes segment block) : block ≠ [] := by
  rintro rfl
  unfold Takes at h
  all_goals simp at h

theorem path_match_segments_cons_iff {segment : String} {rule value : List String} :
    path_match_segments (segment :: rule) value = true ↔
      ∃ block rest, block ++ rest = value ∧ Takes segment block ∧ path_match_segments rule rest = true := by
  rw [path_match_segments.eq_def]
  by_cases hstar : segment = "*"
  · simp only [Takes, hstar, if_true, length_eq_one_iff]
    cases value with
    | nil => simp
    | cons => simp
  by_cases hplus : segment = "+"
  · subst hplus
    simp only [Takes, if_neg hstar, if_true, any_eq_true, mem_range]
    constructor
    · rintro ⟨consumed, hlt, hmatch⟩
      refine ⟨value.take (consumed + 1), _, take_append_drop .., ?_, hmatch⟩
      simpa using length_pos_iff.mp (Nat.zero_lt_of_lt hlt)
    · rintro ⟨_ | ⟨first, block⟩, rest, rfl, hblock, hmatch⟩
      · exact absurd rfl hblock
      · exact ⟨block.length, by rw [length_append, length_cons]; omega, by simpa using hmatch⟩
  · simp only [Takes, if_neg hstar, if_neg hplus]
    cases value with
    | nil => simp
    | cons => simp [and_comm, eq_comm (a := segment)]

theorem path_match_segments_literal {segment : String} {rule value : List String} (h : Literal segment)
    (hmatch : path_match_segments (segment :: rule) value = true) :
    ∃ rest, value = segment :: rest ∧ path_match_segments rule rest = true := by
  obtain ⟨block, rest, rfl, htakes, hrest⟩ := path_match_segments_cons_iff.mp hmatch
  rw [Takes, if_neg h.1, if_neg h.2] at htakes
  exact ⟨rest, by rw [htakes]; rfl, hrest⟩

theorem path_match_segments_iff {rule value : List String} :
    path_match_segments rule value = true ↔ ∃ blocks, blocks.flatten = value ∧ Forall₂ Takes rule blocks := by
  induction rule generalizing value with
  | nil =>
    simp only [path_match_segments, List.isEmpty_iff, forall₂_nil_left_iff, exists_eq_right, flatten_nil]
    exact eq_comm
  | cons _ _ ih =>
    rw [path_match_segments_cons_iff]
    constructor
    · rintro ⟨block, _, rfl, htakes, hmatch⟩
      obtain ⟨blocks, rfl, hrest⟩ := ih.mp hmatch
      exact ⟨block :: blocks, rfl, .cons htakes hrest⟩
    · rintro ⟨_, rfl, hblocks⟩
      obtain ⟨block, blocks, htakes, hrest, rfl⟩ := forall₂_cons_left_iff.mp hblocks
      exact ⟨block, blocks.flatten, rfl, htakes, ih.mpr ⟨blocks, rfl, hrest⟩⟩

/-- A path matches a rule when it falls into blocks, one for each segment of the rule, and a rule
with `+` in the place of some segments matches no less. -/
theorem path_match_iff (rule value : String) :
    (path_match rule value = true ↔ ∃ blocks, blocks.flatten = parts value ∧ Forall₂ Takes (parts rule) blocks) ∧
    ∀ rule' : String, Forall₂ (fun segment segment' => segment' = segment ∨ segment' = "+") (parts rule) (parts rule') →
      path_match rule value = true → path_match rule' value = true := by
  refine ⟨path_match_segments_iff, fun rule' hrule hmatch => path_match_segments_iff.mpr ?_⟩
  obtain ⟨blocks, hvalue, hblocks⟩ := path_match_segments_iff.mp hmatch
  refine ⟨blocks, hvalue, ?_⟩
  clear hvalue
  generalize parts rule = segments, parts rule' = segments' at hrule hblocks
  induction hrule generalizing blocks with
  | nil => exact hblocks
  | cons hsegment _ ih =>
    obtain ⟨block, blocks, htakes, hrest, rfl⟩ := forall₂_cons_left_iff.mp hblocks
    refine .cons ?_ (ih _ hrest)
    obtain rfl | rfl := hsegment
    · exact htakes
    · exact htakes.ne_nil

theorem shop_path_matches :
    path_match "shop/*/data" "/shop//main/data" = true ∧ path_match "shop/+/data" "/shop//main/data" = true := by
  have hstar : parts "shop/*/data" = ["shop", "*", "data"] := by decide +kernel
  have hplus : parts "shop/+/data" = ["shop", "+", "data"] := by decide +kernel
  have hmatch : path_match "shop/*/data" "/shop//main/data" = true := by decide +kernel
  exact ⟨hmatch, (path_match_iff _ _).2 _ (by simp [hstar, hplus]) hmatch⟩

/-- A path of two segments is not blank. -/
theorem trim_path_ne_nil {path first second : String} {rest : List String}
    (h : parts path = first :: second :: rest) : trim path.toList ≠ [] := by
  intro hblank
  have hslash : '/' ∉ path.toList := by
    intro hmem
    have hkept := mem_trim (by decide) hmem
    rw [hblank] at hkept
    cases hkept
  rw [parts, segments_of_not_mem hslash] at h
  split at h
  · cases h
  · simp at h

end Segments

section Confinement

variable {db : Rows} {principal_id action database ns entity_type : String} {perm : PolicyPermission}

/-- A request that is granted because of a permission of the principal. -/
structure GrantedBy (db : Rows) (principal_id action database ns entity_type : String)
    (perm : PolicyPermission) : Prop where
  held : ∃ policies, list_policies db (some principal_id) = .ok policies ∧ ∃ p ∈ policies, perm ∈ p.permissions
  grants : perm.grants action database ns entity_type = true

theorem check_permission_eq_ok_true_iff : check_permission db principal_id action database ns entity_type = .ok true ↔
    ∃ perm, GrantedBy db principal_id action database ns entity_type perm := by
  unfold check_permission
  cases hlist : list_policies db (some principal_id) with
  | error =>
    simp only [bind, Except.bind, reduceCtorEq, false_iff, not_exists]
    intro _ hgranted
    obtain ⟨policies, hpolicies, -⟩ := hgranted.held
    rw [hlist] at hpolicies
    cases hpolicies
  | ok policies =>
    simp only [bind, Except.bind, pure, Except.pure, Except.ok.injEq, any_eq_true]
    constructor
    · rintro ⟨p, hp, perm, hperm, hgrants⟩
      exact ⟨perm, ⟨policies, hlist, p, hp, hperm⟩, hgrants⟩
    · rintro ⟨perm, ⟨policies', hpolicies', p, hp, hperm⟩, hgrants⟩
      obtain rfl : policies = policies' := by simpa [hlist] using hpolicies'
      exact ⟨p, hp, perm, hperm, hgrants⟩

/-- Both layouts of a request start with the segments of its database and its
namespace. -/
theorem grants_starts {d n : String} {rest : List String} (hpath : parts perm.path = d :: n :: rest)
    (hd : Literal d) (hn : Literal n) (hgrants : perm.grants action database ns entity_type = true) :
    ∃ tail tail', parts database ++ (parts ns ++ tail) = d :: n :: tail' := by
  simp only [PolicyPermission.grants, List.isEmpty_iff, trim_path_ne_nil hpath, if_false, Bool.and_eq_true,
    Bool.or_eq_true] at hgrants
  have hstart : ∀ value, path_match perm.path value = true → ∃ tail', parts value = d :: n :: tail' := by
    intro _ hmatch
    rw [path_match, hpath] at hmatch
    obtain ⟨value', hvalue, hmatch⟩ := path_match_segments_literal hd hmatch
    obtain ⟨tail', htail, -⟩ := path_match_segments_literal hn hmatch
    exact ⟨tail', by rw [hvalue, htail]⟩
  rcases hgrants.1 with hmatch | hmatch
  · obtain ⟨tail', htail⟩ := hstart _ hmatch
    unfold build_resource_path at htail
    split at htail <;> simp only [parts_append_slash, append_assoc] at htail <;> exact ⟨_, tail', htail⟩
  · obtain ⟨tail', htail⟩ := hstart _ hmatch
    simp only [parts_append_slash, append_assoc] at htail
    exact ⟨_, tail', htail⟩

/-- A path rule with literal database and namespace confines a request to them
just when the request names each of them by one segment. -/
theorem path_rule_confines_iff {d n : String} {rest : List String} (hpath : parts perm.path = d :: n :: rest)
    (hd : Literal d) (hn : Literal n) (hgranted : GrantedBy db principal_id action database ns entity_type perm) :
    database = d ∧ ns = n ↔ OneSegment database ∧ OneSegment ns := by
  constructor
  · rintro ⟨rfl, rfl⟩
    have hdatabase : database ∈ parts perm.path := by simp [hpath]
    have hns : ns ∈ parts perm.path := by simp [hpath]
    exact ⟨oneSegment_of_mem hdatabase, oneSegment_of_mem hns⟩
  · rintro ⟨hdatabase, hns⟩
    obtain ⟨tail, _, hparts⟩ := grants_starts hpath hd hn hgranted.grants
    rw [hdatabase.parts_eq, hns.parts_eq] at hparts
    simp only [singleton_append, cons.injEq] at hparts
    exact ⟨hparts.1, hparts.2.1⟩

/-- Anything in one namespace. -/
def coreAccess : PolicyPermission := ⟨"", "", "", ["*"], "prod/core/+"⟩

def guest : AuthPolicy := ⟨"p1", "guest", [coreAccess], 0⟩

def guestRows : Rows := upsert_policy .empty guest

theorem guest_granted {action database ns entity_type : String}
    (h : coreAccess.grants action database ns entity_type = true) :
    GrantedBy guestRows "guest" action database ns entity_type coreAccess := by
  have hlist : list_policies guestRows (some "guest") = .ok [guest] := by decide +kernel
  exact ⟨⟨[guest], hlist, guest, by simp, by simp [guest]⟩, h⟩

theorem parts_coreAccess : parts coreAccess.path = ["prod", "core", "+"] := by decide +kernel

/-- The rule of the namespace `core` opens the namespace `core/secret`, too. -/
theorem slash_in_namespace_not_confined :
    parts coreAccess.path = ["prod", "core", "+"] ∧ Literal "prod" ∧ Literal "core" ∧
      GrantedBy guestRows "guest" "node.read" "prod" "core/secret" "Person" coreAccess ∧
      check_permission guestRows "guest" "node.read" "prod" "core/secret" "Person" = .ok true ∧
      "core/secret" ≠ "core" := by
  have hgranted : GrantedBy guestRows "guest" "node.read" "prod" "core/secret" "Person" coreAccess :=
    guest_granted (by decide +kernel)
  exact ⟨parts_coreAccess, by decide, by decide, hgranted,
    check_permission_eq_ok_true_iff.mpr ⟨coreAccess, hgranted⟩, by decide⟩

theorem core_confined :
    GrantedBy guestRows "guest" "node.read" "prod" "core" "Person" coreAccess ∧
      ("prod" = "prod" ∧ "core" = "core" ↔ OneSegment "prod" ∧ OneSegment "core") := by
  have hgranted : GrantedBy guestRows "guest" "node.read" "prod" "core" "Person" coreAccess :=
    guest_granted (by decide +kernel)
  exact ⟨hgranted, path_rule_confines_iff parts_coreAccess (by decide) (by decide) hgranted⟩

end Confinement

end pelago_storage.security
