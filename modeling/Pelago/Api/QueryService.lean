import Mathlib.Data.List.Induction
import Mathlib.Data.List.Nodup
import Pelago.Storage.Records

open pelago_core pelago_storage

namespace pelago_api.query_service

open List

/-- Set operations on captured variables. -/
inductive SetOp where
  | Union
  | Intersect
  | Difference
  deriving DecidableEq, Repr

/-- The node lists captured so far. -/
abbrev Variables := kv.OrdMap String (List StoredNode)

/-- A name that is not defined stands for no node. -/
def Variables.nodes (vars : Variables) (name : String) : List StoredNode := (vars.get name).getD []

def node_identity (node : StoredNode) : String × String := (node.entity_type, node.id)

/-- A node is taken into a union unless its identity was seen before. -/
def merge_node (state : List (String × String) × List StoredNode) (node : StoredNode) :
    List (String × String) × List StoredNode :=
  let key := node_identity node
  if key ∈ state.1 then state else (key :: state.1, state.2 ++ [node])

def merge_variable_sets (vars : Variables) (variable_names : List String) (set_op : SetOp) : List StoredNode :=
  match variable_names with
  | [] => []
  | name :: others =>
    let first := vars.nodes name
    match set_op with
    | .Union => ((name :: others).foldl (fun state name => (vars.nodes name).foldl merge_node state) ([], [])).2
    | .Intersect =>
      if others = [] then first
      else
        let other_sets := others.map fun name => (vars.nodes name).map node_identity
        first.filter fun node => other_sets.all fun s => decide (node_identity node ∈ s)
    | .Difference =>
      if others = [] then first
      else
        let excluded := others.foldl (fun excluded name =>
          (vars.nodes name).foldl (fun excluded node => node_identity node :: excluded) excluded) []
        first.filter fun node => decide (node_identity node ∉ excluded)

def identities (nodes : List StoredNode) : List (String × String) := nodes.map node_identity

/-- The record that the first list with this identity holds. -/
def earliest (lists : List (List StoredNode)) (key : String × String) : Option StoredNode :=
  lists.findSome? fun l => l.find? fun node => node_identity node = key

/-- What the loop over a union has taken from the nodes so far. -/
structure Taken (nodes : List StoredNode) (state : List (String × String) × List StoredNode) : Prop where
  seen : ∀ key, key ∈ state.1 ↔ key ∈ identities nodes
  order : identities state.2 = (identities nodes).eraseDups
  nodup : (identities state.2).Nodup
  found : ∀ node ∈ state.2, nodes.find? (fun other => node_identity other = node_identity node) = some node

theorem Taken.merge_node {nodes : List StoredNode} {state : List (String × String) × List StoredNode}
    (h : Taken nodes state) (node : StoredNode) : Taken (nodes ++ [node]) (merge_node state node) := by
  have hfound : ∀ other ∈ state.2,
      (nodes ++ [node]).find? (fun o => node_identity o = node_identity other) = some other := by
    intro other hother
    rw [find?_append, h.found _ hother, Option.some_or]
  have herase : (identities (nodes ++ [node])).eraseDups = identities state.2 ++
      ([node_identity node].removeAll (identities nodes)).eraseDups := by
    rw [h.order, identities, map_append, eraseDups_append]
    rfl
  rw [query_service.merge_node]
  split
  case isTrue hseen =>
    rw [h.seen] at hseen
    refine ⟨fun _ => ?_, ?_, h.nodup, hfound⟩
    · rw [h.seen, identities, identities, map_append, mem_append, or_iff_left_of_imp]
      exact fun hkey => (mem_singleton.mp hkey) ▸ hseen
    · rw [herase, removeAll, filter_cons_of_neg (by simpa using hseen)]
      simp
  case isFalse hseen =>
    rw [h.seen] at hseen
    refine ⟨fun _ => ?_, ?_, ?_, ?_⟩
    · simp [h.seen, identities, or_comm]
    · rw [herase, removeAll, filter_cons_of_pos (by simpa using hseen), identities, map_append]
      rfl
    · rw [identities, map_append]
      refine nodup_append.mpr ⟨h.nodup, by simp, ?_⟩
      rintro _ hkey _ hlast rfl
      rw [← identities, h.order, mem_eraseDups] at hkey
      exact hseen ((mem_singleton.mp hlast) ▸ hkey)
    · intro other hother
      obtain hother | hother := mem_append.mp hother
      · exact hfound _ hother
      · obtain rfl := mem_singleton.mp hother
        have hnone : nodes.find? (fun o => node_identity o = node_identity other) = none := by
          simpa [identities] using hseen
        simp [find?_append, hnone]

theorem taken_foldl (nodes : List StoredNode) : Taken nodes (nodes.foldl merge_node ([], [])) := by
  -- from the right, since the loop goes on from what it has
  induction nodes using reverseRecOn with
  | nil => exact ⟨by simp [identities], rfl, nodup_nil, by simp⟩
  | append_singleton nodes node ih =>
    rw [foldl_append]
    exact ih.merge_node _

theorem find?_of_mem {nodes : List StoredNode} (h : (identities nodes).Nodup) {node : StoredNode}
    (hmem : node ∈ nodes) : nodes.find? (fun other => node_identity other = node_identity node) = some node := by
  cases hfind : nodes.find? (fun other => node_identity other = node_identity node) with
  | none => exact absurd (find?_eq_none.mp hfind node hmem) (by simp)
  | some =>
    have hkey := find?_some hfind
    rw [inj_on_of_nodup_map h (mem_of_find?_eq_some hfind) hmem (by simpa using hkey)]

/-- Without a union the first list is filtered by the sets of the others. -/
theorem merge_eq_filter (vars : Variables) (name : String) (others : List String) {set_op : SetOp}
    (h : set_op ≠ .Union) : ∃ p : StoredNode → Bool,
      merge_variable_sets vars (name :: others) set_op = (vars.nodes name).filter p ∧
      ∀ node, p node = true ↔ ∀ other ∈ others,
        (node_identity node ∈ identities (vars.nodes other) ↔ set_op = .Intersect) := by
  have hone {p : StoredNode → Bool} (hp : others = [] → ∀ node, p node = true) :
      (if others = [] then vars.nodes name else (vars.nodes name).filter p) = (vars.nodes name).filter p := by
    split
    · rw [filter_eq_self.mpr fun node _ => hp ‹_› _]
    · rfl
  cases set_op with
  | Union => exact absurd rfl h
  | Intersect =>
    refine ⟨_, hone (by rintro rfl; simp), fun _ => ?_⟩
    simp [identities]
  | Difference =>
    refine ⟨_, hone (by rintro rfl; simp), fun _ => ?_⟩
    simp [identities]

/-- Merging gives the union, the intersection or the difference of the lists, each
identity once, in the order of the lists and with the record of the earliest one. -/
theorem merge_variable_sets_spec (vars : Variables) (name : String) (others : List String) (set_op : SetOp)
    (hnodup : ∀ row ∈ vars.rows, (identities row.2).Nodup) :
    (∀ key, key ∈ identities (merge_variable_sets vars (name :: others) set_op) ↔
      match set_op with
      | .Union => ∃ other ∈ name :: others, key ∈ identities (vars.nodes other)
      | .Intersect => ∀ other ∈ name :: others, key ∈ identities (vars.nodes other)
      | .Difference => key ∈ identities (vars.nodes name) ∧ ∀ other ∈ others, key ∉ identities (vars.nodes other)) ∧
    (identities (merge_variable_sets vars (name :: others) set_op)).Nodup ∧
    (match set_op with
      | .Union => identities (merge_variable_sets vars (name :: others) .Union) =
          (identities ((name :: others).map vars.nodes).flatten).eraseDups
      | _ => merge_variable_sets vars (name :: others) set_op <+ vars.nodes name) ∧
    ∀ node ∈ merge_variable_sets vars (name :: others) set_op,
      earliest ((name :: others).map vars.nodes) (node_identity node) = some node := by
  by_cases hunion : set_op = .Union
  · subst hunion
    have htaken := taken_foldl ((name :: others).map vars.nodes).flatten
    rw [foldl_flatten, foldl_map] at htaken
    refine ⟨fun key => ?_, htaken.nodup, htaken.order, fun node hnode => ?_⟩
    · rw [merge_variable_sets, htaken.order, mem_eraseDups]
      simp [identities]
    · rw [earliest, ← find?_flatten]
      exact htaken.found node hnode
  · obtain ⟨p, hmerge, hp⟩ := merge_eq_filter vars name others hunion
    have hfirst : (identities (vars.nodes name)).Nodup := by
      unfold Variables.nodes
      cases hget : vars.get name with
      | none => exact nodup_nil
      | some => exact hnodup _ (vars.get_eq_some_iff_mem.mp hget)
    rw [hmerge]
    refine ⟨fun key => ?_, (filter_sublist.map _).nodup hfirst, ?_, fun node hnode => ?_⟩
    · have hkey : key ∈ identities ((vars.nodes name).filter p) ↔ key ∈ identities (vars.nodes name) ∧
          ∀ other ∈ others, (key ∈ identities (vars.nodes other) ↔ set_op = .Intersect) := by
        rw [identities, mem_map]
        simp only [mem_filter, hp]
        constructor
        · rintro ⟨node, ⟨hnode, hothers⟩, rfl⟩
          exact ⟨mem_map_of_mem hnode, hothers⟩
        · rintro ⟨hmem, hothers⟩
          obtain ⟨node, hnode, rfl⟩ := mem_map.mp hmem
          exact ⟨node, ⟨hnode, hothers⟩, rfl⟩
      rw [hkey]
      cases set_op <;> simp_all
    · cases set_op <;> simp_all
    · rw [earliest, map_cons, findSome?_cons, find?_of_mem hfirst (mem_filter.mp hnode).1]

private def person (id : String) (created_at : Int) : StoredNode := ⟨id, "Person", .empty, 1, created_at, 0⟩

private def friends : Variables :=
  kv.OrdMap.ofList [("a", [person "1_1" 1, person "1_2" 1]), ("b", [person "1_2" 2, person "1_3" 2])]

/-- Of two records of one person the one captured under the first name is kept. -/
theorem friends_united : merge_variable_sets friends ["b", "a", "c"] .Union =
      [person "1_2" 2, person "1_3" 2, person "1_1" 1] ∧
    earliest (["b", "a", "c"].map friends.nodes) ("Person", "1_2") = some (person "1_2" 2) :=
  ⟨by decide +kernel, (merge_variable_sets_spec friends "b" ["a", "c"] .Union (by decide +kernel)).2.2.2
    (person "1_2" 2) (by decide +kernel)⟩

end pelago_api.query_service
