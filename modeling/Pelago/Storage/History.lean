import Mathlib.Data.List.Induction
import Pelago.Storage.Documents

open pelago_core

namespace pelago_storage

open NodeId (from_str)

/-- A node of a namespace. -/
structure NodeName where
  entity_type : String
  id : NodeId
  deriving DecidableEq

/-- The live nodes of a namespace, with their properties. -/
abbrev Live := NodeName → Option Properties

namespace OperationDocument

/-- The node that an operation names, and what becomes of it. -/
def effect : OperationDocument → Option (NodeName × Option Properties)
  | .data (.NodeCreate entity_type node_id properties _) =>
    (from_str node_id).map fun id => (⟨entity_type, id⟩, some properties)
  | .data (.NodeUpdate entity_type node_id changed_properties old_properties) =>
    (from_str node_id).map fun id => (⟨entity_type, id⟩, some (old_properties.overlay changed_properties))
  | .data (.NodeDelete entity_type node_id) => (from_str node_id).map fun id => (⟨entity_type, id⟩, none)
  | _ => none

/-- How an operation on a node names it. -/
def nodeText : OperationDocument → Option String
  | .data (.NodeCreate _ node_id _ _) | .data (.NodeUpdate _ node_id _ _) | .data (.NodeDelete _ node_id) =>
    some node_id
  | _ => none

def Creates (op : OperationDocument) (x : NodeName) : Prop :=
  ∃ properties home_site, op = .data (.NodeCreate x.entity_type x.id.to_string properties home_site)

/-- The operation names its node as it is printed. -/
def Canonical (op : OperationDocument) : Prop := ∀ text ∈ op.nodeText, ∃ id : NodeId, text = id.to_string

end OperationDocument

def Live.apply (live : Live) (op : OperationDocument) : Live :=
  match op.effect with
  | some (x, properties) => Function.update live x properties
  | none => live

/-- The live nodes after the operations of a log. -/
def liveAfter (ops : List OperationDocument) : Live := ops.foldl Live.apply fun _ => none

/-- The operations that a site may log next: it creates a node under a new id,
and changes nodes that are alive. -/
inductive Follows (before : List OperationDocument) : OperationDocument → Prop where
  | create {entity_type : String} {id : NodeId} {properties : Properties} {home_site : String}
      (hnew : ∀ op ∈ before, ¬ op.Creates ⟨entity_type, id⟩) :
      Follows before (.data (.NodeCreate entity_type id.to_string properties home_site))
  | update {entity_type node_id : String} {id : NodeId} {changed old : Properties}
      (hid : from_str node_id = some id) (hlive : liveAfter before ⟨entity_type, id⟩ = some old) :
      Follows before (.data (.NodeUpdate entity_type node_id changed old))
  | delete {entity_type node_id : String} {id : NodeId} {old : Properties}
      (hid : from_str node_id = some id) (hlive : liveAfter before ⟨entity_type, id⟩ = some old) :
      Follows before (.data (.NodeDelete entity_type node_id))
  | other {op : OperationDocument} (hop : op.nodeText = none) : Follows before op

/-- The logs of sequential runs on one site. -/
inductive Produced : List OperationDocument → Prop where
  | nil : Produced []
  | snoc {ops : List OperationDocument} {op : OperationDocument} (h : Produced ops) (hop : Follows ops op) :
      Produced (ops ++ [op])

section Live

variable {ops : List OperationDocument} {op : OperationDocument} {x : NodeName} {properties : Properties}

theorem effect_create (entity_type : String) (id : NodeId) (properties : Properties) (home_site : String) :
    (OperationDocument.data (.NodeCreate entity_type id.to_string properties home_site)).effect =
      some (⟨entity_type, id⟩, some properties) := by
  simp [OperationDocument.effect, NodeId.from_str_to_string]

theorem effect_update {node_id : String} {id : NodeId} (hid : from_str node_id = some id)
    (entity_type : String) (changed old : Properties) :
    (OperationDocument.data (.NodeUpdate entity_type node_id changed old)).effect =
      some (⟨entity_type, id⟩, some (old.overlay changed)) := by
  simp [OperationDocument.effect, hid]

theorem effect_delete {node_id : String} {id : NodeId} (hid : from_str node_id = some id)
    (entity_type : String) :
    (OperationDocument.data (.NodeDelete entity_type node_id)).effect = some (⟨entity_type, id⟩, none) := by
  simp [OperationDocument.effect, hid]

theorem effect_of_other (h : op.nodeText = none) : op.effect = none := by
  cases op with
  | SchemaRegister => rfl
  | data op =>
    cases op with
    | NodeCreate | NodeUpdate | NodeDelete => cases h
    | EdgeCreate | EdgeDelete | OwnershipTransfer => rfl

theorem liveAfter_concat (ops : List OperationDocument) (op : OperationDocument) :
    liveAfter (ops ++ [op]) = (liveAfter ops).apply op := by
  simp [liveAfter]

theorem Live.apply_of_effect {live : Live} {left : Option Properties} (h : op.effect = some (x, left)) :
    live.apply op = Function.update live x left := by
  simp [apply, h]

theorem Live.apply_of_other {live : Live} (h : op.nodeText = none) : live.apply op = live := by
  simp [apply, effect_of_other h]

/-- An operation changes no node, creates one, or changes a live one. -/
theorem Follows.touches (h : Follows ops op) : op.nodeText = none ∨
    ∃ x left, op.effect = some (x, left) ∧ (op.Creates x ∨ ∃ old, liveAfter ops x = some old) := by
  cases h with
  | create => exact .inr ⟨_, _, effect_create .., .inl ⟨_, _, rfl⟩⟩
  | update hid hlive => exact .inr ⟨_, _, effect_update hid .., .inr ⟨_, hlive⟩⟩
  | delete hid hlive => exact .inr ⟨_, _, effect_delete hid _, .inr ⟨_, hlive⟩⟩
  | other hop => exact .inl hop

/-- A live node has been created. -/
theorem Produced.created (h : Produced ops) (hlive : liveAfter ops x = some properties) :
    ∃ op ∈ ops, op.Creates x := by
  induction h generalizing properties with
  | nil => cases hlive
  | @snoc ops op _ hop ih =>
    have hbefore : ∀ {p}, liveAfter ops x = some p → ∃ op' ∈ ops ++ [op], op'.Creates x := by
      intro p hp
      obtain ⟨op', hmem, hcreates⟩ := ih hp
      exact ⟨op', List.mem_append_left _ hmem, hcreates⟩
    rw [liveAfter_concat] at hlive
    rcases hop.touches with hother | ⟨y, left, heffect, hy⟩
    · rw [Live.apply_of_other hother] at hlive
      exact hbefore hlive
    · rw [Live.apply_of_effect heffect] at hlive
      by_cases hx : x = y
      · subst hx
        rcases hy with hcreates | ⟨old, hold⟩
        · exact ⟨op, by simp, hcreates⟩
        · exact hbefore hold
      · rw [Function.update_of_ne hx] at hlive
        exact hbefore hlive

/-- A node that is created now was not alive before. -/
theorem Produced.not_live (h : Produced ops) (hnew : ∀ op ∈ ops, ¬ op.Creates x) : liveAfter ops x = none := by
  cases hlive : liveAfter ops x with
  | none => rfl
  | some =>
    obtain ⟨op, hmem, hcreates⟩ := h.created hlive
    exact absurd hcreates (hnew op hmem)

theorem Produced.last (h : Produced (ops ++ [op])) : Produced ops ∧ Follows ops op := by
  generalize hall : ops ++ [op] = all at h
  cases h with
  | nil => simp at hall
  | snoc h hop =>
    obtain ⟨rfl, hlast⟩ := List.append_inj' hall rfl
    obtain rfl : op = _ := by simpa using hlast
    exact ⟨h, hop⟩

theorem Produced.of_append {later : List OperationDocument} (h : Produced (ops ++ later)) : Produced ops := by
  induction later using List.reverseRecOn with
  | nil => simpa using h
  | append_singleton _ _ ih =>
    rw [← List.append_assoc] at h
    exact ih h.last.1

end Live

end pelago_storage
