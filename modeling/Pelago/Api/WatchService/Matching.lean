import Pelago.Api.WatchService
import Pelago.Storage.History
import Pelago.Storage.Node.Runs
import Pelago.Storage.Node.SiteRuns

open kv pelago_core pelago_storage List

namespace pelago_api.watch_service

open NodeId Option
open Prod (snd)

variable {x y : NodeName}

section Keys

/-- How a node is tracked. -/
def nodeKey (x : NodeName) : String := node_key x.entity_type x.id.to_string

theorem colon_not_mem_to_string (id : NodeId) : ':' ∉ id.to_string.toList := by
  intro h
  simp only [to_string, String.toList_append, mem_append] at h
  rcases h with (h | h) | h
  · exact absurd (text.digit_of_mem_repr h) (by decide)
  · revert h
    decide
  · exact absurd (text.digit_of_mem_repr h) (by decide)

/-- Ids hold no colon, so the last one of a key ends the type. -/
theorem nodeKey_inj (h : nodeKey x = nodeKey y) : x = y := by
  have hlist := congrArg (fun s : String => s.toList.reverse) h
  simp only [nodeKey, node_key, String.toList_append, reverse_append] at hlist
  have hwhole : ∀ id : NodeId, (text.Separator.symbol ':').Whole id.to_string.toList.reverse := fun id =>
    text.Separator.whole_symbol_iff.mpr fun hmem => colon_not_mem_to_string id (mem_reverse.mp hmem)
  obtain ⟨hid, htype⟩ := text.Separator.append_inj (hwhole _) (hwhole _)
    (by simpa [text.Separator.symbol] using hlist)
  have hid' := to_string_inj (String.toList_inj.mp (reverse_injective hid))
  have htype' := String.toList_inj.mp (reverse_injective htype)
  cases x
  simp_all

end Keys

/-- What a watch makes of the operations of a log. -/
def watch_operations (sub_id : String) (registry : Registry) (filter : WatchFilter) :
    List (Versionstamp × OperationDocument) → Finset String → List WatchEvent × Finset String
  | [], matched_nodes => ([], matched_nodes)
  | (versionstamp, op) :: rest, matched_nodes =>
    let (events, tracked) := cdc_op_to_watch_events sub_id versionstamp registry filter op matched_nodes
    let (later, left) := watch_operations sub_id registry filter rest tracked
    (events ++ later, left)

theorem watch_operations_append (sub_id : String) (registry : Registry) (filter : WatchFilter)
    (before after : List (Versionstamp × OperationDocument)) (matched_nodes : Finset String) :
    watch_operations sub_id registry filter (before ++ after) matched_nodes =
      let first := watch_operations sub_id registry filter before matched_nodes
      let second := watch_operations sub_id registry filter after first.2
      (first.1 ++ second.1, second.2) := by
  induction before generalizing matched_nodes with
  | nil => rfl
  | cons _ _ ih => simp [watch_operations, ih]

section Words

/-- One stay of a node in the result of a query: how many updates it saw, and
how it ended. -/
structure Stay where
  updates : Nat
  last : WatchEventType
  ended : last = .Exit ∨ last = .Delete

def Stay.word (stay : Stay) : List WatchEventType := .Enter :: (List.replicate stay.updates .Update ++ [stay.last])

/-- Stays that ended, then possibly one that goes on. -/
def word (stays : List Stay) (unfinished : Option Nat) : List WatchEventType :=
  stays.flatMap Stay.word ++ unfinished.elim [] fun updates => .Enter :: List.replicate updates .Update

/-- What is told of a node that matched before or not, and does now or not. -/
inductive Turn : Bool → Bool → List WatchEventType → Prop where
  | enter : Turn false true [.Enter]
  | update : Turn true true [.Update]
  | exit : Turn true false [.Exit]
  | delete : Turn true false [.Delete]
  | stay (b : Bool) : Turn b b []

theorem Turn.word_append {was now : Bool} {kinds : List WatchEventType} (h : Turn was now kinds)
    (stays : List Stay) {unfinished : Option Nat} (hwas : unfinished.isSome = was) :
    ∃ stays' unfinished', word stays unfinished ++ kinds = word stays' unfinished' ∧ unfinished'.isSome = now := by
  have hend : ∀ last : WatchEventType, last = .Exit ∨ last = .Delete → unfinished.isSome = true →
      ∃ stays' unfinished', word stays unfinished ++ [last] = word stays' unfinished' ∧
        unfinished'.isSome = false := by
    intro last hlast hsome
    obtain ⟨updates, rfl⟩ := isSome_iff_exists.mp hsome
    exact ⟨stays ++ [⟨updates, last, hlast⟩], none, by simp [word, Stay.word], rfl⟩
  cases h with
  | enter =>
    obtain rfl : unfinished = none := by simpa using hwas
    exact ⟨stays, some 0, by simp [word], rfl⟩
  | update =>
    obtain ⟨updates, rfl⟩ := isSome_iff_exists.mp hwas
    exact ⟨stays, some (updates + 1), by simp [word, replicate_succ'], rfl⟩
  | exit => exact hend _ (.inl rfl) hwas
  | delete => exact hend _ (.inr rfl) hwas
  | stay => exact ⟨stays, unfinished, by simp, hwas⟩

end Words

section Matching

variable (registry : Registry) (query_filter : QueryFilter)

/-- Whether a live node is in the result of the query. -/
def matching (live : Live) (x : NodeName) : Bool :=
  (live x).any (query_matches_node registry query_filter x.entity_type)

/-- The node events about a node, without changes of its owner. -/
def about (x : NodeName) (event : WatchEvent) : Bool :=
  (event.node.any fun node => node.entity_type == x.entity_type && node.id == x.id.to_string) &&
    event.reason != "ownership_transfer"

def kinds (x : NodeName) (events : List WatchEvent) : List WatchEventType :=
  (events.filter (about x)).map WatchEvent.type

/-- The tracked nodes are those in the result of the query. -/
def Exact (live : Live) (matched_nodes : Finset String) : Prop :=
  ∀ key, key ∈ matched_nodes ↔ ∃ x, matching registry query_filter live x = true ∧ key = nodeKey x

variable {registry query_filter} {live : Live} {matched_nodes : Finset String}

theorem Exact.mem_iff (h : Exact registry query_filter live matched_nodes) (x : NodeName) :
    nodeKey x ∈ matched_nodes ↔ matching registry query_filter live x = true := by
  rw [h]
  constructor
  · rintro ⟨y, _, hkey⟩
    rwa [nodeKey_inj hkey]
  · intro hx
    exact ⟨x, hx, rfl⟩

theorem exact_iff : Exact registry query_filter live matched_nodes ↔
    (∀ x, nodeKey x ∈ matched_nodes ↔ matching registry query_filter live x = true) ∧
      ∀ key ∈ matched_nodes, ∃ x, key = nodeKey x := by
  constructor
  · intro h
    refine ⟨h.mem_iff, fun key hkey => ?_⟩
    obtain ⟨x, -, hx⟩ := (h _).mp hkey
    exact ⟨x, hx⟩
  · rintro ⟨hmem, hkeys⟩ key
    constructor
    · intro hkey
      obtain ⟨x, rfl⟩ := hkeys _ hkey
      exact ⟨x, (hmem x).mp hkey, rfl⟩
    · rintro ⟨x, hx, rfl⟩
      exact (hmem x).mpr hx

/-- A change of one node, tracked as the query sees it. -/
theorem Exact.update (h : Exact registry query_filter live matched_nodes) (x : NodeName) (left : Option Properties) :
    Exact registry query_filter (Function.update live x left)
      (if left.any (query_matches_node registry query_filter x.entity_type) then insert (nodeKey x) matched_nodes
        else matched_nodes.erase (nodeKey x)) := by
  obtain ⟨hmem, hkeys⟩ := exact_iff.mp h
  refine exact_iff.mpr ⟨fun y => ?_, fun key hkey => ?_⟩
  · by_cases hy : y = x
    · simp only [matching, Function.update_self]
      split <;> simp_all
    · have hne : nodeKey y ≠ nodeKey x := fun hkey => hy (nodeKey_inj hkey)
      have hsame : matching registry query_filter (Function.update live x left) y =
          matching registry query_filter live y := by
        simp [matching, Function.update_of_ne hy]
      rw [hsame, ← hmem y]
      split <;> simp [hne]
  · split at hkey
    · rcases Finset.mem_insert.mp hkey with rfl | hkey
      · exact ⟨x, rfl⟩
      · exact hkeys _ hkey
    · exact hkeys _ (Finset.mem_of_mem_erase hkey)

theorem matching_update_self (live : Live) (x : NodeName) (left : Option Properties) :
    matching registry query_filter (Function.update live x left) x =
      left.any (query_matches_node registry query_filter x.entity_type) := by
  simp [matching]

/-- What is told of the node that an operation changes is all that is told. -/
theorem turn_of_node {left : Option Properties} {events : List WatchEvent}
    {told : List WatchEventType} (hkinds : ∀ x, kinds x events = if x = y then told else [])
    (hturn : Turn (matching registry query_filter live y)
      (left.any (query_matches_node registry query_filter y.entity_type)) told) (x : NodeName) :
    Turn (matching registry query_filter live x)
      (matching registry query_filter (Function.update live y left) x) (kinds x events) := by
  rw [hkinds x]
  by_cases hx : x = y
  · subst hx
    rw [if_pos rfl, matching_update_self]
    exact hturn
  · have hsame : matching registry query_filter (Function.update live y left) x =
        matching registry query_filter live x := by
      simp [matching, Function.update_of_ne hx]
    rw [if_neg hx, hsame]
    exact .stay _

theorem kinds_node_event (sub_id : String) (vs : Versionstamp) (type : WatchEventType) (y : NodeName)
    (properties : Properties) (locality : String) {reason : String} (hreason : reason ≠ "ownership_transfer")
    (x : NodeName) : kinds x [node_event sub_id vs type y.entity_type y.id.to_string properties locality reason] =
      if x = y then [type] else [] := by
  by_cases hx : x = y
  · subst hx
    simp [kinds, about, node_event, hreason]
  · have hne : ¬ (y.entity_type = x.entity_type ∧ y.id.to_string = x.id.to_string) := by
      rintro ⟨htype, hid⟩
      refine hx (nodeKey_inj ?_)
      rw [nodeKey, nodeKey, htype, hid]
    have habout : about x (node_event sub_id vs type y.entity_type y.id.to_string properties locality reason) =
        false := by
      rw [Bool.eq_false_iff]
      intro habout
      simp only [about, node_event, any_some, Bool.and_eq_true, beq_iff_eq] at habout
      exact hne habout.1
    simp [kinds, habout, hx]

theorem query_scope_of_matches {entity_type : String} {properties : Properties}
    (h : query_matches_node registry query_filter entity_type properties = true) :
    query_scope_matches query_filter entity_type = true := by
  simp only [query_matches_node, Bool.and_eq_true] at h
  exact h.1.1

/-- Only nodes of the query's scope are tracked. -/
theorem Exact.scope (h : Exact registry query_filter live matched_nodes)
    (hx : nodeKey x ∈ matched_nodes) : query_scope_matches query_filter x.entity_type = true := by
  have hmatch := (h.mem_iff x).mp hx
  cases hlive : live x with
  | none => simp [matching, hlive] at hmatch
  | some =>
    simp only [matching, hlive, any_some] at hmatch
    exact query_scope_of_matches hmatch

variable {sub_id : String} {vs : Versionstamp}

theorem create_events (y : NodeName) (properties : Properties) (home_site : String) (m : Finset String) :
    cdc_op_to_watch_events sub_id vs registry (.Query query_filter)
        (.data (.NodeCreate y.entity_type y.id.to_string properties home_site)) m =
      if query_matches_node registry query_filter y.entity_type properties then
        ([node_event sub_id vs .Enter y.entity_type y.id.to_string properties home_site "node_create"],
          insert (nodeKey y) m) else ([], m) := by
  simp only [cdc_op_to_watch_events, matches_node_scope]
  by_cases hmatch : query_matches_node registry query_filter y.entity_type properties = true
  · simp [hmatch, query_scope_of_matches hmatch, nodeKey]
  · simp [hmatch]

theorem update_events (h : Exact registry query_filter live matched_nodes) (y : NodeName)
    (changed old : Properties) (hlive : live y = some old) :
    cdc_op_to_watch_events sub_id vs registry (.Query query_filter)
        (.data (.NodeUpdate y.entity_type y.id.to_string changed old)) matched_nodes =
      let transition := update_transition (query_matches_node registry query_filter y.entity_type old)
        (query_matches_node registry query_filter y.entity_type (old.overlay changed))
      ((transition.map fun type =>
          node_event sub_id vs type y.entity_type y.id.to_string changed "" "node_update").toList,
        retrack (nodeKey y) transition matched_nodes) := by
  -- a node is tracked just when it matched before
  have htracked : decide (node_key y.entity_type y.id.to_string ∈ matched_nodes) =
      query_matches_node registry query_filter y.entity_type old := by
    have hiff := h.mem_iff y
    simp only [matching, hlive, any_some, nodeKey] at hiff
    cases hold : query_matches_node registry query_filter y.entity_type old <;> simp_all
  simp only [cdc_op_to_watch_events, matches_node_update_scope, matches_node_scope]
  by_cases hscope : query_scope_matches query_filter y.entity_type = true
  · simp only [hscope, if_true, htracked, Bool.or_self]
    rfl
  · have hno : ∀ p, query_matches_node registry query_filter y.entity_type p = false := by
      simp [query_matches_node, hscope]
    simp [hscope, hno, update_transition, retrack]

theorem delete_events (h : Exact registry query_filter live matched_nodes) (y : NodeName) :
    cdc_op_to_watch_events sub_id vs registry (.Query query_filter)
        (.data (.NodeDelete y.entity_type y.id.to_string)) matched_nodes = if nodeKey y ∈ matched_nodes then
        ([node_event sub_id vs .Delete y.entity_type y.id.to_string .empty "" "node_delete"],
          matched_nodes.erase (nodeKey y)) else ([], matched_nodes) := by
  simp only [cdc_op_to_watch_events, matches_node_scope]
  by_cases hmem : nodeKey y ∈ matched_nodes
  · have hmem' : node_key y.entity_type y.id.to_string ∈ matched_nodes := hmem
    simp [h.scope hmem, hmem', nodeKey]
  · have hmem' : node_key y.entity_type y.id.to_string ∉ matched_nodes := hmem
    simp [hmem, hmem']

variable {op : OperationDocument}

section Steps

variable {ops : List OperationDocument}

/-- What a step does: the tracked nodes stay exact, and each node's turn is told. -/
def StepTracks (registry : Registry) (query_filter : QueryFilter) (live live' : Live)
    (result : List WatchEvent × Finset String) : Prop :=
  Exact registry query_filter live' result.2 ∧
    ∀ x, Turn (matching registry query_filter live x) (matching registry query_filter live' x) (kinds x result.1)

/-- A node that changes, with what is told of it and how it is tracked afterwards. -/
theorem stepTracks_of_node {left : Option Properties} {events : List WatchEvent}
    {tracked : Finset String} (told : List WatchEventType) (h : Exact registry query_filter live matched_nodes)
    (htracked : tracked = if left.any (query_matches_node registry query_filter y.entity_type) then
      insert (nodeKey y) matched_nodes else matched_nodes.erase (nodeKey y))
    (hkinds : ∀ x, kinds x events = if x = y then told else [])
    (hturn : Turn (matching registry query_filter live y)
      (left.any (query_matches_node registry query_filter y.entity_type)) told) :
    StepTracks registry query_filter live (Function.update live y left) (events, tracked) :=
  ⟨htracked ▸ h.update y _, turn_of_node hkinds hturn⟩

theorem kinds_nil (y x : NodeName) : kinds x [] = if x = y then [] else [] := by
  simp [kinds]

section

variable (h : Exact registry query_filter live matched_nodes)
include h

theorem create_tracks (y : NodeName) (hdead : live y = none) (properties : Properties) (home_site : String) :
    StepTracks registry query_filter live (Function.update live y (some properties))
      (cdc_op_to_watch_events sub_id vs registry (.Query query_filter)
        (.data (.NodeCreate y.entity_type y.id.to_string properties home_site)) matched_nodes) := by
  have hwas : matching registry query_filter live y = false := by simp [matching, hdead]
  have hunseen : nodeKey y ∉ matched_nodes := by simp [h.mem_iff, hwas]
  have hreason : "node_create" ≠ "ownership_transfer" := by decide
  rw [create_events]
  by_cases hmatch : query_matches_node registry query_filter y.entity_type properties = true
  · rw [if_pos hmatch]
    apply stepTracks_of_node _ h
    · simp [hmatch]
    · exact kinds_node_event _ vs _ y _ _ hreason
    · simpa [hwas, hmatch] using .enter
  · rw [if_neg hmatch]
    apply stepTracks_of_node [] h
    · simp [hmatch, hunseen]
    · exact kinds_nil y
    · simpa [hwas, hmatch] using .stay false

theorem update_tracks (y : NodeName) (changed old : Properties) (hlive : live y = some old) :
    StepTracks registry query_filter live (Function.update live y (some (old.overlay changed)))
      (cdc_op_to_watch_events sub_id vs registry (.Query query_filter)
        (.data (.NodeUpdate y.entity_type y.id.to_string changed old)) matched_nodes) := by
  have hwas : matching registry query_filter live y =
      query_matches_node registry query_filter y.entity_type old := by simp [matching, hlive]
  have hmem := h.mem_iff y
  have hreason : "node_update" ≠ "ownership_transfer" := by decide
  have hkinds := fun type => kinds_node_event sub_id vs type y changed "" hreason
  rw [update_events h y _ _ hlive]
  cases hold : query_matches_node registry query_filter y.entity_type old <;>
    cases hnew : query_matches_node registry query_filter y.entity_type (old.overlay changed) <;>
    simp only [hwas, hold, Bool.false_eq_true, iff_false, iff_true] at hmem
  · exact stepTracks_of_node [] h (by simp [hnew, hmem, update_transition, retrack]) (kinds_nil y)
      (by simpa [hwas, hold, hnew] using .stay false)
  · exact stepTracks_of_node _ h (by simp [hnew, update_transition, retrack]) (hkinds _)
      (by simpa [hwas, hold, hnew] using .enter)
  · exact stepTracks_of_node _ h (by simp [hnew, update_transition, retrack]) (hkinds _)
      (by simpa [hwas, hold, hnew] using .exit)
  · exact stepTracks_of_node _ h (by simp [hnew, update_transition, retrack]) (hkinds _)
      (by simpa [hwas, hold, hnew] using .update)

theorem delete_tracks (y : NodeName) : StepTracks registry query_filter live (Function.update live y none)
      (cdc_op_to_watch_events sub_id vs registry (.Query query_filter)
        (.data (.NodeDelete y.entity_type y.id.to_string)) matched_nodes) := by
  have hmem := h.mem_iff y
  have hreason : "node_delete" ≠ "ownership_transfer" := by decide
  rw [delete_events h y]
  by_cases hin : nodeKey y ∈ matched_nodes
  · rw [if_pos hin]
    apply stepTracks_of_node _ h
    · simp
    · exact kinds_node_event _ vs _ y _ "" hreason
    · simpa [hmem.mp hin] using .delete
  · rw [if_neg hin]
    have hwas : matching registry query_filter live y = false := by simpa [hmem] using hin
    apply stepTracks_of_node [] h
    · simp [hin]
    · exact kinds_nil y
    · simpa [hwas] using .stay false

end

/-- Operations on edges, schemas and owners neither track nor tell anything. -/
theorem other_tracks (hop : op.nodeText = none)
    (h : Exact registry query_filter live matched_nodes) : StepTracks registry query_filter live live
      (cdc_op_to_watch_events sub_id vs registry (.Query query_filter) op matched_nodes) := by
  -- the same nodes stay tracked, and no event is about one of them
  have hstep : ∀ events, (∀ x, kinds x events = []) →
      StepTracks registry query_filter live live (events, matched_nodes) := by
    intro _ hkinds
    refine ⟨h, fun x => ?_⟩
    rw [hkinds x]
    exact .stay _
  cases op with
  | SchemaRegister => exact hstep [] fun _ => rfl
  | data op =>
    cases op with
    | NodeCreate | NodeUpdate | NodeDelete => cases hop
    | EdgeCreate | EdgeDelete =>
      simp only [cdc_op_to_watch_events]
      split <;> exact hstep _ fun _ => by simp [kinds, about, edge_event]
    | OwnershipTransfer =>
      simp only [cdc_op_to_watch_events]
      split
      · split <;> exact hstep _ fun _ => by simp [kinds, about, node_event]
      · exact hstep _ fun _ => by simp [kinds]

/-- One operation of the log. -/
theorem step_tracks (hproduced : Produced ops) (hfollows : Follows ops op)
    (hcanonical : op.Canonical) (h : Exact registry query_filter (liveAfter ops) matched_nodes) :
    StepTracks registry query_filter (liveAfter ops) (liveAfter (ops ++ [op]))
      (cdc_op_to_watch_events sub_id vs registry (.Query query_filter) op matched_nodes) := by
  rw [liveAfter_concat]
  cases hfollows with
  | @create entity_type id properties home_site hnew =>
    rw [Live.apply_of_effect (effect_create _ id ..)]
    exact create_tracks h _ (hproduced.not_live hnew) ..
  | @update entity_type node_id _ changed old hid hlive =>
    obtain ⟨id', rfl⟩ := hcanonical _ rfl
    rw [from_str_to_string, some.injEq] at hid
    subst hid
    rw [Live.apply_of_effect (effect_update (from_str_to_string _) _ _ _)]
    exact update_tracks h _ _ _ hlive
  | @delete entity_type node_id _ _ hid =>
    obtain ⟨id', rfl⟩ := hcanonical _ rfl
    rw [Live.apply_of_effect (effect_delete (from_str_to_string _) _)]
    exact delete_tracks h _
  | other hop =>
    rw [Live.apply_of_other hop]
    exact other_tracks hop h

end Steps

/-- What holds of a query watch that has seen a part of the log: the tracked
nodes are those in the result of the query, and the events about each node tell
of its stays there. -/
structure Tracks (sub_id : String) (registry : Registry) (query_filter : QueryFilter)
    (seen : List (Versionstamp × OperationDocument)) : Prop where
  matched : Exact registry query_filter (liveAfter (seen.map snd))
    (watch_operations sub_id registry (.Query query_filter) seen ∅).2
  told : ∀ x, ∃ stays unfinished,
    kinds x (watch_operations sub_id registry (.Query query_filter) seen ∅).1 = word stays unfinished ∧
      unfinished.isSome = matching registry query_filter (liveAfter (seen.map snd)) x

theorem watch_operations_concat (sub_id : String) (registry : Registry) (filter : WatchFilter)
    (seen : List (Versionstamp × OperationDocument)) (vs : Versionstamp) (op : OperationDocument)
    (matched_nodes : Finset String) :
    let before := watch_operations sub_id registry filter seen matched_nodes
    let step := cdc_op_to_watch_events sub_id vs registry filter op before.2
    watch_operations sub_id registry filter (seen ++ [(vs, op)]) matched_nodes = (before.1 ++ step.1, step.2) := by
  simp [watch_operations_append, watch_operations]

theorem kinds_append (x : NodeName) (events later : List WatchEvent) :
    kinds x (events ++ later) = kinds x events ++ kinds x later := by
  simp [kinds]

/-- The next operation of the log. -/
theorem Tracks.step {seen : List (Versionstamp × OperationDocument)}
    (h : Tracks sub_id registry query_filter seen) (hproduced : Produced (seen.map snd))
    (hfollows : Follows (seen.map snd) op) (hcanonical : op.Canonical) :
    Tracks sub_id registry query_filter (seen ++ [(vs, op)]) := by
  obtain ⟨hexact, hturn⟩ : StepTracks registry query_filter _ _
      (cdc_op_to_watch_events sub_id vs registry (.Query query_filter) op _) :=
    step_tracks hproduced hfollows hcanonical h.matched
  have hmap : (seen ++ [(vs, op)]).map snd = seen.map snd ++ [op] := by simp
  refine ⟨?_, fun x => ?_⟩
  · rw [hmap, watch_operations_concat]
    exact hexact
  · obtain ⟨stays, _, hword, hwas⟩ := h.told x
    obtain ⟨stays', unfinished', hword', hnow⟩ := (hturn x).word_append _ hwas
    refine ⟨stays', unfinished', ?_, ?_⟩
    · rw [watch_operations_concat, kinds_append, hword]
      exact hword'
    · rw [hmap]
      exact hnow

theorem tracks_of_produced {log : List (Versionstamp × OperationDocument)} (hproduced : Produced (log.map snd))
    (hcanonical : ∀ row ∈ log, row.2.Canonical) : Tracks sub_id registry query_filter log := by
  induction log using reverseRecOn with
  | nil =>
    refine ⟨fun _ => ?_, fun x => ⟨[], none, rfl, rfl⟩⟩
    simp [watch_operations, matching, liveAfter]
  | append_singleton _ row ih =>
    obtain ⟨vs, op⟩ := row
    rw [map_append] at hproduced
    obtain ⟨hbefore, hfollows⟩ := hproduced.last
    have hop : op.Canonical := hcanonical (vs, op) (by simp)
    exact (ih hbefore fun row hrow => hcanonical _ (by simp [hrow])).step hbefore hfollows hop

/-- A query watch over the log of a site tracks the result of the query exactly,
and tells each node's turns, as long as the log names nodes as they are
printed. -/
theorem query_watch_tracks (sub_id : String) (registry : Registry) (query_filter : QueryFilter)
    (log : List (Versionstamp × OperationDocument)) (hproduced : Produced (log.map snd))
    (hcanonical : ∀ row ∈ log, row.2.Canonical) (n : Nat) :
    Tracks sub_id registry query_filter (log.take n) ∧
      ∀ vs op, log[n]? = some (vs, op) → ∀ x,
        Turn (matching registry query_filter (liveAfter ((log.take n).map snd)) x)
          (matching registry query_filter (liveAfter ((log.take (n + 1)).map snd)) x)
          (kinds x (cdc_op_to_watch_events sub_id vs registry (.Query query_filter) op
            (watch_operations sub_id registry (.Query query_filter) (log.take n) ∅).2).1) := by
  have hseen : ∀ n, Produced ((log.take n).map snd) := by
    intro n
    rw [map_take]
    exact .of_append (by rwa [take_append_drop])
  have htracks : Tracks sub_id registry query_filter (log.take n) :=
    tracks_of_produced (hseen n) fun row hrow => hcanonical row (mem_of_mem_take hrow)
  refine ⟨htracks, fun vs op hop => ?_⟩
  have htake : (log.take (n + 1)).map snd = (log.take n).map snd ++ [op] := by
    rw [take_succ, hop]
    simp
  have hnext := hseen (n + 1)
  rw [htake] at hnext ⊢
  have hfollows := hnext.last.2
  exact (step_tracks hnext.last.1 hfollows (hcanonical _ (mem_of_getElem? hop)) htracks.matched).2

end Matching

section People

/-- No expressions are asked. -/
def noExpressions : pelago_query.traversal.Cel := ⟨Unit, fun _ => none, fun _ _ => none⟩

def plainRegistry : Registry := ⟨.empty, noExpressions⟩

/-- All people. -/
def allPeople : QueryFilter := ⟨"Person", none, none⟩

/-- Versionstamps of a log. -/
def stamp (n : UInt8) : Versionstamp := ⟨List.replicate 9 0 ++ [n], by simp⟩

def createPerson (seq : UInt64) : OperationDocument :=
  .data (.NodeCreate "Person" (NodeId.to_string ⟨1, seq⟩) .empty "1")

def deletePerson (node_id : String) : OperationDocument := .data (.NodeDelete "Person" node_id)

theorem effect_createPerson (seq : UInt64) : (createPerson seq).effect = some (⟨"Person", ⟨1, seq⟩⟩, some .empty) :=
  effect_create ..

theorem produced_create_delete {node_id : String} (hid : from_str node_id = some ⟨1, 0⟩) :
    Produced [createPerson 0, deletePerson node_id] := by
  have hcreate : Produced [createPerson 0] :=
    .snoc .nil (.create fun _ hop => absurd hop not_mem_nil)
  have hlive : liveAfter [createPerson 0] ⟨"Person", ⟨1, 0⟩⟩ = some .empty := by
    rw [← nil_append [createPerson 0], liveAfter_concat, Live.apply_of_effect (effect_createPerson 0),
      Function.update_self]
  exact .snoc hcreate (.delete hid hlive)

/-- Nobody is left. -/
theorem create_delete_none {node_id : String} (hid : from_str node_id = some ⟨1, 0⟩) (x : NodeName) :
    matching plainRegistry allPeople (liveAfter [createPerson 0, deletePerson node_id]) x = false := by
  have hdead : liveAfter [createPerson 0, deletePerson node_id] x = none := by
    have hdelete : (deletePerson node_id).effect = some (⟨"Person", ⟨1, 0⟩⟩, none) := effect_delete hid _
    show liveAfter ([] ++ [createPerson 0] ++ [deletePerson node_id]) x = none
    rw [liveAfter_concat, Live.apply_of_effect hdelete, liveAfter_concat,
      Live.apply_of_effect (effect_createPerson 0), Function.update_idem]
    by_cases hx : x = ⟨"Person", ⟨1, 0⟩⟩
    · rw [hx, Function.update_self]
    · rw [Function.update_of_ne hx]
      rfl
  simp [matching, hdead]

open pelago_storage.node in
/-- A node that is deleted under another spelling of its id stays tracked. -/
theorem respelled_delete_stays_tracked :
    let run := people.runSite [.create .empty ⟨10, 11⟩, .delete "01_0" ⟨20, 21⟩] noRows
    let log := [(stamp 1, createPerson 0), (stamp 2, deletePerson "01_0")]
    (people.log run.db).flatMap CdcEntry.operations =
        [.NodeCreate "Person" "1_0" .empty "1", .NodeDelete "Person" "01_0"] ∧
      Produced (log.map snd) ∧
      (watch_operations "s" plainRegistry (.Query allPeople) log ∅).2 = {"Person:1_0"} ∧
      (∀ x, matching plainRegistry allPeople (liveAfter (log.map snd)) x = false) ∧
      ¬ Tracks "s" plainRegistry allPeople log := by
  have hid : from_str "01_0" = some ⟨1, 0⟩ := by decide +kernel
  have hmatched : (watch_operations "s" plainRegistry (.Query allPeople)
      [(stamp 1, createPerson 0), (stamp 2, deletePerson "01_0")] ∅).2 = {"Person:1_0"} := by decide +kernel
  refine ⟨by decide +kernel, produced_create_delete hid, hmatched, create_delete_none hid, fun htracks => ?_⟩
  obtain ⟨x, hx, -⟩ := (htracks.matched "Person:1_0").mp (by rw [hmatched]; simp)
  rw [map_cons, map_cons, map_nil, create_delete_none hid x] at hx
  cases hx

theorem printed_delete_tracked :
    Tracks "s" plainRegistry allPeople [(stamp 1, createPerson 0), (stamp 2, deletePerson "1_0")] := by
  have hid : from_str "1_0" = some ⟨1, 0⟩ := by decide +kernel
  have hprinted : "1_0" = to_string ⟨1, 0⟩ := by decide +kernel
  have hcanonical : ∀ row ∈ [(stamp 1, createPerson 0), (stamp 2, deletePerson "1_0")], row.2.Canonical := by
    intro row hrow text htext
    rcases mem_cons.mp hrow with rfl | hrow
    · exact ⟨⟨1, 0⟩, (some.inj htext).symm⟩
    · obtain rfl := mem_singleton.mp hrow
      exact ⟨⟨1, 0⟩, (some.inj htext).symm.trans hprinted⟩
  exact (query_watch_tracks "s" plainRegistry allPeople [(stamp 1, createPerson 0), (stamp 2, deletePerson "1_0")]
    (produced_create_delete hid) hcanonical 2).1

end People

end pelago_api.watch_service
