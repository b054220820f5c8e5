import Pelago.Api.WatchService.Targets

open bytes kv pelago_core pelago_storage List

namespace pelago_api.watch_service

variable {event : WatchEvent} {filter : WatchFilter}

section Reach

/-- The types that an event concerns: that of its node, or of the source of its edge. -/
def WatchEvent.Concerns (event : WatchEvent) (entity_type : String) : Prop :=
  (∃ node, event.node = some node ∧ node.entity_type = entity_type) ∨
    ∃ edge, event.edge = some edge ∧ edge.source.entity_type = entity_type

/-- The types that the log can bring to a watch. A node of any type can have an
edge to a node that is watched. -/
def WatchFilter.Reaches (registry : Registry) (filter : WatchFilter) (entity_type : String) : Prop :=
  match filter with
  | .Namespace => True
  | .Query query_filter => ∃ T properties, query_matches_node registry query_filter T properties = true
  | .Point nodes edges => nodes ≠ [] ∨ ∃ target ∈ edges, target.Reaches entity_type

/-- Whether the loop can get past its snapshot. -/
def Subscription.Starts (sub : Subscription) : Prop :=
  match sub.filter with
  | .Point nodes _ => sub.ctx.include_initial_snapshot = false ∨ namedTargets nodes = nodes ∨
    max sub.ctx.initial_snapshot_limit 1 ≤ (namedTargets nodes).length
  | _ => True

/-- The types that a watch can bring: those of the log, or those of the
snapshot if it is bound to fail. -/
def Subscription.Reaches (registry : Registry) (sub : Subscription) (entity_type : String) : Prop :=
  (sub.Starts ∧ sub.filter.Reaches registry entity_type) ∨
    (¬ sub.Starts ∧ ∃ nodes edges, sub.filter = .Point nodes edges ∧
      ∃ target ∈ namedTargets nodes, target.entity_type = entity_type)

variable {registry : Registry} {sub : Subscription}

variable {rows : OrdMap Bytes Cell}

theorem starts_of_snapshot (h : (snapshotOf registry sub rows).2 = none) : sub.Starts := by
  unfold Subscription.Starts
  split
  · rename_i nodes edges hfilter
    cases hinclude : sub.ctx.include_initial_snapshot with
    | false => exact .inl rfl
    | true =>
      rw [snapshotOf, if_pos hinclude, hfilter] at h
      rcases snapshot_points_ended h with hall | hroom
      · exact .inr (.inl hall)
      · exact .inr (.inr (by simpa using hroom))
  · trivial

theorem snapshot_of_starts (registry : Registry) (h : sub.Starts) : ∃ rows, (snapshotOf registry sub rows).2 = none := by
  cases hinclude : sub.ctx.include_initial_snapshot with
  | false => exact ⟨.empty, by simp [snapshotOf, hinclude]⟩
  | true =>
    cases hfilter : sub.filter with
    | Namespace | Query => exact ⟨.empty, by simp [snapshotOf, hinclude, hfilter, emit_initial_snapshot]⟩
    | Point nodes =>
      rw [Subscription.Starts, hfilter] at h
      have hsnapshot : ∀ rows, (snapshotOf registry sub rows).2 = (snapshot_points rows sub.ctx nodes 0).2 := by
        intro _
        rw [snapshotOf, if_pos hinclude, hfilter]
        rfl
      simp only [hsnapshot]
      rcases h with h | h | h
      · rw [hinclude] at h
        cases h
      · exact ⟨.empty, snapshot_points_empty h 0⟩
      · -- rows for all targets that can be parsed
        let d : NodeData := ⟨.empty, 0, 0, 0⟩
        refine ⟨(namedTargets nodes).foldl (fun rows target => rows.set (targetKey sub.ctx target) (.node d)) .empty,
          snapshot_points_full (d := d) (fun target htarget => ?_) (by simpa using h)⟩
        have hkey : targetKey sub.ctx target ∈ (namedTargets nodes).map (targetKey sub.ctx) :=
          mem_map_of_mem htarget
        exact OrdMap.get_foldl_set_of_mem hkey (fun _ _ _ => rfl) _

theorem matches_of_scan {ctx : WatchContext} {wanted : SnapshotNode → Bool}
    {types : List String} {remaining : Nat} {snapshot : SnapshotNode}
    (h : snapshot ∈ scan_types rows ctx wanted types remaining) : wanted snapshot = true := by
  induction types generalizing remaining with
  | nil => cases h
  | cons _ _ ih =>
    simp only [scan_types] at h
    split at h
    · cases h
    · rcases mem_append.mp h with h | h
      · exact (mem_filter.mp h).2
      · exact ih h

/-- What the snapshot of a query shows, matches. -/
theorem matches_of_snapshot {query_filter : QueryFilter}
    (hfilter : sub.filter = .Query query_filter) (h : event ∈ (snapshotOf registry sub rows).1) :
    ∃ T properties, query_matches_node registry query_filter T properties = true := by
  unfold snapshotOf at h
  split at h
  · rw [hfilter] at h
    obtain ⟨_, hsnapshot, rfl⟩ := mem_map.mp h
    exact ⟨_, _, matches_of_scan hsnapshot⟩
  · cases h

/-- What the snapshot shows is reached. -/
theorem reaches_of_snapshot
    (hevent : event ∈ (snapshotOf registry sub rows).1) {entity_type : String} (hconcerns : event.Concerns entity_type) :
    sub.Reaches registry entity_type := by
  cases hfilter : sub.filter with
  | Namespace => exact .inl ⟨by simp [Subscription.Starts, hfilter], by simp [WatchFilter.Reaches, hfilter]⟩
  | Query =>
    refine .inl ⟨by simp [Subscription.Starts, hfilter], ?_⟩
    rw [hfilter]
    exact matches_of_snapshot hfilter hevent
  | Point nodes edges =>
    unfold snapshotOf at hevent
    split at hevent
    · rw [hfilter] at hevent
      obtain ⟨hedge, target, htarget, _, hnode, htype⟩ := snapshot_points_type hevent
      have hT : target.entity_type = entity_type := by
        rcases hconcerns with ⟨node', hnode', rfl⟩ | ⟨edge, hedge', -⟩
        · rw [hnode] at hnode'
          cases hnode'
          exact htype.symm
        · rw [hedge] at hedge'
          cases hedge'
      by_cases hstarts : sub.Starts
      · refine .inl ⟨hstarts, ?_⟩
        rw [hfilter]
        refine .inl fun hnil => ?_
        rw [hnil] at htarget
        cases htarget
      · exact .inr ⟨hstarts, nodes, edges, hfilter, target, htarget, hT⟩
    · cases hevent

/-- The nodes that a query can track. -/
def Trackable (registry : Registry) (filter : WatchFilter) (matched_nodes : Finset String) : Prop :=
  ∀ query_filter, filter = .Query query_filter → matched_nodes.Nonempty →
    ∃ T properties, query_matches_node registry query_filter T properties = true

/-- What the log yields is reached. -/
theorem reaches_of_yields {sub_id : String} {vs : Versionstamp} {matched_nodes : Finset String}
    (hstarts : sub.Starts) (htrackable : Trackable registry sub.filter matched_nodes)
    (h : Yields sub_id vs registry sub.filter matched_nodes event) {entity_type : String}
    (hconcerns : event.Concerns entity_type) : sub.Reaches registry entity_type := by
  refine .inl ⟨hstarts, ?_⟩
  cases hfilter : sub.filter with
  | Namespace => trivial
  | Query q =>
    cases h with
    | node _ _ hquery =>
      rcases hquery q hfilter with htracked | ⟨properties, hmatch⟩
      · exact htrackable q hfilter ⟨_, htracked⟩
      · exact ⟨_, properties, hmatch⟩
    | edge _ hvisible =>
      rw [hfilter] at hvisible
      simp only [edge_visible, Bool.and_eq_true, Bool.or_eq_true, decide_eq_true_eq] at hvisible
      rcases hvisible.2 with htracked | htracked
      · exact htrackable q hfilter ⟨_, htracked⟩
      · exact htrackable q hfilter ⟨_, htracked⟩
  | Point =>
    cases h with
    | node _ hscope =>
      rw [hfilter] at hscope
      obtain ⟨target, htarget, -⟩ := any_eq_true.mp hscope
      exact .inl (ne_nil_of_mem htarget)
    | @edge _ _ source _ _ _ _ _ hvisible =>
      have hsource : source.entity_type = entity_type := by
        rcases hconcerns with ⟨node, hnode, -⟩ | ⟨edge, hedge, hsource⟩
        · cases hnode
        · cases hedge
          exact hsource
      rw [hfilter] at hvisible
      simp only [edge_visible, matches_edge_scope, Bool.and_true, Bool.or_eq_true] at hvisible
      rcases hvisible with htouch | hmatch
      · obtain ⟨node, hnode, -⟩ := any_eq_true.mp htouch
        exact .inl (ne_nil_of_mem hnode)
      · obtain ⟨edgeTarget, hmem, hmatch⟩ := any_eq_true.mp hmatch
        refine .inr ⟨edgeTarget, hmem, (point_edge_target_reaches_iff ..).mpr ?_⟩
        exact ⟨_, _, _, hsource ▸ point_edge_target_matches_label _ hmatch⟩

theorem trackable_of_matches (matched_nodes : Finset String)
    (h : ∀ q, filter = .Query q → ∃ T properties, query_matches_node registry q T properties = true) :
    Trackable registry filter matched_nodes := fun q hq _ => h q hq

/-- If nothing matches, nothing comes to be tracked. -/
theorem Trackable.operation {matched_nodes : Finset String}
    (h : Trackable registry filter matched_nodes) (sub_id : String) (vs : Versionstamp) (op : OperationDocument) :
    Trackable registry filter (cdc_op_to_watch_events sub_id vs registry filter op matched_nodes).2 := by
  intro q hq hne
  by_contra hnone
  have hempty : ∀ key, key ∉ matched_nodes := fun key hkey => hnone (h q hq ⟨key, hkey⟩)
  have hsilent : (cdc_op_to_watch_events sub_id vs registry filter op matched_nodes).1 = [] := by
    rw [eq_nil_iff_forall_not_mem]
    intro _ hevent
    cases yields_of_operation hevent with
    | node _ _ hquery =>
      rcases hquery q hq with htracked | ⟨properties, hmatch⟩
      · exact hempty _ htracked
      · exact hnone ⟨_, properties, hmatch⟩
    | edge _ hvisible =>
      rw [hq] at hvisible
      simp only [edge_visible, Bool.and_eq_true, Bool.or_eq_true, decide_eq_true_eq] at hvisible
      rcases hvisible.2 with htracked | htracked
      · exact hempty _ htracked
      · exact hempty _ htracked
  obtain ⟨key, hkey⟩ := hne
  rw [cdc_op_silent hsilent] at hkey
  exact hempty _ hkey

end Reach

section Confined

variable (registry : Registry) (sub : Subscription) (rows : OrdMap Bytes Cell)

/-- The event is about types that the watch reaches. -/
def Within (event : WatchEvent) : Prop := ∀ T, event.Concerns T → sub.Reaches registry T

def Phase.Confined : Phase → Prop
  | .snapshot events error => (∀ event ∈ events, event ∈ (snapshotOf registry sub rows).1) ∧
    error = (snapshotOf registry sub rows).2
  | .head => sub.Starts
  | .batch events _ _ => sub.Starts ∧ ∀ event ∈ events, Within registry sub event
  | _ => True

structure Confined (w : Watch) : Prop where
  told : ∀ event ∈ w.told, Within registry sub event
  matched : Trackable registry sub.filter w.matched_nodes
  saved : ∀ state ∈ w.saved, Trackable registry sub.filter state.matched_nodes
  phase : w.phase.Confined registry sub rows

variable {registry sub rows} {w w' : Watch}

theorem within_heartbeat (after : Versionstamp) : Within registry sub (heartbeat sub after) := by
  rintro T (⟨node, hnode, -⟩ | ⟨edge, hedge, -⟩)
  · cases hnode
  · cases hedge

theorem Confined.told_concat (h : Confined registry sub rows w)
    (hevent : Within registry sub event) {tx : Channel} (hsent : tx.sent = w.channel.sent ++ [.ok event]) :
    ∀ other ∈ events tx.sent, Within registry sub other := by
  intro _ hother
  rw [hsent, events_append] at hother
  rcases mem_append.mp hother with hother | hother
  · exact h.told _ hother
  · obtain rfl := mem_singleton.mp hother
    exact hevent

theorem Confined.told_beats (h : Confined registry sub rows w) {tx : Channel} (hbeats : Beats sub w tx) :
    ∀ other ∈ events tx.sent, Within registry sub other := by
  rcases hbeats with hsent | hsent
  · rw [hsent]
    exact h.told
  · exact h.told_concat (within_heartbeat _) hsent

theorem Confined.stores (h : Confined registry sub rows w) {saved : Option QueryWatchState} (hsaved : Stores w saved) :
    ∀ state ∈ saved, Trackable registry sub.filter state.matched_nodes := by
  rcases hsaved with rfl | ⟨state_id, rfl⟩
  · exact h.saved
  · rintro _ ⟨⟩
    exact h.matched

theorem Confined.track (h : Confined registry sub rows w) (hevent : event ∈ (snapshotOf registry sub rows).1) :
    Trackable registry sub.filter (track_snapshot sub.filter event w.matched_nodes) :=
  trackable_of_matches _ fun _ hq => matches_of_snapshot hq hevent

theorem Confined.move (hmove : Moves sub registry (fun _ => True) w w') (h : Confined registry sub rows w) :
    Confined registry sub rows w' := by
  obtain ⟨htold, hmatched, hsaved, hphase⟩ := id h
  have hparts : ∀ {waiting ops entries}, w.phase = .batch waiting ops entries →
      sub.Starts ∧ ∀ event ∈ waiting, Within registry sub event := by
    intro _ _ _ heq
    rwa [heq] at hphase
  have hshow : ∀ {rest error}, w.phase = .snapshot rest error →
      (∀ event ∈ rest, event ∈ (snapshotOf registry sub rows).1) ∧ error = (snapshotOf registry sub rows).2 := by
    intro _ _ heq
    rwa [heq] at hphase
  cases hmove with
  | client hsent => exact ⟨fun _ _ => htold _ (by rwa [Watch.told, ← hsent]), hmatched, hsaved, hphase⟩
  | stop _ hstores | left _ hstores => exact ⟨htold, hmatched, h.stores hstores, trivial⟩
  | idle _ hbeats => exact ⟨h.told_beats hbeats, hmatched, hsaved, hphase⟩
  | read hhead hbeats => exact ⟨h.told_beats hbeats, hmatched, hsaved, by rw [hhead] at hphase; exact hphase, by simp⟩
  | unread _ hbeats => exact ⟨h.told_beats hbeats, hmatched, hsaved, trivial⟩
  | entered hsnapshot => exact ⟨htold, hmatched, hsaved, starts_of_snapshot (hshow hsnapshot).2.symm⟩
  | refused | overrun => exact ⟨htold, hmatched, hsaved, trivial⟩
  | shown hsnapshot hsent =>
    obtain ⟨hevents, herror⟩ := hshow hsnapshot
    have hevent := hevents _ mem_cons_self
    exact ⟨h.told_concat (fun _ hconcerns => reaches_of_snapshot hevent hconcerns) hsent, h.track hevent, hsaved,
      fun _ hevent => hevents _ (mem_cons_of_mem _ hevent), herror⟩
  | gone hsnapshot => exact ⟨htold, h.track ((hshow hsnapshot).1 _ mem_cons_self), hsaved, trivial⟩
  | sent hbatch hsent =>
    obtain ⟨hstarts, hwaiting⟩ := hparts hbatch
    exact ⟨h.told_concat (hwaiting _ mem_cons_self) hsent, hmatched, hsaved, hstarts,
      fun _ hevent => hwaiting _ (mem_cons_of_mem _ hevent)⟩
  | dropped hbatch =>
    obtain ⟨hstarts, hwaiting⟩ := hparts hbatch
    exact ⟨htold, hmatched, hsaved, hstarts, fun _ hevent => hwaiting _ (mem_cons_of_mem _ hevent)⟩
  | @operation op _ _ _ _ hbatch hevents =>
    obtain ⟨hstarts, -⟩ := hparts hbatch
    have htrackable := hmatched.operation sub.ctx.subscription_id w.after op
    rw [hevents] at htrackable
    refine ⟨htold, htrackable, hsaved, hstarts, fun event hevent T hconcerns => ?_⟩
    have hyields := yields_of_operation (hevents ▸ hevent : event ∈ (cdc_op_to_watch_events
      sub.ctx.subscription_id w.after registry sub.filter op w.matched_nodes).1)
    exact reaches_of_yields hstarts hmatched hyields hconcerns
  | entry hbatch => exact ⟨htold, hmatched, hsaved, (hparts hbatch).1, by simp⟩
  | done hbatch hstores => exact ⟨htold, hmatched, h.stores hstores, (hparts hbatch).1⟩
  | failed _ hsent hstores =>
    refine ⟨fun _ hevent => htold _ ?_, hmatched, h.stores hstores, trivial⟩
    rcases hsent with hsent | hsent <;> simpa [Watch.told, hsent] using hevent

end Confined

section Accepted

variable {self : WatchServiceImpl} {principal : Option AuthPrincipal} {sub : Subscription}

private theorem ok_of_bind {α β : Type} {x : Except Status α} {f : α → Except Status β} {b : β}
    (h : (x >>= f) = .ok b) : ∃ a, x = .ok a ∧ f a = .ok b := by
  cases x with
  | error => cases h
  | ok a => exact ⟨a, rfl, h⟩

theorem start_watch_ok {subscription_type : WatchSubscriptionType} {ctx : RequestContext}
    {options : WatchOptions} {after : Versionstamp} {query_state_id : Option String}
    (h : start_watch self principal subscription_type filter ctx options after query_state_id = .ok sub) :
    sub.queue_size = options.max_queue_size ∧ sub.ctx.after = after := by
  obtain ⟨-, -, h⟩ := ok_of_bind h
  cases h
  exact ⟨rfl, rfl⟩

theorem known_position {log : Log} {resume_after : Bytes} {after : Versionstamp}
    (h : validate_resume_position log resume_after = .ok after) : after = .zero ∨ (log.get after).isSome := by
  obtain ⟨requested, -, h⟩ := ok_of_bind h
  cases requested with
  | none =>
    cases h
    exact .inl rfl
  | some vs =>
    dsimp only at h
    split at h
    · rename_i hexists
      cases h
      simp only [cdc_position_exists, Bool.or_eq_true, Versionstamp.is_zero, beq_iff_eq] at hexists
      exact hexists
    · simp only [resolve_resume_position, Bool.false_eq_true, if_false] at h
      split at h
      · cases h
      · cases h
        exact .inl rfl

theorem queue_pos (options : WatchOptions) (limits : WatchLimits) :
    0 < (normalize_options options limits).max_queue_size := by
  simp only [normalize_options, clampOption]
  omega

/-- An accepted watch has a queue with room, and starts at a position of the log. -/
theorem watch_ok {req : WatchRequest} (h : watch self principal req = .ok sub) :
    0 < sub.queue_size ∧ (sub.ctx.after = .zero ∨ (self.log.get sub.ctx.after).isSome) := by
  have hstart : ∀ {kind filter ctx options after state resume_after},
      validate_resume_position self.log resume_after = .ok after →
      start_watch self principal kind filter ctx (normalize_options options self.limits) after state = .ok sub →
      0 < sub.queue_size ∧ (sub.ctx.after = .zero ∨ (self.log.get sub.ctx.after).isSome) := by
    intro _ _ _ _ _ _ _ hresume hsub
    obtain ⟨hqueue, hafter⟩ := start_watch_ok hsub
    exact ⟨hqueue ▸ queue_pos .., hafter ▸ known_position hresume⟩
  cases req with
  | point =>
    obtain ⟨ctx, -, h⟩ := ok_of_bind h
    dsimp only at h
    split at h
    · cases h
    · obtain ⟨-, -, h⟩ := ok_of_bind h
      obtain ⟨after, hresume, h⟩ := ok_of_bind h
      exact hstart hresume h
  | query =>
    obtain ⟨ctx, -, h⟩ := ok_of_bind h
    obtain ⟨-, -, h⟩ := ok_of_bind h
    obtain ⟨after, hresume, h⟩ := ok_of_bind h
    obtain ⟨query_filter, -, h⟩ := ok_of_bind h
    exact hstart hresume h
  | «namespace» req =>
    obtain ⟨ctx, -, h⟩ := ok_of_bind h
    obtain ⟨-, -, h⟩ := ok_of_bind h
    obtain ⟨after, hresume, h⟩ := ok_of_bind h
    exact hstart hresume h

end Accepted

section Access

variable {registry : Registry} {sub : Subscription}

/-- What the state of a query can hold after watches with the same filter. -/
inductive Stored (registry : Registry) (filter : WatchFilter) : Option QueryWatchState → Prop where
  | none : Stored registry filter none
  | watch (s : Session) (h : Stored registry filter s.saved) (hfilter : s.sub.filter = filter) :
      Stored registry filter (s.watch registry).saved

/-- An event that a client of the watch can receive. -/
def Delivered (registry : Registry) (sub : Subscription) (event : WatchEvent) : Prop :=
  ∃ s : Session, s.sub = sub ∧ Stored registry sub.filter s.saved ∧ event ∈ s.received registry

theorem Session.confined {s : Session} (h : ∀ state ∈ s.saved, Trackable registry s.sub.filter state.matched_nodes) :
    Confined registry s.sub s.rows (s.watch registry) := by
  refine run_keeps (fun hmove _ h => h.move hmove) (sees_true _) (along_true ..)
    ⟨?_, ?_, h, fun _ h => h, rfl⟩
  · intro _ hevent
    cases hevent
  · intro q hq hne
    have hrestored : (restored s.sub s.saved).Nonempty := hne
    unfold restored at hrestored
    split at hrestored
    · split at hrestored
      · rename_i saved hsaved
        split at hrestored
        · exact h _ hsaved q hq hrestored
        · simp at hrestored
      · simp at hrestored
    · simp at hrestored

theorem Stored.trackable {saved : Option QueryWatchState} (h : Stored registry filter saved) :
    ∀ state ∈ saved, Trackable registry filter state.matched_nodes := by
  induction h with
  | none =>
    intro _ hstate
    cases hstate
  | watch s _ hfilter ih =>
    subst hfilter
    exact (s.confined ih).saved

/-- A type that the log can bring is brought by some operations. -/
theorem exists_event {T : String} (h : filter.Reaches registry T) (sub_id : String)
    (vs : Versionstamp) (matched_nodes : Finset String) : ∃ (ops : List OperationDocument) (event : WatchEvent),
      event ∈ (watch_operations sub_id registry filter (ops.map fun op => (vs, op)) matched_nodes).1 ∧
        event.Concerns T := by
  cases filter with
  | Namespace =>
    refine ⟨[.data (.EdgeCreate T "" "" "" "" "" .empty)], _, mem_append_left _ (mem_singleton_self _), ?_⟩
    exact .inr ⟨_, rfl, rfl⟩
  | Query =>
    obtain ⟨S, properties, hmatch⟩ := h
    have hscope := query_scope_of_matches hmatch
    refine ⟨[.data (.NodeCreate S "n" properties ""), .data (.EdgeCreate T "" S "n" "" "" .empty)],
      edge_event sub_id vs .Update "" ⟨T, ""⟩ ⟨S, "n"⟩ "" .empty "edge_create", ?_, .inr ⟨_, rfl, rfl⟩⟩
    simp [watch_operations, cdc_op_to_watch_events, matches_node_scope, hscope, hmatch, edge_visible, matches_edge_scope]
  | Point nodes edges =>
    rcases h with hnodes | ⟨target, htarget, hreaches⟩
    · obtain ⟨target, htarget⟩ := exists_mem_of_ne_nil _ hnodes
      have hvisible : edge_visible (.Point nodes edges) T "" target.entity_type target.node_id "" matched_nodes =
          true := by
        simp only [edge_visible, matches_edge_scope, Bool.and_true, Bool.or_eq_true]
        exact .inl (any_eq_true.mpr ⟨target, htarget, by simp⟩)
      refine ⟨[.data (.EdgeCreate T "" target.entity_type target.node_id "" "" .empty)],
        edge_event sub_id vs .Update "" ⟨T, ""⟩ ⟨target.entity_type, target.node_id⟩ "" .empty "edge_create", ?_,
        .inr ⟨_, rfl, rfl⟩⟩
      simp [watch_operations, cdc_op_to_watch_events, hvisible]
    · obtain ⟨source_id, target_type, target_id, hmatch⟩ := (point_edge_target_reaches_iff _ T).mp hreaches
      have hvisible : edge_visible (.Point nodes edges) T source_id target_type target_id target.label matched_nodes =
          true := by
        simp only [edge_visible, matches_edge_scope, Bool.and_true, Bool.or_eq_true]
        exact .inr (any_eq_true.mpr ⟨target, htarget, hmatch⟩)
      refine ⟨[.data (.EdgeCreate T source_id target_type target_id target.label "" .empty)],
        edge_event sub_id vs .Update "" ⟨T, source_id⟩ ⟨target_type, target_id⟩ target.label .empty "edge_create", ?_,
        .inr ⟨_, rfl, rfl⟩⟩
      simp [watch_operations, cdc_op_to_watch_events, hvisible]

/-- Every type that a watch reaches is one of an event that it can deliver. -/
theorem exists_delivered (hqueue : 0 < sub.queue_size) (hregular : sub.ctx.after.next.Regular) {T : String}
    (h : sub.Reaches registry T) : ∃ event, Delivered registry sub event ∧ event.Concerns T := by
  rcases h with ⟨hstarts, hreaches⟩ | ⟨hnot, nodes, edges, hfilter, target, htarget, rfl⟩
  · obtain ⟨rows, hrows⟩ := snapshot_of_starts _ hstarts
    obtain ⟨ops, event, hevent, hconcerns⟩ := exists_event hreaches ..
    obtain ⟨ticks, hreceived⟩ := deliver_next hqueue hrows hregular _ hevent
    exact ⟨event, ⟨⟨sub, rows, none, ticks⟩, rfl, .none, hreceived⟩, hconcerns⟩
  · have hinclude : sub.ctx.include_initial_snapshot = true := by
      by_contra hfalse
      simp [Subscription.Starts, hfilter, hfalse] at hnot
    let d : NodeData := ⟨.empty, 0, 0, 0⟩
    obtain ⟨event, hevent, node, hnode, htype⟩ := snapshot_points_one htarget
      (show 0 < max sub.ctx.initial_snapshot_limit 1 by omega)
    have hsnapshot : event ∈ (snapshotOf registry sub (OrdMap.empty.set (targetKey sub.ctx target) (.node d))).1 := by
      rw [snapshotOf, if_pos hinclude, hfilter]
      exact hevent
    obtain ⟨ticks, hreceived⟩ := deliver_snapshot hqueue hsnapshot
    exact ⟨event, ⟨⟨sub, _, none, ticks⟩, rfl, .none, hreceived⟩, .inl ⟨node, hnode, htype⟩⟩

/-- An accepted watch delivers only what its caller may read just when the
caller may read every type that the watch reaches. -/
theorem watch_confined_iff (self : WatchServiceImpl) (hlog : ∀ row ∈ self.log.rows, row.1.next.Regular)
    (principal : Option AuthPrincipal) (req : WatchRequest) (sub : Subscription)
    (hsub : watch self principal req = .ok sub) (registry : Registry) :
    (∀ event T, Delivered registry sub event → event.Concerns T →
      authz.authorize self.db principal "watch.subscribe" sub.ctx.database sub.ctx.ns T = .ok ()) ↔
    ∀ T, sub.Reaches registry T →
      authz.authorize self.db principal "watch.subscribe" sub.ctx.database sub.ctx.ns T = .ok () := by
  obtain ⟨hqueue, hafter⟩ := watch_ok hsub
  have hregular : sub.ctx.after.next.Regular := by
    rcases hafter with hzero | hknown
    · rw [hzero]
      decide
    · obtain ⟨entry, hentry⟩ := Option.isSome_iff_exists.mp hknown
      exact hlog _ (self.log.get_eq_some_iff_mem.mp hentry)
  constructor
  · intro h T hreaches
    obtain ⟨event, hdelivered, hconcerns⟩ := exists_delivered hqueue hregular hreaches
    exact h _ T hdelivered hconcerns
  · rintro h event T ⟨s, rfl, hstored, hevent⟩ hconcerns
    exact h T ((s.confined hstored.trackable).told event (Session.received_isPrefix.subset hevent) T hconcerns)

end Access

section Examples

open pelago_storage.security (PolicyPermission AuthPolicy upsert_policy)

/-- A policy that lets its principal watch people. -/
def watchPeople : AuthPolicy where
  policy_id := "p1"
  principal_id := "guest"
  permissions := [{ database := "db", ns := "ns", entity_type := "Person", actions := ["*"] }]
  created_at := 0

def guestService : WatchServiceImpl := { openService .empty "a" with db := upsert_policy .empty watchPeople }

def guestPrincipal : AuthPrincipal := ⟨"guest", "user", []⟩

/-- A person, and something else beside it. -/
def alsoSecret : WatchRequest :=
  .point
    { context := some ⟨"db", "ns"⟩
      nodes := [{ entity_type := "Person", node_id := "1_1" }, { entity_type := "Secret", node_id := "1_2" }]
      edges := [] }

/-- What `alsoSecret` starts. -/
def alsoSecretSub : Subscription :=
  { everythingFrom "a" .zero with filter := .Point [⟨"Person", "1_1", []⟩, ⟨"Secret", "1_2", []⟩] [] }

def secretLog : Log := .ofList [(stamp 1, [.data (.NodeCreate "Secret" "1_2" .empty "1")])]

def secretTold : Session where
  sub := alsoSecretSub
  ticks := [.work true, .poll false (.ok secretLog), .work true, .work true, .work true, .receive]

/-- Only the type of the first target is checked, and the others are told. -/
theorem second_target_told :
    watch guestService (some guestPrincipal) alsoSecret = .ok alsoSecretSub ∧
      authz.authorize guestService.db (some guestPrincipal) "watch.subscribe" "db" "ns" "Person" = .ok () ∧
      authz.authorize guestService.db (some guestPrincipal) "watch.subscribe" "db" "ns" "Secret" =
        .error (.permission_denied "principal 'guest' is not authorized for 'watch.subscribe'") ∧
      ∃ event, Delivered plainRegistry alsoSecretSub event ∧ event.Concerns "Secret" := by
  refine ⟨by rfl, by decide +kernel, by decide +kernel,
    node_event "a" (stamp 1) .Enter "Secret" "1_2" .empty "1" "node_create",
    ⟨secretTold, rfl, .none, by decide +kernel⟩, .inl ⟨_, rfl, rfl⟩⟩

def reader : AuthPrincipal := ⟨"reader", "user", ["read-only"]⟩

theorem reader_confined :
    watch guestService (some reader) alsoSecret = .ok alsoSecretSub ∧
      ∀ event T, Delivered plainRegistry alsoSecretSub event → event.Concerns T →
        authz.authorize guestService.db (some reader) "watch.subscribe" "db" "ns" T = .ok () :=
  ⟨rfl, (watch_confined_iff guestService (by decide +kernel) (some reader) alsoSecret alsoSecretSub rfl
    plainRegistry).mpr fun _ _ => rfl⟩

end Examples

end pelago_api.watch_service
