import Pelago.Api.WatchService.Resume

open bytes kv pelago_core pelago_storage List

namespace pelago_api.watch_service

section Attention

variable (registry : Registry) (sub : Subscription)

/-- A queue that a client has emptied. -/
def Channel.Idle (c : Channel) : Prop := c.queue = [] ∧ c.closed = false ∧ 0 < c.capacity

/-- The queue after the client has taken one more event. -/
def Channel.took (c : Channel) (event : WatchEvent) : Channel := { c with received := c.received ++ [.ok event] }

variable {c : Channel} {w : Watch}

theorem Channel.Idle.took (h : c.Idle) (event : WatchEvent) : (c.took event).Idle := h

theorem Channel.Idle.try_send (h : c.Idle) (event : WatchEvent) :
    c.try_send (.ok event) = .ok { c with queue := [.ok event] } := by
  obtain ⟨hqueue, hclosed, hcapacity⟩ := h
  simp [Channel.try_send, hqueue, hclosed, hcapacity]

theorem Channel.Idle.recv (h : c.Idle) (event : WatchEvent) :
    recv { c with queue := [.ok event] } = c.took event := by
  obtain ⟨hqueue, hclosed, -⟩ := h
  simp [Channel.recv, Channel.took, hqueue, hclosed]

/-- The loop sends an event and the client takes it. -/
def serve : List Tick := [.work true, .receive]

variable {registry sub}

theorem run_append (w : Watch) (ticks later : List Tick) :
    run registry sub w (ticks ++ later) = run registry sub (run registry sub w ticks) later :=
  foldl_append

/-- A client that takes every event gets the whole snapshot. -/
theorem attend_snapshot {events : List WatchEvent} {error : Option Status} (hphase : w.phase = .snapshot events error)
    (hidle : w.channel.Idle) :
    ∃ ticks, run registry sub w ticks =
      { w with
        matched_nodes := events.foldl (fun matched event => track_snapshot sub.filter event matched) w.matched_nodes
        channel := events.foldl .took w.channel
        phase := .snapshot [] error } := by
  induction events generalizing w with
  | nil => exact ⟨[], by rw [← hphase]; rfl⟩
  | cons event events ih =>
    have hserve : run registry sub w serve =
        { w with
          matched_nodes := track_snapshot sub.filter event w.matched_nodes
          channel := w.channel.took event
          phase := .snapshot events error } := by
      simp [serve, run, foldl_cons, foldl_nil, step, work, hphase, hidle.try_send, hidle.recv]
    have hidle' : (run registry sub w serve).channel.Idle := by
      rw [hserve]
      exact hidle.took _
    obtain ⟨ticks, hticks⟩ := ih (by rw [hserve]) hidle'
    refine ⟨serve ++ ticks, ?_⟩
    rw [run_append, hticks, hserve]
    rfl

theorem attend_waiting {waiting : List WatchEvent} {ops : List OperationDocument}
    {entries : List (Versionstamp × List OperationDocument)} (hphase : w.phase = .batch waiting ops entries)
    (hidle : w.channel.Idle) :
    ∃ ticks dropped, run registry sub w ticks =
      { w with
        dropped_events := dropped
        channel := waiting.foldl .took w.channel
        phase := .batch [] ops entries } := by
  induction waiting generalizing w with
  | nil => exact ⟨[], w.dropped_events, by rw [← hphase]; rfl⟩
  | cons event waiting ih =>
    have hserve : run registry sub w serve =
        { w with dropped_events := 0, channel := w.channel.took event, phase := .batch waiting ops entries } := by
      simp [serve, run, foldl_cons, foldl_nil, step, work, hphase, dispatch,
        try_dispatch_watch_event, hidle.try_send, hidle.recv]
    have hidle' : (run registry sub w serve).channel.Idle := by
      rw [hserve]
      exact hidle.took _
    obtain ⟨ticks, dropped, hticks⟩ := ih (by rw [hserve]) hidle'
    refine ⟨serve ++ ticks, dropped, ?_⟩
    rw [run_append, hticks, hserve]
    rfl

theorem Channel.Idle.foldl_took (h : c.Idle) (events : List WatchEvent) : (events.foldl .took c).Idle := by
  induction events generalizing c with
  | nil => exact h
  | cons event _ ih => exact ih (h.took _)

/-- A client that takes every event gets all that the operations of an entry yield. -/
theorem attend_operations {ops : List OperationDocument} {entries : List (Versionstamp × List OperationDocument)}
    (hphase : w.phase = .batch [] ops entries) (hidle : w.channel.Idle) :
    ∃ ticks dropped, run registry sub w ticks =
      { w with
        matched_nodes := (watch_operations sub.ctx.subscription_id registry sub.filter
          (ops.map fun op => (w.after, op)) w.matched_nodes).2
        dropped_events := dropped
        channel := (watch_operations sub.ctx.subscription_id registry sub.filter
          (ops.map fun op => (w.after, op)) w.matched_nodes).1.foldl .took w.channel
        phase := .batch [] [] entries } := by
  induction ops generalizing w with
  | nil => exact ⟨[], w.dropped_events, by rw [← hphase]; rfl⟩
  | cons op ops ih =>
    -- the events of the first operation, then those of the others
    have hop : run registry sub w [.work true] =
        { w with
          matched_nodes :=
            (cdc_op_to_watch_events sub.ctx.subscription_id w.after registry sub.filter op w.matched_nodes).2
          phase := .batch
            (cdc_op_to_watch_events sub.ctx.subscription_id w.after registry sub.filter op w.matched_nodes).1
            ops entries } := by
      simp [run, foldl_cons, foldl_nil, step, work, hphase]
    obtain ⟨ticks, dropped, hticks⟩ : ∃ ticks dropped, run registry sub (run registry sub w [.work true]) ticks = _ :=
      attend_waiting (by rw [hop]) (by rw [hop]; exact hidle)
    rw [hop] at hticks
    obtain ⟨ticks', dropped', hticks'⟩ :
        ∃ ticks' dropped', run registry sub (run registry sub (run registry sub w [.work true]) ticks) ticks' = _ :=
      ih (by rw [hop, hticks]) (by rw [hop, hticks]; exact hidle.foldl_took _)
    refine ⟨[.work true] ++ ticks ++ ticks', dropped', ?_⟩
    rw [run_append, run_append, hticks', hop, hticks]
    simp [watch_operations, foldl_append]

theorem events_foldl_took (c : Channel) (taken : List WatchEvent) :
    events (taken.foldl .took c).received = events c.received ++ taken := by
  induction taken generalizing c with
  | nil => simp
  | cons _ _ ih => rw [foldl_cons, ih, Channel.took, events_append, append_assoc]; rfl

end Attention

section Deliveries

variable {registry : Registry} {sub : Subscription}

theorem idle_first (hqueue : 0 < sub.queue_size) (rows : OrdMap Bytes Cell) (saved : Option QueryWatchState) :
    (spawn_watch_loop registry sub rows saved).channel.Idle := ⟨rfl, rfl, hqueue⟩

/-- Every event of a snapshot can be delivered. -/
theorem deliver_snapshot (hqueue : 0 < sub.queue_size) {rows : OrdMap Bytes Cell} {event : WatchEvent}
    (hevent : event ∈ (snapshotOf registry sub rows).1) :
    ∃ ticks, event ∈ Session.received registry ⟨sub, rows, none, ticks⟩ := by
  obtain ⟨ticks, hticks⟩ : ∃ ticks, run registry sub (spawn_watch_loop registry sub rows none) ticks = _ :=
    attend_snapshot rfl (idle_first hqueue _ _)
  refine ⟨ticks, ?_⟩
  rw [Session.received, Session.watch, Session.first, hticks, events_foldl_took]
  exact mem_append_right _ hevent

/-- A log with one entry, right after a position. -/
def nextEntry (after : Versionstamp) (ops : List OperationDocument) : Log := OrdMap.empty.set after.next ops

theorem read_nextEntry {after : Versionstamp} (hregular : after.next.Regular) (ops : List OperationDocument) :
    read_log (nextEntry after ops) after 256 = [(after.next, ops)] := by
  have hrows : (nextEntry after ops).rows = [(after.next, ops)] := rfl
  simp [read_log, hrows, hregular]

/-- Every event of an entry that comes next can be delivered, once the snapshot
is sent. -/
theorem deliver_next (hqueue : 0 < sub.queue_size) {rows : OrdMap Bytes Cell}
    (hsnapshot : (snapshotOf registry sub rows).2 = none) (hregular : sub.ctx.after.next.Regular)
    (ops : List OperationDocument) {event : WatchEvent}
    (hevent : event ∈ (watch_operations sub.ctx.subscription_id registry sub.filter
      (ops.map fun op => (sub.ctx.after.next, op)) (entering registry sub rows none)).1) :
    ∃ ticks, event ∈ Session.received registry ⟨sub, rows, none, ticks⟩ := by
  have hidle : (spawn_watch_loop registry sub rows none).channel.Idle := idle_first hqueue _ _
  obtain ⟨ticks, hticks⟩ : ∃ ticks, run registry sub (spawn_watch_loop registry sub rows none) ticks = _ :=
    attend_snapshot rfl hidle
  -- the loop starts, reads the entry and goes to its first operation
  let w : Watch :=
    { spawn_watch_loop registry sub rows none with
      after := sub.ctx.after.next
      matched_nodes := entering registry sub rows none
      channel := (snapshotOf registry sub rows).1.foldl .took (spawn_watch_loop registry sub rows none).channel
      phase := .batch [] ops [] }
  have hread := read_nextEntry hregular ops
  have hentry : run registry sub (run registry sub (spawn_watch_loop registry sub rows none) ticks)
      [.work true, .poll false (.ok (nextEntry sub.ctx.after ops)), .work true] = w := by
    rw [hticks]
    simp only [run, foldl_cons, foldl_nil, step, work, hsnapshot, poll, send_heartbeat, spawn_watch_loop,
      hread, Bool.false_eq_true, if_false]
    rfl
  obtain ⟨ticks', _, hticks'⟩ := @attend_operations registry sub w ops [] rfl (hidle.foldl_took _)
  refine ⟨ticks ++ [.work true, .poll false (.ok (nextEntry sub.ctx.after ops)), .work true] ++ ticks', ?_⟩
  rw [Session.received, Session.watch, Session.first, run_append, run_append, hentry, hticks', events_foldl_took]
  exact mem_append_right _ hevent

end Deliveries

open Option PointEdgeTarget
open pelago_storage.node (data_key)

section Points

variable {rows : OrdMap Bytes Cell} {ctx : WatchContext}

/-- The id of a target can be parsed. -/
def PointNodeTarget.named (target : PointNodeTarget) : Bool := (NodeId.from_str target.node_id).isSome

/-- The targets before the first whose id cannot be parsed. -/
def namedTargets (targets : List PointNodeTarget) : List PointNodeTarget := targets.takeWhile PointNodeTarget.named

/-- The key of the record of a target. -/
def targetKey (ctx : WatchContext) (target : PointNodeTarget) : Bytes :=
  data_key (Subspace.of_namespace ctx.database ctx.ns).data target.entity_type
    (((NodeId.from_str target.node_id).map NodeId.to_bytes).getD [])

variable {target : PointNodeTarget}

theorem fetch_of_named (h : target.named = true) :
    fetch_node_snapshot rows ctx target.entity_type target.node_id =
      match rows.get (targetKey ctx target) with
      | none => .ok none
      | some value =>
        match decode_cbor value with
        | .ok data => .ok (some ⟨target.entity_type, target.node_id, data⟩)
        | .error e => .error (.internal "snapshot decode failed: " e) := by
  obtain ⟨id, hid⟩ := isSome_iff_exists.mp h
  simp only [fetch_node_snapshot, targetKey, hid, map_some, getD_some] <;> rfl

theorem fetch_of_not_named (h : target.named = false) :
    fetch_node_snapshot rows ctx target.entity_type target.node_id =
      .error (.invalid_argument "invalid node_id in watch target") := by
  have hnone : NodeId.from_str target.node_id = none := by simpa [PointNodeTarget.named] using h
  simp [fetch_node_snapshot, hnone]

variable {targets : List PointNodeTarget} {emitted : Nat}

/-- A snapshot is about nodes whose ids can be parsed. -/
theorem snapshot_points_type {event : WatchEvent} (h : event ∈ (snapshot_points rows ctx targets emitted).1) :
    event.edge = none ∧ ∃ target ∈ namedTargets targets, ∃ node, event.node = some node ∧
      node.entity_type = target.entity_type := by
  induction targets generalizing emitted with
  | nil => cases h
  | cons target rest ih =>
    simp only [snapshot_points] at h
    split at h
    · cases h
    · cases hnamed : target.named with
      | false =>
        rw [fetch_of_not_named hnamed] at h
        cases h
      | true =>
        have htargets : namedTargets (target :: rest) = target :: namedTargets rest := by
          simp [namedTargets, hnamed]
        rw [htargets]
        have hlater : ∀ {emitted}, event ∈ (snapshot_points rows ctx rest emitted).1 →
            event.edge = none ∧ ∃ target' ∈ target :: namedTargets rest, ∃ node, event.node = some node ∧
              node.entity_type = target'.entity_type := by
          intro _ hevent
          obtain ⟨hedge, target', htarget', hnode⟩ := ih hevent
          exact ⟨hedge, target', mem_cons_of_mem _ htarget', hnode⟩
        split at h
        · cases h
        · exact hlater h
        · rename_i snapshot hfetch
          rcases mem_cons.mp h with rfl | h
          · refine ⟨rfl, target, mem_cons_self, _, rfl, ?_⟩
            rw [fetch_of_named hnamed] at hfetch
            split at hfetch
            · cases hfetch
            · split at hfetch
              · cases hfetch
                rfl
              · cases hfetch
          · exact hlater h

/-- A snapshot that does not fail has found its limit, or has no id that cannot
be parsed. -/
theorem snapshot_points_ended (h : (snapshot_points rows ctx targets emitted).2 = none) :
    namedTargets targets = targets ∨ max ctx.initial_snapshot_limit 1 ≤ emitted + (namedTargets targets).length := by
  induction targets generalizing emitted with
  | nil => exact .inl rfl
  | cons target rest ih =>
    simp only [snapshot_points] at h
    split at h
    · exact .inr (by omega)
    · cases hnamed : target.named with
      | false =>
        rw [fetch_of_not_named hnamed] at h
        cases h
      | true =>
        have htargets : namedTargets (target :: rest) = target :: namedTargets rest := by
          simp [namedTargets, hnamed]
        have hnext : ∀ {emitted'}, emitted' ≤ emitted + 1 → (snapshot_points rows ctx rest emitted').2 = none →
            namedTargets (target :: rest) = target :: rest ∨
              max ctx.initial_snapshot_limit 1 ≤ emitted + (namedTargets (target :: rest)).length := by
          intro emitted' hle hrest
          rw [htargets]
          rcases ih hrest with hall | hroom
          · exact .inl (by rw [hall])
          · exact .inr (by rw [length_cons]; omega)
        split at h
        · cases h
        · exact hnext (Nat.le_succ _) h
        · exact hnext le_rfl h

/-- With no rows nothing is found. -/
theorem snapshot_points_empty (h : namedTargets targets = targets) (emitted : Nat) :
    (snapshot_points .empty ctx targets emitted).2 = none := by
  induction targets with
  | nil => rfl
  | cons target rest ih =>
    have hnamed : target.named = true := by
      by_contra hnot
      simp [namedTargets, hnot] at h
    have hrest : namedTargets rest = rest := by simpa [namedTargets, hnamed] using h
    simp only [snapshot_points]
    split
    · rfl
    · rw [fetch_of_named hnamed]
      exact ih hrest

/-- With rows for all, the limit is found. -/
theorem snapshot_points_full {d : NodeData}
    (hrows : ∀ target ∈ namedTargets targets, rows.get (targetKey ctx target) = some (.node d))
    (h : max ctx.initial_snapshot_limit 1 ≤ emitted + (namedTargets targets).length) :
    (snapshot_points rows ctx targets emitted).2 = none := by
  induction targets generalizing emitted with
  | nil => rfl
  | cons target rest ih =>
    simp only [snapshot_points]
    split
    · rfl
    · rename_i hroom
      cases hnamed : target.named with
      | false =>
        have hnone : namedTargets (target :: rest) = [] := by simp [namedTargets, hnamed]
        rw [hnone] at h
        exact absurd h hroom
      | true =>
        have htargets : namedTargets (target :: rest) = target :: namedTargets rest := by
          simp [namedTargets, hnamed]
        rw [htargets] at hrows h
        rw [fetch_of_named hnamed, hrows _ mem_cons_self]
        refine ih (fun _ htarget' => hrows _ (mem_cons_of_mem _ htarget')) ?_
        rw [length_cons] at h
        omega

/-- With the row of a target, its type is shown. -/
theorem snapshot_points_one {d : NodeData}
    (htarget : target ∈ namedTargets targets) (hroom : emitted < max ctx.initial_snapshot_limit 1) :
    ∃ event ∈ (snapshot_points (OrdMap.empty.set (targetKey ctx target) (.node d)) ctx targets emitted).1,
      ∃ node, event.node = some node ∧ node.entity_type = target.entity_type := by
  induction targets with
  | nil => cases htarget
  | cons first rest ih =>
    cases hnamed : first.named with
    | false => simp [namedTargets, hnamed] at htarget
    | true =>
      have htargets : namedTargets (first :: rest) = first :: namedTargets rest := by simp [namedTargets, hnamed]
      rw [htargets] at htarget
      simp only [snapshot_points]
      rw [if_neg (not_le.mpr hroom), fetch_of_named hnamed, OrdMap.get_set]
      by_cases hkey : targetKey ctx first = targetKey ctx target
      · rw [if_pos hkey]
        refine ⟨_, mem_cons_self, _, rfl, ?_⟩
        have htarget' : target.named = true := by
          rcases mem_cons.mp htarget with rfl | htarget
          · exact hnamed
          · exact all_eq_true.mp all_takeWhile target htarget
        obtain ⟨id, hid⟩ := isSome_iff_exists.mp hnamed
        obtain ⟨id', hid'⟩ := isSome_iff_exists.mp htarget'
        rw [targetKey, targetKey, hid, hid'] at hkey
        exact (record_key_inj hkey).1
      · rw [if_neg hkey]
        refine ih ?_
        rcases mem_cons.mp htarget with rfl | htarget
        · exact absurd rfl hkey
        · exact htarget

end Points

section EdgeTargets

/-- The types of the sources of the edges that an edge target matches. -/
def PointEdgeTarget.Reaches (target : PointEdgeTarget) (entity_type : String) : Prop :=
  let outbound := entity_type = target.source_entity_type
  let inbound := ∀ other ∈ target.target, entity_type = other.1
  if target.direction = EdgeDirection.Incoming then inbound
  else if target.direction = EdgeDirection.Both then outbound ∨ inbound
  else outbound

variable (target : PointEdgeTarget) (entity_type : String)

/-- The edges from the named end. -/
def PointEdgeTarget.outbound (source_type source_id target_type target_id : String) : Bool :=
  target.source_entity_type == source_type && target.source_node_id == source_id &&
    (target.target.map fun (et, id) => et == target_type && id == target_id).getD true

/-- The edges to the named end. -/
def PointEdgeTarget.inbound (source_type source_id target_type target_id : String) : Bool :=
  target.outbound target_type target_id source_type source_id

theorem point_edge_target_matches_eq (source_type source_id target_type target_id : String) :
    point_edge_target_matches target source_type source_id target_type target_id target.label =
      if target.direction = EdgeDirection.Incoming then target.inbound source_type source_id target_type target_id
      else if target.direction = EdgeDirection.Both then
        target.outbound source_type source_id target_type target_id ||
          target.inbound source_type source_id target_type target_id
      else target.outbound source_type source_id target_type target_id := by
  simp [point_edge_target_matches, inbound, outbound]

/-- The label of a match is the one of the target, unless that is empty. -/
theorem point_edge_target_matches_label {source_type source_id target_type target_id label : String}
    (h : point_edge_target_matches target source_type source_id target_type target_id label = true) :
    point_edge_target_matches target source_type source_id target_type target_id target.label = true := by
  unfold point_edge_target_matches at h ⊢
  split at h
  · cases h
  · simpa using h

theorem outbound_iff : (∃ source_id target_type target_id,
    target.outbound entity_type source_id target_type target_id = true) ↔ entity_type = target.source_entity_type := by
  constructor
  · rintro ⟨source_id, _, _, h⟩
    simp only [outbound, Bool.and_eq_true, beq_iff_eq] at h
    exact h.1.1.symm
  · rintro rfl
    cases htarget : target.target with
    | none => exact ⟨target.source_node_id, "", "", by simp [outbound, htarget]⟩
    | some other => exact ⟨target.source_node_id, other.1, other.2, by simp [outbound, htarget]⟩

theorem inbound_iff : (∃ source_id target_type target_id,
    target.inbound entity_type source_id target_type target_id = true) ↔
      ∀ other ∈ target.target, entity_type = other.1 := by
  constructor
  · rintro ⟨source_id, _, _, h⟩ _ hother
    rw [mem_def] at hother
    simp only [inbound, outbound, Bool.and_eq_true, beq_iff_eq, hother, map_some, getD_some] at h
    exact h.2.1.symm
  · intro h
    cases htarget : target.target with
    | none =>
      exact ⟨"", target.source_entity_type, target.source_node_id, by
        simp [inbound, outbound, htarget]⟩
    | some other =>
      have htype := h _ htarget
      exact ⟨other.2, target.source_entity_type, target.source_node_id, by
        simp [inbound, outbound, htarget, htype]⟩

/-- An edge target reaches the types of the sources of the edges it matches,
and no others. -/
theorem point_edge_target_reaches_iff : target.Reaches entity_type ↔ ∃ source_id target_type target_id,
      point_edge_target_matches target entity_type source_id target_type target_id target.label = true := by
  simp only [point_edge_target_matches_eq, Reaches]
  split
  · exact (inbound_iff ..).symm
  · split
    · simp only [Bool.or_eq_true, exists_or]
      rw [outbound_iff, inbound_iff]
    · exact (outbound_iff ..).symm

end EdgeTargets

end pelago_api.watch_service
