import Pelago.Api.WatchService.Loop

open kv pelago_core pelago_storage List

namespace pelago_api.watch_service

variable {entries : List (Versionstamp × List OperationDocument)} {x : Versionstamp × OperationDocument}
  {op : OperationDocument}

section Operations

/-- The operations of entries, with their positions. -/
def operations (entries : List (Versionstamp × List OperationDocument)) : List (Versionstamp × OperationDocument) :=
  entries.flatMap fun entry => entry.2.map fun op => (entry.1, op)

@[simp] theorem operations_nil : operations [] = [] := rfl

@[simp] theorem operations_cons (entry : Versionstamp × List OperationDocument)
    (entries : List (Versionstamp × List OperationDocument)) :
    operations (entry :: entries) = (entry.2.map fun op => (entry.1, op)) ++ operations entries := rfl

@[simp] theorem operations_append (before after : List (Versionstamp × List OperationDocument)) :
    operations (before ++ after) = operations before ++ operations after := by
  simp [operations]

theorem fst_of_mem_operations (h : x ∈ operations entries) : ∃ entry ∈ entries, entry.1 = x.1 := by
  obtain ⟨entry, hentry, hx⟩ := mem_flatMap.mp h
  obtain ⟨op, -, rfl⟩ := mem_map.mp hx
  exact ⟨entry, hentry, rfl⟩

theorem operations_sorted
    (h : entries.Pairwise fun a b => a.1 < b.1) : (operations entries).Pairwise fun a b => a.1 ≤ b.1 := by
  induction entries with
  | nil => exact .nil
  | cons _ _ ih =>
    obtain ⟨hentry, hentries⟩ := pairwise_cons.mp h
    refine pairwise_append.mpr ⟨?_, ih hentries, fun x hx y hy => ?_⟩
    · exact pairwise_map.mpr (pairwise_of_forall fun _ _ => le_rfl)
    · obtain ⟨op, -, rfl⟩ := mem_map.mp hx
      obtain ⟨entry', hentry', heq⟩ := fst_of_mem_operations hy
      exact heq ▸ (hentry _ hentry').le

variable {sub_id : String} {registry : Registry} {filter : WatchFilter}

/-- What an operation yields: an event about a node of the watch, or about an
edge that it sees. A query has the node tracked, or finds that it matches. -/
inductive Yields (sub_id : String) (vs : Versionstamp) (registry : Registry) (filter : WatchFilter)
    (matched_nodes : Finset String) : WatchEvent → Prop where
  | node {type : WatchEventType} {entity_type node_id : String} {properties : Properties} {locality reason : String}
      (htype : type ≠ .Heartbeat) (hscope : matches_node_scope filter entity_type node_id = true)
      (hquery : ∀ q, filter = .Query q → node_key entity_type node_id ∈ matched_nodes ∨
        ∃ props, query_matches_node registry q entity_type props = true) :
      Yields sub_id vs registry filter matched_nodes
        (node_event sub_id vs type entity_type node_id properties locality reason)
  | edge {type : WatchEventType} {edge_id : String} {source target : EdgeEnd} {label reason : String}
      {properties : Properties} (htype : type ≠ .Heartbeat)
      (hvisible : edge_visible filter source.entity_type source.node_id target.entity_type target.node_id label
        matched_nodes = true) :
      Yields sub_id vs registry filter matched_nodes
        (edge_event sub_id vs type edge_id source target label properties reason)

theorem matches_node_scope_of_update {entity_type node_id : String} {changed : Properties}
    (h : matches_node_update_scope filter entity_type node_id changed = true) :
    matches_node_scope filter entity_type node_id = true := by
  cases filter with
  | Namespace => rfl
  | Query => exact h
  | Point =>
    obtain ⟨target, hmem, -⟩ := any_eq_true.mp h
    obtain ⟨hmem, htarget⟩ := mem_filter.mp hmem
    exact any_eq_true.mpr ⟨target, hmem, htarget⟩

/-- A query tells of an update only if the node was in its result or is now. -/
theorem update_transition_some {was new : Bool} {type : WatchEventType} (h : update_transition was new = some type) :
    type ≠ .Heartbeat ∧ (was = true ∨ new = true) := by
  cases was <;> cases new <;> cases h <;> simp

variable {vs : Versionstamp} {matched_nodes : Finset String} {event : WatchEvent}

theorem update_yields {entity_type node_id : String} {changed old : Properties}
    (h : event ∈ (cdc_op_to_watch_events sub_id vs registry filter
      (.data (.NodeUpdate entity_type node_id changed old)) matched_nodes).1) :
    Yields sub_id vs registry filter matched_nodes event := by
  simp only [cdc_op_to_watch_events] at h
  split at h
  · rename_i hscope
    have hscope := matches_node_scope_of_update hscope
    cases filter with
    | Query =>
      obtain ⟨type, htype, rfl⟩ := Option.map_eq_some_iff.mp (Option.mem_toList.mp h)
      obtain ⟨hbeat, hmatch⟩ := update_transition_some htype
      refine .node hbeat hscope fun _ hq => ?_
      cases hq
      rw [Bool.or_eq_true, decide_eq_true_eq] at hmatch
      rcases hmatch with (htracked | hold) | hnew
      · exact .inl htracked
      · exact .inr ⟨_, hold⟩
      · exact .inr ⟨_, hnew⟩
    | Namespace | Point =>
      obtain rfl := mem_singleton.mp h
      exact .node (by simp) hscope (by simp)
  · cases h

section

variable (h : event ∈ (cdc_op_to_watch_events sub_id vs registry filter op matched_nodes).1)
include h

theorem yields_of_operation : Yields sub_id vs registry filter matched_nodes event := by
  cases op with
  | SchemaRegister => cases h
  | data op =>
    cases op with
    | NodeCreate entity_type node_id properties home_site =>
      simp only [cdc_op_to_watch_events] at h
      split at h
      · rename_i hscope
        split at h
        · split at h
          · rename_i hmatch
            obtain rfl := mem_singleton.mp h
            refine .node (by simp) hscope fun _ hq => ?_
            cases hq
            exact .inr ⟨_, hmatch⟩
          · cases h
        · rename_i hnot
          obtain rfl := mem_singleton.mp h
          exact .node (by simp) hscope fun q hq => absurd hq (hnot q)
      · cases h
    | NodeUpdate => exact update_yields h
    | NodeDelete entity_type node_id | OwnershipTransfer =>
      simp only [cdc_op_to_watch_events] at h
      split at h
      · rename_i hscope
        split at h
        · split at h
          · rename_i htracked
            obtain rfl := mem_singleton.mp h
            exact .node (by simp) hscope fun _ _ => .inl htracked
          · cases h
        · rename_i hnot
          obtain rfl := mem_singleton.mp h
          exact .node (by simp) hscope fun q hq => absurd hq (hnot q)
      · cases h
    | EdgeCreate | EdgeDelete =>
      simp only [cdc_op_to_watch_events] at h
      split at h
      · obtain rfl := mem_singleton.mp h
        exact .edge (by simp) ‹_›
      · cases h

/-- Events carry the position of their operation, and are no heartbeats. -/
theorem event_of_operation : event.versionstamp = vs ∧ event.type ≠ .Heartbeat := by
  cases yields_of_operation h with
  | node htype | edge htype => exact ⟨rfl, htype⟩

end

variable {ops : List (Versionstamp × OperationDocument)}

theorem event_of_operations (h : event ∈ (watch_operations sub_id registry filter ops matched_nodes).1) :
    (∃ x ∈ ops, event.versionstamp = x.1) ∧ event.type ≠ .Heartbeat := by
  induction ops generalizing matched_nodes with
  | nil => cases h
  | cons x _ ih =>
    obtain ⟨vs, op⟩ := x
    rcases mem_append.mp h with h | h
    · obtain ⟨hvs, htype⟩ := event_of_operation h
      exact ⟨⟨(vs, op), mem_cons_self, hvs⟩, htype⟩
    · obtain ⟨⟨x, hx, hvs⟩, htype⟩ := ih h
      exact ⟨⟨x, mem_cons_of_mem _ hx, hvs⟩, htype⟩

/-- Events come in the order of their positions. -/
theorem events_sorted (hsorted : ops.Pairwise fun a b => a.1 ≤ b.1)
    (matched_nodes : Finset String) : (watch_operations sub_id registry filter ops matched_nodes).1.Pairwise
      fun a b => a.versionstamp ≤ b.versionstamp := by
  induction ops generalizing matched_nodes with
  | nil => exact .nil
  | cons x _ ih =>
    obtain ⟨hx, hops⟩ := pairwise_cons.mp hsorted
    refine pairwise_append.mpr ⟨?_, ih hops _, fun a ha b hb => ?_⟩
    · refine pairwise_of_forall_mem_list fun a ha b hb => ?_
      rw [(event_of_operation ha).1, (event_of_operation hb).1]
    · obtain ⟨⟨y, hy, hb⟩, -⟩ := event_of_operations hb
      rw [(event_of_operation ha).1, hb]
      exact hx y hy

end Operations

section Reading

/-- The entries that a loop has yet to see. -/
def Log.left (log : Log) (after : Versionstamp) : List (Versionstamp × List OperationDocument) :=
  log.after (after : WithBot Versionstamp)

variable {log seen : Log} {after : Versionstamp}

theorem read_log_eq (hregular : ∀ row ∈ log.rows, row.1.Regular) (hafter : after.Regular) (limit : Nat) :
    read_log log after limit = (log.left after).take limit := by
  rw [read_log]
  congr 1
  refine filter_congr fun row hrow => ?_
  simp [hregular _ hrow, Versionstamp.next_le_iff hafter.ne_last]

/-- A read of the log as it was returns the entries that come next. -/
theorem read_log_isPrefix (hregular : ∀ row ∈ log.rows, row.1.Regular) (hafter : after.Regular)
    (hseen : seen.rows <+: log.rows) (limit : Nat) : read_log seen after limit <+: log.left after := by
  rw [read_log_eq (fun row hrow => hregular _ (hseen.subset hrow)) hafter]
  exact ( take_prefix ..).trans (hseen.filter _)

/-- The next entry, and what is left after it. -/
theorem Log.left_cons {entry : Versionstamp × List OperationDocument} (h : log.left after = entry :: entries) :
    entry ∈ log.rows ∧ after < entry.1 ∧ log.left entry.1 = entries := by
  have hall : ∀ rows : List (Versionstamp × List OperationDocument), rows.filter (fun _ => true) = rows := by
    simp
  rw [left, ← hall (log.after _)] at h
  obtain ⟨hmem, hlt, -, hrest⟩ := OrdMap.filter_after_cons h
  rw [hall] at hrest
  exact ⟨hmem, WithBot.coe_lt_coe.mp hlt, hrest⟩

theorem Log.left_sorted (log : Log) (after : Versionstamp) :
    (operations (log.left after)).Pairwise fun a b => a.1 ≤ b.1 :=
  operations_sorted (log.after_sorted _)

theorem Log.lt_of_mem_left (h : x ∈ operations (log.left after)) : after < x.1 := by
  obtain ⟨entry, hentry, hx⟩ := fst_of_mem_operations h
  exact hx ▸ WithBot.coe_lt_coe.mp (OrdMap.mem_after.mp hentry).2

end Reading

variable {tx : Channel}

section Streams

/-- The events of a stream. -/
def events (items : List Item) : List WatchEvent := items.filterMap Except.toOption

/-- The events that tell something. -/
def news (items : List WatchEvent) : List WatchEvent := items.filter fun event => event.type ≠ .Heartbeat

@[simp] theorem events_append (items later : List Item) : events (items ++ later) = events items ++ events later :=
  filterMap_append

@[simp] theorem events_ok (event : WatchEvent) : events [.ok event] = [event] := rfl

@[simp] theorem events_error (status : Status) : events [.error status] = [] := rfl

@[simp] theorem news_append (items later : List WatchEvent) : news (items ++ later) = news items ++ news later :=
  filter_append ..

theorem news_eq_self {items : List WatchEvent} (h : ∀ event ∈ items, event.type ≠ .Heartbeat) : news items = items :=
  filter_eq_self.mpr fun _ hevent => decide_eq_true (h _ hevent)

@[simp] theorem news_heartbeat (sub : Subscription) (after : Versionstamp) : news [heartbeat sub after] = [] := rfl

/-- The events that a watch has put on its queue. -/
def Watch.told (w : Watch) : List WatchEvent := events w.channel.sent

theorem Beats.told {sub : Subscription} {w : Watch} (h : Beats sub w tx) :
    events tx.sent = w.told ∨ events tx.sent = w.told ++ [heartbeat sub w.after] := by
  rcases h with h | h
  · exact .inl (by rw [h, Watch.told])
  · exact .inr (by rw [h, Watch.told, events_append, events_ok])

end Streams

section Course

/-- The nodes that a watch tracks when it starts to read the log. -/
def entering (registry : Registry) (sub : Subscription) (rows : OrdMap Bytes Cell) (saved : Option QueryWatchState) :
    Finset String :=
  (snapshotOf registry sub rows).1.foldl (fun matched event => track_snapshot sub.filter event matched)
    (restored sub saved)

variable (registry : Registry) (sub : Subscription) (log : Log) (snapshot : List WatchEvent)
  (start : Finset String)

/-- What the log holds for a watch. -/
def produced : List WatchEvent :=
  (watch_operations sub.ctx.subscription_id registry sub.filter (operations (log.left sub.ctx.after)) start).1

/-- What a loop that reads the log still has to do with what it has read. -/
def Phase.parts : Phase → Option (List WatchEvent × List OperationDocument ×
    List (Versionstamp × List OperationDocument))
  | .head => some ([], [], [])
  | .batch events operations entries => some (events, operations, entries)
  | _ => none

def Phase.Over : Phase → Prop
  | .failing _ | .ended => True
  | _ => False

/-- How far a loop has come in the log: the operations it has passed have
yielded the events it has dispatched and those that wait. -/
structure InStep (after : Versionstamp) (matched_nodes : Finset String) (waiting : List WatchEvent)
    (ops : List OperationDocument) (entries : List (Versionstamp × List OperationDocument))
    (dispatched : List WatchEvent) : Prop where
  entries : entries <+: log.left after
  passed : ∃ passed, operations (log.left sub.ctx.after) =
      passed ++ (ops.map fun op => (after, op)) ++ operations (log.left after) ∧
    watch_operations sub.ctx.subscription_id registry sub.filter passed start = (dispatched ++ waiting, matched_nodes)
  waiting : ∀ event ∈ waiting, event.versionstamp = after ∧ event.type ≠ .Heartbeat
  start_le : sub.ctx.after ≤ after
  known : after = sub.ctx.after ∨ (log.get after).isSome

/-- The course of a watch that sends nothing once it has dropped an event. -/
inductive Course (w : Watch) : Prop where
  | snapshot {shown rest : List WatchEvent} {error : Option Status} (hphase : w.phase = .snapshot rest error)
      (hafter : w.after = sub.ctx.after) (hdropped : w.dropped_events = 0)
      (hmatched : rest.foldl (fun matched event => track_snapshot sub.filter event matched) w.matched_nodes = start)
      (hshown : snapshot = shown ++ rest) (htold : w.told = shown)
  | reading {waiting : List WatchEvent} {ops : List OperationDocument}
      {entries : List (Versionstamp × List OperationDocument)} {dispatched : List WatchEvent}
      (hphase : w.phase.parts = some (waiting, ops, entries))
      (hstep : InStep registry sub log start w.after w.matched_nodes waiting ops entries dispatched)
      (hnews : news w.told <+: snapshot ++ dispatched)
      (hall : w.dropped_events = 0 → news w.told = snapshot ++ dispatched)
  | ended (hphase : w.phase.Over) (hnews : news w.told <+: snapshot ++ produced registry sub log start)

/-- A heartbeat follows all that the log holds up to its position. -/
def Heard (told : List WatchEvent) : Prop :=
  ∀ before event after, told = before ++ event :: after → event.type = .Heartbeat →
    ∀ other ∈ snapshot ++ produced registry sub log start, other.versionstamp ≤ event.versionstamp → other ∈ before

/-- Events are about positions of the log. -/
def Placed (told : List WatchEvent) : Prop :=
  ∀ event ∈ told, sub.ctx.after ≤ event.versionstamp ∧
    (event.versionstamp = sub.ctx.after ∨ (log.get event.versionstamp).isSome)

/-- Nothing is sent while events are missing. -/
def Quiet (w w' : Watch) : Prop := 0 < w.dropped_events → w'.told = w.told

section Steps

variable {registry sub log snapshot start} {after : Versionstamp} {matched_nodes : Finset String}
  {waiting : List WatchEvent} {ops : List OperationDocument} {entries : List (Versionstamp × List OperationDocument)}
  {dispatched : List WatchEvent}

variable {event : WatchEvent} {entries' : List (Versionstamp × List OperationDocument)}

namespace InStep

theorem begin (registry : Registry) (sub : Subscription) (log : Log) (start : Finset String) :
    InStep registry sub log start sub.ctx.after start [] [] [] [] where
  entries := nil_prefix
  passed := ⟨[], rfl, rfl⟩
  waiting := by simp
  start_le := le_rfl
  known := .inl rfl

theorem dispatch (h : InStep registry sub log start after matched_nodes (event :: waiting) ops entries dispatched) :
    InStep registry sub log start after matched_nodes waiting ops entries (dispatched ++ [event]) where
  entries := h.entries
  passed := by
    obtain ⟨passed, hsplit, hevents⟩ := h.passed
    exact ⟨passed, hsplit, by rw [hevents, append_assoc]; rfl⟩
  waiting := fun _ hother => h.waiting _ (mem_cons_of_mem _ hother)
  start_le := h.start_le
  known := h.known

theorem operation {matched_nodes' : Finset String}
    (h : InStep registry sub log start after matched_nodes [] (op :: ops) entries dispatched)
    (hevents : cdc_op_to_watch_events sub.ctx.subscription_id after registry sub.filter op matched_nodes =
      (waiting, matched_nodes')) :
    InStep registry sub log start after matched_nodes' waiting ops entries dispatched where
  entries := h.entries
  passed := by
    obtain ⟨passed, hsplit, hpassed⟩ := h.passed
    refine ⟨passed ++ [(after, op)], by simp [hsplit], ?_⟩
    rw [watch_operations_concat, hpassed]
    simp [hevents]
  waiting := by
    intro _ hevent
    apply event_of_operation
    rw [hevents]
    exact hevent
  start_le := h.start_le
  known := h.known

theorem entry {vs : Versionstamp}
    (h : InStep registry sub log start after matched_nodes [] [] ((vs, ops) :: entries) dispatched) :
    InStep registry sub log start vs matched_nodes [] ops entries dispatched := by
  obtain ⟨later, hlater⟩ := h.entries
  obtain ⟨hmem, hlt, hleft⟩ := Log.left_cons hlater.symm
  refine ⟨⟨later, hleft.symm⟩, ?_, by simp, h.start_le.trans hlt.le, .inr ?_⟩
  · obtain ⟨passed, hsplit, hpassed⟩ := h.passed
    refine ⟨passed, ?_, hpassed⟩
    rw [hsplit, ← hlater, hleft]
    simp
  · rw [log.get_eq_some_iff_mem.mpr hmem]
    rfl

theorem read (h : InStep registry sub log start after matched_nodes waiting [] entries dispatched)
    (hentries : entries' <+: log.left after) :
    InStep registry sub log start after matched_nodes waiting [] entries' dispatched :=
  { h with entries := hentries }

section

variable (h : InStep registry sub log start after matched_nodes waiting ops entries dispatched)
include h

theorem regular (hregular : ∀ row ∈ log.rows, row.1.Regular) (hstart : sub.ctx.after.Regular) : after.Regular := by
  rcases h.known with hafter | hafter
  · exact hafter ▸ hstart
  · obtain ⟨entry, hentry⟩ := Option.isSome_iff_exists.mp hafter
    exact hregular _ (log.get_eq_some_iff_mem.mp hentry)

/-- What is left of the log yields the rest of the events. -/
theorem produced_eq : produced registry sub log start = dispatched ++ waiting ++
      (watch_operations sub.ctx.subscription_id registry sub.filter
        ((ops.map fun op => (after, op)) ++ operations (log.left after)) matched_nodes).1 := by
  obtain ⟨passed, hsplit, hpassed⟩ := h.passed
  rw [produced, hsplit, append_assoc, watch_operations_append, hpassed]

theorem dispatched_isPrefix : dispatched <+: produced registry sub log start := by
  rw [h.produced_eq, append_assoc]
  exact prefix_append ..

end

/-- Between entries, what is not dispatched lies ahead. -/
theorem mem_dispatched (h : InStep registry sub log start after matched_nodes [] [] entries dispatched)
    (hevent : event ∈ produced registry sub log start) (hle : event.versionstamp ≤ after) : event ∈ dispatched := by
  rw [h.produced_eq, append_nil, mem_append] at hevent
  rcases hevent with hevent | hevent
  · exact hevent
  · obtain ⟨⟨x, hx, hvs⟩, -⟩ := event_of_operations hevent
    exact absurd hle (not_le.mpr (hvs ▸ Log.lt_of_mem_left hx))

end InStep

variable {w w' : Watch}

/-- What has been told, as far as the log has been read. -/
theorem Course.reading_of_parts (h : Course registry sub log snapshot start w)
    (hphase : w.phase.parts = some (waiting, ops, entries)) :
    ∃ dispatched, InStep registry sub log start w.after w.matched_nodes waiting ops entries dispatched ∧
      news w.told <+: snapshot ++ dispatched ∧ (w.dropped_events = 0 → news w.told = snapshot ++ dispatched) := by
  cases h with
  | snapshot hsnapshot =>
    rw [hsnapshot] at hphase
    cases hphase
  | @reading waiting' ops' entries' dispatched hreading hstep hnews hall =>
    obtain ⟨rfl, rfl, rfl⟩ : waiting' = waiting ∧ ops' = ops ∧ entries' = entries := by
      simpa using hreading.symm.trans hphase
    exact ⟨dispatched, hstep, hnews, hall⟩
  | ended =>
    cases hw : w.phase <;> simp_all [Phase.Over, Phase.parts]

variable {rest told : List WatchEvent}

theorem Course.snapshot_of_phase {error : Option Status}
    (h : Course registry sub log snapshot start w) (hphase : w.phase = .snapshot rest error) :
    ∃ shown, w.after = sub.ctx.after ∧ w.dropped_events = 0 ∧
      rest.foldl (fun matched event => track_snapshot sub.filter event matched) w.matched_nodes = start ∧
      snapshot = shown ++ rest ∧ w.told = shown := by
  cases h with
  | @snapshot shown rest' error' hsnapshot hafter hdropped hmatched hshown htold =>
    obtain ⟨rfl, -⟩ : rest' = rest ∧ error' = error := by simpa using hsnapshot.symm.trans hphase
    exact ⟨shown, hafter, hdropped, hmatched, hshown, htold⟩
  | reading hreading =>
    rw [hphase] at hreading
    cases hreading
  | ended hover =>
    rw [hphase] at hover
    exact hover.elim

theorem Course.news_isPrefix (hsnapshot : ∀ event ∈ snapshot, event.type ≠ .Heartbeat)
    (h : Course registry sub log snapshot start w) :
    news w.told <+: snapshot ++ produced registry sub log start := by
  cases h with
  | @snapshot _ _ _ _ _ _ _ hshown htold =>
    rw [htold, news_eq_self fun _ hevent => hsnapshot _ (by simp [hshown, hevent]), hshown, append_assoc]
    exact prefix_append ..
  | reading _ hstep hnews =>
    exact hnews.trans ((prefix_append_right_inj _).mpr hstep.dispatched_isPrefix)
  | ended _ hnews => exact hnews

theorem Heard.concat (h : Heard registry sub log snapshot start told)
    (hevent : event.type = .Heartbeat → ∀ other ∈ snapshot ++ produced registry sub log start,
      other.versionstamp ≤ event.versionstamp → other ∈ told) :
    Heard registry sub log snapshot start (told ++ [event]) := by
  intro before event' after hsplit hbeat _ hother hle
  rcases eq_nil_or_concat after with rfl | ⟨after, last, rfl⟩
  · obtain ⟨rfl, hlast⟩ := append_inj' hsplit rfl
    obtain rfl : event = event' := by simpa using hlast
    exact hevent hbeat _ hother hle
  · have hsplit' : told ++ [event] = (before ++ event' :: after) ++ [last] := by simpa using hsplit
    exact h _ _ _ (append_inj' hsplit' rfl).1 hbeat _ hother hle

theorem Placed.concat (h : Placed sub log told) (hstart : sub.ctx.after ≤ event.versionstamp)
    (hknown : event.versionstamp = sub.ctx.after ∨ (log.get event.versionstamp).isSome) :
    Placed sub log (told ++ [event]) := by
  intro _ hevent'
  rcases mem_append.mp hevent' with hevent' | hevent'
  · exact h _ hevent'
  · obtain rfl := mem_singleton.mp hevent'
    exact ⟨hstart, hknown⟩

variable (registry sub log snapshot start) in
/-- What a client can rely on. -/
structure Kept (w : Watch) : Prop where
  course : Course registry sub log snapshot start w
  heard : Heard registry sub log snapshot start w.told
  placed : Placed sub log w.told

/-- A heartbeat at the head of the loop. -/
theorem Kept.beat (h : Kept registry sub log snapshot start w) (hphase : w.phase = .head)
    (hbeats : Beats sub w tx) (hquiet : 0 < w.dropped_events → events tx.sent = w.told) :
    Kept registry sub log snapshot start { w with channel := tx } := by
  have hparts : w.phase.parts = some ([], [], []) := by rw [hphase]; rfl
  obtain ⟨dispatched, hstep, hnews, hall⟩ := h.course.reading_of_parts hparts
  rcases hbeats.told with htold | htold
  · have htold' : Watch.told { w with channel := tx } = w.told := htold
    exact ⟨.reading hparts hstep (htold' ▸ hnews) (htold' ▸ hall), htold' ▸ h.heard, htold' ▸ h.placed⟩
  · have htold' : Watch.told { w with channel := tx } = w.told ++ [heartbeat _ _] := htold
    -- the heartbeat was sent, so no event is missing
    have hdropped : w.dropped_events = 0 := by
      by_contra hne
      have heq := hquiet (pos_of_ne_zero hne)
      rw [htold] at heq
      simp at heq
    have hsame : news (Watch.told { w with channel := tx }) = news w.told := by simp [htold']
    refine ⟨.reading hparts hstep (hsame ▸ hnews) (hsame ▸ hall), ?_, ?_⟩
    · rw [htold']
      refine h.heard.concat fun _ other hother hle => ?_
      have hmem : other ∈ news w.told := by
        rw [hall hdropped]
        rcases mem_append.mp hother with hother | hother
        · exact mem_append_left _ hother
        · exact mem_append_right _ (hstep.mem_dispatched hother hle)
      exact (mem_filter.mp hmem).1
    · rw [htold']
      exact h.placed.concat hstep.start_le hstep.known

/-- What the client does. -/
theorem Kept.client (h : Kept registry sub log snapshot start w) (hsent : tx.sent = w.channel.sent) :
    Kept registry sub log snapshot start { w with channel := tx } := by
  have htold : Watch.told { w with channel := tx } = w.told := congrArg events hsent
  refine ⟨?_, htold ▸ h.heard, htold ▸ h.placed⟩
  cases h.course with
  | snapshot hphase hafter hdropped hmatched hshown hshow =>
    exact .snapshot hphase hafter hdropped hmatched hshown (htold.trans hshow)
  | reading hphase hstep hnews hall => exact .reading hphase hstep (htold ▸ hnews) (htold ▸ hall)
  | ended hphase hnews => exact .ended hphase (htold ▸ hnews)

/-- The end of a loop, however it comes about. -/
theorem Kept.ended (hsnapshot : ∀ event ∈ snapshot, event.type ≠ .Heartbeat)
    (h : Kept registry sub log snapshot start w) (htold : w'.told = w.told) (hphase : w'.phase.Over) :
    Kept registry sub log snapshot start w' :=
  ⟨.ended hphase (htold ▸ h.course.news_isPrefix hsnapshot), htold ▸ h.heard, htold ▸ h.placed⟩

section

variable (h : Kept registry sub log snapshot start w)
include h

/-- The next event of an operation, sent or dropped. -/
theorem Kept.dispatch (hphase : w.phase = .batch (event :: waiting) ops entries)
    (hsent : tx.sent = w.channel.sent ++ [.ok event]) (hquiet : 0 < w.dropped_events → events tx.sent = w.told) :
    Kept registry sub log snapshot start
      { w with channel := tx, dropped_events := 0, phase := .batch waiting ops entries } := by
  obtain ⟨dispatched, hstep, -, hall⟩ := h.course.reading_of_parts (by rw [hphase]; rfl)
  obtain ⟨hvs, hbeat⟩ := hstep.waiting _ mem_cons_self
  have htold : events tx.sent = w.told ++ [event] := by rw [hsent, events_append, events_ok, Watch.told]
  have hdropped : w.dropped_events = 0 := by
    by_contra hne
    have heq := hquiet (pos_of_ne_zero hne)
    rw [htold] at heq
    simp at heq
  have hnews : news (events tx.sent) = snapshot ++ (dispatched ++ [event]) := by
    have hevent : news [event] = [event] := news_eq_self (by simpa using hbeat)
    rw [htold, news_append, hall hdropped, hevent, append_assoc]
  refine ⟨.reading rfl hstep.dispatch (hnews ▸ prefix_rfl) fun _ => hnews, ?_, ?_⟩
  · show Heard registry sub log snapshot start (events tx.sent)
    rw [htold]
    exact h.heard.concat fun htype => absurd htype hbeat
  · show Placed sub log (events tx.sent)
    rw [htold]
    exact h.placed.concat (hvs ▸ hstep.start_le) (hvs ▸ hstep.known)

theorem Kept.dropped (hphase : w.phase = .batch (event :: waiting) ops entries) {n : Nat} (hn : 0 < n) :
    Kept registry sub log snapshot start { w with dropped_events := n, phase := .batch waiting ops entries } := by
  obtain ⟨dispatched, hstep, hnews, -⟩ := h.course.reading_of_parts (by rw [hphase]; rfl)
  refine ⟨.reading rfl hstep.dispatch ?_ fun hzero => absurd hzero hn.ne', h.heard, h.placed⟩
  rw [← append_assoc]
  exact hnews.trans (prefix_append ..)

/-- A step that reads or works through the log without sending anything. -/
theorem Kept.quiet {waiting' : List WatchEvent} {ops' : List OperationDocument}
    (hphase : w.phase.parts = some (waiting, ops, entries)) (hphase' : w'.phase.parts = some (waiting', ops', entries'))
    (hstep : ∀ {dispatched}, InStep registry sub log start w.after w.matched_nodes waiting ops entries dispatched →
      InStep registry sub log start w'.after w'.matched_nodes waiting' ops' entries' dispatched)
    (htold : w'.told = w.told) (hdropped : w'.dropped_events = w.dropped_events) :
    Kept registry sub log snapshot start w' := by
  obtain ⟨dispatched, hin, hnews, hall⟩ := h.course.reading_of_parts hphase
  exact ⟨.reading hphase' (hstep hin) (htold ▸ hnews) (by rwa [htold, hdropped]), htold ▸ h.heard, htold ▸ h.placed⟩

end

/-- The next event of the snapshot. -/
theorem Kept.shown {error : Option Status}
    (hsnapshot : ∀ event ∈ snapshot, event.versionstamp = sub.ctx.after ∧ event.type ≠ .Heartbeat)
    (h : Kept registry sub log snapshot start w) (hphase : w.phase = .snapshot (event :: rest) error)
    (hsent : tx.sent = w.channel.sent ++ [.ok event]) : Kept registry sub log snapshot start { w with
        matched_nodes := track_snapshot sub.filter event w.matched_nodes
        channel := tx
        phase := .snapshot rest error } := by
  obtain ⟨shown, hafter, hdropped, hmatched, hshown, htold⟩ := h.course.snapshot_of_phase hphase
  obtain ⟨hvs, hbeat⟩ := hsnapshot event (by simp [hshown])
  have htold' : events tx.sent = w.told ++ [event] := by rw [hsent, events_append, events_ok, Watch.told]
  have hshown' : snapshot = (shown ++ [event]) ++ rest := by simp [hshown]
  refine ⟨.snapshot rfl hafter hdropped hmatched hshown' ?_, ?_, ?_⟩
  · show events tx.sent = _
    rw [htold', htold]
  · show Heard registry sub log snapshot start (events tx.sent)
    rw [htold']
    exact h.heard.concat fun htype => absurd htype hbeat
  · show Placed sub log (events tx.sent)
    rw [htold']
    exact h.placed.concat hvs.ge (.inl hvs)

/-- Every step keeps it, if nothing is sent while events are missing. -/
theorem Kept.move (hregular : ∀ row ∈ log.rows, row.1.Regular) (hstart : sub.ctx.after.Regular)
    (hsnapshot : ∀ event ∈ snapshot, event.versionstamp = sub.ctx.after ∧ event.type ≠ .Heartbeat)
    (hmove : Moves sub registry (fun seen => seen.rows <+: log.rows) w w') (hquiet : Quiet w w')
    (h : Kept registry sub log snapshot start w) : Kept registry sub log snapshot start w' := by
  have hbeat := fun event hevent => (hsnapshot event hevent).2
  have hhead : w.phase = .head → w.phase.parts = some ([], [], []) := fun hphase => by rw [hphase]; rfl
  have hbatch : ∀ {waiting ops entries}, w.phase = .batch waiting ops entries →
      w.phase.parts = some (waiting, ops, entries) := fun hphase => by rw [hphase]; rfl
  cases hmove with
  | client hsent => exact h.client hsent
  | stop | refused | gone | overrun | left => exact h.ended hbeat rfl trivial
  | idle hphase hbeats => exact h.beat hphase hbeats hquiet
  | read hphase hbeats hlog =>
    refine (h.beat hphase hbeats hquiet).quiet (hhead hphase) rfl (fun hstep => ?_) rfl rfl
    exact hstep.read (read_log_isPrefix hregular (hstep.regular hregular hstart) hlog _)
  | unread hphase hbeats => exact (h.beat hphase hbeats hquiet).ended hbeat rfl trivial
  | entered hphase =>
    obtain ⟨shown, hafter, -, hmatched, hshown, htold⟩ := h.course.snapshot_of_phase hphase
    obtain rfl : w.matched_nodes = start := hmatched
    have hnews : news w.told = snapshot ++ [] := by
      rw [htold, append_nil, ← append_nil shown, ← hshown, news_eq_self hbeat]
    have hstep : InStep registry sub log w.matched_nodes w.after w.matched_nodes [] [] [] [] := by
      rw [hafter]
      exact .begin registry sub log _
    exact ⟨.reading rfl hstep (hnews ▸ prefix_rfl) fun _ => hnews, h.heard, h.placed⟩
  | shown hphase hsent => exact h.shown hsnapshot hphase hsent
  | sent hphase hsent => exact h.dispatch hphase hsent hquiet
  | dropped hphase hn => exact h.dropped hphase hn
  | operation hphase hevents =>
    exact h.quiet (hbatch hphase) rfl (fun hstep => hstep.operation hevents) rfl rfl
  | entry hphase => exact h.quiet (hbatch hphase) rfl .entry rfl rfl
  | done hphase => exact h.quiet (hbatch hphase) rfl (fun hstep => hstep) rfl rfl
  | failed _ hsent =>
    refine h.ended hbeat ?_ trivial
    rcases hsent with hsent | hsent <;> simp [Watch.told, hsent]


end Steps

end Course

end pelago_api.watch_service
