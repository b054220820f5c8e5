import Pelago.Api.WatchService.Delivery

open kv pelago_core pelago_storage List

namespace pelago_api.watch_service

variable {event : WatchEvent}

section Snapshots

variable {rows : OrdMap Bytes Cell} {registry : Registry} {sub : Subscription}

theorem snapshot_points_events {ctx : WatchContext} {targets : List PointNodeTarget} {emitted : Nat}
    (h : event ∈ (snapshot_points rows ctx targets emitted).1) :
    event.versionstamp = ctx.after ∧ event.type = .Enter := by
  induction targets generalizing emitted with
  | nil => cases h
  | cons _ _ ih =>
    simp only [snapshot_points] at h
    split at h
    · cases h
    · split at h
      · cases h
      · exact ih h
      · rcases mem_cons.mp h with rfl | h
        · exact ⟨rfl, rfl⟩
        · exact ih h

/-- A snapshot is at the position where the watch starts. -/
theorem snapshotOf_events (h : event ∈ (snapshotOf registry sub rows).1) :
    event.versionstamp = sub.ctx.after ∧ event.type = .Enter := by
  unfold snapshotOf at h
  split at h
  · unfold emit_initial_snapshot at h
    split at h
    · exact snapshot_points_events h
    · obtain ⟨_, -, rfl⟩ := mem_map.mp h
      exact ⟨rfl, rfl⟩
    · obtain ⟨_, -, rfl⟩ := mem_map.mp h
      exact ⟨rfl, rfl⟩
  · cases h

/-- The key of a record tells the node. -/
theorem record_key_inj {subspace : Subspace} {entity_type entity_type' : String} {id id' : NodeId}
    (h : node.data_key subspace.data entity_type id.to_bytes = node.data_key subspace.data entity_type' id'.to_bytes) :
    entity_type = entity_type' ∧ id = id' := by
  rw [data_key_eq, data_key_eq] at h
  obtain ⟨htype, hid⟩ := append_inj' (append_cancel_left h) (by simp [NodeId.to_bytes])
  have htype' : element entity_type ++ [] = element entity_type' ++ [] := by rw [htype]
  refine ⟨(element_append_inj (by simp) (by simp) htype').1, ?_⟩
  have hparse := congrArg NodeId.try_from_slice hid
  simpa only [NodeId.try_from_slice_to_bytes, Option.some.injEq] using hparse

end Snapshots

/-- A watch from its start on. -/
structure Session where
  sub : Subscription
  rows : OrdMap Bytes Cell := .empty
  saved : Option QueryWatchState := none
  ticks : List Tick

/-- The position that is asked for counts only where the log has it. -/
theorem validate_resume_position_eq {log : Log} {v after : Versionstamp}
    (h : validate_resume_position log v.bytes = .ok after) :
    after = if cdc_position_exists log v then v else .zero := by
  have hne : v.bytes ≠ [] := fun hnil => by simpa [hnil] using v.length_eq
  have hparse : parse_resume_after v.bytes = .ok (some v) := by
    simp [parse_resume_after, hne, Versionstamp.from_bytes, v.length_eq]
  rw [validate_resume_position, hparse] at h
  simp only [bind, Except.bind, resolve_resume_position, Bool.false_eq_true, if_false] at h
  split at h
  next hexists =>
    rw [if_pos hexists]
    exact (Except.ok.inj h).symm
  next hexists =>
    rw [if_neg hexists]
    split at h
    · cases h
    · exact (Except.ok.inj h).symm

namespace Session

variable (registry : Registry) (s : Session) (log : Log)

def first : Watch := spawn_watch_loop registry s.sub s.rows s.saved

def watch : Watch := run registry s.sub (s.first registry) s.ticks

/-- The events that the client has received. -/
def received : List WatchEvent := events (s.watch registry).channel.received

/-- The log grows while the watch reads it. -/
def Reads : Prop := ∀ t ∈ s.ticks, t.Sees fun seen => seen.rows <+: log.rows

/-- Every step is of a kind. -/
def Along (P : Watch → Watch → Prop) : Prop := watch_service.Along registry s.sub P (s.first registry) s.ticks

def entering : Finset String := watch_service.entering registry s.sub s.rows s.saved

/-- What the log holds for the watch. -/
def produced : List WatchEvent := watch_service.produced registry s.sub log (s.entering registry)

/-- The nodes that the watch tracks once it has passed a position. -/
def trackedAt (position : Versionstamp) : Finset String :=
  (watch_operations s.sub.ctx.subscription_id registry s.sub.filter
    (operations (log.between (s.sub.ctx.after : WithBot Versionstamp) position)) (s.entering registry)).2

/-- The loop has seen the whole log, and the client has taken everything. -/
structure ReadToEnd : Prop where
  head : (s.watch registry).phase = .head
  seen : log.left (s.watch registry).after = []
  taken : (s.watch registry).channel.queue = []

/-- No event has found the queue full. -/
def Smooth : Prop := s.Along registry fun _ w' => w'.dropped_events = 0

variable {registry s log}

theorem kept_first : Kept registry s.sub log (snapshotOf registry s.sub s.rows).1 (s.entering registry)
    (s.first registry) where
  course := .snapshot rfl rfl rfl rfl (nil_append _).symm rfl
  heard := by
    intro _ _ _ h
    simp [first, spawn_watch_loop, Watch.told, Channel.sent, events] at h
  placed := by
    intro _ h
    simp [first, spawn_watch_loop, Watch.told, Channel.sent, events] at h

theorem kept_watch (hregular : ∀ row ∈ log.rows, row.1.Regular) (hstart : s.sub.ctx.after.Regular)
    (hreads : s.Reads log) (hquiet : s.Along registry Quiet) :
    Kept registry s.sub log (snapshotOf registry s.sub s.rows).1 (s.entering registry) (s.watch registry) := by
  refine run_keeps (fun hmove hstep h => h.move hregular hstart (fun _ hevent => ?_) hmove hstep)
    hreads hquiet kept_first
  obtain ⟨hvs, htype⟩ := snapshotOf_events hevent
  exact ⟨hvs, by simp [htype]⟩

theorem received_isPrefix : s.received registry <+: (s.watch registry).told := by
  rw [Watch.told, Channel.sent, events_append]
  exact prefix_append ..

end Session

section Resubscribed

/-- The same event under another subscription. -/
def WatchEvent.under (sub_id : String) (event : WatchEvent) : WatchEvent := { event with subscription_id := sub_id }

variable {registry : Registry} {filter : WatchFilter}

theorem cdc_op_under (sub_id sub_id' : String) (vs : Versionstamp) (op : OperationDocument)
    (matched_nodes : Finset String) : cdc_op_to_watch_events sub_id' vs registry filter op matched_nodes =
      ((cdc_op_to_watch_events sub_id vs registry filter op matched_nodes).1.map (.under sub_id'),
        (cdc_op_to_watch_events sub_id vs registry filter op matched_nodes).2) := by
  have hmap : ∀ (transition : Option WatchEventType) (event event' : WatchEventType → WatchEvent),
      (∀ type, event' type = (event type).under sub_id') →
      (transition.map event').toList = (transition.map event).toList.map (.under sub_id') := by
    intro transition _ _ hevent
    cases transition <;> simp [hevent]
  cases op with
  | SchemaRegister => rfl
  | data op =>
    cases op with
    | NodeUpdate =>
      simp only [cdc_op_to_watch_events]
      split
      · split
        · exact Prod.ext (hmap _ _ _ fun _ => rfl) rfl
        · rfl
      · rfl
    | NodeCreate | NodeDelete | OwnershipTransfer =>
      simp only [cdc_op_to_watch_events]; split <;> [(split <;> [(split <;> rfl); rfl]); rfl]
    | EdgeCreate | EdgeDelete => simp only [cdc_op_to_watch_events]; split <;> rfl

theorem watch_operations_under (sub_id sub_id' : String) (ops : List (Versionstamp × OperationDocument))
    (matched_nodes : Finset String) : watch_operations sub_id' registry filter ops matched_nodes =
      ((watch_operations sub_id registry filter ops matched_nodes).1.map (.under sub_id'),
        (watch_operations sub_id registry filter ops matched_nodes).2) := by
  induction ops generalizing matched_nodes with
  | nil => rfl
  | cons x _ ih =>
    simp only [watch_operations]
    rw [cdc_op_under sub_id, ih]
    simp

/-- Only queries track nodes. -/
theorem cdc_op_of_not_query (hfilter : ∀ q, filter ≠ .Query q) (sub_id : String) (vs : Versionstamp)
    (op : OperationDocument) (matched_nodes matched_nodes' : Finset String) :
    cdc_op_to_watch_events sub_id vs registry filter op matched_nodes =
      ((cdc_op_to_watch_events sub_id vs registry filter op matched_nodes').1, matched_nodes) := by
  have hvisible : ∀ a b c d e, edge_visible filter a b c d e matched_nodes =
      edge_visible filter a b c d e matched_nodes' := by
    intro a b c d e
    cases filter with
    | Query q => exact absurd rfl (hfilter q)
    | _ => rfl
  cases filter with
  | Query q => exact absurd rfl (hfilter q)
  | _ =>
    cases op with
    | SchemaRegister => rfl
    | data op =>
      cases op with
      | EdgeCreate | EdgeDelete => simp only [cdc_op_to_watch_events, hvisible]; split <;> rfl
      | _ => simp only [cdc_op_to_watch_events]; split <;> rfl

theorem watch_operations_of_not_query (hfilter : ∀ q, filter ≠ .Query q) (sub_id : String)
    (ops : List (Versionstamp × OperationDocument)) (matched_nodes matched_nodes' : Finset String) :
    (watch_operations sub_id registry filter ops matched_nodes).1 =
      (watch_operations sub_id registry filter ops matched_nodes').1 := by
  induction ops generalizing matched_nodes matched_nodes' with
  | nil => rfl
  | cons x _ ih =>
    obtain ⟨vs, op⟩ := x
    simp only [watch_operations]
    rw [cdc_op_of_not_query hfilter _ vs op ..]
    rw [ih]

/-- An operation that yields nothing changes nothing. -/
theorem cdc_op_silent {sub_id : String} {vs : Versionstamp} {op : OperationDocument} {matched_nodes : Finset String}
    (h : (cdc_op_to_watch_events sub_id vs registry filter op matched_nodes).1 = []) :
    (cdc_op_to_watch_events sub_id vs registry filter op matched_nodes).2 = matched_nodes := by
  cases op with
  | SchemaRegister => rfl
  | data op =>
    cases op with
    | NodeUpdate entity_type node_id changed old =>
      simp only [cdc_op_to_watch_events] at h ⊢
      split
      · rename_i hscope
        rw [if_pos hscope] at h
        cases filter with
        | Query =>
          have hnone : ∀ (transition : Option WatchEventType) (event : WatchEventType → WatchEvent),
              (transition.map event).toList = [] → transition = none := by
            intro transition event hnil
            cases transition <;> simp_all
          simp only at h ⊢
          rw [hnone _ _ h]
          rfl
        | Namespace | Point => rfl
      · rfl
    | NodeCreate | NodeDelete | OwnershipTransfer =>
      simp only [cdc_op_to_watch_events] at h ⊢
      split at h <;> [(split at h <;> [(split at h <;> simp_all); simp_all]); simp_all]
    | EdgeCreate | EdgeDelete => simp only [cdc_op_to_watch_events] at h ⊢; split <;> rfl

theorem watch_operations_silent {sub_id : String} {ops : List (Versionstamp × OperationDocument)} {matched_nodes : Finset String}
    (h : (watch_operations sub_id registry filter ops matched_nodes).1 = []) :
    (watch_operations sub_id registry filter ops matched_nodes).2 = matched_nodes := by
  induction ops generalizing matched_nodes with
  | nil => rfl
  | cons x _ ih =>
    simp only [watch_operations, append_eq_nil_iff] at h ⊢
    rw [cdc_op_silent h.1] at h ⊢
    exact ih h.2

end Resubscribed

section Streams

variable {registry : Registry} {log : Log}

/-- What comes before an event that was sent, comes before it in the log too. -/
theorem Kept.earlier {sub : Subscription} {snapshot : List WatchEvent} {start : Finset String} {w : Watch}
    (hsnapshot : ∀ event ∈ snapshot, event.versionstamp = sub.ctx.after ∧ event.type ≠ .Heartbeat)
    (h : Kept registry sub log snapshot start w) {before : List WatchEvent} {last other : WatchEvent}
    (hbefore : before ++ [last] <+: w.told) (hother : other ∈ produced registry sub log start)
    (hlt : other.versionstamp < last.versionstamp) : other ∈ before := by
  obtain ⟨after, htold⟩ := hbefore
  have htold : w.told = before ++ last :: after := by rw [← htold]; simp
  by_cases hbeat : last.type = .Heartbeat
  · exact h.heard _ _ _ htold hbeat _ (mem_append_right _ hother) hlt.le
  · obtain ⟨rest, hnews⟩ := h.course.news_isPrefix fun _ hevent => (hsnapshot _ hevent).2
    have hlast : news (last :: after) = last :: news after := filter_cons_of_pos (by simpa using hbeat)
    rw [htold, news_append, hlast, append_assoc] at hnews
    -- the snapshot and what the log yields are in the order of their positions
    have hsorted : (snapshot ++ produced registry sub log start).Pairwise
        fun a b => a.versionstamp ≤ b.versionstamp := by
      refine pairwise_append.mpr ⟨?_, events_sorted (log.left_sorted _) _, fun a ha b hb => ?_⟩
      · refine pairwise_of_forall_mem_list fun a ha b hb => ?_
        rw [(hsnapshot a ha).1, (hsnapshot b hb).1]
      · obtain ⟨⟨x, hx, hb⟩, -⟩ := event_of_operations hb
        rw [(hsnapshot a ha).1, hb]
        exact (Log.lt_of_mem_left hx).le
    rw [← hnews, pairwise_append] at hsorted
    have hmem : other ∈ news before ++ last :: (news after ++ rest) := hnews ▸ mem_append_right _ hother
    rcases mem_append.mp hmem with hmem | hmem
    · exact (mem_filter.mp hmem).1
    · rcases mem_cons.mp hmem with rfl | hmem
      · exact absurd hlt (lt_irrefl _)
      · exact absurd hlt (not_lt.mpr ((pairwise_cons.mp hsorted.2.1).1 other hmem))

namespace Session

variable {s : Session}

theorem quiet_of_smooth (h : s.Smooth registry) : s.Along registry Quiet := by
  have hall : ∀ (ticks : List Tick) (w : Watch), w.dropped_events = 0 →
      watch_service.Along registry s.sub (fun _ w' => w'.dropped_events = 0) w ticks →
      watch_service.Along registry s.sub Quiet w ticks := by
    intro ticks
    induction ticks with
    | nil => exact fun _ _ _ => trivial
    | cons _ _ ih =>
      rintro w hw ⟨hstep, hrest⟩
      exact ⟨fun hpos => absurd hw hpos.ne', ih _ hstep hrest⟩
  exact hall _ _ rfl h

theorem dropped_of_smooth (hreads : s.Reads log) (h : s.Smooth registry) :
    (s.watch registry).dropped_events = 0 := by
  have hkeep : ∀ {w w'}, Moves s.sub registry (fun seen => seen.rows <+: log.rows) w w' → w'.dropped_events = 0 →
      w.dropped_events = 0 → w'.dropped_events = 0 := fun _ hstep _ => hstep
  exact run_keeps hkeep hreads h rfl

/-- A watch that is read to its end brings all that the log holds for it. -/
theorem received_of_readToEnd (hregular : ∀ row ∈ log.rows, row.1.Regular) (hstart : s.sub.ctx.after.Regular)
    (hreads : s.Reads log) (hsmooth : s.Smooth registry) (hend : s.ReadToEnd registry log)
    (hevent : event ∈ s.produced registry log) : event ∈ s.received registry := by
  have hkept := kept_watch hregular hstart hreads (quiet_of_smooth hsmooth)
  obtain ⟨dispatched, hstep, -, hall⟩ := hkept.course.reading_of_parts (by rw [hend.head]; rfl)
  have hproduced : s.produced registry log = dispatched := by
    rw [produced, hstep.produced_eq, hend.seen]
    simp [watch_operations]
  have hmem : event ∈ news (s.watch registry).told := by
    rw [hall (dropped_of_smooth hreads hsmooth)]
    exact mem_append_right _ (hproduced ▸ hevent)
  have htold : (s.watch registry).told = s.received registry := by
    rw [Watch.told, Channel.sent, hend.taken, append_nil]
    rfl
  exact htold ▸ (mem_filter.mp hmem).1

/-- The position of a watch that was accepted. -/
def Accepted (log : Log) (s : Session) : Prop := s.sub.ctx.after = .zero ∨ (log.get s.sub.ctx.after).isSome

theorem Accepted.regular (h : s.Accepted log) (hregular : ∀ row ∈ log.rows, row.1.Regular) :
    s.sub.ctx.after.Regular := by
  rcases h with h | h
  · rw [h]
    decide
  · obtain ⟨entry, hentry⟩ := Option.isSome_iff_exists.mp h
    exact hregular _ (log.get_eq_some_iff_mem.mp hentry)

/-- The position of an event is one to resume from. -/
theorem resume_position (haccepted : s.Accepted log) {vs after : Versionstamp}
    (hvs : vs = s.sub.ctx.after ∨ (log.get vs).isSome) (hresume : validate_resume_position log vs.bytes = .ok after) :
    after = vs := by
  have hexists : cdc_position_exists log vs = true := by
    rcases hvs with rfl | hvs
    · rcases haccepted with hzero | hknown
      · simp [cdc_position_exists, hzero, Versionstamp.is_zero]
      · simp [cdc_position_exists, hknown]
    · simp [cdc_position_exists, hvs]
  rw [validate_resume_position_eq hresume, if_pos hexists]

/-- What the log holds after a position, from the nodes tracked there. -/
theorem mem_later {vs : Versionstamp} (hle : s.sub.ctx.after ≤ vs)
    (hevent : event ∈ s.produced registry log) (hlt : vs < event.versionstamp) :
    event ∈ (watch_operations s.sub.ctx.subscription_id registry s.sub.filter (operations (log.left vs))
      (s.trackedAt registry log vs)).1 := by
  have hsplit := OrdMap.between_append_after log (WithBot.coe_le_coe.mpr hle)
  rw [produced, watch_service.produced, Log.left, ← hsplit, operations_append, watch_operations_append] at hevent
  rcases mem_append.mp hevent with hevent | hevent
  · obtain ⟨⟨x, hx, hvs⟩, -⟩ := event_of_operations hevent
    obtain ⟨entry, hentry, heq⟩ := fst_of_mem_operations hx
    have hbelow : entry.1 ≤ vs := WithBot.coe_le_coe.mp (OrdMap.mem_between.mp hentry).2.2
    exact absurd hlt (not_lt.mpr (by rwa [hvs, ← heq]))
  · exact hevent

end Session

/-- A client that resumes after the last event it has received misses nothing,
if the first watch has sent nothing while events were missing, the client has
received all events of the entry of the last one, and a query is resumed with
the nodes that were tracked at that position. -/
theorem resume_loses_nothing (registry : Registry) (log : Log) (hregular : ∀ row ∈ log.rows, row.1.Regular)
    (first second : Session) (haccepted : first.Accepted log) (hreads : first.Reads log)
    (hquiet : first.Along registry Quiet) (last : WatchEvent)
    (hlast : (first.received registry).getLast? = some last)
    (hwhole : ∀ event ∈ first.produced registry log, event.versionstamp = last.versionstamp →
      event ∈ first.received registry)
    (hfilter : second.sub.filter = first.sub.filter)
    (hresume : validate_resume_position log last.versionstamp.bytes = .ok second.sub.ctx.after)
    (htracked : ∀ q, first.sub.filter = .Query q →
      second.entering registry = first.trackedAt registry log last.versionstamp)
    (hreads' : second.Reads log) (hsmooth : second.Smooth registry) (hend : second.ReadToEnd registry log)
    (event : WatchEvent) (hevent : event ∈ first.produced registry log) :
    event ∈ first.received registry ∨
      event.under second.sub.ctx.subscription_id ∈ second.received registry := by
  have hkept := Session.kept_watch hregular (haccepted.regular hregular) hreads hquiet
  obtain ⟨before, hreceived⟩ : ∃ before, first.received registry = before ++ [last] :=
    getLast?_eq_some_iff.mp hlast
  have htold : before ++ [last] <+: (first.watch registry).told := hreceived ▸ Session.received_isPrefix
  obtain ⟨hle, hknown⟩ := hkept.placed last (htold.subset (by simp))
  have hafter := Session.resume_position haccepted hknown hresume
  rcases lt_trichotomy _ last.versionstamp with hlt | heq | hgt
  · left
    rw [hreceived]
    refine mem_append_left _ (hkept.earlier (fun e he => ?_) htold hevent hlt)
    obtain ⟨hvs, htype⟩ := snapshotOf_events he
    exact ⟨hvs, by simp [htype]⟩
  · exact .inl (hwhole _ hevent heq)
  · right
    have haccepted' : second.Accepted log := by
      rw [Session.Accepted, hafter]
      rcases hknown with hknown | hknown
      · exact hknown ▸ haccepted
      · exact .inr hknown
    refine Session.received_of_readToEnd hregular (haccepted'.regular hregular) hreads' hsmooth hend ?_
    -- the second watch starts where the first one has been, with the same nodes
    have hlater := Session.mem_later hle hevent hgt
    rw [Session.produced, produced, hafter, hfilter,
      watch_operations_under _ _]
    refine mem_map_of_mem ?_
    by_cases hquery : ∃ q, first.sub.filter = .Query q
    · obtain ⟨q, hq⟩ := hquery
      rwa [htracked q hq]
    · rwa [watch_operations_of_not_query (fun q hq => hquery ⟨q, hq⟩) _ _ _
        _]

end Streams

section Rewinds

variable (sub : Subscription) (snapshot : List WatchEvent) (v : Versionstamp)

/-- What is sent besides the snapshot and heartbeats lies after `v`. -/
def NotBefore (event : WatchEvent) : Prop := event.type ≠ .Heartbeat → event ∉ snapshot → v < event.versionstamp

def Phase.Ahead (after : Versionstamp) : Phase → Prop
  | .snapshot events _ => ∀ event ∈ events, event ∈ snapshot
  | .batch events operations entries => (∀ event ∈ events, v < event.versionstamp) ∧ (operations ≠ [] → v < after) ∧
      ∀ entry ∈ entries, entry.1.Regular ∧ sub.ctx.after < entry.1 ∧ v < entry.1
  | _ => True

structure Ahead (w : Watch) : Prop where
  told : ∀ event ∈ w.told, NotBefore snapshot v event
  regular : w.after.Regular
  start_le : sub.ctx.after ≤ w.after
  phase : w.phase.Ahead sub snapshot v w.after

variable {sub snapshot v} {registry : Registry} {seen : Log → Prop} {w w' : Watch}

theorem told_send (h : ∀ event ∈ w.told, NotBefore snapshot v event) {event : WatchEvent}
    (hevent : NotBefore snapshot v event) {tx : Channel}
    (hsent : tx.sent = w.channel.sent ++ [.ok event]) : ∀ event ∈ events tx.sent, NotBefore snapshot v event := by
  rw [hsent]
  simpa [forall_and, or_imp] using ⟨h, hevent⟩

theorem told_beat (h : ∀ event ∈ w.told, NotBefore snapshot v event) {tx : Channel} (hbeats : Beats sub w tx) :
    ∀ event ∈ events tx.sent, NotBefore snapshot v event := by
  rcases hbeats with hsent | hsent
  · rw [hsent]
    exact h
  · exact told_send h (absurd rfl) hsent

theorem Ahead.move (hseen : ∀ log, seen log → ∀ row ∈ log.rows, sub.ctx.after < row.1 → v < row.1)
    (hmove : Moves sub registry seen w w') (h : Ahead sub snapshot v w) : Ahead sub snapshot v w' := by
  obtain ⟨htold, hregular, hstart, hahead⟩ := h
  cases hmove with
  | client hsent => exact ⟨by rwa [Watch.told, hsent], hregular, hstart, hahead⟩
  | stop | refused | gone | overrun | left | entered | done => exact ⟨htold, hregular, hstart, trivial⟩
  | idle hphase hbeats => exact ⟨told_beat htold hbeats, hregular, hstart, hahead⟩
  | unread hphase hbeats => exact ⟨told_beat htold hbeats, hregular, hstart, trivial⟩
  | read hphase hbeats hlog =>
    refine ⟨told_beat htold hbeats, hregular, hstart, by simp, by simp, fun _ hentry => ?_⟩
    obtain ⟨hrow, hnext⟩ := mem_filter.mp (mem_of_mem_take hentry)
    simp only [Bool.and_eq_true, decide_eq_true_eq, Versionstamp.next_le_iff hregular.ne_last] at hnext
    have hlt := hstart.trans_lt hnext.1
    exact ⟨hnext.2, hlt, hseen _ hlog _ hrow hlt⟩
  | failed hphase hsent =>
    refine ⟨?_, hregular, hstart, trivial⟩
    rcases hsent with hsent | hsent <;> simpa [Watch.told, hsent] using htold
  | shown hphase hsent =>
    rw [hphase] at hahead
    obtain ⟨hevent, hrest⟩ := forall_mem_cons.mp hahead
    exact ⟨told_send htold (fun _ hnot => absurd hevent hnot) hsent, hregular, hstart, hrest⟩
  | sent hphase hsent =>
    rw [hphase] at hahead
    obtain ⟨hevents, hrest⟩ := hahead
    obtain ⟨hevent, hevents⟩ := forall_mem_cons.mp hevents
    exact ⟨told_send htold (fun _ _ => hevent) hsent, hregular, hstart, hevents, hrest⟩
  | dropped hphase hn =>
    rw [hphase] at hahead
    exact ⟨htold, hregular, hstart, (forall_mem_cons.mp hahead.1).2, hahead.2⟩
  | operation hphase hevents =>
    rw [hphase] at hahead
    have hafter := hahead.2.1 (cons_ne_nil _ _)
    refine ⟨htold, hregular, hstart, fun event hevent => ?_, fun _ => hafter, hahead.2.2⟩
    have hplace : event.versionstamp = w.after ∧ _ := event_of_operation (by rw [hevents]; exact hevent)
    rwa [hplace.1]
  | entry hphase =>
    rw [hphase] at hahead
    obtain ⟨⟨hregular', hlt, hentry⟩, hentries⟩ := forall_mem_cons.mp hahead.2.2
    exact ⟨htold, hregular', hlt.le, by simp, fun _ => hentry, hentries⟩

/-- A watch that is resumed at a position the log has, or whose log lies after it, sends
nothing from the log up to that position. -/
theorem resume_never_rewinds (registry : Registry) {log : Log} (hregular : ∀ row ∈ log.rows, row.1.Regular)
    (s : Session) (v : Versionstamp) (haccepted : validate_resume_position log v.bytes = .ok s.sub.ctx.after)
    (hahead : cdc_position_exists log v = true ∨ ∀ t ∈ s.ticks, t.Sees fun seen => ∀ row ∈ seen.rows, v < row.1)
    {event : WatchEvent} (hevent : event ∈ s.received registry) (hbeat : event.type ≠ .Heartbeat)
    (hsnapshot : event ∉ (snapshotOf registry s.sub s.rows).1) : v < event.versionstamp := by
  have hstart := validate_resume_position_eq haccepted
  have hplace : s.Accepted log := by
    rw [Session.Accepted, hstart]
    split
    next hexists => simpa [cdc_position_exists, Versionstamp.is_zero] using hexists
    next => exact .inl rfl
  obtain ⟨seen, hticks, hseen⟩ : ∃ seen : Log → Prop, (∀ t ∈ s.ticks, t.Sees seen) ∧
      ∀ log, seen log → ∀ row ∈ log.rows, s.sub.ctx.after < row.1 → v < row.1 := by
    rcases hahead with hexists | hahead
    · rw [if_pos hexists] at hstart
      exact ⟨fun _ => True, sees_true _, fun _ _ row _ hlt => hstart ▸ hlt⟩
    · exact ⟨_, hahead, fun _ hrows row hrow _ => hrows row hrow⟩
  have hfirst : Ahead s.sub (snapshotOf registry s.sub s.rows).1 v (s.first registry) :=
    ⟨by simp [Session.first, spawn_watch_loop, Watch.told, Channel.sent, events], hplace.regular hregular, le_rfl,
      fun _ h => h⟩
  have hrun : Ahead _ _ _ (s.watch registry) :=
    run_keeps (fun hmove _ h => h.move hseen hmove) hticks (along_true _ _ ..) hfirst
  exact hrun.told _ (Session.received_isPrefix.subset hevent) hbeat hsnapshot

end Rewinds

section Examples

/-- A service without limits that matter, asked without a principal. -/
def openService (log : Log) (sub_id : String) : WatchServiceImpl where
  db := .empty
  log := log
  active := []
  limits := {}
  build_pql_predicate := fun _ => .error (.invalid_argument "no queries")
  created_at := 0
  sub_id := sub_id

def everything (resume_after : Bytes) : WatchRequest :=
  .namespace { context := some ⟨"db", "ns"⟩, resume_after := resume_after }

/-- What `everything` starts. -/
def everythingFrom (sub_id : String) (after : Versionstamp) : Subscription where
  filter := .Namespace
  ctx :=
    { subscription_id := sub_id
      database := "db"
      ns := "ns"
      expires_at := 60000000
      after := after
      max_dropped_events := 512
      include_initial_snapshot := false
      heartbeat_secs := 30
      initial_snapshot_limit := 1024
      query_state_id := none }
  queue_size := 256

/-- One transaction creates two people. -/
def bothAtOnce : Log := .ofList [(stamp 1, [createPerson 0, createPerson 1])]

/-- The loop reads the log and sends the first event; the client takes it and goes. -/
def oneTaken (log : Log) : List Tick :=
  [.work true, .poll false (.ok log), .work true, .work true, .work true, .receive, .close]

def cutShort : Session := { sub := everythingFrom "a" .zero, ticks := oneTaken bothAtOnce }

def nothingNew : Session :=
  { sub := everythingFrom "b" (stamp 1), ticks := [.work true, .poll false (.ok bothAtOnce)] }

/-- The second event of an entry is lost when the client goes after the first. -/
theorem entry_cut_short :
    watch (openService bothAtOnce "a") none (everything []) = .ok cutShort.sub ∧
      (cutShort.received plainRegistry).map WatchEvent.versionstamp = [stamp 1] ∧
      watch (openService bothAtOnce "b") none (everything (stamp 1).bytes) = .ok nothingNew.sub ∧
      nothingNew.Smooth plainRegistry ∧ nothingNew.ReadToEnd plainRegistry bothAtOnce ∧
      ∃ event ∈ cutShort.produced plainRegistry bothAtOnce,
        event ∉ cutShort.received plainRegistry ∧ event.under "b" ∉ nothingNew.received plainRegistry := by
  refine ⟨rfl, by decide +kernel, rfl, ⟨rfl, rfl, trivial⟩, ⟨rfl, by decide +kernel, rfl⟩, ?_⟩
  refine ⟨node_event "a" (stamp 1) .Enter "Person" "1_1" .empty "1" "node_create", ?_, ?_, ?_⟩ <;> decide +kernel

/-- The same in two transactions. -/
def oneByOne : Log := .ofList [(stamp 1, [createPerson 0]), (stamp 2, [createPerson 1])]

def firstOnly : Session := { sub := everythingFrom "a" .zero, ticks := oneTaken oneByOne }

def theRest : Session where
  sub := everythingFrom "b" (stamp 1)
  ticks := [.work true, .poll false (.ok oneByOne), .work true, .work true, .work true, .work true, .receive]

theorem one_by_one_resumed :
    (firstOnly.produced plainRegistry oneByOne).length = 2 ∧
      ∀ event ∈ firstOnly.produced plainRegistry oneByOne,
        event ∈ firstOnly.received plainRegistry ∨ event.under "b" ∈ theRest.received plainRegistry := by
  have hreads : ∀ t ∈ oneTaken oneByOne, t.Sees fun seen => seen.rows <+: oneByOne.rows := by
    simp [oneTaken, Tick.Sees]
  have hreads' : theRest.Reads oneByOne := by
    simp [Session.Reads, theRest, Tick.Sees]
  refine ⟨by decide +kernel, fun event hevent => ?_⟩
  refine resume_loses_nothing plainRegistry oneByOne (by decide +kernel) firstOnly theRest (.inl rfl) hreads
    ?_ (node_event "a" (stamp 1) .Enter "Person" "1_0" .empty "1" "node_create") (by decide +kernel)
    (by decide +kernel) rfl rfl (by intro q hq; cases hq) hreads' ?_ ?_ event hevent
  · exact ⟨nofun, nofun, nofun, nofun, nofun, nofun, nofun, trivial⟩
  · exact ⟨rfl, rfl, rfl, rfl, rfl, rfl, rfl, trivial⟩
  · exact ⟨rfl, by decide +kernel, rfl⟩

/-- Asked to resume after the third position, the watch starts over. -/
theorem resume_starts_over :
    watch (openService oneByOne "a") none (everything (stamp 3).bytes) = .ok firstOnly.sub ∧
      (firstOnly.received plainRegistry).map WatchEvent.versionstamp = [stamp 1] ∧ stamp 1 < stamp 3 := by
  refine ⟨rfl, ?_, ?_⟩ <;> decide +kernel

theorem the_rest_is_later : (theRest.received plainRegistry).map WatchEvent.versionstamp = [stamp 2] ∧
    ∀ event ∈ theRest.received plainRegistry, stamp 1 < event.versionstamp := by
  have hbeat : ∀ event ∈ theRest.received plainRegistry, event.type ≠ .Heartbeat := by decide +kernel
  exact ⟨by decide +kernel, fun event hevent => @resume_never_rewinds plainRegistry oneByOne (by decide +kernel)
    theRest (stamp 1) rfl (.inl (by decide +kernel)) event hevent (hbeat event hevent) not_mem_nil⟩

end Examples

end pelago_api.watch_service
