import Pelago.Api.WatchService.Matching
import Pelago.Api.WatchService.Requests

open kv pelago_core pelago_storage

namespace pelago_api.watch_service

section Channel

/-- What a client gets: events, and the error that ends them. -/
abbrev Item := Except Status WatchEvent

/-- The queue between a loop and its client. What a client has not taken when
it goes is lost. -/
structure Channel where
  capacity : Nat
  queue : List Item := []
  received : List Item := []
  closed : Bool := false

inductive TrySendError where
  | Full
  | Closed
  deriving DecidableEq

namespace Channel

def try_send (tx : Channel) (item : Item) : Except TrySendError Channel :=
  if tx.closed then .error .Closed
  else if tx.queue.length < tx.capacity then .ok { tx with queue := tx.queue ++ [item] }
  else .error .Full

def recv (rx : Channel) : Channel :=
  if rx.closed then rx
  else
    match rx.queue with
    | [] => rx
    | item :: queue => { rx with queue := queue, received := rx.received ++ [item] }

def close (rx : Channel) : Channel := { rx with closed := true }

/-- All that was put on the queue. -/
def sent (c : Channel) : List Item := c.received ++ c.queue

end Channel

inductive DispatchResult where
  | Sent
  | Backpressured
  | DropSubscription (status : Status)
  | ConsumerClosed

/-- The queue and the count of dropped events after an event has been dispatched. -/
def try_dispatch_watch_event (tx : Channel) (event : WatchEvent) (dropped_events max_dropped_events : Nat) :
    DispatchResult × Channel × Nat :=
  match tx.try_send (.ok event) with
  | .ok tx => (.Sent, tx, 0)
  | .error .Full =>
    let dropped_events := min (dropped_events + 1) (2 ^ 32 - 1)
    if dropped_events ≥ max_dropped_events then
      (.DropSubscription (.resource_exhausted "watch consumer is too slow; subscription dropped"), tx, dropped_events)
    else (.Backpressured, tx, dropped_events)
  | .error .Closed => (.ConsumerClosed, tx, dropped_events)

end Channel

/-- The durable state of a query watch. -/
structure QueryWatchState where
  state_id : String
  last_position : Versionstamp
  matched_nodes : Finset String
  deriving DecidableEq

/-- What a read of the log returns. -/
def read_log (log : Log) (after : Versionstamp) (limit : Nat) : List (Versionstamp × List OperationDocument) :=
  (log.rows.filter fun row => decide (after.next ≤ row.1) && decide row.1.Regular).take limit

/-- Where a loop is: sending its snapshot, at its head, between the entries it
has read, about to fail, or at its end. -/
inductive Phase where
  | snapshot (events : List WatchEvent) (error : Option Status)
  | head
  | batch (events : List WatchEvent) (operations : List OperationDocument)
      (entries : List (Versionstamp × List OperationDocument))
  | failing (status : Status)
  | ended

/-- A watch: the variables of its loop, its queue, and the row of its durable state. -/
structure Watch where
  after : Versionstamp
  matched_nodes : Finset String
  dropped_events : Nat
  phase : Phase
  channel : Channel
  saved : Option QueryWatchState

/-- What happens next: the client takes an event or goes; the loop finds at its
head that it was cancelled or has expired, or reads the log, with a heartbeat
if one is due; or the loop goes on with its work. A state may fail to be
stored. -/
inductive Tick where
  | receive
  | close
  | stop (stored : Bool)
  | poll (beat : Bool) (read : Except PelagoError Log)
  | work (stored : Bool)

section Loop

variable (registry : Registry) (sub : Subscription)

def persist_query_watch_state (w : Watch) (stored : Bool) : Watch :=
  match sub.filter, sub.ctx.query_state_id with
  | .Query _, some state_id =>
    if stored then { w with saved := some ⟨state_id, w.after, w.matched_nodes⟩ } else w
  | _, _ => w

def should_restore_query_watch_state : Bool :=
  match sub.filter with
  | .Query _ => sub.ctx.query_state_id.isSome && !sub.ctx.include_initial_snapshot && !sub.ctx.after.is_zero
  | _ => false

/-- The nodes that a watch tracks from the start. -/
def restored (saved : Option QueryWatchState) : Finset String :=
  if should_restore_query_watch_state sub then
    match saved with
    | some saved => if saved.last_position ≤ sub.ctx.after then saved.matched_nodes else ∅
    | none => ∅
  else ∅

/-- The events of the snapshot, if one was asked for. -/
def snapshotOf (rows : OrdMap Bytes Cell) : List WatchEvent × Option Status :=
  if sub.ctx.include_initial_snapshot then emit_initial_snapshot rows sub.ctx registry sub.filter else ([], none)

/-- A watch as it is spawned. -/
def spawn_watch_loop (rows : OrdMap Bytes Cell) (saved : Option QueryWatchState) : Watch where
  after := sub.ctx.after
  matched_nodes := restored sub saved
  dropped_events := 0
  phase := .snapshot (snapshotOf registry sub rows).1 (snapshotOf registry sub rows).2
  channel := { capacity := sub.queue_size }
  saved := saved

def heartbeat (after : Versionstamp) : WatchEvent :=
  ⟨sub.ctx.subscription_id, .Heartbeat, after, none, none, "heartbeat"⟩

/-- A heartbeat that finds no room is dropped. -/
def send_heartbeat (w : Watch) (beat : Bool) : Channel :=
  if beat then
    match w.channel.try_send (.ok (heartbeat sub w.after)) with
    | .ok tx => tx
    | .error _ => w.channel
  else w.channel

def poll (w : Watch) (beat : Bool) (read : Except PelagoError Log) : Watch :=
  { w with
    channel := send_heartbeat sub w beat
    phase :=
      match read with
      | .ok log =>
        match read_log log w.after 256 with
        | [] => .head
        | entries => .batch [] [] entries
      | .error e => .failing (.internal "watch dispatcher failed: " e) }

def dispatch (w : Watch) (stored : Bool) (event : WatchEvent) (next : Phase) : Watch :=
  match try_dispatch_watch_event w.channel event w.dropped_events sub.ctx.max_dropped_events with
  | (.Sent, tx, dropped) | (.Backpressured, tx, dropped) =>
    { w with channel := tx, dropped_events := dropped, phase := next }
  | (.DropSubscription status, tx, dropped) =>
    { w with channel := tx, dropped_events := dropped, phase := .failing status }
  | (.ConsumerClosed, _, _) => { persist_query_watch_state sub w stored with phase := .ended }

/-- The next thing a loop does when it is not at its head. A send that waits
for room does nothing. -/
def work (w : Watch) (stored : Bool) : Watch :=
  match w.phase with
  | .snapshot [] none => { w with phase := .head }
  | .snapshot [] (some status) => { w with phase := .failing status }
  | .snapshot (event :: rest) error =>
    match w.channel.try_send (.ok event) with
    | .ok tx =>
      { w with
        matched_nodes := track_snapshot sub.filter event w.matched_nodes
        channel := tx
        phase := .snapshot rest error }
    | .error .Closed =>
      { w with
        matched_nodes := track_snapshot sub.filter event w.matched_nodes
        phase := .failing (.cancelled "watch stream closed") }
    | .error .Full => w
  | .head => w
  | .batch (event :: events) operations entries => dispatch sub w stored event (.batch events operations entries)
  | .batch [] (op :: operations) entries =>
    let (events, matched_nodes) :=
      cdc_op_to_watch_events sub.ctx.subscription_id w.after registry sub.filter op w.matched_nodes
    { w with matched_nodes := matched_nodes, phase := .batch events operations entries }
  | .batch [] [] ((versionstamp, operations) :: entries) =>
    { w with after := versionstamp, phase := .batch [] operations entries }
  | .batch [] [] [] => { persist_query_watch_state sub w stored with phase := .head }
  | .failing status =>
    match w.channel.try_send (.error status) with
    | .ok tx => { persist_query_watch_state sub w stored with channel := tx, phase := .ended }
    | .error .Closed => { persist_query_watch_state sub w stored with phase := .ended }
    | .error .Full => w
  | .ended => w

def step (w : Watch) : Tick → Watch
  | .receive => { w with channel := w.channel.recv }
  | .close => { w with channel := w.channel.close }
  | .stop stored =>
    match w.phase with
    | .head => { persist_query_watch_state sub w stored with phase := .ended }
    | _ => w
  | .poll beat read =>
    match w.phase with
    | .head => poll sub w beat read
    | _ => w
  | .work stored => work registry sub w stored

def run (w : Watch) (ticks : List Tick) : Watch := ticks.foldl (step registry sub) w

end Loop

section Moves

namespace Channel

theorem recv_sent (rx : Channel) : rx.recv.sent = rx.sent := by
  unfold recv
  split
  · rfl
  · split <;> simp_all [sent]

theorem try_send_ok {tx tx' : Channel} {item : Item} (h : tx.try_send item = .ok tx') :
    tx'.sent = tx.sent ++ [item] := by
  unfold try_send at h
  split at h
  · cases h
  · split at h
    · cases h
      simp [sent]
    · cases h

end Channel

variable (sub : Subscription)

/-- The row of the durable state, if the watch has tried to store it. -/
def Stores (w : Watch) (saved : Option QueryWatchState) : Prop :=
  saved = w.saved ∨ ∃ state_id, saved = some ⟨state_id, w.after, w.matched_nodes⟩

theorem persist_stores (w : Watch) (stored : Bool) :
    ∃ saved, persist_query_watch_state sub w stored = { w with saved := saved } ∧ Stores w saved := by
  unfold persist_query_watch_state
  split
  · split
    · exact ⟨_, rfl, .inr ⟨_, rfl⟩⟩
    · exact ⟨w.saved, rfl, .inl rfl⟩
  · exact ⟨w.saved, rfl, .inl rfl⟩

/-- The queue, if the watch has tried to send a heartbeat. -/
def Beats (w : Watch) (tx : Channel) : Prop :=
  tx.sent = w.channel.sent ∨ tx.sent = w.channel.sent ++ [.ok (heartbeat sub w.after)]

theorem send_heartbeat_beats (w : Watch) (beat : Bool) : Beats sub w (send_heartbeat sub w beat) := by
  unfold send_heartbeat
  split
  · split
    · exact .inr (Channel.try_send_ok ‹_›)
    · exact .inl rfl
  · exact .inl rfl

/-- The log that a tick reads is one of those. -/
def Tick.Sees (seen : Log → Prop) : Tick → Prop
  | .poll _ (.ok log) => seen log
  | _ => True

/-- What a step can do to a watch that reads certain logs. -/
inductive Moves (registry : Registry) (seen : Log → Prop) (w : Watch) : Watch → Prop where
  | client {tx : Channel} (hsent : tx.sent = w.channel.sent) : Moves registry seen w { w with channel := tx }
  | stop {saved : Option QueryWatchState} (hphase : w.phase = .head) (hsaved : Stores w saved) :
      Moves registry seen w { w with saved := saved, phase := .ended }
  | idle {tx : Channel} (hphase : w.phase = .head) (hbeats : Beats sub w tx) :
      Moves registry seen w { w with channel := tx }
  | read {tx : Channel} {log : Log} (hphase : w.phase = .head) (hbeats : Beats sub w tx) (hlog : seen log) :
      Moves registry seen w { w with channel := tx, phase := .batch [] [] (read_log log w.after 256) }
  | unread {tx : Channel} {status : Status} (hphase : w.phase = .head) (hbeats : Beats sub w tx) :
      Moves registry seen w { w with channel := tx, phase := .failing status }
  | entered (hphase : w.phase = .snapshot [] none) : Moves registry seen w { w with phase := .head }
  | refused {status : Status} (hphase : w.phase = .snapshot [] (some status)) :
      Moves registry seen w { w with phase := .failing status }
  | shown {tx : Channel} {event : WatchEvent} {rest : List WatchEvent} {error : Option Status}
      (hphase : w.phase = .snapshot (event :: rest) error) (hsent : tx.sent = w.channel.sent ++ [.ok event]) :
      Moves registry seen w
        { w with
          matched_nodes := track_snapshot sub.filter event w.matched_nodes
          channel := tx
          phase := .snapshot rest error }
  | gone {event : WatchEvent} {rest : List WatchEvent} {error : Option Status} {status : Status}
      (hphase : w.phase = .snapshot (event :: rest) error) :
      Moves registry seen w
        { w with
          matched_nodes := track_snapshot sub.filter event w.matched_nodes
          phase := .failing status }
  | sent {tx : Channel} {event : WatchEvent} {events : List WatchEvent} {operations : List OperationDocument}
      {entries : List (Versionstamp × List OperationDocument)}
      (hphase : w.phase = .batch (event :: events) operations entries)
      (hsent : tx.sent = w.channel.sent ++ [.ok event]) :
      Moves registry seen w
        { w with channel := tx, dropped_events := 0, phase := .batch events operations entries }
  | dropped {n : Nat} {event : WatchEvent} {events : List WatchEvent} {operations : List OperationDocument}
      {entries : List (Versionstamp × List OperationDocument)}
      (hphase : w.phase = .batch (event :: events) operations entries) (hn : 0 < n) :
      Moves registry seen w { w with dropped_events := n, phase := .batch events operations entries }
  | overrun {n : Nat} {event : WatchEvent} {events : List WatchEvent} {operations : List OperationDocument}
      {entries : List (Versionstamp × List OperationDocument)} {status : Status}
      (hphase : w.phase = .batch (event :: events) operations entries) (hn : 0 < n) :
      Moves registry seen w { w with dropped_events := n, phase := .failing status }
  | left {saved : Option QueryWatchState} {event : WatchEvent} {events : List WatchEvent}
      {operations : List OperationDocument} {entries : List (Versionstamp × List OperationDocument)}
      (hphase : w.phase = .batch (event :: events) operations entries) (hsaved : Stores w saved) :
      Moves registry seen w { w with saved := saved, phase := .ended }
  | operation {op : OperationDocument} {operations : List OperationDocument}
      {entries : List (Versionstamp × List OperationDocument)} {events : List WatchEvent}
      {matched_nodes : Finset String} (hphase : w.phase = .batch [] (op :: operations) entries)
      (hevents : cdc_op_to_watch_events sub.ctx.subscription_id w.after registry sub.filter op w.matched_nodes =
        (events, matched_nodes)) :
      Moves registry seen w { w with matched_nodes := matched_nodes, phase := .batch events operations entries }
  | entry {versionstamp : Versionstamp} {operations : List OperationDocument}
      {entries : List (Versionstamp × List OperationDocument)}
      (hphase : w.phase = .batch [] [] ((versionstamp, operations) :: entries)) :
      Moves registry seen w { w with after := versionstamp, phase := .batch [] operations entries }
  | done {saved : Option QueryWatchState} (hphase : w.phase = .batch [] [] []) (hsaved : Stores w saved) :
      Moves registry seen w { w with saved := saved, phase := .head }
  | failed {saved : Option QueryWatchState} {tx : Channel} {status : Status} (hphase : w.phase = .failing status)
      (hsent : tx.sent = w.channel.sent ∨ tx.sent = w.channel.sent ++ [.error status]) (hsaved : Stores w saved) :
      Moves registry seen w { w with saved := saved, channel := tx, phase := .ended }

variable {sub} {registry : Registry} {seen : Log → Prop} {w : Watch}

theorem Moves.refl : Moves sub registry seen w w := .client rfl

theorem poll_moves (hphase : w.phase = .head) (beat : Bool) {read : Except PelagoError Log}
    (hread : ∀ log, read = .ok log → seen log) : Moves sub registry seen w (poll sub w beat read) := by
  have hbeats := send_heartbeat_beats sub w beat
  unfold poll
  split
  · rename_i log
    split
    · have hmove : Moves sub registry seen w { w with channel := send_heartbeat sub w beat } := .idle hphase hbeats
      rwa [← hphase]
    · exact .read hphase hbeats (hread _ rfl)
  · exact .unread hphase hbeats

theorem dispatch_moves {event : WatchEvent} {events : List WatchEvent} {operations : List OperationDocument}
    {entries : List (Versionstamp × List OperationDocument)}
    (hphase : w.phase = .batch (event :: events) operations entries) (stored : Bool) :
    Moves sub registry seen w (dispatch sub w stored event (.batch events operations entries)) := by
  have hn : ∀ n, 0 < min (n + 1) (2 ^ 32 - 1) := by
    omega
  unfold dispatch try_dispatch_watch_event
  cases hsend : w.channel.try_send (.ok event) with
  | ok => exact .sent hphase (Channel.try_send_ok hsend)
  | error e =>
    cases e with
    | Full =>
      dsimp only
      split_ifs with hmax
      · exact .overrun hphase (hn _)
      · exact .dropped hphase (hn _)
    | Closed =>
      obtain ⟨saved, hpersist, hsaved⟩ := persist_stores _ w _
      rw [hpersist]
      exact .left hphase hsaved

theorem work_moves (w : Watch) (stored : Bool) : Moves sub registry seen w (work registry sub w stored) := by
  obtain ⟨saved, hpersist, hsaved⟩ := persist_stores _ w _
  unfold work
  split
  · exact .entered ‹_›
  · exact .refused ‹_›
  · split
    · exact .shown ‹_› (Channel.try_send_ok ‹_›)
    · exact .gone ‹_›
    · exact .refl
  · exact .refl
  · exact dispatch_moves ‹_› _
  · exact .operation ‹_› rfl
  · exact .entry ‹_›
  · rw [hpersist]
    exact .done ‹_› hsaved
  · split
    · rw [hpersist]
      exact .failed ‹_› (.inr (Channel.try_send_ok ‹_›)) hsaved
    · rw [hpersist]
      have hmove : Moves sub registry seen w { w with saved := saved, channel := w.channel, phase := .ended } :=
        .failed ‹_› (.inl rfl) hsaved
      exact hmove
    · exact .refl
  · exact .refl

theorem step_moves {t : Tick} (ht : t.Sees seen) : Moves sub registry seen w (step registry sub w t) := by
  cases t with
  | receive => exact .client w.channel.recv_sent
  | close => exact .client rfl
  | stop stored =>
    obtain ⟨saved, hpersist, hsaved⟩ := persist_stores _ w _
    simp only [step]
    split
    · rw [hpersist]
      exact .stop ‹_› hsaved
    · exact .refl
  | poll beat =>
    simp only [step]
    split
    · refine poll_moves ‹_› _ fun _ hlog => ?_
      subst hlog
      exact ht
    · exact .refl
  | work stored => exact work_moves w _

/-- Every step of a run is of a kind. -/
def Along (registry : Registry) (sub : Subscription) (P : Watch → Watch → Prop) (w : Watch) : List Tick → Prop
  | [] => True
  | t :: ticks => P w (step registry sub w t) ∧ Along registry sub P (step registry sub w t) ticks

/-- What every step of a kind keeps holds after a run of such steps. -/
theorem run_keeps {P : Watch → Watch → Prop} {Inv : Watch → Prop}
    (hmove : ∀ {w w'}, Moves sub registry seen w w' → P w w' → Inv w → Inv w') {ticks : List Tick}
    (hticks : ∀ t ∈ ticks, t.Sees seen) (halong : Along registry sub P w ticks) (h : Inv w) :
    Inv (run registry sub w ticks) := by
  induction ticks generalizing w with
  | nil => exact h
  | cons t _ ih =>
    obtain ⟨hstep, hrest⟩ := halong
    exact ih (fun t ht => hticks t (List.mem_cons_of_mem _ ht)) hrest
      (hmove (step_moves (hticks t List.mem_cons_self)) hstep h)

theorem along_true (registry : Registry) (sub : Subscription) (w : Watch) (ticks : List Tick) :
    Along registry sub (fun _ _ => True) w ticks := by
  induction ticks generalizing w with
  | nil => trivial
  | cons _ _ ih => exact ⟨trivial, ih _⟩

theorem sees_true (ticks : List Tick) : ∀ t ∈ ticks, t.Sees fun _ => True := by
  intro t _
  unfold Tick.Sees
  split <;> trivial

end Moves

end pelago_api.watch_service
