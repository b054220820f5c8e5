import Pelago.Kv.Replication
import Pelago.Storage.Node.Runs
import Pelago.Api.ReplicationService

open kv pelago_core pelago_storage pelago_storage.node

namespace pelago_server.replicator

/-- Applies one operation of a remote site's log; `none` tells that it was
skipped. -/
def apply_replication_op (node_store : NodeStore) (remote_site_id database ns : String) (timestamp : Int)
    (operation : Option CdcOperation) : Proc (Option CdcOperation) :=
  match operation with
  | none => pure none
  | some op => do
    let applied ← match op with
      | .NodeCreate entity_type node_id properties home_site =>
        apply_replica_node_create node_store database ns entity_type node_id properties home_site timestamp
          remote_site_id
      | .NodeUpdate entity_type node_id changed_properties old_properties =>
        apply_replica_node_update node_store database ns entity_type node_id changed_properties
          old_properties timestamp remote_site_id
      | .NodeDelete entity_type node_id =>
        apply_replica_node_delete node_store database ns entity_type node_id timestamp remote_site_id
      | .EdgeCreate source_type source_id target_type target_id edge_type edge_id properties =>
        node_store.edge_store.apply_replica_edge_create database ns ⟨database, ns, source_type, source_id⟩
          ⟨database, ns, target_type, target_id⟩ edge_type edge_id properties timestamp remote_site_id
      | .EdgeDelete source_type source_id target_type target_id edge_type =>
        node_store.edge_store.apply_replica_edge_delete database ns ⟨database, ns, source_type, source_id⟩
          ⟨database, ns, target_type, target_id⟩ edge_type timestamp remote_site_id
      | .OwnershipTransfer entity_type node_id previous_site_id current_site_id =>
        apply_replica_ownership_transfer database ns entity_type node_id previous_site_id current_site_id
          timestamp remote_site_id
    pure (if applied then some op else none)

/-- The operations of log entries in order, each with its entry's timestamp. -/
def operations (entries : List CdcEntry) : List (Int × CdcOperation) :=
  entries.flatMap fun entry => entry.operations.map fun op => (entry.timestamp, op)

/-- One operation applied at a replica. -/
def replay_op (dep : Deployment) (remote_site_id : String) (w : ids.World) (event : Int × CdcOperation) :
    Except PelagoError (Option CdcOperation) × ids.World :=
  (apply_replication_op dep.store remote_site_id dep.database dep.ns event.1 (some event.2)).run dep.supply w

/-- Operations applied one after the other. -/
def replay (dep : Deployment) (remote_site_id : String) (events : List (Int × CdcOperation)) (w : ids.World) :
    List (Except PelagoError (Option CdcOperation)) × ids.World :=
  replication.replay (replay_op dep remote_site_id) events w

section Runs

variable {dep : Deployment} {remote_site_id : String} {w w' : ids.World} {timestamp : Int}

variable {r : Except PelagoError Bool} {node_id : String}

/-- What an operation reports of the replica function it calls. -/
private theorem run_applied {p : Proc Bool} {op : CdcOperation} (h : p.run dep.supply w = (r, w')) :
    (do let applied ← p; pure (if applied then some op else none) : Proc (Option CdcOperation)).run dep.supply w =
      (r.map fun applied => if applied then some op else none, w') := by
  rw [Proc.run_bind, h]
  cases r <;> rfl

theorem replay_create {home_site : String} {properties : Properties}
    (h : (apply_replica_node_create dep.store dep.database dep.ns dep.entity_type node_id properties home_site
      timestamp remote_site_id).run dep.supply w = (r, w')) :
    replay_op dep remote_site_id w (timestamp, .NodeCreate dep.entity_type node_id properties home_site) =
      (r.map fun applied => if applied then
        some (.NodeCreate dep.entity_type node_id properties home_site) else none, w') :=
  run_applied h

theorem replay_update {changed old_properties : Properties}
    (h : (apply_replica_node_update dep.store dep.database dep.ns dep.entity_type node_id changed
      old_properties timestamp remote_site_id).run dep.supply w = (r, w')) :
    replay_op dep remote_site_id w (timestamp, .NodeUpdate dep.entity_type node_id changed old_properties) =
      (r.map fun applied => if applied then
        some (.NodeUpdate dep.entity_type node_id changed old_properties) else none, w') :=
  run_applied h

theorem replay_delete
    (h : (apply_replica_node_delete dep.store dep.database dep.ns dep.entity_type node_id timestamp
      remote_site_id).run dep.supply w = (r, w')) :
    replay_op dep remote_site_id w (timestamp, .NodeDelete dep.entity_type node_id) =
      (r.map fun applied => if applied then some (.NodeDelete dep.entity_type node_id) else none, w') :=
  run_applied h

theorem replay_transfer {previous_site_id current_site_id : String}
    (h : (apply_replica_ownership_transfer dep.database dep.ns dep.entity_type node_id previous_site_id
      current_site_id timestamp remote_site_id).run dep.supply w = (r, w')) : replay_op dep remote_site_id w
        (timestamp, .OwnershipTransfer dep.entity_type node_id previous_site_id current_site_id) =
      (r.map fun applied => if applied then
        some (.OwnershipTransfer dep.entity_type node_id previous_site_id current_site_id) else none, w') :=
  run_applied h

end Runs

open pelago_storage.cdc pelago_api.replication_service List kv.OrdMap

/-- Where `run_peer_replicator` stands: about to pull, while the peer collects
the answer page by page, with the events of the answer still to come, within the
operations of one entry, or about to save its position. -/
inductive Phase where
  | idle
  | pulling (filtered : Events) (cursor : Option Versionstamp)
  | streaming (events : Events)
  | applying (vs : Versionstamp) (entry : CdcEntry) (ops mirrored : List CdcOperation) (events : Events)
  | saving

/-- A finished collection is the answer to the pull. -/
def Phase.of_collection : Collection → Phase
  | .more filtered cursor => .pulling filtered cursor
  | .finished filtered => .streaming filtered

/-- The task that follows one peer, with the versionstamp it pulls after. -/
structure Task where
  after : Option Versionstamp
  phase : Phase

namespace Task

def start (checkpoint : Option Versionstamp) : Task := ⟨checkpoint, .idle⟩

/-- The pull request is sent. -/
def request (t : Task) : Task :=
  match t.phase with
  | .idle => { t with phase := .pulling [] t.after }
  | _ => t

/-- The peer reads its next page, or answers. A failed read fails the pull. -/
def page (t : Task) (rows : OrdMap Bytes Cell) (database ns remote_site_id : String) (limit : Nat) : Task :=
  match t.phase with
  | .pulling filtered cursor =>
    match fetch_round rows database ns remote_site_id (request_limit limit) filtered cursor with
    | .ok collection => { t with phase := .of_collection collection }
    | .error _ => { t with phase := .idle }
  | _ => t

/-- The pull fails. -/
def fail (t : Task) : Task :=
  match t.phase with
  | .pulling _ _ => { t with phase := .idle }
  | _ => t

/-- The next event of the answer. An entry of another author is passed over. -/
def receive (t : Task) (remote_site_id : String) : Task :=
  match t.phase with
  | .streaming ((vs, entry) :: events) =>
    if entry.site ≠ remote_site_id then ⟨some vs, .streaming events⟩
    else { t with phase := .applying vs entry entry.operations [] events }
  | _ => t

/-- The entry that the next event passes to `apply_replication_op`. -/
def received (t : Task) (remote_site_id : String) : Events :=
  match t.phase with
  | .streaming ((vs, entry) :: _) => if entry.site ≠ remote_site_id then [] else [(vs, entry)]
  | _ => []

/-- The result of the next operation. Skipped and failed ones are only counted. -/
def outcome (t : Task) (applied : Except PelagoError (Option CdcOperation)) : Task :=
  match t.phase with
  | .applying vs entry (_ :: ops) mirrored events =>
    let mirrored := match applied with
      | .ok (some op) => mirrored ++ [op]
      | .ok none => mirrored
      | .error _ => mirrored
    { t with phase := .applying vs entry ops mirrored events }
  | _ => t

/-- The entry mirrored into the local log once all operations are through. -/
def mirror_entry (t : Task) (remote_site_id : String) : Option CdcEntry :=
  match t.phase with
  | .applying _ entry [] mirrored _ =>
    if mirrored.isEmpty then none else some ⟨remote_site_id, entry.timestamp, mirrored⟩
  | _ => none

/-- The entry is done with, whether it could be mirrored or not. -/
def advance (t : Task) : Task :=
  match t.phase with
  | .applying vs _ [] _ events => ⟨some vs, .streaming events⟩
  | _ => t

/-- The stream ends, or breaks off with an error. -/
def close (t : Task) : Task :=
  match t.phase with
  | .streaming _ => { t with phase := .saving }
  | _ => t

/-- The position has been saved, or could not be. -/
def saved (t : Task) : Task :=
  match t.phase with
  | .saving => { t with phase := .idle }
  | _ => t

end Task

/-- Entries by one author that scans of a log can see. -/
def authored (site : String) (row : Versionstamp × CdcEntry) : Bool :=
  decide (row.2.site = site) && decide row.1.Regular

/-- What the phase of a task knows of the peer's log, with its cursor at `c`. -/
inductive PhaseReads (site : String) (log : OrdMap Versionstamp CdcEntry) (c : WithBot Versionstamp) :
    Phase → Events → Prop where
  | idle : PhaseReads site log c .idle ((log.upTo c).filter (authored site))
  | saving : PhaseReads site log c .saving ((log.upTo c).filter (authored site))
  | pulling {filtered : Events} {cursor : Option Versionstamp} (hregular : ∀ vs ∈ cursor, vs.Regular)
      (hreached : log.Reached (position cursor)) (hle : c ≤ position cursor)
      (hfiltered : filtered = (log.between c (position cursor)).filter (authored site)) :
      PhaseReads site log c (.pulling filtered cursor) ((log.upTo c).filter (authored site))
  | streaming {events : Events} (hevents : events <+: (log.after c).filter (authored site)) :
      PhaseReads site log c (.streaming events) ((log.upTo c).filter (authored site))
  | applying {vs : Versionstamp} {entry : CdcEntry} {events : Events} (ops mirrored : List CdcOperation)
      (hevents : (vs, entry) :: events <+: (log.after c).filter (authored site)) :
      PhaseReads site log c (.applying vs entry ops mirrored events)
        ((log.upTo c).filter (authored site) ++ [(vs, entry)])

/-- A task has passed on what its author wrote, in order, up to its cursor. -/
structure Task.Reads (site : String) (log : OrdMap Versionstamp CdcEntry) (t : Task) (passed : Events) :
    Prop where
  regular : ∀ vs ∈ t.after, vs.Regular
  reached : log.Reached (position t.after)
  phase : PhaseReads site log (position t.after) t.phase passed

section Reads

variable {site : String} {log log' : OrdMap Versionstamp CdcEntry} {t : Task} {passed : Events}

theorem reads_start (site : String) (log : OrdMap Versionstamp CdcEntry) : (Task.start none).Reads site log [] where
  regular := by simp [Task.start]
  reached := log.reached_bot
  phase := by
    have hidle : PhaseReads site log ⊥ .idle ((log.upTo ⊥).filter (authored site)) := .idle
    rwa [upTo_bot] at hidle

theorem regular_isPrefix (log : OrdMap Versionstamp CdcEntry) (c : WithBot Versionstamp) :
    ((log.after c).filter fun row => decide row.1.Regular) <+: log.after c :=
  filter_isPrefix
    (fun _ _ hlt hb => decide_eq_true (Versionstamp.Regular.of_lt (of_decide_eq_true hb) hlt))
    (log.after_sorted c)

/-- Growth of the log does not take anything back. -/
theorem PhaseReads.extend {c : WithBot Versionstamp} {phase : Phase} (h : PhaseReads site log c phase passed)
    (hext : log'.Extends log) (hc : log.Reached c) : PhaseReads site log' c phase passed := by
  obtain ⟨new, _, hafter, hupTo⟩ := hext.exists_after hc
  have hgrown : (log.after c).filter (authored site) <+: (log'.after c).filter (authored site) := by
    rw [hafter, filter_append]
    exact prefix_append ..
  cases h with
  | idle =>
    rw [← hupTo]
    exact .idle
  | saving =>
    rw [← hupTo]
    exact .saving
  | pulling hregular hreached hle hfiltered =>
    rw [← hupTo]
    rw [← hext.between_eq hle hreached] at hfiltered
    exact .pulling hregular (hext.reached hreached) hle hfiltered
  | streaming hevents =>
    rw [← hupTo]
    exact .streaming (hevents.trans hgrown)
  | applying ops mirrored hevents =>
    rw [← hupTo]
    exact .applying ops mirrored (hevents.trans hgrown)

theorem Task.Reads.extend (h : t.Reads site log passed) (hext : log'.Extends log) : t.Reads site log' passed :=
  ⟨h.regular, hext.reached h.reached, h.phase.extend hext h.reached⟩

theorem Task.Reads.request (h : t.Reads site log passed) : t.request.Reads site log passed := by
  unfold Task.request
  split
  case h_2 => exact h
  case h_1 hphase =>
    have hreads := h.phase
    rw [hphase] at hreads
    cases hreads
    have hnil : [] = (log.between (position t.after) (position t.after)).filter (authored site) := by
      rw [between_self]
      rfl
    exact ⟨h.regular, h.reached, .pulling h.regular h.reached le_rfl hnil⟩

/-- A round of the peer's collection keeps to the log's order. -/
theorem collect_round_reads {c : WithBot Versionstamp} {filtered page : Events} {cursor : Option Versionstamp}
    (limit : Nat) (hle : c ≤ position cursor)
    (hfiltered : filtered = (log.between c (position cursor)).filter (authored site))
    (hpage : page <+: (log.after (position cursor)).filter fun row => decide row.1.Regular) :
    PhaseReads site log c (.of_collection (collect_round site limit page filtered))
      ((log.upTo c).filter (authored site)) := by
  have hregular : ∀ row ∈ page, row.1.Regular := fun _ hrow =>
    of_decide_eq_true (mem_filter.mp (hpage.subset hrow)).2
  have hauthored : ∀ front : Events, (∀ row ∈ front, row.1.Regular) →
      front.filter (fun row => decide (row.2.site = site)) = front.filter (authored site) := by
    intro _ hfront
    refine filter_congr fun row hrow => ?_
    simp [authored, hfront _ hrow]
  have hafter := hpage.trans (regular_isPrefix _ _)
  -- what has been collected, followed by the start of the page, is where the answer starts
  have hstart : ∀ front : Events, front <+: page →
      filtered ++ front.filter (authored site) <+: (log.after c).filter (authored site) := by
    intro _ hfront
    rw [hfiltered, ← between_append_after _ hle, filter_append]
    exact (prefix_append_right_inj _).mpr ((hfront.trans hafter).filter _)
  obtain ⟨front, back, hsplit, heq, hback⟩ := scan_page_eq _ _ _ _
  have hfront : front <+: page := ⟨back, hsplit.symm⟩
  rw [hauthored _ fun row hrow => hregular _ (hfront.subset hrow)] at heq
  unfold collect_round
  by_cases hempty : page.isEmpty
  · rw [if_pos hempty]
    have hnil := hstart [] nil_prefix
    rw [filter_nil, append_nil] at hnil
    exact .streaming hnil
  rw [if_neg hempty]
  cases hscan : scan_page site limit page filtered with
  | mk filtered' full =>
    rw [hscan] at heq hback
    cases full with
    | true =>
      dsimp only at heq
      exact .streaming (heq ▸ hstart _ hfront)
    | false =>
      have hall : front = page := by rw [hsplit, hback rfl, append_nil]
      rw [hall] at heq
      dsimp only at heq ⊢
      by_cases hshort : length page < page_size limit
      · rw [if_pos hshort]
        exact .streaming (heq ▸ hstart _ (prefix_refl _))
      · rw [if_neg hshort]
        cases hlast : page.getLast? with
        | none =>
          rw [getLast?_eq_none_iff.mp hlast] at hempty
          exact absurd rfl hempty
        | some last =>
          obtain ⟨init, hinit⟩ := getLast?_eq_some_iff.mp hlast
          obtain ⟨rest, hrest⟩ := hafter
          have hmem : last ∈ page := by simp [hinit]
          obtain ⟨hrow, hlt⟩ := mem_after.mp ((hrest ▸ mem_append_left _ hmem :
            last ∈ log.after (position cursor)))
          rw [hinit, append_assoc] at hrest
          have hbetween := between_of_after_eq hrest.symm
          have hnext : filtered' = (log.between c (last.1 : WithBot Versionstamp)).filter (authored site) := by
            rw [heq, ← between_append_between _ hle hlt.le, hbetween, ← hinit, filter_append, hfiltered]
          have hlast_regular : ∀ vs ∈ Option.map Prod.fst (some last), vs.Regular := by
            simpa using hregular _ hmem
          exact .pulling hlast_regular (reached_of_mem hrow) (hle.trans hlt.le) hnext

theorem Task.Reads.page (h : t.Reads site log passed) {rows : OrdMap Bytes Cell} {database ns : String}
    (hlog : HoldsLog database ns rows log) (hsite : site ≠ "") (limit : Nat) :
    (t.page rows database ns site limit).Reads site log passed := by
  unfold Task.page
  split
  case h_2 => exact h
  case h_1 filtered cursor hphase =>
    have hreads := h.phase
    rw [hphase] at hreads
    cases hreads with
    | pulling hcursor _ hle hfiltered =>
      simp only [fetch_round, if_neg hsite, read_cdc_entries_eq hlog fun vs hvs => (hcursor vs hvs).ne_last]
      exact ⟨h.regular, h.reached,
        collect_round_reads _ hle hfiltered ( take_prefix ..)⟩

theorem Task.Reads.fail (h : t.Reads site log passed) : t.fail.Reads site log passed := by
  unfold Task.fail
  split
  case h_2 => exact h
  case h_1 filtered cursor hphase =>
    have hreads := h.phase
    rw [hphase] at hreads
    cases hreads
    exact ⟨h.regular, h.reached, .idle⟩

theorem of_authored {row : Versionstamp × CdcEntry} (h : authored site row = true) :
    row.2.site = site ∧ row.1.Regular := by
  simpa [authored] using h

section

variable (h : t.Reads site log passed)
include h

theorem Task.Reads.receive : (t.receive site).Reads site log (passed ++ t.received site) := by
  unfold Task.receive received
  split
  case h_2 =>
    rw [append_nil]
    exact h
  case h_1 vs entry events hphase =>
    have hreads := h.phase
    rw [hphase] at hreads
    cases hreads with
    | streaming hevents =>
      have hmem : (vs, entry) ∈ (log.after (position t.after)).filter (authored site) :=
        hevents.subset mem_cons_self
      have hauthor := (of_authored (mem_filter.mp hmem).2).1
      rw [if_neg (not_not.mpr hauthor), if_neg (not_not.mpr hauthor)]
      exact ⟨h.regular, h.reached, .applying _ [] hevents⟩

theorem Task.Reads.outcome (applied : Except PelagoError (Option CdcOperation)) :
    (t.outcome applied).Reads site log passed := by
  unfold Task.outcome
  split
  case h_2 => exact h
  case h_1 vs entry op ops mirrored events hphase =>
    have hreads := h.phase
    rw [hphase] at hreads
    cases hreads with
    | applying _ _ hevents => exact ⟨h.regular, h.reached, .applying ops _ hevents⟩

/-- Passing an entry moves the cursor to it. -/
theorem Task.Reads.advance : t.advance.Reads site log passed := by
  unfold Task.advance
  split
  case h_2 => exact h
  case h_1 vs entry mirrored events hphase =>
    have hreads := h.phase
    rw [hphase] at hreads
    cases hreads with
    | applying _ _ hevents =>
      obtain ⟨rest, hrest⟩ := hevents
      obtain ⟨hrow, hlt, hbetween, hafter⟩ := filter_after_cons hrest.symm
      have hmem : (vs, entry) ∈ (log.after (position t.after)).filter (authored site) := by
        rw [← hrest]
        exact mem_cons_self
      have hvs := (of_authored (mem_filter.mp hmem).2).2
      have hpassed : (log.upTo (position t.after)).filter (authored site) ++ [(vs, entry)] =
          (log.upTo (vs : WithBot Versionstamp)).filter (authored site) := by
        rw [← upTo_append_between _ hlt.le, filter_append, hbetween]
      rw [hpassed]
      exact ⟨by simpa using hvs, reached_of_mem hrow, .streaming ⟨rest, hafter.symm⟩⟩

theorem Task.Reads.close : t.close.Reads site log passed := by
  unfold Task.close
  split
  case h_2 => exact h
  case h_1 events hphase =>
    have hreads := h.phase
    rw [hphase] at hreads
    cases hreads
    exact ⟨h.regular, h.reached, .saving⟩

theorem Task.Reads.saved : t.saved.Reads site log passed := by
  unfold Task.saved
  split
  case h_2 => exact h
  case h_1 hphase =>
    have hreads := h.phase
    rw [hphase] at hreads
    cases hreads
    exact ⟨h.regular, h.reached, .idle⟩

/-- What a task has passed on is where the author's log starts. -/
theorem Task.Reads.passed_isPrefix : passed <+: log.rows.filter fun row => decide (row.2.site = site) := by
  have hrows : log.rows.filter (authored site) <+: log.rows.filter fun row => decide (row.2.site = site) := by
    have hregular : (log.rows.filter fun row => decide row.1.Regular) <+: log.rows :=
      filter_isPrefix
        (fun _ _ hlt hb => decide_eq_true (Versionstamp.Regular.of_lt (of_decide_eq_true hb) hlt)) log.sorted
    have hfilter := hregular.filter fun row => decide (row.2.site = site)
    rwa [filter_filter] at hfilter
  have hupTo : (log.upTo (position t.after)).filter (authored site) ++
      (log.after (position t.after)).filter (authored site) = log.rows.filter (authored site) := by
    rw [← filter_append, upTo_append_after]
  have hplain : (log.upTo (position t.after)).filter (authored site) <+:
      log.rows.filter (authored site) := ⟨_, hupTo⟩
  obtain ⟨after, phase⟩ := t
  obtain ⟨_, _, hphase⟩ := h
  refine .trans ?_ hrows
  cases hphase with
  | idle | saving | pulling | streaming => exact hplain
  | applying _ _ hevents =>
    rw [← hupTo]
    refine (prefix_append_right_inj _).mpr (.trans ?_ hevents)
    exact ⟨_, rfl⟩

end

end Reads

end pelago_server.replicator
