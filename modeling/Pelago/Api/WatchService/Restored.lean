import Pelago.Api.WatchService.Resume

open kv pelago_core pelago_storage List kv.OrdMap

namespace pelago_api.watch_service

variable {matched_nodes : Finset String} {waiting : List WatchEvent}
  {entries : List (Versionstamp × List OperationDocument)}

section Positions

/-- The live nodes after the entries up to a position. -/
def liveAt (log : Log) (position : Versionstamp) : Live :=
  liveAfter ((operations (log.upTo (position : WithBot Versionstamp))).map Prod.snd)

/-- The log of a site that names nodes as they are printed. -/
structure Sound (log : Log) : Prop where
  regular : ∀ row ∈ log.rows, row.1.Regular
  produced : Produced ((operations log.rows).map Prod.snd)
  canonical : ∀ x ∈ operations log.rows, x.2.Canonical

variable {registry : Registry} {query_filter : QueryFilter} {log : Log}

/-- Exact at one point of the log, exact at a later one. -/
theorem Exact.later {before : List OperationDocument} {later : List (Versionstamp × OperationDocument)}
    (hproduced : Produced (before ++ later.map Prod.snd))
    (hcanonical : ∀ x ∈ later, x.2.Canonical) (h : Exact registry query_filter (liveAfter before) matched_nodes)
    (sub_id : String) : Exact registry query_filter (liveAfter (before ++ later.map Prod.snd))
      (watch_operations sub_id registry (.Query query_filter) later matched_nodes).2 := by
  induction later using reverseRecOn with
  | nil => simpa [watch_operations] using h
  | append_singleton later x ih =>
    obtain ⟨vs, op⟩ := x
    have hmap : before ++ (later ++ [(vs, op)]).map Prod.snd = (before ++ later.map Prod.snd) ++ [op] := by simp
    rw [hmap] at hproduced ⊢
    have hlater := ih hproduced.last.1 fun x hx => hcanonical x (mem_append_left _ hx)
    rw [watch_operations_concat]
    exact (step_tracks hproduced.last.1 hproduced.last.2 (hcanonical (vs, op) (by simp)) hlater).1

theorem upTo_operations (log : Log) {position later : Versionstamp} (hle : position ≤ later) :
    operations (log.upTo (later : WithBot Versionstamp)) =
      operations (log.upTo (position : WithBot Versionstamp)) ++
        operations (log.between (position : WithBot Versionstamp) later) := by
  rw [← operations_append, upTo_append_between _ (WithBot.coe_le_coe.mpr hle)]

theorem operations_upTo_left (log : Log) (position : Versionstamp) :
    operations log.rows = operations (log.upTo (position : WithBot Versionstamp)) ++ operations (log.left position) := by
  rw [← operations_append, Log.left, upTo_append_after]

theorem between_left (log : Log) {position later : Versionstamp} (hle : position ≤ later) :
    operations (log.left position) =
      operations (log.between (position : WithBot Versionstamp) later) ++ operations (log.left later) := by
  rw [← operations_append, Log.left, Log.left, between_append_after _ (WithBot.coe_le_coe.mpr hle)]

/-- A watch that is between entries tracks exactly what it should, if it did so
when it started. -/
theorem InStep.exact {sub : Subscription} {start : Finset String} {after : Versionstamp}
    {dispatched : List WatchEvent} (hsound : Sound log) (hfilter : sub.filter = .Query query_filter)
    (hstart : Exact registry query_filter (liveAt log sub.ctx.after) start)
    (h : InStep registry sub log start after matched_nodes waiting [] entries dispatched) :
    Exact registry query_filter (liveAt log after) matched_nodes := by
  obtain ⟨passed, hsplit, hpassed⟩ := h.passed
  rw [map_nil, append_nil, between_left _ h.start_le] at hsplit
  obtain rfl := append_cancel_right hsplit
  have hupTo := upTo_operations log h.start_le
  have hsound' : Produced ((operations (log.upTo (after : WithBot Versionstamp))).map Prod.snd) := by
    have hproduced := hsound.produced
    rw [operations_upTo_left _ _, map_append] at hproduced
    exact hproduced.of_append
  rw [hupTo, map_append] at hsound'
  have hexact := Exact.later hsound' (fun x hx => hsound.canonical x ?_) hstart sub.ctx.subscription_id
  · rw [← hfilter, hpassed, ← map_append, ← hupTo] at hexact
    exact hexact
  · rw [operations_upTo_left _ _, hupTo]
    simp [hx]

end Positions

section Saved

variable (registry : Registry) (sub : Subscription) (log : Log) (query_filter : QueryFilter) (start : Finset String)

/-- Between the operations of an entry, or before the whole snapshot is sent. -/
def Phase.InEntry : Phase → Prop
  | .snapshot _ _ => True
  | .batch _ (_ :: _) _ => True
  | _ => False

/-- The watch does not end between the operations of an entry, nor while it
sends its snapshot. -/
def Whole (w w' : Watch) : Prop := w.phase.InEntry → ¬ w'.phase.Over

/-- What a query watch tracks. -/
inductive Tracking (w : Watch) : Prop where
  | snapshot {rest : List WatchEvent} {error : Option Status} (hphase : w.phase = .snapshot rest error)
      (hafter : w.after = sub.ctx.after)
      (hmatched : rest.foldl (fun matched event => track_snapshot sub.filter event matched) w.matched_nodes = start)
  | reading {waiting : List WatchEvent} {ops : List OperationDocument}
      {entries : List (Versionstamp × List OperationDocument)} {dispatched : List WatchEvent}
      (hphase : w.phase.parts = some (waiting, ops, entries))
      (hstep : InStep registry sub log start w.after w.matched_nodes waiting ops entries dispatched)
  | ended (hphase : w.phase.Over) (hexact : Exact registry query_filter (liveAt log w.after) w.matched_nodes)

/-- The saved state is exact at its own position. -/
def SavedExact (saved : Option QueryWatchState) : Prop :=
  ∀ state ∈ saved, Exact registry query_filter (liveAt log state.last_position) state.matched_nodes

variable {registry sub log query_filter start} {w w' : Watch}

theorem Tracking.reading_of_parts {ops : List OperationDocument}
    (h : Tracking registry sub log query_filter start w) (hphase : w.phase.parts = some (waiting, ops, entries)) :
    ∃ dispatched, InStep registry sub log start w.after w.matched_nodes waiting ops entries dispatched := by
  cases h with
  | snapshot hsnapshot =>
    rw [hsnapshot] at hphase
    cases hphase
  | @reading waiting' ops' entries' dispatched hreading hstep =>
    obtain ⟨rfl, rfl, rfl⟩ : waiting' = waiting ∧ ops' = ops ∧ entries' = entries := by
      simpa using hreading.symm.trans hphase
    exact ⟨dispatched, hstep⟩
  | ended => cases hw : w.phase <;> simp_all [Phase.Over, Phase.parts]

theorem SavedExact.stores {saved : Option QueryWatchState} (h : SavedExact registry log query_filter w.saved)
    (hexact : Exact registry query_filter (liveAt log w.after) w.matched_nodes) (hsaved : Stores w saved) :
    SavedExact registry log query_filter saved := by
  rcases hsaved with rfl | ⟨state_id, rfl⟩
  · exact h
  · rintro _ ⟨⟩
    exact hexact

section Move

variable (hsound : Sound log) (hfilter : sub.filter = .Query query_filter)
  (hstart : Exact registry query_filter (liveAt log sub.ctx.after) start)

include hsound hfilter hstart

/-- Between entries the tracked nodes are exact. -/
theorem Tracking.exact
    (h : Tracking registry sub log query_filter start w) (hphase : w.phase.parts = some (waiting, [], entries)) :
    Exact registry query_filter (liveAt log w.after) w.matched_nodes := by
  obtain ⟨dispatched, hstep⟩ := h.reading_of_parts hphase
  exact hstep.exact hsound hfilter hstart

/-- A loop that is left in the middle of a batch is left at the end of an entry. -/
theorem Tracking.exact_of_left {event : WatchEvent} {ops : List OperationDocument}
    (h : Tracking registry sub log query_filter start w)
    (hphase : w.phase = .batch (event :: waiting) ops entries) (hwhole : Whole w w') (hover : w'.phase.Over) :
    Exact registry query_filter (liveAt log w.after) w.matched_nodes := by
  cases ops with
  | nil => exact h.exact hsound hfilter hstart (by rw [hphase]; rfl)
  | cons => exact absurd hover (hwhole (by rw [hphase]; trivial))

theorem Tracking.move (haccepted : sub.ctx.after.Regular)
    (hmove : Moves sub registry (fun seen => seen.rows <+: log.rows) w w') (hwhole : Whole w w')
    (h : Tracking registry sub log query_filter start w ∧ SavedExact registry log query_filter w.saved) :
    Tracking registry sub log query_filter start w' ∧ SavedExact registry log query_filter w'.saved := by
  obtain ⟨htracking, hsaved⟩ := h
  have hhead : w.phase = .head → Exact registry query_filter (liveAt log w.after) w.matched_nodes :=
    fun hphase => htracking.exact hsound hfilter hstart (by rw [hphase]; rfl)
  -- the snapshot is not left before its end
  have hsnapshot : ∀ {rest error}, w.phase = .snapshot rest error → ¬ w'.phase.Over :=
    fun hphase => hwhole (by rw [hphase]; trivial)
  cases hmove with
  | client =>
    refine ⟨?_, hsaved⟩
    cases htracking with
    | snapshot hphase hafter hmatched => exact .snapshot hphase hafter hmatched
    | reading hphase hstep => exact .reading hphase hstep
    | ended hphase hexact => exact .ended hphase hexact
  | stop hphase hstores => exact ⟨.ended trivial (hhead hphase), hsaved.stores (hhead hphase) hstores⟩
  | idle hphase =>
    obtain ⟨dispatched, hstep⟩ := htracking.reading_of_parts (by rw [hphase]; rfl)
    exact ⟨.reading (by rw [hphase]; rfl) hstep, hsaved⟩
  | read hphase _ hlog =>
    obtain ⟨dispatched, hstep⟩ := htracking.reading_of_parts (by rw [hphase]; rfl)
    have hentries := read_log_isPrefix hsound.regular (hstep.regular hsound.regular haccepted) hlog 256
    exact ⟨.reading rfl (hstep.read hentries), hsaved⟩
  | unread hphase => exact ⟨.ended trivial (hhead hphase), hsaved⟩
  | entered hphase =>
    cases htracking with
    | snapshot hphase' hafter hmatched =>
      cases hphase.symm.trans hphase'
      obtain rfl : w.matched_nodes = start := hmatched
      have hstep : InStep registry sub log w.matched_nodes w.after w.matched_nodes [] [] [] [] := by
        rw [hafter]
        exact .begin registry sub log _
      exact ⟨.reading rfl hstep, hsaved⟩
    | reading hparts =>
      rw [hphase] at hparts
      cases hparts
    | ended hover =>
      rw [hphase] at hover
      exact hover.elim
  | refused hphase | gone hphase => exact absurd trivial (hsnapshot hphase)
  | shown hphase =>
    cases htracking with
    | snapshot hphase' hafter hmatched =>
      cases hphase.symm.trans hphase'
      exact ⟨.snapshot rfl hafter hmatched, hsaved⟩
    | reading hparts =>
      rw [hphase] at hparts
      cases hparts
    | ended hover =>
      rw [hphase] at hover
      exact hover.elim
  | sent hphase | dropped hphase =>
    obtain ⟨dispatched, hstep⟩ := htracking.reading_of_parts (by rw [hphase]; rfl)
    exact ⟨.reading rfl hstep.dispatch, hsaved⟩
  | overrun hphase =>
    have hexact := htracking.exact_of_left hsound hfilter hstart hphase hwhole trivial
    exact ⟨.ended trivial hexact, hsaved⟩
  | left hphase hstores =>
    have hexact := htracking.exact_of_left hsound hfilter hstart hphase hwhole trivial
    exact ⟨.ended trivial hexact, hsaved.stores hexact hstores⟩
  | operation hphase hevents =>
    obtain ⟨dispatched, hstep⟩ := htracking.reading_of_parts (by rw [hphase]; rfl)
    exact ⟨.reading rfl (hstep.operation hevents), hsaved⟩
  | entry hphase =>
    obtain ⟨dispatched, hstep⟩ := htracking.reading_of_parts (by rw [hphase]; rfl)
    exact ⟨.reading rfl hstep.entry, hsaved⟩
  | done hphase hstores =>
    obtain ⟨dispatched, hstep⟩ := htracking.reading_of_parts (by rw [hphase]; rfl)
    have hexact := hstep.exact hsound hfilter hstart
    exact ⟨.reading rfl hstep, hsaved.stores hexact hstores⟩
  | failed hphase _ hstores =>
    cases htracking with
    | snapshot hphase' => cases hphase.symm.trans hphase'
    | reading hparts =>
      rw [hphase] at hparts
      cases hparts
    | ended _ hexact => exact ⟨.ended trivial hexact, hsaved.stores hexact hstores⟩

end Move

end Saved

section Sessions

variable {registry : Registry} {query_filter : QueryFilter} {log : Log} {s : Session}

/-- What the row of a query's state holds after one watch after another. Each
starts with the exact nodes of its position and does not end inside an
entry. -/
inductive Saves (registry : Registry) (log : Log) (query_filter : QueryFilter) : Option QueryWatchState → Prop where
  | none : Saves registry log query_filter none
  | watch {s : Session} (h : Saves registry log query_filter s.saved) (hfilter : s.sub.filter = .Query query_filter)
      (haccepted : s.Accepted log) (hreads : s.Reads log)
      (hstart : Exact registry query_filter (liveAt log s.sub.ctx.after) (s.entering registry))
      (hwhole : s.Along registry Whole) : Saves registry log query_filter (s.watch registry).saved

theorem Saves.exact {saved : Option QueryWatchState} (hsound : Sound log) (h : Saves registry log query_filter saved) :
    SavedExact registry log query_filter saved := by
  induction h with
  | none =>
    intro _ hstate
    cases hstate
  | watch _ hfilter haccepted hreads hstart hwhole ih =>
    exact (run_keeps (fun hmove hstep h =>
      Tracking.move hsound hfilter hstart (haccepted.regular hsound.regular) hmove hstep h) hreads hwhole
      ⟨.snapshot rfl rfl rfl, ih⟩).2

theorem Session.entering_of_restore {state : QueryWatchState} (hstate : s.saved = some state)
    (hrestore : should_restore_query_watch_state s.sub = true) (hle : state.last_position ≤ s.sub.ctx.after) :
    s.entering registry = state.matched_nodes := by
  have hsnapshot : s.sub.ctx.include_initial_snapshot = false := by
    unfold should_restore_query_watch_state at hrestore
    split at hrestore <;> simp_all
  simp [entering, watch_service.entering, snapshotOf, hsnapshot, restored, hrestore, hstate, hle]

theorem exact_iff_same {live live' : Live}
    (h : Exact registry query_filter live matched_nodes) : Exact registry query_filter live' matched_nodes ↔
      ∀ x, matching registry query_filter live x = matching registry query_filter live' x := by
  constructor
  · intro h' x
    rw [Bool.eq_iff_iff, ← h.mem_iff, ← h'.mem_iff]
  · intro hsame key
    rw [h _]
    simp [hsame]

/-- The deletion of a node in the result is told. -/
theorem Session.delete_told (hsound : Sound log) (hfilter : s.sub.filter = .Query query_filter)
    (hstart : Exact registry query_filter (liveAt log s.sub.ctx.after) (s.entering registry))
    {passed rest : List (Versionstamp × OperationDocument)} {vs : Versionstamp} {x : NodeName}
    (hsplit : operations (log.left s.sub.ctx.after) =
      passed ++ (vs, .data (.NodeDelete x.entity_type x.id.to_string)) :: rest)
    (hmatching : matching registry query_filter
      (liveAfter ((operations (log.upTo (s.sub.ctx.after : WithBot Versionstamp)) ++ passed).map Prod.snd)) x = true) :
    node_event s.sub.ctx.subscription_id vs .Delete x.entity_type x.id.to_string .empty "" "node_delete" ∈
      s.produced registry log := by
  have hall := operations_upTo_left log s.sub.ctx.after
  rw [hsplit] at hall
  have hproduced := hsound.produced
  rw [hall, map_append, map_append, ← append_assoc] at hproduced
  rw [map_append] at hmatching
  have hexact := Exact.later hproduced.of_append
    (fun y hy => hsound.canonical y (by rw [hall]; simp [hy])) hstart s.sub.ctx.subscription_id
  have htracked := (hexact.mem_iff x).mpr hmatching
  have hevent : node_event s.sub.ctx.subscription_id vs .Delete x.entity_type x.id.to_string .empty "" "node_delete" ∈
      (cdc_op_to_watch_events s.sub.ctx.subscription_id vs registry (.Query query_filter)
        (.data (.NodeDelete x.entity_type x.id.to_string)) (watch_operations s.sub.ctx.subscription_id registry
          (.Query query_filter) passed (s.entering registry)).2).1 := by
    rw [delete_events hexact, if_pos htracked]
    exact mem_singleton_self _
  rw [produced, watch_service.produced, hsplit, watch_operations_append, hfilter]
  exact mem_append_right _ (mem_append_left _ hevent)

/-- After watches that started with exact nodes and ended between entries, the
nodes that a later one restores are exact just when the query has the same
result where the state was saved and where the watch resumes. Every deletion of
a node in the result is then told. -/
theorem restored_exact_iff (registry : Registry) (log : Log) (query_filter : QueryFilter) (hsound : Sound log)
    (s : Session) (hsaves : Saves registry log query_filter s.saved) (hfilter : s.sub.filter = .Query query_filter)
    (state : QueryWatchState) (hstate : s.saved = some state)
    (hrestore : should_restore_query_watch_state s.sub = true) (hle : state.last_position ≤ s.sub.ctx.after) :
    let exact := Exact registry query_filter (liveAt log s.sub.ctx.after) (s.entering registry)
    s.entering registry = state.matched_nodes ∧
      (exact ↔ ∀ x, matching registry query_filter (liveAt log state.last_position) x =
        matching registry query_filter (liveAt log s.sub.ctx.after) x) ∧
      (exact → ∀ passed vs x rest,
        operations (log.left s.sub.ctx.after) =
          passed ++ (vs, .data (.NodeDelete x.entity_type x.id.to_string)) :: rest →
        matching registry query_filter
          (liveAfter ((operations (log.upTo (s.sub.ctx.after : WithBot Versionstamp)) ++ passed).map Prod.snd)) x =
            true →
        node_event s.sub.ctx.subscription_id vs .Delete x.entity_type x.id.to_string .empty "" "node_delete" ∈
          s.produced registry log) := by
  have hentering : s.entering registry = state.matched_nodes := s.entering_of_restore hstate hrestore hle
  refine ⟨hentering, ?_, fun hstart _ _ _ _ => s.delete_told hsound hfilter hstart⟩
  rw [hentering]
  exact exact_iff_same (hsaves.exact hsound _ hstate)

end Sessions

section Examples

def everyone (resume_after : Bytes) : WatchRequest :=
  .query { context := some ⟨"db", "ns"⟩, entity_type := "Person", resume_after := resume_after }

def everyoneState : String := compute_query_state_id "db" "ns" allPeople

/-- What `everyone` starts. -/
def everyoneFrom (sub_id : String) (after : Versionstamp) : Subscription where
  filter := .Query allPeople
  ctx := { (everythingFrom sub_id after).ctx with query_state_id := some everyoneState }
  queue_size := 256

/-- A watch of everyone that reads the log with one entry of one operation, and
has saved its state. -/
def readOne (log : Log) : Session where
  sub := everyoneFrom "a" .zero
  ticks := [.work true, .poll false (.ok log), .work true, .work true, .work true, .work true]

/-- Another person comes and goes. -/
def comeAndGone : Log :=
  .ofList [(stamp 1, [createPerson 0]), (stamp 2, [createPerson 1]), (stamp 3, [deletePerson "1_1"])]

def onePerson : Log := .ofList [(stamp 1, [createPerson 0])]

/-- A watch of everyone that resumes after the second person has come. -/
def tooLate : Session where
  sub := everyoneFrom "b" (stamp 2)
  saved := ((readOne onePerson).watch plainRegistry).saved
  ticks := []

/-- The state that was saved before the second person came is restored after,
and the deletion of that person is not told. -/
theorem stale_state_restored :
    watch (openService onePerson "a") none (everyone []) = .ok (readOne onePerson).sub ∧
      tooLate.saved = some ⟨everyoneState, stamp 1, {"Person:1_0"}⟩ ∧
      watch (openService comeAndGone "b") none (everyone (stamp 2).bytes) = .ok tooLate.sub ∧
      tooLate.entering plainRegistry = {"Person:1_0"} ∧
      matching plainRegistry allPeople (liveAt comeAndGone (stamp 2)) ⟨"Person", ⟨1, 1⟩⟩ = true ∧
      ¬ Exact plainRegistry allPeople (liveAt comeAndGone (stamp 2)) (tooLate.entering plainRegistry) ∧
      operations (comeAndGone.left (stamp 2)) = [(stamp 3, deletePerson "1_1")] ∧
      tooLate.produced plainRegistry comeAndGone = [] := by
  have hentering : tooLate.entering plainRegistry = {"Person:1_0"} := by decide +kernel
  have hmatching : matching plainRegistry allPeople (liveAt comeAndGone (stamp 2)) ⟨"Person", ⟨1, 1⟩⟩ = true := by
    decide +kernel
  refine ⟨rfl, by decide +kernel, rfl, hentering, hmatching, fun hexact => ?_, rfl, by decide +kernel⟩
  have hmem := (hexact.mem_iff _).mpr hmatching
  revert hmem
  decide +kernel

def hereAndGone : Log := .ofList [(stamp 1, [createPerson 0]), (stamp 2, [deletePerson "1_0"])]

theorem hereAndGone_sound : Sound hereAndGone where
  regular := by decide +kernel
  produced := produced_create_delete (by decide +kernel)
  canonical := by
    have hprinted : "1_0" = NodeId.to_string ⟨1, 0⟩ := by decide +kernel
    intro x hx _ htext
    rcases mem_cons.mp hx with rfl | hx
    · exact ⟨⟨1, 0⟩, (Option.some.inj htext).symm⟩
    · obtain rfl := mem_singleton.mp hx
      exact ⟨⟨1, 0⟩, (Option.some.inj htext).symm.trans hprinted⟩

/-- At the beginning nobody is there. -/
theorem hereAndGone_start : Exact plainRegistry allPeople (liveAt hereAndGone .zero) ∅ := by
  have hnone : operations (hereAndGone.upTo (Versionstamp.zero : WithBot Versionstamp)) = [] := rfl
  intro _
  simp [liveAt, hnone, matching, liveAfter]

/-- A watch of everyone that resumes where the state was saved. -/
def inTime : Session where
  sub := everyoneFrom "b" (stamp 1)
  saved := ((readOne onePerson).watch plainRegistry).saved
  ticks := []

theorem saved_state_restored :
    Exact plainRegistry allPeople (liveAt hereAndGone (stamp 1)) (inTime.entering plainRegistry) ∧
      node_event "b" (stamp 2) .Delete "Person" (NodeId.to_string ⟨1, 0⟩) .empty "" "node_delete" ∈
        inTime.produced plainRegistry hereAndGone := by
  have hreads : (readOne onePerson).Reads hereAndGone := by
    have hseen : onePerson.rows <+: hereAndGone.rows := ⟨_, rfl⟩
    simp [Session.Reads, readOne, Tick.Sees, hseen]
  have hwhole : (readOne onePerson).Along plainRegistry Whole :=
    ⟨fun _ h => h, False.elim, False.elim, fun _ h => h, False.elim, False.elim, trivial⟩
  have hsaves : Saves plainRegistry hereAndGone allPeople inTime.saved :=
    .watch .none rfl (.inl rfl) hreads hereAndGone_start hwhole
  have hstate : inTime.saved = some ⟨everyoneState, stamp 1, {"Person:1_0"}⟩ := by decide +kernel
  obtain ⟨-, hiff, hdelete⟩ := restored_exact_iff plainRegistry hereAndGone allPeople hereAndGone_sound inTime hsaves
    rfl _ hstate rfl le_rfl
  have hexact := hiff.mpr fun _ => rfl
  refine ⟨hexact, hdelete hexact [] (stamp 2) ⟨"Person", ⟨1, 0⟩⟩ [] rfl ?_⟩
  decide +kernel

end Examples

end pelago_api.watch_service
