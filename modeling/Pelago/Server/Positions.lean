import Pelago.Kv.Effects
import Pelago.Server.Mesh

open kv pelago_core pelago_storage pelago_storage.cdc pelago_api.replication_service

namespace pelago_server.replicator

/-- The results of an entry's operations in one pass through them. -/
abbrev Attempt := List (CdcOperation × Except PelagoError (Option CdcOperation))

/-- What one worker replicates: a namespace of a peer, into the local store. -/
structure Scope where
  store : NodeStore
  database : String
  ns : String
  remote_site_id : String
  batch_size : Nat

/-- A replication worker with its peer and its own database. `task` is the
process, unless it is down, `call` the operation it is in, and `checkpoint` the
saved position. The last three fields are the history: the results so far of the
entry at hand, those of all entries that were passed, and the operations that
changed rows. -/
structure Worker where
  remote : Site
  db : Db
  task : Option Task
  call : Option (Proc (Option CdcOperation))
  checkpoint : Option Versionstamp
  attempt : Attempt
  passed : List (Versionstamp × Attempt)
  changed : List (Versionstamp × CdcOperation)

/-- What happens next: the peer or another local writer commits, or the worker
goes on, is stopped or started. A write may be refused by the database; the
flags tell whether it could be done, and whether the position could be loaded. -/
inductive WorkerStep where
  | remote_commit (vs : Versionstamp) (entry : CdcEntry)
  | local_commit (t : Tx Unit)
  | request
  | page
  | fail
  | receive
  | call
  | move (i : NodeId)
  | refuse (e : PelagoError)
  | result
  | mirror (appended : Bool)
  | close
  | save (written : Bool)
  | crash
  | restart (loaded : Bool)

namespace Worker

variable (scope : Scope)

/-- A worker that has not been started yet. -/
def start (remote : Site) (db : Db) : Worker := ⟨remote, db, none, none, none, [], [], []⟩

def updateTask (s : Worker) (f : Task → Task) : Worker := { s with task := s.task.map f }

/-- The entry and the operation of it that come next. -/
def current (s : Worker) : Option (Versionstamp × CdcEntry × CdcOperation) :=
  match s.task with
  | some ⟨_, .applying vs entry (op :: _) _ _⟩ => some (vs, entry, op)
  | _ => none

/-- The entry whose operations are all through. -/
def finished (s : Worker) : Option Versionstamp :=
  match s.task with
  | some ⟨_, .applying vs _ [] _ _⟩ => some vs
  | _ => none

/-- The next transaction of the operation at hand. -/
def moveCall (s : Worker) (i : NodeId) : Worker :=
  match s.call, s.current with
  | some p, some (vs, _, op) =>
    let (p', db') := p.step i s.db
    { s with
      call := some p'
      db := db'
      changed := if db'.rows.rows = s.db.rows.rows then s.changed else s.changed ++ [(vs, op)] }
  | _, _ => s

/-- The result of the operation at hand. -/
def result (s : Worker) : Worker :=
  match s.call, s.current with
  | some (.done r), some (_, _, op) =>
    { s.updateTask (·.outcome r) with call := none, attempt := s.attempt ++ [(op, r)] }
  | _, _ => s

/-- The applied operations go to the local log, and the worker to the next
event, whether the entry could be appended or not. -/
def mirror (s : Worker) (appended : Bool) : Worker :=
  match s.task, s.finished with
  | some t, some vs =>
    let db := match t.mirror_entry scope.remote_site_id, appended with
      | some entry, true =>
        let key := (Subspace.of_namespace scope.database scope.ns).cdc.pfx
        { s.db with journal := Function.update s.db.journal key (s.db.journal key ++ [encode_cbor_entry entry]) }
      | _, _ => s.db
    { s with db := db, task := some t.advance, attempt := [], passed := s.passed ++ [(vs, s.attempt)] }
  | _, _ => s

def step (s : Worker) : WorkerStep → Worker
  | .remote_commit vs entry =>
    if ∀ row ∈ s.remote.log.rows, row.1 < vs then
      { s with remote := ⟨s.remote.rows.set (entry_key scope.database scope.ns vs) (.cdc entry),
          s.remote.log.set vs entry⟩ }
    else s
  | .local_commit t =>
    match t.run s.db with
    | .ok (_, db) => { s with db := db }
    | .error _ => s
  | .request => s.updateTask Task.request
  | .page => s.updateTask
      (·.page s.remote.rows scope.database scope.ns scope.remote_site_id scope.batch_size)
  | .fail => s.updateTask Task.fail
  | .receive => s.updateTask (·.receive scope.remote_site_id)
  | .call =>
    match s.call, s.current with
    | none, some (_, entry, op) =>
      { s with call := some (apply_replication_op scope.store scope.remote_site_id scope.database scope.ns
          entry.timestamp (some op)) }
    | _, _ => s
  | .move i => s.moveCall i
  | .refuse e => { s with call := s.call.map (Proc.refuse e) }
  | .result => s.result
  | .mirror appended => s.mirror scope appended
  | .close => s.updateTask Task.close
  | .save written =>
    match s.task with
    | some ⟨after, .saving⟩ =>
      { s.updateTask Task.saved with checkpoint := if written then after else s.checkpoint }
    | _ => s
  | .crash => { s with task := none, call := none, attempt := [] }
  | .restart loaded =>
    match s.task with
    | none => { s with task := some (.start (if loaded then s.checkpoint else none)) }
    | some _ => s

def exec (s : Worker) (steps : List WorkerStep) : Worker := steps.foldl (step scope) s

end Worker

open pelago_storage.node List kv.OrdMap
open Worker (start)

/-- A task that follows its peer's log, from wherever it was started. -/
def Task.Follows (site : String) (log : OrdMap Versionstamp CdcEntry) (t : Task) : Prop :=
  ∃ seen, t.Reads site log seen

variable {site : String} {log : OrdMap Versionstamp CdcEntry}

/-- A task resumes at any position in the log. -/
theorem Task.follows_start {c : Option Versionstamp}
    (hregular : ∀ vs ∈ c, vs.Regular) (hreached : log.Reached (position c)) : (start c).Follows site log :=
  ⟨_, hregular, hreached, .idle⟩

/-- The entry that a task is in. -/
def Task.entry (t : Task) : Events :=
  match t.phase with
  | .applying vs entry _ _ _ => [(vs, entry)]
  | _ => []

/-- What a task has seen is fixed by where it stands. -/
theorem Task.Reads.seen_eq {t : Task} {seen : Events}
    (h : t.Reads site log seen) : seen = (log.upTo (position t.after)).filter (authored site) ++ t.entry := by
  obtain ⟨after, phase⟩ := t
  obtain ⟨_, _, hphase⟩ := h
  cases hphase <;> simp [entry]

/-- The next event starts with all of its operations to come. -/
theorem Task.Reads.receive_eq {t : Task} {seen : Events} (h : t.Reads site log seen) :
    t.receive site = t ∨ ∃ vs entry events, t.phase = .streaming ((vs, entry) :: events) ∧
      t.receive site = { t with phase := .applying vs entry entry.operations [] events } := by
  have hreads := h.phase
  unfold Task.receive
  split
  case h_2 => exact .inl rfl
  case h_1 vs entry events hphase =>
    rw [hphase] at hreads
    cases hreads with
    | streaming hevents =>
      have hauthor := (of_authored (mem_filter.mp (hevents.subset mem_cons_self)).2).1
      exact .inr ⟨vs, entry, events, hphase, if_neg (not_not.mpr hauthor)⟩

/-- Advancing passes the entry at hand and no other one. -/
theorem Task.Follows.upTo_advance {t : Task}
    (h : t.Follows site log) : (log.upTo (position t.advance.after)).filter (authored site) ++ t.advance.entry =
      (log.upTo (position t.after)).filter (authored site) ++ t.entry := by
  obtain ⟨seen, hreads⟩ := h
  rw [← hreads.advance.seen_eq, ← hreads.seen_eq]

/-- Each entry by `site` up to a position has been passed. -/
def Covered (site : String) (log : OrdMap Versionstamp CdcEntry) (passed : List (Versionstamp × Attempt))
    (c : WithBot Versionstamp) : Prop :=
  ∀ row ∈ (log.upTo c).filter (authored site), ∃ attempt, (row.1, attempt) ∈ passed ∧
    attempt.map Prod.fst = row.2.operations

section Covered

variable {site : String} {log log' : OrdMap Versionstamp CdcEntry} {passed passed' : List (Versionstamp × Attempt)}
  {c : WithBot Versionstamp}

theorem covered_bot (site : String) (log : OrdMap Versionstamp CdcEntry) (passed : List (Versionstamp × Attempt)) :
    Covered site log passed ⊥ := by
  intro _ hrow
  rw [upTo_bot] at hrow
  cases hrow

theorem Covered.mono (h : Covered site log passed c) (hsub : passed ⊆ passed') : Covered site log passed' c := by
  intro row hrow
  obtain ⟨attempt, hmem, hops⟩ := h _ hrow
  exact ⟨attempt, hsub hmem, hops⟩

theorem Covered.extend (h : Covered site log passed c) (hext : log'.Extends log) (hc : log.Reached c) :
    Covered site log' passed c := by
  unfold Covered
  rw [hext.upTo_eq hc]
  exact h

end Covered

/-- The entry at hand and its operations still to come. -/
def Phase.work : Phase → Option (CdcEntry × List CdcOperation)
  | .applying _ entry ops _ _ => some (entry, ops)
  | _ => none

/-- The operations with a result and those still to come are the entry's. -/
def Tries (attempt : Attempt) : Option (CdcEntry × List CdcOperation) → Prop
  | some (entry, ops) => attempt.map Prod.fst ++ ops = entry.operations
  | none => attempt = []

section Frame

variable (t : Task)

/-- The step stays at the task's position and within its entry. -/
def Task.SamePlace (t t' : Task) : Prop := t'.after = t.after ∧ t'.phase.work = t.phase.work

theorem Task.request_samePlace : t.SamePlace t.request := by
  unfold SamePlace request
  split <;> simp [*, Phase.work]

theorem Task.page_samePlace (rows : OrdMap Bytes Cell) (database ns remote_site_id : String) (limit : Nat) :
    t.SamePlace (t.page rows database ns remote_site_id limit) := by
  unfold SamePlace page
  split
  · split
    · rename_i collection _
      cases collection <;> simp [*, Phase.work, Phase.of_collection]
    · simp [*, Phase.work]
  · simp

theorem Task.fail_samePlace : t.SamePlace t.fail := by
  unfold SamePlace fail
  split <;> simp [*, Phase.work]

theorem Task.close_samePlace : t.SamePlace t.close := by
  unfold SamePlace close
  split <;> simp [*, Phase.work]

theorem Task.saved_samePlace : t.SamePlace t.saved := by
  unfold SamePlace saved
  split <;> simp [*, Phase.work]

end Frame

/-- Every entry behind the worker, and behind the saved position, was passed. -/
structure Worker.Inv (scope : Scope) (s : Worker) : Prop where
  log : HoldsLog scope.database scope.ns s.remote.rows s.remote.log
  regular : ∀ vs ∈ s.checkpoint, vs.Regular
  reached : s.remote.log.Reached (position s.checkpoint)
  saved : Covered scope.remote_site_id s.remote.log s.passed (position s.checkpoint)
  follows : ∀ t ∈ s.task, t.Follows scope.remote_site_id s.remote.log
  behind : ∀ t ∈ s.task, Covered scope.remote_site_id s.remote.log s.passed (position t.after)
  tries : Tries s.attempt (s.task.bind fun t => t.phase.work)

namespace Worker

variable {scope : Scope} {s : Worker}

theorem inv_start {remote : Site} (db : Db) (hlog : HoldsLog scope.database scope.ns remote.rows remote.log) :
    (start remote db).Inv scope where
  log := hlog
  regular := by simp [start]
  reached := remote.log.reached_bot
  saved := covered_bot _ _ _
  follows := by simp [start]
  behind := by simp [start]
  tries := rfl

theorem Inv.updateTask (h : s.Inv scope) {f : Task → Task}
    (hfollows : ∀ {seen t}, t.Reads scope.remote_site_id s.remote.log seen →
      (f t).Reads scope.remote_site_id s.remote.log seen)
    (hplace : ∀ t : Task, t.SamePlace (f t)) : (s.updateTask f).Inv scope := by
  refine ⟨h.log, h.regular, h.reached, h.saved, ?_, ?_, ?_⟩
  · intro _ ht'
    obtain ⟨t, ht, rfl⟩ := Option.mem_map.mp ht'
    obtain ⟨seen, hreads⟩ := h.follows t ht
    exact ⟨seen, hfollows hreads⟩
  · intro _ ht'
    obtain ⟨t, ht, rfl⟩ := Option.mem_map.mp ht'
    rw [(hplace t).1]
    exact h.behind t ht
  · have hwork : ((s.updateTask f).task.bind fun t => t.phase.work) = s.task.bind fun t => t.phase.work := by
      cases htask : s.task with
      | none => simp [Worker.updateTask, htask]
      | some t => simpa [Worker.updateTask, htask] using (hplace t).2
    rw [hwork]
    exact h.tries

theorem Inv.receive (h : s.Inv scope) : (s.step scope .receive).Inv scope := by
  cases htask : s.task with
  | none =>
    have hnone : (s.step scope .receive).task = none := by simp [step, Worker.updateTask, htask]
    have htries := h.tries
    rw [htask] at htries
    exact ⟨h.log, h.regular, h.reached, h.saved, by simp [hnone], by simp [hnone], by rw [hnone]; exact htries⟩
  | some t =>
    obtain ⟨seen, hreads⟩ := h.follows t htask
    have hbehind := h.behind t htask
    have htries := h.tries
    rw [htask] at htries
    have htask' : (s.step scope .receive).task = some (t.receive scope.remote_site_id) := by
      simp [step, Worker.updateTask, htask]
    refine ⟨h.log, h.regular, h.reached, h.saved, ?_, ?_, ?_⟩
    · intro _ ht'
      cases htask'.symm.trans ht'
      exact ⟨_, hreads.receive⟩
    · intro _ ht'
      cases htask'.symm.trans ht'
      obtain hsame | ⟨vs, _, _, _, heq⟩ := hreads.receive_eq
      · rw [hsame]
        exact hbehind
      · rw [heq]
        exact hbehind
    · rw [htask']
      obtain hsame | ⟨vs, entry, _, hphase, heq⟩ := hreads.receive_eq
      · rw [hsame]
        exact htries
      · have hnil : s.attempt = [] := by
          simpa [Tries, Phase.work, hphase] using htries
        rw [heq]
        change s.attempt.map Prod.fst ++ entry.operations = entry.operations
        rw [hnil]
        rfl

/-- The peer's log grows. -/
theorem Inv.remote_commit (h : s.Inv scope) (vs : Versionstamp) (entry : CdcEntry) :
    (s.step scope (.remote_commit vs entry)).Inv scope := by
  unfold step
  dsimp only
  split
  · rename_i hlast
    have hext := extends_set entry hlast
    refine ⟨h.log.append _, h.regular, hext.reached h.reached, h.saved.extend hext h.reached, ?_, ?_, h.tries⟩
    · intro t ht
      obtain ⟨seen, hreads⟩ := h.follows t ht
      exact ⟨seen, hreads.extend hext⟩
    · intro t ht
      obtain ⟨seen, hreads⟩ := h.follows t ht
      exact (h.behind t ht).extend hext hreads.reached
  · exact h

theorem current_eq {vs : Versionstamp} {entry : CdcEntry} {op : CdcOperation}
    (h : s.current = some (vs, entry, op)) : ∃ t ops mirrored events, s.task = some t ∧
      t.phase = .applying vs entry (op :: ops) mirrored events := by
  unfold current at h
  split at h
  · rename_i after vs' entry' op' ops mirrored events htask
    cases h
    exact ⟨_, ops, mirrored, events, htask, rfl⟩
  · cases h

theorem finished_eq {vs : Versionstamp} (h : s.finished = some vs) : ∃ t entry mirrored events,
    s.task = some t ∧ t.phase = .applying vs entry [] mirrored events := by
  unfold finished at h
  split at h
  · rename_i after vs' entry mirrored events htask
    cases h
    exact ⟨_, entry, mirrored, events, htask, rfl⟩
  · cases h

section

variable (h : s.Inv scope)
include h

theorem Inv.result : s.result.Inv scope := by
  unfold Worker.result
  split
  case h_2 => exact h
  case h_1 r vs entry op hcall hcurrent =>
    obtain ⟨t, ops, _, _, htask, hphase⟩ := current_eq hcurrent
    obtain ⟨seen, hreads⟩ := h.follows t htask
    have htries : s.attempt.map Prod.fst ++ op :: ops = entry.operations := by
      simpa [Tries, Phase.work, htask, hphase] using h.tries
    have htask' : (s.updateTask (·.outcome r)).task = some (t.outcome r) := by
      simp [Worker.updateTask, htask]
    have hplace : (t.outcome r).after = t.after ∧ (t.outcome r).phase.work = some (entry, ops) := by
      simp [Task.outcome, hphase, Phase.work]
    refine ⟨h.log, h.regular, h.reached, h.saved, ?_, ?_, ?_⟩
    · intro _ ht'
      cases htask'.symm.trans ht'
      exact ⟨seen, hreads.outcome r⟩
    · intro _ ht'
      cases htask'.symm.trans ht'
      rw [hplace.1]
      exact h.behind t htask
    · rw [htask', Option.bind_some, hplace.2]
      change (s.attempt ++ [(op, r)]).map Prod.fst ++ ops = entry.operations
      rw [← htries]
      simp

/-- Passing an entry adds its results to the history. -/
theorem Inv.mirror (appended : Bool) : (s.mirror scope appended).Inv scope := by
  unfold Worker.mirror
  split
  case h_2 => exact h
  case h_1 t vs htask hfinished =>
    obtain ⟨t', entry, _, events, htask', hphase⟩ := finished_eq hfinished
    cases htask.symm.trans htask'
    have hfollows := h.follows t htask
    have hops : s.attempt.map Prod.fst = entry.operations := by
      simpa [Tries, Phase.work, htask, hphase] using h.tries
    have hadvance : t.advance = ⟨some vs, .streaming events⟩ := by simp [Task.advance, hphase]
    have hupTo := hfollows.upTo_advance
    simp only [hadvance, Task.entry, hphase, append_nil] at hupTo
    refine ⟨h.log, h.regular, h.reached, h.saved.mono (subset_append_left ..), ?_, ?_, ?_⟩
    · intro _ ht'
      cases ht'
      obtain ⟨seen, hreads⟩ := hfollows
      exact ⟨seen, hreads.advance⟩
    · intro _ ht' row hrow
      cases ht'
      rw [hadvance, hupTo] at hrow
      obtain hold | hnew := mem_append.mp hrow
      · exact (h.behind t htask).mono (subset_append_left ..) row hold
      · rw [mem_singleton.mp hnew]
        exact ⟨s.attempt, by simp, hops⟩
    · rw [hadvance]
      rfl

theorem Inv.save (written : Bool) : (s.step scope (.save written)).Inv scope := by
  unfold step
  dsimp only
  split
  case h_2 => exact h
  case h_1 after htask =>
    have hsaved := h.updateTask (fun hreads => hreads.saved) Task.saved_samePlace
    cases written with
    | false => exact hsaved
    | true =>
      obtain ⟨seen, hreads⟩ := h.follows _ htask
      exact { hsaved with regular := hreads.regular, reached := hreads.reached, saved := h.behind _ htask }

theorem Inv.restart (loaded : Bool) : (s.step scope (.restart loaded)).Inv scope := by
  unfold step
  dsimp only
  split
  case h_2 => exact h
  case h_1 htask =>
    have hc : ∀ c, c = s.checkpoint ∨ c = none → (∀ vs ∈ c, vs.Regular) ∧ s.remote.log.Reached (position c) ∧
        Covered scope.remote_site_id s.remote.log s.passed (position c) := by
      rintro c (rfl | rfl)
      · exact ⟨h.regular, h.reached, h.saved⟩
      · exact ⟨by simp, reached_bot _, covered_bot _ _ _⟩
    obtain ⟨hregular, hreached, hcovered⟩ := hc (if loaded then s.checkpoint else none) (by cases loaded <;> simp)
    have hnil : s.attempt = [] := by simpa [Tries, htask] using h.tries
    refine ⟨h.log, h.regular, h.reached, h.saved, ?_, ?_, hnil⟩
    · intro _ ht'
      cases ht'
      exact Task.follows_start hregular hreached
    · intro _ ht'
      cases ht'
      exact hcovered

theorem Inv.exec_step (hsite : scope.remote_site_id ≠ "") (action : WorkerStep) :
    (s.step scope action).Inv scope := by
  cases action with
  | remote_commit vs entry => exact h.remote_commit vs _
  | local_commit | call =>
    unfold step
    dsimp only
    split
    · exact { h with }
    · exact h
  | request => exact h.updateTask (fun hreads => hreads.request) Task.request_samePlace
  | page => exact h.updateTask (fun hreads => hreads.page h.log hsite _) fun t => t.page_samePlace ..
  | fail => exact h.updateTask (fun hreads => hreads.fail) Task.fail_samePlace
  | receive => exact h.receive
  | move =>
    unfold step moveCall
    dsimp only
    split
    · exact { h with }
    · exact h
  | refuse => exact { h with }
  | result => exact h.result
  | mirror appended => exact h.mirror _
  | close => exact h.updateTask (fun hreads => hreads.close) Task.close_samePlace
  | save written => exact h.save _
  | crash =>
    exact { h with follows := by simp [step], behind := by simp [step], tries := rfl }
  | restart loaded => exact h.restart _

theorem Inv.exec (hsite : scope.remote_site_id ≠ "") (steps : List WorkerStep) :
    (s.exec scope steps).Inv scope := by
  induction steps generalizing s with
  | nil => exact h
  | cons action _ ih => exact ih (h.exec_step hsite _)

end

end Worker

end pelago_server.replicator
