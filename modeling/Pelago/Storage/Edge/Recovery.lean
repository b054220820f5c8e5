import Pelago.Storage.Edge.Dangling

open bytes kv pelago_core pelago_core.encoding
open pelago_storage.node
open pelago_storage.Subspace (of_namespace)

namespace pelago_storage.edge

open Tx Proc
open NodeId (from_str to_bytes to_string)

/-- The same store at another time. -/
def Store.withClock (self : Store) (cascade_clock : Nat → Int) : Store := { self with cascade_clock }

section Times

variable (self : Store) (cascade_clock : Nat → Int) (database ns entity_type node_id : String)

theorem cdc_flush_mute (cdc_now : Int) (operations : List CdcOperation) :
    (cdc_flush self database ns cdc_now operations).mute = pure () := by
  unfold cdc_flush
  split <;> rfl

theorem node_cdc_flush_mute (self : NodeStore) (clock : Clock) (operations : List CdcOperation) :
    (node.cdc_flush self database ns clock operations).mute = pure () := by
  unfold node.cdc_flush
  split <;> rfl

theorem plan_edges_withClock (candidates : List StoredEdge) (seen : List String) (planned : List PlannedEdge) :
    plan_edges (self.withClock cascade_clock) candidates seen planned = plan_edges self candidates seen planned := by
  induction candidates generalizing seen planned with
  | nil => rfl
  | cons _ _ ih =>
    simp only [plan_edges, ih]
    rfl

theorem cascade_txn_mute (emit_cdc : Bool) (cdc_now cdc_now' : Int) (planned : List PlannedEdge) :
    (cascade_txn (self.withClock cascade_clock) database ns emit_cdc cdc_now planned).mute =
      (cascade_txn self database ns emit_cdc cdc_now' planned).mute := by
  unfold cascade_txn
  rw [Tx.mute_bind, Tx.mute_bind]
  split
  · simp [cdc_flush_mute]
  · rfl

/-- The time of a cascade is only in its journal entries. -/
theorem cascade_mute (emit_cdc : Bool) (rounds total_deleted : Nat) :
    (cascade (self.withClock cascade_clock) database ns entity_type node_id emit_cdc rounds total_deleted).mute =
      (cascade self database ns entity_type node_id emit_cdc rounds total_deleted).mute := by
  induction rounds generalizing total_deleted with
  | zero => rfl
  | succ rounds ih =>
    unfold cascade
    simp only [Proc.mute_bind, plan_edges_withClock]
    congr 1
    funext outgoing
    congr 1
    funext incoming
    split
    · rfl
    · simp only [Proc.mute_bind]
      congr 1
      funext planned
      split
      · rfl
      · rw [Proc.mute_bind, Proc.mute_bind]
        simp only [ih]
        simp [commit, Proc.mute,
          cascade_txn_mute _ _ _ ns _ _ (self.cascade_clock rounds)]

/-- The time of a deletion is only in its journal entries. -/
theorem delete_node_mute (clock clock' : Clock) :
    (delete_node (self.withClock cascade_clock).node_store database ns entity_type node_id clock).mute =
      (delete_node self.node_store database ns entity_type node_id clock').mute := by
  -- the two stores differ in their cascades only, so their other fields are compared one by one
  have hget : (self.withClock cascade_clock).node_store.get_schema = self.node_store.get_schema := rfl
  have hsite : (self.withClock cascade_clock).node_store.site_id = self.node_store.site_id := rfl
  have hschema : node.lookup_schema (self.withClock cascade_clock).node_store database ns entity_type =
      node.lookup_schema self.node_store database ns entity_type := by
    rw [node.lookup_schema, node.lookup_schema, hget]
  have howner (locality : UInt8) :
      enforce_local_ownership (self.withClock cascade_clock).node_store entity_type node_id locality =
        enforce_local_ownership self.node_store entity_type node_id locality := by
    simp [enforce_local_ownership, local_site_id, hsite]
  have htxn (id : Bytes) (removals : List index.IndexEntry) (postings : List term_index.TermPosting) :
      (delete_txn (self.withClock cascade_clock).node_store database ns entity_type node_id id removals postings
        clock).mute =
        (delete_txn self.node_store database ns entity_type node_id id removals postings clock').mute := by
    simp only [delete_txn, Tx.mute_bind, node_cdc_flush_mute]
  have hcascade :
      ((self.withClock cascade_clock).node_store.edge_store.delete_edges_for_node_internal database ns entity_type
        node_id true).mute =
        (self.node_store.edge_store.delete_edges_for_node_internal database ns entity_type node_id true).mute :=
    cascade_mute _ _ _ ns _ _ _ _ 0
  unfold delete_node
  simp only [Proc.mute_bind, hschema]
  congr 1
  funext schema
  congr 1
  funext id
  congr 1
  funext cell
  cases cell with
  | none => rfl
  | some => simp [Proc.mute_bind, howner, commit, Proc.mute, htxn, hcascade]

end Times

theorem not_edgeKey_data {database ns : String} (rest : Bytes) :
    ¬ EdgeKey ((of_namespace database ns).data.pfx ++ rest) := by
  rintro ⟨database', _, _, h⟩
  exact edge_ne_data h.symm

section Stages

variable {self : Store} {database ns entity_type node_id : String} {id : NodeId} {clock : Clock} {answer : NodeId}
  {db db' : Db}

/-- The guard is set with the removal of the record. -/
theorem guard_after_delete_txn {schema : EntitySchema} {old : Option Properties} {removals : List index.IndexEntry}
    {postings : List term_index.TermPosting} {self : NodeStore}
    (hplan : IndexPlan (of_namespace database ns) entity_type schema id.to_bytes old none removals []
      ⟨[], postings⟩ (-1))
    (hrun : (delete_txn self database ns entity_type node_id id.to_bytes removals postings clock).run db =
      .ok ((), db')) : db'.rows.get (delete_guard_key (of_namespace database ns).data entity_type id.to_bytes) =
      some (.raw [0x31]) := by
  obtain ⟨_, _, _, hrest⟩ := run_bind_eq_ok.mp hrun
  obtain ⟨_, _, hset, hrest⟩ := run_bind_eq_ok.mp hrest
  cases hset
  have hindex : Touches (fun _ => True) (IndexRow (of_namespace database ns) entity_type) (do
      change_index_rows (of_namespace database ns) entity_type removals [] ⟨[], postings⟩ (-1)
      node.cdc_flush self database ns clock [.NodeDelete entity_type node_id]) := by
    refine touches_bind (hplan.touches.mono (fun _ _ => trivial) fun _ h => h) fun _ => ?_
    unfold node.cdc_flush
    split <;> trivial
  rw [hindex.get_eq hrest (delete_guard_key_not_indexRow _ _), OrdMap.get_set_self]

/-- How far a deletion has come. -/
structure Interrupted (database ns entity_type node_id : String) (db : Db) : Prop where
  record : ∀ id, from_str node_id = some id →
    db.rows.get (data_key (Subspace.of_namespace database ns).data entity_type id.to_bytes) = none
  guard : ∃ id, from_str node_id = some id ∧
    db.rows.get (delete_guard_key (Subspace.of_namespace database ns).data entity_type id.to_bytes) ≠ none

structure Deleted (database ns entity_type node_id : String) (db : Db) : Prop where
  record : ∀ id, from_str node_id = some id →
    db.rows.get (data_key (Subspace.of_namespace database ns).data entity_type id.to_bytes) = none
  guard : ∀ id, from_str node_id = some id →
    db.rows.get (delete_guard_key (Subspace.of_namespace database ns).data entity_type id.to_bytes) = none

/-- Between its first and its last write transaction a deletion has removed the
record and keeps the guard. -/
theorem delete_node_stages
    (hreturned : ((delete_node self.node_store database ns entity_type node_id clock).complete answer db).1 =
      .ok true) : (∀ n, 0 < n →
      n < (delete_node self.node_store database ns entity_type node_id clock).commitCount answer db →
      Interrupted database ns entity_type node_id
        ((delete_node self.node_store database ns entity_type node_id clock).crash answer n db)) ∧
    Deleted database ns entity_type node_id
      ((delete_node self.node_store database ns entity_type node_id clock).complete answer db).2 := by
  revert hreturned
  refine delete_node_cases _ _ _ _ _ _ (fun _ h => by cases h) fun _ id next _ hid hnext hreturned => ?_
  simp only [complete, commitCount, crash] at hreturned ⊢
  have hcell := hnext (db.rows.get (data_key (of_namespace database ns).data entity_type id.to_bytes))
  generalize next _ = p at hcell hreturned ⊢
  generalize db.rows.get _ = cell at hcell
  have hunique : ∀ {id'}, from_str node_id = some id' → id' = id := fun hid' =>
    Option.some.inj (hid'.symm.trans hid)
  cases hcell with
  | absent | fail => cases hreturned
  | @commit _ removals postings _ hplan =>
    cases hrun : (delete_txn self.node_store database ns entity_type node_id id.to_bytes removals postings
        clock).run db with
    | error =>
      simp only [complete, hrun] at hreturned
      cases hreturned
    | ok r =>
      obtain ⟨⟨⟩, db₁⟩ := r
      have hrecord := (recordsLeave_of_clear (beside_delete_txn hplan) hrun).2
      have hguard := guard_after_delete_txn hplan hrun
      have hconfined := self.node_store.edge_store.confined database ns entity_type node_id true
      rw [complete_commit hrun] at hreturned ⊢
      rw [commitCount_commit hrun]
      obtain ⟨fin, hfin⟩ : ∃ fin, complete answer _ db₁ = (.ok true, fin) := ⟨_, Prod.ext hreturned rfl⟩
      obtain ⟨count, mid, hcascade, hlast⟩ := complete_bind_eq_ok _ hfin
      rw [commitCount_bind _ hcascade, hfin]
      cases hlast
      -- rows of nodes are not touched by the removal of edges
      have hkeep : ∀ k, ¬ EdgeKey k → mid.rows.get k = db₁.rows.get k := fun k hk => by
        have hmid := hconfined.complete_get answer hk db₁
        rwa [hcascade] at hmid
      refine ⟨fun n _ hlt => ?_, ⟨fun _ hid' => ?_, fun _ hid' => ?_⟩⟩
      · obtain ⟨m, rfl⟩ : ∃ m, n = m + 1 := ⟨n - 1, by omega⟩
        have hle : m ≤ commitCount answer
            (self.node_store.edge_store.delete_edges_for_node_internal database ns entity_type node_id true) db₁ := by
          simp only [commit_bind, commitCount, run_clear, commitCount_pure] at hlt
          omega
        rw [crash_commit hrun, crash_bind_of_le _ hle]
        refine ⟨fun _ hid' => ?_, id, hid, ?_⟩
        · obtain rfl := hunique hid'
          rw [hconfined.crash_get _ (data_key_eq .. ▸ not_edgeKey_data _), hrecord]
        · rw [hconfined.crash_get _ (delete_guard_key_eq .. ▸ not_edgeKey_data _), hguard]
          simp
      · obtain rfl := hunique hid'
        rw [OrdMap.get_clear, hkeep _ (data_key_eq .. ▸ not_edgeKey_data _), hrecord, ite_self]
      · obtain rfl := hunique hid'
        exact OrdMap.get_clear_self ..

theorem delete_node_noneMentions (hplain : Plain self.get_schema) (hpaired : Paired database ns db)
    (hreturned : ((delete_node self.node_store database ns entity_type node_id clock).complete answer db).1 =
      .ok true) : NoneMentions ⟨database, ns, entity_type, node_id⟩
      ((delete_node self.node_store database ns entity_type node_id clock).complete answer db).2 := by
  have hallowed : (delete_node self.node_store database ns entity_type node_id clock).Effects
      (deletion ⟨database, ns, entity_type, node_id⟩).Allows fun _ => True :=
    EdgeCall.allowed (show (EdgeCall.delete_node entity_type node_id clock).Local from trivial) hplain
  obtain ⟨hinv, hgone⟩ := (delete_node_ensures hplain _).complete hallowed hpaired (Prod.ext hreturned rfl)
  exact (hgone rfl).noneMentions hinv

/-- A deletion finds nothing to do when the record is gone. -/
theorem delete_node_without_record (h : ∀ id, from_str node_id = some id →
      db.rows.get (data_key (of_namespace database ns).data entity_type id.to_bytes) = none) :
    (∀ n, (delete_node self.node_store database ns entity_type node_id clock).crash answer n db = db) ∧
      ((delete_node self.node_store database ns entity_type node_id clock).complete answer db).2 = db := by
  refine delete_node_cases _ _ _ _ _ _ (fun _ => ⟨fun _ => rfl, rfl⟩) fun _ id next _ hid hnext => ?_
  simp only [complete, crash, h id hid]
  have hcell := hnext none
  generalize next none = p at hcell ⊢
  cases hcell with
  | absent | fail => exact ⟨fun _ => rfl, rfl⟩

end Stages

/-- A call of `delete_node` whose server stops after so many write transactions. -/
structure DeleteAttempt where
  clock : Clock
  cascade_clock : Nat → Int
  commits : Nat

section Attempts

variable (self : Store) (database ns entity_type node_id : String) (answer : NodeId)

def DeleteAttempt.proc (attempt : DeleteAttempt) : Proc Bool :=
  delete_node (self.withClock attempt.cascade_clock).node_store database ns entity_type node_id attempt.clock

/-- The calls one after the other, each cut short. -/
def cutShort (attempts : List DeleteAttempt) (db : Db) : Db :=
  attempts.foldl (fun db attempt =>
    (attempt.proc self database ns entity_type node_id).crash answer attempt.commits db) db

variable {self database ns entity_type node_id}

theorem cutShort_without_record (attempts : List DeleteAttempt) {db : Db}
    (h : ∀ id, from_str node_id = some id →
      db.rows.get (data_key (of_namespace database ns).data entity_type id.to_bytes) = none) :
    cutShort self database ns entity_type node_id answer attempts db = db := by
  induction attempts with
  | nil => rfl
  | cons _ _ ih =>
    rw [cutShort, List.foldl_cons, DeleteAttempt.proc, (delete_node_without_record h).1]
    exact ih

/-- The deletion of the node is through: there is no guard, and the rows are
those that one call leaves that nothing cuts short. -/
def Completed (database ns entity_type node_id : String) (whole db : Db) : Prop :=
  Deleted database ns entity_type node_id db ∧ db.rows = whole.rows

variable {answer}

private theorem last_without_record {db whole : Db} (last : DeleteAttempt)
    (h : ∀ id, from_str node_id = some id →
      db.rows.get (data_key (of_namespace database ns).data entity_type id.to_bytes) = none) :
    Completed database ns entity_type node_id whole
        ((last.proc self database ns entity_type node_id).complete answer db).2 ↔
      Completed database ns entity_type node_id whole db := by
  rw [DeleteAttempt.proc, (delete_node_without_record h).2]

/-- Calls of `delete_node` that are cut short can be completed by another call
exactly when the first one to commit anything has committed everything. The last
call, which nothing cuts short, then leaves what one undisturbed call leaves;
otherwise the guard stays, and so do the edges that had not been removed. An
undisturbed call leaves no edge of the node, where edges are one-way and without
sort keys. -/
theorem interrupted_delete_completed_iff {db : Db} {clock : Clock}
    (hreturned : ((delete_node self.node_store database ns entity_type node_id clock).complete answer db).1 =
      .ok true) (attempts : List DeleteAttempt) (last : DeleteAttempt) :
    (Completed database ns entity_type node_id
        ((delete_node self.node_store database ns entity_type node_id clock).complete answer db).2
        ((last.proc self database ns entity_type node_id).complete answer
          (cutShort self database ns entity_type node_id answer attempts db)).2 ↔
      ∀ attempt, attempts.find? (fun attempt => decide (0 < attempt.commits)) = some attempt →
        (delete_node self.node_store database ns entity_type node_id clock).commitCount answer db ≤
          attempt.commits) ∧
    (Plain self.get_schema → Paired database ns db → NoneMentions ⟨database, ns, entity_type, node_id⟩
      ((delete_node self.node_store database ns entity_type node_id clock).complete answer db).2) := by
  refine ⟨?_, fun hplain hpaired => delete_node_noneMentions hplain hpaired hreturned⟩
  obtain ⟨_, hdeleted⟩ := delete_node_stages hreturned
  have hsame : ∀ attempt : DeleteAttempt, _ ∧ _ ∧ _ := fun attempt =>
    complete_eq_of_mute_eq answer (q := attempt.proc self database ns entity_type node_id)
      (delete_node_mute self _ _ ns _ _ _ clock).symm
      (rfl : db.rows = db.rows)
  induction attempts with
  | nil =>
    obtain ⟨_, hrows, _⟩ := hsame last
    refine iff_of_true ⟨⟨fun id hid => ?_, fun id hid => ?_⟩, hrows⟩ (by simp)
    · change ((last.proc self database ns entity_type node_id).complete answer db).2.rows.get _ = none
      rw [hrows, hdeleted.record id hid]
    · change ((last.proc self database ns entity_type node_id).complete answer db).2.rows.get _ = none
      rw [hrows, hdeleted.guard id hid]
  | cons attempt rest ih =>
    obtain ⟨hresult, hrows, hcount⟩ := hsame _
    rw [cutShort, List.foldl_cons, List.find?_cons]
    cases hzero : decide (0 < attempt.commits) with
    | false =>
      have hnone : attempt.commits = 0 := by
        have := of_decide_eq_false hzero
        omega
      rw [hnone, crash_zero]
      exact ih
    | true =>
      have hpos : 0 < attempt.commits := of_decide_eq_true hzero
      simp only [Option.some.injEq, forall_eq']
      have hattempt : (∀ n, 0 < n → n < (attempt.proc self database ns entity_type node_id).commitCount answer db →
          Interrupted database ns entity_type node_id
            ((attempt.proc self database ns entity_type node_id).crash answer n db)) ∧
          Deleted database ns entity_type node_id
            ((attempt.proc self database ns entity_type node_id).complete answer db).2 :=
        delete_node_stages (hresult.trans hreturned)
      obtain ⟨hstages', hdeleted'⟩ := hattempt
      by_cases hle : (delete_node self.node_store database ns entity_type node_id clock).commitCount answer db ≤
          attempt.commits
      · rw [crash_of_commitCount_le _ (hcount.trans_le hle)]
        rw [← cutShort, cutShort_without_record _ rest hdeleted'.record, last_without_record last hdeleted'.record]
        exact iff_of_true ⟨hdeleted', hrows⟩ hle
      · have hstuck := hstages' _ hpos (by rw [hcount]; omega)
        rw [← cutShort, cutShort_without_record _ rest hstuck.record, last_without_record last hstuck.record]
        refine iff_of_false (fun hcompleted => ?_) hle
        obtain ⟨id, hid, hguard⟩ := hstuck.guard
        exact hguard (hcompleted.1.guard id hid)

end Attempts

/-- One person knows the other. -/
def acquainted : Db :=
  (((meeting true).proc friends "db" "ns").complete ⟨1, 7⟩ twoPeople).2

/-- The deletion of the other, undisturbed. -/
def undisturbed : Proc Bool := delete_node friends.node_store "db" "ns" "Person" (to_string ⟨1, 2⟩) ⟨6, 6⟩

/-- The server stops after the record of the node is gone; the call made after
that finds no record, and the edge and the guard stay. -/
theorem interrupted_delete_leaves_edge :
    let cut : DeleteAttempt := ⟨⟨6, 6⟩, fun _ => 0, 1⟩
    let after := ((cut.proc friends "db" "ns" "Person" (to_string ⟨1, 2⟩)).complete ⟨1, 7⟩
      (cutShort friends "db" "ns" "Person" (to_string ⟨1, 2⟩) ⟨1, 7⟩ [cut] acquainted)).2
    let e : Triple := ⟨⟨"db", "ns", "Person", to_string ⟨1, 1⟩⟩, ⟨"db", "ns", "Person", to_string ⟨1, 2⟩⟩,
      "knows"⟩
    (undisturbed.complete ⟨1, 7⟩ acquainted).1.toOption = some true ∧
    (undisturbed.complete ⟨1, 7⟩ acquainted).2.rows.get e.forward = none ∧ after.rows.get e.forward ≠ none ∧
    (undisturbed.complete ⟨1, 7⟩ acquainted).2.rows.get
      (delete_guard_key (Subspace.of_namespace "db" "ns").data "Person" (to_bytes ⟨1, 2⟩)) = none ∧
    after.rows.get (delete_guard_key (Subspace.of_namespace "db" "ns").data "Person" (to_bytes ⟨1, 2⟩)) ≠
      none := by
  refine ⟨?_, ?_, ?_, ?_, ?_⟩
  · decide +kernel
  · decide +kernel
  · decide +kernel
  · decide +kernel
  · decide +kernel

private theorem undisturbed_returned : (undisturbed.complete ⟨1, 7⟩ acquainted).1 = .ok true := by
  have h : (undisturbed.complete ⟨1, 7⟩ acquainted).1.toOption = some true := by decide +kernel
  generalize (undisturbed.complete ⟨1, 7⟩ acquainted).1 = r at h ⊢
  cases r with
  | ok => simpa [Except.toOption] using h
  | error => cases h

/-- Two calls that stop before they commit anything do no harm. -/
theorem retried_delete_completed :
    Completed "db" "ns" "Person" (to_string ⟨1, 2⟩) (undisturbed.complete ⟨1, 7⟩ acquainted).2
      ((DeleteAttempt.proc friends "db" "ns" "Person" (to_string ⟨1, 2⟩) ⟨⟨9, 9⟩, fun _ => 1, 0⟩).complete ⟨1, 7⟩
        (cutShort friends "db" "ns" "Person" (to_string ⟨1, 2⟩) ⟨1, 7⟩
          [⟨⟨7, 7⟩, fun _ => 0, 0⟩, ⟨⟨8, 8⟩, fun _ => 0, 0⟩] acquainted)).2 := by
  have hreturned := undisturbed_returned
  generalize acquainted = db at hreturned ⊢
  exact (interrupted_delete_completed_iff hreturned _ _).1.mpr (by simp)

end pelago_storage.edge
