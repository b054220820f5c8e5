import Pelago.Kv.Effects
import Pelago.Storage.IndexBackfill
import Pelago.Storage.Node.Serializability

open bytes kv pelago_core pelago_core.encoding
open pelago_storage.index pelago_storage.node

namespace pelago_storage.job_executor

open List

/-- A backfill job beside requests: the rows of a batch that are read and not yet used, and whether
the last batch has told that there is no more. -/
structure Live (J : Type) where
  pool : Pool Bytes Cell NodeId PelagoError (StoredNode ⊕ Bool) J
  job : BackfillJob
  batch : Option (List (Bytes × Cell))
  finished : Bool

namespace Live

variable {J : Type} [DecidableEq J]

/-- One transaction, of a request or of the job. A batch of the job is two of them: its rows are read,
and what follows from them is written. Writes go through only when `valid` or `current` holds. -/
inductive Step (valid : Db → List (Bytes × Option Cell) → Prop) (current : Db → List (Bytes × Cell) → Prop)
    (document : SchemaDocument) (batch_size : Nat) : Live J → Live J → Prop where
  | call {s : Live J} {c : Pool Bytes Cell NodeId PelagoError (StoredNode ⊕ Bool) J}
      (hstep : kv.Step valid s.pool c) : Step valid current document batch_size s { s with pool := c }
  | read {s : Live J} (hbatch : s.batch = none) (hmore : s.finished = false)
      (hrows : s.job.scan batch_size s.pool.db.rows ≠ []) :
      Step valid current document batch_size s
        { s with batch := some (s.job.scan batch_size s.pool.db.rows) }
  | stop {s : Live J} (hbatch : s.batch = none) (hrows : s.job.scan batch_size s.pool.db.rows = []) :
      Step valid current document batch_size s { s with finished := true }
  | write {s : Live J} {results : List (Bytes × Cell)} {rows : OrdMap Bytes Cell} {processed : Nat}
      (hbatch : s.batch = some results) (hcurrent : current s.pool.db results)
      (hfill : results.foldlM (s.job.fill document.entity) (s.pool.db.rows, 0) = .ok (rows, processed)) :
      Step valid current document batch_size s
        ⟨{ s.pool with db.rows := rows }, s.job.advance results processed, none,
          !decide (batch_size ≤ results.length)⟩

/-- A batch that nothing comes between. -/
theorem steps_of_execute_batch {document : SchemaDocument} {batch_size : Nat} {s : Live J} {job : BackfillJob}
    {rows : OrdMap Bytes Cell} {more : Bool} (hbatch : s.batch = none) (hmore : s.finished = false)
    (h : BackfillJob.execute_batch (.ok (some document)) batch_size s.job s.pool.db.rows = .ok (job, rows, more)) :
    Relation.ReflTransGen (Step (fun _ _ => True) (fun _ _ => True) document batch_size) s
      ⟨{ s.pool with db.rows := rows }, job, none, !more⟩ := by
  obtain ⟨pool, job₀, batch, finished⟩ := s
  obtain rfl : batch = none := hbatch
  unfold BackfillJob.execute_batch at h
  dsimp only at h
  split at h
  · next hempty =>
    obtain ⟨rfl, rfl, rfl⟩ : _ ∧ _ ∧ _ := by simpa [pure, Except.pure] using h
    exact .single (.stop rfl (isEmpty_iff.mp hempty))
  · next hempty =>
    cases hfill : (job₀.scan batch_size pool.db.rows).foldlM (job₀.fill document.entity)
        (pool.db.rows, 0) with
    | error => simp [bind, Except.bind, hfill] at h
    | ok =>
      obtain ⟨rfl, rfl, rfl⟩ : _ ∧ _ ∧ _ := by simpa [bind, Except.bind, pure, Except.pure, hfill] using h
      exact .tail (.single (.read rfl hmore (by simpa using hempty))) (.write rfl trivial hfill)

end Live

section Calls

variable {self : NodeStore} {dep : Deployment} {schema : EntitySchema} {db : Db}

end Calls

namespace Live

variable {J : Type} [DecidableEq J]

/-- A job that has not begun, beside requests that have not. -/
def start (stores : J → NodeStore) (dep : Deployment) (calls : J → String × NodeCall) (job_type : schema.IndexBackfill)
    (db : Db) : Live J :=
  ⟨⟨db, fun j => Thread.start ((calls j).2.proc (stores j) dep.database dep.ns dep.entity_type (calls j).1)⟩,
    ⟨dep.database, dep.ns, job_type, none, 0⟩, none, false⟩

/-- One person by the name of `a`, and no rows of indexes yet. -/
private def lonePerson : Db := ⟨.ofList [recordRow people.subspace "Person" ⟨1, 0⟩ ⟨named "a", 1, 1, 1⟩], fun _ => []⟩

private def personDocument : SchemaDocument :=
  ⟨"Person", 1, .ofList [("name", ⟨.string, false, .equality, none⟩)], .empty, {}, 0, ""⟩

/-- A change of the name beside a backfill of the index. -/
private def renamed : Live Unit :=
  start (fun _ => people.store) people (fun _ => ("1_0", .update (named "b") ⟨2, 2⟩)) ⟨"Person", "name", .equality⟩
    lonePerson

/-- What the batch reads, and what it leaves when it is written to the given rows. -/
private def scanned : List (Bytes × Cell) := renamed.job.scan 2 lonePerson.rows

private def written (c : Pool Bytes Cell NodeId PelagoError (StoredNode ⊕ Bool) Unit) : Live Unit :=
  ⟨{ c with db := { c.db with rows := renamed.job.filled personDocument.entity scanned c.db.rows } },
    renamed.job.advance scanned 1, none, true⟩

end Live

end pelago_storage.job_executor
