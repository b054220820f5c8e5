import Pelago.Storage.Tenancy

open bytes kv pelago_core pelago_core.encoding

namespace pelago_storage.jobs

open OrdMap

inductive JobType where
  | IndexBackfill (entity_type property_name : String) (index_type : IndexType)
  | StripProperty (entity_type property_name : String)
  | CdcRetention (max_retention_secs : UInt64) (checkpoint_aware : Bool)
  | OrphanedEdgeCleanup (deleted_entity_type : String)
  | DeleteNodeCascade (entity_type node_id : String)
  | DropEntityTypeCleanup (entity_type : String)
  deriving DecidableEq

inductive JobStatus where
  | Pending
  | Running
  | Completed
  | Failed
  deriving DecidableEq

structure JobState where
  job_id : String
  job_type : JobType
  status : JobStatus
  progress_cursor : Option Bytes
  processed_items : Nat
  created_at : Int
  updated_at : Int
  database : String
  ns : String
  error : Option String
  deriving DecidableEq

def JobState.key (job : JobState) : Bytes := job_key job.database job.ns job.job_id

/-- The job records of all namespaces, each under its own key. -/
structure JobStore where
  rows : OrdMap Bytes JobState
  filed : ∀ row ∈ rows.rows, row.1 = row.2.key

namespace JobStore

def empty : JobStore := ⟨.empty, fun _ hrow => absurd hrow List.not_mem_nil⟩

def put (store : JobStore) (job : JobState) : JobStore where
  rows := store.rows.set job.key job
  filed row hrow := by
    obtain rfl | hrow := mem_insertRow hrow
    · rfl
    · exact store.filed row hrow

/-- The id and the time are drawn by the caller. -/
def create_job (store : JobStore) (database ns : String) (job_type : JobType) (job_id : String) (now : Int) :
    JobState × JobStore :=
  let job : JobState := ⟨job_id, job_type, .Pending, none, 0, now, now, database, ns, none⟩
  (job, store.put job)

def update_job (store : JobStore) (job : JobState) (now : Int) : JobStore := store.put { job with updated_at := now }

/-- The records that a scan of the namespace reads. -/
def records (store : JobStore) (database ns : String) : List (Bytes × JobState) :=
  let subspace := (Subspace.of_namespace database ns).jobs
  store.rows.range subspace.pfx subspace.range_end

def SCAN_LIMIT : Nat := 1000

def find_actionable_jobs (store : JobStore) (database ns : String) : List JobState :=
  (((store.records database ns).take SCAN_LIMIT).map Prod.snd).filter fun job =>
    job.status = .Pending ∨ job.status = .Running

end JobStore

/-- The scope that the server is started with. -/
structure ServerConfig where
  default_database : String
  default_namespace : String

/-- The jobs that one round of the worker executes. -/
def JobStore.poll (store : JobStore) (config : ServerConfig) : List JobState :=
  store.find_actionable_jobs config.default_database config.default_namespace

/-- The scan of a namespace reads its own records and no others. -/
theorem JobStore.mem_records {store : JobStore} {database ns : String} {row : Bytes × JobState} :
    row ∈ store.records database ns ↔ row ∈ store.rows.rows ∧ row.2.database = database ∧ row.2.ns = ns := by
  rw [records, mem_range]
  refine and_congr_right fun hrow => ?_
  rw [store.filed row hrow]
  unfold Subspace.range_end
  rw [mem_range_iff]
  have hkey : row.2.key = (Subspace.of_namespace row.2.database row.2.ns).jobs.pfx ++ element row.2.job_id := rfl
  constructor
  · rintro ⟨rest, heq, _⟩
    obtain ⟨hdatabase, hns, _⟩ := subspace_append_inj (hkey.symm.trans heq)
    exact ⟨hdatabase, hns⟩
  · rintro ⟨rfl, rfl⟩
    exact ⟨_, hkey, by simp [element]⟩

theorem JobStore.records_sorted (store : JobStore) (database ns : String) :
    (store.records database ns).Pairwise fun a b => a.1 < b.1 :=
  range_sorted ..

/-- An unfinished job is executed in the next round exactly if it is in the scope of the
server and fewer than a thousand records of the scope have smaller keys. -/
theorem polled_iff (store : JobStore) (config : ServerConfig) {job : JobState}
    (hjob : (job.key, job) ∈ store.rows.rows) (hstatus : job.status = .Pending ∨ job.status = .Running) :
    job ∈ store.poll config ↔
      (job.database = config.default_database ∧ job.ns = config.default_namespace) ∧
        ((store.records job.database job.ns).filter fun row => row.1 < job.key).length < JobStore.SCAN_LIMIT := by
  have hpolled : job ∈ store.poll config ↔
      (job.key, job) ∈ (store.records config.default_database config.default_namespace).take JobStore.SCAN_LIMIT := by
    simp only [JobStore.poll, JobStore.find_actionable_jobs, List.mem_filter, List.mem_map, decide_eq_true_eq,
      hstatus, and_true]
    constructor
    · rintro ⟨row, hrow, rfl⟩
      have hmem := (JobStore.mem_records.mp (List.mem_of_mem_take hrow)).1
      rwa [← store.filed row hmem]
    · exact fun hmem => ⟨_, hmem, rfl⟩
  rw [hpolled]
  constructor
  · intro htaken
    have hrecord := List.mem_of_mem_take htaken
    obtain ⟨hdatabase, hns⟩ := (JobStore.mem_records.mp hrecord).2
    rw [mem_take_iff (store.records_sorted ..) hrecord] at htaken
    refine ⟨⟨hdatabase, hns⟩, ?_⟩
    convert htaken
  · rintro ⟨⟨hdatabase, hns⟩, hcount⟩
    rw [hdatabase, hns] at hcount
    rw [mem_take_iff (store.records_sorted ..) (JobStore.mem_records.mpr ⟨hjob, hdatabase, hns⟩)]
    convert hcount

/-- A job of the scope that the server serves, and one of another scope. -/
def twoScopes : JobStore :=
  let job_type := JobType.DropEntityTypeCleanup "Person"
  ((JobStore.empty.create_job "db" "default" job_type "1" 0).2.create_job "db" "other" job_type "2" 0).2

/-- The job of the other scope stays pending. -/
theorem other_scope_not_polled :
    ∃ job, (job.key, job) ∈ twoScopes.rows.rows ∧ job.status = .Pending ∧ job ∉ twoScopes.poll ⟨"db", "default"⟩ :=
  ⟨⟨"2", .DropEntityTypeCleanup "Person", .Pending, none, 0, 0, 0, "db", "other", none⟩, by decide +kernel, rfl,
    by decide +kernel⟩

theorem default_scope_polled :
    ⟨"1", .DropEntityTypeCleanup "Person", .Pending, none, 0, 0, 0, "db", "default", none⟩ ∈
      twoScopes.poll ⟨"db", "default"⟩ :=
  (polled_iff twoScopes ⟨"db", "default"⟩ (by decide +kernel) (Or.inl rfl)).mpr ⟨⟨rfl, rfl⟩, by decide +kernel⟩

end pelago_storage.jobs
