import Pelago.Storage.Consumer

open bytes kv pelago_core

namespace pelago_storage

namespace consumer

/-- Up to the first NUL that is not escaped. -/
def tuple_bytes : Bytes → Bytes
  | [] => []
  | [b] => if b = 0x00 then [] else [b]
  | b :: c :: rest =>
    if b = 0x00 then if c = 0xFF then 0x00 :: tuple_bytes rest else []
    else b :: tuple_bytes (c :: rest)

def extract_tuple_string (data : Bytes) : String :=
  match data with
  | 0x02 :: rest => (String.fromUTF8? ⟨(tuple_bytes rest).toArray⟩).getD ""
  | _ => ""

/-- The checkpoints of the consumers of a namespace, a thousand at most. -/
def fetch_all_checkpoints (rows : OrdMap Bytes Cell) (database ns : String) : List (String × Versionstamp) :=
  let pfx := ((Subspace.of_namespace database ns).metadata.pack.add_string "cdc_checkpoints").build
  ((rows.range pfx (pfx ++ [0xFF])).take 1000).filterMap fun (key, value) =>
    match value with
    | .raw bs => (Versionstamp.from_bytes bs).map fun vs => (extract_tuple_string (key.drop pfx.length), vs)
    | _ => none

end consumer

namespace job_executor

open cdc consumer

/-- A `CdcRetention` job: its parameters and how far it has come. -/
structure RetentionJob where
  database : String
  ns : String
  max_retention_secs : UInt64
  checkpoint_aware : Bool
  progress_cursor : Option Bytes
  processed_items : Nat

namespace RetentionJob

def subspace (job : RetentionJob) : Subspace := (Subspace.of_namespace job.database job.ns).cdc

/-- The least checkpoint of all consumers. -/
def safe_cutoff (job : RetentionJob) (rows : OrdMap Bytes Cell) : Option Versionstamp :=
  if job.checkpoint_aware then ((fetch_all_checkpoints rows job.database job.ns).map Prod.snd).min? else none

/-- The entries of the next batch. -/
def scan (job : RetentionJob) (batch_size : Nat) (rows : OrdMap Bytes Cell) : List (Bytes × Cell) :=
  (rows.range (job.progress_cursor.getD job.subspace.pfx) job.subspace.range_end).take batch_size

/-- Whole seconds, cut off towards zero, in signed 64-bit arithmetic. -/
def age_secs (now_us timestamp : Int) : Int := ((now_us - timestamp).bmod (2 ^ 64)).tdiv 1000000

/-- Not old enough to be deleted. -/
def young (job : RetentionJob) (now_us : Int) (entry : CdcEntry) : Bool :=
  age_secs now_us entry.timestamp < job.max_retention_secs.toInt64.toInt

/-- The loop over a batch: the keys to clear and the number of items processed.
Entries from the cutoff on are passed over, the first young one ends the loop,
and what does not decode is cleared. The clock is read for every entry. -/
def sweep (job : RetentionJob) (safe_cutoff : Option Versionstamp) (now_us : Nat → Int) :
    Nat → List (Bytes × Cell) → List Bytes × Nat
  | _, [] => ([], 0)
  | i, (key, value) :: rest =>
    match Versionstamp.from_bytes (key.drop job.subspace.pfx.length) with
    | some vs =>
      if safe_cutoff.any (fun cutoff => decide (cutoff ≤ vs)) then job.sweep safe_cutoff now_us (i + 1) rest
      else
        match decode_cbor_entry value with
        | .ok entry =>
          if job.young (now_us i) entry then ([], 0)
          else
            let (keys, processed) := job.sweep safe_cutoff now_us (i + 1) rest
            (key :: keys, processed + 1)
        | .error _ =>
          let (keys, processed) := job.sweep safe_cutoff now_us (i + 1) rest
          (key :: keys, processed + 1)
    | none =>
      let (keys, processed) := job.sweep safe_cutoff now_us (i + 1) rest
      (keys, processed + 1)

/-- The cursor moves past the batch, whatever the loop has cleared. -/
def advance (job : RetentionJob) (results : List (Bytes × Cell)) (processed : Nat) : RetentionJob :=
  { job with
    processed_items := job.processed_items + processed
    progress_cursor :=
      match results.getLast? with
      | some (last_key, _) => some (last_key ++ [0x00])
      | none => job.progress_cursor }

end RetentionJob

/-- What a batch finds: the least checkpoint at the time, its size, and the clock. -/
structure Round where
  safe_cutoff : Option Versionstamp
  batch_size : Nat
  now_us : Nat → Int

def clearAll (rows : OrdMap Bytes Cell) (keys : List Bytes) : OrdMap Bytes Cell :=
  keys.foldl (fun rows key => rows.clear key) rows

/-- One batch. The flag tells that there is more to do. -/
def execute_batch (r : Round) (job : RetentionJob) (rows : OrdMap Bytes Cell) :
    RetentionJob × OrdMap Bytes Cell × Bool :=
  let results := job.scan r.batch_size rows
  if results.isEmpty then (job, rows, false)
  else
    let (keys, processed) := job.sweep r.safe_cutoff r.now_us 0 results
    (job.advance results processed, clearAll rows keys, decide (r.batch_size ≤ results.length))

/-- The batches of a job, until one tells that it was the last. -/
def execute_job : List Round → RetentionJob → OrdMap Bytes Cell → RetentionJob × OrdMap Bytes Cell
  | [], job, rows => (job, rows)
  | r :: rounds, job, rows =>
    match execute_batch r job rows with
    | (job, rows, true) => execute_job rounds job rows
    | (job, rows, false) => (job, rows)

end job_executor

end pelago_storage
