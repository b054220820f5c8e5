import Pelago.Storage.Node.PropertyIndex
import Pelago.Storage.SchemaRegistry

open bytes kv pelago_core pelago_core.encoding
open pelago_storage.index List
open pelago_storage.Subspace (of_namespace)

namespace pelago_storage

/-- A schema with the parts that nodes and indexes read. -/
def SchemaDocument.entity (schema : SchemaDocument) : EntitySchema :=
  ⟨schema.name, schema.properties, schema.schema_meta, schema.edges.mapVal EdgeDefDocument.toEdgeDef⟩

namespace job_executor

/-- An `IndexBackfill` job: its parameters and how far it has come. -/
structure BackfillJob where
  database : String
  ns : String
  job_type : schema.IndexBackfill
  progress_cursor : Option Bytes
  processed_items : Nat

namespace BackfillJob

def entity_type (job : BackfillJob) : String := job.job_type.entity_type

def subspace (job : BackfillJob) : Subspace := Subspace.of_namespace job.database job.ns

def range_start (job : BackfillJob) : Bytes := (job.subspace.data.pack.add_string job.entity_type).build

/-- The rows of the next batch. -/
def scan (job : BackfillJob) (batch_size : Nat) (rows : OrdMap Bytes Cell) : List (Bytes × Cell) :=
  (rows.range (job.progress_cursor.getD job.range_start) (job.range_start ++ [0xFF])).take batch_size

/-- One turn of the loop over a batch: what is written for a row, and the number of items.
The node id is the end of the key, and all indexes of the schema are written. -/
def fill (job : BackfillJob) (schema : EntitySchema) (written : OrdMap Bytes Cell × Nat) (row : Bytes × Cell) :
    Except PelagoError (OrdMap Bytes Cell × Nat) :=
  let (key, value) := row
  if key.length < 9 then pure written
  else do
    let payload ← decode_cbor value
    let entries ← compute_index_entries job.subspace job.entity_type (key.drop (key.length - 9)) schema
      payload.properties
    pure (entries.foldl (fun rows entry => rows.set entry.key entry.cell) written.1, written.2 + 1)

def advance (job : BackfillJob) (results : List (Bytes × Cell)) (processed : Nat) : BackfillJob :=
  { job with
    processed_items := job.processed_items + processed
    progress_cursor :=
      match results.getLast? with
      | some (last_key, _) => some (last_key ++ [0x00])
      | none => job.progress_cursor }

variable (get_schema : Except PelagoError (Option SchemaDocument)) (batch_size : Nat)

/-- One batch, with the answer of the registry. The flag tells that there is more to do. -/
def execute_batch (job : BackfillJob) (rows : OrdMap Bytes Cell) :
    Except PelagoError (BackfillJob × OrdMap Bytes Cell × Bool) :=
  let results := job.scan batch_size rows
  if results.isEmpty then pure (job, rows, false)
  else do
    match ← get_schema with
    | none => .error (.UnregisteredType job.entity_type)
    | some schema =>
      let (rows, processed) ← results.foldlM (job.fill schema.entity) (rows, 0)
      pure (job.advance results processed, rows, decide (batch_size ≤ results.length))

/-- The batches of a job until one tells that it was the last. There is no result when
`fuel` batches do not suffice. -/
def execute_job : Nat → BackfillJob → OrdMap Bytes Cell → Except PelagoError (Option (OrdMap Bytes Cell))
  | 0, _, _ => pure none
  | fuel + 1, job, rows => do
    match ← execute_batch get_schema batch_size job rows with
    | (job, rows, true) => execute_job fuel job rows
    | (_, rows, false) => pure (some rows)

/-- The jobs of a registration, one after the other. -/
def execute_jobs (database ns : String) (fuel : Nat) :
    List schema.IndexBackfill → OrdMap Bytes Cell → Except PelagoError (Option (OrdMap Bytes Cell))
  | [], rows => pure (some rows)
  | job_type :: jobs, rows => do
    match ← execute_job get_schema batch_size fuel ⟨database, ns, job_type, none, 0⟩ rows with
    | none => pure none
    | some rows => execute_jobs database ns fuel jobs rows

end BackfillJob

section Loop

variable {subspace : Subspace} {entity_type : String} {schema : EntitySchema} {rows rows' rows'' : OrdMap Bytes Cell}

/-- The entries that the job writes for a row. -/
def entriesOf (subspace : Subspace) (entity_type : String) (schema : EntitySchema) (row : Bytes × Cell) :
    List IndexEntry :=
  match row.2 with
  | .node d =>
    match compute_index_entries subspace entity_type (row.1.drop (row.1.length - 9)) schema d.properties with
    | .ok entries => entries
    | .error _ => []
  | _ => []

/-- The row of a live node. -/
def recordRow (subspace : Subspace) (entity_type : String) (id : NodeId) (d : NodeData) : Bytes × Cell :=
  (node.data_key subspace.data entity_type id.to_bytes, .node d)

theorem drop_recordRow (id : NodeId) (d : NodeData) :
    (recordRow subspace entity_type id d).1.drop ((recordRow subspace entity_type id d).1.length - 9) =
      id.to_bytes := by
  rw [recordRow, data_key_append]
  simp

theorem mem_entriesOf {id : NodeId} {d : NodeData} {entry : IndexEntry} :
    entry ∈ entriesOf subspace entity_type schema (recordRow subspace entity_type id d) ↔
      ∃ property kind value, Indexed schema d.properties property kind value ∧
        entry = entryFor subspace entity_type id.to_bytes property kind value := by
  obtain ⟨entries, hentries, hmem⟩ :=
    compute_index_entries_ok ..
  rw [← hmem, entriesOf, drop_recordRow]
  simp [recordRow, hentries]

/-- What writing entries leaves: the rows of no entry are kept, the others hold what some
entry says. -/
structure Filled (entries : List IndexEntry) (rows rows' : OrdMap Bytes Cell) : Prop where
  kept : ∀ k, (∀ entry ∈ entries, entry.key ≠ k) → rows'.get k = rows.get k
  written : ∀ entry ∈ entries, ∃ entry' ∈ entries, entry'.key = entry.key ∧ rows'.get entry.key = some entry'.cell

theorem filled_foldl (entries : List IndexEntry) (rows : OrdMap Bytes Cell) :
    Filled entries rows (entries.foldl (fun rows entry => rows.set entry.key entry.cell) rows) := by
  induction entries generalizing rows with
  | nil => exact ⟨fun _ _ => rfl, fun _ h => absurd h not_mem_nil⟩
  | cons entry entries ih =>
    obtain ⟨hkept, hwritten⟩ := ih _
    have hhead : ∃ entry' ∈ entry :: entries, entry'.key = entry.key ∧
        ((entry :: entries).foldl (fun rows entry => rows.set entry.key entry.cell) rows).get entry.key =
          some entry'.cell := by
      by_cases hlater : ∃ entry' ∈ entries, entry'.key = entry.key
      · obtain ⟨entry', hentry', hkey⟩ := hlater
        obtain ⟨last, hlast, hlastKey, hget⟩ := hwritten _ hentry'
        exact ⟨last, mem_cons_of_mem _ hlast, hlastKey.trans hkey, hkey ▸ hget⟩
      · refine ⟨entry, mem_cons_self, rfl, ?_⟩
        rw [foldl_cons, hkept _ fun entry' hentry' hkey => hlater ⟨entry', hentry', hkey⟩, OrdMap.get_set_self]
    constructor
    · intro k hk
      rw [foldl_cons, hkept k fun _ hentry' => hk _ (mem_cons_of_mem _ hentry'),
        OrdMap.get_set_of_ne _ _ (hk _ mem_cons_self).symm]
    · intro _ hentry'
      obtain rfl | hentry' := mem_cons.mp hentry'
      · exact hhead
      · obtain ⟨last, hlast, hkey, hget⟩ := hwritten _ hentry'
        exact ⟨last, mem_cons_of_mem _ hlast, hkey, hget⟩

/-- Writing the same entries once more changes nothing about this. -/
theorem Filled.trans {entries : List IndexEntry} (h : Filled entries rows rows') (h' : Filled entries rows' rows'') :
    Filled entries rows rows'' :=
  ⟨fun k hk => (h'.kept k hk).trans (h.kept k hk), h'.written⟩

/-- The rows that the scan of a type goes through. -/
def dataRows (subspace : Subspace) (entity_type : String) (rows : OrdMap Bytes Cell) : List (Bytes × Cell) :=
  rows.range (subspace.data.pack.add_string entity_type).build
    ((subspace.data.pack.add_string entity_type).build ++ [0xFF])

/-- The scan meets records of nodes only. -/
def NodeRows (subspace : Subspace) (entity_type : String) (todo : List (Bytes × Cell)) : Prop :=
  ∀ row ∈ todo, ∃ id d, row = recordRow subspace entity_type id d

theorem range_start_eq (subspace : Subspace) (entity_type : String) :
    (subspace.data.pack.add_string entity_type).build = node.data_key subspace.data entity_type [] := by
  simp [node.data_key, TupleBuilder.build, TupleBuilder.add_raw_bytes]

/-- The scan goes through the records of all nodes but those of the last site. -/
theorem mem_dataRows {id : NodeId} {d : NodeData} :
    recordRow subspace entity_type id d ∈ dataRows subspace entity_type rows ↔
      rows.get (node.data_key subspace.data entity_type id.to_bytes) = some (.node d) ∧ id.site ≠ 0xFF := by
  rw [dataRows, OrdMap.mem_range, ← OrdMap.get_eq_some_iff_mem, range_start_eq, recordRow]
  refine and_congr_right fun _ => ?_
  rw [mem_range_iff, data_key_append]
  constructor
  · rintro ⟨rest, hrest, hhead⟩ hsite
    obtain rfl := append_cancel_left hrest
    exact hhead (by simp [NodeId.to_bytes, hsite])
  · intro hsite
    exact ⟨id.to_bytes, rfl, by simpa [NodeId.to_bytes] using hsite⟩

/-- Entries are not among the rows of the scan. -/
theorem Filled.get_dataRow {database ns : String} {todo : List (Bytes × Cell)}
    (hnodes : NodeRows (of_namespace database ns) entity_type todo)
    (h : Filled (todo.flatMap (entriesOf (of_namespace database ns) entity_type schema)) rows rows')
    {rest : Bytes} : rows'.get ((of_namespace database ns).data.pfx ++ rest) =
      rows.get ((of_namespace database ns).data.pfx ++ rest) := by
  refine h.kept _ fun _ hentry hkey => ?_
  obtain ⟨row, hrow, hentry⟩ := mem_flatMap.mp hentry
  obtain ⟨id, d, rfl⟩ := hnodes _ hrow
  obtain ⟨property, _, _, _, rfl⟩ := mem_entriesOf.mp hentry
  exact data_ne_index hkey.symm

end Loop

namespace BackfillJob

section Run

variable {job : BackfillJob} {document : SchemaDocument} {rows : OrdMap Bytes Cell} {todo : List (Bytes × Cell)}

/-- What is left for a job to scan. -/
def Ahead (job : BackfillJob) (rows : OrdMap Bytes Cell) (todo : List (Bytes × Cell)) : Prop :=
  rows.range (job.progress_cursor.getD job.range_start) (job.range_start ++ [0xFF]) = todo

/-- The rows after the entries of `todo` are written. -/
def filled (job : BackfillJob) (schema : EntitySchema) (todo : List (Bytes × Cell)) (rows : OrdMap Bytes Cell) :
    OrdMap Bytes Cell :=
  (todo.flatMap (entriesOf job.subspace job.entity_type schema)).foldl
    (fun rows entry => rows.set entry.key entry.cell) rows

theorem fill_recordRow (schema : EntitySchema) (written : OrdMap Bytes Cell × Nat) (id : NodeId) (d : NodeData) :
    job.fill schema written (recordRow job.subspace job.entity_type id d) =
      .ok (job.filled schema [recordRow job.subspace job.entity_type id d] written.1, written.2 + 1) := by
  obtain ⟨entries, hentries, _⟩ :=
    compute_index_entries_ok job.subspace job.entity_type id.to_bytes schema d.properties
  have hlength : ¬ (recordRow job.subspace job.entity_type id d).1.length < 9 := by
    rw [recordRow, data_key_append]
    simp
  rw [fill, if_neg hlength, drop_recordRow]
  simp only [filled, flatMap_cons, flatMap_nil, append_nil, entriesOf, drop_recordRow]
  simp [recordRow, decode_cbor, hentries, bind, Except.bind, pure, Except.pure]

/-- The loop over a batch of records does not fail. -/
theorem foldlM_fill (schema : EntitySchema) (hnodes : NodeRows job.subspace job.entity_type todo)
    (written : OrdMap Bytes Cell × Nat) :
    todo.foldlM (job.fill schema) written = .ok (job.filled schema todo written.1, written.2 + todo.length) := by
  induction todo generalizing written with
  | nil => rfl
  | cons row _ ih =>
    obtain ⟨id, d, rfl⟩ := hnodes _ mem_cons_self
    rw [foldlM_cons, fill_recordRow]
    refine (ih (fun row hrow => hnodes _ (mem_cons_of_mem _ hrow)) _).trans ?_
    simp [filled, foldl_append, add_assoc, add_comm 1]

theorem filled_append (schema : EntitySchema) (todo todo' : List (Bytes × Cell)) :
    job.filled schema (todo ++ todo') rows = job.filled schema todo' (job.filled schema todo rows) := by
  simp [filled, foldl_append]

theorem Ahead.nodeRows_take (hnodes : NodeRows job.subspace job.entity_type todo) (n : Nat) :
    NodeRows job.subspace job.entity_type (todo.take n) :=
  fun row hrow => hnodes _ (mem_of_mem_take hrow)

/-- A batch leaves the rest of the scan. -/
theorem Ahead.step (h : Ahead job rows todo) (hnodes : NodeRows job.subspace job.entity_type todo)
    (schema : EntitySchema) {n : Nat} (hbatch : todo.take n ≠ []) (processed : Nat) :
    Ahead (job.advance (todo.take n) processed) (job.filled schema (todo.take n) rows) (todo.drop n) := by
  obtain ⟨front, last, hlast⟩ := (eq_nil_or_concat _).resolve_left hbatch
  rw [concat_eq_append] at hlast
  have hmem : last ∈ todo := mem_of_mem_take (hlast ▸ mem_append_right _ mem_cons_self)
  obtain ⟨id, d, rfl⟩ := hnodes _ hmem
  have hcursor : (job.advance (todo.take n) processed).progress_cursor =
      some ((recordRow job.subspace job.entity_type id d).1 ++ [0x00]) := by
    rw [hlast, advance, getLast?_concat]
  unfold Ahead
  rw [hcursor, Option.getD_some]
  change (job.filled schema (todo.take n) rows).range _ (job.range_start ++ [0xFF]) = _
  have hrows : (job.filled schema (todo.take n) rows).range
        ((recordRow job.subspace job.entity_type id d).1 ++ [0x00]) (job.range_start ++ [0xFF]) =
      rows.range ((recordRow job.subspace job.entity_type id d).1 ++ [0x00]) (job.range_start ++ [0xFF]) := by
    refine OrdMap.range_congr fun k hlow hhigh => ?_
    have hstart : job.range_start ≤ k := by
      refine le_trans ?_ (append_zero_le_iff.mp hlow).le
      rw [range_start, range_start_eq, recordRow, data_key_append _ _ id.to_bytes]
      exact le_append ..
    obtain ⟨_, rfl, _⟩ := mem_range_iff.mp ⟨hstart, hhigh⟩
    rw [range_start, range_start_eq, data_key_eq, append_assoc]
    exact (filled_foldl _ _).get_dataRow (nodeRows_take hnodes n)
  rw [hrows, OrdMap.range_drop (fun _ => append_zero_le_iff) (by rw [h, hlast, getLast?_concat]), h]

/-- A job with enough batches completes, and has then written the entries of all it scans. -/
theorem execute_job_eq {batch_size : Nat} (hbatch : 0 < batch_size) {fuel : Nat} (h : Ahead job rows todo)
    (hnodes : NodeRows job.subspace job.entity_type todo) (hfuel : todo.length < fuel) :
    execute_job (.ok (some document)) batch_size fuel job rows = .ok (some (job.filled document.entity todo rows)) := by
  induction fuel generalizing job rows todo with
  | zero => omega
  | succ fuel ih =>
    have hscan : job.scan batch_size rows = todo.take batch_size := by rw [scan, h]
    rw [execute_job, execute_batch, hscan]
    by_cases hempty : todo = []
    · subst hempty
      rw [take_nil]
      rfl
    have htake : todo.take batch_size ≠ [] := by simp [hempty, hbatch.ne']
    have hsome : (todo.take batch_size).isEmpty = false := by simpa using htake
    have hfold := foldlM_fill document.entity (Ahead.nodeRows_take hnodes batch_size) (rows, 0)
    simp only [hsome, Bool.false_eq_true, if_false, bind, Except.bind, pure, Except.pure] at hfold ⊢
    rw [hfold]
    by_cases hmore : batch_size ≤ (todo.take batch_size).length
    · simp only [hmore, decide_true]
      have hlength : (todo.drop batch_size).length < fuel := by
        rw [length_take] at hmore
        rw [length_drop]
        omega
      have hrest := ih (h.step hnodes document.entity htake (0 + (todo.take batch_size).length))
        (fun row hrow => hnodes _ (mem_of_mem_drop hrow)) hlength
      refine hrest.trans ?_
      conv_rhs => rw [← take_append_drop batch_size todo, filled_append]
      rfl
    · have hall : todo.take batch_size = todo := by
        rw [length_take] at hmore
        exact take_of_length_le (by omega)
      simp only [hmore, decide_false]
      rw [hall]

/-- The jobs of a type complete. If there is one, the entries of all records of the scan are
written; else nothing is. -/
theorem execute_jobs_filled {database ns entity_type : String} {batch_size fuel : Nat} (hbatch : 0 < batch_size)
    {jobs : List schema.IndexBackfill} (hjobs : ∀ job_type ∈ jobs, job_type.entity_type = entity_type)
    (hdata : dataRows (of_namespace database ns) entity_type rows = todo)
    (hnodes : NodeRows (of_namespace database ns) entity_type todo) (hfuel : todo.length < fuel) :
    ∃ rows', execute_jobs (.ok (some document)) batch_size database ns fuel jobs rows = .ok (some rows') ∧
      (jobs = [] ∧ rows' = rows ∨ jobs ≠ [] ∧
        Filled (todo.flatMap (entriesOf (of_namespace database ns) entity_type document.entity)) rows rows') := by
  induction jobs generalizing rows with
  | nil => exact ⟨rows, rfl, .inl ⟨rfl, rfl⟩⟩
  | cons job_type _ ih =>
    obtain rfl := hjobs _ mem_cons_self
    have hjob : execute_job (.ok (some document)) batch_size fuel ⟨database, ns, job_type, none, 0⟩ rows =
        .ok (some (filled ⟨database, ns, job_type, none, 0⟩ document.entity todo rows)) :=
      execute_job_eq hbatch hdata hnodes hfuel
    have hfilled := filled_foldl
      (todo.flatMap (entriesOf (of_namespace database ns) job_type.entity_type document.entity)) rows
    have hdata' : dataRows (of_namespace database ns) job_type.entity_type
        (filled ⟨database, ns, job_type, none, 0⟩ document.entity todo rows) = todo := by
      rw [← hdata]
      refine OrdMap.range_congr fun k hlow hhigh => ?_
      obtain ⟨rest, rfl, _⟩ := mem_range_iff.mp ⟨hlow, hhigh⟩
      rw [range_start_eq, data_key_eq, append_assoc, hdata]
      exact hfilled.get_dataRow hnodes
    obtain ⟨rows', hrun, hrows'⟩ := ih (fun _ h => hjobs _ (mem_cons_of_mem _ h)) hdata'
    refine ⟨rows', ?_, .inr ⟨by simp, ?_⟩⟩
    · rw [execute_jobs, hjob]
      exact hrun
    · obtain ⟨_, rfl⟩ | ⟨_, hlater⟩ := hrows'
      · exact hfilled
      · exact hfilled.trans hlater

end Run

end BackfillJob

end job_executor

end pelago_storage
