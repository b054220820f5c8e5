import Pelago.Storage.IndexBackfill

open bytes kv pelago_core pelago_core.encoding
open pelago_storage.index List kv.OrdMap

namespace pelago_storage.job_executor.BackfillJob

/-- The job with the progress that its record holds. -/
def resumed (job : BackfillJob) (cursor : Option Bytes) (processed_items : Nat) : BackfillJob :=
  { job with progress_cursor := cursor, processed_items := processed_items }

/-- Runs of a job, with the cursors it has had. After a crash it goes on from one of them that
`resumes` admits. -/
inductive Run (resumes : Option Bytes → Option Bytes → Prop) (document : SchemaDocument) (batch_size : Nat)
    (job : BackfillJob) (rows : OrdMap Bytes Cell) :
    List (Option Bytes) → Option Bytes → Nat → OrdMap Bytes Cell → Prop where
  | start : Run resumes document batch_size job rows [none] none 0 rows
  | batch {seen cursor n rows' job' rows'' more} : Run resumes document batch_size job rows seen cursor n rows' →
    execute_batch (.ok (some document)) batch_size (job.resumed cursor n) rows' = .ok (job', rows'', more) →
    Run resumes document batch_size job rows (job'.progress_cursor :: seen) job'.progress_cursor
      job'.processed_items rows''
  | crash {seen cursor n rows'} {cursor' : Option Bytes} (n' : Nat) :
    Run resumes document batch_size job rows seen cursor n rows' → cursor' ∈ seen → resumes cursor cursor' →
    Run resumes document batch_size job rows seen cursor' n' rows'

/-- Where the next batch starts. -/
def position (job : BackfillJob) (cursor : Option Bytes) : Bytes := cursor.getD job.range_start

/-- The second cursor is not ahead of the first. -/
def NotAhead (job : BackfillJob) (cursor cursor' : Option Bytes) : Prop := job.position cursor' ≤ job.position cursor

/-- A node of the type has an entry at a key. -/
def EntryAt (job : BackfillJob) (schema : EntitySchema) (rows : OrdMap Bytes Cell) (k : Bytes) (id : NodeId)
    (entry : IndexEntry) : Prop :=
  ∃ d entries, rows.get (node.data_key job.subspace.data job.entity_type id.to_bytes) = some (.node d) ∧
    compute_index_entries job.subspace job.entity_type id.to_bytes schema d.properties = .ok entries ∧
    entry ∈ entries ∧ entry.key = k

/-- What the job is for: the entries of all nodes are added. A row of several nodes is that
of the greatest. -/
def Backfilled (job : BackfillJob) (schema : EntitySchema) (rows final : OrdMap Bytes Cell) : Prop :=
  ∀ k, (∃ id entry, job.EntryAt schema rows k id entry ∧ final.get k = some entry.cell ∧
      ∀ id' entry', job.EntryAt schema rows k id' entry' →
        node.data_key job.subspace.data job.entity_type id'.to_bytes ≤
          node.data_key job.subspace.data job.entity_type id.to_bytes) ∨
    final.get k = rows.get k ∧ ∀ id entry, ¬ job.EntryAt schema rows k id entry

section Writes

variable {job : BackfillJob} {schema : EntitySchema} {origin rows : OrdMap Bytes Cell} {k : Bytes}
  {chunk : List (Bytes × Cell)}

/-- A row of the scan has an entry at a key. -/
def HasEntry (job : BackfillJob) (schema : EntitySchema) (row : Bytes × Cell) (k : Bytes) : Prop :=
  ∃ entry ∈ entriesOf job.subspace job.entity_type schema row, entry.key = k

/-- The last row of a batch with an entry at a key decides what is written there. -/
theorem get_filled (job : BackfillJob) (schema : EntitySchema) (rows : OrdMap Bytes Cell) (k : Bytes)
    (hsorted : chunk.Pairwise fun a b => a.1 < b.1) :
    (∃ row ∈ chunk, (∃ entry ∈ entriesOf job.subspace job.entity_type schema row, entry.key = k ∧
        (job.filled schema chunk rows).get k = some entry.cell) ∧
      ∀ row' ∈ chunk, job.HasEntry schema row' k → row'.1 ≤ row.1) ∨
    (job.filled schema chunk rows).get k = rows.get k ∧ ∀ row ∈ chunk, ¬ job.HasEntry schema row k := by
  induction chunk generalizing rows with
  | nil => exact .inr ⟨rfl, fun _ h => absurd h not_mem_nil⟩
  | cons row chunk ih =>
    obtain ⟨hfirst, hrest⟩ := pairwise_cons.mp hsorted
    have hsplit : job.filled schema (row :: chunk) rows = job.filled schema chunk (job.filled schema [row] rows) :=
      filled_append _ [row] _
    rw [hsplit]
    obtain ⟨last, hlast, hentry, hmax⟩ | ⟨hget, hnone⟩ := ih _ hrest
    · refine .inl ⟨last, mem_cons_of_mem _ hlast, hentry, fun row' hrow' hhas => ?_⟩
      obtain rfl | hrow' := mem_cons.mp hrow'
      · exact (hfirst _ hlast).le
      · exact hmax _ hrow' hhas
    · have hfilled : Filled (entriesOf job.subspace job.entity_type schema row) rows (job.filled schema [row] rows) := by
        simpa [filled] using filled_foldl _ _
      rw [hget]
      by_cases hhas : job.HasEntry schema row k
      · obtain ⟨entry, hentry, rfl⟩ := hhas
        obtain ⟨entry', hentry', hkey, hwritten⟩ := hfilled.written _ hentry
        refine .inl ⟨row, mem_cons_self, ⟨entry', hentry', hkey, hwritten⟩, fun row' hrow' hhas => ?_⟩
        obtain rfl | hrow' := mem_cons.mp hrow'
        · exact le_rfl
        · exact absurd hhas (hnone _ hrow')
      · refine .inr ⟨hfilled.kept k fun entry hentry hkey => hhas ⟨entry, hentry, hkey⟩, fun row' hrow' => ?_⟩
        obtain rfl | hrow' := mem_cons.mp hrow'
        · exact hhas
        · exact hnone _ hrow'

/-- The rows when the scan has passed some keys. An entry is that of a row that no passed
row with an entry at its key is behind. -/
def Passed (job : BackfillJob) (schema : EntitySchema) (all : List (Bytes × Cell)) (origin rows : OrdMap Bytes Cell)
    (passed : Bytes → Prop) : Prop :=
  ∀ k, (∃ row ∈ all, (∃ entry ∈ entriesOf job.subspace job.entity_type schema row, entry.key = k ∧
        rows.get k = some entry.cell) ∧
      ∀ row' ∈ all, passed row'.1 → job.HasEntry schema row' k → row'.1 ≤ row.1) ∨
    rows.get k = origin.get k ∧ ∀ row ∈ all, passed row.1 → ¬ job.HasEntry schema row k

theorem Passed.mono {all : List (Bytes × Cell)} {passed passed' : Bytes → Prop}
    (h : job.Passed schema all origin rows passed) (hle : ∀ key, passed' key → passed key) :
    job.Passed schema all origin rows passed' := by
  intro k
  obtain ⟨row, hrow, hentry, hmax⟩ | ⟨hget, hnone⟩ := h k
  · exact .inl ⟨row, hrow, hentry, fun row' hrow' hpassed => hmax _ hrow' (hle _ hpassed)⟩
  · exact .inr ⟨hget, fun row hrow hpassed => hnone _ hrow (hle _ hpassed)⟩

/-- A batch moves the scan on. -/
theorem Passed.step {all : List (Bytes × Cell)} {passed passed' : Bytes → Prop}
    (h : job.Passed schema all origin rows passed) (hsorted : chunk.Pairwise fun a b => a.1 < b.1)
    (hchunk : ∀ row ∈ chunk, row ∈ all) (hbehind : ∀ row ∈ all, passed row.1 → ∀ row' ∈ chunk, row.1 ≤ row'.1)
    (hpassed : ∀ row ∈ all, passed' row.1 → passed row.1 ∨ row ∈ chunk) :
    job.Passed schema all origin (job.filled schema chunk rows) passed' := by
  intro k
  obtain ⟨row, hrow, hentry, hmax⟩ | ⟨hget, hnone⟩ := get_filled _ _ _ k hsorted
  · refine .inl ⟨row, hchunk _ hrow, hentry, fun row' hrow' hpassed' hhas => ?_⟩
    obtain hold | hnew := hpassed _ hrow' hpassed'
    · exact hbehind _ hrow' hold _ hrow
    · exact hmax _ hnew hhas
  · rw [hget]
    obtain ⟨row, hrow, hentry, hmax⟩ | ⟨hsame, hnone'⟩ := h k
    · refine .inl ⟨row, hrow, hentry, fun row' hrow' hpassed' hhas => ?_⟩
      obtain hold | hnew := hpassed _ hrow' hpassed'
      · exact hmax _ hrow' hold hhas
      · exact absurd hhas (hnone _ hnew)
    · refine .inr ⟨hsame, fun row hrow hpassed' => ?_⟩
      obtain hold | hnew := hpassed _ hrow hpassed'
      · exact hnone' _ hrow hold
      · exact hnone _ hnew

end Writes

section Run

variable {job : BackfillJob} {document : SchemaDocument} {batch_size n : Nat} {origin rows : OrdMap Bytes Cell}
  {seen : List (Option Bytes)} {cursor : Option Bytes} {schema : EntitySchema}

/-- The rows from a cursor on. -/
def remaining (job : BackfillJob) (cursor : Option Bytes) (rows : OrdMap Bytes Cell) : List (Bytes × Cell) :=
  rows.range (job.position cursor) (job.range_start ++ [0xFF])

theorem execute_batch_eq {batch : List (Bytes × Cell)} (hbatch : (job.remaining cursor rows).take batch_size = batch)
    (hnodes : NodeRows job.subspace job.entity_type batch) :
    execute_batch (.ok (some document)) batch_size (job.resumed cursor n) rows =
      if batch = [] then .ok (job.resumed cursor n, rows, false)
      else .ok ((job.resumed cursor n).advance batch batch.length, job.filled document.entity batch rows,
        decide (batch_size ≤ batch.length)) := by
  have hscan : (job.resumed cursor n).scan batch_size rows = batch := hbatch
  have hfold : batch.foldlM ((job.resumed cursor n).fill document.entity) (rows, 0) =
      .ok (job.filled document.entity batch rows, 0 + batch.length) := foldlM_fill _ hnodes _
  rw [execute_batch, hscan]
  by_cases hempty : batch = []
  · simp [hempty, pure, Except.pure]
  · have hsome : batch.isEmpty = false := by simpa using hempty
    simp only [hsome, hempty, Bool.false_eq_true, if_false, bind, Except.bind, pure, Except.pure] at hfold ⊢
    rw [hfold]
    simp

/-- The state of a run. -/
structure Reached (schema : EntitySchema) (job : BackfillJob) (origin : OrdMap Bytes Cell) (seen : List (Option Bytes))
    (cursor : Option Bytes) (rows : OrdMap Bytes Cell) : Prop where
  data : ∀ k, job.range_start ≤ k → k < job.range_start ++ [0xFF] → rows.get k = origin.get k
  low : ∀ cursor ∈ seen, job.range_start ≤ job.position cursor
  current : cursor ∈ seen
  passed : job.Passed schema (dataRows job.subspace job.entity_type origin) origin rows (· < job.position cursor)

section

variable (h : Reached schema job origin seen cursor rows)
include h

/-- What is left to scan is what is left of the beginning. -/
theorem Reached.remaining_eq : job.remaining cursor rows = job.remaining cursor origin :=
  range_congr fun k hle hlt => h.data k ((h.low _ h.current).trans hle) hlt

theorem Reached.remaining_subset {row : Bytes × Cell}
    (hrow : row ∈ job.remaining cursor rows) : row ∈ dataRows job.subspace job.entity_type origin := by
  rw [h.remaining_eq] at hrow
  obtain ⟨hmem, hle, hlt⟩ := origin.mem_range.mp hrow
  exact origin.mem_range.mpr ⟨hmem, (h.low _ h.current).trans hle, hlt⟩

/-- The rows when a part of what is left has been written. -/
theorem Reached.passed_filled {n : Nat} {passed : Bytes → Prop}
    (hpassed : ∀ row ∈ job.remaining cursor rows, passed row.1 → row ∈ (job.remaining cursor rows).take n) :
    job.Passed schema (dataRows job.subspace job.entity_type origin) origin
      (job.filled schema ((job.remaining cursor rows).take n) rows) passed := by
  refine h.passed.step ((range_sorted ..).sublist (take_sublist ..))
    (fun _ hrow => h.remaining_subset (mem_of_mem_take hrow)) ?_ ?_
  · intro _ _ hbefore _ hrow'
    exact hbefore.le.trans ((mem_range _).mp (mem_of_mem_take hrow')).2.1
  · intro row hrow hpast
    by_cases hbefore : row.1 < job.position cursor
    · exact .inl hbefore
    · refine .inr (hpassed _ ?_ hpast)
      rw [h.remaining_eq]
      obtain ⟨hmem, _, hlt⟩ := origin.mem_range.mp hrow
      exact origin.mem_range.mpr ⟨hmem, not_lt.mp hbefore, hlt⟩

end

/-- Writing entries does not touch the rows of the scan. -/
theorem get_filled_data {todo : List (Bytes × Cell)} (hnodes : NodeRows job.subspace job.entity_type todo) {k : Bytes}
    (hle : job.range_start ≤ k) (hlt : k < job.range_start ++ [0xFF]) :
    (job.filled schema todo rows).get k = rows.get k := by
  obtain ⟨rest, rfl, _⟩ := mem_range_iff.mp ⟨hle, hlt⟩
  rw [range_start, range_start_eq, data_key_eq, append_assoc]
  exact (filled_foldl _ _).get_dataRow hnodes

/-- The invariant of runs. -/
theorem Run.reached (hrun : Run job.NotAhead document batch_size job origin seen cursor n rows)
    (hnodes : NodeRows job.subspace job.entity_type (dataRows job.subspace job.entity_type origin)) :
    Reached document.entity job origin seen cursor rows := by
  induction hrun with
  | start =>
    refine ⟨fun _ _ _ => rfl, ?_, mem_singleton.mpr rfl, fun k => .inr ⟨rfl, ?_⟩⟩
    · intro _ hcursor
      obtain rfl := mem_singleton.mp hcursor
      exact le_rfl
    · intro _ hrow hbefore
      exact absurd (origin.mem_range.mp hrow).2.1 (not_le.mpr hbefore)
  | @batch _ cursor n rows job' rows'' more _ hbatch ih =>
    generalize hchunk : (job.remaining cursor rows).take batch_size = chunk at hbatch
    have hsub : ∀ row ∈ chunk, row ∈ job.remaining cursor rows := fun _ hrow => mem_of_mem_take (hchunk ▸ hrow)
    have hrecords : NodeRows job.subspace job.entity_type chunk :=
      fun row hrow => hnodes _ (ih.remaining_subset (hsub _ hrow))
    rw [execute_batch_eq hchunk hrecords] at hbatch
    by_cases hempty : chunk = []
    · rw [if_pos hempty] at hbatch
      obtain ⟨rfl, rfl, _⟩ : job.resumed cursor n = job' ∧ rows = rows'' ∧ false = more := by simpa using hbatch
      refine ⟨ih.data, ?_, mem_cons_self, ih.passed⟩
      exact forall_mem_cons.mpr ⟨ih.low _ ih.current, ih.low⟩
    · rw [if_neg hempty] at hbatch
      obtain ⟨rfl, rfl, _⟩ : (job.resumed cursor n).advance chunk chunk.length = job' ∧
          job.filled document.entity chunk rows = rows'' ∧ _ = more := by simpa using hbatch
      obtain ⟨last, hlast⟩ : ∃ last, chunk.getLast? = some last := ⟨_, getLast?_eq_some_getLast hempty⟩
      have hcursor : ((job.resumed cursor n).advance chunk chunk.length).progress_cursor = some (last.1 ++ [0x00]) := by
        rw [advance, hlast]
      have hmem := mem_of_getLast? hlast
      rw [hcursor]
      refine ⟨fun k hle hlt => (get_filled_data hrecords hle hlt).trans (ih.data k hle hlt), ?_, mem_cons_self, ?_⟩
      · have hlow := ((mem_range _).mp (hsub _ hmem)).2.1
        exact forall_mem_cons.mpr ⟨((ih.low _ ih.current).trans hlow).trans (le_append ..), ih.low⟩
      · rw [← hchunk]
        refine ih.passed_filled fun _ hrow hpast => ?_
        rw [position, Option.getD_some, ← not_le, append_zero_le_iff, not_lt] at hpast
        exact mem_take_of_le (range_sorted ..) (hchunk ▸ hmem) hrow hpast
  | crash _ _ hcursor hahead ih =>
    exact ⟨ih.data, ih.low, hcursor, ih.passed.mono fun _ hkey => lt_of_lt_of_le hkey hahead⟩

/-- A job that has passed all rows is done. -/
theorem Passed.backfilled {final : OrdMap Bytes Cell}
    (h : job.Passed schema (dataRows job.subspace job.entity_type origin) origin final fun _ => True)
    (hnodes : NodeRows job.subspace job.entity_type (dataRows job.subspace job.entity_type origin))
    (hsites : ∀ (id : NodeId) (cell : Cell), origin.get (node.data_key job.subspace.data job.entity_type id.to_bytes) = some cell →
      id.site ≠ 0xFF) : job.Backfilled schema origin final := by
  have hentries : ∀ id d entry, entry ∈ entriesOf job.subspace job.entity_type schema
      (recordRow job.subspace job.entity_type id d) ↔ ∃ entries,
        compute_index_entries job.subspace job.entity_type id.to_bytes schema d.properties = .ok entries ∧
          entry ∈ entries := by
    intro _ d _
    obtain ⟨entries, hentries, hmem⟩ :=
      compute_index_entries_ok ..
    rw [mem_entriesOf, ← hmem]
    simp [hentries]
  have hrow : ∀ k id entry, job.EntryAt schema origin k id entry →
      ∃ row ∈ dataRows job.subspace job.entity_type origin,
        row.1 = node.data_key job.subspace.data job.entity_type id.to_bytes ∧ job.HasEntry schema row k := by
    rintro k id entry ⟨d, entries, hget, hok, hentry, hkey⟩
    exact ⟨_, mem_dataRows.mpr ⟨hget, hsites id _ hget⟩, rfl, entry, (hentries id d _).mpr ⟨entries, hok, hentry⟩,
      hkey⟩
  intro k
  obtain ⟨row, hmem, ⟨entry, hentry, hkey, hget⟩, hmax⟩ | ⟨hget, hnone⟩ := h k
  · obtain ⟨id, d, rfl⟩ := hnodes _ hmem
    obtain ⟨entries, hok, hentry⟩ := (hentries id d _).mp hentry
    refine .inl ⟨id, entry, ⟨d, entries, (mem_dataRows.mp hmem).1, hok, hentry, hkey⟩, hget, fun id' _ h' => ?_⟩
    obtain ⟨row', hmem', hkey', hhas⟩ := hrow k _ _ h'
    rw [← hkey']
    exact hmax _ hmem' trivial hhas
  · refine .inr ⟨hget, fun id _ h' => ?_⟩
    obtain ⟨row, hmem, _, hhas⟩ := hrow k id _ h'
    exact hnone _ hmem trivial hhas

/-- What the job is for leaves no choice. -/
theorem Backfilled.unique {final final' : OrdMap Bytes Cell}
    (h : job.Backfilled schema origin final) (h' : job.Backfilled schema origin final') : final = final' := by
  refine ext_get fun k => ?_
  obtain ⟨id, _, hat, hget, hmax⟩ | ⟨hget, hnone⟩ := h k
  · obtain ⟨id', _, hat', hget', hmax'⟩ | ⟨_, hnone'⟩ := h' k
    · have hkeys := le_antisymm (hmax' id _ hat) (hmax _ _ hat')
      rw [data_key_eq, data_key_eq] at hkeys
      obtain rfl := NodeId.to_bytes_inj (append_cancel_left (append_cancel_left hkeys))
      obtain ⟨d, entries, hd, hok, hentry, rfl⟩ := hat
      obtain ⟨d', entries', hd', hok', hentry', hkey⟩ := hat'
      obtain rfl : d = d' := by simpa [hd] using hd'
      obtain rfl : entries = entries' := by simpa [hok] using hok'
      obtain ⟨_, hok'', hmem⟩ := compute_index_entries_ok job.subspace job.entity_type id.to_bytes schema d.properties
      obtain rfl : entries = _ := by simpa [hok] using hok''
      obtain ⟨property, _, value, hindexed, rfl⟩ := (hmem _).mp hentry
      obtain ⟨property', _, value', hindexed', rfl⟩ := (hmem _).mp hentry'
      obtain ⟨rfl, rfl, _⟩ := entryFor_key_eq hindexed'.indexed hindexed.indexed hkey
      obtain rfl : value = value' := by simpa [hindexed.held] using hindexed'.held
      rw [hget, hget']
    · exact absurd hat (hnone' id _)
  · obtain ⟨id', _, hat', _⟩ | ⟨hget', _⟩ := h' k
    · exact absurd hat' (hnone _ _)
    · rw [hget, hget']

theorem Reached.completes (h : Reached document.entity job origin seen cursor rows) (hbatch : 0 < batch_size) (n : Nat)
    (hnodes : NodeRows job.subspace job.entity_type (dataRows job.subspace job.entity_type origin)) :
    ∃ fuel final, execute_job (.ok (some document)) batch_size fuel (job.resumed cursor n) rows = .ok (some final) ∧
      job.Passed document.entity (dataRows job.subspace job.entity_type origin) origin final fun _ => True := by
  have hpassed : job.Passed document.entity (dataRows job.subspace job.entity_type origin) origin
      (job.filled document.entity ((job.remaining cursor rows).take (job.remaining cursor rows).length) rows)
      fun _ => True := h.passed_filled fun _ _ _ => by rwa [take_length]
  rw [take_length] at hpassed
  have hrecords : NodeRows job.subspace job.entity_type (job.remaining cursor rows) :=
    fun row hrow => hnodes _ (h.remaining_subset hrow)
  exact ⟨_, _, execute_job_eq hbatch rfl hrecords (Nat.lt_succ_self _), hpassed⟩

end Run

/-- The backfill is complete, and safe under crashes after which the job does not go on ahead of
where it was: whatever the batch size and the crashes, it ends with one and the same store. -/
theorem backfill_restarted {job : BackfillJob} {document : SchemaDocument} {rows : OrdMap Bytes Cell}
    (hnodes : NodeRows job.subspace job.entity_type (dataRows job.subspace job.entity_type rows))
    (hsites : ∀ (id : NodeId) (cell : Cell),
      rows.get (node.data_key job.subspace.data job.entity_type id.to_bytes) = some cell → id.site ≠ 0xFF) :
    ∃ final, job.Backfilled document.entity rows final ∧ ∀ batch_size seen cursor n rows', 0 < batch_size →
      Run job.NotAhead document batch_size job rows seen cursor n rows' →
        ∃ fuel, execute_job (.ok (some document)) batch_size fuel (job.resumed cursor n) rows' = .ok (some final) := by
  have hstart := (@Run.start job.NotAhead document 1 job rows).reached hnodes
  obtain ⟨_, final, _, hfinal⟩ := hstart.completes one_pos 0 hnodes
  refine ⟨final, hfinal.backfilled hnodes hsites, fun batch_size seen cursor n rows' hbatch hrun => ?_⟩
  obtain ⟨fuel, _, hjob, hfinal'⟩ := (hrun.reached hnodes).completes hbatch n hnodes
  obtain rfl := (hfinal.backfilled hnodes hsites).unique (hfinal'.backfilled hnodes hsites)
  exact ⟨fuel, hjob⟩

private def mails : BackfillJob := ⟨"db", "ns", ⟨"User", "mail", .unique⟩, none, 0⟩

private def mailSchema : SchemaDocument := ⟨"User", 1, .ofList [("mail", ⟨.string, false, .unique, none⟩)], .empty, {}, 0, ""⟩

private def mailData : NodeData := ⟨.ofList [("mail", .string "a")], 1, 0, 0⟩

/-- Two nodes with one and the same value. -/
private def sharedMail : OrdMap Bytes Cell :=
  .ofList [recordRow mails.subspace "User" ⟨1, 1⟩ mailData, recordRow mails.subspace "User" ⟨1, 2⟩ mailData]

private theorem mem_sharedMail {row : Bytes × Cell} (h : row ∈ sharedMail.rows) :
    ∃ id, (id = ⟨1, 1⟩ ∨ id = ⟨1, 2⟩) ∧ row = recordRow mails.subspace "User" id mailData := by
  have hrows : sharedMail.rows =
      [recordRow mails.subspace "User" ⟨1, 1⟩ mailData, recordRow mails.subspace "User" ⟨1, 2⟩ mailData] := rfl
  rw [hrows] at h
  simpa using h

theorem backfill_restarted_shared : ∃ final, mails.Backfilled mailSchema.entity sharedMail final ∧
    ∀ batch_size seen cursor n rows', 0 < batch_size →
      Run mails.NotAhead mailSchema batch_size mails sharedMail seen cursor n rows' →
        ∃ fuel, execute_job (.ok (some mailSchema)) batch_size fuel (mails.resumed cursor n) rows' =
          .ok (some final) := by
  refine backfill_restarted (fun row hrow => ?_) (fun id cell hget => ?_)
  · obtain ⟨id, _, rfl⟩ := mem_sharedMail (sharedMail.mem_range.mp hrow).1
    exact ⟨id, mailData, rfl⟩
  · obtain ⟨id', hid, hrow⟩ := mem_sharedMail (sharedMail.get_eq_some_iff_mem.mp hget)
    obtain rfl := NodeId.to_bytes_inj (data_key_inj (congrArg Prod.fst hrow))
    obtain rfl | rfl := hid <;> decide

/-- The row of the shared value. -/
private def sharedKey : Bytes := (entryFor mails.subspace "User" (NodeId.to_bytes ⟨1, 1⟩) "mail" .unique (.string "a")).key

/-- When the job starts again after its second batch, and then goes on from where it was before, the
shared row names the smaller node. -/
theorem resumed_ahead : ∃ seen cursor n rows' final,
    Run (fun _ _ => True) mailSchema 1 mails sharedMail seen cursor n rows' ∧
    execute_job (.ok (some mailSchema)) 1 1 (mails.resumed cursor n) rows' = .ok (some final) ∧
    final.get sharedKey = some (.raw (NodeId.to_bytes ⟨1, 1⟩)) ∧
    ¬ mails.Backfilled mailSchema.entity sharedMail final := by
  refine ⟨_, _, _, _, _, .crash 0 (.batch (.crash 0 (.batch (.batch .start rfl) rfl)
    (mem_cons_of_mem _ (mem_cons_of_mem _ mem_cons_self)) trivial) rfl)
    (mem_cons_of_mem _ mem_cons_self) trivial, rfl, rfl, fun h => ?_⟩
  have hgreater : mails.EntryAt mailSchema.entity sharedMail sharedKey ⟨1, 2⟩
      (entryFor mails.subspace "User" (NodeId.to_bytes ⟨1, 2⟩) "mail" .unique (.string "a")) :=
    ⟨mailData, _, rfl, rfl, mem_singleton.mpr rfl, rfl⟩
  obtain ⟨id, entry, ⟨d, entries, _, hok, hentry, hkey⟩, hget, hmax⟩ | ⟨_, hnone⟩ := h sharedKey
  · obtain ⟨_, hok', hmem⟩ :=
      compute_index_entries_ok mails.subspace mails.entity_type id.to_bytes mailSchema.entity d.properties
    obtain rfl : entries = _ := by simpa [hok] using hok'
    obtain ⟨property, _, _, hindexed, rfl⟩ := (hmem _).mp hentry
    obtain ⟨rfl, rfl, _⟩ := entryFor_key_eq hindexed.indexed (by decide) hkey
    obtain rfl : ⟨1, 1⟩ = id := NodeId.to_bytes_inj (Cell.raw.inj (Option.some.inj hget))
    exact absurd (hmax _ _ hgreater) (by decide +kernel)
  · exact hnone _ _ hgreater

end pelago_storage.job_executor.BackfillJob
