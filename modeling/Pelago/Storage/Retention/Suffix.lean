import Pelago.Storage.Retention
import Mathlib.Data.List.Pairwise

open bytes kv pelago_core

namespace pelago_storage.job_executor

open cdc

abbrev LogRow := Versionstamp × CdcEntry

/-- Whether a batch deletes the entry at its place: it lies below the cutoff and
is old enough. -/
def Round.expired (r : Round) (job : RetentionJob) (i : Nat) (row : LogRow) : Bool :=
  !(r.safe_cutoff.any fun cutoff => decide (cutoff ≤ row.1)) && !(job.young (r.now_us i) row.2)

/-- How many entries a batch deletes, counted from its start. -/
def Round.swept (r : Round) (job : RetentionJob) : Nat → List LogRow → Nat
  | _, [] => 0
  | i, row :: rest => if r.expired job i row then r.swept job (i + 1) rest + 1 else 0

theorem get_clearAll (rows : OrdMap Bytes Cell) (keys : List Bytes) (k : Bytes) :
    (clearAll rows keys).get k = if k ∈ keys then none else rows.get k := by
  have hget := OrdMap.get_foldl_clear keys id rows k
  simpa [clearAll] using hget

section Sweep

variable {job : RetentionJob} {r : Round}

theorem sweep_cons (row : LogRow) (rest : List LogRow) (i : Nat) :
    (job.sweep r.safe_cutoff r.now_us i ((row :: rest).map (logRow job.database job.ns))).1 =
      if r.safe_cutoff.any fun cutoff => decide (cutoff ≤ row.1) then
        (job.sweep r.safe_cutoff r.now_us (i + 1) (rest.map (logRow job.database job.ns))).1
      else if job.young (r.now_us i) row.2 then [] else entry_key job.database job.ns row.1 ::
        (job.sweep r.safe_cutoff r.now_us (i + 1) (rest.map (logRow job.database job.ns))).1 := by
  rw [List.map_cons, logRow, RetentionJob.sweep, entry_key, RetentionJob.subspace, from_bytes_drop]
  dsimp only
  split
  · rfl
  · rw [decode_cbor_entry]
    dsimp only
    split <;> rfl

/-- Nothing behind the cutoff is deleted. -/
private theorem sweep_of_cutoff {chunk : List LogRow}
    (hchunk : ∀ row ∈ chunk, (r.safe_cutoff.any fun cutoff => decide (cutoff ≤ row.1)) = true) (i : Nat) :
    (job.sweep r.safe_cutoff r.now_us i (chunk.map (logRow job.database job.ns))).1 = [] := by
  induction chunk generalizing i with
  | nil => rfl
  | cons row _ ih =>
    rw [sweep_cons, if_pos (hchunk _ List.mem_cons_self)]
    exact ih (fun row' hrow' => hchunk _ (List.mem_cons_of_mem _ hrow')) _

/-- A batch deletes its first entries, as long as they have expired. -/
theorem sweep_eq (job : RetentionJob) (r : Round) {chunk : List LogRow}
    (hsorted : chunk.Pairwise fun a b => a.1 < b.1) (i : Nat) :
    (job.sweep r.safe_cutoff r.now_us i (chunk.map (logRow job.database job.ns))).1 =
      (chunk.take (r.swept job i chunk)).map fun row => entry_key job.database job.ns row.1 := by
  induction chunk generalizing i with
  | nil => rfl
  | cons row _ ih =>
    obtain ⟨hhead, hrest⟩ := List.pairwise_cons.mp hsorted
    rw [sweep_cons, Round.swept, Round.expired]
    cases hcutoff : r.safe_cutoff.any fun cutoff => decide (cutoff ≤ row.1) with
    | true =>
      -- the entries behind this one are passed over too
      rw [sweep_of_cutoff fun row' hrow' => ?_]
      · rfl
      · cases hsome : r.safe_cutoff with
        | none => simp [hsome] at hcutoff
        | some =>
          rw [hsome, Option.any_some, decide_eq_true_eq] at hcutoff
          simpa using hcutoff.trans (hhead _ hrow').le
    | false =>
      cases hyoung : job.young (r.now_us i) row.2 with
      | true => rfl
      | false =>
        rw [ih hrest]
        rfl

theorem swept_le (i : Nat) (chunk : List LogRow) : r.swept job i chunk ≤ chunk.length := by
  induction chunk generalizing i with
  | nil => exact le_refl _
  | cons _ _ ih =>
    rw [Round.swept]
    split
    · exact Nat.succ_le_succ (ih _)
    · exact Nat.zero_le _

/-- What a batch deletes are entries of it that have expired. -/
theorem mem_sweep {chunk : List LogRow} {i : Nat} {k : Bytes}
    (hk : k ∈ (job.sweep r.safe_cutoff r.now_us i (chunk.map (logRow job.database job.ns))).1) :
    ∃ j row, chunk[j]? = some row ∧ k = entry_key job.database job.ns row.1 ∧ r.expired job (i + j) row = true := by
  induction chunk generalizing i with
  | nil => simp [RetentionJob.sweep] at hk
  | cons row rest ih =>
    have hlater : k ∈ (job.sweep r.safe_cutoff r.now_us (i + 1) (rest.map (logRow job.database job.ns))).1 →
        ∃ j row', (row :: rest)[j]? = some row' ∧ k = entry_key job.database job.ns row'.1 ∧
          r.expired job (i + j) row' = true := by
      intro hk
      obtain ⟨j, row', hget, hkey, hexpired⟩ := ih hk
      exact ⟨j + 1, row', hget, hkey, by rwa [← add_assoc, add_right_comm]⟩
    rw [sweep_cons] at hk
    split_ifs at hk with hcutoff hyoung
    · exact hlater hk
    · cases hk
    · obtain rfl | hk := List.mem_cons.mp hk
      · exact ⟨0, row, rfl, rfl, by simp [Round.expired, hcutoff, hyoung]⟩
      · exact hlater hk

/-- Rows that are all entries of the log are a piece of it. -/
theorem exists_chunk {database ns : String} {p : LogRow → Prop} {results : List (Bytes × Cell)}
    (h : ∀ result ∈ results, ∃ row, result = logRow database ns row ∧ p row) :
    ∃ chunk : List LogRow, results = chunk.map (logRow database ns) ∧ ∀ row ∈ chunk, p row := by
  induction results with
  | nil => exact ⟨[], rfl, by simp⟩
  | cons result _ ih =>
    obtain ⟨row, rfl, hrow⟩ := h _ List.mem_cons_self
    obtain ⟨chunk, rfl, hchunk⟩ := ih fun _ hresult' => h _ (List.mem_cons_of_mem _ hresult')
    exact ⟨row :: chunk, rfl, List.forall_mem_cons.mpr ⟨hrow, hchunk⟩⟩

end Sweep

open List kv.OrdMap

/-- The log in batches: each with what it finds, until the first short one. -/
def batches : List Round → List LogRow → List (Round × List LogRow)
  | [], _ => []
  | r :: rounds, todo =>
    let chunk := todo.take r.batch_size
    if chunk.isEmpty then []
    else if r.batch_size ≤ chunk.length then (r, chunk) :: batches rounds (todo.drop r.batch_size)
    else [(r, chunk)]

/-- The keys that the batches clear. -/
def cleared (job : RetentionJob) (bs : List (Round × List LogRow)) : List Bytes :=
  bs.flatMap fun b => (b.2.take (b.1.swept job 0 b.2)).map fun row => entry_key job.database job.ns row.1

/-- The cursor plays no part in which entries have expired. -/
private theorem cleared_advance (job : RetentionJob) (results : List (Bytes × Cell)) (processed : Nat)
    (bs : List (Round × List LogRow)) : cleared (job.advance results processed) bs = cleared job bs := by
  have hswept (r : Round) (chunk : List LogRow) (i : Nat) :
      r.swept (job.advance results processed) i chunk = r.swept job i chunk := by
    induction chunk generalizing i with
    | nil => rfl
    | cons _ _ ih =>
      rw [Round.swept, ih]
      rfl
  unfold cleared
  simp only [hswept]
  rfl

section Run

variable {job : RetentionJob} {rows : OrdMap Bytes Cell} {todo : List LogRow}

/-- The entries that a job has before it. -/
def Ahead (job : RetentionJob) (rows : OrdMap Bytes Cell) (todo : List LogRow) : Prop :=
  rows.range (job.progress_cursor.getD job.subspace.pfx) job.subspace.range_end =
    todo.map (logRow job.database job.ns)

section

variable (h : Ahead job rows todo)
include h

theorem Ahead.sorted : todo.Pairwise fun a b => a.1 < b.1 := by
  have hsorted := rows.range_sorted (job.progress_cursor.getD job.subspace.pfx) job.subspace.range_end
  rw [h, pairwise_map] at hsorted
  exact hsorted.imp fun {a b} hab => append_lt_append_iff.mp hab

theorem Ahead.scan_eq (batch_size : Nat) :
    job.scan batch_size rows = (todo.take batch_size).map (logRow job.database job.ns) := by
  rw [RetentionJob.scan, h, map_take]

/-- A batch moves the cursor past what it has read. -/
theorem Ahead.step (r : Round) (processed : Nat) (hchunk : todo.take r.batch_size ≠ []) :
    Ahead (job.advance (job.scan r.batch_size rows) processed)
      (clearAll rows (job.sweep r.safe_cutoff r.now_us 0 (job.scan r.batch_size rows)).1) (todo.drop r.batch_size) := by
  have hsorted := h.sorted.take (i := r.batch_size)
  rw [h.scan_eq, sweep_eq _ r hsorted]
  obtain ⟨front, last, hlast⟩ := (eq_nil_or_concat _).resolve_left hchunk
  rw [concat_eq_append] at hlast
  have hbelow : ∀ row ∈ todo.take r.batch_size, row.1 ≤ last.1 := by
    rw [hlast, pairwise_append] at hsorted
    intro row hrow
    rw [hlast] at hrow
    obtain hrow | hrow := mem_append.mp hrow
    · exact (hsorted.2.2 _ hrow _ mem_cons_self).le
    · rw [mem_singleton.mp hrow]
  have hscan : (rows.range (job.progress_cursor.getD job.subspace.pfx) job.subspace.range_end).take r.batch_size =
      front.map (logRow job.database job.ns) ++ [logRow job.database job.ns last] := by
    rw [h, ← map_take, hlast, map_append]
    rfl
  have hcursor : (job.advance ((todo.take r.batch_size).map (logRow job.database job.ns)) processed).progress_cursor =
      some (entry_key job.database job.ns last.1 ++ [0x00]) := by
    rw [hlast, RetentionJob.advance]
    simp [logRow]
  unfold Ahead
  rw [hcursor]
  change (clearAll rows _).range (entry_key job.database job.ns last.1 ++ [0x00]) job.subspace.range_end = _
  have hrows : (clearAll rows ((todo.take r.batch_size).take (r.swept job 0 (todo.take r.batch_size)) |>.map fun row =>
      entry_key job.database job.ns row.1)).range (entry_key job.database job.ns last.1 ++ [0x00])
        job.subspace.range_end =
      rows.range (entry_key job.database job.ns last.1 ++ [0x00]) job.subspace.range_end := by
    refine range_congr fun k hk _ => ?_
    rw [get_clearAll, if_neg]
    intro hmem
    obtain ⟨row, hrow, rfl⟩ := mem_map.mp hmem
    exact absurd (append_zero_le_iff.mp hk)
      (not_lt.mpr (append_le_append_iff.mpr (hbelow _ (mem_of_mem_take hrow))))
  rw [hrows, range_drop (fun _ => append_zero_le_iff) (by rw [hscan, getLast?_concat]; rfl), h,
    map_drop]
  rfl

/-- What a job leaves of every row. -/
theorem get_execute_job (rounds : List Round) (k : Bytes) :
    (execute_job rounds job rows).2.get k = if k ∈ cleared job (batches rounds todo) then none else rows.get k := by
  induction rounds generalizing job rows todo with
  | nil => simp [execute_job, batches, cleared]
  | cons r _ ih =>
    have hscan := h.scan_eq r.batch_size
    have hkeys := sweep_eq job r (h.sorted.take (i := r.batch_size)) 0
    rw [← hscan] at hkeys
    by_cases hempty : todo.take r.batch_size = []
    · have hnone : job.scan r.batch_size rows = [] := by rw [hscan, hempty]; rfl
      simp [execute_job, execute_batch, hnone, batches, hempty, cleared]
    · have hsome : (job.scan r.batch_size rows).isEmpty = false := by
        rw [hscan, isEmpty_map, isEmpty_eq_false_iff]
        exact hempty
      have hlength : (job.scan r.batch_size rows).length = (todo.take r.batch_size).length := by simp [hscan]
      have hchunk : (todo.take r.batch_size).isEmpty = false := by simp [hempty]
      have hclear := get_clearAll rows (job.sweep r.safe_cutoff r.now_us 0 (job.scan r.batch_size rows)).1 k
      by_cases hmore : r.batch_size ≤ (todo.take r.batch_size).length
      · have hstep := ih (h.step r (job.sweep r.safe_cutoff r.now_us 0 (job.scan r.batch_size rows)).2 hempty)
        simp only [execute_job, execute_batch, hsome, Bool.false_eq_true, if_false, hlength, hmore, decide_true]
        rw [hstep, hclear, batches]
        simp only [hchunk, Bool.false_eq_true, if_false, hmore, if_true]
        rw [cleared_advance, hkeys, cleared, cleared, flatMap_cons]
        simp only [mem_append]
        split_ifs <;> first | rfl | tauto
      · simp only [execute_job, execute_batch, hsome, Bool.false_eq_true, if_false, hlength, hmore, decide_false]
        rw [hclear, batches]
        simp only [hchunk, Bool.false_eq_true, if_false, hmore]
        rw [hkeys]
        simp [cleared]

end

/-- The batches cover the log from its start. -/
theorem flatMap_batches (rounds : List Round) (todo : List LogRow) :
    (batches rounds todo).flatMap Prod.snd <+: todo := by
  induction rounds generalizing todo with
  | nil => exact nil_prefix
  | cons r _ ih =>
    rw [batches]
    split_ifs
    · exact nil_prefix
    · nth_rewrite 3 [← take_append_drop _ todo]
      exact (prefix_append_right_inj _).mpr (ih _)
    · simpa using take_prefix ..

end Run

/-- Some entry of the batch has not expired when the batch comes to it. -/
def KeepsSome (job : RetentionJob) (b : Round × List LogRow) : Prop :=
  ∃ i row, b.2[i]? = some row ∧ b.1.expired job i row = false

/-- The batch starts with an entry that has expired. -/
def DeletesFirst (job : RetentionJob) (b : Round × List LogRow) : Prop :=
  ∃ row, b.2.head? = some row ∧ b.1.expired job 0 row = true

section Batches

variable {job : RetentionJob} {r : Round}

private theorem swept_lt_iff (i : Nat) (chunk : List LogRow) :
    r.swept job i chunk < chunk.length ↔ ∃ j row, chunk[j]? = some row ∧ r.expired job (i + j) row = false := by
  induction chunk generalizing i with
  | nil => simp
  | cons row _ ih =>
    rw [Round.swept]
    cases hexpired : r.expired job i row with
    | false =>
      refine iff_of_true ?_ ⟨0, row, rfl, hexpired⟩
      simp
    | true =>
      rw [if_pos rfl, length_cons, add_lt_add_iff_right, ih]
      constructor
      · rintro ⟨j, row', hget, _⟩
        exact ⟨j + 1, row', hget, by rwa [← add_assoc, add_right_comm]⟩
      · rintro ⟨j, row', hget, hkept⟩
        cases j with
        | zero =>
          obtain rfl : row = row' := by simpa using hget
          exact absurd hexpired (by simpa using hkept)
        | succ j => exact ⟨j, row', hget, by rwa [add_right_comm]⟩

variable {b : Round × List LogRow}

theorem keepsSome_iff : KeepsSome job b ↔ b.1.swept job 0 b.2 < b.2.length := by
  rw [swept_lt_iff]
  simp only [zero_add]
  rfl

theorem deletesFirst_iff : DeletesFirst job b ↔ 0 < b.1.swept job 0 b.2 := by
  obtain ⟨r, chunk⟩ := b
  cases chunk with
  | nil => simp [DeletesFirst, Round.swept]
  | cons row =>
    rw [Round.swept]
    cases hexpired : r.expired job 0 row <;> simp [DeletesFirst, hexpired]

variable {rounds : List Round} {todo : List LogRow}

private theorem batches_sorted (rounds : List Round) (htodo : todo.Pairwise fun a b => a.1 < b.1) :
    ((batches rounds todo).flatMap Prod.snd).Pairwise fun a b => a.1 < b.1 :=
  htodo.sublist (flatMap_batches _ _).sublist

/-- An entry is deleted by the batch it belongs to or not at all. -/
private theorem mem_cleared_iff (htodo : todo.Pairwise fun a b => a.1 < b.1)
    (hb : b ∈ batches rounds todo) {row : LogRow} (hrow : row ∈ b.2) :
    entry_key job.database job.ns row.1 ∈ cleared job (batches rounds todo) ↔
      row ∈ b.2.take (b.1.swept job 0 b.2) := by
  obtain ⟨hchunks, hapart⟩ := pairwise_flatMap.mp (batches_sorted _ htodo)
  constructor
  · intro hmem
    obtain ⟨b', hb', hmem⟩ := mem_flatMap.mp hmem
    obtain ⟨row', hrow', hkey⟩ := mem_map.mp hmem
    have hstamp : row'.1 = row.1 := Versionstamp.bytes_injective (append_cancel_left hkey)
    have hsame : b' = b := by
      by_contra hne
      have : Std.Symm fun a b : Round × List LogRow => ∀ x ∈ a.2, ∀ y ∈ b.2, x.1 ≠ y.1 :=
        ⟨fun _ _ h x hx y hy => (h y hy x hx).symm⟩
      have hdistinct : (batches rounds todo).Pairwise fun a b => ∀ x ∈ a.2, ∀ y ∈ b.2, x.1 ≠ y.1 :=
        hapart.imp fun h x hx y hy => (h x hx y hy).ne
      exact hdistinct.forall hb' hb hne _ (mem_of_mem_take hrow') _ hrow hstamp
    subst hsame
    exact mem_take_of_le (hchunks b' hb') hrow' hrow hstamp.ge
  · intro hmem
    exact mem_flatMap.mpr ⟨b, hb, mem_map.mpr ⟨row, hmem, rfl⟩⟩

/-- The batches delete a first part of what they cover when no batch goes on
after an earlier one has kept an entry. -/
private theorem pairwise_covered_iff (htodo : todo.Pairwise fun a b => a.1 < b.1) :
    (((batches rounds todo).flatMap Prod.snd).Pairwise fun x y =>
        entry_key job.database job.ns x.1 ∉ cleared job (batches rounds todo) →
          entry_key job.database job.ns y.1 ∉ cleared job (batches rounds todo)) ↔
      (batches rounds todo).Pairwise fun a b => KeepsSome job a → ¬ DeletesFirst job b := by
  obtain ⟨hchunks, -⟩ := pairwise_flatMap.mp (batches_sorted _ htodo)
  rw [pairwise_flatMap]
  refine (and_iff_right fun b hb => ?_).trans (Pairwise.iff_of_mem fun {a b} ha hb => ?_)
  · -- inside a batch the deleted entries come first
    refine (pairwise_iff_forall_lt (hchunks b hb)).mpr fun x hx y hy hlt => ?_
    rw [mem_cleared_iff htodo hb hx, mem_cleared_iff htodo hb hy]
    exact mt fun hmem => mem_take_of_le (hchunks b hb) hmem hx hlt.le
  · rw [keepsSome_iff, deletesFirst_iff, not_lt, Nat.le_zero]
    constructor
    · intro h hkept
      obtain ⟨x, hx⟩ := exists_mem_of_length_pos
        (show 0 < (a.2.drop (a.1.swept job 0 a.2)).length by rw [length_drop]; omega)
      have hxmem : x ∈ a.2 := mem_of_mem_drop hx
      have hxkept : x ∉ a.2.take (a.1.swept job 0 a.2) := by
        intro hmem
        have hchunk := hchunks a ha
        rw [← take_append_drop _ a.2] at hchunk
        exact lt_irrefl _ ((pairwise_append.mp hchunk).2.2 x hmem x hx)
      by_contra hdeleted
      obtain ⟨y, hy⟩ := exists_mem_of_length_pos
        (show 0 < (b.2.take (b.1.swept job 0 b.2)).length by
          rw [length_take, min_eq_left (swept_le ..)]; omega)
      have hymem := mem_of_mem_take hy
      rw [← mem_cleared_iff htodo ha hxmem] at hxkept
      exact h x hxmem y hymem hxkept ((mem_cleared_iff htodo hb hymem).mpr hy)
    · intro h x hx y hy
      rw [mem_cleared_iff htodo ha hx, mem_cleared_iff htodo hb hy]
      intro hkept
      have hlt : a.1.swept job 0 a.2 < a.2.length := by
        by_contra hall
        rw [take_of_length_le (not_lt.mp hall)] at hkept
        exact hkept hx
      simp [h hlt]

/-- Entries that no batch comes to are not deleted. -/
private theorem notMem_cleared {vs : Versionstamp}
    (hvs : ∀ row ∈ (batches rounds todo).flatMap Prod.snd, row.1 ≠ vs) :
    entry_key job.database job.ns vs ∉ cleared job (batches rounds todo) := by
  intro hmem
  obtain ⟨b, hb, hmem⟩ := mem_flatMap.mp hmem
  obtain ⟨row, hrow, hkey⟩ := mem_map.mp hmem
  exact hvs _ (mem_flatMap.mpr ⟨b, hb, mem_of_mem_take hrow⟩)
    (Versionstamp.bytes_injective (append_cancel_left hkey))

private theorem pairwise_todo_iff (htodo : todo.Pairwise fun a b => a.1 < b.1) :
    (todo.Pairwise fun x y => entry_key job.database job.ns x.1 ∉ cleared job (batches rounds todo) →
        entry_key job.database job.ns y.1 ∉ cleared job (batches rounds todo)) ↔
      (batches rounds todo).Pairwise fun a b => KeepsSome job a → ¬ DeletesFirst job b := by
  rw [← pairwise_covered_iff htodo]
  obtain ⟨rest, hrest⟩ := flatMap_batches _ todo
  constructor
  · exact fun h => h.sublist (flatMap_batches _ _).sublist
  · intro h
    have hsorted := htodo
    rw [← hrest, pairwise_append] at hsorted
    have hlater : ∀ y ∈ rest, entry_key job.database job.ns y.1 ∉ cleared job (batches rounds todo) :=
      fun y hy => notMem_cleared fun row hrow => (hsorted.2.2 _ hrow y hy).ne
    nth_rewrite 3 [← hrest]
    exact pairwise_append.mpr
      ⟨h, hsorted.2.1.imp_of_mem fun _ hy _ _ => hlater _ hy, fun x _ y hy _ => hlater y hy⟩

end Batches

/-- What is left of a log is a suffix of it: no entry is gone while an older one is
still there. -/
def KeepsSuffix (database ns : String) (log : OrdMap Versionstamp CdcEntry) (rows : OrdMap Bytes Cell) : Prop :=
  ∀ older ∈ log.rows, ∀ newer ∈ log.rows, older.1 < newer.1 →
    (rows.get (entry_key database ns older.1)).isSome → (rows.get (entry_key database ns newer.1)).isSome

/-- The entries that scans of a log see. -/
def visible (log : OrdMap Versionstamp CdcEntry) : List LogRow := log.rows.filter fun row => decide row.1.Regular

/-- A job that starts at the beginning of the log leaves a suffix of it exactly
when no batch starts with an expired entry after an earlier batch has come to one
that had not expired. -/
theorem retention_keeps_suffix_iff {job : RetentionJob} {rows : OrdMap Bytes Cell}
    {log : OrdMap Versionstamp CdcEntry} (hlog : HoldsLog job.database job.ns rows log)
    (hstart : job.progress_cursor = none) (rounds : List Round) :
    KeepsSuffix job.database job.ns log (execute_job rounds job rows).2 ↔
      (batches rounds (visible log)).Pairwise fun a b => KeepsSome job a → ¬ DeletesFirst job b := by
  have hahead : Ahead job rows (visible log) := by
    have hscan := cdc.scan_eq hlog (show ∀ vs ∈ (none : Option Versionstamp), vs ≠ .last by simp)
    have hall : log.after (position none) = log.rows :=
      filter_eq_self.mpr fun row _ => decide_eq_true (WithBot.bot_lt_coe _)
    rw [hall] at hscan
    rw [Ahead, hstart]
    exact hscan
  have hkept (vs : Versionstamp) (e : CdcEntry) (hrow : (vs, e) ∈ log.rows) :
      ((execute_job rounds job rows).2.get (entry_key job.database job.ns vs)).isSome ↔
        entry_key job.database job.ns vs ∉ cleared job (batches rounds (visible log)) := by
    have hget : rows.get (entry_key job.database job.ns vs) = some (.cdc e) :=
      (hlog _ _).mpr ⟨vs, e, rfl, rfl, log.get_eq_some_iff_mem.mpr hrow⟩
    rw [get_execute_job hahead]
    split <;> simp_all
  rw [← pairwise_todo_iff hahead.sorted, pairwise_iff_forall_lt hahead.sorted]
  constructor
  · intro h older holder newer hnewer hlt hkeep
    have holder' := mem_of_mem_filter holder
    have hnewer' := mem_of_mem_filter hnewer
    exact (hkept _ _ hnewer').mp (h _ holder' _ hnewer' hlt ((hkept _ _ holder').mpr hkeep))
  · intro h older holder newer hnewer hlt hkeep
    refine (hkept _ _ hnewer).mpr ?_
    by_cases hregular : newer.1.Regular
    · exact h _ (mem_filter.mpr ⟨holder, decide_eq_true (hregular.of_lt hlt)⟩) _
        (mem_filter.mpr ⟨hnewer, decide_eq_true hregular⟩) hlt ((hkept _ _ holder).mp hkeep)
    · -- no scan sees it
      refine notMem_cleared fun row hrow heq => hregular ?_
      have hmem := (flatMap_batches _ _).subset hrow
      exact heq ▸ of_decide_eq_true (mem_filter.mp hmem).2

section Mirrored

private def vsOne : Versionstamp := .ofVersion 1

private def vsTwo : Versionstamp := .ofVersion 2

private def recent : CdcEntry := ⟨"1", 200000000, []⟩

/-- Mirrored from a peer with the time of its author. -/
private def mirrored : CdcEntry := ⟨"2", 0, []⟩

private def mixedRows : OrdMap Bytes Cell :=
  (OrdMap.empty.set (entry_key "db" "ns" vsOne) (.cdc recent)).set (entry_key "db" "ns" vsTwo) (.cdc mirrored)

private def mixedLog : OrdMap Versionstamp CdcEntry := (OrdMap.empty.set vsOne recent).set vsTwo mirrored

private theorem holdsLog_mixed : HoldsLog "db" "ns" mixedRows mixedLog := by
  have hempty : HoldsLog "db" "ns" (.empty : OrdMap Bytes Cell) .empty := by simp [HoldsLog]
  exact (hempty.append _).append mirrored

private def hundredSecs : RetentionJob := ⟨"db", "ns", 100, false, none, 0⟩

/-- A batch of the given size, two hundred seconds after the epoch. -/
private def batchOf (batch_size : Nat) : Round := ⟨none, batch_size, fun _ => 200000000⟩

/-- In batches of one the recent entry stays and the mirrored one behind it goes. -/
theorem retention_leaves_hole :
    HoldsLog "db" "ns" mixedRows mixedLog ∧
      (execute_batch (batchOf 1)
        (execute_job [batchOf 1, batchOf 1] hundredSecs mixedRows).1
        (execute_job [batchOf 1, batchOf 1] hundredSecs mixedRows).2).2.2 = false ∧
      ¬ KeepsSuffix "db" "ns" mixedLog (execute_job [batchOf 1, batchOf 1, batchOf 1] hundredSecs mixedRows).2 := by
  refine ⟨holdsLog_mixed, by decide +kernel, fun h => ?_⟩
  have hsuffix := h (vsOne, recent) (by decide +kernel) (vsTwo, mirrored) (by decide +kernel) (by decide +kernel)
    (by decide +kernel)
  exact absurd hsuffix (by decide +kernel)

/-- In one batch both stay. -/
theorem one_batch_keeps_suffix :
    HoldsLog "db" "ns" mixedRows mixedLog ∧
      KeepsSuffix "db" "ns" mixedLog (execute_job [batchOf 10] hundredSecs mixedRows).2 := by
  have hlog : HoldsLog hundredSecs.database hundredSecs.ns mixedRows mixedLog := holdsLog_mixed
  refine ⟨holdsLog_mixed, (retention_keeps_suffix_iff hlog rfl [batchOf 10]).mpr ?_⟩
  rw [batches]
  split_ifs <;> simp [batches]

end Mirrored

end pelago_storage.job_executor
