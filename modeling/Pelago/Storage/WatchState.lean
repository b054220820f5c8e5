import Pelago.Storage.Replication.Fencing

open bytes kv pelago_core List

namespace pelago_storage.watch_state

open replication (saturateI64)

/-- What a sweep reads of a stored state. -/
structure QueryWatchState where
  updated_at : Int

def is_expired (updated_at cutoff : Int) : Bool := updated_at ≤ cutoff

def next_scan_start (key : Bytes) : Bytes := key ++ [0x00]

section Pages

variable (delete : Cell → Bool) (batch_limit : Nat)

/-- The loop over a page, up to the row that fills the batch. -/
def visit : List (Bytes × Cell) → List Bytes → Option Bytes → List Bytes × Option Bytes
  | [], to_delete, next_start => (to_delete, next_start)
  | (key, value) :: rows, to_delete, _ =>
    let next_start := some (next_scan_start key)
    if delete value then
      let to_delete := to_delete ++ [key]
      if batch_limit ≤ to_delete.length then (to_delete, next_start) else visit rows to_delete next_start
    else visit rows to_delete next_start

/-- The loop over the pages, as long as there is fuel. -/
def collect (page_size : Nat) (rows : OrdMap Bytes Cell) (range_end : Bytes) :
    Nat → Bytes → List Bytes → Option (List Bytes)
  | 0, _, _ => none
  | fuel + 1, scan_start, to_delete =>
    let page := (rows.range scan_start range_end).take page_size
    if page.isEmpty then some to_delete
    else
      let (to_delete, next_start) := visit delete batch_limit page to_delete none
      if batch_limit ≤ to_delete.length then some to_delete
      else
        match next_start with
        | none => some to_delete
        | some next_start =>
          if range_end ≤ next_start then some to_delete
          else collect page_size rows range_end fuel next_start to_delete

/-- The keys of the rows to delete. -/
def stale (rows : List (Bytes × Cell)) : List Bytes := (rows.filter fun row => delete row.2).map Prod.fst

variable {delete batch_limit} {to_delete : List Bytes} (hroom : to_delete.length < batch_limit)

include hroom

/-- A page that does not fill the batch is read to its last row. -/
theorem visit_eq (page : List (Bytes × Cell)) (next_start : Option Bytes) :
    let visited := visit delete batch_limit page to_delete next_start
    visited.1 = (to_delete ++ stale delete page).take batch_limit ∧ (visited.1.length < batch_limit →
      visited.2 = (page.getLast?.map fun row => next_scan_start row.1).or next_start) := by
  induction page generalizing to_delete next_start with
  | nil => simp [visit, stale, take_of_length_le hroom.le]
  | cons row page ih =>
    have hlast : ((row :: page).getLast?.map fun row => next_scan_start row.1).or next_start =
        (page.getLast?.map fun row => next_scan_start row.1).or (some (next_scan_start row.1)) := by
      rw [getLast?_cons]
      cases page.getLast? <;> rfl
    rw [hlast, visit]
    by_cases hdelete : delete row.2 = true
    · have hstale : to_delete ++ stale delete (row :: page) = to_delete ++ [row.1] ++ stale delete page := by
        simp [stale, hdelete]
      simp only [hdelete, if_true, hstale]
      split
      next hfull =>
        have hlength : (to_delete ++ [row.1]).length = batch_limit := by
          rw [length_append, length_singleton] at hfull ⊢
          omega
        rw [← hlength, take_left]
        exact ⟨rfl, fun h => absurd h (lt_irrefl _)⟩
      next hfull => exact ih (not_le.mp hfull) _
    · have hstale : stale delete (row :: page) = stale delete page := by simp [stale, hdelete]
      simp only [hdelete, hstale]
      exact ih hroom _

/-- Whatever the size of the pages, the loop collects the first keys of the range. -/
theorem collect_eq {page_size fuel : Nat} (hpage : 0 < page_size) {rows : OrdMap Bytes Cell} {start range_end : Bytes}
    (hfuel : (rows.range start range_end).length < fuel) :
    collect delete batch_limit page_size rows range_end fuel start to_delete =
      some ((to_delete ++ stale delete (rows.range start range_end)).take batch_limit) := by
  induction fuel generalizing start to_delete with
  | zero => exact absurd hfuel (Nat.not_lt_zero _)
  | succ fuel ih =>
    rw [collect]
    cases hlast : ((rows.range start range_end).take page_size).getLast? with
    | none =>
      rw [getLast?_eq_none_iff, take_eq_nil_iff, or_iff_right hpage.ne'] at hlast
      simp [hlast, stale, take_of_length_le hroom.le]
    | some row =>
      have hrest := OrdMap.range_drop (fun _ => append_zero_le_iff) hlast
      have hsplit := take_append_drop page_size (rows.range start range_end)
      rw [← hrest] at hsplit
      generalize (rows.range start range_end).take page_size = page at *
      obtain ⟨hkeys, hnext⟩ := visit_eq hroom _ _
      have hmem := mem_of_getLast? hlast
      rw [← hsplit] at hfuel ⊢
      rw [if_neg (by simpa using ne_nil_of_mem hmem)]
      dsimp only
      rw [hkeys] at hnext ⊢
      have hstale : to_delete ++ stale delete (page ++ rows.range (row.1 ++ [0x00]) range_end) =
          to_delete ++ stale delete page ++ stale delete (rows.range (row.1 ++ [0x00]) range_end) := by simp [stale]
      rw [length_take, hstale]
      split
      next hfull => exact congrArg _ (take_append_of_le_length (by omega)).symm
      next hfull =>
        have hshort : (to_delete ++ stale delete page).length < batch_limit := by omega
        rw [take_of_length_le hshort.le] at hnext ⊢
        rw [hnext hshort, hlast]
        dsimp only [Option.map_some, Option.some_or, next_scan_start]
        split
        next hend =>
          have hnil : rows.range (row.1 ++ [0x00]) range_end = [] := by
            refine eq_nil_iff_forall_not_mem.mpr fun _ h => ?_
            obtain ⟨_, hlo, hhi⟩ := rows.mem_range.mp h
            exact (hhi.trans_le (hend.trans hlo)).false
          rw [hnil, show stale delete [] = [] from rfl, append_nil, take_of_length_le hshort.le]
        next =>
          refine ih hshort ?_
          have hpos := length_pos_of_mem hmem
          rw [length_append] at hfuel
          omega

end Pages

/-- Rows in which a scan meets every watch state. -/
structure WatchRows extends OrdMap Bytes Cell where
  visible : ∀ row ∈ rows, ∀ rest, row.1 = query_watch_state_root_subspace.pfx ++ rest → rest.head? ≠ some 0xFF

namespace WatchRows

theorem foldl_clear_sublist (keys : List Bytes) (rows : OrdMap Bytes Cell) :
    (keys.foldl .clear rows).rows <+ rows.rows := by
  induction keys generalizing rows with
  | nil => exact .refl _
  | cons key keys ih => exact (ih _).trans filter_sublist

variable (rows : WatchRows)

def clear (keys : List Bytes) : WatchRows :=
  ⟨keys.foldl OrdMap.clear rows.toOrdMap, fun row hrow => rows.visible row ((foldl_clear_sublist ..).subset hrow)⟩

theorem get_clear (keys : List Bytes) (k : Bytes) :
    (rows.clear keys).get k = if k ∈ keys then none else rows.get k := by
  simpa [clear] using OrdMap.get_foldl_clear _ id _ k

/-- The rows of the watch states. -/
def states : List (Bytes × Cell) := rows.rows.filter fun row => query_watch_state_root_subspace.pfx <+: row.1

theorem range_eq : rows.range query_watch_state_root_subspace.pfx query_watch_state_root_subspace.range_end =
    rows.states := by
  refine filter_congr fun row hrow => ?_
  rw [← Bool.decide_and, decide_eq_decide]
  refine mem_range_iff.trans ⟨fun ⟨rest, hrest, _⟩ => ⟨rest, hrest.symm⟩, fun ⟨rest, hrest⟩ => ?_⟩
  exact ⟨rest, hrest.symm, rows.visible row hrow rest hrest.symm⟩

end WatchRows

section Cleanup

/-- The number of deleted rows and the rows left, if the fuel is enough. -/
def cleanup (delete : Cell → Bool) (batch_limit fuel : Nat) (rows : OrdMap Bytes Cell) :
    Option (Nat × OrdMap Bytes Cell) :=
  let batch_limit := max batch_limit 1
  let page_size := max (min (batch_limit * 8) (2 ^ 64 - 1)) 64
  let subspace := query_watch_state_root_subspace
  (collect delete batch_limit page_size rows subspace.range_end fuel subspace.pfx []).map fun to_delete =>
    (to_delete.length, to_delete.foldl OrdMap.clear rows)

/-- A sweep repeated. -/
def cleanups (sweep : OrdMap Bytes Cell → Option (Nat × OrdMap Bytes Cell)) :
    Nat → OrdMap Bytes Cell → Option (OrdMap Bytes Cell)
  | 0, rows => some rows
  | n + 1, rows => (sweep rows).bind fun (_, left) => cleanups sweep n left

variable {delete : Cell → Bool} {batch_limit fuel : Nat} {rows : WatchRows} (hfuel : rows.rows.length < fuel)

include hfuel

theorem cleanup_eq : cleanup delete batch_limit fuel rows.toOrdMap =
    let deleted := (stale delete rows.states).take (max batch_limit 1)
    some (deleted.length, (rows.clear deleted).toOrdMap) := by
  rw [cleanup, collect_eq (by simp) (by simp) ((length_filter_le ..).trans_lt hfuel), rows.range_eq]
  rfl

/-- Each sweep that finds something leaves less to find. -/
theorem cleanups_eq {n : Nat} (hn : (stale delete rows.states).length ≤ n) : ∃ left : WatchRows,
    cleanups (cleanup delete batch_limit fuel) n rows.toOrdMap = some left.toOrdMap ∧
      stale delete left.states = [] := by
  induction n generalizing rows with
  | zero => exact ⟨rows, rfl, length_eq_zero_iff.mp (Nat.le_zero.mp hn)⟩
  | succ n ih =>
    rw [cleanups, cleanup_eq hfuel]
    set deleted := (stale delete rows.states).take (max batch_limit 1) with hdeleted
    have hsub := WatchRows.foldl_clear_sublist deleted rows.toOrdMap
    refine ih (hsub.length_le.trans_lt hfuel) ?_
    have hless : stale delete (rows.clear deleted).states <+ stale delete rows.states :=
      ((hsub.filter _).filter _).map _
    by_contra hlong
    have heq := hless.eq_of_length_le (by omega)
    obtain ⟨key, keys, hkeys⟩ := exists_cons_of_length_pos (l := stale delete rows.states) (by rw [← heq]; omega)
    have hleft : key ∈ stale delete (rows.clear deleted).states := by simp [heq, hkeys]
    obtain ⟨row, hrow, rfl⟩ := mem_map.mp hleft
    have hget := (OrdMap.get_eq_some_iff_mem _).mpr (mem_filter.mp (mem_filter.mp hrow).1).1
    obtain ⟨m, hm⟩ := Nat.exists_eq_add_of_le' (le_max_right batch_limit 1)
    simp [rows.get_clear, hdeleted, hkeys, hm] at hget

end Cleanup

/-- Whether a stored value has expired. What cannot be read is deleted too. -/
def deletes (decode : Cell → Option QueryWatchState) (now_micros : Int64) (retention_secs : UInt64) (value : Cell) : Bool :=
  let retention_micros := saturateI64 (retention_secs.toInt64.toInt * 1000000)
  let cutoff := saturateI64 (now_micros.toInt - retention_micros)
  match decode value with
  | some state => is_expired state.updated_at cutoff
  | none => true

def cleanup_query_watch_states (decode : Cell → Option QueryWatchState) (now_micros : Int64) (retention_secs : UInt64) :
    Nat → Nat → OrdMap Bytes Cell → Option (Nat × OrdMap Bytes Cell) :=
  cleanup (deletes decode now_micros retention_secs)

/-- A sweep ends and deletes exactly the first expired states, and sweeps at one time come to an end. -/
theorem cleanup_query_watch_states_exact (decode : Cell → Option QueryWatchState) (now_micros : Int64)
    (retention_secs : { n : UInt64 // n.toNat < 2 ^ 63 }) (batch_limit : Nat) (rows : WatchRows) :
    let cutoff := max (-2 ^ 63) (now_micros.toInt - min (retention_secs.1.toNat * 1000000) (2 ^ 63 - 1))
    let expired := fun rows : WatchRows =>
      stale (fun value => (decode value).all fun state => state.updated_at ≤ cutoff) rows.states
    let deleted := (expired rows).take (max batch_limit 1)
    let sweep := cleanup_query_watch_states decode now_micros retention_secs batch_limit
    (∀ fuel > rows.rows.length, ∃ left, sweep fuel rows.toOrdMap = some (deleted.length, left) ∧
      ∀ k, left.get k = if k ∈ deleted then none else rows.get k) ∧
    ∀ fuel > rows.rows.length, ∀ n ≥ (expired rows).length, ∃ left : WatchRows,
      cleanups (sweep fuel) n rows.toOrdMap = some left.toOrdMap ∧ expired left = [] := by
  intro cutoff expired deleted sweep
  have hdeletes : deletes decode now_micros retention_secs =
      fun value => (decode value).all fun state => state.updated_at ≤ cutoff := by
    have hnow := now_micros.toInt_lt
    have hcutoff : saturateI64 (now_micros.toInt - saturateI64 (retention_secs.1.toNat * 1000000)) = cutoff := by
      unfold saturateI64 cutoff
      omega
    funext value
    rw [deletes, toInt64_toInt retention_secs.2, hcutoff]
    cases decode value <;> rfl
  dsimp only [sweep, cleanup_query_watch_states]
  rw [hdeletes]
  exact ⟨fun _ hfuel => ⟨_, cleanup_eq hfuel, rows.get_clear _⟩, fun _ hfuel _ hn => cleanups_eq hfuel hn⟩

end pelago_storage.watch_state
