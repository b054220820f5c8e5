import Pelago.Storage.Index.Entries
import Pelago.Storage.Node.Mutations
import Pelago.Storage.TermIndex.Apply

open bytes kv pelago_core pelago_core.encoding
open pelago_storage.index pelago_storage.term_index

namespace pelago_storage.node

open Tx OrdMap

variable {subspace : Subspace} {entity_type : String} {id : Bytes}

variable {k : Bytes}

theorem entryRow_not_postingRow (h : EntryRow subspace entity_type k) : ¬ PostingRow subspace entity_type k := by
  rintro ⟨rest, hk⟩
  obtain ⟨property, _, _, _, rfl⟩ := h
  exact absurd (indexRow_inj hk).1 (by decide)

theorem entryRow_not_counterRow (h : EntryRow subspace entity_type k) : ¬ CounterRow subspace entity_type k := by
  rintro ⟨b, _, hb, hk⟩
  obtain ⟨property, _, _, _, rfl⟩ := h
  obtain ⟨hmarker, _⟩ := indexRow_inj hk
  obtain rfl | rfl := hb
  · exact absurd hmarker (by decide)
  · exact absurd hmarker (by decide)

theorem indexRow_of_postingRow (h : PostingRow subspace entity_type k) : IndexRow subspace entity_type k := by
  obtain ⟨rest, rfl⟩ := h
  exact indexRow_mem ..

theorem indexRow_of_counterRow (h : CounterRow subspace entity_type k) : IndexRow subspace entity_type k := by
  obtain ⟨b, _, _, rfl⟩ := h
  exact indexRow_mem ..

section Change

variable {removals additions : List IndexEntry} {termAdditions termRemovals : List TermKey} {n_docs_delta : Int}
  {db db' : Db}

/-- The entry rows after clearing removals and writing additions. -/
def entryRows (removals additions : List IndexEntry) (rows : OrdMap Bytes Cell) : OrdMap Bytes Cell :=
  additions.foldl (fun m e => m.set e.key e.cell) (removals.foldl (fun m e => m.clear e.key) rows)

variable (hremovals : ∀ e ∈ removals, EntryAt subspace entity_type id e)
  (hadditions : ∀ e ∈ additions, EntryAt subspace entity_type id e)

include hadditions

private theorem change_index_rows_run (changes : TermPostingChanges) (db : Db) :
    (change_index_rows subspace entity_type removals additions changes n_docs_delta).run db =
      (apply_term_posting_changes subspace entity_type changes n_docs_delta).run
        { db with rows := entryRows removals additions db.rows } := by
  unfold change_index_rows
  rw [run_bind_of_ok (run_forEach_clear ..), forEach_congr fun e he => (hadditions e he).write_index_entry_eq,
    run_bind_of_ok (run_forEach_set ..)]
  rfl

/-- With readable counters the index work never fails. -/
theorem change_index_rows_keeps :
    (change_index_rows subspace entity_type removals additions
      (changesOf subspace entity_type id termAdditions termRemovals) n_docs_delta).Keeps
        (CountersReadable subspace entity_type) := by
  refine keeps_bind ?_ fun _ => keeps_bind ?_ fun _ => apply_term_posting_changes_keeps _ _ _
  · exact keeps_forEach fun e _ => keeps_clear _
  · refine keeps_forEach fun e he => ?_
    rw [(hadditions e he).write_index_entry_eq]
    exact keeps_set (entryRow_not_counterRow (hadditions e he).entryRow) _

/-- The effect on entry rows. -/
theorem change_index_rows_entry
    (hrun : (change_index_rows subspace entity_type removals additions
      (changesOf subspace entity_type id termAdditions termRemovals) n_docs_delta).run db = .ok ((), db'))
    (hk : EntryRow subspace entity_type k) : db'.rows.get k = (entryRows removals additions db.rows).get k := by
  rw [change_index_rows_run hadditions] at hrun
  refine (touches_apply_term_posting_changes ..).get_eq hrun ?_
  rintro (h | h)
  · exact entryRow_not_postingRow hk h
  · exact entryRow_not_counterRow hk h

include hremovals

theorem touches_change_index_rows :
    (change_index_rows subspace entity_type removals additions
        (changesOf subspace entity_type id termAdditions termRemovals) n_docs_delta).Touches
      (IndexRow subspace entity_type) (IndexRow subspace entity_type) := by
  refine touches_bind ?_ fun _ => touches_bind ?_ fun _ => ?_
  · apply touches_forEach
    intro e he
    exact (touches_clear _).mpr (hremovals e he).entryRow.indexRow
  · apply touches_forEach
    intro e he
    rw [(hadditions e he).write_index_entry_eq]
    exact (touches_set ..).mpr (hadditions e he).entryRow.indexRow
  · refine (touches_apply_term_posting_changes ..).mono ?_ ?_
    · intro k hk
      exact indexRow_of_counterRow hk
    · rintro k (hk | hk)
      · exact indexRow_of_postingRow hk
      · exact indexRow_of_counterRow hk

private theorem entryRows_get_of_not (hk : ¬ EntryRow subspace entity_type k) (rows : OrdMap Bytes Cell) :
    (entryRows removals additions rows).get k = rows.get k := by
  have hnot : ∀ entries : List IndexEntry, (∀ e ∈ entries, EntryAt subspace entity_type id e) →
      k ∉ entries.map IndexEntry.key := by
    intro _ hentries hmem
    obtain ⟨e, he, rfl⟩ := List.mem_map.mp hmem
    exact hk (hentries e he).entryRow
  rw [entryRows, get_foldl_set_of_notMem (hnot _ hadditions), get_foldl_clear]
  exact if_neg (hnot _ hremovals)

variable (hrun : (change_index_rows subspace entity_type removals additions
  (changesOf subspace entity_type id termAdditions termRemovals) n_docs_delta).run db = .ok ((), db'))

include hrun

/-- The effect on posting rows. -/
theorem change_index_rows_posting (hk : PostingRow subspace entity_type k) :
    db'.rows.get k = if k ∈ termAdditions.map fun term => (postingOf subspace entity_type id term).key then
        some (.raw [])
      else if k ∈ termRemovals.map fun term => (postingOf subspace entity_type id term).key then none
      else db.rows.get k := by
  rw [change_index_rows_run hadditions] at hrun
  have hentries := entryRows_get_of_not hremovals hadditions
    (fun h => entryRow_not_postingRow h hk) db.rows
  rw [apply_term_posting_changes_posting hrun hk.not_counterRow]
  split
  · rename_i hmem
    exact get_foldl_set_of_mem hmem (fun _ _ _ => rfl) _
  · rename_i hmem
    rw [get_foldl_set_of_notMem hmem, get_foldl_clear]
    split
    · rfl
    · exact hentries

/-- The effect on counters that were exact. -/
theorem change_index_rows_counters {count count' : TermKey → Nat}
    {docs docs' : Nat} (hlt : ∀ term, count term < 2 ^ 63) (hlt' : ∀ term, count' term < 2 ^ 63)
    (hdocs : docs < 2 ^ 63) (hdocs' : docs' < 2 ^ 63)
    (hsum : ∀ term, (count' term : Int) = count term + termAdditions.count term - termRemovals.count term)
    (hsumDocs : (docs' : Int) = docs + n_docs_delta) (hexact : CountersExact subspace entity_type count docs db) :
    CountersExact subspace entity_type count' docs' db' := by
  rw [change_index_rows_run hadditions] at hrun
  refine apply_term_posting_changes_counters hlt hlt' hdocs hdocs' hsum hsumDocs (hexact.congr fun k hk => ?_) hrun
  exact entryRows_get_of_not hremovals hadditions (fun h => entryRow_not_counterRow h hk) _

end Change

end pelago_storage.node
