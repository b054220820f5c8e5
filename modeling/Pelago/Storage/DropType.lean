import Mathlib.Data.Prod.Lex
import Pelago.Kv.Sweep
import Pelago.Storage.Edge.Mutations

open bytes kv pelago_core pelago_core.encoding List pelago_core.encoding.TupleBuilder

namespace pelago_storage.job_executor

open edge edge.edge_markers Subspace Option

/-- The phases of the removal of an entity type. -/
inductive DropPhase where
  | SCHEMA
  | DATA
  | INDEX
  | EDGE_FORWARD
  | EDGE_REVERSE_BY_SOURCE
  | EDGE_META
  | EDGE_REVERSE_TARGET
  deriving DecidableEq

namespace DropPhase

def all : List DropPhase :=
  [SCHEMA, DATA, INDEX, EDGE_FORWARD, EDGE_REVERSE_BY_SOURCE, EDGE_META, EDGE_REVERSE_TARGET]

/-- A phase and those after it. -/
def onward (phase : DropPhase) : List DropPhase := all.dropWhile (· ≠ phase)

theorem mem_all (phase : DropPhase) : phase ∈ all := by
  cases phase <;> decide

theorem onward_eq_cons (phase : DropPhase) : phase.onward = phase :: phase.onward.tail := by
  cases phase <;> rfl

theorem onward_next {phase next : DropPhase} (h : phase.onward.tail.head? = some next) :
    next.onward = phase.onward.tail := by
  cases phase <;> cases h <;> rfl

end DropPhase

structure DropEntityTypeCursor where
  phase : DropPhase
  next_start : Option Bytes
  deriving DecidableEq

/-- The job that removes an entity type. -/
structure DropJob where
  database : String
  ns : String
  entity_type : String
  progress_cursor : Option DropEntityTypeCursor
  processed_items : Nat
  deriving DecidableEq

namespace DropJob

/-- What the rows that a phase goes through start with. The phase that clears reverse rows
goes through the metadata rows, as the one after it does. -/
def drop_type_phase_pfx (job : DropJob) (phase : DropPhase) : Bytes :=
  let ns := Subspace.of_namespace job.database job.ns
  match phase with
  | .SCHEMA => (ns.schema.pack.add_string job.entity_type).build
  | .DATA => (ns.data.pack.add_string job.entity_type).build
  | .INDEX => (ns.index.pack.add_string job.entity_type).build
  | .EDGE_FORWARD => (ns.edge.pack.add_marker FORWARD |>.add_string job.entity_type).build
  | .EDGE_REVERSE_BY_SOURCE | .EDGE_META =>
    (ns.edge.pack.add_marker FORWARD_META |>.add_string job.entity_type).build
  | .EDGE_REVERSE_TARGET =>
    (ns.edge.pack.add_marker REVERSE |>.add_string job.database |>.add_string job.ns
      |>.add_string job.entity_type).build

/-- The reverse row of the edge in a metadata row. -/
def reverse_key (job : DropJob) (meta_value : Cell) : Option Bytes :=
  match decode_cbor_edge meta_value with
  | .error _ => none
  | .ok edge =>
    match edge.source, edge.target, edge.label with
    | some source, some target, some label =>
      if label = "" then none
      else some (incoming_key (Subspace.of_namespace job.database job.ns).edge source target label)
    | _, _, _ => none

def sweep (job : DropJob) (phase : DropPhase) : Sweep Bytes Cell where
  lo := job.drop_type_phase_pfx phase
  hi := job.drop_type_phase_pfx phase ++ [0xFF]
  cleared := fun row => if phase = .EDGE_REVERSE_BY_SOURCE then job.reverse_key row.2 else some row.1

/-- The loop over the phases. It ends with the first rows that it finds. -/
def execute_phases (job : DropJob) (limit : Nat) :
    List DropPhase → Option Bytes → OrdMap Bytes Cell → DropJob × OrdMap Bytes Cell
  | [], _, rows => ({ job with progress_cursor := none }, rows)
  | phase :: later, next_start, rows =>
    let found := (job.sweep phase).page next_start limit rows
    match found.getLast? with
    | none => execute_phases job limit later none rows
    | some (last_key, _) =>
      ({ job with
          progress_cursor :=
            if found.length < limit then later.head?.map fun phase => ⟨phase, none⟩
            else some ⟨phase, some (last_key ++ [0x00])⟩
          processed_items := job.processed_items + found.length },
        (job.sweep phase).clear found rows)

/-- One batch. It tells whether there is more to do. -/
def execute_batch (job : DropJob) (batch_size : Nat) (rows : OrdMap Bytes Cell) :
    Bool × DropJob × OrdMap Bytes Cell :=
  let state := job.progress_cursor.getD ⟨.SCHEMA, none⟩
  let (job, rows) := job.execute_phases (max batch_size 1) state.phase.onward state.next_start rows
  (job.progress_cursor.isSome, job, rows)

/-- The loop of the worker, with a bound on the number of batches. -/
def execute_job (batch_size : Nat) : Nat → DropJob → OrdMap Bytes Cell → Option (OrdMap Bytes Cell)
  | 0, _, _ => none
  | calls + 1, job, rows =>
    match job.execute_batch batch_size rows with
    | (true, job, rows) => execute_job batch_size calls job rows
    | (false, _, rows) => some rows

/-- Runs of a job, with the cursors it has had. After a crash it goes on from any of them. -/
inductive Run (batch_size : Nat) (job : DropJob) (rows : OrdMap Bytes Cell) :
    List (Option DropEntityTypeCursor) → DropJob → OrdMap Bytes Cell → Prop where
  | start : Run batch_size job rows [none] { job with progress_cursor := none } rows
  | batch {seen job' rows'} : Run batch_size job rows seen job' rows' →
    Run batch_size job rows ((job'.execute_batch batch_size rows').2.1.progress_cursor :: seen)
      (job'.execute_batch batch_size rows').2.1 (job'.execute_batch batch_size rows').2.2
  | crash {seen job' rows'} {cursor : Option DropEntityTypeCursor} (processed_items : Nat) :
    Run batch_size job rows seen job' rows' → cursor ∈ seen →
    Run batch_size job rows seen
      { job' with progress_cursor := cursor, processed_items := processed_items } rows'

/-- The rows of a type: those of its families, and the reverse rows of the edges that the
metadata rows of the type hold. -/
def Dropped (job : DropJob) (rows : OrdMap Bytes Cell) (k : Bytes) : Prop :=
  (∃ phase ≠ DropPhase.EDGE_REVERSE_BY_SOURCE,
    job.drop_type_phase_pfx phase ≤ k ∧ k < job.drop_type_phase_pfx phase ++ [0xFF]) ∨
  ∃ meta_key meta_value, rows.get meta_key = some meta_value ∧
    job.drop_type_phase_pfx .EDGE_META ≤ meta_key ∧ meta_key < job.drop_type_phase_pfx .EDGE_META ++ [0xFF] ∧
    job.reverse_key meta_value = some k

section Layout

variable {job : DropJob} {rows : OrdMap Bytes Cell}

theorem meta_pfx_eq : job.drop_type_phase_pfx .EDGE_META =
    edgeRow job.database job.ns FORWARD_META (element job.entity_type) := by
  simp [drop_type_phase_pfx, edgeRow, pack, build, add_string, add_raw_bytes, add_marker, new, element]

theorem reverse_key_edgeRow {meta_value : Cell} {k : Bytes} (h : job.reverse_key meta_value = some k) :
    ∃ rest, k = edgeRow job.database job.ns REVERSE rest := by
  unfold reverse_key at h
  split at h
  · cases h
  · split at h
    · split at h
      · cases h
      · obtain rfl := some.inj h
        exact ⟨_, incoming_key_eq ..⟩
    · cases h

/-- No phase up to the one that reads the metadata rows clears one of them. -/
theorem not_meta_of_clears {phase : DropPhase} (hphase : .EDGE_REVERSE_BY_SOURCE ∈ phase.onward) {k : Bytes}
    (h : (job.sweep phase).Clears rows k) (rest : Bytes) : k ≠ job.drop_type_phase_pfx .EDGE_META ++ rest := by
  rw [meta_pfx_eq]
  obtain ⟨row, hrow, hk⟩ := h
  obtain ⟨hmem, hle, hlt⟩ := rows.mem_range.mp hrow
  obtain ⟨rest', hrow', _⟩ := mem_range_iff.mp ⟨hle, hlt⟩
  intro heq
  cases phase with
  | EDGE_REVERSE_BY_SOURCE =>
    have hreverse : job.reverse_key row.2 = some k := by simpa [sweep] using hk
    obtain ⟨rest'', rfl⟩ := reverse_key_edgeRow hreverse
    rw [edgeRow, edgeRow, append_assoc] at heq
    exact absurd (edgeRow_inj heq).2.2.1 (by decide)
  | EDGE_FORWARD =>
    obtain rfl : row.1 = k := by simpa [sweep] using hk
    have hpfx : row.1 = edgeRow job.database job.ns FORWARD (element job.entity_type ++ rest') := by
      rw [hrow']
      simp [sweep, drop_type_phase_pfx, edgeRow, pack, build, add_string, add_raw_bytes, add_marker, new, element]
    rw [hpfx, edgeRow, edgeRow, append_assoc] at heq
    exact absurd (edgeRow_inj heq).2.2.1 (by decide)
  | SCHEMA | DATA | INDEX =>
    obtain rfl : row.1 = k := by simpa [sweep] using hk
    rw [hrow', edgeRow] at heq
    simp only [sweep, drop_type_phase_pfx, pack, build, add_string,
      add_raw_bytes, new, nil_append, append_assoc] at heq
    have hnames : (utf8 "_schema").head? = some 0x5F ∧ (utf8 "data").head? = some 0x64 ∧
        (utf8 "idx").head? = some 0x69 ∧ (utf8 "edge").head? = some 0x65 := by decide +kernel
    have hhead := congrArg head? (subspace_append_inj heq).2.2
    simp [head?_append, hnames] at hhead
  | EDGE_META | EDGE_REVERSE_TARGET => exact absurd hphase (by decide)

/-- Each phase spares what the later ones have to read. -/
theorem spares {phase phase' : DropPhase} (h : phase' ∈ phase.onward) :
    Sweep.Spares rows (job.sweep phase) (job.sweep phase') := by
  intro k hclears v k' hrow hk'
  by_cases hphase : phase' = .EDGE_REVERSE_BY_SOURCE
  · subst hphase
    obtain ⟨_, hle, hlt⟩ := rows.mem_range.mp hrow
    obtain ⟨rest, hk, _⟩ := mem_range_iff.mp ⟨hle, hlt⟩
    exact absurd hk (not_meta_of_clears h hclears _)
  · have hself : k = k' := by simpa [sweep, hphase] using hk'
    exact hself.symm

/-- The rows of a type are those that the phases clear. -/
theorem dropped_iff {k : Bytes} (hk : rows.get k ≠ none) :
    job.Dropped rows k ↔ ∃ σ ∈ DropPhase.all.map job.sweep, σ.Clears rows k := by
  simp only [List.mem_map, DropPhase.mem_all, true_and]
  constructor
  · rintro (⟨phase, hphase, hle, hlt⟩ | ⟨meta_key, meta_value, hget, hle, hlt, hreverse⟩)
    · obtain ⟨v, hv⟩ := ne_none_iff_exists'.mp hk
      exact ⟨_, ⟨phase, rfl⟩, (k, v), rows.mem_range.mpr ⟨rows.get_eq_some_iff_mem.mp hv, hle, hlt⟩,
        by simp [sweep, hphase]⟩
    · exact ⟨_, ⟨.EDGE_REVERSE_BY_SOURCE, rfl⟩, (meta_key, meta_value),
        rows.mem_range.mpr ⟨rows.get_eq_some_iff_mem.mp hget, hle, hlt⟩, by simp [sweep, hreverse]⟩
  · rintro ⟨_, ⟨phase, rfl⟩, row, hrow, hcleared⟩
    obtain ⟨hmem, hle, hlt⟩ := rows.mem_range.mp hrow
    by_cases hphase : phase = .EDGE_REVERSE_BY_SOURCE
    · subst hphase
      exact .inr ⟨row.1, row.2, rows.get_eq_some_iff_mem.mpr hmem, hle, hlt, by simpa [sweep] using hcleared⟩
    · obtain rfl : row.1 = k := by simpa [sweep, hphase] using hcleared
      exact .inl ⟨phase, hphase, hle, hlt⟩

end Layout

section Batches

variable {job : DropJob} {origin rows : OrdMap Bytes Cell} {limit : Nat}

/-- The cursor tells what is gone: all that the phases before its phase clear, and what its
phase clears for the rows before its start. -/
structure At (job : DropJob) (origin rows : OrdMap Bytes Cell) (phase : DropPhase) (start : Option Bytes) :
    Prop where
  done : ∀ p, p ∉ phase.onward → (job.sweep p).Gone origin rows fun _ => True
  low : (job.sweep phase).lo ≤ start.getD (job.sweep phase).lo
  gone : (job.sweep phase).Gone origin rows (· < start.getD (job.sweep phase).lo)

def AtCursor (job : DropJob) (origin rows : OrdMap Bytes Cell) (cursor : Option DropEntityTypeCursor) : Prop :=
  let state := cursor.getD ⟨.SCHEMA, none⟩
  At job origin rows state.phase state.next_start

variable {phase : DropPhase} {start : Option Bytes}

/-- At the start of a phase. -/
theorem at_none (hdone : ∀ p, p ∉ phase.onward → (job.sweep p).Gone origin rows fun _ => True) :
    At job origin rows phase none :=
  ⟨hdone, le_refl _, fun _ hrow hlt => absurd (origin.mem_range.mp hrow).2.1 (not_le.mpr hlt)⟩

/-- What is left to do from a position on. -/
def weight (job : DropJob) (rows : OrdMap Bytes Cell) (state : DropEntityTypeCursor) : ℕ ×ₗ ℕ :=
  toLex (state.phase.onward.length,
    (rows.range (state.next_start.getD (job.sweep state.phase).lo) (job.sweep state.phase).hi).length)

theorem weight_lt_of_length {rows' : OrdMap Bytes Cell} {state state' : DropEntityTypeCursor}
    (h : state'.phase.onward.length < state.phase.onward.length) : job.weight rows' state' < job.weight rows state :=
  Prod.Lex.toLex_lt_toLex.mpr (.inl h)

/-- What the loop over the phases from a position on leaves. -/
structure Outcome (job : DropJob) (origin rows : OrdMap Bytes Cell) (state : DropEntityTypeCursor)
    (result : DropJob × OrdMap Bytes Cell) : Prop where
  same : result.1.sweep = job.sweep
  swept : Sweep.Swept (DropPhase.all.map job.sweep) origin result.2
  shrinks : ∀ k, rows.get k = none → result.2.get k = none
  more : ∀ cursor, result.1.progress_cursor = some cursor →
    At job origin result.2 cursor.phase cursor.next_start ∧ job.weight result.2 cursor < job.weight rows state
  finished : result.1.progress_cursor = none →
    ∀ phase, (job.sweep phase).Gone origin result.2 fun _ => True

/-- A phase is over: the next one starts, or the job is finished. -/
theorem Outcome.of_gone {result : DropJob × OrdMap Bytes Cell}
    (hsame : result.1.sweep = job.sweep) (hswept : Sweep.Swept (DropPhase.all.map job.sweep) origin result.2)
    (hshrinks : ∀ k, rows.get k = none → result.2.get k = none)
    (hdone : ∀ p, p ∉ phase.onward.tail → (job.sweep p).Gone origin result.2 fun _ => True)
    (hcursor : result.1.progress_cursor = phase.onward.tail.head?.map fun phase => ⟨phase, none⟩) :
    Outcome job origin rows ⟨phase, start⟩ result := by
  refine ⟨hsame, hswept, hshrinks, fun _ hsome => ?_, fun hnone p => ?_⟩
  · rw [hcursor, map_eq_some_iff] at hsome
    obtain ⟨_, hhead, rfl⟩ := hsome
    have honward := DropPhase.onward_next hhead
    exact ⟨at_none (honward ▸ hdone), weight_lt_of_length (by rw [honward, phase.onward_eq_cons]; simp)⟩
  · rw [hcursor, map_eq_none_iff, head?_eq_none_iff] at hnone
    exact hdone p (by simp [hnone])

theorem execute_phases_outcome (hlimit : 0 < limit)
    (hswept : Sweep.Swept (DropPhase.all.map job.sweep) origin rows) (hat : At job origin rows phase start) :
    Outcome job origin rows ⟨phase, start⟩ (job.execute_phases limit phase.onward start rows) := by
  generalize htodo : phase.onward = todo
  induction todo generalizing phase start with
  | nil =>
    rw [phase.onward_eq_cons] at htodo
    cases htodo
  | cons _ _ ih =>
    obtain ⟨rfl, rfl⟩ := cons.inj (phase.onward_eq_cons ▸ htodo)
    have hmem : job.sweep phase ∈ DropPhase.all.map job.sweep := mem_map_of_mem phase.mem_all
    have hbefore : ∀ p, p ∉ phase.onward.tail → p ≠ phase → p ∉ phase.onward := by
      intro p hp hne
      rw [phase.onward_eq_cons]
      simp [hp, hne]
    rw [execute_phases]
    generalize hpage : (job.sweep phase).page start limit rows = page
    cases hlast : page.getLast? with
    | none =>
      obtain rfl := getLast?_eq_none_iff.mp hlast
      have hgone := hswept.gone_of_short hmem hat.gone (n := limit) (by simpa [hpage] using hlimit)
      have hdone : ∀ p, p ∉ phase.onward.tail → (job.sweep p).Gone origin rows fun _ => True := by
        intro p hp
        by_cases heq : p = phase
        · rwa [hpage, ← heq] at hgone
        · exact hat.done p (hbefore p hp heq)
      cases hhead : phase.onward.tail.head? with
      | none =>
        have hend : job.execute_phases limit phase.onward.tail none rows = ({ job with progress_cursor := none }, rows) := by
          rw [head?_eq_none_iff.mp hhead, execute_phases]
        rw [hend]
        exact .of_gone rfl hswept (fun _ h => h) hdone (by rw [hhead]; rfl)
      | some =>
        have honward := DropPhase.onward_next hhead
        obtain ⟨hsame, hswept', hshrinks, hmore, hfinished⟩ := ih (at_none (honward ▸ hdone)) honward
        refine ⟨hsame, hswept', hshrinks, fun _ hcursor => ?_, hfinished⟩
        obtain ⟨hat', hweight⟩ := hmore _ hcursor
        exact ⟨hat', hweight.trans (weight_lt_of_length (by rw [honward, phase.onward_eq_cons]; simp))⟩
    | some last =>
      have hclear : Sweep.Swept (DropPhase.all.map job.sweep) origin ((job.sweep phase).clear page rows) := by
        refine hpage ▸ hswept.page hmem hat.low fun _ hτ => ?_
        obtain ⟨p, _, rfl⟩ := mem_map.mp hτ
        by_cases hp : p ∈ phase.onward
        · exact .inr (spares hp)
        · exact .inl (hat.done p hp)
      have hshrinks : ∀ k, rows.get k = none → ((job.sweep phase).clear page rows).get k = none :=
        fun _ => Sweep.get_clear_none
      by_cases hshort : page.length < limit
      · refine .of_gone rfl hclear hshrinks (fun p hp => ?_) (by simp [hshort])
        by_cases heq : p = phase
        · rw [heq, ← hpage]
          exact hswept.gone_of_short hmem hat.gone (hpage ▸ hshort)
        · exact (hat.done p (hbefore p hp heq)).mono hshrinks
      · refine ⟨rfl, hclear, hshrinks, fun cursor hcursor => ?_, fun hnone => by simp [hshort] at hnone⟩
        obtain rfl : (⟨phase, some (last.1 ++ [0x00])⟩ : DropEntityTypeCursor) = cursor := by
          simpa [hshort] using hcursor
        rw [← hpage] at hlast
        have hstart := (origin.mem_range.mp (hswept.mem_origin hat.low (mem_of_getLast? hlast))).2.1
        refine ⟨⟨fun p hp => (hat.done p hp).mono hshrinks, hstart.trans (le_append ..), ?_⟩,
          Prod.Lex.toLex_lt_toLex.mpr (.inr ⟨rfl, ?_⟩)⟩ <;> rw [← hpage]
        · exact hswept.gone_of_last hmem hat.gone hlast fun _ => append_zero_le_iff
        · exact Sweep.length_range_clear_lt hlast fun _ => append_zero_le_iff

theorem At.mono {rows' : OrdMap Bytes Cell}
    (h : At job origin rows phase start) (hshrinks : ∀ k, rows.get k = none → rows'.get k = none) :
    At job origin rows' phase start :=
  ⟨fun p hp => (h.done p hp).mono hshrinks, h.low, h.gone.mono hshrinks⟩

/-- Only where its phases look matters about a job. -/
theorem At.of_sweep {job' : DropJob} (hsame : job'.sweep = job.sweep)
    (h : At job origin rows phase start) : At job' origin rows phase start := by
  obtain ⟨hdone, hlow, hgone⟩ := h
  rw [← hsame] at hdone hlow hgone
  exact ⟨hdone, hlow, hgone⟩

theorem execute_batch_outcome (batch_size : Nat) (hswept : Sweep.Swept (DropPhase.all.map job.sweep) origin rows)
    (hat : AtCursor job origin rows job.progress_cursor) :
    Outcome job origin rows (job.progress_cursor.getD ⟨.SCHEMA, none⟩) (job.execute_batch batch_size rows).2 :=
  execute_phases_outcome (lt_of_lt_of_le one_pos (le_max_right ..)) hswept hat

/-- The invariant of runs: each cursor of the run, also one from before a crash, still tells
what is gone. -/
theorem Run.at {batch_size : Nat} {seen : List (Option DropEntityTypeCursor)} {job' : DropJob}
    (h : Run batch_size job origin seen job' rows) :
    job'.sweep = job.sweep ∧ Sweep.Swept (DropPhase.all.map job.sweep) origin rows ∧
      job'.progress_cursor ∈ seen ∧ ∀ cursor ∈ seen, AtCursor job' origin rows cursor := by
  induction h with
  | start =>
    refine ⟨rfl, .refl .., mem_singleton.mpr rfl, fun _ hcursor => ?_⟩
    obtain rfl := mem_singleton.mp hcursor
    exact at_none fun p hp => absurd p.mem_all hp
  | @batch _ job' rows' _ ih =>
    obtain ⟨hsame, hswept, hcurrent, hseen⟩ := ih
    obtain ⟨hsame', hswept', hshrinks, hmore, _⟩ :=
      execute_batch_outcome _ (hsame ▸ hswept) (hseen _ hcurrent)
    refine ⟨hsame'.trans hsame, hsame ▸ hswept', mem_cons_self, fun _ hcursor => ?_⟩
    obtain rfl | hcursor := mem_cons.mp hcursor
    · cases hnext : (job'.execute_batch batch_size rows').2.1.progress_cursor with
      | none => exact at_none fun p hp => absurd p.mem_all hp
      | some cursor => exact (hmore _ hnext).1.of_sweep hsame'
    · exact (At.mono (hseen _ hcursor) hshrinks).of_sweep hsame'
  | crash _ _ hcursor ih =>
    obtain ⟨hsame, hswept, _, hseen⟩ := ih
    refine ⟨hsame, hswept, hcursor, fun _ hcursor => ?_⟩
    exact .of_sweep (hsame.trans hsame.symm) (hseen _ hcursor)

theorem execute_job_succ (batch_size calls : Nat) (job : DropJob) (rows : OrdMap Bytes Cell) :
    execute_job batch_size (calls + 1) job rows =
      if (job.execute_batch batch_size rows).2.1.progress_cursor.isSome then
        execute_job batch_size calls (job.execute_batch batch_size rows).2.1 (job.execute_batch batch_size rows).2.2
      else some (job.execute_batch batch_size rows).2.2 := by
  have hflag : (job.execute_batch batch_size rows).1 =
      (job.execute_batch batch_size rows).2.1.progress_cursor.isSome := rfl
  rw [execute_job, ← hflag]
  obtain ⟨_ | _, _, _⟩ := job.execute_batch batch_size rows <;> rfl

/-- Without further crashes the job comes to its end. -/
theorem execute_job_completes (batch_size : Nat) (hswept : Sweep.Swept (DropPhase.all.map job.sweep) origin rows)
    (hat : AtCursor job origin rows job.progress_cursor) :
    ∃ calls final, execute_job batch_size calls job rows = some final ∧
      Sweep.Swept (DropPhase.all.map job.sweep) origin final ∧
      ∀ phase, (job.sweep phase).Gone origin final fun _ => True := by
  induction hweight : job.weight rows (job.progress_cursor.getD ⟨.SCHEMA, none⟩) using
    WellFoundedLT.induction generalizing job rows with
  | ind w ih =>
    obtain ⟨hsame, hswept', _, hmore, hfinished⟩ := execute_batch_outcome _ hswept hat
    cases hcursor : (job.execute_batch batch_size rows).2.1.progress_cursor with
    | none =>
      refine ⟨1, (job.execute_batch batch_size rows).2.2, ?_, hswept', hfinished hcursor⟩
      rw [execute_job_succ, hcursor]
      rfl
    | some cursor =>
      obtain ⟨hat', hlt⟩ := hmore _ hcursor
      rw [← hsame] at hswept'
      have hcurrent : AtCursor (job.execute_batch batch_size rows).2.1 origin (job.execute_batch batch_size rows).2.2
          (job.execute_batch batch_size rows).2.1.progress_cursor := by
        rw [hcursor]
        exact hat'.of_sweep hsame
      have hless : (job.execute_batch batch_size rows).2.1.weight (job.execute_batch batch_size rows).2.2
          ((job.execute_batch batch_size rows).2.1.progress_cursor.getD ⟨.SCHEMA, none⟩) < w := by
        rw [hcursor, ← hweight]
        simpa only [weight, hsame, getD_some] using hlt
      obtain ⟨calls, final, hfinal, hend⟩ := ih _ hless hswept' hcurrent rfl
      refine ⟨calls + 1, final, ?_, by rwa [hsame] at hend⟩
      rw [execute_job_succ, hcursor]
      exact hfinal

end Batches

/-- The job terminates, however often it crashes and whichever of its cursors it goes on from.
It then has removed the rows of the type and nothing else. -/
theorem execute_job_exact {batch_size : Nat} {job job' : DropJob} {origin rows : OrdMap Bytes Cell}
    {seen : List (Option DropEntityTypeCursor)} (hrun : Run batch_size job origin seen job' rows) :
    ∃ calls final, execute_job batch_size calls job' rows = some final ∧
      ∀ k, (job.Dropped origin k → final.get k = none) ∧ (¬ job.Dropped origin k → final.get k = origin.get k) := by
  obtain ⟨hsame, hswept, hcurrent, hseen⟩ := hrun.at
  obtain ⟨calls, final, hfinal, hend, hgone⟩ :=
    execute_job_completes _ (hsame ▸ hswept) (hseen _ hcurrent)
  rw [hsame] at hend hgone
  refine ⟨calls, final, hfinal, fun k => ?_⟩
  obtain ⟨hcleared, hkept⟩ := hend.get_eq (fun σ hσ => by
    obtain ⟨phase, _, rfl⟩ := mem_map.mp hσ
    exact hgone _) k
  by_cases hk : origin.get k = none
  · have hnone : final.get k = none := by
      cases hget : final.get k with
      | none => rfl
      | some => rw [hend.get_origin hget] at hk; cases hk
    exact ⟨fun _ => hnone, fun _ => hnone.trans hk.symm⟩
  · rw [dropped_iff hk]
    exact ⟨hcleared, hkept⟩

private def sampleJob : DropJob := ⟨"db", "ns", "T", none, 0⟩

/-- An edge of the type and its reverse row, and a row of another type. -/
private def sampleRows : OrdMap Bytes Cell :=
  let edge := (Subspace.of_namespace "db" "ns").edge
  let source : NodeRef := ⟨"db", "ns", "T", "1"⟩
  let target : NodeRef := ⟨"db", "ns", "U", "2"⟩
  .ofList [(outgoing_key edge FORWARD_META source target "l" none,
      .edge ⟨"e", .empty, 0, some source, some target, some "l"⟩),
    (incoming_key edge source target "l", .raw []),
    (node.data_key (Subspace.of_namespace "db" "ns").data "U" [0x01], .raw [])]

/-- A job that has cleared the reverse row, and after a crash starts again. -/
theorem execute_job_exact_restarted :
    ∃ calls final, execute_job 1 calls sampleJob (sampleJob.execute_batch 1 sampleRows).2.2 = some final ∧
      ∀ k, (sampleJob.Dropped sampleRows k → final.get k = none) ∧
        (¬ sampleJob.Dropped sampleRows k → final.get k = sampleRows.get k) :=
  execute_job_exact (.crash 0 (.batch .start) (mem_cons_of_mem _ mem_cons_self))

end DropJob

end pelago_storage.job_executor
