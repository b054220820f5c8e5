import Pelago.Storage.Consumer.Delivery
import Pelago.Storage.Retention.Suffix

open bytes kv pelago_core List

namespace pelago_storage.job_executor

open cdc consumer Versionstamp
open OrdMap (get_eq_some_iff_mem get_set get_set_of_ne get_set_self)

/-- Where a batch of the job stands: before it, after the read of the checkpoints,
and after the read of the entries, with the time of that read. -/
inductive Phase where
  | idle
  | checked (safe_cutoff : Option Versionstamp)
  | fetched (safe_cutoff : Option Versionstamp) (results : List (Bytes × Cell)) (since : Int)

/-- A site with a retention job: its database and clock, the job, and how far the
saved states of the job had come. `log` holds every entry that the log has had. -/
structure Site where
  rows : OrdMap Bytes Cell
  clock : Int
  job : RetentionJob
  phase : Phase
  saved : List (Option Bytes × Nat)
  log : OrdMap Versionstamp CdcEntry

inductive Event where
  | append (vs : Versionstamp) (entry : CdcEntry)
  | acknowledge (reader : CdcConsumer)
  | write (key : Bytes) (cell : Option Cell)
  | tick (now : Int)
  | read_checkpoints
  | read_range (batch_size : Nat)
  | commit (now_us : Nat → Int) (committed : Bool)
  | save
  | resume (i : Nat)

/-- The rows of the consumers of a namespace. -/
def checkpoints_pfx (database ns : String) : Bytes :=
  ((Subspace.of_namespace database ns).metadata.pack.add_string "cdc_checkpoints").build

/-- The range of `i64`. -/
def InI64 (t : Int) : Prop := -2 ^ 63 ≤ t ∧ t < 2 ^ 63

instance (t : Int) : Decidable (InI64 t) := inferInstanceAs (Decidable (_ ∧ _))

/-- A step. Entries are appended in versionstamp order; registered consumers save
their checkpoints and never move them back; the rest of the database may change
at will; the clock does not go back. The steps of a batch are those of
`execute_batch`, with the clock read between the scan and the commit, and a
commit may fail. A crash loses the batch, and the job goes on from a saved state
or from its beginning. -/
def Site.step (s : Site) : Event → Site
  | .append vs entry =>
    if (∀ row ∈ s.log.rows, row.1 < vs) ∧ InI64 entry.timestamp then
      { s with
        rows := s.rows.set (entry_key s.job.database s.job.ns vs) (.cdc entry)
        log := s.log.set vs entry }
    else s
  | .acknowledge reader =>
    match s.rows.get (checkpoint_key reader.config), load_hwm s.rows reader.config with
    | some _, .ok hwm =>
      if reader.config.database = s.job.database ∧ reader.config.ns = s.job.ns ∧ hwm ≤ reader.hwm then
        { s with rows := save_hwm reader s.rows }
      else s
    | _, _ => s
  | .write key cell =>
    if s.job.subspace.pfx <+: key ∨ checkpoints_pfx s.job.database s.job.ns <+: key then s
    else { s with rows := cell.elim (s.rows.clear key) fun c => s.rows.set key c }
  | .tick now => if s.clock ≤ now ∧ now < 2 ^ 63 then { s with clock := now } else s
  | .read_checkpoints =>
    match s.phase with
    | .idle => { s with phase := .checked (s.job.safe_cutoff s.rows) }
    | _ => s
  | .read_range batch_size =>
    match s.phase with
    | .checked safe_cutoff =>
      let results := s.job.scan batch_size s.rows
      if results.isEmpty then { s with phase := .idle }
      else { s with phase := .fetched safe_cutoff results s.clock }
    | _ => s
  | .commit now_us committed =>
    match s.phase with
    | .fetched safe_cutoff results since =>
      if ∀ i < results.length, since ≤ now_us i ∧ now_us i ≤ s.clock then
        let (keys, processed) := s.job.sweep safe_cutoff now_us 0 results
        { s with
          rows := if committed then clearAll s.rows keys else s.rows
          job := s.job.advance results processed
          phase := .idle }
      else s
    | _ => s
  | .save => { s with saved := (s.job.progress_cursor, s.job.processed_items) :: s.saved }
  | .resume i =>
    let (progress_cursor, processed_items) := s.saved[i]?.getD (none, 0)
    { s with
      job := { s.job with progress_cursor := progress_cursor, processed_items := processed_items }
      phase := .idle }

def Site.exec (s : Site) (events : List Event) : Site := events.foldl Site.step s

/-- A checkpoint of a consumer of the namespace. -/
def Site.Checkpoint (s : Site) (config : ConsumerConfig) (vs : Versionstamp) : Prop :=
  config.database = s.job.database ∧ config.ns = s.job.ns ∧
    s.rows.get (checkpoint_key config) = some (.raw vs.bytes)

/-- Before the first batch of a job that minds the checkpoints. -/
structure Site.Initial (s : Site) : Prop where
  aware : s.job.checkpoint_aware = true
  max_lt : s.job.max_retention_secs.toNat < 2 ^ 63
  clock : 0 ≤ s.clock ∧ s.clock < 2 ^ 63
  holds : HoldsLog s.job.database s.job.ns s.rows s.log
  timestamps : ∀ row ∈ s.log.rows, InI64 row.2.timestamp
  registered : (s.rows.range (checkpoints_pfx s.job.database s.job.ns)
    (checkpoints_pfx s.job.database s.job.ns ++ [0xFF])).length ≤ 1000
  cursor : s.job.progress_cursor = none
  phase : s.phase = .idle
  saved : s.saved = []

section Age

/-- At least as old as the job asks, in microseconds. Whole seconds are cut off
towards zero, so with a limit of zero an entry may lie up to a second ahead. -/
def RetentionJob.Old (job : RetentionJob) (now : Int) (entry : CdcEntry) : Prop :=
  job.max_retention_secs.toNat * 1000000 ≤ now - entry.timestamp ∨
    job.max_retention_secs.toNat = 0 ∧ -1000000 < now - entry.timestamp

theorem RetentionJob.Old.mono {job : RetentionJob} {now now' : Int} {entry : CdcEntry} (h : job.Old now entry)
    (hle : now ≤ now') : job.Old now' entry := by
  unfold Old at *
  omega

private theorem le_of_le_tdiv {m x : Int} (hm : 0 ≤ m) (h : m ≤ x.tdiv 1000000) :
    m * 1000000 ≤ x ∨ m = 0 ∧ -1000000 < x := by
  obtain hx | hx := le_or_gt 0 x
  · rw [Int.tdiv_eq_ediv_of_nonneg hx] at h
    omega
  · obtain ⟨y, rfl⟩ : ∃ y, x = -y := ⟨-x, by omega⟩
    rw [Int.neg_tdiv, Int.tdiv_eq_ediv_of_nonneg (by omega)] at h
    omega

/-- A difference that does not fit is large, and its wrapped value negative. -/
private theorem wrapped_cases {d : Int} (hlo : -2 ^ 63 ≤ d) (hhi : d < 2 ^ 64) :
    d.bmod (2 ^ 64) = d ∨ d.bmod (2 ^ 64) < 0 ∧ 2 ^ 63 ≤ d := by
  rw [Int.bmod_def]
  split_ifs <;> omega

theorem old_of_not_young {job : RetentionJob} {now : Int} {entry : CdcEntry}
    (hmax : job.max_retention_secs.toNat < 2 ^ 63) (hnow : 0 ≤ now ∧ now < 2 ^ 63)
    (htimestamp : InI64 entry.timestamp) (h : job.young now entry = false) : job.Old now entry := by
  obtain ⟨hlo, hhi⟩ := htimestamp
  rw [RetentionJob.young, toInt64_toInt hmax, decide_eq_false_iff_not, not_lt] at h
  have hage := le_of_le_tdiv (Int.natCast_nonneg _) h
  obtain hage' | hage' := wrapped_cases (d := now - entry.timestamp) (by omega) (by omega)
  all_goals
    unfold RetentionJob.Old
    omega

end Age

section Keys

variable {database ns : String} {rows rows' : OrdMap Bytes Cell}

theorem checkpoints_pfx_eq : checkpoints_pfx database ns =
    (Subspace.of_namespace database ns).metadata.pfx ++ element "cdc_checkpoints" := by
  simp [checkpoints_pfx, encoding.TupleBuilder.build, encoding.TupleBuilder.add_string,
    encoding.TupleBuilder.add_raw_bytes, encoding.TupleBuilder.new, Subspace.pack, element]

theorem checkpoint_key_eq_append (config : ConsumerConfig) :
    checkpoint_key config = checkpoints_pfx config.database config.ns ++ element config.consumer_id := by
  rw [checkpoint_key_eq, checkpoints_pfx_eq, append_assoc]

theorem log_ne_checkpoint {x y : Bytes} :
    (Subspace.of_namespace database ns).cdc.pfx ++ x ≠ checkpoints_pfx database ns ++ y := by
  rw [checkpoints_pfx_eq, append_assoc]
  exact cdc_ne_metadata

theorem range_checkpoints_congr (h : ∀ x, rows'.get (checkpoints_pfx database ns ++ x) =
      rows.get (checkpoints_pfx database ns ++ x)) :
    rows'.range (checkpoints_pfx database ns) (checkpoints_pfx database ns ++ [0xFF]) =
      rows.range (checkpoints_pfx database ns) (checkpoints_pfx database ns ++ [0xFF]) := by
  refine OrdMap.range_congr fun k hlo hhi => ?_
  obtain ⟨x, rfl⟩ := isPrefix_of_le_of_le hlo hhi.le
  exact h x

theorem load_hwm_eq_ok {config : ConsumerConfig} {row : Cell} {hwm : Versionstamp}
    (hrow : rows.get (checkpoint_key config) = some row) (hload : load_hwm rows config = .ok hwm) :
    row = .raw hwm.bytes := by
  rw [load_hwm, hrow] at hload
  cases row with
  | raw =>
    dsimp only at hload
    split at hload
    · next vs hvs =>
      cases hload
      rw [from_bytes] at hvs
      split at hvs
      · cases hvs
        rfl
      · cases hvs
    · cases hload
  | _ => cases hload

end Keys

/-- The cutoff lies at or below every checkpoint. -/
theorem Site.safe_cutoff_le {s : Site} (haware : s.job.checkpoint_aware = true)
    (hregistered : (s.rows.range (checkpoints_pfx s.job.database s.job.ns)
      (checkpoints_pfx s.job.database s.job.ns ++ [0xFF])).length ≤ 1000)
    {config : ConsumerConfig} {vs : Versionstamp} (h : s.Checkpoint config vs) :
    ∃ cutoff, s.job.safe_cutoff s.rows = some cutoff ∧ cutoff ≤ vs := by
  obtain ⟨hdatabase, hns, hget⟩ := h
  rw [checkpoint_key_eq_append, hdatabase, hns] at hget
  have hrow : (checkpoints_pfx s.job.database s.job.ns ++ element config.consumer_id, .raw vs.bytes) ∈
      s.rows.range (checkpoints_pfx s.job.database s.job.ns) (checkpoints_pfx s.job.database s.job.ns ++ [0xFF]) :=
    (s.rows.mem_range).mpr ⟨(s.rows.get_eq_some_iff_mem).mp hget, mem_range_iff.mpr ⟨_, rfl, by simp [element]⟩⟩
  have hmem : vs ∈ (fetch_all_checkpoints s.rows s.job.database s.job.ns).map Prod.snd := by
    rw [← take_of_length_le hregistered] at hrow
    have hstamp : from_bytes vs.bytes = some vs := by simp [from_bytes, vs.length_eq]
    exact mem_map.mpr ⟨_, mem_filterMap.mpr ⟨_, hrow, by simp only [hstamp, Option.map_some]; rfl⟩, rfl⟩
  rw [RetentionJob.safe_cutoff, if_pos haware]
  cases hmin : ((fetch_all_checkpoints s.rows s.job.database s.job.ns).map Prod.snd).min? with
  | none =>
    rw [min?_eq_none_iff] at hmin
    rw [hmin] at hmem
    cases hmem
  | some cutoff => exact ⟨cutoff, rfl, (le_min?_iff hmin).mp le_rfl vs hmem⟩

namespace Phase

def cutoff : Phase → Option (Option Versionstamp)
  | idle => none
  | checked safe_cutoff => some safe_cutoff
  | fetched safe_cutoff _ _ => some safe_cutoff

end Phase

/-- What holds in every state of a run. The cutoff of a batch stays at or below the
checkpoints because these only grow, and no entry from a checkpoint on is lost. -/
structure Site.Sound (s : Site) : Prop where
  aware : s.job.checkpoint_aware = true
  max_lt : s.job.max_retention_secs.toNat < 2 ^ 63
  clock : 0 ≤ s.clock ∧ s.clock < 2 ^ 63
  timestamps : ∀ row ∈ s.log.rows, InI64 row.2.timestamp
  registered : (s.rows.range (checkpoints_pfx s.job.database s.job.ns)
    (checkpoints_pfx s.job.database s.job.ns ++ [0xFF])).length ≤ 1000
  cursor : ∀ k ∈ s.job.progress_cursor, s.job.subspace.pfx ≤ k
  saved : ∀ p ∈ s.saved, ∀ k ∈ p.1, s.job.subspace.pfx ≤ k
  entries : ∀ rest c, s.rows.get (s.job.subspace.pfx ++ rest) = some c →
    ∃ vs e, rest = vs.bytes ∧ c = .cdc e ∧ s.log.get vs = some e
  kept : ∀ config vs, s.Checkpoint config vs → ∀ vs' e, s.log.get vs' = some e → vs ≤ vs' →
    s.rows.get (entry_key s.job.database s.job.ns vs') = some (.cdc e)
  cutoff : ∀ safe_cutoff, s.phase.cutoff = some safe_cutoff → ∀ config vs, s.Checkpoint config vs →
    ∃ cutoff, safe_cutoff = some cutoff ∧ cutoff ≤ vs
  fetched : ∀ safe_cutoff results since, s.phase = .fetched safe_cutoff results since → 0 ≤ since ∧
    ∃ chunk : List LogRow, results = chunk.map (logRow s.job.database s.job.ns) ∧
      ∀ row ∈ chunk, s.log.get row.1 = some row.2

namespace Site

variable {s : Site}

theorem Initial.sound (h : s.Initial) : s.Sound where
  aware := h.aware
  max_lt := h.max_lt
  clock := h.clock
  timestamps := h.timestamps
  registered := h.registered
  cursor := by simp [h.cursor]
  saved := by simp [h.saved]
  entries rest c hget := (h.holds _ c).mp hget
  kept _ _ _ vs' e hlog _ := (h.holds ..).mpr ⟨vs', e, rfl, rfl, hlog⟩
  cutoff := by simp [h.phase, Phase.cutoff]
  fetched := by simp [h.phase]

/-- Changes of the database between the steps of the job: checkpoints grow, and
the log keeps its entries. -/
theorem Sound.with_rows (h : s.Sound) {rows : OrdMap Bytes Cell} {log : OrdMap Versionstamp CdcEntry}
    (hcheckpoint : ∀ config vs, Checkpoint { s with rows := rows, log := log } config vs →
      ∃ vs₀, s.Checkpoint config vs₀ ∧ vs₀ ≤ vs)
    (hregistered : (rows.range (checkpoints_pfx s.job.database s.job.ns)
      (checkpoints_pfx s.job.database s.job.ns ++ [0xFF])).length ≤ 1000)
    (htimestamps : ∀ row ∈ log.rows, InI64 row.2.timestamp)
    (hentries : ∀ rest c, rows.get (s.job.subspace.pfx ++ rest) = some c →
      ∃ vs e, rest = vs.bytes ∧ c = .cdc e ∧ log.get vs = some e)
    (hlog : ∀ vs e, s.log.get vs = some e → log.get vs = some e)
    (hkept : ∀ vs e, log.get vs = some e →
      rows.get (entry_key s.job.database s.job.ns vs) = some (.cdc e) ∨
        s.log.get vs = some e ∧
          rows.get (entry_key s.job.database s.job.ns vs) = s.rows.get (entry_key s.job.database s.job.ns vs)) :
    Sound { s with rows := rows, log := log } where
  aware := h.aware
  max_lt := h.max_lt
  clock := h.clock
  timestamps := htimestamps
  registered := hregistered
  cursor := h.cursor
  saved := h.saved
  entries := hentries
  kept config vs hvs vs' e hget hle := by
    obtain ⟨vs₀, hvs₀, hle₀⟩ := hcheckpoint _ vs hvs
    obtain hnew | ⟨hold, hsame⟩ := hkept _ e hget
    · exact hnew
    · exact hsame.trans (h.kept _ _ hvs₀ _ e hold (hle₀.trans hle))
  cutoff safe_cutoff hphase config vs hvs := by
    obtain ⟨vs₀, hvs₀, hle₀⟩ := hcheckpoint _ vs hvs
    obtain ⟨cutoff, hcutoff, hle⟩ := h.cutoff _ hphase _ _ hvs₀
    exact ⟨cutoff, hcutoff, hle.trans hle₀⟩
  fetched safe_cutoff results since hphase := by
    obtain ⟨hsince, chunk, hresults, hchunk⟩ := h.fetched _ _ _ hphase
    exact ⟨hsince, chunk, hresults, fun row hrow => hlog _ _ (hchunk _ hrow)⟩

variable {config : ConsumerConfig} {vs : Versionstamp}

/-- A checkpoint whose row is left alone. -/
private theorem Checkpoint.congr {rows : OrdMap Bytes Cell} {log : OrdMap Versionstamp CdcEntry}
    (hrows : ∀ x, rows.get (checkpoints_pfx s.job.database s.job.ns ++ x) =
      s.rows.get (checkpoints_pfx s.job.database s.job.ns ++ x)) (hvs : Checkpoint { s with rows := rows, log := log } config vs) :
    ∃ vs₀, s.Checkpoint config vs₀ ∧ vs₀ ≤ vs := by
  obtain ⟨hdatabase, hns, hget⟩ := hvs
  refine ⟨vs, ⟨hdatabase, hns, ?_⟩, le_rfl⟩
  rw [checkpoint_key_eq_append] at hget ⊢
  rw [hdatabase, hns] at hget ⊢
  exact (hrows _).symm.trans hget

section

variable (h : s.Sound)
include h

theorem Sound.append (vs : Versionstamp) (entry : CdcEntry) : (s.step (.append vs entry)).Sound := by
  rw [step]
  split_ifs with hguard
  case neg => exact h
  obtain ⟨hnew, htimestamp⟩ := hguard
  have hcheckpoints (x : Bytes) : (s.rows.set (entry_key s.job.database s.job.ns vs) (.cdc entry)).get
      (checkpoints_pfx s.job.database s.job.ns ++ x) = s.rows.get (checkpoints_pfx s.job.database s.job.ns ++ x) :=
    get_set_of_ne _ _ log_ne_checkpoint.symm
  have hfresh : s.log.get vs = none := by
    rw [OrdMap.get_eq_none_iff]
    exact fun e hmem => lt_irrefl _ (hnew _ hmem)
  refine h.with_rows (fun _ _ hvs => Checkpoint.congr hcheckpoints hvs) ?_ ?_ ?_ ?_ ?_
  · rw [range_checkpoints_congr hcheckpoints]
    exact h.registered
  · intro row hrow
    have hget := (get_eq_some_iff_mem _).mpr hrow
    rw [get_set] at hget
    split_ifs at hget
    · cases hget
      exact htimestamp
    · exact h.timestamps _ ((get_eq_some_iff_mem _).mp hget)
  · intro rest c hget
    rw [get_set] at hget
    split_ifs at hget with hkey
    · cases hget
      exact ⟨vs, entry, append_cancel_left hkey, rfl, get_set_self ..⟩
    · obtain ⟨vs', e, rfl, rfl, hlog⟩ := h.entries _ c hget
      have hne : vs' ≠ vs := fun heq => by simp [heq, hfresh] at hlog
      exact ⟨vs', e, rfl, rfl, (get_set_of_ne _ _ hne).trans hlog⟩
  · intro vs' e hlog
    have hne : vs' ≠ vs := fun heq => by simp [heq, hfresh] at hlog
    exact (get_set_of_ne _ _ hne).trans hlog
  · intro _ e hlog
    rw [get_set] at hlog
    split_ifs at hlog with hvs
    · cases hlog
      exact .inl (by rw [hvs, get_set_self])
    · refine .inr ⟨hlog, get_set_of_ne _ _ fun hkey => hvs ?_⟩
      exact bytes_injective (append_cancel_left hkey)

theorem Sound.acknowledge (reader : CdcConsumer) : (s.step (.acknowledge reader)).Sound := by
  rw [step]
  split
  case h_2 => exact h
  next row hwm hrow hload =>
  split_ifs with hguard
  case neg => exact h
  obtain ⟨hdatabase, hns, hle⟩ := hguard
  have hkey : checkpoint_key reader.config =
      checkpoints_pfx s.job.database s.job.ns ++ element reader.config.consumer_id := by
    rw [checkpoint_key_eq_append, hdatabase, hns]
  have hlog (x : Bytes) : (save_hwm reader s.rows).get (s.job.subspace.pfx ++ x) =
      s.rows.get (s.job.subspace.pfx ++ x) := by
    rw [save_hwm, get_set_of_ne]
    rw [hkey]
    exact log_ne_checkpoint
  refine h.with_rows ?_ ?_ h.timestamps ?_ (fun _ _ hget => hget) fun _ e hget => .inr ⟨hget, hlog _⟩
  · rintro _ vs ⟨hdatabase', hns', hget⟩
    rw [save_hwm, get_set] at hget
    split_ifs at hget with hsame
    · obtain rfl : reader.hwm = vs := bytes_injective (by simpa using hget)
      exact ⟨hwm, ⟨hdatabase', hns', by rw [hsame, hrow, load_hwm_eq_ok hrow hload]⟩, hle⟩
    · exact ⟨vs, ⟨hdatabase', hns', hget⟩, le_rfl⟩
  · refine (OrdMap.length_range_congr fun k _ _ => ?_).trans_le h.registered
    rw [save_hwm, get_set]
    split_ifs with hsame
    · rw [hsame, hrow]
      rfl
    · rfl
  · intro rest c hget
    exact h.entries _ c ((hlog _).symm.trans hget)

theorem Sound.write (key : Bytes) (cell : Option Cell) : (s.step (.write key cell)).Sound := by
  rw [step]
  split_ifs with hguard
  · exact h
  obtain ⟨hlog, hcheckpoint⟩ := not_or.mp hguard
  have hget (k : Bytes) (hne : k ≠ key) :
      (cell.elim (s.rows.clear key) fun c => s.rows.set key c).get k = s.rows.get k := by
    cases cell with
    | none => exact OrdMap.get_clear_of_ne _ hne
    | some => exact get_set_of_ne _ _ hne
  have hcheckpoints (x : Bytes) := hget _
    fun heq => hcheckpoint ⟨x, heq⟩
  have hentry (x : Bytes) := hget _ fun heq => hlog ⟨x, heq⟩
  refine h.with_rows (fun _ _ hvs => Checkpoint.congr hcheckpoints hvs) ?_ h.timestamps ?_
    (fun _ _ hold => hold) fun _ e hold => .inr ⟨hold, hentry _⟩
  · rw [range_checkpoints_congr hcheckpoints]
    exact h.registered
  · intro rest c hrow
    exact h.entries _ c ((hentry _).symm.trans hrow)

theorem Sound.tick (now : Int) : (s.step (.tick now)).Sound := by
  rw [step]
  split_ifs with hguard
  case neg => exact h
  exact { h with clock := ⟨h.clock.1.trans hguard.1, hguard.2⟩ }

theorem Sound.read_checkpoints : (s.step .read_checkpoints).Sound := by
  rw [step]
  split
  case h_2 => exact h
  refine { h with
    cutoff := fun _ hphase _ _ hvs => ?_
    fetched := fun _ _ _ hphase => by cases hphase }
  cases hphase
  exact safe_cutoff_le h.aware h.registered hvs

/-- A scan finds entries of the log only. -/
theorem Sound.exists_logRow {batch_size : Nat} {result : Bytes × Cell}
    (hresult : result ∈ s.job.scan batch_size s.rows) :
    ∃ row, result = logRow s.job.database s.job.ns row ∧ s.log.get row.1 = some row.2 := by
  obtain ⟨hmem, hlo, hhi⟩ := s.rows.mem_range.mp (mem_of_mem_take hresult)
  have hstart : s.job.subspace.pfx ≤ s.job.progress_cursor.getD s.job.subspace.pfx := by
    cases hcursor : s.job.progress_cursor with
    | none => exact le_rfl
    | some k => exact h.cursor k hcursor
  obtain ⟨rest, hkey⟩ := isPrefix_of_le_of_le (hstart.trans hlo) hhi.le
  have hget := s.rows.get_eq_some_iff_mem.mpr hmem
  rw [← hkey] at hget
  obtain ⟨vs, e, rfl, hcell, hlog⟩ := h.entries _ _ hget
  exact ⟨(vs, e), Prod.ext hkey.symm hcell, hlog⟩

theorem Sound.read_range (batch_size : Nat) : (s.step (.read_range batch_size)).Sound := by
  rw [step]
  split
  case h_2 => exact h
  next safe_cutoff hphase =>
  dsimp only
  split_ifs with hempty
  · refine { h with
      cutoff := fun _ hphase => by cases hphase
      fetched := fun _ _ _ hphase => by cases hphase }
  · refine { h with
      cutoff := fun _ hphase' _ vs hvs => ?_
      fetched := fun _ _ _ hphase' => ?_ }
    · cases hphase'
      exact h.cutoff _ (by rw [hphase]; rfl) _ vs hvs
    · cases hphase'
      exact ⟨h.clock.1, exists_chunk fun _ hresult => h.exists_logRow hresult⟩

/-- What a commit deletes: entries below every checkpoint that are old enough. -/
theorem Sound.deleted {safe_cutoff : Option Versionstamp} {results : List (Bytes × Cell)} {since : Int}
    (hphase : s.phase = .fetched safe_cutoff results since) {now_us : Nat → Int}
    (hclock : ∀ i < results.length, since ≤ now_us i ∧ now_us i ≤ s.clock) {k : Bytes}
    (hk : k ∈ (s.job.sweep safe_cutoff now_us 0 results).1) :
    ∃ vs e, k = entry_key s.job.database s.job.ns vs ∧ s.log.get vs = some e ∧
      (∀ config c, s.Checkpoint config c → vs < c) ∧ s.job.Old s.clock e := by
  obtain ⟨hsince, chunk, rfl, hchunk⟩ := h.fetched _ _ _ hphase
  obtain ⟨j, row, hrow, rfl, hexpired⟩ := mem_sweep (r := ⟨safe_cutoff, 0, now_us⟩) hk
  have hmem : row ∈ chunk := mem_of_getElem? hrow
  obtain ⟨hj, -⟩ := List.getElem?_eq_some_iff.mp hrow
  obtain ⟨hlo, hhi⟩ := hclock j (by simpa using hj)
  rw [zero_add, Round.expired, Bool.and_eq_true, Bool.not_eq_true', Bool.not_eq_true'] at hexpired
  obtain ⟨hbelow, hold⟩ := hexpired
  refine ⟨row.1, row.2, rfl, hchunk _ hmem, fun _ c hc => ?_, ?_⟩
  · obtain ⟨cutoff, rfl, hle⟩ := h.cutoff _ (by rw [hphase]; rfl) _ c hc
    have hlt : row.1 < cutoff := by simpa using hbelow
    exact hlt.trans_le hle
  · refine RetentionJob.Old.mono (old_of_not_young h.max_lt ⟨hsince.trans hlo, hhi.trans_lt h.clock.2⟩ ?_ hold) hhi
    exact h.timestamps _ ((get_eq_some_iff_mem _).mp (hchunk _ hmem))

/-- Deleting entries below every checkpoint. -/
theorem Sound.clear {keys : List Bytes}
    (hkeys : ∀ k ∈ keys, ∃ vs, k = entry_key s.job.database s.job.ns vs ∧ ∀ config c, s.Checkpoint config c → vs < c) :
    Sound { s with rows := clearAll s.rows keys } := by
  have hcheckpoints (x : Bytes) : (clearAll s.rows keys).get (checkpoints_pfx s.job.database s.job.ns ++ x) =
      s.rows.get (checkpoints_pfx s.job.database s.job.ns ++ x) := by
    rw [get_clearAll, if_neg]
    intro hmem
    obtain ⟨vs, heq, -⟩ := hkeys _ hmem
    exact log_ne_checkpoint heq.symm
  have hcheckpoint {config : ConsumerConfig} {vs : Versionstamp}
      (hvs : Checkpoint { s with rows := clearAll s.rows keys } config vs) :
      ∃ vs₀, s.Checkpoint config vs₀ ∧ vs₀ ≤ vs :=
    Checkpoint.congr hcheckpoints hvs
  refine { h with
    registered := ?_
    entries := fun rest c hget => ?_
    kept := fun _ _ hvs vs' e hlog hle => ?_
    cutoff := fun _ hphase _ _ hvs => ?_ }
  · rw [range_checkpoints_congr hcheckpoints]
    exact h.registered
  · rw [get_clearAll] at hget
    split_ifs at hget
    exact h.entries _ c hget
  · obtain ⟨vs₀, hvs₀, hle₀⟩ := hcheckpoint hvs
    rw [get_clearAll, if_neg]
    · exact h.kept _ _ hvs₀ _ e hlog (hle₀.trans hle)
    · intro hmem
      obtain ⟨vs'', heq, hbelow⟩ := hkeys _ hmem
      obtain rfl : vs' = vs'' := bytes_injective (append_cancel_left heq)
      exact absurd (hbelow _ _ hvs₀) (not_lt.mpr (hle₀.trans hle))
  · obtain ⟨vs₀, hvs₀, hle₀⟩ := hcheckpoint hvs
    obtain ⟨cutoff, hcutoff, hle⟩ := h.cutoff _ hphase _ _ hvs₀
    exact ⟨cutoff, hcutoff, hle.trans hle₀⟩

/-- Between batches only the cursor matters. -/
theorem Sound.progress {progress_cursor : Option Bytes} (processed_items : Nat)
    (hcursor : ∀ k ∈ progress_cursor, s.job.subspace.pfx ≤ k) : Sound { s with
      job := { s.job with progress_cursor := progress_cursor, processed_items := processed_items }
      phase := .idle } :=
  { h with
    cursor := hcursor
    cutoff := fun _ hphase => by cases hphase
    fetched := fun _ _ _ hphase => by cases hphase }

theorem Sound.commit (now_us : Nat → Int) (committed : Bool) : (s.step (.commit now_us committed)).Sound := by
  rw [step]
  split
  case h_2 => exact h
  next safe_cutoff results since hphase =>
  by_cases hclock : ∀ i < results.length, since ≤ now_us i ∧ now_us i ≤ s.clock
  case neg => rwa [if_neg hclock]
  have hcursor : ∀ k ∈ (s.job.advance results (s.job.sweep safe_cutoff now_us 0 results).2).progress_cursor,
      s.job.subspace.pfx ≤ k := by
    obtain ⟨-, _, rfl, -⟩ := h.fetched _ _ _ hphase
    intro k hk
    rw [RetentionJob.advance] at hk
    split at hk
    · next last_key _ hlast =>
      cases hk
      obtain ⟨row, -, hrow⟩ := mem_map.mp (mem_of_getLast? hlast)
      obtain rfl : entry_key s.job.database s.job.ns row.1 = last_key := congrArg Prod.fst hrow
      rw [entry_key, append_assoc]
      exact le_append ..
    · exact h.cursor k hk
  rw [if_pos hclock]
  cases committed with
  | false => exact h.progress _ hcursor
  | true =>
    refine progress (h.clear fun k hk => ?_) _ hcursor
    obtain ⟨vs, e, hkey, -, hbelow, -⟩ := h.deleted hphase hclock hk
    exact ⟨vs, hkey, hbelow⟩

theorem Sound.save : (s.step .save).Sound :=
  { h with
    saved := fun p hp => by
      obtain rfl | hp := mem_cons.mp hp
      · exact h.cursor
      · exact h.saved p hp }

theorem Sound.resume (i : Nat) : (s.step (.resume i)).Sound := by
  refine h.progress _ fun k hk => ?_
  cases hi : s.saved[i]? with
  | none => simp [hi] at hk
  | some p => exact h.saved p (mem_of_getElem? hi) k (by simpa [hi] using hk)

theorem Sound.step (event : Event) : (s.step event).Sound := by
  cases event with
  | append vs entry => exact h.append vs _
  | acknowledge reader => exact h.acknowledge _
  | write key cell => exact h.write _ _
  | tick now => exact h.tick _
  | read_checkpoints => exact h.read_checkpoints
  | read_range batch_size => exact h.read_range _
  | commit now_us committed => exact h.commit ..
  | save => exact h.save
  | resume i => exact h.resume i

theorem Sound.exec (events : List Event) : (s.exec events).Sound := by
  induction events generalizing s with
  | nil => exact h
  | cons event _ ih => exact ih (h.step _)

end

/-- The only step that deletes an entry is a commit. -/
theorem deleted_by_commit {event : Event} (hhere : s.rows.get (entry_key s.job.database s.job.ns vs) ≠ none)
    (hgone : (s.step event).rows.get (entry_key s.job.database s.job.ns vs) = none) :
    ∃ safe_cutoff results since now_us, s.phase = .fetched safe_cutoff results since ∧
      (∀ i < results.length, since ≤ now_us i ∧ now_us i ≤ s.clock) ∧
      entry_key s.job.database s.job.ns vs ∈ (s.job.sweep safe_cutoff now_us 0 results).1 := by
  have hset {k : Bytes} {c : Cell} : (s.rows.set k c).get (entry_key s.job.database s.job.ns vs) ≠ none := by
    rw [get_set]
    split <;> simp [hhere]
  cases event with
  | append =>
    rw [step] at hgone
    split at hgone
    · exact absurd hgone hset
    · exact absurd hgone hhere
  | acknowledge =>
    rw [step] at hgone
    split at hgone
    · split at hgone
      · exact absurd hgone hset
      · exact absurd hgone hhere
    · exact absurd hgone hhere
  | write key cell =>
    rw [step] at hgone
    split_ifs at hgone with hguard
    · exact absurd hgone hhere
    · cases cell with
      | none =>
        have hne : entry_key s.job.database s.job.ns vs ≠ key := fun heq => hguard (.inl ⟨_, heq⟩)
        exact absurd ((OrdMap.get_clear_of_ne _ hne).symm.trans hgone) hhere
      | some => exact absurd hgone hset
  | tick | read_checkpoints => rw [step] at hgone; split at hgone <;> exact absurd hgone hhere
  | read_range =>
    rw [step] at hgone
    split at hgone
    · dsimp only at hgone
      split at hgone <;> exact absurd hgone hhere
    · exact absurd hgone hhere
  | commit now_us committed =>
    rw [step] at hgone
    split at hgone
    case h_2 => exact absurd hgone hhere
    next safe_cutoff results since hphase =>
    split at hgone
    case isFalse => exact absurd hgone hhere
    next hclock =>
    cases committed with
    | false => exact absurd hgone hhere
    | true =>
      refine ⟨safe_cutoff, results, since, now_us, hphase, hclock, ?_⟩
      by_contra hmem
      exact absurd ((get_clearAll ..).trans (if_neg hmem) |>.symm.trans hgone) hhere
  | save | resume => exact absurd hgone hhere

/-- No step changes what the job was asked to do. -/
theorem step_job (s : Site) (event : Event) : ∃ progress_cursor processed_items,
    (s.step event).job = { s.job with progress_cursor := progress_cursor, processed_items := processed_items } := by
  cases event with
  | append | write | tick | read_checkpoints => rw [step]; split <;> exact ⟨_, _, rfl⟩
  | acknowledge | commit =>
    rw [step]
    split
    · split <;> exact ⟨_, _, rfl⟩
    · exact ⟨_, _, rfl⟩
  | read_range =>
    rw [step]
    split
    · dsimp only
      split <;> exact ⟨_, _, rfl⟩
    · exact ⟨_, _, rfl⟩
  | save | resume => exact ⟨_, _, rfl⟩

theorem exec_job (s : Site) (events : List Event) : ∃ progress_cursor processed_items, (s.exec events).job =
      { s.job with progress_cursor := progress_cursor, processed_items := processed_items } := by
  induction events generalizing s with
  | nil => exact ⟨_, _, rfl⟩
  | cons event _ ih =>
    obtain ⟨progress_cursor, processed_items, hjob⟩ := ih _
    obtain ⟨_, _, hstep⟩ := s.step_job _
    exact ⟨progress_cursor, processed_items, hjob.trans (by rw [hstep])⟩

/-- The entries that are still there. -/
def live (s : Site) : OrdMap Versionstamp CdcEntry :=
  ⟨s.log.rows.filter fun row => (s.rows.get (entry_key s.job.database s.job.ns row.1)).isSome, s.log.sorted.filter _⟩

theorem Sound.holdsLog_live (h : s.Sound) : HoldsLog s.job.database s.job.ns s.rows s.live := by
  intro rest c
  constructor
  · intro hget
    obtain ⟨vs, e, rfl, rfl, hlog⟩ := h.entries _ c hget
    refine ⟨vs, e, rfl, rfl, (get_eq_some_iff_mem _).mpr (mem_filter.mpr ⟨?_, ?_⟩)⟩
    · exact (get_eq_some_iff_mem _).mp hlog
    · exact Option.isSome_of_eq_some hget
  · rintro ⟨vs, e, rfl, rfl, hlive⟩
    obtain ⟨hmem, hsome⟩ := mem_filter.mp ((get_eq_some_iff_mem _).mp hlive)
    obtain ⟨c, hget⟩ := Option.isSome_iff_exists.mp hsome
    obtain ⟨vs', _, hvs, rfl, hlog⟩ := h.entries _ c hget
    obtain rfl := bytes_injective hvs
    rw [(get_eq_some_iff_mem _).mpr hmem] at hlog
    cases hlog
    exact hget

/-- Behind a checkpoint nothing is missing. -/
theorem Sound.after_live (h : s.Sound) {c : Versionstamp} (hc : s.Checkpoint config c) :
    s.live.after (cursorOf c) = s.log.after (cursorOf c) := by
  rw [OrdMap.after, live, filter_filter]
  refine filter_congr fun row hrow => ?_
  by_cases hafter : cursorOf c < (row.1 : WithBot Versionstamp)
  · have hle : c ≤ row.1 := by
      by_cases hzero : c = zero
      · exact hzero ▸ zero_le _
      · rw [cursorOf_of_ne hzero] at hafter
        exact (WithBot.coe_lt_coe.mp hafter).le
    simp [hafter, h.kept _ c hc _ _ ((get_eq_some_iff_mem _).mpr hrow) hle]
  · simp [hafter]

/-- A consumer that starts again from its checkpoint reads every entry behind it
that the log has had. -/
theorem Sound.poll_batch_eq (h : s.Sound) {c : Versionstamp} (hc : s.Checkpoint config c)
    (hregular : c.Regular) : consumer.new s.rows config = .ok ⟨config, c⟩ ∧ poll_batch ⟨config, c⟩ s.rows =
        .ok (((s.log.after (cursorOf c)).filter fun row => decide row.1.Regular).take config.batch_size) := by
  have hload : load_hwm s.rows config = .ok c := by
    rw [load_hwm, hc.2.2]
    simp [from_bytes, c.length_eq]
  have hread := read_cdc_entries_eq h.holdsLog_live (after_ne_last hregular) config.batch_size
  rw [← hc.1, ← hc.2.1] at hread
  refine ⟨by rw [consumer.new, hload]; rfl, hread.trans ?_⟩
  rw [show position (after c) = cursorOf c from rfl, h.after_live hc]

/-- What is deleted lies below every checkpoint and is old enough. -/
theorem Sound.of_deleted (h : s.Sound) {event : Event} {e : CdcEntry}
    (hhere : s.rows.get (entry_key s.job.database s.job.ns vs) = some (.cdc e))
    (hgone : (s.step event).rows.get (entry_key s.job.database s.job.ns vs) = none) :
    (∀ config c, s.Checkpoint config c → vs < c) ∧ s.job.Old s.clock e := by
  obtain ⟨safe_cutoff, _, _, _, hphase, hclock, hmem⟩ :=
    deleted_by_commit (by simp [hhere]) hgone
  obtain ⟨vs', _, hkey, hlog, hbelow, hold⟩ := h.deleted hphase hclock hmem
  obtain rfl : vs = vs' := bytes_injective (append_cancel_left hkey)
  obtain ⟨_, _, hvs, hcell, hlog'⟩ := h.entries _ _ hhere
  obtain rfl := bytes_injective hvs
  cases hcell
  rw [hlog'] at hlog
  cases hlog
  exact ⟨hbelow, hold⟩

end Site

/-- Retention spares what consumers still need. In every run of a job that minds
the checkpoints, an entry that is deleted lies below every checkpoint of its
namespace and is old enough, and from each checkpoint on no entry is missing. -/
theorem retention_spares_unread {s : Site} (h : s.Initial) (events : List Event) :
    (∀ event vs e, (s.exec events).rows.get (entry_key s.job.database s.job.ns vs) = some (.cdc e) →
      ((s.exec events).step event).rows.get (entry_key s.job.database s.job.ns vs) = none →
      (∀ config c, (s.exec events).Checkpoint config c → vs < c) ∧ s.job.Old (s.exec events).clock e) ∧
    ∀ config c, (s.exec events).Checkpoint config c →
      (∀ vs e, (s.exec events).log.get vs = some e → c ≤ vs →
        (s.exec events).rows.get (entry_key s.job.database s.job.ns vs) = some (.cdc e)) ∧
      (c.Regular → consumer.new (s.exec events).rows config = .ok ⟨config, c⟩ ∧
        poll_batch ⟨config, c⟩ (s.exec events).rows =
          .ok ((((s.exec events).log.after (cursorOf c)).filter fun row => decide row.1.Regular).take
            config.batch_size)) := by
  have hsound := h.sound.exec events
  obtain ⟨progress_cursor, _, hjob⟩ := s.exec_job _
  have hkey (vs : Versionstamp) : entry_key s.job.database s.job.ns vs =
      entry_key (s.exec events).job.database (s.exec events).job.ns vs := by rw [hjob]
  have hold (now : Int) (e : CdcEntry) : s.job.Old now e ↔ (s.exec events).job.Old now e := by
    rw [hjob]
    rfl
  refine ⟨fun event vs e hhere hgone => ?_, fun config c hc => ⟨fun vs e hlog hle => ?_, hsound.poll_batch_eq hc⟩⟩
  · rw [hold]
    rw [hkey] at hhere hgone
    exact hsound.of_deleted hhere hgone
  · rw [hkey]
    exact hsound.kept _ c hc vs e hlog hle

section Ahead

private def firstStamp : Versionstamp := .ofVersion 1

private def secondStamp : Versionstamp := .ofVersion 2

/-- Half a second ahead of the site's clock. -/
private def aheadEntry : CdcEntry := ⟨"2", 1500000, []⟩

/-- A consumer that has acknowledged more than the log holds, and a job without a
least age. -/
private def aheadSite : Site where
  rows := save_hwm ⟨⟨"c", "db", "ns", 10⟩, secondStamp⟩
    (OrdMap.empty.set (entry_key "db" "ns" firstStamp) (.cdc aheadEntry))
  clock := 1000000
  job := ⟨"db", "ns", 0, true, none, 0⟩
  phase := .idle
  saved := []
  log := OrdMap.empty.set firstStamp aheadEntry

private theorem aheadSite_initial : aheadSite.Initial where
  aware := rfl
  max_lt := by decide
  clock := by decide
  holds := by
    have hempty : HoldsLog "db" "ns" (.empty : OrdMap Bytes Cell) .empty := by simp [HoldsLog]
    exact holdsLog_save (hempty.append _) _
  timestamps := by decide +kernel
  registered := by decide +kernel
  cursor := rfl
  phase := rfl
  saved := rfl

/-- An entry with a time still to come counts as zero seconds old. -/
theorem retention_deletes_ahead :
    aheadSite.Initial ∧
      (aheadSite.exec [.read_checkpoints, .read_range 1000]).rows.get (entry_key "db" "ns" firstStamp) =
        some (.cdc aheadEntry) ∧
      ((aheadSite.exec [.read_checkpoints, .read_range 1000]).step (.commit (fun _ => 1000000) true)).rows.get
        (entry_key "db" "ns" firstStamp) = none ∧
      ¬ (aheadSite.job.max_retention_secs.toNat * 1000000 ≤
        (aheadSite.exec [.read_checkpoints, .read_range 1000]).clock - aheadEntry.timestamp) :=
  ⟨aheadSite_initial, by decide +kernel, by decide +kernel, by decide +kernel⟩

theorem ahead_below_checkpoints :
    aheadSite.Initial ∧
      ∀ config c, (aheadSite.exec [.read_checkpoints, .read_range 1000]).Checkpoint config c → firstStamp < c :=
  ⟨aheadSite_initial,
    ((retention_spares_unread aheadSite_initial [.read_checkpoints, .read_range 1000]).1
      (.commit (fun _ => 1000000) true) firstStamp aheadEntry (by decide +kernel) (by decide +kernel)).1⟩

end Ahead

end pelago_storage.job_executor
