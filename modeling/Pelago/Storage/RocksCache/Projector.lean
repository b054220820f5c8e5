import Pelago.Storage.Consumer
import Pelago.Storage.RocksCache

open bytes kv pelago_core List

namespace pelago_storage

/-- The version of the transaction: the first eight bytes. -/
def versionstamp_tx_version (vs : Versionstamp) : Nat := beValue (vs.bytes.take 8)

theorem versionstamp_tx_version_eq (vs : Versionstamp) : versionstamp_tx_version vs = beValue vs.bytes / 256 ^ 2 := by
  have hlow : (vs.bytes.drop 8).length = 2 := by rw [length_drop, vs.length_eq]
  have hlt := beValue_lt (vs.bytes.drop 8)
  have hvalue := beValue_append (vs.bytes.take 8) (vs.bytes.drop 8)
  rw [take_append_drop, hlow] at hvalue
  rw [hlow] at hlt
  rw [versionstamp_tx_version]
  omega

theorem versionstamp_tx_version_mono {vs vs' : Versionstamp} (h : vs ≤ vs') :
    versionstamp_tx_version vs ≤ versionstamp_tx_version vs' := by
  have hle : beValue vs.bytes ≤ beValue vs'.bytes := by
    rw [← not_lt, ← lt_iff_beValue_lt (vs'.length_eq.trans vs.length_eq.symm)]
    exact not_lt.mpr h
  rw [versionstamp_tx_version_eq, versionstamp_tx_version_eq]
  exact Nat.div_le_div_right hle

theorem lt_of_tx_version_lt {vs vs' : Versionstamp} (h : versionstamp_tx_version vs < versionstamp_tx_version vs') :
    vs < vs' := by
  by_contra hle
  exact absurd (versionstamp_tx_version_mono (not_lt.mp hle)) (not_le.mpr h)

/-- Commit versions are positive numbers of 63 bits, so that scans see them. -/
theorem regular_of_tx_version_lt {vs : Versionstamp} (h : versionstamp_tx_version vs < 2 ^ 63) : vs.Regular := by
  obtain ⟨bs, hlength⟩ := vs
  cases bs with
  | nil => cases hlength
  | cons b rest =>
    intro hhead
    obtain rfl : b = 0xFF := by simpa using hhead
    rw [versionstamp_tx_version_eq] at h
    simp only [beValue, length_cons] at h hlength
    obtain hrest : rest.length = 9 := by omega
    rw [hrest] at h
    simp at h
    omega

namespace rocks_cache

open consumer

def MAX_ADAPTIVE_DRAIN_WINDOWS : Nat := 8

/-- A projector. Its consumer has the database, the namespace and the batch size. -/
structure CdcProjector where
  consumer : CdcConsumer
  adaptive_drain_windows : Nat
  max_adaptive_drain_windows : Nat

/-- Entries taken together: the operations of all, with the versionstamp and the
time of the last. -/
structure FlattenedBatch where
  hwm : Versionstamp
  timestamp : Int
  operations : List CdcOperation

def FlattenedBatch.from_entries (entries : List (Versionstamp × CdcEntry)) : Option FlattenedBatch :=
  match entries.getLast? with
  | none => none
  | some (hwm, last) => some ⟨hwm, last.timestamp, entries.flatMap fun (_, entry) => entry.operations⟩

def next_adaptive_drain_window (current_window max_window base_batch_size entries_processed : Nat)
    (exhausted_with_full_batch : Bool) : Nat :=
  let current_window := max current_window 1
  let max_window := max max_window 1
  let base_batch_size := max base_batch_size 1
  if exhausted_with_full_batch then min (current_window * 2) max_window
  else if entries_processed < base_batch_size then max (current_window - 1) 1
  else current_window

namespace CdcProjector

def new (rows : OrdMap Bytes Cell) (config : ConsumerConfig) : Except PelagoError CdcProjector := do
  let consumer ← consumer.new rows config
  pure ⟨consumer, 1, MAX_ADAPTIVE_DRAIN_WINDOWS⟩

/-- The loop over further windows: what has been drained, how many windows, and
whether the last one was full. A poll does not move the consumer and a full one
is not changed by entries that come later, so all windows see the same rows. -/
def drain (self : CdcProjector) (rows : OrdMap Bytes Cell) :
    Nat → List (Versionstamp × CdcEntry) → Nat → Bool →
      Except PelagoError (List (Versionstamp × CdcEntry) × Nat × Bool)
  | 0, drained_entries, drained_windows, last_batch_full => .ok (drained_entries, drained_windows, last_batch_full)
  | more + 1, drained_entries, drained_windows, last_batch_full =>
    if last_batch_full then
      match poll_batch self.consumer rows with
      | .error e => .error e
      | .ok [] => .ok (drained_entries, drained_windows, false)
      | .ok next_entries =>
        self.drain rows more (drained_entries ++ next_entries) (drained_windows + 1)
          (decide (self.consumer.config.batch_size ≤ next_entries.length))
    else .ok (drained_entries, drained_windows, last_batch_full)

/-- One turn: what has been polled is applied to the cache and acknowledged. The
flag tells whether the consumer's checkpoint is due. -/
def project_batch (self : CdcProjector) (cache : RocksCacheStore) (rows : OrdMap Bytes Cell) (elapsed : Bool)
    (now_ms : Nat) : Except PelagoError (CdcProjector × RocksCacheStore × OrdMap Bytes Cell) := do
  let config := self.consumer.config
  let entries ← poll_batch self.consumer rows
  if entries.isEmpty then
    pure ({ self with
      adaptive_drain_windows := next_adaptive_drain_window self.adaptive_drain_windows self.max_adaptive_drain_windows
        config.batch_size 0 false }, cache, rows)
  else
    let (drained_entries, drained_windows, last_batch_full) ←
      self.drain rows (self.adaptive_drain_windows - 1) entries 1 (decide (config.batch_size ≤ entries.length))
    let exhausted_with_full_batch := drained_windows == self.adaptive_drain_windows && last_batch_full
    let windows := next_adaptive_drain_window self.adaptive_drain_windows self.max_adaptive_drain_windows
      config.batch_size drained_entries.length exhausted_with_full_batch
    match FlattenedBatch.from_entries drained_entries with
    | some flattened =>
      let cache := cache.apply_cdc_operations config.database config.ns flattened.operations flattened.timestamp
        flattened.hwm now_ms
      let (consumer, rows) := ack_through self.consumer flattened.hwm elapsed rows
      pure ({ self with consumer := consumer, adaptive_drain_windows := windows }, cache, rows)
    | none => pure ({ self with adaptive_drain_windows := windows }, cache, rows)

/-- What a turn passes to the cache, the windows it polls and whether the last of
them is full. -/
def drained (self : CdcProjector) (rows : OrdMap Bytes Cell) :
    Except PelagoError (List (Versionstamp × CdcEntry) × Nat × Bool) := do
  let entries ← poll_batch self.consumer rows
  if entries.isEmpty then pure ([], 1, false)
  else
    self.drain rows (self.adaptive_drain_windows - 1) entries 1
      (decide (self.consumer.config.batch_size ≤ entries.length))

section Spec

variable {self : CdcProjector} {rows : OrdMap Bytes Cell} {entries : List (Versionstamp × CdcEntry)}

theorem drain_full (hpoll : poll_batch self.consumer rows = .ok entries) (hne : entries ≠ [])
    (hfull : self.consumer.config.batch_size ≤ entries.length) (more windows : Nat)
    (drained_entries : List (Versionstamp × CdcEntry)) : self.drain rows more drained_entries windows true =
      .ok (drained_entries ++ (replicate more entries).flatten, windows + more, true) := by
  induction more generalizing drained_entries windows with
  | zero => simp [drain]
  | succ more ih =>
    obtain ⟨entry, _, rfl⟩ := exists_cons_of_ne_nil hne
    rw [drain, if_pos rfl, hpoll]
    dsimp only
    rw [decide_eq_true hfull, ih, append_assoc, replicate_succ, flatten_cons, add_right_comm, add_assoc]

/-- The windows after the first of a turn that finds the entries. -/
def further (self : CdcProjector) (entries : List (Versionstamp × CdcEntry)) : Nat :=
  if self.consumer.config.batch_size ≤ entries.length then self.adaptive_drain_windows - 1 else 0

/-- Every window finds the entries of the first. -/
theorem drained_eq (hpoll : poll_batch self.consumer rows = .ok entries) (hne : entries ≠ []) :
    self.drained rows = .ok ((replicate (self.further entries + 1) entries).flatten, self.further entries + 1,
      decide (self.consumer.config.batch_size ≤ entries.length)) := by
  have hsome : entries.isEmpty = false := by simp [hne]
  rw [drained, hpoll, further, replicate_succ, flatten_cons]
  simp only [bind, Except.bind, hsome, Bool.false_eq_true, if_false]
  by_cases hfull : self.consumer.config.batch_size ≤ entries.length
  · rw [decide_eq_true hfull, drain_full hpoll hne hfull, if_pos hfull, add_comm]
  · rw [decide_eq_false hfull, if_neg hfull]
    cases self.adaptive_drain_windows - 1 <;> simp [drain]

theorem project_batch_nil (hpoll : poll_batch self.consumer rows = .ok []) (cache : RocksCacheStore) (elapsed : Bool)
    (now_ms : Nat) : ∃ windows, self.project_batch cache rows elapsed now_ms =
      .ok ({ self with adaptive_drain_windows := windows }, cache, rows) := by
  rw [project_batch, hpoll]
  exact ⟨_, rfl⟩

/-- What a turn does with the entries it finds: they may be applied several times in
a row, as one batch that ends with the last of them. -/
theorem project_batch_eq {front : List (Versionstamp × CdcEntry)} {hwm : Versionstamp} {last : CdcEntry}
    (hpoll : poll_batch self.consumer rows = .ok (front ++ [(hwm, last)])) (cache : RocksCacheStore) (elapsed : Bool)
    (now_ms : Nat) : ∃ n windows, self.project_batch cache rows elapsed now_ms = .ok ({ self with
          consumer := (ack_through self.consumer hwm elapsed rows).1
          adaptive_drain_windows := windows },
        cache.apply_cdc_operations self.consumer.config.database self.consumer.config.ns
          ((replicate (n + 1) (front ++ [(hwm, last)])).flatten.flatMap fun (_, entry) => entry.operations)
          last.timestamp hwm now_ms,
        (ack_through self.consumer hwm elapsed rows).2) := by
  have hdrain := drained_eq hpoll (by simp)
  have hsome : (front ++ [(hwm, last)]).isEmpty = false := by simp
  rw [drained, hpoll] at hdrain
  simp only [bind, Except.bind, hsome, Bool.false_eq_true, if_false] at hdrain
  have hlast (n : Nat) : (replicate (n + 1) (front ++ [(hwm, last)])).flatten.getLast? = some (hwm, last) := by
    simp
  rw [project_batch, hpoll]
  simp only [bind, Except.bind, hsome, Bool.false_eq_true, if_false, hdrain, FlattenedBatch.from_entries, hlast]
  exact ⟨_, _, rfl⟩

end Spec

end CdcProjector

inductive ReadConsistency where
  | Strong
  | Session
  | Eventual
  deriving DecidableEq

inductive CacheFallbackReason where
  | StrongForcedFdb
  | CacheCold
  | StaleHwm
  | StaleFreshnessBudget
  | KeyAbsent
  deriving DecidableEq

inductive SessionCacheState where
  | Fresh
  | Cold
  | StaleHwm
  deriving DecidableEq

def SessionCacheState.fallback_reason : SessionCacheState → CacheFallbackReason
  | Fresh => .KeyAbsent
  | Cold => .CacheCold
  | StaleHwm => .StaleHwm

structure CacheFreshnessBudgets where
  eventual_max_lag_ms : Option Nat
  session_max_lag_ms : Option Nat

def freshness_budget_violation_reason (max_lag_ms : Option Nat) (cache_hwm_is_zero : Bool)
    (cache_updated_at_ms : Option Nat) (now_ms : Nat) : Option CacheFallbackReason :=
  match max_lag_ms with
  | none => none
  | some max_lag_ms =>
    if cache_hwm_is_zero then some .CacheCold
    else
      match cache_updated_at_ms with
      | none => some .StaleFreshnessBudget
      | some cache_updated_at_ms =>
        if max_lag_ms < now_ms - cache_updated_at_ms then some .StaleFreshnessBudget else none

/-- Reads through the cache: a value, or why the database has to be asked. -/
structure CachedReadPath where
  cache : RocksCacheStore
  freshness_budgets : CacheFreshnessBudgets

namespace CachedReadPath

/-- The read version is compared as an unsigned number. -/
def session_cache_state_for_read_version (self : CachedReadPath) (read_version : Int) : SessionCacheState :=
  let cache_hwm := self.cache.get_hwm
  if cache_hwm.is_zero then .Cold
  else if (read_version % 2 ^ 64).toNat ≤ versionstamp_tx_version cache_hwm then .Fresh
  else .StaleHwm

def freshness_budget_violation (self : CachedReadPath) (consistency : ReadConsistency) (now_ms : Nat) :
    Option CacheFallbackReason :=
  let max_lag_ms := match consistency with
    | .Strong => none
    | .Session => self.freshness_budgets.session_max_lag_ms
    | .Eventual => self.freshness_budgets.eventual_max_lag_ms
  freshness_budget_violation_reason max_lag_ms self.cache.get_hwm.is_zero self.cache.hwm_updated_at_ms now_ms

def lookup (self : CachedReadPath) (db ns entity_type node_id : String) : Except CacheFallbackReason StoredNode :=
  match self.cache.get_node db ns entity_type node_id with
  | some node => .ok node
  | none => .error .KeyAbsent

def get_node (self : CachedReadPath) (db ns entity_type node_id : String) (consistency : ReadConsistency)
    (read_version : Int) (now_ms : Nat) : Except CacheFallbackReason StoredNode :=
  match consistency with
  | .Strong => .error .StrongForcedFdb
  | .Session =>
    let state := self.session_cache_state_for_read_version read_version
    if state ≠ .Fresh then .error state.fallback_reason
    else
      match self.freshness_budget_violation consistency now_ms with
      | some reason => .error reason
      | none => self.lookup db ns entity_type node_id
  | .Eventual =>
    match self.freshness_budget_violation consistency now_ms with
    | some reason => .error reason
    | none => self.lookup db ns entity_type node_id

end CachedReadPath

end rocks_cache

end pelago_storage
