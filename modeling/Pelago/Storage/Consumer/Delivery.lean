import Pelago.Storage.Consumer

open bytes kv pelago_core kv.OrdMap List

namespace pelago_storage.consumer

open cdc Versionstamp
open Run (start)
open Versionstamp (zero)

/-- The log position of a high-water mark. -/
def cursorOf (hwm : Versionstamp) : WithBot Versionstamp := position (after hwm)

theorem cursorOf_zero : cursorOf zero = ⊥ := rfl

theorem cursorOf_of_ne {vs : Versionstamp} (h : vs ≠ zero) : cursorOf vs = vs := by
  have hzero : vs.is_zero = false := by simpa [is_zero] using h
  simp [cursorOf, after, hzero, position]

/-- Versionstamps a log can be read by: not the one that stands for the start of
the log, and none that scans do not reach. -/
def Proper (vs : Versionstamp) : Prop := vs.Regular ∧ vs ≠ zero

instance (vs : Versionstamp) : Decidable (Proper vs) := inferInstanceAs (Decidable (_ ∧ _))

section Log

variable {database ns : String} {rows : OrdMap Bytes Cell} {log : OrdMap Versionstamp CdcEntry}

theorem checkpoint_key_eq (config : ConsumerConfig) :
    checkpoint_key config = (Subspace.of_namespace config.database config.ns).metadata.pfx ++
      (element "cdc_checkpoints" ++ element config.consumer_id) := by
  simp [checkpoint_key, encoding.TupleBuilder.build, encoding.TupleBuilder.add_string,
    encoding.TupleBuilder.add_raw_bytes, encoding.TupleBuilder.new, Subspace.pack, element]

theorem holdsLog_save (h : HoldsLog database ns rows log) (self : CdcConsumer) :
    HoldsLog database ns (save_hwm self rows) log := by
  intro rest c
  rw [← h _ c, save_hwm, get_set_of_ne]
  rw [checkpoint_key_eq]
  exact cdc_ne_metadata

theorem load_hwm_append (config : ConsumerConfig) (vs : Versionstamp) (entry : CdcEntry) :
    load_hwm (rows.set (entry_key config.database config.ns vs) (.cdc entry)) config = load_hwm rows config := by
  rw [load_hwm, load_hwm, get_set_of_ne]
  rw [checkpoint_key_eq]
  exact fun h => cdc_ne_metadata h.symm

theorem load_hwm_save (self : CdcConsumer) : load_hwm (save_hwm self rows) self.config = .ok self.hwm := by
  rw [load_hwm, save_hwm]
  simp [from_bytes, self.hwm.length_eq]

end Log

theorem after_ne_last {hwm : Versionstamp} (h : hwm.Regular) : ∀ vs ∈ after hwm, vs ≠ .last := by
  intro _ hvs
  unfold after at hvs
  split at hvs
  · cases hvs
  · rw [← Option.some.inj hvs]
    exact h.ne_last

/-- A poll returns the entries after the consumer's mark. -/
theorem poll_batch_eq {reader : CdcConsumer} {rows : OrdMap Bytes Cell} {log : OrdMap Versionstamp CdcEntry}
    (hholds : HoldsLog reader.config.database reader.config.ns rows log)
    (hproper : ∀ row ∈ log.rows, Proper row.1) (hhwm : reader.hwm.Regular) :
    poll_batch reader rows = .ok ((log.after (cursorOf reader.hwm)).take reader.config.batch_size) := by
  exact read_cdc_entries_regular hholds (fun row hrow => (hproper _ hrow).1) (after_ne_last hhwm) _

theorem ack_through_fst {reader : CdcConsumer} {vs : Versionstamp} (h : reader.hwm < vs) (elapsed : Bool)
    (rows : OrdMap Bytes Cell) : (ack_through reader vs elapsed rows).1 = ⟨reader.config, vs⟩ := by
  rw [ack_through, if_pos h]
  cases elapsed <;> rfl

/-- A versionstamp that a consumer can hold: that of an entry, or zero. -/
def Held (log : OrdMap Versionstamp CdcEntry) (vs : Versionstamp) : Prop :=
  vs = zero ∨ ∃ e, (vs, e) ∈ log.rows

section Held

variable {log log' : OrdMap Versionstamp CdcEntry} {vs : Versionstamp}

theorem Held.mono (h : Held log vs) (hlog : log'.Extends log) : Held log' vs :=
  h.imp id fun ⟨e, he⟩ => ⟨e, hlog.mem he⟩

theorem Held.reached (h : Held log vs) : log.Reached (cursorOf vs) := by
  obtain rfl | ⟨e, he⟩ := h
  · exact log.reached_bot
  · by_cases hzero : vs = zero
    · rw [hzero]
      exact log.reached_bot
    · rw [cursorOf_of_ne hzero]
      exact reached_of_mem he

theorem Held.regular (h : Held log vs) (hproper : ∀ row ∈ log.rows, Proper row.1) : vs.Regular := by
  obtain rfl | ⟨e, he⟩ := h
  · decide
  · exact (hproper _ he).1

end Held

/-- What holds between the steps of a consumer. -/
structure Inv (s : Run) : Prop where
  holds : HoldsLog s.reader.config.database s.reader.config.ns s.rows s.log
  proper : ∀ row ∈ s.log.rows, Proper row.1
  hwm_held : Held s.log s.reader.hwm
  checkpoint : ∃ cp, load_hwm s.rows s.reader.config = .ok cp ∧ Held s.log cp ∧
    cursorOf cp ≤ cursorOf s.reader.hwm
  started_le : cursorOf s.started ≤ cursorOf s.reader.hwm
  hwm_le : cursorOf s.reader.hwm ≤ cursorOf s.acknowledged
  batch : s.batch <+: s.log.after (cursorOf s.reader.hwm)
  batch_length : s.batch.length ≤ s.reader.config.batch_size
  processed_le : s.processed ≤ s.batch.length
  delivered : s.delivered =
    s.log.between (cursorOf s.started) (cursorOf s.reader.hwm) ++ s.batch.take s.processed
  earlier : ∀ row ∈ s.log.upTo (cursorOf s.started), row ∈ s.earlier

theorem inv_start {config : ConsumerConfig} {rows : OrdMap Bytes Cell} {log : OrdMap Versionstamp CdcEntry}
    (hlog : HoldsLog config.database config.ns rows log) (hproper : ∀ row ∈ log.rows, Proper row.1)
    (hfresh : rows.get (checkpoint_key config) = none) : Inv (start config rows log) where
  holds := hlog
  proper := hproper
  hwm_held := .inl rfl
  checkpoint := ⟨zero, by rw [load_hwm]; simp [start, hfresh], .inl rfl, le_rfl⟩
  started_le := le_rfl
  hwm_le := le_rfl
  batch := nil_prefix
  batch_length := Nat.zero_le _
  processed_le := le_rfl
  delivered := by simp [start]
  earlier := by simp [start, cursorOf_zero]

section Steps

variable {s : Run}

section

variable (h : Inv s)
include h

theorem Inv.append {vs : Versionstamp} (entry : CdcEntry) (hproper : Proper vs) :
    Inv (s.step (.append vs entry)) := by
  rw [Run.step]
  split
  case isFalse => exact h
  case isTrue hlast =>
    have hext := extends_set entry hlast
    obtain ⟨new, _, hafter, _⟩ := hext.exists_after h.hwm_held.reached
    obtain ⟨cp, hload, hheld, hle⟩ := h.checkpoint
    exact {
      holds := h.holds.append _
      proper := by
        intro row hrow
        rw [rows_set_of_lt _ hlast] at hrow
        obtain hrow | hrow := mem_append.mp hrow
        · exact h.proper _ hrow
        · rw [mem_singleton.mp hrow]
          exact hproper
      hwm_held := h.hwm_held.mono hext
      checkpoint := ⟨cp, (load_hwm_append ..).trans hload, hheld.mono hext, hle⟩
      started_le := h.started_le
      hwm_le := h.hwm_le
      batch := by
        rw [hafter]
        exact h.batch.trans (prefix_append ..)
      batch_length := h.batch_length
      processed_le := h.processed_le
      delivered := by
        rw [hext.between_eq h.started_le h.hwm_held.reached]
        exact h.delivered
      earlier := by
        rw [hext.upTo_eq]
        · exact h.earlier
        · obtain hbot | ⟨row, hrow, hle⟩ := h.hwm_held.reached
          · exact .inl (le_bot_iff.mp (hbot ▸ h.started_le))
          · exact .inr ⟨row, hrow, h.started_le.trans hle⟩ }

theorem Inv.poll_eq : poll_batch s.reader s.rows =
    .ok ((s.log.after (cursorOf s.reader.hwm)).take s.reader.config.batch_size) :=
  poll_batch_eq h.holds h.proper (h.hwm_held.regular h.proper)

theorem Inv.poll : Inv (s.step .poll) := by
  rw [Run.step]
  split
  case isFalse => exact h
  case isTrue hbatch =>
    rw [h.poll_eq]
    have hdelivered := h.delivered
    rw [hbatch, take_nil] at hdelivered
    exact { h with
      batch := take_prefix ..
      batch_length := length_take_le ..
      processed_le := Nat.zero_le _
      delivered := hdelivered.trans (by rw [take_zero]) }

theorem Inv.process : Inv (s.step .process) := by
  rw [Run.step]
  split
  case h_2 => exact h
  case h_1 entry hentry =>
    obtain ⟨hlt, _⟩ := List.getElem?_eq_some_iff.mp hentry
    exact { h with
      processed_le := hlt
      delivered := by
        rw [h.delivered, append_assoc, take_add_one, hentry]
        rfl }

/-- The last entry of a batch moves the high-water mark to the end of the batch. -/
theorem Inv.last_of_batch {last : Versionstamp × CdcEntry} (hlast : s.batch.getLast? = some last) :
    s.reader.hwm < last.1 ∧ cursorOf s.reader.hwm ≤ cursorOf last.1 ∧ Held s.log last.1 ∧
      s.log.between (cursorOf s.reader.hwm) (cursorOf last.1) = s.batch := by
  obtain ⟨front, hfront⟩ := getLast?_eq_some_iff.mp hlast
  obtain ⟨back, hback⟩ := h.batch
  rw [hfront, append_assoc] at hback
  have hmem : last ∈ s.log.after (cursorOf s.reader.hwm) := by
    rw [← hback]
    simp
  obtain ⟨hrow, hlt⟩ := mem_after.mp hmem
  have hne := (h.proper _ hrow).2
  have hbetween := between_of_after_eq hback.symm
  rw [← cursorOf_of_ne hne] at hlt hbetween
  refine ⟨?_, hlt.le, .inr ⟨last.2, hrow⟩, hbetween.trans hfront.symm⟩
  by_cases hzero : s.reader.hwm = zero
  · rw [hzero]
    exact lt_of_le_of_ne (zero_le _) hne.symm
  · rw [cursorOf_of_ne hzero, cursorOf_of_ne hne] at hlt
    exact WithBot.coe_lt_coe.mp hlt

theorem Inv.ack (elapsed : Bool) : Inv (s.step (.ack elapsed)) := by
  rw [Run.step]
  split
  case isFalse => exact h
  case isTrue hdone =>
    have hdelivered := h.delivered
    rw [hdone, take_length] at hdelivered
    cases hlast : s.batch.getLast? with
    | none =>
      have hempty := getLast?_eq_none_iff.mp hlast
      simp only [ack_batch, hlast]
      rw [hempty] at hdelivered
      exact { h with
        batch := nil_prefix
        batch_length := Nat.zero_le _
        processed_le := le_rfl
        delivered := hdelivered.trans (by simp) }
    | some last =>
      obtain ⟨hlt, hle, hheld, hbetween⟩ := h.last_of_batch hlast
      obtain ⟨cp, hload, hcp, hcple⟩ := h.checkpoint
      have hdelivered' : s.delivered = s.log.between (cursorOf s.started) (cursorOf last.1) := by
        rw [hdelivered, ← hbetween, between_append_between _ h.started_le hle]
      simp only [ack_batch, hlast, ack_through, if_pos hlt]
      -- saving the checkpoint changes the database only
      cases elapsed with
      | false =>
        exact { h with
          hwm_held := hheld
          checkpoint := ⟨cp, hload, hcp, hcple.trans hle⟩
          started_le := h.started_le.trans hle
          hwm_le := le_rfl
          batch := nil_prefix
          batch_length := Nat.zero_le _
          processed_le := le_rfl
          delivered := hdelivered'.trans (by simp) }
      | true =>
        exact { h with
          holds := holdsLog_save h.holds _
          hwm_held := hheld
          checkpoint := ⟨last.1, load_hwm_save _, hheld, le_rfl⟩
          started_le := h.started_le.trans hle
          hwm_le := le_rfl
          batch := nil_prefix
          batch_length := Nat.zero_le _
          processed_le := le_rfl
          delivered := hdelivered'.trans (by simp) }

theorem Inv.save : Inv (s.step .checkpoint) :=
  { h with
    holds := holdsLog_save h.holds _
    checkpoint := ⟨s.reader.hwm, load_hwm_save _, h.hwm_held, le_rfl⟩ }

/-- Everything up to the high-water mark has been processed. -/
theorem Inv.processed {row : Versionstamp × CdcEntry}
    (hrow : row ∈ s.log.upTo (cursorOf s.reader.hwm)) : row ∈ s.earlier ++ s.delivered := by
  rw [← upTo_append_between _ h.started_le] at hrow
  obtain hrow | hrow := mem_append.mp hrow
  · exact mem_append_left _ (h.earlier _ hrow)
  · refine mem_append_right _ ?_
    rw [h.delivered]
    exact mem_append_left _ hrow

end

theorem Inv.restart_eq {cp : Versionstamp} (hload : load_hwm s.rows s.reader.config = .ok cp) :
    s.step .restart =
      { s with
        reader := ⟨s.reader.config, cp⟩
        started := cp
        batch := []
        processed := 0
        delivered := []
        earlier := s.earlier ++ s.delivered } := by
  simp only [Run.step, new, hload]
  rfl

theorem Inv.restart (h : Inv s) : Inv (s.step .restart) := by
  obtain ⟨cp, hload, hheld, hle⟩ := h.checkpoint
  rw [restart_eq hload]
  exact { h with
    hwm_held := hheld
    checkpoint := ⟨cp, hload, hheld, le_rfl⟩
    started_le := le_rfl
    hwm_le := hle.trans h.hwm_le
    batch := nil_prefix
    batch_length := Nat.zero_le _
    processed_le := le_rfl
    delivered := by simp
    earlier := by
      intro _ hrow
      obtain ⟨hmem, hcp⟩ := mem_upTo.mp hrow
      exact h.processed (mem_upTo.mpr ⟨hmem, hcp.trans hle⟩) }

theorem Inv.step (h : Inv s) (action : Action) (hproper : ∀ vs e, action = .append vs e → Proper vs) :
    Inv (s.step action) := by
  cases action with
  | append vs entry => exact h.append _ (hproper vs _ rfl)
  | poll => exact h.poll
  | process => exact h.process
  | ack elapsed => exact h.ack _
  | checkpoint => exact h.save
  | restart => exact h.restart

theorem Inv.exec (h : Inv s) {actions : List Action}
    (hproper : ∀ vs e, .append vs e ∈ actions → Proper vs) : Inv (s.exec actions) := by
  induction actions generalizing s with
  | nil => exact h
  | cons action _ ih =>
    have hstep := h.step _ fun vs e heq => hproper vs e (heq ▸ mem_cons_self)
    exact ih hstep fun vs e hmem => hproper vs e (mem_cons_of_mem _ hmem)

end Steps

section Progress

/-- One round of polling, processing and acknowledging. -/
def round (config : ConsumerConfig) : List Action :=
  .poll :: (List.replicate config.batch_size .process ++ [.ack false])

def drain (config : ConsumerConfig) (rounds : Nat) : List Action :=
  (List.replicate rounds (round config)).flatten

variable {s : Run}

end Progress

theorem cursorOf_le_iff {a b : Versionstamp} : cursorOf a ≤ cursorOf b ↔ a ≤ b := by
  by_cases ha : a = zero
  · rw [ha]
    exact iff_of_true bot_le (zero_le b)
  by_cases hb : b = zero
  · rw [hb, cursorOf_of_ne ha]
    refine iff_of_false (WithBot.not_coe_le_bot a) fun hle => ha (le_antisymm hle (zero_le a))
  · rw [cursorOf_of_ne ha, cursorOf_of_ne hb, WithBot.coe_le_coe]

theorem lt_of_mem_after {log : OrdMap Versionstamp CdcEntry} {hwm : Versionstamp} {row : Versionstamp × CdcEntry}
    (hrow : row ∈ log.after (cursorOf hwm)) (hne : row.1 ≠ zero) : hwm < row.1 := by
  have hlt := (mem_after.mp hrow).2
  rw [← cursorOf_of_ne hne] at hlt
  exact lt_of_not_ge fun hle => absurd (cursorOf_le_iff.mpr hle) (not_le.mpr hlt)

end pelago_storage.consumer
