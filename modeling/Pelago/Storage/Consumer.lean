import Pelago.Storage.Cdc
import Pelago.Storage.Keys

open bytes kv pelago_core

namespace pelago_storage

structure ConsumerConfig where
  consumer_id : String
  database : String
  ns : String
  batch_size : Nat

/-- A consumer with its high-water mark, the versionstamp of the last entry it
has acknowledged. -/
structure CdcConsumer where
  config : ConsumerConfig
  hwm : Versionstamp

namespace consumer

open cdc

def checkpoint_key (config : ConsumerConfig) : Bytes :=
  ((Subspace.of_namespace config.database config.ns).metadata.pack.add_string "cdc_checkpoints"
    |>.add_string config.consumer_id).build

def load_hwm (rows : OrdMap Bytes Cell) (config : ConsumerConfig) : Except PelagoError Versionstamp :=
  match rows.get (checkpoint_key config) with
  | some (.raw bs) =>
    match Versionstamp.from_bytes bs with
    | some vs => .ok vs
    | none => .error (.Internal "Invalid CDC checkpoint data")
  | some _ => .error (.Internal "Invalid CDC checkpoint data")
  | none => .ok Versionstamp.zero

def new (rows : OrdMap Bytes Cell) (config : ConsumerConfig) : Except PelagoError CdcConsumer := do
  let hwm ← load_hwm rows config
  pure ⟨config, hwm⟩

def save_hwm (self : CdcConsumer) (rows : OrdMap Bytes Cell) : OrdMap Bytes Cell :=
  rows.set (checkpoint_key self.config) (.raw self.hwm.bytes)

/-- Where the next batch starts. -/
def after (hwm : Versionstamp) : Option Versionstamp := if hwm.is_zero then none else some hwm

def poll_batch (self : CdcConsumer) (rows : OrdMap Bytes Cell) :
    Except PelagoError (List (Versionstamp × CdcEntry)) :=
  read_cdc_entries rows self.config.database self.config.ns (after self.hwm) self.config.batch_size

/-- The checkpoint is saved when `elapsed` tells that the interval has passed. -/
def ack_through (self : CdcConsumer) (versionstamp : Versionstamp) (elapsed : Bool)
    (rows : OrdMap Bytes Cell) : CdcConsumer × OrdMap Bytes Cell :=
  let self := if self.hwm < versionstamp then { self with hwm := versionstamp } else self
  if elapsed then (self, save_hwm self rows) else (self, rows)

def ack_batch (self : CdcConsumer) (entries : List (Versionstamp × CdcEntry)) (elapsed : Bool)
    (rows : OrdMap Bytes Cell) : CdcConsumer × OrdMap Bytes Cell :=
  match entries.getLast? with
  | some (last_vs, _) => ack_through self last_vs elapsed rows
  | none => (self, rows)

/-- One consumer at work. The log grows in the database; the rest records what
has happened: the batch in hand and how much of it is processed, the entries
processed by this incarnation of the consumer and by earlier ones, where this
incarnation began, and what was last acknowledged. -/
structure Run where
  rows : OrdMap Bytes Cell
  log : OrdMap Versionstamp CdcEntry
  reader : CdcConsumer
  started : Versionstamp
  batch : List (Versionstamp × CdcEntry)
  processed : Nat
  delivered : List (Versionstamp × CdcEntry)
  earlier : List (Versionstamp × CdcEntry)
  acknowledged : Versionstamp

inductive Action where
  | append (vs : Versionstamp) (entry : CdcEntry)
  | poll
  | process
  | ack (elapsed : Bool)
  | checkpoint
  | restart

/-- A step. Entries are appended in versionstamp order; a batch is polled when
the last one has been acknowledged, and acknowledged when all of it has been
processed. A restart forgets all but the database. -/
def Run.step (s : Run) : Action → Run
  | .append vs entry =>
    if ∀ row ∈ s.log.rows, row.1 < vs then
      { s with
        rows := s.rows.set (entry_key s.reader.config.database s.reader.config.ns vs) (.cdc entry)
        log := s.log.set vs entry }
    else s
  | .poll =>
    if s.batch = [] then
      match poll_batch s.reader s.rows with
      | .ok entries => { s with batch := entries, processed := 0 }
      | .error _ => s
    else s
  | .process =>
    match s.batch[s.processed]? with
    | some entry => { s with processed := s.processed + 1, delivered := s.delivered ++ [entry] }
    | none => s
  | .ack elapsed =>
    if s.processed = s.batch.length then
      let (consumer, rows) := ack_batch s.reader s.batch elapsed s.rows
      { s with
        rows := rows
        reader := consumer
        batch := []
        processed := 0
        acknowledged := (s.batch.getLast?.map Prod.fst).getD s.acknowledged }
    else s
  | .checkpoint => { s with rows := save_hwm s.reader s.rows }
  | .restart =>
    match new s.rows s.reader.config with
    | .ok consumer =>
      { s with
        reader := consumer
        started := consumer.hwm
        batch := []
        processed := 0
        delivered := []
        earlier := s.earlier ++ s.delivered }
    | .error _ => s

def Run.exec (s : Run) (actions : List Action) : Run := actions.foldl Run.step s

/-- A consumer that starts for the first time. -/
def Run.start (config : ConsumerConfig) (rows : OrdMap Bytes Cell) (log : OrdMap Versionstamp CdcEntry) : Run :=
  ⟨rows, log, ⟨config, Versionstamp.zero⟩, Versionstamp.zero, [], 0, [], [], Versionstamp.zero⟩

end consumer

end pelago_storage
