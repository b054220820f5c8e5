import Mathlib.Data.Int.Order.Basic
import Mathlib.Data.List.Basic

open List

/-! A value with an owner, changed by the owner's events. Events of other sites,
and updates made from another value, count only when they are newer. -/

namespace register

variable {P C σ : Type}

structure Entry (P σ : Type) where
  value : P
  owner : σ
  created : Int
  updated : Int

inductive Op (P C σ : Type) where
  | create (value : P)
  | update (patch : C) (old : P)
  | delete
  | transfer (target : σ)

/-- How patches apply, which values are allowed, and when two values count as
equal. -/
structure Rules (P C : Type) where
  merge : P → C → P
  valid : P → Bool
  same : P → P → Bool

/-- An update that owner, value and time turn down. -/
def Stale (R : Rules P C) (actor : σ) (entry : Entry P σ) (time : Int) (old : P) : Prop :=
  (entry.owner ≠ actor ∨ R.same entry.value old = false) ∧ time ≤ entry.updated

instance [DecidableEq σ] (R : Rules P C) (actor : σ) (entry : Entry P σ) (time : Int) (old : P) :
    Decidable (Stale R actor entry time old) :=
  inferInstanceAs (Decidable (_ ∧ _))

/-- The register after an event of `actor`. -/
def apply [DecidableEq σ] (R : Rules P C) (actor : σ) (cell : Option (Entry P σ)) (event : Int × Op P C σ) :
    Option (Entry P σ) :=
  match event.2, cell with
  | .create value, none => if R.valid value then some ⟨value, actor, event.1, event.1⟩ else none
  | .create _, some entry => some entry
  | .update _ _, none => none
  | .update patch old, some entry =>
    if Stale R actor entry event.1 old then some entry
    else if R.valid (R.merge entry.value patch) then
      some ⟨R.merge entry.value patch, actor, entry.created, max entry.updated event.1⟩
    else some entry
  | .delete, none => none
  | .delete, some entry =>
    if entry.owner ≠ actor ∧ event.1 ≤ entry.updated then some entry else none
  | .transfer _, none => none
  | .transfer target, some entry =>
    if entry.owner ≠ actor ∧ entry.updated > event.1 then some entry
    else some { entry with owner := target, updated := event.1 }

section Apply

variable [DecidableEq σ] (R : Rules P C) (actor : σ) (entry : Entry P σ) (time : Int)

theorem apply_create_none (value : P) : apply R actor none (time, .create value) =
    if R.valid value then some ⟨value, actor, time, time⟩ else none := rfl

theorem apply_update_some (patch : C) (old : P) : apply R actor (some entry) (time, .update patch old) =
    if Stale R actor entry time old then some entry else if R.valid (R.merge entry.value patch) then
      some ⟨R.merge entry.value patch, actor, entry.created, max entry.updated time⟩ else some entry := rfl

theorem apply_delete_some : apply R actor (some entry) (time, .delete) =
    if entry.owner ≠ actor ∧ time ≤ entry.updated then some entry else none := rfl

theorem apply_transfer_some (target : σ) : apply R actor (some entry) (time, .transfer target) =
    if entry.owner ≠ actor ∧ entry.updated > time then some entry
    else some { entry with owner := target, updated := time } := rfl

end Apply

def run [DecidableEq σ] (R : Rules P C) (actor : σ) (events : List (Int × Op P C σ)) (cell : Option (Entry P σ)) :
    Option (Entry P σ) :=
  events.foldl (apply R actor) cell

/-- Updates one after the other, each made from the value before it. -/
def updates (R : Rules P C) (value : P) : List (Int × C) → List (Int × Op P C σ)
  | [] => []
  | (time, patch) :: rest => (time, .update patch value) :: updates R (R.merge value patch) rest

/-- The values along the updates, the first one included. -/
def values (R : Rules P C) (value : P) : List (Int × C) → List P
  | [] => [value]
  | (_, patch) :: rest => value :: values R (R.merge value patch) rest

def final (R : Rules P C) (value : P) : List (Int × C) → P
  | [] => value
  | (_, patch) :: rest => final R (R.merge value patch) rest

/-- The latest of the times. -/
def latest (time : Int) : List (Int × C) → Int
  | [] => time
  | (next, _) :: rest => latest (max time next) rest

inductive Ending (σ : Type) where
  | live
  | deleted (time : Int)
  | transferred (time : Int) (target : σ)

/-- The events of one site acting alone: a creation, updates each made from the
value before it, and possibly a deletion or a change of owner. -/
structure History (P C σ : Type) where
  value : P
  time : Int
  patches : List (Int × C)
  ending : Ending σ

def Ending.events : Ending σ → List (Int × Op P C σ)
  | .live => []
  | .deleted time => [(time, .delete)]
  | .transferred time target => [(time, .transfer target)]

def History.events (R : Rules P C) (h : History P C σ) : List (Int × Op P C σ) :=
  (h.time, .create h.value) :: (updates R h.value h.patches ++ h.ending.events)

/-- Every value is allowed, equals itself and equals no other one; times do not
go back; and a change of owner is one. -/
structure History.Proper (R : Rules P C) (actor : σ) (h : History P C σ) : Prop where
  valid : ∀ v ∈ values R h.value h.patches, R.valid v = true
  same : ∀ v ∈ values R h.value h.patches, ∀ v' ∈ values R h.value h.patches, R.same v v' = true ↔ v = v'
  times : ((h.events R).map Prod.fst).Pairwise (· ≤ ·)
  target : ∀ time target, h.ending = .transferred time target → target ≠ actor

section Values

variable {R : Rules P C} {value : P} {patches : List (Int × C)}

end Values

section Runs

variable [DecidableEq σ] {R : Rules P C} {actor : σ}

theorem run_append (events events' : List (Int × Op P C σ)) (cell : Option (Entry P σ)) :
    run R actor (events ++ events') cell = run R actor events' (run R actor events cell) :=
  foldl_append

variable {value : P} {patches : List (Int × C)}

end Runs

namespace History

variable [DecidableEq σ] {R : Rules P C} {actor : σ} {h : History P C σ}

/-- The entry before the ending. -/
def entry (R : Rules P C) (actor : σ) (h : History P C σ) : Entry P σ :=
  ⟨final R h.value h.patches, actor, h.time, latest h.time h.patches⟩

variable {events : List (Int × Op P C σ)}

section

variable (hp : h.Proper R actor)
include hp

end

end History

end register
