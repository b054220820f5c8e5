import Pelago.Kv.Optimistic
import Pelago.Storage.Ids
import Mathlib

open kv

namespace pelago_storage.replication

open RowTx

section

open ids (saturating_add)

/-- The result of saturating signed 64-bit arithmetic. -/
def saturateI64 (n : Int) : Int := max (-2 ^ 63) (min n (2 ^ 63 - 1))

structure ReplicationLease where
  site_id : String
  database : String
  ns : String
  holder_id : String
  epoch : UInt64
  lease_expires_at : Int
  updated_at : Int
  deriving DecidableEq, Repr

structure LeaseCall where
  holder_id : String
  lease_ttl_ms : UInt64
  deriving DecidableEq

def LeaseCall.ttl_micros (call : LeaseCall) : Int := saturateI64 ((max call.lease_ttl_ms 1).toInt64.toInt * 1000)

variable (site_id database ns : String)

/-- The clock is read before the transaction. An error is no result: the call
ends where it failed. -/
def try_acquire_replicator_lease (call : LeaseCall) : RowTx Int ReplicationLease (Option ReplicationLease) :=
  .input fun now => .fetch fun existing =>
    let renewed (epoch : UInt64) : ReplicationLease :=
      { site_id, database, ns, holder_id := call.holder_id, epoch
        lease_expires_at := saturateI64 (now + call.ttl_micros), updated_at := now }
    match existing with
    | none => .commit (renewed 1) (some (renewed 1))
    | some current =>
      if current.holder_id ≠ call.holder_id ∧ current.lease_expires_at > now then .done none
      else
        let epoch := if current.holder_id = call.holder_id then current.epoch else saturating_add current.epoch 1
        .commit (renewed epoch) (some (renewed epoch))

/-- The tasks of all servers, each calling for its holder, on the lease row of one scope. -/
abbrev LeaseState (J : Type) := RowState J LeaseCall Int ReplicationLease (Option ReplicationLease)

abbrev LeaseCommit := Commit LeaseCall ReplicationLease (Option ReplicationLease)

/-- The state after a run of calls for a lease that nobody has held yet. -/
def leaseRun {J : Type} [DecidableEq J] (events : List (RowEvent J LeaseCall Int)) : LeaseState J :=
  (RowState.initial none).exec (try_acquire_replicator_lease site_id database ns) events

/-- What a committed lease record says about the record it replaces. -/
structure Acquired (call : LeaseCall) (before : Option ReplicationLease) (lease : ReplicationLease) : Prop where
  holder : lease.holder_id = call.holder_id
  expires : lease.lease_expires_at = saturateI64 (lease.updated_at + call.ttl_micros)
  first : before = none → lease.epoch = 1
  renewal : ∀ b, before = some b → b.holder_id = call.holder_id → lease.epoch = b.epoch
  takeover : ∀ b, before = some b → b.holder_id ≠ call.holder_id →
    b.lease_expires_at ≤ lease.updated_at ∧ lease.epoch = saturating_add b.epoch 1

variable {site_id database ns}

variable {lease : ReplicationLease}

theorem acquired_of_commits {call : LeaseCall} {before : Option ReplicationLease} {r : Option ReplicationLease}
    (h : (try_acquire_replicator_lease site_id database ns call).Commits before lease r) :
    Acquired call before lease ∧ r = some lease := by
  simp only [try_acquire_replicator_lease, commits_input, commits_fetch] at h
  obtain ⟨now, h⟩ := h
  cases before with
  | none =>
    obtain ⟨rfl, rfl⟩ := commits_commit.mp h
    refine ⟨⟨rfl, rfl, fun _ => rfl, ?_, ?_⟩, rfl⟩ <;> rintro _ ⟨⟩
  | some =>
    simp only at h
    split at h
    · exact absurd h not_commits_done
    · next hfree =>
      obtain ⟨rfl, rfl⟩ := commits_commit.mp h
      refine ⟨⟨rfl, rfl, by simp, ?_, ?_⟩, rfl⟩
      · rintro _ ⟨⟩ hb
        exact if_pos hb
      · rintro _ ⟨⟩ hb
        exact ⟨not_lt.mp fun hlt => hfree ⟨hb, hlt⟩, if_neg hb⟩

theorem not_returns_some {call : LeaseCall} {before : Option ReplicationLease} :
    ¬ (try_acquire_replicator_lease site_id database ns call).Returns before (some lease) := by
  simp only [try_acquire_replicator_lease, returns_input, returns_fetch]
  rintro ⟨now, h⟩
  cases before with
  | none => exact not_returns_commit h
  | some =>
    simp only at h
    split at h
    · cases h
    · exact not_returns_commit h

section

variable {J : Type} [DecidableEq J] {events : List (RowEvent J LeaseCall Int)}

theorem leaseRun_sound : (leaseRun site_id database ns events).Sound
    (try_acquire_replicator_lease site_id database ns) none := RowState.sound_exec _

theorem acquired_of_mem {x : LeaseCommit} (hx : x ∈ (leaseRun site_id database ns events).commits) :
    Acquired x.call x.before x.after := (acquired_of_commits (leaseRun_sound.commits x hx)).1

/-- A lease that a call returned was committed by that call. -/
theorem exists_commit_of_reply {y : Reply LeaseCall (Option ReplicationLease)}
    (hy : y ∈ (leaseRun site_id database ns events).replies) (hlease : y.result = some lease) :
    ∃ x ∈ (leaseRun site_id database ns events).commits, x.call = y.call ∧ x.after = lease := by
  have hsound := leaseRun_sound.replies y hy
  unfold RowState.ReplySound at hsound
  split at hsound
  · obtain ⟨x, hx, hcall, hresult⟩ := hsound
    have hmem := List.mem_of_getElem? hx
    have hafter := (acquired_of_commits (leaseRun_sound.commits x hmem)).2
    rw [hresult, hlease] at hafter
    exact ⟨x, hmem, hcall, (Option.some.inj hafter).symm⟩
  · obtain ⟨b, hb⟩ := hsound
    rw [hlease] at hb
    exact absurd hb not_returns_some

end

end

open List
open ids (saturating_add toNat_saturating_add_one)

section Epochs

/-- The commit gives the lease to another holder than the one it had, or to the first one. -/
def ChangesHolder (x : LeaseCommit) : Prop := x.before.map ReplicationLease.holder_id ≠ some x.after.holder_id

instance (x : LeaseCommit) : Decidable (ChangesHolder x) := inferInstanceAs (Decidable (_ ≠ _))

def holderChanges (xs : List LeaseCommit) : Nat := xs.countP fun x => ChangesHolder x

variable {site_id database ns : String} {J : Type} [DecidableEq J] {events : List (RowEvent J LeaseCall Int)}

def epochOf (record : Option ReplicationLease) : UInt64 := (record.map ReplicationLease.epoch).getD 0

@[simp] theorem epochOf_some (lease : ReplicationLease) : epochOf (some lease) = lease.epoch := rfl

/-- The epoch counts the changes of the holder. -/
theorem epoch_step {xs : List LeaseCommit} (hchain : Chained none xs)
    (hacquired : ∀ x ∈ xs, Acquired x.call x.before x.after) (hchanges : holderChanges xs < 2 ^ 64)
    {x : LeaseCommit} (hx : x ∈ xs) :
    x.after.epoch.toNat = (epochOf x.before).toNat + if ChangesHolder x then 1 else 0 := by
  have hbound : (epochOf none).toNat + holderChanges xs < 2 ^ 64 := (Nat.zero_add _).symm ▸ hchanges
  have hstep := hchain.count_step (n := fun record => (epochOf record).toNat) (fun y hy hbound => ?_) hbound hx
  · simpa only [decide_eq_true_eq, epochOf_some] using hstep
  · change y.after.epoch.toNat = _
    have hy := hacquired y hy
    simp only [decide_eq_true_eq] at hbound ⊢
    rcases hb : y.before with _ | b
    · rw [hy.first hb, if_pos (by simp [ChangesHolder, hb])]
      rfl
    · rw [hb] at hbound
      by_cases hsame : b.holder_id = y.call.holder_id
      · rw [hy.renewal b hb hsame, if_neg (by simp [ChangesHolder, hb, hsame, hy.holder])]
        rfl
      · have hchange : ChangesHolder y := by simpa [ChangesHolder, hb, hy.holder] using hsame
        rw [if_pos hchange] at hbound ⊢
        rw [(hy.takeover b hb hsame).2]
        exact toNat_saturating_add_one hbound

/-- A later record has no smaller epoch, and a larger one when its holder is another. -/
theorem epochs_pairwise {xs : List LeaseCommit} (hchain : Chained none xs)
    (hacquired : ∀ x ∈ xs, Acquired x.call x.before x.after) (hchanges : holderChanges xs < 2 ^ 64) :
    xs.Pairwise fun x y => x.after.epoch ≤ y.after.epoch ∧
      (y.after.holder_id ≠ x.after.holder_id → x.after.epoch < y.after.epoch) := by
  refine hchain.pairwise (I := fun x lease => x.after.epoch ≤ lease.epoch ∧
    (lease.holder_id ≠ x.after.holder_id → x.after.epoch < lease.epoch)) (fun x _ => ⟨Nat.le_refl _, by simp⟩) ?_
  rintro x - y hy b hb ⟨hle, hlt⟩
  have hstep := epoch_step hchain hacquired hchanges hy
  rw [hb, epochOf_some] at hstep
  rw [UInt64.le_iff_toNat_le] at hle
  rw [UInt64.lt_iff_toNat_lt] at hlt
  rw [UInt64.le_iff_toNat_le, UInt64.lt_iff_toNat_lt]
  by_cases hchange : ChangesHolder y
  · rw [if_pos hchange] at hstep
    omega
  · have hsame : b.holder_id = y.after.holder_id := by simpa [ChangesHolder, hb] using hchange
    rw [← hsame]
    exact ⟨by omega, fun hne => by have := hlt hne; omega⟩

/-- Epochs fence holders. In every interleaving of calls in which the lease changes
hands fewer than `2 ^ 64` times, the epochs of the committed records start at one, stay
when the holder renews and go up by one when the holder changes. So records of different
holders have different epochs, and a record with the largest epoch names the present holder. -/
theorem lease_epochs_fence_holders (hchanges : holderChanges (leaseRun site_id database ns events).commits < 2 ^ 64) :
    (∀ x, (leaseRun site_id database ns events).commits[0]? = some x → x.after.epoch = 1) ∧
    (∀ (i : Nat) x y, (leaseRun site_id database ns events).commits[i]? = some x →
      (leaseRun site_id database ns events).commits[i + 1]? = some y →
      y.after.epoch.toNat = x.after.epoch.toNat + if y.after.holder_id = x.after.holder_id then 0 else 1) ∧
    (leaseRun site_id database ns events).commits.Pairwise (fun x y => x.after.epoch ≤ y.after.epoch) ∧
    (∀ x ∈ (leaseRun site_id database ns events).commits, ∀ y ∈ (leaseRun site_id database ns events).commits,
      x.after.holder_id ≠ y.after.holder_id → x.after.epoch ≠ y.after.epoch) ∧
    (∀ x ∈ (leaseRun site_id database ns events).commits,
      (∀ y ∈ (leaseRun site_id database ns events).commits, y.after.epoch ≤ x.after.epoch) →
      (leaseRun site_id database ns events).value.map ReplicationLease.holder_id = some x.after.holder_id) := by
  have hsound : (leaseRun site_id database ns events).Sound _ none := leaseRun_sound
  have hacquired : ∀ x ∈ (leaseRun site_id database ns events).commits, Acquired x.call x.before x.after :=
    fun x hx => acquired_of_mem hx
  have hvalue := hsound.value
  have hchain := hsound.chained
  generalize (leaseRun site_id database ns events).value = value at hvalue ⊢
  generalize (leaseRun site_id database ns events).commits = xs at hchanges hacquired hvalue hchain ⊢
  have hpairs := epochs_pairwise hchain hacquired hchanges
  refine ⟨fun x hx => ?_, fun i x y hx hy => ?_, hpairs.imp And.left, fun x hx y hy hne heq => ?_,
    fun x hx hmax => ?_⟩
  · exact (hacquired x (mem_of_getElem? hx)).first (by simpa using hchain 0 x hx)
  · have hb := hchain.before_succ hx hy
    rw [epoch_step hchain hacquired hchanges (mem_of_getElem? hy), hb, epochOf_some]
    simp [ChangesHolder, hb, Option.map_some, ne_eq, Option.some.injEq, ite_not, eq_comm]
  · rcases eq_or_of_pairwise hpairs hx hy with rfl | h | h
    · exact hne rfl
    · exact absurd (h.2 hne.symm) (heq ▸ UInt64.lt_irrefl _)
    · exact absurd (h.2 hne) (heq ▸ UInt64.lt_irrefl _)
  · have hne := ne_nil_of_mem hx
    rw [hvalue, ← dropLast_append_getLast hne, latest_concat, Option.map_some, Option.some_inj]
    rw [← dropLast_append_getLast hne] at hx hpairs
    rcases mem_append.mp hx with hx | hx
    · by_contra hother
      have hlt := ((pairwise_append.mp hpairs).2.2 x hx _ (by simp)).2 hother
      exact absurd (hmax _ (getLast_mem hne)) (UInt64.not_le.mpr hlt)
    · rw [mem_singleton.mp hx]

/-- One holder after the lease of another has run out. -/
def handover : List (RowEvent Nat LeaseCall Int) :=
  [.call 0 ⟨"a", 1⟩, .input 0 0, .fetch 0, .commit 0 true,
    .call 1 ⟨"b", 1⟩, .input 1 1000, .fetch 1, .commit 1 true]

theorem handover_fences_holders :
    holderChanges (leaseRun "1" "shop" "main" handover).commits = 2 ∧
    ∀ (i : Nat) x y, (leaseRun "1" "shop" "main" handover).commits[i]? = some x →
      (leaseRun "1" "shop" "main" handover).commits[i + 1]? = some y →
      y.after.epoch.toNat = x.after.epoch.toNat + if y.after.holder_id = x.after.holder_id then 0 else 1 :=
  ⟨by decide +kernel, (lease_epochs_fence_holders (by decide +kernel)).2.1⟩

end Epochs

section Exclusion

/-- A renewal does not set the record back to an earlier time. -/
def MovesForward (x : LeaseCommit) : Prop :=
  match x.before with
  | none => True
  | some b => b.holder_id = x.after.holder_id →
    b.updated_at ≤ x.after.updated_at ∧ b.lease_expires_at ≤ x.after.lease_expires_at

instance (x : LeaseCommit) : Decidable (MovesForward x) := by
  unfold MovesForward
  cases x.before <;> infer_instance

theorem ttl_micros_nonneg {call : LeaseCall} (h : call.lease_ttl_ms.toNat < 2 ^ 43) : 0 ≤ call.ttl_micros := by
  have hmax : (max call.lease_ttl_ms 1).toNat < 2 ^ 63 := by
    rw [show max call.lease_ttl_ms 1 = if call.lease_ttl_ms ≤ 1 then 1 else call.lease_ttl_ms from rfl]
    split
    · decide
    · omega
  rw [LeaseCall.ttl_micros, bytes.toInt64_toInt hmax, saturateI64]
  omega

/-- When renewals move forward, a lease has run out before a record of another holder. -/
theorem leases_pairwise {xs : List LeaseCommit} (hchain : Chained none xs)
    (hacquired : ∀ x ∈ xs, Acquired x.call x.before x.after) (httl : ∀ x ∈ xs, 0 ≤ x.call.ttl_micros)
    (hforward : ∀ x ∈ xs, MovesForward x) : xs.Pairwise fun x y => y.after.holder_id ≠ x.after.holder_id →
      x.after.lease_expires_at ≤ y.after.updated_at := by
  refine (hchain.pairwise (I := fun x lease => x.after.lease_expires_at ≤ lease.lease_expires_at ∧
    (lease.holder_id ≠ x.after.holder_id → x.after.lease_expires_at ≤ lease.updated_at))
    (fun x _ => ⟨le_refl _, by simp⟩) ?_).imp And.right
  rintro x hx y hy b hb ⟨hexpires, hother⟩
  have hy' := hacquired y hy
  by_cases hsame : b.holder_id = y.after.holder_id
  · have hforward := hforward y hy
    simp only [MovesForward, hb] at hforward
    obtain ⟨hupdated, hlater⟩ := hforward hsame
    rw [← hsame]
    exact ⟨by omega, fun hne => by have := hother hne; omega⟩
  · -- the new holder has waited for the record it replaces to run out
    have hfree := (hy'.takeover b hb (hy'.holder ▸ hsame)).1
    have hbound : x.after.lease_expires_at ≤ 2 ^ 63 - 1 := by
      rw [(hacquired x hx).expires, saturateI64]
      omega
    have httl := httl y hy
    rw [hy'.expires, saturateI64]
    exact ⟨by omega, fun _ => by omega⟩

/-- At most one holder at a time, as long as no renewal sets the record back: the
leases that calls of different holders returned are disjoint, whatever the clock shows. -/
theorem replicator_leases_disjoint {site_id database ns : String} {J : Type} [DecidableEq J]
    {events : List (RowEvent J LeaseCall Int)}
    (httl : ∀ j call, .call j call ∈ events → call.lease_ttl_ms.toNat < 2 ^ 43)
    (hforward : ∀ x ∈ (leaseRun site_id database ns events).commits, MovesForward x)
    {y y' : Reply LeaseCall (Option ReplicationLease)} {lease lease' : ReplicationLease}
    (hy : y ∈ (leaseRun site_id database ns events).replies) (hlease : y.result = some lease)
    (hy' : y' ∈ (leaseRun site_id database ns events).replies) (hlease' : y'.result = some lease')
    (hne : y.call.holder_id ≠ y'.call.holder_id) :
    Disjoint (Set.Ico lease.updated_at lease.lease_expires_at)
      (Set.Ico lease'.updated_at lease'.lease_expires_at) := by
  obtain ⟨x, hx, hcall, rfl⟩ := exists_commit_of_reply hy hlease
  obtain ⟨x', hx', hcall', rfl⟩ := exists_commit_of_reply hy' hlease'
  have hcalls : (leaseRun site_id database ns events).CallsSatisfy fun call => call.lease_ttl_ms.toNat < 2 ^ 43 :=
    RowState.callsSatisfy_exec _ httl
  have hpairs := leases_pairwise leaseRun_sound.chained (fun x hx => acquired_of_mem hx)
    (fun x hx => ttl_micros_nonneg (hcalls.commits x hx)) hforward
  rw [← hcall, ← hcall', ← (acquired_of_mem hx).holder, ← (acquired_of_mem hx').holder] at hne
  rcases eq_or_of_pairwise hpairs hx hx' with rfl | h | h
  · exact absurd rfl hne
  · exact Set.Ico_disjoint_Ico.mpr (by have := h hne.symm; omega)
  · exact Set.Ico_disjoint_Ico.mpr (by have := h hne; omega)

theorem handover_leases_disjoint :
    (∀ x ∈ (leaseRun "1" "shop" "main" handover).commits, MovesForward x) ∧
    Disjoint (Set.Ico (0 : Int) 1000) (Set.Ico 1000 2000) := by
  have hforward : ∀ x ∈ (leaseRun "1" "shop" "main" handover).commits, MovesForward x := by decide +kernel
  have ha : ⟨⟨"a", 1⟩, some ⟨"1", "shop", "main", "a", 1, 1000, 0⟩, some 0⟩ ∈
      (leaseRun "1" "shop" "main" handover).replies := by decide +kernel
  have hb : ⟨⟨"b", 1⟩, some ⟨"1", "shop", "main", "b", 2, 2000, 1000⟩, some 1⟩ ∈
      (leaseRun "1" "shop" "main" handover).replies := by decide +kernel
  have httl : ∀ j call, .call j call ∈ handover → call.lease_ttl_ms.toNat < 2 ^ 43 := by
    intro j call h
    simp only [handover, mem_cons, RowEvent.call.injEq, reduceCtorEq, false_or, not_mem_nil, or_false] at h
    obtain ⟨-, rfl⟩ | ⟨-, rfl⟩ := h <;> decide
  exact ⟨hforward, replicator_leases_disjoint httl hforward ha rfl hb rfl (by decide)⟩

/-- Two tasks of the holder `a`, the one whose clock reading is older commits last. -/
def lateRenewal : List (RowEvent Nat LeaseCall Int) :=
  [.call 0 ⟨"a", 1⟩, .input 0 0, .call 1 ⟨"a", 1⟩, .input 1 500, .fetch 1, .commit 1 true,
    .fetch 0, .commit 0 true, .call 2 ⟨"b", 1⟩, .input 2 1000, .fetch 2, .commit 2 true]

/-- The renewal sets the expiry back from 1500 to 1000, so that `b` gets the lease
while the one that `a` was given still runs. -/
theorem late_renewal_overlaps :
    (RowEvent.inputs lateRenewal).Pairwise (· ≤ ·) ∧
    ⟨⟨"a", 1⟩, some ⟨"1", "shop", "main", "a", 1, 1500, 500⟩, some 0⟩ ∈
      (leaseRun "1" "shop" "main" lateRenewal).replies ∧
    ⟨⟨"b", 1⟩, some ⟨"1", "shop", "main", "b", 2, 2000, 1000⟩, some 2⟩ ∈
      (leaseRun "1" "shop" "main" lateRenewal).replies ∧
    ¬ Disjoint (Set.Ico (500 : Int) 1500) (Set.Ico 1000 2000) := by
  rw [Set.Ico_disjoint_Ico]
  decide

end Exclusion

end pelago_storage.replication
