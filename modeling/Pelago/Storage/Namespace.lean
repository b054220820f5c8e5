import Pelago.Kv.Optimistic
import Pelago.Storage.Ids

open kv pelago_core

namespace pelago_storage.namespace_settings

open RowTx List

open ids (saturating_add toNat_saturating_add_one)

/-- Settings of a namespace. A namespace without an owner is open to all sites. -/
structure NamespaceSettings where
  database : String
  ns : String
  schema_owner_site_id : Option String
  epoch : UInt64
  updated_at : Int
  deriving DecidableEq

def NamespaceSettings.unrestricted (database ns : String) : NamespaceSettings := ⟨database, ns, none, 0, 0⟩

def NamespaceSettings.enforce_schema_owner (self : NamespaceSettings) (actor_site_id : String) :
    Except PelagoError Unit :=
  match self.schema_owner_site_id with
  | some owner_site_id =>
    if owner_site_id ≠ actor_site_id then
      .error (.NamespaceSchemaOwnershipConflict self.database self.ns owner_site_id actor_site_id)
    else .ok ()
  | none => .ok ()

/-- Settings that were never stored restrict nobody. -/
def enforce_namespace_schema_owner (stored : Option NamespaceSettings) (actor_site_id : String) :
    Except PelagoError Unit :=
  match stored with
  | some settings => settings.enforce_schema_owner actor_site_id
  | none => .ok ()

def trim (s : String) : String := String.ofList (text.trim s.toList)

def normalize_owner_site_id (owner_site_id : Option String) : Option String :=
  owner_site_id.bind fun site => if trim site = "" then none else some (trim site)

def normalize_required_site_id (value field : String) : Except PelagoError String :=
  if trim value = "" then .error (.InvalidValue field "site id cannot be empty") else .ok (trim value)

abbrev SettingsTx := RowTx Int NamespaceSettings (Except PelagoError NamespaceSettings)

variable (database ns : String)

def set_namespace_schema_owner (owner_site_id : Option String) : SettingsTx :=
  .fetch fun existing => .input fun now =>
    let settings := existing.getD (.unrestricted database ns)
    let normalized_owner := normalize_owner_site_id owner_site_id
    let settings :=
      if settings.schema_owner_site_id ≠ normalized_owner then
        { settings with schema_owner_site_id := normalized_owner, epoch := saturating_add settings.epoch 1 }
      else settings
    let settings := { settings with updated_at := now }
    .commit settings (.ok settings)

/-- The transaction, once both site ids are normalized. A transfer to the owner
itself succeeds without a commit. -/
def transferTo (expected target : String) : SettingsTx :=
  .fetch fun existing =>
    let settings := existing.getD (.unrestricted database ns)
    let owner := settings.schema_owner_site_id.getD ""
    if owner ≠ expected then
      .done (.error (.NamespaceSchemaOwnershipConflict database ns
        (if owner = "" then "<unassigned>" else owner) expected))
    else if expected ≠ target then
      .input fun now =>
        let settings := { settings with
          schema_owner_site_id := some target, epoch := saturating_add settings.epoch 1, updated_at := now }
        .commit settings (.ok settings)
    else .done (.ok settings)

def transfer_namespace_schema_owner (expected_owner_site_id target_owner_site_id : String) : SettingsTx :=
  match normalize_required_site_id expected_owner_site_id "expected_owner_site_id" with
  | .error e => .done (.error e)
  | .ok expected =>
    match normalize_required_site_id target_owner_site_id "target_owner_site_id" with
    | .error e => .done (.error e)
    | .ok target => transferTo database ns expected target

inductive SettingsCall where
  | set (owner_site_id : Option String)
  | transfer (expected_owner_site_id target_owner_site_id : String)
  deriving DecidableEq

def program : SettingsCall → SettingsTx
  | .set owner_site_id => set_namespace_schema_owner database ns owner_site_id
  | .transfer expected target => transfer_namespace_schema_owner database ns expected target

abbrev SettingsCommit := Commit SettingsCall NamespaceSettings (Except PelagoError NamespaceSettings)

/-- The state after a run of calls on the settings of one namespace. -/
def settingsRun {J : Type} [DecidableEq J] (stored : Option NamespaceSettings)
    (events : List (RowEvent J SettingsCall Int)) :
    RowState J SettingsCall Int NamespaceSettings (Except PelagoError NamespaceSettings) :=
  (RowState.initial stored).exec (program database ns) events

def ownerOf (stored : Option NamespaceSettings) : Option String := stored.bind NamespaceSettings.schema_owner_site_id

def epochOf (stored : Option NamespaceSettings) : UInt64 := (stored.map NamespaceSettings.epoch).getD 0

@[simp] theorem epochOf_some (settings : NamespaceSettings) : epochOf (some settings) = settings.epoch := rfl

variable {database ns}

theorem owner_getD (stored : Option NamespaceSettings) :
    (stored.getD (.unrestricted database ns)).schema_owner_site_id = ownerOf stored := by
  cases stored <;> rfl

theorem epoch_getD (stored : Option NamespaceSettings) :
    (stored.getD (.unrestricted database ns)).epoch = epochOf stored := by
  cases stored <;> rfl

theorem normalize_required_site_id_eq_ok {value field site : String} :
    normalize_required_site_id value field = .ok site ↔ trim value = site ∧ site ≠ "" := by
  unfold normalize_required_site_id
  split
  · next h => simp only [reduceCtorEq, h, false_iff, not_and, not_not]; exact fun h => h.symm
  · next h =>
    rw [Except.ok.injEq]
    exact ⟨fun heq => ⟨heq, heq ▸ h⟩, And.left⟩

/-- A commit counts up the epoch when it changes the owner. -/
def Counts (before : Option NamespaceSettings) (settings : NamespaceSettings) : Prop :=
  settings.epoch = if settings.schema_owner_site_id = ownerOf before then epochOf before
    else saturating_add (epochOf before) 1

variable {before : Option NamespaceSettings} {settings : NamespaceSettings}
  {r : Except PelagoError NamespaceSettings}

theorem counts_of_set {owner_site_id : Option String}
    (h : (set_namespace_schema_owner database ns owner_site_id).Commits before settings r) :
    Counts before settings := by
  simp only [set_namespace_schema_owner, commits_fetch, commits_input, commits_commit] at h
  obtain ⟨now, rfl, -⟩ := h
  unfold Counts
  by_cases howner : ownerOf before = normalize_owner_site_id owner_site_id
  · simp [owner_getD, ne_eq, howner, not_true_eq_false, if_false, if_true, epoch_getD]
  · simp only [owner_getD, ne_eq, howner, not_false_eq_true, if_true, epoch_getD]
    rw [if_neg fun heq => howner heq.symm]

/-- What a transfer that commits has found and left. -/
structure Transferred (expected target : String) (before : Option NamespaceSettings) (settings : NamespaceSettings) :
    Prop where
  found : ownerOf before = some (trim expected)
  left : settings.schema_owner_site_id = some (trim target)
  differ : trim expected ≠ trim target
  counts : Counts before settings

variable {expected target : String}

theorem transferred_of_commits
    (h : (transfer_namespace_schema_owner database ns expected target).Commits before settings r) :
    Transferred expected target before settings := by
  unfold transfer_namespace_schema_owner at h
  split at h
  · cases h
  · next expected' hexpected =>
    split at h
    · cases h
    · next target' htarget =>
      obtain ⟨rfl, hne⟩ := normalize_required_site_id_eq_ok.mp hexpected
      obtain ⟨rfl, -⟩ := normalize_required_site_id_eq_ok.mp htarget
      simp only [transferTo, commits_fetch, owner_getD, epoch_getD] at h
      split at h
      · cases h
      · next howner =>
        split at h
        · next hdiffer =>
          obtain ⟨now, rfl, -⟩ := h
          have hfound : ownerOf before = some (trim expected) := by
            rw [not_not] at howner
            cases hcase : ownerOf before with
            | none => exact absurd (by simpa [hcase] using howner.symm) hne
            | some => rw [hcase, Option.getD_some] at howner; rw [howner]
          refine ⟨hfound, rfl, hdiffer, ?_⟩
          unfold Counts
          rw [hfound, if_neg (by simpa using hdiffer.symm)]
        · cases h

/-- A transfer that returns settings without a commit was one to the owner itself. -/
theorem not_returns_ok (hne : trim expected ≠ trim target) :
    ¬ (transfer_namespace_schema_owner database ns expected target).Returns before (.ok settings) := by
  unfold transfer_namespace_schema_owner
  intro h
  split at h
  · cases h
  · next expected' hexpected =>
    split at h
    · cases h
    · next target' htarget =>
      obtain ⟨rfl, -⟩ := normalize_required_site_id_eq_ok.mp hexpected
      obtain ⟨rfl, -⟩ := normalize_required_site_id_eq_ok.mp htarget
      simp only [transferTo, returns_fetch, if_pos _] at h
      split at h
      · cases h
      · obtain ⟨now, h⟩ := returns_input.mp h
        exact not_returns_commit h

theorem counts_of_commits {call : SettingsCall} (h : (program database ns call).Commits before settings r) :
    Counts before settings := by
  cases call with
  | set => exact counts_of_set h
  | transfer => exact (transferred_of_commits h).counts

def ChangesOwner (x : SettingsCommit) : Prop := x.after.schema_owner_site_id ≠ ownerOf x.before

instance (x : SettingsCommit) : Decidable (ChangesOwner x) := inferInstanceAs (Decidable (_ ≠ _))

def ownerChanges (xs : List SettingsCommit) : Nat := xs.countP fun x => ChangesOwner x

theorem epoch_step {stored : Option NamespaceSettings} {xs : List SettingsCommit}
    (hchain : Chained stored xs) (hcounts : ∀ x ∈ xs, Counts x.before x.after)
    (hchanges : (epochOf stored).toNat + ownerChanges xs < 2 ^ 64) {x : SettingsCommit} (hx : x ∈ xs) :
    x.after.epoch.toNat = (epochOf x.before).toNat + if ChangesOwner x then 1 else 0 := by
  have hstep := hchain.count_step (n := fun stored => (epochOf stored).toNat) (fun y hy hbound => ?_) hchanges hx
  · simpa only [decide_eq_true_eq, epochOf_some] using hstep
  · change y.after.epoch.toNat = _
    simp only [decide_eq_true_eq] at hbound ⊢
    rw [hcounts y hy]
    by_cases hchange : ChangesOwner y
    · rw [if_pos hchange] at hbound ⊢
      rw [if_neg hchange, toNat_saturating_add_one hbound]
    · rw [if_neg hchange, if_pos (not_not.mp hchange), add_zero]

section Runs

variable {J : Type} [DecidableEq J] {stored : Option NamespaceSettings} {events : List (RowEvent J SettingsCall Int)}

theorem settingsRun_sound : (settingsRun database ns stored events).Sound (program database ns) stored :=
  RowState.sound_exec _

theorem transferred_of_mem {x : SettingsCommit} (hx : x ∈ (settingsRun database ns stored events).commits)
    (hcall : x.call = .transfer expected target) : Transferred expected target x.before x.after := by
  have hcommits := settingsRun_sound.commits x hx
  rw [hcall] at hcommits
  exact transferred_of_commits hcommits

theorem exists_commit_of_transfer {y : Reply SettingsCall (Except PelagoError NamespaceSettings)}
    (hy : y ∈ (settingsRun database ns stored events).replies)
    {settings : NamespaceSettings} (hcall : y.call = .transfer expected target) (hresult : y.result = .ok settings)
    (hne : trim expected ≠ trim target) :
    ∃ i x, y.commit = some i ∧ (settingsRun database ns stored events).commits[i]? = some x ∧ x.call = y.call := by
  have hsound := settingsRun_sound.replies y hy
  unfold RowState.ReplySound at hsound
  split at hsound
  · next i hi =>
    obtain ⟨x, hx, hxcall, -⟩ := hsound
    exact ⟨i, x, hi, hx, hxcall⟩
  · obtain ⟨b, hb⟩ := hsound
    rw [hcall, hresult] at hb
    exact absurd hb (not_returns_ok hne)

/-- Between two transfers from one owner, the owner has become the expected one again. -/
theorem exists_commit_between {i j : Nat} {x y : SettingsCommit} {expected' target' : String}
    (hij : i < j) (hx : (settingsRun database ns stored events).commits[i]? = some x)
    (hy : (settingsRun database ns stored events).commits[j]? = some y) (hxcall : x.call = .transfer expected target)
    (hycall : y.call = .transfer expected' target') (hsame : trim expected = trim expected') :
    ∃ k z, i < k ∧ k < j ∧ (settingsRun database ns stored events).commits[k]? = some z ∧
      z.after.schema_owner_site_id = some (trim expected) := by
  obtain ⟨k, rfl⟩ : ∃ k, j = k + 1 := ⟨j - 1, by omega⟩
  have hk : k < (settingsRun database ns stored events).commits.length :=
    Nat.lt_of_succ_lt (List.getElem?_eq_some_iff.mp hy).1
  have hz := getElem?_eq_getElem hk
  have hbefore := settingsRun_sound.chained.before_succ hz hy
  have hfound := (transferred_of_mem (mem_of_getElem? hy) hycall).found
  rw [hbefore, ← hsame] at hfound
  refine ⟨k, _, ?_, Nat.lt_succ_self k, hz, hfound⟩
  -- the first transfer has left another owner
  refine lt_of_le_of_ne (Nat.le_of_lt_succ hij) ?_
  rintro rfl
  have hleft := transferred_of_mem (mem_of_getElem? hx) hxcall
  obtain rfl := Option.some.inj (hz.symm.trans hx)
  exact hleft.differ (Option.some.inj (hfound.symm.trans hleft.left))

/-- The owner of a namespace moves by compare-and-swap. The epoch of the committed settings goes
up by one with every change of the owner and stays otherwise. A transfer to another
site that succeeds reports one commit, its own, which found the expected owner and left the target; and
of two transfers from one owner the second comes after that owner was set again. -/
theorem schema_owner_compare_and_swap
    (hchanges : (epochOf stored).toNat + ownerChanges (settingsRun database ns stored events).commits < 2 ^ 64) :
    Chained stored (settingsRun database ns stored events).commits ∧
    (∀ x ∈ (settingsRun database ns stored events).commits, x.after.epoch.toNat =
      (epochOf x.before).toNat + if x.after.schema_owner_site_id = ownerOf x.before then 0 else 1) ∧
    (∀ y ∈ (settingsRun database ns stored events).replies, ∀ expected target settings,
      y.call = .transfer expected target → y.result = .ok settings → trim expected ≠ trim target →
      ∃ i x, y.commit = some i ∧ (settingsRun database ns stored events).commits[i]? = some x ∧ x.call = y.call ∧
        ownerOf x.before = some (trim expected) ∧ x.after.schema_owner_site_id = some (trim target)) ∧
    ((settingsRun database ns stored events).replies.filterMap Reply.commit).Nodup ∧
    ∀ (i j : Nat) x y expected expected' target target', i < j →
      (settingsRun database ns stored events).commits[i]? = some x →
      (settingsRun database ns stored events).commits[j]? = some y →
      x.call = .transfer expected target → y.call = .transfer expected' target' → trim expected = trim expected' →
      ∃ k z, i < k ∧ k < j ∧ (settingsRun database ns stored events).commits[k]? = some z ∧
        z.after.schema_owner_site_id = some (trim expected) := by
  have hsound : (settingsRun database ns stored events).Sound (program database ns) stored := settingsRun_sound
  refine ⟨hsound.chained, fun x hx => ?_, fun y hy expected target settings hcall hresult hne => ?_, hsound.distinct,
    fun i j x y expected expected' target target' => exists_commit_between⟩
  · rw [epoch_step hsound.chained (fun x hx => counts_of_commits (hsound.commits x hx)) hchanges hx]
    by_cases howner : x.after.schema_owner_site_id = ownerOf x.before
    · rw [if_pos howner, if_neg fun hchange : ChangesOwner x => hchange howner]
    · rw [if_neg howner, if_pos (show ChangesOwner x from howner)]
  · obtain ⟨i, x, hi, hx, hxcall⟩ := exists_commit_of_transfer hy hcall hresult hne
    have hmoved := transferred_of_mem (mem_of_getElem? hx) (hxcall.trans hcall)
    exact ⟨i, x, hi, hx, hxcall, hmoved.found, hmoved.left⟩

/-- Of two transfers that race, the second one conflicts. -/
def race : List (RowEvent Nat SettingsCall Int) :=
  [.call 0 (.set (some " 1 ")), .fetch 0, .input 0 10, .commit 0 true,
    .call 0 (.transfer "1" "2"), .fetch 0, .call 1 (.transfer "1" "3"), .fetch 1, .input 0 20, .commit 0 true,
    .input 1 30, .commit 1 true]

theorem race_compare_and_swap :
    (settingsRun "shop" "main" none race).replies.map Reply.result =
      [.ok ⟨"shop", "main", some "1", 1, 10⟩, .ok ⟨"shop", "main", some "2", 2, 20⟩] ∧
    Chained none (settingsRun "shop" "main" none race).commits :=
  ⟨by decide +kernel, (schema_owner_compare_and_swap (by decide +kernel)).1⟩

end Runs

end pelago_storage.namespace_settings
