import Pelago.Storage.SchemaRegistry

open bytes kv pelago_core pelago_core.encoding List kv.OrdMap pelago_core.encoding.TupleBuilder

namespace pelago_storage.schema

open namespace_settings

section Keys

variable {database ns : String} {entity_type entity_type' : String}

theorem latestKey_eq : latestKey database ns entity_type =
    (Subspace.of_namespace database ns).schema.pfx ++ (element entity_type ++ element "latest") := by
  simp [latestKey, latest_version_key, Subspace.pack, add_string, add_raw_bytes, build, new, element]

theorem versionKey_eq (version : UInt32) : versionKey database ns entity_type version =
    (Subspace.of_namespace database ns).schema.pfx ++
      (element entity_type ++ (element "v" ++ 0x14 :: encode_int_for_index (.ofNat version.toNat))) := by
  simp [versionKey, version_key, Subspace.pack, add_string, add_raw_bytes, add_int, build, new, element]

theorem versionKey_ne_latestKey (version : UInt32) :
    versionKey database ns entity_type version ≠ latestKey database ns entity_type' := by
  rw [versionKey_eq, latestKey_eq]
  intro h
  have h := (element_append_inj (element_head _ _) (by simpa using element_head _ [])
    (append_cancel_left h)).2
  rw [← append_nil (element "latest")] at h
  exact absurd (element_append_inj (by simp) (by simp) h).1 (by decide)

theorem versionKey_inj {version version' : UInt32}
    (h : versionKey database ns entity_type version = versionKey database ns entity_type' version') :
    entity_type = entity_type' ∧ version = version' := by
  rw [versionKey_eq, versionKey_eq] at h
  obtain ⟨htype, h⟩ := element_append_inj (element_head _ _) (element_head _ _) (append_cancel_left h)
  have h := append_cancel_left h
  have hint := encode_int_for_index_inj (cons.inj h).2
  refine ⟨htype, UInt32.toNat_inj.mp ?_⟩
  have hcast := congrArg Int64.toInt hint
  have := version.toNat_lt
  have := version'.toNat_lt
  rw [Int64.toInt_ofNat_of_lt (by omega), Int64.toInt_ofNat_of_lt (by omega)] at hcast
  omega

private theorem utf8_ns : utf8 "_ns" = [0x5F, 0x6E, 0x73] := by decide +kernel
private theorem utf8_schema : utf8 "_schema" = [0x5F, 0x73, 0x63, 0x68, 0x65, 0x6D, 0x61] := by decide +kernel

theorem schema_ne_settings_key (x : Bytes) :
    (Subspace.of_namespace database ns).schema.pfx ++ x ≠ namespace_settings_key database ns := by
  intro h
  obtain ⟨-, -, h⟩ := subspace_append_inj h
  rw [utf8_ns, utf8_schema] at h
  simp at h

end Keys

section Rows

variable {database ns : String} {rows : Rows} {document : SchemaDocument} {version : UInt32}

/-- The stored versions of a type are exactly `1..latest`. -/
structure StoredVersions (database ns : String) (rows : Rows) (entity_type : String) (latest : UInt32) : Prop where
  current : current_version database ns rows entity_type = .ok latest
  stored : ∀ version, (rows.get (versionKey database ns entity_type version)).isSome = true ↔
    1 ≤ version ∧ version ≤ latest

@[simp] theorem get_write_version_version :
    (write_version database ns rows document version).get (versionKey database ns document.name version) =
      some (encode_cbor_schema { document with version }) := get_set_self ..

@[simp] theorem get_write_version_latest :
    (write_version database ns rows document version).get (latestKey database ns document.name) =
      some (.raw (encode_version version)) := by
  rw [write_version, get_set_of_ne _ _ (versionKey_ne_latestKey _).symm, get_set_self]

theorem get_write_version_of_ne {k : Bytes} (hversion : k ≠ versionKey database ns document.name version)
    (hlatest : k ≠ latestKey database ns document.name) :
    (write_version database ns rows document version).get k = rows.get k := by
  rw [write_version, get_set_of_ne _ _ hversion, get_set_of_ne _ _ hlatest]

theorem get_write_version_other {version' : UInt32} (h : version' ≠ version) :
    (write_version database ns rows document version).get (versionKey database ns document.name version') =
      rows.get (versionKey database ns document.name version') :=
  get_write_version_of_ne (fun hkey => h (versionKey_inj hkey).2) (versionKey_ne_latestKey _)

theorem current_version_write_version :
    current_version database ns (write_version database ns rows document version) document.name = .ok version := by
  rw [current_version, get_write_version_latest]
  exact decode_encode_version _

theorem enforce_owner_write_version (site : String) :
    enforce_owner database ns (write_version database ns rows document version) site =
      enforce_owner database ns rows site := by
  have hget : (write_version database ns rows document version).get (namespace_settings_key database ns) =
      rows.get (namespace_settings_key database ns) := by
    refine get_write_version_of_ne ?_ ?_
    · rw [versionKey_eq]
      exact (schema_ne_settings_key _).symm
    · rw [latestKey_eq]
      exact (schema_ne_settings_key _).symm
  rw [enforce_owner, enforce_owner, get_namespace_settings, get_namespace_settings, hget]

theorem toNat_add_one {latest : UInt32} (hlt : latest < latest + 1) : (latest + 1).toNat = latest.toNat + 1 := by
  have hlt : latest.toNat < (latest.toNat + 1) % 2 ^ 32 := by simpa [UInt32.lt_iff_toNat_lt] using hlt
  change (latest.toNat + 1) % 2 ^ 32 = _
  omega

/-- The next version extends the history. -/
theorem StoredVersions.write_next {latest : UInt32} (h : StoredVersions database ns rows document.name latest)
    (hlt : latest < latest + 1) :
    StoredVersions database ns (write_version database ns rows document (latest + 1)) document.name (latest + 1) where
  current := current_version_write_version
  stored version := by
    have hone : (1 : UInt32).toNat = 1 := rfl
    have hnext := toNat_add_one hlt
    by_cases hversion : version = latest + 1
    · rw [hversion, get_write_version_version]
      simp only [Option.isSome_some, UInt32.le_iff_toNat_le, hnext, hone, true_iff]
      omega
    · rw [get_write_version_other hversion, h.stored]
      rw [← UInt32.toNat_inj] at hversion
      simp only [UInt32.le_iff_toNat_le, hnext, hone]
      omega

end Rows

section Replica

variable (is_alphanumeric : Char → Bool) {database ns entity_type : String} {rows : Rows} {latest : UInt32}
  {call : ReplicaCall}

/-- A call for the type whose origin may register schemas. -/
structure Deliverable (database ns : String) (rows : Rows) (entity_type : String) (call : ReplicaCall) : Prop where
  name : call.document.name = entity_type
  version : 1 ≤ call.expected_version
  owner : enforce_owner database ns rows call.origin_site_id = .ok ()

/-- The three outcomes of a call, by the version it brings. -/
theorem apply_replica_cases (hstored : StoredVersions database ns rows entity_type latest)
    (hcall : Deliverable database ns rows entity_type call) :
    (validate_schema is_alphanumeric call.document = .ok () ∧ latest < latest + 1 ∧ call.expected_version = latest + 1 ∧
      apply_replica_schema_register database ns is_alphanumeric call rows =
        (.ok true, write_version database ns rows call.document (latest + 1))) ∨
    (validate_schema is_alphanumeric call.document = .ok () ∧ call.expected_version ≤ latest ∧
      apply_replica_schema_register database ns is_alphanumeric call rows = (.ok false, rows)) ∨
    (¬ (validate_schema is_alphanumeric call.document = .ok () ∧ call.expected_version.toNat ≤ latest.toNat + 1) ∧
      ∃ e, apply_replica_schema_register database ns is_alphanumeric call rows = (.error e, rows)) := by
  cases hvalid : validate_schema is_alphanumeric call.document with
  | error e =>
    refine .inr (.inr ⟨nofun, e, ?_⟩)
    rw [apply_replica_schema_register, hvalid]
  | ok =>
    have happly : apply_replica_schema_register database ns is_alphanumeric call rows =
        if latest ≥ call.expected_version then (.ok false, rows)
        else if latest + 1 ≠ call.expected_version then
          (.error (.SchemaMismatch (latest + 1) call.expected_version), rows)
        else (.ok true, write_version database ns rows call.document call.expected_version) := by
      simp [apply_replica_schema_register, hvalid, hcall.owner, hcall.name, hstored.current]
    rw [happly]
    by_cases hold : latest ≥ call.expected_version
    · exact .inr (.inl ⟨rfl, hold, if_pos hold⟩)
    · have hlt : latest.toNat < call.expected_version.toNat := Nat.lt_of_not_le hold
      have hbound := call.expected_version.toNat_lt
      have hsucc : (latest + 1).toNat = latest.toNat + 1 := by
        rw [UInt32.toNat_add]
        exact Nat.mod_eq_of_lt (by change latest.toNat + 1 < 2 ^ 32; omega)
      rw [if_neg hold]
      by_cases hnext : latest + 1 = call.expected_version
      · rw [if_neg (not_not.mpr hnext), ← hnext]
        refine .inl ⟨rfl, ?_, rfl, rfl⟩
        rw [UInt32.lt_iff_toNat_lt, hsucc]
        exact Nat.lt_succ_self _
      · rw [if_pos hnext]
        refine .inr (.inr ⟨fun h => hnext (UInt32.toNat_inj.mp ?_), _, rfl⟩)
        omega

variable (database ns)

/-- Calls one after the other. -/
def deliver (rows : Rows) (calls : List ReplicaCall) : Rows :=
  calls.foldl (fun rows call => (apply_replica_schema_register database ns is_alphanumeric call rows).2) rows

/-- The calls of a run that returned `true`. -/
def applied (rows : Rows) : List ReplicaCall → List ReplicaCall
  | [] => []
  | call :: calls =>
    let out := apply_replica_schema_register database ns is_alphanumeric call rows
    if out.1.toOption = some true then call :: applied out.2 calls else applied out.2 calls

variable {database ns}

/-- What a run leaves of the registry it started from. -/
structure Extends (database ns : String) (rows : Rows) (entity_type : String) (latest : UInt32) (rows' : Rows)
    (latest' : UInt32) : Prop where
  stored : StoredVersions database ns rows' entity_type latest'
  le : latest ≤ latest'
  kept : ∀ version cell, rows.get (versionKey database ns entity_type version) = some cell →
    rows'.get (versionKey database ns entity_type version) = some cell
  owner : ∀ site, enforce_owner database ns rows' site = enforce_owner database ns rows site

theorem Extends.trans {rows' rows'' : Rows} {latest' latest'' : UInt32}
    (h : Extends database ns rows entity_type latest rows' latest')
    (h' : Extends database ns rows' entity_type latest' rows'' latest'') :
    Extends database ns rows entity_type latest rows'' latest'' where
  stored := h'.stored
  le := UInt32.le_trans h.le h'.le
  kept version cell hget := h'.kept _ _ (h.kept _ _ hget)
  owner site := (h'.owner _).trans (h.owner _)

theorem Deliverable.of_extends {rows' : Rows} {latest' : UInt32} (hcall : Deliverable database ns rows entity_type call)
    (h : Extends database ns rows entity_type latest rows' latest') :
    Deliverable database ns rows' entity_type call :=
  ⟨hcall.name, hcall.version, (h.owner _).trans hcall.owner⟩

section

variable (hstored : StoredVersions database ns rows entity_type latest)
include hstored

/-- One call extends the history or changes nothing. -/
theorem apply_replica_extends
    (hcall : Deliverable database ns rows entity_type call) : ∃ latest', Extends database ns rows entity_type latest
      (apply_replica_schema_register database ns is_alphanumeric call rows).2 latest' ∧
      ((apply_replica_schema_register database ns is_alphanumeric call rows).1 = .ok true →
        validate_schema is_alphanumeric call.document = .ok () ∧ call.expected_version ≤ latest') := by
  have hsame : Extends database ns rows entity_type latest rows latest :=
    ⟨hstored, UInt32.le_refl _, fun _ _ h => h, fun _ => rfl⟩
  rcases apply_replica_cases _ hstored hcall with
    ⟨hvalid, hlt, hversion, happly⟩ | ⟨hvalid, hold, happly⟩ | ⟨-, e, happly⟩
  · rw [happly]
    obtain rfl := hcall.name
    refine ⟨latest + 1, ⟨hstored.write_next hlt, UInt32.le_of_lt hlt, fun _ _ hget => ?_, fun site =>
      enforce_owner_write_version _⟩, fun _ => ⟨hvalid, hversion ▸ UInt32.le_refl _⟩⟩
    have hle := ((hstored.stored _).mp (by rw [hget]; rfl)).2
    rw [get_write_version_other, hget]
    rintro rfl
    exact UInt32.lt_irrefl _ (UInt32.lt_of_lt_of_le hlt hle)
  · rw [happly]
    exact ⟨latest, hsame, fun _ => ⟨hvalid, hold⟩⟩
  · rw [happly]
    exact ⟨latest, hsame, nofun⟩

theorem deliver_extends {calls : List ReplicaCall}
    (hcalls : ∀ call ∈ calls, Deliverable database ns rows entity_type call) :
    ∃ latest', Extends database ns rows entity_type latest (deliver is_alphanumeric database ns rows calls) latest' ∧
      ∀ call ∈ applied is_alphanumeric database ns rows calls, call ∈ calls ∧
        validate_schema is_alphanumeric call.document = .ok () ∧ call.expected_version ≤ latest' := by
  induction calls generalizing rows latest with
  | nil => exact ⟨latest, ⟨hstored, UInt32.le_refl _, fun _ _ h => h, fun _ => rfl⟩, by simp [applied]⟩
  | cons call calls ih =>
    obtain ⟨mid, hmid, hfirst⟩ := apply_replica_extends _ hstored
      (hcalls _ mem_cons_self)
    obtain ⟨latest', hrest, happlied⟩ := ih hmid.stored fun c hc =>
      (hcalls c (mem_cons_of_mem _ hc)).of_extends hmid
    refine ⟨latest', hmid.trans hrest, fun c hc => ?_⟩
    have hlater : c ∈ applied is_alphanumeric database ns
        (apply_replica_schema_register database ns is_alphanumeric call rows).2 calls →
        c ∈ call :: calls ∧ validate_schema is_alphanumeric c.document = .ok () ∧ c.expected_version ≤ latest' :=
      fun hc => ⟨mem_cons_of_mem _ (happlied c hc).1, (happlied c hc).2⟩
    rw [applied] at hc
    split at hc
    · next htrue =>
      rcases mem_cons.mp hc with rfl | hc
      · have hresult : (apply_replica_schema_register database ns is_alphanumeric c rows).1 = .ok true := by
          revert htrue
          cases (apply_replica_schema_register database ns is_alphanumeric c rows).1 <;> simp [Except.toOption]
        obtain ⟨hvalid, hle⟩ := hfirst hresult
        exact ⟨mem_cons_self, hvalid, UInt32.le_trans hle hrest.le⟩
      · exact hlater hc
    · exact hlater hc

/-- Calls that bring versions which are stored already change nothing. -/
theorem deliver_of_old {calls : List ReplicaCall}
    (hcalls : ∀ call ∈ calls, Deliverable database ns rows entity_type call ∧
      validate_schema is_alphanumeric call.document = .ok () ∧ call.expected_version ≤ latest) :
    deliver is_alphanumeric database ns rows calls = rows := by
  induction calls with
  | nil => rfl
  | cons call _ ih =>
    obtain ⟨hcall, hvalid, hold⟩ := hcalls _ mem_cons_self
    have happly : (apply_replica_schema_register database ns is_alphanumeric call rows).2 = rows := by
      rcases apply_replica_cases _ hstored hcall with ⟨-, hlt, hversion, -⟩ | ⟨-, -, happly⟩ | ⟨hnot, -⟩
      · rw [hversion] at hold
        exact absurd hold (UInt32.not_le.mpr hlt)
      · rw [happly]
      · exact absurd ⟨hvalid, Nat.le_succ_of_le hold⟩ hnot
    rw [deliver, foldl_cons, happly]
    exact ih fun c hc => hcalls c (mem_cons_of_mem _ hc)

end

/-- Replicated schema history is append-only. After any run of calls for a type the stored versions are
`1..latest`, and nothing stored before was overwritten. The next call returns
`true` when its schema is valid and its version is the next one, and then adds that version only; it returns
`false` when its schema is valid and its version is stored, and an error otherwise, and then changes nothing. To
repeat calls that were applied changes nothing. -/
theorem replica_schema_history_append_only {calls : List ReplicaCall}
    (hstored : StoredVersions database ns rows entity_type latest)
    (hcalls : ∀ call ∈ calls, Deliverable database ns rows entity_type call) :
    ∃ latest', StoredVersions database ns (deliver is_alphanumeric database ns rows calls) entity_type latest' ∧
      (∀ version cell, rows.get (versionKey database ns entity_type version) = some cell →
        (deliver is_alphanumeric database ns rows calls).get (versionKey database ns entity_type version) = some cell) ∧
      (∀ call, Deliverable database ns rows entity_type call →
        let out := apply_replica_schema_register database ns is_alphanumeric call
          (deliver is_alphanumeric database ns rows calls)
        (out.1 = .ok true ↔ validate_schema is_alphanumeric call.document = .ok () ∧
          call.expected_version.toNat = latest'.toNat + 1) ∧
        (out.1 = .ok false ↔ validate_schema is_alphanumeric call.document = .ok () ∧
          call.expected_version ≤ latest') ∧
        (out.1 = .ok true →
          out.2.get (versionKey database ns entity_type call.expected_version) =
            some (encode_cbor_schema { call.document with version := call.expected_version }) ∧
          ∀ version, version ≠ call.expected_version →
            out.2.get (versionKey database ns entity_type version) =
              (deliver is_alphanumeric database ns rows calls).get (versionKey database ns entity_type version)) ∧
        (out.1 ≠ .ok true → out.2 = deliver is_alphanumeric database ns rows calls)) ∧
      ∀ replayed, replayed ⊆ applied is_alphanumeric database ns rows calls →
        deliver is_alphanumeric database ns (deliver is_alphanumeric database ns rows calls) replayed =
          deliver is_alphanumeric database ns rows calls := by
  obtain ⟨latest', hrun, happlied⟩ := deliver_extends _ hstored hcalls
  refine ⟨latest', hrun.stored, hrun.kept, fun call hcall => ?_, fun replayed hreplayed => ?_⟩
  · have hcall := hcall.of_extends hrun
    dsimp only
    rcases apply_replica_cases _ hrun.stored hcall with
      ⟨hvalid, hlt, hversion, happly⟩ | ⟨hvalid, hold, happly⟩ | ⟨hnot, e, happly⟩
    · have hnat := toNat_add_one hlt
      rw [happly]
      obtain rfl := hcall.name
      refine ⟨by simp [hvalid, hversion, hnat], ?_, fun _ => ⟨?_, fun version hne => ?_⟩, absurd rfl⟩
      · simp only [Except.ok.injEq, Bool.true_eq_false, false_iff, not_and, hversion]
        exact fun _ => UInt32.not_le.mpr hlt
      · rw [hversion, get_write_version_version]
      · exact get_write_version_other (hversion ▸ hne)
    · rw [happly]
      refine ⟨?_, by simp [hvalid, hold], nofun, fun _ => rfl⟩
      simp only [Except.ok.injEq, Bool.false_eq_true, false_iff, not_and]
      rw [UInt32.le_iff_toNat_le] at hold
      exact fun _ => by omega
    · rw [happly]
      refine ⟨?_, ?_, nofun, fun _ => rfl⟩
      · simp only [reduceCtorEq, false_iff, not_and]
        exact fun hvalid hnext => hnot ⟨hvalid, hnext.le⟩
      · simp only [reduceCtorEq, false_iff, not_and]
        exact fun hvalid hold => hnot ⟨hvalid, Nat.le_succ_of_le hold⟩
  · refine deliver_of_old _ hrun.stored fun call hcall => ?_
    obtain ⟨hmem, hvalid, hle⟩ := happlied call (hreplayed hcall)
    exact ⟨(hcalls call hmem).of_extends hrun, hvalid, hle⟩

/-- An empty registry has no versions. -/
theorem storedVersions_empty : StoredVersions database ns .empty entity_type 0 where
  current := rfl
  stored version := by
    simp only [get_empty, Option.isSome_none, Bool.false_eq_true, false_iff, not_and]
    intro hone hzero
    have hone : 1 ≤ version.toNat := hone
    have hzero : version.toNat ≤ 0 := hzero
    omega

/-- A schema without properties and edges. -/
def plainSchema (name : String) : SchemaDocument := ⟨name, 0, .empty, .empty, {}, 0, ""⟩

theorem plain_history_append_only :
    let calls := [⟨plainSchema "Person", 1, "1"⟩, ⟨plainSchema "Person", 3, "1"⟩, ⟨plainSchema "Person", 2, "1"⟩]
    ∃ latest', StoredVersions "shop" "main" (deliver Char.isAlphanum "shop" "main" .empty calls) "Person" latest' ∧
      deliver Char.isAlphanum "shop" "main" (deliver Char.isAlphanum "shop" "main" .empty calls)
        (applied Char.isAlphanum "shop" "main" .empty calls) = deliver Char.isAlphanum "shop" "main" .empty calls := by
  intro calls
  have hcalls : ∀ call ∈ calls, Deliverable "shop" "main" .empty "Person" call := by
    intro call hcall
    simp only [calls, mem_cons, not_mem_nil, or_false] at hcall
    rcases hcall with rfl | rfl | rfl <;> exact ⟨rfl, by decide, rfl⟩
  obtain ⟨latest', hlatest, -, -, hreplay⟩ :=
    replica_schema_history_append_only Char.isAlphanum storedVersions_empty hcalls
  exact ⟨latest', hlatest, hreplay _ (List.Subset.refl _)⟩

/-- A schema that does not pass the check is turned down although its version is the next one. -/
theorem unnamed_property_refused :
    let call : ReplicaCall :=
      ⟨{ plainSchema "Person" with properties := .ofList [("", ⟨.string, false, .none, none⟩)] }, 1, "1"⟩
    Deliverable "shop" "main" .empty "Person" call ∧
      StoredVersions "shop" "main" .empty "Person" 0 ∧ call.expected_version = 0 + 1 ∧
      (apply_replica_schema_register "shop" "main" Char.isAlphanum call .empty).1 =
        .error (.SchemaValidation "Property name cannot be empty") := by
  exact ⟨⟨rfl, by decide, rfl⟩, storedVersions_empty, rfl, by decide +kernel⟩

end Replica

end pelago_storage.schema
