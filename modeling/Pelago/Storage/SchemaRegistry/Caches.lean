import Pelago.Storage.SchemaRegistry.Versions

open bytes kv pelago_core List

namespace pelago_storage.schema

open Function

variable {database ns entity_type : String}

section Rows

theorem typePfx_eq : typePfx database ns entity_type =
    (Subspace.of_namespace database ns).schema.pfx ++ element entity_type := by
  simp [typePfx, Subspace.pack, encoding.TupleBuilder.add_string, encoding.TupleBuilder.add_raw_bytes,
    encoding.TupleBuilder.build, encoding.TupleBuilder.new, element]

/-- The keys of a type that a drop of it reads and clears. -/
def TypeKey (database ns entity_type : String) (k : Bytes) : Prop :=
  ∃ rest, k = typePfx database ns entity_type ++ rest ∧ rest.head? ≠ some 0xFF

theorem typeKey_latestKey : TypeKey database ns entity_type (latestKey database ns entity_type) :=
  ⟨element "latest", by rw [latestKey_eq, typePfx_eq, append_assoc], by simpa using element_head _ []⟩

theorem typeKey_versionKey (version : UInt32) :
    TypeKey database ns entity_type (versionKey database ns entity_type version) :=
  ⟨_, by rw [versionKey_eq, typePfx_eq, append_assoc], element_head _ _⟩

theorem TypeKey.inj {entity_type' : String} {k : Bytes} (h : TypeKey database ns entity_type k)
    (h' : TypeKey database ns entity_type' k) : entity_type = entity_type' := by
  obtain ⟨rest, rfl, hrest⟩ := h
  obtain ⟨rest', heq, hrest'⟩ := h'
  rw [typePfx_eq, typePfx_eq, append_assoc, append_assoc] at heq
  exact (element_append_inj hrest hrest' (append_cancel_left heq)).1

variable {rows : Rows} {version : UInt32}

theorem mem_typeRows {row : Bytes × RegistryCell} :
    row ∈ typeRows database ns rows entity_type ↔ row ∈ rows.rows ∧ TypeKey database ns entity_type row.1 := by
  rw [typeRows, OrdMap.mem_range, bytes.mem_range_iff]
  rfl

/-- Two registries hold the same about a type. -/
def AgreeOn (database ns entity_type : String) (rows rows' : Rows) : Prop :=
  ∀ k, TypeKey database ns entity_type k → rows'.get k = rows.get k

theorem AgreeOn.current_version {rows' : Rows} (h : AgreeOn database ns entity_type rows rows') :
    current_version database ns rows' entity_type = current_version database ns rows entity_type := by
  rw [schema.current_version, schema.current_version, h _ typeKey_latestKey]

/-- The latest version of a type is stored. -/
structure Stored (database ns entity_type : String) (rows : Rows) (version : UInt32) : Prop where
  current : current_version database ns rows entity_type = .ok version
  pointer : rows.get (latestKey database ns entity_type) ≠ none
  row : ∃ document, rows.get (versionKey database ns entity_type version) = some (.schema document)

theorem Stored.agree {rows' : Rows} (h : Stored database ns entity_type rows version)
    (hagree : AgreeOn database ns entity_type rows rows') : Stored database ns entity_type rows' version where
  current := hagree.current_version.trans h.current
  pointer := by
    rw [hagree _ typeKey_latestKey]
    exact h.pointer
  row := by
    rw [hagree _ (typeKey_versionKey _)]
    exact h.row

theorem stored_write_version {document : SchemaDocument} :
    Stored database ns document.name (write_version database ns rows document version) version where
  current := current_version_write_version
  pointer := by simp
  row := ⟨_, get_write_version_version⟩

/-- A registration of another type. -/
theorem agreeOn_write_version {document : SchemaDocument} (hne : document.name ≠ entity_type) :
    AgreeOn database ns entity_type rows (write_version database ns rows document version) := by
  intro k hk
  refine get_write_version_of_ne ?_ ?_
  · rintro rfl
    exact hne ((typeKey_versionKey _).inj hk)
  · rintro rfl
    exact hne (typeKey_latestKey.inj hk)

theorem get_clear_keys (rows : Rows) (keys : List Bytes) (k : Bytes) :
    (keys.foldl OrdMap.clear rows).get k = if k ∈ keys then none else rows.get k := by
  simpa using OrdMap.get_foldl_clear _ id _ k

/-- A drop of another type. -/
theorem agreeOn_clear_keys {name : String} {keys : List Bytes} (hne : name ≠ entity_type)
    (hkeys : ∀ k ∈ keys, TypeKey database ns name k) :
    AgreeOn database ns entity_type rows (keys.foldl .clear rows) := by
  intro k hk
  rw [get_clear_keys, if_neg fun hmem => hne ((hkeys k hmem).inj hk)]

end Rows

variable {is_alphanumeric : Char → Bool} {P J : Type} [DecidableEq P] [DecidableEq J] (requests : J → Request P)

/-- What a call of `get_schema` has to return after what was reported when it started. -/
def Satisfied (need : Seen) (result : Except PelagoError Outcome) : Prop :=
  result = .error (.Internal "transaction failed") ∨
    (need.floor ≠ 0 → ∃ document, result = .ok (.found (some document)) ∧ need.floor ≤ document.version) ∧
    (need.gone = true → result = .ok (.found none))

/-- Schemas are stored and read under their own names and versions. -/
structure Named (database ns : String) (s : Cluster P J) : Prop where
  rows : ∀ name version document, s.rows.get (versionKey database ns name version) = some (.schema document) →
    document.name = name ∧ document.version = version
  loaded : ∀ j name document, (requests j).call = .get name → s.phases j = .loaded document → document.name = name
  clearing : ∀ j name other_keys async_allowed keys,
    (requests j).call = .drop_entity_type name other_keys async_allowed →
    s.phases j = .clearing keys → ∀ k ∈ keys, TypeKey database ns name k

/-- The rows and caches of a type are as recent as what has been reported. -/
structure UpToDate (database ns entity_type : String) (s : Cluster P J) : Prop where
  floor : (s.seen entity_type).floor ≠ 0 →
    ∃ version, Stored database ns entity_type s.rows version ∧ (s.seen entity_type).floor ≤ version
  gone : (s.seen entity_type).gone = true → s.rows.get (latestKey database ns entity_type) = none
  caches : ∀ server document, (s.caches server).get entity_type = some document →
    (s.seen entity_type).floor ≤ document.version ∧ s.rows.get (latestKey database ns entity_type) ≠ none

/-- A registration of the type under way. -/
structure RegisterOk (database ns entity_type : String) (s : Cluster P J) (j : J) : Prop where
  chosen : ∀ current version, s.phases j = .chosen current version →
    current_version database ns s.rows entity_type = .ok current
  written : ∀ current version, s.phases j = .written current version →
    Stored database ns entity_type s.rows version ∧
      ∀ server document, server ≠ (requests j).server → (s.caches server).get entity_type = some document →
        version ≤ document.version
  cached : ∀ current version, s.phases j = .cached current version →
    Stored database ns entity_type s.rows version ∧
      ∀ server document, (s.caches server).get entity_type = some document → version ≤ document.version

/-- A read of the type under way or done. -/
structure GetOk (database ns entity_type : String) (s : Cluster P J) (j : J) : Prop where
  need : (s.phases j).running = true → (s.need j).floor ≤ (s.seen entity_type).floor ∧
    ((s.need j).gone = true → (s.seen entity_type).gone = true)
  pointed : ∀ version, s.phases j = .pointed version →
    current_version database ns s.rows entity_type = .ok version ∧
      s.rows.get (latestKey database ns entity_type) ≠ none
  loaded : ∀ document, s.phases j = .loaded document →
    current_version database ns s.rows entity_type = .ok document.version ∧
      s.rows.get (latestKey database ns entity_type) ≠ none
  done : ∀ result, s.phases j = .done result → Satisfied (s.need j) result

/-- A drop that has nothing more to clear. -/
def DropOk (database ns entity_type : String) (s : Cluster P J) (j : J) : Prop :=
  s.phases j = .cleared ∨ s.phases j = .probed false → s.rows.get (latestKey database ns entity_type) = none

def CallOk (database ns entity_type : String) (s : Cluster P J) (j : J) : Prop :=
  match (requests j).call with
  | .register _ | .replica _ => RegisterOk requests database ns entity_type s j
  | .get _ => GetOk database ns entity_type s j
  | .drop_entity_type _ _ _ => DropOk database ns entity_type s j
  | .drop_namespace _ => DropOk database ns entity_type s j

/-- The invariant, with one call left out. -/
structure FreshBut (database ns entity_type : String) (s : Cluster P J) (j : J) : Prop where
  upToDate : UpToDate database ns entity_type s
  calls : ∀ i, i ≠ j → (requests i).call.concerns entity_type = true → CallOk requests database ns entity_type s i

structure Fresh (database ns entity_type : String) (s : Cluster P J) : Prop where
  upToDate : UpToDate database ns entity_type s
  calls : ∀ i, (requests i).call.concerns entity_type = true → CallOk requests database ns entity_type s i

variable {requests} {s s' : Cluster P J} {i j : J}

/-- What a call may rely on is kept when the rows of the type stay, new entries of caches are the latest version,
and more has been reported. -/
structure Later (database ns entity_type : String) (s s' : Cluster P J) : Prop where
  rows : AgreeOn database ns entity_type s.rows s'.rows
  caches : ∀ server document, (s'.caches server).get entity_type = some document →
    (s.caches server).get entity_type = some document ∨
      current_version database ns s.rows entity_type = .ok document.version
  floor : (s.seen entity_type).floor ≤ (s'.seen entity_type).floor
  gone : (s.seen entity_type).gone = true → (s'.seen entity_type).gone = true

variable {version : UInt32} {document : SchemaDocument}

omit [DecidableEq P] [DecidableEq J] in
theorem Later.version_le (h : Later database ns entity_type s s') {server : P} (hstored : Stored database ns entity_type s.rows version)
    (hcache : (s.caches server).get entity_type = some document → version ≤ document.version)
    (hget : (s'.caches server).get entity_type = some document) : version ≤ document.version := by
  rcases h.caches server document hget with hold | hnew
  · exact hcache hold
  · rw [hstored.current] at hnew
    exact Except.ok.inj hnew ▸ UInt32.le_refl _

theorem CallOk.later (hok : CallOk requests database ns entity_type s i) (h : Later database ns entity_type s s')
    (hphase : s'.phases i = s.phases i) (hneed : s'.need i = s.need i) :
    CallOk requests database ns entity_type s' i := by
  have hregister : RegisterOk requests database ns entity_type s i →
      RegisterOk requests database ns entity_type s' i := by
    intro hok
    refine ⟨fun _ _ hi => ?_, fun _ _ hi => ?_, fun _ _ hi => ?_⟩
    · exact h.rows.current_version.trans (hok.chosen _ _ (hphase ▸ hi))
    · obtain ⟨hstored, hcaches⟩ := hok.written _ _ (hphase ▸ hi)
      exact ⟨hstored.agree h.rows, fun _ _ hne hget =>
        h.version_le hstored (hcaches _ _ hne) hget⟩
    · obtain ⟨hstored, hcaches⟩ := hok.cached _ _ (hphase ▸ hi)
      exact ⟨hstored.agree h.rows, fun _ _ hget => h.version_le hstored (hcaches _ _) hget⟩
  have hget : GetOk database ns entity_type s i → GetOk database ns entity_type s' i := by
    intro hok
    refine ⟨fun hrunning => ?_, fun _ hi => ?_, fun _ hi => ?_, fun _ hi => ?_⟩
    · obtain ⟨hfloor, hgone⟩ := hok.need (hphase ▸ hrunning)
      rw [hneed]
      exact ⟨UInt32.le_trans hfloor h.floor, fun hi => h.gone (hgone hi)⟩
    · rw [h.rows.current_version, h.rows _ typeKey_latestKey]
      exact hok.pointed _ (hphase ▸ hi)
    · rw [h.rows.current_version, h.rows _ typeKey_latestKey]
      exact hok.loaded _ (hphase ▸ hi)
    · rw [hneed]
      exact hok.done _ (hphase ▸ hi)
  have hdrop : DropOk database ns entity_type s i → DropOk database ns entity_type s' i := by
    intro hok hi
    rw [h.rows _ typeKey_latestKey]
    exact hok (hphase ▸ hi)
  unfold CallOk at hok ⊢
  cases hcall : (requests i).call with
  | register | replica => simp only [hcall] at hok ⊢; exact hregister hok
  | get => simp only [hcall] at hok ⊢; exact hget hok
  | drop_entity_type | drop_namespace =>
    simp only [hcall] at hok ⊢; exact hdrop hok

omit [DecidableEq P] [DecidableEq J] in
/-- A call that is not under way relies on nothing. -/
theorem CallOk.of_not_running (hok : CallOk requests database ns entity_type s i)
    (hrunning : (s.phases i).running = false) (hphase : s'.phases i = s.phases i) (hneed : s'.need i = s.need i) :
    CallOk requests database ns entity_type s' i := by
  have hno : ∀ phase : Phase, phase.running = true → s'.phases i ≠ phase := by
    intro phase hphase' heq
    rw [← hphase, heq, hphase'] at hrunning
    cases hrunning
  have hregister : RegisterOk requests database ns entity_type s' i :=
    ⟨fun _ _ hi => absurd hi (hno _ rfl), fun _ _ hi => absurd hi (hno _ rfl), fun _ _ hi => absurd hi (hno _ rfl)⟩
  have hdrop : DropOk database ns entity_type s' i := fun hi =>
    hi.elim (fun hi => absurd hi (hno _ rfl)) fun hi => absurd hi (hno _ rfl)
  unfold CallOk at hok ⊢
  cases hcall : (requests i).call with
  | register | replica => exact hregister
  | get =>
    simp only [hcall] at hok
    refine ⟨fun hi => absurd rfl (hno _ hi), fun _ hi => absurd hi (hno _ rfl), fun _ hi => absurd hi (hno _ rfl),
      fun result hi => ?_⟩
    rw [hneed]
    exact hok.done result (hphase ▸ hi)
  | drop_entity_type | drop_namespace => exact hdrop

omit [DecidableEq P] [DecidableEq J] in
theorem Fresh.but (h : Fresh requests database ns entity_type s) (j : J) :
    FreshBut requests database ns entity_type s j :=
  ⟨h.upToDate, fun i _ => h.calls i⟩

section

variable (h : FreshBut requests database ns entity_type s j)
include h

/-- A call that moves to another phase. -/
theorem FreshBut.goto {phase : Phase} (hj : (requests j).call.concerns entity_type = true →
      CallOk requests database ns entity_type (s.goto j phase) j) :
    Fresh requests database ns entity_type (s.goto j phase) where
  upToDate := ⟨h.upToDate.floor, h.upToDate.gone, h.upToDate.caches⟩
  calls i hi := by
    by_cases hij : i = j
    · subst hij
      exact hj hi
    · have hlater : Later database ns entity_type s (s.goto j phase) :=
        ⟨fun _ _ => rfl, fun _ _ => .inl, UInt32.le_refl _, id⟩
      exact (h.calls i hij hi).later hlater (s.goto_phases_of_ne _ hij) rfl

theorem FreshBut.later (hlater : Later database ns entity_type s s') (hphases : s'.phases = s.phases)
    (hneed : ∀ i, i ≠ j → s'.need i = s.need i) (hup : UpToDate database ns entity_type s') :
    FreshBut requests database ns entity_type s' j :=
  ⟨hup, fun i hij hi => (h.calls i hij hi).later hlater (congrFun hphases i) (hneed i hij)⟩

/-- A change of the store that leaves the type alone. -/
theorem FreshBut.frame (hrows : AgreeOn database ns entity_type s.rows s'.rows) (hcaches : s'.caches = s.caches)
    (hseen : s'.seen entity_type = s.seen entity_type) (hphases : s'.phases = s.phases) (hneed : s'.need = s.need) :
    FreshBut requests database ns entity_type s' j := by
  refine h.later ⟨hrows, fun _ _ => ?_, ?_, ?_⟩ hphases (fun i _ => congrFun hneed i) ⟨fun hzero => ?_, fun hgone => ?_,
    fun _ _ hget => ?_⟩
  · rw [hcaches]
    exact .inl
  · rw [hseen]
    exact UInt32.le_refl _
  · rw [hseen]
    exact id
  · rw [hseen] at hzero ⊢
    obtain ⟨version, hstored, hle⟩ := h.upToDate.floor hzero
    exact ⟨version, hstored.agree hrows, hle⟩
  · rw [hseen] at hgone
    exact (hrows _ typeKey_latestKey).trans (h.upToDate.gone hgone)
  · rw [hseen, hrows _ typeKey_latestKey]
    exact h.upToDate.caches _ _ (hcaches ▸ hget)

end

omit [DecidableEq P] [DecidableEq J] in
theorem UpToDate.floor_le (h : UpToDate database ns entity_type s)
    (hcurrent : current_version database ns s.rows entity_type = .ok version) :
    (s.seen entity_type).floor ≤ version := by
  by_cases hzero : (s.seen entity_type).floor = 0
  · rw [hzero]
    exact UInt32.zero_le
  · obtain ⟨version', hstored, hle⟩ := h.floor hzero
    rw [hstored.current] at hcurrent
    exact Except.ok.inj hcurrent ▸ hle

section

variable (h : FreshBut requests database ns entity_type s j)
include h

/-- A cache gets the latest version. -/
theorem FreshBut.insert (server : P) (hdocument : document.name = entity_type →
      current_version database ns s.rows entity_type = .ok document.version ∧
        s.rows.get (latestKey database ns entity_type) ≠ none) :
    FreshBut requests database ns entity_type (s.insert server document) j := by
  have hget : ∀ server' found, ((s.insert server document).caches server').get entity_type = some found →
      (s.caches server').get entity_type = some found ∨ document.name = entity_type ∧ found = document := by
    intro server' found hfound
    simp only [Cluster.insert] at hfound
    by_cases hserver : server' = server
    · subst hserver
      rw [update_self] at hfound
      by_cases hname : document.name = entity_type
      · rw [hname, OrdMap.get_set_self] at hfound
        exact .inr ⟨hname, (Option.some.inj hfound).symm⟩
      · rw [OrdMap.get_set_of_ne _ _ (symm hname)] at hfound
        exact .inl hfound
    · rw [update_of_ne hserver] at hfound
      exact .inl hfound
  refine h.later ⟨fun _ _ => rfl, fun _ _ hfound => ?_, UInt32.le_refl _, id⟩ rfl (fun _ _ => rfl)
    ⟨h.upToDate.floor, h.upToDate.gone, fun _ _ hfound => ?_⟩
  · rcases hget _ _ hfound with hold | ⟨hname, rfl⟩
    · exact .inl hold
    · exact .inr (hdocument hname).1
  · rcases hget _ _ hfound with hold | ⟨hname, rfl⟩
    · exact h.upToDate.caches _ _ hold
    · obtain ⟨hcurrent, hpointer⟩ := hdocument hname
      exact ⟨h.upToDate.floor_le hcurrent, hpointer⟩

/-- A registration that reports the latest version, which every cache has. -/
theorem FreshBut.report {name : String}
    (jobs : List IndexBackfill) (hname : name = entity_type → Stored database ns entity_type s.rows version ∧
      ∀ server document, (s.caches server).get entity_type = some document → version ≤ document.version) :
    FreshBut requests database ns entity_type (s.report name version jobs) j := by
  by_cases hsame : name = entity_type
  · obtain ⟨hstored, hcaches⟩ := hname hsame
    subst hsame
    have hfloor : (s.seen name).floor ≤ version := h.upToDate.floor_le hstored.current
    have hseen : (s.report name version jobs).seen name = ⟨version, (s.seen name).gone⟩ := by
      simp [Cluster.report, update_self, if_pos hfloor]
    refine h.later ⟨fun _ _ => rfl, fun _ _ => .inl, ?_, ?_⟩ rfl (fun _ _ => rfl) ⟨fun _ => ?_, ?_, fun _ _
      hget => ?_⟩
    · rw [hseen]
      exact hfloor
    · rw [hseen]
      exact id
    · rw [hseen]
      exact ⟨version, hstored, UInt32.le_refl _⟩
    · rw [hseen]
      exact h.upToDate.gone
    · rw [hseen]
      exact ⟨hcaches _ _ hget, (h.upToDate.caches _ _ hget).2⟩
  · refine h.frame (fun _ _ => rfl) rfl ?_ rfl rfl
    simp [Cluster.report, update_of_ne (symm hsame)]

/-- A drop that reports that nothing is left. -/
theorem FreshBut.reportGone {concerns : String → Bool}
    (hgone : concerns entity_type = true → s.rows.get (latestKey database ns entity_type) = none) :
    FreshBut requests database ns entity_type (s.reportGone concerns) j := by
  have hfloor : ((s.reportGone concerns).seen entity_type).floor = (s.seen entity_type).floor := by
    simp only [Cluster.reportGone]
    split <;> rfl
  have hmono : (s.seen entity_type).gone = true → ((s.reportGone concerns).seen entity_type).gone = true := by
    intro hseen
    simp only [Cluster.reportGone]
    split
    · rfl
    · exact hseen
  refine h.later ⟨fun _ _ => rfl, fun _ _ => .inl, ?_, hmono⟩ rfl (fun _ _ => rfl) ⟨?_, fun hseen => ?_, ?_⟩
  · rw [hfloor]
    exact UInt32.le_refl _
  · rw [hfloor]
    exact h.upToDate.floor
  · by_cases hconcerns : concerns entity_type = true
    · exact hgone hconcerns
    · simp only [Cluster.reportGone, hconcerns, Bool.false_eq_true, if_false] at hseen
      exact h.upToDate.gone hseen
  · rw [hfloor]
    exact h.upToDate.caches

end

/-- A change of the type commits while no other call on it is under way, and only the server that registers it may
have it in its cache. -/
def Quiet (requests : J → Request P) (entity_type : String) (s : Cluster P J) (j : J) : Prop :=
  (s.phases j).commits = true → (requests j).call.concerns entity_type = true →
    (∀ i, i ≠ j → (requests i).call.concerns entity_type = true → (s.phases i).running = false) ∧
    (∀ server, (s.caches server).contains entity_type = true →
      (requests j).document.isSome = true ∧ server = (requests j).server) ∧
    match s.phases j with
    | .chosen current version => current < version
    | _ => True

section

variable (h : FreshBut requests database ns entity_type s j)
include h

theorem FreshBut.of_quiet
    (hquiet : ∀ i, i ≠ j → (requests i).call.concerns entity_type = true → (s.phases i).running = false)
    (hphases : s'.phases = s.phases) (hneed : s'.need = s.need) (hup : UpToDate database ns entity_type s') :
    FreshBut requests database ns entity_type s' j :=
  ⟨hup, fun i hij hi => (h.calls i hij hi).of_not_running (hquiet i hij hi) (congrFun hphases i) (congrFun hneed i)⟩

/-- The commit of a registration, which counts up the version of its type. -/
theorem FreshBut.register {current : UInt32} (hquiet : document.name = entity_type →
      (∀ i, i ≠ j → (requests i).call.concerns entity_type = true → (s.phases i).running = false) ∧
      current_version database ns s.rows entity_type = .ok current ∧ current < version) :
    FreshBut requests database ns entity_type (s.register database ns document version) j := by
  by_cases hname : document.name = entity_type
  · obtain ⟨hothers, hcurrent, hlt⟩ := hquiet hname
    subst hname
    have hseen : (s.register database ns document version).seen document.name =
        ⟨(s.seen document.name).floor, false⟩ := by simp [Cluster.register, update_self]
    have hstored : Stored database ns document.name (s.register database ns document version).rows version :=
      stored_write_version
    refine h.of_quiet hothers rfl rfl ⟨fun _ => ?_, ?_, fun _ _ hget => ?_⟩
    · rw [hseen]
      exact ⟨version, hstored, UInt32.le_trans (h.upToDate.floor_le hcurrent) (UInt32.le_of_lt hlt)⟩
    · rw [hseen]
      nofun
    · rw [hseen]
      exact ⟨(h.upToDate.caches _ _ hget).1, hstored.pointer⟩
  · refine h.frame (agreeOn_write_version hname) rfl ?_ rfl rfl
    simp [Cluster.register, update_of_ne (symm hname)]

/-- The commit of a drop, which no cache may outlive. -/
theorem FreshBut.remove {concerns : String → Bool} {rows : Rows}
    (hrows : ∀ k, rows.get k = none ∨ rows.get k = s.rows.get k)
    (hother : concerns entity_type = false → AgreeOn database ns entity_type s.rows rows)
    (hquiet : concerns entity_type = true →
      (∀ i, i ≠ j → (requests i).call.concerns entity_type = true → (s.phases i).running = false) ∧
      ∀ server, (s.caches server).get entity_type = none) :
    FreshBut requests database ns entity_type (s.remove concerns rows) j := by
  by_cases hconcerns : concerns entity_type = true
  · obtain ⟨hothers, hcaches⟩ := hquiet hconcerns
    have hseen : (s.remove concerns rows).seen entity_type = ⟨0, (s.seen entity_type).gone⟩ := by
      simp [Cluster.remove, hconcerns, if_true]
    refine h.of_quiet hothers rfl rfl ⟨fun hzero => ?_, fun hgone => ?_, fun _ _ hget => ?_⟩
    · rw [hseen] at hzero
      exact absurd rfl hzero
    · rw [hseen] at hgone
      rcases hrows _ with hnone | hsame
      · exact hnone
      · exact hsame.trans (h.upToDate.gone hgone)
    · rw [show (s.remove concerns rows).caches = s.caches from rfl, hcaches] at hget
      cases hget
  · have hconcerns : concerns entity_type = false := Bool.eq_false_iff.mpr hconcerns
    refine h.frame (hother hconcerns) rfl ?_ rfl rfl
    simp [Cluster.remove, hconcerns, Bool.false_eq_true, if_false]

end

end pelago_storage.schema
