import Pelago.Storage.SchemaRegistry.History

open bytes kv pelago_core pelago_core.encoding List

namespace pelago_storage.schema

/-- The calls of the registry and of the administration that touch schemas. What the
rows outside the registry contribute to a drop is given with the call. -/
inductive Call where
  | register (document : SchemaDocument)
  | replica (call : ReplicaCall)
  | get (entity_type : String)
  | drop_entity_type (entity_type : String) (other_keys : Nat) (async_allowed : Bool)
  | drop_namespace (other_rows : Bool)

/-- A call, the server that runs it and the site of that server. -/
structure Request (P : Type) where
  server : P
  site_id : String
  call : Call

inductive Outcome where
  | version (version : UInt32)
  | applied (changed : Bool)
  | found (document : Option SchemaDocument)
  | dropped
  | queued
  deriving DecidableEq

/-- How far a call has come. Reads and commits are steps of their own, and so are
the look into the cache and the update of the cache. -/
inductive Phase where
  | idle
  | ready
  | valid
  | owned
  | chosen (current version : UInt32)
  | written (current version : UInt32)
  | cached (current version : UInt32)
  | missed
  | pointed (version : UInt32)
  | loaded (document : SchemaDocument)
  | scanning
  | clearing (keys : List Bytes)
  | probed (existed : Bool)
  | cleared
  | done (result : Except PelagoError Outcome)
  deriving DecidableEq

/-- The call has started and not returned. -/
def Phase.running : Phase → Bool
  | .idle => false
  | .done _ => false
  | _ => true

/-- The next step of the call commits a change of schema rows. -/
def Phase.commits : Phase → Bool
  | .chosen _ _ => true
  | .clearing _ => true
  | .probed existed => existed
  | _ => false

/-- What has been reported about a type: the largest version that a registration has
returned since the last time rows of the type were dropped, and whether a drop has returned
with no registration since. -/
structure Seen where
  floor : UInt32
  gone : Bool
  deriving DecidableEq

/-- The servers with their caches, one namespace of the store, and the calls. The last two fields
are not part of the system: they keep what has been reported, now and when a call started. -/
structure Cluster (P J : Type) where
  rows : Rows
  caches : P → OrdMap String SchemaDocument
  jobs : List IndexBackfill
  phases : J → Phase
  seen : String → Seen
  need : J → Seen

/-- The schema that a registration brings, and the site that must own the namespace. -/
def Request.document {P : Type} (request : Request P) : Option (SchemaDocument × String) :=
  match request.call with
  | .register document => some (document, request.site_id)
  | .replica call => some (call.document, call.origin_site_id)
  | _ => none

def Request.result {P : Type} (request : Request P) (version : UInt32) : Outcome :=
  match request.call with
  | .replica _ => .applied true
  | _ => .version version

def C4_TX_MAX_MUTATED_KEYS : Nat := 5000
def C4_TX_MAX_WRITE_BYTES : Nat := 2 * 1024 * 1024

namespace Cluster

variable {P J : Type} [DecidableEq P] [DecidableEq J]

/-- Servers with empty caches, and no call under way. -/
def initial (rows : Rows) : Cluster P J :=
  ⟨rows, fun _ => .empty, [], fun _ => .idle, fun _ => ⟨0, false⟩, fun _ => ⟨0, false⟩⟩

def goto (s : Cluster P J) (j : J) (phase : Phase) : Cluster P J :=
  { s with phases := Function.update s.phases j phase }

def finish (s : Cluster P J) (j : J) (result : Except PelagoError Outcome) : Cluster P J := s.goto j (.done result)

/-- A call that starts is held to what has been reported until then. -/
def start (s : Cluster P J) (j : J) (call : Call) : Cluster P J :=
  match call with
  | .get entity_type => { s with need := Function.update s.need j (s.seen entity_type) }.goto j .ready
  | _ => s.goto j .ready

def insert (s : Cluster P J) (server : P) (document : SchemaDocument) : Cluster P J :=
  { s with caches := Function.update s.caches server ((s.caches server).set document.name document) }

/-- The commit of a registration. -/
def register (s : Cluster P J) (database ns : String) (document : SchemaDocument) (version : UInt32) : Cluster P J :=
  { s with
    rows := write_version database ns s.rows document version
    seen := Function.update s.seen document.name { s.seen document.name with gone := false } }

/-- The report of a registration, which has created jobs before. -/
def report (s : Cluster P J) (entity_type : String) (version : UInt32) (jobs : List IndexBackfill) : Cluster P J :=
  let floor := (s.seen entity_type).floor
  { s with
    jobs := s.jobs ++ jobs
    seen := Function.update s.seen entity_type
      { s.seen entity_type with floor := if floor ≤ version then version else floor } }

/-- The commit of a drop, of one type or of all. -/
def remove (s : Cluster P J) (concerns : String → Bool) (rows : Rows) : Cluster P J :=
  { s with
    rows
    seen := fun entity_type =>
      if concerns entity_type then { s.seen entity_type with floor := 0 } else s.seen entity_type }

/-- The report of a drop. -/
def reportGone (s : Cluster P J) (concerns : String → Bool) : Cluster P J :=
  { s with seen := fun entity_type =>
      if concerns entity_type then { s.seen entity_type with gone := true } else s.seen entity_type }

end Cluster

section Step

variable (database ns : String) (is_alphanumeric : Char → Bool)

/-- The keys of a type in the schema part of the namespace start with these bytes. -/
def typePfx (entity_type : String) : Bytes :=
  ((Subspace.of_namespace database ns).schema.pack.add_string entity_type).build

def typeRows (rows : Rows) (entity_type : String) : List (Bytes × RegistryCell) :=
  rows.range (typePfx database ns entity_type) (typePfx database ns entity_type ++ [0xFF])

/-- A drop of a type with many rows is left to a job or refused. -/
def too_large (rows : Rows) (entity_type : String) (other_keys : Nat) : Bool :=
  let estimated_mutated_keys :=
    min (typeRows database ns rows entity_type).length (C4_TX_MAX_MUTATED_KEYS + 1) + other_keys
  estimated_mutated_keys > C4_TX_MAX_MUTATED_KEYS || estimated_mutated_keys * 256 > C4_TX_MAX_WRITE_BYTES

/-- The types whose schemas a call can change or remove. -/
def Call.concerns (call : Call) (entity_type : String) : Bool :=
  match call with
  | .register document => document.name = entity_type
  | .replica call => call.document.name = entity_type
  | .get name => name = entity_type
  | .drop_entity_type name _ _ => name = entity_type
  | .drop_namespace _ => true

variable {P J : Type} [DecidableEq P] [DecidableEq J]

namespace Cluster

/-- The first step of a call that has started. -/
def begin (s : Cluster P J) (j : J) (request : Request P) : Cluster P J :=
  match request.call with
  | .register document =>
    match validate_schema is_alphanumeric document with
    | .error e => s.finish j (.error e)
    | .ok () => s.goto j .valid
  | .replica call =>
    match validate_schema is_alphanumeric call.document with
    | .error e => s.finish j (.error e)
    | .ok () => s.goto j .valid
  | .get entity_type =>
    match (s.caches request.server).get entity_type with
    | some document => s.finish j (.ok (.found (some document)))
    | none => s.goto j .missed
  | .drop_entity_type entity_type other_keys async_allowed =>
    if too_large database ns s.rows entity_type other_keys then
      if async_allowed then s.finish j (.ok .queued)
      else s.finish j (.error (.Internal "ERR_RESOURCE_MUTATION_SCOPE_TOO_LARGE"))
    else s.goto j .scanning
  | .drop_namespace other_rows =>
    let subspace := Subspace.of_namespace database ns
    s.goto j (.probed (other_rows || !(s.rows.range subspace.pfx subspace.range_end).isEmpty))

/-- A registration has read the latest version of its type. -/
def choose (s : Cluster P J) (j : J) (request : Request P) (current : UInt32) : Cluster P J :=
  match request.call with
  | .replica call =>
    if current ≥ call.expected_version then s.finish j (.ok (.applied false))
    else if current + 1 ≠ call.expected_version then
      s.finish j (.error (.SchemaMismatch (current + 1) call.expected_version))
    else s.goto j (.chosen current call.expected_version)
  | _ => s.goto j (.chosen current (current + 1))

/-- One step of a registration. -/
def registerStep (s : Cluster P J) (j : J) (request : Request P) (document : SchemaDocument) (actor : String) :
    Phase → Cluster P J
  | .valid =>
    match enforce_owner database ns s.rows actor with
    | .error e => s.finish j (.error e)
    | .ok () => s.goto j .owned
  | .owned =>
    match current_version database ns s.rows document.name with
    | .error e => s.finish j (.error e)
    | .ok current => s.choose j request current
  | .chosen current version => (s.register database ns document version).goto j (.written current version)
  | .written current version => (s.insert request.server { document with version }).goto j (.cached current version)
  | .cached current version =>
    (s.report document.name version
      (jobs_after database ns s.rows { document with version } current)).finish j (.ok (request.result version))
  | _ => s

/-- One step of `get_schema` after a miss. -/
def getStep (s : Cluster P J) (j : J) (request : Request P) (entity_type : String) : Phase → Cluster P J
  | .missed =>
    match s.rows.get (latestKey database ns entity_type) with
    | none => s.finish j (.ok (.found none))
    | some (.raw bs) =>
      match decode_version bs with
      | .error e => s.finish j (.error e)
      | .ok version => s.goto j (.pointed version)
    | some _ => s.finish j (.error (.Internal "Invalid version bytes length"))
  | .pointed version =>
    match s.rows.get (versionKey database ns entity_type version) with
    | none => s.finish j (.error (.Internal ("Schema version " ++ toString version ++ " for " ++ entity_type ++
        " exists but data is missing")))
    | some cell =>
      match decode_cbor_schema cell with
      | .error e => s.finish j (.error e)
      | .ok document => s.goto j (.loaded document)
  | .loaded document => (s.insert request.server document).finish j (.ok (.found (some document)))
  | _ => s

/-- One step of `drop_entity_type`: rows are cleared a thousand at a time. -/
def dropStep (s : Cluster P J) (j : J) (entity_type : String) : Phase → Cluster P J
  | .scanning =>
    match (typeRows database ns s.rows entity_type).take 1000 with
    | [] => s.goto j .cleared
    | batch => s.goto j (.clearing (batch.map Prod.fst))
  | .clearing keys =>
    (s.remove (fun name => entity_type = name) (keys.foldl OrdMap.clear s.rows)).goto j .scanning
  | .cleared => (s.reportGone fun name => entity_type = name).finish j (.ok .dropped)
  | _ => s

/-- One step of `drop_namespace`. -/
def dropNamespaceStep (s : Cluster P J) (j : J) : Phase → Cluster P J
  | .probed true =>
    let subspace := Subspace.of_namespace database ns
    (s.remove (fun _ => true) (s.rows.clearRange subspace.pfx subspace.range_end)).goto j .cleared
  | .probed false => s.goto j .cleared
  | .cleared => (s.reportGone fun _ => true).finish j (.ok .dropped)
  | _ => s

/-- The next step of a call. -/
def advance (s : Cluster P J) (j : J) (request : Request P) : Cluster P J :=
  match s.phases j with
  | .idle => s.start j request.call
  | .ready => s.begin database ns is_alphanumeric j request
  | .done _ => s
  | phase =>
    match request.call with
    | .register document => s.registerStep database ns j request document request.site_id phase
    | .replica call => s.registerStep database ns j request call.document call.origin_site_id phase
    | .get entity_type => s.getStep database ns j request entity_type phase
    | .drop_entity_type entity_type _ _ => s.dropStep database ns j entity_type phase
    | .drop_namespace _ => s.dropNamespaceStep database ns j phase

/-- How a step ends: it takes place, its transaction fails, or its transaction commits
and the call does not learn of it. -/
inductive Fate where
  | ok
  | failed
  | lost

def step (requests : J → Request P) (s : Cluster P J) (turn : J × Fate) : Cluster P J :=
  match turn.2 with
  | .ok => s.advance database ns is_alphanumeric turn.1 (requests turn.1)
  | .failed =>
    if (s.phases turn.1).running then s.finish turn.1 (.error (.Internal "transaction failed")) else s
  | .lost =>
    if (s.phases turn.1).commits then
      (s.advance database ns is_alphanumeric turn.1 (requests turn.1)).finish turn.1
        (.error (.Internal "transaction failed"))
    else s

def exec (requests : J → Request P) (s : Cluster P J) (turns : List (J × Fate)) : Cluster P J :=
  turns.foldl (step database ns is_alphanumeric requests) s

/-- Every step of the run meets a condition. -/
def RunsWith (requests : J → Request P) (condition : Cluster P J → J → Prop) :
    Cluster P J → List (J × Fate) → Prop
  | _, [] => True
  | s, turn :: turns =>
    condition s turn.1 ∧ RunsWith requests condition (s.step database ns is_alphanumeric requests turn) turns

instance RunsWith.decidable (requests : J → Request P) (condition : Cluster P J → J → Prop)
    [∀ s j, Decidable (condition s j)] :
    ∀ s turns, Decidable (RunsWith database ns is_alphanumeric requests condition s turns)
  | _, [] => isTrue trivial
  | s, turn :: turns =>
    have := RunsWith.decidable requests condition (s.step database ns is_alphanumeric requests turn) turns
    inferInstanceAs (Decidable (_ ∧ _))

end Cluster

end Step

open Cluster (initial)

namespace Phase

/-- A registration that has committed this version and not failed since. -/
inductive Assigned (version : UInt32) : Phase → Prop where
  | written (current : UInt32) : Assigned version (.written current version)
  | cached (current : UInt32) : Assigned version (.cached current version)
  | done : Assigned version (.done (.ok (.version version)))

end Phase

variable {database ns : String} {is_alphanumeric : Char → Bool} {P J : Type} [DecidableEq P] [DecidableEq J]

namespace Cluster

omit [DecidableEq P] in
@[simp] theorem goto_rows (s : Cluster P J) (j : J) (phase : Phase) : (s.goto j phase).rows = s.rows := rfl

omit [DecidableEq P] in
@[simp] theorem goto_phases_self (s : Cluster P J) (j : J) (phase : Phase) : (s.goto j phase).phases j = phase :=
  Function.update_self _ _ _

omit [DecidableEq P] in
theorem goto_phases_of_ne (s : Cluster P J) {i j : J} (phase : Phase) (h : i ≠ j) :
    (s.goto j phase).phases i = s.phases i := Function.update_of_ne h _ _

/-- What a step of a registration does to its phase and to the rows. -/
inductive Registers (database ns : String) (document : SchemaDocument) (s s' : Cluster P J) (j : J) : Prop where
  | keep (hrows : s'.rows = s.rows) (hchosen : ∀ current version, s'.phases j = .chosen current version →
      s.phases j = .chosen current version ∨ version = current + 1)
      (hassigned : ∀ version, (s'.phases j).Assigned version → (s.phases j).Assigned version)
  | commit (current version : UInt32) (hphase : s.phases j = .chosen current version)
      (hrows : s'.rows = write_version database ns s.rows document version)
      (hchosen : ∀ current version, s'.phases j ≠ .chosen current version)
      (hassigned : ∀ version', (s'.phases j).Assigned version' → version' = version)

omit [DecidableEq P] [DecidableEq J] in
theorem Registers.refl (document : SchemaDocument) (s : Cluster P J) (j : J) :
    Registers database ns document s s j :=
  .keep rfl (fun _ _ h => .inl h) fun _ h => h

/-- A step to a phase in which nothing is assigned. -/
theorem Registers.goto (document : SchemaDocument) (s : Cluster P J) (j : J) {phase : Phase}
    (hchosen : ∀ current version, phase ≠ .chosen current version) (hassigned : ∀ version, ¬ phase.Assigned version) :
    Registers database ns document s (s.goto j phase) j := by
  refine .keep rfl (fun _ _ h => ?_) fun _ h => ?_
  · rw [goto_phases_self] at h
    exact absurd h (hchosen _ _)
  · rw [goto_phases_self] at h
    exact absurd h (hassigned _)

theorem registers_advance {request : Request P} {document : SchemaDocument} (hcall : request.call = .register document)
    (s : Cluster P J) (j : J) :
    Registers database ns document s (s.advance database ns is_alphanumeric j request) j := by
  have hstop : ∀ e : PelagoError, Registers database ns document s (s.finish j (.error e)) j := fun e =>
    .goto _ s j nofun nofun
  cases hphase : s.phases j with
  | idle =>
    simp only [advance, hphase, hcall, start]
    exact .goto _ s j nofun nofun
  | ready =>
    simp only [advance, hphase, begin, hcall]
    split
    · exact hstop _
    · exact .goto _ s j nofun nofun
  | valid =>
    simp only [advance, hphase, hcall, registerStep]
    split
    · exact hstop _
    · exact .goto _ s j nofun nofun
  | owned =>
    simp only [advance, hphase, hcall, registerStep]
    split
    · exact hstop _
    · simp only [choose, hcall]
      refine .keep rfl (fun _ _ h => ?_) fun _ h => ?_
      · rw [goto_phases_self] at h
        cases h
        exact .inr rfl
      · rw [goto_phases_self] at h
        cases h
  | chosen current version =>
    simp only [advance, hphase, hcall, registerStep]
    refine .commit current version hphase rfl (fun _ _ h => ?_) fun _ h => ?_
    · rw [goto_phases_self] at h
      cases h
    · rw [goto_phases_self] at h
      cases h
      rfl
  | written current =>
    simp only [advance, hphase, hcall, registerStep]
    refine .keep rfl (fun _ _ h => ?_) fun _ h => ?_
    · rw [goto_phases_self] at h
      cases h
    · rw [goto_phases_self] at h
      cases h
      rw [hphase]
      exact .written current
  | cached current =>
    simp only [advance, hphase, hcall, registerStep, Request.result]
    refine .keep rfl (fun _ _ h => ?_) fun _ h => ?_
    · rw [finish, goto_phases_self] at h
      cases h
    · rw [finish, goto_phases_self] at h
      cases h
      rw [hphase]
      exact .cached current
  | missed | pointed | loaded | scanning | clearing | probed | cleared | done =>
    simp only [advance, hphase, hcall, registerStep]
    exact .refl document s j

theorem registers_step {requests : J → Request P} {document : SchemaDocument} {j : J}
    (hcall : (requests j).call = .register document) (s : Cluster P J) (fate : Fate) :
    Registers database ns document s (s.step database ns is_alphanumeric requests (j, fate)) j := by
  have hstop : ∀ e : PelagoError, Registers database ns document s (s.finish j (.error e)) j := fun e =>
    .goto _ s j nofun nofun
  cases fate with
  | ok => exact registers_advance hcall s j
  | failed =>
    simp only [step]
    split
    · exact hstop _
    · exact .refl document s j
  | lost =>
    simp only [step]
    split
    · have hdone : ∀ (s : Cluster P J) (e : PelagoError), (s.finish j (.error e)).phases j = .done (.error e) :=
        fun s e => goto_phases_self s j _
      obtain ⟨hrows, -, -⟩ | ⟨current, version, hphase, hrows, -, -⟩ := registers_advance hcall s j
      · refine .keep hrows (fun _ _ h => ?_) fun _ h => ?_
        · rw [hdone] at h
          cases h
        · rw [hdone] at h
          cases h
      · refine .commit current version hphase hrows (fun _ _ h => ?_) fun _ h => ?_
        · rw [hdone] at h
          cases h
        · rw [hdone] at h
          cases h
    · exact .refl document s j

theorem advance_phases_of_ne (s : Cluster P J) {i j : J} (request : Request P) (h : i ≠ j) :
    (s.advance database ns is_alphanumeric j request).phases i = s.phases i := by
  have hgoto : ∀ (s' : Cluster P J) (phase : Phase), s'.phases = s.phases → (s'.goto j _).phases i = s.phases i :=
    fun s' phase hs => (goto_phases_of_ne s' phase h).trans (congrFun hs i)
  unfold advance
  split
  · unfold start
    split <;> exact hgoto _ _ rfl
  · unfold begin
    split <;> (try split) <;> (try split) <;> exact hgoto _ _ rfl
  · rfl
  · split
    · unfold registerStep choose
      split <;> (try split) <;> (try split) <;> (try split) <;> (try split) <;> first | rfl | exact hgoto _ _ rfl
    · unfold registerStep choose
      split <;> (try split) <;> (try split) <;> (try split) <;> (try split) <;> first | rfl | exact hgoto _ _ rfl
    · unfold getStep
      split <;> (try split) <;> (try split) <;> first | rfl | exact hgoto _ _ rfl
    · unfold dropStep
      split <;> (try split) <;> first | rfl | exact hgoto _ _ rfl
    · unfold dropNamespaceStep
      split <;> first | rfl | exact hgoto _ _ rfl

/-- A step changes the phase of its call only. -/
theorem step_phases_of_ne {requests : J → Request P} (s : Cluster P J) {i j : J} (fate : Fate) (h : i ≠ j) :
    (s.step database ns is_alphanumeric requests (j, fate)).phases i = s.phases i := by
  cases fate with
  | ok => exact advance_phases_of_ne s _ h
  | failed =>
    simp only [step]
    split
    · exact goto_phases_of_ne s _ h
    · rfl
  | lost =>
    simp only [step]
    split
    · exact (goto_phases_of_ne _ _ h).trans (advance_phases_of_ne s _ h)
    · rfl

end Cluster

/-- A registration commits only while the version it has read is still the latest one, and has not used up
the version numbers. -/
def ReadsCurrent (database ns : String) (documents : J → SchemaDocument) (s : Cluster P J) (j : J) : Prop :=
  match s.phases j with
  | .chosen current _ => current_version database ns s.rows (documents j).name = .ok current ∧ current < current + 1
  | _ => True

instance (documents : J → SchemaDocument) (s : Cluster P J) (j : J) :
    Decidable (ReadsCurrent database ns documents s j) := by
  unfold ReadsCurrent
  split <;> infer_instance

/-- Every registration that has committed has a version of its own, under which its schema is stored. -/
structure Distinct (database ns entity_type : String) (documents : J → SchemaDocument) (s : Cluster P J)
    (latest : UInt32) : Prop where
  stored : StoredVersions database ns s.rows entity_type latest
  chosen : ∀ j current version, s.phases j = .chosen current version → version = current + 1
  assigned : ∀ j version, (s.phases j).Assigned version → version ≤ latest ∧
    s.rows.get (versionKey database ns entity_type version) =
      some (encode_cbor_schema { documents j with version })
  distinct : ∀ i j version, (s.phases i).Assigned version → (s.phases j).Assigned version → i = j

section Runs

variable {entity_type : String} {documents : J → SchemaDocument} {requests : J → Request P} {s : Cluster P J}
  {latest : UInt32}

theorem Distinct.step (hcalls : ∀ j, (requests j).call = .register (documents j))
    (hnames : ∀ j, (documents j).name = entity_type) (h : Distinct database ns entity_type documents s latest)
    (j : J) (fate : Cluster.Fate) (hcurrent : ReadsCurrent database ns documents s j) :
    ∃ latest', Distinct database ns entity_type documents
      (s.step database ns is_alphanumeric requests (j, fate)) latest' := by
  have hother : ∀ i, i ≠ j → (s.step database ns is_alphanumeric requests (j, fate)).phases i = s.phases i :=
    fun i hi => s.step_phases_of_ne _ hi
  have hstep : Cluster.Registers database ns (documents j) s
      (s.step database ns is_alphanumeric requests (j, fate)) j := Cluster.registers_step (hcalls j) s _
  revert hother hstep
  generalize s.step database ns is_alphanumeric requests (j, fate) = s'
  intro hother hstep
  obtain ⟨hrows, hchosen, hassigned⟩ | ⟨current, version, hphase, hrows, hchosen, hassigned⟩ := hstep
  · have hbefore : ∀ i version, (s'.phases i).Assigned version → (s.phases i).Assigned version := by
      intro i _ hi
      by_cases hij : i = j
      · exact hij ▸ hassigned _ (hij ▸ hi)
      · exact hother i hij ▸ hi
    refine ⟨latest, ⟨hrows ▸ h.stored, fun i _ _ hi => ?_, fun i _ hi => ?_,
      fun i i' _ hi hi' => h.distinct i i' _ (hbefore i _ hi) (hbefore i' _ hi')⟩⟩
    · by_cases hij : i = j
      · exact (hchosen _ _ (hij ▸ hi)).elim (h.chosen j _ _) id
      · exact h.chosen i _ _ (hother i hij ▸ hi)
    · rw [hrows]
      exact h.assigned i _ (hbefore i _ hi)
  · rw [ReadsCurrent, hphase] at hcurrent
    obtain ⟨hread, hlt⟩ := hcurrent
    rw [hnames j, h.stored.current] at hread
    obtain rfl := Except.ok.inj hread
    obtain rfl := h.chosen j _ _ hphase
    have hname := hnames j
    -- what is assigned to another registration lies below the new version
    have hold : ∀ i version, i ≠ j → (s'.phases i).Assigned version →
        (s.phases i).Assigned version ∧ version ≠ latest + 1 := by
      intro i _ hij hi
      rw [hother i hij] at hi
      refine ⟨hi, ?_⟩
      rintro rfl
      exact UInt32.lt_irrefl _ (UInt32.lt_of_lt_of_le hlt (h.assigned i _ hi).1)
    refine ⟨latest + 1, ⟨?_, fun i _ _ hi => ?_, fun i _ hi => ?_, fun i i' _ hi hi' => ?_⟩⟩
    · rw [hrows, ← hname]
      exact .write_next (hname ▸ h.stored) hlt
    · by_cases hij : i = j
      · exact absurd (hij ▸ hi) (hchosen _ _)
      · exact h.chosen i _ _ (hother i hij ▸ hi)
    · by_cases hij : i = j
      · subst hij
        obtain rfl := hassigned _ hi
        exact ⟨UInt32.le_refl _, by rw [hrows, ← hname, get_write_version_version]⟩
      · obtain ⟨hi, hne⟩ := hold i _ hij hi
        obtain ⟨hle, hget⟩ := h.assigned i _ hi
        refine ⟨UInt32.le_trans hle (UInt32.le_of_lt hlt), ?_⟩
        rw [hrows, ← hget, ← hname]
        exact get_write_version_other hne
    · by_cases hij : i = j
      · by_cases hij' : i' = j
        · rw [hij, hij']
        · subst hij
          exact absurd (hassigned _ hi) (hold i' _ hij' hi').2
      · by_cases hij' : i' = j
        · subst hij'
          exact absurd (hassigned _ hi') (hold i _ hij hi).2
        · exact h.distinct i i' _ (hold i _ hij hi).1 (hold i' _ hij' hi').1

theorem Distinct.exec (hcalls : ∀ j, (requests j).call = .register (documents j))
    (hnames : ∀ j, (documents j).name = entity_type) (h : Distinct database ns entity_type documents s latest)
    {turns : List (J × Cluster.Fate)}
    (hrun : s.RunsWith database ns is_alphanumeric requests (ReadsCurrent database ns documents) turns) :
    ∃ latest', Distinct database ns entity_type documents (s.exec database ns is_alphanumeric requests turns)
      latest' := by
  induction turns generalizing s latest with
  | nil => exact ⟨latest, h⟩
  | cons turn _ ih =>
    obtain ⟨hcurrent, hrest⟩ := hrun
    have hstep : ∃ latest', Distinct database ns entity_type documents
        (s.step database ns is_alphanumeric requests turn) latest' := h.step hcalls hnames _ _ hcurrent
    obtain ⟨mid, hmid⟩ := hstep
    exact ih hmid hrest

/-- Registrations get versions of their own, as long as each one commits while the version it has read is
the latest: the versions they return are distinct, the stored versions are
`1..latest`, and the schema stored under a returned version is the one that was submitted. -/
theorem registrations_get_distinct_versions {rows : Rows} (hcalls : ∀ j, (requests j).call = .register (documents j))
    (hnames : ∀ j, (documents j).name = entity_type) (hstored : StoredVersions database ns rows entity_type latest)
    {turns : List (J × Cluster.Fate)}
    (hrun : (initial rows).RunsWith database ns is_alphanumeric requests (ReadsCurrent database ns documents)
      turns) :
    let s := (initial rows).exec database ns is_alphanumeric requests turns
    (∀ i j version, s.phases i = .done (.ok (.version version)) → s.phases j = .done (.ok (.version version)) → i = j) ∧
    (∃ latest', StoredVersions database ns s.rows entity_type latest') ∧
    ∀ j version, s.phases j = .done (.ok (.version version)) →
      s.rows.get (versionKey database ns entity_type version) =
        some (encode_cbor_schema { documents j with version }) := by
  have hinitial : Distinct database ns entity_type documents (initial rows : Cluster P J) latest :=
    ⟨hstored, nofun, nofun, nofun⟩
  obtain ⟨latest', h⟩ := hinitial.exec hcalls hnames hrun
  intro s
  have hassigned : ∀ j version, s.phases j = .done (.ok (.version version)) → (s.phases j).Assigned version :=
    fun j version hj => hj ▸ .done
  exact ⟨fun i j version hi hj => h.distinct i j _ (hassigned i _ hi) (hassigned j _ hj),
    ⟨latest', h.stored⟩, fun j version hj => (h.assigned j _ (hassigned j _ hj)).2⟩

/-- Two registrations of a type, on two servers. -/
def twoDocuments (j : Bool) : SchemaDocument := { plainSchema "Person" with created_by := if j then "b" else "a" }

def twoRegistrations (j : Bool) : Request Bool := ⟨j, "1", .register (twoDocuments j)⟩

/-- A registration that runs alone takes seven steps. -/
def alone (j : Bool) : List (Bool × Cluster.Fate) := List.replicate 7 (j, .ok)

theorem two_registrations_in_turn :
    ((initial .empty).RunsWith "shop" "main" Char.isAlphanum twoRegistrations
      (ReadsCurrent "shop" "main" twoDocuments) (alone false ++ alone true)) ∧
    ∃ latest', StoredVersions "shop" "main" ((initial .empty).exec "shop" "main" Char.isAlphanum
      twoRegistrations (alone false ++ alone true)).rows "Person" latest' := by
  have hrun : (initial .empty).RunsWith "shop" "main" Char.isAlphanum twoRegistrations
      (ReadsCurrent "shop" "main" twoDocuments) (alone false ++ alone true) := by decide +kernel
  have hcalls : ∀ j, (twoRegistrations j).call = .register (twoDocuments j) := fun _ => rfl
  exact ⟨hrun, (registrations_get_distinct_versions hcalls (fun _ => rfl) storedVersions_empty hrun).2.1⟩

/-- Both registrations read before either commits. -/
def racing : List (Bool × Cluster.Fate) :=
  List.replicate 4 (false, .ok) ++ List.replicate 4 (true, .ok) ++ List.replicate 3 (false, .ok) ++
    List.replicate 3 (true, .ok)

/-- Both return version one, and the schema stored under it is the second one. -/
theorem racing_registrations_share_version :
    ((initial .empty).exec "shop" "main" Char.isAlphanum twoRegistrations racing).phases false =
      .done (.ok (.version 1)) ∧
    ((initial .empty).exec "shop" "main" Char.isAlphanum twoRegistrations racing).phases true =
      .done (.ok (.version 1)) ∧
    ((initial .empty).exec "shop" "main" Char.isAlphanum twoRegistrations racing).rows.get
        (versionKey "shop" "main" "Person" 1) ≠
      some (encode_cbor_schema { twoDocuments false with version := 1 }) := by
  decide +kernel

end Runs

end pelago_storage.schema
