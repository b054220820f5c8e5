import Pelago.Storage.IndexBackfill
import Pelago.Storage.SchemaRegistry.History

open bytes kv pelago_core pelago_core.encoding List
open pelago_storage.index pelago_storage.node pelago_storage.job_executor

namespace pelago_storage.node

section Indexes

variable {dep : Deployment} {old new : EntitySchema} {db : Db} {rows' : OrdMap Bytes Cell}

/-- The index kind of a property is the same under both schemas wherever a live node holds a
value that had an entry. -/
def KeepsEntries (dep : Deployment) (old new : EntitySchema) (db : Db) : Prop :=
  ∀ id property kind value, dep.Holds db old id property kind value →
    dep.Holds db new id property kind value

/-- Among the given nodes no value gets an entry that it did not have. -/
def AddsNone (dep : Deployment) (old new : EntitySchema) (db : Db) (nodes : NodeId → Prop) : Prop :=
  ∀ id property kind value, nodes id → dep.Holds db new id property kind value →
    dep.Holds db old id property kind value

/-- No two live nodes have the same bytes for a unique property. -/
def UniqueBytes (dep : Deployment) (schema : EntitySchema) (db : Db) : Prop :=
  ∀ id id' property value value', dep.Holds db schema id property .unique value →
    dep.Holds db schema id' property .unique value' →
    encodedValue value = encodedValue value' → id = id'

variable {schema schema' : EntitySchema} {id id' : NodeId} {property property' : String}
  {kind kind' : IndexType} {value value' : Value}

/-- Keys of entries tell the property and the kind. -/
private theorem same_index (h : dep.Holds db schema id property kind value)
    (h' : dep.Holds db schema' id' property' kind' value')
    (hkey : (dep.entry id property kind value).key = (dep.entry id' property' kind' value').key) :
    dep.Holds db schema' id property kind value := by
  obtain ⟨d, hd, hindexed⟩ := h
  obtain ⟨d', _, hindexed'⟩ := h'
  obtain ⟨rfl, rfl, _⟩ := entryFor_key_eq hindexed.indexed hindexed'.indexed hkey
  exact ⟨d, hd, hindexed'.defined, hindexed.indexed, hindexed.held, hindexed.not_null⟩

/-- Keys and cells of entries tell the node. -/
private theorem same_node (h : dep.Holds db schema id property kind value)
    (h' : dep.Holds db schema' id' property' kind' value')
    (hkey : (dep.entry id property kind value).key = (dep.entry id' property' kind' value').key)
    (hcell : (dep.entry id property kind value).cell = (dep.entry id' property' kind' value').cell) : id = id' := by
  obtain ⟨d, _, hindexed⟩ := h
  obtain ⟨d', _, hindexed'⟩ := h'
  obtain ⟨rfl, rfl, _, rfl | hid⟩ := entryFor_key_eq hindexed.indexed hindexed'.indexed hkey
  · exact NodeId.to_bytes_inj (Cell.raw.inj hcell)
  · exact hid

/-- Entries of one key have one cell, unless two nodes share a unique value. -/
private theorem same_cell (hunique : UniqueBytes dep schema db)
        (h : dep.Holds db schema id property kind value) (h' : dep.Holds db schema id' property' kind' value')
    (hkey : (dep.entry id property kind value).key = (dep.entry id' property' kind' value').key) :
    (dep.entry id property kind value).cell = (dep.entry id' property' kind' value').cell := by
  obtain ⟨d, hd, hindexed⟩ := h
  obtain ⟨d', hd', hindexed'⟩ := h'
  obtain ⟨rfl, rfl, hencoded, rfl | rfl⟩ := entryFor_key_eq hindexed.indexed hindexed'.indexed hkey
  · rw [hunique id _ _ _ _ ⟨d, hd, hindexed⟩ ⟨d', hd', hindexed'⟩ hencoded]
    rfl
  · rfl

private theorem entryRow_entry (h : dep.Holds db schema id property kind value) :
    EntryRow dep.subspace dep.entity_type (dep.entry id property kind value).key := by
  obtain ⟨d, _, hindexed⟩ := h
  exact entryRow_entryFor hindexed.indexed _

section Fill

variable {scanned : NodeId → Prop} {entries : List IndexEntry}
  (hentries : ∀ entry, entry ∈ entries ↔ ∃ id property kind value, scanned id ∧
    dep.Holds db new id property kind value ∧ entry = dep.entry id property kind value)
  (hfilled : Filled entries db.rows rows')

include hentries

private theorem holds_filled (hfilled : Filled entries db.rows rows') :
    dep.Holds { db with rows := rows' } schema id property kind value ↔ dep.Holds db schema id property kind value := by
  have hrecord : dep.record { db with rows := rows' } id = dep.record db id := by
    refine hfilled.kept _ fun _ hentry hkey => ?_
    obtain ⟨id', _, _, _, _, hholds, rfl⟩ := (hentries _).mp hentry
    exact data_key_not_indexRow _ _ (hkey ▸ (entryRow_entry hholds).indexRow)
  rw [Deployment.Holds, hrecord, Deployment.Holds]

include hfilled

/-- When the index was right before and the entries of some nodes are written, it is right
for the new schema just if no entry has become wrong, none of another node is missing and no
two nodes claim one row. -/
theorem entriesExact_filled_iff (hexact : EntriesExact dep old db) :
    EntriesExact dep new { db with rows := rows' } ↔
      KeepsEntries dep old new db ∧ AddsNone dep old new db (fun id => ¬ scanned id) ∧ UniqueBytes dep new db := by
  rw [entriesExact_iff] at hexact ⊢
  simp only [Deployment.EntryOf, holds_filled hentries hfilled]
  constructor
  · intro hnew
    refine ⟨?_, ?_, ?_⟩
    · intro id property kind value hold
      have hrow := entryRow_entry hold
      by_cases hwritten : ∃ entry ∈ entries, entry.key = (dep.entry id property kind value).key
      · obtain ⟨entry, hentry, hkey⟩ := hwritten
        obtain ⟨id', _, _, _, _, hholds, rfl⟩ := (hentries _).mp hentry
        exact same_index hold hholds hkey.symm
      · have hget : db.rows.get _ = some _ := (hexact _ _ hrow).mpr ⟨id, property, kind, value, hold, rfl, rfl⟩
        rw [← hfilled.kept _ fun entry hentry hkey => hwritten ⟨entry, hentry, hkey⟩] at hget
        obtain ⟨id', _, _, _, hholds, hkey, _⟩ := (hnew _ _ hrow).mp hget
        exact same_index hold hholds hkey
    · intro id property kind value hscanned hholds
      have hrow := entryRow_entry hholds
      have hget : rows'.get _ = some _ := (hnew _ _ hrow).mpr ⟨id, property, kind, value, hholds, rfl, rfl⟩
      by_cases hwritten : ∃ entry ∈ entries, entry.key = (dep.entry id property kind value).key
      · obtain ⟨entry, hentry, hkey⟩ := hwritten
        obtain ⟨last, hlast, hlastKey, hlastGet⟩ := hfilled.written _ hentry
        rw [hkey, hget, Option.some.injEq] at hlastGet
        obtain ⟨id', _, _, _, hscanned', hholds', rfl⟩ := (hentries _).mp hlast
        obtain rfl := same_node hholds hholds' (hlastKey.trans hkey).symm hlastGet
        exact absurd hscanned' hscanned
      · rw [hfilled.kept _ fun entry hentry hkey => hwritten ⟨entry, hentry, hkey⟩] at hget
        obtain ⟨id', _, _, _, hholds', hkey, _⟩ := (hexact _ _ hrow).mp hget
        exact same_index hholds hholds' hkey
    · intro id id' property value value' hholds hholds' hencoded
      have hkey : (dep.entry id property .unique value).key = (dep.entry id' property .unique value').key := by
        simp [entry, entryFor, entryTail, hencoded]
      have hget : rows'.get _ = some _ :=
        (hnew _ _ (entryRow_entry hholds)).mpr ⟨id, property, .unique, value, hholds, rfl, rfl⟩
      have hget' : rows'.get _ = some _ :=
        (hnew _ _ (entryRow_entry hholds')).mpr ⟨id', property, .unique, value', hholds', rfl, rfl⟩
      rw [hkey, hget', Option.some.injEq] at hget
      exact same_node hholds hholds' hkey hget.symm
  · rintro ⟨hkeeps, hadds, hunique⟩ k c hrow
    by_cases hwritten : ∃ entry ∈ entries, entry.key = k
    · obtain ⟨entry, hentry, rfl⟩ := hwritten
      obtain ⟨last, hlast, hlastKey, hget⟩ := hfilled.written _ hentry
      obtain ⟨id, property, kind, value, _, hholds, rfl⟩ := (hentries _).mp hlast
      rw [hget, Option.some.injEq]
      constructor
      · rintro rfl
        exact ⟨id, property, kind, value, hholds, hlastKey.symm, rfl⟩
      · rintro ⟨id', _, _, _, hholds', hkey, rfl⟩
        exact same_cell hunique hholds hholds' (hlastKey.trans hkey)
    · have hnone : ∀ entry ∈ entries, entry.key ≠ k := fun entry hentry hkey => hwritten ⟨entry, hentry, hkey⟩
      rw [hfilled.kept k hnone, hexact k c hrow]
      constructor
      · rintro ⟨id, property, kind, value, hold, hkey, hcell⟩
        exact ⟨id, property, kind, value, hkeeps id _ _ _ hold, hkey, hcell⟩
      · rintro ⟨id, property, kind, value, hholds, rfl, rfl⟩
        have hscanned : ¬ scanned id := fun hscanned =>
          hnone _ ((hentries _).mpr ⟨id, property, kind, value, hscanned, hholds, rfl⟩) rfl
        exact ⟨id, property, kind, value, hadds id _ _ _ hscanned hholds, rfl, rfl⟩

end Fill

end Indexes

end pelago_storage.node

namespace pelago_storage.schema

/-- A schema as the registry reads it when it is in no cache. -/
def get_schema (database ns : String) (rows : Rows) (entity_type : String) :
    Except PelagoError (Option SchemaDocument) :=
  match rows.get (latestKey database ns entity_type) with
  | none => .ok none
  | some (.raw bs) => do
    let version ← decode_version bs
    match rows.get (versionKey database ns entity_type version) with
    | some cell => (decode_cbor_schema cell).map some
    | none => .error (.Internal ("Schema version " ++ toString version ++ " for " ++ entity_type ++
        " exists but data is missing"))
  | some _ => .error (.Internal "Invalid version bytes length")

section Registration

variable {database ns : String} {is_alphanumeric : Char → Bool} {site_id : String} {rows rows' : Rows}
  {document old : SchemaDocument} {current version : UInt32} {jobs : List IndexBackfill}

/-- What a registration after an earlier version leaves: the new version is read back, and
the jobs come from the difference of the two. -/
theorem register_schema_eq_ok
    (hregister : register_schema database ns is_alphanumeric site_id document rows = .ok (version, rows', jobs))
    (hcurrent : current_version database ns rows document.name = .ok current) (hpos : 0 < current)
    (hold : get_schema_version database ns rows document.name current = .ok (some old)) : version = current + 1 ∧
    get_schema database ns rows' document.name = .ok (some { document with version }.stored) ∧
      jobs = backfill_jobs old document := by
  unfold register_schema at hregister
  rw [hcurrent] at hregister
  simp only [bind, Except.bind, pure, pure] at hregister
  split at hregister
  · cases hregister
  split at hregister
  · cases hregister
  obtain ⟨rfl, rfl, rfl⟩ := hregister
  have hne : current ≠ current + 1 := by
    intro h
    have hzero : current.toNat = (current.toNat + 1) % 2 ^ 32 := by simpa using congrArg UInt32.toNat h
    omega
  refine ⟨rfl, ?_, ?_⟩
  · simp [get_schema, get_write_version_latest, decode_encode_version, get_write_version_version, encode_cbor_schema,
      decode_cbor_schema, bind, Except.bind, Except.map]
  · have hread : get_schema_version database ns (write_version database ns rows document (current + 1)) document.name
        current = .ok (some old) := by
      rw [get_schema_version, get_write_version_other hne]
      exact hold
    rw [jobs_after, if_pos hpos]
    rw [hread]
    rfl

end Registration

section Evolution

variable {old new : SchemaDocument} {properties : Properties} {property : String} {kind : IndexType} {value : Value}

theorem indexed_stored {document : SchemaDocument} : Indexed document.stored.entity properties property kind value ↔
      Indexed document.entity properties property kind value := by
  have hdefined : (∃ prop_def, document.stored.entity.properties.get property = some prop_def ∧
      prop_def.index = kind) ↔
      ∃ prop_def, document.entity.properties.get property = some prop_def ∧ prop_def.index = kind := by
    simp only [SchemaDocument.stored, SchemaDocument.entity, OrdMap.get_mapVal, Option.map_eq_some_iff]
    constructor
    · rintro ⟨_, ⟨prop_def, hdef, rfl⟩, hkind⟩
      exact ⟨prop_def, hdef, hkind⟩
    · rintro ⟨prop_def, hdef, hkind⟩
      exact ⟨_, ⟨prop_def, hdef, rfl⟩, hkind⟩
  exact ⟨fun h => ⟨hdefined.mp h.defined, h.indexed, h.held, h.not_null⟩,
    fun h => ⟨hdefined.mpr h.defined, h.indexed, h.held, h.not_null⟩⟩

theorem entity_type_of_mem_backfill_jobs {job_type : IndexBackfill} (h : job_type ∈ backfill_jobs old new) :
    job_type.entity_type = new.name := by
  obtain ⟨row, _, hrow⟩ := mem_filterMap.mp h
  dsimp only at hrow
  split at hrow
  · rw [← Option.some.inj hrow]
  · cases hrow

/-- Without a job, every property with an index had one before. -/
theorem Indexed.before_of_no_jobs (hjobs : backfill_jobs old new = [])
    (h : Indexed new.entity properties property kind value) :
    ∃ kind', Indexed old.entity properties property kind' value := by
  obtain ⟨prop_def, hdef, rfl⟩ := h.defined
  have hrow := filterMap_eq_nil_iff.mp hjobs (property, prop_def)
    (new.properties.get_eq_some_iff_mem.mp hdef)
  dsimp only at hrow
  have hindexed : ((old.properties.get property).map PropertyDef.index).getD .none ≠ .none := by
    intro hnone
    rw [if_pos ⟨h.indexed, hnone⟩] at hrow
    cases hrow
  cases hold : old.properties.get property with
  | none => simp [hold] at hindexed
  | some old_def =>
    rw [hold] at hindexed
    exact ⟨old_def.index, ⟨old_def, hold, rfl⟩, hindexed, h.held, h.not_null⟩

variable {dep : Deployment} {db : Db} {version : UInt32}

/-- The entries that the jobs write are those of the live nodes of the scan. -/
theorem mem_written (hnodes : NodeRows dep.subspace dep.entity_type (dataRows dep.subspace dep.entity_type db.rows))
    (entry : IndexEntry) : entry ∈ (dataRows dep.subspace dep.entity_type db.rows).flatMap
        (entriesOf dep.subspace dep.entity_type { new with version }.stored.entity) ↔
      ∃ id property kind value, id.site ≠ 0xFF ∧ dep.Holds db new.entity id property kind value ∧
        entry = dep.entry id property kind value := by
  rw [mem_flatMap]
  constructor
  · rintro ⟨row, hrow, hentry⟩
    obtain ⟨id, d, rfl⟩ := hnodes _ hrow
    obtain ⟨hd, hsite⟩ := mem_dataRows.mp hrow
    obtain ⟨property, kind, value, hindexed, rfl⟩ := mem_entriesOf.mp hentry
    exact ⟨id, property, kind, value, hsite, ⟨d, hd, indexed_stored.mp hindexed⟩, rfl⟩
  · rintro ⟨id, property, kind, value, hsite, ⟨d, hd, hindexed⟩, rfl⟩
    exact ⟨_, mem_dataRows.mpr ⟨hd, hsite⟩, mem_entriesOf.mpr
      ⟨property, kind, value, indexed_stored.mpr hindexed, rfl⟩⟩

/-- After a registration that changes index declarations, and the jobs it creates, the index
of the type is that of the new schema just if three things hold. No index that had an entry
of a live node is dropped or changes its kind, since no job removes entries. No value with a
new index belongs to a node of the last site, which the scan leaves out. No two live nodes
share a value that is unique under the new schema. -/
theorem registration_keeps_indexes_iff {is_alphanumeric : Char → Bool} {site_id : String} {registry registry' : Rows}
    {current : UInt32} {jobs : List IndexBackfill} {batch_size fuel : Nat} (hname : new.name = dep.entity_type)
    (hcurrent : current_version dep.database dep.ns registry dep.entity_type = .ok current) (hpos : 0 < current)
    (hold : get_schema_version dep.database dep.ns registry dep.entity_type current = .ok (some old))
    (hregister : register_schema dep.database dep.ns is_alphanumeric site_id new registry =
      .ok (version, registry', jobs))
    (hexact : EntriesExact dep old.entity db)
    (hnodes : NodeRows dep.subspace dep.entity_type (dataRows dep.subspace dep.entity_type db.rows))
    (hbatch : 0 < batch_size) (hfuel : (dataRows dep.subspace dep.entity_type db.rows).length < fuel) :
    ∃ rows', BackfillJob.execute_jobs (get_schema dep.database dep.ns registry' dep.entity_type) batch_size
        dep.database dep.ns fuel jobs db.rows = .ok (some rows') ∧
      (EntriesExact dep new.entity { db with rows := rows' } ↔
        KeepsEntries dep old.entity new.entity db ∧
        AddsNone dep old.entity new.entity db (fun id => id.site = 0xFF) ∧
        UniqueBytes dep new.entity db) := by
  rw [← hname] at hcurrent hold
  obtain ⟨_, hread, rfl⟩ := register_schema_eq_ok hregister hcurrent hpos hold
  have hjobs : ∀ job_type ∈ backfill_jobs old new, job_type.entity_type = dep.entity_type :=
    fun job_type h => (entity_type_of_mem_backfill_jobs h).trans hname
  have hanswer : get_schema dep.database dep.ns registry' dep.entity_type =
      .ok (some { new with version }.stored) := by
    rw [← hname]
    exact hread
  rw [hanswer]
  obtain ⟨rows', hrun, hrows⟩ := BackfillJob.execute_jobs_filled hbatch hjobs rfl hnodes hfuel
  refine ⟨rows', hrun, ?_⟩
  obtain ⟨hnone, rfl⟩ | ⟨_, hfilled⟩ := hrows
  · have hempty : Filled [] db.rows db.rows := ⟨fun _ _ => rfl, fun _ h => absurd h not_mem_nil⟩
    have hentries : ∀ entry, entry ∈ ([] : List IndexEntry) ↔ ∃ id property kind value, False ∧
        dep.Holds db new.entity id property kind value ∧ entry = dep.entry id property kind value := by simp
    refine (entriesExact_filled_iff hentries hempty hexact).trans ?_
    refine and_congr_right fun hkeeps => and_congr_left fun _ => ?_
    have hadds : ∀ nodes, AddsNone dep old.entity new.entity db nodes := by
      rintro nodes id property kind value _ ⟨d, hd, hindexed⟩
      obtain ⟨kind', hbefore⟩ := Indexed.before_of_no_jobs hnone hindexed
      obtain ⟨d', _, hafter⟩ := hkeeps id _ _ _ ⟨d, hd, hbefore⟩
      obtain rfl := hindexed.kind_eq hafter
      exact ⟨d, hd, hbefore⟩
    exact iff_of_true (hadds _) (hadds _)
  · refine (entriesExact_filled_iff (mem_written hnodes) hfilled hexact).trans ?_
    simp

end Evolution

section People

/-- People with an age, indexed in the given way. -/
def personSchema (index : IndexType) : SchemaDocument :=
  { plainSchema "Person" with properties := .ofList [("age", ⟨.int, false, index, none⟩)] }

def people : Deployment := ⟨⟨fun _ _ _ => none, "1", .none⟩, ⟨1, 100⟩, "shop", "main", "Person"⟩

def someone : NodeId := ⟨1, 7⟩

def someonesData : NodeData := ⟨OrdMap.ofList [("age", .int 30)], 1, 0, 0⟩

/-- One live node and no entries. -/
def onePerson : Db := ⟨OrdMap.ofList [recordRow people.subspace "Person" someone someonesData], fun _ => []⟩

/-- The registry with the first version of the schema. -/
def firstVersion (index : IndexType) : Rows := write_version "shop" "main" .empty (personSchema index) 1

/-- The stored first version. -/
def firstSchema (index : IndexType) : SchemaDocument := { personSchema index with version := 1 }.stored

variable {id : NodeId} {property : String} {kind index : IndexType} {value : Value}

private theorem record_onePerson {d : NodeData} (h : people.record onePerson id = some (.node d)) :
    id = someone ∧ d = someonesData := by
  have hmem := onePerson.rows.get_eq_some_iff_mem.mp h
  obtain ⟨hkey, hcell⟩ := Prod.mk.inj (mem_singleton.mp hmem)
  exact ⟨NodeId.to_bytes_inj (data_key_inj hkey), Cell.node.inj hcell⟩

private theorem holds_onePerson {document : SchemaDocument} (hproperties : document.properties.rows =
      [("age", ⟨.int, false, index, none⟩)]) (h : people.Holds onePerson document.entity id property kind value) :
    id = someone ∧ property = "age" ∧ kind = index ∧ kind ≠ .none ∧ value = .int 30 := by
  obtain ⟨d, hd, hindexed⟩ := h
  obtain ⟨rfl, rfl⟩ := record_onePerson hd
  obtain ⟨prop_def, hdef, rfl⟩ := hindexed.defined
  have hmem := document.properties.get_eq_some_iff_mem.mp hdef
  rw [hproperties, mem_singleton] at hmem
  obtain ⟨rfl, rfl⟩ := Prod.mk.inj hmem
  have hvalue : someonesData.properties.get "age" = some (.int 30) := by decide +kernel
  rw [hindexed.held, Option.some.injEq] at hvalue
  exact ⟨rfl, rfl, rfl, hindexed.indexed, hvalue⟩

private theorem exact_onePerson : EntriesExact people (firstSchema .none).entity onePerson := by
  rw [entriesExact_iff]
  intro k c hrow
  constructor
  · intro hget
    have hmem := onePerson.rows.get_eq_some_iff_mem.mp hget
    obtain ⟨rfl, _⟩ := Prod.mk.inj (mem_singleton.mp hmem)
    exact absurd hrow.indexRow (data_key_not_indexRow _ _)
  · rintro ⟨id, _, _, _, hholds, _⟩
    obtain ⟨_, _, rfl, hkind, _⟩ := holds_onePerson rfl hholds
    exact absurd rfl hkind

private theorem nodeRows_onePerson :
    NodeRows people.subspace "Person" (dataRows people.subspace "Person" onePerson.rows) := by
  intro _ hrow
  have hmem := (onePerson.rows.mem_range.mp hrow).1
  exact ⟨someone, someonesData, mem_singleton.mp hmem⟩

theorem new_index_filled :
    ∃ registry' jobs rows', register_schema "shop" "main" Char.isAlphanum "1" (personSchema .equality)
        (firstVersion .none) = .ok (2, registry', jobs) ∧
      jobs = [⟨"Person", "age", .equality⟩] ∧
      BackfillJob.execute_jobs (get_schema "shop" "main" registry' "Person") 1000 "shop" "main" 2 jobs onePerson.rows =
        .ok (some rows') ∧
      EntriesExact people (personSchema .equality).entity { onePerson with rows := rows' } := by
  have hregister : register_schema "shop" "main" Char.isAlphanum "1" (personSchema .equality) (firstVersion .none) =
      .ok (2, write_version "shop" "main" (firstVersion .none) (personSchema .equality) 2,
        [⟨"Person", "age", .equality⟩]) := by
    decide +kernel
  have hcurrent : current_version people.database people.ns (firstVersion .none) people.entity_type = .ok 1 := by
    decide +kernel
  have hold : get_schema_version people.database people.ns (firstVersion .none) people.entity_type 1 =
      .ok (some (firstSchema .none)) := by
    decide +kernel
  have hfuel : (dataRows people.subspace people.entity_type onePerson.rows).length < 2 := by decide +kernel
  obtain ⟨rows', hrun, hiff⟩ := registration_keeps_indexes_iff rfl hcurrent (by decide) hold hregister exact_onePerson
    nodeRows_onePerson (show 0 < 1000 by decide) hfuel
  refine ⟨_, _, rows', hregister, rfl, hrun, hiff.mpr ⟨?_, ?_, ?_⟩⟩
  · intro id property kind value hholds
    obtain ⟨_, _, rfl, hkind, _⟩ := holds_onePerson rfl hholds
    exact absurd rfl hkind
  · intro id property kind value hsite hholds
    obtain ⟨rfl, _⟩ := holds_onePerson rfl hholds
    exact absurd hsite (by decide)
  · intro id id' property value value' hholds hholds' _
    rw [(holds_onePerson rfl hholds).1, (holds_onePerson rfl hholds').1]

/-- The person with its entry in the equality index. -/
def indexedPerson : Db :=
  { onePerson with
    rows := onePerson.rows.set (people.entry someone "age" .equality (.int 30)).key
      (people.entry someone "age" .equality (.int 30)).cell }

/-- An index that changes its kind gets no job: the old entry stays, and the new one is
never written. -/
theorem changed_index_not_rebuilt :
    EntriesExact people (firstSchema .equality).entity indexedPerson ∧
    register_schema "shop" "main" Char.isAlphanum "1" (personSchema .range) (firstVersion .equality) =
      .ok (2, write_version "shop" "main" (firstVersion .equality) (personSchema .range) 2, []) ∧
    get_schema_version "shop" "main" (firstVersion .equality) "Person" 1 = .ok (some (firstSchema .equality)) ∧
    BackfillJob.execute_jobs (get_schema "shop" "main"
        (write_version "shop" "main" (firstVersion .equality) (personSchema .range) 2) "Person")
      1000 "shop" "main" 2 [] indexedPerson.rows = .ok (some indexedPerson.rows) ∧
    ¬ EntriesExact people (personSchema .range).entity indexedPerson := by
  have hheld : people.Holds onePerson (firstSchema .equality).entity someone "age" .equality (.int 30) :=
    ⟨someonesData, by decide +kernel, ⟨⟨.int, false, .equality, none⟩, by decide +kernel, rfl⟩, by decide,
      by decide +kernel, rfl⟩
  refine ⟨?_, by decide +kernel, by decide +kernel, rfl, ?_⟩
  · have hentries : ∀ entry, entry ∈ [people.entry someone "age" .equality (.int 30)] ↔
        ∃ id property kind value, True ∧ people.Holds onePerson (firstSchema .equality).entity id property kind value ∧
          entry = people.entry id property kind value := by
      intro entry
      rw [mem_singleton]
      constructor
      · rintro rfl
        exact ⟨_, _, _, _, trivial, hheld, rfl⟩
      · rintro ⟨id, property, kind, value, _, hholds, rfl⟩
        obtain ⟨rfl, rfl, rfl, _, rfl⟩ := holds_onePerson rfl hholds
        rfl
    refine (entriesExact_filled_iff hentries (filled_foldl ..) exact_onePerson).mpr ⟨?_, ?_, ?_⟩
    · intro id property kind value hholds
      obtain ⟨_, _, rfl, hkind, _⟩ := holds_onePerson rfl hholds
      exact absurd rfl hkind
    · exact fun id property kind value hscanned _ => absurd trivial hscanned
    · intro id id' property value value' hholds hholds' _
      rw [(holds_onePerson rfl hholds).1, (holds_onePerson rfl hholds').1]
  · intro hexact
    rw [entriesExact_iff] at hexact
    have hrow : EntryRow (Subspace.of_namespace people.database people.ns) people.entity_type
        (people.entry someone "age" .equality (.int 30)).key := entryRow_entryFor (by decide) _
    obtain ⟨id, property, kind, value, ⟨d, _, hindexed⟩, hkey, _⟩ :=
      (hexact _ _ hrow).mp (onePerson.rows.get_set_self ..)
    obtain ⟨rfl, rfl, _⟩ := entryFor_key_eq (by decide) hindexed.indexed hkey
    obtain ⟨prop_def, hdef, hkind⟩ := hindexed.defined
    have hrange : (personSchema .range).entity.properties.get "age" = some ⟨.int, false, .range, none⟩ := by
      decide +kernel
    rw [hrange, Option.some.injEq] at hdef
    subst hdef
    cases hkind

end People

end pelago_storage.schema
