import Pelago.Storage.Node.Runs

open bytes kv pelago_core pelago_core.encoding
open pelago_storage.index pelago_storage.term_index

namespace pelago_storage.node

open Option

/-- The rows of the type's property indexes are those of the entries of its
live nodes. -/
def EntriesExact (dep : Deployment) (schema : EntitySchema) (db : Db) : Prop :=
  ∀ k c, EntryRow (Subspace.of_namespace dep.database dep.ns) dep.entity_type k →
    (db.rows.get k = some c ↔ ∃ id d entries entry,
      recordOf dep.database dep.ns dep.entity_type db id = some (.node d) ∧
      compute_index_entries (Subspace.of_namespace dep.database dep.ns) dep.entity_type id.to_bytes schema
        d.properties = .ok entries ∧
      entry ∈ entries ∧ k = entry.key ∧ c = entry.cell)

/-- No two live nodes share a value of a unique property. -/
def UniqueDistinct (dep : Deployment) (schema : EntitySchema) (db : Db) : Prop :=
  ∀ id id' d d' property v, recordOf dep.database dep.ns dep.entity_type db id = some (.node d) →
    recordOf dep.database dep.ns dep.entity_type db id' = some (.node d') →
    Indexed schema d.properties property .unique v → Indexed schema d'.properties property .unique v →
    id = id'

/-- The value of a live node that has an entry under the schema. -/
def Deployment.Holds (dep : Deployment) (db : Db) (schema : EntitySchema) (id : NodeId) (property : String)
    (kind : IndexType) (value : Value) : Prop :=
  ∃ d, dep.record db id = some (.node d) ∧ Indexed schema d.properties property kind value

/-- The entry of a value of a node. -/
abbrev Deployment.entry (dep : Deployment) (id : NodeId) (property : String) (kind : IndexType) (value : Value) :
    IndexEntry :=
  entryFor (Subspace.of_namespace dep.database dep.ns) dep.entity_type id.to_bytes property kind value

/-- A row that is the entry of a live node's value. -/
abbrev Deployment.EntryOf (dep : Deployment) (schema : EntitySchema) (db : Db) (k : Bytes) (c : Cell) : Prop :=
  ∃ id property kind value, dep.Holds db schema id property kind value ∧
    k = (dep.entry id property kind value).key ∧ c = (dep.entry id property kind value).cell

section Change

variable {dep : Deployment} {schema : EntitySchema} {db db' : Db}

/-- The same by the indexed properties of the live nodes. -/
theorem entriesExact_iff : EntriesExact dep schema db ↔
    ∀ k c, EntryRow dep.subspace dep.entity_type k → (db.rows.get k = some c ↔ dep.EntryOf schema db k c) := by
  have hentries : ∀ k c, (∃ id d entries entry, dep.record db id = some (.node d) ∧
        compute_index_entries dep.subspace dep.entity_type id.to_bytes schema d.properties = .ok entries ∧
        entry ∈ entries ∧ k = entry.key ∧ c = entry.cell) ↔ dep.EntryOf schema db k c := by
    intro k c
    constructor
    · rintro ⟨id, d, entries, _, hd, hentries, hentry, hkey, hcell⟩
      obtain ⟨entries', hentries', hmem⟩ := compute_index_entries_ok ..
      obtain rfl : entries = entries' := Except.ok.inj (hentries.symm.trans hentries')
      obtain ⟨property, kind, value, hindexed, rfl⟩ := (hmem _).mp hentry
      exact ⟨id, property, kind, value, ⟨d, hd, hindexed⟩, hkey, hcell⟩
    · rintro ⟨id, property, kind, value, ⟨d, hd, hindexed⟩, hkey, hcell⟩
      obtain ⟨entries, hentries, hmem⟩ := compute_index_entries_ok ..
      exact ⟨id, d, entries, _, hd, hentries, (hmem _).mpr ⟨property, kind, value, hindexed, rfl⟩, hkey, hcell⟩
  simp only [EntriesExact, hentries]

private theorem entry_storedValue (id : NodeId) (property : String) (kind : IndexType) (value : Value) :
    dep.entry id property kind (storedValue value) = dep.entry id property kind value := entryFor_storedValue ..

private theorem entryOf_of_same (h : SameProperties dep db db') {k : Bytes} {c : Cell} :
    dep.EntryOf schema db k c → dep.EntryOf schema db' k c := by
  rintro ⟨id, property, kind, value, ⟨d, hd, hindexed⟩, hrest⟩
  obtain ⟨d', hd', hproperties⟩ := h.record hd
  exact ⟨id, property, kind, value, ⟨d', hd', by rwa [hproperties]⟩, hrest⟩

section

variable (h : EntriesExact dep schema db)
include h

/-- Exact entry rows are determined by the properties of the live nodes. -/
theorem EntriesExact.agree (h' : EntriesExact dep schema db')
    (hsame : SameProperties dep db db') : Agree (EntryRow dep.subspace dep.entity_type) db db' := by
  rw [entriesExact_iff] at h h'
  intro k hk
  refine ext fun c => ?_
  rw [h k c hk, h' k c hk]
  exact ⟨entryOf_of_same hsame, entryOf_of_same hsame.symm⟩

/-- Only entry rows and properties matter. -/
theorem EntriesExact.of_same (hagree : Agree (EntryRow dep.subspace dep.entity_type) db db')
    (hsame : SameProperties dep db db') : EntriesExact dep schema db' := by
  rw [entriesExact_iff] at h ⊢
  intro k c hk
  rw [← hagree k hk, h k c hk]
  exact ⟨entryOf_of_same hsame, entryOf_of_same hsame.symm⟩

theorem EntriesExact.congr (hagree : Agree dep.typeRow db db') : EntriesExact dep schema db' :=
  h.of_same (fun k hk => hagree k (.inl hk.indexRow)) (sameProperties_of_records (recordOf_congr hagree))

end

theorem entriesExact_of_empty (hempty : ∀ k, dep.typeRow k → db.rows.get k = none) :
    EntriesExact dep schema db := by
  intro k c hk
  have hrecord : ∀ id, dep.record db id = none :=
    fun id => hempty _ (.inr ⟨id, rfl⟩)
  rw [hempty k (.inl hk.indexRow)]
  simp [hrecord]

/-- Every row of the type's property indexes is that of a live node's value. -/
def EntriesSound (dep : Deployment) (schema : EntitySchema) (db : Db) : Prop :=
  ∀ k c, EntryRow dep.subspace dep.entity_type k → db.rows.get k = some c → dep.EntryOf schema db k c

theorem EntriesSound.congr (h : EntriesSound dep schema db)
    (hagree : Agree dep.typeRow db db') : EntriesSound dep schema db' := by
  intro k c hk hget
  rw [← hagree k (.inl hk.indexRow)] at hget
  exact entryOf_of_same (sameProperties_of_records (recordOf_congr hagree)) (h k c hk hget)

/-- A change of one record keeps this, provided that values which count as unchanged are the same. -/
theorem EntriesSound.change (h : EntriesSound dep schema db) {id : NodeId} {old new : Option NodeData}
    (hchange : dep.Changes schema id old new db db') (hbefore : dep.record db id = old.map .node)
    (hsame : ∀ property kind value value', Indexed schema (propsOf old) property kind value →
      (propsOf new).get property = some value' → value.eq value' = true → value = value') :
    EntriesSound dep schema db' := by
  intro k c hk hget
  by_cases hnew : ∃ property kind value, Indexed schema (propsOf new) property kind value ∧
      k = (dep.entry id property kind value).key
  · obtain ⟨property, kind, value, hindexed, rfl⟩ := hnew
    rw [hchange.entry_added hindexed, some.injEq] at hget
    cases new with
    | none => exact absurd hindexed.held (by simp [propsOf])
    | some d =>
      refine ⟨id, property, kind, storedValue value, ⟨d.stored, hchange.record, hindexed.stored⟩, ?_, ?_⟩ <;>
        rw [entry_storedValue]
      exact hget.symm
  have hwritten : ∀ property kind value, Indexed schema (propsOf new) property kind value →
      k ≠ (dep.entry id property kind value).key :=
    fun property kind value hindexed hkey => hnew ⟨property, kind, value, hindexed, hkey⟩
  have hremoved : ∀ property kind value, Indexed schema (propsOf old) property kind value →
      needs_removal value ((propsOf new).get property) = true →
      k ≠ (dep.entry id property kind value).key := by
    rintro _ _ _ hindexed hneeds rfl
    rw [hchange.entry_removed hindexed hneeds hwritten] at hget
    cases hget
  rw [hchange.entry_kept hk hwritten hremoved] at hget
  obtain ⟨id', property, kind, value, ⟨d, hd, hindexed⟩, hkey, hcell⟩ := h k c hk hget
  by_cases hid : id' = id
  · -- An old value that is not removed persists, so its row is one of the new record.
    subst hid
    obtain rfl : old = some d := by
      rw [hbefore, map_eq_some_iff] at hd
      obtain ⟨_, rfl, hnode⟩ := hd
      rw [Cell.node.inj hnode]
    cases hneeds : needs_removal value ((propsOf new).get property) with
    | true => exact absurd hkey (hremoved _ _ _ hindexed hneeds)
    | false =>
      obtain ⟨value', hheld, _, heq⟩ := needs_removal_eq_false.mp hneeds
      obtain rfl := hsame _ _ _ _ hindexed hheld heq
      exact absurd hkey (hwritten _ _ _
        ⟨hindexed.defined, hindexed.indexed, hheld, hindexed.not_null⟩)
  · exact ⟨id', property, kind, value, ⟨d, (hchange.others _ hid).trans hd, hindexed⟩, hkey, hcell⟩

/-- A change of one record keeps the entry rows exact, provided that values
which count as unchanged are the same, and that no other node has the rows of
its entries. -/
theorem EntriesExact.change (h : EntriesExact dep schema db) {id : NodeId} {old new : Option NodeData}
    (hchange : dep.Changes schema id old new db db') (hbefore : dep.record db id = old.map .node)
    (hsame : ∀ property kind value value', Indexed schema (propsOf old) property kind value →
      (propsOf new).get property = some value' → value.eq value' = true → value = value')
    (howner : ∀ property kind value, Indexed schema (propsOf old) property kind value ∨
        Indexed schema (propsOf new) property kind value → ∀ id' d property' kind' value', id' ≠ id →
        dep.record db id' = some (.node d) → Indexed schema d.properties property' kind' value' →
        (dep.entry id' property' kind' value').key ≠ (dep.entry id property kind value).key) :
    EntriesExact dep schema db' := by
  rw [entriesExact_iff] at h ⊢
  intro k c hk
  constructor
  · have hsound : EntriesSound dep schema db := fun k c hk => (h k c hk).mp
    exact hsound.change hchange hbefore hsame k c hk
  · rintro ⟨id', property, kind, value, ⟨d, hd, hindexed⟩, rfl, rfl⟩
    by_cases hid : id' = id
    · subst hid
      replace hd := hchange.record.symm.trans hd
      rw [map_eq_some_iff] at hd
      obtain ⟨given, rfl, hstored⟩ := hd
      obtain rfl := Cell.node.inj hstored
      obtain ⟨value, rfl, hgiven⟩ := Indexed.of_stored hindexed
      rw [entry_storedValue]
      exact hchange.entry_added hgiven
    · replace hd := (hchange.others _ hid).symm.trans hd
      rw [hchange.entry_kept hk]
      · exact (h _ _ hk).mpr ⟨id', property, kind, value, ⟨d, hd, hindexed⟩, rfl, rfl⟩
      · exact fun _ _ _ hindexed' =>
          howner _ _ _ (.inr hindexed') _ d _ _ _ hid hd hindexed
      · exact fun _ _ _ hindexed' _ =>
          howner _ _ _ (.inl hindexed') _ d _ _ _ hid hd hindexed

end Change

section Values

/-- A value that a record may hold for a property of the given type, as it is
stored. -/
def Storable (property_type : PropertyType) (v : Value) : Prop :=
  ∃ given, property_type.matches given = true ∧ given.isFloat = false ∧ v = storedValue given

theorem validate_properties_matches {entity_type : String} {schema : EntitySchema} {properties : Properties}
    (hvalid : validate_properties entity_type schema properties = .ok ()) {field : String} {v : Value}
    {prop_def : PropertyDef} (hdef : schema.properties.get field = some prop_def)
    (hget : properties.get field = some v) : prop_def.property_type.matches v = true := by
  unfold validate_properties at hvalid
  generalize checkAll _ schema.properties.rows = required at hvalid
  cases required with
  | error => cases hvalid
  | ok =>
    have hrow := checkAll_eq_ok.mp hvalid (field, v) (properties.get_eq_some_iff_mem.mp hget)
    dsimp only at hrow
    rw [hdef] at hrow
    dsimp only at hrow
    split at hrow
    · assumption
    · cases hrow

/-- Within a type, other than floats, the index bytes tell the value. -/
theorem Storable.encodedValue_inj {property_type : PropertyType} {a b : Value}
    (ha : Storable property_type a) (hb : Storable property_type b) (hnulla : a.is_null = false)
    (hnullb : b.is_null = false) (h : encodedValue a = encodedValue b) : a = b := by
  obtain ⟨a, hmatch, hfloat, rfl⟩ := ha
  obtain ⟨b, hmatch', hfloat', rfl⟩ := hb
  cases property_type <;> cases a <;> simp [PropertyType.matches, Value.isFloat, Value.is_null, storedValue]
    at hmatch hfloat hnulla <;> cases b <;>
    simp [PropertyType.matches, Value.isFloat, Value.is_null, storedValue] at hmatch' hfloat' hnullb
  · simpa [storedValue] using utf8_inj h
  · simpa [storedValue] using encode_int_for_index_inj h
  · rename_i x y
    cases x <;> cases y <;> simp [encodedValue, encode_value_for_index, storedValue] at h ⊢
  · simpa [storedValue] using encode_int_for_index_inj h
  · simpa [encodedValue, encode_value_for_index, storedValue] using h

end Values

/-- Records hold values of their types. -/
private structure TypedRecords (dep : Deployment) (schema : EntitySchema) (db : Db) : Prop where
  not_float : ∀ id d property v, recordOf dep.database dep.ns dep.entity_type db id = some (.node d) →
    d.properties.get property = some v → v.isFloat = false
  storable : ∀ id d property v prop_def,
    recordOf dep.database dep.ns dep.entity_type db id = some (.node d) →
    d.properties.get property = some v → schema.properties.get property = some prop_def →
    Storable prop_def.property_type v

section Step

variable {dep : Deployment} {schema : EntitySchema} {db db' : Db}

section

variable (h : TypedRecords dep schema db)
include h

private theorem TypedRecords.congr (hagree : Agree dep.typeRow db db') : TypedRecords dep schema db' := by
  refine ⟨?_, ?_⟩
  · intro id d _ v hd
    exact h.not_float id d _ v ((recordOf_congr hagree id).trans hd)
  · intro id d _ v _ hd
    exact h.storable id d _ v _ ((recordOf_congr hagree id).trans hd)

private theorem TypedRecords.old_not_float {id : NodeId}
    {old : Option NodeData} (hbefore : dep.record db id = old.map .node)
    {field : String} {v : Value} (hv : (propsOf old).get field = some v) : v.isFloat = false := by
  cases old with
  | none => exact absurd hv (by simp [propsOf])
  | some d => exact h.not_float id d _ v hbefore hv

/-- A row belongs to one node at most. -/
private theorem TypedRecords.entry_owner
    (hdistinct : UniqueDistinct dep schema db) {id id' : NodeId} {d d' : NodeData}
    {property property' : String} {kind kind' : IndexType} {value value' : Value}
    (hd : dep.record db id = some (.node d)) (hd' : dep.record db id' = some (.node d'))
    (hindexed : Indexed schema d.properties property kind value)
    (hindexed' : Indexed schema d'.properties property' kind' value')
    (hkey : (dep.entry id property kind value).key = (dep.entry id' property' kind' value').key) : id = id' := by
  obtain ⟨rfl, rfl, hencoded, rfl | hid⟩ := entryFor_key_eq hindexed.indexed hindexed'.indexed hkey
  · obtain ⟨prop_def, hdef, _⟩ := hindexed.defined
    have hstorable := h.storable id d _ _ _ hd hindexed.held hdef
    have hstorable' := h.storable _ d' _ _ _ hd' hindexed'.held hdef
    obtain rfl := hstorable.encodedValue_inj hstorable' hindexed.not_null hindexed'.not_null hencoded
    exact hdistinct id _ d d' _ _ hd hd' hindexed hindexed'
  · exact hid

end

variable {id : NodeId} {old new : Option NodeData}
  (hchange : RecordChange dep.database dep.ns dep.entity_type schema id old new db db')
  (hvalid : ∀ d, new = some d → validate_properties dep.entity_type schema d.properties = .ok ())
  (hfloat : ∀ d field v, new = some d → d.properties.get field = some v → v.isFloat = false)

include hchange hvalid hfloat

private theorem TypedRecords.change (h : TypedRecords dep schema db) : TypedRecords dep schema db' := by
  -- The records afterwards: the new one, as stored, and all others.
  have hrecord : ∀ id' c, dep.record db' id' = some c →
      (∃ d, new = some d ∧ c = .node d.stored) ∨
        dep.record db id' = some c := by
    intro id' c hc
    by_cases hid : id' = id
    · subst hid
      replace hc := hchange.record.symm.trans hc
      rw [map_eq_some_iff] at hc
      obtain ⟨d, hnew, rfl⟩ := hc
      exact .inl ⟨d, hnew, rfl⟩
    · exact .inr ((hchange.others _ hid).symm.trans hc)
  refine ⟨?_, ?_⟩
  · intro id' d _ v hd hv
    obtain ⟨given, hnew, hstored⟩ | hd := hrecord _ _ hd
    · obtain rfl := Cell.node.inj hstored
      rw [NodeData.stored, storedProperties_get, map_eq_some_iff] at hv
      obtain ⟨v, hv, rfl⟩ := hv
      have hnot := hfloat _ _ v hnew hv
      cases v <;> first | rfl | exact hnot
    · exact h.not_float _ d _ v hd hv
  · intro id' d _ v _ hd hv hdef
    obtain ⟨given, hnew, hstored⟩ | hd := hrecord _ _ hd
    · obtain rfl := Cell.node.inj hstored
      rw [NodeData.stored, storedProperties_get, map_eq_some_iff] at hv
      obtain ⟨v, hv, rfl⟩ := hv
      exact ⟨v, validate_properties_matches (hvalid _ hnew) hdef hv, hfloat _ _ v hnew hv, rfl⟩
    · exact h.storable _ d _ v _ hd hv hdef

/-- The rows of the changed record's entries belong to no other node, before
or after. -/
private theorem TypedRecords.entry_rows_own (h : TypedRecords dep schema db)
    (hbefore : dep.record db id = old.map .node)
    (hdistinct : UniqueDistinct dep schema db) (hdistinct' : UniqueDistinct dep schema db')
    {property property' : String} {kind kind' : IndexType} {value value' : Value} {id' : NodeId} {d : NodeData}
    (hindexed : Indexed schema (propsOf old) property kind value ∨
      Indexed schema (propsOf new) property kind value) (hid : id' ≠ id) (hd : dep.record db id' = some (.node d))
    (hindexed' : Indexed schema d.properties property' kind' value') : (dep.entry id' property' kind' value').key ≠
      (dep.entry id property kind value).key := by
  intro hkey
  obtain hindexed | hindexed := hindexed
  · cases old with
    | none => exact absurd hindexed.held (by simp [propsOf])
    | some => exact hid (h.entry_owner hdistinct hd hbefore hindexed' hindexed hkey)
  · cases new with
    | none => exact absurd hindexed.held (by simp [propsOf])
    | some =>
      replace hd := (hchange.others _ hid).trans hd
      rw [← entry_storedValue _ _ _ value] at hkey
      exact hid ((h.change hchange hvalid hfloat).entry_owner hdistinct' hd hchange.record hindexed'
        hindexed.stored hkey)

end Step

/-- Over any run of calls from an empty type, one after the other and each
succeeding or failing, the rows of the property indexes are those of the live
nodes' entries, as long as no two live nodes ever share a unique value and no
create is handed the id of a live node. -/
theorem runCalls_entriesExact (dep : Deployment) (schema : EntitySchema) (calls : List Call) (w : ids.World)
    (hschema : dep.store.get_schema dep.database dep.ns dep.entity_type = some schema)
    (hempty : ∀ k, TypeRow dep.database dep.ns dep.entity_type k → w.db.rows.get k = none)
    (hfloat : ∀ call ∈ calls, ∀ field v, call.Brings schema field v → v.isFloat = false)
    (hdistinct : ∀ n, UniqueDistinct dep schema (dep.runCalls (calls.take n) w).db)
    (hfresh : ∀ n properties clock, calls[n]? = some (.create properties clock) →
      recordOf dep.database dep.ns dep.entity_type (dep.runCalls (calls.take n) w).db
        (dep.nextId (dep.runCalls (calls.take n) w)) = none) :
    EntriesExact dep schema (dep.runCalls calls w).db := by
  have hrecord : ∀ id, dep.record w.db id = none := fun id => hempty _ (.inr ⟨id, rfl⟩)
  refine (Deployment.runCalls_keeps hschema hfresh (P := fun db => EntriesExact dep schema db ∧ TypedRecords dep schema db)
    ⟨entriesExact_of_empty hempty, ?_, ?_⟩ fun n call hcall ⟨hexact, htyped⟩ heffect => ?_).1
  · simp [hrecord]
  · simp [hrecord]
  cases heffect with
  | unchanged hagree => exact ⟨hexact.congr hagree, htyped.congr hagree⟩
  | change _ _ new hbefore hchange hvalid hvalues =>
    have hnew : ∀ d field v, new = some d → d.properties.get field = some v → v.isFloat = false := by
      intro d field v hnew hv
      obtain hbrings | hold := hvalues d _ v hnew hv
      · exact hfloat call (List.mem_of_getElem? hcall) _ v hbrings
      · exact htyped.old_not_float hbefore hold
    refine ⟨hexact.change hchange hbefore ?_ ?_, htyped.change hchange hvalid hnew⟩
    · intro property kind value value' hindexed _ heq
      exact Value.eq_of_not_float heq (htyped.old_not_float hbefore hindexed.held)
    · intro property kind value hindexed id' d property' kind' value' hid hd hindexed'
      exact htyped.entry_rows_own hchange hvalid hnew hbefore (hdistinct n) (hdistinct _) hindexed hid hd
        hindexed'

private theorem brings_not_float {calls : List Call}
    (h : ∀ call ∈ calls, ∀ row ∈ call.values.rows, row.2.isFloat = false) :
    ∀ call ∈ calls, ∀ field v, call.Brings personSchema field v → v.isFloat = false := by
  intro call hcall _ v hbrings
  exact h _ hcall _ (call.values.get_eq_some_iff_mem.mp (person_brings hbrings))

private theorem not_indexed_unique {properties : Properties} {property : String} {v : Value} :
    ¬ Indexed personSchema properties property .unique v := by
  rintro ⟨⟨prop_def, hdef, hkind⟩, _, _, _⟩
  obtain ⟨_, rfl⟩ : property = "name" ∧ prop_def = ⟨.string, false, .equality, none⟩ := by
    exact person_property hdef
  cases hkind

private theorem person_uniqueDistinct (db : Db) : UniqueDistinct people personSchema db :=
  fun _ _ _ _ _ _ _ _ hindexed => absurd hindexed not_indexed_unique

/-- The row of the name `a` of a person. -/
def staleKey : Bytes :=
  (entryFor (Subspace.of_namespace "db" "ns") "Person" (NodeId.to_bytes ⟨1, 0⟩) "name" .equality (.string "a")).key

/-- That row is out of place when the person has another name. -/
theorem not_entriesSound_of_stale {db : Db} {d : NodeData} {c : Cell} (hrow : db.rows.get staleKey = some c)
    (hlive : recordOf "db" "ns" "Person" db ⟨1, 0⟩ = some (.node d))
    (hname : d.properties.get "name" = some (.string "b")) : ¬ EntriesSound people personSchema db := by
  intro hsound
  obtain ⟨id, _, _, value, ⟨d', hd, hindexed⟩, hkey, _⟩ :=
    hsound _ _ (entryRow_entryFor (by simp) _) hrow
  obtain ⟨rfl, rfl, hencoded, hkind | rfl⟩ := entryFor_key_eq (by simp) hindexed.indexed hkey
  · cases hkind
  obtain rfl : d' = d := by
    have hsame := hd.symm.trans hlive
    simpa using hsame
  obtain rfl : value = .string "b" := by
    have hsame := hindexed.held.symm.trans hname
    simpa using hsame
  exact absurd hencoded (by decide +kernel)

/-- A create that is handed the id of a live node overwrites its record and
leaves its entry behind. -/
theorem entry_left_behind_by_create :
    (∀ k, TypeRow "db" "ns" "Person" k → noRows.db.rows.get k = none) ∧
    (∀ call ∈ takenId, ∀ field v, call.Brings personSchema field v → v.isFloat = false) ∧
    (∀ n, UniqueDistinct people personSchema (people.runCalls (takenId.take n) noRows).db) ∧
    ¬ EntriesExact people personSchema (people.runCalls takenId noRows).db := by
  refine ⟨fun _ _ => rfl, ?_, fun n => person_uniqueDistinct _, ?_⟩
  · exact brings_not_float (by decide)
  intro hexact
  rw [entriesExact_iff] at hexact
  have hrow : (people.runCalls takenId noRows).db.rows.get staleKey = some (.raw []) := by decide +kernel
  have hlive : recordOf "db" "ns" "Person" (people.runCalls takenId noRows).db ⟨1, 0⟩ =
      some (.node ⟨named "b", 1, 6, 6⟩) := by decide +kernel
  exact not_entriesSound_of_stale hrow hlive (by decide +kernel) fun k c hk => (hexact k c hk).mp

/-- A run with a create, an update, a replicated create and a delete. -/
theorem ownIds_entriesExact : EntriesExact people personSchema (people.runCalls ownIds noRows).db :=
  runCalls_entriesExact people personSchema ownIds noRows rfl (fun _ _ => rfl)
    (brings_not_float (by decide)) (fun _ => person_uniqueDistinct _) ownIds_fresh

end pelago_storage.node
