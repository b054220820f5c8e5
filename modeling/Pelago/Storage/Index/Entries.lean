import Pelago.Storage.Keys

open bytes kv pelago_core pelago_core.encoding List pelago_core.encoding.TupleBuilder

namespace pelago_storage.index

/-- The marker of an index kind. Properties without an index have no entries. -/
def markerOf : IndexType → UInt8
  | .unique => markers.UNIQUE
  | .equality => markers.EQUALITY
  | .range => markers.RANGE
  | .none => 0x00

/-- Rows of property entries of one type. -/
def entryRow (subspace : Subspace) (entity_type property : String) (kind : IndexType) (rest : Bytes) :
    Bytes :=
  indexRow subspace entity_type 0x02 (escape (utf8 property) ++ 0x00 :: markerOf kind :: rest)

/-- What follows the marker: a unique row has no node id in its key. -/
def entryTail (kind : IndexType) (encoded id : Bytes) : Bytes :=
  match kind with
  | .unique => encoded
  | _ => encoded ++ id

/-- A property of a node that has an index entry. -/
structure Indexed (schema : EntitySchema) (properties : Properties) (property : String)
    (kind : IndexType) (value : Value) : Prop where
  defined : ∃ prop_def, schema.properties.get property = some prop_def ∧ prop_def.index = kind
  indexed : kind ≠ .none
  held : properties.get property = some value
  not_null : value.is_null = false

variable {entity_type property property' : String} {kind kind' : IndexType}

theorem entryRow_inj {subspace : Subspace} {rest rest' : Bytes} (hkind : kind ≠ .none) (hkind' : kind' ≠ .none)
    (h : entryRow subspace entity_type property kind rest = entryRow subspace entity_type property' kind' rest') :
    property = property' ∧ kind = kind' ∧ rest = rest' := by
  have hmarker : ∀ (k : IndexType) (tail : Bytes), (markerOf k :: tail).head? ≠ some 0xFF := by
    intro k _
    cases k <;> simp [markerOf, markers.UNIQUE, markers.EQUALITY, markers.RANGE]
  obtain ⟨_, hrest⟩ := indexRow_inj h
  obtain ⟨hproperty, htail⟩ := escape_append_inj (hmarker _ _) (hmarker _ _) hrest
  obtain ⟨hmark, htail⟩ := cons.inj htail
  refine ⟨utf8_inj hproperty, ?_, htail⟩
  cases kind <;> cases kind' <;>
    simp_all [markerOf, markers.UNIQUE, markers.EQUALITY, markers.RANGE]

variable {properties : Properties} {value value' : Value}

theorem Indexed.kind_eq {schema : EntitySchema} {properties' : Properties}
        (h : Indexed schema properties property kind value)
    (h' : Indexed schema properties' property kind' value') : kind = kind' := by
  obtain ⟨prop_def, hdef, hkind⟩ := h.defined
  obtain ⟨prop_def', hdef', hkind'⟩ := h'.defined
  rw [hdef, Option.some.injEq] at hdef'
  rw [← hkind, ← hkind', hdef']

def entryTypeOf : IndexType → IndexEntryType
  | .unique => .unique
  | .equality => .equality
  | _ => .range

/-- The node id that a unique entry carries as its value. -/
def entryValue (kind : IndexType) (id : Bytes) : Option Bytes :=
  match kind with
  | .unique => some id
  | _ => none

/-- The entry of an indexed property. -/
def entryFor (subspace : Subspace) (entity_type : String) (id : Bytes) (property : String)
    (kind : IndexType) (value : Value) : IndexEntry :=
  ⟨entryRow subspace entity_type property kind (entryTail kind (encodedValue value) id),
    entryTypeOf kind, entryValue kind id⟩

section Compute

variable {subspace : Subspace} {entity_type : String} {id : Bytes} {schema : EntitySchema}

private theorem build_index_entry_eq {prop_def : PropertyDef}
    (hkind : prop_def.index ≠ .none) (hnull : value.is_null = false) :
    build_index_entry subspace.index entity_type property id prop_def value =
      .ok (some (entryFor subspace entity_type id property prop_def.index value)) := by
  unfold build_index_entry
  rw [encode_value_for_index_eq hnull]
  cases hindex : prop_def.index with
  | none => exact absurd hindex hkind
  | unique | equality | range =>
    simp [bind, Except.bind, pure, Except.pure, entryFor, entryTypeOf, entryValue, entryRow, entryTail,
      markerOf, add_raw_bytes, build, ← entry_base_eq]

/-- The entry computed for a property of the schema, if any. -/
private def ownEntry (subspace : Subspace) (entity_type : String) (id : Bytes) (properties : Properties)
    (row : String × PropertyDef) : Option IndexEntry :=
  if row.2.index = .none then none
  else
    match properties.get row.1 with
    | some value =>
      if value.is_null then none
      else some (entryFor subspace entity_type id row.1 row.2.index value)
    | none => none

private theorem ownEntry_eq_some {row : String × PropertyDef} {e : IndexEntry}
    (hrow : row ∈ schema.properties.rows) : ownEntry subspace entity_type id properties row = some e ↔
      ∃ value, Indexed schema properties row.1 row.2.index value ∧
        e = entryFor subspace entity_type id row.1 row.2.index value := by
  have hdef : schema.properties.get row.1 = some row.2 := schema.properties.get_eq_some_iff_mem.mpr hrow
  unfold ownEntry
  constructor
  · intro h
    split at h
    · cases h
    rename_i hkind
    split at h
    · rename_i value hvalue
      split at h
      · cases h
      rename_i hnull
      refine ⟨value, ⟨⟨row.2, hdef, rfl⟩, hkind, hvalue, by simpa using hnull⟩, ?_⟩
      exact (Option.some.inj h).symm
    · cases h
  · rintro ⟨value, hindexed, rfl⟩
    rw [if_neg hindexed.indexed, hindexed.held]
    simp [hindexed.not_null]

/-- The entries of a node are those of its indexed properties; computing them
never fails. -/
theorem compute_index_entries_ok (subspace : Subspace) (entity_type : String) (id : Bytes)
    (schema : EntitySchema) (properties : Properties) :
    ∃ entries, compute_index_entries subspace entity_type id schema properties = .ok entries ∧
      ∀ e, e ∈ entries ↔ ∃ property kind value, Indexed schema properties property kind value ∧
        e = entryFor subspace entity_type id property kind value := by
  refine ⟨schema.properties.rows.filterMap (ownEntry subspace entity_type id properties), ?_, ?_⟩
  · apply collect_eq_filterMap
    rintro ⟨property, prop_def⟩ _
    unfold ownEntry
    by_cases hkind : prop_def.index = .none
    · simp [hkind, pure, Except.pure]
    · cases hvalue : properties.get property with
      | none => simp [hkind, hvalue, pure, Except.pure]
      | some value =>
        cases hnull : value.is_null with
        | true => simp [hkind, hvalue, hnull, pure, Except.pure]
        | false => simp [hkind, hvalue, hnull, build_index_entry_eq ..]
  · intro e
    rw [mem_filterMap]
    constructor
    · rintro ⟨row, hrow, he⟩
      obtain ⟨value, hindexed, rfl⟩ := (ownEntry_eq_some hrow).mp he
      exact ⟨row.1, row.2.index, value, hindexed, rfl⟩
    · rintro ⟨property, _, value, hindexed, rfl⟩
      obtain ⟨prop_def, hdef, rfl⟩ := hindexed.defined
      have hrow := schema.properties.get_eq_some_iff_mem.mp hdef
      exact ⟨(property, prop_def), hrow, (ownEntry_eq_some hrow).mpr ⟨value, hindexed, rfl⟩⟩

theorem needs_removal_eq_false {old_val : Value} {new_value : Option Value} :
    needs_removal old_val new_value = false ↔
      ∃ new_val, new_value = some new_val ∧ new_val.is_null = false ∧ old_val.eq new_val = true := by
  unfold needs_removal
  cases new_value with
  | none => simp
  | some new_val => cases hnull : new_val.is_null <;> simp [hnull]

/-- The removals of an update are the entries of the values that change. -/
theorem compute_index_removals_ok (subspace : Subspace) (entity_type : String) (id : Bytes)
    (schema : EntitySchema) (old_properties new_properties : Properties) :
    ∃ removals, compute_index_removals subspace entity_type id schema old_properties new_properties = .ok removals ∧
      ∀ e, e ∈ removals ↔ ∃ property kind value, Indexed schema old_properties property kind value ∧
        needs_removal value (new_properties.get property) = true ∧
        e = entryFor subspace entity_type id property kind value := by
  refine ⟨schema.properties.rows.filterMap fun row =>
    (ownEntry subspace entity_type id old_properties row).filter fun _ =>
      (old_properties.get row.1).all fun old_val => needs_removal old_val (new_properties.get row.1), ?_, ?_⟩
  · apply collect_eq_filterMap
    rintro ⟨property, prop_def⟩ _
    unfold ownEntry
    by_cases hkind : prop_def.index = .none
    · simp [hkind, pure, Except.pure]
    · cases hold : old_properties.get property with
      | none => simp [hkind, hold, pure, Except.pure]
      | some old_val =>
        cases hnull : old_val.is_null with
        | true => simp [hkind, hold, hnull, pure, Except.pure]
        | false =>
          by_cases hremove : needs_removal old_val (new_properties.get property) = true
          · simp [hkind, hold, hnull, hremove, build_index_entry_eq .., Option.filter]
          · simp [hkind, hold, hnull, hremove, pure, Except.pure]
  · intro e
    rw [mem_filterMap]
    constructor
    · rintro ⟨row, hrow, he⟩
      obtain ⟨he, hremove⟩ := Option.filter_eq_some_iff.mp he
      obtain ⟨value, hindexed, rfl⟩ := (ownEntry_eq_some hrow).mp he
      rw [hindexed.held] at hremove
      exact ⟨row.1, row.2.index, value, hindexed, hremove, rfl⟩
    · rintro ⟨property, _, value, hindexed, hremove, rfl⟩
      obtain ⟨prop_def, hdef, rfl⟩ := hindexed.defined
      have hrow := schema.properties.get_eq_some_iff_mem.mp hdef
      refine ⟨(property, prop_def), hrow, Option.filter_eq_some_iff.mpr ⟨?_, ?_⟩⟩
      · exact (ownEntry_eq_some hrow).mpr ⟨value, hindexed, rfl⟩
      · rw [hindexed.held]
        exact hremove

end Compute

/-- The value written to an entry's row. -/
def IndexEntry.cell (e : IndexEntry) : Cell := .raw (e.value_bytes.getD [])

/-- An entry of the node `id`. -/
def EntryAt (subspace : Subspace) (entity_type : String) (id : Bytes) (e : IndexEntry) : Prop :=
  ∃ property kind value, kind ≠ .none ∧ e = entryFor subspace entity_type id property kind value

/-- Rows of the entries of one type. -/
def EntryRow (subspace : Subspace) (entity_type : String) (k : Bytes) : Prop :=
  ∃ property kind rest, kind ≠ .none ∧ k = entryRow subspace entity_type property kind rest

section Rows

variable {subspace : Subspace} {entity_type : String} {id : Bytes} {e : IndexEntry}

/-- Writing an entry sets its row. -/
theorem EntryAt.write_index_entry_eq (h : EntryAt subspace entity_type id e) :
    node.write_index_entry e = .set e.key e.cell := by
  obtain ⟨property, kind, _, _, rfl⟩ := h
  cases kind <;> rfl

theorem entryRow_entryFor (hkind : kind ≠ .none) (value : Value) :
    EntryRow subspace entity_type (entryFor subspace entity_type id property kind value).key :=
  ⟨property, kind, _, hkind, rfl⟩

theorem EntryAt.entryRow (h : EntryAt subspace entity_type id e) : EntryRow subspace entity_type e.key := by
  obtain ⟨property, _, _, hkind, rfl⟩ := h
  exact entryRow_entryFor hkind _

theorem EntryRow.indexRow {k : Bytes} (h : EntryRow subspace entity_type k) : IndexRow subspace entity_type k := by
  obtain ⟨property, _, _, _, rfl⟩ := h
  exact indexRow_mem ..

end Rows

/-- Entries of two nodes have the same row only when they are unique entries of
values with the same bytes. -/
theorem entryFor_key_eq {subspace : Subspace} {id id' : NodeId} (hkind : kind ≠ .none)
    (hkind' : kind' ≠ .none) (h : (entryFor subspace entity_type id.to_bytes property kind value).key =
      (entryFor subspace entity_type id'.to_bytes property' kind' value').key) :
    property = property' ∧ kind = kind' ∧ encodedValue value = encodedValue value' ∧
      (kind = .unique ∨ id = id') := by
  obtain ⟨rfl, rfl, htail⟩ := entryRow_inj hkind hkind' h
  refine ⟨rfl, rfl, ?_⟩
  cases kind with
  | none => exact absurd rfl hkind
  | unique => exact ⟨htail, .inl rfl⟩
  | equality | range =>
    obtain ⟨hencoded, hid⟩ := append_inj' htail (by simp)
    exact ⟨hencoded, .inr (NodeId.to_bytes_inj hid)⟩

section Stored

variable {schema : EntitySchema}

theorem Indexed.stored (h : Indexed schema properties property kind value) :
    Indexed schema (storedProperties properties) property kind (storedValue value) := by
  refine ⟨h.defined, h.indexed, ?_, ?_⟩
  · rw [storedProperties_get, h.held]
    rfl
  · rw [storedValue_is_null]
    exact h.not_null

theorem Indexed.of_stored (h : Indexed schema (storedProperties properties) property kind value) :
    ∃ given, value = storedValue given ∧ Indexed schema properties property kind given := by
  have hheld := h.held
  rw [storedProperties_get, Option.map_eq_some_iff] at hheld
  obtain ⟨given, hgiven, rfl⟩ := hheld
  refine ⟨given, rfl, h.defined, h.indexed, hgiven, ?_⟩
  rw [← storedValue_is_null]
  exact h.not_null

theorem entryFor_storedValue (subspace : Subspace) (entity_type : String) (id : Bytes)
    (property : String) (kind : IndexType) (value : Value) :
    entryFor subspace entity_type id property kind (storedValue value) =
      entryFor subspace entity_type id property kind value := by
  unfold entryFor
  rw [encodedValue_storedValue]

end Stored

end pelago_storage.index
