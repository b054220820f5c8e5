import Pelago.Storage.Node.Shapes

open bytes kv pelago_core pelago_core.encoding
open pelago_storage.index pelago_storage.term_index List kv.OrdMap
open pelago_storage.Subspace (of_namespace)

namespace pelago_storage.node

section

open Tx Except
open IndexEntry (key)

variable {property : String} {value : Value}

section Transactions

variable {self : NodeStore} {database ns entity_type : String} {schema : EntitySchema} {id : NodeId}
  {db db' : Db} {clock : Clock}

private theorem agree_of_flush {S : Bytes → Prop} {operations : List CdcOperation}
    (hflush : (cdc_flush self database ns clock operations).run db = .ok ((), db')) : Agree S db db' := by
  intro k _
  rw [cdc_flush_rows hflush]

theorem create_txn_change {properties : Properties} {entries : List IndexEntry} {postings : List TermPosting}
    (hplan : IndexPlan (of_namespace database ns) entity_type schema id.to_bytes none
      (some properties) [] entries ⟨postings, []⟩ 1)
    (hrun : (create_txn self database ns entity_type properties id entries postings clock).run db = .ok ((), db')) :
    RecordChange database ns entity_type schema id none
      (some ⟨properties, id.site, clock.now, clock.now⟩) db db' := by
  simp only [create_txn, run_bind_eq_ok] at hrun
  obtain ⟨_, mid, hset, _, _, hchange, hflush⟩ := hrun
  refine (recordChange_of_set_first hplan ?_).congr (.refl _ _) (agree_of_flush hflush)
  rw [run_bind_eq_ok]
  exact ⟨_, mid, hset, hchange⟩

/-- The values an update checks are free or already the node's own. -/
theorem check_unique_constraint_in_txn_ok (hnull : value.is_null = false) {node_id : Bytes} {db db' : Db}
    (hrun : (check_unique_constraint_in_txn database ns entity_type property value node_id).run db =
      .ok ((), db')) :
    db' = db ∧ ∀ c, db.rows.get (unique_key database ns entity_type property (encodedValue value)) = some c →
      c = .raw node_id := by
  unfold check_unique_constraint_in_txn at hrun
  rw [encode_value_for_index_eq hnull] at hrun
  rw [run_bind_of_ok (show (ofExcept (.ok (encodedValue value)) : Tx Bytes).run db = .ok (_, db) from rfl),
    run_bind_of_ok (run_get ..)] at hrun
  cases hget : db.rows.get (unique_key database ns entity_type property (encodedValue value)) with
  | none =>
    simp only [hget, run_pure, ok.injEq, Prod.mk.injEq, true_and] at hrun
    exact ⟨hrun.symm, by simp⟩
  | some existing =>
    simp only [hget] at hrun
    split at hrun
    · simp at hrun
    · rename_i heq
      simp only [run_pure, ok.injEq, Prod.mk.injEq, true_and] at hrun
      refine ⟨hrun.symm, ?_⟩
      simpa using heq

private theorem check_all_ok {unique : List (String × Value)} {node_id : Bytes}
    (hnull : ∀ pair ∈ unique, pair.2.is_null = false)
    (hrun : (forEach unique fun (property, value) =>
      check_unique_constraint_in_txn database ns entity_type property value node_id).run db = .ok ((), db')) :
    db' = db ∧ ∀ pair ∈ unique, ∀ c,
      db.rows.get (unique_key database ns entity_type pair.1 (encodedValue pair.2)) = some c →
        c = .raw node_id := by
  induction unique with
  | nil =>
    simp only [forEach, run, ok.injEq, Prod.mk.injEq, true_and] at hrun
    exact ⟨hrun.symm, by simp⟩
  | cons pair _ ih =>
    rw [forEach, run_bind_eq_ok] at hrun
    obtain ⟨_, _, hhead, hrest⟩ := hrun
    obtain ⟨rfl, hown⟩ := check_unique_constraint_in_txn_ok (hnull _ mem_cons_self) hhead
    obtain ⟨rfl, hrestOwn⟩ := ih (fun p hp => hnull p (mem_cons_of_mem _ hp)) hrest
    refine ⟨rfl, ?_⟩
    intro p hp
    obtain rfl | hp := mem_cons.mp hp
    · exact hown
    · exact hrestOwn p hp

theorem mem_unique_constraints_to_check {old merged : Properties} :
    (property, value) ∈ unique_constraints_to_check schema old merged ↔
      Indexed schema merged property .unique value ∧ (old.get property).any (fun v => v.eq value) = false := by
  unfold unique_constraints_to_check
  rw [mem_filterMap]
  constructor
  · rintro ⟨⟨name, prop_def⟩, hrow, h⟩
    have hdef := schema.properties.get_eq_some_iff_mem.mpr hrow
    dsimp only at h
    split at h
    · cases h
    rename_i hindex
    split at h
    · cases h
    rename_i new_value hnew
    split at h
    · cases h
    rename_i hnull
    split at h
    · cases h
    rename_i hold
    obtain ⟨rfl, rfl⟩ := h
    have hkind : prop_def.index = .unique := by simpa using hindex
    exact ⟨⟨⟨prop_def, hdef, hkind⟩, by simp, hnew, by simpa using hnull⟩, by simpa using hold⟩
  · rintro ⟨hindexed, hold⟩
    obtain ⟨prop_def, hdef, hkind⟩ := hindexed.defined
    refine ⟨(property, prop_def), schema.properties.get_eq_some_iff_mem.mp hdef, ?_⟩
    simp [hkind, hindexed.held, hindexed.not_null, hold, ne_eq, not_true_eq_false, ↓reduceIte,
      Bool.false_eq_true]

theorem update_txn_change {node_id : String} {d : NodeData} {merged new_properties : Properties}
    {updated_at : Int} {removals additions : List IndexEntry} {changes : TermPostingChanges}
    (hplan : IndexPlan (of_namespace database ns) entity_type schema id.to_bytes
      (some d.properties) (some merged) removals additions changes 0)
    (hrun : (update_txn self database ns entity_type node_id id.to_bytes
      (unique_constraints_to_check schema d.properties merged) removals additions changes
      ⟨merged, d.locality, d.created_at, updated_at⟩ new_properties d.properties clock).run db = .ok ((), db')) :
    RecordChange database ns entity_type schema id (some d)
      (some ⟨merged, d.locality, d.created_at, updated_at⟩) db db' ∧
    ∀ property value, Indexed schema merged property .unique value →
      (d.properties.get property).any (fun v => v.eq value) = false →
      ∀ c, db.rows.get (unique_key database ns entity_type property (encodedValue value)) = some c →
        c = .raw id.to_bytes := by
  simp only [update_txn, run_bind_eq_ok] at hrun
  obtain ⟨_, _, hcheck, _, mid', hchange, _, _, hset, hflush⟩ := hrun
  obtain ⟨rfl, hown⟩ := check_all_ok (fun _ hpair =>
    (mem_unique_constraints_to_check.mp hpair).1.not_null) hcheck
  refine ⟨?_, fun property value hindexed hold =>
    hown (property, value) (mem_unique_constraints_to_check.mpr ⟨hindexed, hold⟩)⟩
  refine (recordChange_of_set_last hplan ?_).congr (.refl _ _) (agree_of_flush hflush)
  rw [run_bind_eq_ok]
  exact ⟨_, mid', hchange, hset⟩

theorem delete_txn_change {node_id : String} {d : NodeData} {removals : List IndexEntry}
    {postings : List TermPosting} (hplan : IndexPlan (of_namespace database ns) entity_type schema id.to_bytes
      (some d.properties) none removals [] ⟨[], postings⟩ (-1))
    (hrun : (delete_txn self database ns entity_type node_id id.to_bytes removals postings clock).run db =
      .ok ((), db')) : RecordChange database ns entity_type schema id (some d) none db db' := by
  simp only [delete_txn, run_bind_eq_ok] at hrun
  obtain ⟨_, _, hclear, _, _, hguard, _, _, hchange, hflush⟩ := hrun
  obtain ⟨_, rfl⟩ := hclear
  obtain ⟨_, rfl⟩ := hguard
  refine .congr (.intro hplan ?_ hchange (fun _ _ => rfl) ?_) (.refl _ _)
    (agree_of_flush hflush)
  · intro k hk
    rw [get_set_of_ne _ _ (hk.2 id), get_clear_of_ne _ hk.1]
  · unfold recordOf
    rw [hplan.touches.get_eq hchange (data_key_not_indexRow _ _),
      get_set_of_ne _ _ (data_key_ne_delete_guard_key _ _ _ _), get_clear_self]
    rfl

end Transactions

/-- The properties of a record; a missing record has none. -/
def propsOf (d : Option NodeData) : Properties := (d.map NodeData.properties).getD OrdMap.empty

section Entries

variable {database ns entity_type : String} {schema : EntitySchema} {id : NodeId}
  {old new : Option NodeData} {db db' : Db}

section

variable (h : RecordChange database ns entity_type schema id old new db db')
include h

/-- The entry rows after the change, from the lists of the plan. -/
private theorem RecordChange.entryRows_get : ∃ removals additions : List IndexEntry,
      (∀ e, e ∈ removals ↔ ∃ property kind value, Indexed schema (propsOf old) property kind value ∧
        needs_removal value ((propsOf new).get property) = true ∧
        e = entryFor (of_namespace database ns) entity_type id.to_bytes property kind value) ∧
      (∀ e, e ∈ additions ↔ ∃ property kind value, Indexed schema (propsOf new) property kind value ∧
        e = entryFor (of_namespace database ns) entity_type id.to_bytes property kind value) ∧
      ∀ k, EntryRow (of_namespace database ns) entity_type k → db'.rows.get k =
        (additions.foldl (fun m e => m.set e.key e.cell)
          (removals.foldl (fun m e => m.clear e.key) db.rows)).get k := by
  obtain ⟨removals, additions, _, n, _, _, hplan, hmid, hrun, hagree⟩ := h.index
  obtain ⟨termAdditions, _, rfl, hspec⟩ := hplan.spec
  refine ⟨removals, additions, hspec.mem_removals, hspec.mem_additions, ?_⟩
  intro k hk
  rw [hagree k hk.indexRow, change_index_rows_entry hspec.addition_at hrun hk]
  unfold entryRows
  by_cases hadd : k ∈ additions.map key
  · -- the last write to the key decides on both sides
    have hcongr : ∀ (xs : List IndexEntry) (m m' : OrdMap Bytes Cell), k ∈ xs.map key →
        (xs.foldl (fun m e => m.set e.key e.cell) m).get k =
          (xs.foldl (fun m e => m.set e.key e.cell) m').get k := by
      intro xs
      induction xs with
      | nil => simp
      | cons e rest ih =>
        intro m _ hmem
        by_cases hrest : k ∈ rest.map key
        · exact ih _ _ hrest
        · have hkey : k = e.key := by simpa [hrest] using hmem
          rw [foldl_cons, foldl_cons, get_foldl_set_of_notMem hrest,
            get_foldl_set_of_notMem hrest, hkey, get_set_self, get_set_self]
    exact hcongr _ _ _ hadd
  · rw [get_foldl_set_of_notMem hadd, get_foldl_set_of_notMem hadd, get_foldl_clear,
      get_foldl_clear, hmid k hk.indexRow]

/-- Every entry of the new record is there. -/
theorem RecordChange.entry_added {kind : IndexType}
    (hindexed : Indexed schema (propsOf new) property kind value) : db'.rows.get
        (entryFor (of_namespace database ns) entity_type id.to_bytes property kind value).key =
      some (entryFor (of_namespace database ns) entity_type id.to_bytes property kind value).cell := by
  obtain ⟨removals, _, _, hadditions, hget⟩ := h.entryRows_get
  have hmem := (hadditions _).mpr ⟨property, kind, value, hindexed, rfl⟩
  rw [hget _ (entryRow_entryFor hindexed.indexed _)]
  refine get_foldl_set_of_mem (mem_map_of_mem hmem) ?_ _
  intro e he hkey
  obtain ⟨property', _, _, hindexed', rfl⟩ := (hadditions e).mp he
  obtain ⟨_, rfl, _⟩ := entryRow_inj hindexed'.indexed hindexed.indexed hkey
  rfl

/-- Rows of entries that the change neither writes nor removes stay. -/
theorem RecordChange.entry_kept {k : Bytes} (hk : EntryRow (of_namespace database ns) entity_type k)
    (hnew : ∀ property kind value, Indexed schema (propsOf new) property kind value →
      k ≠ (entryFor (of_namespace database ns) entity_type id.to_bytes property kind value).key)
    (hold : ∀ property kind value, Indexed schema (propsOf old) property kind value →
      needs_removal value ((propsOf new).get property) = true →
      k ≠ (entryFor (of_namespace database ns) entity_type id.to_bytes property kind value).key) :
    db'.rows.get k = db.rows.get k := by
  obtain ⟨removals, additions, hremovals, hadditions, hget⟩ := h.entryRows_get
  have hadd : k ∉ additions.map key := by
    intro hmem
    obtain ⟨e, he, rfl⟩ := mem_map.mp hmem
    obtain ⟨property, kind, _, hindexed, rfl⟩ := (hadditions e).mp he
    exact hnew _ _ _ hindexed rfl
  have hrem : k ∉ removals.map key := by
    intro hmem
    obtain ⟨e, he, rfl⟩ := mem_map.mp hmem
    obtain ⟨property, kind, _, hindexed, hneeds, rfl⟩ := (hremovals e).mp he
    exact hold _ _ _ hindexed hneeds rfl
  rw [hget k hk, get_foldl_set_of_notMem hadd, get_foldl_clear, if_neg hrem]

/-- Entries of old values that do not persist are gone, unless written again. -/
theorem RecordChange.entry_removed {kind : IndexType} (hindexed : Indexed schema (propsOf old) property kind value)
    (hneeds : needs_removal value ((propsOf new).get property) = true)
    (hnew : ∀ property' kind' value', Indexed schema (propsOf new) property' kind' value' →
      (entryFor (of_namespace database ns) entity_type id.to_bytes property kind value).key ≠
        (entryFor (of_namespace database ns) entity_type id.to_bytes property' kind' value').key) : db'.rows.get
      (entryFor (of_namespace database ns) entity_type id.to_bytes property kind value).key = none := by
  obtain ⟨removals, additions, hremovals, hadditions, hget⟩ := h.entryRows_get
  have hmem := (hremovals _).mpr ⟨property, kind, value, hindexed, hneeds, rfl⟩
  have hadd : (entryFor (of_namespace database ns) entity_type id.to_bytes property kind value).key ∉
      additions.map key := by
    intro hmem
    obtain ⟨e, he, hkey⟩ := mem_map.mp hmem
    obtain ⟨property', _, _, hindexed', rfl⟩ := (hadditions e).mp he
    exact hnew _ _ _ hindexed' hkey.symm
  rw [hget _ (entryRow_entryFor hindexed.indexed _), get_foldl_set_of_notMem hadd,
    get_foldl_clear, if_pos (mem_map_of_mem hmem)]

end

end Entries

end

open Proc
open Or (inl inr)

/-- One deployment: a store, its allocator and the type it is used with. -/
structure Deployment where
  store : NodeStore
  allocator : ids.IdAllocator
  database : String
  ns : String
  entity_type : String

abbrev Deployment.subspace (dep : Deployment) : Subspace := Subspace.of_namespace dep.database dep.ns

abbrev Deployment.record (dep : Deployment) (db : Db) (id : NodeId) : Option Cell :=
  recordOf dep.database dep.ns dep.entity_type db id

/-- The schema of the type. -/
abbrev Deployment.schema? (dep : Deployment) : Option EntitySchema :=
  dep.store.get_schema dep.database dep.ns dep.entity_type

abbrev Deployment.typeRow (dep : Deployment) : Bytes → Prop := TypeRow dep.database dep.ns dep.entity_type

abbrev Deployment.Changes (dep : Deployment) (schema : EntitySchema) (id : NodeId) (old new : Option NodeData)
    (db db' : Db) : Prop :=
  RecordChange dep.database dep.ns dep.entity_type schema id old new db db'

/-- The properties that a record holds. -/
def heldProperties : Option Cell → Option Properties
  | some (.node d) => some d.properties
  | _ => none

/-- The properties of a live node. -/
def Deployment.properties (dep : Deployment) (db : Db) (id : NodeId) : Option Properties :=
  match dep.record db id with
  | some (.node d) => some d.properties
  | _ => none

/-- The same live nodes with the same properties. -/
structure SameProperties (dep : Deployment) (db db' : Db) : Prop where
  properties : ∀ id, dep.properties db id = dep.properties db' id
  live : ∀ id, (dep.record db id).isSome = (dep.record db' id).isSome

section SameProperties

variable {dep : Deployment} {db db' : Db}

theorem SameProperties.symm (h : SameProperties dep db db') : SameProperties dep db' db :=
  ⟨fun id => (h.properties id).symm, fun id => (h.live id).symm⟩

theorem SameProperties.record (h : SameProperties dep db db') {id : NodeId} {d : NodeData}
    (hd : dep.record db id = some (.node d)) :
    ∃ d', dep.record db' id = some (.node d') ∧ d'.properties = d.properties := by
  have hproperties := h.properties id
  unfold Deployment.properties at hproperties
  rw [hd] at hproperties
  dsimp only at hproperties
  split at hproperties
  · rename_i d' hd'
    exact ⟨d', hd', (Option.some.inj hproperties).symm⟩
  · cases hproperties

theorem sameProperties_of_records (h : ∀ id, dep.record db id = dep.record db' id) : SameProperties dep db db' :=
  ⟨fun _ => by rw [Deployment.properties, Deployment.properties, h], fun _ => by rw [h]⟩

end SameProperties

/-- A record written with no index work. -/
def Deployment.putRecord (dep : Deployment) (db : Db) (id : NodeId) (d : NodeData) : Db :=
  { db with rows := db.rows.set (data_key dep.subspace.data dep.entity_type id.to_bytes) (encode_cbor d) }

theorem record_putRecord (dep : Deployment) (db : Db) (id id' : NodeId) (d : NodeData) :
    dep.record (dep.putRecord db id d) id' = if id' = id then some (encode_cbor d) else dep.record db id' := by
  unfold Deployment.putRecord Deployment.record recordOf
  rw [get_set]
  by_cases hid : id' = id
  · rw [if_pos (by rw [hid]), if_pos hid]
  · rw [if_neg (fun h => hid (NodeId.to_bytes_inj (data_key_inj h))), if_neg hid]

theorem putRecord_index (dep : Deployment) (db : Db) (id : NodeId) (d : NodeData) :
    Agree (IndexRow dep.subspace dep.entity_type) (dep.putRecord db id d) db := by
  intro k hk
  refine get_set_of_ne _ _ ?_
  rintro rfl
  exact data_key_not_indexRow _ _ hk

/-- The ids that a create is handed. -/
def Deployment.supply (dep : Deployment) : ids.World → NodeId × ids.World :=
  ids.allocate dep.allocator dep.database dep.ns dep.entity_type

/-- The world after a request, whatever it returned. -/
def Deployment.exec {α : Type} (dep : Deployment) (p : Proc α) (w : ids.World) : ids.World :=
  (p.run dep.supply w).2

/-- The id that the next create is handed. -/
def Deployment.nextId (dep : Deployment) (w : ids.World) : NodeId := (dep.supply w).1

section Frames

theorem counter_key_not_typeRow (database ns entity_type entity_type' : String) (site : UInt8) :
    ¬ TypeRow database ns entity_type (ids.counter_key (of_namespace database ns).ids entity_type' site) := by
  rw [counter_key_eq]
  rintro (⟨b, _, h⟩ | ⟨id, h⟩)
  · exact ids_ne_index h
  · rw [data_key_eq] at h
    exact ids_ne_data h

/-- Handing out an id writes the counter row only. -/
theorem allocate_get (dep : Deployment) (w : ids.World) {k : Bytes}
    (hne : k ≠ ids.counter_key dep.subspace.ids dep.entity_type dep.allocator.site_id) :
    (dep.supply w).2.db.rows.get k = w.db.rows.get k := by
  unfold Deployment.supply ids.allocate
  dsimp only
  split
  · exact get_set_of_ne _ _ hne
  · rfl

theorem allocate_journal (dep : Deployment) (w : ids.World) : (dep.supply w).2.db.journal = w.db.journal := by
  unfold Deployment.supply ids.allocate
  dsimp only
  split <;> rfl

theorem allocate_agree (dep : Deployment) (w : ids.World) : Agree dep.typeRow w.db (dep.supply w).2.db := by
  intro k hk
  refine (allocate_get _ w ?_).symm
  rintro rfl
  exact counter_key_not_typeRow _ _ _ _ _ hk

theorem allocate_noEdges (dep : Deployment) {w : ids.World} (h : NoEdges dep.database dep.ns w.db) :
    NoEdges dep.database dep.ns (dep.supply w).2.db := by
  intro rest
  refine (allocate_get _ w ?_).trans (h _)
  rw [counter_key_eq]
  exact fun h => ids_ne_edge h.symm

variable {dep : Deployment}

theorem not_typeRow_of_edgeKey {k : Bytes} (hedge : EdgeKey k) : ¬ dep.typeRow k := by
  rintro (hindex | ⟨id, rfl⟩)
  · exact edgeKey_not_indexRow hedge hindex
  · exact edgeKey_ne_data_key hedge _ rfl

theorem delete_guard_key_not_typeRow (id : NodeId) : ¬ dep.typeRow
      (delete_guard_key dep.subspace.data dep.entity_type id.to_bytes) := by
  rintro (hindex | ⟨id', h⟩)
  · exact delete_guard_key_not_indexRow _ _ hindex
  · exact data_key_ne_delete_guard_key _ _ _ id h.symm

/-- A request whose write transactions stay outside the type's rows. -/
theorem exec_agree {α : Type} {p : Proc α} (hp : p.Confined fun k => ¬ dep.typeRow k) (w : ids.World) :
    Agree dep.typeRow w.db (dep.exec p w).db := by
  intro k hk
  exact (hp.run_get_eq (by simpa using hk) (fun w => (allocate_agree _ w k hk).symm) w).symm

end Frames

/-- The rows that operations on nodes of a type write: its index, and records
and delete guards. -/
def NodeRow (database ns entity_type : String) (k : Bytes) : Prop :=
  IndexRow (Subspace.of_namespace database ns) entity_type k ∨
    ∃ rest, k = (Subspace.of_namespace database ns).data.pfx ++ rest

section NodeRows

variable {database ns entity_type : String} {db db' : Db}

theorem nodeRow_of_indexRow {k : Bytes} (h : IndexRow (of_namespace database ns) entity_type k) :
    NodeRow database ns entity_type k :=
  inl h

theorem nodeRow_data_key (id : Bytes) :
    NodeRow database ns entity_type (data_key (of_namespace database ns).data entity_type id) :=
  inr ⟨_, data_key_eq ..⟩

theorem nodeRow_delete_guard_key (id : Bytes) : NodeRow database ns entity_type
    (delete_guard_key (of_namespace database ns).data entity_type id) :=
  inr ⟨_, delete_guard_key_eq ..⟩

theorem counter_key_not_nodeRow (site : UInt8) : ¬ NodeRow database ns entity_type
    (ids.counter_key (of_namespace database ns).ids entity_type site) := by
  rw [counter_key_eq]
  rintro (⟨b, _, h⟩ | ⟨rest, h⟩)
  · exact ids_ne_index h
  · exact ids_ne_data h

theorem edge_not_nodeRow (rest : Bytes) :
    ¬ NodeRow database ns entity_type ((of_namespace database ns).edge.pfx ++ rest) := by
  rintro (hindex | ⟨rest', hdata⟩)
  · exact edgeKey_not_indexRow ⟨database, ns, rest, rfl⟩ hindex
  · exact edge_ne_data hdata

/-- Node transactions leave a namespace without edges as it is. -/
theorem noEdges_of_touches (entity_type : String) {t : Tx Unit}
    (ht : t.Touches (fun _ => True) (NodeRow database ns entity_type)) (hrun : t.run db = .ok ((), db'))
    (h : NoEdges database ns db) : NoEdges database ns db' :=
  fun rest => (ht.get_eq hrun (edge_not_nodeRow _)).trans (h _)

theorem keeps_set_data_key (id : Bytes) (c : Cell) :
    (.set (data_key (of_namespace database ns).data entity_type id) c : Tx Unit).Keeps
      (CountersReadable (of_namespace database ns) entity_type) :=
  keeps_set (fun hk => data_key_not_indexRow _ _ (indexRow_of_counterRow hk)) c

end NodeRows

theorem putRecord_noEdges {dep : Deployment} {db : Db} (h : NoEdges dep.database dep.ns db) (id : NodeId)
    (d : NodeData) : NoEdges dep.database dep.ns (dep.putRecord db id d) := by
  intro rest
  refine (get_set_of_ne _ _ ?_).trans (h _)
  rw [data_key_eq]
  exact edge_ne_data

theorem putRecord_readable {dep : Deployment} {db : Db} (h : CountersReadable dep.subspace dep.entity_type db)
    (id : NodeId) (d : NodeData) : CountersReadable dep.subspace dep.entity_type (dep.putRecord db id d) := by
  obtain ⟨_, _, hrun, hready⟩ := keeps_set_data_key _ _ db h
  obtain ⟨⟩ := hrun
  exact hready

/-- What a delete goes on with once the record is gone. -/
def Deployment.finishDelete (dep : Deployment) (node_id : String) (id : NodeId) : Proc Bool := do
  let _ ← dep.store.edge_store.delete_edges_for_node_internal dep.database dep.ns dep.entity_type node_id true
  .commit (Tx.clear (delete_guard_key dep.subspace.data dep.entity_type id.to_bytes))
  pure true

theorem finishDelete_confined (dep : Deployment) (node_id : String) (id : NodeId) :
    (dep.finishDelete node_id id).Confined fun k => ¬ dep.typeRow k := by
  refine ((dep.store.edge_store.confined ..).mono fun k => not_typeRow_of_edgeKey).bind ?_
  intro _
  exact ⟨(Tx.touches_clear _).mpr (delete_guard_key_not_typeRow id), trivial⟩

theorem finishDelete_agree (dep : Deployment) (node_id : String) (id : NodeId) (w : ids.World) :
    Agree dep.typeRow w.db (dep.exec (dep.finishDelete node_id id) w).db :=
  exec_agree (finishDelete_confined _ _ id) w

section Exec

variable {dep : Deployment} {schema : EntitySchema} {w : ids.World}

/-- A request that reads a record first goes on with what it finds. -/
theorem Deployment.reads_record {α : Type} {request : Proc α} (id : NodeId) {next : Option Cell → Proc α}
    {Outcome : Option Cell → Proc α → Prop}
    (hrequest : request = .readThen (data_key dep.subspace.data dep.entity_type id.to_bytes) next)
    (hnext : ∀ cell, Outcome cell (next cell)) (w : ids.World) :
    ∃ p, request.run dep.supply w = p.run dep.supply w ∧ dep.exec request w = dep.exec p w ∧
      Outcome (dep.record w.db id) p := by
  subst hrequest
  exact ⟨next (dep.record _ id), rfl, rfl, hnext _⟩

/-- A write transaction fails and ends the request, or the request goes on from it. -/
theorem Deployment.exec_commitThen {α : Type} (t : Tx Unit) (next : Proc α) (w : ids.World) :
    dep.exec (.commitThen t next) w = w ∨ ∃ db', t.run w.db = .ok ((), db') ∧
      dep.exec (.commitThen t next) w = dep.exec next { w with db := db' } := by
  unfold exec
  cases hrun : t.run w.db with
  | error =>
    rw [run_commitThen_of_error hrun]
    exact inl rfl
  | ok r =>
    rw [run_commitThen_of_ok hrun]
    exact inr ⟨r.2, rfl, rfl⟩

theorem Deployment.get_schema_inj {schema' : EntitySchema} (hschema : dep.schema? = some schema)
    (hschema' : dep.schema? = some schema') : schema' = schema := by
  rw [hschema, Option.some.injEq] at hschema'
  exact hschema'.symm

private theorem check_new_value_readOnly (database ns entity_type : String) (properties : Properties)
    (row : String × PropertyDef) : (check_new_value database ns entity_type properties row).ReadOnly := by
  unfold check_new_value
  split
  · split
    · rename_i value _
      refine .bind ?_ ?_
      · unfold check_unique_constraint
        cases encode_value_for_index value with
        | error => trivial
        | ok =>
          intro cell
          cases cell with
          | none => trivial
          | some c => cases c <;> trivial
      · intro r
        split <;> trivial
    · trivial
  · trivial

theorem check_all_readOnly (database ns entity_type : String) (properties : Properties)
    (rows : List (String × PropertyDef)) :
    (forEach rows (check_new_value database ns entity_type properties)).ReadOnly := by
  induction rows with
  | nil => trivial
  | cons _ _ ih => exact (check_new_value_readOnly ..).bind fun _ => ih

variable (hschema : dep.store.get_schema dep.database dep.ns dep.entity_type = some schema)

include hschema

/-- A create does nothing, takes an id only, or commits. -/
theorem create_node_exec (properties : Properties) (clock : Clock) :
    dep.exec (create_node dep.store dep.database dep.ns dep.entity_type properties clock) w = w ∨
    dep.exec (create_node dep.store dep.database dep.ns dep.entity_type properties clock) w = (dep.supply w).2 ∨
    ∃ entries postings db', validate_properties dep.entity_type schema (apply_defaults schema properties) = .ok () ∧
      IndexPlan dep.subspace dep.entity_type schema (dep.nextId w).to_bytes none
        (some (apply_defaults schema properties)) [] entries ⟨postings, []⟩ 1 ∧
      (create_txn dep.store dep.database dep.ns dep.entity_type (apply_defaults schema properties)
        (dep.nextId w) entries postings clock).run (dep.supply w).2.db = .ok ((), db') ∧
      dep.exec (create_node dep.store dep.database dep.ns dep.entity_type properties clock) w =
        ⟨db', (dep.supply w).2.mem⟩ := by
  refine create_node_cases _ _ _ _ _ _ (fun _ => inl rfl) fun schema' next hschema' hvalid hnext => ?_
  obtain rfl := Deployment.get_schema_inj hschema hschema'
  have hsame := (check_all_readOnly dep.database dep.ns dep.entity_type (apply_defaults schema' properties)
    schema'.properties.rows).run_eq dep.supply w
  rw [Deployment.exec, run_bind]
  generalize (forEach schema'.properties.rows _).run _ w = r at hsame ⊢
  obtain ⟨r, w'⟩ := r
  obtain rfl : w' = w := hsame
  cases r with
  | error => exact inl rfl
  | ok =>
    right
    obtain ⟨entries, postings, hplan, hcommit⟩ := hnext _
    change dep.exec (next (dep.nextId w')) (dep.supply w').2 = _ ∨ ∃ entries postings db',
      _ ∧ _ ∧ _ ∧ dep.exec (next (dep.nextId w')) (dep.supply w').2 = _
    rw [hcommit]
    refine (Deployment.exec_commitThen ..).imp_right fun ⟨db', hrun, h⟩ => ?_
    exact ⟨entries, postings, db', hvalid, hplan, hrun, h⟩

/-- An update does nothing, or commits what it computed from the record. -/
theorem update_node_exec (node_id : String) (patch : Properties) (clock : Clock) :
    dep.exec (update_node dep.store dep.database dep.ns dep.entity_type node_id patch clock) w = w ∨
    ∃ id d removals additions changes db', NodeId.from_str node_id = some id ∧ dep.record w.db id = some (.node d) ∧
      enforce_local_ownership dep.store dep.entity_type node_id d.locality = .ok () ∧
      validate_properties dep.entity_type schema (d.properties.overlay patch) = .ok () ∧
      IndexPlan dep.subspace dep.entity_type schema id.to_bytes (some d.properties)
        (some (d.properties.overlay patch)) removals additions changes 0 ∧
      (update_txn dep.store dep.database dep.ns dep.entity_type node_id id.to_bytes
        (unique_constraints_to_check schema d.properties (d.properties.overlay patch)) removals additions
        changes ⟨d.properties.overlay patch, d.locality, d.created_at, clock.now⟩ patch d.properties
        clock).run w.db = .ok ((), db') ∧
      dep.exec (update_node dep.store dep.database dep.ns dep.entity_type node_id patch clock) w =
        ⟨db', w.mem⟩ := by
  refine update_node_cases _ _ _ _ _ _ _ (fun _ => inl rfl) fun _ id _ hschema' hid hnext => ?_
  obtain rfl := Deployment.get_schema_inj hschema hschema'
  obtain ⟨p, _, hexec, houtcome⟩ := Deployment.reads_record id rfl hnext w
  rw [hexec]
  generalize hcell : dep.record _ id = cell at houtcome
  cases houtcome with
  | fail => exact inl rfl
  | @commit d removals additions changes howner hvalid hplan =>
    refine (Deployment.exec_commitThen _ _ w).imp_right fun ⟨db', hrun, h⟩ => ?_
    exact ⟨id, d, removals, additions, changes, db', hid, hcell, howner, hvalid, hplan, hrun, h⟩

/-- A delete does nothing, or commits and goes on to edges and delete guard. -/
theorem delete_node_exec (node_id : String) (clock : Clock) :
    dep.exec (delete_node dep.store dep.database dep.ns dep.entity_type node_id clock) w = w ∨
    ∃ id d removals postings db', NodeId.from_str node_id = some id ∧ dep.record w.db id = some (.node d) ∧
      enforce_local_ownership dep.store dep.entity_type node_id d.locality = .ok () ∧
      IndexPlan dep.subspace dep.entity_type schema id.to_bytes (some d.properties) none removals []
        ⟨[], postings⟩ (-1) ∧
      (delete_txn dep.store dep.database dep.ns dep.entity_type node_id id.to_bytes removals postings
        clock).run w.db = .ok ((), db') ∧
      dep.exec (delete_node dep.store dep.database dep.ns dep.entity_type node_id clock) w =
        dep.exec (dep.finishDelete node_id id) ⟨db', w.mem⟩ := by
  refine delete_node_cases _ _ _ _ _ _ (fun _ => inl rfl) fun _ id _ hschema' hid hnext => ?_
  obtain rfl := Deployment.get_schema_inj hschema hschema'
  obtain ⟨p, _, hexec, houtcome⟩ := Deployment.reads_record id rfl hnext w
  rw [hexec]
  generalize hcell : dep.record _ id = cell at houtcome
  cases houtcome with
  | absent | fail => exact inl rfl
  | @commit d removals postings howner hplan =>
    refine (Deployment.exec_commitThen _ _ w).imp_right fun ⟨db', hrun, h⟩ => ?_
    exact ⟨id, d, removals, postings, db', hid, hcell, howner, hplan, hrun, h⟩

end Exec

end pelago_storage.node
