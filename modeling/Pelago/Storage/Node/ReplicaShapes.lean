import Pelago.Storage.Node.Deployment

open bytes kv pelago_core pelago_core.encoding
open pelago_storage.index pelago_storage.term_index

namespace pelago_storage.node

open Proc
open Subspace (of_namespace)
open NodeId (from_str)
open Or (inl inr)

variable (store : NodeStore) (database ns entity_type : String) (schema : EntitySchema) (node_id : String)
  (id : NodeId)

/-- What `apply_replica_node_create` goes on with after it has looked for the
record. -/
inductive ReplicaCreateOutcome (properties : Properties) (home_site_id : UInt8) (event_timestamp : Int) :
    Option Cell → Proc Bool → Prop where
  | broken {c : Cell} (e : PelagoError) (hbroken : ∀ d, c ≠ .node d) :
      ReplicaCreateOutcome properties home_site_id event_timestamp (some c) (.done (.error e))
  | present (d : NodeData) : ReplicaCreateOutcome properties home_site_id event_timestamp (some (.node d))
      (.done (.ok (decide (d.locality = home_site_id) && d.properties.eq properties)))
  | commit {entries : List IndexEntry} {postings : List TermPosting}
      (hplan : IndexPlan (of_namespace database ns) entity_type schema id.to_bytes none
        (some properties) [] entries ⟨postings, []⟩ 1) :
      ReplicaCreateOutcome properties home_site_id event_timestamp none
        (.commitThen (do
            Tx.set (data_key (of_namespace database ns).data entity_type id.to_bytes)
              (encode_cbor ⟨properties, home_site_id, event_timestamp, event_timestamp⟩)
            change_index_rows (of_namespace database ns) entity_type [] entries ⟨postings, []⟩ 1)
          (.done (.ok true)))

section Create

variable (properties : Properties) (home_site : String) (event_timestamp : Int)

variable {store database ns entity_type schema node_id id} in
/-- A creation whose checks pass looks for the record first. -/
theorem apply_replica_node_create_outcome {home_site_id : UInt8}
    (hschema : store.get_schema database ns entity_type = some schema)
    (hvalid : validate_properties entity_type schema properties = .ok ())
    (hid : from_str node_id = some id) (hsite : parse_u8 home_site = some home_site_id) :
    ∃ next, apply_replica_node_create store database ns entity_type node_id properties home_site
        event_timestamp home_site =
        .readThen (data_key (of_namespace database ns).data entity_type id.to_bytes) next ∧
      ∀ cell, ReplicaCreateOutcome database ns entity_type schema id properties home_site_id event_timestamp
        cell (next cell) := by
  unfold apply_replica_node_create lookup_schema parse_node_id parse_site_id
  simp only [ne_eq, not_true_eq_false, ↓reduceIte, hschema, hvalid, hid, hsite, ofExcept_ok_bind, read_bind]
  refine ⟨_, rfl, ?_⟩
  intro cell
  cases cell with
  | none =>
    obtain ⟨entries, hentries, _⟩ := compute_index_entries_ok
      (of_namespace database ns) entity_type id.to_bytes schema properties
    simp only [ofExcept_ok_bind, hentries, compute_term_postings_eq]
    exact .commit (.create hentries (compute_term_postings_eq _))
  | some c =>
    cases c with
    | raw | edge | cdc => exact .broken _ (by simp)
    | node d => exact .present d

@[elab_as_elim]
theorem apply_replica_node_create_cases (origin_site : String) {motive : Proc Bool → Prop}
    (refused : ∀ e, motive (.done (.error e)))
    (reads : ∀ schema id home_site_id next, store.get_schema database ns entity_type = some schema →
      validate_properties entity_type schema properties = .ok () → from_str node_id = some id →
      (∀ cell, ReplicaCreateOutcome database ns entity_type schema id properties home_site_id event_timestamp cell
        (next cell)) →
      motive (.readThen (data_key (of_namespace database ns).data entity_type id.to_bytes) next)) :
    motive (apply_replica_node_create store database ns entity_type node_id properties home_site event_timestamp
      origin_site) := by
  by_cases horigin : home_site = origin_site
  · subst horigin
    cases hschema : store.get_schema database ns entity_type with
    | none => simpa [apply_replica_node_create, lookup_schema, hschema] using refused _
    | some schema =>
      cases hvalid : validate_properties entity_type schema properties with
      | error => simpa [apply_replica_node_create, lookup_schema, hschema, hvalid] using refused _
      | ok =>
        cases hid : from_str node_id with
        | none =>
          simpa [apply_replica_node_create, lookup_schema, hschema, hvalid, parse_node_id, hid] using refused _
        | some id =>
          cases hsite : parse_u8 home_site with
          | none =>
            simpa [apply_replica_node_create, lookup_schema, hschema, hvalid, parse_node_id, hid,
              parse_site_id, hsite] using refused _
          | some home_site_id =>
            obtain ⟨next, heq, hnext⟩ := apply_replica_node_create_outcome properties home_site
              event_timestamp hschema hvalid hid hsite
            rw [heq]
            exact reads schema id home_site_id next hschema hvalid hid hnext
  · rw [apply_replica_node_create, if_pos horigin]
    exact refused _

end Create

/-- An update that the record's owner or time turns down. -/
def UpdateStale (d : NodeData) (actor : UInt8) (old_properties : Properties) (event_timestamp : Int) : Prop :=
  (d.locality ≠ actor ∨ d.properties.eq old_properties = false) ∧ event_timestamp ≤ d.updated_at

/-- The record after a replicated update. -/
def updatedRecord (d : NodeData) (actor : UInt8) (changed : Properties) (event_timestamp : Int) : NodeData :=
  ⟨d.properties.overlay changed, if d.locality ≠ actor then actor else d.locality, d.created_at,
    max d.updated_at event_timestamp⟩

/-- What `apply_replica_node_update` goes on with after it has read the
record. -/
inductive ReplicaUpdateOutcome (changed old_properties : Properties) (actor : UInt8) (event_timestamp : Int) :
    Option Cell → Proc Bool → Prop where
  | absent (e : PelagoError) :
      ReplicaUpdateOutcome changed old_properties actor event_timestamp none (.done (.error e))
  | broken {c : Cell} (e : PelagoError) (hbroken : ∀ d, c ≠ .node d) :
      ReplicaUpdateOutcome changed old_properties actor event_timestamp (some c) (.done (.error e))
  | stale {d : NodeData} (hstale : UpdateStale d actor old_properties event_timestamp) :
      ReplicaUpdateOutcome changed old_properties actor event_timestamp (some (.node d)) (.done (.ok false))
  | invalid {d : NodeData} (e : PelagoError) (hstale : ¬ UpdateStale d actor old_properties event_timestamp)
      (hinvalid : validate_properties entity_type schema (d.properties.overlay changed) = .error e) :
      ReplicaUpdateOutcome changed old_properties actor event_timestamp (some (.node d)) (.done (.error e))
  | commit {d : NodeData} {removals additions : List IndexEntry} {changes : TermPostingChanges}
      (hstale : ¬ UpdateStale d actor old_properties event_timestamp)
      (hvalid : validate_properties entity_type schema (d.properties.overlay changed) = .ok ())
      (hplan : IndexPlan (of_namespace database ns) entity_type schema id.to_bytes
        (some d.properties) (some (d.properties.overlay changed)) removals additions changes 0) :
      ReplicaUpdateOutcome changed old_properties actor event_timestamp (some (.node d))
        (.commitThen (do
            change_index_rows (of_namespace database ns) entity_type removals additions changes 0
            Tx.set (data_key (of_namespace database ns).data entity_type id.to_bytes)
              (encode_cbor (updatedRecord d actor changed event_timestamp)))
          (.done (.ok true)))

section Update

variable (changed old_properties : Properties) (event_timestamp : Int) (origin_site : String)

variable {store database ns entity_type schema node_id id} in
theorem apply_replica_node_update_outcome {actor : UInt8}
    (hschema : store.get_schema database ns entity_type = some schema)
    (hid : from_str node_id = some id) (hsite : parse_u8 origin_site = some actor) :
    ∃ next, apply_replica_node_update store database ns entity_type node_id changed old_properties
          event_timestamp origin_site =
        .readThen (data_key (of_namespace database ns).data entity_type id.to_bytes) next ∧
      ∀ cell, ReplicaUpdateOutcome database ns entity_type schema id changed old_properties actor
        event_timestamp cell (next cell) := by
  unfold apply_replica_node_update lookup_schema parse_node_id parse_site_id
  simp only [hschema, hid, hsite, ofExcept_ok_bind, read_bind]
  refine ⟨_, rfl, ?_⟩
  intro cell
  cases cell with
  | none => exact .absent _
  | some c =>
    cases c with
    | raw | edge | cdc => exact .broken _ (by simp)
    | node d =>
      simp only [decode_cbor, ofExcept_ok_bind, decide_eq_true_eq]
      by_cases howner : d.locality ≠ actor ∧ event_timestamp ≤ d.updated_at
      · have hstale : UpdateStale d actor old_properties event_timestamp := ⟨inl howner.1, howner.2⟩
        rw [if_pos howner]
        exact .stale hstale
      by_cases hold : ¬ d.properties.eq old_properties = true ∧ event_timestamp ≤ d.updated_at
      · have hstale : UpdateStale d actor old_properties event_timestamp :=
          ⟨inr (by simpa using hold.1), hold.2⟩
        rw [if_neg howner, if_pos hold]
        exact .stale hstale
      have hfresh : ¬ UpdateStale d actor old_properties event_timestamp := by
        rintro ⟨hcause | hcause, htime⟩
        · exact howner ⟨hcause, htime⟩
        · exact hold ⟨by simp [hcause], htime⟩
      rw [if_neg howner, if_neg hold]
      cases hvalid : validate_properties entity_type schema (d.properties.overlay changed) with
      | error e => exact .invalid e hfresh hvalid
      | ok =>
        obtain ⟨_, _, _, hremovals, hadditions, hchanges⟩ := compute_changes_ok (of_namespace database ns)
          entity_type schema id.to_bytes d.properties (d.properties.overlay changed)
        simp only [ofExcept_ok_bind, hremovals, hadditions, hchanges]
        exact .commit hfresh hvalid (.update hremovals hadditions hchanges)

@[elab_as_elim]
theorem apply_replica_node_update_cases {motive : Proc Bool → Prop} (refused : ∀ e, motive (.done (.error e)))
    (reads : ∀ schema id actor next, store.get_schema database ns entity_type = some schema →
      from_str node_id = some id → (∀ cell, ReplicaUpdateOutcome database ns entity_type schema id changed
        old_properties actor event_timestamp cell (next cell)) →
      motive (.readThen (data_key (of_namespace database ns).data entity_type id.to_bytes) next)) :
    motive (apply_replica_node_update store database ns entity_type node_id changed old_properties
      event_timestamp origin_site) := by
  cases hsite : parse_u8 origin_site with
  | none => simpa [apply_replica_node_update, parse_site_id, hsite] using refused _
  | some actor =>
    cases hschema : store.get_schema database ns entity_type with
    | none => simpa [apply_replica_node_update, parse_site_id, hsite, lookup_schema, hschema] using refused _
    | some schema =>
      cases hid : from_str node_id with
      | none =>
        simpa [apply_replica_node_update, parse_site_id, hsite, lookup_schema, hschema, parse_node_id,
          hid] using refused _
      | some id =>
        obtain ⟨next, heq, hnext⟩ := apply_replica_node_update_outcome changed old_properties
          event_timestamp origin_site hschema hid hsite
        rw [heq]
        exact reads schema id actor next hschema hid hnext

end Update

/-- What `apply_replica_node_delete` goes on with after it has read the
record. -/
inductive ReplicaDeleteOutcome (actor : UInt8) (event_timestamp : Int) : Option Cell → Proc Bool → Prop where
  | absent : ReplicaDeleteOutcome actor event_timestamp none (.done (.ok false))
  | broken {c : Cell} (e : PelagoError) (hbroken : ∀ d, c ≠ .node d) :
      ReplicaDeleteOutcome actor event_timestamp (some c) (.done (.error e))
  | stale {d : NodeData} (hstale : d.locality ≠ actor ∧ event_timestamp ≤ d.updated_at) :
      ReplicaDeleteOutcome actor event_timestamp (some (.node d)) (.done (.ok false))
  | commit {d : NodeData} {removals : List IndexEntry} {postings : List TermPosting}
      (hstale : ¬ (d.locality ≠ actor ∧ event_timestamp ≤ d.updated_at))
      (hplan : IndexPlan (of_namespace database ns) entity_type schema id.to_bytes
        (some d.properties) none removals [] ⟨[], postings⟩ (-1)) :
      ReplicaDeleteOutcome actor event_timestamp (some (.node d))
        (.commitThen (do
            Tx.clear (data_key (of_namespace database ns).data entity_type id.to_bytes)
            change_index_rows (of_namespace database ns) entity_type removals [] ⟨[], postings⟩ (-1))
          (do
            let _ ← store.edge_store.delete_edges_for_node_internal database ns entity_type node_id false
            pure true))

section Delete

variable (event_timestamp : Int) (origin_site : String)

variable {store database ns entity_type schema node_id id} in
theorem apply_replica_node_delete_outcome {actor : UInt8}
    (hschema : store.get_schema database ns entity_type = some schema)
    (hid : from_str node_id = some id) (hsite : parse_u8 origin_site = some actor) :
    ∃ next, apply_replica_node_delete store database ns entity_type node_id event_timestamp origin_site =
        .readThen (data_key (of_namespace database ns).data entity_type id.to_bytes) next ∧
      ∀ cell, ReplicaDeleteOutcome store database ns entity_type schema node_id id actor event_timestamp cell
        (next cell) := by
  unfold apply_replica_node_delete lookup_schema parse_node_id parse_site_id
  simp only [hschema, hid, hsite, ofExcept_ok_bind, read_bind]
  refine ⟨_, rfl, ?_⟩
  intro cell
  cases cell with
  | none => exact .absent
  | some c =>
    cases c with
    | raw | edge | cdc => exact .broken _ (by simp)
    | node d =>
      simp only [decode_cbor, ofExcept_ok_bind]
      by_cases hstale : d.locality ≠ actor ∧ event_timestamp ≤ d.updated_at
      · rw [if_pos hstale]
        exact .stale hstale
      · rw [if_neg hstale]
        obtain ⟨removals, hremovals, _⟩ := compute_index_entries_ok
          (of_namespace database ns) entity_type id.to_bytes schema d.properties
        simp only [ofExcept_ok_bind, hremovals, compute_term_postings_eq]
        exact .commit hstale (.delete hremovals (compute_term_postings_eq _))

@[elab_as_elim]
theorem apply_replica_node_delete_cases {motive : Proc Bool → Prop} (refused : ∀ e, motive (.done (.error e)))
    (reads : ∀ schema id actor next, store.get_schema database ns entity_type = some schema →
      from_str node_id = some id → (∀ cell, ReplicaDeleteOutcome store database ns entity_type schema node_id
        id actor event_timestamp cell (next cell)) →
      motive (.readThen (data_key (of_namespace database ns).data entity_type id.to_bytes) next)) :
    motive (apply_replica_node_delete store database ns entity_type node_id event_timestamp
      origin_site) := by
  cases hsite : parse_u8 origin_site with
  | none => simpa [apply_replica_node_delete, parse_site_id, hsite] using refused _
  | some actor =>
    cases hschema : store.get_schema database ns entity_type with
    | none => simpa [apply_replica_node_delete, parse_site_id, hsite, lookup_schema, hschema] using refused _
    | some schema =>
      cases hid : from_str node_id with
      | none =>
        simpa [apply_replica_node_delete, parse_site_id, hsite, lookup_schema, hschema, parse_node_id,
          hid] using refused _
      | some id =>
        obtain ⟨next, heq, hnext⟩ := apply_replica_node_delete_outcome event_timestamp origin_site
          hschema hid hsite
        rw [heq]
        exact reads schema id actor next hschema hid hnext

end Delete

section Changes

variable {database ns entity_type : String} {schema : EntitySchema} {id : NodeId} {db db' : Db}

/-- The write transaction of a replicated deletion. -/
theorem recordChange_of_clear_first {old : NodeData} {removals : List IndexEntry} {postings : List TermPosting}
    (hplan : IndexPlan (of_namespace database ns) entity_type schema id.to_bytes
      (some old.properties) none removals [] ⟨[], postings⟩ (-1))
    (hrun : (do
      .clear (data_key (of_namespace database ns).data entity_type id.to_bytes)
      change_index_rows (of_namespace database ns) entity_type removals [] ⟨[], postings⟩
        (-1) : Tx Unit).run db = .ok ((), db')) :
    RecordChange database ns entity_type schema id (some old) none db db' := by
  refine .intro hplan ?_ hrun (fun _ _ => rfl) ?_
  · intro k hk
    exact OrdMap.get_clear_of_ne _ hk.1
  · unfold recordOf
    rw [hplan.touches.get_eq hrun (data_key_not_indexRow _ _)]
    exact OrdMap.get_clear_self ..

end Changes

end pelago_storage.node
