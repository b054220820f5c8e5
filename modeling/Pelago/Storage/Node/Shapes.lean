import Pelago.Storage.Node.IndexChange

open bytes kv pelago_core pelago_core.encoding
open pelago_storage.index pelago_storage.term_index

namespace pelago_storage.node

open Except Tx OrdMap
open OrdMap (empty)
open Subspace (of_namespace)
open NodeData (properties)

section

/-- The index work of a create, an update or a delete, from the properties
before and after. -/
inductive IndexPlan (subspace : Subspace) (entity_type : String) (schema : EntitySchema) (id : Bytes) :
    Option Properties → Option Properties → List IndexEntry → List IndexEntry → TermPostingChanges →
      Int → Prop where
  | create {properties : Properties} {entries : List IndexEntry} {postings : List TermPosting}
      (hentries : compute_index_entries subspace entity_type id schema properties = .ok entries)
      (hpostings : compute_term_postings subspace entity_type id properties = .ok postings) :
      IndexPlan subspace entity_type schema id none (some properties) [] entries ⟨postings, []⟩ 1
  | update {old new : Properties} {removals additions : List IndexEntry} {changes : TermPostingChanges}
      (hremovals : compute_index_removals subspace entity_type id schema old new = .ok removals)
      (hadditions : compute_index_entries subspace entity_type id schema new = .ok additions)
      (hchanges : compute_term_posting_changes subspace entity_type id old new = .ok changes) :
      IndexPlan subspace entity_type schema id (some old) (some new) removals additions changes 0
  | delete {properties : Properties} {entries : List IndexEntry} {postings : List TermPosting}
      (hentries : compute_index_entries subspace entity_type id schema properties = .ok entries)
      (hpostings : compute_term_postings subspace entity_type id properties = .ok postings) :
      IndexPlan subspace entity_type schema id (some properties) none entries [] ⟨[], postings⟩ (-1)

/-- What a plan amounts to, a missing record counting as one without
properties. -/
structure IndexPlan.Spec (subspace : Subspace) (entity_type : String) (schema : EntitySchema) (id : Bytes)
    (old new : Option Properties) (removals additions : List IndexEntry)
    (termAdditions termRemovals : List TermKey) (n_docs_delta : Int) : Prop where
  mem_removals : ∀ e, e ∈ removals ↔ ∃ property kind value,
    Indexed schema (old.getD empty) property kind value ∧
      needs_removal value ((new.getD empty).get property) = true ∧
      e = entryFor subspace entity_type id property kind value
  mem_additions : ∀ e, e ∈ additions ↔ ∃ property kind value,
    Indexed schema (new.getD empty) property kind value ∧
      e = entryFor subspace entity_type id property kind value
  mem_termAdditions : ∀ term, term ∈ termAdditions ↔
    term ∈ termsOf (new.getD empty) ∧ term ∉ termsOf (old.getD empty)
  mem_termRemovals : ∀ term, term ∈ termRemovals ↔
    term ∈ termsOf (old.getD empty) ∧ term ∉ termsOf (new.getD empty)
  additions_nodup : NoTemplateField (new.getD empty) → termAdditions.Nodup
  removals_nodup : NoTemplateField (old.getD empty) → termRemovals.Nodup
  docs : n_docs_delta = (if new.isSome then 1 else 0) - (if old.isSome then 1 else 0)

variable {removals additions : List IndexEntry} {changes : TermPostingChanges} {n_docs_delta : Int}

/-- What an update computes always succeeds. -/
theorem compute_changes_ok (subspace : Subspace) (entity_type : String) (schema : EntitySchema) (id : Bytes)
    (old new : Properties) : ∃ removals additions changes,
      compute_index_removals subspace entity_type id schema old new = .ok removals ∧
      compute_index_entries subspace entity_type id schema new = .ok additions ∧
      compute_term_posting_changes subspace entity_type id old new = .ok changes := by
  obtain ⟨removals, hremovals, _⟩ := compute_index_removals_ok _ _ id _ _ _
  obtain ⟨additions, hadditions, _⟩ := compute_index_entries_ok _ _ id _ _
  obtain ⟨_, _, _, _, _, _, hchanges⟩ := compute_term_posting_changes_ok _ _ id _ _
  exact ⟨removals, additions, _, hremovals, hadditions, hchanges⟩

section Plan

variable {subspace : Subspace} {entity_type : String} {schema : EntitySchema} {id : Bytes}

private theorem termsOf_empty : termsOf empty = [] := rfl

private theorem not_indexed_empty {property : String} {kind : IndexType} {value : Value} :
    ¬ Indexed schema empty property kind value := by
  intro h
  exact absurd h.held (by simp)

variable {old new : Option Properties}

theorem IndexPlan.spec
        (hplan : IndexPlan subspace entity_type schema id old new removals additions changes n_docs_delta) :
    ∃ termAdditions termRemovals, changes = changesOf subspace entity_type id termAdditions termRemovals ∧
      Spec subspace entity_type schema id old new removals additions termAdditions termRemovals
        n_docs_delta := by
  cases hplan with
  | @create properties _ _ hentries hpostings =>
    obtain ⟨entries', hok, hmem⟩ := compute_index_entries_ok _ _ id ..
    rw [hentries, ok.injEq] at hok
    subst hok
    rw [compute_term_postings_eq, ok.injEq] at hpostings
    subst hpostings
    refine ⟨termsOf properties, [], rfl, ?_, hmem, ?_, ?_, termsOf_nodup, ?_, by simp⟩
    · simp [not_indexed_empty]
    · simp [termsOf_empty]
    · simp [termsOf_empty]
    · intro _
      exact List.nodup_nil
  | @update oldProperties newProperties _ _ _ hremovals hadditions hchanges =>
    obtain ⟨removals', hok, hmem⟩ :=
      compute_index_removals_ok _ _ id ..
    rw [hremovals, ok.injEq] at hok
    subst hok
    obtain ⟨additions', hok, hmem'⟩ := compute_index_entries_ok _ _ id ..
    rw [hadditions, ok.injEq] at hok
    subst hok
    obtain ⟨termAdditions, termRemovals, haddNodup, hremNodup, hadd, hrem, hok⟩ :=
      compute_term_posting_changes_ok _ _ id ..
    rw [hchanges, ok.injEq] at hok
    subst hok
    exact ⟨termAdditions, termRemovals, rfl, hmem, hmem', hadd, hrem, fun _ => haddNodup,
      fun _ => hremNodup, by simp⟩
  | @delete properties _ _ hentries hpostings =>
    obtain ⟨entries', hok, hmem⟩ := compute_index_entries_ok _ _ id ..
    rw [hentries, ok.injEq] at hok
    subst hok
    rw [compute_term_postings_eq, ok.injEq] at hpostings
    subst hpostings
    refine ⟨[], termsOf properties, rfl, ?_, ?_, ?_, ?_, ?_, termsOf_nodup, by simp⟩
    · simp [hmem, needs_removal]
    · simp [not_indexed_empty]
    · simp [termsOf_empty]
    · simp [termsOf_empty]
    · intro _
      exact List.nodup_nil

variable {termAdditions termRemovals : List TermKey}

section

variable (h : IndexPlan.Spec subspace entity_type schema id old new removals additions termAdditions termRemovals n_docs_delta)
include h

theorem IndexPlan.Spec.removal_at : ∀ e ∈ removals, EntryAt subspace entity_type id e := by
  intro e he
  obtain ⟨property, kind, value, hindexed, _, rfl⟩ := (h.mem_removals e).mp he
  exact ⟨property, kind, value, hindexed.indexed, rfl⟩

theorem IndexPlan.Spec.addition_at : ∀ e ∈ additions, EntryAt subspace entity_type id e := by
  intro e he
  obtain ⟨property, kind, value, hindexed, rfl⟩ := (h.mem_additions e).mp he
  exact ⟨property, kind, value, hindexed.indexed, rfl⟩

end

section

variable (hplan : IndexPlan subspace entity_type schema id old new removals additions changes n_docs_delta)
include hplan

theorem IndexPlan.touches : (change_index_rows subspace entity_type removals additions changes n_docs_delta).Touches
      (IndexRow subspace entity_type) (IndexRow subspace entity_type) := by
  obtain ⟨termAdditions, _, rfl, hspec⟩ := hplan.spec
  exact touches_change_index_rows hspec.removal_at hspec.addition_at

/-- With readable counters the index work never fails. -/
theorem IndexPlan.keeps : (change_index_rows subspace entity_type removals additions changes n_docs_delta).Keeps
      (CountersReadable subspace entity_type) := by
  obtain ⟨_, _, rfl, hspec⟩ := hplan.spec
  exact change_index_rows_keeps hspec.addition_at

/-- The properties before and after determine the index work. -/
theorem IndexPlan.unique {removals' additions' : List IndexEntry}
    {changes' : TermPostingChanges} {n_docs_delta' : Int}
    (hplan' : IndexPlan subspace entity_type schema id old new removals' additions' changes' n_docs_delta') :
    removals = removals' ∧ additions = additions' ∧ changes = changes' ∧ n_docs_delta = n_docs_delta' := by
  cases hplan with
  | create hentries hpostings =>
    cases hplan' with
    | create hentries' hpostings' =>
      obtain rfl := ok.inj (hentries.symm.trans hentries')
      obtain rfl := ok.inj (hpostings.symm.trans hpostings')
      exact ⟨rfl, rfl, rfl, rfl⟩
  | update hremovals hadditions hchanges =>
    cases hplan' with
    | update hremovals' hadditions' hchanges' =>
      obtain rfl := ok.inj (hremovals.symm.trans hremovals')
      obtain rfl := ok.inj (hadditions.symm.trans hadditions')
      obtain rfl := ok.inj (hchanges.symm.trans hchanges')
      exact ⟨rfl, rfl, rfl, rfl⟩
  | delete hentries hpostings =>
    cases hplan' with
    | delete hentries' hpostings' =>
      obtain rfl := ok.inj (hentries.symm.trans hentries')
      obtain rfl := ok.inj (hpostings.symm.trans hpostings')
      exact ⟨rfl, rfl, rfl, rfl⟩

end

end Plan

/-- The record of a node of the type. -/
def recordOf (database ns entity_type : String) (db : Db) (id : NodeId) : Option Cell :=
  db.rows.get (data_key (of_namespace database ns).data entity_type id.to_bytes)

/-- A committed change of one record with the index work that belongs to it. -/
structure RecordChange (database ns entity_type : String) (schema : EntitySchema) (id : NodeId)
    (old new : Option NodeData) (db db' : Db) : Prop where
  record : recordOf database ns entity_type db' id = new.map encode_cbor
  others : ∀ id', id' ≠ id → recordOf database ns entity_type db' id' = recordOf database ns entity_type db id'
  index : ∃ removals additions changes n_docs_delta mid mid',
    IndexPlan (of_namespace database ns) entity_type schema id.to_bytes
      (old.map properties) (new.map properties) removals additions changes n_docs_delta ∧
    Agree (IndexRow (of_namespace database ns) entity_type) mid db ∧
    (change_index_rows (of_namespace database ns) entity_type removals additions changes
      n_docs_delta).run mid = .ok ((), mid') ∧
    Agree (IndexRow (of_namespace database ns) entity_type) db' mid'

/-- The rows of one type: its records and its index. -/
def TypeRow (database ns entity_type : String) (k : Bytes) : Prop :=
  IndexRow (of_namespace database ns) entity_type k ∨
    ∃ id : NodeId, k = data_key (of_namespace database ns).data entity_type id.to_bytes

variable {database ns entity_type : String} {db db' db₁ db₁' : Db}

theorem recordOf_congr (h : Agree (TypeRow database ns entity_type) db db') (id : NodeId) :
    recordOf database ns entity_type db id = recordOf database ns entity_type db' id :=
  h _ (.inr ⟨id, rfl⟩)

variable {schema : EntitySchema} {old new : Option NodeData}

/-- Only the rows of the type matter. -/
theorem RecordChange.congr {id : NodeId} (h : RecordChange database ns entity_type schema id old new db db')
    (hbefore : Agree (TypeRow database ns entity_type) db₁ db)
    (hafter : Agree (TypeRow database ns entity_type) db' db₁') :
    RecordChange database ns entity_type schema id old new db₁ db₁' := by
  obtain ⟨removals, additions, changes, n, mid, mid', hplan, hmid, hrun, hagree⟩ := h.index
  refine ⟨?_, ?_, ⟨removals, additions, changes, n, mid, mid', hplan, ?_, hrun, ?_⟩⟩
  · rw [← recordOf_congr hafter]
    exact h.record
  · intro id' hne
    rw [← recordOf_congr hafter, recordOf_congr hbefore]
    exact h.others _ hne
  · intro k hk
    exact (hmid k hk).trans (hbefore k (.inl hk)).symm
  · intro k hk
    exact (hafter k (.inl hk)).symm.trans (hagree k hk)

/-- A change keeps counters readable. -/
theorem RecordChange.readable {id : NodeId} (h : RecordChange database ns entity_type schema id old new db db')
    (hready : CountersReadable (of_namespace database ns) entity_type db) :
    CountersReadable (of_namespace database ns) entity_type db' := by
  obtain ⟨removals, _, _, _, mid, mid', hplan, hbefore, hrun, hafter⟩ := h.index
  have hmid : CountersReadable (of_namespace database ns) entity_type mid := by
    intro k c hk hget
    rw [hbefore k (indexRow_of_counterRow hk)] at hget
    exact hready k c hk hget
  obtain ⟨_, mid₁, hrun₁, hmid₁⟩ := hplan.keeps _ hmid
  obtain rfl : mid₁ = mid' := by
    have hsame := hrun₁.symm.trans hrun
    rw [ok.injEq, Prod.mk.injEq] at hsame
    exact hsame.2
  intro k c hk hget
  rw [hafter k (indexRow_of_counterRow hk)] at hget
  exact hmid₁ k c hk hget

/-- Equal changes of properties keep two indexes equal. -/
theorem RecordChange.index_agree {id : NodeId} {old₁ new₁ : Option NodeData}
    (h : RecordChange database ns entity_type schema id old new db db')
    (h₁ : RecordChange database ns entity_type schema id old₁ new₁ db₁ db₁')
    (hold : old.map properties = old₁.map properties)
    (hnew : new.map properties = new₁.map properties)
    (hagree : Agree (IndexRow (of_namespace database ns) entity_type) db db₁) :
    Agree (IndexRow (of_namespace database ns) entity_type) db' db₁' := by
  obtain ⟨removals, _, _, _, mid, _, hplan, hbefore, hrun, hafter⟩ := h.index
  obtain ⟨removals₁, _, _, _, mid₁, mid₁', hplan₁, hbefore₁, hrun₁, hafter₁⟩ :=
    h₁.index
  rw [hold, hnew] at hplan
  obtain ⟨rfl, rfl, rfl, rfl⟩ := hplan.unique hplan₁
  have hmid : Agree (IndexRow (of_namespace database ns) entity_type) mid mid₁ :=
    fun k hk => ((hbefore k hk).trans (hagree k hk)).trans (hbefore₁ k hk).symm
  obtain ⟨mid₂, hrun₂, hmid'⟩ := hplan.touches.run_agree hmid hrun
  obtain rfl : mid₂ = mid₁' := by
    have hsame := hrun₂.symm.trans hrun₁
    rw [ok.injEq, Prod.mk.injEq] at hsame
    exact hsame.2
  exact fun k hk => ((hafter k hk).trans (hmid' k hk)).trans (hafter₁ k hk).symm

section Transactions

variable {database ns entity_type : String} {schema : EntitySchema} {id : NodeId}

/-- Neither the record of `id` nor a delete guard. -/
def Elsewhere (database ns entity_type : String) (id : NodeId) (k : Bytes) : Prop :=
  k ≠ data_key (of_namespace database ns).data entity_type id.to_bytes ∧
    ∀ id' : NodeId, k ≠ delete_guard_key (of_namespace database ns).data entity_type id'.to_bytes

theorem elsewhere_of_indexRow {k : Bytes} (hk : IndexRow (of_namespace database ns) entity_type k) :
    Elsewhere database ns entity_type id k := by
  refine ⟨?_, fun _ => ?_⟩
  · rintro rfl
    exact data_key_not_indexRow _ _ hk
  · rintro rfl
    exact delete_guard_key_not_indexRow _ _ hk

theorem elsewhere_of_ne {id' : NodeId} (hne : id' ≠ id) : Elsewhere database ns entity_type id
    (data_key (of_namespace database ns).data entity_type id'.to_bytes) := by
  refine ⟨?_, fun _ => data_key_ne_delete_guard_key _ _ _ _⟩
  intro heq
  exact hne (NodeId.to_bytes_inj (data_key_inj heq))

/-- A transaction that does the index work and writes only the record and
delete guards besides is a change of that record. -/
theorem RecordChange.intro {mid mid' : Db}
    (hplan : IndexPlan (of_namespace database ns) entity_type schema id.to_bytes
      (old.map properties) (new.map properties) removals additions changes n_docs_delta)
    (hbefore : ∀ k, Elsewhere database ns entity_type id k → mid.rows.get k = db.rows.get k)
    (hrun : (change_index_rows (of_namespace database ns) entity_type removals additions changes
      n_docs_delta).run mid = .ok ((), mid'))
    (hafter : ∀ k, Elsewhere database ns entity_type id k → db'.rows.get k = mid'.rows.get k)
    (hrecord : recordOf database ns entity_type db' id = new.map encode_cbor) :
    RecordChange database ns entity_type schema id old new db db' := by
  have hkeep : ∀ k, ¬ IndexRow (of_namespace database ns) entity_type k →
      mid'.rows.get k = mid.rows.get k := fun k hk => hplan.touches.get_eq hrun hk
  refine ⟨hrecord, ?_, ?_⟩
  · intro _ hne
    have helse : Elsewhere database ns entity_type id _ := elsewhere_of_ne hne
    unfold recordOf
    rw [hafter _ helse, hkeep _ (data_key_not_indexRow _ _), hbefore _ helse]
  · exact ⟨removals, additions, changes, n_docs_delta, mid, mid', hplan,
      fun k hk => hbefore k (elsewhere_of_indexRow hk), hrun,
      fun k hk => hafter k (elsewhere_of_indexRow hk)⟩

theorem cdc_flush_rows {self : NodeStore} {clock : Clock} {operations : List CdcOperation}
    (hrun : (cdc_flush self database ns clock operations).run db = .ok ((), db')) : db'.rows = db.rows := by
  unfold cdc_flush at hrun
  split at hrun
  · simp only [run_pure, ok.injEq, Prod.mk.injEq, true_and] at hrun
    rw [hrun]
  · simp only [run_append, ok.injEq, Prod.mk.injEq, true_and] at hrun
    rw [← hrun]

variable {removals additions : List IndexEntry} {changes : TermPostingChanges} {n_docs_delta : Int}

/-- Setting the record, then the index work. -/
theorem recordChange_of_set_first {data : NodeData}
    (hplan : IndexPlan (of_namespace database ns) entity_type schema id.to_bytes
      none (some data.properties) removals additions changes n_docs_delta)
    (hrun : (do
      set (data_key (of_namespace database ns).data entity_type id.to_bytes) (encode_cbor data)
      change_index_rows (of_namespace database ns) entity_type removals additions changes
        n_docs_delta : Tx Unit).run db = .ok ((), db')) :
    RecordChange database ns entity_type schema id none (some data) db db' := by
  refine .intro hplan ?_ hrun (fun _ _ => rfl) ?_
  · intro k hk
    exact get_set_of_ne _ _ hk.1
  · unfold recordOf
    rw [hplan.touches.get_eq hrun (data_key_not_indexRow _ _)]
    exact get_set_self ..

/-- The index work, then setting the record. -/
theorem recordChange_of_set_last {old data : NodeData}
    (hplan : IndexPlan (of_namespace database ns) entity_type schema id.to_bytes
      (some old.properties) (some data.properties) removals additions changes n_docs_delta)
    (hrun : (do
      change_index_rows (of_namespace database ns) entity_type removals additions changes n_docs_delta
      set (data_key (of_namespace database ns).data entity_type id.to_bytes)
        (encode_cbor data) : Tx Unit).run db = .ok ((), db')) :
    RecordChange database ns entity_type schema id (some old) (some data) db db' := by
  rw [run_bind_eq_ok] at hrun
  obtain ⟨_, mid, hmid, hrun⟩ := hrun
  simp only [run_set, ok.injEq, Prod.mk.injEq, true_and] at hrun
  subst hrun
  refine .intro hplan (fun _ _ => rfl) hmid ?_ ?_
  · intro k hk
    exact get_set_of_ne _ _ hk.1
  · exact get_set_self ..

end Transactions

end

open Proc

variable (self : NodeStore) (database ns entity_type : String)

/-- `create_node` is refused at once, or checks the unique values, asks for an
id and then commits once. -/
@[elab_as_elim]
theorem create_node_cases (properties : Properties) (clock : Clock) {motive : Proc StoredNode → Prop}
    (refused : ∀ e, motive (.done (.error e)))
    (checks : ∀ schema next, self.get_schema database ns entity_type = some schema →
      validate_properties entity_type schema (apply_defaults schema properties) = .ok () →
      (∀ id, ∃ entries postings,
        IndexPlan (of_namespace database ns) entity_type schema id.to_bytes none
          (some (apply_defaults schema properties)) [] entries ⟨postings, []⟩ 1 ∧
        next id = .commitThen (create_txn self database ns entity_type (apply_defaults schema properties) id
            entries postings clock)
          (.done (.ok ⟨id.to_string, entity_type, apply_defaults schema properties, id.site, clock.now,
            clock.now⟩))) →
      motive (forEach schema.properties.rows
        (check_new_value database ns entity_type (apply_defaults schema properties)) >>= fun _ =>
          .inputThen next)) :
    motive (create_node self database ns entity_type properties clock) := by
  unfold create_node lookup_schema
  cases hschema : self.get_schema database ns entity_type with
  | none => exact refused _
  | some schema =>
    simp only [ofExcept_ok_bind]
    cases hvalid : validate_properties entity_type schema (apply_defaults schema properties) with
    | error => exact refused _
    | ok =>
      simp only [ofExcept_ok_bind, input_bind]
      refine checks schema _ hschema hvalid fun _ => ?_
      obtain ⟨entries, hentries, _⟩ := compute_index_entries_ok ..
      refine ⟨entries, _, .create hentries (compute_term_postings_eq _), ?_⟩
      simp only [hentries, compute_term_postings_eq, ofExcept_ok_bind, commit_bind]
      rfl

/-- What `update_node` goes on with after it has read the record. -/
inductive UpdateOutcome (schema : EntitySchema) (node_id : String) (id : NodeId)
    (new_properties : Properties) (clock : Clock) : Option Cell → Proc StoredNode → Prop where
  | fail (cell : Option Cell) (e : PelagoError) :
      UpdateOutcome schema node_id id new_properties clock cell (.done (.error e))
  | commit {d : NodeData} {removals additions : List IndexEntry} {changes : TermPostingChanges}
      (howner : enforce_local_ownership self entity_type node_id d.locality = .ok ())
      (hvalid : validate_properties entity_type schema (d.properties.overlay new_properties) = .ok ())
      (hplan : IndexPlan (Subspace.of_namespace database ns) entity_type schema id.to_bytes
        (some d.properties) (some (d.properties.overlay new_properties)) removals additions changes 0) :
      UpdateOutcome schema node_id id new_properties clock (some (.node d))
        (.commitThen (update_txn self database ns entity_type node_id id.to_bytes
            (unique_constraints_to_check schema d.properties (d.properties.overlay new_properties))
            removals additions changes
            ⟨d.properties.overlay new_properties, d.locality, d.created_at, clock.now⟩
            new_properties d.properties clock)
          (.done (.ok ⟨node_id, entity_type, d.properties.overlay new_properties, d.locality,
            d.created_at, clock.now⟩)))

/-- `update_node` is refused at once, or reads the record and then commits at
most once. -/
@[elab_as_elim]
theorem update_node_cases (node_id : String) (new_properties : Properties) (clock : Clock)
    {motive : Proc StoredNode → Prop} (refused : ∀ e, motive (.done (.error e)))
    (reads : ∀ schema id next, self.get_schema database ns entity_type = some schema → NodeId.from_str node_id = some id →
      (∀ cell, UpdateOutcome self database ns entity_type schema node_id id new_properties clock cell (next cell)) →
      motive (.readThen (data_key (of_namespace database ns).data entity_type id.to_bytes) next)) :
    motive (update_node self database ns entity_type node_id new_properties clock) := by
  unfold update_node lookup_schema parse_node_id
  cases hschema : self.get_schema database ns entity_type with
  | none => exact refused _
  | some schema =>
    cases hid : NodeId.from_str node_id with
    | none => exact refused _
    | some id =>
      simp only [ofExcept_ok_bind, read_bind]
      refine reads schema id _ hschema hid fun cell => ?_
      cases cell with
      | none => exact .fail ..
      | some c =>
        cases c with
        | raw | edge | cdc => exact .fail ..
        | node d =>
          simp only [decode_cbor, ofExcept_ok_bind]
          cases howner : enforce_local_ownership self entity_type node_id d.locality with
          | error => exact .fail ..
          | ok =>
            cases hvalid : validate_properties entity_type schema (d.properties.overlay new_properties) with
            | error => exact .fail ..
            | ok =>
              obtain ⟨_, _, _, hremovals, hadditions, hchanges⟩ := compute_changes_ok (of_namespace database ns)
                entity_type schema id.to_bytes d.properties (d.properties.overlay new_properties)
              simp only [ofExcept_ok_bind, hremovals, hadditions, hchanges]
              exact .commit howner hvalid (.update hremovals hadditions hchanges)

/-- What `delete_node` goes on with after it has read the record. -/
inductive DeleteOutcome (schema : EntitySchema) (node_id : String) (id : NodeId) (clock : Clock) :
    Option Cell → Proc Bool → Prop where
  | absent : DeleteOutcome schema node_id id clock none (.done (.ok false))
  | fail (cell : Option Cell) (e : PelagoError) :
      DeleteOutcome schema node_id id clock cell (.done (.error e))
  | commit {d : NodeData} {removals : List IndexEntry} {postings : List TermPosting}
      (howner : enforce_local_ownership self entity_type node_id d.locality = .ok ())
      (hplan : IndexPlan (Subspace.of_namespace database ns) entity_type schema id.to_bytes
        (some d.properties) none removals [] ⟨[], postings⟩ (-1)) :
      DeleteOutcome schema node_id id clock (some (.node d))
        (.commitThen (delete_txn self database ns entity_type node_id id.to_bytes removals postings clock)
          (do
            let _ ← self.edge_store.delete_edges_for_node_internal database ns entity_type node_id true
            .commit (Tx.clear
              (delete_guard_key (Subspace.of_namespace database ns).data entity_type id.to_bytes))
            pure true))

@[elab_as_elim]
theorem delete_node_cases (node_id : String) (clock : Clock) {motive : Proc Bool → Prop}
    (refused : ∀ e, motive (.done (.error e)))
    (reads : ∀ schema id next, self.get_schema database ns entity_type = some schema → NodeId.from_str node_id = some id →
      (∀ cell, DeleteOutcome self database ns entity_type schema node_id id clock cell (next cell)) →
      motive (.readThen (data_key (of_namespace database ns).data entity_type id.to_bytes) next)) :
    motive (delete_node self database ns entity_type node_id clock) := by
  unfold delete_node lookup_schema parse_node_id
  cases hschema : self.get_schema database ns entity_type with
  | none => exact refused _
  | some schema =>
    cases hid : NodeId.from_str node_id with
    | none => exact refused _
    | some id =>
      simp only [ofExcept_ok_bind, read_bind]
      refine reads schema id _ hschema hid fun cell => ?_
      cases cell with
      | none => exact .absent
      | some c =>
        cases c with
        | raw | edge | cdc => exact .fail ..
        | node d =>
          simp only [decode_cbor, ofExcept_ok_bind]
          cases howner : enforce_local_ownership self entity_type node_id d.locality with
          | error => exact .fail ..
          | ok =>
            obtain ⟨removals, hremovals, _⟩ := compute_index_entries_ok
              (of_namespace database ns) entity_type id.to_bytes schema d.properties
            simp only [ofExcept_ok_bind, hremovals, compute_term_postings_eq]
            exact .commit howner (.delete hremovals (compute_term_postings_eq _))

end pelago_storage.node
