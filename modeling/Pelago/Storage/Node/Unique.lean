import Pelago.Storage.Node.Serializability
import Pelago.Storage.Node.Deployment

open bytes kv pelago_core pelago_core.encoding
open pelago_storage.index pelago_storage.term_index

namespace pelago_storage.node

open Option NodeId Proc List

/-- A create or an update, as a server runs it. -/
inductive WriteCall where
  | create (properties : Properties) (clock : Clock)
  | update (node_id : String) (patch : Properties) (clock : Clock)

def WriteCall.proc (self : NodeStore) (database ns entity_type : String) : WriteCall → Proc StoredNode
  | .create properties clock => create_node self database ns entity_type properties clock
  | .update node_id patch clock => update_node self database ns entity_type node_id patch clock

/-- The property values that a call brings in. -/
def WriteCall.values : WriteCall → Properties
  | .create properties _ => properties
  | .update _ patch _ => patch

/-- Live nodes hold distinct values of the property, and the row of each value
names the node that holds it. -/
structure UniqueHeld (database ns entity_type property : String) (db : Db) : Prop where
  distinct : ∀ id id' d d' v v', recordOf database ns entity_type db id = some (.node d) →
    recordOf database ns entity_type db id' = some (.node d') → d.properties.get property = some v →
    d'.properties.get property = some v' → v.is_null = false → v = v' ∨ v.eq v' = true → id = id'
  named : ∀ id d v, recordOf database ns entity_type db id = some (.node d) →
    d.properties.get property = some v → v.is_null = false →
    db.rows.get (unique_key database ns entity_type property (encodedValue v)) = some (.raw id.to_bytes)

/-- No live node holds `-0.0`. -/
def NoNegativeZero (database ns entity_type property : String) (db : Db) : Prop :=
  ∀ id d v, recordOf database ns entity_type db id = some (.node d) → d.properties.get property = some v →
    v.isNegativeZero = false

/-- The invariant: the row of a held value names its holder. -/
private def RowsName (database ns entity_type property : String) (db : Db) : Prop :=
  ∀ id d v, recordOf database ns entity_type db id = some (.node d) → d.properties.get property = some v →
    v.isNegativeZero = false ∧ (v.is_null = false →
      db.rows.get (unique_key database ns entity_type property (encodedValue v)) = some (.raw id.to_bytes))

section Invariant

variable {database ns entity_type property : String} {schema : EntitySchema} {db db' : Db}

private theorem RowsName.uniqueHeld (h : RowsName database ns entity_type property db) :
    UniqueHeld database ns entity_type property db := by
  refine ⟨?_, fun id d v hrecord hget => (h id d v hrecord hget).2⟩
  intro id id' d d' v v' hrecord hrecord' hget hget' hnull hsame
  obtain ⟨hzero, hrow⟩ := h id d v hrecord hget
  obtain ⟨hzero', hrow'⟩ := h _ d' v' hrecord' hget'
  obtain rfl : v = v' := by
    obtain hsame | hsame := hsame
    · exact hsame
    · exact Value.eq_of_eq hsame hzero hzero'
  have hsome := (hrow hnull).symm.trans (hrow' hnull)
  simp only [some.injEq, Cell.raw.injEq] at hsome
  exact to_bytes_inj hsome

/-- The row of a unique value as an entry. -/
private theorem unique_entry_key (id : Bytes) (value : Value) :
    (entryFor (.of_namespace database ns) entity_type id property .unique value).key =
      unique_key database ns entity_type property (encodedValue value) :=
  (unique_key_eq _ ns ..).symm

private theorem unique_entry_inj {id : Bytes} {property' : String} {kind : IndexType} {value value' : Value}
    (hkind : kind ≠ .none) (h : unique_key database ns entity_type property (encodedValue value) =
      (entryFor (.of_namespace database ns) entity_type id property' kind value').key) :
    property' = property ∧ kind = .unique ∧ encodedValue value' = encodedValue value := by
  rw [unique_key_eq] at h
  obtain ⟨rfl, rfl, hrest⟩ := entryRow_inj (by simp) hkind h
  exact ⟨rfl, rfl, hrest.symm⟩

/-- A change keeps the invariant when the values it writes are not another
node's, and the old values it clears are the node's own. -/
private theorem RowsName.change {id : NodeId} {old new : Option NodeData}
    (hunique : ∃ prop_def, schema.properties.get property = some prop_def ∧ prop_def.index = .unique)
    (hinv : RowsName database ns entity_type property db)
    (hchange : RecordChange database ns entity_type schema id old new db db')
    (hzero : ∀ v, (propsOf new).get property = some v → v.isNegativeZero = false)
    (hold : ∀ d, old = some d → recordOf database ns entity_type db id = some (.node d))
    (hfree : ∀ v, (propsOf new).get property = some v → v.is_null = false → ∀ id' : NodeId,
      db.rows.get (unique_key database ns entity_type property (encodedValue v)) = some (.raw id'.to_bytes) →
        id' = id) : RowsName database ns entity_type property db' := by
  intro id' d' v' hrecord hget
  by_cases hid : id' = id
  · subst hid
    rw [hchange.record] at hrecord
    obtain ⟨d, rfl, hd⟩ := map_eq_some_iff.mp hrecord
    rw [encode_cbor, Cell.node.injEq] at hd
    subst hd
    rw [NodeData.stored, storedProperties_get] at hget
    obtain ⟨v, hv, rfl⟩ := map_eq_some_iff.mp hget
    rw [storedValue_isNegativeZero, storedValue_is_null, encodedValue_storedValue]
    refine ⟨hzero v hv, fun hnull => ?_⟩
    have hindexed : Indexed schema (propsOf (some d)) property .unique v := ⟨hunique, by simp, hv, hnull⟩
    have hadded := hchange.entry_added hindexed
    rw [unique_entry_key] at hadded
    exact hadded
  · rw [hchange.others _ hid] at hrecord
    obtain ⟨hzero', hrow⟩ := hinv _ d' v' hrecord hget
    refine ⟨hzero', fun hnull => ?_⟩
    have hrow := hrow hnull
    rw [← hrow]
    apply hchange.entry_kept
    · rw [unique_key_eq]
      exact ⟨property, .unique, _, by simp, rfl⟩
    · intro _ _ _ hindexed hkey
      obtain ⟨rfl, rfl, hencoded⟩ := unique_entry_inj hindexed.indexed hkey
      rw [← hencoded] at hrow
      exact hid (hfree _ hindexed.held hindexed.not_null _ hrow)
    · intro _ _ _ hindexed _ hkey
      obtain ⟨rfl, rfl, hencoded⟩ := unique_entry_inj hindexed.indexed hkey
      cases old with
      | none => exact absurd hindexed.held (by simp [propsOf])
      | some d =>
        obtain ⟨_, hown⟩ := hinv id d _ (hold d rfl) hindexed.held
        have hsome := (hown hindexed.not_null).symm.trans (hencoded ▸ hrow)
        simp only [some.injEq, Cell.raw.injEq] at hsome
        exact hid (to_bytes_inj hsome).symm

end Invariant

section Calls

variable {self : NodeStore} {database ns entity_type property : String} {schema : EntitySchema}

/-- What the checks of a create have read: no row of a unique value named a
node. -/
private def Checked (database ns entity_type : String) (properties : Properties)
    (row : String × PropertyDef) (reads : List (Bytes × Option Cell)) : Prop :=
  row.2.index = .unique → ∀ v, properties.get row.1 = some v → v.is_null = false ∧
    ∃ cell, (unique_key database ns entity_type row.1 (encodedValue v), cell) ∈ reads ∧
      ∀ id : NodeId, cell ≠ some (.raw id.to_bytes)

variable {properties : Properties} {reads : List (Bytes × Option Cell)}

private theorem preserves_check_new_value {Inv : Db → Prop} {row : String × PropertyDef} {next : Proc StoredNode}
    (h : ∀ reads', Checked database ns entity_type properties row reads' → (∀ r ∈ reads, r ∈ reads') →
      next.Preserves Current Inv reads') :
    (check_new_value database ns entity_type properties row >>= fun _ => next).Preserves Current Inv reads := by
  unfold check_new_value
  by_cases hkind : row.2.index = .unique
  · cases hget : properties.get row.1 with
    | none =>
      simp only [hkind, ↓reduceIte, pure_bind]
      exact h _ (fun _ v hv => by rw [hget] at hv; cases hv) (fun _ hr => hr)
    | some v =>
      simp only [hkind, ↓reduceIte, check_unique_constraint]
      cases hnull : v.is_null with
      | true =>
        have hencode : ∃ e, encode_value_for_index v = .error e := by
          cases v <;> simp_all [Value.is_null, encode_value_for_index]
        obtain ⟨e, hencode⟩ := hencode
        rw [hencode]
        trivial
      | false =>
        rw [encode_value_for_index_eq hnull]
        simp only [ofExcept_ok_bind, read_bind, readThen_bind]
        intro cell
        have hnext : (∀ id : NodeId, cell ≠ some (.raw id.to_bytes)) → next.Preserves Current Inv
            ((unique_key database ns entity_type row.1 (encodedValue v), cell) :: reads) := by
          intro hcell
          refine h _ (fun _ _ hv' => ?_) (fun r hr => mem_cons_of_mem _ hr)
          rw [hget, some.injEq] at hv'
          subst hv'
          exact ⟨hnull, cell, mem_cons_self, hcell⟩
        cases cell with
        | none => exact hnext (by simp)
        | some c =>
          cases c with
          | node | edge | cdc => exact hnext (by simp)
          | raw bs =>
            cases hslice : try_from_slice bs with
            | none =>
              simp only [hslice, map_none, pure_bind]
              refine hnext ?_
              rintro _ ⟨⟩
              cases hslice
            | some =>
              simp only [hslice, map_some, pure_bind, fail_bind]
              trivial
  · simp only [hkind, ↓reduceIte, pure_bind]
    exact h _ (fun hindex => absurd hindex hkind) (fun _ hr => hr)

private theorem Checked.mono {row : String × PropertyDef}
    {reads' : List (Bytes × Option Cell)} (h : Checked database ns entity_type properties row reads)
    (hsub : ∀ r ∈ reads, r ∈ reads') : Checked database ns entity_type properties row reads' := by
  intro hkind v hv
  obtain ⟨hnull, cell, hmem, hcell⟩ := h hkind v hv
  exact ⟨hnull, cell, hsub _ hmem, hcell⟩

private theorem preserves_check_all {Inv : Db → Prop} {rows : List (String × PropertyDef)} {next : Proc StoredNode}
    (h : ∀ reads', (∀ row ∈ rows, Checked database ns entity_type properties row reads') →
      (∀ r ∈ reads, r ∈ reads') → next.Preserves Current Inv reads') :
    (forEach rows (check_new_value database ns entity_type properties) >>= fun _ => next).Preserves
      Current Inv reads := by
  induction rows generalizing reads with
  | nil => exact h _ (by simp) (fun _ hr => hr)
  | cons _ _ ih =>
    rw [forEach, Proc.bind_assoc]
    refine preserves_check_new_value fun _ hrow hsub => ih fun _ hrest hsub' => ?_
    refine h _ ?_ (fun r hr => hsub' r (hsub r hr))
    intro row' hrow'
    obtain rfl | hrow' := mem_cons.mp hrow'
    · exact hrow.mono hsub'
    · exact hrest _ hrow'

variable (hunique : ∃ prop_def, schema.properties.get property = some prop_def ∧ prop_def.index = .unique)
  (hschema : self.get_schema database ns entity_type = some schema)

include hunique hschema

private theorem create_node_preserves {clock : Clock}
    (hzero : ∀ v, (apply_defaults schema properties).get property = some v → v.isNegativeZero = false) :
    (create_node self database ns entity_type properties clock).Preserves Current
      (RowsName database ns entity_type property) [] := by
  refine create_node_cases _ _ _ _ _ _ (fun _ => trivial) fun _ _ hschema' _ hnext => ?_
  rw [hschema, some.injEq] at hschema'
  subst hschema'
  refine preserves_check_all fun _ hchecked _ => ?_
  intro id
  obtain ⟨entries, _, hplan, hcommit⟩ := hnext id
  rw [hcommit]
  refine ⟨?_, trivial⟩
  intro _ _ hinv hcurrent hrun
  have hchange := create_txn_change hplan hrun
  refine hinv.change hunique hchange hzero (fun d hd => by cases hd) ?_
  intro v hv _ id' hrow
  obtain ⟨prop_def, hdef, hkind⟩ := hunique
  obtain ⟨_, _, hread, hcell⟩ := hchecked _
    (schema.properties.get_eq_some_iff_mem.mp hdef) hkind v hv
  exact absurd ((hcurrent _ hread).symm.trans hrow) (hcell _)

private theorem update_node_preserves {node_id : String} {patch : Properties} {clock : Clock}
    (hzero : ∀ v, patch.get property = some v → v.isNegativeZero = false) :
    (update_node self database ns entity_type node_id patch clock).Preserves Current
      (RowsName database ns entity_type property) [] := by
  refine update_node_cases _ _ _ _ _ _ _ (fun _ => trivial) fun _ id next hschema' _ hnext cell => ?_
  rw [hschema, some.injEq] at hschema'
  subst hschema'
  have houtcome := hnext cell
  generalize next cell = p at houtcome
  cases houtcome with
  | fail => trivial
  | @commit d _ _ _ _ _ hplan =>
    refine ⟨?_, trivial⟩
    intro db db' hinv hcurrent hrun
    obtain ⟨hchange, hown⟩ := update_txn_change hplan hrun
    have hrecord : recordOf database ns entity_type db id = some (.node d) :=
      hcurrent _ mem_cons_self
    have hmerged : ∀ v, (d.properties.overlay patch).get property = some v → v.isNegativeZero = false := by
      intro v hv
      rw [Properties.get_overlay] at hv
      obtain hv | ⟨_, hv⟩ := or_eq_some_iff.mp hv
      · exact hzero v hv
      · exact (hinv id d v hrecord hv).1
    refine hinv.change hunique hchange hmerged (fun _ hd' => ?_) ?_
    · rw [← some.inj hd']
      exact hrecord
    · intro v hv hnull id' hrow
      by_cases hold : (d.properties.get property).any (fun o => o.eq v) = true
      · -- an unchanged value is the node's own already
        cases ho : d.properties.get property with
        | none => simp [ho] at hold
        | some o =>
          obtain ⟨hzero', hown'⟩ := hinv id d o hrecord ho
          have heq : o = v := Value.eq_of_eq (by simpa [ho] using hold) hzero' (hmerged v hv)
          subst heq
          have hsome := (hown' hnull).symm.trans hrow
          simp only [some.injEq, Cell.raw.injEq] at hsome
          exact (to_bytes_inj hsome).symm
      · have hcell := hown _ v ⟨hunique, by simp, hv, hnull⟩ (by simpa using hold) _ hrow
        rw [Cell.raw.injEq] at hcell
        exact to_bytes_inj hcell

end Calls

/-- In every interleaving of creates and updates, by any number of servers, in
which each call commits only while the rows it read are still current, the
values of a unique property stay distinct and their rows name their holders. The
value `-0.0` is left out: it compares equal to `0.0` but is encoded
differently. -/
theorem unique_held_of_current {J : Type} [DecidableEq J] (stores : J → NodeStore) (calls : J → WriteCall)
    (database ns entity_type property : String) (schema : EntitySchema)
    (hunique : ∃ prop_def, schema.properties.get property = some prop_def ∧ prop_def.index = .unique)
    (hschema : ∀ j, (stores j).get_schema database ns entity_type = some schema)
    (hcalls : ∀ j v, (calls j).values.get property = some v → v.isNegativeZero = false)
    (hdefault : ∀ prop_def v, schema.properties.get property = some prop_def →
      prop_def.default_value = some v → v.isNegativeZero = false)
    (db₀ : Db) (hheld : UniqueHeld database ns entity_type property db₀)
    (hzero : NoNegativeZero database ns entity_type property db₀)
    (c : Pool Bytes Cell NodeId PelagoError StoredNode J)
    (hreach : Reach Current
      ⟨db₀, fun j => Thread.start ((calls j).proc (stores j) database ns entity_type)⟩ c) :
    UniqueHeld database ns entity_type property c.db := by
  have hstart : RowsName database ns entity_type property db₀ := fun id d v hrecord hget =>
    ⟨hzero id d v hrecord hget, hheld.named id d v hrecord hget⟩
  refine RowsName.uniqueHeld (hreach.invariant hstart ?_)
  intro j
  have hvalues := hcalls j
  change ((calls j).proc (stores j) database ns entity_type).Preserves Current _ []
  cases hcall : calls j with
  | create =>
    rw [hcall] at hvalues
    refine create_node_preserves hunique (hschema j) ?_
    intro v hv
    obtain hv | ⟨prop_def, hdef, hv⟩ := get_apply_defaults hv
    · exact hvalues v hv
    · exact hdefault _ v hdef hv
  | update =>
    rw [hcall] at hvalues
    exact update_node_preserves hunique (hschema j) hvalues

/-- A site where users have a unique email address. -/
def userStore : NodeStore where
  get_schema _ _ _ := some ⟨"User", OrdMap.ofList [("email", ⟨.string, false, .unique, none⟩)], {}, .empty⟩
  site_id := "1"
  edge_store := .none

/-- Two creates with one email address. -/
def sameEmail : Bool → WriteCall
  | _ => .create (OrdMap.ofList [("email", .string "a@b")]) ⟨0, 0⟩

def emptyDb : Db := ⟨OrdMap.empty, fun _ => []⟩

/-- Both creates look for the address before either writes it, so both nodes
get it. -/
theorem same_email_created_twice :
    ∃ c, Reach (fun _ _ => True)
        ⟨emptyDb, fun j => Thread.start ((sameEmail j).proc userStore "db" "ns" "User")⟩ c ∧
      ¬ UniqueHeld "db" "ns" "User" "email" c.db := by
  refine ⟨_, Pool.reach_schedule _ [(true, ⟨1, 0⟩), (false, ⟨1, 1⟩), (true, ⟨1, 0⟩), (false, ⟨1, 1⟩),
    (true, ⟨1, 0⟩), (false, ⟨1, 1⟩)], ?_⟩
  intro hheld
  have hid := hheld.distinct ⟨1, 0⟩ ⟨1, 1⟩ ⟨.ofList [("email", .string "a@b")], 1, 0, 0⟩
    ⟨.ofList [("email", .string "a@b")], 1, 0, 0⟩ _ (.string "a@b") (by decide +kernel)
    (by decide +kernel) (by decide +kernel) (by decide +kernel) rfl (.inl rfl)
  exact absurd hid (by decide)

/-- With the second create after the first one's commit, the address stays
unique. -/
theorem same_email_created_in_turn :
    UniqueHeld "db" "ns" "User" "email" ((⟨emptyDb, fun j => Thread.start ((sameEmail j).proc userStore "db" "ns"
      "User")⟩ : Pool Bytes Cell NodeId PelagoError StoredNode Bool).schedule
      [(true, ⟨1, 0⟩), (true, ⟨1, 0⟩), (true, ⟨1, 0⟩), (false, ⟨1, 1⟩), (false, ⟨1, 1⟩), (false, ⟨1, 1⟩)]).db := by
  have hempty : ∀ id, recordOf "db" "ns" "User" emptyDb id = none := fun _ => rfl
  refine unique_held_of_current (fun _ => userStore) sameEmail "db" "ns" "User" "email"
    ⟨"User", OrdMap.ofList [("email", ⟨.string, false, .unique, none⟩)], {}, .empty⟩
    ⟨⟨.string, false, .unique, none⟩, by decide +kernel, rfl⟩ (fun _ => rfl) ?_ ?_ emptyDb ?_ ?_ _
    (Pool.reach_currentSchedule (by decide +kernel))
  · intro j v hv
    have hv' : some (Value.string "a@b") = some v := hv
    rw [← some.inj hv']
    rfl
  · intro prop_def v hdef hv
    have hdef' : some (⟨.string, false, .unique, none⟩ : PropertyDef) = some prop_def := hdef
    rw [← some.inj hdef'] at hv
    cases hv
  · refine ⟨?_, ?_⟩
    · intro id id' d d' v v' hrecord
      rw [hempty] at hrecord
      cases hrecord
    · intro id d v hrecord
      rw [hempty] at hrecord
      cases hrecord
  · intro id d v hrecord
    rw [hempty] at hrecord
    cases hrecord

end pelago_storage.node
