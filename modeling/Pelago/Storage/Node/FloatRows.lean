import Pelago.Storage.Node.PropertyIndex

open bytes kv pelago_core pelago_core.encoding
open pelago_storage.index pelago_storage.term_index

namespace pelago_storage.node

section Defs

variable (dep : Deployment) (schema : EntitySchema) (id : NodeId) (q : String) (kind : IndexType)

/-- The rows of a property of a node: that of its value, and no row if it has none. -/
def RowExact (db : Db) : Prop :=
  ∀ v, db.rows.get (dep.entry id q kind v).key = some (dep.entry id q kind v).cell ↔
    ∃ value, dep.Holds db schema id q kind value ∧ encodedValue v = encodedValue value

/-- A value gives way to one that counts as equal and has other bytes, as zero and
negative zero do. -/
def Flips (db db' : Db) : Prop :=
  ∃ value value', dep.Holds db schema id q kind value ∧ dep.Holds db' schema id q kind value' ∧
    value.eq value' = true ∧ encodedValue value ≠ encodedValue value'

end Defs

section Step

variable {dep : Deployment} {schema : EntitySchema} {id : NodeId} {q : String} {kind : IndexType}

variable {db db' : Db} {value value' : Value}

theorem Deployment.Holds.unique (h : dep.Holds db schema id q kind value) (h' : dep.Holds db schema id q kind value') :
    value = value' := by
  obtain ⟨d, hd, hindexed⟩ := h
  obtain ⟨d', hd', hindexed'⟩ := h'
  obtain rfl := Cell.node.inj (Option.some.inj (hd.symm.trans hd'))
  exact Option.some.inj (hindexed.held.symm.trans hindexed'.held)

theorem Deployment.Holds.congr (hagree : Agree dep.typeRow db db') (h : dep.Holds db' schema id q kind value) :
    dep.Holds db schema id q kind value := by
  rwa [Holds, record, recordOf_congr hagree]

private theorem not_indexed_none : ¬ Indexed schema (propsOf none) q kind value :=
  fun h => absurd h.held (by simp [propsOf])

/-- Storing does not make two values equal that have other bytes. -/
private theorem eq_storedValue (h : encodedValue value ≠ encodedValue value') :
    value.eq (storedValue value') = value.eq value' := by
  cases value' with
  | timestamp =>
    cases value <;> simp_all [storedValue, Value.eq, encodedValue, encode_value_for_index]
    all_goals exact fun heq => h (congrArg _ heq)
  | _ => rfl

theorem holds_iff {d : Option NodeData} (h : dep.record db id = d.map .node) :
    dep.Holds db schema id q kind value ↔ Indexed schema (propsOf d) q kind value := by
  rw [Deployment.Holds, h]
  cases d with
  | none => simp [not_indexed_none]
  | some => simp [propsOf]

variable {old new : Option NodeData} (hchange : dep.Changes schema id old new db db')
  (hbefore : dep.record db id = old.map .node)
include hchange

theorem holds_after : dep.Holds db' schema id q kind value ↔
    ∃ given, value = storedValue given ∧ Indexed schema (propsOf new) q kind given := by
  have hrecord : dep.record db' id = (new.map .stored).map .node := by
    refine hchange.record.trans ?_
    cases new <;> rfl
  rw [holds_iff hrecord]
  cases new with
  | none => simp [not_indexed_none]
  | some =>
    refine ⟨Indexed.of_stored, ?_⟩
    rintro ⟨given, rfl, hgiven⟩
    exact hgiven.stored

/-- The rows afterwards: those of the new values, and those of old values that count
as unchanged. -/
theorem row_after (hkind : kind ≠ .none) (v : Value) :
    db'.rows.get (dep.entry id q kind v).key = some (dep.entry id q kind v).cell ↔
      (∃ given, Indexed schema (propsOf new) q kind given ∧ encodedValue v = encodedValue given) ∨
      db.rows.get (dep.entry id q kind v).key = some (dep.entry id q kind v).cell ∧
        ∀ x, Indexed schema (propsOf old) q kind x → encodedValue v = encodedValue x →
          needs_removal x ((propsOf new).get q) = false := by
  have hentry {x : Value} (h : encodedValue v = encodedValue x) : dep.entry id q kind v = dep.entry id q kind x := by
    rw [Deployment.entry, entryFor, h]
    rfl
  by_cases hnew : ∃ given, Indexed schema (propsOf new) q kind given ∧ encodedValue v = encodedValue given
  · obtain ⟨given, hgiven, hencoded⟩ := hnew
    rw [hentry hencoded]
    exact iff_of_true (hchange.entry_added hgiven) (.inl ⟨given, hgiven, hencoded⟩)
  rw [or_iff_right hnew]
  have hwritten : ∀ property kind' x, Indexed schema (propsOf new) property kind' x →
      (dep.entry id q kind v).key ≠ (dep.entry id property kind' x).key := by
    intro _ _ x hx hk
    obtain ⟨rfl, rfl, hencoded, _⟩ := entryFor_key_eq hkind hx.indexed hk
    exact hnew ⟨x, hx, hencoded⟩
  by_cases hold : ∃ x, Indexed schema (propsOf old) q kind x ∧ encodedValue v = encodedValue x ∧
      needs_removal x ((propsOf new).get q) = true
  · obtain ⟨x, hx, hencoded, hneeds⟩ := hold
    refine iff_of_false (fun hget => ?_) fun h => absurd ((h.2 x hx hencoded).symm.trans hneeds) (by decide)
    rw [hentry hencoded] at hget hwritten
    cases (hchange.entry_removed hx hneeds hwritten).symm.trans hget
  · rw [hchange.entry_kept (entryRow_entryFor hkind v) hwritten fun _ _ x hx hneeds hk => ?_]
    · refine (and_iff_left fun x hx hencoded => ?_).symm
      simpa using fun hneeds => hold ⟨x, hx, hencoded, hneeds⟩
    · obtain ⟨rfl, rfl, hencoded, _⟩ := entryFor_key_eq hkind hx.indexed hk
      exact hold ⟨x, hx, hencoded, hneeds⟩

include hbefore

/-- A change of the record keeps the rows exact just when it does not put a value in
the place of one that only counts as equal. -/
theorem RowExact.change (hkind : kind ≠ .none) (h : RowExact dep schema id q kind db) :
    RowExact dep schema id q kind db' ↔ ¬ Flips dep schema id q kind db db' := by
  constructor
  · rintro hexact ⟨value, _, hvalue, hvalue', heq, hne⟩
    have hkept := (row_after hchange hkind _).mpr (.inr ⟨(h _).mpr ⟨value, hvalue, rfl⟩, fun x hx _ => ?_⟩)
    · obtain ⟨x, hx, hencoded⟩ := (hexact _).mp hkept
      rw [hx.unique hvalue'] at hencoded
      exact hne hencoded
    · obtain ⟨given, rfl, hgiven⟩ := (holds_after hchange).mp hvalue'
      rw [encodedValue_storedValue] at hne
      rw [eq_storedValue hne] at heq
      rw [← hvalue.unique ((holds_iff hbefore).mpr hx)]
      exact needs_removal_eq_false.mpr ⟨given, hgiven.held, hgiven.not_null, heq⟩
  · intro hflips v
    rw [row_after hchange hkind]
    constructor
    · intro hrow
      obtain ⟨given, hgiven, hencoded⟩ : ∃ given, Indexed schema (propsOf new) q kind given ∧
          encodedValue v = encodedValue given := by
        obtain hgiven | ⟨hget, hkept⟩ := hrow
        · exact hgiven
        obtain ⟨x, hx, hencoded⟩ := (h v).mp hget
        have hindexed := (holds_iff hbefore).mp hx
        obtain ⟨given, hheld, hnull, heq⟩ := needs_removal_eq_false.mp (hkept x hindexed hencoded)
        have hgiven : Indexed schema (propsOf new) q kind given := ⟨hindexed.defined, hkind, hheld, hnull⟩
        by_contra hnone
        have hne : encodedValue x ≠ encodedValue given := fun h => hnone ⟨given, hgiven, hencoded.trans h⟩
        refine hflips ⟨x, storedValue given, hx, (holds_after hchange).mpr ⟨given, rfl, hgiven⟩, ?_, ?_⟩
        · rwa [eq_storedValue hne]
        · rwa [encodedValue_storedValue]
      refine ⟨storedValue given, (holds_after hchange).mpr ⟨given, rfl, hgiven⟩, ?_⟩
      rwa [encodedValue_storedValue]
    · rintro ⟨_, hvalue, hencoded⟩
      obtain ⟨given, rfl, hgiven⟩ := (holds_after hchange).mp hvalue
      exact .inl ⟨given, hgiven, hencoded.trans (encodedValue_storedValue _)⟩

end Step

/-- After each call on a node, its rows for an indexed property are exactly that of its
value, just when no call puts a value in the place of one that counts as equal and
has other bytes. -/
theorem rows_exact_iff_no_flip (dep : Deployment) (schema : EntitySchema) (id : NodeId) (q : String) (kind : IndexType)
    (calls : List Call) (w : ids.World) (hkind : kind ≠ .none)
    (hschema : dep.store.get_schema dep.database dep.ns dep.entity_type = some schema)
    (hon : ∀ n (call : Call), calls[n]? = some call → call.On dep id (dep.runCalls (calls.take n) w))
    (hfresh : ∀ n properties clock, calls[n]? = some (.create properties clock) →
      dep.record (dep.runCalls (calls.take n) w).db id = none)
    (hexact : RowExact dep schema id q kind w.db) :
    (∀ n, RowExact dep schema id q kind (dep.runCalls (calls.take n) w).db) ↔
      ∀ n, ¬ Flips dep schema id q kind (dep.runCalls (calls.take n) w).db
        (dep.runCalls (calls.take (n + 1)) w).db := by
  have hagree {db db' : Db} (h : RowExact dep schema id q kind db) (hagree : Agree dep.typeRow db db') :
      RowExact dep schema id q kind db' ↔ ¬ Flips dep schema id q kind db db' := by
    refine iff_of_true (fun v => ?_) ?_
    · rw [← hagree _ (.inl (entryRow_entryFor hkind v).indexRow), h v]
      exact exists_congr fun value => and_congr_left fun _ => ⟨.congr fun k hk => (hagree k hk).symm, .congr hagree⟩
    · rintro ⟨value, _, hvalue, hvalue', _, hne⟩
      exact hne (congrArg _ (hvalue.unique (hvalue'.congr hagree)))
  have hstep (n : Nat) (h : RowExact dep schema id q kind (dep.runCalls (calls.take n) w).db) :
      RowExact dep schema id q kind (dep.runCalls (calls.take (n + 1)) w).db ↔
        ¬ Flips dep schema id q kind (dep.runCalls (calls.take n) w).db (dep.runCalls (calls.take (n + 1)) w).db := by
    cases hcall : calls[n]? with
    | none =>
      rw [List.take_add_one, hcall, Option.toList_none, List.append_nil]
      exact hagree h (.refl _ _)
    | some call =>
      rw [dep.runCalls_take_succ hcall]
      have hid := hon n call hcall
      have hunused : call.isCreate = true → dep.record (dep.runCalls (calls.take n) w).db
          (dep.nextId (dep.runCalls (calls.take n) w)) = none := by
        intro hcreate
        cases call with
        | create properties clock => exact hid ▸ hfresh n _ _ hcall
        | _ => cases hcreate
      obtain hsame | ⟨id', _, _, hid', hbefore, hchange, _⟩ :=
        local_effect hschema (by cases call <;> first | rfl | exact hid.elim) hunused
      · exact hagree h hsame
      · obtain rfl : id' = id := by
          cases call <;>
          first | exact hid'.symm.trans hid | exact Option.some.inj (hid'.symm.trans hid) | exact hid.elim
        exact h.change hchange hbefore hkind
  refine ⟨fun h n => (hstep n (h n)).mp (h _), fun h n => ?_⟩
  induction n with
  | zero => exact hexact
  | succ n ih => exact (hstep n ih).mpr (h n)

/-- People with an indexed score. -/
def scoreSchema : EntitySchema :=
  ⟨"Person", OrdMap.ofList [("score", ⟨.float, false, .equality, none⟩)], {}, .empty⟩

def scores : Deployment := { people with store := ⟨fun _ _ _ => some scoreSchema, "1", .none⟩ }

def scored (bits : UInt64) : Properties := OrdMap.ofList [("score", .float ⟨bits⟩)]

/-- An update from zero to negative zero leaves the row of zero behind. -/
theorem zero_row_left_behind : ¬ RowExact scores scoreSchema ⟨1, 0⟩ "score" .equality
    (scores.runCalls [.create (scored 0) ⟨1, 1⟩, .update "1_0" (scored 0x8000000000000000) ⟨2, 2⟩] noRows).db := by
  intro h
  obtain ⟨value, ⟨d, hd, hindexed⟩, hencoded⟩ := (h (.float ⟨0⟩)).mp (by decide +kernel)
  have hlive : scores.record (scores.runCalls [.create (scored 0) ⟨1, 1⟩,
      .update "1_0" (scored 0x8000000000000000) ⟨2, 2⟩] noRows).db ⟨1, 0⟩ =
        some (.node ⟨scored 0x8000000000000000, 1, 1, 2⟩) := by decide +kernel
  obtain rfl := Cell.node.inj (Option.some.inj (hd.symm.trans hlive))
  obtain rfl := Option.some.inj (hindexed.held.symm.trans (by rfl : _ = some (.float ⟨0x8000000000000000⟩)))
  exact absurd hencoded (by decide +kernel)

/-- A score is set, and the person deleted. -/
theorem scored_then_deleted : RowExact scores scoreSchema ⟨1, 0⟩ "score" .equality
    (scores.runCalls [.create (scored 0) ⟨1, 1⟩, .delete "1_0" ⟨2, 2⟩] noRows).db := by
  have hnone {db : Db} (hnone : scores.record db ⟨1, 0⟩ = none) (v : Value) :
      ¬ scores.Holds db scoreSchema ⟨1, 0⟩ "score" .equality v := by
    rintro ⟨d, hd, _⟩
    cases hnone.symm.trans hd
  refine (rows_exact_iff_no_flip scores scoreSchema ⟨1, 0⟩ "score" .equality
    [.create (scored 0) ⟨1, 1⟩, .delete "1_0" ⟨2, 2⟩] noRows (by decide) rfl ?_ ?_ ?_).mpr ?_ 2
  · intro n call hcall
    obtain _ | _ | n := n <;> cases hcall
    exacts [(by decide +kernel : scores.nextId noRows = ⟨1, 0⟩),
      (by decide +kernel : NodeId.from_str "1_0" = some ⟨1, 0⟩)]
  · intro n properties clock hcall
    obtain _ | _ | n := n <;> cases hcall
    rfl
  · exact fun v => iff_of_false nofun fun ⟨value, hvalue, _⟩ => hnone rfl value hvalue
  · rintro n ⟨value, value', hvalue, hvalue', _, hne⟩
    obtain _ | _ | n := n
    · exact hnone rfl value hvalue
    · exact hnone (by decide +kernel) value' hvalue'
    · rw [List.take_of_length_le (by simp)] at hvalue hvalue'
      exact hne (congrArg _ (hvalue.unique hvalue'))

end pelago_storage.node
