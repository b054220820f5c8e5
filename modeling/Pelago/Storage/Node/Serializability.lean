import Pelago.Kv.Serial
import Pelago.Storage.Node.Shapes

open bytes kv pelago_core pelago_core.encoding
open pelago_storage.index pelago_storage.term_index

namespace pelago_storage.node

/-- The record of the node and all index rows of its type: entries, postings and
counters. -/
def NodeRows (database ns entity_type node_id : String) (k : Bytes) : Prop :=
  IndexRow (Subspace.of_namespace database ns) entity_type k ∨
    ∃ id, NodeId.from_str node_id = some id ∧
      k = data_key (Subspace.of_namespace database ns).data entity_type id.to_bytes

theorem unique_key_eq (database ns entity_type property : String) (encoded : Bytes) :
    unique_key database ns entity_type property encoded =
      entryRow (.of_namespace database ns) entity_type property .unique encoded :=
  entry_base_eq ..

section Footprint

variable {self : NodeStore} {database ns entity_type node_id : String}

theorem touches_check_unique_constraint_in_txn {W : Bytes → Prop} (property : String) (value : Value)
    (id : Bytes) : (check_unique_constraint_in_txn database ns entity_type property value id).Touches
      (IndexRow (.of_namespace database ns) entity_type) W := by
  refine Tx.touches_bind (by simp) fun _ => Tx.touches_bind ?_ fun cell => ?_
  · rw [Tx.touches_get, unique_key_eq]
    exact indexRow_mem ..
  · cases cell with
    | none => simp
    | some =>
      dsimp only
      split <;> simp

theorem touches_cdc_flush {R W : Bytes → Prop} (clock : Clock) (operations : List CdcOperation) :
    (cdc_flush self database ns clock operations).Touches R W := by
  unfold cdc_flush
  split <;> simp

variable {schema : EntitySchema} {id : NodeId}

private theorem update_node_finishes {new_properties : Properties} {clock : Clock} {cell : Option Cell}
    {p : Proc StoredNode}
    (h : UpdateOutcome self database ns entity_type schema node_id id new_properties clock cell p) :
    p.Finishes (NodeRows database ns entity_type node_id) := by
  cases h with
  | fail => trivial
  | commit _ _ hplan =>
    refine ⟨?_, trivial⟩
    refine Tx.touches_bind ?_ fun _ => Tx.touches_bind ?_ fun _ => Tx.touches_bind (by simp) fun _ => ?_
    · apply Tx.touches_forEach
      rintro ⟨property, value⟩ _
      exact (touches_check_unique_constraint_in_txn ..).mono
        (fun _ h => .inl h) (fun _ h => h)
    · exact hplan.touches.mono (fun _ h => .inl h) (fun _ _ => trivial)
    · exact touches_cdc_flush ..

private theorem delete_node_finishes {clock : Clock} {cell : Option Cell} {p : Proc Bool}
    (h : DeleteOutcome self database ns entity_type schema node_id id clock cell p) :
    p.Finishes (NodeRows database ns entity_type node_id) := by
  cases h with
  | absent | fail => trivial
  | commit _ hplan =>
    refine ⟨?_, ?_⟩
    · refine Tx.touches_bind (by simp) fun _ => Tx.touches_bind (by simp) fun _ =>
        Tx.touches_bind ?_ fun _ => ?_
      · exact hplan.touches.mono (fun _ h => .inl h) (fun _ _ => trivial)
      · exact touches_cdc_flush ..
    · -- what follows the transaction writes edge rows and the guard only
      refine Proc.Confined.bind ((self.edge_store.confined ..).mono ?_) fun _ => ?_
      · rintro k hedge (hindex | ⟨id', _, rfl⟩)
        · exact edgeKey_not_indexRow hedge hindex
        · exact edgeKey_ne_data_key hedge _ rfl
      · refine ⟨(Tx.touches_clear _).mpr ?_, trivial⟩
        rintro (hindex | ⟨id', _, hkey⟩)
        · exact delete_guard_key_not_indexRow _ _ hindex
        · exact data_key_ne_delete_guard_key _ _ _ _ hkey.symm

theorem update_node_single (new_properties : Properties) (clock : Clock) :
    (update_node self database ns entity_type node_id new_properties clock).Single
      (NodeRows database ns entity_type node_id) := by
  refine update_node_cases _ _ _ _ _ _ _ (fun _ => trivial) fun _ id _ _ hid hnext => ?_
  exact ⟨.inr ⟨id, hid, rfl⟩, fun cell => update_node_finishes (hnext _)⟩

theorem delete_node_single (clock : Clock) : (delete_node self database ns entity_type node_id clock).Single
      (NodeRows database ns entity_type node_id) := by
  refine delete_node_cases _ _ _ _ _ _ (fun _ => trivial) fun _ id _ _ hid hnext => ?_
  exact ⟨.inr ⟨id, hid, rfl⟩, fun cell => delete_node_finishes (hnext _)⟩

end Footprint

open OrdMap Option Proc

/-- The writers of one node. -/
inductive NodeCall where
  | update (patch : Properties) (clock : Clock)
  | delete (clock : Clock)

def NodeCall.proc (self : NodeStore) (database ns entity_type node_id : String) :
    NodeCall → Proc (StoredNode ⊕ Bool)
  | .update patch clock => do
    let node ← update_node self database ns entity_type node_id patch clock
    pure (.inl node)
  | .delete clock => do
    let deleted ← delete_node self database ns entity_type node_id clock
    pure (.inr deleted)

/-- The database after a request that runs alone. -/
def runAlone {α : Type} (p : Proc α) (db : Db) : Db :=
  (p.run (fun w : kv.Proc.World Bytes Cell Unit => (⟨0, 0⟩, w)) ⟨db, ()⟩).2.db

/-- The rows of the node and of its type's index are those of one of the two
serial runs; both patches of two updates of different properties are there, and
a delete beside an update leaves no record. -/
structure SerialOutcome (store : NodeStore) (database ns entity_type node_id : String)
    (call₁ call₂ : NodeCall) (db₀ db : Db) : Prop where
  serial :
    Agree (NodeRows database ns entity_type node_id) db
      (runAlone (call₂.proc store database ns entity_type node_id)
        (runAlone (call₁.proc store database ns entity_type node_id) db₀)) ∨
    Agree (NodeRows database ns entity_type node_id) db
      (runAlone (call₁.proc store database ns entity_type node_id)
        (runAlone (call₂.proc store database ns entity_type node_id) db₀))
  patches : ∀ patch₁ clock₁ patch₂ clock₂, call₁ = .update patch₁ clock₁ → call₂ = .update patch₂ clock₂ →
    (∀ field, patch₁.get field = none ∨ patch₂.get field = none) →
    ∃ id d, NodeId.from_str node_id = some id ∧ recordOf database ns entity_type db id = some (.node d) ∧
      ∀ field v, patch₁.get field = some v ∨ patch₂.get field = some v →
        d.properties.get field = some (storedValue v)
  deleted : ∀ patch clock clock', call₁ = .update patch clock ∧ call₂ = .delete clock' ∨
      call₁ = .delete clock' ∧ call₂ = .update patch clock →
    ∀ id, NodeId.from_str node_id = some id → recordOf database ns entity_type db id = none

section Effects

variable {self : NodeStore} {database ns entity_type node_id : String} {db db' : Db}

/-- An update that takes effect finds a record and overlays the patch. -/
theorem update_node_effect {patch : Properties} {clock : Clock}
    (h : (update_node self database ns entity_type node_id patch clock).Effect db db') :
    ∃ id d, NodeId.from_str node_id = some id ∧ recordOf database ns entity_type db id = some (.node d) ∧
      recordOf database ns entity_type db' id =
        some (encode_cbor ⟨d.properties.overlay patch, d.locality, d.created_at, clock.now⟩) := by
  revert h
  refine update_node_cases _ _ _ _ _ _ _ (fun _ h => by cases h) fun _ id next _ hid hnext h => ?_
  cases h with
  | read h =>
    have houtcome := hnext (db.rows.get
      (data_key (Subspace.of_namespace database ns).data entity_type id.to_bytes))
    generalize next _ = p at h houtcome
    generalize hcell : db.rows.get _ = cell at houtcome
    cases houtcome with
    | fail => cases h
    | @commit d =>
      cases h with
      | commit hrun =>
        refine ⟨id, d, hid, hcell, ?_⟩
        simp only [update_txn, Tx.run_bind_eq_ok] at hrun
        obtain ⟨_, _, _, _, _, _, _, _, hset, hflush⟩ := hrun
        rw [Tx.run_set, Except.ok.injEq, Prod.mk.injEq] at hset
        rw [recordOf, cdc_flush_rows hflush, ← hset.2]
        exact get_set_self ..

/-- A delete that takes effect leaves no record. -/
theorem delete_node_effect {clock : Clock}
    (h : (delete_node self database ns entity_type node_id clock).Effect db db') :
    ∃ id, NodeId.from_str node_id = some id ∧ recordOf database ns entity_type db' id = none := by
  revert h
  refine delete_node_cases _ _ _ _ _ _ (fun _ h => by cases h) fun _ id next _ hid hnext h => ?_
  cases h with
  | read h =>
    have houtcome := hnext (db.rows.get
      (data_key (Subspace.of_namespace database ns).data entity_type id.to_bytes))
    generalize next _ = p at h houtcome
    generalize hcell : db.rows.get _ = cell at houtcome
    refine ⟨id, hid, ?_⟩
    cases houtcome with
    | fail => cases h
    | absent =>
      cases h
      exact hcell
    | @commit _ _ _ _ hplan =>
      cases h with
      | commit hrun =>
        simp only [delete_txn, Tx.run_bind_eq_ok] at hrun
        obtain ⟨_, _, hclear, _, _, hset, _, _, hchange, hflush⟩ := hrun
        rw [Tx.run_clear, Except.ok.injEq, Prod.mk.injEq] at hclear
        rw [Tx.run_set, Except.ok.injEq, Prod.mk.injEq] at hset
        rw [recordOf, cdc_flush_rows hflush, hplan.touches.get_eq hchange (data_key_not_indexRow _ _),
          ← hset.2, ← hclear.2]
        rw [get_set_of_ne _ _ (data_key_ne_delete_guard_key _ _ _ _)]
        exact get_clear_self ..

/-- Two updates of different properties, one after the other. -/
theorem update_node_effect_twice {patch₁ patch₂ : Properties} {clock₁ clock₂ : Clock} {mid : Db}
    (hdisjoint : ∀ field, patch₁.get field = none ∨ patch₂.get field = none)
    (h₁ : (update_node self database ns entity_type node_id patch₁ clock₁).Effect db mid)
    (h₂ : (update_node self database ns entity_type node_id patch₂ clock₂).Effect mid db') :
    ∃ id d, NodeId.from_str node_id = some id ∧ recordOf database ns entity_type db' id = some (.node d) ∧
      ∀ field v, patch₁.get field = some v ∨ patch₂.get field = some v →
        d.properties.get field = some (storedValue v) := by
  obtain ⟨id, d, hid, _, hmid⟩ := update_node_effect h₁
  obtain ⟨id', d', hid', hmid', hfinal⟩ := update_node_effect h₂
  obtain rfl : id' = id := by
    rw [hid, some.injEq] at hid'
    exact hid'.symm
  rw [hmid, some.injEq, encode_cbor, Cell.node.injEq] at hmid'
  subst hmid'
  refine ⟨id', _, hid, hfinal, ?_⟩
  intro field v hpatch
  simp only [NodeData.stored, storedProperties, get_mapVal, Properties.get_overlay]
  obtain hpatch | hpatch := hpatch
  · have hnone : patch₂.get field = none := by
      obtain hnone | hnone := hdisjoint _
      · rw [hpatch] at hnone
        cases hnone
      · exact hnone
    simp [hpatch, hnone, storedValue_idem]
  · simp [hpatch]

end Effects

theorem NodeCall.single (self : NodeStore) (database ns entity_type node_id : String) (call : NodeCall) :
    (call.proc self database ns entity_type node_id).Single (NodeRows database ns entity_type node_id) := by
  cases call with
  | update patch clock => exact (update_node_single ..).map _
  | delete clock => exact (delete_node_single _).map _

private theorem order_of_both {order : List Bool} (hnodup : order.Nodup) (htrue : true ∈ order)
    (hfalse : false ∈ order) : order = [true, false] ∨ order = [false, true] := by
  have hperm : order.Perm [true, false] := by
    refine (List.perm_ext_iff_of_nodup hnodup (by decide)).mpr ?_
    intro b
    cases b <;> simp [htrue, hfalse]
  have hlength := hperm.length_eq
  match order, hlength, hnodup with
  | [a, b], _, hnodup => cases a <;> cases b <;> simp_all

section Outcome

variable {self : NodeStore} {database ns entity_type node_id : String} {call₁ call₂ : NodeCall}
  {db₀ mid db : Db}

/-- Two calls that take effect one after the other have a serial outcome. -/
private theorem serialOutcome_of_effects (h₁ : (call₁.proc self database ns entity_type node_id).Effect db₀ mid)
    (h₂ : (call₂.proc self database ns entity_type node_id).Effect mid db) :
    SerialOutcome self database ns entity_type node_id call₁ call₂ db₀ db := by
  refine ⟨.inl ?_, ?_, ?_⟩
  · exact Single.run_agree_twice (call₁.single ..) (call₂.single ..) h₁ h₂
      (fun _ _ _ => rfl) () ()
  · rintro _ _ _ _ rfl rfl hdisjoint
    exact update_node_effect_twice hdisjoint h₁.of_map h₂.of_map
  · rintro _ _ _ (⟨rfl, rfl⟩ | ⟨rfl, rfl⟩) _ hid
    · obtain ⟨id', hid', hnone⟩ := delete_node_effect h₂.of_map
      rw [hid, some.injEq] at hid'
      rw [hid', hnone]
    · obtain ⟨id', hid', hnone⟩ := delete_node_effect h₁.of_map
      obtain ⟨id'', d, hid'', hsome, _⟩ := update_node_effect h₂.of_map
      rw [hid', some.injEq] at hid''
      rw [← hid'', hnone] at hsome
      cases hsome

section

variable (h : SerialOutcome self database ns entity_type node_id call₁ call₂ db₀ db)
include h

/-- The outcome depends on the rows of the node only. -/
private theorem SerialOutcome.congr {db' : Db} (hagree : Agree (NodeRows database ns entity_type node_id) db db') :
    SerialOutcome self database ns entity_type node_id call₁ call₂ db₀ db' := by
  have hrecord : ∀ id, NodeId.from_str node_id = some id →
      recordOf database ns entity_type db' id = recordOf database ns entity_type db id := fun id hid =>
    (hagree _ (.inr ⟨id, hid, rfl⟩)).symm
  have hback : Agree (NodeRows database ns entity_type node_id) db' db := fun k hk => (hagree k hk).symm
  refine ⟨h.serial.imp hback.trans hback.trans, ?_, ?_⟩
  · intro _ _ _ _ hcall₁ hcall₂ hdisjoint
    obtain ⟨id, d, hid, hget, hpatches⟩ := h.patches _ _ _ _ hcall₁ hcall₂ hdisjoint
    exact ⟨id, d, hid, (hrecord id hid).trans hget, hpatches⟩
  · intro _ _ _ hcalls id hid
    exact (hrecord id hid).trans (h.deleted _ _ _ hcalls id hid)

private theorem SerialOutcome.swap : SerialOutcome self database ns entity_type node_id call₂ call₁ db₀ db := by
  refine ⟨h.serial.symm, ?_, ?_⟩
  · intro _ _ _ _ hcall₂ hcall₁ hdisjoint
    obtain ⟨id, d, hid, hget, hpatches⟩ := h.patches _ _ _ _ hcall₁ hcall₂
      fun _ => (hdisjoint _).symm
    exact ⟨id, d, hid, hget, fun _ v hpatch => hpatches _ v hpatch.symm⟩
  · intro patch clock clock' hcalls
    refine h.deleted patch clock clock' ?_
    obtain hcalls | hcalls := hcalls
    · exact .inr ⟨hcalls.2, hcalls.1⟩
    · exact .inl ⟨hcalls.2, hcalls.1⟩

end

end Outcome

/-- The state in which two calls begin. -/
def startTwo (self : NodeStore) (database ns entity_type node_id : String) (call₁ call₂ : NodeCall)
    (db₀ : Db) : Pool Bytes Cell NodeId PelagoError (StoredNode ⊕ Bool) Bool :=
  ⟨db₀, fun j => Thread.start ((bif j then call₁ else call₂).proc self database ns entity_type node_id)⟩

/-- Two concurrent writers of one node are serializable when each commits only
while the record it read is still current. -/
theorem writers_serializable_of_current (self : NodeStore) (database ns entity_type node_id : String)
    (call₁ call₂ : NodeCall) (db₀ : Db) (c : Pool Bytes Cell NodeId PelagoError (StoredNode ⊕ Bool) Bool)
    (hreach : Reach Current (startTwo self database ns entity_type node_id call₁ call₂ db₀) c)
    (r₁ r₂ : StoredNode ⊕ Bool) (h₁ : (c.threads true).proc = .done (.ok r₁))
    (h₂ : (c.threads false).proc = .done (.ok r₂)) :
    SerialOutcome self database ns entity_type node_id call₁ call₂ db₀ c.db := by
  obtain ⟨order, s, hnodup, hrun, hagree, hfinished⟩ := Reach.serializable
    (fun j => NodeCall.single self database ns entity_type node_id (bif j then call₁ else call₂)) hreach
  obtain rfl | rfl := order_of_both hnodup (hfinished true r₁ h₁) (hfinished _ r₂ h₂)
  · obtain ⟨mid, hfirst, hsecond⟩ := hrun.pair
    exact (serialOutcome_of_effects hfirst hsecond).congr hagree
  · obtain ⟨mid, hfirst, hsecond⟩ := hrun.pair
    exact (serialOutcome_of_effects hfirst hsecond).swap.congr hagree

/-- Two requests, each with its read before the other's write. -/
def crossed : List (Bool × NodeId) :=
  [(true, ⟨0, 0⟩), (false, ⟨0, 0⟩), (true, ⟨0, 0⟩), (false, ⟨0, 0⟩)]

/-- A site whose types have no declared properties. -/
def openStore : NodeStore where
  get_schema _ _ _ := some ⟨"T", OrdMap.empty, {}, .empty⟩
  site_id := "0"
  edge_store := .none

/-- A database with one node that has no properties. -/
def oneNode : Db :=
  runAlone (create_node openStore "db" "ns" "T" OrdMap.empty ⟨0, 0⟩) ⟨OrdMap.empty, fun _ => []⟩

/-- The node's record is read by both updates before either commits, and the
second commit drops the first patch. -/
theorem update_lost_between_read_and_commit :
    let call₁ := NodeCall.update (OrdMap.ofList [("a", .int 1)]) ⟨1, 1⟩
    let call₂ := NodeCall.update (OrdMap.ofList [("b", .int 2)]) ⟨2, 2⟩
    ∃ c, Reach (fun _ _ => True) (startTwo openStore "db" "ns" "T" "0_0" call₁ call₂ oneNode) c ∧
      (∃ r₁, (c.threads true).proc = .done (.ok r₁)) ∧ (∃ r₂, (c.threads false).proc = .done (.ok r₂)) ∧
      ¬ SerialOutcome openStore "db" "ns" "T" "0_0" call₁ call₂ oneNode c.db := by
  refine ⟨_, Pool.reach_schedule _ crossed, eq_done_of_succeeded (by decide +kernel),
    eq_done_of_succeeded (by decide +kernel), ?_⟩
  intro houtcome
  have hid : NodeId.from_str "0_0" = some ⟨0, 0⟩ := by decide +kernel
  obtain hagree | hagree := houtcome.serial
  · exact absurd (hagree _ (.inr ⟨⟨0, 0⟩, hid, rfl⟩)) (by decide +kernel)
  · exact absurd (hagree _ (.inr ⟨⟨0, 0⟩, hid, rfl⟩)) (by decide +kernel)

/-- The same two updates, one after the other. -/
theorem updates_serializable_in_turn :
    let call₁ := NodeCall.update (OrdMap.ofList [("a", .int 1)]) ⟨1, 1⟩
    let call₂ := NodeCall.update (OrdMap.ofList [("b", .int 2)]) ⟨2, 2⟩
    let turns := [(true, ⟨0, 0⟩), (true, ⟨0, 0⟩), (false, ⟨0, 0⟩), (false, ⟨0, 0⟩)]
    SerialOutcome openStore "db" "ns" "T" "0_0" call₁ call₂ oneNode
      ((startTwo openStore "db" "ns" "T" "0_0" call₁ call₂ oneNode).schedule turns).db := by
  intro call₁ call₂ turns
  have hreach : Reach Current (startTwo openStore "db" "ns" "T" "0_0" call₁ call₂ oneNode)
      ((startTwo openStore "db" "ns" "T" "0_0" call₁ call₂ oneNode).schedule turns) :=
    Pool.reach_currentSchedule (by decide +kernel)
  obtain ⟨r₁, h₁⟩ := eq_done_of_succeeded (show (((startTwo openStore "db" "ns" "T" "0_0" call₁ call₂
    oneNode).schedule turns).threads true).proc.succeeded = true by decide +kernel)
  obtain ⟨r₂, h₂⟩ := eq_done_of_succeeded (show (((startTwo openStore "db" "ns" "T" "0_0" call₁ call₂
    oneNode).schedule turns).threads false).proc.succeeded = true by decide +kernel)
  exact writers_serializable_of_current openStore "db" "ns" "T" "0_0" call₁ call₂ oneNode _ hreach r₁ r₂ h₁ h₂

end pelago_storage.node
