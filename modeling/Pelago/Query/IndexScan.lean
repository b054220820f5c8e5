import Pelago.Storage.Node.FloatRows

open bytes kv pelago_core pelago_core.encoding pelago_storage
open pelago_storage.index pelago_storage.node

namespace pelago_query.executor

open Proc List NodeId

/-- A value in a predicate. -/
inductive PredicateValue where
  | String (s : String)
  | Int (n : Int64)
  | Float (f : F64)
  | Bool (b : Bool)
  | Timestamp (t : Int64)

structure RangeBound where
  value : PredicateValue
  inclusive : Bool

/-- Index predicate for scans. -/
inductive IndexPredicate where
  | Equals (value : PredicateValue)
  | Range (lower upper : Option RangeBound)
  | In (values : List PredicateValue)

def PredicateValue.pelago_value : PredicateValue → Value
  | .String s => .string s
  | .Int n => .int n
  | .Float f => .float f
  | .Bool b => .bool b
  | .Timestamp t => .timestamp t

def encode_predicate_value (value : PredicateValue) : Except PelagoError Bytes :=
  encode_value_for_index value.pelago_value

def make_exclusive_start (key : Bytes) : Bytes := key ++ [0x00]

/-- The node ID is the last 9 bytes of the key. -/
def extract_node_id_from_index_key (key : Bytes) : Except PelagoError Bytes :=
  if key.length < 9 then .error (.Internal "Index key too short") else .ok (key.drop (key.length - 9))

def parse_node_cursor (cursor : Bytes) : Except PelagoError Bytes :=
  if cursor.length = 9 then .ok cursor
  else
    match (String.fromUTF8? ⟨cursor.toArray⟩).map NodeId.from_str with
    | none => .error (.InvalidValue "cursor" "cursor must be a 9-byte node id or node id string")
    | some none => .error (.InvalidValue "cursor" "cursor is not a valid node id")
    | some (some id) => .ok id.to_bytes

/-- The node id of an index row: its value in a unique index, else the end of its key. -/
def row_node_id (index_type : IndexType) (row : Bytes × Cell) : Except PelagoError Bytes :=
  match index_type, row.2 with
  | .unique, .raw value => .ok value
  | .unique, _ => .ok []
  | _, _ => extract_node_id_from_index_key row.1

/-- A candidate node of a scan, and where to go on after it. -/
structure ScanCandidate where
  node : StoredNode
  cursor_key : Option Bytes

/-- The rows of one range. -/
def scan_rows (index_type : IndexType) (range_start range_end : Bytes) (cursor : Option Bytes) (limit : Nat) :
    Proc (List (Bytes × Bytes)) := do
  let index_results ← .scan ((cursor.map make_exclusive_start).getD range_start) range_end (max limit 1)
  .ofExcept (collect (fun row => (row_node_id index_type row).map fun node_id => some (row.1, node_id)) index_results)

/-- The rows of one value of an `In` predicate, merged by node id up to a cap. -/
def merge_rows (index_type : IndexType) (cursor_node_id : Option Bytes) (hard_cap : Nat) :
    List (Bytes × Cell) → OrdMap Bytes Bytes → Except PelagoError (OrdMap Bytes Bytes)
  | [], merged => .ok merged
  | row :: rest, merged => do
    let node_id ← row_node_id index_type row
    if node_id.length ≠ 9 ∨ cursor_node_id.any (node_id ≤ ·) then
      merge_rows index_type cursor_node_id hard_cap rest merged
    else
      let merged := merged.set node_id node_id
      if merged.rows.length ≥ hard_cap then .ok merged else merge_rows index_type cursor_node_id hard_cap rest merged

def scan_values (index_type : IndexType) (base : TupleBuilder) (cursor_node_id : Option Bytes)
    (hard_cap per_value_limit : Nat) : List PredicateValue → OrdMap Bytes Bytes → Proc (OrdMap Bytes Bytes)
  | [], merged => pure merged
  | value :: rest, merged => do
    let encoded_value ← .ofExcept (encode_predicate_value value)
    let key_start := (base.add_raw_bytes encoded_value).build
    let rows ← .scan key_start (key_start ++ [0xFF]) (max per_value_limit 1)
    let merged ← .ofExcept (merge_rows index_type cursor_node_id hard_cap rows merged)
    if merged.rows.length ≥ hard_cap then pure merged
    else scan_values index_type base cursor_node_id hard_cap per_value_limit rest merged

/-- The nodes that are there, in the order of the ids. -/
def fetch_scan_candidates_in_order (database ns entity_type : String) (keyed_node_ids : List (Bytes × String)) :
    Proc (List ScanCandidate) :=
  Proc.collect (fun (cursor_key, node_id) => do
    let row ← get_node database ns entity_type node_id
    pure (row.map fun node => ⟨node, some cursor_key⟩)) keyed_node_ids

/-- A bound of a range, with the byte that skips or includes the exact value. -/
def bound_key (base : TupleBuilder) (pad : Bool → Bool) (unbounded : Bytes) :
    Option RangeBound → Except PelagoError Bytes
  | some bound => (encode_predicate_value bound.value).map fun encoded =>
    (base.add_raw_bytes encoded).build ++ if pad bound.inclusive then [0xFF] else []
  | none => .ok unbounded

def execute_index_scan (database ns entity_type property : String) (index_type : IndexType) (predicate : IndexPredicate)
    (cursor : Option Bytes) (limit : Nat) : Proc (List ScanCandidate) := do
  if index_type = .none then .fail (.Internal "Cannot scan non-indexed property")
  let base := entry_base (Subspace.of_namespace database ns).index entity_type property (markerOf index_type)
  let keyed_node_ids ← match predicate with
    | .Equals value => do
      let encoded_value ← .ofExcept (encode_predicate_value value)
      let key_start := (base.add_raw_bytes encoded_value).build
      scan_rows index_type key_start (key_start ++ [0xFF]) cursor limit
    | .Range lower upper => do
      let range_start ← .ofExcept (bound_key base (!·) base.build lower)
      let range_end ← .ofExcept (bound_key base id (base.build ++ [0xFF]) upper)
      scan_rows index_type range_start range_end cursor limit
    | .In values =>
      if values.isEmpty then pure []
      else do
        let cursor_node_id ← .ofExcept (match cursor with
          | some cursor => (parse_node_cursor cursor).map some
          | none => .ok none)
        let hard_cap := max (min (max limit 1 * 8) (2 ^ 64 - 1)) 512
        let per_value_limit := max (hard_cap / max values.length 1) (max limit 1)
        let merged ← scan_values index_type base cursor_node_id hard_cap per_value_limit values .empty
        pure (merged.rows.map fun row => (row.2, row.1))
  fetch_scan_candidates_in_order database ns entity_type (keyed_node_ids.filterMap fun (cursor_key, node_id) =>
    (NodeId.try_from_slice node_id).map fun id => (cursor_key, id.to_string))

/-- The bytes from a value on in a row of its index start with those of a value that is
asked for, and `FF` does not follow. -/
def Overlaps (kind : IndexType) (asked : Value) (id : NodeId) (value : Value) : Prop :=
  ∃ rest, entryTail kind (encodedValue value) id.to_bytes = encodedValue asked ++ rest ∧ rest.head? ≠ some 0xFF

section Scan

variable {dep : Deployment} {schema : EntitySchema} {q : String} {kind : IndexType} {id : NodeId} {value : Value}
  {w : ids.World}

theorem entry_start (asked rest : Bytes) :
    ((entry_base dep.subspace.index dep.entity_type q (markerOf kind)).add_raw_bytes asked).build ++ rest =
      entryRow dep.subspace dep.entity_type q kind (asked ++ rest) := by
  rw [entryRow, ← entry_base_eq]
  simp [TupleBuilder.add_raw_bytes, TupleBuilder.build]

theorem row_node_id_entry (hkind : kind ≠ .none) :
    row_node_id kind ((dep.entry id q kind value).key, (dep.entry id q kind value).cell) = .ok id.to_bytes := by
  have hlast (front : Bytes) : extract_node_id_from_index_key (front ++ id.to_bytes) = .ok id.to_bytes := by
    simp [extract_node_id_from_index_key]
  cases kind with
  | none => exact absurd rfl hkind
  | unique => rfl
  | equality | range => exact (congrArg extract_node_id_from_index_key (entry_start ..).symm).trans (hlast _)

/-- The scanned rows are those of the live nodes whose rows overlap the value. -/
theorem mem_scanned (hexact : EntriesExact dep schema w.db) (hkind : kind ≠ .none) {asked : Value} {start : Bytes}
    (hstart : start = ((entry_base dep.subspace.index dep.entity_type q (markerOf kind)).add_raw_bytes
      (encodedValue asked)).build) (row : Bytes × Cell) :
    row ∈ w.db.rows.range start (start ++ [0xFF]) ↔ ∃ id value, dep.Holds w.db schema id q kind value ∧
      Overlaps kind asked id value ∧ row = ((dep.entry id q kind value).key, (dep.entry id q kind value).cell) := by
  rw [entriesExact_iff] at hexact
  rw [OrdMap.mem_range, ← OrdMap.get_eq_some_iff_mem, and_comm, mem_range_iff]
  constructor
  · rintro ⟨⟨rest, hkey, hrest⟩, hget⟩
    rw [hstart, entry_start] at hkey
    obtain ⟨id, _, _, value, ⟨d, hd, hindexed⟩, hentry, hcell⟩ :=
      (hexact _ _ ⟨q, kind, _, hkind, hkey⟩).mp hget
    obtain ⟨rfl, rfl, htail⟩ := entryRow_inj hkind hindexed.indexed (hkey.symm.trans hentry)
    exact ⟨id, value, ⟨d, hd, hindexed⟩, ⟨rest, htail.symm, hrest⟩, Prod.ext hentry hcell⟩
  · rintro ⟨id, value, hholds, ⟨rest, htail, hrest⟩, rfl⟩
    refine ⟨⟨rest, ?_, hrest⟩, (hexact _ _ (entryRow_entryFor hkind _)).mpr ⟨id, q, kind, value, hholds, rfl, rfl⟩⟩
    rw [hstart, entry_start, ← htail]
    rfl

variable {supply : ids.World → NodeId × ids.World}

theorem run_collect_map {σ τ β : Type} {f : τ → Proc (Option β)} {k : σ → τ} {g : σ → β} {xs : List σ}
    (h : ∀ x ∈ xs, (f (k x)).run supply w = (.ok (some (g x)), w)) :
    (collect f (xs.map k)).run supply w = (.ok (xs.map g), w) := by
  induction xs with
  | nil => rfl
  | cons x _ ih =>
    rw [map_cons, Proc.collect, run_bind, h x mem_cons_self]
    dsimp only
    rw [run_bind, ih fun y hy => h y (mem_cons_of_mem _ hy)]
    rfl

theorem run_get_node {d : NodeData} (hd : dep.record w.db id = some (.node d)) :
    (get_node dep.database dep.ns dep.entity_type id.to_string).run supply w =
      (.ok (some ⟨id.to_string, dep.entity_type, d.properties, d.locality, d.created_at, d.updated_at⟩), w) := by
  simp only [get_node, parse_node_id, from_str_to_string, ofExcept_ok_bind, read_bind, run_readThen]
  rw [show w.db.rows.get _ = _ from hd]
  rfl

/-- The rows of the index of a property. -/
def indexRows (dep : Deployment) (q : String) (kind : IndexType) (db : Db) : List (Bytes × Cell) :=
  db.rows.rows.filter fun row =>
    (entry_base dep.subspace.index dep.entity_type q (markerOf kind)).build.isPrefixOf row.1

/-- A scan for a value yields the live nodes whose rows overlap it. -/
theorem scan_yields (hexact : EntriesExact dep schema w.db) (hkind : kind ≠ .none) (asked : PredicateValue)
    {limit : Nat} (hlimit : (indexRows dep q kind w.db).length < limit) (supply : ids.World → NodeId × ids.World) :
    ∃ candidates, ((execute_index_scan dep.database dep.ns dep.entity_type q kind (.Equals asked) none limit).run
        supply w).1 = .ok candidates ∧ ∀ id : NodeId, (∃ c ∈ candidates, c.node.id = id.to_string) ↔
          ∃ value, dep.Holds w.db schema id q kind value ∧ Overlaps kind asked.pelago_value id value := by
  have hencode : encode_predicate_value asked = .ok (encodedValue asked.pelago_value) :=
    encode_value_for_index_eq (by cases asked <;> rfl)
  generalize hstart : ((entry_base dep.subspace.index dep.entity_type q (markerOf kind)).add_raw_bytes
    (encodedValue asked.pelago_value)).build = start
  have hmem := mem_scanned hexact hkind hstart.symm
  have hrows : ∀ row ∈ w.db.rows.range start (start ++ [0xFF]), ∃ (id : NodeId) (d : NodeData),
      row_node_id kind row = .ok id.to_bytes ∧ dep.record w.db id = some (.node d) := by
    intro row hrow
    obtain ⟨id, _, ⟨d, hd, _⟩, _, rfl⟩ := (hmem _).mp hrow
    exact ⟨id, d, row_node_id_entry hkind, hd⟩
  have hall : (w.db.rows.range start (start ++ [0xFF])).length ≤ max limit 1 := by
    refine le_trans ?_ (hlimit.le.trans (le_max_left ..))
    rw [indexRows, OrdMap.range, ← countP_eq_length_filter, ← countP_eq_length_filter]
    refine countP_mono_left fun _ _ hrow => ?_
    obtain ⟨rest, hkey, _⟩ := mem_range_iff.mp (by simpa using hrow)
    rw [ isPrefixOf_iff_prefix, hkey, ← hstart, TupleBuilder.add_raw_bytes, TupleBuilder.build]
    exact ⟨_, (append_assoc ..).symm⟩
  have : Nonempty NodeId := ⟨⟨0, 0⟩⟩
  have : Nonempty NodeData := ⟨⟨.empty, 0, 0, 0⟩⟩
  choose! idOf dataOf hids using hrows
  generalize hrange : w.db.rows.range start (start ++ [0xFF]) = rows at *
  have hcollect : collect (fun row => (row_node_id kind row).map fun node_id => some (row.1, node_id)) rows =
      .ok (rows.map fun row => (row.1, (idOf row).to_bytes)) := by
    rw [collect_eq_filterMap, filterMap_eq_map']
    intro row hrow
    rw [(hids _ hrow).1]
    rfl
  have hrun : (execute_index_scan dep.database dep.ns dep.entity_type q kind (.Equals asked) none limit).run supply w =
      (.ok (rows.map fun row => ⟨⟨(idOf row).to_string, dep.entity_type, (dataOf row).properties,
        (dataOf row).locality, (dataOf row).created_at, (dataOf row).updated_at⟩, some row.1⟩), w) := by
    unfold execute_index_scan scan_rows fetch_scan_candidates_in_order
    simp only [hkind, if_false, hencode, ofExcept_ok_bind]
    rw [hstart]
    change run supply (ofExcept (collect _ ((w.db.rows.range start (start ++ [0xFF])).take _)) >>= _) w = _
    rw [hrange, take_of_length_le hall, hcollect, ofExcept_ok_bind, filterMap_map]
    simp only [Function.comp_def, try_from_slice_to_bytes, Option.map_some, filterMap_eq_map']
    refine run_collect_map fun row hrow => ?_
    rw [run_bind, run_get_node (hids _ hrow).2]
    rfl
  refine ⟨_, congrArg _ hrun, fun id => ?_⟩
  simp only [mem_map, exists_exists_and_eq_and]
  constructor
  · rintro ⟨row, hrow, hid⟩
    obtain ⟨id', value, hholds, hoverlaps, rfl⟩ := (hmem _).mp hrow
    have hid' := (hids _ hrow).1
    rw [row_node_id_entry hkind, Except.ok.injEq] at hid'
    rw [← to_bytes_inj hid'] at hid
    obtain rfl := to_string_inj hid
    exact ⟨value, hholds, hoverlaps⟩
  · rintro ⟨value, hholds, hoverlaps⟩
    have hrow := (hmem _).mpr ⟨id, value, hholds, hoverlaps, rfl⟩
    have hid := (hids _ hrow).1
    rw [row_node_id_entry hkind, Except.ok.injEq] at hid
    exact ⟨_, hrow, by rw [← to_bytes_inj hid]⟩

end Scan

/-- A scan for a value yields, among the nodes of sites other than 255, exactly the live
nodes with the bytes of the value, just when no row of another value overlaps it. -/
theorem equals_scan_exact_iff (dep : Deployment) (schema : EntitySchema) (q : String) (kind : IndexType)
    (asked : PredicateValue) (limit : Nat) (supply : ids.World → NodeId × ids.World) (w : ids.World)
    (hkind : kind ≠ .none) (hexact : EntriesExact dep schema w.db)
    (hlimit : (indexRows dep q kind w.db).length < limit) :
    (∃ candidates, ((execute_index_scan dep.database dep.ns dep.entity_type q kind (.Equals asked) none limit).run
        supply w).1 = .ok candidates ∧ ∀ id : NodeId, id.site ≠ 0xFF →
          ((∃ c ∈ candidates, c.node.id = id.to_string) ↔ ∃ value, dep.Holds w.db schema id q kind value ∧
            encodedValue value = encodedValue asked.pelago_value)) ↔
      ∀ id value, id.site ≠ 0xFF → dep.Holds w.db schema id q kind value →
        Overlaps kind asked.pelago_value id value → encodedValue value = encodedValue asked.pelago_value := by
  obtain ⟨candidates, hrun, hyields⟩ := scan_yields hexact hkind _ hlimit _
  constructor
  · rintro ⟨candidates', hrun', hmem⟩ id value hsite hholds hoverlaps
    obtain rfl := Except.ok.inj (hrun'.symm.trans hrun)
    obtain ⟨value', hholds', hencoded⟩ := (hmem id hsite).mp ((hyields id).mpr ⟨value, hholds, hoverlaps⟩)
    rwa [hholds.unique hholds']
  · intro h
    refine ⟨candidates, hrun, fun id hsite => (hyields id).trans ?_⟩
    refine exists_congr fun value => and_congr_right fun hholds => ⟨h id _ hsite hholds, fun hencoded => ?_⟩
    cases kind with
    | none => exact absurd rfl hkind
    | unique => exact ⟨[], by simp [entryTail, hencoded], by simp⟩
    | equality | range => exact ⟨id.to_bytes, by simp [entryTail, hencoded], by simpa [to_bytes] using hsite⟩

/-- Creating a person keeps the index of names exact. -/
private theorem created_exact {w : ids.World} (h : EntriesExact people personSchema w.db) (properties : Properties)
    (clock : Clock) (hfresh : people.record w.db (people.nextId w) = none) :
    EntriesExact people personSchema (people.step w (.create properties clock)).db := by
  have heffect : Agree people.typeRow w.db (people.step w (.create properties clock)).db ∨ _ :=
    local_effect rfl rfl fun _ => hfresh
  obtain hsame | ⟨id, old, _, hid, hbefore, hchange, _⟩ := heffect
  · exact h.congr hsame
  obtain rfl : people.nextId w = id := hid
  obtain rfl : old = none := by simpa using hbefore.symm.trans hfresh
  refine h.change hchange hbefore (fun _ _ _ _ hold => absurd hold.held (by simp [propsOf])) ?_
  intro _ _ _ hgiven _ d _ _ _ hne _ hindexed hkey
  obtain ⟨prop_def, hdef, hkind⟩ := hindexed.defined
  obtain ⟨_, rfl⟩ := person_property hdef
  obtain ⟨_, _, _, rfl | hid⟩ := entryFor_key_eq hindexed.indexed (hgiven.elim (·.indexed) (·.indexed)) hkey
  · cases hkind
  · exact hne hid

/-- People named `a` and `ab`. -/
def aAndAb : ids.World := people.runCalls [.create (named "a") ⟨1, 1⟩, .create (named "ab") ⟨2, 2⟩] noRows

private theorem aAndAb_exact : EntriesExact people personSchema aAndAb.db :=
  created_exact (created_exact (entriesExact_of_empty fun _ _ => rfl) _ _ rfl) _ _ (by decide +kernel)

/-- The scan for `a` yields the person named `ab` as well. -/
theorem longer_name_found : EntriesExact people personSchema aAndAb.db ∧
    (indexRows people "name" .equality aAndAb.db).length < 10 ∧
    ((execute_index_scan "db" "ns" "Person" "name" .equality (.Equals (.String "a")) none 10).run people.supply
      aAndAb).1.map (fun candidates => candidates.map fun c => (c.node.id, c.node.properties)) =
        .ok [("1_0", named "a"), ("1_1", named "ab")] :=
  ⟨aAndAb_exact, by decide +kernel, by decide +kernel⟩

/-- The rows tell that this scan cannot be exact. -/
theorem short_name_scan_inexact : ¬ ∃ candidates, ((execute_index_scan people.database people.ns people.entity_type
      "name" .equality (.Equals (.String "a")) none 10).run people.supply aAndAb).1 = .ok candidates ∧
    ∀ id : NodeId, id.site ≠ 0xFF → ((∃ c ∈ candidates, c.node.id = id.to_string) ↔
      ∃ value, people.Holds aAndAb.db personSchema id "name" .equality value ∧
        encodedValue value = encodedValue (PredicateValue.String "a").pelago_value) := by
  rw [equals_scan_exact_iff people personSchema "name" .equality (.String "a") 10 people.supply aAndAb (by decide)
    aAndAb_exact (by decide +kernel)]
  intro h
  have hrecord : people.record aAndAb.db ⟨1, 1⟩ = some (.node ⟨named "ab", 1, 2, 2⟩) := by decide +kernel
  have hbytes := h ⟨1, 1⟩ (.string "ab") (by decide) ⟨_, hrecord, ⟨_, rfl, rfl⟩, by decide, rfl, rfl⟩
    ⟨0x62 :: to_bytes ⟨1, 1⟩, by decide +kernel, by decide⟩
  exact absurd hbytes (by decide +kernel)

end pelago_query.executor
