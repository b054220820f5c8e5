import Pelago.Api.WatchService.Restored
import Pelago.Storage.IndexBackfill

open bytes kv pelago_core pelago_storage
open pelago_storage.job_executor (dataRows NodeRows recordRow mem_dataRows drop_recordRow)
open pelago_storage.node (data_key heldProperties)
open List
open pelago_storage.Subspace (of_namespace)

namespace pelago_api.watch_service

open Function NodeId
open Prod (fst snd)

section Scan

/-- The rows of a namespace hold the live nodes, and the scans of its types
meet nothing else. -/
structure Holds (ctx : WatchContext) (rows : OrdMap Bytes Cell) (live : Live) : Prop where
  nodes : ∀ entity_type, NodeRows (Subspace.of_namespace ctx.database ctx.ns) entity_type
    (dataRows (Subspace.of_namespace ctx.database ctx.ns) entity_type rows)
  live : ∀ x : NodeName, heldProperties (rows.get
    (data_key (Subspace.of_namespace ctx.database ctx.ns).data x.entity_type x.id.to_bytes)) = live x

variable {rows : OrdMap Bytes Cell} {ctx : WatchContext} {entity_type : String} {live : Live}

/-- How many rows the scan of a type meets. -/
def scanSize (rows : OrdMap Bytes Cell) (ctx : WatchContext) (entity_type : String) : Nat :=
  (dataRows (Subspace.of_namespace ctx.database ctx.ns) entity_type rows).length

/-- A node as the snapshot finds it. -/
def snapshotNode (entity_type : String) (record : NodeId × NodeData) : SnapshotNode :=
  ⟨entity_type, record.1.to_string, record.2⟩

/-- What the scan of a type finds. -/
structure Found (rows : OrdMap Bytes Cell) (ctx : WatchContext) (entity_type : String)
    (found : List (NodeId × NodeData)) : Prop where
  size : found.length = scanSize rows ctx entity_type
  nodup : (found.map fst).Nodup
  mem : ∀ id d, (id, d) ∈ found ↔
    rows.get (data_key (Subspace.of_namespace ctx.database ctx.ns).data entity_type id.to_bytes) = some (.node d) ∧
      id.site ≠ 0xFF
  scan : ∀ limit, scan_entity_snapshots rows ctx entity_type limit =
    (found.take (max limit 1)).map (snapshotNode entity_type)

private theorem records_of_nodeRows {subspace : Subspace} {todo : List (Bytes × Cell)}
    (h : NodeRows subspace entity_type todo) :
    ∃ found : List (NodeId × NodeData), todo = found.map fun p => recordRow subspace entity_type p.1 p.2 := by
  induction todo with
  | nil => exact ⟨[], rfl⟩
  | cons row _ ih =>
    obtain ⟨id, d, rfl⟩ := h _ mem_cons_self
    obtain ⟨found, rfl⟩ := ih fun row hrow => h _ (mem_cons_of_mem _ hrow)
    exact ⟨(id, d) :: found, rfl⟩

theorem exists_found (hnodes : NodeRows (of_namespace ctx.database ctx.ns) entity_type
    (dataRows (of_namespace ctx.database ctx.ns) entity_type rows)) :
    ∃ found, Found rows ctx entity_type found := by
  obtain ⟨found, hfound⟩ := records_of_nodeRows hnodes
  have hsorted := rows.range_sorted (type_prefix_bytes ctx entity_type) (type_prefix_bytes ctx entity_type ++ [0xFF])
  change (dataRows (of_namespace ctx.database ctx.ns) entity_type rows).Pairwise _ at hsorted
  rw [hfound, pairwise_map] at hsorted
  refine ⟨found, by rw [scanSize, hfound, length_map], ?_, fun id d => ?_, fun _ => ?_⟩
  · refine pairwise_map.mpr (hsorted.imp fun {a b} hlt heq => ?_)
    rw [recordRow, heq] at hlt
    exact lt_irrefl _ hlt
  · rw [← mem_dataRows, hfound]
    constructor
    · exact fun hmem => mem_map.mpr ⟨(id, d), hmem, rfl⟩
    · intro hmem
      obtain ⟨⟨id', d'⟩, hmem, heq⟩ := mem_map.mp hmem
      obtain ⟨hkey, hcell⟩ := Prod.mk.inj heq
      have hid : id' = id := (record_key_inj hkey).2
      cases hcell
      rwa [← hid]
  · have hrows : rows.range (type_prefix_bytes ctx entity_type) (type_prefix_bytes ctx entity_type ++ [0xFF]) =
        found.map fun p => recordRow (of_namespace ctx.database ctx.ns) entity_type p.1 p.2 := hfound
    rw [scan_entity_snapshots, hrows, ← map_take, filterMap_map]
    refine (filterMap_congr fun p _ => ?_).trans (congrFun filterMap_eq_map _)
    have hlength : ¬ (recordRow (of_namespace ctx.database ctx.ns) entity_type p.1 p.2).1.length < 9 := by
      rw [recordRow, data_key_append]
      simp [to_bytes]
    simp only [comp_apply, if_neg hlength]
    rw [drop_recordRow, try_from_slice_to_bytes]
    rfl

/-- With room for all rows, every wanted node is found. -/
theorem scan_types_eq {found : String → List (NodeId × NodeData)} (hfound : ∀ T, Found rows ctx T (found T))
    (wanted : SnapshotNode → Bool) (types : List String) {remaining : Nat}
    (hroom : (types.map (scanSize rows ctx)).sum ≤ remaining) : scan_types rows ctx wanted types remaining =
      types.flatMap fun T => ((found T).map (snapshotNode T)).filter wanted := by
  induction types generalizing remaining with
  | nil => rfl
  | cons T types ih =>
    rw [map_cons, sum_cons, ← (hfound T).size] at hroom
    simp only [scan_types, flatMap_cons]
    split
    · -- nothing is left to be sent, and nothing to be found
      have hempty : found T = [] := length_eq_zero_iff.mp (by omega)
      have hrest := ih (show (types.map (scanSize rows ctx)).sum ≤ 0 by omega)
      rw [hempty, ← hrest]
      cases types <;> simp [scan_types]
    · rw [(hfound T).scan, take_of_length_le (by omega), ih]
      have hle := length_filter_le wanted ((found T).map (snapshotNode T))
      rw [length_map] at hle
      omega

/-- The name under which a snapshot tells of a node. -/
def SnapshotNode.name (s : SnapshotNode) : String × String := (s.entity_type, s.node_id)

theorem snapshot_names_nodup {found : String → List (NodeId × NodeData)} (hfound : ∀ T, Found rows ctx T (found T))
    (wanted : SnapshotNode → Bool) {types : List String} (htypes : types.Nodup) :
    ((types.flatMap fun T => ((found T).map (snapshotNode T)).filter wanted).map SnapshotNode.name).Nodup := by
  have hone : ∀ T, (((found T).map (snapshotNode T)).filter wanted).Pairwise fun a b => a.name ≠ b.name := by
    intro T
    refine .filter _ (pairwise_map.mpr ?_)
    refine (pairwise_map.mp (hfound T).nodup).imp fun {a b} hne heq => hne ?_
    exact to_string_inj (Prod.mk.inj heq).2
  refine pairwise_map.mpr (pairwise_flatMap.mpr ⟨fun T _ => hone T, ?_⟩)
  refine htypes.imp fun {T T'} hne a ha b hb heq => hne ?_
  obtain ⟨p, -, rfl⟩ := mem_map.mp (mem_filter.mp ha).1
  obtain ⟨p', -, rfl⟩ := mem_map.mp (mem_filter.mp hb).1
  exact (Prod.mk.inj heq).1

end Scan

section Snapshot

variable {rows : OrdMap Bytes Cell} {ctx : WatchContext} {registry : Registry} {query_filter : QueryFilter}
  {live : Live}

theorem snapshot_types_nodup (registry : Registry) (query_filter : QueryFilter) :
    (snapshot_types registry query_filter).Nodup := by
  unfold snapshot_types
  split
  · exact nodup_singleton _
  · split
    · exact nodup_singleton _
    · exact pairwise_map.mpr (registry.schemas.sorted.imp fun hlt => hlt.ne)

/-- The nodes of the snapshot of a query. -/
def snapshotNodes (rows : OrdMap Bytes Cell) (ctx : WatchContext) (registry : Registry) (query_filter : QueryFilter) :
    List SnapshotNode :=
  scan_types rows ctx (snapshot_matches registry query_filter) (snapshot_types registry query_filter)
    (max ctx.initial_snapshot_limit 1)

/-- Every node that matches is of a type that the snapshot scans, and not of the
last site, which scans do not see; and there is room for all rows of these types. -/
structure Scannable (rows : OrdMap Bytes Cell) (ctx : WatchContext) (registry : Registry) (query_filter : QueryFilter)
    (live : Live) : Prop where
  types : ∀ x, matching registry query_filter live x = true →
    x.entity_type ∈ snapshot_types registry query_filter ∧ x.id.site ≠ 0xFF
  room : ((snapshot_types registry query_filter).map (scanSize rows ctx)).sum ≤ max ctx.initial_snapshot_limit 1

theorem mem_snapshotNodes (hholds : Holds ctx rows live) (hscan : Scannable rows ctx registry query_filter live)
    {s : SnapshotNode} : s ∈ snapshotNodes rows ctx registry query_filter ↔
      ∃ (x : NodeName) (d : NodeData), live x = some d.properties ∧ matching registry query_filter live x = true ∧
        rows.get (data_key (of_namespace ctx.database ctx.ns).data x.entity_type x.id.to_bytes) =
          some (.node d) ∧ s = snapshotNode x.entity_type (x.id, d) := by
  choose found hfound using fun T => exists_found (hholds.nodes T)
  rw [snapshotNodes, scan_types_eq hfound _ _ hscan.room, mem_flatMap]
  constructor
  · rintro ⟨T, _, hs⟩
    obtain ⟨hs, hwanted⟩ := mem_filter.mp hs
    obtain ⟨⟨id, d⟩, hmem, rfl⟩ := mem_map.mp hs
    have hget := ((hfound T).mem id d).mp hmem
    have hlive : live ⟨T, id⟩ = some d.properties := by rw [← hholds.live, hget.1]; rfl
    refine ⟨⟨T, id⟩, d, hlive, ?_, hget.1, rfl⟩
    rw [matching, hlive]
    exact hwanted
  · rintro ⟨x, d, hlive, hmatching, hget, rfl⟩
    obtain ⟨htype, hsite⟩ := hscan.types x hmatching
    refine ⟨x.entity_type, htype, mem_filter.mpr ⟨?_, ?_⟩⟩
    · exact mem_map_of_mem (((hfound _).mem x.id d).mpr ⟨hget, hsite⟩)
    · rw [matching, hlive] at hmatching
      exact hmatching

theorem snapshotNodes_nodup (hholds : Holds ctx rows live) (hscan : Scannable rows ctx registry query_filter live) :
    ((snapshotNodes rows ctx registry query_filter).map SnapshotNode.name).Nodup := by
  choose found hfound using fun T => exists_found (hholds.nodes T)
  rw [snapshotNodes, scan_types_eq hfound _ _ hscan.room]
  exact snapshot_names_nodup hfound _ (snapshot_types_nodup ..)

theorem exists_of_matching {x : NodeName} (h : matching registry query_filter live x = true) :
    ∃ properties, live x = some properties := by
  cases hlive : live x with
  | none => simp [matching, hlive] at h
  | some properties => exact ⟨properties, rfl⟩

/-- A live node has a record. -/
theorem Holds.record (h : Holds ctx rows live) {x : NodeName} {properties : Properties}
    (hlive : live x = some properties) : ∃ d : NodeData, d.properties = properties ∧
      rows.get (data_key (of_namespace ctx.database ctx.ns).data x.entity_type x.id.to_bytes) = some (.node d) := by
  have hheld := h.live x
  rw [hlive] at hheld
  unfold heldProperties at hheld
  split at hheld
  · exact ⟨_, Option.some.inj hheld, ‹_›⟩
  · cases hheld

/-- The events of the snapshot of a query. -/
def enters (ctx : WatchContext) (nodes : List SnapshotNode) : List WatchEvent :=
  nodes.map fun snapshot => snapshot_event ctx snapshot snapshot.data.properties

theorem kinds_enters (ctx : WatchContext) (nodes : List SnapshotNode) (x : NodeName) : kinds x (enters ctx nodes) =
      replicate ((nodes.map SnapshotNode.name).count (x.entity_type, x.id.to_string)) .Enter := by
  induction nodes with
  | nil => rfl
  | cons s _ ih =>
    have habout : about x (snapshot_event ctx s s.data.properties) = (s.name == (x.entity_type, x.id.to_string)) := by
      rw [Bool.eq_iff_iff]
      simp [about, snapshot_event, SnapshotNode.name]
    rw [map_cons, count_cons, ← habout]
    unfold kinds enters at ih ⊢
    rw [map_cons, filter_cons]
    split
    · rw [map_cons, ih]
      rfl
    · exact ih

/-- The snapshot enters each node in the result of the query once. -/
theorem kinds_snapshot (hholds : Holds ctx rows live) (hscan : Scannable rows ctx registry query_filter live)
    (x : NodeName) : kinds x (enters ctx (snapshotNodes rows ctx registry query_filter)) =
      if matching registry query_filter live x then [.Enter] else [] := by
  rw [kinds_enters]
  split
  · rename_i hmatching
    obtain ⟨properties, hlive⟩ := exists_of_matching hmatching
    obtain ⟨d, rfl, hget⟩ := hholds.record hlive
    have hmem := (mem_snapshotNodes hholds hscan).mpr ⟨x, d, hlive, hmatching, hget, rfl⟩
    have hname : (x.entity_type, x.id.to_string) ∈
        (snapshotNodes rows ctx registry query_filter).map SnapshotNode.name := mem_map.mpr ⟨_, hmem, rfl⟩
    rw [count_eq_one_of_mem (snapshotNodes_nodup hholds hscan) hname]
    rfl
  · rename_i hmatching
    rw [count_eq_zero_of_not_mem]
    · rfl
    · intro hmem
      obtain ⟨s, hs, hname⟩ := mem_map.mp hmem
      obtain ⟨y, d, -, hy, -, rfl⟩ := (mem_snapshotNodes hholds hscan).mp hs
      obtain ⟨htype, hid⟩ := Prod.mk.inj hname
      have hxy : y = x := nodeKey_inj (by exact congrArg₂ _ htype hid)
      exact hmatching (hxy ▸ hy)

end Snapshot

section Words

/-- In the word of a node's stays, each `Enter` but the first comes right after
the end of a stay. -/
theorem word_before_enter {stays : List Stay} {unfinished : Option Nat} {before after : List WatchEventType}
    (h : word stays unfinished = before ++ .Enter :: after) :
    before = [] ∨ ∃ front last, before = front ++ [last] ∧ (last = .Exit ∨ last = .Delete) := by
  -- within a stay there is one `Enter`, the first
  have honce : ∀ (rest before after : List WatchEventType), .Enter ∉ rest →
      .Enter :: rest = before ++ .Enter :: after → before = [] := by
    intro _ before after hrest heq
    cases before with
    | nil => rfl
    | cons _ before =>
      obtain ⟨-, htail⟩ := cons.inj heq
      exact absurd (htail ▸ (by simp : .Enter ∈ before ++ .Enter :: after)) hrest
  induction stays generalizing before with
  | nil =>
    cases unfinished with
    | none => simp [word] at h
    | some updates =>
      have hnone : WatchEventType.Enter ∉ replicate updates .Update := by simp [mem_replicate]
      exact .inl (honce _ _ _ hnone (by simpa [word] using h))
  | cons stay stays ih =>
    have hword : word (stay :: stays) unfinished = stay.word ++ word stays unfinished := by simp [word]
    have hlast : ∃ front last, stay.word = front ++ [last] ∧ (last = .Exit ∨ last = .Delete) :=
      ⟨.Enter :: replicate stay.updates .Update, stay.last, by simp [Stay.word], stay.ended⟩
    have hnone : .Enter ∉ replicate stay.updates .Update ++ [stay.last] := by
      rcases stay.ended with hended | hended <;> simp [hended, mem_replicate]
    rw [hword, append_eq_append_iff] at h
    rcases h with ⟨_, rfl, hrest⟩ | ⟨middle, hstay, hrest⟩
    · -- the `Enter` is in a later stay
      rcases ih hrest with rfl | ⟨front, last, rfl, hkind⟩
      · exact .inr (by simpa using hlast)
      · exact .inr ⟨stay.word ++ front, last, by simp, hkind⟩
    · cases middle with
      | nil => exact .inr (by simpa [hstay] using hlast)
      | cons =>
        obtain ⟨rfl, -⟩ := cons.inj hrest
        exact .inl (honce _ _ _ hnone hstay)

/-- No second `Enter` without an `Exit` or `Delete` in between. -/
def Separated (told : List WatchEventType) : Prop :=
  ∀ before between after, told = before ++ .Enter :: (between ++ .Enter :: after) →
    .Exit ∈ between ∨ .Delete ∈ between

theorem separated_of_isPrefix_word {told : List WatchEventType} {stays : List Stay} {unfinished : Option Nat}
    (h : told <+: word stays unfinished) : Separated told := by
  rintro before between after rfl
  obtain ⟨rest, hword⟩ := h
  have hsplit : word stays unfinished = (before ++ .Enter :: between) ++ .Enter :: (after ++ rest) := by
    rw [← hword]
    simp
  rcases word_before_enter hsplit with hnil | ⟨front, last, hfront, hlast⟩
  · simp at hnil
  · rcases eq_nil_or_concat between with rfl | ⟨between, kind, rfl⟩
    · obtain ⟨-, hkind⟩ := append_inj' hfront rfl
      obtain rfl : .Enter = last := by simpa using hkind
      rcases hlast with hlast | hlast <;> cases hlast
    · have hfront' : (before ++ .Enter :: between) ++ [kind] = front ++ [last] := by simpa using hfront
      obtain ⟨-, hkind⟩ := append_inj' hfront' rfl
      obtain rfl : kind = last := by simpa using hkind
      rcases hlast with rfl | rfl
      · exact .inl (by simp)
      · exact .inr (by simp)

variable {registry : Registry} {query_filter : QueryFilter}

/-- From exact nodes on, a query watch tells the stays of each node, counting
the one it is in. -/
theorem Exact.words {before : List OperationDocument} {later : List (Versionstamp × OperationDocument)}
    {matched_nodes : Finset String} (hproduced : Produced (before ++ later.map snd))
    (hcanonical : ∀ x ∈ later, x.2.Canonical) (h : Exact registry query_filter (liveAfter before) matched_nodes)
    (sub_id : String) (x : NodeName) : ∃ stays unfinished,
      (if matching registry query_filter (liveAfter before) x then [.Enter] else []) ++
        kinds x (watch_operations sub_id registry (.Query query_filter) later matched_nodes).1 =
          word stays unfinished ∧
      unfinished.isSome = matching registry query_filter (liveAfter (before ++ later.map snd)) x := by
  induction later using reverseRecOn with
  | nil =>
    cases hmatching : matching registry query_filter (liveAfter before) x with
    | true => exact ⟨[], some 0, rfl, by simp [hmatching]⟩
    | false => exact ⟨[], none, rfl, by simp [hmatching]⟩
  | append_singleton later y ih =>
    obtain ⟨vs, op⟩ := y
    have hmap : before ++ (later ++ [(vs, op)]).map snd = (before ++ later.map snd) ++ [op] := by simp
    rw [hmap] at hproduced ⊢
    have hlater : ∀ x ∈ later, x.2.Canonical := fun x hx => hcanonical x (mem_append_left _ hx)
    obtain ⟨stays, _, hword, hwas⟩ := ih hproduced.last.1 hlater
    have hexact := h.later hproduced.last.1 hlater sub_id
    have hstep : StepTracks registry query_filter _ _
        (cdc_op_to_watch_events sub_id vs registry (.Query query_filter) op _) :=
      step_tracks hproduced.last.1 hproduced.last.2 (hcanonical (vs, op) (by simp)) hexact
    obtain ⟨stays', unfinished', hword', hnow⟩ := (hstep.2 x).word_append _ hwas
    refine ⟨stays', unfinished', ?_, hnow⟩
    rw [watch_operations_concat, kinds_append, ← append_assoc, hword]
    exact hword'

end Words

section Handover

variable {registry : Registry} {query_filter : QueryFilter} {s : Session} {live : Live}

theorem mem_track_enters {filter : WatchFilter} (hfilter : filter = .Query query_filter) (ctx : WatchContext)
    (nodes : List SnapshotNode) (matched_nodes : Finset String) (key : String) :
    key ∈ (enters ctx nodes).foldl (fun matched event => track_snapshot filter event matched) matched_nodes ↔
      key ∈ matched_nodes ∨ ∃ node ∈ nodes, key = node_key node.entity_type node.node_id := by
  subst hfilter
  induction nodes generalizing matched_nodes with
  | nil => simp [enters]
  | cons node _ ih =>
    have htrack : track_snapshot (.Query query_filter) (snapshot_event ctx node node.data.properties) matched_nodes =
        insert (node_key node.entity_type node.node_id) matched_nodes := rfl
    have hfold := ih (insert (node_key node.entity_type node.node_id) matched_nodes)
    rw [enters, map_cons, foldl_cons, htrack]
    rw [enters] at hfold
    rw [hfold, Finset.mem_insert]
    simp only [mem_cons, exists_eq_or_imp]
    tauto

variable (hfilter : s.sub.filter = .Query query_filter) (hsnapshot : s.sub.ctx.include_initial_snapshot = true)

include hfilter hsnapshot

theorem Session.snapshot_eq : (snapshotOf registry s.sub s.rows).1 =
    enters s.sub.ctx (snapshotNodes s.rows s.sub.ctx registry query_filter) := by
  simp [snapshotOf, hsnapshot, emit_initial_snapshot, hfilter, enters, snapshotNodes]

/-- After the snapshot the tracked nodes are those in the result of the query. -/
theorem Session.entering_exact (hholds : Holds s.sub.ctx s.rows live)
    (hscan : Scannable s.rows s.sub.ctx registry query_filter live) :
    Exact registry query_filter live (s.entering registry) := by
  have hrestored : restored s.sub s.saved = ∅ := by
    simp [restored, should_restore_query_watch_state, hfilter, hsnapshot]
  intro _
  rw [entering, watch_service.entering, s.snapshot_eq hfilter hsnapshot, mem_track_enters hfilter, hrestored]
  simp only [Finset.notMem_empty, false_or]
  constructor
  · rintro ⟨node, hnode, rfl⟩
    obtain ⟨x, d, -, hmatching, -, rfl⟩ := (mem_snapshotNodes hholds hscan).mp hnode
    exact ⟨x, hmatching, rfl⟩
  · rintro ⟨x, hmatching, rfl⟩
    obtain ⟨properties, hlive⟩ := exists_of_matching hmatching
    obtain ⟨d, rfl, hget⟩ := hholds.record hlive
    exact ⟨_, (mem_snapshotNodes hholds hscan).mpr ⟨x, d, hlive, hmatching, hget, rfl⟩, rfl⟩

omit hfilter hsnapshot

/-- A query watch with a snapshot and no position to resume from, started on a
store that the log has led to. The operations in `gone` are no longer in the
log, which was `before` at the start and has grown to `log`. -/
structure Started (registry : Registry) (query_filter : QueryFilter) (gone : List OperationDocument)
    (before log : Log) (s : Session) : Prop where
  filter : s.sub.filter = .Query query_filter
  snapshot : s.sub.ctx.include_initial_snapshot = true
  start : s.sub.ctx.after = .zero
  grows : before.rows <+: log.rows
  reads : s.Reads log
  proper : ∀ row ∈ log.rows, row.1.Regular ∧ .zero < row.1
  produced : Produced (gone ++ (operations log.rows).map snd)
  canonical : ∀ x ∈ operations log.rows, x.2.Canonical
  holds : Holds s.sub.ctx s.rows (liveAfter (gone ++ (operations before.rows).map snd))

variable {gone : List OperationDocument} {before log : Log}

/-- What the log holds for the watch, if the replay of the old entries yields
nothing. -/
theorem Started.produced_eq (h : Started registry query_filter gone before log s)
    (hreplay : (watch_operations s.sub.ctx.subscription_id registry s.sub.filter (operations before.rows)
      (s.entering registry)).1 = []) {newer : List (Versionstamp × List OperationDocument)}
    (hnewer : log.rows = before.rows ++ newer) :
    s.produced registry log = (watch_operations s.sub.ctx.subscription_id registry s.sub.filter (operations newer)
      (s.entering registry)).1 := by
  have hleft : log.left s.sub.ctx.after = log.rows := by
    rw [Log.left, OrdMap.after, filter_eq_self]
    intro row hrow
    rw [h.start]
    exact decide_eq_true (WithBot.coe_lt_coe.mpr (h.proper _ hrow).2)
  rw [Session.produced, watch_service.produced, hleft, hnewer, operations_append, watch_operations_append]
  dsimp only
  rw [hreplay, watch_operations_silent hreplay]
  rfl

/-- Snapshot and log fit together, if the snapshot sees all rows of its types,
the replay of the entries that were in the log at the start yields nothing, and
nothing is sent while events are missing: first come the nodes in the result of
the query, once each; later events are about new entries; and no node enters
twice without leaving. -/
theorem snapshot_then_log (registry : Registry) (query_filter : QueryFilter) (gone : List OperationDocument)
    (before log : Log) (s : Session) (h : Started registry query_filter gone before log s)
    (hscan : Scannable s.rows s.sub.ctx registry query_filter
      (liveAfter (gone ++ (operations before.rows).map snd)))
    (hreplay : (watch_operations s.sub.ctx.subscription_id registry s.sub.filter (operations before.rows)
      (s.entering registry)).1 = [])
    (hquiet : s.Along registry Quiet) :
    let live := liveAfter (gone ++ (operations before.rows).map snd)
    let snapshot := (snapshotOf registry s.sub s.rows).1
    news (s.watch registry).told <+: snapshot ++ s.produced registry log ∧
      (∀ x, kinds x snapshot = if matching registry query_filter live x then [.Enter] else []) ∧
      (∀ event ∈ snapshot, ∃ x d, live x = some d.properties ∧
        event = snapshot_event s.sub.ctx (snapshotNode x.entity_type (x.id, d)) d.properties) ∧
      (∀ event ∈ s.produced registry log, ∀ row ∈ before.rows, row.1 < event.versionstamp) ∧
      ∀ x, Separated (kinds x (news (s.watch registry).told)) := by
  obtain ⟨newer, hnewer⟩ := h.grows
  have hproduced := h.produced_eq hreplay hnewer.symm
  have hsnapshot : (snapshotOf registry s.sub s.rows).1 =
      enters s.sub.ctx (snapshotNodes s.rows s.sub.ctx registry query_filter) := s.snapshot_eq h.filter h.snapshot
  have hkinds := kinds_snapshot h.holds hscan
  have hregular : ∀ row ∈ log.rows, row.1.Regular := fun row hrow => (h.proper row hrow).1
  have hstart : s.sub.ctx.after.Regular := by rw [h.start]; decide
  have hnews : news (s.watch registry).told <+: (snapshotOf registry s.sub s.rows).1 ++ s.produced registry log :=
    (Session.kept_watch hregular hstart h.reads hquiet).course.news_isPrefix fun event hevent => by
      simp [(snapshotOf_events hevent).2]
  refine ⟨hnews, fun x => hsnapshot ▸ hkinds x, ?_, ?_, fun x => ?_⟩
  · intro event hevent
    rw [hsnapshot] at hevent
    obtain ⟨_, hnode, rfl⟩ := mem_map.mp hevent
    obtain ⟨x, d, hlive, -, -, rfl⟩ := (mem_snapshotNodes h.holds hscan).mp hnode
    exact ⟨x, d, hlive, rfl⟩
  · intro event hevent row hrow
    rw [hproduced] at hevent
    obtain ⟨⟨x, hx, hvs⟩, -⟩ := event_of_operations hevent
    obtain ⟨entry, hentry, heq⟩ := fst_of_mem_operations hx
    have hsorted := log.sorted
    rw [← hnewer, pairwise_append] at hsorted
    rw [hvs, ← heq]
    exact hsorted.2.2 row hrow _ hentry
  · have hops : (operations log.rows).map snd =
        (operations before.rows).map snd ++ (operations newer).map snd := by
      rw [← hnewer, operations_append, map_append]
    have hall := h.produced
    rw [hops, ← append_assoc] at hall
    have hcanonical : ∀ y ∈ operations newer, y.2.Canonical := by
      intro y hy
      refine h.canonical y ?_
      rw [← hnewer, operations_append]
      exact mem_append_right _ hy
    obtain ⟨stays, unfinished, hword, -⟩ := (Session.entering_exact h.filter h.snapshot h.holds hscan).words hall
      hcanonical _ x
    have hfits : kinds x (news (s.watch registry).told) <+: word stays unfinished := by
      rw [← hword, ← h.filter, ← hproduced, ← hkinds x, ← hsnapshot, ← kinds_append]
      exact (hnews.filter _).map _
    exact separated_of_isPrefix_word hfits

end Handover

section Examples

open pelago_storage.node (people noRows)

def everyoneNow : WatchRequest :=
  .query
    { context := some ⟨"db", "ns"⟩
      entity_type := "Person"
      options := { initial_snapshot := true } }

/-- What `everyoneNow` starts. -/
def everyoneNowFrom (sub_id : String) : Subscription :=
  { everyoneFrom sub_id .zero with ctx := { (everyoneFrom sub_id .zero).ctx with include_initial_snapshot := true } }

/-- A store with one person. -/
def personStored : OrdMap Bytes Cell := (people.runSite [.create .empty ⟨10, 11⟩] noRows).db.rows

/-- The snapshot is sent, then the log is read from the beginning. -/
def snapshotTwice : Session where
  sub := everyoneNowFrom "a"
  rows := personStored
  ticks := [.work true, .work true, .poll false (.ok onePerson), .work true, .work true, .work true,
    .receive, .receive]

/-- The only person of a store enters twice: with the snapshot, and when the
log is replayed. -/
theorem snapshot_replayed :
    watch (openService onePerson "a") none everyoneNow = .ok snapshotTwice.sub ∧
      (people.log (people.runSite [.create .empty ⟨10, 11⟩] noRows).db).flatMap CdcEntry.operations =
        [.NodeCreate "Person" "1_0" .empty "1"] ∧
      snapshotTwice.Smooth plainRegistry ∧
      (snapshotTwice.received plainRegistry).map (fun event => (event.type, event.reason)) =
        [(.Enter, "initial_snapshot"), (.Enter, "node_create")] ∧
      kinds ⟨"Person", ⟨1, 0⟩⟩ (snapshotTwice.received plainRegistry) = [.Enter, .Enter] := by
  refine ⟨rfl, by decide +kernel, ?_, by decide +kernel, by decide +kernel⟩
  exact ⟨rfl, rfl, rfl, rfl, rfl, rfl, rfl, rfl, trivial⟩

def personData : NodeData := ⟨.empty, 1, 10, 10⟩

def personKey : Bytes := data_key (Subspace.of_namespace "db" "ns").data "Person" (NodeId.to_bytes ⟨1, 0⟩)

/-- The log has been cut after the person came, and the person goes. -/
def goesLater : Session where
  sub := everyoneNowFrom "a"
  rows := OrdMap.empty.set personKey (.node personData)
  ticks := [.work true, .work true, .poll false (.ok (.ofList [(stamp 2, [deletePerson "1_0"])])), .work true,
    .work true, .work true]

theorem goesLater_holds : Holds goesLater.sub.ctx goesLater.rows (liveAfter [createPerson 0]) where
  nodes := by
    intro _ row hrow
    have hmem := (goesLater.rows.mem_range.mp hrow).1
    obtain rfl : row = (personKey, .node personData) := mem_singleton.mp hmem
    -- only the scan of its own type meets the row
    obtain ⟨hlow, hhigh⟩ := (goesLater.rows.mem_range.mp hrow).2
    obtain ⟨rest, hkey, hrest⟩ := mem_range_iff.mp ⟨hlow, hhigh⟩
    rw [pelago_storage.job_executor.range_start_eq, ← data_key_append, personKey, data_key_eq] at hkey
    obtain ⟨rfl, -⟩ := element_append_inj (by decide) hrest (append_cancel_left hkey)
    exact ⟨⟨1, 0⟩, personData, rfl⟩
  live := by
    intro x
    have hget : goesLater.rows.get (data_key (of_namespace "db" "ns").data x.entity_type x.id.to_bytes) =
        if x = ⟨"Person", ⟨1, 0⟩⟩ then some (.node personData) else none := by
      show (OrdMap.empty.set personKey (Cell.node personData)).get _ = _
      rw [OrdMap.get_set]
      by_cases hx : x = ⟨"Person", ⟨1, 0⟩⟩
      · rw [if_pos hx, if_pos (by rw [hx]; rfl)]
      · have hne : data_key (of_namespace "db" "ns").data x.entity_type x.id.to_bytes ≠ personKey := by
          intro hkey
          obtain ⟨htype, hid⟩ := record_key_inj hkey
          exact hx (by rw [← htype, ← hid])
        rw [if_neg hx, if_neg hne]
        rfl
    have hlive : liveAfter [createPerson 0] x = if x = ⟨"Person", ⟨1, 0⟩⟩ then some .empty else none := by
      rw [← nil_append [createPerson 0], liveAfter_concat, Live.apply_of_effect (effect_createPerson 0),
        update_apply]
      rfl
    show heldProperties (goesLater.rows.get
      (data_key (of_namespace "db" "ns").data x.entity_type x.id.to_bytes)) = _
    rw [hget, hlive]
    split <;> rfl

theorem goesLater_scannable :
    Scannable goesLater.rows goesLater.sub.ctx plainRegistry allPeople (liveAfter [createPerson 0]) where
  types := by
    intro x hx
    obtain ⟨properties, hlive⟩ := exists_of_matching hx
    rw [← nil_append [createPerson 0], liveAfter_concat, Live.apply_of_effect (effect_createPerson 0),
      update_apply] at hlive
    split at hlive
    · rename_i hx
      rw [hx]
      exact ⟨by decide +kernel, by decide⟩
    · cases hlive
  room := by decide +kernel

theorem goesLater_started : Started plainRegistry allPeople [createPerson 0] .empty
    (.ofList [(stamp 2, [deletePerson "1_0"])]) goesLater where
  filter := rfl
  snapshot := rfl
  start := rfl
  grows := nil_prefix
  reads := by simp [Session.Reads, goesLater, Tick.Sees]
  proper := by decide +kernel
  produced := produced_create_delete (by decide +kernel)
  canonical := by
    have hprinted : "1_0" = to_string ⟨1, 0⟩ := by decide +kernel
    intro x hx _ htext
    obtain rfl := mem_singleton.mp hx
    exact ⟨⟨1, 0⟩, (Option.some.inj htext).symm.trans hprinted⟩
  holds := goesLater_holds

theorem goesLater_consistent :
    kinds ⟨"Person", ⟨1, 0⟩⟩ (news (goesLater.watch plainRegistry).told) = [.Enter, .Delete] ∧
      ∀ x, Separated (kinds x (news (goesLater.watch plainRegistry).told)) := by
  have hquiet : goesLater.Along plainRegistry Quiet := ⟨nofun, nofun, nofun, nofun, nofun, nofun, trivial⟩
  exact ⟨by decide +kernel, (snapshot_then_log plainRegistry allPeople [createPerson 0] .empty
    (.ofList [(stamp 2, [deletePerson "1_0"])]) goesLater goesLater_started goesLater_scannable rfl hquiet).2.2.2.2⟩

end Examples

end pelago_api.watch_service
