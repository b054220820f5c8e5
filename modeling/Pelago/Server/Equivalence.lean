import Pelago.Server.Replicator
import Pelago.Storage.Node.SiteRuns

open bytes kv pelago_core pelago_storage pelago_storage.node pelago_storage.term_index pelago_storage.node.Deployment List

namespace pelago_server.replicator

/-- Another site that stores the same type. -/
abbrev peer (dep : Deployment) (store : NodeStore) (allocator : ids.IdAllocator) : Deployment :=
  { dep with store := store, allocator := allocator }

/-- No node, or nodes with the same properties and the same owner. -/
inductive SameNode : Option Cell → Option Cell → Prop where
  | absent : SameNode none none
  | present {d d₁ : NodeData} (hproperties : d.properties = d₁.properties) (hlocality : d.locality = d₁.locality) :
      SameNode (some (.node d)) (some (.node d₁))

/-- The same live nodes, property-index rows, term postings and counters. -/
structure SameNodes (dep : Deployment) (db db₁ : Db) : Prop where
  nodes : ∀ id, SameNode (dep.record db id) (dep.record db₁ id)
  index : Agree (IndexRow dep.subspace dep.entity_type) db db₁

section SameNodes

variable {dep : Deployment} {schema : EntitySchema} {id : NodeId} {db db' db₁ db₁' : Db}

theorem SameNode.of_map {d d₁ : Option NodeData}
    (h : d.map (fun d => (d.properties, d.locality)) = d₁.map (fun d => (d.properties, d.locality))) :
    SameNode (d.map encode_cbor) (d₁.map encode_cbor) := by
  cases d with
  | none =>
    cases d₁ with
    | none => exact .absent
    | some => cases h
  | some =>
    cases d₁ with
    | none => cases h
    | some =>
      simp only [Option.map_some, Option.some.injEq, Prod.mk.injEq] at h
      exact .present (congrArg storedProperties h.1) h.2

theorem SameNodes.congr (h : SameNodes dep db db₁) (hagree : Agree dep.typeRow db db') : SameNodes dep db' db₁ := by
  refine ⟨fun id => ?_, fun k hk => (hagree k (.inl hk)).symm.trans (h.index k hk)⟩
  have hnode := h.nodes id
  rwa [record, recordOf_congr hagree id] at hnode

/-- Equal changes keep nodes the same. -/
theorem SameNodes.change {old new old₁ new₁ : Option NodeData} (h : SameNodes dep db db₁)
    (hchange : dep.Changes schema id old new db db') (hchange₁ : dep.Changes schema id old₁ new₁ db₁ db₁')
    (hold : old.map NodeData.properties = old₁.map NodeData.properties)
    (hnew : new.map (fun d => (d.properties, d.locality)) = new₁.map (fun d => (d.properties, d.locality))) :
    SameNodes dep db' db₁' := by
  refine ⟨fun id' => ?_, hchange.index_agree hchange₁ hold ?_ h.index⟩
  · by_cases hid : id' = id
    · subst hid
      rw [record, record, hchange.record, hchange₁.record]
      exact .of_map hnew
    · rw [record, record, hchange.others _ hid, hchange₁.others _ hid]
      exact h.nodes _
  · have hproperties := congrArg (Option.map Prod.fst) hnew
    simpa only [Option.map_map, Function.comp_def] using hproperties

/-- Records written alike keep nodes the same. -/
theorem SameNodes.putRecord {d d₁ : NodeData} (h : SameNodes dep db db₁) (hproperties : d.properties = d₁.properties)
    (hlocality : d.locality = d₁.locality) : SameNodes dep (dep.putRecord db id d) (dep.putRecord db₁ id d₁) := by
  refine ⟨fun id' => ?_, ?_⟩
  · rw [record_putRecord, record_putRecord]
    split
    · exact .present (congrArg storedProperties hproperties) hlocality
    · exact h.nodes _
  · intro k hk
    rw [putRecord_index _ db id d k hk, putRecord_index _ _ id _ k hk]
    exact h.index k hk

end SameNodes

/-- The operations in a site's log, each with its entry's timestamp. -/
def events (dep : Deployment) (db : Db) : List (Int × CdcOperation) := operations (dep.log db)

/-- A site and a replica of it, with `n` ids handed out so far. -/
structure Synced (dep : Deployment) (n : Nat) (w w₁ : ids.World) : Prop where
  issued : ids.Issued dep.allocator dep.database dep.ns dep.entity_type w n
  unused : ∀ k, n ≤ k → k < 2 ^ 64 → dep.record w.db ⟨dep.allocator.site_id, UInt64.ofNat k⟩ = none
  plain : ∀ id d, dep.record w.db id = some (.node d) → Plain d.properties
  same : SameNodes dep w.db w₁.db
  edges : NoEdges dep.database dep.ns w.db
  replica_edges : NoEdges dep.database dep.ns w₁.db
  readable : CountersReadable dep.subspace dep.entity_type w₁.db

section Synced

variable {dep : Deployment} {schema : EntitySchema} {n : Nat} {w w' w₁ w₁' : ids.World} {id : NodeId}

variable {timestamp : Int} {op : CdcOperation}

theorem events_of_logged {db db' : Db}
    (h : Logged dep timestamp op db db') : events dep db' = events dep db ++ [(timestamp, op.stored)] := by
  unfold events operations log
  rw [h.journal, filterMap_append, flatMap_append]
  rfl

section

variable (h : Synced dep n w w₁)
include h

theorem Synced.present {d : NodeData} (hrecord : dep.record w.db id = some (.node d)) :
    ∃ d₁, dep.record w₁.db id = some (.node d₁) ∧ d.properties = d₁.properties ∧ d.locality = d₁.locality := by
  have hnode := h.same.nodes id
  rw [hrecord] at hnode
  generalize hcell : dep.record w₁.db id = cell at hnode
  cases hnode with
  | present hproperties hlocality => exact ⟨_, rfl, hproperties, hlocality⟩

/-- An id that is in use has been handed out. -/
theorem Synced.used {c : Cell} (hrecord : dep.record w.db id = some c) (k : Nat)
    (hk : n ≤ k) (hlt : k < 2 ^ 64) : id ≠ ⟨dep.allocator.site_id, .ofNat k⟩ := by
  rintro rfl
  rw [h.unused k hk hlt] at hrecord
  cases hrecord

/-- Handing out one more id. -/
theorem Synced.taken (hbatch : 0 < dep.allocator.batch_size.toNat)
    (hroom : n + dep.allocator.batch_size.toNat < 2 ^ 64) :
    dep.nextId w = ⟨dep.allocator.site_id, .ofNat n⟩ ∧ Synced dep (n + 1) (dep.supply w).2 w₁ := by
  obtain ⟨hid, hissued⟩ := h.issued.allocate hbatch hroom
  have hagree := allocate_agree dep w
  refine ⟨hid, hissued, ?_, ?_, h.same.congr hagree, allocate_noEdges _ h.edges, h.replica_edges, h.readable⟩
  · intro k hk hlt
    exact (recordOf_congr hagree _).symm.trans (h.unused k (by omega) hlt)
  · intro id d hrecord
    exact h.plain id d ((recordOf_congr hagree id).trans hrecord)

section

variable (hlogged : Logged dep timestamp op w.db w'.db)
include hlogged

private theorem Synced.issued_of_logged (hmem : w'.mem = w.mem) :
    ids.Issued dep.allocator dep.database dep.ns dep.entity_type w' n :=
  h.issued.congr hmem (hlogged.rows _ (counter_key_not_nodeRow _))

/-- The same change of a record on both sides. -/
theorem Synced.change {old new old₁ new₁ : Option NodeData} (hmem : w'.mem = w.mem)
    (hchange : dep.Changes schema id old new w.db w'.db) (hchange₁ : dep.Changes schema id old₁ new₁ w₁.db w₁'.db)
    (hold : old.map NodeData.properties = old₁.map NodeData.properties)
    (hnew : new.map (fun d => (d.properties, d.locality)) = new₁.map (fun d => (d.properties, d.locality)))
    (hplain : ∀ d, new = some d → Plain d.properties)
    (hused : ∀ k, n ≤ k → k < 2 ^ 64 → id ≠ ⟨dep.allocator.site_id, .ofNat k⟩)
    (hedges₁ : NoEdges dep.database dep.ns w₁'.db) : Synced dep n w' w₁' := by
  refine ⟨h.issued_of_logged hlogged hmem, ?_, ?_, h.same.change hchange hchange₁ hold hnew,
    hlogged.noEdges h.edges, hedges₁, hchange₁.readable h.readable⟩
  · intro k hk hlt
    exact (hchange.others _ (hused k hk hlt).symm).trans (h.unused k hk hlt)
  · intro id' d hrecord
    by_cases hid : id' = id
    · rw [hid, record, hchange.record, Option.map_eq_some_iff] at hrecord
      obtain ⟨given, rfl, hgiven⟩ := hrecord
      obtain ⟨⟩ := hgiven
      have hgiven := hplain _ rfl
      rw [NodeData.stored, hgiven.stored]
      exact hgiven
    · exact h.plain _ d ((hchange.others _ hid).symm.trans hrecord)

/-- The same change of owner on both sides. -/
theorem Synced.transfer {d d' d₁' : NodeData} (hmem : w'.mem = w.mem)
    (hrecord : dep.record w.db id = some (.node d)) (hrows : w'.db.rows = (dep.putRecord w.db id d').rows)
    (hkept : d'.properties = d.properties) (hproperties : d'.properties = d₁'.properties)
    (hlocality : d'.locality = d₁'.locality) : Synced dep n w' ⟨dep.putRecord w₁.db id d₁', w₁.mem⟩ := by
  have hrecords : ∀ id', dep.record w'.db id' =
      if id' = id then some (encode_cbor d') else dep.record w.db id' := by
    intro _
    rw [← record_putRecord, record, recordOf, hrows]
    rfl
  refine ⟨h.issued_of_logged hlogged hmem, ?_, ?_, ?_, hlogged.noEdges h.edges,
    putRecord_noEdges h.replica_edges _ _, putRecord_readable h.readable _ _⟩
  · intro k hk hlt
    rw [hrecords, if_neg (h.used hrecord k hk hlt).symm]
    exact h.unused k hk hlt
  · intro id' _ hgiven
    have hplain := h.plain id d hrecord
    rw [hrecords] at hgiven
    split at hgiven
    · obtain ⟨⟩ := hgiven
      rw [NodeData.stored, hkept, hplain.stored]
      exact hplain
    · exact h.plain _ _ hgiven
  · refine .congr (h.same.putRecord hproperties hlocality) fun k _ => ?_
    rw [hrows]

end

end

variable {store₁ : NodeStore} {allocator₁ : ids.IdAllocator}
  (hschema₁ : (peer dep store₁ allocator₁).store.get_schema dep.database dep.ns dep.entity_type = some schema)
  (hsite : parse_u8 dep.store.site_id = some dep.allocator.site_id)

theorem owner_of_enforce (hsite : parse_u8 dep.store.site_id = some dep.allocator.site_id) {node_id : String}
    {owner : UInt8} (howner : enforce_local_ownership dep.store dep.entity_type node_id owner = .ok ()) :
    owner = dep.allocator.site_id := by
  unfold enforce_local_ownership local_site_id at howner
  rw [hsite] at howner
  dsimp only at howner
  split at howner
  · cases howner
  · rename_i heq
    exact (not_not.mp heq).symm

include hschema₁ hsite

/-- The replica follows a logged change. -/
theorem Synced.follow_changed (h : Synced dep n w w₁)
    (hevent : Event dep schema w.db w'.db op) (hlogged : Logged dep timestamp op w.db w'.db)
    (hmem : w'.mem = w.mem) : op.stored = op ∧ ∃ w₁',
      replay_op (peer dep store₁ allocator₁) dep.store.site_id w₁ (timestamp, op) = (.ok (some op), w₁') ∧
        Synced dep n w' w₁' := by
  cases hevent with
  | @update _ id d _ _ hid hrecord howner hvalid hplain hchange =>
    have hold := h.plain id d hrecord
    obtain ⟨d₁, hrecord₁, hproperties, hlocality⟩ := h.present hrecord
    have hlocal := owner_of_enforce hsite howner
    have hfresh : ¬ UpdateStale d₁ dep.allocator.site_id d.properties timestamp := by
      rintro ⟨hother | hdiffers, _⟩
      · exact hother (hlocality.symm.trans hlocal)
      · rw [← hproperties, hold.eq_self] at hdiffers
        cases hdiffers
    rw [hproperties] at hvalid
    obtain ⟨db₁', hrun, hchange₁, hedges₁⟩ :=
      replica_update_applied hschema₁ hid hsite hrecord₁ hfresh hvalid h.readable
    refine ⟨?_, ⟨db₁', w₁.mem⟩, replay_update hrun, ?_⟩
    · rw [CdcOperation.stored, hplain.stored, hold.stored]
    refine h.change hlogged hmem hchange hchange₁ (congrArg some hproperties) ?_ ?_ (h.used hrecord)
      (hedges₁ h.replica_edges)
    · simp [updatedRecord, ← hproperties, ← hlocality, hlocal]
    · rintro _ ⟨⟩
      exact hold.overlay hplain
  | @delete _ _ _ hid hrecord howner hchange =>
    obtain ⟨_, hrecord₁, hproperties, hlocality⟩ := h.present hrecord
    obtain ⟨db₁', hrun, hchange₁, hedges₁⟩ := replica_delete_applied hschema₁ hid hsite hrecord₁
      (fun hother => hother.1 (hlocality.symm.trans (owner_of_enforce hsite howner))) h.readable h.replica_edges
    refine ⟨rfl, ⟨db₁', w₁.mem⟩, replay_delete hrun, ?_⟩
    refine h.change hlogged hmem hchange hchange₁ (congrArg some hproperties) rfl ?_ (h.used hrecord) hedges₁
    rintro _ ⟨⟩
  | @transfer _ _ d target _ hid hrecord howner hrows =>
    obtain ⟨_, hrecord₁, hproperties, hlocality⟩ := h.present hrecord
    have hlocal := owner_of_enforce hsite howner
    rw [← hlocal] at hsite
    have hrun := replica_transfer_applied (peer dep store₁ allocator₁) timestamp hid hsite
      (parse_u8_repr _) (parse_u8_repr target) hrecord₁ fun hother => hother.1 hlocality.symm
    exact ⟨rfl, _, replay_transfer hrun, h.transfer hlogged hmem hrecord hrows rfl hproperties rfl⟩

/-- The replica follows a creation. -/
theorem Synced.follow_created {properties : Properties} {now : Int} (h : Synced dep n w w₁)
    (hlt : n < 2 ^ 64) (hnew : Synced dep (n + 1) (dep.supply w).2 w₁)
    (hid : dep.nextId w = ⟨dep.allocator.site_id, .ofNat n⟩) (hplain : Plain properties)
    (hvalid : validate_properties dep.entity_type schema properties = .ok ())
    (hchange : dep.Changes schema (dep.nextId w) none
      (some ⟨properties, (dep.nextId w).site, now, now⟩) (dep.supply w).2.db w'.db) (hlogged : Logged dep timestamp
      (.NodeCreate dep.entity_type (dep.nextId w).to_string properties dep.store.site_id) (dep.supply w).2.db w'.db)
    (hmem : w'.mem = (dep.supply w).2.mem) : ∃ w₁', replay_op (peer dep store₁ allocator₁) dep.store.site_id w₁
          (timestamp, .NodeCreate dep.entity_type (dep.nextId w).to_string properties dep.store.site_id) =
        (.ok (some (.NodeCreate dep.entity_type (dep.nextId w).to_string properties dep.store.site_id)), w₁') ∧
      Synced dep (n + 1) w' w₁' := by
  have habsent : dep.record w₁.db (dep.nextId w) = none := by
    have hnode := h.same.nodes (dep.nextId w)
    rw [hid, h.unused n (le_refl n) hlt] at hnode
    rw [hid]
    generalize dep.record w₁.db _ = cell at hnode
    cases hnode
    rfl
  obtain ⟨db₁', hrun, hchange₁, hedges₁⟩ := replica_create_absent hschema₁
    (NodeId.from_str_to_string _) hvalid hsite habsent h.readable _
  refine ⟨⟨db₁', w₁.mem⟩, replay_create hrun, ?_⟩
  refine hnew.change hlogged hmem hchange hchange₁ rfl ?_ ?_ ?_ (hedges₁ h.replica_edges)
  · simp [hid]
  · rintro _ ⟨⟩
    exact hplain
  · intro k hk hlt' heq
    rw [hid, NodeId.mk.injEq] at heq
    have hseq := congrArg UInt64.toNat heq.2
    rw [UInt64.toNat_ofNat_of_lt' hlt, UInt64.toNat_ofNat_of_lt' hlt'] at hseq
    omega

/-- The replica follows every operation of the site. -/
theorem Synced.follow (h : Synced dep n w w₁) (heffect : SiteEffect dep schema w w')
    (hbatch : 0 < dep.allocator.batch_size.toNat) (hroom : n + dep.allocator.batch_size.toNat < 2 ^ 64) :
    ∃ n' ≤ n + 1, (events dep w'.db = events dep w.db ∧ Synced dep n' w' w₁) ∨
      ∃ e, events dep w'.db = events dep w.db ++ [e] ∧
        (replay_op (peer dep store₁ allocator₁) dep.store.site_id w₁ e).1 = .ok (some e.2) ∧
        Synced dep n' w' (replay_op (peer dep store₁ allocator₁) dep.store.site_id w₁ e).2 := by
  obtain ⟨hid, hnew⟩ := h.taken hbatch hroom
  have hquiet : events dep (dep.supply w).2.db = events dep w.db := by
    unfold events log
    rw [allocate_journal]
  cases heffect with
  | idle heq =>
    subst heq
    exact ⟨n, Nat.le_succ n, .inl ⟨rfl, h⟩⟩
  | taken heq =>
    subst heq
    exact ⟨n + 1, le_refl _, .inl ⟨hquiet, hnew⟩⟩
  | @created _ _ _ hplain hvalid hchange hlogged hmem =>
    obtain ⟨w₁', hrun, hsynced⟩ :=
      h.follow_created hschema₁ hsite (by omega) hnew hid hplain hvalid hchange hlogged hmem
    refine ⟨n + 1, le_refl _, .inr ⟨_, ?_, by rw [hrun], by rw [hrun]; exact hsynced⟩⟩
    rw [events_of_logged hlogged, hquiet, CdcOperation.stored, hplain.stored]
  | @changed op timestamp hevent hlogged hmem =>
    obtain ⟨hstored, _, hrun, hsynced⟩ := h.follow_changed hschema₁ hsite hevent hlogged hmem
    refine ⟨n, Nat.le_succ n, .inr ⟨(timestamp, op), ?_, by rw [hrun], by rw [hrun]; exact hsynced⟩⟩
    rw [events_of_logged hlogged, hstored]

end Synced

/-- A database without rows of the type and without edges. -/
structure Untouched (dep : Deployment) (db : Db) : Prop where
  rows : ∀ k, TypeRow dep.database dep.ns dep.entity_type k → db.rows.get k = none
  edges : NoEdges dep.database dep.ns db

/-- A site that has not done anything yet: besides, its log is empty and no ids
are reserved. -/
structure Unstarted (dep : Deployment) (w : ids.World) : Prop extends Untouched dep w.db where
  log : dep.log w.db = []
  counter : w.db.rows.get (ids.counter_key dep.subspace.ids dep.entity_type dep.allocator.site_id) = none
  batch : w.mem.get (dep.database ++ ":" ++ dep.ns ++ ":" ++ dep.entity_type) = none

theorem Unstarted.synced {dep : Deployment} {w w₁ : ids.World} (h : Unstarted dep w) (h₁ : Untouched dep w₁.db) :
    Synced dep 0 w w₁ := by
  have hrecord : ∀ {db : Db}, Untouched dep db → ∀ id, dep.record db id = none :=
    fun hdb id => hdb.rows _ (.inr ⟨id, rfl⟩)
  have hreserved : ids.reserved dep.allocator dep.database dep.ns dep.entity_type w.db = 0 := by
    rw [ids.reserved, h.counter]
  refine ⟨?_, fun _ _ _ => hrecord h.toUntouched _, ?_, ⟨?_, ?_⟩, h.edges, h₁.edges, ?_⟩
  · refine ⟨?_, ?_, Nat.zero_le _, ?_⟩
    · rw [ids.batch, h.batch]
      rfl
    · rw [ids.batch, h.batch, hreserved]
      rfl
    · rw [hreserved]
      exact Nat.zero_le _
  · intro _ d hd
    rw [hrecord h.toUntouched] at hd
    cases hd
  · intro _
    rw [hrecord h.toUntouched, hrecord h₁]
    exact .absent
  · intro k hk
    rw [h.rows k (.inl hk), h₁.rows k (.inl hk)]
  · intro k c hk hget
    rw [h₁.rows k (.inl (indexRow_of_counterRow hk))] at hget
    cases hget

/-- A replica that applies the operations of a site's log in order has, after
every prefix of the log, the nodes, the index rows and the counters that the
site had when its log was that prefix, and applies every operation. -/
theorem replica_follows_site (dep : Deployment) (store₁ : NodeStore) (allocator₁ : ids.IdAllocator)
    (schema : EntitySchema) (calls : List SiteCall) (w w₁ : ids.World)
    (hschema : dep.store.get_schema dep.database dep.ns dep.entity_type = some schema)
    (hschema₁ : store₁.get_schema dep.database dep.ns dep.entity_type = some schema)
    (hsite : parse_u8 dep.store.site_id = some dep.allocator.site_id)
    (hbatch : 0 < dep.allocator.batch_size.toNat)
    (hroom : calls.length + dep.allocator.batch_size.toNat < 2 ^ 64)
    (hdefaults : PlainDefaults schema) (hplain : ∀ call ∈ calls, Plain call.values)
    (hstart : Unstarted dep w) (hstart₁ : Untouched dep w₁.db) :
    (∀ m ≤ calls.length,
      events dep (dep.runSite (calls.take m) w).db <+: events dep (dep.runSite calls w).db ∧
      (replay (peer dep store₁ allocator₁) dep.store.site_id
        (events dep (dep.runSite (calls.take m) w).db) w₁).1 =
          (events dep (dep.runSite (calls.take m) w).db).map (fun event => .ok (some event.2)) ∧
      SameNodes dep (dep.runSite (calls.take m) w).db
        (replay (peer dep store₁ allocator₁) dep.store.site_id
          (events dep (dep.runSite (calls.take m) w).db) w₁).2.db) ∧
    ∀ k ≤ (events dep (dep.runSite calls w).db).length, ∃ m ≤ calls.length,
      events dep (dep.runSite (calls.take m) w).db = (events dep (dep.runSite calls w).db).take k := by
  have hpeer : (peer dep store₁ allocator₁).store.get_schema dep.database dep.ns dep.entity_type =
      some schema := hschema₁
  have hfollows : replication.Follows (fun m => events dep (dep.runSite (calls.take m) w).db)
      (replay_op (peer dep store₁ allocator₁) dep.store.site_id) (fun event => .ok (some event.2))
      (fun m w₁ => ∃ n ≤ m, Synced dep n (dep.runSite (calls.take m) w) w₁) calls.length w₁ := by
    refine ⟨?_, ⟨0, le_refl 0, hstart.synced hstart₁⟩, ?_⟩
    · unfold events
      rw [take_zero, runSite, foldl_nil, hstart.log]
      rfl
    · rintro m hm w₁ ⟨n, hn, hsynced⟩
      have hcall := getElem?_eq_getElem hm
      have heffect := siteStep_effect hschema hdefaults hsynced.edges _
        (hplain _ (getElem_mem hm))
      rw [← dep.runSite_take_succ hcall] at heffect
      obtain ⟨n', hn', hquiet | ⟨e, hlog, hanswer, hnext⟩⟩ :=
        hsynced.follow hpeer hsite heffect hbatch (by omega)
      · exact .inl ⟨hquiet.1, n', by omega, hquiet.2⟩
      · exact .inr ⟨e, hlog, hanswer, n', by omega, hnext⟩
  have hall : calls.take calls.length = calls := take_length
  refine ⟨fun m hm => ?_, fun k hk => ?_⟩
  · obtain ⟨⟨n, _, hsynced⟩, hanswers⟩ := hfollows.sim hm
    have hearlier := hfollows.grows.prefix_of_le hm
    rw [hall] at hearlier
    exact ⟨hearlier, hanswers, hsynced.same⟩
  · have htake := hfollows.grows.exists_eq_take (k := k) (by rwa [hall])
    rwa [hall] at htake

/-- The store of a second site for people. -/
def replicaStore : NodeStore := ⟨fun _ _ _ => some personSchema, "2", .none⟩

/-- Two people, of whom one is renamed and handed over and the other deleted. -/
def peopleHistory : List SiteCall :=
  [.create (named "a") ⟨1, 1⟩, .create (named "b") ⟨2, 2⟩, .update "1_0" (named "c") ⟨3, 3⟩,
    .transfer "1_0" 2 ⟨4, 4⟩, .delete "1_1" ⟨5, 5⟩]

private theorem unstarted_noRows (dep : Deployment) : Unstarted dep noRows :=
  ⟨⟨fun _ _ => rfl, fun _ => rfl⟩, rfl, rfl, rfl⟩

/-- A site that reserves ids in batches of none hands out one id again and
again; the replica skips the second creation and does not count it. -/
theorem second_create_skipped_without_batches :
    parse_u8 people.store.site_id = some (1 : UInt8) ∧
    Unstarted { people with allocator := ⟨1, 0⟩ } noRows ∧
    ((replay (peer people replicaStore ⟨2, 100⟩) "1"
      (events people (Deployment.runSite { people with allocator := ⟨1, 0⟩ }
        [.create (named "a") ⟨1, 1⟩, .create (named "b") ⟨2, 2⟩] noRows).db) noRows).1.map
          fun answer => match answer with
            | .ok (some _) => true
            | _ => false) = [true, false] ∧
    ¬ SameNodes people
      (Deployment.runSite { people with allocator := ⟨1, 0⟩ }
        [.create (named "a") ⟨1, 1⟩, .create (named "b") ⟨2, 2⟩] noRows).db
      (replay (peer people replicaStore ⟨2, 100⟩) "1"
        (events people (Deployment.runSite { people with allocator := ⟨1, 0⟩ }
          [.create (named "a") ⟨1, 1⟩, .create (named "b") ⟨2, 2⟩] noRows).db) noRows).2.db := by
  refine ⟨by decide +kernel, unstarted_noRows _, by decide +kernel, fun hsame => ?_⟩
  have hdocs := hsame.index _
    (indexRow_of_counterRow counterRow_n_docs_key)
  exact absurd hdocs (by decide +kernel)

theorem replica_follows_people :
    SameNodes people (people.runSite peopleHistory noRows).db
      (replay (peer people replicaStore ⟨2, 100⟩) people.store.site_id
        (events people (people.runSite peopleHistory noRows).db) noRows).2.db ∧
    (events people (people.runSite peopleHistory noRows).db).length = 5 := by
  have hplain : ∀ call ∈ peopleHistory, Plain call.values := by
    intro call hcall field v hget
    have hrows : ∀ call ∈ peopleHistory, ∀ row ∈ call.values.rows, plainValue row.2 = true := by decide +kernel
    exact hrows call hcall (field, v) (call.values.get_eq_some_iff_mem.mp hget)
  have hdefaults : PlainDefaults personSchema := by
    intro property prop_def v hdef hdefault
    rw [(person_property hdef).2] at hdefault
    cases hdefault
  have hall := (replica_follows_site people replicaStore ⟨2, 100⟩ personSchema peopleHistory noRows noRows rfl rfl
    (by decide +kernel) (by decide) (by decide) hdefaults hplain (unstarted_noRows _)
    (unstarted_noRows people).toUntouched).1 5 (by decide)
  rw [show peopleHistory.take 5 = peopleHistory from rfl] at hall
  exact ⟨hall.2.2, by decide +kernel⟩

end pelago_server.replicator
