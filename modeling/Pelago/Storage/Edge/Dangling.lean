import Pelago.Storage.Edge.Bijection

open bytes kv pelago_core pelago_core.encoding
open pelago_storage.node

namespace pelago_storage.edge

open edge_markers Option Triple List

/-- The node is an end of the edge. -/
def Triple.Mentions (node : NodeRef) (e : Triple) : Prop := e.source = node ∨ e.target = node

/-- What a deletion of the node relies on: edge rows are paired, and once the
node has no record it gets none back and no edge of it comes in. -/
def deletion (node : NodeRef) : Environment Bytes Cell where
  Inv := Paired node.database node.ns
  Rely db db' := ¬ Live node db → ¬ Live node db' ∧
    ∀ e : Triple, e.Within node.database node.ns → e.Mentions node → db.rows.get e.forward = none →
      db'.rows.get e.forward = none
  refl _ hlive := ⟨hlive, fun _ _ _ h => h⟩
  trans hab hbc hlive :=
    have hb := hab hlive
    have hc := hbc hb.1
    ⟨hc.1, fun e he hmentions h => hc.2 e he hmentions (hb.2 e he hmentions h)⟩

section Environment

variable {node : NodeRef}

/-- The node has no record, and none of the edges in `S` is there. -/
def Gone (node : NodeRef) (S : Triple → Prop) (db : Db) : Prop :=
  ¬ Live node db ∧ ∀ e : Triple, e.Within node.database node.ns → e.Mentions node → S e → db.rows.get e.forward = none

theorem gone_stable (S : Triple → Prop) : (deletion node).Stable (Gone node S) := by
  intro _ _ _ hrely hgone
  obtain ⟨hlive, hedges⟩ := hrely hgone.1
  exact ⟨hlive, fun e he hmentions hS => hedges e he hmentions (hgone.2 e he hmentions hS)⟩

theorem not_live_iff {db : Db} : ¬ Live node db ↔ ∀ id, NodeId.from_str node.node_id = some id →
    db.rows.get (data_key (Subspace.of_namespace node.database node.ns).data node.entity_type id.to_bytes) =
      none := by
  constructor
  · intro h id hid
    by_contra hget
    obtain ⟨c, hc⟩ := ne_none_iff_exists'.mp hget
    exact h ⟨id, c, hid, hc⟩
  · rintro h ⟨id, c, hid, hc⟩
    rw [h id hid] at hc
    cases hc

/-- A write to edges leaves records alone. -/
theorem not_live_of_edge_rows {db db' : Db} (hget : ∀ k, ¬ EdgeKey k → db'.rows.get k = db.rows.get k)
    (h : ¬ Live node db) : ¬ Live node db' := by
  rw [not_live_iff] at h ⊢
  intro id hid
  rw [hget _ fun hedge => edgeKey_ne_data_key hedge _ rfl, h id hid]

variable {schemas : Schemas} {db db' : Db}

/-- Users' requests do nothing that a deletion could not bear. -/
theorem EdgeEffect.allowed {Drop : EdgeAt → Prop} (heffect : EdgeEffect schemas
      (fun e db => e.Home ∧ e.triple.Within node.database node.ns ∧ Live e.source db ∧ Live e.target db) Drop
      (RecordsLeave node.database node.ns) db db')
    (hplain : Plain schemas) (hdrop : ∀ e, Drop e → e.Home) : (deletion node).Allows db db' := by
  intro hinv
  refine ⟨heffect.paired hplain (fun _ _ h => ⟨h.1, h.2.1⟩) hdrop hinv, fun hlive => ?_⟩
  cases heffect with
  | put _ _ he _ hget =>
    obtain ⟨hhome, _, hsource, htarget⟩ := he
    rw [hplain.rows_eq hhome] at hget
    refine ⟨not_live_of_edge_rows (fun k hk => ?_) hlive, fun e' _ hmentions hnone => ?_⟩
    · rw [hget, if_neg fun hmem => hk (edgeKey_of_mem_rows hmem)]
    · rw [hget, if_neg, hnone]
      intro hmem
      -- the edge that is written would be one of the node, which has no record
      obtain rfl := eq_of_mem_rows (show e'.forward ∈ e'.rows by simp [rows]) hmem
      obtain rfl | rfl := hmentions
      · exact hlive hsource
      · exact hlive htarget
  | drop _ _ hget =>
    refine ⟨not_live_of_edge_rows (fun k hk => ?_) hlive, fun _ _ _ hnone => ?_⟩
    · rw [hget, if_neg]
      intro hmem
      obtain ⟨e, _, hmem⟩ := mem_flatMap.mp hmem
      exact hk (edgeKey_of_mem_all_keys hmem)
    · rw [hget, hnone, ite_self]
  | keep hother hget =>
    refine ⟨?_, fun e' _ _ hnone => ?_⟩
    · rw [not_live_iff] at hlive ⊢
      exact fun id hid => hother _ id (hlive id hid)
    · rw [hget _ (edgeKey_of_mem_rows (show e'.forward ∈ e'.rows by simp [rows])), hnone]

theorem EdgeCall.allowed {call : EdgeCall} (hlocal : call.Local) {self : Store} (hplain : Plain self.get_schema) :
    (call.proc self node.database node.ns).Effects (deletion node).Allows fun _ => True := by
  refine (call.proc_effects ..).mono (fun _ _ heffect => ?_) fun _ h => h
  refine EdgeEffect.allowed (heffect.mono ?_ fun _ h => h) hplain fun _ h => h
  exact fun e _ h => ⟨h.1, h.2.1, h.2.2 hlocal⟩

end Environment

section Cascade

variable {database ns entity_type node_id : String} {db : Db}

theorem rows_eq_nil {rows : List (Bytes × Cell)} (h : EdgeRows rows) (hnil : rows.filterMap rowData = []) :
    rows = [] := by
  cases rows with
  | nil => rfl
  | cons =>
    obtain ⟨⟨data, hdata⟩, _⟩ := edgeRows_cons.mp h
    simp [rowData, hdata] at hnil

theorem range_eq_nil {start : Bytes} {limit : Nat} (hlimit : 0 < limit) (h : scanned db start limit = []) :
    db.rows.range start (start ++ [0xFF]) = [] := by
  obtain hzero | hnil := take_eq_nil_iff.mp h
  · omega
  · exact hnil

theorem Paired.forward_eq_none (hpaired : Paired database ns db) {e : Triple} (he : e.Within database ns)
    (h : ∀ data, ¬ Present database ns db e data) : db.rows.get e.forward = none := by
  by_contra hget
  obtain ⟨c, hc⟩ := ne_none_iff_exists'.mp hget
  have hforward : e.forward ∈ e.rows := by simp [rows]
  obtain ⟨e', data, hpresent, hmem, _⟩ := hpaired.present (edgeRowOf_of_mem_rows he hforward) hc
  obtain rfl := eq_of_mem_rows hforward hmem
  exact h _ hpresent

/-- An empty list of outgoing edges shows that there are none, at the time of
the scan and, of a deleted node, ever after. -/
theorem list_edges_ensures {S : Triple → Prop} {limit : Nat} (hlimit : 0 < limit)
    (hgone : Gone ⟨database, ns, entity_type, node_id⟩ S db) :
    (deletion ⟨database, ns, entity_type, node_id⟩).Ensures
      (fun outgoing db => Gone ⟨database, ns, entity_type, node_id⟩
        (fun e => S e ∨ (outgoing = [] ∧ e.source = ⟨database, ns, entity_type, node_id⟩)) db)
      (list_edges database ns entity_type node_id none limit) db := by
  rw [list_edges_eq, list_start_eq]
  intro db' hinv hrely
  have hrows : EdgeRows (scanned db' (outgoingStart database ns entity_type node_id none) limit) :=
    Paired.edgeRows_outgoing hinv _
  change (deletion _).Ensures _ (outgoingRows database ns entity_type node_id none limit (scanned db' _ limit)) db'
  rw [outgoingRows_eq _ hrows]
  have hgone' := gone_stable S hinv hrely hgone
  refine ⟨hgone'.1, fun e he hmentions hS => ?_⟩
  obtain hS | ⟨hnil, hsource⟩ := hS
  · exact hgone'.2 e he hmentions hS
  · refine Paired.forward_eq_none hinv he fun data hpresent => ?_
    have hrange := range_eq_nil hlimit (rows_eq_nil hrows (map_eq_nil_iff.mp hnil))
    have hmem := (Paired.outgoing_rows hinv).mpr
      ⟨e, data, hpresent, hsource, passes_none _, rfl⟩
    rw [hrange] at hmem
    cases hmem

theorem list_incoming_edges_ensures {S : Triple → Prop} {limit : Nat} (hlimit : 0 < limit)
    (hgone : Gone ⟨database, ns, entity_type, node_id⟩ S db) :
    (deletion ⟨database, ns, entity_type, node_id⟩).Ensures
      (fun incoming db => Gone ⟨database, ns, entity_type, node_id⟩
        (fun e => S e ∨ (incoming = [] ∧ e.target = ⟨database, ns, entity_type, node_id⟩)) db)
      (list_incoming_edges database ns entity_type node_id none limit) db := by
  rw [list_incoming_edges_eq]
  intro db' hinv hrely
  have hrows : EdgeRows (scanned db' (incomingStart database ns entity_type node_id none) limit) :=
    Paired.edgeRows_incoming hinv _
  change (deletion _).Ensures _ (incomingRows database ns entity_type node_id none (scanned db' _ limit)) db'
  rw [incomingRows_eq hrows]
  have hgone' := gone_stable S hinv hrely hgone
  refine ⟨hgone'.1, fun e he hmentions hS => ?_⟩
  obtain hS | ⟨hnil, htarget⟩ := hS
  · exact hgone'.2 e he hmentions hS
  · refine Paired.forward_eq_none hinv he fun data hpresent => ?_
    -- a row of this edge would be listed
    by_cases hscan : scanned db' (incomingStart database ns entity_type node_id none) limit = []
    · have hmem := (Paired.incoming_rows hinv).mpr
        ⟨e, data, hpresent, htarget, passes_none _, rfl⟩
      rw [range_eq_nil hlimit hscan] at hmem
      cases hmem
    · obtain ⟨_, hrow⟩ := exists_mem_of_ne_nil _ hscan
      obtain ⟨e', data', hpresent', htarget', _, rfl⟩ :=
        (Paired.incoming_rows hinv).mp (mem_of_mem_take hrow)
      have hlisted : e'.stored data' ∈ ((scanned db' (incomingStart database ns entity_type node_id none)
          limit).filterMap rowData).filterMap (incomingOf database ns entity_type node_id none) :=
        mem_filterMap.mpr ⟨data', mem_filterMap.mpr ⟨_, hrow, rfl⟩,
          incomingOf_eq hpresent'.names htarget'⟩
      rw [hnil] at hlisted
      cases hlisted

variable {self : Store} (hplain : Plain self.get_schema)

include hplain

/-- A cascade for a node without a record ends only when no edge of it is left. -/
theorem cascade_ensures (emit_cdc : Bool) (rounds total_deleted : Nat)
    (hlive : ¬ Live ⟨database, ns, entity_type, node_id⟩ db) :
    (deletion ⟨database, ns, entity_type, node_id⟩).Ensures
      (fun _ db => Gone ⟨database, ns, entity_type, node_id⟩ (fun _ => True) db)
      (cascade self database ns entity_type node_id emit_cdc rounds total_deleted) db := by
  induction rounds generalizing total_deleted db with
  | zero => trivial
  | succ rounds ih =>
    have hstart : Gone ⟨database, ns, entity_type, node_id⟩ (fun _ => False) db := ⟨hlive, fun _ _ _ h => h.elim⟩
    refine (list_edges_ensures (by decide) hstart).bind fun outgoing _ hgone => ?_
    refine (list_incoming_edges_ensures (by decide) hgone).bind fun incoming _ hgone => ?_
    dsimp only
    split
    · rename_i hempty
      obtain ⟨rfl, rfl⟩ := append_eq_nil_iff.mp (isEmpty_iff.mp hempty)
      refine ⟨hgone.1, fun e he hmentions _ => hgone.2 e he hmentions ?_⟩
      exact hmentions.imp (fun hsource => .inr ⟨rfl, hsource⟩) fun htarget => ⟨rfl, htarget⟩
    · have hplan : (plan_edges self (outgoing ++ incoming) [] []).Effects
          (deletion ⟨database, ns, entity_type, node_id⟩).Allows
          fun planned => ∀ p ∈ planned, ∃ e, p.Of self.get_schema e :=
        Proc.Commits.mono (plan_edges_commits _ _ [] [] (by simp)) (fun _ h => h.elim) fun _ h => h
      refine (Environment.Ensures.of_stable (gone_stable fun _ => False) hplan
        ⟨hgone.1, fun _ _ _ h => h.elim⟩).bind fun _ _ hboth => ?_
      split
      · trivial
      · intro db' db'' hinv hrely hrun _
        have hallows : (deletion ⟨database, ns, entity_type, node_id⟩).Allows db' db'' :=
          EdgeEffect.allowed (cascade_txn_effect _ hboth.1 hrun) hplain fun _ h => h
        exact ih _ ((hallows hinv).2 (hrely hboth.2.1).1).1

/-- A deletion that has taken place leaves no edge of the node. -/
theorem delete_node_ensures (clock : Clock) : (deletion ⟨database, ns, entity_type, node_id⟩).Ensures
      (fun deleted db => deleted = true → Gone ⟨database, ns, entity_type, node_id⟩ (fun _ => True) db)
      (delete_node self.node_store database ns entity_type node_id clock) db := by
  refine delete_node_cases _ _ _ _ _ _ (fun _ => trivial) fun _ id next _ hid hnext db' _ _ => ?_
  have hcell := hnext (db'.rows.get (data_key (Subspace.of_namespace database ns).data entity_type id.to_bytes))
  generalize next _ = p at hcell ⊢
  generalize db'.rows.get _ = cell at hcell
  cases hcell with
  | absent => exact fun h => by cases h
  | fail => trivial
  | commit _ hplan =>
    intro _ db₂ _ _ hrun _
    have hlive : ¬ Live ⟨database, ns, entity_type, node_id⟩ db₂ := by
      rw [not_live_iff]
      intro id' hid'
      obtain rfl : id = id' := some.inj (hid.symm.trans hid')
      exact (recordsLeave_of_clear (beside_delete_txn hplan) hrun).2
    refine (cascade_ensures hplain _ _ 0 hlive).bind fun _ _ hgone => ?_
    -- the guard is a row of the node, so removing it brings back neither record nor edges
    intro db₃ db₄ hinv₃ hrely₃ hrun₃ hinv₄ _
    have hguard : NodeTx database ns entity_type
        (.clear (delete_guard_key (Subspace.of_namespace database ns).data entity_type id.to_bytes)) :=
      (Tx.touches_clear _).mpr (nodeRow_delete_guard_key _)
    have hallows : (deletion ⟨database, ns, entity_type, node_id⟩).Allows db₃ db₄ :=
      EdgeEffect.allowed (hguard.keep hrun₃
        (recordsLeave_of_beside ((Tx.touches_clear _).mpr (.inl ⟨id, rfl⟩)) hrun₃)) hplain fun _ h => h
    exact gone_stable _ hinv₄ (hallows hinv₃).2 (gone_stable _ hinv₃ hrely₃ hgone)

end Cascade

/-- The edge rows of the namespace are those of edges without the node. -/
def NoneMentions (node : NodeRef) (db : Db) : Prop :=
  ∀ k, EdgeRowOf node.database node.ns k → db.rows.get k ≠ none →
    ∃ e : Triple, k ∈ e.rows ∧ e.source ≠ node ∧ e.target ≠ node

theorem Gone.noneMentions {node : NodeRef} {db : Db} (hgone : Gone node (fun _ => True) db)
    (hpaired : Paired node.database node.ns db) : NoneMentions node db := by
  intro k hk hget
  obtain ⟨cell, hcell⟩ := ne_none_iff_exists'.mp hget
  obtain ⟨e, _, hpresent, hmem, _⟩ := Paired.present hpaired hk hcell
  have hforward := hpresent.rows e.forward (by simp [rows])
  have hnot : ¬ e.Mentions node := fun hmentions => by
    rw [hgone.2 e hpresent.within hmentions trivial] at hforward
    cases hforward
  exact ⟨e, hmem, fun h => hnot (.inl h), fun h => hnot (.inr h)⟩

section Runs

variable {J : Type} [DecidableEq J] {schemas : Schemas} {stores : J → Store} {calls : J → EdgeCall}
  {database ns : String} {c c' c'' : Pool Bytes Cell NodeId PelagoError Bool J}
  {valid : Db → List (Bytes × Option Cell) → Prop}

/-- Users' requests on one namespace, started on a database whose edge rows are
paired. -/
structure StartedLocal (schemas : Schemas) (stores : J → Store) (calls : J → EdgeCall) (database ns : String)
    (c : Pool Bytes Cell NodeId PelagoError Bool J) : Prop where
  plain : Plain schemas
  schemas : ∀ j, (stores j).get_schema = schemas
  calls_local : ∀ j, (calls j).Local
  threads : ∀ j, c.threads j = .start ((calls j).proc (stores j) database ns)
  paired : Paired database ns c.db

/-- Once some `delete_node` of a node has returned `Ok(true)`, every edge row of
the namespace is one of an edge that does not have the node as an end, in every
later state. -/
theorem no_dangling_edges (hstart : StartedLocal schemas stores calls database ns c) (hreach : Reach valid c c')
    {j : J} {entity_type node_id : String} {clock : Clock}
    (hcall : calls j = .delete_node entity_type node_id clock) (hreturned : (c'.threads j).proc.returned = some true)
    (hlater : Reach valid c' c'') : NoneMentions ⟨database, ns, entity_type, node_id⟩ c''.db := by
  have hplain : ∀ j, Plain (stores j).get_schema := fun j => by
    rw [hstart.schemas j]
    exact hstart.plain
  have hstable : ∀ deleted : Bool, (deletion ⟨database, ns, entity_type, node_id⟩).Stable fun db =>
      deleted = true → Gone ⟨database, ns, entity_type, node_id⟩ (fun _ => True) db :=
    fun deleted _ _ hinv hrely hgone hdeleted => gone_stable _ hinv hrely (hgone hdeleted)
  have hruns : Environment.Runs (deletion ⟨database, ns, entity_type, node_id⟩)
      (fun deleted db => deleted = true → Gone ⟨database, ns, entity_type, node_id⟩ (fun _ => True) db) j c := by
    refine ⟨hstart.paired, fun i => ?_, ?_⟩
    · rw [hstart.threads i]
      exact EdgeCall.allowed (hstart.calls_local i) (hplain i)
    · rw [hstart.threads j, hcall]
      exact delete_node_ensures (hplain j) _
  have hruns' := hruns.reach hstable hreach
  have hgone : Gone ⟨database, ns, entity_type, node_id⟩ (fun _ => True) c'.db := by
    have hensures := hruns'.ensures
    rw [Proc.eq_done_of_returned hreturned] at hensures
    exact hensures rfl
  have hgone' := hruns'.keeps hstable hlater (gone_stable _) hgone
  exact hgone'.noneMentions (hruns'.reach hstable hlater).inv

end Runs

theorem meeting_local : StartedLocal friends.get_schema (fun _ : Bool => friends) meeting "db" "ns" meetingPool where
  plain := friends_plain
  schemas _ := rfl
  calls_local j := by cases j <;> trivial
  threads _ := rfl
  paired := paired_of_noEdges twoPeople_noEdges

/-- The two have met before one of them is deleted. -/
def farewell : List (Bool × NodeId) :=
  List.replicate 2 (true, ⟨1, 7⟩) ++ List.replicate 9 (false, ⟨1, 7⟩)

theorem farewell_leaves_no_edges :
    ((meetingPool.schedule farewell).threads false).proc.returned = some true ∧
    NoneMentions ⟨"db", "ns", "Person", NodeId.to_string ⟨1, 2⟩⟩ (meetingPool.schedule farewell).db := by
  have hreturned : ((meetingPool.schedule farewell).threads false).proc.returned = some true := by decide +kernel
  exact ⟨hreturned, no_dangling_edges meeting_local (Pool.reach_schedule _ farewell) rfl hreturned .refl⟩

end pelago_storage.edge
