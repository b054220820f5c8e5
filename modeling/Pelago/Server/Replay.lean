import Pelago.Kv.Register
import Pelago.Server.Replicator
import Pelago.Storage.Node.PropertyIndex
import Pelago.Storage.Node.SiteRuns
import Pelago.Storage.Node.TermConsistency

open bytes kv pelago_core pelago_storage pelago_storage.index pelago_storage.node pelago_storage.term_index

namespace pelago_server.replicator

open Option Deployment

/-- A replicated node as a register. -/
abbrev NodeEntry := register.Entry Properties UInt8

abbrev NodeOp := register.Op Properties Properties UInt8

def nodeRules (entity_type : String) (schema : EntitySchema) : register.Rules Properties Properties where
  merge := Properties.overlay
  valid properties := decide (validate_properties entity_type schema properties = .ok ())
  same := Properties.eq

theorem nodeRules_merge (entity_type : String) (schema : EntitySchema) (properties patch : Properties) :
    (nodeRules entity_type schema).merge properties patch = properties.overlay patch := rfl

/-- The record of an entry. -/
def nodeData (entry : NodeEntry) : NodeData := ⟨entry.value, entry.owner, entry.created, entry.updated⟩

/-- An event of the register as the log has it. -/
def cdcOperation (entity_type node_id origin_site : String) (actor : UInt8) : NodeOp → CdcOperation
  | .create properties => .NodeCreate entity_type node_id properties origin_site
  | .update patch old => .NodeUpdate entity_type node_id patch old
  | .delete => .NodeDelete entity_type node_id
  | .transfer target =>
    .OwnershipTransfer entity_type node_id (Nat.repr actor.toNat) (Nat.repr target.toNat)

/-- Values whose equality is that of their bytes, under names that are not
reserved. -/
structure Clean (properties : Properties) : Prop where
  discrete : ∀ field v, properties.get field = some v → v.isFloat = false ∧ v.isTimestamp = false
  noTemplateField : NoTemplateField properties

section Clean

variable {properties patch : Properties}

theorem Clean.plain (h : Clean properties) : Plain properties := by
  intro _ v hget
  obtain ⟨hfloat, htimestamp⟩ := h.discrete _ v hget
  cases v with
  | float => cases hfloat
  | timestamp => cases htimestamp
  | _ => rfl

theorem Clean.overlay (h : Clean properties) (hpatch : Clean patch) : Clean (properties.overlay patch) := by
  refine ⟨fun _ v hget => ?_, ?_⟩
  · rw [Properties.get_overlay, or_eq_some_iff] at hget
    obtain hget | ⟨_, hget⟩ := hget
    · exact hpatch.discrete _ v hget
    · exact h.discrete _ v hget
  · obtain ⟨hfirst, hsecond⟩ := h.noTemplateField
    obtain ⟨hfirst', hsecond'⟩ := hpatch.noTemplateField
    refine ⟨?_, ?_⟩ <;> rw [Properties.get_overlay]
    · rw [hfirst, hfirst']
      rfl
    · rw [hsecond, hsecond']
      rfl

end Clean

/-- A replica whose indexes are exact, with the given entry for one node and the
other nodes as in `w₀`. -/
structure Holding (dep : Deployment) (schema : EntitySchema) (id : NodeId) (w₀ w : ids.World)
    (cell : Option NodeEntry) : Prop where
  record : dep.record w.db id = cell.map fun entry => .node (nodeData entry)
  others : ∀ id', id' ≠ id → dep.record w.db id' = dep.record w₀.db id'
  clean : ∀ entry, cell = some entry → Clean entry.value
  entries : EntriesExact dep schema w.db
  terms : TermsExact dep w.db
  readable : CountersReadable dep.subspace dep.entity_type w.db
  edges : NoEdges dep.database dep.ns w.db
  live : liveCount dep w.db = liveCount dep w₀.db + if cell.isSome then 1 else 0

section Holding

variable {dep : Deployment} {schema : EntitySchema} {id : NodeId} {w₀ w : ids.World} {cell cell' : Option NodeEntry}

theorem Holding.record_eq {entry : NodeEntry} (h : Holding dep schema id w₀ w (some entry)) :
    dep.record w.db id = some (.node (nodeData entry)) := h.record

private theorem clean_propsOf (hclean : ∀ entry, cell = some entry → Clean entry.value) :
    NoTemplateField (propsOf (cell.map nodeData)) ∧
      ∀ field v, (propsOf (cell.map nodeData)).get field = some v → v.isFloat = false := by
  cases cell with
  | none => exact ⟨⟨rfl, rfl⟩, fun _ v h => by cases h⟩
  | some entry =>
    exact ⟨(hclean _ rfl).noTemplateField, fun field v h => ((hclean _ rfl).discrete field v h).1⟩

/-- Clean properties come back from storage as they are. -/
private theorem encode_nodeData {entry : NodeEntry} (h : Clean entry.value) :
    encode_cbor (nodeData entry) = .node (nodeData entry) := by
  rw [encode_cbor, NodeData.stored, nodeData, h.plain.stored]

private theorem encode_cells (hclean : ∀ entry, cell = some entry → Clean entry.value) :
    (cell.map nodeData).map encode_cbor = cell.map fun entry => .node (nodeData entry) := by
  cases cell with
  | none => rfl
  | some entry => exact congrArg _ (encode_nodeData (hclean _ rfl))

variable (hunique : ∀ property prop_def, schema.properties.get property = some prop_def →
    prop_def.index ≠ .unique)
  (hroom : liveCount dep w₀.db + 1 < 2 ^ 63)

include hunique hroom

/-- A change of the node with its index work. -/
theorem Holding.change {db' : Db} (h : Holding dep schema id w₀ w cell)
    (hclean : ∀ entry, cell' = some entry → Clean entry.value) (hchange : dep.Changes schema id (cell.map nodeData)
      (cell'.map nodeData) w.db db') (hedges : NoEdges dep.database dep.ns db') :
    Holding dep schema id w₀ ⟨db', w.mem⟩ cell' := by
  have hbefore : dep.record w.db id = (cell.map nodeData).map .node := by
    rw [h.record, map_map]
    rfl
  obtain ⟨hfield, hfloat⟩ := clean_propsOf h.clean
  have hcount := liveCount_change hchange hbefore
  have hlive : liveCount dep db' = liveCount dep w₀.db + if cell'.isSome then 1 else 0 := by
    rw [h.live, isSome_map] at hcount
    split at hcount <;> split at hcount <;> split <;> simp_all <;> omega
  refine ⟨?_, ?_, hclean, ?_, ?_, hchange.readable h.readable, hedges, hlive⟩
  · exact hchange.record.trans (encode_cells hclean)
  · intro id' hid
    exact (hchange.others _ hid).trans (h.others _ hid)
  · refine h.entries.change hchange hbefore ?_ ?_
    · intro _ _ _ _ hindexed _ heq
      exact Value.eq_of_not_float heq (hfloat _ _ hindexed.held)
    · intro _ kind _ hindexed _ d _ _ _ hid _ hindexed' hkey
      have hkind : kind ≠ .none := hindexed.elim Indexed.indexed Indexed.indexed
      obtain ⟨rfl, rfl, _, rfl | hsame⟩ := entryFor_key_eq hindexed'.indexed hkind hkey
      · obtain ⟨prop_def, hdef, hindex⟩ := hindexed'.defined
        exact hunique _ _ hdef hindex
      · exact hid hsame
  · refine h.terms.change hchange hbefore hfield (clean_propsOf hclean).1 ?_ ?_
    · rw [h.live]
      split <;> omega
    · rw [hlive]
      split <;> omega

omit hunique hroom in
/-- A change of owner and time only. -/
theorem Holding.putRecord {entry : NodeEntry} (h : Holding dep schema id w₀ w (some entry)) (entry' : NodeEntry)
    (hvalue : entry'.value = entry.value) :
    Holding dep schema id w₀ ⟨dep.putRecord w.db id (nodeData entry'), w.mem⟩ (some entry') := by
  have hclean : Clean entry'.value := hvalue ▸ h.clean entry rfl
  have hrecord : ∀ id', dep.record (dep.putRecord w.db id (nodeData entry')) id' =
      if id' = id then some (.node (nodeData entry')) else dep.record w.db id' := by
    intro id'
    rw [record_putRecord, encode_nodeData hclean]
  have hsame : SameProperties dep w.db (dep.putRecord w.db id (nodeData entry')) := by
    refine ⟨fun id' => ?_, fun id' => ?_⟩ <;> by_cases hid : id' = id
    · subst hid
      rw [properties, properties, hrecord, if_pos rfl, h.record_eq]
      exact congrArg some hvalue.symm
    · rw [properties, properties, hrecord, if_neg hid]
    · subst hid
      rw [hrecord, if_pos rfl, h.record_eq]
      rfl
    · rw [hrecord, if_neg hid]
  have hindex := putRecord_index dep w.db id (nodeData entry')
  refine ⟨?_, ?_, ?_, ?_, ?_, putRecord_readable h.readable _ _, putRecord_noEdges h.edges _ _, ?_⟩
  · rw [hrecord, if_pos rfl]
    rfl
  · intro id' hid
    rw [hrecord, if_neg hid]
    exact h.others id' hid
  · rintro _ ⟨⟩
    exact hclean
  · exact h.entries.of_same (fun k hk => (hindex k hk.indexRow).symm) hsame
  · exact h.terms.of_same (fun k hk => (hindex k hk).symm) hsame
  · rw [← liveCount_congr hsame]
    exact h.live

end Holding

/-- The data an event brings is clean. -/
def CleanOp : NodeOp → Prop
  | .create properties => Clean properties
  | .update patch _ => Clean patch
  | _ => True

section Refinement

variable {dep : Deployment} {schema : EntitySchema} {node_id origin_site : String} {id : NodeId} {actor : UInt8}
  {w₀ w : ids.World} {cell : Option NodeEntry}
  (hschema : dep.store.get_schema dep.database dep.ns dep.entity_type = some schema)
  (hunique : ∀ property prop_def, schema.properties.get property = some prop_def → prop_def.index ≠ .unique)
  (hid : NodeId.from_str node_id = some id) (hsite : parse_u8 origin_site = some actor)
  (hroom : liveCount dep w₀.db + 1 < 2 ^ 63)

private theorem valid_iff {properties : Properties} : (nodeRules dep.entity_type schema).valid properties = true ↔
      validate_properties dep.entity_type schema properties = .ok () := decide_eq_true_iff

include hschema hunique hid hsite hroom

private theorem Holding.create (h : Holding dep schema id w₀ w cell) {properties : Properties}
    (hclean : Clean properties) (timestamp : Int) : Holding dep schema id w₀
      (replay_op dep origin_site w (timestamp, .NodeCreate dep.entity_type node_id properties origin_site)).2
      (register.apply (nodeRules dep.entity_type schema) actor cell (timestamp, .create properties)) := by
  cases cell with
  | some =>
    rw [replay_create rfl]
    rw [replica_create_unchanged hschema hid hsite (.inr ⟨_, h.record_eq⟩)]
    exact h
  | none =>
    by_cases hvalid : validate_properties dep.entity_type schema properties = .ok ()
    · obtain ⟨db', hrun, hchange, hedges⟩ :=
        replica_create_absent hschema hid hvalid hsite h.record h.readable _
      rw [replay_create hrun, register.apply_create_none, if_pos (valid_iff.mpr hvalid)]
      refine h.change hunique hroom ?_ hchange (hedges h.edges)
      rintro _ ⟨⟩
      exact hclean
    · rw [replay_create rfl, register.apply_create_none, if_neg fun hv => hvalid (valid_iff.mp hv)]
      rw [replica_create_unchanged hschema hid hsite (.inl hvalid)]
      exact h

private theorem Holding.update (h : Holding dep schema id w₀ w cell) {patch old : Properties}
    (hclean : Clean patch) (timestamp : Int) : Holding dep schema id w₀
      (replay_op dep origin_site w (timestamp, .NodeUpdate dep.entity_type node_id patch old)).2
      (register.apply (nodeRules dep.entity_type schema) actor cell (timestamp, .update patch old)) := by
  have hskip : (∀ d, dep.record w.db id = some (.node d) → UpdateStale d actor old timestamp ∨
      validate_properties dep.entity_type schema (d.properties.overlay patch) ≠ .ok ()) →
      (replay_op dep origin_site w (timestamp, .NodeUpdate dep.entity_type node_id patch old)).2 = w := by
    intro hskip
    rw [replay_update rfl]
    exact replica_update_unchanged hschema hid hsite hskip
  cases cell with
  | none =>
    rw [hskip fun d hd => by rw [h.record] at hd; cases hd]
    exact h
  | some entry =>
    have hread : ∀ d, dep.record w.db id = some (.node d) → d = nodeData entry := by
      intro d hd
      rw [h.record_eq] at hd
      exact (Cell.node.inj (some.inj hd)).symm
    rw [register.apply_update_some, nodeRules_merge]
    by_cases hstale : register.Stale (nodeRules dep.entity_type schema) actor entry timestamp old
    · rw [hskip fun d hd => .inl (hread d hd ▸ hstale), if_pos hstale]
      exact h
    rw [if_neg hstale]
    by_cases hvalid : validate_properties dep.entity_type schema (entry.value.overlay patch) = .ok ()
    · obtain ⟨db', hrun, hchange, hedges⟩ :=
        replica_update_applied hschema hid hsite h.record_eq hstale hvalid h.readable
      rw [replay_update hrun, if_pos (valid_iff.mpr hvalid)]
      refine h.change hunique hroom ?_ ?_ (hedges h.edges)
      · rintro _ ⟨⟩
        exact (h.clean _ rfl).overlay hclean
      · have howner : (if entry.owner ≠ actor then actor else entry.owner) = actor := by
          split
          · rfl
          · rename_i heq
            exact not_not.mp heq
        rw [updatedRecord, nodeData, howner] at hchange
        exact hchange
    · rw [hskip fun d hd => .inr (hread d hd ▸ hvalid), if_neg fun hv => hvalid (valid_iff.mp hv)]
      exact h

private theorem Holding.delete (h : Holding dep schema id w₀ w cell) (timestamp : Int) : Holding dep schema id w₀
      (replay_op dep origin_site w (timestamp, .NodeDelete dep.entity_type node_id)).2
      (register.apply (nodeRules dep.entity_type schema) actor cell (timestamp, .delete)) := by
  cases cell with
  | none =>
    rw [replay_delete rfl]
    rw [replica_delete_unchanged hschema hid hsite fun d hd => by rw [h.record] at hd; cases hd]
    exact h
  | some entry =>
    rw [register.apply_delete_some]
    by_cases hstale : entry.owner ≠ actor ∧ timestamp ≤ entry.updated
    · rw [if_pos hstale, replay_delete rfl]
      dsimp only
      rw [replica_delete_unchanged hschema hid hsite fun d hd => ?_]
      · exact h
      · rw [h.record_eq] at hd
        obtain ⟨⟩ := hd
        exact hstale
    · obtain ⟨db', hrun, hchange, hedges⟩ :=
        replica_delete_applied hschema hid hsite h.record_eq hstale h.readable h.edges
      rw [if_neg hstale, replay_delete hrun]
      refine h.change hunique hroom ?_ hchange hedges
      rintro _ ⟨⟩

omit hschema hunique hroom in
private theorem Holding.transfer (h : Holding dep schema id w₀ w cell) (target : UInt8) (timestamp : Int) :
    Holding dep schema id w₀
      (replay_op dep origin_site w (timestamp, .OwnershipTransfer dep.entity_type node_id (Nat.repr actor.toNat)
        (Nat.repr target.toNat))).2
      (register.apply (nodeRules dep.entity_type schema) actor cell (timestamp, .transfer target)) := by
  cases cell with
  | none =>
    rw [replay_transfer rfl]
    dsimp only
    rw [replica_transfer_unchanged dep timestamp hid hsite (parse_u8_repr actor) (parse_u8_repr target)
      fun d hd => by rw [h.record] at hd; cases hd]
    exact h
  | some entry =>
    rw [register.apply_transfer_some]
    by_cases hstale : entry.owner ≠ actor ∧ entry.updated > timestamp
    · rw [if_pos hstale, replay_transfer rfl]
      dsimp only
      rw [replica_transfer_unchanged dep timestamp hid hsite (parse_u8_repr actor) (parse_u8_repr target)
        fun d hd => ?_]
      · exact h
      · rw [h.record_eq] at hd
        obtain ⟨⟩ := hd
        exact hstale
    · rw [if_neg hstale, replay_transfer (replica_transfer_applied dep timestamp hid hsite (parse_u8_repr actor)
        (parse_u8_repr target) h.record_eq hstale)]
      exact h.putRecord ⟨entry.value, target, entry.created, timestamp⟩ rfl

/-- Applying an operation at a replica does to the node what its event does to
the register. -/
theorem Holding.step (h : Holding dep schema id w₀ w cell) {op : NodeOp} (hclean : CleanOp op) (timestamp : Int) :
    Holding dep schema id w₀
      (replay_op dep origin_site w (timestamp, cdcOperation dep.entity_type node_id origin_site actor op)).2
      (register.apply (nodeRules dep.entity_type schema) actor cell (timestamp, op)) := by
  cases op with
  | create => exact h.create hschema hunique hid hsite hroom hclean _
  | update => exact h.update hschema hunique hid hsite hroom hclean _
  | delete => exact h.delete hschema hunique hid hsite hroom _
  | transfer target => exact h.transfer hid hsite ..

/-- So does a sequence of operations. -/
theorem Holding.replay {events : List (Int × NodeOp)} (h : Holding dep schema id w₀ w cell)
    (hclean : ∀ event ∈ events, CleanOp event.2) :
    Holding dep schema id w₀
      (replicator.replay dep origin_site (events.map fun event =>
        (event.1, cdcOperation dep.entity_type node_id origin_site actor event.2)) w).2
      (register.run (nodeRules dep.entity_type schema) actor events cell) := by
  induction events generalizing w cell with
  | nil => exact h
  | cons event _ ih =>
    exact ih (h.step hschema hunique hid hsite hroom (hclean _ List.mem_cons_self) _)
      fun e he => hclean e (List.mem_cons_of_mem _ he)

end Refinement

open List

section History

variable {entity_type : String} {schema : EntitySchema} {history : NodeHistory}

end History

end pelago_server.replicator
