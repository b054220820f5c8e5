import Pelago.Storage.Node.Runs

open bytes kv pelago_core pelago_core.encoding
open pelago_storage.index pelago_storage.term_index List kv.OrdMap pelago_storage.node.Deployment

namespace pelago_storage.node

open Option NodeId

abbrev Deployment.postingKey (dep : Deployment) (id : NodeId) (term : TermKey) : Bytes :=
  (postingOf dep.subspace dep.entity_type id.to_bytes term).key

abbrev Deployment.isPosting (dep : Deployment) (term : TermKey) : Bytes → Bool :=
  nodeKey ( posting_prefix dep.subspace.index dep.entity_type term.field term.encoded_value)

/-- How many postings a term has. -/
def postingCount (dep : Deployment) (db : Db) (term : TermKey) : Nat :=
  db.rows.countKeys
    (nodeKey ( posting_prefix dep.subspace.index dep.entity_type term.field term.encoded_value))

/-- How many nodes of the type are live. -/
def liveCount (dep : Deployment) (db : Db) : Nat :=
  db.rows.countKeys (nodeKey (data_key dep.subspace.data dep.entity_type []))

/-- The postings are those of the terms of the live nodes, and the counters are
exact. A counter of zero has no row. -/
structure TermsExact (dep : Deployment) (db : Db) : Prop where
  postings : ∀ k c, PostingRow dep.subspace dep.entity_type k →
    (db.rows.get k = some c ↔ c = .raw [] ∧ ∃ id d term, dep.record db id = some (.node d) ∧
      term ∈ termsOf d.properties ∧ k = (postingOf dep.subspace dep.entity_type id.to_bytes term).key)
  document_frequency : ∀ term : TermKey,
    db.rows.get (df_key dep.subspace.index dep.entity_type term.field term.encoded_value) =
      counterCell (postingCount dep db term)
  n_docs : db.rows.get (n_docs_key dep.subspace.index dep.entity_type) = counterCell (liveCount dep db)

section Change

variable {dep : Deployment} {schema : EntitySchema} {id : NodeId} {old new : Option NodeData} {db db' : Db}

/-- What a change of one record does to postings and counters. -/
private theorem RecordChange.terms (h : dep.Changes schema id old new db db') : ∃ additions removals : List TermKey,
      (∀ term, term ∈ additions ↔ term ∈ termsOf (propsOf new) ∧ term ∉ termsOf (propsOf old)) ∧
      (∀ term, term ∈ removals ↔ term ∈ termsOf (propsOf old) ∧ term ∉ termsOf (propsOf new)) ∧
      (NoTemplateField (propsOf new) → additions.Nodup) ∧ (NoTemplateField (propsOf old) → removals.Nodup) ∧
      (∀ k, PostingRow dep.subspace dep.entity_type k → db'.rows.get k =
        if k ∈ additions.map fun term => dep.postingKey id term then some (.raw [])
        else if k ∈ removals.map fun term => dep.postingKey id term then none
        else db.rows.get k) ∧ ∀ (count count' : TermKey → Nat) (docs docs' : Nat), (∀ term, count term < 2 ^ 63) →
        (∀ term, count' term < 2 ^ 63) → docs < 2 ^ 63 → docs' < 2 ^ 63 →
        (∀ term, (count' term : Int) = count term + additions.count term - removals.count term) →
        (docs' : Int) = docs + ((if new.isSome then 1 else 0) - (if old.isSome then 1 else 0)) →
        CountersExact dep.subspace dep.entity_type count docs db →
        CountersExact dep.subspace dep.entity_type count' docs' db' := by
  obtain ⟨removals, _, _, _, _, _, hplan, hbefore, hrun, hafter⟩ := h.index
  obtain ⟨termAdditions, termRemovals, rfl, hspec⟩ := hplan.spec
  refine ⟨termAdditions, termRemovals, hspec.mem_termAdditions, hspec.mem_termRemovals,
    hspec.additions_nodup, hspec.removals_nodup, ?_, ?_⟩
  · intro k hk
    rw [hafter k (indexRow_of_postingRow hk), change_index_rows_posting hspec.removal_at hspec.addition_at hrun hk,
      hbefore k (indexRow_of_postingRow hk)]
  · intro _ _ _ _ hlt hlt' hdocs hdocs' hsum hsumDocs hexact
    have hdelta := hspec.docs
    simp only [isSome_map] at hdelta
    refine (change_index_rows_counters hspec.removal_at hspec.addition_at hrun hlt hlt' hdocs hdocs' hsum
      (hdelta ▸ hsumDocs) (hexact.congr fun k hk => ?_)).congr fun k hk => ?_
    · exact hbefore _ (indexRow_of_counterRow hk)
    · exact hafter _ (indexRow_of_counterRow hk)

private theorem exists_posting_of_same (h : SameProperties dep db db') {k : Bytes} :
    (∃ id d term, dep.record db id = some (.node d) ∧ term ∈ termsOf d.properties ∧ k = dep.postingKey id term) →
    ∃ id d term, dep.record db' id = some (.node d) ∧ term ∈ termsOf d.properties ∧ k = dep.postingKey id term := by
  rintro ⟨id, d, term, hd, _, hkey⟩
  obtain ⟨d', hd', hproperties⟩ := h.record hd
  exact ⟨id, d', term, hd', by rwa [hproperties], hkey⟩

theorem postingCount_congr (hagree : Agree (PostingRow dep.subspace dep.entity_type) db db')
    (term : TermKey) : postingCount dep db term = postingCount dep db' term := by
  refine countKeys_congr _ fun k hk => ?_
  obtain ⟨id, rfl⟩ := postingRow_of_nodeKey hk
  rw [hagree _ (postingRow_postingOf ..)]

theorem liveCount_congr (hsame : SameProperties dep db db') : liveCount dep db = liveCount dep db' := by
  refine countKeys_congr _ fun k hk => ?_
  obtain ⟨id, rfl⟩ := nodeKey_eq_true.mp hk
  rw [← data_key_append]
  exact hsame.live id

section

variable (h : TermsExact dep db)
include h

/-- Exact postings are determined by the properties of the live nodes. -/
theorem TermsExact.agree (h' : TermsExact dep db') (hsame : SameProperties dep db db') :
    Agree (PostingRow dep.subspace dep.entity_type) db db' := by
  intro k hk
  refine ext fun c => ?_
  rw [h.postings k c hk, h'.postings k c hk]
  exact and_congr_right fun _ => ⟨exists_posting_of_same hsame, exists_posting_of_same hsame.symm⟩

/-- Only index rows and properties matter. -/
theorem TermsExact.of_same
    (hagree : Agree (IndexRow dep.subspace dep.entity_type) db db') (hsame : SameProperties dep db db') :
    TermsExact dep db' := by
  have hpostings : Agree (PostingRow dep.subspace dep.entity_type) db db' :=
    fun k hk => hagree k (indexRow_of_postingRow hk)
  refine ⟨?_, ?_, ?_⟩
  · intro k c hk
    rw [← hpostings k hk, h.postings k c hk]
    exact and_congr_right fun _ => ⟨exists_posting_of_same hsame, exists_posting_of_same hsame.symm⟩
  · intro term
    rw [← hagree _ (indexRow_of_counterRow (counterRow_df_key ..)), ← postingCount_congr hpostings]
    exact h.document_frequency _
  · rw [← hagree _ (indexRow_of_counterRow counterRow_n_docs_key), ← liveCount_congr hsame]
    exact h.n_docs

theorem TermsExact.congr (hagree : Agree dep.typeRow db db') : TermsExact dep db' :=
  h.of_same (fun k hk => hagree k (.inl hk)) (sameProperties_of_records (recordOf_congr hagree))

/-- The postings of one node, which may be absent. -/
theorem TermsExact.posting_get (hbefore : dep.record db id = old.map .node)
    (term : TermKey) : db.rows.get (dep.postingKey id term) =
      if term ∈ termsOf (propsOf old) then some (.raw []) else none := by
  split
  · rename_i hterm
    cases old with
    | none => cases hterm
    | some d => exact (h.postings _ _ (postingRow_postingOf ..)).mpr ⟨rfl, id, d, term, hbefore, hterm, rfl⟩
  · rename_i hterm
    cases hget : db.rows.get (dep.postingKey id term) with
    | none => rfl
    | some =>
      obtain ⟨_, _, d, _, hd, hterm', hkey⟩ := (h.postings _ _ (postingRow_postingOf ..)).mp hget
      obtain ⟨rfl, hid⟩ := postingOf_key_inj (by simp) hkey
      obtain rfl := to_bytes_inj hid
      rw [hbefore, map_eq_some_iff] at hd
      obtain ⟨_, rfl, hnode⟩ := hd
      rw [Cell.node.inj hnode] at hterm
      exact absurd hterm' hterm

end

/-- A term has no more postings than there are live nodes. -/
theorem postingCount_le_liveCount (h : ∀ k c, PostingRow dep.subspace dep.entity_type k → db.rows.get k = some c →
      ∃ id d term, dep.record db id = some (.node d) ∧ k = dep.postingKey id term) (term : TermKey) :
    postingCount dep db term ≤ liveCount dep db := by
  -- A posting is mapped to the record of the node it names.
  have hnode : ∀ id : NodeId, (dep.postingKey id term).drop
      ( posting_prefix dep.subspace.index dep.entity_type term.field term.encoded_value).length = id.to_bytes := by
    intro _
    rw [postingKey, postingOf_key, drop_left]
  refine countKeys_le _ (fun k => data_key dep.subspace.data dep.entity_type
    (k.drop ( posting_prefix dep.subspace.index dep.entity_type term.field term.encoded_value).length)) ?_ ?_
  · intro k c hget hk
    obtain ⟨id, rfl⟩ := postingRow_of_nodeKey hk
    obtain ⟨id', d, _, hd, hkey⟩ := h _ c (postingRow_postingOf ..) hget
    obtain ⟨_, hid⟩ := postingOf_key_inj (by simp) hkey
    obtain rfl := to_bytes_inj hid
    rw [hnode]
    exact ⟨_, hd, nodeKey_eq_true.mpr ⟨id, data_key_append ..⟩⟩
  · intro k _ hk hk' heq
    obtain ⟨id, rfl⟩ := postingRow_of_nodeKey hk
    obtain ⟨id', rfl⟩ := postingRow_of_nodeKey hk'
    rw [hnode, hnode] at heq
    rw [data_key_inj heq]

theorem TermsExact.postingCount_le (h : TermsExact dep db) (term : TermKey) :
    postingCount dep db term ≤ liveCount dep db := by
  refine postingCount_le_liveCount (fun k c hk hget => ?_) _
  obtain ⟨_, id, d, term, hd, _, hkey⟩ := (h.postings k c hk).mp hget
  exact ⟨id, d, term, hd, hkey⟩

/-- The number of live nodes after a change. -/
theorem liveCount_change (hchange : dep.Changes schema id old new db db')
    (hbefore : dep.record db id = old.map .node) : (liveCount dep db' : Int) =
      liveCount dep db + ((if new.isSome then 1 else 0) - (if old.isSome then 1 else 0)) := by
  have hown : nodeKey (data_key dep.subspace.data dep.entity_type [])
      (data_key dep.subspace.data dep.entity_type id.to_bytes) = true :=
    nodeKey_eq_true.mpr ⟨id, data_key_append ..⟩
  -- Record rows other than the node's own stay.
  have hrows : ∀ rows : OrdMap Bytes Cell,
      (rows.get (data_key dep.subspace.data dep.entity_type id.to_bytes)).isSome = new.isSome →
      (∀ k, k ≠ data_key dep.subspace.data dep.entity_type id.to_bytes → rows.get k = db.rows.get k) →
      liveCount dep db' = rows.countKeys (nodeKey (data_key dep.subspace.data dep.entity_type [])) := by
    intro rows hsome hother
    refine countKeys_congr _ fun k hk => ?_
    obtain ⟨id', rfl⟩ := nodeKey_eq_true.mp hk
    rw [← data_key_append]
    by_cases hid : id' = id
    · subst hid
      rw [hsome]
      have hrecord := hchange.record
      rw [recordOf] at hrecord
      rw [hrecord, isSome_map]
    · rw [hother _ fun hkey => hid (to_bytes_inj (data_key_inj hkey))]
      exact congrArg _ (hchange.others _ hid)
  cases old with
  | none =>
    cases new with
    | none =>
      rw [hrows _ (by rw [show db.rows.get _ = none from hbefore]; rfl) fun _ _ => rfl]
      simp [liveCount]
    | some d =>
      rw [hrows (db.rows.set _ (encode_cbor d)) (by rw [get_set_self]; rfl)
        fun k hk => get_set_of_ne _ _ hk, countKeys_set_of_none _ _ _ hbefore, if_pos hown]
      simp [liveCount]
  | some =>
    cases new with
    | none =>
      have hclear := countKeys_clear_of_some
        (nodeKey (data_key dep.subspace.data dep.entity_type [])) _ (k :=
          data_key dep.subspace.data dep.entity_type id.to_bytes) hbefore
      rw [if_pos hown] at hclear
      rw [hrows _ (by rw [get_clear_self]; rfl)
        fun k hk => get_clear_of_ne _ hk]
      simp [liveCount]
      omega
    | some =>
      rw [hrows _ (by rw [show db.rows.get _ = _ from hbefore]; rfl) fun _ _ => rfl]
      simp [liveCount]

section Postings

variable {additions removals : List TermKey}
  (hadditions : ∀ term, term ∈ additions ↔ term ∈ termsOf (propsOf new) ∧ term ∉ termsOf (propsOf old))
  (hremovals : ∀ term, term ∈ removals ↔ term ∈ termsOf (propsOf old) ∧ term ∉ termsOf (propsOf new))
  (hrows : ∀ k, PostingRow dep.subspace dep.entity_type k → db'.rows.get k =
    if k ∈ additions.map fun term => (postingOf dep.subspace dep.entity_type id.to_bytes term).key then
      some (.raw [])
    else if k ∈ removals.map fun term => (postingOf dep.subspace dep.entity_type id.to_bytes term).key then none
    else db.rows.get k)

private theorem mem_posting_keys {terms : List TermKey} {id' : NodeId} {term : TermKey} :
    ((dep.postingKey id' term) ∈ terms.map fun term => dep.postingKey id term) ↔ id' = id ∧ term ∈ terms := by
  rw [List.mem_map]
  constructor
  · rintro ⟨term', hterm', hkey⟩
    obtain ⟨rfl, hid⟩ := postingOf_key_inj (by simp) hkey
    exact ⟨(to_bytes_inj hid).symm, hterm'⟩
  · rintro ⟨rfl, hterm⟩
    exact ⟨term, hterm, rfl⟩

include hadditions hremovals hrows

/-- The postings after a change: those of the new record at the node, and all
others as before. -/
private theorem TermsExact.posting_change (h : TermsExact dep db) (hbefore : dep.record db id = old.map .node)
    (id' : NodeId) (term : TermKey) : db'.rows.get (dep.postingKey id' term) =
      if id' = id then if term ∈ termsOf (propsOf new) then some (.raw []) else none
      else db.rows.get (dep.postingKey id' term) := by
  rw [hrows _ (postingRow_postingOf ..)]
  simp only [mem_posting_keys]
  by_cases hid : id' = id
  · subst hid
    simp only [true_and, ↓reduceIte, hadditions, hremovals, h.posting_get hbefore _]
    by_cases hnew : term ∈ termsOf (propsOf new) <;> by_cases hold : term ∈ termsOf (propsOf old) <;>
      simp [hnew, hold]
  · simp only [hid, false_and, ↓reduceIte]

private theorem TermsExact.postings_change (h : TermsExact dep db) (hbefore : dep.record db id = old.map .node)
    (hchange : dep.Changes schema id old new db db') (k : Bytes) (c : Cell)
    (hk : PostingRow dep.subspace dep.entity_type k) :
    db'.rows.get k = some c ↔ c = .raw [] ∧ ∃ id d term, dep.record db' id = some (.node d) ∧
      term ∈ termsOf d.properties ∧ k = dep.postingKey id term := by
  have hposting := h.posting_change hadditions hremovals hrows hbefore
  constructor
  · intro hget
    -- Every row is a posting of some node, added now or there before.
    obtain ⟨id', term, rfl⟩ : ∃ (id' : NodeId) (term : TermKey),
        k = dep.postingKey id' term := by
      rw [hrows k hk] at hget
      split at hget
      · rename_i hmem
        obtain ⟨term, _, rfl⟩ := mem_map.mp hmem
        exact ⟨id, term, rfl⟩
      split at hget
      · cases hget
      · obtain ⟨_, id', _, term, _, _, hkey⟩ := (h.postings k c hk).mp hget
        exact ⟨id', term, hkey⟩
    rw [hposting] at hget
    split at hget
    · rename_i hid
      subst hid
      split at hget
      · rename_i hterm
        cases new with
        | none => cases hterm
        | some d =>
          refine ⟨(some.inj hget).symm, id', d.stored, term, hchange.record, ?_, rfl⟩
          rw [NodeData.stored, termsOf_storedProperties]
          exact hterm
      · cases hget
    · rename_i hid
      obtain ⟨hc, _, d, _, hd, hterm, hkey⟩ := (h.postings _ c hk).mp hget
      obtain ⟨rfl, hid₁⟩ := postingOf_key_inj (by simp) hkey
      obtain rfl := to_bytes_inj hid₁
      refine ⟨hc, id', d, term, ?_, hterm, rfl⟩
      exact (hchange.others _ hid).trans hd
  · rintro ⟨rfl, id', d, term, hd, hterm, rfl⟩
    rw [hposting]
    split
    · rename_i hid
      rw [hid, record, hchange.record, map_eq_some_iff] at hd
      obtain ⟨given, rfl, hstored⟩ := hd
      rw [← Cell.node.inj hstored, NodeData.stored, termsOf_storedProperties] at hterm
      exact if_pos hterm
    · rename_i hid
      rw [record, hchange.others _ hid] at hd
      exact (h.postings _ _ hk).mpr ⟨rfl, id', d, term, hd, hterm, rfl⟩

/-- The postings of a term after a change. -/
private theorem postingCount_change (h : TermsExact dep db) (hbefore : dep.record db id = old.map .node)
    (hnodup : additions.Nodup) (hnodup' : removals.Nodup) (term : TermKey) :
    (postingCount dep db' term : Int) = postingCount dep db term + additions.count term - removals.count term := by
  have hkeys : ∀ terms : List TermKey, terms.Nodup →
      (terms.map fun term => dep.postingKey id term).Nodup := by
    intro _ hterms
    rw [Nodup, pairwise_map]
    exact hterms.imp fun hne hkey => hne (postingOf_key_inj rfl hkey).1
  have hcount : ∀ terms : List TermKey,
      terms.countP (fun x => dep.isPosting term (dep.postingKey id x)) = terms.count term := by
    intro _
    refine countP_congr ?_
    intro x _
    rw [isPosting, nodeKey_postingOf]
    simp
  have hcleared := countKeys_foldl_clear (dep.isPosting term)
    (hkeys _ hnodup') (m := db.rows) fun x hx => ⟨_, by
      rw [h.posting_get hbefore x, if_pos ((hremovals x).mp hx).1]⟩
  have hset := countKeys_foldl_set (dep.isPosting term)
    (hkeys _ hnodup) (m := removals.foldl (fun m x => m.clear (dep.postingKey id x)) db.rows) (.raw [])
      fun x hx => by
        rw [get_foldl_clear, h.posting_get hbefore x, if_neg ((hadditions x).mp hx).2, ite_self]
  have hafter : postingCount dep db' term = countKeys (dep.isPosting term)
      (additions.foldl (fun m x => m.set (dep.postingKey id x) (.raw []))
        (removals.foldl (fun m x => m.clear (dep.postingKey id x)) db.rows)) := by
    refine countKeys_congr _ fun k hk => ?_
    obtain ⟨id', rfl⟩ := postingRow_of_nodeKey hk
    rw [hrows _ (postingRow_postingOf ..)]
    split
    · rename_i hmem
      rw [get_foldl_set_of_mem hmem fun _ _ _ => rfl]
    · rename_i hmem
      rw [get_foldl_set_of_notMem hmem, get_foldl_clear]
      congr
  have hbase : postingCount dep db term = countKeys (dep.isPosting term) db.rows := rfl
  rw [hcount] at hcleared hset
  omega

end Postings

/-- A change of one record keeps postings and counters exact. -/
theorem TermsExact.change (h : TermsExact dep db) (hchange : dep.Changes schema id old new db db')
    (hbefore : dep.record db id = old.map .node) (hfield : NoTemplateField (propsOf old))
    (hfield' : NoTemplateField (propsOf new)) (hlive : liveCount dep db < 2 ^ 63)
    (hlive' : liveCount dep db' < 2 ^ 63) : TermsExact dep db' := by
  obtain ⟨additions, _, hadditions, hremovals, hnodup, hnodup', hrows, hcounters⟩ := hchange.terms
  have hpostings := h.postings_change hadditions hremovals hrows hbefore hchange
  have hle' : ∀ term, postingCount dep db' term ≤ liveCount dep db' := by
    refine postingCount_le_liveCount fun k c hk hget => ?_
    obtain ⟨_, id, d, term, hd, _, hkey⟩ := (hpostings k c hk).mp hget
    exact ⟨id, d, term, hd, hkey⟩
  obtain ⟨hfrequency, hdocs⟩ := hcounters _ _ _
    _ (fun term => lt_of_le_of_lt (h.postingCount_le _) hlive)
    (fun term => lt_of_le_of_lt (hle' _) hlive') hlive hlive'
    (postingCount_change hadditions hremovals hrows h hbefore (hnodup hfield') (hnodup' hfield))
    (liveCount_change hchange hbefore) ⟨h.document_frequency, h.n_docs⟩
  exact ⟨hpostings, hfrequency, hdocs⟩

theorem termsExact_of_empty (hempty : ∀ k, dep.typeRow k → db.rows.get k = none) : TermsExact dep db := by
  have hcount : ∀ term, postingCount dep db term = 0 := by
    intro term
    rw [← countKeys_empty (V := Cell) (dep.isPosting term)]
    refine countKeys_congr _ fun k hk => ?_
    obtain ⟨id, rfl⟩ := postingRow_of_nodeKey hk
    rw [hempty _ (.inl (indexRow_of_postingRow (postingRow_postingOf ..))), get_empty]
  have hlive : liveCount dep db = 0 := by
    rw [← countKeys_empty (V := Cell) (nodeKey (data_key dep.subspace.data dep.entity_type []))]
    refine countKeys_congr _ fun k hk => ?_
    obtain ⟨id, rfl⟩ := nodeKey_eq_true.mp hk
    rw [← data_key_append, hempty _ (.inr ⟨id, rfl⟩), get_empty]
  refine ⟨?_, ?_, ?_⟩
  · intro k c hk
    rw [hempty k (.inl (indexRow_of_postingRow hk))]
    simp [record, recordOf, hempty _ (.inr ⟨_, rfl⟩)]
  · intro _
    rw [hempty _ (.inl (indexRow_of_counterRow (counterRow_df_key ..))), hcount]
    rfl
  · rw [hempty _ (.inl (indexRow_of_counterRow counterRow_n_docs_key)), hlive]
    rfl

end Change

open Deployment

/-- The term index of a type agrees with its live nodes: the postings are those
of their properties, and the counters, as they are read, count postings and
nodes. No change of a node from its current record takes a counter below
zero. -/
structure TermIndexConsistent (dep : Deployment) (schema : EntitySchema) (db : Db) : Prop where
  records : ∀ id c, dep.record db id = some c → ∃ d, c = .node d
  postings : ∀ k, PostingRow dep.subspace dep.entity_type k →
    ((∃ c, db.rows.get k = some c) ↔ ∃ id d postings posting, dep.record db id = some (.node d) ∧
      compute_term_postings dep.subspace dep.entity_type id.to_bytes d.properties = .ok postings ∧
      posting ∈ postings ∧ k = posting.key)
  document_frequency : ∀ term : TermKey,
    (read_i64_counter (df_key dep.subspace.index dep.entity_type term.field term.encoded_value)).run db =
      .ok ((postingCount dep db term : Int), db)
  n_docs : (read_i64_counter (n_docs_key dep.subspace.index dep.entity_type)).run db =
    .ok ((liveCount dep db : Int), db)
  unclamped : ∀ id old new removals additions changes n_docs_delta,
    dep.record db id = Option.map Cell.node old →
    IndexPlan dep.subspace dep.entity_type schema id.to_bytes (old.map NodeData.properties) new removals
      additions changes n_docs_delta →
    (∀ delta ∈ term_deltas changes, 0 ≤ (postingCount dep db delta.1 : Int) + delta.2) ∧
      0 ≤ (liveCount dep db : Int) + n_docs_delta

/-- Every record of the type is a node without the reserved property names. -/
private def PlainRecords (dep : Deployment) (db : Db) : Prop :=
  ∀ id c, dep.record db id = some c → ∃ d, c = .node d ∧ NoTemplateField d.properties

section Consistent

variable {dep : Deployment} {schema : EntitySchema} {db db' : Db}

private theorem PlainRecords.propsOf (h : PlainRecords dep db) {id : NodeId} {old : Option NodeData}
    (hbefore : dep.record db id = old.map .node) : NoTemplateField (propsOf old) := by
  cases old with
  | none => exact ⟨rfl, rfl⟩
  | some =>
    obtain ⟨_, hnode, hfield⟩ := h id _ hbefore
    rw [← Cell.node.inj hnode] at hfield
    exact hfield

/-- A row of a kind is counted. -/
private theorem countKeys_pos {p : Bytes → Bool} {k : Bytes} {c : Cell} (hget : db.rows.get k = some c)
    (hk : p k = true) : 0 < db.rows.countKeys p :=
  countP_pos_iff.mpr ⟨(k, c), db.rows.get_eq_some_iff_mem.mp hget, hk⟩

/-- A change of a node from its current record removes each term at most once,
and only terms that have a posting. -/
private theorem TermsExact.unclamped (h : TermsExact dep db) (hplain : PlainRecords dep db) {id : NodeId}
    {old : Option NodeData} {new : Option Properties} {removals additions : List IndexEntry}
    {changes : TermPostingChanges} {n_docs_delta : Int} (hbefore : dep.record db id = old.map .node)
    (hplan : IndexPlan dep.subspace dep.entity_type schema id.to_bytes (old.map NodeData.properties) new
      removals additions changes n_docs_delta) :
    (∀ delta ∈ term_deltas changes, 0 ≤ (postingCount dep db delta.1 : Int) + delta.2) ∧
      0 ≤ (liveCount dep db : Int) + n_docs_delta := by
  obtain ⟨termAdditions, termRemovals, rfl, hspec⟩ := hplan.spec
  constructor
  · rintro ⟨term, n⟩ hmem
    have hdelta := deltaOf_of_mem (term_deltas_nodup _) hmem
    rw [deltaOf_changesOf] at hdelta
    have hnodup := hspec.removals_nodup (hplain.propsOf hbefore)
    by_cases hterm : term ∈ termRemovals
    · have hone := nodup_iff_count.mp hnodup term
      have hold : term ∈ termsOf (node.propsOf old) := ((hspec.mem_termRemovals _).mp hterm).1
      have hget := h.posting_get hbefore term
      rw [if_pos hold] at hget
      have hpositive : 0 < postingCount dep db term := countKeys_pos hget (nodeKey_eq_true.mpr ⟨id, rfl⟩)
      dsimp only
      omega
    · rw [count_eq_zero_of_not_mem hterm] at hdelta
      omega
  · rw [hspec.docs]
    cases old with
    | none =>
      simp only [map_none, isSome_none, Bool.false_eq_true, ↓reduceIte]
      split <;> omega
    | some =>
      have hpositive : 0 < liveCount dep db :=
        countKeys_pos hbefore (nodeKey_eq_true.mpr ⟨id, data_key_append ..⟩)
      split <;> omega

private theorem TermsExact.consistent (h : TermsExact dep db) (hplain : PlainRecords dep db)
    (hlive : liveCount dep db < 2 ^ 63) : TermIndexConsistent dep schema db := by
  have hle : ∀ term, postingCount dep db term ≤ liveCount dep db := h.postingCount_le
  refine ⟨?_, ?_, ?_, read_i64_counter_run hlive h.n_docs, fun _ _ _ _ _ _ _ => h.unclamped hplain⟩
  · intro id c hc
    obtain ⟨d, hd, _⟩ := hplain id c hc
    exact ⟨d, hd⟩
  · intro k hk
    simp only [h.postings k _ hk, compute_term_postings_eq, Except.ok.injEq]
    constructor
    · rintro ⟨_, _, id, d, _, hd, hterm, hkey⟩
      exact ⟨id, d, _, _, hd, rfl, mem_map_of_mem hterm, hkey⟩
    · rintro ⟨id, d, _, _, hd, rfl, hposting, hkey⟩
      obtain ⟨term, hterm, rfl⟩ := mem_map.mp hposting
      exact ⟨_, rfl, id, d, term, hd, hterm, hkey⟩
  · intro term
    exact read_i64_counter_run (lt_of_le_of_lt (hle _) hlive) (h.document_frequency _)

private theorem PlainRecords.congr (h : PlainRecords dep db)
    (hagree : Agree dep.typeRow db db') : PlainRecords dep db' := by
  intro id c hc
  exact h id c ((recordOf_congr hagree id).trans hc)

private theorem PlainRecords.change (h : PlainRecords dep db) {id : NodeId} {old new : Option NodeData}
    (hchange : dep.Changes schema id old new db db')
    (hfield : NoTemplateField (node.propsOf new)) : PlainRecords dep db' := by
  intro id' c hc
  by_cases hid : id' = id
  · subst hid
    rw [record, hchange.record, map_eq_some_iff] at hc
    obtain ⟨d, rfl, rfl⟩ := hc
    exact ⟨d.stored, rfl, noTemplateField_storedProperties hfield⟩
  · rw [record, hchange.others _ hid] at hc
    exact h _ c hc

end Consistent

/-- Over any run of calls from an empty type, one after the other and each
succeeding or failing, the term index agrees with the live nodes, as long as the
reserved property names are not used, fewer than `2 ^ 63` nodes are live, and no
create is handed the id of a live node. -/
theorem runCalls_termIndexConsistent (dep : Deployment) (schema : EntitySchema) (calls : List Call)
    (w : ids.World) (hschema : dep.store.get_schema dep.database dep.ns dep.entity_type = some schema)
    (hempty : ∀ k, TypeRow dep.database dep.ns dep.entity_type k → w.db.rows.get k = none)
    (hfield : ∀ call ∈ calls, ∀ field v, call.Brings schema field v →
      field ≠ TEMPLATE_FIELD_SHOW_SCHEME_SHOT_SEQUENCE ∧
        field ≠ TEMPLATE_FIELD_SHOW_SCHEME_SHOT_SEQUENCE_TASK_LABEL)
    (hlive : ∀ n, liveCount dep (dep.runCalls (calls.take n) w).db < 2 ^ 63)
    (hfresh : ∀ n properties clock, calls[n]? = some (.create properties clock) →
      dep.record (dep.runCalls (calls.take n) w).db (dep.nextId (dep.runCalls (calls.take n) w)) = none) :
    TermIndexConsistent dep schema (dep.runCalls calls w).db := by
  have hfinal := hlive calls.length
  rw [take_length] at hfinal
  refine (fun ⟨hexact, hplain⟩ => hexact.consistent hplain hfinal : TermsExact dep _ ∧ PlainRecords dep _ → _)
    (runCalls_keeps hschema hfresh (P := fun db => TermsExact dep db ∧ PlainRecords dep db)
      ⟨termsExact_of_empty hempty, fun id c hc => ?_⟩ fun n call hcall ⟨hexact, hplain⟩ heffect => ?_)
  · rw [record, recordOf, hempty _ (.inr ⟨id, rfl⟩)] at hc
    cases hc
  cases heffect with
  | unchanged hagree => exact ⟨hexact.congr hagree, hplain.congr hagree⟩
  | change _ old new hbefore hchange _ hvalues =>
    have hold := hplain.propsOf hbefore
    have habsent : ∀ field, (∀ v, ¬ call.Brings schema field v) → (propsOf old).get field = none →
        (propsOf new).get field = none := by
      intro field hbrings hnone
      cases hnew : new with
      | none => rfl
      | some d =>
        refine eq_none_iff_forall_ne_some.mpr fun v hv => ?_
        obtain hb | ho := hvalues d _ v hnew hv
        · exact hbrings v hb
        · rw [hnone] at ho
          cases ho
    have hcalls := hfield call (mem_of_getElem? hcall)
    have hnew : NoTemplateField (propsOf new) :=
      ⟨habsent _ (fun v hv => (hcalls _ v hv).1 rfl) hold.1, habsent _ (fun v hv => (hcalls _ v hv).2 rfl) hold.2⟩
    exact ⟨hexact.change hchange hbefore hold hnew (hlive n) (hlive _), hplain.change hchange hnew⟩

private theorem brings_plain {calls : List Call}
    (h : ∀ call ∈ calls, ∀ row ∈ call.values.rows, row.1 ≠ TEMPLATE_FIELD_SHOW_SCHEME_SHOT_SEQUENCE ∧
      row.1 ≠ TEMPLATE_FIELD_SHOW_SCHEME_SHOT_SEQUENCE_TASK_LABEL) :
    ∀ call ∈ calls, ∀ field v, call.Brings personSchema field v → field ≠ TEMPLATE_FIELD_SHOW_SCHEME_SHOT_SEQUENCE ∧
        field ≠ TEMPLATE_FIELD_SHOW_SCHEME_SHOT_SEQUENCE_TASK_LABEL := by
  intro call hcall _ v hbrings
  exact h _ hcall _ (call.values.get_eq_some_iff_mem.mp (person_brings hbrings))

/-- A create that is handed the id of a live node counts it a second time. -/
theorem n_docs_raised_by_overwriting_create :
    (∀ k, TypeRow "db" "ns" "Person" k → noRows.db.rows.get k = none) ∧
    (∀ call ∈ takenId, ∀ field v, call.Brings personSchema field v →
      field ≠ TEMPLATE_FIELD_SHOW_SCHEME_SHOT_SEQUENCE ∧
        field ≠ TEMPLATE_FIELD_SHOW_SCHEME_SHOT_SEQUENCE_TASK_LABEL) ∧
    (∀ n, liveCount people (people.runCalls (takenId.take n) noRows).db < 2 ^ 63) ∧
    liveCount people (people.runCalls takenId noRows).db = 1 ∧
    (read_i64_counter (n_docs_key people.subspace.index "Person")).run (people.runCalls takenId noRows).db =
      .ok (2, (people.runCalls takenId noRows).db) ∧
    ¬ TermIndexConsistent people personSchema (people.runCalls takenId noRows).db := by
  have hone : liveCount people (people.runCalls takenId noRows).db = 1 := by decide +kernel
  have htwo : (people.runCalls takenId noRows).db.rows.get (n_docs_key people.subspace.index "Person") =
      counterCell 2 := by decide +kernel
  have hread := read_i64_counter_run (n := 2) (by decide) htwo
  refine ⟨fun _ _ => rfl, ?_, ?_, hone, hread, ?_⟩
  · exact brings_plain (by decide)
  · intro n
    match n with
    | 0 => decide +kernel
    | 1 => decide +kernel
    | n + 2 =>
      rw [take_of_length_le (by simp [takenId]), hone]
      decide
  · intro hconsistent
    have hcount := hread.symm.trans hconsistent.n_docs
    rw [hone, Except.ok.injEq, Prod.mk.injEq] at hcount
    exact absurd hcount.1 (by decide)

/-- A run with a create, an update, a replicated create and a delete. -/
theorem ownIds_termIndexConsistent :
    TermIndexConsistent people personSchema (people.runCalls ownIds noRows).db := by
  refine runCalls_termIndexConsistent people personSchema ownIds noRows rfl (fun _ _ => rfl)
    (brings_plain (by decide)) ?_ ownIds_fresh
  intro n
  match n with
  | 0 => decide +kernel
  | 1 => decide +kernel
  | 2 => decide +kernel
  | 3 => decide +kernel
  | 4 => decide +kernel
  | n + 5 =>
    rw [take_of_length_le (by simp [ownIds])]
    decide +kernel

end pelago_storage.node
