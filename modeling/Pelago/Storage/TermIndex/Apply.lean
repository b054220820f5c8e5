import Pelago.Storage.Keys

open bytes kv pelago_core pelago_core.encoding List kv.OrdMap

namespace pelago_storage.term_index

section

/-- The bytes of a value's term; null and byte strings have none. -/
def termOf : Value → Option Bytes
  | .null => none
  | .bytes _ => none
  | v => some (encodedValue v)

/-- The combined terms, in the order in which they are appended. -/
def templateTerms (properties : Properties) : List TermKey :=
  match extract_string properties "show", extract_string properties "scheme",
    extract_string properties "shot", extract_string properties "sequence" with
  | some show_, some scheme, some shot, some sequence =>
    let shot_sequence_value := show_ ++ "|" ++ scheme ++ "|" ++ shot ++ "|" ++ sequence
    let terms := [⟨TEMPLATE_FIELD_SHOW_SCHEME_SHOT_SEQUENCE, utf8 shot_sequence_value⟩]
    match extract_string properties "task", extract_string properties "label" with
    | some task, some label =>
      terms ++ [⟨TEMPLATE_FIELD_SHOW_SCHEME_SHOT_SEQUENCE_TASK_LABEL,
        utf8 (shot_sequence_value ++ "|" ++ task ++ "|" ++ label)⟩]
    | _, _ => terms
  | _, _, _, _ => []

/-- The terms of a property map. -/
def termsOf (properties : Properties) : List TermKey :=
  properties.rows.filterMap (fun row => (termOf row.2).map fun encoded => ⟨row.1, encoded⟩) ++
    templateTerms properties

/-- The posting of a term at a node. -/
def postingOf (subspace : Subspace) (entity_type : String) (id : Bytes) (term : TermKey) : TermPosting :=
  build_posting subspace.index entity_type term.field term.encoded_value id

@[simp] theorem postingOf_term (subspace : Subspace) (entity_type : String) (id : Bytes) (term : TermKey) :
    (postingOf subspace entity_type id term).term = term := rfl

section Compute

variable {subspace : Subspace} {entity_type : String} {id : Bytes}

theorem encode_term_value_eq (value : Value) : encode_term_value value = .ok (termOf value) := by
  cases value <;> rfl

theorem append_template_postings_eq (properties : Properties) (postings : List TermPosting) :
    append_template_postings subspace.index entity_type id properties postings =
      postings ++ (templateTerms properties).map (postingOf subspace entity_type id) := by
  unfold append_template_postings templateTerms
  cases extract_string properties "show" with
  | none => simp
  | some =>
    cases extract_string properties "scheme" with
    | none => simp
    | some =>
      cases extract_string properties "shot" with
      | none => simp
      | some =>
        cases extract_string properties "sequence" with
        | none => simp
        | some =>
          cases extract_string properties "task" with
          | none => simp [postingOf]
          | some =>
            cases extract_string properties "label" with
            | none | some => simp [postingOf]

/-- Computing the postings of a node never fails and gives one for each term. -/
theorem compute_term_postings_eq (properties : Properties) :
    compute_term_postings subspace entity_type id properties =
      .ok ((termsOf properties).map (postingOf subspace entity_type id)) := by
  have hfields : collect (field_posting subspace entity_type id) properties.rows =
      .ok (properties.rows.filterMap fun row =>
        (termOf row.2).map fun encoded => postingOf subspace entity_type id ⟨row.1, encoded⟩) := by
    apply collect_eq_filterMap
    rintro ⟨field, value⟩ _
    simp only [field_posting, encode_term_value_eq]
    cases termOf value <;> rfl
  unfold compute_term_postings
  rw [hfields]
  simp only [bind, bind, pure, pure, append_template_postings_eq, termsOf,
    map_append, map_filterMap, Option.map_map]
  rfl

theorem postingOf_key_inj {term term' : TermKey} {id' : Bytes} (hlength : id.length = id'.length)
    (h : (postingOf subspace entity_type id term).key = (postingOf subspace entity_type id' term').key) :
    term = term' ∧ id = id' := by
  unfold postingOf at h
  rw [build_posting_key, build_posting_key] at h
  obtain ⟨_, hrest⟩ := indexRow_inj h
  obtain ⟨hfield, hrest⟩ := element_append_inj (by simp) (by simp) hrest
  obtain ⟨_, hrest⟩ := cons.inj hrest
  obtain ⟨hencoded, hid⟩ := append_inj' hrest (by simp [hlength])
  have hencoded := escape_inj hencoded
  cases term
  simp_all

section Difference

variable {terms : List TermKey}

private theorem mem_posting_map {key : Bytes} {posting : TermPosting} :
    (key, posting) ∈ (posting_map (terms.map (postingOf subspace entity_type id))).rows ↔
      ∃ term ∈ terms, posting = postingOf subspace entity_type id term ∧ key = posting.key := by
  rw [← get_eq_some_iff_mem]
  unfold posting_map
  constructor
  · intro hget
    have hmem := get_ofList_eq_some hget
    simp only [mem_map, Prod.mk.injEq, exists_exists_and_eq_and] at hmem
    obtain ⟨term, hterm, hkey, hposting⟩ := hmem
    exact ⟨term, hterm, hposting.symm, by rw [← hkey, hposting]⟩
  · rintro ⟨term, hterm, rfl, rfl⟩
    have hpair : ((postingOf subspace entity_type id term).key, postingOf subspace entity_type id term) ∈
        (terms.map (postingOf subspace entity_type id)).map fun posting => (posting.key, posting) :=
      mem_map.mpr ⟨_, mem_map.mpr ⟨term, hterm, rfl⟩, rfl⟩
    obtain ⟨posting, hget⟩ := (contains_eq_true_iff _).mp (contains_ofList.mpr ⟨_, hpair⟩)
    have hmem := get_ofList_eq_some hget
    simp only [mem_map, Prod.mk.injEq, exists_exists_and_eq_and] at hmem
    obtain ⟨term', _, hkey, hposting⟩ := hmem
    obtain ⟨rfl, _⟩ := postingOf_key_inj rfl hkey
    rw [hget, hposting]

private theorem contains_posting_map {term : TermKey} :
    (posting_map (terms.map (postingOf subspace entity_type id))).contains
        (postingOf subspace entity_type id term).key = true ↔ term ∈ terms := by
  rw [contains_eq_true_iff]
  constructor
  · rintro ⟨posting, hget⟩
    obtain ⟨term', hterm', rfl, hkey⟩ := mem_posting_map.mp ((get_eq_some_iff_mem _).mp hget)
    obtain ⟨rfl, _⟩ := postingOf_key_inj rfl hkey
    exact hterm'
  · intro hterm
    exact ⟨postingOf subspace entity_type id term,
      (get_eq_some_iff_mem _).mpr (mem_posting_map.mpr ⟨term, hterm, rfl, rfl⟩)⟩

/-- One side of the difference: each term that the other side lacks, once. -/
private theorem missing_from_eq (subspace : Subspace) (entity_type : String) (id : Bytes)
    (terms other : List TermKey) : ∃ missing : List TermKey, missing.Nodup ∧
      (∀ term, term ∈ missing ↔ term ∈ terms ∧ term ∉ other) ∧
      missing_from (posting_map (terms.map (postingOf subspace entity_type id)))
        (posting_map (other.map (postingOf subspace entity_type id))) =
        missing.map (postingOf subspace entity_type id) := by
  generalize hmap : posting_map (terms.map (postingOf subspace entity_type id)) = m
  have hrows : ∀ row ∈ m.rows, ∃ term ∈ terms, row = ((postingOf subspace entity_type id term).key,
      postingOf subspace entity_type id term) := by
    rintro ⟨key, posting⟩ hrow
    rw [← hmap] at hrow
    obtain ⟨term, hterm, rfl, rfl⟩ := mem_posting_map.mp hrow
    exact ⟨term, hterm, rfl⟩
  have hdistinct : m.rows.Pairwise fun a b => a.2.term ≠ b.2.term := by
    refine m.sorted.imp_of_mem ?_
    intro a b ha hb hlt heq
    obtain ⟨term, _, rfl⟩ := hrows a ha
    obtain ⟨term', _, rfl⟩ := hrows b hb
    simp only [postingOf_term] at heq
    subst heq
    exact absurd hlt (lt_irrefl _)
  refine ⟨m.rows.filterMap fun row => if row.2.term ∈ other then none else some row.2.term, ?_, ?_, ?_⟩
  · refine hdistinct.filterMap _ ?_
    intro a b hne x hx y hy heq
    simp only [Option.ite_none_left_eq_some, Option.some.injEq] at hx hy
    exact hne (by rw [hx.2, hy.2, heq])
  · intro term
    simp only [mem_filterMap, Option.ite_none_left_eq_some, Option.some.injEq]
    constructor
    · rintro ⟨row, hrow, hother, rfl⟩
      obtain ⟨term, hterm, rfl⟩ := hrows _ hrow
      exact ⟨hterm, hother⟩
    · rintro ⟨hterm, hother⟩
      refine ⟨((postingOf subspace entity_type id term).key, postingOf subspace entity_type id term), ?_,
        hother, rfl⟩
      rw [← hmap]
      exact mem_posting_map.mpr ⟨term, hterm, rfl, rfl⟩
  · rw [map_filterMap]
    refine filterMap_congr fun row hrow => ?_
    obtain ⟨term, _, rfl⟩ := hrows _ hrow
    by_cases hother : term ∈ other
    · simp [contains_posting_map.mpr hother, hother]
    · have hcontains : (posting_map (other.map (postingOf subspace entity_type id))).contains
          (postingOf subspace entity_type id term).key = false := by
        simpa using mt contains_posting_map.mp hother
      simp [hcontains, hother]

end Difference

/-- The changes of an update: the terms that appear and those that go, each
once. -/
theorem compute_term_posting_changes_ok (subspace : Subspace) (entity_type : String) (id : Bytes)
    (old_properties new_properties : Properties) :
    ∃ additions removals : List TermKey, additions.Nodup ∧ removals.Nodup ∧
      (∀ term, term ∈ additions ↔ term ∈ termsOf new_properties ∧ term ∉ termsOf old_properties) ∧
      (∀ term, term ∈ removals ↔ term ∈ termsOf old_properties ∧ term ∉ termsOf new_properties) ∧
      compute_term_posting_changes subspace entity_type id old_properties new_properties =
        .ok ⟨additions.map (postingOf subspace entity_type id),
          removals.map (postingOf subspace entity_type id)⟩ := by
  obtain ⟨additions, haddNodup, hadd, haddEq⟩ := missing_from_eq _ _ id ..
  obtain ⟨removals, hremNodup, hrem, hremEq⟩ := missing_from_eq _ _ id ..
  refine ⟨additions, removals, haddNodup, hremNodup, hadd, hrem, ?_⟩
  unfold compute_term_posting_changes
  simp only [compute_term_postings_eq, bind, Except.bind, pure, Except.pure]
  rw [haddEq, hremEq]

end Compute

/-- A property map without the reserved names of the combined terms. -/
def NoTemplateField (properties : Properties) : Prop :=
  properties.get TEMPLATE_FIELD_SHOW_SCHEME_SHOT_SEQUENCE = none ∧
    properties.get TEMPLATE_FIELD_SHOW_SCHEME_SHOT_SEQUENCE_TASK_LABEL = none

instance (properties : Properties) : Decidable (NoTemplateField properties) := by
  unfold NoTemplateField
  infer_instance

variable {properties : Properties}

private theorem mem_templateTerms {term : TermKey} (h : term ∈ templateTerms properties) :
    term.field = TEMPLATE_FIELD_SHOW_SCHEME_SHOT_SEQUENCE ∨
      term.field = TEMPLATE_FIELD_SHOW_SCHEME_SHOT_SEQUENCE_TASK_LABEL := by
  unfold templateTerms at h
  split at h
  · split at h
    · simp only [cons_append, nil_append, mem_cons, not_mem_nil, or_false] at h
      obtain rfl | rfl := h
      · exact .inl rfl
      · exact .inr rfl
    · rw [mem_singleton] at h
      subst h
      exact .inl rfl
  · exact absurd h not_mem_nil

private theorem templateTerms_nodup (properties : Properties) : (templateTerms properties).Nodup := by
  have hne : TEMPLATE_FIELD_SHOW_SCHEME_SHOT_SEQUENCE ≠
      TEMPLATE_FIELD_SHOW_SCHEME_SHOT_SEQUENCE_TASK_LABEL := by decide
  unfold templateTerms
  split
  · split <;> simp [hne]
  · exact nodup_nil

/-- Without the reserved names, no term occurs twice. -/
theorem termsOf_nodup (hfield : NoTemplateField properties) : (termsOf properties).Nodup := by
  unfold termsOf
  rw [nodup_append]
  refine ⟨?_, templateTerms_nodup _, ?_⟩
  · refine properties.sorted.filterMap _ ?_
    intro a b hlt x hx y hy heq
    simp only [Option.map_eq_some_iff] at hx hy
    obtain ⟨_, _, rfl⟩ := hx
    obtain ⟨_, _, rfl⟩ := hy
    have hname : a.1 = b.1 := congrArg TermKey.field heq
    exact absurd hlt (by simp [hname])
  · intro a ha b hb heq
    subst heq
    simp only [mem_filterMap, Option.map_eq_some_iff] at ha
    obtain ⟨row, hrow, _, _, rfl⟩ := ha
    have hget := (get_eq_some_iff_mem _).mpr hrow
    obtain hname | hname := mem_templateTerms hb
    · simp only at hname
      rw [hname, hfield.1] at hget
      cases hget
    · simp only at hname
      rw [hname, hfield.2] at hget
      cases hget

section Stored

private theorem termOf_storedValue (v : Value) : termOf (storedValue v) = termOf v := by
  cases v <;> rfl

private theorem extract_string_storedProperties (properties : Properties) (field : String) :
    extract_string (storedProperties properties) field = extract_string properties field := by
  simp only [extract_string, storedProperties_get]
  cases properties.get field with
  | none => rfl
  | some v => cases v <;> rfl

/-- Storing a property map keeps its terms. -/
theorem termsOf_storedProperties (properties : Properties) :
    termsOf (storedProperties properties) = termsOf properties := by
  have hrows : (storedProperties properties).rows =
      properties.rows.map fun row => (row.1, storedValue row.2) := rfl
  simp only [termsOf, templateTerms, extract_string_storedProperties, hrows, filterMap_map,
    Function.comp_def, termOf_storedValue]

theorem noTemplateField_storedProperties (h : NoTemplateField properties) :
    NoTemplateField (storedProperties properties) := by
  simpa [NoTemplateField, storedProperties_get] using h

end Stored

end

section

/-- The row of a counter that holds `n`. -/
def counterCell (n : Nat) : Option Cell := if n = 0 then none else some (.raw (i64ToBytes n))

variable {n : Nat} {key : Bytes} {deltas : List (TermKey × Int)} {term : TermKey}

theorem i64OfBytes_i64ToBytes (hn : n < 2 ^ 63) : i64OfBytes (i64ToBytes n) = n := by
  have hvalue : beValue (i64ToBytes n) = n := by
    have hmod : ((n : Int) % 2 ^ 64).toNat = n := by omega
    rw [i64ToBytes, hmod, beValue_beBytes]
    exact Nat.mod_eq_of_lt (by omega)
  rw [i64OfBytes, hvalue, if_pos hn]

theorem read_i64_counter_run {db : Db} (hn : n < 2 ^ 63)
    (hget : db.rows.get key = counterCell n) : (read_i64_counter key).run db = .ok ((n : Int), db) := by
  unfold read_i64_counter
  rw [Tx.run_bind_of_ok (Tx.run_get _ db), hget]
  unfold counterCell
  by_cases hzero : n = 0
  · simp [hzero]
  · have hlength : (i64ToBytes (n : Int)).length = 8 := by simp [i64ToBytes]
    simp [hzero, hlength, i64OfBytes_i64ToBytes hn]

/-- Adding to a counter within the range of an `i64`, with no clamping. -/
theorem add_to_counter_run {m : Nat} {delta : Int} {db : Db} (hn : n < 2 ^ 63)
    (hm : m < 2 ^ 63) (hsum : (m : Int) = n + delta) (hget : db.rows.get key = counterCell n) :
    ∃ db', (add_to_counter key delta).run db = .ok ((), db') ∧
      ∀ k, db'.rows.get k = if k = key then counterCell m else db.rows.get k := by
  have hbmod : ((n : Int) + delta).bmod (2 ^ 64) = m := by
    rw [← hsum]
    exact Int.bmod_eq_of_le (by omega) (by omega)
  unfold add_to_counter
  rw [Tx.run_bind_of_ok (read_i64_counter_run hn hget)]
  simp only [hbmod]
  by_cases hzero : m = 0
  · subst hzero
    simp [get_clear, counterCell]
  · refine ⟨{ db with rows := db.rows.set key (.raw (i64ToBytes m)) }, ?_, ?_⟩
    · simp [hzero]
    · simp [get_set, counterCell, hzero]

theorem touches_add_to_counter {R W : Bytes → Prop} (delta : Int) (hR : R key)
    (hW : W key) : (add_to_counter key delta).Touches R W := by
  refine Tx.touches_bind (Tx.touches_bind (by simpa using hR) fun cell => ?_) fun _ => ?_
  · cases cell with
    | none => simp
    | some c =>
      cases c with
      | raw bs => by_cases hlength : bs.length = 8 <;> simp [hlength]
      | node | edge | cdc => simp
  · dsimp only
    split <;> simpa using hW

/-- The sum of all deltas of one term. -/
def deltaOf : List (TermKey × Int) → TermKey → Int
  | [], _ => 0
  | (key, n) :: rest, term => (if key = term then n else 0) + deltaOf rest term

theorem deltaOf_eq_zero (h : term ∉ deltas.map Prod.fst) : deltaOf deltas term = 0 := by
  induction deltas with
  | nil => rfl
  | cons head rest ih =>
    obtain ⟨hne, hrest⟩ : term ≠ head.1 ∧ term ∉ rest.map Prod.fst := by simpa using h
    rw [deltaOf, ih hrest, if_neg (symm hne)]
    rfl

theorem deltaOf_of_mem (hnodup : (deltas.map Prod.fst).Nodup) {n : Int} (hmem : (term, n) ∈ deltas) : deltaOf deltas term = n := by
  induction deltas with
  | nil => cases hmem
  | cons head _ ih =>
    rw [map_cons, nodup_cons] at hnodup
    unfold deltaOf
    obtain rfl | hmem := mem_cons.mp hmem
    · rw [if_pos rfl, deltaOf_eq_zero hnodup.1, add_zero]
    · have hne : head.1 ≠ term := by
        rintro rfl
        exact hnodup.1 (mem_map.mpr ⟨_, hmem, rfl⟩)
      rw [if_neg hne, ih hnodup.2 hmem, zero_add]

theorem deltaOf_bump (deltas : List (TermKey × Int)) (term : TermKey) (n : Int) (term' : TermKey) :
    deltaOf (bump deltas term n) term' = deltaOf deltas term' + if term = term' then n else 0 := by
  induction deltas with
  | nil => simp [bump, deltaOf]
  | cons head _ ih =>
    obtain ⟨key, m⟩ := head
    by_cases hkey : key = term
    · subst hkey
      by_cases hterm : key = term'
      · simp [bump, deltaOf, hterm]
        omega
      · simp [bump, deltaOf, hterm]
    · simp only [bump, hkey, ↓reduceIte, deltaOf, ih]
      omega

theorem mem_bump_keys {term' : TermKey} {n : Int} :
    term' ∈ (bump deltas term n).map Prod.fst ↔ term' = term ∨ term' ∈ deltas.map Prod.fst := by
  induction deltas with
  | nil => simp [bump]
  | cons head _ ih =>
    obtain ⟨key, m⟩ := head
    by_cases hkey : key = term
    · subst hkey
      simp [bump]
    · simp only [bump, hkey, ↓reduceIte, map_cons, mem_cons, ih]
      tauto

theorem nodup_bump (h : (deltas.map Prod.fst).Nodup) (term : TermKey)
    (n : Int) : ((bump deltas term n).map Prod.fst).Nodup := by
  induction deltas with
  | nil => simp [bump]
  | cons head _ ih =>
    obtain ⟨key, m⟩ := head
    obtain ⟨hhead, hrest⟩ := nodup_cons.mp h
    by_cases hkey : key = term
    · subst hkey
      simpa [bump] using h
    · simp only [bump, hkey, ↓reduceIte, map_cons, nodup_cons]
      refine ⟨?_, ih hrest⟩
      rw [mem_bump_keys, not_or]
      exact ⟨hkey, hhead⟩

private theorem bump_all (postings : List TermPosting) (n : Int) (deltas : List (TermKey × Int)) :
    ((deltas.map Prod.fst).Nodup →
      ((postings.foldl (fun deltas posting => bump deltas posting.term n) deltas).map Prod.fst).Nodup) ∧
    ∀ term, deltaOf (postings.foldl (fun deltas posting => bump deltas posting.term n) deltas) term =
      deltaOf deltas term + n * (postings.map TermPosting.term).count term := by
  induction postings generalizing deltas with
  | nil => simp
  | cons posting _ ih =>
    obtain ⟨hnodup, hdelta⟩ := ih _
    refine ⟨fun h => hnodup (nodup_bump h ..), fun term => ?_⟩
    rw [foldl_cons, hdelta, deltaOf_bump, map_cons, count_cons]
    by_cases hterm : posting.term = term
    · simp only [hterm, ↓reduceIte, BEq.rfl, Int.natCast_add, mul_add, Int.natCast_one, mul_one]
      omega
    · simp [hterm]

theorem term_deltas_nodup (changes : TermPostingChanges) : ((term_deltas changes).map Prod.fst).Nodup :=
  (bump_all ..).1 ((bump_all ..).1 nodup_nil)

/-- A term's delta: how often it is added less how often it is removed. -/
theorem deltaOf_term_deltas (changes : TermPostingChanges) (term : TermKey) : deltaOf (term_deltas changes) term =
      (changes.additions.map TermPosting.term).count term - (changes.removals.map TermPosting.term).count term := by
  rw [term_deltas, (bump_all ..).2, (bump_all ..).2, deltaOf]
  omega

/-- Rows of the term postings of one type. -/
def PostingRow (subspace : Subspace) (entity_type : String) (k : Bytes) : Prop :=
  ∃ rest, k = indexRow subspace entity_type markers.TERM_POSTING rest

/-- Rows of the counters of one type. -/
def CounterRow (subspace : Subspace) (entity_type : String) (k : Bytes) : Prop :=
  ∃ b rest, (b = markers.DF_STAT ∨ b = markers.NDOCS_STAT) ∧ k = indexRow subspace entity_type b rest

section Rows

variable {subspace : Subspace} {entity_type : String}

theorem postingRow_postingOf (id : Bytes) (term : TermKey) :
    PostingRow subspace entity_type (postingOf subspace entity_type id term).key :=
  ⟨_, build_posting_key _ _ _ _ id⟩

theorem counterRow_df_key (field : String) (encoded : Bytes) :
    CounterRow subspace entity_type (df_key subspace.index entity_type field encoded) :=
  ⟨_, _, .inl rfl, df_key_eq ..⟩

theorem counterRow_n_docs_key : CounterRow subspace entity_type (n_docs_key subspace.index entity_type) :=
  ⟨_, _, .inr rfl, n_docs_key_eq ..⟩

theorem PostingRow.not_counterRow {k : Bytes} (hposting : PostingRow subspace entity_type k) :
    ¬ CounterRow subspace entity_type k := by
  rintro ⟨b, _, hb, hk⟩
  obtain ⟨rest', rfl⟩ := hposting
  obtain ⟨hmarker, _⟩ := indexRow_inj hk
  obtain rfl | rfl := hb
  · exact absurd hmarker (by decide)
  · exact absurd hmarker (by decide)

theorem df_key_inj {term term' : TermKey} (h : df_key subspace.index entity_type term.field term.encoded_value =
      df_key subspace.index entity_type term'.field term'.encoded_value) : term = term' := by
  rw [df_key_eq, df_key_eq] at h
  obtain ⟨_, hrest⟩ := indexRow_inj h
  obtain ⟨hfield, hrest⟩ := element_append_inj (by simp) (by simp) hrest
  obtain ⟨_, hrest⟩ := cons.inj hrest
  obtain ⟨hencoded, _⟩ := append_inj' hrest rfl
  have hencoded := escape_inj hencoded
  cases term
  simp_all

theorem df_key_ne_n_docs_key (field : String) (encoded : Bytes) :
    df_key subspace.index entity_type field encoded ≠ n_docs_key subspace.index entity_type := by
  intro h
  rw [df_key_eq, n_docs_key_eq] at h
  exact absurd (indexRow_inj h).1 (by decide)

theorem postingOf_key (id : Bytes) (term : TermKey) : (postingOf subspace entity_type id term).key =
    posting_prefix subspace.index entity_type term.field term.encoded_value ++ id := rfl

/-- A posting belongs to one term only. -/
theorem nodeKey_postingOf (id : NodeId) (term term' : TermKey) :
    nodeKey ( posting_prefix subspace.index entity_type term.field term.encoded_value)
      (postingOf subspace entity_type id.to_bytes term').key = decide (term' = term) := by
  by_cases hterm : term' = term
  · subst hterm
    rw [decide_eq_true rfl, nodeKey_eq_true]
    exact ⟨id, rfl⟩
  · rw [decide_eq_false hterm, Bool.eq_false_iff, ne_eq, nodeKey_eq_true]
    rintro ⟨id', hkey⟩
    exact hterm (postingOf_key_inj (by simp) hkey).1

theorem postingRow_of_nodeKey {term : TermKey} {k : Bytes}
    (h : nodeKey ( posting_prefix subspace.index entity_type term.field term.encoded_value) k = true) :
    ∃ id : NodeId, k = (postingOf subspace entity_type id.to_bytes term).key :=
  nodeKey_eq_true.mp h

end Rows

end

open kv.OrdMap Tx Except

variable {subspace : Subspace} {entity_type : String} {id : Bytes}

/-- The changes that add the postings of some terms to a node and remove those
of others. -/
def changesOf (subspace : Subspace) (entity_type : String) (id : Bytes) (additions removals : List TermKey) :
    TermPostingChanges :=
  ⟨additions.map (postingOf subspace entity_type id), removals.map (postingOf subspace entity_type id)⟩

theorem deltaOf_changesOf (additions removals : List TermKey) (term : TermKey) :
    deltaOf (term_deltas (changesOf subspace entity_type id additions removals)) term =
      additions.count term - removals.count term := by
  have hterms : ∀ terms : List TermKey,
      (terms.map (postingOf subspace entity_type id)).map TermPosting.term = terms := by
    intro _
    rw [map_map]
    exact map_id _
  rw [deltaOf_term_deltas, changesOf, hterms, hterms]

/-- The loop over the term deltas. -/
private def bumpAll (subspace : Subspace) (entity_type : String) (deltas : List (TermKey × Int)) : Tx Unit :=
  Tx.forEach deltas fun (term, delta) =>
    if delta = 0 then pure ()
    else add_to_counter (df_key subspace.index entity_type term.field term.encoded_value) delta

/-- A counter that covers each term exactly is changed by the loop to the exact
new count. -/
private theorem bumpAll_get {deltas : List (TermKey × Int)} (hnodup : (deltas.map Prod.fst).Nodup)
    {count count' : TermKey → Nat} {db db' : Db} (hlt : ∀ term, count term < 2 ^ 63)
    (hlt' : ∀ term, count' term < 2 ^ 63) (hsum : ∀ term, (count' term : Int) = count term + deltaOf deltas term)
    (hget : ∀ term : TermKey, db.rows.get (df_key subspace.index entity_type term.field term.encoded_value) =
      counterCell (count term))
    (hrun : (bumpAll subspace entity_type deltas).run db = .ok ((), db')) (term : TermKey) :
    db'.rows.get (df_key subspace.index entity_type term.field term.encoded_value) = counterCell (count' term) := by
  induction deltas generalizing db count with
  | nil =>
    have heq : count' term = count term := by
      have := hsum term
      simp only [deltaOf] at this
      omega
    simp only [bumpAll, forEach, run, ok.injEq, Prod.mk.injEq, true_and] at hrun
    rw [← hrun, hget, heq]
  | cons head rest ih =>
    obtain ⟨key, delta⟩ := head
    obtain ⟨hhead, hrest⟩ := nodup_cons.mp hnodup
    rw [bumpAll, forEach, run_bind_eq_ok] at hrun
    obtain ⟨_, mid, hmid, hrun⟩ := hrun
    -- the head's counter is final after its own step: no later delta names it
    have hkey : (count' key : Int) = count key + delta := by
      have := hsum key
      simp only [deltaOf, ↓reduceIte] at this
      rw [deltaOf_eq_zero hhead] at this
      omega
    have hmidGet : ∀ k, mid.rows.get k =
        if k = df_key subspace.index entity_type key.field key.encoded_value then counterCell (count' key)
        else db.rows.get k := by
      by_cases hzero : delta = 0
      · simp only [hzero, ↓reduceIte, run_pure, ok.injEq, Prod.mk.injEq, true_and] at hmid
        intro k
        have heq : count' key = count key := by omega
        split
        · rename_i hk
          rw [← hmid, hk, hget, heq]
        · rw [← hmid]
      · obtain ⟨mid', hrun', hget'⟩ := add_to_counter_run (hlt _) (hlt' key) hkey (hget key)
        simp only [hzero, ↓reduceIte, hrun', ok.injEq, Prod.mk.injEq, true_and] at hmid
        rw [← hmid]
        exact hget'
    refine @ih hrest (fun t => if t = key then count' key else count t) mid ?_ ?_ ?_ hrun
    · intro t
      split
      · exact hlt' key
      · exact hlt t
    · intro t
      have ht := hsum t
      simp only [deltaOf] at ht
      by_cases heq : t = key
      · subst heq
        simp only [↓reduceIte, deltaOf_eq_zero hhead]
        omega
      · rw [if_neg (Ne.symm heq)] at ht
        simp only [heq, ↓reduceIte]
        omega
    · intro t
      rw [hmidGet]
      by_cases heq : t = key
      · subst heq
        simp
      · have hne : df_key subspace.index entity_type t.field t.encoded_value ≠
            df_key subspace.index entity_type key.field key.encoded_value := fun h => heq (df_key_inj h)
        simp [heq, hne, hget]

private theorem touches_bumpAll (deltas : List (TermKey × Int)) :
    (bumpAll subspace entity_type deltas).Touches (CounterRow subspace entity_type) (fun k => ∃ term : TermKey,
        k = df_key subspace.index entity_type term.field term.encoded_value) := by
  apply touches_forEach
  rintro ⟨term, delta⟩ _
  dsimp only
  split
  · trivial
  · exact touches_add_to_counter _ (counterRow_df_key ..) ⟨term, rfl⟩

theorem touches_apply_term_posting_changes (additions removals : List TermKey) (n_docs_delta : Int) :
    (apply_term_posting_changes subspace entity_type
        (changesOf subspace entity_type id additions removals) n_docs_delta).Touches
      (CounterRow subspace entity_type)
      (fun k => PostingRow subspace entity_type k ∨ CounterRow subspace entity_type k) := by
  refine touches_bind ?_ fun _ => touches_bind ?_ fun _ => touches_bind ?_ fun _ => ?_
  · apply touches_forEach
    intro _ hposting
    obtain ⟨term, _, rfl⟩ := mem_map.mp hposting
    exact (touches_clear _).mpr (.inl (postingRow_postingOf id _))
  · apply touches_forEach
    intro _ hposting
    obtain ⟨term, _, rfl⟩ := mem_map.mp hposting
    exact (touches_set ..).mpr (.inl (postingRow_postingOf id _))
  · refine (touches_bumpAll _).mono (fun _ h => h) ?_
    rintro _ ⟨term, rfl⟩
    exact .inr (counterRow_df_key ..)
  · split
    · exact touches_add_to_counter _ counterRow_n_docs_key (.inr counterRow_n_docs_key)
    · trivial

/-- The rows of postings after a change. -/
theorem apply_term_posting_changes_posting {additions removals : List TermKey} {n_docs_delta : Int} {db db' : Db}
    (hrun : (apply_term_posting_changes subspace entity_type
      (changesOf subspace entity_type id additions removals) n_docs_delta).run db = .ok ((), db'))
    {k : Bytes} (hk : ¬ CounterRow subspace entity_type k) : db'.rows.get k =
      ((additions.foldl (fun m term => m.set (postingOf subspace entity_type id term).key (.raw []))
        (removals.foldl (fun m term => m.clear (postingOf subspace entity_type id term).key) db.rows)).get k) := by
  unfold apply_term_posting_changes at hrun
  rw [run_bind_of_ok (run_forEach_clear ..), run_bind_of_ok (run_forEach_set ..), run_bind_eq_ok] at hrun
  obtain ⟨_, mid, hmid, hrun⟩ := hrun
  have hdocs : db'.rows.get k = mid.rows.get k := by
    by_cases hzero : n_docs_delta = 0
    · simp only [hzero, ne_eq, not_true_eq_false, ↓reduceIte, run_pure, ok.injEq, Prod.mk.injEq, true_and] at hrun
      rw [hrun]
    · simp only [ne_eq, hzero, not_false_eq_true, ↓reduceIte] at hrun
      exact (touches_add_to_counter _ counterRow_n_docs_key counterRow_n_docs_key).get_eq hrun hk
  have hterms := (touches_bumpAll _).get_eq hmid (k := k) (by
    rintro ⟨term, rfl⟩
    exact hk (counterRow_df_key ..))
  rw [hdocs, hterms, changesOf, foldl_map, foldl_map]

/-- The counters of the type hold the counts. -/
def CountersExact (subspace : Subspace) (entity_type : String) (count : TermKey → Nat) (docs : Nat) (db : Db) : Prop :=
  (∀ term : TermKey, db.rows.get (df_key subspace.index entity_type term.field term.encoded_value) =
    counterCell (count term)) ∧ db.rows.get (n_docs_key subspace.index entity_type) = counterCell docs

section Counters

variable {count count' : TermKey → Nat} {docs docs' : Nat} {db db' : Db}

theorem CountersExact.congr (h : CountersExact subspace entity_type count docs db)
    (hsame : ∀ k, CounterRow subspace entity_type k → db'.rows.get k = db.rows.get k) :
    CountersExact subspace entity_type count docs db' :=
  ⟨fun term => (hsame _ (counterRow_df_key ..)).trans (h.1 _), (hsame _ counterRow_n_docs_key).trans h.2⟩

/-- Counters that are exact before a change are exact after it. -/
theorem apply_term_posting_changes_counters {additions removals : List TermKey} {n_docs_delta : Int}
    (hlt : ∀ term, count term < 2 ^ 63) (hlt' : ∀ term, count' term < 2 ^ 63) (hdocs : docs < 2 ^ 63)
    (hdocs' : docs' < 2 ^ 63)
    (hsum : ∀ term, (count' term : Int) = count term + additions.count term - removals.count term)
    (hsumDocs : (docs' : Int) = docs + n_docs_delta) (hexact : CountersExact subspace entity_type count docs db)
    (hrun : (apply_term_posting_changes subspace entity_type
      (changesOf subspace entity_type id additions removals) n_docs_delta).run db = .ok ((), db')) :
    CountersExact subspace entity_type count' docs' db' := by
  unfold apply_term_posting_changes at hrun
  rw [run_bind_of_ok (run_forEach_clear ..), run_bind_of_ok (run_forEach_set ..), run_bind_eq_ok] at hrun
  obtain ⟨_, mid, hmid, hrun⟩ := hrun
  -- clearing and writing postings leaves the counters alone
  have hframe : ∀ k, CounterRow subspace entity_type k →
      ((changesOf subspace entity_type id additions removals).additions.foldl
        (fun m posting => m.set posting.key (.raw []))
        ((changesOf subspace entity_type id additions removals).removals.foldl
          (fun m posting => m.clear posting.key) db.rows)).get k = db.rows.get k := by
    intro k hk
    have hnot : ∀ terms : List TermKey,
        k ∉ (terms.map (postingOf subspace entity_type id)).map TermPosting.key := by
      intro _ hmem
      simp only [map_map, mem_map, Function.comp] at hmem
      obtain ⟨term, _, rfl⟩ := hmem
      exact (postingRow_postingOf id _).not_counterRow hk
    rw [changesOf, get_foldl_set_of_notMem (hnot _), get_foldl_clear]
    exact if_neg (hnot _)
  have hterms := bumpAll_get (term_deltas_nodup _) hlt hlt'
    (fun term => by rw [hsum, deltaOf_changesOf]; omega)
    (fun term => (hframe _ (counterRow_df_key ..)).trans (hexact.1 _)) hmid
  have hmidDocs : mid.rows.get (n_docs_key subspace.index entity_type) = counterCell docs := by
    rw [(touches_bumpAll _).get_eq hmid, hframe _ counterRow_n_docs_key, hexact.2]
    rintro ⟨term, h⟩
    exact df_key_ne_n_docs_key _ _ h.symm
  by_cases hzero : n_docs_delta = 0
  · simp only [hzero, ne_eq, not_true_eq_false, ↓reduceIte, run_pure, ok.injEq, Prod.mk.injEq, true_and] at hrun
    have heq : docs' = docs := by omega
    rw [← hrun, heq]
    exact ⟨hterms, hmidDocs⟩
  · simp only [ne_eq, hzero, not_false_eq_true, ↓reduceIte] at hrun
    obtain ⟨final, hfinal, hgetFinal⟩ := add_to_counter_run hdocs hdocs' hsumDocs hmidDocs
    rw [hfinal, ok.injEq, Prod.mk.injEq] at hrun
    rw [← hrun.2]
    refine ⟨fun term => ?_, ?_⟩
    · rw [hgetFinal, if_neg (df_key_ne_n_docs_key _ _)]
      exact hterms _
    · rw [hgetFinal, if_pos rfl]

end Counters

/-- Every counter row of the type holds eight bytes, as counters are written. -/
def CountersReadable (subspace : Subspace) (entity_type : String) (db : Db) : Prop :=
  ∀ k c, CounterRow subspace entity_type k → db.rows.get k = some c → ∃ bs, c = .raw bs ∧ bs.length = 8

theorem keeps_clear (key : Bytes) : (clear key : Tx Unit).Keeps (CountersReadable subspace entity_type) := by
  refine fun db h => ⟨(), _, run_clear _ db, fun k c hk hget => ?_⟩
  rw [get_clear] at hget
  split at hget
  · cases hget
  · exact h k c hk hget

theorem keeps_set {key : Bytes} (hkey : ¬ CounterRow subspace entity_type key) (c : Cell) :
    (set key c : Tx Unit).Keeps (CountersReadable subspace entity_type) := by
  refine fun db h => ⟨(), _, run_set _ _ db, fun k c' hk hget => ?_⟩
  rw [get_set_of_ne] at hget
  · exact h k c' hk hget
  · rintro rfl
    exact hkey hk

private theorem add_to_counter_keeps {key : Bytes} (hkey : CounterRow subspace entity_type key) (delta : Int) :
    (add_to_counter key delta).Keeps (CountersReadable subspace entity_type) := by
  intro db h
  obtain ⟨current, hread⟩ : ∃ current, (read_i64_counter key).run db = .ok (current, db) := by
    unfold read_i64_counter
    rw [run_bind_of_ok (run_get _ db)]
    cases hget : db.rows.get key with
    | none => exact ⟨0, rfl⟩
    | some c =>
      obtain ⟨bs, rfl, hlength⟩ := h _ c hkey hget
      simp [hlength]
  unfold add_to_counter
  rw [run_bind_of_ok hread]
  dsimp only
  split
  · exact keeps_clear _ db h
  · refine ⟨(), _, run_set _ _ db, ?_⟩
    intro k c hk hget
    rw [get_set] at hget
    split at hget
    · exact ⟨_, (Option.some.inj hget).symm, beBytes_length ..⟩
    · exact h k c hk hget

/-- With readable counters a change of the term index never fails. -/
theorem apply_term_posting_changes_keeps (additions removals : List TermKey) (n_docs_delta : Int) :
    (apply_term_posting_changes subspace entity_type
      (changesOf subspace entity_type id additions removals) n_docs_delta).Keeps
        (CountersReadable subspace entity_type) := by
  refine keeps_bind ?_ fun _ => keeps_bind ?_ fun _ => keeps_bind ?_ fun _ => ?_
  · exact keeps_forEach fun _ _ => keeps_clear _
  · refine keeps_forEach fun _ hposting => keeps_set ?_ _
    obtain ⟨term, _, rfl⟩ := mem_map.mp hposting
    exact (postingRow_postingOf id _).not_counterRow
  · refine keeps_forEach ?_
    rintro ⟨term, delta⟩ _
    dsimp only
    split
    · exact keeps_pure ()
    · exact add_to_counter_keeps (counterRow_df_key ..) _
  · split
    · exact add_to_counter_keeps counterRow_n_docs_key _
    · exact keeps_pure ()

end pelago_storage.term_index
