import Pelago.Storage.Consumer.Delivery
import Pelago.Storage.Edge.Mutations

open bytes kv pelago_core pelago_core.encoding text

namespace pelago_storage

open Subspace (of_namespace range_end)

/-- The keys that a scan over the subspace reads and a drop clears. -/
def Subspace.InRange (s : Subspace) (k : Bytes) : Prop := s.pfx ≤ k ∧ k < s.range_end

/-- The keys that are written for a namespace. -/
inductive TenantKey (database ns : String) : Bytes → Prop
  | node (entity_type : String) (id : NodeId) :
    TenantKey database ns (node.data_key (of_namespace database ns).data entity_type id.to_bytes)
  | guard (entity_type : String) (id : NodeId) :
    TenantKey database ns (node.delete_guard_key (of_namespace database ns).data entity_type id.to_bytes)
  | edge (schema : Option EntitySchema) (source target : NodeRef) (label : String) (properties : Properties) {k : Bytes}
      (hk : k ∈ (edge.EdgeAt.keys schema ⟨database, ns, source, target, label, properties⟩).all_keys) :
    TenantKey database ns k
  | index (entity_type prop_name : String) (id : NodeId) (prop_def : PropertyDef) (value : Value)
      {entry : index.IndexEntry}
      (hentry : index.build_index_entry (of_namespace database ns).index entity_type prop_name id.to_bytes
        prop_def value = .ok (some entry)) :
    TenantKey database ns entry.key
  | posting (entity_type field : String) (encoded_value : Bytes) (id : NodeId) :
    TenantKey database ns (term_index.build_posting (of_namespace database ns).index entity_type field
      encoded_value id.to_bytes).key
  | df (entity_type field : String) (encoded_value : Bytes) :
    TenantKey database ns (term_index.df_key (of_namespace database ns).index entity_type field encoded_value)
  | n_docs (entity_type : String) :
    TenantKey database ns (term_index.n_docs_key (of_namespace database ns).index entity_type)
  | latest_version (entity_type : String) :
    TenantKey database ns (schema.latest_version_key (of_namespace database ns).schema entity_type)
  | version (entity_type : String) (version : UInt32) :
    TenantKey database ns (schema.version_key (of_namespace database ns).schema entity_type version)
  | cdc (vs : Versionstamp) : TenantKey database ns (cdc.entry_key database ns vs)
  | counter (entity_type : String) (site : UInt8) :
    TenantKey database ns (ids.counter_key (of_namespace database ns).ids entity_type site)
  | job (job_id : String) : TenantKey database ns (jobs.job_key database ns job_id)
  | checkpoint (consumer_id : String) (batch_size : Nat) :
    TenantKey database ns (consumer.checkpoint_key ⟨consumer_id, database, ns, batch_size⟩)

/-- The parts of a namespace. -/
def parts : List String := ["data", "idx", "edge", "_schema", "_cdc", "_jobs", "_ids", "_meta"]

section Layout

variable {database ns : String}

theorem of_namespace_pfx : (of_namespace database ns).pfx = element database ++ element ns := by
  simp [of_namespace, TupleBuilder.build, TupleBuilder.add_string, TupleBuilder.new, element]

private theorem index_entry_key {subspace : Subspace} {entity_type prop_name : String} {id : Bytes}
    {prop_def : PropertyDef} {value : Value} {entry : index.IndexEntry}
    (h : index.build_index_entry subspace.index entity_type prop_name id prop_def value = .ok (some entry)) :
    ∃ rest, entry.key = subspace.index.pfx ++ rest := by
  unfold index.build_index_entry at h
  cases hvalue : encode_value_for_index value with
  | error =>
    rw [hvalue] at h
    cases h
  | ok encoded =>
    rw [hvalue] at h
    cases hkind : prop_def.index with
    | none =>
      rw [hkind] at h
      cases h
    | unique =>
      rw [hkind] at h
      cases h
      exact ⟨_, entry_base_eq ..⟩
    | equality | range =>
      rw [hkind] at h
      cases h
      exact ⟨_, (List.append_assoc ..).trans (entry_base_eq ..)⟩

/-- Every row of a namespace lies in one of its parts. -/
theorem tenantKey_part {k : Bytes} (h : TenantKey database ns k) :
    ∃ part ∈ parts, ∃ rest, k = ((of_namespace database ns).subspace part).pfx ++ rest := by
  cases h with
  | node => exact ⟨"data", by decide, _, data_key_eq ..⟩
  | guard => exact ⟨"data", by decide, _, delete_guard_key_eq ..⟩
  | edge _ _ _ _ _ hk =>
    obtain ⟨marker, _, rfl⟩ := edge.exists_edgeRow_of_mem_all_keys hk
    exact ⟨"edge", by decide, _, rfl⟩
  | index _ _ _ _ _ hentry =>
    obtain ⟨rest, hrest⟩ := index_entry_key hentry
    exact ⟨"idx", by decide, rest, hrest⟩
  | posting => exact ⟨"idx", by decide, _, build_posting_key ..⟩
  | df => exact ⟨"idx", by decide, _, df_key_eq ..⟩
  | n_docs => exact ⟨"idx", by decide, _, n_docs_key_eq ..⟩
  | latest_version entity_type =>
    exact ⟨"_schema", by decide, element entity_type ++ element "latest", List.append_assoc ..⟩
  | version entity_type version =>
    refine ⟨"_schema", by decide, element entity_type ++ (element "v" ++
      0x14 :: encode_int_for_index (.ofNat version.toNat)), ?_⟩
    rw [← List.append_assoc, ← List.append_assoc]
    rfl
  | cdc => exact ⟨"_cdc", by decide, _, rfl⟩
  | counter => exact ⟨"_ids", by decide, _, counter_key_eq ..⟩
  | job job_id => exact ⟨"_jobs", by decide, element job_id, rfl⟩
  | checkpoint => exact ⟨"_meta", by decide, _, consumer.checkpoint_key_eq _⟩

/-- The range of a namespace. -/
theorem inRange_of_namespace_iff {k : Bytes} : (of_namespace database ns).InRange k ↔
      ∃ rest, k = element database ++ (element ns ++ rest) ∧ rest.head? ≠ some 0xFF := by
  unfold Subspace.InRange range_end
  rw [mem_range_iff, of_namespace_pfx]
  simp only [List.append_assoc]

theorem inRange_of_part {part : String} (rest : Bytes) :
    (of_namespace database ns).InRange (((of_namespace database ns).subspace part).pfx ++ rest) := by
  rw [inRange_of_namespace_iff]
  simp [Subspace.subspace, of_namespace_pfx]

/-- Ranges of different namespaces have no key in common. -/
theorem inRange_of_namespace_inj {database' ns' : String} {k : Bytes}
    (h : (of_namespace database ns).InRange k) (h' : (of_namespace database' ns').InRange k) :
    database' = database ∧ ns' = ns := by
  obtain ⟨rest, rfl, hrest⟩ := inRange_of_namespace_iff.mp h
  obtain ⟨rest', heq, hrest'⟩ := inRange_of_namespace_iff.mp h'
  obtain ⟨hdatabase, heq⟩ := element_append_inj (element_head _ _) (element_head _ _) heq
  obtain ⟨hns, _⟩ := element_append_inj hrest hrest' heq
  exact ⟨hdatabase.symm, hns.symm⟩

theorem system_pfx : Subspace.system.pfx = element "_sys" := by decide +kernel

/-- The system area is the database of its name. -/
theorem inRange_system_iff {k : Bytes} (h : (of_namespace database ns).InRange k) :
    Subspace.system.InRange k ↔ database = "_sys" := by
  obtain ⟨rest, rfl, hrest⟩ := inRange_of_namespace_iff.mp h
  unfold Subspace.InRange range_end
  rw [mem_range_iff, system_pfx]
  constructor
  · rintro ⟨rest', heq, hrest'⟩
    exact (element_append_inj (element_head _ _) hrest' heq).1
  · rintro rfl
    exact ⟨_, rfl, element_head _ _⟩

end Layout

open List text.Separator Subspace

/-- Names in a subspace are told apart by the end of one and the start of the
next. -/
def nameEnd : Separator UInt8 := Separator.pair 0x00 0x02 (by decide)

/-- A name as a child subspace writes it. -/
def bareElement (name : String) : Bytes := 0x02 :: (utf8 name ++ [0x00])

/-- The end of a name and the start of another do not stand in it. -/
def Unbroken (name : String) : Prop := ¬ ['\x00', '\x02'] <:+: name.toList

section Names

theorem infix_of_utf8 {name : String} (h : [0x00, 0x02] <:+: utf8 name) : ['\x00', '\x02'] <:+: name.toList := by
  obtain ⟨x, y, hxy⟩ := h
  rw [append_assoc] at hxy
  obtain ⟨s₁, _, rfl, _, hs₂⟩ := utf8_eq_append_cons (by decide) hxy.symm
  obtain ⟨s₃, s₄, rfl, hs₃, _⟩ := utf8_eq_append_cons (x := []) (by decide) hs₂
  have hempty : s₃ = "" := utf8_inj hs₃
  exact ⟨s₁.toList, s₄.toList, by simp [hempty]⟩

theorem whole_utf8 {name : String} (h : Unbroken name) : nameEnd.Whole (utf8 name) :=
  (whole_pair_iff _).mpr fun hbytes => h (infix_of_utf8 hbytes)

theorem whole_utf8_concat {name : String} (h : Unbroken name) : nameEnd.Whole (utf8 name ++ [0x00]) := by
  refine (whole_pair_iff _).mpr fun ⟨x, y, hxy⟩ => h (infix_of_utf8 ?_)
  obtain rfl | ⟨y, b, rfl⟩ := y.eq_nil_or_concat
  · have hlast := congrArg getLast? hxy
    simp at hlast
  · rw [concat_eq_append, ← append_assoc] at hxy
    exact ⟨x, y, (append_inj' hxy rfl).1⟩

theorem whole_escape (bs : Bytes) : nameEnd.Whole (escape bs ++ [0x00]) := by
  refine (whole_pair_iff _).mpr ?_
  induction bs with
  | nil => decide
  | cons b bs ih =>
    rw [escape]
    split
    · simp only [cons_append, infix_cons_iff, cons_prefix_cons]
      rintro (⟨_, h, _⟩ | ⟨h, _⟩ | h)
      · exact absurd h (by decide)
      · exact absurd h (by decide)
      · exact ih h
    · rename_i hb
      simp only [cons_append, infix_cons_iff, cons_prefix_cons]
      rintro (⟨h, _⟩ | h)
      · exact hb h.symm
      · exact ih h

/-- A name that breaks is two names. -/
theorem exists_of_not_unbroken {name : String} (h : ¬ Unbroken name) :
    ∃ x y : String, name = x ++ "\x00\x02" ++ y ∧ x ≠ name ∧ y ≠ name := by
  obtain ⟨x, y, hxy⟩ := not_not.mp h
  have hlength := congrArg length hxy
  simp only [length_append, length_cons, length_nil] at hlength
  refine ⟨.ofList x, .ofList y, ?_, ?_, ?_⟩
  · apply String.toList_inj.mp
    simp [← hxy]
  · rintro rfl
    simp at hlength
    omega
  · rintro rfl
    simp at hlength

theorem bareElement_append (x y : String) :
    bareElement (x ++ "\x00\x02" ++ y) = bareElement x ++ bareElement y := by
  have hsep : utf8 "\x00\x02" = [0x00, 0x02] := by decide +kernel
  simp [bareElement, utf8_append, hsep]

end Names

namespace SystemRecord

/-- The kind of a record of the system area. -/
def tag : SystemRecord → String
  | site_claim _ => "site_claim"
  | position _ => "repl_position"
  | scoped_position _ _ _ => "repl_position_scoped"
  | lease _ _ _ => "repl_lease"
  | policy _ => "policies"
  | access_token _ | refresh_token _ => "auth"
  | audit _ _ => "audit"
  | watch_state _ _ _ => "watch"
  | settings _ _ => "_ns"

/-- What follows the kind. -/
def tail : SystemRecord → Bytes
  | site_claim name | position name | policy name => element name
  | scoped_position database ns remote_site_id => bareElement database ++ (bareElement ns ++ element remote_site_id)
  | lease site_id database ns => bareElement site_id ++ (bareElement database ++ bareElement ns)
  | access_token token => element "access" ++ element token
  | refresh_token token => element "refresh" ++ element token
  | audit ts event_id => 0x14 :: (encode_int_for_index ts ++ element event_id)
  | watch_state database ns state_id =>
    element "qstate" ++ (bareElement database ++ (bareElement ns ++ element state_id))
  | settings _ _ => element "settings"

/-- Where the record is kept. -/
def home : SystemRecord → Bytes
  | settings database ns => element database ++ element ns
  | _ => element "_sys"

theorem tail_head (s : SystemRecord) (rest : Bytes) : (s.tail ++ rest).head? ≠ some 0xFF := by
  cases s <;> simp [tail, element, bareElement]

/-- A kind is written alike with and without escaping. -/
private theorem bareElement_tag : ∀ name ∈ ["site_claim", "repl_position", "repl_position_scoped", "repl_lease",
    "policies", "auth", "audit", "watch", "access", "refresh", "qstate", "_ns", "settings"],
    bareElement name = element name := by decide +kernel

theorem key_eq (s : SystemRecord) : s.key = s.home ++ (element s.tag ++ s.tail) := by
  have hpack : ∀ tag ∈ ["site_claim", "repl_position", "policies"], ∀ name,
      ((system.child tag).pack.add_string name).build = element "_sys" ++ (element tag ++ element name) := by
    intro tag htag name
    change system.pfx ++ bareElement tag ++ element name = _
    rw [system_pfx, bareElement_tag _ (by simp at htag ⊢; tauto), append_assoc]
  cases s with
  | site_claim name => exact hpack _ (by decide) _
  | position name => exact hpack _ (by decide) _
  | policy name => exact hpack _ (by decide) _
  | scoped_position database ns remote_site_id =>
    change system.pfx ++ bareElement "repl_position_scoped" ++ bareElement database ++ bareElement ns ++
      element remote_site_id = _
    rw [system_pfx, bareElement_tag _ (by decide)]
    simp [home, tag, tail]
  | lease site_id database ns =>
    change system.pfx ++ bareElement "repl_lease" ++ bareElement site_id ++ bareElement database ++
      bareElement ns = _
    rw [system_pfx, bareElement_tag _ (by decide)]
    simp [home, tag, tail]
  | access_token token =>
    change system.pfx ++ bareElement "auth" ++ bareElement "access" ++ element token = _
    rw [system_pfx, bareElement_tag _ (by decide), bareElement_tag _ (by decide)]
    simp [home, tag, tail]
  | refresh_token token =>
    change system.pfx ++ bareElement "auth" ++ bareElement "refresh" ++ element token = _
    rw [system_pfx, bareElement_tag _ (by decide), bareElement_tag _ (by decide)]
    simp [home, tag, tail]
  | audit ts event_id =>
    change system.pfx ++ bareElement "audit" ++ 0x14 :: encode_int_for_index ts ++ element event_id = _
    rw [system_pfx, bareElement_tag _ (by decide)]
    simp [home, tag, tail]
  | watch_state database ns state_id =>
    change system.pfx ++ bareElement "watch" ++ bareElement "qstate" ++ bareElement database ++
      bareElement ns ++ element state_id = _
    rw [system_pfx, bareElement_tag _ (by decide), bareElement_tag _ (by decide)]
    simp [home, tag, tail]
  | settings database ns =>
    change (of_namespace database ns).pfx ++ bareElement "_ns" ++ bareElement "settings" = _
    rw [of_namespace_pfx, bareElement_tag _ (by decide), bareElement_tag _ (by decide)]
    simp [home, tag, tail]

section Join

variable (a b c : String)

theorem bareElements_element : bareElement a ++ (bareElement b ++ element c) =
    0x02 :: nameEnd.join [utf8 a, utf8 b, escape (utf8 c) ++ [0x00]] := by
  simp [join, intercalate_cons_cons, nameEnd, pair, bareElement, element]

theorem bareElements_bareElement : bareElement a ++ (bareElement b ++ bareElement c) =
    0x02 :: nameEnd.join [utf8 a, utf8 b, utf8 c ++ [0x00]] := by
  simp [join, intercalate_cons_cons, nameEnd, pair, bareElement]

end Join

/-- The names of the record do not break. -/
def Unambiguous (s : SystemRecord) : Prop := ∀ name ∈ s.bareNames, Unbroken name

theorem names_inj {a b a' b' : String} {last last' : Bytes} (ha : Unbroken a) (hb : Unbroken b)
    (hlast : nameEnd.Whole last)
    (h : 0x02 :: nameEnd.join [utf8 a', utf8 b', last'] = 0x02 :: nameEnd.join [utf8 a, utf8 b, last]) :
    a' = a ∧ b' = b ∧ last' = last := by
  have hwhole : ∀ field ∈ [utf8 a, utf8 b, last], nameEnd.Whole field := by
    intro _ hfield
    simp only [mem_cons, not_mem_nil, or_false] at hfield
    obtain rfl | rfl | rfl := hfield
    · exact whole_utf8 ha
    · exact whole_utf8 hb
    · exact hlast
  have hfields := join_inj hwhole (by rfl) (cons.inj h).2
  simp only [cons.injEq, and_true] at hfields
  exact ⟨utf8_inj hfields.1, utf8_inj hfields.2.1, hfields.2.2⟩

/-- Three fields are never two. -/
theorem tail_ne_settings (fields : List Bytes) (hlength : fields.length = 3) :
    0x02 :: nameEnd.join fields ≠ element "_ns" ++ element "settings" := by
  have htext : element "_ns" ++ element "settings" = 0x02 :: nameEnd.join [utf8 "_ns", utf8 "settings" ++ [0x00]] := by
    decide +kernel
  have hsplit : nameEnd.split (nameEnd.join [utf8 "_ns", utf8 "settings" ++ [0x00]]) =
      [utf8 "_ns", utf8 "settings" ++ [0x00]] := by decide +kernel
  rw [htext]
  intro h
  have hparts := congrArg nameEnd.split (cons.inj h).2
  rw [hsplit, nameEnd.split_join (ne_nil_of_length_pos (by omega))] at hparts
  have hcount := length_le_flatMap_split (S := nameEnd) fields
  rw [hparts, hlength] at hcount
  simp at hcount

variable {s s' : SystemRecord}

/-- The system area holds no settings. -/
theorem key_ne_settings_key (hs : s.home = element "_sys") (htag : s.tag ≠ "_ns")
    (database ns : String) : s.key ≠ (settings database ns).key := by
  rw [key_eq, key_eq, hs]
  intro h
  change _ = (element database ++ element ns) ++ (element "_ns" ++ element "settings") at h
  rw [append_assoc] at h
  obtain ⟨_, h⟩ := element_append_inj (element_head _ _) (element_head _ _) h
  have hhead := s.tail_head []
  rw [append_nil] at hhead
  obtain ⟨_, htail⟩ := element_append_inj hhead (element_head _ _) h
  have hname : ∀ name, element name ≠ element "_ns" ++ element "settings" := by
    intro _ heq
    have hcut := (element_append_inj (x := []) (by simp) (element_head _ [])
      (by simpa using heq)).2
    simp [element] at hcut
  cases s with
  | site_claim name | position name | policy name => exact hname _ htail
  | scoped_position database ns remote_site_id =>
    exact tail_ne_settings _ rfl ((bareElements_element _ ns _).symm.trans htail)
  | lease site_id database ns =>
    exact tail_ne_settings _ rfl ((bareElements_bareElement _ _ ns).symm.trans htail)
  | access_token | refresh_token =>
    exact absurd (element_append_inj (by simp [element]) (by simp [element]) htail).1 (by decide)
  | audit => exact absurd (cons.inj htail).1 (by decide)
  | watch_state =>
    exact absurd (element_append_inj (by simp [bareElement]) (by simp [element]) htail).1 (by decide)
  | settings => exact htag rfl

theorem home_eq_or (s : SystemRecord) :
    (s.home = element "_sys" ∧ s.tag ≠ "_ns") ∨ ∃ database ns, s = settings database ns := by
  cases s with
  | settings database ns => exact .inr ⟨database, ns, rfl⟩
  | _ => exact .inl ⟨rfl, by simp [tag]⟩

theorem tag_inj (hhome : s'.home = s.home) (h : s'.key = s.key) : s'.tag = s.tag ∧ s'.tail = s.tail := by
  rw [key_eq, key_eq, hhome] at h
  have hhead := s.tail_head []
  have hhead' := s'.tail_head []
  rw [append_nil] at hhead hhead'
  exact element_append_inj hhead' hhead (append_cancel_left h)

/-- Records of one kind are told apart by what follows it. -/
theorem eq_of_tail (hs : s.Unambiguous) (hkind : s.tag ≠ "_ns") (htag : s'.tag = s.tag)
    (htail : s'.tail = s.tail) : s' = s := by
  have helement : ∀ {a b : String}, element a = element b → a = b := fun {a b} h =>
    (element_append_inj (x := []) (y := []) (by simp) (by simp) (by rw [h])).1
  cases s <;> cases s' <;> try (simp [tag] at htag)
  case site_claim.site_claim | position.position | policy.policy => rw [helement htail]
  case scoped_position.scoped_position =>
    rw [tail, tail, bareElements_element, bareElements_element] at htail
    obtain ⟨rfl, rfl, hlast⟩ := names_inj (hs _ (by simp [bareNames])) (hs _ (by simp [bareNames]))
      (whole_escape _) htail
    rw [utf8_inj (escape_inj (append_inj' hlast rfl).1)]
  case lease.lease =>
    rw [tail, tail, bareElements_bareElement, bareElements_bareElement] at htail
    obtain ⟨rfl, rfl, hlast⟩ := names_inj (hs _ (by simp [bareNames])) (hs _ (by simp [bareNames]))
      (whole_utf8_concat (hs _ (by simp [bareNames]))) htail
    rw [utf8_inj (append_inj' hlast rfl).1]
  case access_token.access_token | refresh_token.refresh_token =>
    rw [helement (append_cancel_left htail)]
  case access_token.refresh_token | refresh_token.access_token =>
    exact absurd (element_append_inj (by simp [element]) (by simp [element]) htail).1 (by decide)
  case audit.audit =>
    obtain ⟨hts, hid⟩ := append_inj (cons.inj htail).2
      (by simp [encode_int_for_index, i64_to_be_bytes, beBytes])
    rw [encode_int_for_index_inj hts, helement hid]
  case watch_state.watch_state =>
    have hrest := append_cancel_left htail
    rw [bareElements_element, bareElements_element] at hrest
    obtain ⟨rfl, rfl, hlast⟩ := names_inj (hs _ (by simp [bareNames])) (hs _ (by simp [bareNames]))
      (whole_escape _) hrest
    rw [utf8_inj (escape_inj (append_inj' hlast rfl).1)]
  case settings.settings => exact absurd rfl hkind

/-- No other record has the key of a record whose names do not break. -/
theorem key_inj (hs : s.Unambiguous) (h : s'.key = s.key) : s' = s := by
  obtain ⟨hhome, htag⟩ | ⟨database, ns, rfl⟩ := s.home_eq_or
  · obtain ⟨hhome', _⟩ | ⟨database', ns', rfl⟩ := s'.home_eq_or
    · obtain ⟨htags, htail⟩ := tag_inj (hhome'.trans hhome.symm) h
      exact eq_of_tail hs htag htags htail
    · exact absurd h.symm (key_ne_settings_key hhome htag _ _)
  · obtain ⟨hhome', htag'⟩ | ⟨database', ns', rfl⟩ := s'.home_eq_or
    · exact absurd h (key_ne_settings_key hhome' htag' _ ns)
    · have hkeys : ((of_namespace database' ns').subspace "_ns").pfx ++ bareElement "settings" =
          ((of_namespace database ns).subspace "_ns").pfx ++ bareElement "settings" := h
      obtain ⟨hdatabase, hns, _⟩ := subspace_append_inj hkeys
      rw [hdatabase, hns]

/-- A record with a name that breaks shares its key with another one. -/
theorem exists_same_key (hs : ¬ s.Unambiguous) : ∃ s', s' ≠ s ∧ s'.key = s.key := by
  unfold Unambiguous at hs
  push Not at hs
  obtain ⟨_, hname, hbroken⟩ := hs
  obtain ⟨x, y, hxy, hx, hy⟩ := exists_of_not_unbroken hbroken
  cases s with
  | scoped_position database ns remote_site_id =>
    simp only [bareNames, mem_cons, not_mem_nil, or_false] at hname
    obtain rfl | rfl := hname
    · refine ⟨scoped_position x (y ++ "\x00\x02" ++ ns) remote_site_id, fun h => hx (scoped_position.inj h).1, ?_⟩
      simp [key_eq, home, tag, tail, hxy, bareElement_append, append_assoc]
    · refine ⟨scoped_position (database ++ "\x00\x02" ++ x) y remote_site_id,
        fun h => hy (scoped_position.inj h).2.1, ?_⟩
      simp [key_eq, home, tag, tail, hxy, bareElement_append, append_assoc]
  | lease site_id database ns =>
    simp only [bareNames, mem_cons, not_mem_nil, or_false] at hname
    obtain rfl | rfl | rfl := hname
    · refine ⟨lease x (y ++ "\x00\x02" ++ database) ns, fun h => hx (lease.inj h).1, ?_⟩
      simp [key_eq, home, tag, tail, hxy, bareElement_append, append_assoc]
    · refine ⟨lease (site_id ++ "\x00\x02" ++ x) y ns, fun h => hy (lease.inj h).2.1, ?_⟩
      simp [key_eq, home, tag, tail, hxy, bareElement_append, append_assoc]
    · refine ⟨lease site_id (database ++ "\x00\x02" ++ x) y, fun h => hy (lease.inj h).2.2, ?_⟩
      simp [key_eq, home, tag, tail, hxy, bareElement_append, append_assoc]
  | watch_state database ns state_id =>
    simp only [bareNames, mem_cons, not_mem_nil, or_false] at hname
    obtain rfl | rfl := hname
    · refine ⟨watch_state x (y ++ "\x00\x02" ++ ns) state_id, fun h => hx (watch_state.inj h).1, ?_⟩
      simp [key_eq, home, tag, tail, hxy, bareElement_append, append_assoc]
    · refine ⟨watch_state (database ++ "\x00\x02" ++ x) y state_id, fun h => hy (watch_state.inj h).2.1, ?_⟩
      simp [key_eq, home, tag, tail, hxy, bareElement_append, append_assoc]
  | _ => simp [bareNames] at hname

/-- The record is the only one with its key just when its names do not break. -/
theorem unambiguous_iff (s : SystemRecord) : s.Unambiguous ↔ ∀ s' : SystemRecord, s'.key = s.key → s' = s := by
  constructor
  · exact fun hs _ h => key_inj hs h
  · intro h
    by_contra hs
    obtain ⟨s', hne, hkey⟩ := exists_same_key hs
    exact hne (h s' hkey)

end SystemRecord

end pelago_storage
