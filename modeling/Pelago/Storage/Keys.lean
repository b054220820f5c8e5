import Pelago.Storage.Node

open bytes kv pelago_core pelago_core.encoding List pelago_core.encoding.TupleBuilder
open pelago_storage.Subspace (of_namespace)

namespace pelago_storage

open Subspace (pack)

/-- A text element of a key. -/
def element (s : String) : Bytes := 0x02 :: (escape (utf8 s) ++ [0x00])

theorem element_append_inj {s t : String} {x y : Bytes} (hx : x.head? ≠ some 0xFF)
    (hy : y.head? ≠ some 0xFF) (h : element s ++ x = element t ++ y) : s = t ∧ x = y := by
  simp only [element, cons_append, append_assoc, nil_append, cons.injEq, true_and] at h
  obtain ⟨htext, hrest⟩ := escape_append_inj hx hy h
  exact ⟨utf8_inj htext, hrest⟩

theorem element_head (s : String) (x : Bytes) : (element s ++ x).head? ≠ some 0xFF := by
  simp [element]

theorem element_length (s : String) : 2 ≤ (element s).length := by
  simp [element]

/-- A key in a named part of a namespace tells the namespace and what follows
the tag of the part. -/
theorem subspace_append_inj {database ns database' ns' name name' : String} {x y : Bytes}
    (h : ((of_namespace database ns).subspace name).pfx ++ x =
      ((of_namespace database' ns').subspace name').pfx ++ y) :
    database = database' ∧ ns = ns' ∧ utf8 name ++ 0x00 :: x = utf8 name' ++ 0x00 :: y := by
  have hform : ∀ (database ns name : String) (x : Bytes),
      ((of_namespace database ns).subspace name).pfx ++ x =
        element database ++ (element ns ++ 0x02 :: (utf8 name ++ 0x00 :: x)) := by
    simp [Subspace.subspace, of_namespace, build, add_string, new, element]
  rw [hform, hform] at h
  obtain ⟨hdatabase, h⟩ := element_append_inj (element_head _ _) (element_head _ _) h
  obtain ⟨hns, h⟩ := element_append_inj (by simp) (by simp) h
  exact ⟨hdatabase, hns, (cons.inj h).2⟩

section Tags

variable {database ns database' ns' : String} {x y : Bytes}

private theorem tag_ne_zero : ∀ tag ∈ ["data", "idx", "edge", "_cdc", "_ids", "_meta"],
    ∀ b ∈ utf8 tag, (b != 0) = true := by
  decide +kernel

/-- Parts of namespaces with different tags have no row in common. -/
private theorem subspace_append_ne {tag tag' : String} (h : tag ≠ tag' ∧
      tag ∈ ["data", "idx", "edge", "_cdc", "_ids", "_meta"] ∧
      tag' ∈ ["data", "idx", "edge", "_cdc", "_ids", "_meta"]) :
    ((of_namespace database ns).subspace tag).pfx ++ x ≠ ((of_namespace database' ns').subspace tag').pfx ++ y := by
  intro heq
  have htag := congrArg (takeWhile (· != 0)) (subspace_append_inj heq).2.2
  rw [takeWhile_append_of_pos (tag_ne_zero _ h.2.1), takeWhile_append_of_pos (tag_ne_zero _ h.2.2)] at htag
  exact h.1 (utf8_inj (append_cancel_right htag))

theorem data_ne_index : (of_namespace database ns).data.pfx ++ x ≠ (of_namespace database' ns').index.pfx ++ y :=
  subspace_append_ne (by simp)

theorem edge_ne_data : (of_namespace database ns).edge.pfx ++ x ≠ (of_namespace database' ns').data.pfx ++ y :=
  subspace_append_ne (by simp)

theorem edge_ne_index : (of_namespace database ns).edge.pfx ++ x ≠ (of_namespace database' ns').index.pfx ++ y :=
  subspace_append_ne (by simp)

theorem cdc_ne_metadata : (of_namespace database ns).cdc.pfx ++ x ≠
    (of_namespace database' ns').metadata.pfx ++ y :=
  subspace_append_ne (by simp)

theorem ids_ne_data : (of_namespace database ns).ids.pfx ++ x ≠ (of_namespace database' ns').data.pfx ++ y :=
  subspace_append_ne (by simp)

theorem ids_ne_index : (of_namespace database ns).ids.pfx ++ x ≠ (of_namespace database' ns').index.pfx ++ y :=
  subspace_append_ne (by simp)

theorem ids_ne_edge : (of_namespace database ns).ids.pfx ++ x ≠ (of_namespace database' ns').edge.pfx ++ y :=
  subspace_append_ne (by simp)

end Tags

/-- The part of the index that belongs to one type: what follows the type's
name, with its first byte given. -/
def indexRow (subspace : Subspace) (entity_type : String) (b : UInt8) (rest : Bytes) : Bytes :=
  subspace.index.pfx ++ (element entity_type ++ b :: rest)

/-- Rows of the index of one type. -/
def IndexRow (subspace : Subspace) (entity_type : String) (k : Bytes) : Prop :=
  ∃ b rest, k = indexRow subspace entity_type b rest

theorem indexRow_inj {subspace : Subspace} {entity_type : String} {b b' : UInt8} {rest rest' : Bytes}
    (h : indexRow subspace entity_type b rest = indexRow subspace entity_type b' rest') :
    b = b' ∧ rest = rest' := by
  have htail := append_cancel_left (append_cancel_left h)
  exact cons.inj htail

theorem indexRow_mem (subspace : Subspace) (entity_type : String) (b : UInt8) (rest : Bytes) :
    IndexRow subspace entity_type (indexRow subspace entity_type b rest) :=
  ⟨b, rest, rfl⟩

section Layout

variable (subspace : Subspace) (entity_type : String)

theorem data_key_eq (id : Bytes) :
    node.data_key subspace.data entity_type id = subspace.data.pfx ++ (element entity_type ++ id) := by
  simp [node.data_key, build, add_string, add_raw_bytes, new, pack, element]

theorem data_key_append (id : Bytes) :
    node.data_key subspace.data entity_type id = node.data_key subspace.data entity_type [] ++ id := by
  simp [node.data_key, build, add_raw_bytes]

theorem delete_guard_key_eq (id : Bytes) : node.delete_guard_key subspace.data entity_type id =
      subspace.data.pfx ++ (element "__deleting" ++ (element entity_type ++ id)) := by
  simp [node.delete_guard_key, build, add_string, add_raw_bytes, new, pack, element]

theorem entry_base_eq (property : String) (marker : UInt8) (rest : Bytes) :
    (index.entry_base subspace.index entity_type property marker).buf ++ rest =
      indexRow subspace entity_type 0x02 (escape (utf8 property) ++ 0x00 :: marker :: rest) := by
  simp [index.entry_base, add_string, add_raw_bytes, add_marker, new, pack, element, indexRow]

theorem build_posting_key (field : String) (encoded id : Bytes) :
    (term_index.build_posting subspace.index entity_type field encoded id).key =
      indexRow subspace entity_type term_index.markers.TERM_POSTING
        (element field ++ 0x01 :: (escape encoded ++ 0x00 :: id)) := by
  simp [term_index.build_posting, add_string, add_raw_bytes, add_bytes, build, add_marker, new, pack,
    element, indexRow]

theorem df_key_eq (field : String) (encoded : Bytes) : term_index.df_key subspace.index entity_type field encoded =
      indexRow subspace entity_type term_index.markers.DF_STAT
        (element field ++ 0x01 :: (escape encoded ++ [0x00])) := by
  simp [term_index.df_key, add_string, add_raw_bytes, add_bytes,
    build, add_marker, new, pack, element, indexRow]

theorem counter_key_eq (site : UInt8) : ids.counter_key subspace.ids entity_type site = subspace.ids.pfx ++
        (element entity_type ++ 0x14 :: encode_int_for_index (.ofNat site.toNat)) := by
  simp [ids.counter_key, build, add_string, add_int, add_raw_bytes, new, pack, element]

theorem n_docs_key_eq : term_index.n_docs_key subspace.index entity_type =
      indexRow subspace entity_type term_index.markers.NDOCS_STAT [] := by
  simp [term_index.n_docs_key, add_string, add_raw_bytes, build, add_marker, new, pack, element, indexRow]

end Layout

theorem data_key_inj {subspace : Subspace} {entity_type : String} {id id' : Bytes}
    (h : node.data_key subspace.data entity_type id = node.data_key subspace.data entity_type id') : id = id' := by
  rw [data_key_eq, data_key_eq] at h
  exact append_cancel_left (append_cancel_left h)

private theorem utf8_deleting : utf8 "__deleting" = [0x5F, 0x5F, 0x64, 0x65, 0x6C, 0x65, 0x74, 0x69, 0x6E, 0x67] := by
  decide +kernel

theorem data_key_ne_delete_guard_key (subspace : Subspace) (entity_type : String) {entity_type' : String}
    (id id' : NodeId) : node.data_key subspace.data entity_type id.to_bytes ≠
      node.delete_guard_key subspace.data entity_type' id'.to_bytes := by
  intro h
  rw [data_key_eq, delete_guard_key_eq] at h
  have htail := append_cancel_left h
  -- the type would be the text of the guard, and what follows is too long to be an id
  have htype : escape (utf8 entity_type) = escape (utf8 "__deleting") := by
    simp only [element, cons_append, append_assoc, nil_append, NodeId.to_bytes] at htail
    obtain ⟨_, htail⟩ := cons.inj htail
    exact (escape_append_eq_plain (by decide) (by decide) htail).1
  have hlength := congrArg length htail
  have helement := element_length entity_type'
  simp only [element, htype, length_append, length_cons, NodeId.to_bytes_length] at hlength helement
  omega

/-- Keys that are `pfx` followed by the bytes of a node id. -/
def nodeKey (pfx k : Bytes) : Bool := pfx.isPrefixOf k && k.length == pfx.length + 9

theorem nodeKey_eq_true {pfx k : Bytes} : nodeKey pfx k = true ↔ ∃ id : NodeId, k = pfx ++ id.to_bytes := by
  simp only [nodeKey, Bool.and_eq_true, isPrefixOf_iff_prefix, beq_iff_eq]
  constructor
  · rintro ⟨⟨rest, rfl⟩, hlength⟩
    rw [length_append, add_left_cancel_iff] at hlength
    obtain ⟨id, _, rfl⟩ := NodeId.exists_of_length hlength
    exact ⟨id, rfl⟩
  · rintro ⟨id, rfl⟩
    exact ⟨prefix_append .., by simp⟩

section Disjoint

variable {database ns : String} {entity_type : String} {k : Bytes}

theorem data_key_not_indexRow (entity_type' : String) (id : Bytes) :
    ¬ IndexRow (of_namespace database ns) entity_type
      (node.data_key (of_namespace database ns).data entity_type' id) := by
  rintro ⟨b, _, h⟩
  rw [data_key_eq] at h
  exact data_ne_index h

theorem delete_guard_key_not_indexRow (entity_type' : String) (id : Bytes) :
    ¬ IndexRow (of_namespace database ns) entity_type
      (node.delete_guard_key (of_namespace database ns).data entity_type' id) := by
  rintro ⟨b, _, h⟩
  rw [delete_guard_key_eq] at h
  exact data_ne_index h

theorem edgeKey_not_indexRow (hedge : EdgeKey k) : ¬ IndexRow (of_namespace database ns) entity_type k := by
  rintro ⟨b, _, h⟩
  obtain ⟨database', _, _, rfl⟩ := hedge
  exact edge_ne_index h

theorem edgeKey_ne_data_key (hedge : EdgeKey k) (id : Bytes) :
    k ≠ node.data_key (of_namespace database ns).data entity_type id := by
  obtain ⟨database', _, _, rfl⟩ := hedge
  rw [data_key_eq]
  exact edge_ne_data

end Disjoint

end pelago_storage
