import Pelago.Storage.Records

open bytes kv pelago_core pelago_core.encoding

namespace pelago_storage.ids

/-- Hands out ids from batches that are reserved in the database. -/
structure IdAllocator where
  site_id : UInt8
  batch_size : UInt64

/-- Next id of the current batch and its end (exclusive). -/
structure AllocationState where
  next : UInt64
  batch_end : UInt64

/-- The allocation state of each type, kept in memory. -/
abbrev Allocations := OrdMap String AllocationState

abbrev World := Proc.World Bytes Cell Allocations

def counter_key (subspace : Subspace) (entity_type : String) (site_id : UInt8) : Bytes :=
  (subspace.pack.add_string entity_type |>.add_int (Int64.ofNat site_id.toNat)).build

def saturating_add (a b : UInt64) : UInt64 :=
  if a.toNat + b.toNat < 2 ^ 64 then a + b else 0xFFFFFFFFFFFFFFFF

theorem toNat_saturating_add_one {a : UInt64} (h : a.toNat + 1 < 2 ^ 64) :
    (saturating_add a 1).toNat = a.toNat + 1 := by
  rw [saturating_add, if_pos (by simpa using h)]
  exact Nat.mod_eq_of_lt (by simpa using h)

/-- Reserves a batch and returns its start. A counter row of another length
than eight bytes counts as zero. -/
def allocate_batch_from_fdb (self : IdAllocator) (database ns entity_type : String) (db : Db) :
    UInt64 × Db :=
  let key := counter_key (Subspace.of_namespace database ns).ids entity_type self.site_id
  let current := match db.rows.get key with
    | some (.raw bs) => if bs.length = 8 then UInt64.ofNat (beValue bs) else 0
    | _ => 0
  let new_value := saturating_add current self.batch_size
  (current, { db with rows := db.rows.set key (.raw (beBytes 8 new_value.toNat)) })

def allocate (self : IdAllocator) (database ns entity_type : String) (w : World) : NodeId × World :=
  let cache_key := database ++ ":" ++ ns ++ ":" ++ entity_type
  let state := (w.mem.get cache_key).getD ⟨0, 0⟩
  let (state, db) :=
    if state.next ≥ state.batch_end then
      let (new_batch_start, db) := allocate_batch_from_fdb self database ns entity_type w.db
      (⟨new_batch_start, new_batch_start + self.batch_size⟩, db)
    else (state, w.db)
  let id := state.next
  (NodeId.new self.site_id id, ⟨db, w.mem.set cache_key { state with next := id + 1 }⟩)

/-- What the counter row of a type tells: how many ids are reserved. -/
def reserved (self : IdAllocator) (database ns entity_type : String) (db : Db) : UInt64 :=
  match db.rows.get (counter_key (Subspace.of_namespace database ns).ids entity_type self.site_id) with
  | some (.raw bs) => if bs.length = 8 then UInt64.ofNat (beValue bs) else 0
  | _ => 0

/-- The state of the current batch. -/
def batch (database ns entity_type : String) (mem : Allocations) : AllocationState :=
  (mem.get (database ++ ":" ++ ns ++ ":" ++ entity_type)).getD ⟨0, 0⟩

/-- The first `n` ids of a type have been handed out, and the current batch is
the last one reserved. -/
structure Issued (alloc : IdAllocator) (database ns entity_type : String) (w : World) (n : Nat) : Prop where
  next : (batch database ns entity_type w.mem).next.toNat = n
  batch_end : (batch database ns entity_type w.mem).batch_end = reserved alloc database ns entity_type w.db
  le_reserved : n ≤ (reserved alloc database ns entity_type w.db).toNat
  reserved_le : (reserved alloc database ns entity_type w.db).toNat ≤ n + alloc.batch_size.toNat

variable {alloc : IdAllocator} {database ns entity_type : String} {w : World} {n : Nat}

theorem Issued.congr {w' : World} (h : Issued alloc database ns entity_type w n) (hmem : w'.mem = w.mem)
    (hrow : w'.db.rows.get (counter_key (Subspace.of_namespace database ns).ids entity_type alloc.site_id) =
      w.db.rows.get (counter_key (Subspace.of_namespace database ns).ids entity_type alloc.site_id)) :
    Issued alloc database ns entity_type w' n := by
  have hreserved : reserved alloc database ns entity_type w'.db = reserved alloc database ns entity_type w.db := by
    unfold reserved
    rw [hrow]
  obtain ⟨hnext, hend, hle, hge⟩ := h
  refine ⟨?_, ?_, ?_, ?_⟩ <;> simp only [hmem, hreserved] <;> assumption

/-- Reserving a batch adds it to what is reserved. -/
theorem reserved_allocate_batch (alloc : IdAllocator) (database ns entity_type : String) (db : Db)
    (hroom : (reserved alloc database ns entity_type db).toNat + alloc.batch_size.toNat < 2 ^ 64) :
    reserved alloc database ns entity_type (allocate_batch_from_fdb alloc database ns entity_type db).2 =
      reserved alloc database ns entity_type db + alloc.batch_size := by
  change (match ((db.rows.set (counter_key (Subspace.of_namespace database ns).ids entity_type alloc.site_id)
    (.raw (beBytes 8 (saturating_add (reserved alloc database ns entity_type db) alloc.batch_size).toNat))).get
      (counter_key (Subspace.of_namespace database ns).ids entity_type alloc.site_id)) with
    | some (.raw bs) => if bs.length = 8 then UInt64.ofNat (beValue bs) else 0
    | _ => 0) = _
  rw [OrdMap.get_set_self]
  dsimp only
  have hlt := UInt64.toNat_lt (saturating_add (reserved alloc database ns entity_type db) alloc.batch_size)
  rw [if_pos (beBytes_length ..), beValue_beBytes, Nat.mod_eq_of_lt (by omega), UInt64.ofNat_toNat,
    saturating_add, if_pos hroom]

theorem allocate_of_full
    (hfull : (batch database ns entity_type w.mem).next ≥ (batch database ns entity_type w.mem).batch_end) :
    allocate alloc database ns entity_type w = (⟨alloc.site_id, reserved alloc database ns entity_type w.db⟩,
        ⟨(allocate_batch_from_fdb alloc database ns entity_type w.db).2,
          w.mem.set (database ++ ":" ++ ns ++ ":" ++ entity_type) ⟨reserved alloc database ns entity_type w.db + 1,
              reserved alloc database ns entity_type w.db + alloc.batch_size⟩⟩) := by
  unfold batch at hfull
  unfold allocate
  dsimp only
  rw [if_pos hfull]
  rfl

theorem allocate_of_left
    (hleft : ¬ (batch database ns entity_type w.mem).next ≥ (batch database ns entity_type w.mem).batch_end) :
    allocate alloc database ns entity_type w = (⟨alloc.site_id, (batch database ns entity_type w.mem).next⟩,
        ⟨w.db, w.mem.set (database ++ ":" ++ ns ++ ":" ++ entity_type)
          ⟨(batch database ns entity_type w.mem).next + 1, (batch database ns entity_type w.mem).batch_end⟩⟩) := by
  unfold batch at hleft
  unfold allocate
  dsimp only
  rw [if_neg hleft]
  rfl

private theorem batch_set (mem : Allocations) (state : AllocationState) :
    batch database ns entity_type (mem.set (database ++ ":" ++ ns ++ ":" ++ entity_type) state) = state := by
  unfold batch
  rw [OrdMap.get_set_self]
  rfl

theorem toNat_succ (a : UInt64) (h : a.toNat + 1 < 2 ^ 64) : (a + 1).toNat = a.toNat + 1 := by
  exact Nat.mod_eq_of_lt h

/-- Ids are handed out in order, one after the other, as long as a whole batch
still fits. -/
theorem Issued.allocate (h : Issued alloc database ns entity_type w n) (hbatch : 0 < alloc.batch_size.toNat)
    (hroom : n + alloc.batch_size.toNat < 2 ^ 64) :
    (allocate alloc database ns entity_type w).1 = ⟨alloc.site_id, .ofNat n⟩ ∧
      Issued alloc database ns entity_type (allocate alloc database ns entity_type w).2 (n + 1) := by
  obtain ⟨hnext, hend, hle, hge⟩ := h
  by_cases hfull : (batch database ns entity_type w.mem).next ≥ (batch database ns entity_type w.mem).batch_end
  · -- The batch is used up, so exactly the reserved ids have been handed out.
    have hreserved : (reserved alloc database ns entity_type w.db).toNat = n := by
      have hcover := UInt64.le_iff_toNat_le.mp hfull
      rw [hend] at hcover
      omega
    have hmore := reserved_allocate_batch alloc database ns entity_type w.db (by omega)
    have hsum : (reserved alloc database ns entity_type w.db + alloc.batch_size).toNat =
        n + alloc.batch_size.toNat := by
      rw [UInt64.toNat_add, hreserved]
      exact Nat.mod_eq_of_lt hroom
    rw [allocate_of_full hfull]
    refine ⟨by rw [← hreserved, UInt64.ofNat_toNat], ?_, ?_, ?_, ?_⟩
    · rw [batch_set]
      rw [toNat_succ _ (by omega), hreserved]
    · rw [batch_set, hmore]
    · rw [hmore]
      omega
    · rw [hmore]
      omega
  · have hleft : n < (reserved alloc database ns entity_type w.db).toNat := by
      have hcover := UInt64.lt_iff_toNat_lt.mp (UInt64.not_le.mp hfull)
      rwa [hend, hnext] at hcover
    rw [allocate_of_left hfull]
    refine ⟨by rw [← hnext, UInt64.ofNat_toNat], ?_, ?_, ?_, ?_⟩
    · rw [batch_set]
      rw [toNat_succ _ (by omega), hnext]
    · rw [batch_set]
      exact hend
    · exact hleft
    · change (reserved alloc database ns entity_type w.db).toNat ≤ _
      omega

end pelago_storage.ids
