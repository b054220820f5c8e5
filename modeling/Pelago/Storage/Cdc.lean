import Pelago.Kv.Cursor
import Pelago.Storage.Records

open bytes kv pelago_core List

namespace pelago_storage

open Option Subspace

/-- Ten bytes: the version of the transaction, then its place in the batch. -/
structure Versionstamp where
  bytes : Bytes
  length_eq : bytes.length = 10
  deriving DecidableEq

namespace Versionstamp

theorem bytes_injective : Function.Injective bytes := by
  rintro ⟨a, _⟩ ⟨b, _⟩ h
  cases h
  rfl

/-- The derived order compares byte by byte. -/
instance : LinearOrder Versionstamp := LinearOrder.lift' Versionstamp.bytes bytes_injective

theorem lt_iff {a b : Versionstamp} : a < b ↔ a.bytes < b.bytes := .rfl

/-- Used as "start from the beginning". -/
def zero : Versionstamp := ⟨List.replicate 10 0x00, rfl⟩

def is_zero (vs : Versionstamp) : Bool := vs == zero

theorem zero_le (vs : Versionstamp) : zero ≤ vs := by
  rw [← not_lt, lt_iff, lt_iff_beValue_lt (vs.length_eq.trans zero.length_eq.symm)]
  exact Nat.not_lt_zero _

def from_bytes (bs : Bytes) : Option Versionstamp :=
  if h : bs.length = 10 then some ⟨bs, h⟩ else none

/-- Adds one to the last byte, with carry. The flag tells that every byte was
`FF` and is now `00`. -/
def increment : Bytes → Bytes × Bool
  | [] => ([], true)
  | b :: rest =>
    match increment rest with
    | (rest', true) => if b < 0xFF then ((b + 1) :: rest', false) else (0x00 :: rest', true)
    | (rest', false) => (b :: rest', false)

theorem increment_length (bs : Bytes) : (increment bs).1.length = bs.length := by
  fun_induction increment bs with
  | case1 => rfl
  | case2 _ _ _ hrest _ ih => simpa [hrest] using ih
  | case3 _ _ _ hrest _ ih => simpa [hrest] using ih
  | case4 _ _ _ hrest ih => simpa [hrest] using ih

/-- Where the scan for entries after this one starts. -/
def next (vs : Versionstamp) : Versionstamp :=
  ⟨(increment vs.bytes).1, (increment_length vs.bytes).trans vs.length_eq⟩

theorem beValue_increment (bs : Bytes) :
    beValue (increment bs).1 + (if (increment bs).2 then 256 ^ bs.length else 0) = beValue bs + 1 := by
  fun_induction increment bs with
  | case1 => rfl
  | case2 b rest _ hrest hlt ih =>
    have hlength := increment_length rest
    simp only [hrest, ↓reduceIte] at ih hlength
    have hb : (b + 1).toNat = b.toNat + 1 := by
      have hlt' : b.toNat < 255 := hlt
      change (b.toNat + 1) % 256 = _
      omega
    simp only [beValue, hlength, hb, add_mul, Bool.false_eq_true, ↓reduceIte]
    omega
  | case3 b rest rest' hrest hlt ih =>
    have hlength := increment_length rest
    simp only [hrest, ↓reduceIte] at ih hlength
    have hb : b.toNat = 255 := by
      have hle : ¬ b.toNat < 255 := hlt
      have := b.toNat_lt
      omega
    simp only [beValue, hlength, hb, ↓reduceIte, length_cons, pow_succ]
    change 0 * 256 ^ rest.length + beValue rest' + _ = _
    omega
  | case4 _ rest _ hrest ih =>
    have hlength := increment_length rest
    simp only [hrest, Bool.false_eq_true, ↓reduceIte] at ih hlength
    simp only [beValue, hlength, Bool.false_eq_true, ↓reduceIte]
    omega

/-- Scans of a log do not see entries whose versionstamp starts with `FF`. -/
def Regular (vs : Versionstamp) : Prop := vs.bytes.head? ≠ some 0xFF

instance (vs : Versionstamp) : Decidable vs.Regular := inferInstanceAs (Decidable (_ ≠ _))

theorem Regular.of_lt {vs vs' : Versionstamp} (h : vs'.Regular) (hlt : vs < vs') : vs.Regular := by
  obtain ⟨bs, hlength⟩ := vs
  obtain ⟨bs', hlength'⟩ := vs'
  cases bs with
  | nil => cases hlength
  | cons b =>
    cases bs' with
    | nil => cases hlength'
    | cons b' =>
      intro htop
      have hb : b = 0xFF := some.inj htop
      obtain hbb | ⟨hbb, _⟩ := cons_lt_cons_iff.mp (lt_iff.mp hlt)
      · have hlt' : 255 < b'.toNat := by rw [hb] at hbb; exact hbb
        have := b'.toNat_lt
        omega
      · exact h (by rw [← hbb, hb]; rfl)

/-- Ten bytes `FF`. -/
def last : Versionstamp := ⟨List.replicate 10 0xFF, rfl⟩

/-- The stamp of an early commit. -/
def ofVersion (version : UInt8) : Versionstamp := ⟨[0, 0, 0, 0, 0, 0, 0, version, 0, 0], rfl⟩

theorem Regular.ne_last {vs : Versionstamp} (h : vs.Regular) : vs ≠ last := by
  rintro rfl
  exact h rfl

/-- Only the last versionstamp overflows. -/
theorem increment_flag {vs : Versionstamp} (h : vs ≠ last) : (increment vs.bytes).2 = false := by
  by_contra hflag
  have hvalue := beValue_increment vs.bytes
  have hlt := beValue_lt vs.bytes
  rw [if_pos (by simpa using hflag)] at hvalue
  have htop : beValue vs.bytes = 256 ^ 10 - 1 := by
    rw [vs.length_eq] at hvalue hlt
    omega
  have hbytes := beBytes_beValue vs.bytes
  rw [htop, vs.length_eq] at hbytes
  exact h (bytes_injective (hbytes.symm.trans (by decide +kernel)))

/-- The next versionstamp is the smallest one above. -/
theorem next_le_iff {vs : Versionstamp} (h : vs ≠ last) (other : Versionstamp) :
    vs.next ≤ other ↔ vs < other := by
  have hvalue := beValue_increment vs.bytes
  rw [increment_flag h] at hvalue
  rw [← not_lt, lt_iff, lt_iff, lt_iff_beValue_lt (other.length_eq.trans vs.next.length_eq.symm),
    lt_iff_beValue_lt (vs.length_eq.trans other.length_eq.symm)]
  change ¬ beValue other.bytes < beValue (increment vs.bytes).1 ↔ _
  simp only [Bool.false_eq_true, ↓reduceIte, add_zero] at hvalue
  omega

end Versionstamp

namespace cdc

def range_start (subspace : Subspace) (after_versionstamp : Option Versionstamp) : Bytes :=
  match after_versionstamp with
  | some vs => subspace.pfx ++ vs.next.bytes
  | none => subspace.pfx

/-- Entries after a versionstamp, in order. Rows whose keys do not end in a
versionstamp are skipped. -/
def read_cdc_entries (rows : OrdMap Bytes Cell) (database ns : String)
    (after_versionstamp : Option Versionstamp) (limit : Nat) :
    Except PelagoError (List (Versionstamp × CdcEntry)) :=
  let subspace := (Subspace.of_namespace database ns).cdc
  let results := (rows.range (range_start subspace after_versionstamp) subspace.range_end).take limit
  collect (fun (key, value) =>
    match Versionstamp.from_bytes (key.drop subspace.pfx.length) with
    | some vs => do
      let entry ← decode_cbor_entry value
      pure (some (vs, entry))
    | none => pure none) results

/-- The key of an entry. -/
def entry_key (database ns : String) (vs : Versionstamp) : Bytes :=
  (Subspace.of_namespace database ns).cdc.pfx ++ vs.bytes

/-- The log of a namespace is what its rows hold. -/
def HoldsLog (database ns : String) (rows : OrdMap Bytes Cell) (log : OrdMap Versionstamp CdcEntry) : Prop :=
  ∀ rest c, rows.get ((Subspace.of_namespace database ns).cdc.pfx ++ rest) = some c ↔
    ∃ vs e, rest = vs.bytes ∧ c = .cdc e ∧ log.get vs = some e

/-- The position of a cursor in the log. -/
def position (after_versionstamp : Option Versionstamp) : WithBot Versionstamp :=
  after_versionstamp.elim ⊥ fun vs => (vs : WithBot Versionstamp)

/-- An appended entry is a new row. -/
theorem HoldsLog.append {database ns : String} {rows : OrdMap Bytes Cell}
    {log : OrdMap Versionstamp CdcEntry} (h : HoldsLog database ns rows log) {vs : Versionstamp}
    (entry : CdcEntry) :
    HoldsLog database ns (rows.set (entry_key database ns vs) (.cdc entry)) (log.set vs entry) := by
  intro rest c
  rw [entry_key, OrdMap.get_set]
  by_cases hrest : rest = vs.bytes
  · rw [if_pos (by rw [hrest])]
    constructor
    · intro hc
      exact ⟨vs, entry, hrest, (some.inj hc).symm, OrdMap.get_set_self ..⟩
    · rintro ⟨vs', e, hvs', rfl, hget⟩
      rw [Versionstamp.bytes_injective (hvs'.symm.trans hrest), OrdMap.get_set_self] at hget
      rw [some.inj hget]
  · rw [if_neg fun hkey => hrest (append_cancel_left hkey), h _ c]
    constructor
    · rintro ⟨vs', e, hvs', hc, hget⟩
      refine ⟨vs', e, hvs', hc, ?_⟩
      rwa [OrdMap.get_set_of_ne _ _ fun heq => hrest (by rw [hvs', heq])]
    · rintro ⟨vs', e, hvs', hc, hget⟩
      refine ⟨vs', e, hvs', hc, ?_⟩
      rwa [OrdMap.get_set_of_ne _ _ fun heq => hrest (by rw [hvs', heq])] at hget

section Read

variable {database ns : String} {rows : OrdMap Bytes Cell} {log : OrdMap Versionstamp CdcEntry}
  {after_versionstamp : Option Versionstamp}

/-- The row of a log entry. -/
def logRow (database ns : String) (row : Versionstamp × CdcEntry) : Bytes × Cell :=
  (entry_key database ns row.1, .cdc row.2)

theorem from_bytes_drop (vs : Versionstamp) (pfx : Bytes) :
    Versionstamp.from_bytes ((pfx ++ vs.bytes).drop pfx.length) = some vs := by
  rw [drop_left]
  exact dif_pos _

/-- The scan starts right after the cursor. -/
private theorem range_start_le_iff (hafter : ∀ vs ∈ after_versionstamp, vs ≠ .last) (subspace : Subspace)
    (vs : Versionstamp) : range_start subspace after_versionstamp ≤ subspace.pfx ++ vs.bytes ↔
      position after_versionstamp < (vs : WithBot Versionstamp) := by
  cases after_versionstamp with
  | none => exact iff_of_true (le_append ..) (WithBot.bot_lt_coe vs)
  | some v =>
    simp only [range_start, append_le_append_iff, position, elim_some, WithBot.coe_lt_coe]
    exact Versionstamp.next_le_iff (hafter v rfl) vs

private theorem pfx_le_range_start (subspace : Subspace) :
    subspace.pfx ≤ range_start subspace after_versionstamp := by
  cases after_versionstamp with
  | none => exact le_rfl
  | some => exact le_append ..

theorem scan_eq (hlog : HoldsLog database ns rows log) (hafter : ∀ vs ∈ after_versionstamp, vs ≠ .last) :
    rows.range (range_start (of_namespace database ns).cdc after_versionstamp)
        (of_namespace database ns).cdc.range_end =
      ((log.after (position after_versionstamp)).filter fun row => decide row.1.Regular).map
        (logRow database ns) := by
  have hleft := rows.range_sorted (range_start (of_namespace database ns).cdc after_versionstamp)
    (of_namespace database ns).cdc.range_end
  have hright : (((log.after (position after_versionstamp)).filter fun row => decide row.1.Regular).map
      (logRow database ns)).Pairwise fun a b => a.1 < b.1 := by
    rw [pairwise_map]
    refine ((log.after_sorted _).filter _).imp fun {a b} hab => ?_
    exact append_lt_append_iff.mpr hab
  suffices hmap : (⟨_, hleft⟩ : OrdMap Bytes Cell) = ⟨_, hright⟩ from congrArg OrdMap.rows hmap
  apply OrdMap.ext_get
  intro k
  apply ext
  intro c
  rw [OrdMap.get_eq_some_iff_mem, OrdMap.get_eq_some_iff_mem]
  constructor
  · intro hmem
    obtain ⟨hrow, hlow, hhigh⟩ := rows.mem_range.mp hmem
    obtain ⟨rest, rfl, hrest⟩ := mem_range_iff.mp ⟨(pfx_le_range_start _).trans hlow, hhigh⟩
    obtain ⟨vs, e, rfl, rfl, hget⟩ := (hlog _ c).mp (rows.get_eq_some_iff_mem.mpr hrow)
    refine mem_map.mpr ⟨(vs, e), mem_filter.mpr ⟨?_, decide_eq_true hrest⟩, rfl⟩
    refine OrdMap.mem_after.mpr ⟨log.get_eq_some_iff_mem.mp hget, ?_⟩
    exact (range_start_le_iff hafter _ vs).mp hlow
  · intro hmem
    obtain ⟨⟨vs, e⟩, hrow, heq⟩ := mem_map.mp hmem
    obtain ⟨rfl, rfl⟩ := Prod.mk.inj heq
    obtain ⟨hrow, hregular⟩ := mem_filter.mp hrow
    obtain ⟨hrow, hlt⟩ := OrdMap.mem_after.mp hrow
    have hget := (hlog _ _).mpr ⟨vs, e, rfl, rfl, log.get_eq_some_iff_mem.mpr hrow⟩
    exact rows.mem_range.mpr ⟨rows.get_eq_some_iff_mem.mp hget, (range_start_le_iff hafter _ vs).mpr hlt,
      (mem_range_iff.mpr ⟨vs.bytes, rfl, of_decide_eq_true hregular⟩).2⟩

private def entryAt (subspace : Subspace) (row : Bytes × Cell) : Option (Versionstamp × CdcEntry) :=
  match Versionstamp.from_bytes (row.1.drop subspace.pfx.length), row.2 with
  | some vs, .cdc e => some (vs, e)
  | _, _ => none

/-- A read returns the entries after its cursor that scans can see, up to the
limit. -/
theorem read_cdc_entries_eq (hlog : HoldsLog database ns rows log)
    (hafter : ∀ vs ∈ after_versionstamp, vs ≠ .last) (limit : Nat) :
    read_cdc_entries rows database ns after_versionstamp limit =
      .ok (((log.after (position after_versionstamp)).filter fun row => decide row.1.Regular).take limit) := by
  unfold read_cdc_entries
  dsimp only
  rw [scan_eq hlog hafter, ← map_take]
  rw [collect_eq_filterMap (g := entryAt (of_namespace database ns).cdc)]
  · rw [filterMap_map]
    congr 1
    refine (filterMap_congr fun _ _ => ?_).trans filterMap_some
    simp only [Function.comp_apply, entryAt, logRow, entry_key, from_bytes_drop]
  · intro _ hrow
    obtain ⟨⟨vs, e⟩, _, rfl⟩ := mem_map.mp hrow
    simp only [entryAt, logRow, entry_key, from_bytes_drop]
    rfl

section Regular

variable (hlog : HoldsLog database ns rows log) (hregular : ∀ row ∈ log.rows, row.1.Regular)

include hlog hregular

theorem read_cdc_entries_regular (hafter : ∀ vs ∈ after_versionstamp, vs ≠ .last) (limit : Nat) :
    read_cdc_entries rows database ns after_versionstamp limit =
      .ok ((log.after (position after_versionstamp)).take limit) := by
  rw [read_cdc_entries_eq hlog hafter, filter_eq_self.mpr]
  exact fun row hrow => decide_eq_true (hregular _ (OrdMap.mem_after.mp hrow).1)

end Regular

end Read

end cdc

end pelago_storage
