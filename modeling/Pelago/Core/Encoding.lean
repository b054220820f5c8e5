import Pelago.Core.Types

open bytes

namespace pelago_core.encoding

def i64_to_be_bytes (n : Int64) : Bytes := beBytes 8 n.toUInt64.toNat

/-- Big-endian with the sign bit flipped, so that negative numbers sort first. -/
def encode_int_for_index (n : Int64) : Bytes :=
  match i64_to_be_bytes n with
  | b :: rest => (b ^^^ 0x80) :: rest
  | [] => []

/-- Positive numbers get their sign bit flipped, negative ones all bits. -/
def encode_float_for_index (f : F64) : Bytes :=
  let encoded := if f.bits &&& 0x8000000000000000 ≠ 0 then ~~~f.bits
    else f.bits ^^^ 0x8000000000000000
  beBytes 8 encoded.toNat

def encode_value_for_index (value : Value) : Except PelagoError Bytes :=
  match value with
  | .string s => .ok (utf8 s)
  | .int n => .ok (encode_int_for_index n)
  | .float f => .ok (encode_float_for_index f)
  | .timestamp t => .ok (encode_int_for_index t)
  | .bool b => .ok [if b then 0x01 else 0x00]
  | .bytes b => .ok b
  | .null => .error (.Internal "Cannot encode null for index")

/-- Builder of tuple-encoded keys. -/
structure TupleBuilder where
  buf : Bytes

namespace TupleBuilder

def new : TupleBuilder := ⟨[]⟩

/-- Type byte `02`, escaped text, terminator `00`. -/
def add_string (b : TupleBuilder) (s : String) : TupleBuilder :=
  ⟨b.buf ++ 0x02 :: (escape (utf8 s) ++ [0x00])⟩

/-- Type byte `01`, escaped bytes, terminator `00`. -/
def add_bytes (b : TupleBuilder) (bs : Bytes) : TupleBuilder :=
  ⟨b.buf ++ 0x01 :: (escape bs ++ [0x00])⟩

def add_raw_bytes (b : TupleBuilder) (bs : Bytes) : TupleBuilder := ⟨b.buf ++ bs⟩

def add_int (b : TupleBuilder) (n : Int64) : TupleBuilder :=
  ⟨b.buf ++ 0x14 :: encode_int_for_index n⟩

def add_marker (b : TupleBuilder) (marker : UInt8) : TupleBuilder := ⟨b.buf ++ [marker]⟩

def build (b : TupleBuilder) : Bytes := b.buf

end TupleBuilder

theorem encode_int_for_index_inj {a b : Int64} (h : encode_int_for_index a = encode_int_for_index b) : a = b := by
  simp only [encode_int_for_index, i64_to_be_bytes, beBytes, List.cons.injEq, UInt8.xor_left_inj] at h
  have hbytes : beBytes 8 a.toUInt64.toNat = beBytes 8 b.toUInt64.toNat := by
    simpa only [beBytes, List.cons.injEq] using h
  have hnat := beBytes_inj a.toUInt64.toNat_lt b.toUInt64.toNat_lt hbytes
  simpa using congrArg UInt64.toInt64 (UInt64.toNat_inj.mp hnat)

/-- The index bytes of a value other than null. -/
def encodedValue (v : Value) : Bytes :=
  match encode_value_for_index v with
  | .ok bs => bs
  | .error _ => []

theorem encode_value_for_index_eq {v : Value} (h : v.is_null = false) :
    encode_value_for_index v = .ok (encodedValue v) := by
  cases v <;> first | rfl | simp [Value.is_null] at h

end pelago_core.encoding
