import Pelago.Kv.OrderedMap

namespace serde

/-- A serialized value: the data items that derived serializers produce. Floats
are given by their bits. -/
inductive Data where
  | int (n : Int)
  | float (bits : UInt64)
  | text (s : String)
  | bool (b : Bool)
  | null
  | seq (items : List Data)
  | map (entries : List (String × Data))

/-- The value of a field of a serialized struct. -/
def Data.field (d : Data) (name : String) : Option Data :=
  match d with
  | .map entries => entries.lookup name
  | _ => none

@[simp] theorem Data.field_cons (name name' : String) (x : Data) (entries : List (String × Data)) :
    (map ((name', x) :: entries)).field name = if name = name' then some x else (map entries).field name := by
  simp only [field, List.lookup_cons]
  split <;> simp_all

@[simp] theorem Data.field_nil (name : String) : (map []).field name = none := rfl

/-- The first reader that accepts, as for the variants of an untagged enum. -/
def untagged {α : Type} (readers : List (Data → Option α)) (d : Data) : Option α :=
  readers.findSome? fun read => read d

/-- A type with its serialized form; `stored` is what comes back from it. -/
structure Codec (α : Type) where
  write : α → Data
  read : Data → Option α
  stored : α → α
  read_write : ∀ x, read (write x) = some (stored x)

namespace Codec

variable {α : Type}

/-- A value comes back as it was exactly if storing does not change it. -/
theorem faithful_iff (c : Codec α) (x : α) : c.read (c.write x) = some x ↔ c.stored x = x := by
  rw [c.read_write, Option.some.injEq]

def text : Codec String where
  write s := .text s
  read
    | .text s => some s
    | _ => none
  stored s := s
  read_write _ := rfl

def bool : Codec Bool where
  write b := .bool b
  read
    | .bool b => some b
    | _ => none
  stored b := b
  read_write _ := rfl

def int : Codec Int where
  write n := .int n
  read
    | .int n => some n
    | _ => none
  stored n := n
  read_write _ := rfl

def u8 : Codec UInt8 where
  write n := .int n.toNat
  read
    | .int n => if 0 ≤ n ∧ n < 256 then some (UInt8.ofNat n.toNat) else none
    | _ => none
  stored n := n
  read_write n := by
    have hlt := n.toNat_lt
    simp only [Int.natCast_nonneg, true_and, Int.toNat_natCast, UInt8.ofNat_toNat]
    rw [if_pos (by omega)]

def u32 : Codec UInt32 where
  write n := .int n.toNat
  read
    | .int n => if 0 ≤ n ∧ n < 4294967296 then some (UInt32.ofNat n.toNat) else none
    | _ => none
  stored n := n
  read_write n := by
    have hlt := n.toNat_lt
    simp only [Int.natCast_nonneg, true_and, Int.toNat_natCast, UInt32.ofNat_toNat]
    rw [if_pos (by omega)]

/-- The unit variants of an enum, by their names. -/
def variants (name : α → String) (parse : String → Option α) (h : ∀ x, parse (name x) = some x) : Codec α where
  write x := .text (name x)
  read
    | .text s => parse s
    | _ => none
  stored x := x
  read_write := h

@[simp] theorem text_read (s : String) : text.read (.text s) = some s := rfl
@[simp] theorem text_stored (s : String) : text.stored s = s := rfl
@[simp] theorem bool_stored (b : Bool) : bool.stored b = b := rfl
@[simp] theorem int_stored (n : Int) : int.stored n = n := rfl
@[simp] theorem u8_stored (n : UInt8) : u8.stored n = n := rfl
@[simp] theorem u32_stored (n : UInt32) : u32.stored n = n := rfl

section Containers

variable (c : Codec α)

theorem mapM_read_write (xs : List α) : (xs.map c.write).mapM c.read = some (xs.map c.stored) := by
  induction xs with
  | nil => rfl
  | cons _ _ ih => simp [c.read_write, ih]

def seq : Codec (List α) where
  write xs := .seq (xs.map c.write)
  read
    | .seq items => items.mapM c.read
    | _ => none
  stored xs := xs.map c.stored
  read_write := c.mapM_read_write

/-- A map with text keys. -/
def map : Codec (kv.OrdMap String α) where
  write m := .map (m.rows.map fun row => (row.1, c.write row.2))
  read
    | .map entries => (entries.mapM fun entry => (c.read entry.2).map fun x => (entry.1, x)).map kv.OrdMap.ofList
    | _ => none
  stored m := m.mapVal c.stored
  read_write m := by
    have hrows : ∀ rows : List (String × α), (rows.map fun row => (row.1, c.write row.2)).mapM
        (fun entry => (c.read entry.2).map fun x => (entry.1, x)) =
          some (rows.map fun row => (row.1, c.stored row.2)) := by
      intro rows
      induction rows with
      | nil => rfl
      | cons row rest ih => simp [c.read_write, ih]
    simp only [hrows, Option.map_some]
    exact congrArg some (kv.OrdMap.ofList_rows (m.mapVal c.stored))

/-- An optional value: absence is null, and null is absence. -/
def option : Codec (Option α) where
  write
    | some x => c.write x
    | none => .null
  read
    | .null => some none
    | d => (c.read d).map some
  stored
    | some x => match c.write x with
      | .null => none
      | _ => some (c.stored x)
    | none => none
  read_write x := by
    cases x with
    | none => rfl
    | some x =>
      have hread := c.read_write x
      cases hwrite : c.write x <;> simp_all

theorem option_read_write_some (x : α) : c.option.read (c.write x) = some (c.option.stored (some x)) :=
  c.option.read_write (some x)

theorem option_stored_text (s : String) : text.option.stored (some s) = some s := rfl

/-- A field of a struct. -/
def readField (name : String) (d : Data) : Option α := (d.field name).bind c.read

/-- A field that may be missing. -/
def readOption (name : String) (d : Data) : Option (Option α) :=
  match d.field name with
  | some item => c.option.read item
  | none => some none

/-- A field with a default. -/
def readDefault (name : String) (default : α) (d : Data) : Option α :=
  match d.field name with
  | some item => c.read item
  | none => some default

/-- A field that is left out when it has no value. -/
def writeOption (name : String) : Option α → List (String × Data)
  | some x => [(name, c.write x)]
  | none => []

end Containers

end Codec

end serde
