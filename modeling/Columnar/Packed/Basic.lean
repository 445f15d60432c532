import Columnar.Text

/-!
# The packed form: numbers and text

The packed form writes values one after the other, without names and without marks for their types.
Natural numbers take one byte when they are small, and otherwise a tag and two, four, eight or
sixteen bytes, least significant first. Integers alternate between zero and above and below
(`zigzag`). Text and byte strings follow their length.

A reader accepts any tag that its target can hold, so that a number may be written longer than
needed; `Defect` lists everything else it can find wrong. Reading never looks behind the value that
it reads.
-/

namespace Columnar.Packed

/-- Kinds of integers, as they are named in defects. -/
inductive IntKind where
  /-- Unsigned, 16 bits. -/
  | u16
  /-- Unsigned, 32 bits. -/
  | u32
  /-- Unsigned, 64 bits. -/
  | u64
  /-- Unsigned, 128 bits. -/
  | u128
  /-- A position. -/
  | size
  /-- Signed, 16 bits. -/
  | i16
  /-- Signed, 32 bits. -/
  | i32
  /-- Signed, 64 bits. -/
  | i64
  /-- Signed, 128 bits. -/
  | i128
  /-- The tag that stands for no kind. -/
  | reserved
deriving DecidableEq, Repr

namespace IntKind

/-- The name of a kind. -/
def text : IntKind → String
  | u16 => "U16"
  | u32 => "U32"
  | u64 => "U64"
  | u128 => "U128"
  | size => "Usize"
  | i16 => "I16"
  | i32 => "I32"
  | i64 => "I64"
  | i128 => "I128"
  | reserved => "Reserved"

/-- The bytes that a number of a kind takes after its tag. -/
def width : IntKind → Nat
  | u16 | i16 => 2
  | u32 | i32 => 4
  | u64 | i64 | size => 8
  | u128 | i128 => 16
  | reserved => 0

/-- The signed kind of the same width. -/
def signed : IntKind → IntKind
  | u16 => i16
  | u32 => i32
  | u64 => i64
  | u128 => i128
  | kind => kind

end IntKind

/-- What can be wrong with packed bytes. -/
inductive Defect where
  /-- They end before a value; `missing` bytes of the part that was being read. -/
  | unexpectedEnd (missing : Nat)
  /-- The alternative `found` of a type whose alternatives are numbered up to `greatest`. -/
  | unexpectedVariant (type : String) (greatest found : Nat)
  /-- A byte that is no truth value. -/
  | invalidBoolean (byte : UInt8)
  /-- Bytes that are no text. -/
  | illFormedText (fault : Utf8.Fault)
  /-- A number written wider than its target. -/
  | invalidInteger (expected found : IntKind)
deriving DecidableEq, Repr

/-- The text of a defect. -/
def Defect.text : Defect → String
  | unexpectedEnd missing => "UnexpectedEnd \x7b additional: " ++ toString missing ++ " \x7d"
  | unexpectedVariant type greatest found =>
    "UnexpectedVariant \x7b type_name: \"" ++ type ++ "\", allowed: Range \x7b min: 0, max: " ++
      toString greatest ++ " \x7d, found: " ++ toString found ++ " \x7d"
  | invalidBoolean byte => "InvalidBooleanValue(" ++ toString byte.toNat ++ ")"
  | illFormedText fault =>
    let length := match fault.length with
      | some n => "Some(" ++ toString n ++ ")"
      | none => "None"
    "Utf8 \x7b inner: Utf8Error \x7b valid_up_to: " ++ toString fault.validUpTo ++
      ", error_len: " ++ length ++ " \x7d \x7d"
  | invalidInteger expected found =>
    "InvalidIntegerType \x7b expected: " ++ expected.text ++ ", found: " ++ found.text ++ " \x7d"

/-! ### Writing -/

/-- A natural number below `2 ^ 128` in its shortest form. -/
def ofNat (n : Nat) : Bytes :=
  if n < 251 then [UInt8.ofNat n]
  else if n < 2 ^ 16 then 251 :: Bytes.ofNat 2 n
  else if n < 2 ^ 32 then 252 :: Bytes.ofNat 4 n
  else if n < 2 ^ 64 then 253 :: Bytes.ofNat 8 n
  else 254 :: Bytes.ofNat 16 n

/-- The natural number that stands for an integer: `0, -1, 1, -2, …` become `0, 1, 2, 3, …`. -/
def zigzag (n : Int) : Nat :=
  if 0 ≤ n then 2 * n.natAbs else 2 * n.natAbs - 1

/-- The integer that a natural number stands for. -/
def unzigzag (n : Nat) : Int :=
  if n % 2 = 0 then (n / 2 : Nat) else -((n / 2 : Nat) + 1)

/-- Integers are told apart by the natural numbers that they are written as. -/
@[simp] theorem unzigzag_zigzag (n : Int) : unzigzag (zigzag n) = n := by
  unfold unzigzag zigzag
  split <;> split <;> omega

/-- An integer in its shortest form. -/
def ofInt (n : Int) : Bytes :=
  ofNat (zigzag n)

/-- A truth value. -/
def ofBool (b : Bool) : Bytes :=
  [if b then 1 else 0]

/-- A byte string after its length. -/
def ofBytes (b : Bytes) : Bytes :=
  ofNat b.length ++ b

/-- A text after the length of its UTF-8 form. -/
def ofString (s : String) : Bytes :=
  ofBytes (Utf8.encode s)

/-! ### Reading -/

/-- Reads a value from the front of packed bytes and leaves the rest. -/
abbrev Reader (α : Type) : Type :=
  StateT Bytes (Except Defect) α

namespace Reader

/-- Reads `n` bytes. -/
def take (n : Nat) : Reader Bytes := fun b =>
  match b.splitAt? n with
  | some r => .ok r
  | none => .error (.unexpectedEnd (n - b.length))

/-- Reads one byte. -/
def byte : Reader UInt8
  | [] => .error (.unexpectedEnd 1)
  | a :: b => .ok (a, b)

/-- Reads a number of `width` bytes. -/
def word (width : Nat) : Reader Nat := do
  return Bytes.toNat (← take width)

/-- Reads a natural number that a target of kind `expected` can hold. -/
def nat (expected : IntKind) : Reader Nat := do
  let tag ← byte
  let wide (found : IntKind) : Reader Nat :=
    if found.width ≤ expected.width then word found.width
    else throw (.invalidInteger expected found)
  if tag < 251 then return tag.toNat
  else if tag = 251 then wide .u16
  else if tag = 252 then wide .u32
  else if tag = 253 then wide .u64
  else if tag = 254 then wide .u128
  else throw (.invalidInteger expected .reserved)

/-- Reads an integer for a target of the signed kind of the width of `kind`. -/
def int (kind : IntKind) : Reader Int := fun b =>
  match nat kind b with
  | .ok (n, rest) => .ok (unzigzag n, rest)
  | .error (.invalidInteger expected found) =>
    .error (.invalidInteger expected.signed found.signed)
  | .error e => .error e

/-- Reads a truth value. -/
def bool : Reader Bool := do
  match ← byte with
  | 0 => return false
  | 1 => return true
  | b => throw (.invalidBoolean b)

/-- Reads a byte string. -/
def bytes : Reader Bytes := do
  take (← nat .u64)

/-- Reads a text. -/
def string : Reader String := do
  match Utf8.decode (← bytes) with
  | .ok s => return s
  | .error fault => throw (.illFormedText fault)

/-- Reads the number of an alternative of a type, which its reader judges. -/
def variant : Reader Nat :=
  nat .u32

/-- Reads `n` values, after those already read in reverse. -/
def many {α : Type} (read : Reader α) (done : List α) : (n : Nat) → Reader (List α)
  | 0 => return done.reverse
  | n + 1 => do
    let a ← read
    many read (a :: done) n

/-- Reads a list of values after its length. -/
def list {α : Type} (read : Reader α) : Reader (List α) := do
  many read [] (← nat .u64)

end Reader

end Columnar.Packed
