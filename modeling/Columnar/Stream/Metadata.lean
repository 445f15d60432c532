import Columnar.DataType
import Columnar.Stream.FlatBuffer

/-!
# Metadata

What the metadata of messages are made of, and how a schema stands in them.
-/

namespace Columnar.Stream

/-! ## The shape of metadata

Which tables the metadata of a message are made of, and what is in their slots. Metadata are checked
as a whole before anything of them is used, including the parts that nobody reads.
-/

section

open FlatBuffer (Shape)

/-- The kinds of tables in metadata. -/
inductive MetadataTable where
  /-- A message. -/
  | message
  /-- A schema. -/
  | schema
  /-- A field. -/
  | field
  /-- The parameters of a type, by the number of its kind. -/
  | parameters (kind : Nat)
  /-- What is said about a dictionary. -/
  | dictionary
  /-- A batch. -/
  | batch
  /-- How a body is compressed. -/
  | compression
  /-- A key and a value. -/
  | pair
deriving DecidableEq, Repr

namespace MetadataTable

/-- The parameters of the types that have any. -/
def parameterShapes : Nat → List (Shape MetadataTable)
  | 2 => [.number 4, .number 1]
  | 3 | 8 | 11 | 18 => [.number 2]
  | 7 => [.number 4, .number 4, .number 4]
  | 9 => [.number 2, .number 4]
  | 10 => [.number 2, .text]
  | 14 => [.number 2, .numbers 4]
  | 15 | 16 => [.number 4]
  | 17 => [.number 1]
  | _ => []

/-- The greatest number of a kind of types. -/
def maxTypeKind : Nat := 26

/-- The parameters of a type of some kind. -/
def parameters? (kind : Nat) : Option MetadataTable :=
  if kind = 0 ∨ maxTypeKind < kind then none else some (parameters kind)

/-- The table of a message of some kind, if it is read at all. -/
def content? : Nat → Option MetadataTable
  | 1 => some schema
  | 3 => some batch
  | _ => none

/-- What is in the slots of a table. -/
def shapes : MetadataTable → List (Nat × Shape MetadataTable)
  | message => [(0, .number 2), (2, .union 1 content?), (3, .number 8), (4, .tables pair)]
  | schema => [(0, .number 2), (1, .tables field), (2, .tables pair), (3, .numbers 8)]
  | field => [(0, .text), (1, .number 1), (3, .union 2 parameters?), (4, .table dictionary),
      (5, .tables field), (6, .tables pair)]
  | parameters kind => (parameterShapes kind).zipIdx.map fun (shape, i) => (i, shape)
  | dictionary => [(0, .number 8), (1, .table (parameters 2)), (2, .number 1), (3, .number 2)]
  | batch => [(0, .number 8), (1, .structs 16), (2, .structs 16), (3, .table compression),
      (4, .numbers 8)]
  | compression => [(0, .number 1), (1, .number 1)]
  | pair => [(0, .text), (1, .text)]

end MetadataTable

/-- Whether some bytes are the metadata of a message. -/
def isMetadata (b : Bytes) : Bool :=
  FlatBuffer.check MetadataTable.shapes .message b

end

/-! ## Schemas in streams

How the names and types of columns stand in the metadata of a stream. A type is a number that tells
its kind and a table of parameters, which differ from kind to kind. Types without a counterpart here
are recognised as far as their name goes; nested types and dictionaries are refused.
-/

open FlatBuffer (Table)

/-! ### Types -/

/-- The kinds of types, by their numbers in metadata. -/
inductive TypeKind where
  /-- NULLs. -/
  | null
  /-- Integers; parameters: bits, whether signed. -/
  | int
  /-- Floating-point numbers; parameter: precision. -/
  | float
  /-- Byte strings. -/
  | binary
  /-- Text. -/
  | utf8
  /-- Truth values. -/
  | bool
  /-- Decimals; parameters: precision, scale, bits. -/
  | decimal
  /-- Dates; parameter: unit. -/
  | date
  /-- Times of a day; parameters: unit, bits. -/
  | time
  /-- Points in time; parameters: unit, time zone. -/
  | timestamp
  /-- Intervals of a calendar; parameter: unit. -/
  | interval
  /-- Byte strings of one length; parameter: length. -/
  | fixedSizeBinary
  /-- Lengths of time; parameter: unit. -/
  | duration
  /-- Byte strings with long offsets. -/
  | largeBinary
  /-- Text with long offsets. -/
  | largeUtf8
  /-- Byte strings by reference. -/
  | binaryView
  /-- Text by reference. -/
  | utf8View
deriving DecidableEq, Repr

namespace TypeKind

/-- The number of a kind. -/
def number : TypeKind → Nat
  | null => 1
  | int => 2
  | float => 3
  | binary => 4
  | utf8 => 5
  | bool => 6
  | decimal => 7
  | date => 8
  | time => 9
  | timestamp => 10
  | interval => 11
  | fixedSizeBinary => 15
  | duration => 18
  | largeBinary => 19
  | largeUtf8 => 20
  | binaryView => 23
  | utf8View => 24

/-- All kinds. -/
def all : List TypeKind :=
  [null, int, float, binary, utf8, bool, decimal, date, time, timestamp, interval, fixedSizeBinary,
    duration, largeBinary, largeUtf8, binaryView, utf8View]

/-- The kind of a number. -/
def ofNumber? (n : Nat) : Option TypeKind :=
  all.find? (·.number == n)

/-- A kind of type is known by its number. -/
@[simp] theorem ofNumber?_number (k : TypeKind) : ofNumber? k.number = some k := by
  cases k <;> rfl

end TypeKind

/-- The name of a unit of time. -/
def unitName? : Nat → Option String
  | 0 => some "Second"
  | 1 => some "Millisecond"
  | 2 => some "Microsecond"
  | 3 => some "Nanosecond"
  | _ => none

/-- The text to which a slot refers. -/
def textAt? (t : Table) (i : Nat) : Option String := do
  match Utf8.decode (← t.bytesAt? i) with
  | .ok s => some s
  | .error _ => none

/-- The type of integers of so many bits. -/
def intType? (bits : Nat) (signed : Bool) : Option ColumnType :=
  match bits, signed with
  | 8, true => some .int8
  | 16, true => some .int16
  | 32, true => some .int32
  | 64, true => some .int64
  | 8, false | 16, false | 32, false | 64, false => some (.foreign s!"UInt{bits}")
  | _, _ => none

/-- The type of decimals of so many bits. -/
def decimalType? (precision scale : Int) (bits : Nat) : Option ColumnType :=
  if precision < 0 ∨ 256 ≤ precision ∨ scale < -128 ∨ 128 ≤ scale then none
  else
    match bits with
    | 128 => some (.decimal128 (UInt8.ofNat precision.toNat) (Int8.ofInt scale))
    | 256 => some (.foreign s!"Decimal256({precision}, {scale})")
    | _ => none

/-- The type of points in time. -/
def timestampType? (unit : Nat) (zone : Option String) : Option ColumnType := do
  match unit, zone with
  | 2, none => some .timestampMicros
  | _, none => some (.foreign s!"Timestamp({← unitName? unit}, None)")
  | _, some zone => some (.foreign s!"Timestamp({← unitName? unit}, Some(\"{zone}\"))")

/-- The type of a kind with the parameters in a table. -/
def readType? (t : Table) : TypeKind → Option ColumnType
  | .null => some .null
  | .int => do intType? (← t.natAt? 4 0 0) ((← t.natAt? 1 1 0) != 0)
  | .float => do
    match ← t.natAt? 2 0 0 with
    | 0 => some (.foreign "Float16")
    | 1 => some .float32
    | 2 => some .float64
    | _ => none
  | .binary => some .binary
  | .utf8 => some .utf8
  | .bool => some .boolean
  | .decimal => do decimalType? (← t.intAt? 4 0 0) (← t.intAt? 4 1 0) (← t.natAt? 4 2 128)
  | .date => do
    match ← t.natAt? 2 0 1 with
    | 0 => some .date32
    | 1 => some (.foreign "Date64")
    | _ => none
  | .time => do
    some (.foreign s!"Time{← t.natAt? 4 1 32}({← unitName? (← t.natAt? 2 0 1)})")
  | .timestamp => do
    let zone ← match t.slot 1 with
      | some _ => (textAt? t 1).map some
      | none => some none
    timestampType? (← t.natAt? 2 0 0) zone
  | .interval => do
    match ← t.natAt? 2 0 0 with
    | 0 => some (.foreign "Interval(YearMonth)")
    | 1 => some (.foreign "Interval(DayTime)")
    | 2 => some (.foreign "Interval(MonthDayNano)")
    | _ => none
  | .fixedSizeBinary => do some (.foreign s!"FixedSizeBinary({← t.intAt? 4 0 0})")
  | .duration => do
    match ← t.natAt? 2 0 1 with
    | 0 => some (.duration .second)
    | 2 => some (.duration .microsecond)
    | unit => some (.foreign s!"Duration({← unitName? unit})")
  | .largeBinary => some (.foreign "LargeBinary")
  | .largeUtf8 => some (.foreign "LargeUtf8")
  | .binaryView => some (.foreign "BinaryView")
  | .utf8View => some (.foreign "Utf8View")

/-- The kind and the parameters of a type. The values of a type known by name only are not kept, so
such a column is written as one of NULLs. -/
def typeParameters : ColumnType → TypeKind × List FlatBuffer.Slot
  | .null | .foreign _ => (.null, [])
  | .boolean => (.bool, [])
  | .int8 => (.int, [.word 8, .word 1])
  | .int16 => (.int, [.word 16, .word 1])
  | .int32 => (.int, [.word 32, .word 1])
  | .int64 => (.int, [.word 64, .word 1])
  | .float32 => (.float, [.word 1])
  | .float64 => (.float, [.word 2])
  | .decimal128 precision scale =>
    (.decimal, [.word precision.toNat, .word (scale.toInt % 2 ^ 32).toNat, .word 128])
  | .utf8 => (.utf8, [])
  | .binary => (.binary, [])
  | .date32 => (.date, [.word 0])
  | .timestampMicros => (.timestamp, [.word 2])
  | .duration .second => (.duration, [.word 0])
  | .duration .microsecond => (.duration, [.word 2])

/-! ### Fields -/

/-- Reads a field from its table. -/
def readField? (t : Table) : Option ColumnField := do
  if (t.slot 4).isSome then none
  let kind ← TypeKind.ofNumber? (← t.natAt? 1 2 0)
  return ⟨← textAt? t 0, ← readType? (← t.tableAt? 3) kind, (← t.natAt? 1 1 0) != 0⟩

/-- The table of a field. It has no dictionary and no children. -/
def fieldPart (f : ColumnField) : FlatBuffer.Part :=
  let (kind, parameters) := typeParameters f.type
  .table [.part (.ofBytes (Utf8.encode f.name)), .word f.nullable.toNat, .word kind.number,
    .part (.table parameters), .missing, .part (.vector [])]

/-- Reads a schema from its table. -/
def readSchema? (t : Table) : Option (List ColumnField) := do
  (← t.tablesAt? 1).mapM readField?

/-- The table of a schema, with numbers in the usual order of bytes. -/
def schemaPart (fields : List ColumnField) : FlatBuffer.Part :=
  .table [.missing, .part (.vector (fields.map fieldPart))]

end Columnar.Stream
