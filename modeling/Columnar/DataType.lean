import Columnar.Bytes
import Columnar.Error
import Columnar.Number

/-!
# Types

`DataType` is the type of a value that an expression produces, `ColumnType` that of a column in
memory and in a stream. Every `DataType` has a stored one (`DataType.stored`), and some column types
have no `DataType`.
-/

namespace Columnar

/-! ## Data types and fields

`DataType` is the type of a value that an expression produces, `Field` describes one column of an
input: its name, its type, and whether it may hold NULL.
-/

/-- The type of a value slot. -/
inductive DataType where
  /-- The type whose only value is NULL. -/
  | null
  /-- Truth values. -/
  | boolean
  /-- Signed integers of 8 bits. -/
  | int8
  /-- Signed integers of 16 bits. -/
  | int16
  /-- Signed integers of 32 bits. -/
  | int32
  /-- Signed integers of 64 bits. -/
  | int64
  /-- Single-precision numbers. -/
  | float32
  /-- Double-precision numbers. -/
  | float64
  /-- Decimals: a 128-bit unscaled value, `precision` digits, `scale` of them after the point. -/
  | decimal128 (precision : UInt8) (scale : Int8)
  /-- Text. -/
  | utf8
  /-- Byte strings. -/
  | binary
  /-- Days since the epoch. -/
  | date32
  /-- Microseconds since the epoch, without a time zone. -/
  | timestampMicros
deriving DecidableEq, Repr, Inhabited

namespace DataType

/-- The name of a type in messages. -/
def text : DataType → String
  | null => "null"
  | boolean => "boolean"
  | int8 => "tinyint"
  | int16 => "smallint"
  | int32 => "int"
  | int64 => "bigint"
  | float32 => "float"
  | float64 => "double"
  | decimal128 precision scale => s!"decimal({precision.toNat},{scale.toInt})"
  | utf8 => "string"
  | binary => "binary"
  | date32 => "date"
  | timestampMicros => "timestamp"

instance : ToString DataType where
  toString := text

end DataType

/-- One column of an input. -/
structure Field where
  /-- The name by which expressions refer to the column. -/
  name : String
  /-- The type of its values. -/
  type : DataType
  /-- Whether it may hold NULL. -/
  nullable : Bool
deriving DecidableEq, Repr, Inhabited

/-! ## Types of stored columns

`ColumnType` is the type of a column in memory and in a stream. Every `DataType` has one
(`DataType.stored`); durations arise only as results of subtraction, and the remaining types of the
stream format are known by name only. `ColumnType.Cell` gives the values that a slot of a column
holds besides NULL, so that a column cannot hold values of another type than its own.
-/

/-- The unit of a duration. -/
inductive TimeUnit where
  /-- Seconds. -/
  | second
  /-- Microseconds. -/
  | microsecond
deriving DecidableEq, Repr

/-- The type of a stored column. -/
inductive ColumnType where
  /-- A column of NULLs. -/
  | null
  /-- Truth values. -/
  | boolean
  /-- Signed integers of 8 bits. -/
  | int8
  /-- Signed integers of 16 bits. -/
  | int16
  /-- Signed integers of 32 bits. -/
  | int32
  /-- Signed integers of 64 bits. -/
  | int64
  /-- Single-precision numbers, as bit patterns. -/
  | float32
  /-- Double-precision numbers, as bit patterns. -/
  | float64
  /-- Unscaled decimals. -/
  | decimal128 (precision : UInt8) (scale : Int8)
  /-- Text. -/
  | utf8
  /-- Byte strings. -/
  | binary
  /-- Days since the epoch. -/
  | date32
  /-- Microseconds since the epoch. -/
  | timestampMicros
  /-- Lengths of time. -/
  | duration (unit : TimeUnit)
  /-- A type without a counterpart here, known by its name; its values are not kept. -/
  | foreign (name : String)
deriving DecidableEq, Repr, Inhabited

namespace ColumnType

/-- The name of a type in messages. -/
def text : ColumnType → String
  | null => "Null"
  | boolean => "Boolean"
  | int8 => "Int8"
  | int16 => "Int16"
  | int32 => "Int32"
  | int64 => "Int64"
  | float32 => "Float32"
  | float64 => "Float64"
  | decimal128 precision scale => s!"Decimal128({precision.toNat}, {scale.toInt})"
  | utf8 => "Utf8"
  | binary => "Binary"
  | date32 => "Date32"
  | timestampMicros => "Timestamp(Microsecond, None)"
  | duration .second => "Duration(Second)"
  | duration .microsecond => "Duration(Microsecond)"
  | foreign name => name

instance : ToString ColumnType where
  toString := text

/-- The values of a slot that is not NULL. Floating-point numbers are bit patterns, so that equality
of cells is equality bit for bit. -/
abbrev Cell : ColumnType → Type
  | null => Empty
  | boolean => Bool
  | int8 => Int8
  | int16 => Int16
  | int32 | date32 => Int32
  | int64 | timestampMicros | duration _ => Int64
  | float32 => UInt32
  | float64 => UInt64
  | decimal128 _ _ => Int128
  | utf8 => String
  | binary => Bytes
  | foreign _ => Unit

instance Cell.decidableEq : (t : ColumnType) → DecidableEq t.Cell
  | null => inferInstanceAs (DecidableEq Empty)
  | boolean => inferInstanceAs (DecidableEq Bool)
  | int8 => inferInstanceAs (DecidableEq Int8)
  | int16 => inferInstanceAs (DecidableEq Int16)
  | int32 | date32 => inferInstanceAs (DecidableEq Int32)
  | int64 | timestampMicros | duration _ => inferInstanceAs (DecidableEq Int64)
  | float32 => inferInstanceAs (DecidableEq UInt32)
  | float64 => inferInstanceAs (DecidableEq UInt64)
  | decimal128 _ _ => inferInstanceAs (DecidableEq (BitVec 128))
  | utf8 => inferInstanceAs (DecidableEq String)
  | binary => inferInstanceAs (DecidableEq (List UInt8))
  | foreign _ => inferInstanceAs (DecidableEq Unit)

/-- The data type that a column type stores, if there is one. -/
def dataType? : ColumnType → Option DataType
  | null => some .null
  | boolean => some .boolean
  | int8 => some .int8
  | int16 => some .int16
  | int32 => some .int32
  | int64 => some .int64
  | float32 => some .float32
  | float64 => some .float64
  | decimal128 precision scale => some (.decimal128 precision scale)
  | utf8 => some .utf8
  | binary => some .binary
  | date32 => some .date32
  | timestampMicros => some .timestampMicros
  | duration _ | foreign _ => none

/-- The data type that a column type stores; an error names the type that stores none. -/
def dataType (t : ColumnType) : Except Error DataType :=
  match t.dataType? with
  | some d => .ok d
  | none => .error ⟨.unsupportedType, s!"{t} has no native representation", none⟩

/-- The parameters that a decimal column may have: at most 38 digits, and as many or fewer of them
after the point. -/
def IsValidDecimal (precision scale : Int) : Prop :=
  1 ≤ precision ∧ precision ≤ 38 ∧ scale ≤ 38 ∧ (0 < scale → scale ≤ precision)

instance (precision scale : Int) : Decidable (IsValidDecimal precision scale) :=
  inferInstanceAs (Decidable (_ ∧ _ ∧ _ ∧ (_ → _)))

end ColumnType

namespace DataType

/-- The type of the column that stores a data type. -/
def stored : DataType → ColumnType
  | null => .null
  | boolean => .boolean
  | int8 => .int8
  | int16 => .int16
  | int32 => .int32
  | int64 => .int64
  | float32 => .float32
  | float64 => .float64
  | decimal128 precision scale => .decimal128 precision scale
  | utf8 => .utf8
  | binary => .binary
  | date32 => .date32
  | timestampMicros => .timestampMicros

/-- A type of an expression is found again from the type of column that stores it. -/
@[simp] theorem dataType?_stored (d : DataType) : d.stored.dataType? = some d := by
  cases d <;> rfl

end DataType

/-- One column of a batch's schema. -/
structure ColumnField where
  /-- The name of the column. -/
  name : String
  /-- The type it is stored in. -/
  type : ColumnType
  /-- Whether it may hold NULL. -/
  nullable : Bool
deriving DecidableEq, Repr, Inhabited

/-- The schema entry for a field. -/
def Field.stored (f : Field) : ColumnField :=
  ⟨f.name, f.type.stored, f.nullable⟩

/-- The field that a schema entry describes. -/
def ColumnField.field (f : ColumnField) : Except Error Field := do
  return ⟨f.name, ← f.type.dataType, f.nullable⟩

end Columnar
