import Columnar.DataType

/-!
# Expressions

Scalar expressions over the columns of an input, and the typed constants that occur in them, with
one text for each.
-/

namespace Columnar

/-! ## Constants

A typed constant of an expression, with the text that messages show for it.
-/

/-- A typed constant. Floating-point numbers are bit patterns. -/
inductive Literal where
  /-- NULL of a type. -/
  | null (type : DataType)
  /-- A truth value. -/
  | boolean (value : Bool)
  /-- An integer of 8 bits. -/
  | int8 (value : Int8)
  /-- An integer of 16 bits. -/
  | int16 (value : Int16)
  /-- An integer of 32 bits. -/
  | int32 (value : Int32)
  /-- An integer of 64 bits. -/
  | int64 (value : Int64)
  /-- A single-precision number. -/
  | float32 (bits : UInt32)
  /-- A double-precision number. -/
  | float64 (bits : UInt64)
  /-- A decimal: its unscaled value, its digits, and its digits after the point. -/
  | decimal128 (value : Int128) (precision : UInt8) (scale : Int8)
  /-- A text. -/
  | utf8 (value : String)
  /-- A byte string. -/
  | binary (value : Bytes)
  /-- A date, in days since the epoch. -/
  | date32 (value : Int32)
  /-- A point in time, in microseconds since the epoch. -/
  | timestampMicros (value : Int64)
deriving DecidableEq, Repr

namespace Literal

/-- The type of a constant. -/
def type : Literal → DataType
  | null t => t
  | boolean _ => .boolean
  | int8 _ => .int8
  | int16 _ => .int16
  | int32 _ => .int32
  | int64 _ => .int64
  | float32 _ => .float32
  | float64 _ => .float64
  | decimal128 _ precision scale => .decimal128 precision scale
  | utf8 _ => .utf8
  | binary _ => .binary
  | date32 _ => .date32
  | timestampMicros _ => .timestampMicros

/-- A digit of hexadecimal text, in upper case. -/
private def hexDigit (n : Nat) : Char :=
  if n < 10 then Char.ofNat (48 + n) else Char.ofNat (55 + n)

/-- Two upper-case hexadecimal digits for each byte. -/
def hexText (b : Bytes) : String :=
  String.ofList (b.flatMap fun x => [hexDigit (x.toNat / 16), hexDigit (x.toNat % 16)])

/-- The text of a constant in messages. -/
def text : Literal → String
  | null _ => "NULL"
  | boolean v => if v then "true" else "false"
  | int8 v => toString v.toInt
  | int16 v => toString v.toInt
  | int32 v => toString v.toInt
  | int64 v => toString v.toInt ++ "L"
  | float32 v => Binary.single.plainText v.toNat ++ "F"
  | float64 v => Binary.double.plainText v.toNat ++ "D"
  | decimal128 v _ scale => s!"{v.toInt}e-{scale.toInt}BD"
  | utf8 v => "'" ++ v ++ "'"
  | binary v => "X'" ++ hexText v ++ "'"
  | date32 v => "DATE " ++ toString v.toInt
  | timestampMicros v => "TIMESTAMP " ++ toString v.toInt

instance : ToString Literal where
  toString := text

/-- Whether a constant is a floating-point number that is no number, which differs from itself. -/
def isNaN : Literal → Bool
  | float32 v => Binary.single.datum v.toNat == .nan
  | float64 v => Binary.double.datum v.toNat == .nan
  | _ => false

end Literal

/-! ## Expressions

Scalar expressions over the columns of an input. References are typed by the analysis that made the
expression, or carry a name only and take the type of the field they resolve to.
-/

/-- Operators with two operands. -/
inductive BinaryOp where
  /-- Conjunction. -/
  | and
  /-- Disjunction. -/
  | or
  /-- Equality. -/
  | equal
  /-- Equality under which two NULLs are equal. -/
  | equalNullSafe
  /-- Strictly less. -/
  | less
  /-- At most. -/
  | lessOrEqual
  /-- Strictly greater. -/
  | greater
  /-- At least. -/
  | greaterOrEqual
  /-- Sum. -/
  | add
  /-- Difference. -/
  | subtract
  /-- Product. -/
  | multiply
  /-- Quotient. -/
  | divide
  /-- Remainder. -/
  | remainder
  /-- Bitwise conjunction. -/
  | bitAnd
  /-- Bitwise disjunction. -/
  | bitOr
  /-- Bitwise exclusive disjunction. -/
  | bitXor
deriving DecidableEq, Repr

namespace BinaryOp

/-- All operators with two operands. -/
def all : List BinaryOp :=
  [and, or, equal, equalNullSafe, less, lessOrEqual, greater, greaterOrEqual, add, subtract,
    multiply, divide, remainder, bitAnd, bitOr, bitXor]

/-- The name of an operator in serialised form. -/
def name : BinaryOp → String
  | and => "And"
  | or => "Or"
  | equal => "EqualTo"
  | equalNullSafe => "EqualNullSafe"
  | less => "LessThan"
  | lessOrEqual => "LessThanOrEqual"
  | greater => "GreaterThan"
  | greaterOrEqual => "GreaterThanOrEqual"
  | add => "Add"
  | subtract => "Subtract"
  | multiply => "Multiply"
  | divide => "Divide"
  | remainder => "Remainder"
  | bitAnd => "BitwiseAnd"
  | bitOr => "BitwiseOr"
  | bitXor => "BitwiseXor"

/-- The operator of a name. -/
def ofName? (s : String) : Option BinaryOp :=
  all.find? (·.name == s)

/-- The sign of an operator in the text of an expression. -/
def symbol : BinaryOp → String
  | and => "AND"
  | or => "OR"
  | equal => "="
  | equalNullSafe => "<=>"
  | less => "<"
  | lessOrEqual => "<="
  | greater => ">"
  | greaterOrEqual => ">="
  | add => "+"
  | subtract => "-"
  | multiply => "*"
  | divide => "/"
  | remainder => "%"
  | bitAnd => "&"
  | bitOr => "|"
  | bitXor => "^"

/-- Whether an operator yields a truth value whatever its operands are. -/
def isPredicate : BinaryOp → Bool
  | and | or | equal | equalNullSafe | less | lessOrEqual | greater | greaterOrEqual => true
  | _ => false

end BinaryOp

/-- Operators with one operand. -/
inductive UnaryOp where
  /-- Negation. -/
  | not
  /-- Test for NULL. -/
  | isNull
  /-- Test for a value. -/
  | isNotNull
  /-- Bitwise negation. -/
  | bitNot
deriving DecidableEq, Repr

namespace UnaryOp

/-- All operators with one operand. -/
def all : List UnaryOp :=
  [not, isNull, isNotNull, bitNot]

/-- The name of an operator in serialised form. -/
def name : UnaryOp → String
  | not => "Not"
  | isNull => "IsNull"
  | isNotNull => "IsNotNull"
  | bitNot => "BitwiseNot"

/-- The operator of a name. -/
def ofName? (s : String) : Option UnaryOp :=
  all.find? (·.name == s)

/-- Whether an operator yields a truth value whatever its operand is. -/
def isPredicate : UnaryOp → Bool
  | bitNot => false
  | _ => true

end UnaryOp

/-- An expression over the columns of an input. -/
inductive Expr where
  /-- The column at a position, with the type and nullability that analysis gave it. -/
  | bound (ordinal : UInt64) (type : DataType) (nullable : Bool)
  /-- The first column of a name. -/
  | column (name : String)
  /-- A constant. -/
  | literal (value : Literal)
  /-- An operator applied to two operands. -/
  | binary (op : BinaryOp) (left right : Expr)
  /-- An operator applied to one operand. -/
  | unary (op : UnaryOp) (child : Expr)
deriving DecidableEq, Repr

namespace Expr

/-- The declared type of an expression. A column by name declares none, and arithmetic declares what
its left operand declares. -/
def type? : Expr → Option DataType
  | bound _ type _ => some type
  | column _ => none
  | literal value => some value.type
  | binary op left _ => if op.isPredicate then some .boolean else left.type?
  | unary op child => if op.isPredicate then some .boolean else child.type?

/-- The operands of an expression, left to right. -/
def children : Expr → List Expr
  | binary _ left right => [left, right]
  | unary _ child => [child]
  | _ => []

/-- The text of an expression. -/
def text : Expr → String
  | bound ordinal _ _ => s!"input[{ordinal.toNat}]"
  | column name => name
  | literal value => value.text
  | binary op left right => "(" ++ left.text ++ " " ++ op.symbol ++ " " ++ right.text ++ ")"
  | unary .not child => "(NOT " ++ child.text ++ ")"
  | unary .isNull child => "isnull(" ++ child.text ++ ")"
  | unary .isNotNull child => "isnotnull(" ++ child.text ++ ")"
  | unary .bitNot child => "~" ++ child.text

instance : ToString Expr where
  toString := text

end Expr

end Columnar
