import Columnar.Batch

/-!
# Kernels of evaluation

What evaluation does with values one by one: operations on values that are not NULL, comparisons
among them, and truth values that may be NULL.
-/

namespace Columnar

/-! ## Failures of evaluation

What can go wrong when an executable expression meets a batch.
-/

/-- Why an expression has no value on a batch. -/
inductive EvalError where
  /-- The batch has no column at a position. -/
  | columnOutOfRange (index columns : Nat)
  /-- Two operands that cannot be compared. -/
  | incomparable (left right : ColumnType)
  /-- Two operands that an arithmetic operation does not take. -/
  | noArithmetic (left right : ColumnType)
  /-- A logical operand that holds no truth values. -/
  | notBoolean (type : ColumnType)
  /-- Decimal parameters that no column may have. -/
  | invalidDecimal (precision scale : Int)
  /-- A result that its type does not hold. -/
  | overflow
  /-- A division by zero. -/
  | divisionByZero
deriving DecidableEq, Repr

/-- The text of a failure. -/
def EvalError.text : EvalError → String
  | columnOutOfRange index columns => s!"column {index} is out of range for {columns} columns"
  | incomparable left right => s!"{left} cannot be compared with {right}"
  | noArithmetic left right => s!"no arithmetic between {left} and {right}"
  | notBoolean type => s!"{type} is not boolean"
  | invalidDecimal precision scale => s!"no decimal has precision {precision} and scale {scale}"
  | overflow => "arithmetic overflow"
  | divisionByZero => "division by zero"

/-! ## Kernels

A kernel computes with two values that are not NULL. Applied to slots it gives NULL where an operand
is NULL, and fails only where both are values.
-/

/-- An operation on values of two types. -/
structure Kernel (t u : ColumnType) where
  /-- The type of its results. -/
  type : ColumnType
  /-- The result for two values. -/
  apply : t.Cell → u.Cell → Except EvalError type.Cell

namespace Kernel

variable {t u : ColumnType}

/-- The result for two slots. -/
def onSlots (k : Kernel t u) : Slot t → Slot u → Except EvalError (Slot k.type)
  | some a, some b => (k.apply a b).map some
  | _, _ => .ok none

/-- The results for the slots of two columns, row by row. -/
def onRows (k : Kernel t u) (xs : List (Slot t)) (ys : List (Slot u)) :
    Except EvalError (List (Slot k.type)) :=
  (xs.zip ys).mapM fun (x, y) => k.onSlots x y

end Kernel

/-! ## Comparisons

Values of one type are totally ordered. Truth comes after falsehood; text and byte strings are
ordered byte by byte; floating-point numbers follow the order of their bit patterns, in which the
two zeros differ and every number that is none has a place at an end.
-/

/-- The comparisons of two values. -/
inductive Comparison where
  /-- Equality. -/
  | equal
  /-- Strictly less. -/
  | less
  /-- At most. -/
  | lessOrEqual
  /-- Strictly greater. -/
  | greater
  /-- At least. -/
  | greaterOrEqual
deriving DecidableEq, Repr

/-- Whether a comparison holds of two values in a given order. -/
def Comparison.holds : Comparison → Ordering → Bool
  | equal, o => o.isEq
  | less, o => o.isLT
  | lessOrEqual, o => o.isLE
  | greater, o => o.isGT
  | greaterOrEqual, o => o.isGE

namespace ColumnType

/-- The place of a bit pattern among those of its width: the patterns with a sign come first, in
reverse. -/
def floatRank (width bits : Nat) : Int :=
  if bits < 2 ^ (width - 1) then bits else 2 ^ (width - 1) - 1 - (bits : Int)

/-- The order of the values of a type. -/
def compareCells : (t : ColumnType) → t.Cell → t.Cell → Ordering
  | null, a, _ => nomatch a
  | boolean, a, b => compare a b
  | int8, a, b => compare a.toInt b.toInt
  | int16, a, b => compare a.toInt b.toInt
  | int32, a, b | date32, a, b => compare a.toInt b.toInt
  | int64, a, b | timestampMicros, a, b | duration _, a, b => compare a.toInt b.toInt
  | float32, a, b => compare (floatRank 32 a.toNat) (floatRank 32 b.toNat)
  | float64, a, b => compare (floatRank 64 a.toNat) (floatRank 64 b.toNat)
  | decimal128 _ _, a, b => compare a.toInt b.toInt
  | utf8, a, b => List.compareLex compare (a.toList.map Char.toNat) (b.toList.map Char.toNat)
  | binary, a, b => List.compareLex compare (a.map UInt8.toNat) (b.map UInt8.toNat)
  | foreign _, _, _ => .eq

end ColumnType

/-- A comparison of values of one type. -/
def Comparison.kernel (c : Comparison) (t u : ColumnType) : Except EvalError (Kernel t u) :=
  if h : t = u then
    .ok ⟨.boolean, fun a b => .ok (c.holds (u.compareCells (h ▸ a) b))⟩
  else .error (.incomparable t u)

/-! ## Logic with NULL

Truth values may be NULL, which stands for either. A conjunction is false as soon as an operand is,
and a disjunction true; NULL is the outcome where the NULLs decide.
-/

namespace Logic

/-- Conjunction. -/
def and : Option Bool → Option Bool → Option Bool
  | some false, _ | _, some false => some false
  | some true, some true => some true
  | _, _ => none

/-- Disjunction. -/
def or : Option Bool → Option Bool → Option Bool
  | some true, _ | _, some true => some true
  | some false, some false => some false
  | _, _ => none

/-- Negation. -/
def not (x : Option Bool) : Option Bool :=
  x.map (!·)

end Logic

end Columnar
