import Columnar.Eval.Kernel

/-!
# Arithmetic

The arithmetic operations on values, and the types that they have or would have.
-/

namespace Columnar

/-! ## Operations

The operations on numbers of one type, and what else can be added and subtracted.

* Integers wrap around in sums, differences and products; a quotient or remainder by zero and a
  quotient that does not fit are failures.
* Floating-point operations never fail.
* Decimals are computed on unscaled values of 128 bits, without rounding in sums, differences and
  products; the parameters of the result follow from those of the operands (`DecimalRule`), and
  every intermediate value must fit.
* The difference of two dates or of two points in time is a duration; durations can be added to and
  subtracted from points in time and each other.
-/

/-- The arithmetic operations. -/
inductive Arithmetic where
  /-- Sum. -/
  | add
  /-- Difference. -/
  | subtract
  /-- Product. -/
  | multiply
  /-- Quotient. -/
  | divide
  /-- Remainder. -/
  | remainder
deriving DecidableEq, Repr

namespace Arithmetic

/-! ### Integers and floating-point numbers -/

/-- An operation on integers; `wrap` brings a result into the range from `least` on. -/
def onInts {α : Type} (op : Arithmetic) (least : Int) (wrap : Int → α) (a b : Int) :
    Except EvalError α :=
  match op with
  | add => .ok (wrap (a + b))
  | subtract => .ok (wrap (a - b))
  | multiply => .ok (wrap (a * b))
  | divide =>
    if b = 0 then .error .divisionByZero
    else if a = least ∧ b = -1 then .error .overflow
    else .ok (wrap (a.tdiv b))
  | remainder => if b = 0 then .error .divisionByZero else .ok (wrap (a.tmod b))

/-- An operation on single-precision numbers. -/
def onSingles (op : Arithmetic) (a b : UInt32) : UInt32 :=
  match op with
  | add => (Float32.ofBits a + Float32.ofBits b).toBits
  | subtract => (Float32.ofBits a - Float32.ofBits b).toBits
  | multiply => (Float32.ofBits a * Float32.ofBits b).toBits
  | divide => (Float32.ofBits a / Float32.ofBits b).toBits
  | remainder => UInt32.ofNat (Binary.single.remainder a.toNat b.toNat)

/-- An operation on double-precision numbers. -/
def onDoubles (op : Arithmetic) (a b : UInt64) : UInt64 :=
  match op with
  | add => (Float.ofBits a + Float.ofBits b).toBits
  | subtract => (Float.ofBits a - Float.ofBits b).toBits
  | multiply => (Float.ofBits a * Float.ofBits b).toBits
  | divide => (Float.ofBits a / Float.ofBits b).toBits
  | remainder => UInt64.ofNat (Binary.double.remainder a.toNat b.toNat)

/-! ### Decimals -/

/-- How a decimal operation treats its operands and what its result is. -/
structure DecimalRule where
  /-- Digits of the result. -/
  precision : Int
  /-- Digits of the result after the point. -/
  scale : Int
  /-- The power of ten by which the left operand is multiplied first. -/
  left : Nat
  /-- The power of ten by which the right operand is multiplied first. -/
  right : Nat
deriving DecidableEq, Repr

/-- The greatest number of digits of a decimal. -/
def maxPrecision : Int := 38

/-- The rule of an operation on decimals with `p` and `q` digits, `s` and `t` of them after the
point. A quotient gets four more digits after the point than its dividend; when its digits come out
below zero, the number of them is taken as an unsigned byte. -/
def decimalRule (op : Arithmetic) (p s q t : Int) : DecimalRule :=
  match op with
  | add | subtract =>
    let scale := max s t
    ⟨min maxPrecision (scale + max (p - s) (q - t) + 1), scale, (scale - s).toNat,
      (scale - t).toNat⟩
  | multiply => ⟨min maxPrecision (p + q + 1), max (-128) (s + t), 0, 0⟩
  | divide =>
    let scale := min maxPrecision (s + 4)
    let shift := scale - s + t
    ⟨min maxPrecision ((p + shift) % 256), scale, shift.toNat, (-shift).toNat⟩
  | remainder =>
    let scale := max s t
    ⟨min maxPrecision (scale + min (p - s) (q - t)), scale, (scale - s).toNat, (scale - t).toNat⟩

/-- A result that must fit 128 bits. -/
def fit (n : Int) : Except EvalError Int128 :=
  match Int128.ofInt? n with
  | some v => .ok v
  | none => .error .overflow

/-- An operation on unscaled values, exact or not at all. -/
def onUnscaled (op : Arithmetic) (a b : Int) : Except EvalError Int128 :=
  match op with
  | add => fit (a + b)
  | subtract => fit (a - b)
  | multiply => fit (a * b)
  | divide => if b = 0 then .error .divisionByZero else fit (a.tdiv b)
  | remainder =>
    if b = 0 then .error .divisionByZero
    -- The quotient must fit here too.
    else (fit (a.tdiv b)).bind fun _ => fit (a.tmod b)

/-- An operation on decimals. -/
def decimalKernel (op : Arithmetic) (p : UInt8) (s : Int8) (q : UInt8) (t : Int8) :
    Except EvalError (Kernel (.decimal128 p s) (.decimal128 q t)) := do
  let rule := op.decimalRule p.toNat s.toInt q.toNat t.toInt
  let left ← fit (10 ^ rule.left)
  let right ← fit (10 ^ rule.right)
  if ColumnType.IsValidDecimal rule.precision rule.scale then
    return ⟨.decimal128 (UInt8.ofNat rule.precision.toNat) (Int8.ofInt rule.scale), fun a b => do
      let a ← fit (a.toInt * left.toInt)
      let b ← fit (b.toInt * right.toInt)
      onUnscaled op a.toInt b.toInt⟩
  else throw (.invalidDecimal rule.precision rule.scale)

/-! ### Time -/

/-- The seconds of a day. -/
def secondsPerDay : Int := 86400

/-- An integer that must fit 64 bits. -/
def fit64 (n : Int) : Except EvalError Int64 :=
  if -2 ^ 63 ≤ n ∧ n < 2 ^ 63 then .ok (Int64.ofInt n) else .error .overflow

/-! ### All types -/

/-- The kernel of an operation on two types, if the operation takes them. -/
def kernel (op : Arithmetic) : (t u : ColumnType) → Except EvalError (Kernel t u)
  | .int8, .int8 => .ok ⟨.int8, fun a b => op.onInts (-2 ^ 7) Int8.ofInt a.toInt b.toInt⟩
  | .int16, .int16 => .ok ⟨.int16, fun a b => op.onInts (-2 ^ 15) Int16.ofInt a.toInt b.toInt⟩
  | .int32, .int32 => .ok ⟨.int32, fun a b => op.onInts (-2 ^ 31) Int32.ofInt a.toInt b.toInt⟩
  | .int64, .int64 => .ok ⟨.int64, fun a b => op.onInts (-2 ^ 63) Int64.ofInt a.toInt b.toInt⟩
  | .float32, .float32 => .ok ⟨.float32, fun a b => .ok (op.onSingles a b)⟩
  | .float64, .float64 => .ok ⟨.float64, fun a b => .ok (op.onDoubles a b)⟩
  | .decimal128 p s, .decimal128 q t => op.decimalKernel p s q t
  | .date32, .date32 =>
    match op with
    | subtract =>
      .ok ⟨.duration .second, fun a b => .ok (Int64.ofInt ((a.toInt - b.toInt) * secondsPerDay))⟩
    | _ => .error (.noArithmetic .date32 .date32)
  | .timestampMicros, .timestampMicros =>
    match op with
    | subtract => .ok ⟨.duration .microsecond, fun a b => fit64 (a.toInt - b.toInt)⟩
    | _ => .error (.noArithmetic .timestampMicros .timestampMicros)
  | .timestampMicros, .duration .microsecond =>
    match op with
    | add => .ok ⟨.timestampMicros, fun a b => fit64 (a.toInt + b.toInt)⟩
    | subtract => .ok ⟨.timestampMicros, fun a b => fit64 (a.toInt - b.toInt)⟩
    | _ => .error (.noArithmetic .timestampMicros (.duration .microsecond))
  | .duration .microsecond, .timestampMicros =>
    match op with
    | add => .ok ⟨.timestampMicros, fun a b => fit64 (a.toInt + b.toInt)⟩
    | _ => .error (.noArithmetic (.duration .microsecond) .timestampMicros)
  | .duration v, .duration w =>
    match op with
    | add | subtract =>
      if v = w then
        .ok ⟨.duration v, fun a b =>
          fit64 (if op = .add then a.toInt + b.toInt else a.toInt - b.toInt)⟩
      else .error (.noArithmetic (.duration v) (.duration w))
    | _ => .error (.noArithmetic (.duration v) (.duration w))
  | t, u => .error (.noArithmetic t u)

end Arithmetic

/-! ## Operand types

Which types an operation could take if its operands were converted to a common one, and the type of
its result then. No operand is ever converted: kernels take what they take. These rules only judge
the parts of a condition that are not evaluated (`Executable.type`), and are wider than those of the
kernels.
-/

namespace ColumnType

/-- Whether a type is one of numbers. -/
def isNumeric : ColumnType → Bool
  | int8 | int16 | int32 | int64 | float32 | float64 | decimal128 _ _ => true
  | _ => false

/-- Whether the values of the first type can be read from text or seen as bytes of it. -/
def hasTextForm : ColumnType → Bool
  | date32 | timestampMicros | binary => true
  | t => t.isNumeric

/-- Whether values of two types have a common type in which they can be compared. -/
def areComparable (t u : ColumnType) : Bool :=
  t == u || t == null || u == null || (t.isNumeric && u.isNumeric) ||
    (t == utf8 && u.hasTextForm) || (u == utf8 && t.hasTextForm) ||
    match t, u with
    | date32, timestampMicros | timestampMicros, date32 | duration _, duration _ => true
    | _, _ => false

/-- The decimal type that holds all integers of a type. -/
def integerDecimal? : ColumnType → Option ColumnType
  | int8 => some (decimal128 3 0)
  | int16 => some (decimal128 5 0)
  | int32 => some (decimal128 10 0)
  | int64 => some (decimal128 20 0)
  | _ => none

/-- The types of numbers by which a mixed operation is computed, the widest first. -/
def numericRanks : List ColumnType :=
  [float64, float32, int64, int32, int16, int8]

end ColumnType

namespace Arithmetic

open ColumnType

/-- The type of the result of an operation on two types that have a kernel. -/
def kernelType (op : Arithmetic) (t u : ColumnType) : Except EvalError ColumnType :=
  (op.kernel t u).map (·.type)

/-- The type of the result of an operation on types that have no kernel, after a conversion of the
operands to a common one. -/
def convertedType (op : Arithmetic) (t u : ColumnType) : Except EvalError ColumnType :=
  match t, u with
  | duration _, duration _ =>
    match op with
    | add | subtract => .ok (foreign "Interval(MonthDayNano)")
    | _ => .error (.noArithmetic t u)
  | date32, timestampMicros | timestampMicros, date32 =>
    match op with
    | subtract => .ok (foreign "Duration(Nanosecond)")
    | _ => .error (.noArithmetic t u)
  | decimal128 _ _, decimal128 _ _ => .error (.noArithmetic t u)
  | null, decimal128 _ _ => op.kernelType u u
  | decimal128 _ _, null => op.kernelType t t
  | _, _ =>
    match t, u, integerDecimal? t, integerDecimal? u with
    | decimal128 _ _, _, _, some v => op.kernelType t v
    | _, decimal128 _ _, some v, _ => op.kernelType v u
    | _, _, _, _ =>
      if (t.isNumeric && (u.isNumeric || u == null)) || (t == null && u.isNumeric) then
        match numericRanks.find? fun v => v == t || v == u with
        | some v => .ok v
        | none => .error (.noArithmetic t u)
      else .error (.noArithmetic t u)

/-- The type of the result of an operation on two types. -/
def resultType (op : Arithmetic) (t u : ColumnType) : Except EvalError ColumnType :=
  match op.kernelType t u with
  | .ok v => .ok v
  | .error _ => op.convertedType t u

end Arithmetic

end Columnar
