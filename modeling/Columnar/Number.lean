import Columnar.Bytes

/-!
# Numbers

The numbers that values are made of and that no type of the core library covers: 128-bit integers,
and binary floating-point numbers by their bit patterns, with their shortest decimals, their text
and their remainders.
-/

namespace Columnar

/-! ## 128-bit integers

The unscaled values of decimals are 128-bit integers in two's complement. Decimal arithmetic never
wraps: `Int128.ofInt?` is where an exact result that does not fit becomes a failure.
-/

/-- A 128-bit integer in two's complement. -/
abbrev Int128 := BitVec 128

namespace Int128

/-- The 128-bit integer of value `n`, if `n` fits. -/
def ofInt? (n : Int) : Option Int128 :=
  if -2 ^ 127 ≤ n ∧ n < 2 ^ 127 then some (BitVec.ofInt 128 n) else none

/-- An integer that is in range is kept as it is. -/
theorem ofInt?_eq_some_iff {n : Int} {v : Int128} : ofInt? n = some v ↔ v.toInt = n := by
  have lower := v.le_toInt
  have upper := v.toInt_lt
  simp only [ofInt?]
  split
  · next h =>
    have : (BitVec.ofInt 128 n).toInt = n := by
      rw [BitVec.toInt_ofInt]
      exact Int.bmod_eq_of_le (by omega) (by omega)
    rw [Option.some.injEq, ← BitVec.toInt_inj, this]
    exact eq_comm
  · next h =>
    simp only [reduceCtorEq, false_iff]
    omega

end Int128

/-! ## Shortest decimals of binary numbers

A positive binary floating-point number stands for every real number that rounds to it. Of the
decimals in that interval, `Binary.shortest` finds one with the fewest digits, and of those the one
nearest to the number itself; the caller says which of two equally near ones to take.

The grid of multiples of `10 ^ k` is tried for falling `k`. On each grid only the two neighbours of
the number matter, so that a test is a comparison of products of natural numbers, and the first grid
with a neighbour inside the interval gives the answer.
-/

/-- A binary interchange format. -/
structure Binary where
  /-- Bits of the stored exponent. -/
  exponentBits : Nat
  /-- Bits of the stored fraction. -/
  fractionBits : Nat
deriving DecidableEq, Repr

namespace Binary

/-- Single precision. -/
def single : Binary := ⟨8, 23⟩

/-- Double precision. -/
def double : Binary := ⟨11, 52⟩

/-- What a bit pattern stands for. -/
inductive Datum where
  /-- No number. -/
  | nan
  /-- An infinity. -/
  | infinite (negative : Bool)
  /-- The number of magnitude `significand * 2 ^ exponent`. -/
  | finite (negative : Bool) (significand : Nat) (exponent : Int)
deriving DecidableEq, Repr

/-- The exponent of the least significant bit of the smallest numbers. -/
def minExponent (f : Binary) : Int :=
  2 - (2 ^ (f.exponentBits - 1) : Int) - f.fractionBits

/-- Reads a bit pattern. -/
def datum (f : Binary) (bits : Nat) : Datum :=
  let fraction := bits % 2 ^ f.fractionBits
  let stored := bits / 2 ^ f.fractionBits % 2 ^ f.exponentBits
  let negative := bits / 2 ^ (f.fractionBits + f.exponentBits) % 2 == 1
  if stored = 2 ^ f.exponentBits - 1 then
    if fraction = 0 then .infinite negative else .nan
  else if stored = 0 then .finite negative fraction f.minExponent
  else .finite negative (2 ^ f.fractionBits + fraction) (f.minExponent + (stored - 1 : Nat))

/-- Which of two equally near decimals is taken. -/
inductive Tie where
  /-- The larger one. -/
  | up
  /-- The one with an even last digit. -/
  | even
deriving DecidableEq, Repr

/-- The decimal `digits * 10 ^ exponent`. -/
structure Decimal where
  /-- The digits, as a number. -/
  digits : Nat
  /-- The power of ten of the last digit. -/
  exponent : Int
deriving DecidableEq, Repr

/-- The best multiple of `10 ^ k` among those that read back as `significand * 2 ^ exponent`. The
interval runs from a half (a quarter, just above a power of two) step below to half a step above,
and its ends belong to it when the significand is even. -/
def onGrid? (f : Binary) (tie : Tie) (significand : Nat) (exponent k : Int) : Option Decimal :=
  let power := significand = 2 ^ f.fractionBits ∧ f.minExponent < exponent
  let middle := 4 * significand
  let low := if power then middle - 1 else middle - 2
  let high := middle + 2
  -- The number is `middle * up / down` in units of the grid.
  let up := 2 ^ (exponent - 2).toNat * 10 ^ (-k).toNat
  let down := 2 ^ (2 - exponent).toNat * 10 ^ k.toNat
  let closed := significand % 2 = 0
  let under := middle * up / down
  let rest := middle * up % down
  let isInside (c : Nat) : Bool :=
    if closed then low * up ≤ c * down && c * down ≤ high * up
    else low * up < c * down && c * down < high * up
  let above := under + 1
  let underOk := under != 0 && isInside under
  let aboveOk := rest != 0 && isInside above
  if underOk && aboveOk then
    let takeAbove := if 2 * rest = down then tie = .up ∨ under % 2 = 1 else down < 2 * rest
    some ⟨if takeAbove then above else under, k⟩
  else if underOk then some ⟨under, k⟩
  else if aboveOk then some ⟨above, k⟩
  else none

/-- A power of ten that is above `significand * 2 ^ exponent`, and not far above. -/
def topGrid (significand : Nat) (exponent : Int) : Int :=
  ((exponent + significand.log2 + 1) * 30103).ediv 100000 + 1

/-- The shortest decimal that reads back as `significand * 2 ^ exponent`, a positive number. -/
def shortest (f : Binary) (tie : Tie) (significand : Nat) (exponent : Int) : Decimal :=
  let top := topGrid significand exponent
  ((List.range 24).findSome? fun (i : Nat) =>
    f.onGrid? tie significand exponent (top - i)).getD ⟨0, 0⟩

end Binary

/-! ## Text of binary numbers

Two ways to write the shortest decimal of a binary number: positional notation without exponent, as
constants are shown, and the notation of JSON numbers, which switches to an exponent outside a range
of magnitudes that depends on the format.
-/

namespace Binary

namespace Decimal

/-- The digits as text. -/
def digitText (d : Decimal) : String :=
  toString d.digits

/-- The power of ten of the first digit. -/
def leading (d : Decimal) : Int :=
  d.exponent + d.digitText.length - 1

/-- A number of zeros. -/
private def zeros (n : Int) : String :=
  String.ofList (List.replicate n.toNat '0')

/-- Positional notation; `point` is written after a whole number. -/
def positional (d : Decimal) (point : String) : String :=
  let digits := d.digitText
  if 0 ≤ d.exponent then digits ++ zeros d.exponent ++ point
  else if 0 ≤ d.leading then
    let whole := (d.leading + 1).toNat
    String.ofList (digits.toList.take whole) ++ "." ++ String.ofList (digits.toList.drop whole)
  else "0." ++ zeros (-d.leading - 1) ++ digits

/-- Notation with an exponent: one digit, the others after a point, and a signed power of ten. -/
def scientific (d : Decimal) : String :=
  let (first, others) := d.digitText.toList.splitAt 1
  let mantissa := String.ofList first ++ if others.isEmpty then "" else "." ++ String.ofList others
  mantissa ++ (if d.leading < 0 then "e-" else "e+") ++ toString d.leading.natAbs

end Decimal

/-- Positional text of any magnitude: no exponent, no point after a whole number, and a half goes up
where two shortest decimals are equally near. -/
def plainText (f : Binary) (bits : Nat) : String :=
  match f.datum bits with
  | .nan => "NaN"
  | .infinite negative => if negative then "-inf" else "inf"
  | .finite negative significand exponent =>
    let magnitude :=
      if significand = 0 then "0" else (f.shortest .up significand exponent).positional ""
    if negative then "-" ++ magnitude else magnitude

/-- The powers of ten of a first digit, least and greatest, that JSON text writes without
exponent. -/
def plainRange (f : Binary) : Int × Int :=
  if f = single then (-6, 12) else (-5, 15)

/-- A JSON number, or `none` for what JSON cannot write. Whole numbers keep one decimal place where
there is no exponent, and an even last digit wins where two shortest decimals are equally near. -/
def jsonText? (f : Binary) (bits : Nat) : Option String :=
  match f.datum bits with
  | .finite negative significand exponent =>
    let magnitude :=
      if significand = 0 then "0.0"
      else
        let d := f.shortest .even significand exponent
        let (least, greatest) := f.plainRange
        if least ≤ d.leading && d.leading ≤ greatest then d.positional ".0" else d.scientific
    some (if negative then "-" ++ magnitude else magnitude)
  | _ => none

/-! ## Remainders of binary numbers

The remainder of a division that rounds its quotient towards zero is a binary number again, so that
it can be computed without rounding: both operands are whole multiples of a power of two, and the
remainder of the multiples is what is left. It has the sign of the dividend.
-/

/-- The bit pattern of `significand * 2 ^ exponent` with a sign, for a number that the format
holds. -/
def encode (f : Binary) (negative : Bool) (significand : Nat) (exponent : Int) : Nat :=
  let sign := if negative then 2 ^ (f.exponentBits + f.fractionBits) else 0
  if significand = 0 then sign
  else
    let shift := max ((significand.log2 : Int) - f.fractionBits) (f.minExponent - exponent)
    let digits := significand * 2 ^ (-shift).toNat / 2 ^ shift.toNat
    let steps := (exponent + shift - f.minExponent).toNat
    -- The leading bit of a normal number adds one to the stored exponent.
    sign + steps * 2 ^ f.fractionBits + digits

/-- The bit pattern of the remainder of two numbers. There is none of an infinity, or by zero, and
an infinite divisor leaves the dividend. -/
def remainder (f : Binary) (dividend divisor : Nat) : Nat :=
  let nan := (2 ^ (f.exponentBits + 1) - 1) * 2 ^ (f.fractionBits - 1)
  match f.datum dividend, f.datum divisor with
  | .finite _ _ _, .infinite _ => dividend
  | .finite negative m e, .finite _ n g =>
    if n = 0 then nan
    else
      let least := min e g
      f.encode negative (m * 2 ^ (e - least).toNat % (n * 2 ^ (g - least).toNat)) least
  | _, _ => nan

end Binary

end Columnar
