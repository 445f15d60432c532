import Columnar.Json.Basic

/-!
# Content of JSON documents

What readers take from a document: numbers of the widths that they need, and members of objects by
their names.
-/

namespace Columnar.Json

/-! ## What numerals stand for

A numeral without fraction and exponent stands for an integer when 64 bits hold it, unsigned above
zero and signed below; minus zero does not. Every other numeral stands for a double-precision
number, computed in a fixed way: the leading digits that fit 64 unsigned bits are rounded to a
double once, and that is multiplied or divided by a power of ten. The result may differ from the
nearest double in its last bits, and a numeral whose result would be infinite stands for nothing.
-/

/-- What a numeral stands for. -/
inductive Number where
  /-- An integer of 64 unsigned bits. -/
  | natural (n : UInt64)
  /-- An integer below zero of 64 bits. -/
  | negative (n : Int64)
  /-- A double-precision number, as a bit pattern. -/
  | double (bits : UInt64)
deriving DecidableEq, Repr

namespace Number

/-- The value of a decimal digit. -/
def digitValue (c : Char) : Nat :=
  c.toNat - 48

/-- Appends digits to a significand while 64 bits hold it; returns it with the number of digits
left. -/
def accumulate (significand : Nat) : List Char → Nat × Nat
  | [] => (significand, 0)
  | c :: rest =>
    let next := 10 * significand + digitValue c
    if next < 2 ^ 64 then accumulate next rest else (significand, rest.length + 1)

/-- The double nearest to a power of ten. -/
def powerOfTen (n : Nat) : Float :=
  Float.ofScientific 1 false n

/-- The double `x * 10 ^ exponent`, unless it would be infinite. Powers beyond the largest one that
a double holds are divided out one at a time, which soon leaves nothing. -/
def scale (steps : Nat) (x : Float) (exponent : Int) : Option Float :=
  if exponent.natAbs ≤ 308 then
    if 0 ≤ exponent then
      let y := x * powerOfTen exponent.natAbs
      if y.isInf then none else some y
    else some (x / powerOfTen exponent.natAbs)
  else if x == 0.0 then some x
  else if 0 ≤ exponent then none
  else
    match steps with
    | 0 => some x
    | steps + 1 => scale steps (x / powerOfTen 308) (exponent + 308)

/-- The double of a sign, a significand of 64 bits and a power of ten. -/
def ofParts (positive : Bool) (significand : Nat) (exponent : Int) : Option Number :=
  (scale 4 (UInt64.ofNat significand).toFloat exponent).map fun x =>
    .double (if positive then x else -x).toBits

/-- The exponent that a sign and digits stand for, `none` beyond 31 bits. -/
def exponentValue (digits : List Char) : Option Nat :=
  digits.foldl (fun n c => n.bind fun n =>
    let next := 10 * n + digitValue c
    if next < 2 ^ 31 then some next else none) (some 0)

/-- A sum of exponents, held within 32 bits. -/
def clamp (n : Int) : Int :=
  max (-2 ^ 31) (min (2 ^ 31 - 1) n)

/-- The double of a significand and the exponent part of a numeral. -/
def withExponent (positive : Bool) (significand : Nat) (exponent : Int) (part : List Char) :
    Option Number :=
  let (down, digits) :=
    match part.drop 1 with
    | '-' :: digits => (true, digits)
    | '+' :: digits => (false, digits)
    | digits => (false, digits)
  match exponentValue digits with
  | some e => ofParts positive significand (clamp (if down then exponent - e else exponent + e))
  | none => if significand != 0 && !down then none else ofParts positive 0 0

/-- What the digits of a numeral stand for, without its sign. -/
def ofMagnitude (positive : Bool) (s : List Char) : Option Number :=
  let (whole, rest) := s.span Char.isDigit
  let (significand, dropped) := accumulate 0 whole
  match rest with
  | [] =>
    if dropped = 0 then
      if positive then some (.natural (UInt64.ofNat significand))
      else if 1 ≤ significand ∧ significand ≤ 2 ^ 63 then
        some (.negative (Int64.ofInt (-significand)))
      else ofParts false significand 0
    else ofParts positive significand dropped
  | '.' :: rest =>
    let (fraction, rest) := rest.span Char.isDigit
    let (significand, left) := accumulate significand fraction
    let exponent : Int := dropped - (fraction.length - left : Nat)
    match rest with
    | [] => ofParts positive significand exponent
    | part => withExponent positive significand exponent part
  | part => withExponent positive significand dropped part

end Number

/-- What a numeral stands for; `none` when its value is too large for a double. -/
def Number.ofNumeral? (numeral : String) : Option Number :=
  match numeral.toList with
  | '-' :: s => ofMagnitude false s
  | s => ofMagnitude true s

/-- The integer of a number in JSON, if it is one. -/
def Number.int? : Number → Option Int
  | natural n => some n.toNat
  | negative n => some n.toInt
  | double _ => none

/-- The double nearest to a number in JSON. -/
def Number.toDouble : Number → UInt64
  | natural n => n.toFloat.toBits
  | negative n => n.toFloat.toBits
  | double bits => bits

/-- The single-precision number nearest to a number in JSON. -/
def Number.toSingle : Number → UInt32
  | natural n => n.toFloat32.toBits
  | negative n => n.toFloat32.toBits
  | double bits => (Float.ofBits bits).toFloat32.toBits

/-! ## Records in JSON

A record with named parts is written as an object, or as the array of its parts in order. Unknown
members of an object are passed over, whatever they hold; a known name must not occur twice.

`Json.isPlain` and `Json.depth` say which documents can be held in memory before it is known what
they stand for: all strings have a text, all numbers a value, and containers nest to a limited
depth.
-/

/-- The parts of a record in the order of `names`, `none` for a part that is missing. -/
def record? (names : List String) : Json → Option (List (Option Json))
  | object members =>
    if members.all (·.1.isSome) then
      names.mapM fun name =>
        match members.filter (·.1 == some name) with
        | [] => some none
        | [(_, j)] => some (some j)
        | _ => none
    else none
  | array items =>
    if items.length ≤ names.length then
      some (items.map some ++ List.replicate (names.length - items.length) none)
    else none
  | _ => none

/-- The text of a string. -/
def string? : Json → Option String
  | string s => s
  | _ => none

/-- A truth value. -/
def bool? : Json → Option Bool
  | bool b => some b
  | _ => none

/-- The value of a number. -/
def number? : Json → Option Number
  | number numeral => Number.ofNumeral? numeral
  | _ => none

/-- An integer between two bounds. -/
def intBetween? (least greatest : Int) (j : Json) : Option Int := do
  let n ← (← j.number?).int?
  if least ≤ n ∧ n ≤ greatest then some n else none

/-- An integer of `bits` unsigned bits. -/
def unsigned? (bits : Nat) (j : Json) : Option Nat :=
  (j.intBetween? 0 (2 ^ bits - 1)).map Int.toNat

/-- An integer of `bits` bits in two's complement. -/
def signed? (bits : Nat) (j : Json) : Option Int :=
  j.intBetween? (-2 ^ (bits - 1)) (2 ^ (bits - 1) - 1)

/-- The items of an array. -/
def items? : Json → Option (List Json)
  | array items => some items
  | _ => none

mutual

/-- Whether all strings of a document have a text and all numbers a value. -/
def isPlain : Json → Bool
  | null | bool _ => true
  | number numeral => (Number.ofNumeral? numeral).isSome
  | string s => s.isSome
  | array items => arePlainItems items
  | object members => arePlainMembers members

/-- Whether the items of an array are plain. -/
def arePlainItems : List Json → Bool
  | [] => true
  | j :: rest => j.isPlain && arePlainItems rest

/-- Whether the members of an object are plain, and so are their names. -/
def arePlainMembers : List (Option String × Json) → Bool
  | [] => true
  | (name, j) :: rest => name.isSome && j.isPlain && arePlainMembers rest

end

end Columnar.Json
