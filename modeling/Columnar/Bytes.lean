/-!
# Bytes

Byte strings are lists of bytes. This file holds the fixed-width forms of numbers, cutting a string
and filling it up to an alignment.
-/

/-! ### Instances

Mathlib has instances of its own for powers, for zero and for the equality of dependent pairs. They
agree with those of the core library, but they are other terms. Here those of the core library are
preferred, so that a definition is the same term whether Mathlib is imported or not.
-/

attribute [instance (high)] instPowNat Zero.ofOfNat0 instDecidableEqSigma

-- Where the type of an exponent is left open, as in `2 ^ 64`.
attribute [default_instance high] instPowNat

namespace Columnar

/-! ### Byte strings -/

/-- A byte string. -/
abbrev Bytes := List UInt8

namespace Bytes

/-- The low `width` bytes of `n`, least significant first. -/
def ofNat : (width n : Nat) → Bytes
  | 0, _ => []
  | width + 1, n => UInt8.ofNat n :: ofNat width (n / 256)

/-- The number whose bytes, least significant first, are `b`. -/
def toNat (b : Bytes) : Nat :=
  b.foldr (fun byte high => byte.toNat + 256 * high) 0

/-- The number whose bytes, most significant first, are `b`. -/
def toNatBE (b : Bytes) : Nat :=
  b.foldl (fun high byte => 256 * high + byte.toNat) 0

/-- The number in two's complement whose bytes, least significant first, are `b`. -/
def toInt (b : Bytes) : Int :=
  (toNat b : Int).bmod (256 ^ b.length)

/-- The low `width` bytes of `n` in two's complement, least significant first. -/
def ofInt (width : Nat) (n : Int) : Bytes :=
  ofNat width (n % 256 ^ width).toNat

/-- Splits off the first `n` bytes, if there are as many. -/
def splitAt? (n : Nat) (b : Bytes) : Option (Bytes × Bytes) :=
  let (front, rest) := b.splitAt n
  if front.length = n then some (front, rest) else none

/-- The bytes from `start` on, `size` of them, if there are as many. -/
def slice? (start size : Nat) (b : Bytes) : Option Bytes :=
  let front := (b.drop start).take size
  if front.length = size then some front else none

/-- Zero bytes that bring a string of `n` bytes to a multiple of `alignment`. -/
def padding (alignment n : Nat) : Bytes :=
  List.replicate ((alignment - n % alignment) % alignment) 0

end Bytes

end Columnar
