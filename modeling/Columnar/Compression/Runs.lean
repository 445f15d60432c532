import Columnar.Bytes

/-!
# Runs and copies

What the compressed formats have in common: their writers cut bytes into runs, and their readers
copy earlier output.
-/

namespace Columnar.Compression

/-! ## Copies from the output

Decompression repeats bytes of its own output. A copy may reach into the bytes that it produces
itself, and then repeats a pattern.
-/

/-- Appends `length` bytes, each a copy of the one `offset` places before it. -/
def copyBack (offset : Nat) : (length : Nat) → Array UInt8 → Array UInt8
  | 0, out => out
  | length + 1, out => copyBack offset length (out.push (out.getD (out.size - offset) 0))

/-- A copy adds as many bytes as it is long. -/
@[simp] theorem size_copyBack (offset length : Nat) (out : Array UInt8) :
    (copyBack offset length out).size = out.size + length := by
  induction length generalizing out with
  | zero => rfl
  | succ n ih => simp only [copyBack, ih, Array.size_push]; omega

/-! ## Runs

The compressors of this library look for one kind of redundancy, runs of one byte. `segments` cuts a
byte string into stretches that are to be written out, each followed by further copies of its last
byte; `expand` undoes it.
-/

/-- Bytes to be written out, and how many copies of the last one follow. -/
structure Segment where
  /-- The bytes. -/
  literals : Bytes
  /-- How often the last of them is repeated. -/
  copies : Nat
deriving DecidableEq, Repr

namespace Segment

/-- The bytes that a segment stands for. -/
def expand (s : Segment) : Bytes :=
  match s.literals.getLast? with
  | some b => s.literals ++ List.replicate s.copies b
  | none => []

end Segment

/-- Puts a byte in front of runs. -/
def addToRuns (b : UInt8) : List (UInt8 × Nat) → List (UInt8 × Nat)
  | (c, n) :: others => if b = c then (c, n + 1) :: others else (b, 1) :: (c, n) :: others
  | [] => [(b, 1)]

/-- Cuts a byte string into runs of equal bytes. -/
def runs (b : Bytes) : List (UInt8 × Nat) :=
  b.foldr addToRuns []

/-- Gathers runs into segments: a run of at least `least` further copies ends a segment. `literals`
are the bytes of the segment so far, in reverse. The last segment has no copies. -/
def gather (least : Nat) (literals : Bytes) : List (UInt8 × Nat) → List Segment
  | [] => [⟨literals.reverse, 0⟩]
  | (b, n) :: rest =>
    if least < n then ⟨(b :: literals).reverse, n - 1⟩ :: gather least [] rest
    else gather least (List.replicate n b ++ literals) rest

/-- Cuts a byte string into segments, of which all but the last have at least `least` copies. -/
def segments (least : Nat) (b : Bytes) : List Segment :=
  gather least [] (runs b)

end Columnar.Compression
