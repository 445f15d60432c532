import Columnar.Compression.Runs
import Columnar.Compression.Zstd.Fse

/-!
# Sequences

The copies that a compressed block makes of earlier content: how far back they reach, how they are
coded, and how they are carried out.
-/

namespace Columnar.Compression.Zstd

/-! ## The content of a frame, and how far back copies reach

The content of a frame is written out through a buffer. Where the rest of the buffer is too short
for another block, writing begins again at its front; what is written in between is a *turn*. Copies
reach back through the present turn and on into the one before it, at the places that its bytes had
in the buffer. Those at the front have been overwritten by the present turn: a copy from there gets
the new bytes.

A buffer holds more than a window, so copies that stay within the window never meet overwritten
bytes.
-/

/-- The content of a frame so far. -/
structure History where
  /-- The content. -/
  content : Array UInt8
  /-- Where in the content the present turn begins. -/
  turn : Nat
  /-- How many bytes the turn before it has. -/
  before : Nat
deriving DecidableEq, Repr

namespace History

/-- The history at the beginning of a frame. -/
def empty : History := ⟨#[], 0, 0⟩

/-- The length of the content. -/
def size (h : History) : Nat :=
  h.content.size

/-- How many bytes the present turn has. -/
def written (h : History) : Nat :=
  h.size - h.turn

/-- Begins a new turn. -/
def nextTurn (h : History) : History :=
  { h with turn := h.size, before := h.written }

/-- Appends bytes. -/
def append (h : History) (b : Array UInt8) : History :=
  { h with content := h.content ++ b }

/-- The byte at a place of the buffer: of the present turn, if that has got there. -/
def byteAt (h : History) (place : Nat) : UInt8 :=
  if place < h.written then h.content.getD (h.turn + place) 0
  else h.content.getD (h.turn - h.before + place) 0

/-- Appends `length` bytes, copied from `offset` places before, unless that is out of reach. The
part of them that lies in the turn before is looked at before anything is written. -/
def copy? (h : History) (offset length : Nat) : Option History :=
  if offset = 0 || h.written + h.before < offset then none
  else if offset ≤ h.written then some { h with content := copyBack offset length h.content }
  else
    let place := h.written + h.before - offset
    let front := (Array.range (min length (offset - h.written))).map fun i => h.byteAt (place + i)
    some { h with content := copyBack offset (length - front.size) (h.content ++ front) }

/-- Bytes that are put behind the history count as part of it. -/
@[simp] theorem size_append (h : History) (b : Array UInt8) :
    (h.append b).size = h.size + b.size := by
  simp [append, size]

/-- A copy has the length that was asked for. -/
theorem size_copy? {h k : History} {offset length : Nat} (hk : h.copy? offset length = some k) :
    k.size = h.size + length := by
  unfold copy? at hk
  split at hk
  · simp at hk
  · split at hk <;> simp only [Option.some.injEq] at hk <;> subst hk
    · simp [size]
    · simp only [size, size_copyBack, Array.size_append, Array.size_map, Array.size_range]
      omega

end History

/-! ## The sequences of a block

The second section of a compressed block: how many literals to write out, and which earlier bytes to
copy then. Three tables of states give the codes of the three numbers of a sequence; further bits
complete them. The three last distances are kept and have short codes.
-/

/-- A sequence as it is coded. -/
structure Sequence where
  /-- How many literals are written out. -/
  literals : Nat
  /-- How many bytes are copied. -/
  length : Nat
  /-- A distance plus three, or the number of a kept distance. -/
  offset : Nat
deriving DecidableEq, Repr

/-! ### Codes -/

/-- Least value and number of further bits of each code. -/
abbrev CodeTable := Array (Nat × Nat)

/-- The codes that stand for `least` and further numbers in order, followed by wider ones, each
given by the number of its bits. -/
def CodeTable.ofWidths (least plain : Nat) (widths : List Nat) : CodeTable :=
  (widths.foldl (fun (codes, value) width => (codes.push (value, width), value + 2 ^ width))
    (((List.range plain).map fun (i : Nat) => (least + i, 0)).toArray, least + plain)).1

/-- The codes of numbers of literals. -/
def literalCodes : CodeTable :=
  (CodeTable.ofWidths 0 16 [1, 1, 1, 1, 2, 2, 3, 3, 4]) ++
    #[(64, 6), (128, 7), (256, 8), (512, 9), (1024, 10), (2048, 11), (4096, 12), (8192, 13),
      (16384, 14), (32768, 15), (65536, 16)]

/-- The codes of lengths of copies. -/
def lengthCodes : CodeTable :=
  (CodeTable.ofWidths 3 32 [1, 1, 1, 1, 2, 2, 3, 3, 4, 4, 5]) ++
    #[(131, 7), (259, 8), (515, 9), (1027, 10), (2051, 11), (4099, 12), (8195, 13), (16387, 14),
      (32771, 15), (65539, 16)]

/-! ### Tables -/

/-- The distribution of the codes of numbers of literals that is used unless another is given. -/
def defaultLiterals : Fse.Table :=
  .ofDistribution 6 [4, 3, 2, 2, 2, 2, 2, 2, 2, 2, 2, 2, 2, 1, 1, 1, 2, 2, 2, 2, 2, 2, 2, 2, 2, 3,
    2, 1, 1, 1, 1, 1, -1, -1, -1, -1]

/-- The distribution of the codes of lengths that is used unless another is given. -/
def defaultLengths : Fse.Table :=
  .ofDistribution 6 ([1, 4, 3, 2, 2, 2, 2, 2, 2] ++ List.replicate 37 1 ++ List.replicate 7 (-1))

/-- The distribution of the codes of distances that is used unless another is given. -/
def defaultOffsets : Fse.Table :=
  .ofDistribution 5 ([1, 1, 1, 1, 1, 1, 2, 2, 2] ++ List.replicate 15 1 ++ List.replicate 5 (-1))

/-- The tables of a block. -/
structure SequenceTables where
  /-- For numbers of literals. -/
  literals : Fse.Table
  /-- For distances. -/
  offsets : Fse.Table
  /-- For lengths. -/
  lengths : Fse.Table

/-- Reads the table of one of the numbers, in the given mode, from a place on; returns it with the
place behind it. `before` is the table of the block before. -/
def readTable? (mode : Nat) (standard : Fse.Table) (before : Option Fse.Table)
    (maxAccuracy maxSymbol : Nat) (b : Array UInt8) (place : Nat) : Option (Fse.Table × Nat) :=
  match mode with
  | 0 => some (standard, place)
  | 1 =>
    match b[place]? with
    | some symbol =>
      if maxSymbol < symbol.toNat then none else some (.single symbol.toNat, place + 1)
    | none => none
  | 2 => (Fse.Table.read? maxAccuracy maxSymbol (b.extract place b.size)).map fun (t, size) =>
    (t, place + size)
  | _ => before.map fun t => (t, place)

/-- Reads the number of sequences from a place on; returns it with the place behind it. -/
def sequenceCount? (b : Array UInt8) (place : Nat) : Option (Nat × Nat) := do
  let head := (← b[place]?).toNat
  if head < 128 then return (head, place + 1)
  else
    let second := (← b[place + 1]?).toNat
    if head < 255 then return ((head - 128) * 256 + second, place + 2)
    else return (second + 256 * (← b[place + 2]?).toNat + 0x7F00, place + 3)

/-- Reads the modes and tables of a section from a place on; returns them with the place behind
them. -/
def SequenceTables.read? (before : Option SequenceTables) (b : Array UInt8) (place : Nat) :
    Option (SequenceTables × Nat) := do
  let modes := (← b[place]?).toNat
  if modes % 4 ≠ 0 then none
  else
    let (literals, place) ←
      readTable? (modes / 64) defaultLiterals (before.map (·.literals)) 9 35 b (place + 1)
    let (offsets, place) ←
      readTable? (modes / 16 % 4) defaultOffsets (before.map (·.offsets)) 8 31 b place
    let (lengths, place) ←
      readTable? (modes / 4 % 4) defaultLengths (before.map (·.lengths)) 9 52 b place
    return (⟨literals, offsets, lengths⟩, place)

/-! ### Sequences -/

/-- The states of the three numbers. -/
structure SequenceStates where
  /-- For the number of literals. -/
  literals : Fse.State
  /-- For the distance. -/
  offset : Fse.State
  /-- For the length. -/
  length : Fse.State

/-- Reads the first states. -/
def SequenceTables.start? (t : SequenceTables) (r : BackwardBits) :
    Option (SequenceStates × BackwardBits) := do
  let (literals, r) ← t.literals.start? r
  let (offset, r) ← t.offsets.start? r
  let (length, r) ← t.lengths.start? r
  return (⟨literals, offset, length⟩, r)

/-- Reads the states after some states. -/
def SequenceTables.next? (t : SequenceTables) (s : SequenceStates) (r : BackwardBits) :
    Option (SequenceStates × BackwardBits) := do
  let (literals, r) ← t.literals.next? s.literals r
  let (length, r) ← t.lengths.next? s.length r
  let (offset, r) ← t.offsets.next? s.offset r
  return (⟨literals, offset, length⟩, r)

/-- Reads the further bits of the numbers that states stand for. -/
def SequenceStates.sequence? (s : SequenceStates) (r : BackwardBits) :
    Option (Sequence × BackwardBits) := do
  let (offset, r) ← r.read? s.offset.symbol
  let (lengthBase, lengthBits) := lengthCodes.getD s.length.symbol (0, 0)
  let (length, r) ← r.read? lengthBits
  let (literalsBase, literalsBits) := literalCodes.getD s.literals.symbol (0, 0)
  let (literals, r) ← r.read? literalsBits
  return (⟨literalsBase + literals, lengthBase + length, 2 ^ s.offset.symbol + offset⟩, r)

/-- Reads `count + 1` sequences, after those already read in reverse. The last one must end with the
bits. -/
def sequences? (t : SequenceTables) : (count : Nat) → SequenceStates → BackwardBits →
    List Sequence → Option (List Sequence)
  | 0, s, r, done =>
    match s.sequence? r with
    | some (q, r) => if r.left = 0 then some (q :: done).reverse else none
    | none => none
  | count + 1, s, r, done =>
    match s.sequence? r with
    | none => none
    | some (q, r) =>
      match t.next? s r with
      | some (s, r) => sequences? t count s r (q :: done)
      | none => none

/-- Reads the section of sequences from a place on; returns them with the tables that the next block
may use again. -/
def readSequences? (before : Option SequenceTables) (b : Array UInt8) (place : Nat) :
    Option (List Sequence × Option SequenceTables) := do
  let (count, place) ← sequenceCount? b place
  match count with
  | 0 => if place = b.size then return ([], before) else none
  | count + 1 =>
    let (tables, place) ← SequenceTables.read? before b place
    let r ← BackwardBits.ofBytes? (b.extract place b.size)
    let (states, r) ← tables.start? r
    return (← sequences? tables count states r [], some tables)

/-! ### Execution -/

/-- The distances that are kept, latest first. -/
structure KeptOffsets where
  /-- The latest. -/
  first : Nat
  /-- The one before. -/
  second : Nat
  /-- The one before that. -/
  third : Nat

/-- The distances at the beginning of a frame. -/
def KeptOffsets.initial : KeptOffsets := ⟨1, 4, 8⟩

/-- The distance of a sequence, and the distances kept after it. Without literals the numbers of
kept distances shift by one, and the last stands for one less than the latest. -/
def KeptOffsets.resolve (k : KeptOffsets) (s : Sequence) : Nat × KeptOffsets :=
  if 3 < s.offset then (s.offset - 3, ⟨s.offset - 3, k.first, k.second⟩)
  else
    match s.offset + if s.literals = 0 then 1 else 0 with
    | 1 => (k.first, k)
    | 2 => (k.second, ⟨k.second, k.first, k.third⟩)
    | 3 => (k.third, ⟨k.third, k.first, k.second⟩)
    | _ => (k.first - 1, ⟨k.first - 1, k.first, k.second⟩)

/-- What a sequence does. -/
structure Copy where
  /-- How many literals are written out. -/
  literals : Nat
  /-- How many bytes are copied. -/
  length : Nat
  /-- From how far back they are copied. -/
  distance : Nat
deriving DecidableEq, Repr

/-- What sequences do, and the distances kept after them; `resolve` gives the distance of one. -/
def KeptOffsets.copies (resolve : KeptOffsets → Sequence → Nat × KeptOffsets) (k : KeptOffsets) :
    List Sequence → List Copy × KeptOffsets
  | [] => ([], k)
  | s :: rest =>
    let (distance, k) := resolve k s
    let (copies, k) := k.copies resolve rest
    (⟨s.literals, s.length, distance⟩ :: copies, k)

/-- Does what sequences do to the content so far, which may grow to `limit` bytes; `place` is the
number of literals already written out. Behind the literals of a sequence there has to be room for
`margin` bytes at least. -/
def execute? (margin limit : Nat) (literals : Array UInt8) : (place : Nat) → History → List Copy →
    Option History
  | place, h, [] =>
    let h := h.append (literals.extract place literals.size)
    if limit < h.size then none else some h
  | place, h, c :: rest =>
    if literals.size < place + c.literals ||
        limit < h.size + c.literals + max margin c.length then none
    else
      match (h.append (literals.extract place (place + c.literals))).copy? c.distance c.length with
      | some h => execute? margin limit literals (place + c.literals) h rest
      | none => none

end Columnar.Compression.Zstd
