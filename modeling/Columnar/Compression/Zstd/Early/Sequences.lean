import Columnar.Compression.Zstd.Early.Literals
import Columnar.Compression.Zstd.Sequences

/-!
# The sequences of blocks of early revisions

From revision six on the codes of the numbers are those of later revisions. Revision five has the
numbers themselves in its tables; those too long for a table are told by bytes of their own, which
stand in front of the tables. Nobody asks whether the bits end with the last sequence, which may
even use more than there are; there have to be bits left, or just none, in front of every sequence.
-/

namespace Columnar.Compression.Zstd.Early

/-- The ways in which tables are given. -/
inductive Mode where
  /-- The usual table. -/
  | standard
  /-- One symbol only. -/
  | single
  /-- The table of the block before. -/
  | again
  /-- A description. -/
  | described
deriving DecidableEq, Repr

/-- The mode of a number of two bits. -/
def Mode.ofNumber (n : Nat) : Mode :=
  match n % 4 with
  | 0 => standard
  | 1 => single
  | 2 => again
  | _ => described

/-- Reads the table of one of the numbers from a place on; returns it with the place behind it.
`before` is the table of the block before. -/
def readTable? (mode : Mode) (standard : Fse.Table) (before : Option Fse.Table)
    (maxAccuracy maxSymbol : Nat) (b : Array UInt8) (place : Nat) : Option (Fse.Table × Nat) :=
  match mode with
  | .standard => some (standard, place)
  | .single =>
    match b[place]? with
    | some symbol =>
      if maxSymbol < symbol.toNat then none else some (.single symbol.toNat, place + 1)
    | none => none
  | .again => before.map fun t => (t, place)
  | .described =>
    (Fse.Table.read? maxAccuracy maxSymbol (b.extract place b.size)).map fun (t, size) =>
      (t, place + size)

/-- Reads the next bits, whether there are as many or not. -/
def read (tape : Tape) (count : Nat) : Nat × Tape :=
  (tape.peek count, tape.skip count)

/-- Reads the first state of a table. -/
def start (t : Fse.Table) (tape : Tape) : Fse.State × Tape :=
  let (n, tape) := read tape t.accuracy
  (t.states.getD n default, tape)

/-- Reads the state after a state. -/
def next (t : Fse.Table) (s : Fse.State) (tape : Tape) : Fse.State × Tape :=
  let (n, tape) := read tape s.bits
  (t.states.getD (s.base + n) default, tape)

/-- Reads the first states. -/
def startAll (t : SequenceTables) (tape : Tape) : SequenceStates × Tape :=
  let (literals, tape) := start t.literals tape
  let (offset, tape) := start t.offsets tape
  let (length, tape) := start t.lengths tape
  (⟨literals, offset, length⟩, tape)

/-- The modes of a byte, for numbers of literals, distances and lengths. -/
def modes (byte : Nat) : Mode × Mode × Mode :=
  (.ofNumber (byte / 64), .ofNumber (byte / 16), .ofNumber (byte / 4))

/-! ### Codes -/

/-- The greatest code of a distance. -/
def maxOffsetCode : Nat := 28

/-- Reads the tables of a section from a place on; returns them with the place behind them. -/
def readTables? (before : Option SequenceTables) (b : Array UInt8) (place : Nat) :
    Option (SequenceTables × Nat) := do
  if b.size < place + 4 then none
  else
    let (forLiterals, forOffsets, forLengths) := modes (b.getD place 0).toNat
    let (literals, place) ←
      readTable? forLiterals defaultLiterals (before.map (·.literals)) 9 35 b (place + 1)
    let (offsets, place) ←
      readTable? forOffsets defaultOffsets (before.map (·.offsets)) 8 maxOffsetCode b place
    let (lengths, place) ←
      readTable? forLengths defaultLengths (before.map (·.lengths)) 9 52 b place
    return (⟨literals, offsets, lengths⟩, place)

/-- Reads the further bits of the numbers that states stand for. -/
def sequence (s : SequenceStates) (tape : Tape) : Sequence × Tape :=
  let (offset, tape) := read tape s.offset.symbol
  let (lengthBase, lengthBits) := lengthCodes.getD s.length.symbol (0, 0)
  let (length, tape) := read tape lengthBits
  let (literalsBase, literalsBits) := literalCodes.getD s.literals.symbol (0, 0)
  let (literals, tape) := read tape literalsBits
  (⟨literalsBase + literals, lengthBase + length, 2 ^ s.offset.symbol + offset⟩, tape)

/-- Reads the states after some states. -/
def nextAll (t : SequenceTables) (s : SequenceStates) (tape : Tape) : SequenceStates × Tape :=
  let (literals, tape) := next t.literals s.literals tape
  let (length, tape) := next t.lengths s.length tape
  let (offset, tape) := next t.offsets s.offset tape
  (⟨literals, offset, length⟩, tape)

/-- Reads `count` sequences, after those already read in reverse. -/
def sequences? (t : SequenceTables) : (count : Nat) → SequenceStates → Tape → List Sequence →
    Option (List Sequence)
  | 0, _, _, done => some done.reverse
  | count + 1, s, tape, done =>
    if 0 < tape.beyond then none
    else
      let (q, tape) := sequence s tape
      let (s, tape) := nextAll t s tape
      sequences? t count s tape (q :: done)

/-- The distance of a sequence, and the distances kept after it. Without literals the latest two
kept distances change their numbers. -/
def resolve (k : KeptOffsets) (s : Sequence) : Nat × KeptOffsets :=
  if 3 < s.offset then (s.offset - 3, ⟨s.offset - 3, k.first, k.second⟩)
  else
    match if s.literals = 0 ∧ s.offset ≤ 2 then 3 - s.offset else s.offset with
    | 1 => (k.first, k)
    | 2 => (k.second, ⟨k.second, k.first, k.third⟩)
    | _ => (k.third, ⟨k.third, k.first, k.second⟩)

/-! ### Plain numbers -/

/-- The table of numbers of so many bits. -/
def plainTable (bits : Nat) : Fse.Table :=
  ⟨bits, ((List.range (2 ^ bits)).map fun i => ⟨i, bits, 0⟩).toArray⟩

/-- The greatest number of literals that is in a table. -/
def maxPlainLiterals : Nat := 63

/-- The greatest length, less the shortest one, that is in a table. -/
def maxPlainLength : Nat := 127

/-- The shortest copy. -/
def minPlainLength : Nat := 4

/-- The greatest code of a distance. -/
def maxPlainOffset : Nat := 31

/-- Where the bytes of numbers that are too long for a table stand in a block. -/
structure Further where
  /-- The place of the next one. -/
  place : Nat
  /-- The place behind them. -/
  stop : Nat

/-- Reads what follows a number that is the greatest one of its table: a byte that is added to it,
or else two or three that are twice the number, and whether there is a third. The last byte is read
again and again. -/
def Further.number (b : Array UInt8) (greatest add : Nat) (f : Further) : Nat × Further :=
  let place := f.place + 1
  let (n, place) :=
    if add < 255 then (greatest + add, place)
    else if f.stop < place + 2 then (greatest, place)
    else
      let word := wordAt b place 2
      if word % 2 = 1 && place + 2 < f.stop then
        ((word + 65536 * (b.getD (place + 2) 0).toNat) / 2, place + 3)
      else (word / 2, place + 2)
  (n, { f with place := min place (f.stop - 1) })

/-- Reads the number of literals of a symbol. Nobody asks whether there is a further byte. -/
def Further.literals (b : Array UInt8) (symbol : Nat) (f : Further) : Nat × Further :=
  if symbol = maxPlainLiterals then f.number b symbol (b.getD f.place 0).toNat else (symbol, f)

/-- Reads the length of a symbol, less the shortest one. -/
def Further.length (b : Array UInt8) (symbol : Nat) (f : Further) : Nat × Further :=
  if symbol = maxPlainLength then
    f.number b symbol (if f.place < f.stop then (b.getD f.place 0).toNat else 0)
  else (symbol, f)

/-- The last distance, and the one that is taken for it where there are no literals. -/
structure LastOffsets where
  /-- The last one. -/
  last : Nat
  /-- The other one. -/
  other : Nat

/-- The first code of a distance that has bits but no power of two. -/
def firstSmallOffset : Nat := 27

/-- Reads `count` sequences of plain numbers of the block `b`. -/
def plainCopies? (t : SequenceTables) (b : Array UInt8) : (count : Nat) → SequenceStates → Tape →
    LastOffsets → Further → List Copy → Option (List Copy)
  | 0, _, _, _, _, done => some done.reverse
  | count + 1, s, tape, k, further, done =>
    if 0 < tape.beyond then none
    else
      let (literals, further) := further.literals b s.literals.symbol
      let code := s.offset.symbol
      let (low, tape) := read tape (code - 1)
      let distance :=
        if code ≠ 0 then (if code < firstSmallOffset then 2 ^ (code - 1) else 1) + low
        else if s.literals.symbol = 0 then k.other
        else k.last
      let other := if code ≠ 0 ∨ literals = 0 then k.last else k.other
      let (offsetState, tape) := next t.offsets s.offset tape
      let (literalsState, tape) := next t.literals s.literals tape
      let (length, further) := further.length b s.length.symbol
      let (lengthState, tape) := next t.lengths s.length tape
      plainCopies? t b count ⟨literalsState, offsetState, lengthState⟩ tape ⟨distance, other⟩
        further (⟨literals, length + minPlainLength, distance⟩ :: done)

/-- Reads the table of one of the plain numbers from a place on. A symbol alone is taken as it
is. -/
def readPlainTable? (mode : Mode) (bits maxAccuracy maxSymbol : Nat) (b : Array UInt8)
    (place : Nat) : Option (Fse.Table × Nat) :=
  match mode with
  | .single => (b[place]?).map fun symbol => (.single symbol.toNat, place + 1)
  | _ => readTable? mode (plainTable bits) none maxAccuracy maxSymbol b place

/-- The table of distances, whose symbol, where it is alone, is taken without its upper bits. -/
def maskedOffsets (mode : Mode) (t : Fse.Table) : Fse.Table :=
  if mode = .single then .single ((t.states.getD 0 default).symbol % (maxPlainOffset + 1)) else t

/-- Reads the tables of a section of plain numbers from a place on, with the bytes in front of
them. -/
def readPlainTables? (b : Array UInt8) (place : Nat) : Option (SequenceTables × Further × Nat) := do
  let head := (← b[place]?).toNat
  let second := (← b[place + 1]?).toNat
  let (size, place) ←
    if head / 2 % 2 = 1 then
      (b[place + 2]?).map fun third => (third.toNat + 256 * second, place + 3)
    else some (second + 256 * (head % 2), place + 2)
  let further : Further := ⟨place, place + size⟩
  if b.size < further.stop + 3 then none
  else
    let (forLiterals, forOffsets, forLengths) := modes head
    let (literals, place) ← readPlainTable? forLiterals 6 10 maxPlainLiterals b further.stop
    let (offsets, place) ← readPlainTable? forOffsets 5 9 maxPlainOffset b place
    let (lengths, place) ← readPlainTable? forLengths 7 10 maxPlainLength b place
    return (⟨literals, maskedOffsets forOffsets offsets, lengths⟩, further, place)

/-- The number of sequences of a section of plain numbers, and the place behind it. -/
def plainCount? (b : Array UInt8) (place : Nat) : Option (Nat × Nat) := do
  let head := (← b[place]?).toNat
  if head < 128 then return (head, place + 1)
  else return ((head - 128) * 256 + (← b[place + 1]?).toNat, place + 2)

/-! ### Sections -/

/-- What the sequences of a block do, and what the next block may use of them. -/
structure Section where
  /-- What they do. -/
  copies : List Copy
  /-- Their tables. -/
  tables : Option SequenceTables
  /-- The distances kept after them. -/
  offsets : KeptOffsets

/-- The distances at the beginning of a block of revision six. -/
def initialOffsets : KeptOffsets := ⟨1, 1, 1⟩

/-- Reads the section of sequences from a place on. Tables and distances are kept from block to
block from revision seven on. -/
def readSection? (r : Revision) (tables : Option SequenceTables) (offsets : KeptOffsets)
    (b : Array UInt8) (place : Nat) : Option Section := do
  let unchanged := Section.mk [] tables offsets
  if b[place]? = some 0 then return unchanged
  else
    match r with
    | .four => failure
    | .five =>
      let (count, place) ← plainCount? b place
      let (t, further, place) ← readPlainTables? b place
      if count = 0 then return unchanged
      else
        let (states, tape) := startAll t (← Tape.ofBytes? (b.extract place b.size))
        return { unchanged with copies := ← plainCopies? t b count states tape ⟨1, 1⟩ further [] }
    | .six | .seven =>
      let isLast := r = .seven
      let (count, place) ← sequenceCount? b place
      let (t, place) ← readTables? (if isLast then tables else none) b place
      if count = 0 then return unchanged
      else
        let (states, tape) := startAll t (← Tape.ofBytes? (b.extract place b.size))
        let all ← sequences? t count states tape []
        let (copies, offsets) := (if isLast then offsets else initialOffsets).copies resolve all
        return ⟨copies, some t, offsets⟩

end Columnar.Compression.Zstd.Early
