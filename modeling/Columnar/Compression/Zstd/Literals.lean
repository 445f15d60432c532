import Columnar.Compression.Zstd.Fse

/-!
# Literals

The bytes that a compressed block writes out as they are, and the Huffman codes in which they stand.
-/

namespace Columnar.Compression.Zstd

/-! ## Huffman codes

A code is described by the weights of its symbols: a symbol of weight `w` takes a share of `2 ^ (w -
1)` of the code space, and one of weight zero does not occur. The weight of the last symbol is not
written; it fills the space up to a power of two.

A code is used through a table of what the next few bits stand for: a symbol, or two symbols if the
codes of both fit.
-/

namespace Huffman

/-! ### Codes -/

/-- What the next bits stand for. -/
structure Entry where
  /-- How many bits are used. -/
  bits : Nat
  /-- The symbol. -/
  first : UInt8
  /-- The symbol after it, if there is one. -/
  second : Option UInt8
deriving DecidableEq, Repr, Inhabited

/-- A code. -/
structure Code where
  /-- How many bits are looked at. -/
  width : Nat
  /-- Whether two symbols may be read together. -/
  isPaired : Bool
  /-- An entry for each value of those bits. -/
  entries : Array Entry

/-- The longest codes that are allowed. -/
def maxCodeBits : Nat := 12

/-- The fewest bits that a table is made for. -/
def minWidth : Nat := 11

/-- The share of the code space of a weight. -/
def share (weight : Nat) : Nat :=
  2 ^ weight / 2

/-- The code of the weights of all symbols but the last. -/
def Code.ofWeights? (weights : List Nat) : Option Code :=
  let total := (weights.map share).sum
  if weights.any (maxCodeBits < ·) || total == 0 then none
  else
    let maxBits := total.log2 + 1
    let rest := 2 ^ maxBits - total
    let last := rest.log2 + 1
    let weights := weights ++ [last]
    let ones := weights.count 1
    if maxCodeBits < maxBits || 2 ^ rest.log2 != rest || ones < 2 || ones % 2 != 0 then none
    else
      let width := max minWidth maxBits
      let symbols := weights.zipIdx
      let entries := (List.range maxBits).flatMap fun w =>
        (symbols.filter (·.1 == w + 1)).flatMap fun (weight, symbol) =>
          List.replicate (share weight * 2 ^ (width - maxBits))
            ⟨maxBits + 1 - weight, UInt8.ofNat symbol, none⟩
      some ⟨width, false, entries.toArray⟩

/-- The code with a table of two symbols wherever both fit. -/
def Code.paired (c : Code) : Code :=
  let entries := c.entries.mapIdx fun i e =>
    let next := c.entries.getD (i * 2 ^ e.bits % 2 ^ c.width) default
    if e.bits + next.bits ≤ c.width then ⟨e.bits + next.bits, e.first, some next.first⟩ else e
  { c with isPaired := true, entries }

/-! ### The choice of a table -/

/-- What it takes to make a table and to read 256 symbols with it, for single symbols and then for
pairs, by how many sixteenths of their number the coded symbols take. -/
def costs : Array ((Nat × Nat) × (Nat × Nat)) := #[
  ((0, 0), (1, 1)), ((0, 0), (1, 1)), ((150, 216), (381, 119)), ((170, 205), (514, 112)),
  ((177, 199), (539, 110)), ((197, 194), (644, 107)), ((221, 192), (735, 107)),
  ((256, 189), (881, 106)), ((359, 188), (1167, 109)), ((582, 187), (1570, 114)),
  ((688, 187), (1712, 122)), ((825, 186), (1965, 136)), ((976, 185), (2131, 150)),
  ((1180, 186), (2070, 175)), ((1377, 185), (1731, 202)), ((1412, 185), (1695, 202))]

/-- Whether pairs are worth their larger table for `count` symbols in `size` bytes. They have to be
faster by a margin. -/
def prefersPairs (count size : Nat) : Bool :=
  let (single, pairs) := costs.getD (min (size * 16 / count) 15) ((0, 0), (0, 0))
  let cost (c : Nat × Nat) : Nat := c.1 + c.2 * (count / 256)
  cost pairs + cost pairs / 32 < cost single

/-! ### Descriptions -/

/-- The most weights that can be written. -/
def maxWeights : Nat := 255

/-- The greatest accuracy of a distribution of weights. -/
def maxAccuracy : Nat := 6

/-- The greatest weight that a distribution of an accuracy may name: what is saved in the smaller
tables may be spent on weights that never occur. -/
def maxNamedWeight (accuracy : Nat) : Nat :=
  if accuracy = maxAccuracy then 11 else 91

/-- Reads weights from two states that take turns, up to the bit where one of them cannot go on;
then the other one gives the last weight. Returns them in reverse. -/
def stateWeights? (t : Fse.Table) : (limit : Nat) → (now other : Fse.State) → BackwardBits →
    List Nat → Option (List Nat)
  | 0, _, _, _, _ => none
  | limit + 1, now, other, r, done =>
    match t.next? now r with
    | some (next, r) => stateWeights? t limit other next r (now.symbol :: done)
    | none => some (other.symbol :: now.symbol :: done)

/-- Reads weights that are coded by states. -/
def codedWeights? (b : Array UInt8) : Option (List Nat) := do
  let (accuracy, shares, size) ← Fse.distribution? maxAccuracy 255 b
  if maxNamedWeight accuracy < shares.length - 1 then none
  else
    let table := Fse.Table.ofDistribution accuracy shares
    let r ← BackwardBits.ofBytes? (b.extract size b.size)
    let (first, r) ← table.start? r
    let (second, r) ← table.start? r
    return (← stateWeights? table (maxWeights - 1) first second r []).reverse

/-- Reads `count` weights of four bits each, the higher half of a byte first. -/
def plainWeights (b : Array UInt8) (count : Nat) : List Nat :=
  (List.range count).map fun (i : Nat) =>
    let byte := (b.getD (i / 2) 0).toNat
    if i % 2 = 0 then byte / 16 else byte % 16

/-- Reads a code from its description; returns it with the length of the description. -/
def Code.read? (b : Array UInt8) : Option (Code × Nat) := do
  let head := (← b[0]?).toNat
  let size := if head < 128 then head else (head - 127 + 1) / 2
  if b.size < size + 1 then none
  else
    let body := b.extract 1 (size + 1)
    let weights ← if head < 128 then codedWeights? body else some (plainWeights body (head - 127))
    return (← Code.ofWeights? weights, size + 1)

/-! ## Streams of symbols

The symbols of a Huffman code stand in one stream of bits, or in four that hold equal parts of them.
A stream that is read on its own has to end with its last symbol.

Four streams that are long enough are read together, in rounds of five entries of the table for
each, as long as a round cannot get out of the bytes that hold them; after that each is read to its
end. Nobody asks then whether a stream ends where it should: one that has used up its bits goes on
with those of the stream in front of it.
-/

/-! ### Symbols -/

namespace Code

/-- What the next bits of a tape stand for. -/
def entry (c : Code) (t : Tape) : Entry :=
  c.entries.getD (t.peek c.width) default

/-- Reads `count` symbols, after those already read. The last one may be the first of a pair; then
the bits of the other one need not be there. -/
def symbols (c : Code) : (count : Nat) → Tape → Array UInt8 → Array UInt8 × Tape
  | 0, t, out => (out, t)
  | 1, t, out =>
    let e := c.entry t
    let rest := t.skip e.bits
    (out.push e.first, if e.second.isSome then { rest with beyond := t.beyond } else rest)
  | count + 2, t, out =>
    let e := c.entry t
    match e.second with
    | none => symbols c (count + 1) (t.skip e.bits) (out.push e.first)
    | some second => symbols c count (t.skip e.bits) ((out.push e.first).push second)

/-- Reads a stream of `count` symbols, after those of earlier streams. -/
def stream? (c : Code) (b : Array UInt8) (count : Nat) (out : Array UInt8) :
    Option (Array UInt8) := do
  let (out, t) := c.symbols count (← Tape.ofBytes? b) out
  if t.isDone then some out else none

end Code

/-! ### Rounds -/

/-- One of four streams that are read together. -/
structure Lane where
  /-- The place of its first byte. -/
  start : Nat
  /-- Where the eight bytes end that it is looked at through. -/
  place : Nat
  /-- How many bits are left, down to the first byte of all streams. -/
  left : Nat
  /-- How many symbols it has. -/
  size : Nat
  /-- The symbols that have been read. -/
  out : Array UInt8

namespace Lane

/-- The lane of the bytes from `start` to `stop`. Without a mark in the last byte, all of it
counts. -/
def ofBytes (b : Array UInt8) (start stop size : Nat) : Lane :=
  let last := b.getD (stop - 1) 0
  ⟨start, stop, if last = 0 then 8 * stop else 8 * (stop - 1) + last.toNat.log2, size, #[]⟩

/-- Reads the symbols of one entry. -/
def step (c : Code) (b : Array UInt8) (l : Lane) : Lane :=
  let e := c.entry ⟨⟨b, l.left⟩, 0⟩
  let out := l.out.push e.first
  { l with left := l.left - e.bits, out := match e.second with
    | some second => out.push second
    | none => out }

/-- How many entries are read in a round. -/
def perRound : Nat := 5

/-- Reads the entries of a round, and moves down by the whole bytes that were used. -/
def round (c : Code) (b : Array UInt8) (l : Lane) : Lane :=
  let l := (List.range perRound).foldl (fun l _ => l.step c b) l
  { l with place := (l.left + 7) / 8 }

/-- Reads the symbols that are missing. A lane that has got below its first byte is refused. -/
def finish? (c : Code) (b : Array UInt8) (l : Lane) : Option (Array UInt8) :=
  if l.size < l.out.size || l.place < l.start then none
  else some (c.symbols (l.size - l.out.size) ⟨⟨b, l.left⟩, 0⟩ l.out).1

end Lane

/-- How many rounds can be read without looking at how far they get: a round uses at most seven
bytes, and the first lane has the fewest; it gives at most one symbol for each entry, or two. -/
def safeRounds (c : Code) (lanes : List Lane) : Nat :=
  let symbols := if c.isPaired then 2 * Lane.perRound else Lane.perRound
  lanes.foldl (fun n l => min n ((l.size - l.out.size) / symbols))
    (((lanes.head?.map (·.place)).getD 0 - 8) / 7)

/-- Whether a lane has got below the one in front of it. -/
def areCrossed (lanes : List Lane) : Bool :=
  (lanes.zip lanes.tail).any fun (l, next) => next.place < l.place

/-- Reads rounds until the last lane has `target` symbols, and goes on as long as rounds are
safe. -/
def rounds (c : Code) (b : Array UInt8) : (steps target : Nat) → List Lane → List Lane
  | 0, _, lanes => lanes
  | steps + 1, target, lanes =>
    let written := (lanes.getLast?.map (·.out.size)).getD 0
    if written < target then rounds c b steps target (lanes.map (Lane.round c b))
    else
      let more := safeRounds c lanes
      if more = 0 || areCrossed lanes then lanes
      else rounds c b steps (written + Lane.perRound * more) (lanes.map (Lane.round c b))

/-- The fewest bytes of a stream that is read together with others. -/
def minLane : Nat := 8

/-- Reads four streams one after the other, which hold equal parts of `count` symbols but for the
last; they end at the given places. -/
def Code.separateStreams? (c : Code) (b : Array UInt8) (count second third fourth : Nat) :
    Option (Array UInt8) := do
  let part := (count + 3) / 4
  let out ← c.stream? (b.extract 6 second) part #[]
  let out ← c.stream? (b.extract second third) part out
  let out ← c.stream? (b.extract third fourth) part out
  c.stream? (b.extract fourth b.size) (count - 3 * part) out

/-- Reads four streams, which hold equal parts of `count` symbols but for the last; the lengths of
the first three come first. -/
def Code.fourStreams? (c : Code) (b : Array UInt8) (count : Nat) : Option (Array UInt8) := do
  let size (i : Nat) : Nat := wordAt b (2 * i) 2
  let part := (count + 3) / 4
  let second := 6 + size 0
  let third := second + size 1
  let fourth := third + size 2
  if b.size < 10 || b.size < fourth || count < 3 * part then none
  else if c.width = minWidth && minLane ≤ size 0 && minLane ≤ size 1 && minLane ≤ size 2 &&
      minLane ≤ b.size - fourth && 3 * part < count then
    let lanes := rounds c b count 0 [.ofBytes b 6 second part, .ofBytes b second third part,
      .ofBytes b third fourth part, .ofBytes b fourth b.size (count - 3 * part)]
    return (← lanes.mapM (Lane.finish? c b)).foldl (· ++ ·) #[]
  else c.separateStreams? b count second third fourth

end Huffman

/-! ## The literals of a block

The first section of a compressed block: bytes that its sequences write out. They stand as they are,
as one repeated byte, or in a Huffman code, which is described or the same as before.
-/

/-- The literals of a block, and what is needed to read on. -/
structure Literals where
  /-- The bytes. -/
  bytes : Array UInt8
  /-- The length of the section. -/
  sectionSize : Nat
  /-- Whether they are used where they stand, with enough of the block behind them. -/
  inBlock : Bool
  /-- The code that the next block may use again. -/
  code : Option Huffman.Code

/-- The lengths at the head of a section. -/
structure LiteralsHead where
  /-- The length of the head. -/
  size : Nat
  /-- The number of literals. -/
  count : Nat
  /-- The length of the coded literals, where they are coded. -/
  codedSize : Nat
  /-- Whether coded literals are in four streams. -/
  fourStreams : Bool

/-- The head of a section of plain or repeated literals. -/
def LiteralsHead.plain (b : Array UInt8) : LiteralsHead :=
  let (size, bits) := match bitsAt b 2 2 with
    | 1 => (2, 12)
    | 3 => (3, 20)
    | _ => (1, 5)
  ⟨size, bitsAt b (8 * size - bits) bits, 0, false⟩

/-- The head of a section of coded literals. -/
def LiteralsHead.coded (b : Array UInt8) : LiteralsHead :=
  let (size, bits) := match bitsAt b 2 2 with
    | 2 => (4, 14)
    | 3 => (5, 18)
    | _ => (3, 10)
  ⟨size, bitsAt b 4 bits, bitsAt b (4 + bits) bits, bitsAt b 2 2 != 0⟩

/-- Copies are made in steps of up to this many bytes, which may write beyond their end. -/
def copyMargin : Nat := 32

/-- Reads the code of coded literals, if one is described; returns it with the length of its
description. -/
def readCode? (head : LiteralsHead) (body : Array UInt8) : Option (Huffman.Code × Nat) :=
  (Huffman.Code.read? body).map fun (code, size) =>
    (if head.fourStreams && Huffman.prefersPairs head.count head.codedSize then code.paired
      else code, size)

/-- Reads the literals of a block, at most `limit` of them; `code` is the one of the block
before. -/
def Literals.read? (limit : Nat) (code : Option Huffman.Code) (b : Array UInt8) :
    Option Literals :=
  let kind := bitsAt b 0 2
  if kind < 2 then
    let head := LiteralsHead.plain b
    let size := head.size + if kind = 0 then head.count else 1
    if limit < head.count || b.size < size then none
    else if kind = 0 then some ⟨b.extract head.size size, size, size + copyMargin ≤ b.size, code⟩
    else some ⟨Array.replicate head.count (b.getD head.size 0), size, false, code⟩
  else do
    let head := LiteralsHead.coded b
    if b.size < 5 || limit < head.count || b.size < head.size + head.codedSize ||
        (head.fourStreams && head.count < 6) then none
    else
      let body := b.extract head.size (head.size + head.codedSize)
      let (code, size) ← if kind = 2 then readCode? head body else code.map fun c => (c, 0)
      let body := body.extract size body.size
      let bytes ←
        if head.fourStreams then code.fourStreams? body head.count
        else code.stream? body head.count #[]
      return ⟨bytes, head.size + head.codedSize, false, some code⟩

end Columnar.Compression.Zstd
