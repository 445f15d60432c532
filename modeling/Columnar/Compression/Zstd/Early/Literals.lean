import Columnar.Compression.Zstd.Literals

/-!
# Early revisions: heads and literals

The early revisions of the format, the heads of their frames, and the literals of their blocks.
-/

namespace Columnar.Compression.Zstd.Early

/-! ## Early revisions of the format

Frames of revisions four to seven begin with numbers of their own. Their heads say less than those
of later frames, and nothing that they say about the length of the content is looked at.
-/

/-- The early revisions. -/
inductive Revision where
  /-- Revision four. -/
  | four
  /-- Revision five. -/
  | five
  /-- Revision six. -/
  | six
  /-- Revision seven. -/
  | seven
deriving DecidableEq, Repr

namespace Revision

/-- All early revisions. -/
def all : List Revision :=
  [four, five, six, seven]

/-- The number that begins a frame. -/
def magic : Revision → Nat
  | four => 0xFD2FB524
  | five => 0xFD2FB525
  | six => 0xFD2FB526
  | seven => 0xFD2FB527

/-- The revision of a number that begins a frame. -/
def ofMagic? (n : Nat) : Option Revision :=
  all.find? (·.magic == n)

/-- A revision of the format is known by its first bytes. -/
@[simp] theorem ofMagic?_magic (r : Revision) : ofMagic? r.magic = some r := by
  cases r <;> rfl

end Revision

/-! ### Heads -/

/-- The head of a frame. -/
structure Head where
  /-- The size of the buffer through which content is written out. -/
  buffer : Nat
  /-- The greatest length of a block that the buffer makes room for. -/
  blockLimit : Nat
  /-- Whether a check stands at the end. -/
  hasChecksum : Bool
deriving DecidableEq, Repr

/-- The largest block. -/
def maxBlock : Nat := 2 ^ 17

/-- Copies are made in steps of so many bytes, which may write beyond their end. -/
def copyMargin : Nat := 8

/-- The head of a frame with a window, the buffer of which has room for a block and margins
besides. -/
def Head.ofWindow (window : Nat) (hasChecksum : Bool) : Head :=
  let blockLimit := min window maxBlock
  ⟨window + blockLimit + 2 * copyMargin, blockLimit, hasChecksum⟩

/-- The largest window of a frame of revision seven. -/
def maxWindow : Nat := 2 ^ 27

/-- The smallest window of a frame of revision seven. -/
def minWindow : Nat := 2 ^ 10

/-- Reads the head of a frame of revision four or five: the window, which is also the buffer. -/
def Head.readPlain (b : Bytes) : Except Fault (Head × Bytes) := do
  let (descriptor, b) ← cut 1 b
  let d := Bytes.toNat descriptor
  if 16 ≤ d then throw .reservedBits
  return (⟨2 ^ (d + 11), maxBlock, false⟩, b)

/-- Reads the head of a frame of revision six: the window, and the length of the content. -/
def Head.readSized (b : Bytes) : Except Fault (Head × Bytes) := do
  let (descriptor, b) ← cut 1 b
  let d := Bytes.toNat descriptor
  if d / 32 % 2 ≠ 0 then throw .reservedBits
  let (_, b) ← cut (#[0, 1, 2, 8].getD (d / 64) 0) b
  return (.ofWindow (2 ^ (d % 16 + 12)) false, b)

/-- Reads the head of a frame of revision seven: the window, unless the whole content is one, a
dictionary, and the length of the content. -/
def Head.readFull (b : Bytes) : Except Fault (Head × Bytes) := do
  let (descriptor, b) ← cut 1 b
  let d := Bytes.toNat descriptor
  if d / 8 % 2 ≠ 0 then throw .reservedBits
  let isSingle := d / 32 % 2 = 1
  let (window, b) ← cut (if isSingle then 0 else 1) b
  let w := Bytes.toNat window
  let (id, b) ← cut (#[0, 1, 2, 4].getD (d % 4) 0) b
  let sizeBytes := if d / 64 = 0 ∧ isSingle then 1 else #[0, 2, 4, 8].getD (d / 64) 0
  let (size, b) ← cut sizeBytes b
  let size := Bytes.toNat size + if sizeBytes = 2 then 256 else 0
  let window :=
    if isSingle then size % 2 ^ 32 else 2 ^ (w / 8 + 10) + 2 ^ (w / 8 + 10) / 8 * (w % 8)
  if maxWindow < window then throw (.windowTooLarge window)
  if Bytes.toNat id ≠ 0 then throw (.dictionary (Bytes.toNat id))
  return (.ofWindow (max window minWindow) (d / 4 % 2 = 1), b)

/-- Reads the head of a frame, after its magic number. -/
def Head.read : Revision → Bytes → Except Fault (Head × Bytes)
  | .four | .five => Head.readPlain
  | .six => Head.readSized
  | .seven => Head.readFull

/-! ## The literals of blocks of early revisions

The head of the section is a number, most significant byte first. The literals stand as they are, as
one repeated byte, or in a Huffman code. Two ways to describe a code are gone since: all symbols
alike, and weights whose states say themselves where they end.

Of revision four, only plain blocks are read.
-/

open Huffman (Code)

/-! ### Codes -/

/-- Numbers of symbols that have a description of one byte, if all but the last have the weight
one. -/
def evenCounts : Array Nat :=
  #[1, 2, 3, 4, 7, 8, 15, 16, 31, 32, 63, 64, 127, 128]

/-- The first of those descriptions. -/
def firstEven : Nat := 242

/-- The greatest accuracy of a distribution of weights. -/
def maxAccuracy : Nat := 12

/-- Reads weights from two states that take turns, given by their numbers. They end with the bits,
when the next one to tell its symbol is zero. Returns them in reverse. -/
def closedWeights? (t : Fse.Table) : (limit : Nat) → (now other : Nat) → Tape → List Nat →
    Option (List Nat)
  | limit, now, other, tape, done =>
    if 0 < tape.beyond then none
    else if tape.isDone && now = 0 then if other = 0 then some done else none
    else
      match limit with
      | 0 => none
      | limit + 1 =>
        let s := t.states.getD now default
        closedWeights? t limit other (s.base + tape.peek s.bits) (tape.skip s.bits)
          (s.symbol :: done)

/-- Reads weights from two states that take turns, up to the bit where one of them cannot go on;
then the other one gives the last weight. Returns them in reverse. -/
def openWeights? (t : Fse.Table) : (limit : Nat) → (now other : Nat) → Tape → List Nat →
    Option (List Nat)
  | 0, _, _, _, _ => none
  | limit + 1, now, other, tape, done =>
    let s := t.states.getD now default
    let next := tape.skip s.bits
    if 0 < next.beyond then some ((t.states.getD other default).symbol :: s.symbol :: done)
    else openWeights? t limit other (s.base + tape.peek s.bits) next (s.symbol :: done)

/-- Reads weights that are coded by states. -/
def codedWeights? (r : Revision) (b : Array UInt8) : Option (List Nat) := do
  let (table, size) ← Fse.Table.read? maxAccuracy 255 b
  let tape ← Tape.ofBytes? (b.extract size b.size)
  let first := tape.peek table.accuracy
  let tape := tape.skip table.accuracy
  let second := tape.peek table.accuracy
  let tape := tape.skip table.accuracy
  let weights ← match r with
    | .four => none
    | .five => closedWeights? table Huffman.maxWeights first second tape []
    | .six | .seven => openWeights? table (Huffman.maxWeights - 1) first second tape []
  return weights.reverse

/-- Reads a code from its description; returns it with the length of the description. -/
def readCode? (r : Revision) (b : Array UInt8) : Option (Code × Nat) := do
  let head := (← b[0]?).toNat
  if firstEven ≤ head then
    return (← Code.ofWeights? (List.replicate (evenCounts.getD (head - firstEven) 0) 1), 1)
  else if head < 128 then
    if b.size < head + 1 then none
    else return (← Code.ofWeights? (← codedWeights? r (b.extract 1 (head + 1))), head + 1)
  else Code.read? b

/-! ### The choice of a table -/

/-- What it takes to make a table and to read 256 symbols with it, for single symbols and then for
pairs, by how many sixteenths of their number the coded symbols take. -/
def costs : Array ((Nat × Nat) × (Nat × Nat)) := #[
  ((0, 0), (1, 1)), ((0, 0), (1, 1)), ((38, 130), (1313, 74)), ((448, 128), (1353, 74)),
  ((556, 128), (1353, 74)), ((714, 128), (1418, 74)), ((883, 128), (1437, 74)),
  ((897, 128), (1515, 75)), ((926, 128), (1613, 75)), ((947, 128), (1729, 77)),
  ((1107, 128), (2083, 81)), ((1177, 128), (2379, 87)), ((1242, 128), (2415, 93)),
  ((1349, 128), (2644, 106)), ((1455, 128), (2422, 124)), ((722, 128), (1891, 145))]

/-- Whether pairs are worth their larger table for `count` symbols in `size` bytes. -/
def prefersPairs (count size : Nat) : Bool :=
  let (single, pairs) := costs.getD (size * 16 / count) ((0, 0), (0, 0))
  let cost (c : Nat × Nat) : Nat := c.1 + c.2 * (count / 256)
  cost pairs + cost pairs / 8 < cost single

/-! ### Literals -/

/-- The literals of a block, and what is needed to read on. -/
structure Literals where
  /-- The bytes. -/
  bytes : Array UInt8
  /-- The length of the section. -/
  sectionSize : Nat
  /-- The code that the next block may use again. -/
  code : Option Code

/-- The head of a section. -/
structure LiteralsHead where
  /-- The length of the head. -/
  size : Nat
  /-- The number of literals. -/
  count : Nat
  /-- The length of the coded literals, where they are coded. -/
  codedSize : Nat
  /-- Whether coded literals are in one stream. -/
  isSingle : Bool

/-- The number of the first `size` bytes, most significant first. -/
def leading (b : Array UInt8) (size : Nat) : Nat :=
  (List.range size).foldl (fun n i => 256 * n + (b.getD i 0).toNat) 0

/-- The head of a section of plain or repeated literals. -/
def LiteralsHead.plain (b : Array UInt8) : LiteralsHead :=
  let (size, bits) := match leading b 1 / 16 % 4 with
    | 2 => (2, 12)
    | 3 => (3, 20)
    | _ => (1, 5)
  ⟨size, leading b size % 2 ^ bits, 0, false⟩

/-- The head of a section of coded literals. -/
def LiteralsHead.coded (b : Array UInt8) : LiteralsHead :=
  let (size, bits) := match leading b 1 / 16 % 4 with
    | 2 => (4, 14)
    | 3 => (5, 18)
    | _ => (3, 10)
  ⟨size, leading b size / 2 ^ bits % 2 ^ bits, leading b size % 2 ^ bits, leading b 1 / 16 % 4 == 1⟩

/-- Reads four streams of `count` symbols, if they are shorter than these. -/
def fourStreams? (c : Code) (b : Array UInt8) (count : Nat) : Option (Array UInt8) :=
  let size (i : Nat) : Nat := wordAt b (2 * i) 2
  let second := 6 + size 0
  let third := second + size 1
  let fourth := third + size 2
  if b.size < 10 || b.size < fourth || count < 3 * ((count + 3) / 4) then none
  else c.separateStreams? b count second third fourth

/-- Reads literals in a code that is described before them. Until revision six, four streams as long
as their literals, or of one byte, have no code; and in revision five, one stream has to be shorter
than its literals. -/
def readCoded? (r : Revision) (isSingle : Bool) (body : Array UInt8) (count : Nat) :
    Option (Array UInt8 × Option Code) :=
  if isSingle then do
    let (code, size) ← readCode? r body
    if r = .five && count + size ≤ body.size then none
    else return (← code.stream? (body.extract size body.size) count #[], some code)
  else if count = 0 || count < body.size then none
  else if r ≠ .seven && body.size = count then some (body, none)
  else if r ≠ .seven && body.size = 1 then some (Array.replicate count (body.getD 0 0), none)
  else if body.size = count || body.size ≤ 1 then none
  else do
    let (code, size) ← readCode? r body
    let code := if prefersPairs count body.size then code.paired else code
    return (← fourStreams? code (body.extract size body.size) count, some code)

/-- The smallest compressed block. -/
def minBlock : Nat := 3

/-- Reads the literals of a block; `code` is the one of the block before. -/
def Literals.read? (r : Revision) (code : Option Code) (b : Array UInt8) : Option Literals :=
  let kind := leading b 1 / 64
  if r = .four || b.size < minBlock then none
  else if 2 ≤ kind then
    let head := LiteralsHead.plain b
    let size := head.size + if kind = 2 then head.count else 1
    if b.size < size || (kind = 3 && maxBlock < head.count) then none
    else if kind = 2 then some ⟨b.extract head.size size, size, code⟩
    else some ⟨Array.replicate head.count (b.getD head.size 0), size, code⟩
  else
    let head := LiteralsHead.coded b
    let size := head.size + head.codedSize
    if b.size < 5 || b.size < size || maxBlock < head.count then none
    else
      let body := b.extract head.size size
      if kind = 0 then
        (readCoded? r head.isSingle body head.count).map fun (bytes, new) =>
          ⟨bytes, size, new.or code⟩
      else
        -- Only pairs are used again, and only for one stream.
        match r, code with
        | .seven, some code =>
          if head.isSingle && code.isPaired then
            (code.stream? body head.count #[]).map fun bytes => ⟨bytes, size, some code⟩
          else none
        | _, _ => none

end Columnar.Compression.Zstd.Early
