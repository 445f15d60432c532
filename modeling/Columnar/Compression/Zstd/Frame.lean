import Columnar.Compression.Checksum
import Columnar.Compression.Runs
import Columnar.Compression.Zstd.Early.Frame
import Columnar.Compression.Zstd.Fse
import Columnar.Compression.Zstd.Literals
import Columnar.Compression.Zstd.Sequences

/-!
# Zstandard frames

Content is a chain of frames, some of which may be of early revisions; frames of another kind may
stand between them and are passed over. A frame says how far copies reach back (its window), may say
how long its content is, and may end with a check. Its content comes in blocks: plain, one repeated
byte, or compressed.

A frame with little content, all of which is at hand, is written out at once. All others are written
out in turns through a buffer, which is strict about the window and the lengths of blocks.

Frames that are written have plain and repeated blocks only.
-/

namespace Columnar.Compression.Zstd

/-! ### Heads -/

/-- The head of a frame. -/
structure FrameHead where
  /-- How far copies may reach back. -/
  window : Nat
  /-- The length of the content, if it is declared. -/
  contentSize : Option Nat
  /-- Whether a check follows the blocks. -/
  hasChecksum : Bool
deriving DecidableEq, Repr

/-- The largest window of a frame that is written out in turns. -/
def maxWindow : Nat := 2 ^ 27 + 1

/-- The largest exponent of a window's size. -/
def maxWindowExponent : Nat := 31

/-- The smallest window that a buffer is made for. -/
def minWindow : Nat := 2 ^ 10

/-- The largest block. -/
def maxBlock : Nat := 2 ^ 17

/-- The length that stands for an unknown one. -/
def unknownSize : Nat := 2 ^ 64 - 1

/-- The greatest length of a block of a frame. -/
def FrameHead.blockLimit (h : FrameHead) : Nat :=
  min h.window maxBlock

/-- The size of the window of a descriptor. -/
def windowSize (descriptor : Nat) : Except Fault Nat :=
  let exponent := descriptor / 8 + 10
  if maxWindowExponent < exponent then .error (.windowTooLarge (2 ^ exponent))
  else .ok (2 ^ exponent + 2 ^ exponent / 8 * (descriptor % 8))

/-- Reads the head of a frame, after its magic number. -/
def FrameHead.read (b : Bytes) : Except Fault (FrameHead × Bytes) := do
  let (descriptor, b) ← cut 1 b
  let d := Bytes.toNat descriptor
  if d / 8 % 2 ≠ 0 then throw .reservedBits
  let isSingle := d / 32 % 2 = 1
  let (window, b) ←
    if isSingle then pure (0, b)
    else do
      let (w, b) ← cut 1 b
      pure (← windowSize (Bytes.toNat w), b)
  let (id, b) ← cut (#[0, 1, 2, 4].getD (d % 4) 0) b
  if Bytes.toNat id ≠ 0 then throw (.dictionary (Bytes.toNat id))
  let sizeBytes := if d / 64 = 0 ∧ isSingle then 1 else #[0, 2, 4, 8].getD (d / 64) 0
  let (size, b) ← cut sizeBytes b
  let size := Bytes.toNat size + if sizeBytes = 2 then 256 else 0
  let contentSize := if sizeBytes = 0 ∨ size = unknownSize then none else some size
  return (⟨if isSingle then size else window, contentSize, d / 4 % 2 = 1⟩, b)

/-! ### Where content is written out -/

/-- The buffers that a chain of frames is read through: for blocks, and for content. -/
structure Buffers where
  /-- The size of the buffer for blocks. -/
  input : Nat
  /-- The size of the buffer for content. -/
  output : Nat
  /-- How many frames in a row could have done with much smaller ones. -/
  oversized : Nat := 0
  /-- The buffer for frames of early revisions. -/
  early : Option Early.Buffer := none
deriving DecidableEq, Repr

namespace Buffers

/-- There are none before the first frame. -/
def none : Buffers := { input := 0, output := 0 }

/-- The size of both. -/
def size (b : Buffers) : Nat :=
  b.input + b.output

/-- Buffers are oversized if they are so many times as large as needed. -/
def oversize : Nat := 3

/-- Oversized buffers are given up after so many frames. -/
def patience : Nat := 128

end Buffers

/-- The buffers that a frame needs: content has room for its window, two blocks and the margins of
copies, or for all of it if that is less. -/
def FrameHead.buffers (h : FrameHead) : Buffers :=
  let room := max h.window minWindow + 2 * h.blockLimit + 2 * copyMargin
  { input := max h.blockLimit 4, output := match h.contentSize with
    | some size => min size room
    | none => room }

/-- Both buffers are kept unless one of them is too small, or both have been oversized for long. -/
def Buffers.fit (b need : Buffers) : Buffers :=
  let oversized := if oversize * need.size ≤ b.size then b.oversized + 1 else 0
  if b.input < need.input || b.output < need.output || patience ≤ oversized then
    { need with oversized, early := b.early }
  else { b with oversized }

/-- How the content of a frame is written out. -/
inductive Output where
  /-- At once. -/
  | atOnce
  /-- In turns, through a buffer of so many bytes. -/
  | inTurns (buffer : Nat)
deriving DecidableEq, Repr

/-- The most content that is written out at once. -/
def maxAtOnce : Nat := 8192

/-- How many bytes there is room for. -/
def Output.room (h : History) : Output → Nat
  | atOnce => maxAtOnce - h.size
  | inTurns buffer => buffer - h.written

/-- The most content of a plain or repeated block. Within a frame that is written out at once it may
be longer than the frame allows. -/
def Output.plainLimit (blockLimit : Nat) (h : History) (o : Output) : Nat :=
  match o with
  | atOnce => o.room h
  | inTurns _ => min blockLimit (o.room h)

/-- The most content of a compressed block with the given literals. What is written out at once may
fill all the room, unless the literals are kept behind the place of the block. -/
def Output.compressedLimit (blockLimit : Nat) (h : History) (literals : Literals) (o : Output) :
    Nat :=
  match o with
  | atOnce =>
    if !literals.inBlock && blockLimit + 2 * copyMargin + literals.bytes.size < o.room h then
      blockLimit + copyMargin
    else o.room h
  | inTurns _ => min blockLimit (o.room h)

/-! ### Blocks -/

/-- The head of a block. -/
structure BlockHead where
  /-- Whether it is the last one. -/
  isLast : Bool
  /-- The number of its kind. -/
  kind : Nat
  /-- Its length, or that of its content for a repeated byte. -/
  size : Nat
deriving DecidableEq, Repr

/-- Reads the head of a block. -/
def BlockHead.read (b : Bytes) : Except Fault (BlockHead × Bytes) := do
  let (head, b) ← cut 3 b
  let h := Bytes.toNat head
  return (⟨h % 2 = 1, h / 2 % 4, h / 8⟩, b)

/-- How many bytes follow the head. -/
def BlockHead.stored (h : BlockHead) : Nat :=
  if h.kind = 1 then 1 else h.size

/-- How many bytes the blocks of a frame take, if all of them are there. A block takes at least
three bytes. -/
def blocksSize? : (steps : Nat) → Bytes → Option Nat
  | 0, _ => none
  | steps + 1, b =>
    match BlockHead.read b with
    | .error _ => none
    | .ok (head, b) =>
      match b.splitAt? head.stored with
      | none => none
      | some (_, b) =>
        if head.kind = 3 then none
        else if head.isLast then some (3 + head.stored)
        else (blocksSize? steps b).map (3 + head.stored + ·)

/-- What a frame keeps from block to block. -/
structure FrameState where
  /-- The content so far. -/
  history : History
  /-- The code of the latest coded literals. -/
  code : Option Huffman.Code
  /-- The tables of the latest sequences. -/
  tables : Option SequenceTables
  /-- The latest distances. -/
  offsets : KeptOffsets

/-- The state at the beginning of a frame. -/
def FrameState.initial : FrameState :=
  ⟨.empty, none, none, .initial⟩

/-- Adds the content of a compressed block. -/
def FrameState.addCompressed (o : Output) (blockLimit : Nat) (s : FrameState)
    (block : Array UInt8) : Except Fault FrameState := do
  let some literals := Literals.read? (min blockLimit (o.room s.history)) s.code block
    | throw .badLiterals
  let some (sequences, tables) := readSequences? s.tables block literals.sectionSize
    | throw .badSequences
  let limit := o.compressedLimit blockLimit s.history literals
  let (copies, offsets) := s.offsets.copies KeptOffsets.resolve sequences
  let some history := execute? 0 (s.history.size + limit) literals.bytes 0 s.history copies
    | throw .badCopies
  return ⟨history, literals.code, tables, offsets⟩

/-- Reads a block after its head. -/
def FrameState.addBlock (o : Output) (blockLimit : Nat) (s : FrameState) (head : BlockHead)
    (b : Bytes) : Except Fault (FrameState × Bytes) := do
  let (body, b) ← cut head.stored b
  let plainLimit := o.plainLimit blockLimit s.history
  match head.kind with
  | 0 =>
    if plainLimit < head.size then throw (.blockTooLarge head.size)
    return ({ s with history := s.history.append body.toArray }, b)
  | 1 =>
    if plainLimit < head.size then throw (.blockTooLarge head.size)
    return ({ s with history := s.history.append (Array.replicate head.size (body.headD 0)) }, b)
  | 2 =>
    if blockLimit < head.size then throw (.blockTooLarge head.size)
    if o ≠ .atOnce ∧ head.size = 0 then return (s, b)
    return (← s.addCompressed o blockLimit body.toArray, b)
  | _ => throw .reservedBlock

/-- Begins a new turn if the buffer has no room for another block nor for all of the content. -/
def FrameState.turned (head : FrameHead) (o : Output) (s : FrameState) : FrameState :=
  match o with
  | .atOnce => s
  | .inTurns buffer =>
    let fits := match head.contentSize with
      | some size => size ≤ buffer
      | none => false
    if fits || s.history.written + head.blockLimit ≤ buffer then s
    else { s with history := s.history.nextTurn }

/-- Looks at the length of the content behind the last block. Without any bytes after its head, the
last block of a frame that is written out in turns ends it unseen. -/
def FrameState.finished (head : FrameHead) (o : Output) (last : BlockHead) (s : FrameState) :
    Except Fault FrameState :=
  match head.contentSize with
  | some size =>
    if size = s.history.size ∨ (o ≠ .atOnce ∧ last.stored = 0) then .ok s
    else .error (.wrongSize size s.history.size)
  | none => .ok s

/-- Reads blocks up to the last one. A block takes at least three bytes. -/
def FrameState.addBlocks (head : FrameHead) (o : Output) : (steps : Nat) → FrameState → Bytes →
    Except Fault (FrameState × Bytes)
  | 0, _, _ => .error .truncated
  | steps + 1, s, b =>
    match BlockHead.read b with
    | .error e => .error e
    | .ok (block, b) =>
      match s.addBlock o head.blockLimit block b with
      | .error e => .error e
      | .ok (s, b) =>
        if block.isLast then (s.finished head o block).map fun s => (s, b)
        else addBlocks head o steps (s.turned head o) b

/-! ### Frames -/

/-- The number that begins a frame. -/
def magic : Nat := 0xFD2FB528

/-- The least of the sixteen numbers that begin frames of another kind. -/
def skippableMagic : Nat := 0x184D2A50

/-- Input is taken in pieces of so many bytes. -/
def maxPiece : Nat := 2 ^ 17 + 3

/-- Whether `size` bytes from a place on lie in one piece of the input. -/
def isInOnePiece (place size : Nat) : Bool :=
  place / maxPiece == (place + size - 1) / maxPiece

/-- How to write out the content of a frame, which begins at `place` and whose blocks are `b`: at
once if all of the frame is at hand and its content is declared to be short, else in turns. -/
def FrameHead.output (h : FrameHead) (place headSize : Nat) (b : Bytes) (buffers : Buffers) :
    Except Fault (Output × Buffers) :=
  let isShort := match h.contentSize, blocksSize? b.length b with
    | some size, some blocks =>
      let rest := if h.hasChecksum then 4 else 0
      size ≤ maxAtOnce && blocks + rest ≤ b.length && isInOnePiece place (headSize + blocks + rest)
    | _, _ => false
  if isShort then .ok (.atOnce, buffers)
  else if maxWindow < h.window then .error (.windowTooLarge h.window)
  else
    let buffers := buffers.fit h.buffers
    .ok (.inTurns buffers.output, buffers)

/-- Reads a frame after its magic number, which stands at `place`; returns its content. -/
def readFrame (place : Nat) (buffers : Buffers) (b : Bytes) :
    Except Fault (Bytes × Buffers × Bytes) := do
  let (head, blocks) ← FrameHead.read b
  let (output, buffers) ← head.output place (4 + b.length - blocks.length) blocks buffers
  let (s, b) ← FrameState.addBlocks head output blocks.length .initial blocks
  let content := s.history.content.toList
  if head.hasChecksum then
    let (check, b) ← cut 4 b
    if Bytes.toNat check ≠ (XxHash64.hash content).toNat % 2 ^ 32 then throw .badChecksum
    return (content, buffers, b)
  else return (content, buffers, b)

/-- Reads a frame of any kind, which stands at `place`; returns its content. -/
def readAnyFrame (place : Nat) (buffers : Buffers) (b : Bytes) :
    Except Fault (Bytes × Buffers × Bytes) := do
  let (number, b) ← cut 4 b
  let n := Bytes.toNat number
  if n = magic then readFrame place buffers b
  else if let some r := Early.Revision.ofMagic? n then
    let (content, early, b) ← Early.readFrame r buffers.early b
    return (content, { buffers with early }, b)
  else if n / 16 = skippableMagic / 16 then
    let (size, b) ← cut 4 b
    let (_, b) ← cut (Bytes.toNat size) b
    return ([], buffers, b)
  else throw .badMagic

/-- Reads frames up to the end of `size` bytes, at least one; returns their contents after those
already read in reverse. A frame takes at least four bytes. -/
def readFrames (size : Nat) : (steps : Nat) → Buffers → List Bytes → Bytes →
    Except Fault (List Bytes)
  | 0, _, _, _ => .error .truncated
  | steps + 1, buffers, done, b =>
    match readAnyFrame (size - b.length) buffers b with
    | .error e => .error e
    | .ok (content, buffers, rest) =>
      if rest.isEmpty then .ok (content :: done).reverse
      else readFrames size steps buffers (content :: done) rest

/-- The content of a chain of frames. -/
def decompress (b : Bytes) : Except Fault Bytes :=
  (readFrames b.length b.length .none [] b).map List.flatten

/-! ### Writing -/

/-- The head of a block. -/
def blockHead (isLast : Bool) (kind size : Nat) : Bytes :=
  Bytes.ofNat 3 (8 * size + 2 * kind + isLast.toNat)

/-- Cuts a number into parts of at most `limit`. -/
def parts (limit : Nat) : (steps n : Nat) → List Nat
  | 0, _ => []
  | steps + 1, n => if n = 0 then [] else min n limit :: parts limit steps (n - limit)

/-- Plain blocks, none of them the last. -/
def plainBlocks (limit : Nat) : (steps : Nat) → Bytes → Bytes
  | 0, _ => []
  | steps + 1, b =>
    if b.isEmpty then []
    else
      let front := b.take limit
      blockHead false 0 front.length ++ front ++ plainBlocks limit steps (b.drop limit)

/-- Blocks of a repeated byte, none of them the last. -/
def repeatedBlocks (limit n : Nat) (b : UInt8) : Bytes :=
  (parts limit n n).flatMap fun size => blockHead false 1 size ++ [b]

/-- The blocks of a segment. -/
def ofSegment (s : Segment) : Bytes :=
  plainBlocks maxBlock s.literals.length s.literals ++
    repeatedBlocks maxBlock s.copies (s.literals.getLastD 0)

/-- The shortest run that gets a block of its own. -/
def minCopies : Nat := 8

/-- The descriptors of the frames that are written: the window has the size of the largest block,
the length is not declared, and there is no check. -/
def writtenHead : Bytes := [0x00, 0x38]

/-- A frame with the given content. -/
def compress (b : Bytes) : Bytes :=
  Bytes.ofNat 4 magic ++ writtenHead ++ (segments minCopies b).flatMap ofSegment ++
    blockHead true 0 0

end Columnar.Compression.Zstd
