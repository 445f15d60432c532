import Columnar.Compression.Checksum
import Columnar.Compression.Zstd.Early.Literals
import Columnar.Compression.Zstd.Early.Sequences

/-!
# Frames of early revisions

A head, blocks, and a mark at the end, which in revision seven may hold a check. Content is written
out in turns through a buffer. A plain or compressed block of no bytes also ends a frame.
-/

namespace Columnar.Compression.Zstd.Early

/-- The buffer that early frames are read through; it is kept for frames of the same revision. -/
structure Buffer where
  /-- The revision. -/
  revision : Revision
  /-- Its size. -/
  size : Nat
deriving DecidableEq, Repr

/-- The buffer for a frame that needs the given size. -/
def Buffer.fit (r : Revision) (need : Nat) : Option Buffer → Buffer
  | some b => if b.revision = r then ⟨r, max b.size need⟩ else ⟨r, need⟩
  | none => ⟨r, need⟩

/-- What a frame keeps from block to block. -/
structure State where
  /-- The content so far. -/
  history : History
  /-- The code of the latest coded literals. -/
  code : Option Huffman.Code
  /-- The tables of the latest sequences. -/
  tables : Option SequenceTables
  /-- The latest distances. -/
  offsets : KeptOffsets

/-- The state at the beginning of a frame. -/
def State.initial : State :=
  ⟨.empty, none, none, .initial⟩

/-- Adds the content of a compressed block. -/
def State.addCompressed (r : Revision) (buffer : Nat) (s : State) (block : Array UInt8) :
    Except Fault State := do
  if maxBlock ≤ block.size then throw (.blockTooLarge block.size)
  let some literals := Literals.read? r s.code block | throw .badLiterals
  let some part := readSection? r s.tables s.offsets block literals.sectionSize
    | throw .badSequences
  let limit := s.history.size + (buffer - s.history.written)
  let some history := execute? copyMargin limit literals.bytes 0 s.history part.copies
    | throw .badCopies
  return ⟨history, literals.code, part.tables, part.offsets⟩

/-- Adds the content of a block of one of the kinds that have content. -/
def State.addBlock (r : Revision) (buffer : Nat) (s : State) (kind : Nat) (body : Bytes) :
    Except Fault State :=
  match kind with
  | 0 => s.addCompressed r buffer body.toArray
  | 1 =>
    if buffer < s.history.written + body.length then .error (.blockTooLarge body.length)
    else .ok { s with history := s.history.append body.toArray }
  | _ => .error .reservedBlock

/-- Begins a new turn if the buffer has no room for another block after the content `before` has
grown. -/
def State.turned (head : Head) (buffer : Nat) (before s : State) : State :=
  if before.history.size < s.history.size && buffer < s.history.written + head.blockLimit then
    { s with history := s.history.nextTurn }
  else s

/-- The check of some content as the mark at the end of a frame holds it. -/
def checksum (content : Bytes) : Nat :=
  (XxHash64.hash content).toNat / 2 ^ 11 % 2 ^ 22

/-- The content, if it has the check of the mark at the end. -/
def State.finished (head : Head) (mark : Nat) (s : State) : Except Fault Bytes :=
  let content := s.history.content.toList
  if head.hasChecksum && mark % 2 ^ 22 != checksum content then .error .badChecksum else .ok content

/-- Reads blocks up to the last one; returns the content. A block takes at least three bytes. -/
def addBlocks (r : Revision) (head : Head) (buffer : Nat) : (steps : Nat) → State → Bytes →
    Except Fault (Bytes × Bytes)
  | 0, _, _ => .error .truncated
  | steps + 1, s, b =>
    match cut 3 b with
    | .error e => .error e
    | .ok (front, b) =>
      let n := Bytes.toNatBE front
      let kind := n / 2 ^ 22
      let size := if kind = 2 then 1 else n % 2 ^ 19
      if kind = 3 then (s.finished head n).map fun content => (content, b)
      else if size = 0 then .ok (s.history.content.toList, b)
      else
        match cut size b with
        | .error e => .error e
        | .ok (body, b) =>
          match s.addBlock r buffer kind body with
          | .error e => .error e
          | .ok next => addBlocks r head buffer steps (State.turned head buffer s next) b

/-- Reads a frame after its magic number; returns its content. -/
def readFrame (r : Revision) (buffer : Option Buffer) (b : Bytes) :
    Except Fault (Bytes × Option Buffer × Bytes) := do
  let (head, blocks) ← Head.read r b
  let buffer := Buffer.fit r head.buffer buffer
  let (content, b) ← addBlocks r head buffer.size blocks.length .initial blocks
  return (content, some buffer, b)

end Columnar.Compression.Zstd.Early
