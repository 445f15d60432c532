import Columnar.Compression.Checksum
import Columnar.Compression.Runs

/-!
# LZ4

The two forms in which LZ4 is used: one block after the length of its content, for the blocks of
buffers, and frames of many blocks, for the buffers of a stream.
-/

namespace Columnar.Compression

/-! ## Blocks

A frame is the length of the content in four bytes and one block. A block is a chain of sequences: a
token with two lengths, bytes to be written out, and a copy of earlier output at a distance; a
length that does not fit its half of the token goes on in further bytes. The last sequence has no
copy.

The reader accepts content that is shorter than declared, and nothing longer.
-/

namespace Lz4

/-- What can be wrong with a frame. -/
inductive Fault where
  /-- It ends where more is needed. -/
  | truncated
  /-- It has fewer bytes than it says are to be written out. -/
  | literalsOutOfBounds
  /-- Its content is longer than declared. -/
  | tooLong (declared : Nat)
  /-- A copy from before the content. -/
  | offsetOutOfBounds (offset : Nat)
deriving DecidableEq, Repr

/-- The text of a fault. -/
def Fault.text : Fault → String
  | truncated => "the frame ends inside a sequence"
  | literalsOutOfBounds => "the literals end after the frame"
  | tooLong declared => s!"the content is longer than the declared {declared} bytes"
  | offsetOutOfBounds offset => s!"no copy from {offset} bytes before"

/-! ### Reading -/

/-- The bytes of a length after its half of the token: they are added up to the first one below
255. -/
def longLength? (n : Nat) : Bytes → Option (Nat × Bytes)
  | [] => none
  | b :: rest => if b = 255 then longLength? (n + 255) rest else some (n + b.toNat, rest)

/-- A length whose half of the token is `half`. -/
def length? (half : Nat) (b : Bytes) : Option (Nat × Bytes) :=
  if half = 15 then longLength? 15 b else some (half, b)

/-- The shortest copy. -/
def minMatch : Nat := 4

/-- Reads sequences up to the end, after the content `out`, which may grow to `limit` bytes. A
sequence takes at least one byte, so that with as many steps as bytes the bytes end first. -/
def sequences (limit : Nat) : (steps : Nat) → Bytes → Array UInt8 → Except Fault (Array UInt8)
  | 0, _, _ => .error .truncated
  | _, [], _ => .error .truncated
  | steps + 1, token :: b, out =>
    match length? (token.toNat / 16) b with
    | none => .error .truncated
    | some (size, b) =>
      match b.splitAt? size with
      | none => .error .literalsOutOfBounds
      | some (literals, b) =>
        if limit < out.size + size then .error (.tooLong limit)
        else
          let out := out ++ literals
          match b with
          | [] => .ok out
          | [_] => .error .truncated
          | low :: high :: b =>
            match length? (token.toNat % 16) b with
            | none => .error .truncated
            | some (size, b) =>
              let offset := low.toNat + 256 * high.toNat
              if limit < out.size + size + minMatch then .error (.tooLong limit)
              else if offset = 0 ∨ out.size < offset then .error (.offsetOutOfBounds offset)
              else sequences limit steps b (copyBack offset (size + minMatch) out)

/-- The length that a frame declares. -/
def declaredSize? (frame : Bytes) : Option Nat :=
  (frame.splitAt? 4).map fun (size, _) => Bytes.toNat size

/-- The content of a frame. -/
def decompress (frame : Bytes) : Except Fault Bytes :=
  match frame.splitAt? 4 with
  | none => .error .truncated
  | some (size, block) =>
    (sequences (Bytes.toNat size) block.length block #[]).map Array.toList

/-! ### Writing -/

/-- The bytes of a length beyond its half of the token. -/
def ofLongLength (n : Nat) : Bytes :=
  List.replicate (n / 255) 255 ++ [UInt8.ofNat (n % 255)]

/-- The bytes of a length after the token. -/
def ofLength (n : Nat) : Bytes :=
  if n < 15 then [] else ofLongLength (n - 15)

/-- The token of two lengths. -/
def token (literals copy : Nat) : UInt8 :=
  UInt8.ofNat (16 * min literals 15 + min copy 15)

/-- A sequence of literals and copies of the last of them. -/
def ofSegment (s : Segment) : Bytes :=
  let copy := s.copies - minMatch
  token s.literals.length copy ::
    (ofLength s.literals.length ++ s.literals ++ [1, 0] ++ ofLength copy)

/-- The last sequence, which has literals only. -/
def ofLiterals (b : Bytes) : Bytes :=
  token b.length 0 :: (ofLength b.length ++ b)

/-- How many bytes at the end of a block are always written out. -/
def tailSize : Nat := 12

/-- A block with the given content. -/
def block (b : Bytes) : Bytes :=
  let (front, tail) := b.splitAt (b.length - tailSize)
  let parts := segments minMatch front
  let last := (parts.getLast?.map (·.literals)).getD []
  parts.dropLast.flatMap ofSegment ++ ofLiterals (last ++ tail)

/-- A frame with the given content, whose length must fit four bytes. -/
def compress (b : Bytes) : Bytes :=
  Bytes.ofNat 4 b.length ++ block b

end Lz4

/-! ## Frames

A frame tells how its blocks are made, and holds blocks up to a mark. A block stands as it is, or is
compressed; the blocks of a frame are independent, or copies of one may reach back into those before
it. Blocks and the whole content may have checks.

Only the first frame is read, and reading also ends, without a fault, at a block without content and
where the bytes end in front of a block. Whoever knows the length of the content has to compare it.
-/

namespace Lz4Frame

/-- What a frame says about its blocks. -/
structure Head where
  /-- Whether copies stay within their block. -/
  isIndependent : Bool
  /-- Whether a check follows each block. -/
  hasBlockChecks : Bool
  /-- Whether a check follows the last block. -/
  hasCheck : Bool
  /-- The length of the content, if it is declared. -/
  contentSize : Option Nat
  /-- The greatest length of the content of a block. -/
  maxBlock : Nat
deriving DecidableEq, Repr

/-- The number that begins a frame. -/
def magic : Nat := 0x184D2204

/-- The greatest length of a block by its number. -/
def blockSize? (number : Nat) : Option Nat :=
  if 4 ≤ number ∧ number ≤ 7 then some (2 ^ (2 * number + 8)) else none

/-- Reads four bytes that have to be the given hash. -/
def check? (hash : UInt32) (b : Bytes) : Option Bytes := do
  let (check, b) ← b.splitAt? 4
  if Bytes.toNat check = hash.toNat then some b else none

/-- Reads the head of a frame, which ends with one byte of its hash. Frames that need a dictionary
are refused. -/
def Head.read? (b : Bytes) : Option (Head × Bytes) := do
  let (number, descriptor) ← b.splitAt? 4
  if Bytes.toNat number ≠ magic then none
  else
    let (flags, b) ← descriptor.splitAt? 1
    let (sizes, b) ← b.splitAt? 1
    let flag (i : Nat) : Bool := (Bytes.toNat flags).testBit i
    let sizes := Bytes.toNat sizes
    if Bytes.toNat flags / 64 ≠ 1 || flag 1 || flag 0 || sizes / 128 ≠ 0 || sizes % 16 ≠ 0 then none
    else
      let maxBlock ← blockSize? (sizes / 16)
      let (size, b) ← b.splitAt? (if flag 3 then 8 else 0)
      let (check, rest) ← b.splitAt? 1
      let described := descriptor.take (descriptor.length - b.length)
      if Bytes.toNat check ≠ ((XxHash32.hash described) >>> 8).toNat % 256 then none
      else
        let contentSize := if flag 3 then some (Bytes.toNat size) else none
        return (⟨flag 5, flag 4, flag 2, contentSize, maxBlock⟩, rest)

/-- The content of a block, after the content `out` to which its copies reach back. -/
def blockContent? (maxBlock : Nat) (isPlain : Bool) (block : Bytes) (out : Array UInt8) :
    Option (Array UInt8) :=
  if isPlain then some (out ++ block)
  else
    match Lz4.sequences (out.size + maxBlock) block.length block out with
    | .ok out => some out
    | .error _ => none

/-- Reads blocks up to the end, after the content `done`. A block takes at least four bytes. -/
def blocks? (h : Head) : (steps : Nat) → Array UInt8 → Bytes → Option (Array UInt8)
  | 0, done, _ => some done
  | steps + 1, done, b =>
    match b.splitAt? 4 with
    | none => some done
    | some (word, b) =>
      let word := Bytes.toNat word
      let size := word % 2 ^ 31
      if word = 0 then do
        if h.contentSize.any (· ≠ done.size) then none
        else if h.hasCheck then (check? (XxHash32.hash done.toList) b).map fun _ => done
        else some done
      else if h.maxBlock < size then none
      else do
        let (block, b) ← b.splitAt? size
        let b ← if h.hasBlockChecks then check? (XxHash32.hash block) b else some b
        let reach := if h.isIndependent then #[] else done
        let out ← blockContent? h.maxBlock (size ≠ word) block reach
        if out.size = reach.size then some done
        else blocks? h steps (if h.isIndependent then done ++ out else out) b

/-- The content of a frame. -/
def decompress? (b : Bytes) : Option Bytes := do
  let (head, b) ← Head.read? b
  return (← blocks? head b.length #[] b).toList

end Lz4Frame

end Columnar.Compression
