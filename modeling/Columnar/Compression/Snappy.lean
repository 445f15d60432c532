import Columnar.Compression.Checksum
import Columnar.Compression.Runs

/-!
# Snappy streams

A stream is a chain of chunks, each with a type and a length. The first one identifies the format;
data chunks hold the check of their content, masked, and the content itself, as it is or as a block.
A block is the length of its content and a chain of elements: bytes to be written out, or a copy of
earlier output of the same block. An empty stream has no content.
-/

namespace Columnar.Compression.Snappy

/-- What can be wrong with a stream. -/
inductive Fault where
  /-- A chunk ends before its length. -/
  | truncated
  /-- The stream does not begin with its identifier. -/
  | missingIdentifier
  /-- An identifier of something else. -/
  | badIdentifier
  /-- A chunk that must be understood and is not. -/
  | unknownChunk (type : UInt8)
  /-- A chunk that is longer or shorter than its kind may be. -/
  | badChunkLength (length : Nat)
  /-- The check differs. -/
  | badChecksum (expected actual : UInt32)
  /-- A block without a length. -/
  | badBlockLength
  /-- A block with more or less content than it declares. -/
  | lengthMismatch (declared actual : Nat)
  /-- An element that the block ends in. -/
  | badElement
  /-- A copy from before the block. -/
  | badOffset (offset : Nat)
deriving DecidableEq, Repr

/-- The text of a fault. -/
def Fault.text : Fault → String
  | truncated => "the stream ends inside a chunk"
  | missingIdentifier => "the stream does not begin with its identifier"
  | badIdentifier => "the identifier of the stream is another one"
  | unknownChunk type => s!"chunks of type {type.toNat} are unknown"
  | badChunkLength length => s!"no such chunk has {length} bytes"
  | badChecksum expected actual => s!"the check is {actual.toNat} instead of {expected.toNat}"
  | badBlockLength => "a block begins without a length"
  | lengthMismatch declared actual => s!"a block has {actual} bytes instead of {declared}"
  | badElement => "a block ends inside an element"
  | badOffset offset => s!"no copy from {offset} bytes before"

/-! ### Blocks -/

/-- The most groups of a length. -/
def maxGroups : Nat := 5

/-- A number in groups of seven bits, least significant first, of which all but the last are marked.
There are at most `maxGroups` of them. -/
def varint? (groups n : Nat) : Bytes → Option (Nat × Bytes)
  | [] => none
  | b :: rest =>
    if maxGroups ≤ groups then none
    else
      let n := n + b.toNat % 128 * 2 ^ (7 * groups)
      if b < 128 then some (n, rest) else varint? (groups + 1) n rest

/-- A number as `varint?` reads it. -/
def ofVarint (n : Nat) : Bytes :=
  if n < 128 then [UInt8.ofNat n] else UInt8.ofNat (128 + n % 128) :: ofVarint (n / 128)

/-- An element of a block. -/
inductive Element where
  /-- Bytes to be written out. -/
  | literal (b : Bytes)
  /-- A copy. -/
  | copy (offset length : Nat)
deriving DecidableEq, Repr

/-- Reads the element of a tag. A length of literals that does not fit the tag follows in one to
four bytes. -/
def element? (tag : UInt8) (b : Bytes) : Option (Element × Bytes) :=
  let high := tag.toNat / 4
  match tag.toNat % 4 with
  | 0 => do
    let (extra, b) ← b.splitAt? (high - 59)
    let size := if high < 60 then high + 1 else Bytes.toNat extra + 1
    let (literal, b) ← b.splitAt? size
    return (.literal literal, b)
  | 1 => do
    let (low, b) ← b.splitAt? 1
    return (.copy (high / 8 * 256 + Bytes.toNat low) (high % 8 + 4), b)
  | 2 => do
    let (offset, b) ← b.splitAt? 2
    return (.copy (Bytes.toNat offset) (high + 1), b)
  | _ => do
    let (offset, b) ← b.splitAt? 4
    return (.copy (Bytes.toNat offset) (high + 1), b)

/-- Reads elements up to the end, after the content `out`, which may grow to `limit` bytes. An
element takes at least one byte. -/
def elements (limit : Nat) : (steps : Nat) → Bytes → Array UInt8 → Except Fault (Array UInt8)
  | _, [], out => .ok out
  | 0, _, _ => .error .badElement
  | steps + 1, tag :: b, out =>
    match element? tag b with
    | none => .error .badElement
    | some (.literal literal, b) =>
      if limit < out.size + literal.length then
        .error (.lengthMismatch limit (out.size + literal.length))
      else elements limit steps b (out ++ literal)
    | some (.copy offset length, b) =>
      if offset = 0 ∨ out.size < offset then .error (.badOffset offset)
      else if limit < out.size + length then .error (.lengthMismatch limit (out.size + length))
      else elements limit steps b (copyBack offset length out)

/-- The greatest length of the content of a chunk. -/
def maxChunk : Nat := 65536

/-- The content of a block, of at most `maxChunk` bytes. -/
def decompressBlock (block : Bytes) : Except Fault Bytes :=
  match varint? 0 0 block with
  | none => .error .badBlockLength
  | some (size, b) =>
    if maxChunk < size then .error (.badChunkLength size)
    else
      match elements size b.length b #[] with
      | .error e => .error e
      | .ok out =>
        if out.size = size then .ok out.toList else .error (.lengthMismatch size out.size)

/-- Copies of the byte before, at most 64 at once. -/
def ofCopies : Nat → Bytes
  | 0 => []
  | n + 1 =>
    (List.replicate (n / 64) [0xFE, 1, 0]).flatten ++ [UInt8.ofNat (4 * (n % 64) + 2), 1, 0]

/-- Literals, unless there are none. -/
def ofLiterals (b : Bytes) : Bytes :=
  if b.isEmpty then []
  else if b.length ≤ 60 then UInt8.ofNat (4 * (b.length - 1)) :: b
  else 0xF4 :: (Bytes.ofNat 2 (b.length - 1) ++ b)

/-- The shortest run that is written as a copy. -/
def minCopies : Nat := 4

/-- A block with the given content, of at most `maxChunk` bytes. -/
def block (b : Bytes) : Bytes :=
  ofVarint b.length ++
    (segments minCopies b).flatMap fun s => ofLiterals s.literals ++ ofCopies s.copies

/-! ### Streams -/

/-- The content of the chunk that identifies the format. -/
def identifier : Bytes :=
  [0x73, 0x4E, 0x61, 0x50, 0x70, 0x59]

/-- The longest chunk that has data. -/
def maxChunkLength : Nat := 76490

/-- The check of some content as chunks hold it. -/
def maskedChecksum (b : Bytes) : UInt32 :=
  let c := Crc32c.checksum b
  ((c >>> 15) ||| (c <<< 17)) + 0xA282EAD8

/-- Splits the body of a data chunk into check and data. -/
def splitChecksum (body : Bytes) : Except Fault (UInt32 × Bytes) :=
  match body.splitAt? 4 with
  | some (check, data) => .ok (UInt32.ofNat (Bytes.toNat check), data)
  | none => .error (.badChunkLength body.length)

/-- The content, if it has the given check. -/
def checked (expected : UInt32) (b : Bytes) : Except Fault Bytes :=
  if maskedChecksum b = expected then .ok b else .error (.badChecksum expected (maskedChecksum b))

/-- The content of a chunk; `first` tells whether it is the first of its stream. -/
def chunkContent (first : Bool) (type : UInt8) (body : Bytes) : Except Fault Bytes :=
  if first && type != 0xFF then .error .missingIdentifier
  else if type = 0xFF then
    if body.length ≠ identifier.length then .error (.badChunkLength body.length)
    else if body = identifier then .ok [] else .error .badIdentifier
  else if type = 0 then do
    let (check, data) ← splitChecksum body
    checked check (← decompressBlock data)
  else if type = 1 then do
    let (check, data) ← splitChecksum body
    if maxChunk < data.length then throw (.badChunkLength data.length)
    checked check data
  else if type < 0x80 then .error (.unknownChunk type)
  else .ok []

/-- Reads chunks up to the end; returns their contents. A chunk takes at least four bytes. -/
def chunks (first : Bool) (done : List Bytes) : (steps : Nat) → Bytes → Except Fault (List Bytes)
  | steps + 1, type :: a :: b :: c :: rest =>
    let length := Bytes.toNat [a, b, c]
    if maxChunkLength < length then .error (.badChunkLength length)
    else
      match Bytes.splitAt? length rest with
      | none => .error .truncated
      | some (body, rest) =>
        match chunkContent first type body with
        | .error e => .error e
        | .ok content => chunks false (content :: done) steps rest
  | _, [] => .ok done.reverse
  | _, _ => .error .truncated

/-- The content of a stream. -/
def decompress (stream : Bytes) : Except Fault Bytes :=
  (chunks true [] stream.length stream).map List.flatten

/-- A chunk of a type. -/
def chunk (type : UInt8) (body : Bytes) : Bytes :=
  type :: (Bytes.ofNat 3 body.length ++ body)

/-- The chunk with the given content, of at most `maxChunk` bytes: a block if that is shorter. -/
def dataChunk (b : Bytes) : Bytes :=
  let check := Bytes.ofNat 4 (maskedChecksum b).toNat
  let packed := block b
  if packed.length < b.length then chunk 0 (check ++ packed) else chunk 1 (check ++ b)

/-- Cuts a byte string into pieces of `size` bytes, the last one of the rest. -/
def pieces (size : Nat) : (steps : Nat) → Bytes → List Bytes
  | 0, _ => []
  | steps + 1, b => if b.isEmpty then [] else b.take size :: pieces size steps (b.drop size)

/-- A stream with the given content; nothing at all for no content. -/
def compress (b : Bytes) : Bytes :=
  if b.isEmpty then []
  else chunk 0xFF identifier ++ (pieces maxChunk b.length b).flatMap dataChunk

end Columnar.Compression.Snappy
