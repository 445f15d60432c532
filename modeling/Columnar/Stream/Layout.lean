import Columnar.Batch
import Columnar.Compression.Lz4
import Columnar.Text

/-!
# Layouts

How the values of columns are stored in the buffers of a stream, for the types that are known here
and for those known by name only, and how buffers are compressed.
-/

namespace Columnar.Stream

/-! ## Faults of streams

Why bytes are not a stream, or why a message of a stream cannot be read.
-/

/-- What is wrong with a stream. -/
inductive Fault where
  /-- The stream ends inside a message. -/
  | truncated
  /-- A negative length. -/
  | badLength (length : Int)
  /-- Metadata that do not have the shape that their message needs. -/
  | badMetadata
  /-- A message that has no place here, by the number of its kind. -/
  | unexpectedMessage (kind : Nat)
  /-- A stream without a schema. -/
  | noSchema
  /-- A buffer that cannot be decompressed. -/
  | badCompression
  /-- A batch that describes fewer columns or buffers than its schema needs. -/
  | missingParts
  /-- A buffer that leaves the body. -/
  | outsideBody
  /-- A buffer of fewer bytes than its column needs. -/
  | shortBuffer (needed actual : Nat)
  /-- Offsets that run backwards or leave their data. -/
  | badOffsets
  /-- Bytes that are no text. -/
  | badText
  /-- A column of NULLs that counts another number of NULLs. -/
  | badNullCount (length : Nat) (nulls : Int)
  /-- A NULL in a column that may not hold any. -/
  | unexpectedNull (column : String)
  /-- Columns whose lengths are not the number of rows. -/
  | unevenColumns
deriving DecidableEq, Repr

/-- A fault in words. -/
def Fault.text : Fault → String
  | truncated => "the stream ends inside a message"
  | badLength length => s!"a length of {length}"
  | badMetadata => "malformed metadata"
  | unexpectedMessage kind => s!"unexpected message of kind {kind}"
  | noSchema => "the stream does not start with a schema"
  | badCompression => "a buffer is compressed in a way that is not supported, or is corrupt"
  | missingParts => "the batch has fewer buffers than its schema needs"
  | outsideBody => "a buffer leaves the body of its message"
  | shortBuffer needed actual => s!"a buffer needs {needed} bytes, got {actual}"
  | badOffsets => "offsets run backwards or leave their data"
  | badText => "text is not valid UTF-8"
  | badNullCount length nulls => s!"a column of {length} NULLs counts {nulls} of them"
  | unexpectedNull column =>
    s!"column '{column}' is declared as non-nullable but contains null values"
  | unevenColumns => "all columns of a batch must have the specified number of rows"

/-! ## Columns as buffers

A column is stored in a few buffers: a bit for each slot that tells values from NULLs, and then the
values, where a NULL takes the place of one. `Layout` lists the ways in which values are stored;
writing and reading are defined once for every layout.

A reader believes the marks of NULLs only if the column is said to have any. It looks at all values,
those in place of NULLs too.
-/

/-! ### Bits -/

/-- The byte of up to eight bits, the first one lowest. -/
def byteOfBits (bits : List Bool) : UInt8 :=
  UInt8.ofNat (bits.foldr (fun bit high => bit.toNat + 2 * high) 0)

/-- The bits of a byte, the lowest one first. -/
def bitsOfByte (byte : UInt8) : List Bool :=
  (List.range 8).map byte.toNat.testBit

/-- How many bytes so many bits take. -/
def bitBytes (n : Nat) : Nat :=
  (n + 7) / 8

/-- Bits in `n` bytes. -/
def packBits : (n : Nat) → List Bool → Bytes
  | 0, _ => []
  | n + 1, bits => byteOfBits (bits.take 8) :: packBits n (bits.drop 8)

/-- The bits of a byte string. -/
def unpackBits (b : Bytes) : List Bool :=
  b.flatMap bitsOfByte

/-! ### Offsets -/

/-- The first `n` pieces of `width` bytes each. -/
def pieces (width : Nat) : (n : Nat) → Bytes → List Bytes
  | 0, _ => []
  | n + 1, b => b.take width :: pieces width n (b.drop width)

/-- How many bytes an offset takes. -/
def offsetWidth : Nat := 4

/-- How many bytes a long offset takes. -/
def longOffsetWidth : Nat := 8

/-- Where each of some byte strings begins and the last one ends when they follow each other, the
first one at `pos`. -/
def offsets (pos : Nat) : List Bytes → Bytes
  | [] => Bytes.ofNat offsetWidth pos
  | b :: items => Bytes.ofNat offsetWidth pos ++ offsets (pos + b.length) items

/-- Cuts bytes, which begin at `pos`, at the given offsets. -/
def cut (pos : Nat) (b : Bytes) : List Int → Except Fault (List Bytes)
  | [] => .ok []
  | offset :: offsets =>
    if offset < pos then .error .badOffsets
    else
      match Bytes.splitAt? (offset.toNat - pos) b with
      | none => .error .badOffsets
      | some (item, b) => (cut offset.toNat b offsets).map (item :: ·)

/-! ### Layouts -/

/-- How the values of a type are stored. -/
inductive Layout (α : Type) where
  /-- There are none, nor any marks of NULLs. -/
  | nulls
  /-- A bit each. -/
  | bits (write : α → Bool) (read : Bool → α)
  /-- `width` bytes each. -/
  | fixed (width : Nat) (write : α → Bytes) (read : Bytes → α)
  /-- Byte strings one after the other, and where each of them begins; `mayBegin` tells whether the
  first one may begin at a place of the data. -/
  | varying (write : α → Bytes) (read : Bytes → Option α) (mayBegin : Bytes → Nat → Bool)
  /-- They are checked and not kept; all count as `value`. They take `buffers` buffers, or as many
  as the batch says. -/
  | dropped (value : α) (buffers : Option Nat) (check : Nat → List Bytes → Except Fault Unit)

namespace Layout

/-- How many buffers hold the values, if the layout tells. -/
def buffers? {α : Type} : Layout α → Option Nat
  | nulls => some 0
  | bits .. | fixed .. => some 1
  | varying .. => some 2
  | dropped _ buffers _ => buffers

/-- The marks of NULLs of some slots. Where there are none all bits are set, the spare ones too. -/
def validity {α : Type} (slots : List (Option α)) : Bytes :=
  if slots.all Option.isSome then List.replicate (bitBytes slots.length) 0xFF
  else packBits (bitBytes slots.length) (slots.map Option.isSome)

/-- The buffers of some slots. -/
def write {α : Type} (l : Layout α) (slots : List (Option α)) : List Bytes :=
  match l with
  | nulls | dropped .. => []
  | bits write _ =>
    [validity slots, packBits (bitBytes slots.length) (slots.map fun s => s.elim false write)]
  | fixed width write _ =>
    [validity slots, slots.flatMap fun s => s.elim (List.replicate width 0) write]
  | varying write _ _ =>
    let items := slots.map fun s => s.elim [] write
    [validity slots, if slots.isEmpty then [] else offsets 0 items, items.flatten]

/-- The number of NULLs that is written for some slots. -/
def nullCount {α : Type} (l : Layout α) (slots : List (Option α)) : Nat :=
  match l with
  | nulls | dropped .. => slots.length
  | _ => slots.countP Option.isNone

/-- Fails if a buffer has fewer bytes than are needed. -/
def checkLength (needed : Nat) (b : Bytes) : Except Fault Unit :=
  if b.length < needed then .error (.shortBuffer needed b.length) else .ok ()

/-- The byte strings of a column of `n` of them, with offsets of `width` bytes. Without any the
offsets may be missing, too. -/
def readVarying (width : Nat) (mayBegin : Bytes → Nat → Bool) (n : Nat) (offsets data : Bytes) :
    Except Fault (List Bytes) :=
  if n = 0 ∧ offsets = [] then .ok []
  else do
    checkLength (width * (n + 1)) offsets
    match (pieces width (n + 1) offsets).map Bytes.toInt with
    | [] => return []
    | first :: rest =>
      if first < 0 ∨ data.length < first then throw .badOffsets
      if !rest.isEmpty && !mayBegin data first.toNat then throw .badText
      cut first.toNat (data.drop first.toNat) rest

/-- The values of a column of `n` of them. -/
def readValues {α : Type} (l : Layout α) (n : Nat) (buffers : List Bytes) :
    Except Fault (List α) :=
  match l, buffers with
  | bits _ read, [data] => do
    checkLength (bitBytes n) data
    return ((unpackBits data).take n).map read
  | fixed width _ read, [data] => do
    checkLength (width * n) data
    return (pieces width n data).map read
  | varying _ read mayBegin, [offsets, data] => do
    (← readVarying offsetWidth mayBegin n offsets data).mapM fun item =>
      match read item with
      | some v => .ok v
      | none => .error .badText
  | dropped value _ check, buffers => (check n buffers).map fun _ => List.replicate n value
  | _, _ => .error .missingParts

/-- Takes the values that are not marked as NULL. -/
def mark {α : Type} (nulls : Int) (validity : Bytes) (values : List α) :
    Except Fault (List (Option α)) :=
  if nulls ≤ 0 then .ok (values.map some)
  else do
    checkLength (bitBytes values.length) validity
    return values.zipWith (fun v valid => if valid then some v else none) (unpackBits validity)

end Layout

/-! ### Text -/

/-- Whether text may begin at a place of some bytes: not inside a character, if the bytes as a whole
are text. -/
def mayBeginText (b : Bytes) (pos : Nat) : Bool :=
  match Utf8.decode b, b[pos]? with
  | .ok _, some byte => !Utf8.isContinuation byte
  | _, _ => true

/-! ## Types known by name only

The types of the stream format without a counterpart here. Their values are checked like all others,
and then dropped: whoever reads a stream learns that it is well formed before being refused for a
type.
-/

namespace Foreign

/-- How the values of such a type are stored. -/
inductive Storage where
  /-- `width` bytes each. -/
  | fixed (width : Nat)
  /-- Byte strings one after the other, with long offsets. -/
  | long (isText : Bool)
  /-- Byte strings by reference: short ones stand in their slot, others in further buffers. -/
  | views (isText : Bool)
deriving DecidableEq, Repr

/-- The names of types, without their parameters, with their storage. -/
def named : List (String × Storage) :=
  [("UInt8", .fixed 1), ("UInt16", .fixed 2), ("UInt32", .fixed 4), ("UInt64", .fixed 8),
    ("Float16", .fixed 2), ("Decimal256", .fixed 32), ("Date64", .fixed 8), ("Time32", .fixed 4),
    ("Time64", .fixed 8), ("Timestamp", .fixed 8), ("Duration", .fixed 8),
    ("LargeBinary", .long false), ("LargeUtf8", .long true), ("BinaryView", .views false),
    ("Utf8View", .views true)]

/-- The widths of intervals, by their full names. -/
def intervals : List (String × Storage) :=
  [("Interval(YearMonth)", .fixed 4), ("Interval(DayTime)", .fixed 8),
    ("Interval(MonthDayNano)", .fixed 16)]

/-- The storage of a type by its name. Types that are not listed may be of any width. -/
def storage (name : String) : Storage :=
  let plain := String.ofList (name.toList.takeWhile (· != '('))
  ((named.lookup plain).or (intervals.lookup name)).getD (.fixed 0)

/-- The longest byte string that stands in its slot. -/
def maxInline : Nat := 12

/-- The width of a slot of a byte string by reference. -/
def viewWidth : Nat := 16

/-- The byte string of a slot: its length in four bytes, and then itself, filled up with zeros, or
its first four bytes, the number of the buffer and the place there. -/
def viewed (buffers : List Bytes) (view : Bytes) : Except Fault Bytes :=
  let part (i : Nat) : Bytes := (view.drop (4 * i)).take 4
  let size := Bytes.toNat (part 0)
  if size ≤ maxInline then
    if ((view.drop (4 + size)).all (· == 0)) then .ok ((view.drop 4).take size)
    else .error .badOffsets
  else
    match buffers[Bytes.toNat (part 2)]? with
    | none => .error .badOffsets
    | some b =>
      match b.slice? (Bytes.toNat (part 3)) size with
      | some item => if item.take 4 = part 1 then .ok item else .error .badOffsets
      | none => .error .badOffsets

/-- Fails unless bytes are text, if they have to be. -/
def checkText (isText : Bool) (b : Bytes) : Except Fault Unit :=
  match isText, Utf8.decode b with
  | true, .error _ => .error .badText
  | _, _ => .ok ()

/-- Checks the buffers of a column of `n` values. -/
def check : Storage → (n : Nat) → List Bytes → Except Fault Unit
  | .fixed width, n, [data] => Layout.checkLength (width * n) data
  | .long isText, n, [offsets, data] => do
    let mayBegin (b : Bytes) (pos : Nat) : Bool := !isText || mayBeginText b pos
    (← Layout.readVarying longOffsetWidth mayBegin n offsets data).forM (checkText isText)
  | .views isText, n, views :: buffers => do
    Layout.checkLength (viewWidth * n) views
    (pieces viewWidth n views).forM fun view => do checkText isText (← viewed buffers view)
  | _, _, _ => .error .missingParts

/-- The layout of a type. -/
def layout (name : String) : Layout Unit :=
  let storage := storage name
  .dropped () (match storage with
    | .fixed _ => some 1
    | .long _ => some 2
    | .views _ => none) (check storage)

end Foreign

/-! ## The layouts of types

How the values of each type are stored.
-/

/-- Two's complement in `width` bytes. -/
def signed {α : Type} (width : Nat) (toInt : α → Int) (ofInt : Int → α) : Layout α :=
  .fixed width (fun x => Bytes.ofInt width (toInt x)) fun b => ofInt (Bytes.toInt b)

/-- A bit pattern in `width` bytes. -/
def pattern {α : Type} (width : Nat) (toNat : α → Nat) (ofNat : Nat → α) : Layout α :=
  .fixed width (fun x => Bytes.ofNat width (toNat x)) fun b => ofNat (Bytes.toNat b)

/-- How the values of a type are stored. -/
def layout : (t : ColumnType) → Layout t.Cell
  | .null => .nulls
  | .boolean => .bits id id
  | .int8 => signed 1 Int8.toInt Int8.ofInt
  | .int16 => signed 2 Int16.toInt Int16.ofInt
  | .int32 | .date32 => signed 4 Int32.toInt Int32.ofInt
  | .int64 | .timestampMicros | .duration _ => signed 8 Int64.toInt Int64.ofInt
  | .float32 => pattern 4 UInt32.toNat UInt32.ofNat
  | .float64 => pattern 8 UInt64.toNat UInt64.ofNat
  | .decimal128 _ _ => pattern 16 BitVec.toNat (BitVec.ofNat 128)
  | .utf8 => .varying Utf8.encode (fun b => (Utf8.decode b).toOption) mayBeginText
  | .binary => .varying id some fun _ _ => true
  | .foreign name => Foreign.layout name

/-! ## Compressed buffers

The buffers of a batch may be compressed, each on its own. What is stored for a buffer that is not
empty then begins with the length of its content in eight bytes; a length of -1 says that the
content follows as it is.
-/

/-- How buffers are compressed. -/
inductive BufferCodec where
  /-- By one LZ4 frame each. -/
  | lz4
  /-- By a Zstandard frame each. Only buffers that are empty or stored as they are can be read. -/
  | zstd
deriving DecidableEq, Repr

namespace BufferCodec

/-- The codec of a number in metadata. -/
def ofNumber? : Nat → Option BufferCodec
  | 0 => some lz4
  | 1 => some zstd
  | _ => none

/-- The content of what is compressed. -/
def decompress? : BufferCodec → Bytes → Option Bytes
  | lz4, b => Compression.Lz4Frame.decompress? b
  | zstd, _ => none

/-- The content of a stored buffer. -/
def content (c : BufferCodec) (stored : Bytes) : Except Fault Bytes :=
  if stored.isEmpty then .ok []
  else
    match stored.splitAt? 8 with
    | none => .error (.shortBuffer 8 stored.length)
    | some (size, b) =>
      let size := Bytes.toInt size
      if size = 0 then .ok []
      else if size = -1 then .ok b
      else
        match c.decompress? b with
        | none => .error .badCompression
        | some b => if size = b.length then .ok b else .error .badCompression

end BufferCodec

end Columnar.Stream
