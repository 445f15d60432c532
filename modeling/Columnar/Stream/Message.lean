import Columnar.Stream.Layout
import Columnar.Stream.Metadata

/-!
# Messages and streams

A stream is a sequence of messages: one with a schema, one for each batch, and a marker at the end.
-/

namespace Columnar.Stream

/-! ## Messages

A stream is a sequence of messages. A message has metadata, which tell its kind and the length of
its body, and a body, which holds the buffers of the columns of a batch. Before the metadata stands
their length, and a marker before that, which older writers leave out. A length of zero ends the
stream; so does the end of the bytes where a message would start.
-/

section

open FlatBuffer (Part Table)

/-! ### Batches -/

/-- What the metadata of a batch say about one column. -/
structure Node where
  /-- The number of slots. -/
  length : Int
  /-- The number of NULLs. -/
  nulls : Int
deriving DecidableEq, Repr

/-- The place of a buffer in a body. -/
structure Span where
  /-- Where it starts. -/
  start : Int
  /-- How many bytes it has. -/
  length : Int
deriving DecidableEq, Repr

/-- The metadata of a batch. -/
structure BatchHeader where
  /-- The number of rows. -/
  rows : Nat
  /-- The columns. -/
  nodes : List Node
  /-- The buffers of all columns. -/
  spans : List Span
  /-- The numbers of buffers of those columns that do not have a fixed one. -/
  counts : List Int := []
  /-- How the buffers are compressed, if they are. -/
  codec : Option BufferCodec := none
deriving DecidableEq, Repr

/-- What is left to be taken by further columns. -/
structure Parts where
  /-- The metadata. -/
  header : BatchHeader
  /-- The body. -/
  body : Bytes

/-- A length, which must not be negative. -/
def natural (length : Int) : Except Fault Nat :=
  if length < 0 then .error (.badLength length) else .ok length.toNat

namespace Parts

/-- Takes what is known about the next column. -/
def node : StateT Parts (Except Fault) Node := fun p =>
  match p.header.nodes with
  | [] => .error .missingParts
  | n :: nodes => .ok (n, { p with header.nodes := nodes })

/-- Takes the next buffer. -/
def buffer : StateT Parts (Except Fault) Bytes := fun p =>
  match p.header.spans with
  | [] => .error .missingParts
  | s :: spans =>
    match natural s.start, natural s.length with
    | .ok start, .ok length =>
      match p.body.slice? start length with
      | none => .error .outsideBody
      | some b =>
        let content := match p.header.codec with
          | some codec => codec.content b
          | none => .ok b
        content.map fun b => (b, { p with header.spans := spans })
    | _, _ => .error .outsideBody

/-- Takes `n` buffers. -/
def buffers : (n : Nat) → StateT Parts (Except Fault) (List Bytes)
  | 0 => return []
  | n + 1 => return (← buffer) :: (← buffers n)

/-- Takes the number of buffers of the next column that does not have a fixed one. -/
def count : StateT Parts (Except Fault) Nat := fun p =>
  match p.header.counts with
  | [] => .error .missingParts
  | n :: counts => (natural n).map fun n => (n, { p with header.counts := counts })

/-- Takes the slots of a column. -/
def slots {α : Type} (l : Layout α) : StateT Parts (Except Fault) (List (Option α)) := do
  let node ← node
  let length ← natural node.length
  match l with
  | .nulls =>
    if node.nulls ≠ length then throw (.badNullCount length node.nulls)
    return List.replicate length none
  | l =>
    let validity ← buffer
    let n ← match l.buffers? with
      | some n => pure n
      | none => (· + 1) <$> count
    let values ← l.readValues length (← buffers n)
    Layout.mark node.nulls validity values

/-- Takes a column. -/
def column (f : ColumnField) : StateT Parts (Except Fault) NamedColumn := do
  let c : Column := ⟨f.type, ← slots (layout f.type)⟩
  if !f.nullable && c.markedNulls != 0 then throw (.unexpectedNull f.name)
  return ⟨f.name, f.nullable, c⟩

/-- Takes columns. -/
def columns : List ColumnField → StateT Parts (Except Fault) (List NamedColumn)
  | [] => return []
  | f :: fields => return (← column f) :: (← columns fields)

end Parts

/-- Reads a batch under a schema. -/
def readBatch (fields : List ColumnField) (header : BatchHeader) (body : Bytes) :
    Except Fault Batch := do
  let (columns, _) ← (Parts.columns fields).run ⟨header, body⟩
  match Batch.ofColumns? header.rows columns with
  | some b => return b
  | none => throw .unevenColumns

/-! ### Metadata -/

/-- A structure of two numbers of eight bytes. -/
def pairOfBytes (b : Bytes) : Int × Int :=
  (Bytes.toInt (b.take 8), Bytes.toInt (b.drop 8))

/-- Reads the metadata of a batch. -/
def readBatchHeader (t : Table) : Except Fault BatchHeader := do
  let some rows := t.intAt? 8 0 0 | throw .badMetadata
  let some nodes := t.structsAt? 16 1 | throw .badMetadata
  let some spans := t.structsAt? 16 2 | throw .badMetadata
  let counts ← match t.slot 4 with
    | none => pure []
    | some _ =>
      match t.structsAt? 8 4 with
      | some counts => pure counts
      | none => throw .badMetadata
  let codec ← match t.slot 3 with
    | none => pure none
    | some _ =>
      match (t.tableAt? 3).bind (·.natAt? 1 0 0) with
      | some number =>
        match BufferCodec.ofNumber? number with
        | some codec => pure (some codec)
        | none => throw .badCompression
      | none => throw .badMetadata
  return {
    -- Without columns nothing contradicts a negative number; it counts modulo `2 ^ 64`.
    rows := (rows % 2 ^ 64).toNat
    nodes := nodes.map fun b => ⟨(pairOfBytes b).1, (pairOfBytes b).2⟩
    spans := spans.map fun b => ⟨(pairOfBytes b).1, (pairOfBytes b).2⟩
    counts := counts.map Bytes.toInt
    codec }

/-- What a message is. -/
inductive Header where
  /-- Nothing. -/
  | empty
  /-- A schema. -/
  | schema (fields : List ColumnField)
  /-- A batch. -/
  | batch (header : BatchHeader)
  /-- Something else, by the number of its kind. -/
  | other (kind : Nat)
deriving DecidableEq, Repr

namespace Header

/-- The number of the kind of a message. -/
def kind : Header → Nat
  | empty => 0
  | schema _ => 1
  | batch _ => 3
  | other kind => kind

/-- Reads metadata: what the message is, and the length of its body. -/
def read (metadata : Bytes) : Except Fault (Header × Int) := do
  if !isMetadata metadata then throw .badMetadata
  let some t := Table.root? metadata | throw .badMetadata
  let some kind := t.natAt? 1 1 0 | throw .badMetadata
  let some bodyLength := t.intAt? 8 3 0 | throw .badMetadata
  match kind, t.tableAt? 2 with
  | 0, _ => return (empty, bodyLength)
  | 1, some t =>
    match readSchema? t with
    | some fields => return (schema fields, bodyLength)
    | none => throw .badMetadata
  | 3, some t => return (batch (← readBatchHeader t), bodyLength)
  | kind, some _ => return (other kind, bodyLength)
  | _, none => throw .badMetadata

/-- The table of a batch. -/
def batchPart (h : BatchHeader) : Part :=
  .table [.long h.rows,
    .part (.structs (h.nodes.map fun n => Bytes.ofInt 8 n.length ++ Bytes.ofInt 8 n.nulls)),
    .part (.structs (h.spans.map fun s => Bytes.ofInt 8 s.start ++ Bytes.ofInt 8 s.length))]

/-- The version of the format, as metadata show it. -/
def version : Nat := 4

/-- The metadata of a message with a body of so many bytes. -/
def write (h : Header) (bodyLength : Nat) : Bytes :=
  let content : FlatBuffer.Slot := match h with
    | schema fields => .part (schemaPart fields)
    | batch header => .part (batchPart header)
    | empty | other _ => .missing
  FlatBuffer.ofRoot (.table [.word version, .word h.kind, content, .long bodyLength])

end Header

/-! ### Framing -/

/-- The marker before the length of metadata. -/
def continuation : Bytes :=
  [0xFF, 0xFF, 0xFF, 0xFF]

/-- What ends a stream: the marker and a length of zero. -/
def endMarker : Bytes :=
  continuation ++ [0, 0, 0, 0]

/-- Messages and buffers are laid out in multiples of so many bytes. -/
def alignment : Nat := 64

/-- A message. -/
structure Message where
  /-- What it is. -/
  header : Header
  /-- Its body. -/
  body : Bytes
deriving DecidableEq, Repr

namespace Message

/-- Splits off the first bytes of a message. -/
def take (n : Nat) (b : Bytes) : Except Fault (Bytes × Bytes) :=
  match Bytes.splitAt? n b with
  | some r => .ok r
  | none => .error .truncated

/-- What a length in front of metadata says: that the stream ends, or how long the metadata are. -/
def lengthOf (word rest : Bytes) : Except Fault (Option (Nat × Bytes)) :=
  let length := Bytes.toInt word
  if length = 0 then .ok none
  else if length < 0 then .error (.badLength length)
  else .ok (some (length.toNat, rest))

/-- Reads the length of the metadata, unless the stream ends. -/
def readLength (b : Bytes) : Except Fault (Option (Nat × Bytes)) :=
  match b.splitAt? 4 with
  | none => .ok none
  | some (word, rest) =>
    if word = continuation then
      match take 4 rest with
      | .ok (word, rest) => lengthOf word rest
      | .error e => .error e
    else lengthOf word rest

/-- Reads the length and the metadata of the next message: what it is, the length of its body, and
the bytes from the body on. At the end of the stream there is none. -/
def readHeader (b : Bytes) : Except Fault (Option ((Header × Int) × Bytes)) :=
  match readLength b with
  | .error e => .error e
  | .ok none => .ok none
  | .ok (some (length, b)) =>
    match take length b with
    | .error e => .error e
    | .ok (metadata, rest) => (Header.read metadata).map fun h => some (h, rest)

/-- Reads the body of a message. Only batches have one; the length of others says nothing. -/
def readBody (h : Header × Int) (b : Bytes) : Except Fault (Message × Bytes) :=
  match h with
  | (.batch header, length) =>
    match natural length with
    | .error e => .error e
    | .ok length => (take length b).map fun (body, rest) => (⟨.batch header, body⟩, rest)
  | (header, _) => .ok (⟨header, []⟩, b)

/-- Reads the next message, and returns the bytes after it. At the end of the stream there is
none. -/
def read (b : Bytes) : Except Fault (Option (Message × Bytes)) :=
  match readHeader b with
  | .error e => .error e
  | .ok none => .ok none
  | .ok (some (h, b)) => (readBody h b).map some

/-- Bytes that are split off are missing from the rest. -/
private theorem length_splitAt? {n : Nat} {b front rest : Bytes}
    (h : Bytes.splitAt? n b = some (front, rest)) : b.length = n + rest.length := by
  simp only [Bytes.splitAt?, List.splitAt_eq] at h
  split at h
  · next hl =>
    simp only [Option.some.injEq, Prod.mk.injEq] at h
    rw [List.length_take] at hl
    rw [← h.2, List.length_drop]
    omega
  · simp at h

private theorem length_take {n : Nat} {b front rest : Bytes} (h : take n b = .ok (front, rest)) :
    b.length = n + rest.length := by
  unfold take at h
  split at h
  · simp_all [length_splitAt? ‹_›]
  · simp at h

private theorem length_lengthOf {word rest : Bytes} {r : Nat × Bytes}
    (h : lengthOf word rest = .ok (some r)) : r.2 = rest := by
  unfold lengthOf at h
  simp only at h
  split at h
  · simp at h
  · split at h <;> simp at h
    rw [← h]

/-- The length of the metadata takes at least one byte. -/
private theorem length_readLength {b : Bytes} {r : Nat × Bytes} (h : readLength b = .ok (some r)) :
    r.2.length < b.length := by
  unfold readLength at h
  split at h
  · simp at h
  · next word rest hw =>
    have := length_splitAt? hw
    split at h
    · split at h
      · next word' rest' ht =>
        have := length_take ht
        rw [length_lengthOf h]
        omega
      · simp at h
    · rw [length_lengthOf h]
      omega

/-- The header of a message takes at least one byte, so the reading of messages comes to an end. -/
private theorem length_readHeader {b rest : Bytes} {h : Header × Int}
    (hr : readHeader b = .ok (some (h, rest))) : rest.length < b.length := by
  unfold readHeader at hr
  split at hr
  · simp at hr
  · simp at hr
  · next n b' hl =>
    split at hr
    · simp at hr
    · next metadata rest' ht =>
      cases hm : Header.read metadata with
      | error e => simp [hm, Except.map] at hr
      | ok k =>
        simp only [hm, Except.map, Except.ok.injEq, Option.some.injEq, Prod.mk.injEq] at hr
        have := length_take ht
        have : b'.length < b.length := length_readLength hl
        rw [← hr.2]
        omega

private theorem length_readBody {h : Header × Int} {b rest : Bytes} {m : Message}
    (hr : readBody h b = .ok (m, rest)) : rest.length ≤ b.length := by
  unfold readBody at hr
  split at hr
  · split at hr
    · simp at hr
    · next n _ =>
      cases ht : take n b with
      | error e => simp [ht, Except.map] at hr
      | ok r =>
        simp only [ht, Except.map, Except.ok.injEq, Prod.mk.injEq] at hr
        have := length_take ht
        rw [← hr.2]
        omega
  · simp only [Except.ok.injEq, Prod.mk.injEq] at hr
    exact Nat.le_of_eq (congrArg List.length hr.2.symm)

/-- A message takes some bytes. -/
theorem read_shortens {b rest : Bytes} {m : Message} (h : read b = .ok (some (m, rest))) :
    rest.length < b.length := by
  unfold read at h
  split at h
  · simp at h
  · simp at h
  · next k b' hl =>
    cases hc : readBody k b' with
    | error e => simp [hc, Except.map] at h
    | ok r =>
      simp only [hc, Except.map, Except.ok.injEq, Option.some.injEq] at h
      subst h
      exact Nat.lt_of_le_of_lt (length_readBody hc) (length_readHeader hl)

/-- The bytes of a message. -/
def write (m : Message) : Bytes :=
  let metadata := m.header.write m.body.length
  let metadata := metadata ++ Bytes.padding alignment (8 + metadata.length)
  continuation ++ Bytes.ofNat 4 metadata.length ++ metadata ++ m.body

/-- The places of buffers in a body, the first one at `pos`. -/
def spans (pos : Nat) : List Bytes → List Span
  | [] => []
  | b :: buffers =>
    ⟨pos, b.length⟩ :: spans (pos + (b ++ Bytes.padding alignment b.length).length) buffers

/-- What is said about a column. -/
def node (c : Column) : Node :=
  ⟨c.length, (layout c.type).nullCount c.slots⟩

/-- The buffers of a column. -/
def buffers (c : Column) : List Bytes :=
  (layout c.type).write c.slots

/-- The message that holds a batch. -/
def ofBatch (b : Batch) : Message :=
  let columns := b.columns.map (·.column)
  let all := columns.flatMap buffers
  ⟨.batch { rows := b.rows, nodes := columns.map node, spans := spans 0 all },
    all.flatMap fun b => b ++ Bytes.padding alignment b.length⟩

/-- The message that holds a schema. -/
def ofSchema (fields : List ColumnField) : Message :=
  ⟨.schema fields, []⟩

end Message

end

/-! ## Streams

A stream holds the batches of one schema: a message with the schema, one for each batch, and a
marker at the end.
-/

/-- The stream of some batches under a schema. Each batch is written as it is; that it has the
schema is not checked. -/
def write (fields : List ColumnField) (batches : List Batch) : Bytes :=
  (Message.ofSchema fields).write ++
    (batches.flatMap fun b => (Message.ofBatch b).write) ++ endMarker

/-- The stream of batches that share a schema, taken from the first one; without any it has no
columns. -/
def ofBatches (batches : List Batch) : Bytes :=
  write ((batches.head?.map Batch.schema).getD []) batches

/-- A stream that is being read. -/
structure Reader where
  /-- The schema. -/
  fields : List ColumnField
  /-- The messages that have not been read. -/
  rest : Bytes
deriving DecidableEq, Repr

namespace Reader

/-- Starts to read a stream: its first message has to be the schema. The next one follows its
metadata, whatever they say about a body. -/
def ofBytes (b : Bytes) : Except Fault Reader := do
  match ← Message.readHeader b with
  | none => throw .noSchema
  | some ((.schema fields, _), rest) => return ⟨fields, rest⟩
  | some ((header, _), _) => throw (.unexpectedMessage header.kind)

/-- Reads the next batch, if there is one. -/
def next (r : Reader) : Except Fault (Option (Batch × Reader)) :=
  match Message.read r.rest with
  | .error e => .error e
  | .ok none | .ok (some (⟨.empty, _⟩, _)) => .ok none
  | .ok (some (⟨.batch header, body⟩, rest)) =>
    (readBatch r.fields header body).map fun b => some (b, { r with rest })
  | .ok (some (⟨header, _⟩, _)) => .error (.unexpectedMessage header.kind)

/-- With every batch, some bytes have been read. -/
theorem next_shortens {r s : Reader} {b : Batch} (h : r.next = .ok (some (b, s))) :
    s.rest.length < r.rest.length := by
  unfold next at h
  split at h
  · simp at h
  · simp at h
  · simp at h
  · next header body rest hm =>
    cases hb : readBatch r.fields header body with
    | error e => simp [hb, Except.map] at h
    | ok c =>
      simp only [hb, Except.map, Except.ok.injEq, Option.some.injEq, Prod.mk.injEq] at h
      obtain ⟨-, rfl⟩ := h
      exact Message.read_shortens hm
  · simp at h

end Reader

end Columnar.Stream
