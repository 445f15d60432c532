import Columnar.Compression.Compressor
import Columnar.Host
import Columnar.Settings
import Columnar.Stream.Message

/-!
# Blocks

A block is the stream of a group of batches, compressed or as it is. A codec says which, and readers
hand out the batches of the blocks of a buffer.
-/

namespace Columnar.Block

/-! ## Codecs

A codec fixes how blocks are compressed, if they are. Writer and readers of a block have to use
codecs of the same algorithm, for a block does not say by which one it was compressed.
-/

section

open Compression

/-- How blocks are coded; the default leaves them as they are. -/
structure Codec where
  /-- What compresses the blocks. -/
  compressor : Option Compressor := none
deriving DecidableEq, Repr

namespace Codec

/-- The codec that compresses as chosen. -/
def ofConfig (c : Config) : Except Error Codec :=
  return ⟨some (← Compressor.ofConfig c)⟩

/-- The codec that the settings ask for. They are checked first, wherever they come from. -/
def ofSettings (s : Settings) : Except Error Codec := do
  s.validate
  match s.blockCompression with
  | some c => ofConfig c
  | none => return {}

/-- The algorithm of the blocks, if they are compressed. -/
def algorithm? (c : Codec) : Option Algorithm :=
  c.compressor.map (·.algorithm)

/-- The block that holds a stream. -/
def compress (c : Codec) (stats : Stats) (stream : Bytes) : Bytes × Stats :=
  match c.compressor with
  | some p => p.compress stats stream
  | none => (stream, stats)

/-- The block that holds a group of batches, which share a schema. -/
def write (c : Codec) (stats : Stats) (group : List Batch) : Bytes × Stats :=
  c.compress stats (Stream.ofBatches group)

end Codec

end

/-! ## Readers

A reader hands out the batches of the blocks of a buffer one by one. It opens a block when it gets
there: it decompresses it, if blocks are compressed, and accounts for its bytes in the memory pool
as long as it is open. At the end of the last block, and at the first defect, the reader closes
itself. A closed reader holds nothing and has no batches.

* `Reader.next` is the next batch, or what is wrong with it.
* `openBlock` says what a block has to satisfy to be read.
* `conform` says which batches pass where a schema is expected.
-/

/-! ### Expected schemas -/

/-- Columns keep their lengths when they are put under other fields. -/
private theorem length_of_mem_zipWith {fields : List ColumnField} {columns : List NamedColumn}
    {rows : Nat} (h : ∀ c ∈ columns, c.column.length = rows) :
    ∀ c ∈ fields.zipWith (fun f c => (⟨f.name, f.nullable, c.column⟩ : NamedColumn)) columns,
      c.column.length = rows := by
  intro c hc
  rw [← List.map_uncurry_zip_eq_zipWith] at hc
  obtain ⟨⟨f, d⟩, hd, rfl⟩ := List.mem_map.1 hc
  exact h d (List.of_mem_zip hd).2

/-- The batch with the names of other fields, and with what they say about NULLs. -/
def relabel (fields : List ColumnField) (b : Batch) : Batch where
  rows := b.rows
  columns := fields.zipWith (fun f c => ⟨f.name, f.nullable, c.column⟩) b.columns
  length_eq := length_of_mem_zipWith b.length_eq

/-- Why a batch is not one of the expected schema. -/
inductive Mismatch where
  /-- It has another number of columns. -/
  | columns (expected actual : Nat)
  /-- A column has another type. -/
  | type (name : String) (expected actual : ColumnType)
  /-- A column holds NULL that may not. -/
  | null (name : String)
deriving DecidableEq, Repr

/-- The error of a mismatch. -/
def Mismatch.toError : Mismatch → Error
  | columns expected actual =>
    ⟨.corruptData, s!"expected {expected} columns, block has {actual}", none⟩
  | type name expected actual =>
    ⟨.corruptData, s!"column '{name}' expected {expected}, block has {actual}", none⟩
  | null name =>
    .wrap .corruptData "batch does not match the expected schema"
      (Stream.Fault.unexpectedNull name).text

/-- The first column whose type is not the expected one. -/
def typeMismatch? (fields : List ColumnField) (b : Batch) : Option Mismatch :=
  (fields.zip b.columns).findSome? fun (f, c) =>
    if f.type = c.column.type then none else some (.type f.name f.type c.column.type)

/-- The first column that holds NULL and may not. -/
def nullMismatch? (fields : List ColumnField) (b : Batch) : Option Mismatch :=
  (fields.zip b.columns).findSome? fun (f, c) =>
    if !f.nullable && c.column.markedNulls != 0 then some (.null f.name) else none

/-- The batch under an expected schema. An empty one accepts every batch as it is. -/
def conform (expected : List ColumnField) (b : Batch) : Except Mismatch Batch :=
  if expected.isEmpty then .ok b
  else if b.columns.length ≠ expected.length then
    .error (.columns expected.length b.columns.length)
  else
    match (typeMismatch? expected b).or (nullMismatch? expected b) with
    | some m => .error m
    | none => .ok (relabel expected b)

/-! ### Opening a block -/

/-- What may change while a block is being opened, and stays changed if that fails. -/
structure Lease where
  /-- The bytes that the reader has reserved. -/
  reserved : Nat
  /-- The host. -/
  host : Host

/-- Why a block cannot be opened. -/
inductive Obstacle where
  /-- There is no memory for it. -/
  | noMemory (size : Nat) (pool : Pool)
  /-- It cannot be decompressed. -/
  | badFrame (block : Nat) (algorithm : Compression.Algorithm) (cause : Error)
  /-- It does not end as a stream does. -/
  | noEndMarker (block : Nat)
  /-- It does not start as a stream does. -/
  | badStream (block : Nat) (fault : Stream.Fault)

/-- The error of an obstacle. -/
def Obstacle.toError : Obstacle → Error
  | noMemory size pool =>
    .wrap .resourceExhausted s!"Cannot reserve {size} bytes for a broadcast block"
      s!"{pool.reserved} of {pool.limit} bytes are reserved already"
  | badFrame block algorithm cause =>
    .wrap .corruptData s!"block {block} has a bad {algorithm} frame" cause.text
  | noEndMarker block =>
    ⟨.corruptData, s!"block {block} is truncated: no IPC end-of-stream marker", none⟩
  | badStream block fault =>
    .wrap .corruptData s!"block {block} is not a valid IPC stream" fault.text

/-- A step of opening a block. -/
abbrev Opening := ExceptT Obstacle (StateM Lease)

/-- Changes the reservation to `size` bytes. Without a pool all is allowed. -/
def reserve (size : Nat) : Opening Unit := do
  let l ← get
  match l.host.pool with
  | none => return
  | some pool =>
    match pool.resize l.reserved size with
    | some pool => set ({ reserved := size, host := { l.host with pool := some pool } } : Lease)
    | none => throw (.noMemory size pool)

/-- The stream of a block. Memory is reserved before a block is decompressed, for the length that it
declares or else its own; the reservation is put right when the length of the stream is known. -/
def decode (codec : Codec) (index : Nat) (block : Bytes) : Opening Bytes := do
  match codec.compressor with
  | none =>
    reserve block.length
    return block
  | some c =>
    reserve ((c.declaredSize? block).getD block.length)
    let l ← get
    let (r, stats) := c.decompress l.host.stats block
    set { l with host := { l.host with stats } }
    match r with
    | .error e => throw (.badFrame index c.algorithm e)
    | .ok stream =>
      reserve stream.length
      return stream

/-- Opens the block at a position. A stream that is cut between two messages would read as a shorter
one, so it has to end with the marker that ends streams. -/
def openBlock (codec : Codec) (index : Nat) (block : Bytes) : Opening Stream.Reader := do
  let stream ← decode codec index block
  if !Stream.endMarker.isSuffixOf stream then throw (.noEndMarker index)
  match Stream.Reader.ofBytes stream with
  | .error fault => throw (.badStream index fault)
  | .ok s =>
    modify fun l => { l with host := Journal.note (.opened index) l.host }
    return s

/-! ### Readers -/

/-- A reader at work. -/
structure Position where
  /-- The buffer it reads. -/
  buffer : Buffer
  /-- How many blocks it has come to. -/
  visited : Nat
  /-- The blocks it has not come to. -/
  rest : List Bytes
  /-- What is left of the block it is at. -/
  current : Option Stream.Reader
  /-- The bytes it has reserved. -/
  reserved : Nat
deriving DecidableEq, Repr

/-- A reader of a buffer. -/
structure Reader where
  /-- How the blocks are coded. -/
  codec : Codec
  /-- The schema that every batch has to have, or none. -/
  expected : List ColumnField
  /-- Where it is, unless it is closed. -/
  position : Option Position
deriving DecidableEq, Repr

namespace Reader

/-- Starts to read a buffer. -/
def start (codec : Codec) (fields : List Field) (buffer : Buffer) (h : Host) : Reader × Host :=
  (⟨codec, fields.map Field.stored, some ⟨buffer, 0, buffer.blocks, none, 0⟩⟩, h.retain buffer.id)

/-- Whether the block that is being read is read where it stands in the buffer. -/
def readsInPlace (r : Reader) (p : Position) : Bool :=
  r.codec.compressor.isNone && p.current.isSome

/-- Gives up the block that is being read. -/
def finishBlock (r : Reader) (p : Position) (h : Host) : Position × Host :=
  let h := h.free p.reserved
  ({ p with current := none, reserved := 0 },
    if r.readsInPlace p then h.release p.buffer.id else h)

/-- Closes a reader: it gives up everything it holds. -/
def close (r : Reader) (h : Host) : Reader × Host :=
  match r.position with
  | none => (r, h)
  | some p =>
    let (p, h) := r.finishBlock p h
    ({ r with position := none }, h.release p.buffer.id)

/-- Why a block that was opened cannot be read further. -/
inductive Defect where
  /-- It has a message that cannot be read. -/
  | badMessage (block : Nat) (fault : Stream.Fault)
  /-- It has a batch of another schema. -/
  | mismatch (m : Mismatch)

/-- The error of a defect. -/
def Defect.toError : Defect → Error
  | badMessage block fault =>
    .wrap .corruptData s!"block {block} has an invalid IPC message" fault.text
  | mismatch m => m.toError

/-- The next batch of the block that is being read. -/
def nextInBlock (r : Reader) (p : Position) (s : Stream.Reader) :
    Except Defect (Option (Batch × Stream.Reader)) :=
  match s.next with
  | .error fault => .error (.badMessage (p.visited - 1) fault)
  | .ok none => .ok none
  | .ok (some (b, s)) =>
    match conform r.expected b with
    | .error m => .error (.mismatch m)
    | .ok b => .ok (some (b, s))

/-- Closes the reader that is at a position, and hands out `item` as the last one. -/
def finish (r : Reader) (p : Position) (item : Item) (h : Host) : Item × Reader × Host :=
  (item, { r with position := some p }.close h)

/-- Opens blocks from a position on, up to one that has a batch. No block is being read at the
position. -/
def nextBlock (r : Reader) (p : Position) : List Bytes → Host → Item × Reader × Host
  | [], h => r.finish p none h
  | block :: rest, h =>
    let (outcome, lease) := (openBlock r.codec p.visited block).run ⟨p.reserved, h⟩
    let p := { p with visited := p.visited + 1, rest, reserved := lease.reserved }
    match outcome with
    | .error o => r.finish p (some (.error o.toError)) lease.host
    | .ok s =>
      let p := { p with current := some s }
      let h := if r.readsInPlace p then lease.host.retain p.buffer.id else lease.host
      match r.nextInBlock p s with
      | .error d => r.finish p (some (.error d.toError)) h
      | .ok (some (b, s)) =>
        (some (.ok b), { r with position := some { p with current := some s } }, h)
      | .ok none =>
        let (p, h) := r.finishBlock p h
        r.nextBlock p rest h

/-- The next batch of a reader, or what is wrong with it. -/
def next (r : Reader) (h : Host) : Item × Reader × Host :=
  match r.position with
  | none => (none, r, h)
  | some p =>
    match p.current with
    | none => r.nextBlock p p.rest h
    | some s =>
      match r.nextInBlock p s with
      | .error d => r.finish p (some (.error d.toError)) h
      | .ok (some (b, s)) =>
        (some (.ok b), { r with position := some { p with current := some s } }, h)
      | .ok none =>
        let (p, h) := r.finishBlock p h
        r.nextBlock p p.rest h

/-! ### Progress -/

/-- What a reader has before it: blocks that it has not come to, and bytes of the block it is at. -/
def left (r : Reader) : Nat × Nat :=
  match r.position with
  | none => (0, 0)
  | some p => (p.rest.length, (p.current.map fun s => s.rest.length).getD 0)

/-- Less of what is before a reader. -/
def Less : Nat × Nat → Nat × Nat → Prop :=
  Prod.Lex (· < ·) (· < ·)

/-- A batch is taken out of the stream of its block. -/
private theorem nextInBlock_shortens {r : Reader} {p : Position} {s t : Stream.Reader} {b : Batch}
    (h : r.nextInBlock p s = .ok (some (b, t))) : t.rest.length < s.rest.length := by
  unfold nextInBlock at h
  split at h
  · simp at h
  · simp at h
  · next c u hn =>
    split at h
    · simp at h
    · simp only [Except.ok.injEq, Option.some.injEq, Prod.mk.injEq] at h
      obtain ⟨-, rfl⟩ := h
      exact Stream.Reader.next_shortens hn

/-- A block that was opened is no longer left. -/
private theorem nextBlock_left {r r' : Reader} {p : Position} {blocks : List Bytes} {h h' : Host}
    {b : Batch} (hn : r.nextBlock p blocks h = (some (.ok b), r', h')) :
    r'.left.1 < blocks.length := by
  induction blocks generalizing p h with
  | nil => simp [nextBlock, finish] at hn
  | cons block rest ih =>
    simp only [nextBlock] at hn
    generalize (openBlock r.codec p.visited block).run ⟨p.reserved, h⟩ = opened at hn
    obtain ⟨outcome, lease⟩ := opened
    dsimp only at hn
    split at hn
    · simp [finish] at hn
    · split at hn
      · simp [finish] at hn
      · simp only [Prod.mk.injEq] at hn
        rw [← hn.2.1]
        simp [left]
      · exact Nat.lt_succ_of_lt (ih hn)

/-- With every batch, a reader has less before it. -/
theorem next_left {r r' : Reader} {h h' : Host} {b : Batch}
    (hn : r.next h = (some (.ok b), r', h')) : Less r'.left r.left := by
  unfold next at hn
  split at hn
  · simp at hn
  · next p hp =>
    have hl : r.left = (p.rest.length, (p.current.map fun s => s.rest.length).getD 0) := by
      simp [left, hp]
    split at hn
    · rw [hl]
      exact .left _ _ (nextBlock_left hn)
    · next s hs =>
      split at hn
      · simp [finish] at hn
      · next c t hb =>
        simp only [Prod.mk.injEq] at hn
        rw [hl, ← hn.2.1]
        simpa [left, hs, Less] using Prod.Lex.right _ (nextInBlock_shortens hb)
      · rw [hl]
        exact .left _ _ (nextBlock_left hn)

/-- All that a reader still hands out. -/
def drain (r : Reader) (h : Host) : List (Except Error Batch) × Reader × Host :=
  match _ : r.next h with
  | (some (.ok b), r, h) =>
    let (items, r, h) := r.drain h
    (.ok b :: items, r, h)
  | (some (.error e), r, h) => ([.error e], r, h)
  | (none, r, h) => ([], r, h)
termination_by r.left
decreasing_by exact next_left ‹_›

end Reader

end Columnar.Block
