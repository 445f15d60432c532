import Columnar.Proofs.Stream.Schema
import Columnar.Stream.Message

/-!
# Metadata read back

The metadata that are written for a schema or a batch, with whatever zeros follow them, are accepted
as metadata and say what they were written for. Two limits of readers are met: no more than
`FlatBuffer.maxTables` tables, two of which each field takes, and numbers of eight bytes with a
sign.
-/

namespace Columnar.Stream

open FlatBuffer

/-! ### Batches -/

/-- A number that eight bytes with a sign hold, and that is not negative. -/
def IsLength (n : Int) : Prop :=
  0 ≤ n ∧ n < 2 ^ 63

/-- What is said about a batch can be written: all numbers are lengths, every column has as many
buffers as its type says, and none is compressed. -/
structure BatchHeader.IsWritable (h : BatchHeader) : Prop where
  /-- The rows can be counted. -/
  rows : h.rows < 2 ^ 63
  /-- The slots of columns and the NULLs among them can be counted. -/
  nodes : ∀ n ∈ h.nodes, IsLength n.length ∧ IsLength n.nulls
  /-- Places in the body can be counted. -/
  spans : ∀ s ∈ h.spans, IsLength s.start ∧ IsLength s.length
  /-- No column counts its buffers. -/
  counts : h.counts = []
  /-- No buffer is compressed. -/
  codec : h.codec = none

/-- Two numbers of eight bytes each. -/
private def bytesOfPair (p : Int × Int) : Bytes :=
  Bytes.ofInt 8 p.1 ++ Bytes.ofInt 8 p.2

private theorem pairOfBytes_bytesOfPair {p : Int × Int} (h : IsLength p.1 ∧ IsLength p.2) :
    pairOfBytes (bytesOfPair p) = p := by
  have hint {n : Int} (hn : IsLength n) : Bytes.toInt (Bytes.ofInt 8 n) = n := by
    obtain ⟨hlow, hhigh⟩ := hn
    exact Bytes.toInt_ofInt (by omega) (by omega)
  simp [pairOfBytes, bytesOfPair, hint h.1, hint h.2]

/-- Pairs of numbers read back from their structures. -/
private theorem map_pairOfBytes {α : Type} {f : Int × Int → α} {pair : α → Int × Int}
    {items : List α}
    (hf : ∀ a, f (pair a) = a) (h : ∀ a ∈ items, IsLength (pair a).1 ∧ IsLength (pair a).2) :
    ((items.map fun a => bytesOfPair (pair a)).map fun b => f (pairOfBytes b)) = items := by
  rw [List.map_map]
  conv => rhs; rw [← List.map_id items]
  refine List.map_congr_left fun a ha => ?_
  rw [Function.comp_apply, pairOfBytes_bytesOfPair (h a ha), hf, id]

private def batchSlots (h : BatchHeader) : List FlatBuffer.Slot :=
  [.long h.rows, .part (.structs (h.nodes.map fun n => bytesOfPair (n.length, n.nulls))),
    .part (.structs (h.spans.map fun s => bytesOfPair (s.start, s.length)))]

private theorem length_of_mem {α : Type} {pair : α → Int × Int} {items : List α} {s : Bytes}
    (hs : s ∈ items.map fun a => bytesOfPair (pair a)) : s.length = 16 := by
  obtain ⟨a, -, rfl⟩ := List.mem_map.1 hs
  simp [bytesOfPair]

private theorem isLaidOut_batchSlots (h : BatchHeader) : ∀ s ∈ batchSlots h, s.IsLaidOut := by
  intro s hs
  simp only [batchSlots, List.mem_cons, List.not_mem_nil, or_false] at hs
  rcases hs with rfl | rfl | rfl
  · trivial
  · exact Part.structs_isLaidOut fun s hs => length_of_mem hs ▸ by decide
  · exact Part.structs_isLaidOut fun s hs => length_of_mem hs ▸ by decide

private theorem isLaidOut_batchPart (h : BatchHeader) : (Header.batchPart h).IsLaidOut :=
  Part.table_isLaidOut (isLaidOut_batchSlots h)

/-- The table of a batch takes sixteen bytes for each column and for each buffer. -/
private theorem length_batchPart_le (h : BatchHeader) :
    (Header.batchPart h).bytes.length ≤ 82 + 16 * (h.nodes.length + h.spans.length) := by
  have htable := Part.length_table_le (batchSlots h)
  have hnodes : (Part.structs (h.nodes.map fun n => bytesOfPair (n.length, n.nulls))).bytes.length =
      8 + 16 * h.nodes.length := by
    rw [Part.length_structs fun _ => length_of_mem, List.length_map]
  have hspans : (Part.structs (h.spans.map fun s => bytesOfPair (s.start, s.length))).bytes.length =
      8 + 16 * h.spans.length := by
    rw [Part.length_structs fun _ => length_of_mem, List.length_map]
  simp only [batchSlots, List.flatMap_cons, List.flatMap_nil, FlatBuffer.Slot.partBytes,
    List.length_append, List.length_cons, List.length_nil, List.nil_append] at htable
  have hpart : Header.batchPart h = Part.table (batchSlots h) := rfl
  rw [hpart, batchSlots]
  omega

private theorem batchPart_isAt {h : BatchHeader} {b : Bytes} {pos : Nat}
    (hp : (Header.batchPart h).IsAt b pos) (hb : b.length < maxLength) :
    ∃ t, FlatBuffer.tableAt? b pos = some t ∧ t.buffer = b ∧
      ∀ i : Nat, Slot.IsAt t i ((batchSlots h)[i]?.getD .missing) :=
  Part.table_isAt hp hb (by decide : 3 ≤ maxSlots) (isLaidOut_batchSlots h)

/-- What is said about a batch reads back from its table. -/
theorem readBatchHeader_batchPart {h : BatchHeader} (hw : h.IsWritable) {b : Bytes} {pos : Nat}
    (hp : (Header.batchPart h).IsAt b pos) (hb : b.length < maxLength) :
    ∃ t, Table.ofPos? b pos = some t ∧ readBatchHeader t = .ok h := by
  obtain ⟨t, ht, hbuffer, hslots⟩ := batchPart_isAt hp hb
  subst hbuffer
  have hrows : t.intAt? 8 0 0 = some (h.rows : Int) := Table.intAt?_of_long (hslots 0) hw.rows 0
  have hnodes : t.structsAt? 16 1 = some (h.nodes.map fun n => bytesOfPair (n.length, n.nulls)) :=
    Table.structsAt?_of_part (hslots 1) hb (by decide) fun _ => length_of_mem
  have hspans : t.structsAt? 16 2 = some (h.spans.map fun s => bytesOfPair (s.start, s.length)) :=
    Table.structsAt?_of_part (hslots 2) hb (by decide) fun _ => length_of_mem
  have hcodec : t.slot 3 = none := hslots 3
  have hcounts : t.slot 4 = none := hslots 4
  refine ⟨t, ofPos?_of_tableAt? ht, ?_⟩
  -- What is read, before the numbers are known to be those that were written.
  have hread : readBatchHeader t = .ok {
      rows := ((h.rows : Int) % 2 ^ 64).toNat
      nodes := (h.nodes.map fun n => bytesOfPair (n.length, n.nulls)).map fun b =>
        ⟨(pairOfBytes b).1, (pairOfBytes b).2⟩
      spans := (h.spans.map fun s => bytesOfPair (s.start, s.length)).map fun b =>
        ⟨(pairOfBytes b).1, (pairOfBytes b).2⟩ } := by
    simp only [readBatchHeader, hrows, hnodes, hspans, hcodec, hcounts]
    rfl
  have hrowsEq : ((h.rows : Int) % 2 ^ 64).toNat = h.rows := by
    have := hw.rows
    omega
  rw [hread, hrowsEq, map_pairOfBytes (f := fun p => (⟨p.1, p.2⟩ : Node)) (fun _ => rfl) hw.nodes,
    map_pairOfBytes (f := fun p => (⟨p.1, p.2⟩ : Span)) (fun _ => rfl) hw.spans]
  obtain ⟨rows, nodes, spans, counts, codec⟩ := h
  cases hw.counts
  cases hw.codec
  rfl

/-- The table of a batch passes the check. -/
private theorem checkTable_batchPart {h : BatchHeader} {b : Bytes} {pos depth left : Nat}
    (hp : (Header.batchPart h).IsAt b pos) (hb : b.length < maxLength) :
    checkTable MetadataTable.shapes b (depth + 1) .batch pos (left + 1) = some left := by
  obtain ⟨t, ht, hbuffer, hslots⟩ := batchPart_isAt hp hb
  subst hbuffer
  rw [checkTable_of_tableAt? ht rfl]
  refine foldlM_checkSlot fun e he => ?_
  simp only [MetadataTable.shapes, List.mem_cons, List.not_mem_nil, or_false] at he
  rcases he with rfl | rfl | rfl | rfl | rfl
  · exact checkSlot_long (hslots 0)
  · exact checkSlot_structs (hslots 1) hb (by decide) fun _ => length_of_mem
  · exact checkSlot_structs (hslots 2) hb (by decide) fun _ => length_of_mem
  · exact checkSlot_missing (hslots 3) rfl
  · exact checkSlot_missing (hslots 4) rfl

/-! ### Messages -/

private theorem isLaidOut_messageSlots {p : Part} (hp : p.IsLaidOut) (kind length : Nat) :
    ∀ s ∈ [FlatBuffer.Slot.word Header.version, .word kind, .part p, .long length],
      s.IsLaidOut := by
  intro s hs
  simp only [List.mem_cons, List.not_mem_nil, or_false] at hs
  rcases hs with rfl | rfl | rfl | rfl
  · trivial
  · trivial
  · exact hp
  · trivial

/-- Metadata with a content that passes the check are metadata, and lead to that content. -/
private theorem root?_of_part {p : Part} (hp : p.IsLaidOut) {kind length : Nat} (hkind : kind < 256)
    (hlength : length < 2 ^ 63) {table : MetadataTable} (left : Nat)
    (htable : MetadataTable.content? kind = some table) {b : Bytes} (hb : b.length < maxLength)
    (hholds : b.Holds 0
      (ofRoot (.table [.word Header.version, .word kind, .part p, .long length])))
    (hcheck : ∀ target, p.IsAt b target →
      checkTable MetadataTable.shapes b 63 table (target + p.entry) 999999 = some left) :
    isMetadata b = true ∧ ∃ t, Table.root? b = some t ∧ t.natAt? 1 1 0 = some kind ∧
      t.intAt? 8 3 0 = some (length : Int) ∧ t.buffer = b ∧
      ∃ target, t.childAt? 2 = some (target + p.entry) ∧ p.IsAt b target := by
  have hroot := hholds.right
  have hfollow : follow? 0 b = some 8 := follow?_of_holds (n := 8) hholds.left.left (by decide)
  simp only [List.length_append, Bytes.length_ofNat, Nat.zero_add, Nat.reduceAdd] at hroot
  obtain ⟨t, ht, hbuffer, hslots⟩ := Part.table_isAt ⟨by decide, hroot⟩ hb
    (by decide : 4 ≤ maxSlots) (isLaidOut_messageSlots hp kind length)
  subst hbuffer
  obtain ⟨target, hchild, hat⟩ := Table.childAt?_of_part (hslots 2)
  refine ⟨?_, t, ?_, Table.natAt?_of_word (hslots 1) (by decide) hkind 0,
    Table.intAt?_of_long (hslots 3) hlength 0, rfl, target, hchild, hat⟩
  · -- The check of the message comes to one table, and to those of its content.
    have hversion : checkSlot MetadataTable.shapes 63 t 999999 (0, .number 2) = some 999999 :=
      checkSlot_word (hslots 0) (by decide)
    have hcontent : checkSlot MetadataTable.shapes 63 t 999999
        (2, .union 1 MetadataTable.content?) = some left :=
      checkSlot_union (hslots 2) (hslots 1) hkind htable hcheck
    have hbody : checkSlot MetadataTable.shapes 63 t left (3, .number 8) = some left :=
      checkSlot_long (hslots 3)
    have hcustom : checkSlot MetadataTable.shapes 63 t left (4, .tables .pair) = some left :=
      checkSlot_missing (hslots 4) rfl
    have hmessage : checkTable MetadataTable.shapes t.buffer (63 + 1) .message 8 (999999 + 1) =
        some left := by
      rw [checkTable_of_tableAt? ht rfl]
      simp only [MetadataTable.shapes, List.foldlM_cons, List.foldlM_nil, hversion, hcontent, hbody,
        hcustom, Option.bind_eq_bind, Option.bind_some, Option.pure_def]
    have hmessage : checkTable MetadataTable.shapes t.buffer maxDepth .message 8 maxTables =
        some left := hmessage
    simp only [isMetadata, check, hfollow, hmessage, Option.isSome_some]
  · simp only [Table.root?, hfollow, Option.bind_eq_bind, Option.bind_some]
    exact ofPos?_of_tableAt? ht

namespace Header

theorem length_write_batch_le (h : BatchHeader) (length : Nat) :
    ((batch h).write length).length ≤ 173 + 16 * (h.nodes.length + h.spans.length) := by
  have hbatch := length_batchPart_le h
  have hmessage := Part.length_table_le [.word version, .word 3, .part (batchPart h), .long length]
  simp only [List.flatMap_cons, List.flatMap_nil, FlatBuffer.Slot.partBytes, List.length_append,
    List.length_cons, List.length_nil, List.nil_append] at hmessage
  simp only [write, ofRoot, kind, List.length_append, Bytes.length_ofNat]
  omega

/-- The most fields that a schema may have: metadata have at most `maxTables` tables, one for the
message, one for the schema and two for each field. -/
def maxFields : Nat := 499999

/-- **The metadata of a schema read back**, whatever follows them. -/
theorem read_write_schema {fields : List ColumnField} (hf : ∀ f ∈ fields, IsKept f.type)
    (hn : fields.length ≤ maxFields) {length : Nat} (hlength : length < 2 ^ 63) {rest : Bytes}
    (hb : ((schema fields).write length ++ rest).length < maxLength) :
    read ((schema fields).write length ++ rest) = .ok (schema fields, length) := by
  have hholds := Bytes.Holds.front ((schema fields).write length) rest
  generalize (schema fields).write length ++ rest = b at hholds hb
  obtain ⟨hmetadata, t, ht, hkind, hbody, hbuffer, target, hchild, hat⟩ :=
    root?_of_part (isLaidOut_schemaPart fields) (by decide : 1 < 256) hlength
      (999998 - 2 * fields.length) rfl hb hholds fun target hat => by
        have hleft : 999999 = 999998 - 2 * fields.length + 2 * fields.length + 1 := by
          simp only [maxFields] at hn
          omega
        rw [hleft]
        exact checkTable_schemaPart hat hb
  obtain ⟨u, hu, hfields⟩ := readSchema?_schemaPart hf hat hb
  have htable : t.tableAt? 2 = some u := by
    simp only [Table.tableAt?, hchild, Option.bind_eq_bind, Option.bind_some, hbuffer]
    exact hu
  simp only [read, hmetadata, ht, hkind, hbody, htable, hfields]
  rfl

/-- **The metadata of a batch read back**, whatever follows them. -/
theorem read_write_batch {h : BatchHeader} (hw : h.IsWritable) {length : Nat}
    (hlength : length < 2 ^ 63) {rest : Bytes}
    (hb : ((batch h).write length ++ rest).length < maxLength) :
    read ((batch h).write length ++ rest) = .ok (batch h, length) := by
  have hholds := Bytes.Holds.front ((batch h).write length) rest
  generalize (batch h).write length ++ rest = b at hholds hb
  obtain ⟨hmetadata, t, ht, hkind, hbody, hbuffer, target, hchild, hat⟩ :=
    root?_of_part (isLaidOut_batchPart h) (by decide : 3 < 256) hlength 999998 rfl hb hholds
      fun target hat => checkTable_batchPart hat hb
  obtain ⟨u, hu, hheader⟩ := readBatchHeader_batchPart hw hat hb
  have htable : t.tableAt? 2 = some u := by
    simp only [Table.tableAt?, hchild, Option.bind_eq_bind, Option.bind_some, hbuffer]
    exact hu
  simp only [read, hmetadata, ht, hkind, hbody, htable, hheader]
  rfl

end Header

end Columnar.Stream
