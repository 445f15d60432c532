import Columnar.Proofs.Stream.Batch

/-!
# Messages read back

A message that was written is taken off the front of a stream, whatever follows it (`read_write`). A
strict front of it is not taken for a message: with less than four bytes the stream counts as ended,
and with more it ends inside a message (`read_of_prefix`).

What is common to all messages is their head, the length of the metadata and the metadata. It reads
back if the metadata do, which `IsReadable` says.
-/

namespace Columnar.Stream

open FlatBuffer (maxLength)

namespace Message

/-! ### Heads -/

/-- The metadata of a message as they stand in a stream. -/
def metadata (m : Message) : Bytes :=
  m.header.write m.body.length ++
    Bytes.padding alignment (8 + (m.header.write m.body.length).length)

/-- A message up to its body. -/
def head (m : Message) : Bytes :=
  continuation ++ Bytes.ofNat 4 m.metadata.length ++ m.metadata

theorem write_eq (m : Message) : m.write = m.head ++ m.body :=
  rfl

/-- The metadata of a message read back, and their length fits four bytes with a sign. -/
structure IsReadable (m : Message) : Prop where
  /-- The length can be written. -/
  short : m.metadata.length < 2 ^ 31
  /-- What was written is read. -/
  read : Header.read m.metadata = .ok (m.header, m.body.length)

private theorem length_metadata_pos (m : Message) : 0 < m.metadata.length := by
  simp only [metadata, Header.write, FlatBuffer.ofRoot, List.length_append, Bytes.length_ofNat]
  omega

theorem take_append (front rest : Bytes) :
    take front.length (front ++ rest) = .ok (front, rest) := by
  rw [take, Bytes.splitAt?_append]

theorem take_of_lt {n : Nat} {b : Bytes} (h : b.length < n) : take n b = .error .truncated := by
  rw [take, Bytes.splitAt?_eq_none_iff.2 h]

theorem readLength_continuation (rest : Bytes) :
    readLength (continuation ++ rest) = match take 4 rest with
      | .ok (word, rest) => lengthOf word rest
      | .error e => .error e := by
  rw [readLength, Bytes.splitAt?_append_of_eq (n := 4) rest rfl]
  exact if_pos rfl

variable {m : Message}

/-- The length of the metadata reads back, whatever follows it. -/
private theorem readLength_head (h : m.metadata.length < 2 ^ 31) (rest : Bytes) :
    readLength (continuation ++ (Bytes.ofNat 4 m.metadata.length ++ rest)) =
      .ok (some (m.metadata.length, rest)) := by
  have hword : Bytes.toInt (Bytes.ofNat 4 m.metadata.length) = m.metadata.length :=
    Bytes.toInt_ofNat (by omega)
  have hpos := m.length_metadata_pos
  have htake : take 4 (Bytes.ofNat 4 m.metadata.length ++ rest) =
      .ok (Bytes.ofNat 4 m.metadata.length, rest) := by
    simpa using take_append (Bytes.ofNat 4 m.metadata.length) rest
  have hlength : lengthOf (Bytes.ofNat 4 m.metadata.length) rest =
      .ok (some (m.metadata.length, rest)) := by
    rw [lengthOf, hword, if_neg (by omega), if_neg (by omega), Int.toNat_natCast]
  rw [readLength_continuation, htake]
  exact hlength

/-- **Heads read back**, whatever follows them. -/
theorem readHeader_head (h : m.IsReadable) (rest : Bytes) :
    readHeader (m.head ++ rest) = .ok (some ((m.header, m.body.length), rest)) := by
  have hlength := readLength_head h.short (m.metadata ++ rest)
  rw [head, List.append_assoc, List.append_assoc, readHeader, hlength]
  simp only [take_append, h.read]
  rfl

/-- Less than four bytes are no message. -/
theorem readHeader_of_short {p : Bytes} (h : p.length < 4) : readHeader p = .ok none := by
  rw [readHeader, readLength, Bytes.splitAt?_eq_none_iff.2 h]

/-- A front of two strings is a strict front of the first, or all of that and a front of the
second. -/
theorem prefix_append {p v w : Bytes} (h : p <+: v ++ w) :
    p.length < v.length ∨ ∃ q, p = v ++ q ∧ q <+: w := by
  rcases List.prefix_or_prefix_of_prefix h (List.prefix_append v w) with hp | ⟨q, rfl⟩
  · rcases Nat.lt_or_eq_of_le hp.length_le with hlt | heq
    · exact .inl hlt
    · exact .inr ⟨[], by rw [List.append_nil, hp.eq_of_length heq], List.nil_prefix⟩
  · exact .inr ⟨q, rfl, (List.prefix_append_right_inj _).1 h⟩

/-- A strict front of a head ends the stream inside a message, or before one. -/
theorem readHeader_of_prefix (h : m.IsReadable) {p : Bytes} (hp : p <+: m.head)
    (hlt : p.length < m.head.length) (hfour : 4 ≤ p.length) :
    readHeader p = .error .truncated := by
  rw [head, List.append_assoc] at hp
  rcases prefix_append hp with hshort | ⟨q, rfl, hq⟩
  · exact absurd hfour (Nat.not_le.2 hshort)
  rcases prefix_append hq with hshort | ⟨r, rfl, -⟩
  · rw [Bytes.length_ofNat] at hshort
    rw [readHeader, readLength_continuation, take_of_lt hshort]
  · have hr : r.length < m.metadata.length := by
      simp only [head, List.length_append] at hlt
      omega
    rw [readHeader, readLength_head h.short]
    simp only [take_of_lt hr]

/-! ### Batches -/

variable {h : BatchHeader} {body : Bytes}

/-- **Messages read back**, whatever follows them. -/
theorem read_write (hm : (Message.mk (.batch h) body).IsReadable) (rest : Bytes) :
    read ((Message.mk (.batch h) body).write ++ rest) = .ok (some (⟨.batch h, body⟩, rest)) := by
  rw [write_eq, List.append_assoc, read, readHeader_head hm]
  simp only [readBody, natural_natCast, take_append]
  rfl

/-- **Messages that are cut** are not read: the stream ends inside them. -/
theorem read_of_prefix (hm : (Message.mk (.batch h) body).IsReadable) {p : Bytes}
    (hp : p <+: (Message.mk (.batch h) body).write)
    (hlt : p.length < (Message.mk (.batch h) body).write.length) (hfour : 4 ≤ p.length) :
    read p = .error .truncated := by
  rw [write_eq] at hp hlt
  rcases prefix_append hp with hshort | ⟨q, rfl, -⟩
  · have hhead : p <+: (Message.mk (.batch h) body).head :=
      List.prefix_of_prefix_length_le hp (List.prefix_append _ _) (Nat.le_of_lt hshort)
    rw [read, readHeader_of_prefix hm hhead hshort hfour]
  · have hq : q.length < body.length := by
      rw [List.length_append, List.length_append] at hlt
      exact Nat.lt_of_add_lt_add_left hlt
    rw [read, readHeader_head hm]
    simp only [readBody, natural_natCast, take_of_lt hq]
    rfl

/-! ### What can be read -/

/-- Metadata stand in front of a multiple of the alignment. -/
private theorem length_metadata_le (m : Message) :
    m.metadata.length ≤ (m.header.write m.body.length).length + 63 := by
  have hpad := Bytes.length_padding alignment (8 + (m.header.write m.body.length).length)
  have hmod := Nat.mod_lt (alignment - (8 + (m.header.write m.body.length).length) % alignment)
    (by decide : 0 < alignment)
  rw [metadata, List.length_append]
  simp only [alignment] at *
  omega

/-- The message of a storable batch can be read. -/
theorem isReadable_ofBatch {b : Batch} (hb : IsStorableBatch b) : (ofBatch b).IsReadable := by
  have hcolumns := hb.width
  have hbuffers := length_batchBuffers_le b
  have hlength := Header.length_write_batch_le (batchHeader b) (batchBody b).length
  rw [ofBatch_eq]
  have hmetadata := length_metadata_le ⟨.batch (batchHeader b), batchBody b⟩
  simp only [batchHeader, List.length_map, length_spans, Header.maxFields] at hlength hcolumns
  simp only [batchHeader] at hmetadata
  refine ⟨by simp only [batchHeader]; omega,
    Header.read_write_batch (isWritable_batchHeader hb) hb.body ?_⟩
  simp only [metadata, maxLength, batchHeader] at hmetadata ⊢
  omega

end Message

end Columnar.Stream
