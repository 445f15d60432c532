import Columnar.Proofs.Stream.Reader

/-!
# Streams that are cut

A strict front of a stream ends within its schema, or it has the schema, some of the batches and a
strict front of what comes next (`prefix_messages`). In the second case these batches are handed
out, and it depends on the number of further bytes what comes then: with four of them or more the
reader finds a message that is cut, and with less it takes the stream for ended (`next_of_cut`).

A reader of blocks therefore looks for the marker that ends streams. `endMarker_suffix_iff` says
when a front that was cut between two messages ends with the same bytes: when the last of its bodies
does. Metadata are no obstacle, for they end with zeros.
-/

namespace Columnar.Stream

/-! ### Bytes at the end -/

/-- A string ends with so many zeros that it does not end with the marker. -/
def EndsInZeros (b : Bytes) : Prop :=
  List.replicate 8 0 <:+ b

namespace EndsInZeros

variable {b : Bytes}

theorem append (front : Bytes) (h : EndsInZeros b) : EndsInZeros (front ++ b) :=
  h.trans (List.suffix_append front b)

/-- Padding consists of zeros. -/
theorem append_padding (h : EndsInZeros b) (alignment pos : Nat) :
    EndsInZeros (b ++ Bytes.padding alignment pos) := by
  obtain ⟨front, rfl⟩ := h
  obtain ⟨n, hn⟩ : ∃ n, Bytes.padding alignment pos = List.replicate n 0 := ⟨_, rfl⟩
  refine ⟨front ++ List.replicate n 0, ?_⟩
  rw [hn, List.append_assoc, List.append_assoc, List.replicate_append_replicate,
    List.replicate_append_replicate, Nat.add_comm]

theorem not_endMarker (h : EndsInZeros b) : ¬endMarker <:+ b := by
  intro hmarker
  have hsame : endMarker <:+ List.replicate 8 0 :=
    List.suffix_of_suffix_length_le hmarker h (by decide)
  have heq : endMarker = List.replicate 8 0 := hsame.eq_of_length rfl
  exact absurd heq (by decide)

end EndsInZeros

open FlatBuffer (Part)

/-- A table ends with the last of the parts that it refers to. -/
private theorem endsInZeros_table {p : Part} (front back : List FlatBuffer.Slot)
    (hback : back.flatMap FlatBuffer.Slot.partBytes = []) (h : EndsInZeros p.bytes) :
    EndsInZeros (Part.table (front ++ .part p :: back)).bytes := by
  have hlast : EndsInZeros ((front ++ .part p :: back).flatMap FlatBuffer.Slot.partBytes) := by
    rw [List.flatMap_append, List.flatMap_cons, hback, List.append_nil]
    exact h.append _
  exact hlast.append _

/-- A vector ends with the last of its items, and without items it is a length of zero and
padding. -/
private theorem endsInZeros_vector {parts : List Part} (h : ∀ p ∈ parts, EndsInZeros p.bytes) :
    EndsInZeros (Part.vector parts).bytes := by
  rcases List.eq_nil_or_concat parts with rfl | ⟨front, p, rfl⟩
  · exact ⟨[], rfl⟩
  · have hlast : EndsInZeros ((front ++ [p]).flatMap (·.bytes)) := by
      rw [List.flatMap_append, List.flatMap_singleton]
      exact (h p (by simp)).append _
    rw [List.concat_eq_append]
    exact hlast.append _

private theorem endsInZeros_schemaPart (fields : List ColumnField) :
    EndsInZeros (schemaPart fields).bytes := by
  refine endsInZeros_table [.missing] [] rfl (endsInZeros_vector fun p hp => ?_)
  obtain ⟨f, -, rfl⟩ := List.mem_map.1 hp
  exact endsInZeros_table [_, _, _, _, _] [] rfl (endsInZeros_vector nofun)

/-- The last of the places of a batch ends with its length. -/
private theorem endsInZeros_batchPart {h : BatchHeader} (hs : ∀ s ∈ h.spans, s.length = 0) :
    EndsInZeros (Header.batchPart h).bytes := by
  refine endsInZeros_table [_, _] [] rfl ?_
  rcases List.eq_nil_or_concat h.spans with hspans | ⟨front, s, hspans⟩
  · rw [hspans]
    exact ⟨[], rfl⟩
  · have hlength : s.length = 0 := hs s (by rw [hspans]; simp)
    have hzero : EndsInZeros (Bytes.ofInt 8 s.length) := by
      rw [hlength]
      exact ⟨[], rfl⟩
    rw [hspans, List.concat_eq_append]
    simp only [Part.structs, List.map_append, List.map_cons, List.map_nil, List.flatten_append,
      List.flatten_singleton]
    exact ((hzero.append _).append _).append _

/-- The head of a message ends as the part does that tells its content. -/
private theorem endsInZeros_head {m : Message} {p : Part} (kind : Nat)
    (hm : ∀ n, m.header.write n =
      FlatBuffer.ofRoot (.table [.word Header.version, .word kind, .part p, .long n]))
    (h : EndsInZeros p.bytes) : EndsInZeros m.head := by
  have htable := endsInZeros_table [.word Header.version, .word kind] [.long m.body.length] rfl h
  have hheader : EndsInZeros (m.header.write m.body.length) := by
    rw [hm]
    exact htable.append _
  exact (hheader.append_padding _ _).append _

private theorem endsInZeros_head_ofSchema (fields : List ColumnField) :
    EndsInZeros (Message.ofSchema fields).head :=
  endsInZeros_head 1 (fun _ => rfl) (endsInZeros_schemaPart fields)

/-- Buffers that take no bytes have none. -/
private theorem length_eq_zero_of_mem_spans {pos : Nat} {buffers : List Bytes}
    (h : buffers.flatMap padded = []) : ∀ s ∈ Message.spans pos buffers, s.length = 0 := by
  induction buffers generalizing pos with
  | nil => exact nofun
  | cons b buffers ih =>
    rw [List.flatMap_cons, List.append_eq_nil_iff, padded, List.append_eq_nil_iff] at h
    obtain ⟨⟨rfl, -⟩, hrest⟩ := h
    intro s hs
    rcases List.mem_cons.1 hs with rfl | hs
    · rfl
    · exact ih hrest s hs

private theorem endsInZeros_head_ofBatch {b : Batch} (hb : (Message.ofBatch b).body = []) :
    EndsInZeros (Message.ofBatch b).head := by
  rw [ofBatch_eq] at hb ⊢
  exact endsInZeros_head 3 (fun _ => rfl) (endsInZeros_batchPart (length_eq_zero_of_mem_spans hb))

/-! ### Bodies that end like streams -/

/-- A buffer takes a multiple of the alignment. -/
private theorem length_flatMap_padded (buffers : List Bytes) :
    (buffers.flatMap padded).length % alignment = 0 := by
  induction buffers with
  | nil => rfl
  | cons b buffers ih =>
    have hpad := Bytes.length_padding alignment b.length
    rw [List.flatMap_cons, List.length_append, padded, List.length_append, hpad]
    simp only [alignment] at *
    omega

/-- A body has no bytes, or at least as many as the marker. -/
private theorem length_body_ofBatch (b : Batch) :
    (Message.ofBatch b).body = [] ∨ endMarker.length ≤ (Message.ofBatch b).body.length := by
  have hmod := length_flatMap_padded (batchBuffers b)
  rw [ofBatch_eq]
  show batchBody b = [] ∨ 8 ≤ (batchBody b).length
  rw [← List.length_eq_zero_iff, batchBody]
  simp only [alignment] at hmod
  omega

/-- A stream that was cut between two messages ends with the marker if its last body does. -/
theorem endMarker_suffix_iff {fields : List ColumnField} {batches : List Batch} :
    endMarker <:+ (Message.ofSchema fields).write ++ messages batches ↔
      ∃ b, batches.getLast? = some b ∧ endMarker <:+ (Message.ofBatch b).body := by
  rcases List.eq_nil_or_concat batches with rfl | ⟨front, b, rfl⟩
  -- Without batches the stream ends with the padding of its schema.
  · have hschema : (Message.ofSchema fields).write ++ messages [] =
        (Message.ofSchema fields).head := by
      rw [Message.write_eq]
      exact (List.append_nil _).trans (List.append_nil _)
    rw [hschema]
    exact ⟨fun h => absurd h (endsInZeros_head_ofSchema fields).not_endMarker, by simp⟩
  · rw [List.concat_eq_append]
    have hbytes : (Message.ofSchema fields).write ++ messages (front ++ [b]) =
        ((Message.ofSchema fields).write ++ messages front ++ (Message.ofBatch b).head) ++
          (Message.ofBatch b).body := by
      simp only [messages, List.flatMap_append, List.flatMap_singleton, Message.write_eq,
        List.append_assoc]
    rw [hbytes]
    have hbody : endMarker <:+ ((Message.ofSchema fields).write ++ messages front ++
        (Message.ofBatch b).head) ++ (Message.ofBatch b).body ↔
          endMarker <:+ (Message.ofBatch b).body := by
      refine ⟨fun h => ?_, fun h => h.trans (List.suffix_append _ _)⟩
      rcases length_body_ofBatch b with hempty | hlength
      -- A body without bytes leaves the padding of the metadata at the end.
      · have hzeros := (endsInZeros_head_ofBatch hempty).append
          ((Message.ofSchema fields).write ++ messages front)
        rw [hempty, List.append_nil] at h
        exact absurd h hzeros.not_endMarker
      · exact List.suffix_of_suffix_length_le h (List.suffix_append _ _) hlength
    refine hbody.trans ⟨fun h => ⟨b, List.getLast?_concat, h⟩, ?_⟩
    rintro ⟨c, hc, h⟩
    obtain rfl : b = c := Option.some.inj (List.getLast?_concat.symm.trans hc)
    exact h

/-! ### Fronts of streams -/

/-- What comes next in a stream. -/
def upcoming : List Batch → Bytes
  | [] => endMarker
  | b :: _ => (Message.ofBatch b).write

/-- A strict front of some messages and the marker. -/
private theorem prefix_messages {batches : List Batch} {p : Bytes}
    (hp : p <+: messages batches ++ endMarker)
    (hlt : p.length < (messages batches ++ endMarker).length) :
    ∃ first later q, batches = first ++ later ∧ p = messages first ++ q ∧ q <+: upcoming later ∧
      q.length < (upcoming later).length := by
  induction batches generalizing p with
  | nil => exact ⟨[], [], p, rfl, rfl, hp, hlt⟩
  | cons b batches ih =>
    rw [messages_cons, List.append_assoc] at hp hlt
    rcases Message.prefix_append hp with hshort | ⟨q, rfl, hq⟩
    · refine ⟨[], b :: batches, p, rfl, rfl, ?_, hshort⟩
      exact List.prefix_of_prefix_length_le hp (List.prefix_append _ _) (Nat.le_of_lt hshort)
    · have hqlt : q.length < (messages batches ++ endMarker).length := by
        simp only [List.length_append] at hlt ⊢
        omega
      obtain ⟨first, later, t, rfl, rfl, ht, htlt⟩ := ih hq hqlt
      refine ⟨b :: first, later, t, rfl, ?_, ht, htlt⟩
      rw [messages_cons, List.append_assoc]

/-- Everything in a stream starts with the bytes that the marker starts with. -/
private theorem upcoming_eq (batches : List Batch) :
    ∃ rest, upcoming batches = continuation ++ rest := by
  cases batches with
  | nil => exact ⟨_, rfl⟩
  | cons b batches => exact ⟨_, by rw [upcoming, Message.write_eq, Message.head, List.append_assoc,
      List.append_assoc]⟩

/-- Few bytes of what comes next do not end as the marker does. -/
private theorem not_endMarker_of_short {batches : List Batch} {front q : Bytes}
    (hq : q <+: upcoming batches)
    (hpos : q ≠ []) (hshort : q.length < 4) : ¬endMarker <:+ front ++ q := by
  intro hmarker
  obtain ⟨rest, hrest⟩ := upcoming_eq batches
  rw [hrest] at hq
  have hfirst : q <+: continuation :=
    List.prefix_of_prefix_length_le hq (List.prefix_append _ _) (Nat.le_of_lt hshort)
  have hlast : q <:+ endMarker :=
    List.suffix_of_suffix_length_le (List.suffix_append _ _) hmarker
      (Nat.le_of_lt (Nat.lt_trans hshort (by decide)))
  rw [List.prefix_iff_eq_take] at hfirst
  rw [List.suffix_iff_eq_drop] at hlast
  have hlength : q.length = 1 ∨ q.length = 2 ∨ q.length = 3 := by
    have := List.length_pos_iff.2 hpos
    omega
  -- The marker starts with ones and ends with zeros.
  obtain h | h | h := hlength
  all_goals
    rw [h] at hfirst hlast
    exact absurd (hfirst.symm.trans hlast) (by decide)

namespace Reader

variable {fields : List ColumnField} {group : List Batch}

/-- Less than four bytes of what comes next are taken for the end, and more are missed to be a
message. -/
theorem next_of_cut {batches : List Batch} (hb : ∀ b ∈ batches, IsStorableBatch b) {q : Bytes}
    (hq : q <+: upcoming batches) (hlt : q.length < (upcoming batches).length) :
    next ⟨fields, q⟩ = if q.length < 4 then .ok none else .error .truncated := by
  by_cases hshort : q.length < 4
  · rw [if_pos hshort, next, Message.read, Message.readHeader_of_short hshort]
  · rw [if_neg hshort]
    have hread : Message.read q = .error .truncated := by
      cases batches with
      | nil =>
        rcases Message.prefix_append hq with hfour | ⟨r, rfl, -⟩
        · exact absurd hfour hshort
        · have hr : r.length < 4 := by
            have hlength : (continuation ++ r).length < 8 := hlt
            rw [List.length_append] at hlength
            exact Nat.lt_of_add_lt_add_left hlength
          rw [Message.read, Message.readHeader, Message.readLength_continuation,
            Message.take_of_lt hr]
      | cons b batches =>
        have hreadable := Message.isReadable_ofBatch (hb b List.mem_cons_self)
        have heq := ofBatch_eq b
        simp only [upcoming] at hq hlt
        generalize Message.ofBatch b = m at hreadable heq hq hlt
        subst heq
        exact Message.read_of_prefix hreadable hq hlt (Nat.le_of_not_lt hshort)
    rw [next, hread]

end Reader

/-! ### Reading what was cut -/

/-- A front of the stream of a group that ends as streams do, though it is cut after some batches:
the body of the last of them ends with the bytes of the marker. -/
structure IsFalseEnd (group : List Batch) (p : Bytes) (first : List Batch) : Prop where
  /-- The batches are the first ones of the group. -/
  batches : first <+: group
  /-- The front is cut after them. -/
  bytes : p = (Message.ofSchema (groupSchema group)).write ++ messages first
  /-- The last body ends with the marker. -/
  body : ∃ b, first.getLast? = some b ∧ endMarker <:+ (Message.ofBatch b).body

namespace Reader

variable {group : List Batch}

/-- A front of a stream with a false end is read as the stream of the batches before it. -/
theorem hands_of_isFalseEnd (h : IsStorableGroup group) {p : Bytes} {first : List Batch}
    (hp : IsFalseEnd group p first) :
    endMarker <:+ p ∧ ∃ s, ofBytes p = .ok s ∧ s.Hands (.ok none) first := by
  obtain ⟨hfirst, rfl, hbody⟩ := hp
  refine ⟨endMarker_suffix_iff.2 hbody, _, ofBytes_ofSchema h.readable_schema _, ?_⟩
  have hend : next ⟨groupSchema group, []⟩ = .ok none := by
    rw [next, Message.read, Message.readHeader_of_short (show ([] : Bytes).length < 4 by decide)]
  have hstorable : ∀ b ∈ first, IsStorableBatch b ∧ b.schema = groupSchema group :=
    fun b hb => ⟨h.batches b (hfirst.subset hb), h.schema_eq (hfirst.subset hb)⟩
  have hhands := hands_messages hstorable hend
  rwa [List.append_nil] at hhands

/-- **Streams that are cut.** If a strict front of a stream ends with the marker, then a false end
is the reason, or else the reader finds that the front is cut: at once, or after some batches. -/
theorem hands_of_prefix (h : IsStorableGroup group) {p : Bytes} (hp : p <+: ofBatches group)
    (hne : p ≠ ofBatches group) (hmarker : endMarker <:+ p) :
    (∃ first, IsFalseEnd group p first) ∨ ofBytes p = .error .truncated ∨
      ∃ s first, first <+: group ∧ ofBytes p = .ok s ∧ s.Hands (.error .truncated) first := by
  have hlt : p.length < (ofBatches group).length :=
    Nat.lt_of_le_of_ne hp.length_le fun hlength => hne (hp.eq_of_length hlength)
  have hfour : 4 ≤ p.length := Nat.le_trans (by decide) hmarker.length_le
  rw [ofBatches_eq] at hp hlt
  rcases Message.prefix_append hp with hshort | ⟨q, rfl, hq⟩
  · -- The front ends within the schema.
    have hwrite : (Message.ofSchema (groupSchema group)).write =
        (Message.ofSchema (groupSchema group)).head := List.append_nil _
    have hhead := List.prefix_of_prefix_length_le hp (List.prefix_append _ _) (Nat.le_of_lt hshort)
    rw [hwrite] at hhead hshort
    refine .inr (.inl ?_)
    rw [ofBytes, Message.readHeader_of_prefix h.readable_schema hhead hshort hfour]
    rfl
  have hqlt : q.length < (messages group ++ endMarker).length := by
    simp only [List.length_append] at hlt ⊢
    omega
  obtain ⟨first, later, t, rfl, rfl, ht, htlt⟩ := prefix_messages hq hqlt
  have hlater : ∀ b ∈ later, IsStorableBatch b :=
    fun b hb => h.batches b (List.mem_append_right _ hb)
  have hcut : next ⟨groupSchema (first ++ later), t⟩ = _ := next_of_cut hlater ht htlt
  by_cases hshort : t.length < 4
  · -- So few bytes are no message, and none at all if the front ends with the marker.
    rw [← List.append_assoc] at hmarker
    obtain rfl : t = [] := Decidable.byContradiction fun hpos =>
      not_endMarker_of_short ht hpos hshort hmarker
    rw [List.append_nil] at hmarker ⊢
    exact .inl ⟨first, List.prefix_append _ _, rfl, endMarker_suffix_iff.1 hmarker⟩
  · -- The reader hands out the batches before the one that is cut.
    rw [if_neg hshort] at hcut
    refine .inr (.inr ⟨_, first, List.prefix_append _ _, ofBytes_ofSchema h.readable_schema _, ?_⟩)
    refine hands_messages (fun b hb => ?_) hcut
    have hmem := List.mem_append_left later hb
    exact ⟨h.batches b hmem, h.schema_eq hmem⟩

end Reader

end Columnar.Stream
