import Columnar.Proofs.Stream.Message
import Columnar.Stream.Message

/-!
# Streams read back

A stream that was written for some batches of one schema is read as these batches and no others
(`hands_ofBatches`). `Reader.Hands` says what a reader still hands out and how it ends, so that a
whole stream is described by its first message and one step for each further one.

`IsStorableGroup` gathers what the format asks of the batches of a stream.
-/

namespace Columnar.Stream

/-! ### Groups -/

/-- The schema that is written for some batches. -/
def groupSchema (group : List Batch) : List ColumnField :=
  (group.head?.map Batch.schema).getD []

/-- What the format asks of the batches of a stream. -/
structure IsStorableGroup (group : List Batch) : Prop where
  /-- They share a schema. -/
  schema : ∀ b ∈ group, ∀ c ∈ group, b.schema = c.schema
  /-- Each of them can be stored. -/
  batches : ∀ b ∈ group, IsStorableBatch b
  /-- The length of the metadata of their schema fits four bytes with a sign. -/
  metadata : (Message.ofSchema (groupSchema group)).metadata.length < 2 ^ 31

namespace IsStorableGroup

variable {group : List Batch} {b : Batch}

theorem schema_eq (h : IsStorableGroup group) (hb : b ∈ group) : b.schema = groupSchema group := by
  cases group with
  | nil => cases hb
  | cons c group => exact h.schema b hb c List.mem_cons_self

/-- The schema of a group is that of one of its batches, or has no columns. -/
theorem readable_schema (h : IsStorableGroup group) :
    (Message.ofSchema (groupSchema group)).IsReadable := by
  have hshort := h.metadata
  have hfields : (∀ f ∈ groupSchema group, IsKept f.type) ∧
      (groupSchema group).length ≤ Header.maxFields := by
    cases group with
    | nil => exact ⟨nofun, Nat.zero_le _⟩
    | cons c group =>
      have hc := h.batches c List.mem_cons_self
      refine ⟨fun f hf => ?_, ?_⟩
      · obtain ⟨d, hd, rfl⟩ := List.mem_map.1 hf
        exact (hc.columns d hd).kept
      · exact (List.length_map _).symm ▸ hc.width
  refine ⟨hshort, Header.read_write_schema hfields.1 hfields.2 (Nat.pow_pos (by decide)) ?_⟩
  have hlt : (2 : Nat) ^ 31 < 2 ^ 32 := by decide
  exact Nat.lt_trans hshort hlt

end IsStorableGroup

/-- The messages of some batches. -/
def messages (group : List Batch) : Bytes :=
  group.flatMap fun b => (Message.ofBatch b).write

theorem messages_cons (b : Batch) (group : List Batch) :
    messages (b :: group) = (Message.ofBatch b).write ++ messages group :=
  List.flatMap_cons

theorem ofBatches_eq (group : List Batch) :
    ofBatches group =
      (Message.ofSchema (groupSchema group)).write ++ (messages group ++ endMarker) :=
  List.append_assoc ..

/-! ### Readers -/

namespace Reader

/-- A reader hands out some batches, and then comes to an end, or to a message that cannot be
read. -/
def Hands (r : Reader) (ending : Except Fault (Option (Batch × Reader))) : List Batch → Prop
  | [] => r.next = ending
  | b :: batches => ∃ s, r.next = .ok (some (b, s)) ∧ Hands s ending batches

variable {fields : List ColumnField} {rest : Bytes}

private theorem next_of_read {bytes body : Bytes} {header : BatchHeader} {b : Batch}
    (hread : Message.read bytes = .ok (some (⟨.batch header, body⟩, rest)))
    (hb : readBatch fields header body = .ok b) :
    next ⟨fields, bytes⟩ = .ok (some (b, ⟨fields, rest⟩)) := by
  rw [next, hread]
  simp only [hb, Except.map]

/-- The message of a batch of the schema is read as that batch. -/
theorem next_ofBatch {b : Batch} (hb : IsStorableBatch b) (hs : b.schema = fields) :
    next ⟨fields, (Message.ofBatch b).write ++ rest⟩ = .ok (some (b, ⟨fields, rest⟩)) := by
  subst hs
  refine next_of_read ?_ (readBatch_ofBatch hb.columns)
  have hreadable := Message.isReadable_ofBatch hb
  have heq := ofBatch_eq b
  generalize Message.ofBatch b = m at hreadable heq ⊢
  subst heq
  exact Message.read_write hreadable rest

/-- The messages of batches are read one after the other, up to what follows them. -/
theorem hands_messages {ending : Except Fault (Option (Batch × Reader))} {batches : List Batch}
    (hb : ∀ b ∈ batches, IsStorableBatch b ∧ b.schema = fields)
    (hrest : next ⟨fields, rest⟩ = ending) :
    Hands ⟨fields, messages batches ++ rest⟩ ending batches := by
  induction batches with
  | nil => exact hrest
  | cons b batches ih =>
    obtain ⟨hstorable, hschema⟩ := hb b List.mem_cons_self
    rw [messages_cons, List.append_assoc]
    exact ⟨_, next_ofBatch hstorable hschema, ih fun c hc => hb c (List.mem_cons_of_mem _ hc)⟩

/-- The marker ends a stream. -/
private theorem next_endMarker (rest : Bytes) : next ⟨fields, endMarker ++ rest⟩ = .ok none := by
  have hlength : Message.readLength (endMarker ++ rest) = .ok none := by
    have htake : Message.take 4 ([0, 0, 0, 0] ++ rest) = .ok ([0, 0, 0, 0], rest) :=
      Message.take_append [0, 0, 0, 0] rest
    have hzero : Bytes.toInt [0, 0, 0, 0] = 0 := by decide
    rw [endMarker, List.append_assoc, Message.readLength_continuation, htake]
    simp only [Message.lengthOf, hzero, if_true]
  rw [next, Message.read, Message.readHeader, hlength]

/-- A stream begins with its schema. -/
theorem ofBytes_ofSchema (h : (Message.ofSchema fields).IsReadable) (rest : Bytes) :
    ofBytes ((Message.ofSchema fields).write ++ rest) = .ok ⟨fields, rest⟩ := by
  have hhead := Message.readHeader_head h rest
  have hwrite : (Message.ofSchema fields).write = (Message.ofSchema fields).head :=
    List.append_nil _
  rw [hwrite, ofBytes, hhead]
  rfl

/-- **Streams read back.** The reader of a stream hands out the batches that it was written for. -/
theorem hands_ofBatches {group : List Batch} (h : IsStorableGroup group) :
    ∃ r, ofBytes (ofBatches group) = .ok r ∧ r.Hands (.ok none) group := by
  refine ⟨⟨groupSchema group, messages group ++ endMarker⟩, ?_, ?_⟩
  · rw [ofBatches_eq, ofBytes_ofSchema h.readable_schema]
  · refine hands_messages (fun b hb => ⟨h.batches b hb, h.schema_eq hb⟩) ?_
    have hend : next ⟨groupSchema group, endMarker ++ []⟩ = .ok none := next_endMarker []
    rwa [List.append_nil] at hend

end Reader

end Columnar.Stream
