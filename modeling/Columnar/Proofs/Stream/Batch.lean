import Columnar.Proofs.Stream.Layout
import Columnar.Proofs.Stream.Metadata

/-!
# Batches read back

A batch under its own schema is what is read from the parts of the message that was written for it
(`readBatch_ofBatch`). A step that takes something from the parts of a message uses up some of the
columns and buffers that are left and nothing else, which `Takes` says of it; the steps of a batch
are put together from those of its columns, and these from those of its buffers.

`Batch.IsStorable` gathers what the format asks of a batch. Its numbers have eight bytes with a sign
and its offsets four, metadata describe no more than `maxFields` columns, and a column that may not
hold NULL does not. Every batch that fits a memory is storable, up to the lengths of texts and byte
strings and the number of columns.
-/

namespace Columnar.Stream

/-! ### Taking parts -/

/-- A buffer as it stands in a body. -/
def padded (b : Bytes) : Bytes :=
  b ++ Bytes.padding alignment b.length

/-- What is left of the parts of a message: some columns, and buffers that follow each other in the
body, none of them compressed. -/
def Parts.HasLeft (p : Parts) (nodes : List Node) (buffers : List Bytes) : Prop :=
  p.header.nodes = nodes ∧ p.header.codec = none ∧
    ∃ pos, p.header.spans = Message.spans pos buffers ∧ p.body.Holds pos (buffers.flatMap padded)

/-- A step takes columns and buffers, and makes `a` of them. -/
def Takes {α : Type} (step : StateT Parts (Except Fault) α) (nodes : List Node)
    (buffers : List Bytes) (a : α) : Prop :=
  ∀ (p : Parts) (nodes' : List Node) (buffers' : List Bytes),
    p.HasLeft (nodes ++ nodes') (buffers ++ buffers') →
      ∃ q, step.run p = .ok (a, q) ∧ q.HasLeft nodes' buffers'

namespace Takes

variable {α β : Type} {nodes nodes' : List Node} {buffers buffers' : List Bytes} {a : α} {b : β}

/-- A value that is known takes nothing. -/
theorem pure (a : α) : Takes (pure a) [] [] a := fun _ _ _ h => ⟨_, rfl, h⟩

/-- Steps take one after the other. -/
theorem bind {step : StateT Parts (Except Fault) α} {next : α → StateT Parts (Except Fault) β}
    (h : Takes step nodes buffers a) (hn : Takes (next a) nodes' buffers' b) :
    Takes (step >>= next) (nodes ++ nodes') (buffers ++ buffers') b := by
  intro p more moreBuffers hp
  rw [List.append_assoc, List.append_assoc] at hp
  obtain ⟨q, hstep, hq⟩ := h p _ _ hp
  obtain ⟨r, hnext, hr⟩ := hn q _ _ hq
  refine ⟨r, ?_, hr⟩
  rw [StateT.run_bind, hstep]
  exact hnext

/-- A step that takes nothing comes last. -/
theorem bind_last {step : StateT Parts (Except Fault) α} {next : α → StateT Parts (Except Fault) β}
    (h : Takes step nodes buffers a) (hn : Takes (next a) [] [] b) :
    Takes (step >>= next) nodes buffers b := by
  have := h.bind hn
  rwa [List.append_nil, List.append_nil] at this

theorem lift {x : Except Fault α} (hx : x = .ok a) :
    Takes (liftM x : StateT Parts (Except Fault) α) [] [] a := by
  subst hx
  exact pure a

/-- A step that takes all that is left. -/
theorem run {step : StateT Parts (Except Fault) α} (h : Takes step nodes buffers a) {p : Parts}
    (hp : p.HasLeft nodes buffers) : ∃ q, step.run p = .ok (a, q) := by
  obtain ⟨q, hq, -⟩ := h p [] [] (by rwa [List.append_nil, List.append_nil])
  exact ⟨q, hq⟩

end Takes

/-- A number that is a length is taken for what it is. -/
@[simp] theorem natural_natCast (n : Nat) : natural (n : Int) = .ok n := by
  rw [natural, if_neg (by omega), Int.toNat_natCast]

namespace Parts

/-- The number of slots and of nulls of one column is taken. -/
private theorem takes_node (n : Node) : Takes node [n] [] n := by
  rintro p nodes buffers ⟨hnodes, hcodec, pos, hspans, hbody⟩
  refine ⟨{ p with header.nodes := nodes }, ?_, rfl, hcodec, pos, hspans, hbody⟩
  simp only [node, StateT.run, hnodes, List.cons_append, List.nil_append]

/-- A buffer is taken from its place, and the next one stands behind its padding. -/
private theorem takes_buffer (b : Bytes) : Takes buffer [] [b] b := by
  rintro p nodes buffers ⟨hnodes, hcodec, pos, hspans, hbody⟩
  rw [List.singleton_append, List.flatMap_cons] at hbody
  have hslice : p.body.slice? pos b.length = some b := hbody.left.left.slice?
  let next := pos + (padded b).length
  refine ⟨{ p with header.spans := Message.spans next buffers }, ?_, hnodes, hcodec, next, rfl,
    hbody.right⟩
  simp only [buffer, StateT.run, hspans, List.singleton_append, Message.spans, natural_natCast,
    hslice, hcodec]
  rfl

/-- As many buffers are taken as are asked for. -/
private theorem takes_buffers (bs : List Bytes) : Takes (buffers bs.length) [] bs bs := by
  induction bs with
  | nil => exact Takes.pure []
  | cons b bs ih =>
    exact (takes_buffer b).bind (ih.bind_last (Takes.pure (b :: bs)))

/-- The slots of a column of NULLs have no buffers. -/
private theorem takes_slots_nulls {α : Type} (n : Nat) :
    Takes (Parts.slots (.nulls : Layout α)) [⟨n, n⟩] [] (List.replicate n none) := by
  refine (takes_node _).bind ((Takes.lift (natural_natCast _)).bind ?_)
  simp only [ne_eq, not_true_eq_false, if_false]
  exact Takes.pure _

/-- The slots of a column are taken with what is said about them. -/
private theorem takes_slots {α : Type} {l : Layout α} (hl : l.IsSound) {slots : List (Option α)}
    (hd : l.dataLength slots < maxDataLength) :
    Takes (Parts.slots l) [⟨slots.length, l.nullCount slots⟩] (l.write slots) slots := by
  by_cases hn : l = .nulls
  · subst hn
    have hnulls := takes_slots_nulls (α := α) slots.length
    rwa [← Layout.eq_replicate_of_nulls hl slots] at hnulls
  obtain ⟨data, values, hwrite, hbuffers, hvalues, hmark⟩ := Layout.read_write hl hn hd
  -- With values to read, the slots are read in one way for every other layout.
  have hslots : Parts.slots l = (do
      let node ← node
      let length ← natural node.length
      let validity ← buffer
      let values ← l.readValues length (← buffers data.length)
      Layout.mark node.nulls validity values) := by
    cases l with
    | nulls => exact absurd rfl hn
    | _ => simp only [Parts.slots, hbuffers, pure_bind]
  rw [hslots, hwrite]
  refine (takes_node _).bind ((Takes.lift (natural_natCast _)).bind ((takes_buffer _).bind ?_))
  exact (takes_buffers data).bind_last ((Takes.lift hvalues).bind (Takes.lift hmark))

end Parts

/-! ### Columns -/

/-- What the format asks of a column: its values are kept, its byte strings are short enough for the
offsets, and it holds no NULL that it may not. -/
structure IsStorable (c : NamedColumn) : Prop where
  /-- The values are kept. -/
  kept : IsKept c.column.type
  /-- The offsets of byte strings fit four bytes. -/
  data : (layout c.column.type).dataLength c.column.slots < maxDataLength
  /-- NULLs are allowed where there are any. -/
  nulls : c.nullable = false → c.column.markedNulls = 0

namespace Parts

/-- A column is taken from its node and its buffers. -/
private theorem takes_column {c : NamedColumn} (h : IsStorable c) :
    Takes (column c.field) [Message.node c.column] (Message.buffers c.column) c := by
  have hslots := takes_slots (layout_isSound h.kept) h.data
  have hnulls : ¬(!c.nullable && c.column.markedNulls != 0) = true := by
    cases hc : c.nullable with
    | true => simp
    | false => simp [h.nulls hc]
  have hlast : Takes (if (!c.nullable && c.column.markedNulls != 0) = true then
      throw (Fault.unexpectedNull c.name) else Pure.pure c) [] [] c := by
    rw [if_neg hnulls]
    exact Takes.pure c
  exact hslots.bind_last hlast

/-- The columns are taken one after the other. -/
theorem takes_columns {columns : List NamedColumn} (h : ∀ c ∈ columns, IsStorable c) :
    Takes (Parts.columns (columns.map NamedColumn.field))
      (columns.map fun c => Message.node c.column)
      (columns.flatMap fun c => Message.buffers c.column) columns := by
  induction columns with
  | nil => exact Takes.pure []
  | cons c columns ih =>
    have hrest := ih fun d hd => h d (List.mem_cons_of_mem _ hd)
    exact (takes_column (h c List.mem_cons_self)).bind (hrest.bind_last (Takes.pure (c :: columns)))

end Parts

/-! ### Batches -/

/-- The buffers of a batch. -/
def batchBuffers (b : Batch) : List Bytes :=
  b.columns.flatMap fun c => Message.buffers c.column

/-- What is said about a batch. -/
def batchHeader (b : Batch) : BatchHeader where
  rows := b.rows
  nodes := b.columns.map fun c => Message.node c.column
  spans := Message.spans 0 (batchBuffers b)

/-- The body of the message that holds a batch. -/
def batchBody (b : Batch) : Bytes :=
  (batchBuffers b).flatMap padded

theorem ofBatch_eq (b : Batch) : Message.ofBatch b = ⟨.batch (batchHeader b), batchBody b⟩ := by
  simp only [Message.ofBatch, List.flatMap_map, List.map_map]
  rfl

/-- **Batches read back** from the parts of their messages. -/
theorem readBatch_ofBatch {b : Batch} (h : ∀ c ∈ b.columns, IsStorable c) :
    readBatch b.schema (batchHeader b) (batchBody b) = .ok b := by
  have hbody : (batchBody b).Holds 0 (batchBody b) := ⟨[], [], by simp, rfl⟩
  obtain ⟨q, hcolumns⟩ := (Parts.takes_columns h).run
    (p := ⟨batchHeader b, batchBody b⟩) ⟨rfl, rfl, 0, rfl, hbody⟩
  have hrows : Batch.ofColumns? b.rows b.columns = some b := dif_pos b.length_eq
  rw [readBatch, Batch.schema, hcolumns]
  simp only [bind, Except.bind, batchHeader, hrows]
  rfl

/-! ### Sizes -/

/-- What the format asks of a batch. -/
structure IsStorableBatch (b : Batch) : Prop where
  /-- The rows can be counted. -/
  rows : b.rows < 2 ^ 63
  /-- The schema can be read. -/
  width : b.columns.length ≤ Header.maxFields
  /-- The bytes of all buffers can be counted. -/
  body : (batchBody b).length < 2 ^ 63
  /-- The columns can be stored. -/
  columns : ∀ c ∈ b.columns, IsStorable c

private theorem nullCount_le {α : Type} (l : Layout α) (slots : List (Option α)) :
    l.nullCount slots ≤ slots.length := by
  cases l with
  | nulls | dropped => exact Nat.le_refl _
  | _ => exact List.countP_le_length

/-- The places of buffers lie in the body. -/
private theorem isLength_of_mem_spans {pos : Nat} {buffers : List Bytes}
    (h : pos + (buffers.flatMap padded).length < 2 ^ 63) :
    ∀ s ∈ Message.spans pos buffers, IsLength s.start ∧ IsLength s.length := by
  induction buffers generalizing pos with
  | nil => exact nofun
  | cons b buffers ih =>
    have hle : b.length ≤ (padded b).length := by
      rw [padded, List.length_append]
      exact Nat.le_add_right _ _
    rw [List.flatMap_cons, List.length_append, ← Nat.add_assoc] at h
    intro s hs
    rcases List.mem_cons.1 hs with rfl | hs
    · simp only [IsLength]
      omega
    · exact ih h s hs

/-- What is said about a storable batch can be written. -/
theorem isWritable_batchHeader {b : Batch} (h : IsStorableBatch b) :
    (batchHeader b).IsWritable where
  rows := h.rows
  nodes := by
    intro n hn
    obtain ⟨c, hc, rfl⟩ := List.mem_map.1 hn
    have hlength : c.column.slots.length = b.rows := b.length_eq c hc
    have hnulls := nullCount_le (layout c.column.type) c.column.slots
    have hrows := h.rows
    simp only [IsLength, Message.node, Column.length]
    omega
  spans := isLength_of_mem_spans (by rw [Nat.zero_add]; exact h.body)
  counts := rfl
  codec := rfl

/-- A column has at most three buffers: its validity, its offsets and its values. -/
private theorem length_write_le {α : Type} (l : Layout α) (slots : List (Option α)) :
    (l.write slots).length ≤ 3 := by
  cases l <;> simp [Layout.write]

theorem length_batchBuffers_le (b : Batch) : (batchBuffers b).length ≤ 3 * b.columns.length := by
  rw [batchBuffers]
  induction b.columns with
  | nil => exact Nat.le_refl _
  | cons c columns ih =>
    have := length_write_le (layout c.column.type) c.column.slots
    rw [List.flatMap_cons, List.length_append, List.length_cons, Message.buffers]
    omega

@[simp] theorem length_spans (pos : Nat) (buffers : List Bytes) :
    (Message.spans pos buffers).length = buffers.length := by
  induction buffers generalizing pos with
  | nil => rfl
  | cons b buffers ih => rw [Message.spans, List.length_cons, ih, List.length_cons]

end Columnar.Stream
