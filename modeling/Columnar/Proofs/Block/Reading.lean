import Columnar.Proofs.Block.Reader

/-!
# What blocks hold

The batches of some blocks, in order, up to the first flaw (`Codec.reading`): what a reader has to
hand out, whatever calls are made and whatever else happens in the host. It is a function of the
codec, the expected schema and the bytes of the blocks alone.

Readings of blocks that stand one after the other are appended (`Codec.reading_append`): nothing
comes after a flaw, and the number of the first block occurs in the flaws only.
-/

namespace Columnar.Block

open Compression (Compressor)

/-! ### Flaws -/

/-- The same obstacle in a block whose number is greater by `n`. -/
def Obstacle.shift (n : Nat) : Obstacle → Obstacle
  | noMemory size pool => noMemory size pool
  | badFrame block algorithm cause => badFrame (block + n) algorithm cause
  | noEndMarker block => noEndMarker (block + n)
  | badStream block fault => badStream (block + n) fault

/-- The same defect in a block whose number is greater by `n`. -/
def Reader.Defect.shift (n : Nat) : Defect → Defect
  | badMessage block fault => badMessage (block + n) fault
  | mismatch m => mismatch m

/-- Why the reading of blocks ends before they do. -/
inductive Flaw where
  /-- A block cannot be opened. -/
  | obstacle (o : Obstacle)
  /-- A block that was opened cannot be read further. -/
  | defect (d : Reader.Defect)

namespace Flaw

/-- The error of a flaw. -/
def toError : Flaw → Error
  | obstacle o => o.toError
  | defect d => d.toError

/-- The same flaw in a block whose number is greater by `n`. -/
def shift (n : Nat) : Flaw → Flaw
  | obstacle o => obstacle (o.shift n)
  | defect d => defect (d.shift n)

end Flaw

/-! ### Readings -/

/-- Batches, and the flaw after them if there is one. -/
structure Reading where
  /-- The batches. -/
  batches : List Batch
  /-- The flaw that ends the reading, unless it comes to the end of the blocks. -/
  ending : Option Flaw

namespace Reading

/-- Puts a batch in front. -/
def cons (b : Batch) (x : Reading) : Reading :=
  { x with batches := b :: x.batches }

/-- Goes on with another reading, unless there is a flaw. -/
def append (x y : Reading) : Reading :=
  match x.ending with
  | some _ => x
  | none => ⟨x.batches ++ y.batches, y.ending⟩

/-- The same reading of blocks whose numbers are greater by `n`. -/
def shift (n : Nat) (x : Reading) : Reading :=
  { x with ending := x.ending.map (Flaw.shift n) }

/-- What is handed out: the batches, and the error of the flaw as the last item. -/
def items (x : Reading) : List (Except Error Batch) :=
  x.batches.map .ok ++ (x.ending.map fun f => .error f.toError).toList

variable {x y z : Reading}

theorem cons_append (b : Batch) (x y : Reading) : (cons b x).append y = cons b (x.append y) := by
  obtain ⟨batches, _ | f⟩ := x <;> rfl

/-- It does not matter how readings are grouped. -/
theorem append_assoc (x y z : Reading) : (x.append y).append z = x.append (y.append z) := by
  obtain ⟨first, _ | f⟩ := x
  · obtain ⟨second, _ | g⟩ := y
    · exact congrArg (Reading.mk · z.ending) (List.append_assoc first second z.batches)
    · rfl
  · rfl

/-- The numbers of blocks occur in flaws only, so they can be changed before or after readings are
put together. -/
theorem shift_append (n : Nat) (x y : Reading) :
    (x.append y).shift n = (x.shift n).append (y.shift n) := by
  obtain ⟨batches, _ | f⟩ := x <;> rfl

/-- The first batch and the others are determined by the whole. -/
theorem cons_inj {b b' : Batch} (h : cons b x = cons b' y) : b = b' ∧ x = y := by
  obtain ⟨batches, ending⟩ := x
  obtain ⟨batches', ending'⟩ := y
  cases h
  exact ⟨rfl, rfl⟩

/-- A batch in front is handed out first. -/
theorem items_cons (b : Batch) (x : Reading) : (cons b x).items = .ok b :: x.items :=
  rfl

end Reading

/-! ### Streams -/

/-- What a stream holds under an expected schema, for the block of a number. -/
def streamReading (expected : List ColumnField) (index : Nat) (s : Stream.Reader) : Reading :=
  match _ : s.next with
  | .error fault => ⟨[], some (.defect (.badMessage index fault))⟩
  | .ok none => ⟨[], none⟩
  | .ok (some (b, t)) =>
    match conform expected b with
    | .error m => ⟨[], some (.defect (.mismatch m))⟩
    | .ok b => (streamReading expected index t).cons b
termination_by s.rest.length
decreasing_by exact Stream.Reader.next_shortens ‹_›

/-- What a stream holds, by what the stream answers next. -/
theorem streamReading_next (expected : List ColumnField) (index : Nat) (s : Stream.Reader) :
    streamReading expected index s =
      match s.next with
      | .error fault => ⟨[], some (.defect (.badMessage index fault))⟩
      | .ok none => ⟨[], none⟩
      | .ok (some (b, t)) =>
        match conform expected b with
        | .error m => ⟨[], some (.defect (.mismatch m))⟩
        | .ok b => (streamReading expected index t).cons b := by
  rw [streamReading]
  split <;> simp only [*]

/-- What is left of the block that a reader is at is what its next step says, and what comes
after. -/
theorem streamReading_nextInBlock (r : Reader) (p : Position) (s : Stream.Reader) :
    streamReading r.expected (p.visited - 1) s =
      match r.nextInBlock p s with
      | .error d => ⟨[], some (.defect d)⟩
      | .ok none => ⟨[], none⟩
      | .ok (some (b, t)) => (streamReading r.expected (p.visited - 1) t).cons b := by
  rw [streamReading_next, Reader.nextInBlock]
  rcases s.next with fault | _ | ⟨b, t⟩
  · rfl
  · rfl
  · dsimp only
    cases conform r.expected b <;> rfl

/-- The number of a block says nothing about the batches of its stream. -/
private theorem streamReading_shift (expected : List ColumnField) (index n : Nat)
    (s : Stream.Reader) :
    streamReading expected (index + n) s = (streamReading expected index s).shift n := by
  fun_induction streamReading expected index s with
  | case1 s fault h => rw [streamReading_next, h]; rfl
  | case2 s h => rw [streamReading_next, h]; rfl
  | case3 s b t h m hm => rw [streamReading_next, h]; simp only [hm]; rfl
  | case4 s b t h b' hb ih => rw [streamReading_next, h]; simp only [hb, ih]; rfl

/-! ### Blocks -/

namespace Codec

variable (c : Codec)

/-- The stream of a block. -/
def streamOf (index : Nat) (block : Bytes) : Except Obstacle Bytes :=
  match c.compressor with
  | none => .ok block
  | some p => (p.decode block).mapError fun d => .badFrame index p.algorithm d.toError

/-- Opens a block, if there is memory for it. -/
def opens (index : Nat) (block : Bytes) : Except Obstacle Stream.Reader := do
  openStream index (← c.streamOf index block)

/-- What some blocks hold under an expected schema, where the first one has a number. -/
def reading (expected : List ColumnField) : (index : Nat) → List Bytes → Reading
  | _, [] => ⟨[], none⟩
  | index, block :: blocks =>
    match c.opens index block with
    | .error o => ⟨[], some (.obstacle o)⟩
    | .ok s => (streamReading expected index s).append (reading expected (index + 1) blocks)

variable {c} {expected : List ColumnField}

private theorem openStream_shift (index n : Nat) (stream : Bytes) :
    openStream (index + n) stream = (openStream index stream).mapError (Obstacle.shift n) := by
  rw [openStream, openStream]
  split
  · cases Stream.Reader.ofBytes stream <;> rfl
  · rfl

/-- The number of a block says nothing about whether it opens. -/
private theorem opens_shift (index n : Nat) (block : Bytes) :
    c.opens (index + n) block = (c.opens index block).mapError (Obstacle.shift n) := by
  have hstream :
      c.streamOf (index + n) block = (c.streamOf index block).mapError (Obstacle.shift n) := by
    obtain ⟨_ | p⟩ := c
    · rfl
    · cases hp : p.decode block <;> simp only [streamOf, hp] <;> rfl
  rw [opens, opens, hstream]
  cases c.streamOf index block with
  | error o => rfl
  | ok stream => exact openStream_shift index n stream

/-- What keeps a block from being opened is found in its bytes. -/
theorem kind_of_opens {index : Nat} {block : Bytes} {o : Obstacle}
    (h : c.opens index block = .error o) : o.toError.kind = .corruptData := by
  rw [opens] at h
  cases hs : c.streamOf index block with
  | error o' =>
    rw [hs] at h
    cases h
    obtain ⟨_ | p⟩ := c
    · cases hs
    · cases hp : p.decode block <;> simp only [streamOf, hp] at hs <;> cases hs
      rfl
  | ok stream =>
    rw [hs] at h
    replace h : openStream index stream = .error o := h
    rw [openStream] at h
    split at h
    · cases hs : Stream.Reader.ofBytes stream <;> rw [hs] at h <;> cases h
      rfl
    · cases h
      rfl

/-- Under other numbers the blocks hold the same batches, and the same flaw in the block that has
the other number. -/
theorem reading_shift (index n : Nat) (blocks : List Bytes) :
    c.reading expected (index + n) blocks = (c.reading expected index blocks).shift n := by
  induction blocks generalizing index with
  | nil => rfl
  | cons block blocks ih =>
    rw [reading, reading, opens_shift]
    cases c.opens index block with
    | error o => rfl
    | ok s =>
      have hlater := ih (index + 1)
      rw [Nat.add_right_comm] at hlater
      simp only [Except.mapError_ok, streamReading_shift, hlater, Reading.shift_append]

/-- **Readings are appended.** Blocks are read one after the other, up to the first flaw. -/
theorem reading_append (index : Nat) (blocks later : List Bytes) :
    c.reading expected index (blocks ++ later) =
      (c.reading expected index blocks).append
        ((c.reading expected index later).shift blocks.length) := by
  rw [← reading_shift]
  induction blocks generalizing index with
  | nil => rfl
  | cons block blocks ih =>
    rw [List.cons_append, reading, reading]
    cases c.opens index block with
    | error o => rfl
    | ok s =>
      have hlength : index + (block :: blocks).length = index + 1 + blocks.length := by
        rw [List.length_cons]
        omega
      simp only [ih, hlength, Reading.append_assoc]

end Codec

/-! ### Kinds -/

/-- A block that turns out to be unreadable is corrupt data. -/
theorem Reader.Defect.kind_toError (d : Defect) : d.toError.kind = .corruptData := by
  cases d with
  | badMessage => rfl
  | mismatch m => cases m <;> rfl

/-- A flaw of two readings together is one of either. -/
private theorem Reading.append_ending {x y : Reading} {f : Flaw}
    (h : (x.append y).ending = some f) :
    x.ending = some f ∨ y.ending = some f := by
  obtain ⟨batches, _ | g⟩ := x
  · exact .inr h
  · exact .inl h

/-- A stream is ended by corrupt data only. -/
private theorem kind_of_streamReading {expected : List ColumnField} {index : Nat}
    {s : Stream.Reader} {f : Flaw} (h : (streamReading expected index s).ending = some f) :
    f.toError.kind = .corruptData := by
  fun_induction streamReading expected index s with
  | case1 => cases h; rfl
  | case2 => cases h
  | case3 s b t hs m => cases h; exact Reader.Defect.kind_toError (.mismatch m)
  | case4 s b t hs b' hb ih => exact ih h

/-- Every flaw is one of corrupt data. -/
theorem Codec.kind_of_reading {c : Codec} {expected : List ColumnField} {index : Nat}
    {blocks : List Bytes} {f : Flaw} (h : (c.reading expected index blocks).ending = some f) :
    f.toError.kind = .corruptData := by
  induction blocks generalizing index with
  | nil => cases h
  | cons block blocks ih =>
    rw [reading] at h
    cases ho : c.opens index block with
    | error o =>
      rw [ho] at h
      cases h
      exact kind_of_opens ho
    | ok s =>
      rw [ho] at h
      exact (Reading.append_ending h).elim kind_of_streamReading ih

end Columnar.Block
