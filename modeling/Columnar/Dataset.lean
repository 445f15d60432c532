import Columnar.Block

/-!
# Datasets

A dataset replays one buffer on every partition. Here is how its buffer is read, how the batches of
a partition are handed out, and how what was handed out is counted.
-/

namespace Columnar

/-! ## Metrics

What the readers of a dataset have handed out: rows and batches, counted for every reader and summed
over all of them or over those of one partition. Counters are 64-bit words.
-/

/-- Rows and batches handed out. -/
structure Output where
  /-- Rows. -/
  rows : UInt64 := 0
  /-- Batches. -/
  batches : UInt64 := 0
deriving DecidableEq, Repr

namespace Output

/-- The output of two readers together. -/
def add (x y : Output) : Output :=
  ⟨x.rows + y.rows, x.batches + y.batches⟩

/-- The output after one more batch of so many rows. -/
def record (rows : Nat) (x : Output) : Output :=
  x.add ⟨UInt64.ofNat rows, 1⟩

/-- The sum of outputs. -/
def sum (xs : List Output) : Output :=
  xs.foldl add ⟨0, 0⟩

end Output

/-- The counters of all readers of a dataset, in the order in which the readers were made; each has
the number of its partition. -/
structure Metrics where
  /-- Partition and output of each reader. -/
  readers : List (UInt64 × Output) := []
deriving DecidableEq, Repr

namespace Metrics

/-- Adds a reader of a partition, and returns its number. -/
def register (partition : UInt64) (m : Metrics) : Nat × Metrics :=
  (m.readers.length, ⟨m.readers ++ [(partition, ⟨0, 0⟩)]⟩)

/-- Counts a batch for a reader. -/
def record (reader rows : Nat) (m : Metrics) : Metrics :=
  ⟨m.readers.modify reader fun (partition, output) => (partition, output.record rows)⟩

/-- The output of all readers, or nothing if there never was one. -/
def total? (m : Metrics) : Option Output :=
  if m.readers.isEmpty then none else some (.sum (m.readers.map (·.2)))

/-- The partitions that have had a reader, in ascending order. -/
def partitions (m : Metrics) : List UInt64 :=
  (m.readers.map (·.1)).eraseDups.mergeSort (· ≤ ·)

/-- The output of the readers of a partition. -/
def ofPartition (partition : UInt64) (m : Metrics) : Output :=
  .sum ((m.readers.filter (·.1 == partition)).map (·.2))

end Metrics

/-! ## Sources of batches

What a dataset needs to know about the reading of its buffer: how a reader is made, how it hands out
batches, how it is closed, and why it comes to an end. Readers live in a world that they may change.
The end of a reader matters only to those who read on until they are there; a reader as such may go
on for ever.
-/

/-- What can be done with readers, whatever they read: `σ` is a reader, `ω` the world. -/
structure BatchReader (σ ω : Type) where
  /-- The next batch of a reader, or what is wrong with it. -/
  next : σ → ω → Item × σ × ω
  /-- Closes a reader. -/
  close : σ → ω → σ × ω

/-- How buffers are read. -/
structure BatchSource (σ ω : Type) extends BatchReader σ ω where
  /-- Makes a reader of a buffer that hands out batches of the given fields, or of any if there are
  none. -/
  start : List Field → Buffer → ω → Except Error σ × ω
  /-- What a reader has before it. -/
  left : σ → Nat × Nat
  /-- With every batch, a reader has less before it. -/
  next_left : ∀ {s s' : σ} {w w' : ω} {b : Batch},
    next s w = (some (.ok b), s', w') → Block.Reader.Less (left s') (left s)

instance {σ ω : Type} : Coe (BatchSource σ ω) (BatchReader σ ω) where
  coe := BatchSource.toBatchReader

/-- Reading with a codec. -/
def Block.Codec.source (c : Codec) : BatchSource Reader Host where
  start fields buffer h :=
    let (r, h) := Reader.start c fields buffer h
    (.ok r, h)
  next := Reader.next
  close := Reader.close
  left := Reader.left
  next_left := Reader.next_left

/-! ## Iterators over partitions

An iterator hands out the batches of one partition, counts them, and names the partition in errors.
It closes its reader as soon as that has come to its end or to an error, or when it is told to,
whichever is first; after that it has no batches.
-/

/-- A world, and what the iterators of a dataset have handed out. -/
structure Run (ω : Type) where
  /-- What was handed out. -/
  metrics : Metrics
  /-- The world. -/
  world : ω

/-- The batches of a partition. -/
structure BatchIterator (σ : Type) where
  /-- The partition. -/
  partition : Partition
  /-- Where its output is counted. -/
  meter : Nat
  /-- What it reads from, unless it is closed. -/
  reader : Option σ

namespace BatchIterator

variable {σ ω : Type} [Journal ω]

/-- Whether an iterator has given up its reader. -/
def isClosed (it : BatchIterator σ) : Bool :=
  it.reader.isNone

/-- Closes an iterator, if it is not closed. -/
def close (source : BatchReader σ ω) (it : BatchIterator σ) (run : Run ω) :
    BatchIterator σ × Run ω :=
  match it.reader with
  | none => (it, run)
  | some r =>
    let (_, world) := source.close r run.world
    ({ it with reader := none }, { run with world := Journal.note (.closed it.partition) world })

/-- The next batch of an iterator, or what is wrong with it. -/
def next (source : BatchReader σ ω) (it : BatchIterator σ) (run : Run ω) :
    Item × BatchIterator σ × Run ω :=
  match it.reader with
  | none => (none, it, run)
  | some r =>
    let (item, r, world) := source.next r run.world
    let it := { it with reader := some r }
    match item with
    | some (.ok b) => (some (.ok b), it, ⟨run.metrics.record it.meter b.rows, world⟩)
    | some (.error e) =>
      (some (.error (e.inContext s!"partition {it.partition.index.toNat}")),
        it.close source { run with world })
    | none => (none, it.close source { run with world })

/-- What an iterator has before it. -/
def left (source : BatchSource σ ω) (it : BatchIterator σ) : Nat × Nat :=
  (it.reader.map source.left).getD (0, 0)

/-- With every batch, an iterator has less before it. -/
theorem next_left {source : BatchSource σ ω} {it it' : BatchIterator σ} {run run' : Run ω}
    {b : Batch} (h : it.next source run = (some (.ok b), it', run')) :
    Block.Reader.Less (it'.left source) (it.left source) := by
  unfold next at h
  split at h
  · simp at h
  · next r hr =>
    generalize hn : source.next r run.world = out at h
    obtain ⟨item, r', world⟩ := out
    dsimp only at h
    split at h
    · simp only [Prod.mk.injEq, Option.some.injEq, Except.ok.injEq] at h
      obtain ⟨rfl, rfl, -⟩ := h
      simpa [left, hr] using source.next_left hn
    · simp at h
    · simp at h

/-- All that an iterator still hands out. -/
def drain (source : BatchSource σ ω) (it : BatchIterator σ) (run : Run ω) :
    List (Except Error Batch) × BatchIterator σ × Run ω :=
  match _ : it.next source run with
  | (some (.ok b), it, run) =>
    let (items, it, run) := it.drain source run
    (.ok b :: items, it, run)
  | (some (.error e), it, run) => ([.error e], it, run)
  | (none, it, run) => ([], it, run)
termination_by it.left source
decreasing_by exact next_left ‹_›

/-- What `f` makes of all batches that an iterator still has, up to the first error of either. The
iterator is closed after that. -/
def collect {α : Type} (f : Batch → Except Error α) (source : BatchSource σ ω)
    (it : BatchIterator σ) (run : Run ω) : Except Error (List α) × Run ω :=
  match _ : it.next source run with
  | (some (.ok b), it, run) =>
    match f b with
    | .ok a =>
      let (r, run) := it.collect f source run
      (r.map (a :: ·), run)
    | .error e => (.error e, (it.close source run).2)
  | (some (.error e), _, run) => (.error e, run)
  | (none, _, run) => (.ok [], run)
termination_by it.left source
decreasing_by exact next_left ‹_›

end BatchIterator

/-! ## The dataset

A dataset replays a buffer: each of its partitions has all batches of all blocks. The partitions
share the buffer and nothing else, so that they can be read in any order and at the same time.
-/

/-- A dataset. -/
structure Dataset (σ ω : Type) where
  /-- How many partitions it has. -/
  numPartitions : UInt64
  /-- What each of them replays. -/
  buffer : Buffer
  /-- How the buffer is read. -/
  source : BatchSource σ ω
  /-- The fields that all batches have to have, or none. -/
  fields : List Field := []

namespace Dataset

variable {σ ω : Type} [Journal ω]

/-- The partitions, in ascending order. -/
def partitions (d : Dataset σ ω) : List Partition :=
  (List.range d.numPartitions.toNat).map fun i => ⟨UInt64.ofNat i⟩

/-- An iterator over a partition. -/
def compute (d : Dataset σ ω) (p : Partition) (run : Run ω) :
    Except Error (BatchIterator σ) × Run ω :=
  if d.numPartitions ≤ p.index then
    (.error ⟨.invalidPartition,
      s!"{p.id} is out of range for {d.numPartitions.toNat} partitions", none⟩, run)
  else
    match d.source.start d.fields d.buffer run.world with
    | (.error e, world) =>
      (.error (e.inContext s!"partition {p.index.toNat}"), { run with world })
    | (.ok r, world) =>
      let (meter, metrics) := run.metrics.register p.index
      (.ok ⟨p, meter, some r⟩, ⟨metrics, Journal.note (.computing p d.buffer) world⟩)

/-- What `f` makes of the batches of a partition, up to the first error. -/
def collectPartition {α : Type} (f : Batch → Except Error α) (d : Dataset σ ω) (p : Partition)
    (run : Run ω) : Except Error (List α) × Run ω :=
  match d.compute p run with
  | (.error e, run) => (.error e, run)
  | (.ok it, run) => it.collect f d.source run

/-- The batches of some partitions one after the other, up to the first that has an error. -/
def collectAll (d : Dataset σ ω) : List Partition → Run ω → Except Error (List (List Batch)) × Run ω
  | [], run => (.ok [], run)
  | p :: ps, run =>
    match d.collectPartition .ok p run with
    | (.error e, run) => (.error e, run)
    | (.ok batches, run) =>
      let (rest, run) := d.collectAll ps run
      (rest.map (batches :: ·), run)

/-- The batches of all partitions. -/
def collect (d : Dataset σ ω) (run : Run ω) : Except Error (List (List Batch)) × Run ω :=
  d.collectAll d.partitions run

end Dataset

end Columnar
