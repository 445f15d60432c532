import Columnar.Dataset
import Columnar.Stream.Message

/-!
# Lives of iterators

An iterator closes its reader exactly once: when that has come to its end or to an error, or when it
is told to, or when it is dropped, whichever is first. It asks the reader for nothing after that.
This holds of any reader, also of one that would go on after its end, and whatever happens between
the calls (`Course`).

Any number of iterators are counted together. At any time the metrics are the totals of what the
iterators have handed out, in 64-bit words (`Lives.lifecycle`). That the words are finite can be
seen: three batches without columns have more rows than a word can count (`Lives.rows_ne_total`).

What a call of an iterator can do is said once, in `Life.Step`; both invariants are read off it.
-/

namespace Columnar

/-! ### Calls of a reader -/

/-- A call of a reader, with the answer if there is one. -/
inductive ReaderEvent where
  /-- It was asked for its next batch. -/
  | next (item : Item)
  /-- It was closed. -/
  | close

/-- A world with a record of the calls of a reader, in order. -/
structure Recorded (ω : Type) where
  /-- The world. -/
  world : ω
  /-- The calls. -/
  events : List ReaderEvent := []

section

variable {σ ω : Type}

instance [Journal ω] : Journal (Recorded ω) where
  note e w := { w with world := Journal.note e w.world }

/-- The same readers, whose calls are recorded. -/
def BatchReader.recorded (reader : BatchReader σ ω) : BatchReader σ (Recorded ω) where
  next r w :=
    let (item, r, world) := reader.next r w.world
    (item, r, ⟨world, w.events ++ [.next item]⟩)
  close r w :=
    let (r, world) := reader.close r w.world
    (r, ⟨world, w.events ++ [.close]⟩)

/-- The calls that a step makes of a reader. -/
def eventsOf (step : Run (Recorded ω) → Run (Recorded ω)) (run : Run ω) : List ReaderEvent :=
  (step ⟨run.metrics, ⟨run.world, []⟩⟩).world.events

/-! ### Calls of iterators -/

/-- A call of an iterator. -/
inductive IteratorCall where
  /-- Asks for the next batch. -/
  | next
  /-- Closes the iterator. -/
  | close
  /-- Drops the iterator, which closes it. -/
  | drop
deriving DecidableEq

/-- An iterator with its history. -/
structure Life (σ : Type) where
  /-- The iterator. -/
  iterator : BatchIterator σ
  /-- The calls that were made of it. -/
  calls : List IteratorCall := []
  /-- Its answers to the calls of `next`. -/
  answers : List Item := []
  /-- The calls that it has made of its reader. -/
  events : List ReaderEvent := []

/-- The batches that an iterator has handed out. -/
def Life.batches (l : Life σ) : List Batch :=
  l.answers.filterMap fun
    | some (.ok b) => some b
    | _ => none

/-- Iterators that share a world and are counted together. -/
structure Lives (σ ω : Type) where
  /-- The iterators, in the order in which they were made. -/
  lives : List (Life σ)
  /-- The world, and the metrics. -/
  run : Run ω

/-- Something that happens to iterators. -/
inductive Lives.Happening (σ ω : Type) where
  /-- An iterator is made over a reader. -/
  | make (p : Partition) (r : σ)
  /-- An iterator is called, by its number. -/
  | call (i : Nat) (c : IteratorCall)
  /-- The world changes. -/
  | elsewhere (f : ω → ω)

/-- An iterator over a reader of a partition. Datasets make their iterators so
(`Dataset.compute_eq_ok`). -/
def BatchIterator.ofReader (p : Partition) (r : σ) (run : Run ω) : BatchIterator σ × Run ω :=
  let (meter, metrics) := run.metrics.register p.index
  (⟨p, meter, some r⟩, { run with metrics })

variable [Journal ω]

/-- Makes a call of an iterator, unless it was dropped. -/
def Life.call (reader : BatchReader σ ω) (c : IteratorCall) (l : Life σ) (run : Run ω) :
    Life σ × Run ω :=
  if .drop ∈ l.calls then (l, run)
  else
    match c with
    | .next =>
      let events := eventsOf (fun run => (l.iterator.next reader.recorded run).2.2) run
      let (item, iterator, run) := l.iterator.next reader run
      (⟨iterator, l.calls ++ [c], l.answers ++ [item], l.events ++ events⟩, run)
    | .close | .drop =>
      let events := eventsOf (fun run => (l.iterator.close reader.recorded run).2) run
      let (iterator, run) := l.iterator.close reader run
      (⟨iterator, l.calls ++ [c], l.answers, l.events ++ events⟩, run)

namespace Lives

/-- One thing happens. -/
def step (reader : BatchReader σ ω) (s : Lives σ ω) : Happening σ ω → Lives σ ω
  | .make p r =>
    let (iterator, run) := BatchIterator.ofReader p r s.run
    ⟨s.lives ++ [{ iterator }], run⟩
  | .call i c =>
    match s.lives[i]? with
    | some l =>
      let (l, run) := l.call reader c s.run
      ⟨s.lives.set i l, run⟩
    | none => s
  | .elsewhere f => { s with run.world := f s.run.world }

/-- What has become of iterators, from a world in which there were none. -/
def after (reader : BatchReader σ ω) (happenings : List (Happening σ ω)) (world : ω) : Lives σ ω :=
  happenings.foldl (step reader) ⟨[], {}, world⟩

end Lives

end

/-! ### The course of a life -/

/-- The course of an iterator over a partition: whether it is closed, the calls that were made of
it, those that it has made of its reader, and its answers. -/
inductive Course (p : Partition) :
    (isClosed : Bool) → List IteratorCall → List ReaderEvent → List Item → Prop
  /-- It was asked for batches, and its reader has had them. -/
  | reading (batches : List Batch) :
    Course p false (List.replicate batches.length .next)
      (batches.map fun b => .next (some (.ok b))) (batches.map fun b => some (.ok b))
  /-- It was closed or dropped after some batches, and was empty for all later calls. -/
  | closed (batches : List Batch) {c : IteratorCall} (hc : c ≠ .next) (later : List IteratorCall) :
    Course p true (List.replicate batches.length .next ++ c :: later)
      ((batches.map fun b => .next (some (.ok b))) ++ [.close])
      ((batches.map fun b => some (.ok b)) ++ List.replicate (later.count .next) none)
  /-- Its reader came to the end or to an error after some batches. It has passed this on, the error
  with the name of the partition, and was empty for all later calls. -/
  | finished (batches : List Batch) (e : Option Error) (later : List IteratorCall) :
    Course p true (List.replicate batches.length .next ++ .next :: later)
      ((batches.map fun b => .next (some (.ok b))) ++ [.next (e.map .error), .close])
      ((batches.map fun b => some (.ok b)) ++
        (e.map fun e =>
          .error ⟨e.kind, "partition " ++ toString p.index.toNat ++ ": " ++ e.message, e.source⟩) ::
        List.replicate (later.count .next) none)

namespace Course

variable {p : Partition} {calls : List IteratorCall} {events : List ReaderEvent}
  {answers : List Item} {c : IteratorCall}

/-- A closed iterator is empty. -/
theorem append_next (h : Course p true calls events answers) :
    Course p true (calls ++ [.next]) events (answers ++ [none]) := by
  cases h with
  | closed batches hc later =>
    have h := closed (p := p) batches hc (later ++ [.next])
    rwa [List.count_append, List.count_singleton_self, List.replicate_succ', ← List.append_assoc,
      ← List.cons_append, ← List.append_assoc] at h
  | finished batches e later =>
    have h := finished (p := p) batches e (later ++ [.next])
    rwa [List.count_append, List.count_singleton_self, List.replicate_succ', ← List.cons_append,
      ← List.cons_append, ← List.append_assoc, ← List.append_assoc] at h

/-- To close a closed iterator changes nothing. -/
theorem append_close (h : Course p true calls events answers) (hc : c ≠ .next) :
    Course p true (calls ++ [c]) events answers := by
  cases h with
  | closed batches hc' later =>
    have h := closed (p := p) batches hc' (later ++ [c])
    rwa [List.count_append, List.count_singleton, if_neg (by simpa using hc), Nat.add_zero,
      ← List.cons_append, ← List.append_assoc] at h
  | finished batches e later =>
    have h := finished (p := p) batches e (later ++ [c])
    rwa [List.count_append, List.count_singleton, if_neg (by simpa using hc), Nat.add_zero,
      ← List.cons_append, ← List.append_assoc] at h

theorem batch (h : Course p false calls events answers) (b : Batch) :
    Course p false (calls ++ [.next]) (events ++ [.next (some (.ok b))])
      (answers ++ [some (.ok b)]) := by
  cases h with
  | reading batches =>
    have h := reading (p := p) (batches ++ [b])
    rwa [List.length_append, List.length_singleton, List.replicate_succ', List.map_append,
      List.map_append] at h

theorem last (h : Course p false calls events answers) (e : Option Error) :
    Course p true (calls ++ [.next]) (events ++ [.next (e.map .error), .close])
      (answers ++ [e.map fun e => .error (e.inContext s!"partition {p.index.toNat}")]) := by
  cases h with
  | reading batches => exact finished batches e []

theorem close (h : Course p false calls events answers) (hc : c ≠ .next) :
    Course p true (calls ++ [c]) (events ++ [.close]) answers := by
  cases h with
  | reading batches =>
    have h := closed (p := p) batches hc []
    rwa [List.count_nil, List.replicate_zero, List.append_nil] at h

end Course

/-! ### What a call does -/

namespace Life

variable {σ ω : Type} [Journal ω]

/-- What a call does to an iterator and to the metrics. -/
inductive Step : IteratorCall → Life σ → Metrics → Life σ → Metrics → Prop
  /-- There are no calls of an iterator that was dropped. -/
  | dropped {c : IteratorCall} {l : Life σ} {m : Metrics} (hdrop : .drop ∈ l.calls) :
    Step c l m l m
  /-- A closed iterator is empty. -/
  | empty {l : Life σ} {m : Metrics} (hr : l.iterator.reader = none) :
    Step .next l m { l with calls := l.calls ++ [.next], answers := l.answers ++ [none] } m
  /-- It is closed once only. -/
  | stays {c : IteratorCall} {l : Life σ} {m : Metrics} (hr : l.iterator.reader = none)
    (hc : c ≠ .next) : Step c l m { l with calls := l.calls ++ [c] } m
  /-- A batch is handed out and counted. -/
  | batch {l : Life σ} {m : Metrics} {r : σ} (hr : l.iterator.reader = some r) (b : Batch)
    (r' : σ) : Step .next l m
      ⟨{ l.iterator with reader := some r' }, l.calls ++ [.next], l.answers ++ [some (.ok b)],
        l.events ++ [.next (some (.ok b))]⟩
      (m.record l.iterator.meter b.rows)
  /-- The reader has come to its end or to an error, and is closed. -/
  | last {l : Life σ} {m : Metrics} {r : σ} (hr : l.iterator.reader = some r) (e : Option Error) :
    Step .next l m
      ⟨{ l.iterator with reader := none }, l.calls ++ [.next],
        l.answers ++ [e.map fun e =>
          .error (e.inContext s!"partition {l.iterator.partition.index.toNat}")],
        l.events ++ [.next (e.map .error), .close]⟩ m
  /-- The reader is closed. -/
  | close {c : IteratorCall} {l : Life σ} {m : Metrics} {r : σ} (hr : l.iterator.reader = some r)
    (hc : c ≠ .next) :
    Step c l m
      ⟨{ l.iterator with reader := none }, l.calls ++ [c], l.answers, l.events ++ [.close]⟩ m

private theorem call_step (reader : BatchReader σ ω) (c : IteratorCall) (l : Life σ) (run : Run ω) :
    Step c l run.metrics (l.call reader c run).1 (l.call reader c run).2.metrics := by
  unfold call
  split
  · next hdrop => exact .dropped hdrop
  obtain ⟨⟨p, meter, _ | r⟩, calls, answers, events⟩ := l
  · cases c with
    | next =>
      simp only [BatchIterator.next, eventsOf, List.append_nil]
      exact .empty rfl
    | close | drop =>
      simp only [BatchIterator.close, eventsOf, List.append_nil]
      exact .stays rfl nofun
  · cases c with
    | next =>
      rcases hnext : reader.next r run.world with ⟨item, r', world⟩
      simp only [BatchIterator.next, eventsOf, BatchReader.recorded, hnext]
      match item with
      | some (.ok b) => exact .batch rfl b r'
      | some (.error e) => exact .last rfl (some e)
      | none => exact .last rfl none
    | close | drop => exact .close rfl nofun

variable {c : IteratorCall} {l l' : Life σ} {m m' : Metrics}

/-- An iterator takes its course. -/
def IsOrderly (l : Life σ) : Prop :=
  Course l.iterator.partition l.iterator.isClosed l.calls l.events l.answers

/-- **Step of a life.** Every call keeps an iterator on its course. -/
theorem Step.isOrderly (h : Step c l m l' m') (hl : l.IsOrderly) : l'.IsOrderly := by
  rw [IsOrderly, BatchIterator.isClosed] at hl
  cases h with
  | dropped => exact hl
  | empty hr =>
    rw [hr] at hl
    rw [IsOrderly, BatchIterator.isClosed, hr]
    exact hl.append_next
  | stays hr hc =>
    rw [hr] at hl
    rw [IsOrderly, BatchIterator.isClosed, hr]
    exact hl.append_close hc
  | batch hr b r' =>
    rw [hr] at hl
    exact hl.batch b
  | last hr e =>
    rw [hr] at hl
    exact hl.last e
  | close hr hc =>
    rw [hr] at hl
    exact hl.close hc

end Life

/-! ### Totals -/

/-- The output of batches, in 64-bit words. -/
def Output.ofBatches (batches : List Batch) : Output :=
  ⟨UInt64.ofNat (batches.map (·.rows)).sum, UInt64.ofNat batches.length⟩

namespace Output

private theorem ofBatches_append (xs ys : List Batch) :
    ofBatches (xs ++ ys) = (ofBatches xs).add (ofBatches ys) := by
  simp only [ofBatches, add, List.map_append, List.sum_append, List.length_append, UInt64.ofNat_add]

/-- One more batch is counted. -/
private theorem record_ofBatches (batches : List Batch) (b : Batch) :
    (ofBatches batches).record b.rows = ofBatches (batches ++ [b]) := by
  rw [ofBatches_append]
  rfl

/-- The outputs of some readers are summed up to that of all their batches. -/
private theorem sum_ofBatches (groups : List (List Batch)) :
    sum (groups.map ofBatches) = ofBatches groups.flatten := by
  have hfold (before : List Batch) :
      (groups.map ofBatches).foldl add (ofBatches before) =
        ofBatches (before ++ groups.flatten) := by
    induction groups generalizing before with
    | nil => rw [List.flatten_nil, List.append_nil]; rfl
    | cons g groups ih =>
      rw [List.map_cons, List.foldl_cons, ← ofBatches_append, ih, List.flatten_cons,
        List.append_assoc]
  exact hfold []

end Output

namespace Life

variable {σ : Type} {c : IteratorCall} {l l' : Life σ} {m m' : Metrics}

/-- What the metrics say of an iterator. -/
def counted (l : Life σ) : UInt64 × Output :=
  (l.iterator.partition.index, Output.ofBatches l.batches)

private theorem counted_append (l : Life σ) (b : Batch) (reader : Option σ)
    (calls : List IteratorCall) (events : List ReaderEvent) :
    counted ⟨{ l.iterator with reader }, calls, l.answers ++ [some (.ok b)], events⟩ =
      (l.counted.1, l.counted.2.record b.rows) := by
  have hbatches : batches ⟨{ l.iterator with reader }, calls, l.answers ++ [some (.ok b)], events⟩ =
      l.batches ++ [b] := List.filterMap_append
  rw [counted, counted, hbatches, Output.record_ofBatches]

private theorem counted_of_last (l : Life σ) (e : Option Error) (reader : Option σ)
    (calls : List IteratorCall) (events : List ReaderEvent) :
    counted ⟨{ l.iterator with reader }, calls, l.answers ++ [e.map .error], events⟩ =
      l.counted := by
  have hbatches : batches ⟨{ l.iterator with reader }, calls, l.answers ++ [e.map .error], events⟩ =
      l.batches ++ [] := by
    refine List.filterMap_append.trans (congrArg (l.batches ++ ·) ?_)
    cases e <;> rfl
  rw [counted, counted, hbatches, List.append_nil]

/-- A call is counted where the iterator is counted, and nowhere else. -/
private theorem Step.readers_eq (h : Step c l m l' m')
    (hl : m.readers[l.iterator.meter]? = some l.counted) :
    l'.iterator.meter = l.iterator.meter ∧
      m'.readers = m.readers.set l.iterator.meter l'.counted := by
  have hsame : m.readers.set l.iterator.meter l.counted = m.readers := by
    obtain ⟨hlt, hget⟩ := List.getElem?_eq_some_iff.1 hl
    rw [← hget, List.set_getElem_self]
  cases h with
  | dropped | stays | close => exact ⟨rfl, hsame.symm⟩
  | empty hr =>
    refine ⟨rfl, hsame.symm.trans ?_⟩
    exact congrArg _ (counted_of_last l none l.iterator.reader _ l.events).symm
  | last hr e =>
    refine ⟨rfl, hsame.symm.trans (congrArg _ ?_)⟩
    have h := counted_of_last l
      (e.map (·.inContext s!"partition {l.iterator.partition.index.toNat}"))
    rw [Option.map_map] at h
    exact (h none _ _).symm
  | batch hr b r' =>
    have : Inhabited (UInt64 × Output) := ⟨l.counted⟩
    refine ⟨rfl, ?_⟩
    rw [counted_append, Metrics.record, List.modify_eq_set, hl]
    rfl

end Life

/-! ### Iterators that are counted together -/

/-- What is known of iterators that are counted together. -/
structure Lives.IsCounted {σ ω : Type} (s : Lives σ ω) : Prop where
  /-- All of them take their course. -/
  orderly : ∀ l ∈ s.lives, l.IsOrderly
  /-- Each has a place of its own in the metrics. -/
  meter_eq : ∀ (i : Nat) l, s.lives[i]? = some l → l.iterator.meter = i
  /-- There the metrics have its output. -/
  readers_eq : s.run.metrics.readers = s.lives.map Life.counted

namespace Lives

variable {σ ω : Type} {s : Lives σ ω}

/-- An iterator that is made comes last, and has handed out nothing. -/
private theorem IsCounted.make (hs : s.IsCounted) (p : Partition) (r : σ) :
    IsCounted ⟨s.lives ++ [{ iterator := (BatchIterator.ofReader p r s.run).1 }],
      (BatchIterator.ofReader p r s.run).2⟩ where
  orderly l hl := by
    obtain hl | hl := List.mem_append.1 hl
    · exact hs.orderly l hl
    · obtain rfl := List.mem_singleton.1 hl
      exact .reading []
  meter_eq i l hl := by
    obtain hlt | hle := Nat.lt_or_ge i s.lives.length
    · rw [List.getElem?_append_left hlt] at hl
      exact hs.meter_eq i l hl
    · rw [List.getElem?_append_right hle] at hl
      obtain ⟨hi, rfl⟩ := List.getElem?_eq_some_iff.1 hl
      rw [List.length_singleton] at hi
      have hlength : s.run.metrics.readers.length = s.lives.length := by
        rw [hs.readers_eq, List.length_map]
      simp only [List.getElem_singleton, BatchIterator.ofReader, Metrics.register]
      omega
  readers_eq := by
    rw [List.map_append, ← hs.readers_eq]
    rfl

/-- The output of the iterators over a partition, or of all. -/
private theorem IsCounted.sum_filter (hs : s.IsCounted) (f : UInt64 → Bool) :
    Output.sum ((s.run.metrics.readers.filter (f ·.1)).map (·.2)) =
      .ofBatches ((s.lives.filter (f ·.iterator.partition.index)).flatMap Life.batches) := by
  rw [hs.readers_eq, List.filter_map, List.map_map, List.flatMap, ← Output.sum_ofBatches,
    List.map_map]
  rfl

variable [Journal ω]

/-- A call of an iterator changes its own place in the metrics. -/
private theorem IsCounted.call (hs : s.IsCounted) (reader : BatchReader σ ω) {i : Nat} {l : Life σ}
    (hi : s.lives[i]? = some l) (c : IteratorCall) :
    IsCounted ⟨s.lives.set i (l.call reader c s.run).1, (l.call reader c s.run).2⟩ := by
  have hstep := l.call_step reader c s.run
  have hplace : s.run.metrics.readers[l.iterator.meter]? = some l.counted := by
    rw [hs.readers_eq, List.getElem?_map, hs.meter_eq i l hi, hi, Option.map_some]
  obtain ⟨hmeter, hreaders⟩ := hstep.readers_eq hplace
  rw [hs.meter_eq i l hi] at hmeter hreaders
  refine ⟨fun l' hl' => ?_, fun j l' hj => ?_, ?_⟩
  · obtain hl' | rfl := List.mem_or_eq_of_mem_set hl'
    · exact hs.orderly l' hl'
    · exact hstep.isOrderly (hs.orderly l (List.mem_of_getElem? hi))
  · rw [List.getElem?_set] at hj
    split at hj
    · next hij =>
      obtain ⟨-, hl'⟩ := Option.ite_none_right_eq_some.1 hj
      exact Option.some.inj hl' ▸ hmeter.trans hij
    · exact hs.meter_eq j l' hj
  · rw [List.map_set, ← hs.readers_eq]
    exact hreaders

/-- **Step.** Whatever happens, the iterators stay counted. -/
theorem IsCounted.step (hs : s.IsCounted) (reader : BatchReader σ ω) (h : Happening σ ω) :
    (s.step reader h).IsCounted := by
  cases h with
  | make p r => exact hs.make p r
  | call i c =>
    rw [Lives.step]
    cases hi : s.lives[i]? with
    | some l => exact hs.call reader hi c
    | none => exact hs
  | elsewhere f => exact ⟨hs.orderly, hs.meter_eq, hs.readers_eq⟩

theorem isCounted_after (reader : BatchReader σ ω) (happenings : List (Happening σ ω)) (world : ω) :
    (after reader happenings world).IsCounted :=
  List.foldlRecOn happenings (step reader) ⟨List.forall_mem_nil _, nofun, rfl⟩
    fun _ hs h _ => hs.step reader h

end Lives

/-- A dataset makes an iterator over the reader that it has started; where it cannot, nothing is
counted. -/
theorem Dataset.compute_eq_ok {σ ω : Type} [Journal ω] (d : Dataset σ ω) (p : Partition)
    (run : Run ω) :
    match d.compute p run with
    | (.ok it, run') => ∃ r world, (it, run') = BatchIterator.ofReader p r ⟨run.metrics, world⟩
    | (.error _, run') => run'.metrics = run.metrics := by
  by_cases hp : d.numPartitions ≤ p.index
  · rw [compute, if_pos hp]
  rw [compute, if_neg hp]
  rcases d.source.start d.fields d.buffer run.world with ⟨_ | r, world⟩
  · rfl
  · exact ⟨r, Journal.note (.computing p d.buffer) world, rfl⟩

namespace Lives

variable {σ ω : Type} [Journal ω]

/-- **Lives of iterators.** Whatever happens to iterators over any readers, each of them takes its
course: it closes its reader once, asks it for nothing after that, passes on its batches in order
and at most one error, and then is empty. The metrics are the rows and the batches that all
iterators, or those over one partition, have handed out so far, in 64-bit words. The iterators of a
dataset are made as those here are. -/
theorem lifecycle (reader : BatchReader σ ω) (happenings : List (Happening σ ω)) (world : ω) :
    let s := after reader happenings world
    let given (lives : List (Life σ)) := lives.flatMap Life.batches
    (∀ l ∈ s.lives, Course l.iterator.partition l.iterator.isClosed l.calls l.events l.answers) ∧
    (s.run.metrics.total? = none ↔ s.lives = []) ∧
    (∀ o, s.run.metrics.total? = some o →
      o.rows.toNat = ((given s.lives).map (·.rows)).sum % 2 ^ 64 ∧
      o.batches.toNat = (given s.lives).length % 2 ^ 64) ∧
    (∀ i, s.run.metrics.ofPartition i =
      .ofBatches (given (s.lives.filter (·.iterator.partition.index == i)))) ∧
    ∀ (d : Dataset σ ω) (p : Partition) (run : Run ω),
      match d.compute p run with
      | (.ok it, run') => ∃ r world, (it, run') = BatchIterator.ofReader p r ⟨run.metrics, world⟩
      | (.error _, run') => run'.metrics = run.metrics := by
  intro s given
  have hs : s.IsCounted := isCounted_after reader happenings world
  have hempty : s.run.metrics.readers.isEmpty = true ↔ s.lives = [] := by
    rw [hs.readers_eq, List.isEmpty_iff, List.map_eq_nil_iff]
  refine ⟨hs.orderly, ?_, fun o ho => ?_, fun i => hs.sum_filter (· == i), Dataset.compute_eq_ok⟩
  · rw [← hempty, Metrics.total?]
    split <;> simp [*]
  · rw [Metrics.total?] at ho
    obtain ⟨-, ho⟩ := Option.ite_none_left_eq_some.1 ho
    have hall := hs.sum_filter fun _ => true
    rw [List.filter_eq_self.2 fun _ _ => rfl, List.filter_eq_self.2 fun _ _ => rfl] at hall
    obtain rfl : Output.ofBatches (given s.lives) = o := hall.symm.trans (Option.some.inj ho)
    exact ⟨UInt64.toNat_ofNat', UInt64.toNat_ofNat'⟩

/-- Three batches without columns: together they have one row more than a word can count, and the
metrics have none. -/
theorem rows_ne_total :
    let b : Batch := ⟨2 ^ 63 - 1, [], nofun⟩
    let e : Batch := ⟨2, [], nofun⟩
    let r := Block.Reader.start {} [] ⟨⟨0⟩, [Stream.ofBatches [b, b, e]]⟩ {}
    let s := after ({} : Block.Codec).source
      [.make ⟨0⟩ r.1, .call 0 .next, .call 0 .next, .call 0 .next] r.2
    s.run.metrics.total? = some ⟨0, 3⟩ ∧
      ((s.lives.flatMap Life.batches).map (·.rows)).sum = 2 ^ 64 := by
  decide +kernel

end Lives

end Columnar
