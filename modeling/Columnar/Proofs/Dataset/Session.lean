import Columnar.Proofs.Block.Accounting
import Columnar.Proofs.Dataset.Reading

/-!
# Sessions

Any number of iterators over the partitions of a dataset share a host, and are called in any order
(`Dataset.session`). Memory is all that they have in common, and whether there is enough of it for
one depends on the others. What each of them hands out does not: it follows what the iterator hands
out by itself, with no limit of memory (`Dataset.alone`).

A track is an iterator with its history. `Track.IsSound` is what is known of it, and a call of one
iterator keeps that for all of them, since it leaves the memory of the others as it is
(`Dataset.isSound_step`).
-/

namespace Columnar

open Block (Beside Codec Obstacle Reader Reading)

/-! ### Calls -/

/-- An iterator with its history. -/
structure Track (σ : Type) where
  /-- The iterator. -/
  iterator : BatchIterator σ
  /-- What it has answered when it was asked for batches, in order. -/
  answers : List Item := []
  /-- Whether it was told to close. -/
  wasClosed : Bool := false

/-- The iterators of a dataset that were made so far. -/
structure Session (σ ω : Type) where
  /-- The iterators, in order. -/
  tracks : List (Track σ)
  /-- The world that they share. -/
  run : Run ω

namespace Track

variable {σ ω : Type} [Journal ω]

/-- Asks an iterator for its next batch. -/
def next (source : BatchSource σ ω) (t : Track σ) (run : Run ω) : Track σ × Run ω :=
  let (item, iterator, run) := t.iterator.next source run
  ({ t with iterator, answers := t.answers ++ [item] }, run)

/-- Tells an iterator to close. -/
def close (source : BatchSource σ ω) (t : Track σ) (run : Run ω) : Track σ × Run ω :=
  let (iterator, run) := t.iterator.close source run
  ({ t with iterator, wasClosed := true }, run)

variable {source : BatchSource σ ω} {t : Track σ} {run : Run ω}

theorem next_of_closed (hr : t.iterator.reader = none) :
    t.next source run = ({ t with answers := t.answers ++ [none] }, run) := by
  simp only [next, BatchIterator.next, hr]

theorem close_of_closed (hr : t.iterator.reader = none) :
    t.close source run = ({ t with wasClosed := true }, run) := by
  simp only [close, BatchIterator.close, hr]

theorem close_of_open {r : σ} (hr : t.iterator.reader = some r) :
    t.close source run = (⟨{ t.iterator with reader := none }, t.answers, true⟩,
      ⟨run.metrics, Journal.note (.closed t.iterator.partition) (source.close r run.world).2⟩) := by
  simp only [close, BatchIterator.close, hr]

end Track

/-- Does something to an iterator that is there, by its number. -/
def Session.update {σ ω : Type} (s : Session σ ω) (i : Nat)
    (f : Track σ → Run ω → Track σ × Run ω) : Session σ ω :=
  match s.tracks[i]? with
  | some t =>
    let (t, run) := f t s.run
    ⟨s.tracks.set i t, run⟩
  | none => s

namespace Dataset

/-- A call of a dataset or of one of its iterators, by its number. -/
inductive Call where
  /-- Makes an iterator over a partition. -/
  | compute (p : Partition)
  /-- Asks an iterator for its next batch. -/
  | next (i : Nat)
  /-- Tells an iterator to close. -/
  | close (i : Nat)

variable {σ ω : Type} [Journal ω]

/-- Makes a call. -/
def step (d : Dataset σ ω) (s : Session σ ω) : Call → Session σ ω
  | .compute p =>
    match d.compute p s.run with
    | (.ok iterator, run) => ⟨s.tracks ++ [{ iterator }], run⟩
    | (.error _, run) => { s with run }
  | .next i => s.update i (Track.next d.source)
  | .close i => s.update i (Track.close d.source)

/-- Makes calls, one after the other. -/
def session (d : Dataset σ ω) (calls : List Call) (run : Run ω) : Session σ ω :=
  calls.foldl d.step ⟨[], run⟩

/-- What an iterator over a partition hands out by itself, where memory is not limited. -/
def alone (d : Dataset σ Host) (p : Partition) : List (Except Error Batch) :=
  match d.compute p ⟨{}, {}⟩ with
  | (.ok it, run) => (it.drain d.source run).1
  | (.error _, _) => []

end Dataset

namespace Track

variable {σ : Type}

/-- An iterator has answered with the first items of a sequence, and has nothing more: it was told
to close, or has come to the end. Or it was refused memory, and that was its last answer before. -/
def HasEnded (items : List (Except Error Batch)) (pool : Option Pool) (t : Track σ) : Prop :=
  ∃ given m, given <+: items ∧
    (t.answers = given.map some ++ List.replicate m none ∧ (t.wasClosed = true ∨ given = items) ∨
      pool ≠ none ∧ ∃ e : Error, e.kind = .resourceExhausted ∧
        t.answers = given.map some ++ some (.error e) :: List.replicate m none)

/-- The answers of an iterator follow a sequence of items: they are the first of them, or it has
nothing more after these. -/
def Follows (items : List (Except Error Batch)) (pool : Option Pool) (t : Track σ) : Prop :=
  (∃ given, given <+: items ∧ t.answers = given.map some) ∨ t.HasEnded items pool

variable {items : List (Except Error Batch)} {pool : Option Pool} {t : Track σ}

/-- An iterator that comes to its end without a refusal has answered with all items. -/
theorem Follows.eq_of_none (h : t.Follows items pool)
    (hgranted : ∀ e, some (.error e) ∈ t.answers → e.kind ≠ .resourceExhausted)
    (hopen : t.wasClosed = false) (hend : none ∈ t.answers) :
    ∃ m, t.answers = items.map some ++ List.replicate m none := by
  obtain ⟨given, -, hanswers⟩ | ⟨given, m, -, ⟨hanswers, hclosed | rfl⟩ | ⟨-, e, he, hanswers⟩⟩ := h
  · rw [hanswers] at hend
    simp at hend
  · rw [hopen] at hclosed
    cases hclosed
  · exact ⟨m, hanswers⟩
  · refine absurd he (hgranted e ?_)
    simp [hanswers]

end Track

/-! ### Steps of iterators -/

/-- What is handed out of a partition: the batches, and the error of the flaw, which names the
partition. -/
def Block.Reading.itemsIn (p : Partition) (x : Reading) : List (Except Error Batch) :=
  x.items.map (Except.mapError (·.inContext s!"partition {p.index.toNat}"))

namespace BatchIterator

section

variable {σ ω : Type} [Journal ω]

private theorem partition_close (it : BatchIterator σ) (source : BatchSource σ ω) (run : Run ω) :
    (it.close source run).1.partition = it.partition := by
  rw [close]
  split <;> rfl

/-- An iterator stays with its partition. -/
private theorem partition_next (it : BatchIterator σ) (source : BatchSource σ ω) (run : Run ω) :
    (it.next source run).2.1.partition = it.partition := by
  rw [next]
  split
  · rfl
  · dsimp only
    split
    · rfl
    · exact partition_close ..
    · exact partition_close ..

end

variable {c : Codec} {run : Run Host} {it : BatchIterator Reader} {r : Reader}
  {others : Option Pool}

/-- What a step of an iterator comes to that has `x` before it. -/
structure Steps (others : Option Pool) (it : BatchIterator Reader) (x : Reading)
    (out : Item × BatchIterator Reader × Run Host) : Prop where
  /-- It is over the same partition. -/
  partition_eq : out.2.1.partition = it.partition
  /-- The next batch is handed out, or the iterator is closed: it hands out the rest, or is refused
  memory. -/
  item : (∃ b r, out.1 = some (.ok b) ∧ out.2.1.reader = some r ∧ r.Stands others out.2.2.world ∧
      x = r.upcoming.cons b) ∨
    out.2.1.reader = none ∧ Beside others 0 out.2.2.world ∧
      (x.itemsIn it.partition = out.1.toList ∨
        others ≠ none ∧ ∃ e : Error, e.kind = .resourceExhausted ∧ out.1 = some (.error e))

/-- An iterator closes with its reader. -/
private theorem next_of_closed {e : Option Error} (hit : it.reader = some r)
    (hr : (r.next run.world).2.1.Stands others (r.next run.world).2.2)
    (hclosed : (r.next run.world).2.1.position = none)
    (hitem : (r.next run.world).1 = e.map .error) :
    ∃ run', it.next c.source run =
        (e.map fun e => .error (e.inContext s!"partition {it.partition.index.toNat}"),
          { it with reader := none }, run') ∧ Beside others 0 run'.world := by
  have hclose : c.source.close (r.next run.world).2.1 (r.next run.world).2.2 =
      ((r.next run.world).2.1, (r.next run.world).2.2) := by
    show Reader.close _ _ = _
    rw [Reader.close, hclosed]
  have hnext : c.source.next r run.world = (e.map .error, (r.next run.world).2) :=
    Prod.ext hitem rfl
  have hb : Beside others 0 (r.next run.world).2.2 := by
    have hb := hr.beside
    rwa [Reader.reserved, hclosed] at hb
  cases e <;> simp only [next, hit, hnext, Option.map, close, hclose] <;>
    exact ⟨_, rfl, hb.of_pool rfl⟩

/-- **Steps of iterators.** -/
theorem next_steps (hit : it.reader = some r) (hr : r.Stands others run.world) :
    Steps others it r.upcoming (it.next c.source run) := by
  have hsteps := Reader.next_steps hr
  obtain ⟨b, hitem, hx⟩ | ⟨hclosed, ⟨hbatches, hitem⟩ | ⟨hothers, n, pool, hitem⟩⟩ := hsteps.item
  · have hnext : c.source.next r run.world = (some (.ok b), (r.next run.world).2) :=
      Prod.ext hitem rfl
    simp only [next, hit, hnext]
    exact ⟨rfl, .inl ⟨b, _, rfl, rfl, hsteps.stands, hx⟩⟩
  · obtain ⟨run', hnext, hb⟩ := next_of_closed (c := c) (e := r.upcoming.ending.map (·.toError)) hit
      hsteps.stands hclosed (by rw [hitem, Option.map_map]; rfl)
    rw [hnext]
    refine ⟨rfl, .inr ⟨rfl, hb, .inl ?_⟩⟩
    rw [Reading.itemsIn, Reading.items, hbatches]
    cases r.upcoming.ending <;> rfl
  · obtain ⟨run', hnext, hb⟩ := next_of_closed (c := c)
      (e := some (Obstacle.noMemory n pool).toError) hit hsteps.stands hclosed hitem
    rw [hnext]
    exact ⟨rfl, .inr ⟨rfl, hb, .inr ⟨hothers, _, rfl, rfl⟩⟩⟩

/-- An iterator hands out what its reader has before it. -/
theorem drain_eq (it : BatchIterator Reader) (hit : it.reader = some r)
    (hr : r.Stands none run.world) :
    (it.drain c.source run).1 = r.upcoming.itemsIn it.partition := by
  generalize hx : r.upcoming = x
  obtain ⟨batches, ending⟩ := x
  induction batches generalizing it r run with
  | nil =>
    obtain ⟨it', run', hnext, -⟩ := next_of_nil (c := c) hit hr hx
    rw [drain]
    cases ending <;> split <;> simp_all [Reading.itemsIn, Reading.items, Except.mapError_error]
  | cons b batches ih =>
    obtain ⟨r', run', hnext, hr', hx'⟩ := next_of_cons (c := c) (x := ⟨batches, ending⟩) hit hr hx
    have hlater := ih { it with reader := some r' } rfl hr' hx'
    rw [drain]
    split <;> simp_all [Reading.itemsIn, Reading.items, Except.mapError_ok]

end BatchIterator

/-! ### The invariant of a track -/

namespace Track

/-- The bytes that an iterator has reserved. -/
def reserved (t : Track Reader) : Nat :=
  (t.iterator.reader.map Reader.reserved).getD 0

/-- What is known of an iterator that had `x` before it in the beginning, whatever its host. -/
structure IsSound (x : Reading) (pool : Option Pool) (t : Track Reader) : Prop where
  /-- The blocks that its reader has not come to are those after the ones that it has come to. -/
  rest_eq : ∀ r p, t.iterator.reader = some r → r.position = some p →
    p.rest = p.buffer.blocks.drop p.visited
  /-- If memory is limited, its reader has reserved the length of the stream that it reads. -/
  reserved_eq : ∀ r, t.iterator.reader = some r → pool ≠ none → r.reserved = r.openLength
  /-- While it is not closed, it has answered with the first items and has the others before it. -/
  opened : ∀ r, t.iterator.reader = some r → ∃ given, t.answers = given.map some ∧
    x.itemsIn t.iterator.partition = given ++ r.upcoming.itemsIn t.iterator.partition
  /-- When it is closed, it has ended. -/
  closed : t.iterator.reader = none → t.HasEnded (x.itemsIn t.iterator.partition) pool

variable {c : Codec} {x : Reading} {pool : Option Pool} {t : Track Reader} {run : Run Host}
  {rest : Nat}

theorem IsSound.follows (ht : t.IsSound x pool) :
    t.Follows (x.itemsIn t.iterator.partition) pool := by
  cases hr : t.iterator.reader with
  | none => exact .inr (ht.closed hr)
  | some r =>
    obtain ⟨given, hanswers, hitems⟩ := ht.opened r hr
    exact .inl ⟨given, ⟨_, hitems.symm⟩, hanswers⟩

/-- The pool as it is for one iterator: the others have reserved `rest` bytes of it. -/
theorem beside_rest {n : Nat} {h : Host} :
    Beside (pool.map fun p => { p with reserved := p.reserved + rest }) n h ↔
      Beside pool (rest + n) h := by
  simp only [Beside, Option.map_map, Function.comp_def, Nat.add_assoc]

/-- An iterator that is not closed stands in the host. -/
theorem IsSound.stands (ht : t.IsSound x pool) {r : Reader} (hr : t.iterator.reader = some r)
    (hb : Beside pool (rest + t.reserved) run.world) :
    r.Stands (pool.map fun p => { p with reserved := p.reserved + rest }) run.world := by
  refine ⟨fun p hp => ht.rest_eq r p hr hp, fun hpool => ht.reserved_eq r hr ?_, ?_⟩
  · rintro rfl
    exact hpool rfl
  · rw [reserved, hr] at hb
    exact beside_rest.2 hb

private theorem isSound_of_open {r : Reader} {h : Host} (given : List (Except Error Batch))
    (hr : t.iterator.reader = some r)
    (hstands : r.Stands (pool.map fun p => { p with reserved := p.reserved + rest }) h)
    (hanswers : t.answers = given.map some)
    (hitems : x.itemsIn t.iterator.partition = given ++ r.upcoming.itemsIn t.iterator.partition) :
    t.IsSound x pool where
  rest_eq q p hq hp := by
    obtain rfl : r = q := Option.some.inj (hr.symm.trans hq)
    exact hstands.rest_eq p hp
  reserved_eq q hq hpool := by
    obtain rfl : r = q := Option.some.inj (hr.symm.trans hq)
    exact hstands.reserved_eq (by simpa using hpool)
  opened q hq := by
    obtain rfl : r = q := Option.some.inj (hr.symm.trans hq)
    exact ⟨given, hanswers, hitems⟩
  closed hq := by
    rw [hr] at hq
    cases hq

private theorem isSound_of_closed (hr : t.iterator.reader = none)
    (hend : t.HasEnded (x.itemsIn t.iterator.partition) pool) : t.IsSound x pool where
  rest_eq q p hq := by
    rw [hr] at hq
    cases hq
  reserved_eq q hq := by
    rw [hr] at hq
    cases hq
  opened q hq := by
    rw [hr] at hq
    cases hq
  closed _ := hend

section

variable {items given : List (Except Error Batch)}

/-- What has ended has nothing more. -/
private theorem HasEnded.append_none (h : t.HasEnded items pool) :
    HasEnded items pool { t with answers := t.answers ++ [none] } := by
  obtain ⟨given, m, hgiven, ⟨hanswers, hend⟩ | ⟨hpool, e, he, hanswers⟩⟩ := h
  · refine ⟨given, m + 1, hgiven, .inl ⟨?_, hend⟩⟩
    rw [List.replicate_succ', ← List.append_assoc, ← hanswers]
  · refine ⟨given, m + 1, hgiven, .inr ⟨hpool, e, he, ?_⟩⟩
    rw [List.replicate_succ', ← List.cons_append, ← List.append_assoc, ← hanswers]

/-- An iterator ends with the last item, or after it. -/
private theorem hasEnded_of_last {item : Item} (hanswers : t.answers = given.map some ++ [item])
    (hitems : items = given ++ item.toList) : t.HasEnded items pool := by
  cases item with
  | none => exact ⟨given, 1, ⟨_, hitems.symm⟩, .inl ⟨hanswers, .inr (by simp [hitems])⟩⟩
  | some last =>
    refine ⟨items, 0, List.prefix_rfl, .inl ⟨?_, .inr rfl⟩⟩
    rw [hanswers, hitems, List.map_append, List.replicate_zero, List.append_nil]
    rfl

/-- An iterator ends with a refusal. -/
private theorem hasEnded_of_refusal {e : Error} (hpool : pool ≠ none)
    (he : e.kind = .resourceExhausted)
    (hanswers : t.answers = given.map some ++ [some (.error e)]) (hgiven : given <+: items) :
    t.HasEnded items pool :=
  ⟨given, 0, hgiven, .inr ⟨hpool, e, he, hanswers⟩⟩

end

/-- **Step of a track.** A question to an iterator keeps what is known of it, and the memory of the
others. -/
theorem IsSound.next (ht : t.IsSound x pool) (hb : Beside pool (rest + t.reserved) run.world) :
    (t.next c.source run).1.IsSound x pool ∧
      Beside pool (rest + (t.next c.source run).1.reserved) (t.next c.source run).2.world := by
  cases hr : t.iterator.reader with
  | none =>
    rw [next_of_closed hr]
    exact ⟨isSound_of_closed hr (ht.closed hr).append_none, hb⟩
  | some r =>
    obtain ⟨given, hanswers, hitems⟩ := ht.opened r hr
    have hsteps := BatchIterator.next_steps (c := c) hr (ht.stands hr hb)
    rw [Track.next]
    generalize t.iterator.next c.source run = out at hsteps
    obtain ⟨item, it, run'⟩ := out
    obtain ⟨hpartition, ⟨b, r', hitem, hr', hstands, hx⟩ | ⟨hr', hbeside, hlast⟩⟩ := hsteps
    all_goals
      dsimp only at hpartition hr' ⊢
      rw [← hpartition] at hitems
    · -- A batch is handed out, and the iterator stays open.
      obtain rfl : item = some (.ok b) := hitem
      rw [hx] at hitems
      refine ⟨isSound_of_open (given ++ [.ok b]) hr' hstands ?_ ?_, ?_⟩
      · rw [hanswers, List.map_append]
        rfl
      · rw [hitems, List.append_assoc]
        rfl
      · rw [reserved, hr']
        exact beside_rest.1 hstands.beside
    · -- The iterator closes.
      have hend : HasEnded (x.itemsIn it.partition) pool
          { t with iterator := it, answers := t.answers ++ [item] } := by
        obtain hlast | ⟨hothers, e, he, hitem⟩ := hlast
        · rw [← hpartition] at hlast
          exact hasEnded_of_last (by rw [hanswers]) (hlast ▸ hitems)
        · refine hasEnded_of_refusal ?_ he (by rw [hanswers, ← hitem]) ⟨_, hitems.symm⟩
          rintro rfl
          exact hothers rfl
      refine ⟨isSound_of_closed hr' hend, ?_⟩
      rw [reserved, hr']
      exact beside_rest.1 hbeside

/-- An iterator that is closed has given its memory back, and what it has answered stays. -/
theorem IsSound.close (ht : t.IsSound x pool) (hb : Beside pool (rest + t.reserved) run.world) :
    (t.close c.source run).1.IsSound x pool ∧
      Beside pool (rest + (t.close c.source run).1.reserved) (t.close c.source run).2.world := by
  cases hr : t.iterator.reader with
  | none =>
    rw [close_of_closed hr]
    obtain ⟨given, m, hgiven, hend⟩ := ht.closed hr
    refine ⟨isSound_of_closed hr ⟨given, m, hgiven, ?_⟩, hb⟩
    exact hend.imp_left fun h => ⟨h.1, .inl rfl⟩
  | some r =>
    obtain ⟨given, hanswers, hitems⟩ := ht.opened r hr
    obtain ⟨hclosed, hstands⟩ := Reader.close_stands (ht.stands hr hb)
    rw [close_of_open hr]
    constructor
    · refine isSound_of_closed rfl ⟨given, 0, ⟨_, hitems.symm⟩, .inl ⟨?_, .inl rfl⟩⟩
      rw [hanswers, List.replicate_zero, List.append_nil]
    · have hbeside := hstands.beside
      rw [Reader.reserved, hclosed] at hbeside
      exact (beside_rest.1 hbeside).of_pool rfl

end Track

/-! ### The invariant of a session -/

/-- All iterators of a session are sound, and the pool has what they have reserved. -/
structure Session.IsSound (x : Reading) (pool : Option Pool) (s : Session Reader Host) : Prop where
  /-- Every track is sound. -/
  tracks : ∀ t ∈ s.tracks, t.IsSound x pool
  /-- Besides what was reserved in the beginning, it is the sum of what they have reserved. -/
  beside : Beside pool (s.tracks.map Track.reserved).sum s.run.world

namespace Session

variable {x : Reading} {pool : Option Pool} {s : Session Reader Host}

/-- What holds of all iterators is kept if it is kept for the one to which something is done. -/
theorem forall_update {σ ω : Type} {s : Session σ ω} {P : Track σ → Prop}
    (h : ∀ t ∈ s.tracks, P t) {i : Nat} {f : Track σ → Run ω → Track σ × Run ω}
    (hf : ∀ t, s.tracks[i]? = some t → P (f t s.run).1) :
    ∀ t ∈ (s.update i f).tracks, P t := by
  rw [Session.update]
  split
  · next t hi =>
    intro u hu
    obtain hu | rfl := List.mem_or_eq_of_mem_set hu
    · exact h u hu
    · exact hf t hi
  · exact h

/-- What is done to an iterator keeps all sound that leaves the memory of the others as it is. -/
private theorem IsSound.update (hs : s.IsSound x pool) (i : Nat)
    {f : Track Reader → Run Host → Track Reader × Run Host}
    (hf : ∀ t rest, t.IsSound x pool → Beside pool (rest + t.reserved) s.run.world →
      (f t s.run).1.IsSound x pool ∧
        Beside pool (rest + (f t s.run).1.reserved) (f t s.run).2.world) :
    (s.update i f).IsSound x pool := by
  -- Where there is such an iterator, the others have reserved the rest of the sum.
  have hstep (t : Track Reader) (hi : s.tracks[i]? = some t) : (f t s.run).1.IsSound x pool ∧
      Beside pool ((s.tracks.set i (f t s.run).1).map Track.reserved).sum (f t s.run).2.world := by
    obtain ⟨rest, hsum, hset⟩ := Block.sum_map_set Track.reserved hi
    have hb := hs.beside
    rw [hsum] at hb
    rw [hset]
    exact hf t rest (hs.tracks t (List.mem_of_getElem? hi)) hb
  refine ⟨forall_update hs.tracks fun t hi => (hstep t hi).1, ?_⟩
  rw [Session.update]
  split
  · next t hi => exact (hstep t hi).2
  · exact hs.beside

/-- What is done to an iterator does not change what it leaves as it is of each. -/
private theorem map_update {σ ω β : Type} (s : Session σ ω) (i : Nat)
    (f : Track σ → Run ω → Track σ × Run ω) (g : Track σ → β) (hf : ∀ t run, g (f t run).1 = g t) :
    (s.update i f).tracks.map g = s.tracks.map g := by
  rw [Session.update]
  split
  · next t hi =>
    refine List.ext_getElem? fun j => ?_
    rw [List.getElem?_map, List.getElem?_map, List.getElem?_set]
    split
    · next hij =>
      obtain rfl := hij
      rw [if_pos (List.getElem?_eq_some_iff.1 hi).1, hi, Option.map_some, Option.map_some, hf]
    · rfl
  · rfl

end Session

namespace Dataset

variable {n : UInt64} {c : Codec} {fields : List Field} {buffer : Buffer}

/-- What a partition does not have cannot be computed. -/
theorem step_compute_of_le {p : Partition} (hp : n ≤ p.index) (s : Session Reader Host) :
    (ofBuffer n c fields buffer).step s (.compute p) = s := by
  have hrange : (ofBuffer n c fields buffer).numPartitions ≤ p.index := hp
  rw [step, compute, if_pos hrange]

/-- An iterator over a partition comes after the others. -/
theorem step_compute_of_lt {p : Partition} (hp : p.index < n) (s : Session Reader Host) :
    (ofBuffer n c fields buffer).step s (.compute p) =
      ⟨s.tracks ++ [{ iterator := ⟨p, (s.run.metrics.register p.index).1,
          some (Reader.start c fields buffer s.run.world).1⟩ }],
        ⟨(s.run.metrics.register p.index).2,
          Journal.note (.computing p buffer) (Reader.start c fields buffer s.run.world).2⟩⟩ := by
  rw [step, compute_ofBuffer hp]

/-- By itself an iterator hands out what the blocks hold. -/
theorem alone_eq {p : Partition} (hp : p.index < n) :
    (ofBuffer n c fields buffer).alone p =
      (c.reading (fields.map Field.stored) 0 buffer.blocks).itemsIn p := by
  have hb : Beside none 0 ({} : Host) := rfl
  have hr := Reader.start_stands c fields buffer hb
  rw [alone, compute_ofBuffer hp]
  exact BatchIterator.drain_eq ⟨p, _, some _⟩ rfl (hr.of_pool rfl)

variable {s : Session Reader Host} {pool : Option Pool}

/-- **Step of a session.** Every call keeps all iterators sound. -/
theorem isSound_step (hs : s.IsSound (c.reading (fields.map Field.stored) 0 buffer.blocks) pool)
    (call : Call) : ((ofBuffer n c fields buffer).step s call).IsSound
      (c.reading (fields.map Field.stored) 0 buffer.blocks) pool := by
  cases call with
  | compute p =>
    obtain hp | hp := UInt64.lt_or_le p.index n
    · have hb : Beside (pool.map fun p => { p with
          reserved := p.reserved + (s.tracks.map Track.reserved).sum }) 0 s.run.world :=
        Track.beside_rest.2 hs.beside
      have hr := Reader.start_stands c fields buffer hb
      rw [step_compute_of_lt hp]
      refine ⟨fun t ht => ?_, ?_⟩
      · obtain ht | ht := List.mem_append.1 ht
        · exact hs.tracks t ht
        · obtain rfl := List.mem_singleton.1 ht
          exact Track.isSound_of_open [] rfl hr rfl rfl
      · rw [List.map_append, List.sum_append]
        exact (Track.beside_rest.1 hr.beside).of_pool rfl
    · rw [step_compute_of_le hp]
      exact hs
  | next i => exact hs.update i fun t rest ht hb => ht.next (c := c) hb
  | close i => exact hs.update i fun t rest ht hb => ht.close (c := c) hb

/-- **Run of a session.** All iterators are sound after any calls. -/
theorem isSound_foldl (hs : s.IsSound (c.reading (fields.map Field.stored) 0 buffer.blocks) pool)
    (calls : List Call) : (calls.foldl (ofBuffer n c fields buffer).step s).IsSound
      (c.reading (fields.map Field.stored) 0 buffer.blocks) pool := by
  induction calls generalizing s with
  | nil => exact hs
  | cons call calls ih => exact ih (isSound_step hs call)

/-! ### Partitions -/

/-- The partition of which a call makes an iterator. -/
def Call.partition? (n : UInt64) : Call → Option Partition
  | compute p => if p.index < n then some p else none
  | next _ | close _ => none

theorem Call.index_lt_of_partition? {call : Call} {p : Partition} (h : call.partition? n = some p) :
    p.index < n := by
  cases call with
  | compute q =>
    rw [Call.partition?] at h
    split at h
    · next hq => exact Option.some.inj h ▸ hq
    · cases h
  | next | close => cases h

/-- Iterators stay with their partitions. -/
theorem partitions_step (s : Session Reader Host) (call : Call) :
    ((ofBuffer n c fields buffer).step s call).tracks.map (·.iterator.partition) =
      s.tracks.map (·.iterator.partition) ++ (call.partition? n).toList := by
  cases call with
  | compute p =>
    obtain hp | hp := UInt64.lt_or_le p.index n
    · rw [step_compute_of_lt hp, Call.partition?, if_pos hp, List.map_append]
      rfl
    · rw [step_compute_of_le hp, Call.partition?, if_neg (UInt64.not_lt.2 hp)]
      exact (List.append_nil _).symm
  | next i =>
    have hnext := s.map_update i (Track.next c.source) (·.iterator.partition) fun t run =>
      t.iterator.partition_next c.source run
    exact hnext.trans (List.append_nil _).symm
  | close i =>
    have hclose := s.map_update i (Track.close c.source) (·.iterator.partition) fun t run =>
      t.iterator.partition_close c.source run
    exact hclose.trans (List.append_nil _).symm

/-- The iterators are those that were made, in order. -/
theorem partitions_foldl (s : Session Reader Host) (calls : List Call) :
    (calls.foldl (ofBuffer n c fields buffer).step s).tracks.map (·.iterator.partition) =
      s.tracks.map (·.iterator.partition) ++ calls.filterMap (Call.partition? n) := by
  induction calls generalizing s with
  | nil => exact (List.append_nil _).symm
  | cons call calls ih =>
    rw [List.foldl_cons, ih, partitions_step, List.append_assoc]
    refine congrArg (_ ++ ·) ?_
    cases h : call.partition? n <;> simp [h]

end Dataset

end Columnar
