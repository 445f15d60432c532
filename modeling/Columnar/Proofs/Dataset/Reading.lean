import Columnar.Proofs.Block.Calls
import Columnar.Proofs.Dataset.Replay

/-!
# Readers and datasets hand out what blocks hold

Where memory is not limited, what is read of a buffer is what its blocks hold up to the first flaw
(`Codec.reading`), whoever reads it: a reader that is called in any pattern, or a dataset that
collects its partitions. All of it is one statement, `Dataset.reading_law`.
-/

namespace Columnar

open Block (Beside Codec Flaw Reader ReaderCall Reading answersOf)

/-- What comes of collecting the batches of a partition: all of them, or the error of the flaw,
which names the partition. -/
def Block.Reading.outcome (x : Reading) (p : Partition) : Except Error (List Batch) :=
  match x.ending with
  | none => .ok x.batches
  | some f => .error (f.toError.inContext s!"partition {p.index.toNat}")

/-- Partitions that are collected in order either have the same batches, or the first of them
fails. -/
private theorem Block.Reading.mapM_outcome (x : Reading) (ps : List Partition) :
    match ps.mapM x.outcome with
    | .ok all => (x.ending = none ∨ ps = []) ∧ all = List.replicate ps.length x.batches
    | .error e => ∃ f p, x.ending = some f ∧ p ∈ ps ∧
      e = f.toError.inContext s!"partition {p.index.toNat}" := by
  cases hx : x.ending with
  | none =>
    have houtcome : x.outcome = fun _ => pure x.batches := funext fun p => by rw [outcome, hx]; rfl
    rw [houtcome, List.mapM_pure, List.map_const']
    exact ⟨.inl rfl, rfl⟩
  | some f =>
    cases ps with
    | nil => exact ⟨.inr rfl, rfl⟩
    | cons p ps =>
      have houtcome : x.outcome p = .error (f.toError.inContext s!"partition {p.index.toNat}") := by
        rw [outcome, hx]
      rw [List.mapM_cons, houtcome]
      exact ⟨f, p, rfl, List.mem_cons_self, rfl⟩

variable {c : Codec} {run : Run Host}

/-! ### Partitions -/

namespace BatchIterator

variable {it : BatchIterator Reader} {r : Reader} {x : Reading}

theorem next_of_cons {b : Batch} (hit : it.reader = some r) (hr : r.Stands none run.world)
    (hx : r.upcoming = x.cons b) :
    ∃ r' run', it.next c.source run = (some (.ok b), { it with reader := some r' }, run') ∧
      r'.Stands none run'.world ∧ r'.upcoming = x := by
  have hsteps := Reader.next_steps hr
  rw [hx] at hsteps
  obtain ⟨b', hitem, hcons⟩ | ⟨-, ⟨hbatches, -⟩ | ⟨hothers, -⟩⟩ := hsteps.item
  · obtain ⟨rfl, rfl⟩ := Reading.cons_inj hcons
    have hnext : c.source.next r run.world = (some (.ok b), (r.next run.world).2) :=
      Prod.ext hitem rfl
    refine ⟨_, ⟨run.metrics.record it.meter b.rows, _⟩, ?_, hsteps.stands, rfl⟩
    simp only [next, hit, hnext]
  · cases hbatches
  · exact absurd rfl hothers

theorem next_of_nil {ending : Option Flaw} (hit : it.reader = some r) (hr : r.Stands none run.world)
    (hx : r.upcoming = ⟨[], ending⟩) :
    ∃ it' run', it.next c.source run =
        (ending.map fun f => .error (f.toError.inContext s!"partition {it.partition.index.toNat}"),
          it', run') ∧ run'.world.pool = none := by
  have hsteps := Reader.next_steps hr
  rw [hx] at hsteps
  obtain ⟨b', -, hcons⟩ | ⟨hclosed, ⟨-, hitem⟩ | ⟨hothers, -⟩⟩ := hsteps.item
  · cases hcons
  · have hclose : c.source.close (r.next run.world).2.1 (r.next run.world).2.2 =
        ((r.next run.world).2.1, (r.next run.world).2.2) := by
      show Reader.close _ _ = _
      rw [Reader.close, hclosed]
    have hnext : c.source.next r run.world =
        (ending.map fun f => .error f.toError, (r.next run.world).2) := Prod.ext hitem rfl
    cases ending <;> simp only [next, hit, hnext, Option.map, close, hclose] <;>
      exact ⟨_, _, rfl, hsteps.stands.beside⟩
  · exact absurd rfl hothers

/-- An iterator collects what its reader has before it. -/
theorem collect_eq (c : Codec) (it : BatchIterator Reader) (hit : it.reader = some r)
    (hr : r.Stands none run.world) :
    ∃ run', it.collect .ok c.source run = (r.upcoming.outcome it.partition, run') ∧
      run'.world.pool = none := by
  generalize hx : r.upcoming = x
  obtain ⟨batches, ending⟩ := x
  induction batches generalizing it r run with
  | nil =>
    obtain ⟨it', run', hnext, hpool⟩ := next_of_nil (c := c) hit hr hx
    refine ⟨run', ?_, hpool⟩
    rw [collect]
    cases ending <;> split <;> simp_all [Reading.outcome]
  | cons b batches ih =>
    obtain ⟨r', run', hnext, hr', hx'⟩ := next_of_cons (c := c) (x := ⟨batches, ending⟩) hit hr hx
    obtain ⟨run'', hcollect, hpool⟩ :=
      ih { it with reader := some r' } rfl hr' hx'
    refine ⟨run'', ?_, hpool⟩
    rw [collect]
    cases ending <;> split <;> simp_all [Reading.outcome, Except.map]

end BatchIterator

namespace Dataset

/-- The dataset that reads a buffer with a codec, where batches of the given fields are expected. -/
def ofBuffer (n : UInt64) (c : Codec) (fields : List Field) (buffer : Buffer) :
    Dataset Reader Host :=
  ⟨n, buffer, c.source, fields⟩

variable {fields : List Field} {buffer : Buffer} {n : UInt64}

/-- An iterator over a partition has a reader of the buffer. -/
theorem compute_ofBuffer {p : Partition} (hp : p.index < n) (run : Run Host) :
    (ofBuffer n c fields buffer).compute p run =
      (.ok ⟨p, (run.metrics.register p.index).1, some (Reader.start c fields buffer run.world).1⟩,
        ⟨(run.metrics.register p.index).2,
          Journal.note (.computing p buffer) (Reader.start c fields buffer run.world).2⟩) := by
  have hrange : ¬(ofBuffer n c fields buffer).numPartitions ≤ p.index := UInt64.not_le.2 hp
  rw [compute, if_neg hrange]
  rfl

/-- A partition has what the blocks hold. -/
theorem collectPartition_eq {p : Partition} (hp : p.index < n) (run : Run Host)
    (hpool : run.world.pool = none) :
    ∃ run', (ofBuffer n c fields buffer).collectPartition .ok p run =
      ((c.reading (fields.map Field.stored) 0 buffer.blocks).outcome p, run') ∧
      run'.world.pool = none := by
  have hr : (Reader.start c fields buffer run.world).1.Stands none _ :=
    Reader.start_stands c fields buffer hpool
  rw [collectPartition, compute_ofBuffer hp]
  exact BatchIterator.collect_eq c ⟨p, _, some _⟩ rfl (hr.of_pool rfl)

/-- Partitions are collected one after the other. -/
theorem collectAll_eq {ps : List Partition} (hps : ∀ p ∈ ps, p.index < n) (run : Run Host)
    (hpool : run.world.pool = none) :
    ((ofBuffer n c fields buffer).collectAll ps run).1 =
      ps.mapM (c.reading (fields.map Field.stored) 0 buffer.blocks).outcome := by
  induction ps generalizing run with
  | nil => rfl
  | cons p ps ih =>
    obtain ⟨run', hcollect, hpool⟩ :=
      collectPartition_eq (c := c) (hps p List.mem_cons_self) run hpool
    have hlater := ih (fun q hq => hps q (List.mem_cons_of_mem _ hq)) run' hpool
    rw [collectAll, hcollect, List.mapM_cons, ← hlater]
    cases Reading.outcome _ p with
    | error e => rfl
    | ok batches => dsimp only; cases ((ofBuffer n c fields buffer).collectAll ps run').1 <;> rfl

/-- **Readings.** What is read of a buffer where memory is not limited: the batches of its blocks in
order, up to the first flaw, and the error of that, whatever calls are made. -/
theorem reading_law (c : Codec) (fields : List Field) (id : BroadcastId) (blocks : List Bytes)
    (h : Host) (hpool : h.pool = none) :
    let x := c.reading (fields.map Field.stored) 0 blocks
    let reader := Reader.start c fields ⟨id, blocks⟩ h
    (∀ calls, (reader.1.answer calls reader.2).1 = answersOf x.items calls) ∧
    (∀ f, x.ending = some f → f.toError.kind = .corruptData) ∧
    (∀ later, c.reading (fields.map Field.stored) 0 (blocks ++ later) =
      x.append ((c.reading (fields.map Field.stored) 0 later).shift blocks.length)) ∧
    (x.ending ≠ none → ∀ later calls,
      let longer := Reader.start c fields ⟨id, blocks ++ later⟩ h
      longer.1.answer calls longer.2 = reader.1.answer calls reader.2) ∧
    ∀ (n : UInt64) (metrics : Metrics),
      let d := ofBuffer n c fields ⟨id, blocks⟩
      (∀ p : Partition, p.index < n → (d.collectPartition .ok p ⟨metrics, h⟩).1 = x.outcome p) ∧
      match (d.collect ⟨metrics, h⟩).1 with
      | .ok all => (x.ending = none ∨ n = 0) ∧ all = List.replicate n.toNat x.batches
      | .error e => ∃ f i, x.ending = some f ∧ i < n.toNat ∧
        e = f.toError.inContext s!"partition {i}" := by
  intro x reader
  have hr : reader.1.Stands none reader.2 := Reader.start_stands c fields ⟨id, blocks⟩ hpool
  refine ⟨Reader.answer_eq hr, fun f hf => Codec.kind_of_reading hf, Codec.reading_append 0 blocks,
    fun hending later calls => ?_, fun n metrics => ⟨fun p hp => ?_, ?_⟩⟩
  · exact Reader.answer_extend hr (.inr hending) calls
  · obtain ⟨run', hcollect, -⟩ := collectPartition_eq hp ⟨metrics, h⟩ hpool
    rw [hcollect]
  · have hps : ∀ p ∈ (ofBuffer n c fields ⟨id, blocks⟩).partitions, p.index < n :=
      fun p hp => index_lt_of_mem_partitions hp
    have hlength : (ofBuffer n c fields ⟨id, blocks⟩).partitions.length = n.toNat := by
      rw [partitions, List.length_map, List.length_range]
      rfl
    have hcollect : ((ofBuffer n c fields ⟨id, blocks⟩).collect ⟨metrics, h⟩).1 =
        (ofBuffer n c fields ⟨id, blocks⟩).partitions.mapM x.outcome :=
      collectAll_eq hps ⟨metrics, h⟩ hpool
    have houtcome := x.mapM_outcome (ofBuffer n c fields ⟨id, blocks⟩).partitions
    rw [hlength] at houtcome
    rw [hcollect]
    cases hall : (ofBuffer n c fields ⟨id, blocks⟩).partitions.mapM x.outcome with
    | ok all =>
      rw [hall] at houtcome
      refine ⟨houtcome.1.imp_right fun hnil => ?_, houtcome.2⟩
      rw [hnil] at hlength
      exact UInt64.toNat_inj.1 hlength.symm
    | error e =>
      rw [hall] at houtcome
      obtain ⟨f, p, hf, hp, rfl⟩ := houtcome
      exact ⟨f, p.index.toNat, hf, UInt64.lt_iff_toNat_lt.1 (hps p hp), rfl⟩

/-- A buffer whose first block has no end: the reader hands out that, and then nothing. -/
theorem reading_law_cut :
    let reader := Reader.start {} [] ⟨⟨0⟩, [[0], []]⟩ {}
    (reader.1.answer [.next, .next, .close, .next] reader.2).1 =
      [some (.error ⟨.corruptData, "block 0 is truncated: no IPC end-of-stream marker", none⟩),
        none, none] :=
  ((reading_law {} [] ⟨0⟩ [[0], []] {} rfl).1 [.next, .next, .close, .next]).trans rfl

end Dataset

end Columnar
