import Columnar.Proofs.Block.Room
import Columnar.Proofs.Dataset.Session

/-!
# Iterators that share memory

However the calls of iterators over the partitions of a dataset are interleaved, and whatever memory
these share, each of them hands out what it hands out by itself up to some point
(`Dataset.follows_session`). All that can happen to it is that it is refused memory; then it says
so, once, and has nothing more. That does not happen where the pool has room for a block for each of
the iterators, which is the invariant `Track.IsServed`.
-/

namespace Columnar

open Block (Beside Codec Reader Reading)

/-! ### Room for all -/

/-- An iterator that was never refused memory: it reads the buffer, and has had no errors but those
of corrupt data. -/
structure Track.IsServed (c : Codec) (buffer : Buffer) (t : Track Reader) : Prop where
  /-- Its reader has the codec. -/
  codec_eq : ∀ r, t.iterator.reader = some r → r.codec = c
  /-- Its reader is at the buffer. -/
  buffer_eq : ∀ r p, t.iterator.reader = some r → r.position = some p → p.buffer = buffer
  /-- Its errors are those of corrupt data. -/
  kind_eq : ∀ e, some (.error e) ∈ t.answers → e.kind = .corruptData

namespace Track

variable {c : Codec} {buffer : Buffer} {x : Reading} {p : Pool} {t : Track Reader} {run : Run Host}
  {rest n : Nat}

/-- An iterator has reserved no more than what a block asks for. -/
private theorem IsServed.reserved_le (ht : t.IsServed c buffer) (hs : t.IsSound x (some p))
    (hasks : ∀ block ∈ buffer.blocks, c.Asks (· ≤ n) block) : t.reserved ≤ n := by
  rw [reserved]
  cases hr : t.iterator.reader with
  | none => exact Nat.zero_le n
  | some r =>
    rw [Option.map_some, Option.getD_some, hs.reserved_eq r hr (Option.some_ne_none p),
      Reader.openLength]
    cases hp : r.position with
    | none => exact Nat.zero_le n
    | some q =>
      rw [Option.map_some, Option.getD_some, Block.Position.openLength, ht.buffer_eq r q hr hp,
        ht.codec_eq r hr]
      split
      · cases hblock : buffer.blocks[q.visited - 1]? with
        | none => exact Nat.zero_le n
        | some block => exact (hasks block (List.mem_of_getElem? hblock)).streamLength_le
      · exact Nat.zero_le n

/-- Where there is room, an iterator is not refused memory. -/
private theorem IsServed.next (ht : t.IsServed c buffer) (hs : t.IsSound x (some p))
    (hb : Beside (some p) (rest + t.reserved) run.world)
    (hroom : p.reserved + rest + n ≤ p.limit)
    (hasks : ∀ block ∈ buffer.blocks, c.Asks (· ≤ n) block) :
    (t.next c.source run).1.IsServed c buffer := by
  cases hr : t.iterator.reader with
  | none =>
    rw [next_of_closed hr]
    exact ⟨ht.codec_eq, ht.buffer_eq, fun e he => ht.kind_eq e (by simpa using he)⟩
  | some r =>
    rw [reserved, hr] at hb
    have hlease : Block.Lease.HasRoom (· ≤ n) ⟨r.reserved, run.world⟩ :=
      (beside_rest.2 hb).hasRoom fun m hm => Nat.le_trans (Nat.add_le_add_left hm _) hroom
    have hserves := Reader.next_serves hlease (fun p hp => hs.rest_eq r p hr hp) (ht.codec_eq r hr)
      (fun p hp => ht.buffer_eq r p hr hp) hasks
    rcases hnext : c.source.next r run.world with ⟨item, r', world⟩
    obtain ⟨hcodec, hbuffer, hkind⟩ : Reader.Serves c buffer (item, r', world) := hnext ▸ hserves
    simp only [Track.next, BatchIterator.next, hr, hnext]
    rcases item with _ | e | b
    · refine ⟨?_, ?_, fun e he => ht.kind_eq e (by simpa using he)⟩
      · rintro _ ⟨⟩
      · rintro _ _ ⟨⟩
    · refine ⟨?_, ?_, fun e' he' => ?_⟩
      · rintro _ ⟨⟩
      · rintro _ _ ⟨⟩
      obtain he' | he' := List.mem_append.1 he'
      · exact ht.kind_eq e' he'
      · obtain rfl : e' = e.inContext _ := by simpa using he'
        exact hkind e rfl
    · refine ⟨?_, ?_, fun e he => ht.kind_eq e (by simpa using he)⟩
      · rintro _ ⟨⟩
        exact hcodec
      · rintro _ p ⟨⟩ hp
        exact hbuffer p hp

private theorem IsServed.close (ht : t.IsServed c buffer) :
    (t.close c.source run).1.IsServed c buffer := by
  cases hr : t.iterator.reader with
  | none =>
    rw [close_of_closed hr]
    exact ⟨ht.codec_eq, ht.buffer_eq, ht.kind_eq⟩
  | some r =>
    rw [close_of_open hr]
    exact ⟨nofun, nofun, ht.kind_eq⟩

end Track

namespace Dataset

variable {n : UInt64} {c : Codec} {fields : List Field} {buffer : Buffer} {s : Session Reader Host}
  {pool : Option Pool} {p : Pool} {size : Nat}

/-- Where there is room for all, a call is not refused memory. -/
theorem isServed_step
    (hs : s.IsSound (c.reading (fields.map Field.stored) 0 buffer.blocks) (some p))
    (hserved : ∀ t ∈ s.tracks, t.IsServed c buffer)
    (hasks : ∀ block ∈ buffer.blocks, c.Asks (· ≤ size) block)
    (hroom : p.reserved + s.tracks.length * size ≤ p.limit) (call : Call) :
    ∀ t ∈ ((ofBuffer n c fields buffer).step s call).tracks, t.IsServed c buffer := by
  cases call with
  | compute p =>
    obtain hp | hp := UInt64.lt_or_le p.index n
    · rw [step_compute_of_lt hp]
      intro t ht
      obtain ht | ht := List.mem_append.1 ht
      · exact hserved t ht
      · obtain rfl := List.mem_singleton.1 ht
        refine ⟨?_, ?_, nofun⟩
        · rintro _ ⟨⟩
          rfl
        · rintro _ _ ⟨⟩ ⟨⟩
          rfl
    · rw [step_compute_of_le hp]
      exact hserved
  | next i =>
    refine Session.forall_update hserved fun t hi => ?_
    have ht := List.mem_of_getElem? hi
    obtain ⟨rest, hsum, -⟩ := Block.sum_map_set Track.reserved hi
    have hrest := Block.sum_map_add_le Track.reserved hi fun t ht =>
      (hserved t ht).reserved_le (hs.tracks t ht) hasks
    have hb := hs.beside
    rw [hsum] at hb
    exact (hserved t ht).next (hs.tracks t ht) hb (by omega) hasks
  | close i =>
    exact Session.forall_update hserved fun t hi => (hserved t (List.mem_of_getElem? hi)).close

/-- Where there is room for all iterators, none is refused memory after any calls. -/
theorem isServed_foldl
    (hs : s.IsSound (c.reading (fields.map Field.stored) 0 buffer.blocks) (some p))
    (hserved : ∀ t ∈ s.tracks, t.IsServed c buffer)
    (hasks : ∀ block ∈ buffer.blocks, c.Asks (· ≤ size) block) (calls : List Call)
    (hroom : p.reserved +
      (calls.foldl (ofBuffer n c fields buffer).step s).tracks.length * size ≤ p.limit) :
    ∀ t ∈ (calls.foldl (ofBuffer n c fields buffer).step s).tracks, t.IsServed c buffer := by
  induction calls generalizing s with
  | nil => exact hserved
  | cons call calls ih =>
    refine ih (isSound_step hs call) (isServed_step hs hserved hasks ?_ call) hroom
    -- There are never fewer iterators than before.
    have hpartitions : ((call :: calls).foldl (ofBuffer n c fields buffer).step s).tracks.map
        (·.iterator.partition) = _ := partitions_foldl s (call :: calls)
    have hlength := congrArg List.length hpartitions
    rw [List.length_append, List.length_map, List.length_map] at hlength
    have hle : s.tracks.length * size ≤
        ((call :: calls).foldl (ofBuffer n c fields buffer).step s).tracks.length * size :=
      Nat.mul_le_mul_right size (by omega)
    omega

/-- **Memory does not matter to what is read.** Whatever calls are made of the iterators over the
partitions of a dataset, and whatever memory they share, each of them answers with the first items
of what it hands out by itself and without a limit. It has no more than these only if it was closed
or is at the end, or if it was refused memory; and then this is the one error that it answers with.
No iterator is refused if there is room for a block for each of them besides what was reserved
before. -/
theorem follows_session (n : UInt64) (c : Codec) (fields : List Field) (buffer : Buffer)
    (run : Run Host) (calls : List Call) :
    let d := ofBuffer n c fields buffer
    let tracks := (d.session calls run).tracks
    tracks.map (·.iterator.partition) = calls.filterMap (Call.partition? n) ∧
    (∀ t ∈ tracks, t.Follows (d.alone t.iterator.partition) run.world.pool) ∧
    (∀ t ∈ tracks, (∀ e, some (.error e) ∈ t.answers → e.kind ≠ .resourceExhausted) →
      t.wasClosed = false → none ∈ t.answers →
        ∃ m, t.answers = (d.alone t.iterator.partition).map some ++ List.replicate m none) ∧
    ∀ p size, run.world.pool = some p → (∀ block ∈ buffer.blocks, c.Asks (· ≤ size) block) →
      p.reserved + tracks.length * size ≤ p.limit →
        ∀ t ∈ tracks, ∀ e, some (.error e) ∈ t.answers → e.kind ≠ .resourceExhausted := by
  intro d tracks
  have hstart : Session.IsSound (c.reading (fields.map Field.stored) 0 buffer.blocks) run.world.pool
      ⟨[], run⟩ := by
    refine ⟨List.forall_mem_nil _, ?_⟩
    exact (Option.map_id' ..).symm
  have hpartitions : tracks.map (·.iterator.partition) = calls.filterMap (Call.partition? n) :=
    partitions_foldl ⟨[], run⟩ calls
  have hfollows (t : Track Reader) (ht : t ∈ tracks) :
      t.Follows (d.alone t.iterator.partition) run.world.pool := by
    have hmem : t.iterator.partition ∈ calls.filterMap (Call.partition? n) :=
      hpartitions ▸ List.mem_map.2 ⟨t, ht, rfl⟩
    obtain ⟨call, -, hcall⟩ := List.mem_filterMap.1 hmem
    have hp := Call.index_lt_of_partition? hcall
    rw [alone_eq hp]
    exact ((isSound_foldl hstart calls).tracks t ht).follows
  refine ⟨hpartitions, hfollows, fun t ht hgranted hopen hend => ?_,
    fun p size hpool hasks hroom t ht e he => ?_⟩
  · exact (hfollows t ht).eq_of_none hgranted hopen hend
  · rw [hpool] at hstart
    have hserved := isServed_foldl hstart (List.forall_mem_nil _) hasks calls hroom t ht
    rw [hserved.kind_eq e he]
    nofun

/-- Two iterators over a block of 520 bytes that take turns, where there is room for both: each of
them hands out all that it hands out by itself. -/
theorem follows_session_two :
    let b : Batch := ⟨1, [⟨"a", false, ⟨.int64, [some 7]⟩⟩], by decide⟩
    let d := ofBuffer 2 {} [] ⟨⟨0⟩, [Stream.ofBatches [b]]⟩
    let s := d.session [.compute ⟨0⟩, .compute ⟨1⟩, .next 0, .next 1, .next 1, .next 0]
      ⟨{}, { pool := some ⟨1040, 0⟩ }⟩
    s.tracks.length = 2 ∧ ∀ t ∈ s.tracks,
      ∃ m, t.answers = (d.alone t.iterator.partition).map some ++ List.replicate m none := by
  intro b d s
  have hblocks : ∀ block ∈ [Stream.ofBatches [b]], block.length ≤ 520 := by decide +kernel
  have hends : (s.tracks.all fun t => !t.wasClosed && t.answers.any Option.isNone) = true := by
    decide +kernel
  obtain ⟨hpartitions, -, hall, hroom⟩ := follows_session 2 {} [] ⟨⟨0⟩, [Stream.ofBatches [b]]⟩
    ⟨{}, { pool := some ⟨1040, 0⟩ }⟩
    [.compute ⟨0⟩, .compute ⟨1⟩, .next 0, .next 1, .next 1, .next 0]
  have hlength : s.tracks.length = 2 :=
    (List.length_map _).symm.trans (congrArg List.length hpartitions)
  have hfit : 0 + s.tracks.length * 520 ≤ 1040 := by omega
  refine ⟨hlength, fun t ht => ?_⟩
  have hend := List.all_eq_true.1 hends t ht
  rw [Bool.and_eq_true, Bool.not_eq_true', List.any_eq_true] at hend
  obtain ⟨hopen, item, hitem, hnone⟩ := hend
  rw [Option.isNone_iff_eq_none] at hnone
  have hgranted := hroom ⟨1040, 0⟩ 520 rfl hblocks hfit t ht
  exact hall t ht hgranted hopen (hnone ▸ hitem)

/-- Two iterators over a block of 520 bytes, where there is no room for both: the second one is
refused, and stays closed when the first one has given back its memory. -/
example :
    let b : Batch := ⟨1, [⟨"a", false, ⟨.int64, [some 7]⟩⟩], by decide⟩
    let d := ofBuffer 2 {} [] ⟨⟨0⟩, [Stream.ofBatches [b]]⟩
    let s := d.session [.compute ⟨0⟩, .compute ⟨1⟩, .next 0, .next 1, .close 0, .next 0, .next 1]
      ⟨{}, { pool := some ⟨1000, 0⟩ }⟩
    s.tracks.map (fun t => t.answers.map fun item => item.map (·.toOption == some b)) =
      [[some true, none], [some false, none]] := by
  decide +kernel

end Dataset

end Columnar
