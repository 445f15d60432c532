import Columnar.Dataset
import Columnar.Proofs.Block.Codec

/-!
# Datasets replay their buffers

Every partition of a dataset has the batches of all groups that its buffer was built from, one group
after the other, whatever the settings say about compression (`collect_ofGroups`). The partitions
are read one after the other in one world, where each leaves as much memory as it has found.
-/

namespace Columnar

open Block (Codec Lease Reader)

variable {sizes : Nat → Prop} {batches : List Batch} {run : Run Host}

namespace BatchIterator

variable (c : Codec) {it : BatchIterator Reader} {r : Reader}

private theorem next_of_batch {b : Batch} (hit : it.reader = some r)
    (hr : r.Has sizes run.world (b :: batches) none) :
    ∃ r' run', it.next c.source run = (some (.ok b), { it with reader := some r' }, run') ∧
      r'.Has sizes run'.world batches none := by
  obtain ⟨hbatch, hlater⟩ := Reader.next_delivers hr
  refine ⟨_, ⟨run.metrics.record it.meter b.rows, _⟩, ?_, hlater⟩
  have hnext : c.source.next r run.world = (some (.ok b), (r.next run.world).2) :=
    Prod.ext hbatch rfl
  simp only [next, hit, hnext]

private theorem next_of_end (hit : it.reader = some r) (hr : r.Has sizes run.world [] none) :
    ∃ it' run', it.next c.source run = (none, it', run') ∧ Lease.HasRoom sizes ⟨0, run'.world⟩ := by
  obtain ⟨hend, hclosed, hroom⟩ := Reader.next_delivers hr
  have hnext : c.source.next r run.world = (none, (r.next run.world).2) := Prod.ext hend rfl
  have hclose : c.source.close (r.next run.world).2.1 (r.next run.world).2.2 =
      ((r.next run.world).2.1, (r.next run.world).2.2) := by
    show Reader.close _ _ = _
    rw [Reader.close, hclosed]
  simp only [next, hit, hnext, close, hclose]
  exact ⟨_, _, rfl, hroom.of_pool rfl⟩

/-- An iterator collects what its reader has before it. -/
private theorem collect_of_has (hit : it.reader = some r)
    (hr : r.Has sizes run.world batches none) :
    ∃ run', it.collect .ok c.source run = (.ok batches, run') ∧
      Lease.HasRoom sizes ⟨0, run'.world⟩ := by
  induction batches generalizing it r run with
  | nil =>
    obtain ⟨it', run', hnext, hroom⟩ := next_of_end c hit hr
    refine ⟨run', ?_, hroom⟩
    rw [collect]
    split <;> simp_all
  | cons b batches ih =>
    obtain ⟨r', run', hnext, hlater⟩ := next_of_batch c hit hr
    obtain ⟨run'', hcollect, hroom⟩ :=
      ih (rfl : ({ it with reader := some r' } : BatchIterator Reader).reader = some r') hlater
    refine ⟨run'', ?_, hroom⟩
    rw [collect]
    split <;> simp_all [Except.map]

end BatchIterator

namespace Dataset

variable {c : Codec} {groups : List (List Batch)} {buffer : Buffer} {n : UInt64}

/-- The dataset that replays a buffer, whatever the schemas of its batches. -/
def replaying (n : UInt64) (c : Codec) (buffer : Buffer) : Dataset Reader Host :=
  ⟨n, buffer, c.source, []⟩

/-- A partition has all batches that the blocks give. -/
private theorem collectPartition_of_gives (hgives : c.Gives sizes 0 buffer.blocks batches none)
    {p : Partition} (hp : p.index < n) (hroom : Lease.HasRoom sizes ⟨0, run.world⟩) :
    ∃ run', (replaying n c buffer).collectPartition .ok p run = (.ok batches, run') ∧
      Lease.HasRoom sizes ⟨0, run'.world⟩ := by
  have hstart := Reader.start_has hroom hgives
  generalize hout : Reader.start c [] buffer run.world = out at hstart
  obtain ⟨r, world⟩ := out
  have hsource : c.source.start [] buffer run.world = (.ok r, world) := by
    show (Except.ok (Reader.start c [] buffer run.world).1,
      (Reader.start c [] buffer run.world).2) = _
    rw [hout]
  have hcompute : (replaying n c buffer).compute p run =
      (.ok ⟨p, (run.metrics.register p.index).1, some r⟩,
        ⟨(run.metrics.register p.index).2, Journal.note (.computing p buffer) world⟩) := by
    simp only [compute, replaying, if_neg (UInt64.not_le.2 hp), hsource]
  rw [collectPartition, hcompute]
  exact BatchIterator.collect_of_has c rfl (hstart.of_pool rfl)

/-- Partitions are read one after the other. -/
private theorem collectAll_of_gives (hgives : c.Gives sizes 0 buffer.blocks batches none)
    {ps : List Partition}
    (hps : ∀ p ∈ ps, p.index < n) (hroom : Lease.HasRoom sizes ⟨0, run.world⟩) :
    ((replaying n c buffer).collectAll ps run).1 = .ok (List.replicate ps.length batches) := by
  induction ps generalizing run with
  | nil => rfl
  | cons p ps ih =>
    obtain ⟨run', hcollect, hroom⟩ :=
      collectPartition_of_gives hgives (hps p List.mem_cons_self) hroom
    have hlater := ih (fun q hq => hps q (List.mem_cons_of_mem _ hq)) hroom
    simp only [collectAll, hcollect, hlater, Except.map]
    rfl

theorem index_lt_of_mem_partitions {d : Dataset Reader Host} {p : Partition}
    (hp : p ∈ d.partitions) :
    p.index < d.numPartitions := by
  obtain ⟨i, hi, rfl⟩ := List.mem_map.1 hp
  have hlt := List.mem_range.1 hi
  rw [UInt64.lt_iff_toNat_lt, UInt64.toNat_ofNat_of_lt' (Nat.lt_trans hlt d.numPartitions.toNat_lt)]
  exact hlt

/-- What the blocks of a buffer give is collected once for each partition. -/
theorem collect_of_gives (hgives : c.Gives sizes 0 buffer.blocks batches none)
    (hroom : Lease.HasRoom sizes ⟨0, run.world⟩) :
    ((replaying n c buffer).collect run).1 = .ok (List.replicate n.toNat batches) := by
  have hps : ∀ p ∈ (replaying n c buffer).partitions, p.index < n :=
    fun p hp => index_lt_of_mem_partitions hp
  rw [collect, collectAll_of_gives hgives hps hroom, partitions, List.length_map, List.length_range]
  rfl

/-- **Datasets replay their buffers.** A buffer has one block for each group that it was built from.
Every partition of a dataset has the batches of all groups in order, whatever the settings say about
compression: the codec that they ask for does not occur in what is collected. The memory of the host
has no limit, and a stream has to be shorter than the four bytes can say that an LZ4 block has for
its length. -/
theorem collect_ofGroups {s : Settings} (hc : Codec.ofSettings s = .ok c)
    (hgroups : ∀ g ∈ groups, Stream.IsStorableGroup g)
    (hlz4 : s.compress = true → s.codec = .lz4 → ∀ g ∈ groups, (Stream.ofBatches g).length < 2 ^ 32)
    (id : BroadcastId) (h : Host) (n : UInt64) (run : Run Host) (hpool : run.world.pool = none) :
    (Buffer.ofGroups c id groups h).1.numBlocks = groups.length ∧
    ((replaying n c (Buffer.ofGroups c id groups h).1).collect run).1 =
      .ok (List.replicate n.toNat groups.flatten) := by
  have hfits : ∀ g ∈ groups, Stream.IsStorableGroup g ∧ c.Fits g := by
    refine fun g hg => ⟨hgroups g hg, fun ha => ?_⟩
    rw [Codec.algorithm?_ofSettings hc] at ha
    by_cases hs : s.compress = true
    · rw [if_pos hs] at ha
      exact hlz4 hs (Option.some.inj ha) g hg
    · rw [if_neg hs] at ha
      cases ha
  have hroom : Lease.HasRoom (fun _ => True) ⟨0, run.world⟩ := Lease.hasRoom_of_pool hpool
  have hgives := Codec.gives_writeAll hfits h.stats 0
  exact ⟨Codec.length_writeAll groups h.stats, collect_of_gives hgives hroom⟩

/-- Two partitions that replay two groups: the batches of the one have two rows and none, and the
other is empty. -/
theorem collect_ofGroups_two :
    let b : Batch := ⟨2, [⟨"a", true, ⟨.int64, [some 1, none]⟩⟩], by decide⟩
    let e : Batch := ⟨0, [⟨"a", true, ⟨.int64, []⟩⟩], by decide⟩
    let c : Codec := ⟨some ⟨.lz4, 0, true⟩⟩
    ((replaying 2 c (Buffer.ofGroups c ⟨0⟩ [[b, e], []] {}).1).collect ⟨{}, {}⟩).1 =
      .ok [[b, e], [b, e]] := by
  intro b e c
  have hc : Codec.ofSettings {} = .ok c := rfl
  have hb : Stream.IsStorableBatch b := by
    refine ⟨by decide, by decide, by decide +kernel, fun d hd => ?_⟩
    obtain rfl := List.mem_singleton.1 hd
    exact ⟨nofun, by decide +kernel, nofun⟩
  have he : Stream.IsStorableBatch e := by
    refine ⟨by decide, by decide, by decide +kernel, fun d hd => ?_⟩
    obtain rfl := List.mem_singleton.1 hd
    exact ⟨nofun, by decide +kernel, nofun⟩
  have hstorable : ∀ g ∈ [[b, e], []], Stream.IsStorableGroup g := by
    have hfirst : Stream.IsStorableGroup [b, e] :=
      ⟨by decide, by simpa using ⟨hb, he⟩, by decide +kernel⟩
    have hlast : Stream.IsStorableGroup [] := ⟨nofun, nofun, by decide +kernel⟩
    simpa using ⟨hfirst, hlast⟩
  have hlz4 : ∀ g ∈ [[b, e], []], (Stream.ofBatches g).length < 2 ^ 32 := by
    decide +kernel
  exact (collect_ofGroups hc hstorable (fun _ _ => hlz4) ⟨0⟩ {} 2 ⟨{}, {}⟩ rfl).2

end Dataset

end Columnar
