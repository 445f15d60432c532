import Columnar.Block
import Columnar.Proofs.Compression.Lossless
import Columnar.Proofs.Except
import Columnar.Proofs.Stream.Reader

/-!
# Blocks read back

What a reader hands out is decided by the streams of its blocks, and `Gives` says how: the batches
of one block follow those of the other, until the blocks come to their end or one of them turns out
to be bad. `Reader.Has` is the invariant of a reader at work: it has before it what is left of the
block it is at, and what the blocks give that it has not come to. One step hands out the first batch
and keeps the rest, or hands out the end (`next_delivers`), and so all of it is handed out in the
end (`drain_of_has`).

A reader needs memory. `Lease.HasRoom` says that there is room for blocks of some sizes besides what
the reader has reserved; it is an invariant of all steps, and where memory has no limit it holds for
all sizes.
-/

namespace Columnar.Block

open Compression (Compressor)

/-! ### Memory -/

/-- There is room for blocks of the given sizes, one at a time. -/
def Lease.HasRoom (sizes : Nat → Prop) (l : Lease) : Prop :=
  ∀ pool ∈ l.host.pool, l.reserved ≤ pool.reserved ∧
    ∀ n, sizes n → pool.reserved - l.reserved + n ≤ pool.limit

variable {sizes : Nat → Prop} {l : Lease}

/-- Without a pool there is room for everything. -/
theorem Lease.hasRoom_of_pool (h : l.host.pool = none) : l.HasRoom sizes := by
  intro pool hp
  rw [h] at hp
  cases hp

/-- Room depends on the pool only. -/
theorem Lease.HasRoom.of_pool {host : Host} (h : l.HasRoom sizes) (hp : host.pool = l.host.pool) :
    Lease.HasRoom sizes ⟨l.reserved, host⟩ := by
  intro pool hpool
  exact h pool (hp ▸ hpool)

/-- What was reserved for a block can be reserved again when it is given back. -/
theorem Lease.HasRoom.free (h : l.HasRoom sizes) :
    Lease.HasRoom sizes ⟨0, l.host.free l.reserved⟩ := by
  intro pool hpool
  obtain ⟨q, hq, rfl⟩ := Option.map_eq_some_iff.1 (show l.host.pool.map _ = some pool from hpool)
  obtain ⟨-, hroom⟩ := h q hq
  exact ⟨Nat.zero_le _, hroom⟩

/-! ### Opening a block -/

/-- Steps of opening a block follow each other. -/
private theorem run_bind {α β : Type} {x : Opening α} {f : α → Opening β} {a : α} {l k : Lease}
    (h : x.run l = (.ok a, k)) : (x >>= f).run l = (f a).run k :=
  ExceptT.bind_of_ok h

/-- A reservation of `old` bytes can be changed to one of `new` bytes if these fit beside the
others. -/
private theorem resize_of_le {pool : Pool} {old new : Nat} (hold : old ≤ pool.reserved)
    (hnew : pool.reserved - old + new ≤ pool.limit) :
    pool.resize old new = some ⟨pool.limit, pool.reserved - old + new⟩ := by
  by_cases hlt : old < new
  · have hsum : pool.reserved + (new - old) = pool.reserved - old + new := by omega
    rw [Pool.resize, if_pos hlt, Pool.grow, hsum, if_pos hnew]
  · have hsum : pool.reserved - (old - new) = pool.reserved - old + new := by omega
    rw [Pool.resize, if_neg hlt, Pool.shrink, hsum]

/-- A reservation that there is room for succeeds, and leaves that room. -/
theorem run_reserve {n : Nat} (h : l.HasRoom sizes) (hn : sizes n) :
    ∃ k, (reserve n).run l = (.ok (), k) ∧ k.HasRoom sizes := by
  obtain ⟨reserved, pool, stats, references, log⟩ := l
  cases pool with
  | none => exact ⟨_, rfl, h⟩
  | some pool =>
    obtain ⟨hreserved, hroom⟩ := h pool rfl
    have hresize := resize_of_le hreserved (hroom n hn)
    have hget (l : Lease) : (get : Opening Lease).run l = (.ok l, l) := rfl
    refine ⟨⟨n, some ⟨pool.limit, pool.reserved - reserved + n⟩, stats, references, log⟩, ?_, ?_⟩
    · rw [reserve, run_bind (hget _)]
      simp only [hresize]
      rfl
    · -- What others have reserved stays the same.
      rintro _ ⟨⟩
      refine ⟨Nat.le_add_left _ _, fun m hm => ?_⟩
      rw [Nat.add_sub_cancel]
      exact hroom m hm

/-- A block is the compressed form of a stream, or the stream itself; opening it takes memory of the
given sizes. -/
def Codec.Holds (c : Codec) (sizes : Nat → Prop) (block stream : Bytes) : Prop :=
  match c.compressor with
  | none => block = stream ∧ sizes stream.length
  | some p => p.decode block = .ok stream ∧ sizes ((p.declaredSize? block).getD block.length) ∧
      sizes stream.length

variable {c : Codec} {block stream : Bytes}

theorem run_decode (h : c.Holds sizes block stream) (index : Nat) (hl : l.HasRoom sizes) :
    ∃ k, (decode c index block).run l = (.ok stream, k) ∧ k.HasRoom sizes := by
  obtain ⟨compressor⟩ := c
  cases compressor with
  | none =>
    obtain ⟨rfl, hsize⟩ : block = stream ∧ sizes stream.length := h
    obtain ⟨k, hk, hroom⟩ := run_reserve hl hsize
    refine ⟨k, ?_, hroom⟩
    rw [decode, run_bind hk]
    rfl
  | some p =>
    obtain ⟨hdecode, hdeclared, hsize⟩ : p.decode block = .ok stream ∧
      sizes ((p.declaredSize? block).getD block.length) ∧ sizes stream.length := h
    -- Memory is reserved twice: for the declared length, and for the length of the stream.
    obtain ⟨k, hk, hroom⟩ := run_reserve hl hdeclared
    obtain ⟨stats, hstats⟩ : ∃ stats, p.decompress k.host.stats block = (.ok stream, stats) := by
      rw [Compressor.decompress, hdecode]
      exact ⟨_, rfl⟩
    have hset : Lease.HasRoom sizes { k with host := { k.host with stats } } := hroom.of_pool rfl
    obtain ⟨m, hm, hroom⟩ := run_reserve hset hsize
    refine ⟨m, ?_, hroom⟩
    have hget : (get : Opening Lease).run k = (.ok k, k) := rfl
    have hput : (set { k with host := { k.host with stats } } : Opening Unit).run k =
      (.ok (), { k with host := { k.host with stats } }) := rfl
    rw [decode, run_bind hk, run_bind hget, hstats]
    refine (run_bind hput).trans ?_
    exact (run_bind hm).trans rfl

/-- What a stream has to satisfy to be read. -/
def openStream (index : Nat) (stream : Bytes) : Except Obstacle Stream.Reader :=
  if Stream.endMarker <:+ stream then
    (Stream.Reader.ofBytes stream).mapError (Obstacle.badStream index)
  else .error (.noEndMarker index)

/-- Nothing but its stream decides whether a block is opened, if there is room for it. -/
theorem run_openBlock (h : c.Holds sizes block stream) (index : Nat) (hl : l.HasRoom sizes) :
    ∃ k, (openBlock c index block).run l = (openStream index stream, k) ∧ k.HasRoom sizes := by
  obtain ⟨k, hk, hroom⟩ := run_decode h index hl
  rw [openBlock, run_bind hk, openStream]
  by_cases hend : Stream.endMarker <:+ stream
  · have hsuffix : Stream.endMarker.isSuffixOf stream = true := List.isSuffixOf_iff_suffix.2 hend
    simp only [hsuffix, if_pos hend]
    cases Stream.Reader.ofBytes stream with
    | error fault => exact ⟨k, rfl, hroom⟩
    | ok s => exact ⟨_, rfl, hroom.of_pool rfl⟩
  · have hsuffix : Stream.endMarker.isSuffixOf stream = false :=
      Bool.eq_false_iff.2 fun h => hend (List.isSuffixOf_iff_suffix.1 h)
    simp only [hsuffix, if_neg hend]
    exact ⟨k, rfl, hroom⟩

/-! ### What blocks give -/

/-- What a stream gives, and blocks after it: where the stream comes to its end the blocks follow,
and at a message that cannot be read there is nothing more. -/
def Within (index : Nat) (s : Stream.Reader) (after : List Batch → Option Error → Prop)
    (batches : List Batch) (ending : Option Error) : Prop :=
  (∃ fault, s.Hands (.error fault) batches ∧
    ending = some (Reader.Defect.badMessage index fault).toError) ∨
  ∃ first later, batches = first ++ later ∧ s.Hands (.ok none) first ∧ after later ending

/-- What blocks give that are numbered from `index` on: some batches, and an error unless all blocks
are read to their ends. -/
def Codec.Gives (c : Codec) (sizes : Nat → Prop) :
    (index : Nat) → List Bytes → List Batch → Option Error → Prop
  | _, [], batches, ending => batches = [] ∧ ending = none
  | index, block :: blocks, batches, ending =>
    ∃ stream, c.Holds sizes block stream ∧
      match openStream index stream with
      | .error o => batches = [] ∧ ending = some o.toError
      | .ok s => Within index s (c.Gives sizes (index + 1) blocks) batches ending

namespace Reader

/-- What a reader of batches of any schema has before it, in a host with room for the blocks. -/
def Has (sizes : Nat → Prop) (r : Reader) (h : Host) (batches : List Batch)
    (ending : Option Error) : Prop :=
  r.expected = [] ∧ ∃ p, r.position = some p ∧ Lease.HasRoom sizes ⟨p.reserved, h⟩ ∧
    match p.current with
    | none => r.codec.Gives sizes p.visited p.rest batches ending
    | some s => Within (p.visited - 1) s (r.codec.Gives sizes p.visited p.rest) batches ending

/-- A step hands out the first batch, and has the others before it. Where there is none it hands out
the end, closes the reader and gives up its memory. -/
def Delivers (sizes : Nat → Prop) (out : Item × Reader × Host) (batches : List Batch)
    (ending : Option Error) : Prop :=
  match batches with
  | [] => out.1 = ending.map .error ∧ out.2.1.position = none ∧ Lease.HasRoom sizes ⟨0, out.2.2⟩
  | b :: later => out.1 = some (.ok b) ∧ Has sizes out.2.1 out.2.2 later ending

variable {r : Reader} {p : Position} {h : Host} {batches : List Batch} {ending : Option Error}

/-- What a reader has before it depends on the pool of its host only. -/
theorem Has.of_pool {host : Host} (hr : r.Has sizes h batches ending) (hp : host.pool = h.pool) :
    r.Has sizes host batches ending := by
  obtain ⟨hexpected, p, hposition, hroom, hgives⟩ := hr
  exact ⟨hexpected, p, hposition, hroom.of_pool hp, hgives⟩

/-- At its end a reader is closed and gives up its memory. -/
private theorem delivers_finish (ending : Option Error)
    (hroom : Lease.HasRoom sizes ⟨p.reserved, h⟩) :
    Delivers sizes (r.finish p (ending.map .error) h) [] ending := by
  refine ⟨rfl, rfl, ?_⟩
  have hfree := hroom.free
  simp only [finish, close, finishBlock]
  refine hfree.of_pool ?_
  split <;> rfl

/-- The step of a reader within a block. -/
def nextAt (r : Reader) (p : Position) (s : Stream.Reader) (h : Host) : Item × Reader × Host :=
  match r.nextInBlock p s with
  | .error d => r.finish p (some (.error d.toError)) h
  | .ok (some (b, s)) =>
    (some (.ok b), { r with position := some { p with current := some s } }, h)
  | .ok none => r.nextBlock (r.finishBlock p h).1 p.rest (r.finishBlock p h).2

/-- A block that is opened is the one that the reader is at. -/
theorem nextBlock_of_ok (rest : List Bytes) {k : Lease} {s : Stream.Reader}
    (hopen : (openBlock r.codec p.visited block).run ⟨p.reserved, h⟩ = (.ok s, k)) :
    let q : Position := ⟨p.buffer, p.visited + 1, rest, some s, k.reserved⟩
    r.nextBlock p (block :: rest) h =
      r.nextAt q s (if r.readsInPlace q then k.host.retain q.buffer.id else k.host) := by
  rw [nextBlock, hopen]
  rfl

theorem next_of_closed (hp : r.position = none) : r.next h = (none, r, h) := by
  rw [next, hp]

theorem next_of_between (hp : r.position = some p) (hcurrent : p.current = none) :
    r.next h = r.nextBlock p p.rest h := by
  simp only [next, hp, hcurrent]

theorem next_of_within {s : Stream.Reader} (hp : r.position = some p)
    (hcurrent : p.current = some s) :
    r.next h = r.nextAt p s h := by
  simp only [next, hp, hcurrent]
  rfl

/-- Within a block, the reader hands out what is left of it, and then what the blocks after it
give. -/
private theorem nextAt_delivers {s : Stream.Reader} (hr : r.expected = [])
    (hroom : Lease.HasRoom sizes ⟨p.reserved, h⟩)
    (hs : Within (p.visited - 1) s (r.codec.Gives sizes p.visited p.rest) batches ending)
    (hrest : ∀ {q : Position} {h : Host}, q.visited = p.visited →
      Lease.HasRoom sizes ⟨q.reserved, h⟩ → r.codec.Gives sizes q.visited p.rest batches ending →
        Delivers sizes (r.nextBlock q p.rest h) batches ending) :
    Delivers sizes (r.nextAt p s h) batches ending := by
  have hconform (b : Batch) : conform r.expected b = .ok b := by rw [hr]; rfl
  -- A batch is handed out in the same way whatever comes after it.
  have hstep {b : Batch} {t : Stream.Reader} {later : List Batch}
      (hnext : s.next = .ok (some (b, t)))
      (ht : Within (p.visited - 1) t (r.codec.Gives sizes p.visited p.rest) later ending) :
      Delivers sizes (r.nextAt p s h) (b :: later) ending := by
    have hbatch : r.nextInBlock p s = .ok (some (b, t)) := by
      simp only [nextInBlock, hnext, hconform]
    rw [nextAt, hbatch]
    exact ⟨rfl, hr, _, rfl, hroom, ht⟩
  obtain ⟨fault, hhands, rfl⟩ | ⟨first, later, rfl, hhands, hafter⟩ := hs
  · -- The block has a message that cannot be read, after the batches before it.
    cases batches with
    | nil =>
      have hdefect : r.nextInBlock p s = .error (.badMessage (p.visited - 1) fault) := by
        rw [nextInBlock, show s.next = .error fault from hhands]
      rw [nextAt, hdefect]
      exact delivers_finish (some _) hroom
    | cons b batches =>
      obtain ⟨t, hnext, hhands⟩ := hhands
      exact hstep hnext (.inl ⟨fault, hhands, rfl⟩)
  · -- The block comes to its end, and the blocks after it follow.
    cases first with
    | nil =>
      have hnone : r.nextInBlock p s = .ok none := by
        rw [nextInBlock, show s.next = .ok none from hhands]
      rw [nextAt, hnone]
      refine hrest rfl (hroom.free.of_pool ?_) hafter
      simp only [finishBlock]
      split <;> rfl
    | cons b first =>
      obtain ⟨t, hnext, hhands⟩ := hhands
      exact hstep hnext (.inr ⟨first, later, rfl, hhands, hafter⟩)

/-- Between two blocks, the next one is opened that has a batch, or is bad. -/
private theorem nextBlock_delivers {blocks : List Bytes} (hr : r.expected = [])
    (hroom : Lease.HasRoom sizes ⟨p.reserved, h⟩)
    (hgives : r.codec.Gives sizes p.visited blocks batches ending) :
    Delivers sizes (r.nextBlock p blocks h) batches ending := by
  induction blocks generalizing p h with
  | nil =>
    obtain ⟨rfl, rfl⟩ := hgives
    exact delivers_finish none hroom
  | cons block blocks ih =>
    obtain ⟨stream, hholds, hstream⟩ := hgives
    obtain ⟨k, hk, hkroom⟩ := run_openBlock hholds p.visited hroom
    cases hopen : openStream p.visited stream with
    | error o =>
      rw [hopen] at hstream hk
      obtain ⟨rfl, rfl⟩ := hstream
      simp only [nextBlock, hk]
      exact delivers_finish (some _) hkroom
    | ok s =>
      rw [hopen] at hstream hk
      rw [nextBlock_of_ok blocks hk]
      refine nextAt_delivers hr (hkroom.of_pool ?_) hstream fun hq hroom hgives => ih hroom hgives
      split <;> rfl

/-- **Blocks read back.** A reader hands out what it has before it. -/
theorem next_delivers (hr : r.Has sizes h batches ending) :
    Delivers sizes (r.next h) batches ending := by
  obtain ⟨hexpected, p, hposition, hroom, hp⟩ := hr
  cases hcurrent : p.current with
  | none =>
    rw [hcurrent] at hp
    rw [next_of_between hposition hcurrent]
    exact nextBlock_delivers hexpected hroom hp
  | some s =>
    rw [hcurrent] at hp
    rw [next_of_within hposition hcurrent]
    exact nextAt_delivers hexpected hroom hp fun hq hroom hgives =>
      nextBlock_delivers hexpected hroom hgives

/-- A reader starts with all that the blocks of its buffer give. -/
theorem start_has {buffer : Buffer} (hroom : Lease.HasRoom sizes ⟨0, h⟩)
    (hgives : c.Gives sizes 0 buffer.blocks batches ending) :
    (start c [] buffer h).1.Has sizes (start c [] buffer h).2 batches ending :=
  ⟨rfl, _, rfl, hroom.of_pool rfl, hgives⟩

private theorem drain_of_batch {b : Batch} {r' : Reader} {h' : Host}
    (hnext : r.next h = (some (.ok b), r', h')) :
    (r.drain h).1 = .ok b :: (r'.drain h').1 := by
  rw [drain]
  split <;> simp_all

private theorem drain_of_end {r' : Reader} {h' : Host}
    (hnext : r.next h = (ending.map .error, r', h')) :
    (r.drain h).1 = (ending.map .error).toList := by
  rw [drain]
  cases ending <;> split <;> simp_all

/-- All of it is handed out in the end. -/
theorem drain_of_has (hr : r.Has sizes h batches ending) :
    (r.drain h).1 = batches.map .ok ++ (ending.map .error).toList := by
  induction batches generalizing r h with
  | nil =>
    have hend := (next_delivers hr).1
    exact drain_of_end (Prod.ext hend rfl)
  | cons b batches ih =>
    obtain ⟨hbatch, hlater⟩ := next_delivers hr
    rw [drain_of_batch (Prod.ext hbatch rfl), ih hlater]
    rfl

end Reader

end Columnar.Block
