import Columnar.Proofs.Block.Step
import Columnar.Proofs.Compression.Lossless

/-!
# Declared lengths

A block of LZ4 declares the length of its stream. The reader reserves that much memory, then
decompresses the block, and then puts the reservation right. This is safe: a block that is
decompressed is not longer than it declares, so that the second reservation is a smaller one and
never refused, and no block that holds what it declares is refused by the decompressor
(`lz4_expansion`).

A block can also declare more than it could hold. The decompressor tells such a block by its length,
but it comes to that only if the memory was granted. So whether the block is found to be corrupt
depends on the memory (`Reader.next_of_excessive`).
-/

namespace Columnar.Block

open Compression (Compressor Stats)

/-! ### Reservations -/

/-- A reservation that was made can be made smaller. What was counted in between does not matter. -/
private theorem reserve_of_le {n m : Nat} {l k : Lease} (hk : reserve n l = (.ok (), k))
    (hm : m ≤ n) (stats : Stats) :
    ∃ k', reserve m { k with host := { k.host with stats } } = (.ok (), k') := by
  rw [reserve_apply] at hk
  rw [reserve_apply]
  cases hpool : l.host.pool with
  | none =>
    rw [hpool] at hk
    cases hk
    simp only [hpool]
    exact ⟨_, rfl⟩
  | some pool =>
    rw [hpool] at hk
    dsimp only at hk
    split at hk
    · cases hk
      have hresize (p : Pool) : p.resize n m = some (p.shrink (n - m)) := by
        rw [Pool.resize, if_neg (Nat.not_lt.2 hm)]
      simp only [hresize]
      exact ⟨_, rfl⟩
    · cases hk

variable {c : Compressor} {block stream : Bytes} {l k : Lease}

/-- A block that is no longer than was reserved for it at first is decoded. -/
private theorem decode_of_reserve (hd : c.decode block = .ok stream)
    (hk : reserve ((c.declaredSize? block).getD block.length) l = (.ok (), k))
    (hle : stream.length ≤ (c.declaredSize? block).getD block.length) (index : Nat) :
    ∃ k', decode ⟨some c⟩ index block l = (.ok stream, k') := by
  obtain ⟨k', hk'⟩ := reserve_of_le hk hle (c.decompress k.host.stats block).2
  have hget : (get : Opening Lease) k = (.ok k, k) := rfl
  have hset (m : Lease) : (set m : Opening Unit) k = (.ok (), m) := rfl
  refine ⟨k', (ExceptT.bind_of_ok hk).trans ((ExceptT.bind_of_ok hget).trans ?_)⟩
  simp only [Compressor.decompress, hd] at hk' ⊢
  exact (ExceptT.bind_of_ok (hset _)).trans (ExceptT.bind_of_ok hk')

/-- Where memory is granted, what is wrong with a block is told. -/
private theorem decode_of_defect {d : Compression.Defect} (hd : c.decode block = .error d)
    (hk : reserve ((c.declaredSize? block).getD block.length) l = (.ok (), k)) (index : Nat) :
    decode ⟨some c⟩ index block l = (.error (.badFrame index c.algorithm d.toError), k) := by
  have hget : (get : Opening Lease) k = (.ok k, k) := rfl
  refine (ExceptT.bind_of_ok hk).trans ((ExceptT.bind_of_ok hget).trans ?_)
  simp only [Compressor.decompress, hd]
  rfl

/-- **Expansion of LZ4.** Of a block of LZ4 the content is returned, which is no longer than
declared, and that is at most 255 times the length of the block; where the declared length could be
reserved, the block is decoded, for the second reservation is not refused. A block that holds
exactly what it declares is decompressed, whoever wrote it. -/
theorem lz4_expansion (level : Int32) (trackStats : Bool) (stats : Stats) (block : Bytes) :
    let c : Compressor := ⟨.lz4, level, trackStats⟩
    (∀ content, (c.decompress stats block).1 = .ok content →
      Compression.Lz4.Holds [] (block.drop 4) content ∧
      (∃ n, c.declaredSize? block = some n ∧ content.length ≤ n ∧ n ≤ 255 * block.length) ∧
      ∀ index l k, (reserve ((c.declaredSize? block).getD block.length)).run l = (.ok (), k) →
        ∃ k', (decode ⟨some c⟩ index block).run l = (.ok content, k')) ∧
    ∀ content, c.declaredSize? block = some content.length →
      Compression.Lz4.Holds [] (block.drop 4) content →
        (c.decompress stats block).1 = .ok content := by
  intro c
  have hfst (content : Bytes) :
      (c.decompress stats block).1 = .ok content ↔ c.decode block = .ok content := by
    rw [Compressor.decompress]
    cases c.decode block <;> simp
  refine ⟨fun content hcontent => ?_, fun content hdeclared hholds => ?_⟩
  · have hdecode := (hfst content).1 hcontent
    obtain ⟨n, hn, hguard, hle, hholds⟩ := (Compressor.decode_lz4_eq_ok_iff rfl).1 hdecode
    refine ⟨hholds, ⟨n, hn, hle, hguard⟩, fun index l k hk => ?_⟩
    exact decode_of_reserve hdecode hk (by rwa [hn]) index
  · exact (hfst content).2 (Compressor.decode_lz4_of_holds rfl hdeclared hholds)

/-! ### Blocks that a step comes to -/

namespace Reader

/-- Where a reader is when it is at the end of a block that it has opened. -/
def passed (r : Reader) (p : Position) (rest : List Bytes) (s : Stream.Reader) (k : Lease) :
    Position × Host :=
  let q : Position := ⟨p.buffer, p.visited + 1, rest, some s, k.reserved⟩
  r.finishBlock q (if r.readsInPlace q then k.host.retain q.buffer.id else k.host)

/-- From a position on, a reader passes over blocks that it opens and that have no batches, up to
another position. No block is being read at either of them. -/
inductive Passes (r : Reader) (p' : Position) (blocks' : List Bytes) (h' : Host) :
    Position → List Bytes → Host → Prop
  /-- It is there. -/
  | refl : Passes r p' blocks' h' p' blocks' h'
  /-- It opens the next block, and comes to its end. -/
  | block {p : Position} {b : Bytes} {rest : List Bytes} {h : Host} {s : Stream.Reader} {k : Lease}
    (hopen : (openBlock r.codec p.visited b).run ⟨p.reserved, h⟩ = (.ok s, k))
    (hend : r.nextInBlock ⟨p.buffer, p.visited + 1, rest, some s, k.reserved⟩ s = .ok none)
    (hrest : Passes r p' blocks' h' (r.passed p rest s k).1 rest (r.passed p rest s k).2) :
    Passes r p' blocks' h' p (b :: rest) h

/-- The next step of a reader comes to a block at a position, in a host as it is then. -/
def Reaches (r : Reader) (h : Host) (p : Position) (block : Bytes) (host : Host) : Prop :=
  ∃ q rest, r.position = some q ∧
    match q.current with
    | none => Passes r p (block :: rest) host q q.rest h
    | some s => r.nextInBlock q s = .ok none ∧
        Passes r p (block :: rest) host (r.finishBlock q h).1 q.rest (r.finishBlock q h).2

variable {r : Reader} {p p' : Position} {h h' host : Host} {blocks blocks' : List Bytes}
  {others : Option Pool} {block : Bytes}

/-- A step that passes over blocks is the one from there. -/
private theorem nextBlock_of_passes (hpasses : Passes r p' blocks' h' p blocks h) :
    r.nextBlock p blocks h = r.nextBlock p' blocks' h' := by
  induction hpasses with
  | refl => rfl
  | block hopen hend hrest ih =>
    rw [nextBlock_of_ok _ hopen, nextAt, hend]
    exact ih

private theorem next_of_reaches (hreach : r.Reaches h p block host) :
    ∃ rest, r.next h = r.nextBlock p (block :: rest) host := by
  obtain ⟨q, rest, hq, hreach⟩ := hreach
  refine ⟨rest, ?_⟩
  split at hreach
  · next hcurrent =>
    rw [next_of_between hq hcurrent]
    exact nextBlock_of_passes hreach
  · next s hcurrent =>
    obtain ⟨hend, hpasses⟩ := hreach
    rw [next_of_within hq hcurrent, nextAt, hend]
    exact nextBlock_of_passes hpasses

/-- Between blocks a reader has nothing reserved, if memory is limited. -/
structure IsBetween (others : Option Pool) (p : Position) (h : Host) : Prop where
  /-- What others have reserved is as it was. -/
  beside : Beside others p.reserved h
  /-- Nothing is reserved. -/
  reserved_eq : others ≠ none → p.reserved = 0

private theorem isBetween_finishBlock (hb : Beside others p.reserved h) :
    IsBetween others (r.finishBlock p h).1 (r.finishBlock p h).2 :=
  ⟨beside_finishBlock hb, fun _ => rfl⟩

private theorem isBetween_of_passes (hpasses : Passes r p' blocks' h' p blocks h)
    (hp : IsBetween others p h) : IsBetween others p' h' := by
  induction hpasses with
  | refl => exact hp
  | @block p b rest h s k hopen hend hrest ih =>
    refine ih (isBetween_finishBlock ?_)
    obtain ⟨k', hk', ⟨hrun, -⟩ | ⟨-, n, pool, hrun⟩⟩ :=
      openBlock_comesTo (c := r.codec) (l := ⟨p.reserved, h⟩) p.visited b hp.beside
    · obtain ⟨-, rfl⟩ := Prod.mk.inj (hopen.symm.trans hrun)
      refine hk'.of_pool ?_
      split <;> rfl
    · exact nomatch hopen.symm.trans hrun

private theorem Stands.isBetween (hr : r.Stands others h) (hreach : r.Reaches h p block host) :
    IsBetween others p host := by
  obtain ⟨q, rest, hq, hreach⟩ := hreach
  have hb : Beside others q.reserved h := by
    have hb := hr.beside
    rwa [reserved, hq] at hb
  split at hreach
  · next hcurrent =>
    refine isBetween_of_passes hreach ⟨hb, fun hothers => ?_⟩
    have hreserved := hr.reserved_eq hothers
    rw [reserved, openLength, hq] at hreserved
    simp only [Option.map_some, Option.getD_some, Position.openLength, hcurrent] at hreserved
    exact hreserved
  · exact isBetween_of_passes hreach.2 (isBetween_finishBlock hb)

/-! ### Blocks that declare too much -/

/-- A reader in a host after any calls. Others share the memory, and may reserve some and give it
back at any time. -/
inductive IsRun : (others : Option Pool) → Reader → Host → Prop
  /-- It starts. -/
  | start (c : Codec) (fields : List Field) (buffer : Buffer) (h : Host) :
    IsRun h.pool (start c fields buffer h).1 (start c fields buffer h).2
  /-- It is asked for its next batch. -/
  | next {others : Option Pool} {r : Reader} {h : Host} (hr : IsRun others r h) :
    IsRun others (r.next h).2.1 (r.next h).2.2
  /-- It is closed. -/
  | close {others : Option Pool} {r : Reader} {h : Host} (hr : IsRun others r h) :
    IsRun others (r.close h).1 (r.close h).2
  /-- Others have reserved more or less. -/
  | elsewhere {others others' : Option Pool} {r : Reader} {h host : Host} (hr : IsRun others r h)
    (hothers : others = none ↔ others' = none) (hb : Beside others' r.reserved host) :
    IsRun others' r host

theorem IsRun.stands (hr : r.IsRun others h) : r.Stands others h := by
  induction hr with
  | start c fields buffer h =>
    exact start_stands c fields buffer (by cases hp : h.pool <;> simp [Beside, hp])
  | next hr ih => exact (next_steps ih).stands
  | close hr ih => exact (close_stands ih).2
  | elsewhere hr hothers hb ih =>
    exact ⟨ih.rest_eq, fun h => ih.reserved_eq fun h' => h (hothers.1 h'), hb⟩

end Reader

/-- What is wrong with a block that declares `n` bytes, more than it could hold: its memory is
refused, or the decompressor tells it by its length. -/
def excessObstacle (pool : Option Pool) (index size n : Nat) : Obstacle :=
  match pool with
  | some p =>
    if p.limit < p.reserved + n then .noMemory n p
    else .badFrame index .lz4 (Compression.Defect.excessiveSize size n).toError
  | none => .badFrame index .lz4 (Compression.Defect.excessiveSize size n).toError

private theorem openBlock_of_excessive {n : Nat} (hc : c.algorithm = .lz4)
    (hn : c.declaredSize? block = some n) (hlt : 255 * block.length < n)
    (hl : l.host.pool ≠ none → l.reserved = 0) (index : Nat) :
    ∃ k, (openBlock ⟨some c⟩ index block).run l =
      (.error (excessObstacle l.host.pool index block.length n), k) := by
  have hd : c.decode block = .error (.excessiveSize block.length n) := by
    rw [Compressor.decode, hc]
    simp only [hn, Option.getD_some, Compressor.maxExpansion]
    rw [if_pos (by omega)]
  have hreserve : reserve ((c.declaredSize? block).getD block.length) l = reserve n l := by
    rw [hn, Option.getD_some]
  cases hpool : l.host.pool with
  | none =>
    have hk : reserve n l = (.ok (), l) := by rw [reserve_apply, hpool]
    have hdecode := decode_of_defect hd (hreserve.trans hk) index
    rw [hc] at hdecode
    exact ⟨l, ExceptT.bind_of_error hdecode⟩
  | some p =>
    have hresize : p.resize l.reserved n =
        if p.reserved + n ≤ p.limit then some { p with reserved := p.reserved + n } else none := by
      rw [hl (hpool ▸ Option.some_ne_none p), Pool.resize, if_pos (by omega), Pool.grow,
        Nat.sub_zero]
    by_cases hroom : p.reserved + n ≤ p.limit
    · rw [if_pos hroom] at hresize
      have hk : reserve n l =
          (.ok (), ⟨n, { l.host with pool := some { p with reserved := p.reserved + n } }⟩) := by
        simp only [reserve_apply, hpool, hresize]
      have hdecode := decode_of_defect hd (hreserve.trans hk) index
      rw [hc] at hdecode
      rw [excessObstacle, if_neg (Nat.not_lt.2 hroom)]
      exact ⟨_, ExceptT.bind_of_error hdecode⟩
    · rw [if_neg hroom] at hresize
      have hk : reserve n l = (.error (.noMemory n p), l) := by
        simp only [reserve_apply, hpool, hresize]
      have hdecode : decode ⟨some c⟩ index block l = (.error (.noMemory n p), l) :=
        ExceptT.bind_of_error (hreserve.trans hk)
      rw [excessObstacle, if_pos (Nat.not_le.1 hroom)]
      exact ⟨l, ExceptT.bind_of_error hdecode⟩

namespace Reader

variable {others : Option Pool} {r : Reader} {p : Position} {h host : Host}

/-- **Blocks that declare too much.** A reader of LZ4 that comes to a block that declares more than
255 times its own length hands out an error and closes itself. The declared length is reserved
before it is looked at. If memory is not limited, or that much of it is free besides what others
have reserved, the block is reported to be corrupt, and otherwise that there is no memory for it. -/
theorem next_of_excessive (hc : c.algorithm = .lz4) (hr : r.IsRun others h)
    (hcodec : r.codec = ⟨some c⟩) (hreach : r.Reaches h p block host) {n : Nat}
    (hn : c.declaredSize? block = some n) (hlt : 255 * block.length < n) :
    (r.next h).2.1.position = none ∧ ∃ e, (r.next h).1 = some (.error e) ∧
      ((∀ pool, others = some pool → pool.reserved + n ≤ pool.limit) →
        e = (Obstacle.badFrame p.visited .lz4
            (Compression.Defect.excessiveSize block.length n).toError).toError ∧
          e.kind = .corruptData ∧ e.isRetryable = false) ∧
      ∀ pool, others = some pool → pool.limit < pool.reserved + n →
        e = (Obstacle.noMemory n pool).toError ∧ e.kind = .resourceExhausted ∧
          e.isRetryable = true := by
  obtain ⟨hbeside, hreserved⟩ := hr.stands.isBetween hreach
  have hpool : host.pool = others := by
    cases others with
    | none => exact hbeside
    | some pool =>
      rw [hreserved nofun] at hbeside
      exact hbeside
  have hl : host.pool ≠ none → p.reserved = 0 := fun h => hreserved (hpool ▸ h)
  obtain ⟨k, hopen⟩ := openBlock_of_excessive (l := ⟨p.reserved, host⟩) hc hn hlt hl p.visited
  rw [hpool, ← hcodec] at hopen
  obtain ⟨rest, hnext⟩ := next_of_reaches hreach
  simp only [nextBlock, hopen] at hnext
  rw [hnext]
  refine ⟨rfl, _, rfl, fun hroom => ?_, fun pool hothers hfull => ?_⟩
  · cases others with
    | none => exact ⟨rfl, rfl, rfl⟩
    | some pool =>
      rw [excessObstacle, if_neg (Nat.not_lt.2 (hroom pool rfl))]
      exact ⟨rfl, rfl, rfl⟩
  · rw [hothers, excessObstacle, if_pos hfull]
    exact ⟨rfl, rfl, rfl⟩

/-- Five bytes that declare four gigabytes, where there is memory for them. -/
theorem next_of_excessive_granted :
    let block : Bytes := [255, 255, 255, 255, 0]
    let r := start ⟨some ⟨.lz4, 1, false⟩⟩ [] ⟨⟨0⟩, [block]⟩ { pool := some ⟨2 ^ 32, 0⟩ }
    (r.1.next r.2).2.1.position = none ∧ ∃ e, (r.1.next r.2).1 = some (.error e) ∧
      e.kind = .corruptData ∧ e.isRetryable = false := by
  intro block r
  have hrun : r.1.IsRun (some ⟨2 ^ 32, 0⟩) r.2 :=
    .start ⟨some ⟨.lz4, 1, false⟩⟩ [] ⟨⟨0⟩, [block]⟩ { pool := some ⟨2 ^ 32, 0⟩ }
  have hreach : r.1.Reaches r.2 ⟨⟨⟨0⟩, [block]⟩, 0, [block], none, 0⟩ block r.2 :=
    ⟨_, [], rfl, .refl⟩
  obtain ⟨hclosed, e, he, hgranted, -⟩ := next_of_excessive rfl hrun rfl hreach
    (n := 2 ^ 32 - 1) (by decide) (by decide)
  obtain ⟨-, hkind⟩ := hgranted (by rintro pool ⟨⟩; decide)
  exact ⟨hclosed, e, he, hkind⟩

/-- The same bytes, where there is no memory for them. -/
theorem next_ne_corruptData :
    let c : Compressor := ⟨.lz4, 1, false⟩
    let block : Bytes := [255, 255, 255, 255, 0]
    let r := start ⟨some c⟩ [] ⟨⟨0⟩, [block]⟩ { pool := some ⟨100, 0⟩ }
    r.1.Reaches r.2 ⟨⟨⟨0⟩, [block]⟩, 0, [block], none, 0⟩ block r.2 ∧
    (∃ n, c.declaredSize? block = some n ∧ 255 * block.length < n) ∧
    ∃ e, (r.1.next r.2).1 = some (.error e) ∧ e.kind = .resourceExhausted ∧
      e.isRetryable = true := by
  intro c block r
  have hdeclared : c.declaredSize? block = some (2 ^ 32 - 1) := by decide
  exact ⟨⟨_, [], rfl, .refl⟩, ⟨_, hdeclared, by decide⟩, _, rfl, rfl, rfl⟩

end Reader

end Columnar.Block
