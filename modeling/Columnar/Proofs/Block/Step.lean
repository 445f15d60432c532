import Columnar.Proofs.Block.Reading
import Columnar.Proofs.Except

/-!
# Steps of readers

A step of a reader hands out the next item of what it has before it (`Reader.upcoming`). Where
memory is limited it may also be refused; then the reader hands out that error, and nothing more.
Both ways the reader holds the memory of the block that it has open and no other, and the memory
that others have reserved stays as it is.

`Reader.Stands` is the invariant of a reader in a host, and `Reader.next_steps` says what a step
comes to. `others` is the pool as it is without the reader, or `none` where memory is not limited.
-/

namespace Columnar.Block

open Compression (Compressor)

/-! ### Memory -/

/-- Others have reserved what they have, and `n` bytes are reserved besides. -/
def Beside (others : Option Pool) (n : Nat) (h : Host) : Prop :=
  h.pool = others.map fun p => { p with reserved := p.reserved + n }

namespace Beside

variable {others : Option Pool} {n : Nat} {h host : Host}

theorem of_pool (hb : Beside others n h) (hp : host.pool = h.pool) : Beside others n host :=
  hp.trans hb

/-- Memory that is given back leaves what others have reserved. -/
theorem free (hb : Beside others n h) : Beside others 0 (h.free n) := by
  rw [Beside, Host.free, show h.pool = _ from hb, Option.map_map]
  refine congrArg (others.map ·) (funext fun p => ?_)
  simp [Pool.shrink]

end Beside

/-- A reservation is changed beside the others, or it is refused. -/
private theorem resize_beside (p : Pool) (old new : Nat) :
    Pool.resize old new { p with reserved := p.reserved + old } =
        some { p with reserved := p.reserved + new } ∨
      Pool.resize old new { p with reserved := p.reserved + old } = none := by
  by_cases hlt : old < new
  · have hsum : p.reserved + old + (new - old) = p.reserved + new := by omega
    rw [Pool.resize, if_pos hlt, Pool.grow, hsum]
    split
    · exact .inl rfl
    · exact .inr rfl
  · have hsum : p.reserved + old - (old - new) = p.reserved + new := by omega
    rw [Pool.resize, if_neg hlt, Pool.shrink, hsum]
    exact .inl rfl

/-! ### Opening a block -/

/-- A step of opening a block comes to an outcome, with `size` bytes reserved if that is a success,
or memory is refused. Nothing happens to the memory of others. -/
def ComesTo {α : Type} (others : Option Pool) (x : Opening α) (l : Lease)
    (outcome : Except Obstacle α) (size : Nat) : Prop :=
  ∃ k, Beside others k.reserved k.host ∧
    ((x l = (outcome, k) ∧ ∀ a, outcome = .ok a → others ≠ none → k.reserved = size) ∨
      others ≠ none ∧ ∃ n pool, x l = (.error (.noMemory n pool), k))

variable {others : Option Pool} {l : Lease}

namespace ComesTo

variable {α β : Type} {x : Opening α} {f : α → Opening β} {a : α} {n size : Nat}

theorem pure (hl : Beside others l.reserved l.host) (hsize : others ≠ none → l.reserved = size)
    (a : α) : ComesTo others (pure a : Opening α) l (.ok a) size :=
  ⟨l, hl, .inl ⟨rfl, fun _ _ => hsize⟩⟩

theorem of_apply {y : Opening α} {k : Lease} {outcome : Except Obstacle α} (h : x l = y k)
    (hy : ComesTo others y k outcome size) : ComesTo others x l outcome size := by
  rwa [ComesTo, h]

/-- After a success comes the next step. -/
theorem bind {outcome : Except Obstacle β} (hx : ComesTo others x l (.ok a) n)
    (hf : ∀ k : Lease, Beside others k.reserved k.host → (others ≠ none → k.reserved = n) →
      ComesTo others (f a) k outcome size) : ComesTo others (x >>= f) l outcome size := by
  obtain ⟨k, hk, ⟨hok, hsize⟩ | ⟨hothers, m, pool, hrefused⟩⟩ := hx
  · exact (hf k hk (hsize a rfl)).of_apply (ExceptT.bind_of_ok hok)
  · exact ⟨k, hk, .inr ⟨hothers, m, pool, ExceptT.bind_of_error hrefused⟩⟩

/-- A failure is the last step. -/
theorem bind_of_error {o : Obstacle} (hx : ComesTo others x l (.error o) n) :
    ComesTo others (x >>= f) l (.error o) size := by
  obtain ⟨k, hk, ⟨herror, -⟩ | ⟨hothers, m, pool, hrefused⟩⟩ := hx
  · exact ⟨k, hk, .inl ⟨ExceptT.bind_of_error herror, nofun⟩⟩
  · exact ⟨k, hk, .inr ⟨hothers, m, pool, ExceptT.bind_of_error hrefused⟩⟩

end ComesTo

theorem reserve_apply (n : Nat) (l : Lease) :
    reserve n l = match l.host.pool with
      | none => (.ok (), l)
      | some pool =>
        match pool.resize l.reserved n with
        | some pool => (.ok (), ⟨n, { l.host with pool := some pool }⟩)
        | none => (.error (.noMemory n pool), l) := by
  have hget : (get : Opening Lease) l = (.ok l, l) := rfl
  rw [reserve, ExceptT.bind_of_ok hget]
  cases l.host.pool with
  | none => rfl
  | some pool => dsimp only; cases pool.resize l.reserved n <;> rfl

private theorem reserve_comesTo (n : Nat) (hl : Beside others l.reserved l.host) :
    ComesTo others (reserve n) l (.ok ()) n := by
  cases others with
  | none =>
    have hpool : l.host.pool = none := hl
    refine ⟨l, hl, .inl ⟨?_, fun _ _ h => absurd rfl h⟩⟩
    rw [reserve_apply, hpool]
  | some p =>
    have hpool : l.host.pool = some { p with reserved := p.reserved + l.reserved } := hl
    obtain hresize | hresize := resize_beside p l.reserved n
    · refine ⟨⟨n, { l.host with pool := some { p with reserved := p.reserved + n } }⟩, rfl,
        .inl ⟨?_, fun _ _ _ => rfl⟩⟩
      simp only [reserve_apply, hpool, hresize]
    · refine ⟨l, hl, .inr ⟨nofun, n, { p with reserved := p.reserved + l.reserved }, ?_⟩⟩
      simp only [reserve_apply, hpool, hresize]

/-- The length of the stream that a block holds. -/
def Codec.streamLength (c : Codec) (block : Bytes) : Nat :=
  match c.compressor with
  | none => block.length
  | some p =>
    match p.decode block with
    | .ok stream => stream.length
    | .error _ => 0

variable {c : Codec}

private theorem decode_comesTo (index : Nat) (block : Bytes)
    (hl : Beside others l.reserved l.host) :
    ComesTo others (decode c index block) l (c.streamOf index block) (c.streamLength block) := by
  obtain ⟨_ | p⟩ := c
  · exact (reserve_comesTo block.length hl).bind fun k hk hsize => .pure hk hsize block
  · refine (reserve_comesTo _ hl).bind fun k hk _ => ?_
    -- What is counted does not matter to memory.
    have hstats (stats : Compression.Stats) :
        Beside others k.reserved { k.host with stats } := hk.of_pool rfl
    have hget : (get : Opening Lease) k = (.ok k, k) := rfl
    have hset (m : Lease) : (set m : Opening Unit) k = (.ok (), m) := rfl
    refine .of_apply (ExceptT.bind_of_ok hget) ?_
    rw [Compressor.decompress, Codec.streamOf, Codec.streamLength]
    cases hd : p.decode block with
    | error d =>
      simp only [hd]
      refine .of_apply (ExceptT.bind_of_ok (hset _)) ?_
      exact ⟨_, hstats _, .inl ⟨rfl, by rintro _ ⟨⟩⟩⟩
    | ok stream =>
      simp only [hd]
      refine .of_apply (ExceptT.bind_of_ok (hset _)) ?_
      refine ComesTo.bind (reserve_comesTo stream.length (hstats _)) fun k hk hsize => ?_
      exact .pure hk hsize stream

/-- Nothing but its bytes decides whether a block is opened, if there is memory for it. -/
theorem openBlock_comesTo (index : Nat) (block : Bytes) (hl : Beside others l.reserved l.host) :
    ComesTo others (openBlock c index block) l (c.opens index block) (c.streamLength block) := by
  have hdecode := decode_comesTo (c := c) index block hl
  rw [Codec.opens]
  cases hs : c.streamOf index block with
  | error o =>
    rw [hs] at hdecode
    exact hdecode.bind_of_error
  | ok stream =>
    rw [hs] at hdecode
    refine hdecode.bind fun k hk hsize => ?_
    change ComesTo others _ k (openStream index stream) _
    rw [openStream]
    by_cases hend : Stream.endMarker <:+ stream
    · have hsuffix : Stream.endMarker.isSuffixOf stream = true := List.isSuffixOf_iff_suffix.2 hend
      simp only [hsuffix, if_pos hend]
      cases Stream.Reader.ofBytes stream with
      | error fault => exact ⟨k, hk, .inl ⟨rfl, by rintro _ ⟨⟩⟩⟩
      | ok s =>
        exact ⟨⟨k.reserved, Journal.note (.opened index) k.host⟩, hk.of_pool rfl,
          .inl ⟨rfl, fun _ _ => hsize⟩⟩
    · have hsuffix : Stream.endMarker.isSuffixOf stream = false :=
        Bool.eq_false_iff.2 fun h => hend (List.isSuffixOf_iff_suffix.1 h)
      simp only [hsuffix, if_neg hend]
      exact ⟨k, hk, .inl ⟨rfl, by rintro _ ⟨⟩⟩⟩

/-! ### The invariant -/

/-- The length of the stream of the block that is open at a position, or zero if none is. -/
def Position.openLength (c : Codec) (p : Position) : Nat :=
  if p.current.isSome then (p.buffer.blocks[p.visited - 1]?.map c.streamLength).getD 0 else 0

namespace Reader

/-- The bytes that a reader has reserved. -/
def reserved (r : Reader) : Nat :=
  (r.position.map (·.reserved)).getD 0

/-- The length of the stream of the block that a reader has open, or zero if it has none. -/
def openLength (r : Reader) : Nat :=
  (r.position.map (·.openLength r.codec)).getD 0

/-- What a reader has before it. -/
def upcoming (r : Reader) : Reading :=
  match r.position with
  | none => ⟨[], none⟩
  | some p =>
    let later := r.codec.reading r.expected p.visited p.rest
    match p.current with
    | none => later
    | some s => (streamReading r.expected (p.visited - 1) s).append later

/-- A reader in a host: it has reserved the memory of the block that it has open, besides what
others have reserved. -/
structure Stands (others : Option Pool) (r : Reader) (h : Host) : Prop where
  /-- The blocks that it has not come to are those after the ones that it has come to. -/
  rest_eq : ∀ p, r.position = some p → p.rest = p.buffer.blocks.drop p.visited
  /-- If memory is limited, it has reserved the length of the stream that it reads. -/
  reserved_eq : others ≠ none → r.reserved = r.openLength
  /-- What others have reserved is as it was. -/
  beside : Beside others r.reserved h

/-- What a step comes to for a reader that has `x` before it. -/
structure Steps (others : Option Pool) (r : Reader) (x : Reading) (out : Item × Reader × Host) :
    Prop where
  /-- The invariant is kept. -/
  stands : out.2.1.Stands others out.2.2
  /-- The next batch is handed out, or the end, or memory is refused. After these two the reader is
  closed. -/
  item : (∃ b, out.1 = some (.ok b) ∧ x = out.2.1.upcoming.cons b) ∨
    out.2.1.position = none ∧ ((x.batches = [] ∧ out.1 = x.ending.map fun f => .error f.toError) ∨
      others ≠ none ∧ ∃ n pool, out.1 = some (.error (Obstacle.noMemory n pool).toError))

variable {r : Reader} {p : Position} {h : Host} {x : Reading}

/-- How a reader stands depends on the pool of its host only. -/
theorem Stands.of_pool {host : Host} (hr : r.Stands others h) (hp : host.pool = h.pool) :
    r.Stands others host :=
  ⟨hr.rest_eq, hr.reserved_eq, hr.beside.of_pool hp⟩

/-- A closed reader has nothing. -/
private theorem stands_of_closed (hr : r.position = none) (hb : Beside others 0 h) :
    r.Stands others h := by
  refine ⟨fun p hp => ?_, fun _ => ?_, ?_⟩
  · rw [hr] at hp
    cases hp
  · rw [reserved, openLength, hr]
    rfl
  · rwa [reserved, hr]

theorem beside_finishBlock (hb : Beside others p.reserved h) :
    Beside others 0 (r.finishBlock p h).2 := by
  refine hb.free.of_pool ?_
  simp only [finishBlock]
  split <;> rfl

/-- At its end a reader is closed, and has given its memory back. -/
private theorem stands_finish (item : Item) (hb : Beside others p.reserved h) :
    (r.finish p item h).2.1.Stands others (r.finish p item h).2.2 :=
  stands_of_closed rfl ((beside_finishBlock hb).of_pool rfl)

private theorem finish_steps (ending : Option Flaw) (hb : Beside others p.reserved h) :
    Steps others r ⟨[], ending⟩ (r.finish p (ending.map fun f => .error f.toError) h) where
  stands := stands_finish _ hb
  item := .inr ⟨rfl, .inl ⟨rfl, rfl⟩⟩

private theorem refuse_steps (hothers : others ≠ none) (n : Nat) (pool : Pool)
    (hb : Beside others p.reserved h) (x : Reading) :
    Steps others r x (r.finish p (some (.error (Obstacle.noMemory n pool).toError)) h) where
  stands := stands_finish _ hb
  item := .inr ⟨rfl, .inr ⟨hothers, n, pool, rfl⟩⟩

/-- Without a batch a reader is closed. -/
theorem Steps.closed {out : Item × Reader × Host} (hs : Steps others r x out)
    (hitem : ∀ b, out.1 ≠ some (.ok b)) : out.2.1.position = none := by
  obtain ⟨b, hb, -⟩ | ⟨hclosed, -⟩ := hs.item
  · exact absurd hb (hitem b)
  · exact hclosed

/-- A step within a block. -/
private theorem nextAt_steps {s : Stream.Reader} (hcurrent : p.current = some s)
    (hrest : p.rest = p.buffer.blocks.drop p.visited)
    (hreserved : others ≠ none → p.reserved = p.openLength r.codec)
    (hb : Beside others p.reserved h)
    (hnext : ∀ {q : Position} {h : Host}, q.buffer = p.buffer → q.visited = p.visited →
      Beside others q.reserved h →
        Steps others r (r.codec.reading r.expected p.visited p.rest) (r.nextBlock q p.rest h)) :
    Steps others r ((streamReading r.expected (p.visited - 1) s).append
      (r.codec.reading r.expected p.visited p.rest)) (r.nextAt p s h) := by
  rw [streamReading_nextInBlock, nextAt]
  rcases r.nextInBlock p s with d | _ | ⟨b, t⟩
  · exact finish_steps (some (.defect d)) hb
  · exact hnext rfl rfl (beside_finishBlock hb)
  · dsimp only
    rw [Reading.cons_append]
    refine ⟨⟨?_, fun hothers => ?_, hb⟩, .inl ⟨b, rfl, rfl⟩⟩
    · rintro _ ⟨⟩
      exact hrest
    · -- The block is the same one.
      refine (hreserved hothers).trans ?_
      simp only [openLength, Position.openLength, hcurrent, Option.map_some, Option.getD_some,
        Option.isSome_some]

/-- A step to the next block that has a batch, or is bad. -/
private theorem nextBlock_steps {blocks : List Bytes}
    (hblocks : blocks = p.buffer.blocks.drop p.visited) (hb : Beside others p.reserved h) :
    Steps others r (r.codec.reading r.expected p.visited blocks) (r.nextBlock p blocks h) := by
  induction blocks generalizing p h with
  | nil => exact finish_steps none hb
  | cons block rest ih =>
    obtain ⟨k, hk, ⟨hrun, hsize⟩ | ⟨hothers, n, pool, hrun⟩⟩ :=
      openBlock_comesTo (c := r.codec) (l := ⟨p.reserved, h⟩) p.visited block hb
    · rw [Codec.reading]
      cases ho : r.codec.opens p.visited block with
      | error o =>
        rw [ho] at hrun
        have hrun : (openBlock r.codec p.visited block).run ⟨p.reserved, h⟩ = (.error o, k) := hrun
        simp only [nextBlock, hrun]
        exact finish_steps (some (.obstacle o)) hk
      | ok s =>
        rw [ho] at hrun hsize
        have hget : p.buffer.blocks[p.visited]? = some block := by
          rw [← Nat.add_zero p.visited, ← List.getElem?_drop, ← hblocks]
          rfl
        have hdrop : rest = p.buffer.blocks.drop (p.visited + 1) := by
          rw [← List.tail_drop, ← hblocks]
          rfl
        rw [nextBlock_of_ok rest hrun]
        refine nextAt_steps (p := ⟨p.buffer, p.visited + 1, rest, some s, k.reserved⟩) rfl hdrop
          (fun hothers => ?_) (hk.of_pool ?_) fun hbuffer hvisited hb => ?_
        · refine (hsize s rfl hothers).trans ?_
          simp [Position.openLength, hget]
        · split <;> rfl
        · rw [← hvisited]
          refine ih ?_ hb
          rw [hbuffer, hvisited]
          exact hdrop
    · have hrun : (openBlock r.codec p.visited block).run ⟨p.reserved, h⟩ =
          (.error (.noMemory n pool), k) := hrun
      simp only [nextBlock, hrun]
      exact refuse_steps hothers n pool hk _

/-- **Steps of readers.** A step hands out the next item of what a reader has before it, or the
refusal of memory. -/
theorem next_steps (hr : r.Stands others h) : Steps others r r.upcoming (r.next h) := by
  cases hp : r.position with
  | none =>
    have hnothing : r.upcoming = ⟨[], none⟩ := by rw [upcoming, hp]
    rw [next_of_closed hp, hnothing]
    exact ⟨hr, .inr ⟨hp, .inl ⟨rfl, rfl⟩⟩⟩
  | some p =>
    have hb : Beside others p.reserved h := by
      have hb := hr.beside
      rwa [reserved, hp] at hb
    cases hcurrent : p.current with
    | none =>
      rw [next_of_between hp hcurrent]
      simp only [upcoming, hp, hcurrent]
      exact nextBlock_steps (hr.rest_eq p hp) hb
    | some s =>
      have hreserved (hothers : others ≠ none) : p.reserved = p.openLength r.codec := by
        have hreserved := hr.reserved_eq hothers
        rwa [reserved, openLength, hp] at hreserved
      rw [next_of_within hp hcurrent]
      simp only [upcoming, hp, hcurrent]
      refine nextAt_steps hcurrent (hr.rest_eq p hp) hreserved hb fun hbuffer hvisited hb => ?_
      rw [← hvisited]
      refine nextBlock_steps ?_ hb
      rw [hbuffer, hvisited]
      exact hr.rest_eq p hp

/-- A reader that is closed has given everything back. -/
theorem close_stands (hr : r.Stands others h) :
    (r.close h).1.position = none ∧ (r.close h).1.Stands others (r.close h).2 := by
  cases hp : r.position with
  | none =>
    have hclose : r.close h = (r, h) := by rw [close, hp]
    rw [hclose]
    exact ⟨hp, hr⟩
  | some p =>
    have hb : Beside others p.reserved h := by
      have hb := hr.beside
      rwa [reserved, hp] at hb
    have hclose : r.close h = (r.finish p none h).2 := by simp only [finish, close, hp]; rfl
    rw [hclose]
    exact ⟨rfl, stands_finish none hb⟩

/-- A reader starts with all that the blocks of its buffer hold, and with nothing reserved. -/
theorem start_stands (c : Codec) (fields : List Field) (buffer : Buffer) (hb : Beside others 0 h) :
    (start c fields buffer h).1.Stands others (start c fields buffer h).2 := by
  refine ⟨?_, fun _ => rfl, hb.of_pool rfl⟩
  rintro _ ⟨⟩
  rfl

end Reader

end Columnar.Block
