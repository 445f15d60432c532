import Columnar.Proofs.Block.Step

/-!
# Room for blocks

A reader asks for memory when it opens a block, and for nothing else. Where there is room for each
of its blocks besides what others have reserved, no request is refused; then the only errors are
those of corrupt data (`Reader.next_serves`).
-/

namespace Columnar.Block

variable {c : Codec} {sizes : Nat → Prop} {block : Bytes} {buffer : Buffer}

/-- Room besides what others have reserved. -/
theorem Beside.hasRoom {p : Pool} {n : Nat} {h : Host} (hb : Beside (some p) n h)
    (hroom : ∀ m, sizes m → p.reserved + m ≤ p.limit) : Lease.HasRoom sizes ⟨n, h⟩ := by
  intro pool hpool
  obtain rfl : { p with reserved := p.reserved + n } = pool := Option.some.inj (hb.symm.trans hpool)
  refine ⟨Nat.le_add_left _ _, fun m hm => ?_⟩
  rw [Nat.add_sub_cancel]
  exact hroom m hm

/-! ### Opening a block -/

namespace Codec

/-- The requests for memory that are made to open a block are of the given sizes. -/
def Asks (c : Codec) (sizes : Nat → Prop) (block : Bytes) : Prop :=
  match c.compressor with
  | none => sizes block.length
  | some p => sizes ((p.declaredSize? block).getD block.length) ∧
      ∀ stream, p.decode block = .ok stream → sizes stream.length

/-- What is reserved for an open block is the last request. -/
theorem Asks.streamLength_le {n : Nat} (h : c.Asks (· ≤ n) block) : c.streamLength block ≤ n := by
  obtain ⟨_ | p⟩ := c
  · exact h
  · rw [streamLength]
    cases hd : p.decode block with
    | error d => simp [hd]
    | ok stream =>
      simp only [hd]
      exact h.2 stream hd

theorem Asks.holds (h : c.Asks sizes block) {index : Nat} {stream : Bytes}
    (hs : c.streamOf index block = .ok stream) : c.Holds sizes block stream := by
  obtain ⟨_ | p⟩ := c
  · cases hs
    exact ⟨rfl, h⟩
  · have hd : p.decode block = .ok stream := Except.mapError_eq_ok hs
    exact ⟨hd, h.1, h.2 stream hd⟩

end Codec

variable {l : Lease}

private theorem run_decode_of_error (h : c.Asks sizes block) {index : Nat} {o : Obstacle}
    (hs : c.streamOf index block = .error o) (hl : l.HasRoom sizes) :
    ∃ k, decode c index block l = (.error o, k) ∧ k.HasRoom sizes := by
  obtain ⟨_ | p⟩ := c
  · cases hs
  · obtain ⟨k, hk, hroom⟩ := run_reserve hl h.1
    cases hd : p.decode block with
    | ok stream => simp [Codec.streamOf, hd, Except.mapError_ok] at hs
    | error d =>
      obtain rfl : Obstacle.badFrame index p.algorithm d.toError = o := by
        simpa [Codec.streamOf, hd, Except.mapError_error] using hs
      refine ⟨k, ?_, hroom⟩
      have hget : (get : Opening Lease) k = (.ok k, k) := rfl
      refine (ExceptT.bind_of_ok hk).trans ((ExceptT.bind_of_ok hget).trans ?_)
      simp only [Compression.Compressor.decompress, hd]
      rfl

/-- Where there is room for it, nothing but its bytes decides whether a block is opened. -/
private theorem run_openBlock_of_asks (h : c.Asks sizes block) (index : Nat)
    (hl : l.HasRoom sizes) :
    ∃ k, (openBlock c index block).run l = (c.opens index block, k) ∧ k.HasRoom sizes := by
  cases hs : c.streamOf index block with
  | ok stream =>
    obtain ⟨k, hk, hroom⟩ := run_openBlock (h.holds hs) index hl
    refine ⟨k, ?_, hroom⟩
    rw [hk, Codec.opens, hs]
    rfl
  | error o =>
    obtain ⟨k, hk, hroom⟩ := run_decode_of_error h hs hl
    refine ⟨k, ?_, hroom⟩
    rw [Codec.opens, hs]
    exact ExceptT.bind_of_error hk

/-! ### Steps of readers -/

namespace Reader

/-- What a step of a reader comes to where there is room: the reader stays at its buffer, and an
error is one of corrupt data. -/
structure Serves (c : Codec) (buffer : Buffer) (out : Item × Reader × Host) : Prop where
  /-- The codec is the same. -/
  codec_eq : out.2.1.codec = c
  /-- The buffer is the same. -/
  buffer_eq : ∀ p, out.2.1.position = some p → p.buffer = buffer
  /-- An error is one of corrupt data. -/
  kind_eq : ∀ e, out.1 = some (.error e) → e.kind = .corruptData

variable {r : Reader} {p : Position} {h : Host}

private theorem finish_serves {item : Item}
    (hitem : ∀ e, item = some (.error e) → e.kind = .corruptData) :
    Serves r.codec buffer (r.finish p item h) :=
  ⟨rfl, nofun, hitem⟩

/-- A step within a block. -/
private theorem nextAt_serves {s : Stream.Reader} (hroom : Lease.HasRoom sizes ⟨p.reserved, h⟩)
    (hnext : ∀ {q : Position} {h : Host}, q.buffer = p.buffer →
      Lease.HasRoom sizes ⟨q.reserved, h⟩ → Serves r.codec p.buffer (r.nextBlock q p.rest h)) :
    Serves r.codec p.buffer (r.nextAt p s h) := by
  rw [nextAt]
  rcases r.nextInBlock p s with d | _ | ⟨b, t⟩
  · refine finish_serves ?_
    rintro _ ⟨⟩
    exact Defect.kind_toError d
  · refine hnext rfl (hroom.free.of_pool ?_)
    simp only [finishBlock]
    split <;> rfl
  · refine ⟨rfl, ?_, ?_⟩ <;> rintro _ ⟨⟩
    rfl

/-- A step to the next block that has a batch, or is bad. -/
private theorem nextBlock_serves {blocks : List Bytes} (hroom : Lease.HasRoom sizes ⟨p.reserved, h⟩)
    (hasks : ∀ block ∈ blocks, r.codec.Asks sizes block) :
    Serves r.codec p.buffer (r.nextBlock p blocks h) := by
  induction blocks generalizing p h with
  | nil => exact finish_serves nofun
  | cons block rest ih =>
    obtain ⟨hblock, hrest⟩ := List.forall_mem_cons.1 hasks
    obtain ⟨k, hrun, hk⟩ := run_openBlock_of_asks hblock p.visited hroom
    cases ho : r.codec.opens p.visited block with
    | error o =>
      rw [ho] at hrun
      simp only [nextBlock, hrun]
      refine finish_serves ?_
      rintro _ ⟨⟩
      exact Codec.kind_of_opens ho
    | ok s =>
      rw [ho] at hrun
      rw [nextBlock_of_ok rest hrun]
      refine nextAt_serves (p := ⟨p.buffer, p.visited + 1, rest, some s, k.reserved⟩)
        (hk.of_pool ?_) fun hbuffer hroom => ?_
      · split <;> rfl
      · exact hbuffer ▸ ih hroom hrest

/-- **Steps of readers that have room** for each block of their buffer. -/
theorem next_serves (hroom : Lease.HasRoom sizes ⟨r.reserved, h⟩)
    (hrest : ∀ p, r.position = some p → p.rest = p.buffer.blocks.drop p.visited)
    (hcodec : r.codec = c) (hbuffer : ∀ p, r.position = some p → p.buffer = buffer)
    (hasks : ∀ block ∈ buffer.blocks, c.Asks sizes block) : Serves c buffer (r.next h) := by
  subst hcodec
  cases hp : r.position with
  | none =>
    rw [next_of_closed hp]
    refine ⟨rfl, fun p hp' => ?_, nofun⟩
    rw [hp] at hp'
    cases hp'
  | some p =>
    obtain rfl := hbuffer p hp
    have hasks (block : Bytes) (hmem : block ∈ p.rest) : r.codec.Asks sizes block := by
      rw [hrest p hp] at hmem
      exact hasks block (List.mem_of_mem_drop hmem)
    rw [reserved, hp] at hroom
    cases hcurrent : p.current with
    | none =>
      rw [next_of_between hp hcurrent]
      exact nextBlock_serves hroom hasks
    | some s =>
      rw [next_of_within hp hcurrent]
      exact nextAt_serves hroom fun hbuffer hroom => hbuffer ▸ nextBlock_serves hroom hasks

end Reader

end Columnar.Block
