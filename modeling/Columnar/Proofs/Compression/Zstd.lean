import Columnar.Compression.Zstd.Frame
import Columnar.Proofs.Bytes
import Columnar.Proofs.Compression.Runs

/-!
# Zstandard frames read back

A frame that was written has the content it was written for (`decompress_compress`). Such a frame
does not declare its length, so that it is written out in turns through a buffer; it has plain and
repeated blocks only. What is to be kept in mind from block to block is that the buffer has room for
another one (`HasRoom`): a new turn begins as soon as it has not.
-/

namespace Columnar.Compression.Zstd

/-! ### Heads -/

private theorem cut_append {n : Nat} {front : Bytes} (rest : Bytes) (h : front.length = n) :
    cut n (front ++ rest) = .ok (front, rest) := by
  rw [cut, Bytes.splitAt?_append_of_eq rest h]

/-- The head of the frames that are written. -/
def writtenFrame : FrameHead where
  window := 2 ^ 17
  contentSize := none
  hasChecksum := false

/-- The head of a frame reads back. -/
private theorem read_writtenHead (rest : Bytes) :
    FrameHead.read (writtenHead ++ rest) = .ok (writtenFrame, rest) := by
  cases rest <;> rfl

/-- The head of a block reads back. -/
private theorem read_blockHead {isLast : Bool} {kind size : Nat} (hkind : kind < 4)
    (hsize : size ≤ maxBlock) (rest : Bytes) :
    BlockHead.read (blockHead isLast kind size ++ rest) = .ok (⟨isLast, kind, size⟩, rest) := by
  have hlast : isLast.toNat < 2 := Bool.toNat_lt isLast
  simp only [maxBlock] at hsize
  have hcut : cut 3 (blockHead isLast kind size ++ rest) = .ok (blockHead isLast kind size, rest) :=
    cut_append rest (Bytes.length_ofNat 3 _)
  have hnat : Bytes.toNat (blockHead isLast kind size) = 8 * size + 2 * kind + isLast.toNat :=
    Bytes.toNat_ofNat_of_lt (by omega)
  have hmod : (8 * size + 2 * kind + isLast.toNat) % 2 = isLast.toNat := by omega
  have hdiv : (8 * size + 2 * kind + isLast.toNat) / 2 % 4 = kind := by omega
  have hhigh : (8 * size + 2 * kind + isLast.toNat) / 8 = size := by omega
  rw [BlockHead.read, hcut]
  simp only [bind, Except.bind, hnat, hmod, hdiv, hhigh]
  cases isLast <;> rfl

/-! ### Turns -/

/-- The size of the buffer that the frames are written out through. -/
def writtenBuffer : Nat := writtenFrame.buffers.output

/-- How the frames are written out. -/
def writtenOutput : Output := .inTurns writtenBuffer

/-- The buffer has room for another block. -/
def HasRoom (s : FrameState) : Prop :=
  s.history.written + maxBlock ≤ writtenBuffer

/-- A turn begins as soon as the buffer has no room, so that a block always finds some. -/
private theorem hasRoom_turned (s : FrameState) :
    HasRoom (s.turned writtenFrame writtenOutput) := by
  have hlimit : writtenFrame.blockLimit = maxBlock := rfl
  have hnone : writtenFrame.contentSize = none := rfl
  simp only [FrameState.turned, writtenOutput, hlimit, hnone, Bool.false_or, decide_eq_true_eq]
  split
  · next hroom => exact hroom
  · have hzero : s.history.nextTurn.written = 0 := Nat.sub_self s.history.size
    rw [HasRoom, hzero]
    decide

/-- A turn does not change the content. -/
private theorem content_turned (s : FrameState) :
    (s.turned writtenFrame writtenOutput).history.content = s.history.content := by
  simp only [FrameState.turned, writtenOutput]
  split
  · split <;> rfl
  · split <;> rfl

/-! ### Blocks -/

/-- Reading goes on behind the bytes `w` with `c` as further content. -/
def Adds (w c : Bytes) : Prop :=
  ∀ (rest : Bytes) (steps : Nat) (s : FrameState), (w ++ rest).length ≤ steps → HasRoom s →
    ∃ left t, rest.length ≤ left ∧ HasRoom t ∧
      t.history.content.toList = s.history.content.toList ++ c ∧
      FrameState.addBlocks writtenFrame writtenOutput steps s (w ++ rest) =
        FrameState.addBlocks writtenFrame writtenOutput left t rest

namespace Adds

theorem nil : Adds [] [] := fun _ steps s hsteps hs =>
  ⟨steps, s, hsteps, hs, (List.append_nil _).symm, rfl⟩

/-- Blocks that stand one after the other add their contents one after the other. -/
theorem append {v w c d : Bytes} (hv : Adds v c) (hw : Adds w d) : Adds (v ++ w) (c ++ d) := by
  intro rest steps s hsteps hs
  rw [List.append_assoc] at hsteps ⊢
  obtain ⟨k, t, hk, ht, hc, hfirst⟩ := hv (w ++ rest) steps s hsteps hs
  obtain ⟨left, u, hleft, hu, hd, hsecond⟩ := hw rest k t hk ht
  exact ⟨left, u, hleft, hu, by rw [hd, hc, List.append_assoc], by rw [hfirst, hsecond]⟩

theorem flatMap {α : Type} {form content : α → Bytes} {items : List α}
    (h : ∀ a ∈ items, Adds (form a) (content a)) :
    Adds (items.flatMap form) (items.flatMap content) := by
  induction items with
  | nil => exact nil
  | cons a items ih =>
    exact (h a List.mem_cons_self).append (ih fun c hc => h c (List.mem_cons_of_mem _ hc))

end Adds

/-- A block that appends its content to the history. -/
private theorem adds_block {kind size : Nat} {body c : Bytes} (hkind : kind < 4)
    (hsize : size ≤ maxBlock) (h : ∀ (s : FrameState) (rest : Bytes), HasRoom s →
      s.addBlock writtenOutput writtenFrame.blockLimit ⟨false, kind, size⟩ (body ++ rest) =
        .ok ({ s with history := s.history.append c.toArray }, rest)) :
    Adds (blockHead false kind size ++ body) c := by
  intro rest steps s hsteps hs
  cases steps with
  | zero => simp [blockHead, Bytes.ofNat] at hsteps
  | succ steps =>
    -- The state after the block, before a new turn may begin.
    let t : FrameState := { s with history := s.history.append c.toArray }
    refine ⟨steps, t.turned writtenFrame writtenOutput, ?_, hasRoom_turned t, ?_, ?_⟩
    · simp only [blockHead, List.length_append, Bytes.length_ofNat] at hsteps
      omega
    · rw [content_turned]
      simp [t, History.append]
    · rw [List.append_assoc, FrameState.addBlocks, read_blockHead hkind hsize]
      simp only [h s rest hs]
      rfl

/-- A plain or repeated block is not too large. -/
private theorem not_plainLimit_lt {s : FrameState} (hs : HasRoom s) {size : Nat}
    (h : size ≤ maxBlock) :
    ¬writtenOutput.plainLimit writtenFrame.blockLimit s.history < size := by
  have hlimit : writtenFrame.blockLimit = maxBlock := rfl
  simp only [Output.plainLimit, Output.room, writtenOutput, hlimit]
  simp only [HasRoom] at hs
  omega

/-- A plain block adds its bytes. -/
private theorem adds_plain {b : Bytes} (hb : b.length ≤ maxBlock) :
    Adds (blockHead false 0 b.length ++ b) b := by
  refine adds_block (by decide) hb fun s rest hs => ?_
  have hcut : cut b.length (b ++ rest) = .ok (b, rest) := cut_append rest rfl
  have hstored : (BlockHead.mk false 0 b.length).stored = b.length := rfl
  rw [FrameState.addBlock, hstored, hcut]
  simp only [bind, Except.bind, if_neg (not_plainLimit_lt hs hb)]
  rfl

/-- A block of one byte adds as many copies of it as it says. -/
private theorem adds_repeated {n : Nat} (hn : n ≤ maxBlock) (b : UInt8) :
    Adds (blockHead false 1 n ++ [b]) (List.replicate n b) := by
  refine adds_block (by decide) hn fun s rest hs => ?_
  have hcut : cut 1 ([b] ++ rest) = .ok ([b], rest) := cut_append rest rfl
  have hstored : (BlockHead.mk false 1 n).stored = 1 := rfl
  rw [FrameState.addBlock, hstored, hcut]
  simp only [bind, Except.bind, if_neg (not_plainLimit_lt hs hn), List.headD_cons,
    List.toArray_replicate]
  rfl

/-! ### Segments -/

/-- A byte string that is cut into plain blocks is added as a whole. -/
private theorem adds_plainBlocks {steps : Nat} {b : Bytes} (h : b.length ≤ steps) :
    Adds (plainBlocks maxBlock steps b) b := by
  induction steps generalizing b with
  | zero =>
    obtain rfl := List.length_eq_zero_iff.1 (Nat.le_zero.1 h)
    exact Adds.nil
  | succ steps ih =>
    rw [plainBlocks]
    split
    · next hempty =>
      obtain rfl := List.isEmpty_iff.1 hempty
      exact Adds.nil
    · next hempty =>
      have hpos : 0 < b.length := by
        rw [List.isEmpty_iff] at hempty
        exact List.length_pos_iff.2 hempty
      have hlimit : 0 < maxBlock := by decide
      have hrest := ih (b := b.drop maxBlock) (by rw [List.length_drop]; omega)
      have hfirst := adds_plain (b := b.take maxBlock) (List.length_take_le _ _)
      conv => rhs; rw [← List.take_append_drop maxBlock b]
      exact hfirst.append hrest

private theorem length_of_mem_parts {limit steps n : Nat} :
    ∀ k ∈ parts limit steps n, k ≤ limit := by
  induction steps generalizing n with
  | zero => exact nofun
  | succ steps ih =>
    rw [parts]
    split
    · exact nofun
    · intro k hk
      rcases List.mem_cons.1 hk with rfl | hk
      · exact Nat.min_le_right _ _
      · exact ih k hk

private theorem flatMap_replicate_parts {limit steps n : Nat} (hl : 0 < limit) (h : n ≤ steps)
    (b : UInt8) :
    (parts limit steps n).flatMap (fun k => List.replicate k b) = List.replicate n b := by
  induction steps generalizing n with
  | zero =>
    obtain rfl := Nat.le_zero.1 h
    rfl
  | succ steps ih =>
    rw [parts]
    split
    · next hzero =>
      subst hzero
      rfl
    · have hsum : min n limit + (n - limit) = n := by omega
      rw [List.flatMap_cons, ih (by omega), List.replicate_append_replicate, hsum]

/-- A run that is cut into blocks of one byte is added as a whole. -/
private theorem adds_repeatedBlocks (n : Nat) (b : UInt8) :
    Adds (repeatedBlocks maxBlock n b) (List.replicate n b) := by
  have hall : Adds (repeatedBlocks maxBlock n b)
      ((parts maxBlock n n).flatMap fun k => List.replicate k b) :=
    Adds.flatMap fun k hk => adds_repeated (length_of_mem_parts k hk) b
  rwa [flatMap_replicate_parts (by decide) (Nat.le_refl n)] at hall

/-- The bytes of a segment have its content. -/
private theorem adds_ofSegment {s : Segment} (h : s.copies = 0 ∨ s.literals ≠ []) :
    Adds (ofSegment s) s.expand := by
  have hplain : Adds (plainBlocks maxBlock s.literals.length s.literals) s.literals :=
    adds_plainBlocks (Nat.le_refl _)
  rw [ofSegment, Segment.expand]
  split
  · next b hb =>
    rw [List.getLastD_eq_getLast?, hb, Option.getD_some]
    exact hplain.append (adds_repeatedBlocks s.copies b)
  · next hnone =>
    have hempty := List.getLast?_eq_none_iff.1 hnone
    have hzero : s.copies = 0 := h.resolve_right (not_not_intro hempty)
    rw [hempty, hzero]
    exact Adds.nil

private theorem adds_segments (b : Bytes) : Adds ((segments minCopies b).flatMap ofSegment) b := by
  conv => rhs; rw [← flatMap_expand_segments minCopies b]
  exact Adds.flatMap fun s hs => adds_ofSegment (copies_or_literals_of_mem_segments hs)

/-! ### Frames -/

/-- The last block is empty, and ends the frame. -/
private theorem addBlocks_last {s : FrameState} (hs : HasRoom s) (steps : Nat) :
    ∃ t, FrameState.addBlocks writtenFrame writtenOutput (steps + 1) s (blockHead true 0 0) =
        .ok (t, []) ∧ t.history.content.toList = s.history.content.toList := by
  have hread : BlockHead.read (blockHead true 0 0) = .ok (⟨true, 0, 0⟩, []) := rfl
  have hcut : cut (BlockHead.mk true 0 0).stored [] = .ok ([], []) := rfl
  have hadd : s.addBlock writtenOutput writtenFrame.blockLimit ⟨true, 0, 0⟩ [] =
      .ok ({ s with history := s.history.append #[] }, []) := by
    rw [FrameState.addBlock, hcut]
    simp only [bind, Except.bind, if_neg (not_plainLimit_lt hs (Nat.zero_le _))]
    rfl
  refine ⟨{ s with history := s.history.append #[] }, ?_, by simp [History.append]⟩
  rw [FrameState.addBlocks, hread]
  simp only [hadd]
  rfl

/-- The frame is written out in turns. -/
private theorem output_writtenFrame (place headSize : Nat) (b : Bytes) :
    ∃ buffers, writtenFrame.output place headSize b .none = .ok (writtenOutput, buffers) :=
  ⟨_, rfl⟩

/-- A frame that was written gives back its content and leaves nothing behind it. -/
theorem readFrame_compress (place : Nat) (b : Bytes) :
    ∃ buffers, readFrame place .none
        (writtenHead ++ ((segments minCopies b).flatMap ofSegment ++ blockHead true 0 0)) =
      .ok (b, buffers, []) := by
  -- The segments first, and then the last block, for which at least one step is left.
  obtain ⟨left, s, hleft, hs, hcontent, hblocks⟩ := adds_segments b (blockHead true 0 0) _ .initial
    (Nat.le_refl _) (by decide : 0 + maxBlock ≤ writtenBuffer)
  obtain ⟨steps, rfl⟩ := Nat.exists_eq_add_of_le' (Nat.le_trans (by decide : 1 ≤ 3) hleft)
  obtain ⟨t, hlast, ht⟩ := addBlocks_last hs steps
  generalize (segments minCopies b).flatMap ofSegment ++ blockHead true 0 0 = blocks at hblocks ⊢
  obtain ⟨buffers, houtput⟩ := output_writtenFrame place
    (4 + (writtenHead ++ blocks).length - blocks.length) blocks
  have hb : t.history.content.toList = b := ht.trans hcontent
  refine ⟨buffers, ?_⟩
  rw [readFrame, read_writtenHead]
  simp only [bind, Except.bind, houtput, hblocks, hlast, hb]
  rfl

/-- **Frames read back.** -/
theorem decompress_compress (b : Bytes) : decompress (compress b) = .ok b := by
  obtain ⟨blocks, hblocks⟩ : ∃ blocks,
      (segments minCopies b).flatMap ofSegment ++ blockHead true 0 0 = blocks := ⟨_, rfl⟩
  have hform : compress b = Bytes.ofNat 4 magic ++ (writtenHead ++ blocks) := by
    rw [compress, ← hblocks]
    simp only [List.append_assoc]
  have hcut : cut 4 (Bytes.ofNat 4 magic ++ (writtenHead ++ blocks)) =
      .ok (Bytes.ofNat 4 magic, writtenHead ++ blocks) := cut_append _ (Bytes.length_ofNat 4 _)
  have hmagic : Bytes.toNat (Bytes.ofNat 4 magic) = magic := Bytes.toNat_ofNat_of_lt (by decide)
  obtain ⟨buffers, hframe⟩ := readFrame_compress 0 b
  rw [hblocks] at hframe
  have hany : readAnyFrame 0 .none (compress b) = .ok (b, buffers, []) := by
    rw [hform, readAnyFrame, hcut]
    simp only [bind, Except.bind, hmagic, if_true, hframe]
  obtain ⟨steps, hsteps⟩ : ∃ steps, (compress b).length = steps + 1 := by
    rw [hform, List.length_append, Bytes.length_ofNat]
    exact ⟨3 + (writtenHead ++ blocks).length, by omega⟩
  rw [decompress, hsteps, readFrames, hsteps, Nat.sub_self, hany]
  simp [Except.map]

end Columnar.Compression.Zstd
