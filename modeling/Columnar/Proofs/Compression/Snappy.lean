import Columnar.Proofs.Compression.SnappyFormat

/-!
# Snappy streams that are written

What is written is a stream of the format, with the content it was written for
(`isStream_compress`). So it is read back (`decompress_compress`).
-/

namespace Columnar.Compression.Snappy

/-! ### Lengths of blocks -/

/-- The length of a block is written as the format has it. -/
private theorem isVarint_ofVarint (n : Nat) : IsVarint (ofVarint n) n := by
  induction n using ofVarint.induct with
  | case1 n hn =>
    have hnat : (UInt8.ofNat n).toNat = n := UInt8.toNat_ofNat_of_lt' (show _ < 256 by omega)
    have hlast : IsVarint [UInt8.ofNat n] (UInt8.ofNat n).toNat :=
      .last (UInt8.lt_iff_toNat_lt.2 (by rwa [hnat]))
    rw [ofVarint, if_pos hn]
    rwa [hnat] at hlast
  | case2 n hn ih =>
    have hnat : (UInt8.ofNat (128 + n % 128)).toNat = 128 + n % 128 :=
      UInt8.toNat_ofNat_of_lt' (show _ < 256 by omega)
    have hmarked : ¬UInt8.ofNat (128 + n % 128) < 128 := by
      rw [UInt8.lt_iff_toNat_lt, hnat]
      exact Nat.not_lt.2 (Nat.le_add_right _ _)
    have hmore := IsVarint.more hmarked ih
    have hn' : (UInt8.ofNat (128 + n % 128)).toNat % 128 + 128 * (n / 128) = n := by
      rw [hnat]
      omega
    rw [ofVarint, if_neg hn]
    rwa [hn'] at hmore

/-- A group holds seven bits. -/
private theorem length_ofVarint_le {n groups : Nat} (h : n < 128 ^ (groups + 1)) :
    (ofVarint n).length ≤ groups + 1 := by
  induction groups generalizing n with
  | zero => rw [ofVarint, if_pos h]; exact Nat.le_refl 1
  | succ groups ih =>
    rw [ofVarint]
    split
    · exact Nat.succ_le_succ (Nat.zero_le _)
    · rw [List.length_cons]
      exact Nat.succ_le_succ (ih (Nat.div_lt_of_lt_mul (by rwa [← Nat.pow_succ'])))

/-! ### Elements -/

/-- Literals are one element. -/
private theorem isElement_ofLiterals {b : Bytes} (hne : b ≠ []) (hb : b.length ≤ maxChunk) :
    IsElement (ofLiterals b) (.literal b) := by
  have hpos := List.length_pos_iff.2 hne
  have hempty : b.isEmpty = false := by simpa using hne
  rw [ofLiterals, hempty, if_neg (by decide)]
  split
  · -- The length stands in the tag.
    next hshort =>
    have hnat : (UInt8.ofNat (4 * (b.length - 1))).toNat = 4 * (b.length - 1) :=
      UInt8.toNat_ofNat_of_lt' (show _ < 256 by omega)
    exact .short (by omega) (by omega) (by omega)
  · -- The length stands in two bytes after the tag.
    have hsize : Bytes.toNat (Bytes.ofNat 2 (b.length - 1)) = b.length - 1 :=
      Bytes.toNat_ofNat_of_lt (by simp only [maxChunk] at hb; omega)
    exact .long rfl (by rw [Bytes.length_ofNat]; rfl) (by rw [Bytes.length_ofNat]; decide)
      (by omega)

/-- At most 64 copies of the byte before are one element. -/
private theorem isElement_copies {n : Nat} (hn : n < 64) :
    IsElement [UInt8.ofNat (4 * n + 2), 1, 0] (.copy 1 (n + 1)) := by
  have hnat : (UInt8.ofNat (4 * n + 2)).toNat = 4 * n + 2 :=
    UInt8.toNat_ofNat_of_lt' (show _ < 256 by omega)
  have helement := @IsElement.far (UInt8.ofNat (4 * n + 2)) [1, 0] (.inl ⟨by omega, rfl⟩)
  have hlength : (4 * n + 2) / 4 = n := by omega
  rwa [hnat, hlength] at helement

section Segments

variable {before rest content : Bytes}

private theorem holds_ofLiterals {b : Bytes} (hb : b.length ≤ maxChunk)
    (hrest : Holds (before ++ b) rest content) :
    Holds before (ofLiterals b ++ rest) (b ++ content) := by
  by_cases hne : b = []
  · subst hne
    rwa [List.append_nil] at hrest
  · exact .literal (isElement_ofLiterals hne hb) hrest

private theorem getLast?_append_replicate {c : UInt8} (h : before.getLast? = some c) (n : Nat) :
    (before ++ List.replicate n c).getLast? = some c := by
  rw [List.getLast?_append, h, List.getLast?_replicate]
  split <;> rfl

private theorem holds_copies {c : UInt8} {n : Nat} (hn : n < 64) (hlast : before.getLast? = some c)
    (hrest : Holds (before ++ List.replicate (n + 1) c) rest content) :
    Holds before ([UInt8.ofNat (4 * n + 2), 1, 0] ++ rest) (List.replicate (n + 1) c ++ content) :=
  .copy (by rw [List.length_replicate]; exact isElement_copies hn) (.replicate hlast _) hrest

/-- As many copies as an element can have, over and over. -/
private theorem holds_fullCopies {c : UInt8} (k : Nat) (hlast : before.getLast? = some c)
    (hrest : Holds (before ++ List.replicate (64 * k) c) rest content) :
    Holds before ((List.replicate k [0xFE, 1, 0]).flatten ++ rest)
      (List.replicate (64 * k) c ++ content) := by
  induction k generalizing before with
  | zero => simpa using hrest
  | succ k ih =>
    have hsplit : List.replicate (64 * (k + 1)) c =
        List.replicate 64 c ++ List.replicate (64 * k) c := by
      rw [List.replicate_append_replicate, Nat.mul_succ, Nat.add_comm]
    rw [hsplit, ← List.append_assoc] at hrest
    rw [hsplit, List.replicate_succ, List.flatten_cons, List.append_assoc, List.append_assoc]
    exact holds_copies (by decide) hlast (ih (getLast?_append_replicate hlast 64) hrest)

/-- Any number of copies repeats the last byte as often. -/
private theorem holds_ofCopies {c : UInt8} (n : Nat) (hlast : before.getLast? = some c)
    (hrest : Holds (before ++ List.replicate n c) rest content) :
    Holds before (ofCopies n ++ rest) (List.replicate n c ++ content) := by
  cases n with
  | zero => rwa [List.replicate_zero, List.append_nil] at hrest
  | succ n =>
    have hsplit : List.replicate (n + 1) c =
        List.replicate (64 * (n / 64)) c ++ List.replicate (n % 64 + 1) c := by
      rw [List.replicate_append_replicate, ← Nat.add_assoc, Nat.div_add_mod]
    rw [hsplit, ← List.append_assoc] at hrest
    rw [hsplit, ofCopies, List.append_assoc, List.append_assoc]
    exact holds_fullCopies _ hlast (holds_copies (Nat.mod_lt n (by decide))
      (getLast?_append_replicate hlast _) hrest)

/-- A segment is its literals and its copies. -/
private theorem holds_ofSegment {s : Segment} (hs : s.copies = 0 ∨ s.literals ≠ [])
    (hb : s.literals.length ≤ maxChunk) (hrest : Holds (before ++ s.expand) rest content) :
    Holds before (ofLiterals s.literals ++ ofCopies s.copies ++ rest) (s.expand ++ content) := by
  rw [List.append_assoc]
  by_cases hne : s.literals = []
  · -- Then there are no copies either.
    obtain ⟨literals, copies⟩ := s
    obtain rfl : literals = [] := hne
    obtain rfl : copies = 0 := hs.resolve_right (not_not_intro rfl)
    rwa [Segment.expand_of_no_copies, List.append_nil] at hrest
  · obtain ⟨c, hlast, hexpand⟩ := Segment.exists_expand_eq hne
    rw [hexpand, ← List.append_assoc] at hrest
    rw [hexpand, List.append_assoc]
    refine holds_ofLiterals hb (holds_ofCopies _ ?_ hrest)
    rw [List.getLast?_append, hlast]
    rfl

/-- Segments are elements one after the other. -/
private theorem holds_flatMap_ofSegment {parts : List Segment}
    (h : ∀ s ∈ parts, (s.copies = 0 ∨ s.literals ≠ []) ∧ s.literals.length ≤ maxChunk)
    (hrest : Holds (before ++ parts.flatMap Segment.expand) rest content) :
    Holds before ((parts.flatMap fun s => ofLiterals s.literals ++ ofCopies s.copies) ++ rest)
      (parts.flatMap Segment.expand ++ content) := by
  induction parts generalizing before with
  | nil => simpa using hrest
  | cons s parts ih =>
    obtain ⟨hs, hb⟩ := h s List.mem_cons_self
    rw [List.flatMap_cons, List.flatMap_cons, List.append_assoc s.expand,
      List.append_assoc (ofLiterals s.literals ++ ofCopies s.copies)]
    rw [List.flatMap_cons, ← List.append_assoc] at hrest
    exact holds_ofSegment hs hb (ih (fun s hs => h s (List.mem_cons_of_mem _ hs)) hrest)

end Segments

/-- **Blocks.** A block that is written has the content it was written for. -/
theorem isBlock_block {b : Bytes} (h : b.length ≤ maxChunk) : IsBlock (block b) b := by
  have hexpand := flatMap_expand_segments minCopies b
  have hparts : ∀ s ∈ segments minCopies b,
      (s.copies = 0 ∨ s.literals ≠ []) ∧ s.literals.length ≤ maxChunk := fun s hs => by
    -- A segment is no longer than the block, and so it has few enough literals.
    have hsub : s.expand.length ≤ b.length := by
      rw [← congrArg List.length hexpand]
      exact (List.sublist_flatten_of_mem (List.mem_map_of_mem hs)).length_le
    exact ⟨copies_or_literals_of_mem_segments hs,
      Nat.le_trans s.length_literals_le (Nat.le_trans hsub h)⟩
  have hholds := holds_flatMap_ofSegment hparts (@Holds.done ([] ++ _))
  rw [hexpand, List.append_nil, List.append_nil] at hholds
  have hgroups : (ofVarint b.length).length ≤ maxGroups :=
    length_ofVarint_le (Nat.lt_of_le_of_lt h (by decide))
  exact .mk hgroups (isVarint_ofVarint _) h hholds

/-! ### Chunks -/

/-- A data chunk has the content it was written for. -/
private theorem isChunk_dataChunk {b : Bytes} (h : b.length ≤ maxChunk) :
    ∃ type body, dataChunk b = chunk type body ∧ body.length ≤ maxChunkLength ∧
      IsChunk type body b := by
  have hmax : b.length ≤ 65536 := h
  rw [dataChunk]
  -- The chunk holds a block where that is shorter, and else the bytes themselves.
  split
  · refine ⟨0, _, rfl, ?_, .packed (isBlock_block h)⟩
    simp only [List.length_append, Bytes.length_ofNat, maxChunkLength]
    omega
  · refine ⟨1, _, rfl, ?_, .plain h⟩
    simp only [List.length_append, Bytes.length_ofNat, maxChunkLength]
    omega

private theorem areChunks_flatMap_dataChunk {contents : List Bytes}
    (h : ∀ b ∈ contents, b.length ≤ maxChunk) :
    AreChunks false (contents.flatMap dataChunk) contents := by
  induction contents with
  | nil => exact .nil
  | cons b contents ih =>
    obtain ⟨type, body, hchunk, hbody, hb⟩ := isChunk_dataChunk (h b List.mem_cons_self)
    rw [List.flatMap_cons, hchunk]
    exact .cons nofun hbody hb (ih fun c hc => h c (List.mem_cons_of_mem _ hc))

/-! ### Streams -/

/-- The pieces of a byte string make up the byte string. -/
private theorem flatten_pieces {size steps : Nat} {b : Bytes} (hsize : 0 < size)
    (h : b.length ≤ steps) :
    (pieces size steps b).flatten = b := by
  induction steps generalizing b with
  | zero => exact (List.length_eq_zero_iff.1 (Nat.le_zero.1 h)).symm
  | succ steps ih =>
    rw [pieces]
    split
    · next hempty => exact (List.isEmpty_iff.1 hempty).symm
    · next hempty =>
      have hpos : 0 < b.length := by
        rw [List.isEmpty_iff] at hempty
        exact List.length_pos_iff.2 hempty
      rw [List.flatten_cons, ih (by rw [List.length_drop]; omega), List.take_append_drop]

private theorem length_of_mem_pieces {size steps : Nat} {b : Bytes} :
    ∀ p ∈ pieces size steps b, p.length ≤ size := by
  induction steps generalizing b with
  | zero => exact nofun
  | succ steps ih =>
    rw [pieces]
    split
    · exact nofun
    · intro p hp
      rcases List.mem_cons.1 hp with rfl | hp
      · exact List.length_take_le _ _
      · exact ih p hp

/-- **Streams.** What is written is a stream with the content it was written for. -/
theorem isStream_compress (b : Bytes) : IsStream (compress b) b := by
  rw [compress]
  split
  · -- Without content not even the identifier is written.
    next hempty => exact ⟨[], .nil, List.isEmpty_iff.1 hempty⟩
  · refine ⟨[] :: pieces maxChunk b.length b, ?_, ?_⟩
    · exact .cons (fun _ => rfl) (by decide) .identifier
        (areChunks_flatMap_dataChunk length_of_mem_pieces)
    · rw [List.flatten_cons, flatten_pieces (by decide) (Nat.le_refl _)]
      rfl

/-- **Streams read back.** -/
theorem decompress_compress (b : Bytes) : decompress (compress b) = .ok b :=
  decompress_eq_ok_iff.2 (isStream_compress b)

end Columnar.Compression.Snappy
