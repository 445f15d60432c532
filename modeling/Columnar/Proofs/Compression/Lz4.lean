import Columnar.Compression.Lz4
import Columnar.Proofs.Bytes
import Columnar.Proofs.Compression.Runs
import Columnar.Proofs.Except

/-!
# LZ4 blocks and frames

`Holds` is the format of blocks, as a relation between a block and its content that mentions neither
a reader nor a limit. The reader accepts exactly the blocks that have a content, and returns it, as
long as it is not longer than declared (`decompress_eq_ok_iff`). A byte of a block stands for at
most 255 bytes: one of a long length stands for that many, and all others for fewer
(`Holds.length_le`).

A block that is written here holds what it was written for (`holds_block`), so that frames read back
(`decompress_compress`), if the length of the content fits its four bytes.
-/

namespace Columnar.Compression.Lz4

/-! ### The format -/

/-- A length is half of a token, or that is 15 and there are further bytes: some of 255 and a last
one below, which are added up. -/
inductive IsLength : (half : Nat) → Bytes → Nat → Prop
  /-- The half of the token is the length. -/
  | short {half : Nat} (h : half ≠ 15) : IsLength half [] half
  /-- There are further bytes. -/
  | long (k : Nat) {last : UInt8} (h : last ≠ 255) :
    IsLength 15 (List.replicate k 255 ++ [last]) (15 + 255 * k + last.toNat)

/-- Bytes that are copied from some content: each of them is the one at a distance before it, which
may be one of them. -/
structure IsCopy (offset : Nat) (content copied : Bytes) : Prop where
  /-- There is a distance. -/
  offset_pos : 0 < offset
  /-- The first byte is from the content. -/
  offset_le : offset ≤ content.length
  /-- Each byte is the one before it. -/
  getElem?_eq : ∀ i < copied.length,
    copied[i]? = (content ++ copied)[content.length + i - offset]?

/-- A block holds some content, which comes after other content. -/
inductive Holds : (before block content : Bytes) → Prop
  /-- The last sequence has literals only. -/
  | last {before literals more : Bytes} {token : UInt8}
    (hliterals : IsLength (token.toNat / 16) more literals.length) :
    Holds before (token :: (more ++ literals)) literals
  /-- After the literals come some bytes that are copied, at least four, and further sequences. -/
  | sequence {before literals more copied more' rest content : Bytes} {token low high : UInt8}
    {n : Nat} (hliterals : IsLength (token.toNat / 16) more literals.length)
    (hcopied : IsLength (token.toNat % 16) more' n) (hn : copied.length = n + minMatch)
    (hcopy : IsCopy (low.toNat + 256 * high.toNat) (before ++ literals) copied)
    (hrest : Holds (before ++ literals ++ copied) rest content) :
    Holds before (token :: (more ++ (literals ++ low :: high :: (more' ++ rest))))
      (literals ++ copied ++ content)

/-! ### Sizes -/

/-- A further byte adds at most 255 to a length. -/
theorem IsLength.le {half n : Nat} {more : Bytes} (h : IsLength half more n) (hhalf : half ≤ 15) :
    n ≤ 15 + 255 * more.length := by
  cases h with
  | short => omega
  | long k hlast =>
    rename_i last
    have hlt := last.toNat_lt
    rw [List.length_append, List.length_replicate, List.length_singleton]
    omega

/-- **Expansion.** A byte of a block stands for at most 255 bytes. -/
theorem Holds.length_le {before block content : Bytes} (h : Holds before block content) :
    content.length ≤ 255 * block.length := by
  induction h with
  | last =>
    simp only [List.length_cons, List.length_append]
    omega
  | sequence hliterals hcopied hn hcopy hrest ih =>
    have hle := hcopied.le (Nat.le_of_lt_succ (Nat.mod_lt _ (by decide)))
    simp only [minMatch] at hn
    simp only [List.length_cons, List.length_append]
    omega

/-! ### Lengths -/

/-- Bytes of 255 and a last one below are added up. -/
private theorem longLength?_replicate (k n : Nat) {last : UInt8} (h : last ≠ 255) (rest : Bytes) :
    longLength? n (List.replicate k 255 ++ last :: rest) =
      some (n + 255 * k + last.toNat, rest) := by
  induction k generalizing n with
  | zero => rw [List.replicate_zero, List.nil_append, longLength?, if_neg h]; rfl
  | succ k ih =>
    rw [List.replicate_succ, List.cons_append, longLength?, if_pos rfl, ih]
    congr 2
    omega

private theorem eq_of_longLength? {n m : Nat} {b rest : Bytes}
    (h : longLength? n b = some (m, rest)) :
    ∃ k last, last ≠ 255 ∧ b = List.replicate k 255 ++ last :: rest ∧
      m = n + 255 * k + last.toNat := by
  induction b generalizing n with
  | nil => cases h
  | cons x b ih =>
    rw [longLength?] at h
    split at h
    · next hx =>
      obtain ⟨k, last, hlast, rfl, rfl⟩ := ih h
      refine ⟨k + 1, last, hlast, ?_, by omega⟩
      rw [hx, List.replicate_succ, List.cons_append]
    · next hx =>
      cases h
      exact ⟨0, x, hx, rfl, rfl⟩

/-- A length is read from the bytes that make it up. -/
theorem length?_eq_some_iff {half n : Nat} {b rest : Bytes} :
    length? half b = some (n, rest) ↔ ∃ more, b = more ++ rest ∧ IsLength half more n := by
  rw [length?]
  constructor
  · intro h
    split at h
    · next hhalf =>
      obtain ⟨k, last, hlast, rfl, rfl⟩ := eq_of_longLength? h
      exact ⟨_, List.append_cons .., hhalf ▸ .long k hlast⟩
    · next hhalf =>
      cases h
      exact ⟨[], rfl, .short hhalf⟩
  · rintro ⟨more, rfl, hlength⟩
    cases hlength with
    | short hhalf => rw [if_neg hhalf]; rfl
    | long k hlast => rw [if_pos rfl, ← List.append_cons, longLength?_replicate k 15 hlast]

/-! ### Copies -/

section Copies

variable {offset : Nat} {content copied copied' : Bytes}

/-- A byte is copied, and then the others. -/
theorem IsCopy.cons {b : UInt8} (hle : offset ≤ content.length)
    (hb : content[content.length - offset]? = some b) (h : IsCopy offset (content ++ [b]) copied) :
    IsCopy offset content (b :: copied) := by
  refine ⟨h.offset_pos, hle, fun i hi => ?_⟩
  have hpos := h.offset_pos
  cases i with
  | zero => rw [Nat.add_zero, List.getElem?_append_left (by omega), hb]; rfl
  | succ i =>
    have hstep := h.getElem?_eq i (Nat.lt_of_succ_lt_succ hi)
    rw [List.length_append, List.length_singleton, List.append_assoc, List.singleton_append]
      at hstep
    rw [List.getElem?_cons_succ, hstep]
    congr 1
    omega

/-- The last byte is copied over and over. -/
theorem IsCopy.replicate {b : UInt8} (h : content.getLast? = some b) (n : Nat) :
    IsCopy 1 content (List.replicate n b) := by
  induction n generalizing content with
  | zero =>
    refine ⟨Nat.one_pos, List.length_pos_iff.2 ?_, nofun⟩
    rintro rfl
    cases h
  | succ n ih =>
    have hrest := ih (List.getLast?_concat (l := content) (a := b))
    have hle : 1 ≤ content.length := List.length_pos_iff.2 fun hnil => by
      rw [hnil] at h
      cases h
    exact .cons hle (by rwa [← List.getLast?_eq_getElem?]) hrest

/-- What is copied is determined by the content and the distance. -/
theorem IsCopy.eq (h : IsCopy offset content copied) (h' : IsCopy offset content copied')
    (hlength : copied.length = copied'.length) : copied = copied' := by
  have hpos := h.offset_pos
  have hle := h.offset_le
  refine List.ext_getElem? fun i => ?_
  induction i using Nat.strongRecOn with
  | ind i ih =>
    obtain hi | hi := Nat.lt_or_ge i copied.length
    · rw [h.getElem?_eq i hi, h'.getElem?_eq i (hlength ▸ hi)]
      -- The byte before it is one of the content, or was copied earlier.
      obtain hfrom | hfrom := Nat.lt_or_ge (content.length + i - offset) content.length
      · rw [List.getElem?_append_left hfrom, List.getElem?_append_left hfrom]
      · rw [List.getElem?_append_right hfrom, List.getElem?_append_right hfrom]
        exact ih _ (by omega)
    · rw [List.getElem?_eq_none hi, List.getElem?_eq_none (hlength ▸ hi)]

/-- The reader copies bytes one by one. -/
theorem copyBack_eq (hpos : 0 < offset) (n : Nat) (out : Array UInt8)
    (hle : offset ≤ out.size) :
    ∃ copied : Bytes, copied.length = n ∧ copyBack offset n out = out ++ copied ∧
      IsCopy offset out.toList copied := by
  induction n generalizing out with
  | zero => exact ⟨[], rfl, Array.appendList_nil.symm, hpos, hle, nofun⟩
  | succ n ih =>
    have hlt : out.size - offset < out.size := by omega
    obtain ⟨copied, hlength, hcopy, hcopied⟩ :=
      ih (out.push (out.getD (out.size - offset) 0)) (by rw [Array.size_push]; omega)
    refine ⟨out.getD (out.size - offset) 0 :: copied, congrArg (· + 1) hlength, ?_, ?_⟩
    · rw [copyBack, hcopy]
      exact Array.ext' (by simp)
    · rw [Array.toList_push] at hcopied
      refine hcopied.cons hle ?_
      rw [Array.length_toList, Array.getElem?_toList, Array.getD_eq_getD_getElem?,
        Array.getElem?_eq_getElem hlt]
      rfl

end Copies

/-- A byte is copied over and over: `k` bytes of a length stand for 255 bytes each. -/
theorem holds_replicate (k : Nat) (b : UInt8) :
    Holds [] (31 :: b :: 1 :: 0 :: (List.replicate k 255 ++ [0, 0]))
      (List.replicate (20 + 255 * k) b) := by
  have hcopy : IsCopy 1 [b] (List.replicate (19 + 255 * k) b) := .replicate rfl _
  have hlast : Holds ([] ++ [b] ++ List.replicate (19 + 255 * k) b) [0] [] :=
    @Holds.last _ [] [] 0 (.short (by decide))
  have hlength : (List.replicate (19 + 255 * k) b).length = 15 + 255 * k + 0 + minMatch := by
    rw [List.length_replicate, minMatch]
    omega
  have hholds := @Holds.sequence [] [b] [] _ _ [0] [] 31 1 0 _ (.short (by decide))
    (.long k (by decide : (0 : UInt8) ≠ 255)) hlength hcopy hlast
  have hcontent :
      List.replicate (20 + 255 * k) b = [b] ++ List.replicate (19 + 255 * k) b ++ [] := by
    rw [List.append_nil, List.singleton_append, ← List.replicate_succ]
    congr 1
    omega
  rw [hcontent]
  simpa using hholds

/-! ### Reading -/

section Reading

variable {limit steps : Nat} {block : Bytes} {out out' : Array UInt8}

/-- What is read from a block is its content. -/
private theorem holds_of_sequences (h : sequences limit steps block out = .ok out') :
    ∃ content : Bytes, out' = out ++ content ∧ Holds out.toList block content ∧
      out'.size ≤ limit := by
  induction steps generalizing block out with
  | zero => cases h
  | succ steps ih =>
    cases block with
    | nil => cases h
    | cons token b =>
      rw [sequences] at h
      split at h
      · cases h
      next size b hsize =>
      split at h
      · cases h
      next literals b hsplit =>
      obtain ⟨more, rfl, hliterals⟩ := length?_eq_some_iff.1 hsize
      obtain ⟨rfl, rfl⟩ := Bytes.splitAt?_eq_some_iff.1 hsplit
      split at h
      · cases h
      next hlimit =>
      dsimp only at h
      split at h
      · -- The last sequence.
        cases h
        refine ⟨literals, rfl, ?_, by rw [size_appendList]; omega⟩
        rw [List.append_nil]
        exact .last hliterals
      · cases h
      next low high b =>
      split at h
      · cases h
      next size b hsize =>
      obtain ⟨more', rfl, hcopied⟩ := length?_eq_some_iff.1 hsize
      split at h
      · cases h
      split at h
      · cases h
      next hoffset =>
      have hpos : 0 < low.toNat + 256 * high.toNat := by omega
      obtain ⟨copied, hn, hback, hcopy⟩ :=
        copyBack_eq hpos (size + minMatch) (out ++ literals) (by omega)
      rw [hback] at h
      obtain ⟨content, rfl, hrest, hle⟩ := ih h
      rw [Array.toList_appendList] at hcopy hrest
      rw [Array.toList_appendList] at hrest
      refine ⟨literals ++ copied ++ content, ?_, .sequence hliterals hcopied hn hcopy hrest, hle⟩
      rw [appendList_appendList, appendList_appendList, List.append_assoc]

/-- A content is read if it is not longer than the limit. -/
private theorem sequences_of_holds {before content : Bytes} (h : Holds before block content)
    (hsteps : block.length ≤ steps) (hlimit : before.length + content.length ≤ limit) :
    sequences limit steps block before.toArray = .ok (before.toArray ++ content) := by
  induction h generalizing steps with
  | @last before literals more token hliterals =>
    cases steps with
    | zero => cases hsteps
    | succ steps =>
      have hsplit : Bytes.splitAt? literals.length literals = some (literals, []) :=
        Bytes.splitAt?_eq_some_iff.2 ⟨(List.append_nil _).symm, rfl⟩
      rw [sequences, length?_eq_some_iff.2 ⟨more, rfl, hliterals⟩]
      simp only [hsplit]
      rw [if_neg (by simpa using hlimit)]
  | @sequence before literals more copied more' rest content token low high n hliterals hcopied hn
      hcopy hrest ih =>
    cases steps with
    | zero => cases hsteps
    | succ steps =>
      simp only [List.length_cons, List.length_append] at hsteps hlimit ih
      have hsize : (before.toArray ++ literals).size = before.length + literals.length := by
        rw [size_appendList, List.size_toArray]
      have hpos := hcopy.offset_pos
      have hle := hcopy.offset_le
      rw [List.length_append] at hle
      obtain ⟨copied', hn', hback, hcopy'⟩ :=
        copyBack_eq hpos (n + minMatch) (before.toArray ++ literals) (by omega)
      rw [Array.toList_appendList] at hcopy'
      obtain rfl : copied' = copied := hcopy'.eq hcopy (hn'.trans hn.symm)
      rw [sequences, length?_eq_some_iff.2 ⟨more, rfl, hliterals⟩]
      simp only [Bytes.splitAt?_append, length?_eq_some_iff.2 ⟨more', rfl, hcopied⟩]
      rw [if_neg (by simp only [List.size_toArray]; omega), if_neg (by omega), if_neg (by omega),
        hback]
      have hlater := @ih steps (by omega) (by omega)
      have harray : (before ++ literals ++ copied').toArray =
          before.toArray ++ literals ++ copied' := Array.ext' (by simp)
      rw [harray] at hlater
      rw [hlater, appendList_appendList, appendList_appendList, List.append_assoc]

/-- **Frames.** The content of a frame is that of its block, if the frame declares its length or a
greater one. -/
theorem decompress_eq_ok_iff {frame content : Bytes} : decompress frame = .ok content ↔
    ∃ n, declaredSize? frame = some n ∧ content.length ≤ n ∧ Holds [] (frame.drop 4) content := by
  rw [decompress, declaredSize?]
  cases hsplit : frame.splitAt? 4 with
  | none =>
    refine iff_of_false (fun h => ?_) ?_
    · cases h
    · rintro ⟨_, ⟨⟩, _⟩
  | some p =>
    obtain ⟨size, block⟩ := p
    obtain ⟨rfl, hsize⟩ := Bytes.splitAt?_eq_some_iff.1 hsplit
    rw [List.drop_append_of_le_length (Nat.le_of_eq hsize.symm), ← hsize, List.drop_length,
      List.nil_append]
    constructor
    · intro h
      obtain ⟨out, hout, rfl⟩ := Except.map_eq_ok h
      obtain ⟨content, rfl, hholds, hle⟩ := holds_of_sequences hout
      refine ⟨_, rfl, ?_, ?_⟩
      · simpa using hle
      · simpa using hholds
    · rintro ⟨_, ⟨⟩, hle, hholds⟩
      have hlimit : ([] : Bytes).length + content.length ≤ Bytes.toNat size := by simpa using hle
      have hout := sequences_of_holds hholds (Nat.le_refl _) hlimit
      simp only [hout, Except.map]
      simp

end Reading

/-! ### Writing -/

/-- A length is written as the format has it. -/
private theorem isLength_ofLength (n : Nat) : IsLength (min n 15) (ofLength n) n := by
  rw [ofLength]
  by_cases h : n < 15
  · rw [if_pos h, Nat.min_eq_left (Nat.le_of_lt h)]
    exact .short (by omega)
  · -- The last byte is not the one that says that more bytes follow.
    have hnat : (UInt8.ofNat ((n - 15) % 255)).toNat = (n - 15) % 255 :=
      UInt8.toNat_ofNat_of_lt' (show _ < 256 by omega)
    have hne : UInt8.ofNat ((n - 15) % 255) ≠ 255 := fun h => by
      have hmax : (255 : UInt8).toNat = 255 := rfl
      rw [h, hmax] at hnat
      omega
    have hn : 15 + 255 * ((n - 15) / 255) + (UInt8.ofNat ((n - 15) % 255)).toNat = n := by
      rw [hnat]
      omega
    rw [if_neg h, Nat.min_eq_right (by omega), ofLongLength]
    conv => arg 3; rw [← hn]
    exact .long _ hne

/-- Both lengths read back from the token. -/
private theorem token_halves (literals copy : Nat) :
    (token literals copy).toNat / 16 = min literals 15 ∧
      (token literals copy).toNat % 16 = min copy 15 := by
  have hnat : (token literals copy).toNat = 16 * min literals 15 + min copy 15 := by
    rw [token, UInt8.toNat_ofNat', Nat.mod_eq_of_lt (by omega)]
  omega

/-- A segment that ends in a run is a sequence. -/
private theorem holds_ofSegment {before rest content : Bytes} {s : Segment}
    (hs : s.IsRun minMatch) (hrest : Holds (before ++ s.expand) rest content) :
    Holds before (ofSegment s ++ rest) (s.expand ++ content) := by
  obtain ⟨hliterals, hcopied⟩ := token_halves s.literals.length (s.copies - minMatch)
  obtain ⟨b, hlast, hexpand⟩ := Segment.exists_expand_eq hs.literals
  rw [hexpand] at hrest ⊢
  have hform : ofSegment s ++ rest = token s.literals.length (s.copies - minMatch) ::
      (ofLength s.literals.length ++ (s.literals ++
        (1 :: 0 :: (ofLength (s.copies - minMatch) ++ rest)))) := by
    simp [ofSegment]
  rw [hform]
  refine .sequence (hliterals ▸ isLength_ofLength _) (hcopied ▸ isLength_ofLength _) ?_ ?_ ?_
  · rw [List.length_replicate, Nat.sub_add_cancel hs.copies]
  · exact IsCopy.replicate (by rw [List.getLast?_append, hlast]; rfl) _
  · rwa [List.append_assoc]

/-- Segments are sequences one after the other. -/
private theorem holds_flatMap_ofSegment {before rest content : Bytes} {parts : List Segment}
    (hruns : ∀ s ∈ parts, s.IsRun minMatch)
    (hrest : Holds (before ++ parts.flatMap Segment.expand) rest content) :
    Holds before (parts.flatMap ofSegment ++ rest) (parts.flatMap Segment.expand ++ content) := by
  induction parts generalizing before with
  | nil => simpa using hrest
  | cons s parts ih =>
    rw [List.flatMap_cons, List.flatMap_cons, List.append_assoc, List.append_assoc]
    refine holds_ofSegment (hruns s List.mem_cons_self) (ih ?_ ?_)
    · exact fun s hs => hruns s (List.mem_cons_of_mem _ hs)
    · rwa [List.flatMap_cons, ← List.append_assoc] at hrest

/-- Literals are the last sequence. -/
private theorem holds_ofLiterals (before b : Bytes) : Holds before (ofLiterals b) b :=
  .last ((token_halves b.length 0).1 ▸ isLength_ofLength b.length)

/-- A block is made of segments that end in runs, and of literals; together they have the
content. -/
private theorem block_eq (b : Bytes) :
    ∃ (parts : List Segment) (last : Bytes), block b = parts.flatMap ofSegment ++ ofLiterals last ∧
      (∀ s ∈ parts, s.IsRun minMatch) ∧ parts.flatMap Segment.expand ++ last = b := by
  obtain ⟨parts, last, heq, hruns, hexpand⟩ := segments_eq minMatch (b.take (b.length - tailSize))
  refine ⟨parts, last ++ b.drop (b.length - tailSize), ?_, hruns, ?_⟩
  · simp only [block, List.splitAt_eq, heq, List.dropLast_concat, List.getLast?_concat,
      Option.map_some, Option.getD_some]
  · rw [← List.append_assoc, hexpand, List.take_append_drop]

/-- A block that was written holds what it was written for. -/
theorem holds_block (b : Bytes) : Holds [] (block b) b := by
  obtain ⟨parts, last, hblock, hruns, hexpand⟩ := block_eq b
  have hholds := holds_flatMap_ofSegment hruns (holds_ofLiterals ([] ++ _) last)
  rwa [← hblock, hexpand] at hholds

/-- The length that a frame declares is that of its content. -/
theorem declaredSize?_compress {b : Bytes} (h : b.length < 2 ^ 32) :
    declaredSize? (compress b) = some b.length := by
  have hsize : Bytes.toNat (Bytes.ofNat 4 b.length) = b.length := Bytes.toNat_ofNat_of_lt h
  rw [declaredSize?, compress, Bytes.splitAt?_append_of_eq _ (Bytes.length_ofNat 4 _)]
  exact congrArg some hsize

/-- What stands after the length is the block. -/
theorem drop_compress (b : Bytes) : (compress b).drop 4 = block b :=
  List.drop_left' (Bytes.length_ofNat 4 _)

/-- **Frames read back.** -/
theorem decompress_compress {b : Bytes} (h : b.length < 2 ^ 32) :
    decompress (compress b) = .ok b :=
  decompress_eq_ok_iff.2 ⟨_, declaredSize?_compress h, Nat.le_refl _,
    (drop_compress b).symm ▸ holds_block b⟩

end Columnar.Compression.Lz4
