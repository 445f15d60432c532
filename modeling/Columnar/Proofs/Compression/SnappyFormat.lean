import Columnar.Compression.Snappy
import Columnar.Proofs.Compression.Lz4

/-!
# The format of Snappy streams

`IsStream` is the format of streams, as a relation between a stream and its content that mentions no
reader. The reader accepts exactly the streams that have a content, and returns it
(`decompress_eq_ok_iff`), whoever wrote them.

A copy may overlap with what it makes, as in LZ4 (`Lz4.IsCopy`).
-/

namespace Columnar.Compression.Snappy

open Lz4 (IsCopy)

/-! ### The format -/

/-- Groups of seven bits, least significant first, of which all but the last are marked. -/
inductive IsVarint : Bytes → Nat → Prop
  /-- The last group is not marked. -/
  | last {b : UInt8} (h : b < 128) : IsVarint [b] b.toNat
  /-- After a marked group there are others. -/
  | more {b : UInt8} {groups : Bytes} {n : Nat} (h : ¬b < 128) (hgroups : IsVarint groups n) :
    IsVarint (b :: groups) (b.toNat % 128 + 128 * n)

/-- An element is a tag and what comes after it. The lower two bits of the tag are its kind. -/
inductive IsElement : Bytes → Element → Prop
  /-- The length of the literals is in the tag, less one. -/
  | short {tag : UInt8} {literals : Bytes} (hkind : tag.toNat % 4 = 0) (hhigh : tag.toNat / 4 < 60)
    (hlength : literals.length = tag.toNat / 4 + 1) :
    IsElement (tag :: literals) (.literal literals)
  /-- The length of the literals comes after the tag, less one, in one to four bytes. -/
  | long {tag : UInt8} {length literals : Bytes} (hkind : tag.toNat % 4 = 0)
    (hhigh : tag.toNat / 4 = 59 + length.length) (hpos : 0 < length.length)
    (hlength : literals.length = Bytes.toNat length + 1) :
    IsElement (tag :: (length ++ literals)) (.literal literals)
  /-- Four to eleven bytes are copied. The distance is in the tag and in a byte after it. -/
  | near {tag : UInt8} {low : Bytes} (hkind : tag.toNat % 4 = 1) (hlow : low.length = 1) :
    IsElement (tag :: low)
      (.copy (tag.toNat / 4 / 8 * 256 + Bytes.toNat low) (tag.toNat / 4 % 8 + 4))
  /-- Up to 64 bytes are copied. The distance comes after the tag, in two or in four bytes. -/
  | far {tag : UInt8} {offset : Bytes} (hkind : tag.toNat % 4 = 2 ∧ offset.length = 2 ∨
    tag.toNat % 4 = 3 ∧ offset.length = 4) :
    IsElement (tag :: offset) (.copy (Bytes.toNat offset) (tag.toNat / 4 + 1))

/-- Elements hold some content, which comes after other content. -/
inductive Holds : (before elements content : Bytes) → Prop
  /-- There are no more elements. -/
  | done {before : Bytes} : Holds before [] []
  /-- Literals, and further elements. -/
  | literal {before form literals rest content : Bytes} (h : IsElement form (.literal literals))
    (hrest : Holds (before ++ literals) rest content) :
    Holds before (form ++ rest) (literals ++ content)
  /-- Some bytes that are copied, and further elements. -/
  | copy {before form copied rest content : Bytes} {offset : Nat}
    (h : IsElement form (.copy offset copied.length)) (hcopy : IsCopy offset before copied)
    (hrest : Holds (before ++ copied) rest content) :
    Holds before (form ++ rest) (copied ++ content)

/-- A block is the length of its content and some elements that hold it. -/
inductive IsBlock : (block content : Bytes) → Prop
  /-- The length has few enough groups, and the content is not too long for a chunk. -/
  | mk {length elements content : Bytes} (hgroups : length.length ≤ maxGroups)
    (hlength : IsVarint length content.length) (hsize : content.length ≤ maxChunk)
    (helements : Holds [] elements content) : IsBlock (length ++ elements) content

/-- The check of some content as chunks hold it. -/
def check (content : Bytes) : Bytes :=
  Bytes.ofNat 4 (maskedChecksum content).toNat

/-- The body of a chunk of a type, and its content. -/
inductive IsChunk : (type : UInt8) → (body content : Bytes) → Prop
  /-- The format is identified. -/
  | identifier : IsChunk 0xFF identifier []
  /-- A block holds the content. -/
  | packed {block content : Bytes} (h : IsBlock block content) :
    IsChunk 0 (check content ++ block) content
  /-- The content stands there as it is. -/
  | plain {content : Bytes} (h : content.length ≤ maxChunk) :
    IsChunk 1 (check content ++ content) content
  /-- Chunks of these types can be passed over. -/
  | skipped {type : UInt8} {body : Bytes} (h : 0x80 ≤ type) (h' : type ≠ 0xFF) :
    IsChunk type body []

/-- Chunks that stand one after the other, and their contents; `first` tells whether nothing comes
before them, so that the first of them has to identify the format. -/
inductive AreChunks : (first : Bool) → Bytes → List Bytes → Prop
  /-- There are no more chunks. -/
  | nil {first : Bool} : AreChunks first [] []
  /-- A chunk, and further ones. -/
  | cons {first : Bool} {type : UInt8} {body content rest : Bytes} {contents : List Bytes}
    (hfirst : first = true → type = 0xFF) (hbody : body.length ≤ maxChunkLength)
    (h : IsChunk type body content) (hrest : AreChunks false rest contents) :
    AreChunks first (chunk type body ++ rest) (content :: contents)

/-- A stream is made of chunks, and its content of theirs. -/
def IsStream (stream content : Bytes) : Prop :=
  ∃ contents, AreChunks true stream contents ∧ content = contents.flatten

/-! ### Lengths of blocks -/

/-- A number is read from the groups that make it up, after `groups` others that stand for `n`, if
there are not too many of them. -/
theorem varint?_eq_some_iff {groups n m : Nat} {b rest : Bytes} :
    varint? groups n b = some (m, rest) ↔ ∃ form k, b = form ++ rest ∧ IsVarint form k ∧
      groups + form.length ≤ maxGroups ∧ m = n + k * 128 ^ groups := by
  have hpow (g : Nat) : 2 ^ (7 * g) = 128 ^ g := Nat.pow_mul 2 7 g
  induction b generalizing groups n with
  | nil =>
    refine iff_of_false nofun ?_
    rintro ⟨form, k, hform, hvarint, -⟩
    cases hvarint <;> cases hform
  | cons x b ih =>
    rw [varint?]
    by_cases hfull : maxGroups ≤ groups
    · rw [if_pos hfull]
      refine iff_of_false nofun ?_
      rintro ⟨form, k, -, hvarint, hgroups, -⟩
      cases hvarint <;> simp only [List.length_cons] at hgroups <;> omega
    rw [if_neg hfull]
    by_cases hx : x < 128
    · have hmod : x.toNat % 128 = x.toNat := Nat.mod_eq_of_lt (UInt8.lt_iff_toNat_lt.1 hx)
      simp only [if_pos hx, hmod, hpow]
      constructor
      · intro h
        cases h
        exact ⟨[x], x.toNat, rfl, .last hx, by rw [List.length_singleton]; omega, rfl⟩
      · rintro ⟨form, k, hform, hvarint, -, rfl⟩
        cases hvarint with
        | last => cases hform; rfl
        | more hmarked => cases hform; exact absurd hx hmarked
    · simp only [if_neg hx, hpow, ih]
      have hvalue (k : Nat) : n + x.toNat % 128 * 128 ^ groups + k * 128 ^ (groups + 1) =
          n + (x.toNat % 128 + 128 * k) * 128 ^ groups := by
        rw [Nat.pow_succ', ← Nat.mul_assoc, Nat.mul_comm k 128, Nat.add_mul, Nat.add_assoc]
      constructor
      · rintro ⟨form, k, rfl, hvarint, hgroups, rfl⟩
        refine ⟨x :: form, _, rfl, .more hx hvarint, ?_, hvalue k⟩
        rw [List.length_cons]
        omega
      · rintro ⟨form, k, hform, hvarint, hgroups, rfl⟩
        cases hvarint with
        | last hlast => cases hform; exact absurd hlast hx
        | more hmarked hvarint =>
          cases hform
          rw [List.length_cons] at hgroups
          exact ⟨_, _, rfl, hvarint, by omega, (hvalue _).symm⟩

/-! ### Elements -/

/-- An element is read from the bytes that make it up. -/
theorem element?_eq_some_iff {tag : UInt8} {e : Element} {b rest : Bytes} :
    element? tag b = some (e, rest) ↔ ∃ form, b = form ++ rest ∧ IsElement (tag :: form) e := by
  constructor
  · intro h
    rw [element?] at h
    split at h
    · next hkind =>
      obtain ⟨⟨length, c⟩, hlength, h⟩ := Option.bind_eq_some_iff.1 h
      obtain ⟨⟨literals, d⟩, hliterals, h⟩ := Option.bind_eq_some_iff.1 h
      cases h
      obtain ⟨rfl, hlen⟩ := Bytes.splitAt?_eq_some_iff.1 hlength
      obtain ⟨rfl, hsize⟩ := Bytes.splitAt?_eq_some_iff.1 hliterals
      by_cases hhigh : tag.toNat / 4 < 60
      · obtain rfl : length = [] := List.length_eq_zero_iff.1 (by omega)
        exact ⟨literals, rfl, .short hkind hhigh (by rwa [if_pos hhigh] at hsize)⟩
      · exact ⟨length ++ literals, (List.append_assoc ..).symm,
          .long hkind (by omega) (by omega) (by rwa [if_neg hhigh] at hsize)⟩
    · next hkind =>
      obtain ⟨⟨low, c⟩, hsplit, h⟩ := Option.bind_eq_some_iff.1 h
      cases h
      obtain ⟨rfl, hlow⟩ := Bytes.splitAt?_eq_some_iff.1 hsplit
      exact ⟨low, rfl, .near hkind hlow⟩
    · next hkind =>
      obtain ⟨⟨offset, c⟩, hsplit, h⟩ := Option.bind_eq_some_iff.1 h
      cases h
      obtain ⟨rfl, hoffset⟩ := Bytes.splitAt?_eq_some_iff.1 hsplit
      exact ⟨offset, rfl, .far (.inl ⟨hkind, hoffset⟩)⟩
    · next hliteral hnear hfar =>
      obtain ⟨⟨offset, c⟩, hsplit, h⟩ := Option.bind_eq_some_iff.1 h
      cases h
      obtain ⟨rfl, hoffset⟩ := Bytes.splitAt?_eq_some_iff.1 hsplit
      have hother : tag.toNat % 4 ≠ 0 ∧ tag.toNat % 4 ≠ 1 ∧ tag.toNat % 4 ≠ 2 :=
        ⟨hliteral, hnear, hfar⟩
      have hkind : tag.toNat % 4 = 3 := by omega
      exact ⟨offset, rfl, .far (.inr ⟨hkind, hoffset⟩)⟩
  · rintro ⟨form, rfl, h⟩
    cases h with
    | short hkind hhigh hlength =>
      have hextra : Bytes.splitAt? (tag.toNat / 4 - 59) (form ++ rest) = some ([], form ++ rest) :=
        Bytes.splitAt?_eq_some_iff.2 ⟨rfl, by rw [List.length_nil]; omega⟩
      simp only [element?, hkind, hextra, Option.bind_eq_bind, Option.bind_some, if_pos hhigh,
        ← hlength, Bytes.splitAt?_append]
      rfl
    | @long _ length literals hkind hhigh hpos hlength =>
      have hextra : Bytes.splitAt? (tag.toNat / 4 - 59) (length ++ (literals ++ rest)) =
          some (length, literals ++ rest) := Bytes.splitAt?_append_of_eq _ (by omega)
      have hlong : ¬tag.toNat / 4 < 60 := by omega
      simp only [element?, hkind, List.append_assoc, hextra, Option.bind_eq_bind, Option.bind_some,
        if_neg hlong, ← hlength, Bytes.splitAt?_append]
      rfl
    | near hkind hlow =>
      simp only [element?, hkind, Bytes.splitAt?_append_of_eq rest hlow, Option.bind_eq_bind,
        Option.bind_some]
      rfl
    | far hkind =>
      rcases hkind with ⟨hkind, hoffset⟩ | ⟨hkind, hoffset⟩ <;>
        simp only [element?, hkind, Bytes.splitAt?_append_of_eq rest hoffset, Option.bind_eq_bind,
          Option.bind_some] <;> rfl

/-- An element has a tag. -/
theorem IsElement.exists_eq_cons {form : Bytes} {e : Element} (h : IsElement form e) :
    ∃ tag w, form = tag :: w := by
  cases h <;> exact ⟨_, _, rfl⟩

variable {limit steps : Nat} {b content : Bytes}

private theorem elements_nil (limit steps : Nat) (out : Array UInt8) :
    elements limit steps [] out = .ok out := by
  cases steps <;> rfl

/-- What is read from elements is what they hold. -/
private theorem holds_of_elements {out out' : Array UInt8}
    (h : elements limit steps b out = .ok out') :
    ∃ content : Bytes, out' = out ++ content ∧ Holds out.toList b content := by
  induction steps generalizing b out with
  | zero =>
    cases b with
    | nil => cases h; exact ⟨[], Array.appendList_nil.symm, .done⟩
    | cons tag b => cases h
  | succ steps ih =>
    cases b with
    | nil => cases h; exact ⟨[], Array.appendList_nil.symm, .done⟩
    | cons tag b =>
      rw [elements] at h
      split at h
      · cases h
      · next literals rest hread =>
        obtain ⟨form, rfl, helement⟩ := element?_eq_some_iff.1 hread
        split at h
        · cases h
        obtain ⟨content, rfl, hrest⟩ := ih h
        rw [Array.toList_appendList] at hrest
        exact ⟨literals ++ content, appendList_appendList .., .literal helement hrest⟩
      · next offset length rest hread =>
        obtain ⟨form, rfl, helement⟩ := element?_eq_some_iff.1 hread
        split at h
        · cases h
        next hoffset =>
        split at h
        · cases h
        have hpos : 0 < offset := by omega
        obtain ⟨copied, rfl, hback, hcopy⟩ := Lz4.copyBack_eq hpos length out (by omega)
        rw [hback] at h
        obtain ⟨content, rfl, hrest⟩ := ih h
        rw [Array.toList_appendList] at hrest
        exact ⟨copied ++ content, appendList_appendList .., .copy helement hcopy hrest⟩

/-- What elements hold is read if it is not longer than the limit. -/
private theorem elements_of_holds {before : Bytes} (h : Holds before b content)
    (hsteps : b.length ≤ steps) (hlimit : before.length + content.length ≤ limit) :
    elements limit steps b before.toArray = .ok (before.toArray ++ content) := by
  induction h generalizing steps with
  | done => rw [elements_nil, Array.appendList_nil]
  | @literal before form literals rest content h hrest ih =>
    obtain ⟨tag, w, rfl⟩ := h.exists_eq_cons
    cases steps with
    | zero => cases hsteps
    | succ steps =>
      simp only [List.cons_append, List.length_cons, List.length_append] at hsteps hlimit ih
      have hlater := @ih steps (by omega) (by omega)
      have harray : (before ++ literals).toArray = before.toArray ++ literals :=
        Array.ext' (by simp)
      rw [List.cons_append, elements, element?_eq_some_iff.2 ⟨w, rfl, h⟩]
      simp only
      rw [if_neg (by simp only [List.size_toArray]; omega), ← harray, hlater, harray,
        appendList_appendList]
  | @copy before form copied rest content offset h hcopy hrest ih =>
    obtain ⟨tag, w, rfl⟩ := h.exists_eq_cons
    cases steps with
    | zero => cases hsteps
    | succ steps =>
      simp only [List.cons_append, List.length_cons, List.length_append] at hsteps hlimit ih
      have hlater := @ih steps (by omega) (by omega)
      have harray : (before ++ copied).toArray = before.toArray ++ copied := Array.ext' (by simp)
      have hpos := hcopy.offset_pos
      have hle := hcopy.offset_le
      obtain ⟨copied', hn, hback, hcopy'⟩ :=
        Lz4.copyBack_eq hpos copied.length before.toArray (by simpa using hle)
      obtain rfl : copied' = copied := hcopy'.eq hcopy hn
      rw [List.cons_append, elements, element?_eq_some_iff.2 ⟨w, rfl, h⟩]
      simp only
      rw [if_neg (by simp only [List.size_toArray]; omega),
        if_neg (by simp only [List.size_toArray]; omega), hback, ← harray, hlater, harray,
        appendList_appendList]

/-! ### Blocks and chunks -/

/-- A block is decompressed if it holds some content. -/
theorem decompressBlock_eq_ok_iff {block : Bytes} :
    decompressBlock block = .ok content ↔ IsBlock block content := by
  rw [decompressBlock]
  constructor
  · intro h
    split at h
    · cases h
    next size b hread =>
    obtain ⟨length, k, rfl, hlength, hgroups, hsize⟩ := varint?_eq_some_iff.1 hread
    obtain rfl : size = k := by simpa using hsize
    split at h
    · cases h
    next hmax =>
    split at h
    · cases h
    next out hout =>
    split at h
    · next hout' =>
      cases h
      obtain ⟨content, rfl, hholds⟩ := holds_of_elements hout
      have hlist : ((#[] : Array UInt8) ++ content).toList = content := by simp
      obtain rfl : content.length = size := by simpa using hout'
      rw [hlist]
      exact .mk (by omega) hlength (Nat.not_lt.1 hmax) hholds
    · cases h
  · intro h
    cases h with
    | @mk length elements content hgroups hlength hsize helements =>
      have hread : varint? 0 0 (length ++ elements) = some (content.length, elements) :=
        varint?_eq_some_iff.2 ⟨length, _, rfl, hlength, by omega, by simp⟩
      have hout := elements_of_holds helements (Nat.le_refl _)
        (Nat.le_of_eq (Nat.zero_add content.length))
      rw [hread]
      simp only [if_neg (Nat.not_lt.2 hsize), hout]
      simp

/-- The body of a chunk is split behind the check. -/
private theorem splitChecksum_eq_ok_iff {body data : Bytes} {sum : UInt32} :
    splitChecksum body = .ok (sum, data) ↔ body = Bytes.ofNat 4 sum.toNat ++ data := by
  rw [splitChecksum]
  constructor
  · intro h
    split at h
    · next form data' hsplit =>
      cases h
      obtain ⟨rfl, hform⟩ := Bytes.splitAt?_eq_some_iff.1 hsplit
      have hlt := Bytes.toNat_lt form
      rw [hform] at hlt
      have hsum : (UInt32.ofNat (Bytes.toNat form)).toNat = Bytes.toNat form :=
        UInt32.toNat_ofNat_of_lt' hlt
      have hback := Bytes.ofNat_toNat form
      rw [hform] at hback
      rw [hsum, hback]
    · cases h
  · rintro rfl
    have hsum : Bytes.toNat (Bytes.ofNat 4 sum.toNat) = sum.toNat :=
      Bytes.toNat_ofNat_of_lt sum.toNat_lt
    rw [Bytes.splitAt?_append_of_eq _ (Bytes.length_ofNat 4 _)]
    simp only [hsum, UInt32.ofNat_toNat]

/-- A content is returned if it has the check. -/
private theorem checked_eq_ok_iff {sum : UInt32} {c : Bytes} :
    checked sum c = .ok content ↔ c = content ∧ maskedChecksum content = sum := by
  rw [checked]
  constructor
  · intro h
    split at h
    · next hsum => cases h; exact ⟨rfl, hsum⟩
    · cases h
  · rintro ⟨rfl, rfl⟩
    exact if_pos rfl

/-- What a chunk holds, by its type. -/
private theorem chunkContent_false_eq_ok_iff {type : UInt8} {body : Bytes} :
    chunkContent false type body = .ok content ↔ IsChunk type body content := by
  rw [chunkContent, Bool.false_and, if_neg Bool.false_ne_true]
  constructor
  · intro h
    split at h
    · next htype =>
      subst htype
      split at h
      · cases h
      split at h
      · next hbody => cases h; exact hbody ▸ .identifier
      · cases h
    split at h
    · next htype =>
      subst htype
      obtain ⟨⟨sum, data⟩, hsplit, h⟩ := Except.bind_eq_ok h
      obtain ⟨c, hblock, h⟩ := Except.bind_eq_ok h
      obtain ⟨rfl, rfl⟩ := checked_eq_ok_iff.1 h
      rw [splitChecksum_eq_ok_iff.1 hsplit]
      exact .packed (decompressBlock_eq_ok_iff.1 hblock)
    split at h
    · next htype =>
      subst htype
      obtain ⟨⟨sum, data⟩, hsplit, h⟩ := Except.bind_eq_ok h
      dsimp only at h
      split at h
      · cases h
      next hmax =>
      obtain ⟨rfl, rfl⟩ := checked_eq_ok_iff.1 h
      rw [splitChecksum_eq_ok_iff.1 hsplit]
      exact .plain (Nat.not_lt.1 hmax)
    split at h
    · cases h
    next hidentifier _ _ hlow => cases h; exact .skipped (UInt8.not_lt.1 hlow) hidentifier
  · intro h
    cases h with
    | identifier => rfl
    | @packed block content h =>
      have hsplit := splitChecksum_eq_ok_iff.2 (rfl : check content ++ block = _)
      rw [if_neg (by decide), if_pos rfl, hsplit]
      simp only [bind, Except.bind, decompressBlock_eq_ok_iff.2 h]
      exact checked_eq_ok_iff.2 ⟨rfl, rfl⟩
    | plain hmax =>
      have hsplit := splitChecksum_eq_ok_iff.2 (rfl : check content ++ content = _)
      rw [if_neg (by decide), if_neg (by decide), if_pos rfl, hsplit]
      simp only [bind, Except.bind, if_neg (Nat.not_lt.2 hmax)]
      exact checked_eq_ok_iff.2 ⟨rfl, rfl⟩
    | skipped hhigh hidentifier =>
      have hpacked : type ≠ 0 := by rintro rfl; exact absurd hhigh (by decide)
      have hplain : type ≠ 1 := by rintro rfl; exact absurd hhigh (by decide)
      rw [if_neg hidentifier, if_neg hpacked, if_neg hplain, if_neg (UInt8.not_lt.2 hhigh)]

/-- The content of a chunk is returned if it has one; the first chunk of a stream has to identify
the format. -/
theorem chunkContent_eq_ok_iff {first : Bool} {type : UInt8} {body : Bytes} :
    chunkContent first type body = .ok content ↔
      (first = true → type = 0xFF) ∧ IsChunk type body content := by
  rw [← chunkContent_false_eq_ok_iff]
  cases first with
  | false => simp only [Bool.false_eq_true, false_imp_iff, true_and]
  | true =>
    rw [chunkContent, Bool.true_and]
    split
    · next htype => exact iff_of_false nofun fun h => absurd (h.1 rfl) (by simpa using htype)
    · next htype =>
      obtain rfl : type = 0xFF := by simpa using htype
      rw [chunkContent]
      simp

/-! ### Streams -/

/-- A chunk is read, and then those after it. -/
private theorem chunks_chunk {first : Bool} {done : List Bytes} {steps : Nat} {type : UInt8}
    {body content : Bytes} (rest : Bytes) (hb : body.length ≤ maxChunkLength)
    (hc : chunkContent first type body = .ok content) :
    chunks first done (steps + 1) (chunk type body ++ rest) =
      chunks false (content :: done) steps rest := by
  obtain ⟨x, y, z, hxyz⟩ : ∃ x y z, Bytes.ofNat 3 body.length = [x, y, z] := ⟨_, _, _, rfl⟩
  have hlength : Bytes.toNat [x, y, z] = body.length := by
    rw [← hxyz]
    exact Bytes.toNat_ofNat_of_lt (by simp only [maxChunkLength] at hb; omega)
  have hform : chunk type body ++ rest = type :: x :: y :: z :: (body ++ rest) := by
    rw [chunk, hxyz]
    simp
  rw [hform, chunks]
  simp only [hlength, Bytes.splitAt?_append, hc]
  rw [if_neg (by omega)]

private theorem chunks_nil (first : Bool) (done : List Bytes) (steps : Nat) :
    chunks first done steps [] = .ok done.reverse := by
  cases steps <;> rfl

/-- What is read from chunks is what they hold. -/
private theorem areChunks_of_chunks {first : Bool} {done contents : List Bytes}
    (h : chunks first done steps b = .ok contents) :
    ∃ further, AreChunks first b further ∧ contents = done.reverse ++ further := by
  induction steps generalizing first done b with
  | zero =>
    cases b with
    | nil => cases h; exact ⟨[], .nil, (List.append_nil _).symm⟩
    | cons type b => cases h
  | succ steps ih =>
    obtain _ | ⟨type, _ | ⟨x, _ | ⟨y, _ | ⟨z, b⟩⟩⟩⟩ := b
    · cases h; exact ⟨[], .nil, (List.append_nil _).symm⟩
    · cases h
    · cases h
    · cases h
    · rw [chunks] at h
      split at h
      · cases h
      next hmax =>
      split at h
      · cases h
      next body rest hsplit =>
      split at h
      · cases h
      next content hcontent =>
      obtain ⟨rfl, hbody⟩ := Bytes.splitAt?_eq_some_iff.1 hsplit
      obtain ⟨hfirst, hchunk⟩ := chunkContent_eq_ok_iff.1 hcontent
      obtain ⟨further, hrest, rfl⟩ := ih h
      have hform : type :: x :: y :: z :: (body ++ rest) = chunk type body ++ rest := by
        have hback : Bytes.ofNat 3 (Bytes.toNat [x, y, z]) = [x, y, z] :=
          Bytes.ofNat_toNat [x, y, z]
        rw [chunk, hbody, hback]
        simp
      rw [hform]
      refine ⟨content :: further, .cons hfirst (hbody ▸ Nat.not_lt.1 hmax) hchunk hrest, ?_⟩
      rw [List.reverse_cons, List.append_assoc, List.singleton_append]

/-- Chunks that hold something are read one after the other. -/
private theorem chunks_of_areChunks {first : Bool} {contents : List Bytes}
    (h : AreChunks first b contents) (done : List Bytes) (hsteps : b.length ≤ steps) :
    chunks first done steps b = .ok (done.reverse ++ contents) := by
  induction h generalizing steps done with
  | nil => rw [chunks_nil, List.append_nil]
  | @cons first type body content rest contents hfirst hbody h hrest ih =>
    cases steps with
    | zero => cases hsteps
    | succ steps =>
      simp only [chunk, List.cons_append, List.length_cons, List.length_append] at hsteps
      rw [chunks_chunk _ hbody (chunkContent_eq_ok_iff.2 ⟨hfirst, h⟩), ih _ (by omega),
        List.reverse_cons, List.append_assoc, List.singleton_append]

/-- **Streams.** A stream is decompressed exactly if it has a content, whoever wrote it. -/
theorem decompress_eq_ok_iff {stream : Bytes} :
    decompress stream = .ok content ↔ IsStream stream content := by
  rw [decompress]
  constructor
  · intro h
    obtain ⟨contents, hread, rfl⟩ := Except.map_eq_ok h
    obtain ⟨contents, hchunks, rfl⟩ := areChunks_of_chunks hread
    exact ⟨contents, hchunks, rfl⟩
  · rintro ⟨contents, hchunks, rfl⟩
    rw [chunks_of_areChunks hchunks [] (Nat.le_refl _)]
    rfl

end Columnar.Compression.Snappy
