import Columnar.Proofs.Except
import Columnar.Proofs.Packed.Tree

/-!
# The packed form is the shortest one

A reader takes more than what is packed: any tag that its target can hold, for lengths, positions,
numbers of alternatives and integers at any depth. `Shortest read form` says that of all the strings
that a reader takes for a value, the form of the value is the shortest, and the only one of its
length. Numbers are where this is decided (`shortest_nat`); bytes, truth values and text have a
single form.

`ShortestAfter` is the same of a reader that goes on after some parts have been read, so that
`ShortestAfter.bind` follows a reader step by step and each part is compared with its own form.

Main statement: `ExpressionTree.pack_of_unpack`. Reading a tree and packing it again is a normal
form of packed bytes: it never makes them longer, changes them only if it makes them shorter, and is
the same when it is done twice.
-/

namespace Columnar.Packed

variable {α β : Type}

/-- A string is another one, or shorter. -/
def EqOrShorter (v w : Bytes) : Prop :=
  v = w ∨ v.length < w.length

namespace EqOrShorter

variable {u v w x : Bytes}

/-- A form is as short as itself. -/
theorem refl (v : Bytes) : EqOrShorter v v :=
  .inl rfl

/-- A form that is equal or shorter is not longer. -/
theorem length_le (h : EqOrShorter v w) : v.length ≤ w.length := by
  rcases h with rfl | h
  · exact Nat.le_refl _
  · exact Nat.le_of_lt h

/-- If it is no shorter, it is equal. -/
theorem eq_of_length_eq (h : EqOrShorter v w) (hl : v.length = w.length) : v = w := by
  rcases h with h | h
  · exact h
  · omega

/-- Forms get equal or shorter step by step. -/
theorem trans (h : EqOrShorter u v) (h' : EqOrShorter v w) : EqOrShorter u w := by
  rcases h with rfl | h
  · exact h'
  · exact .inr (Nat.lt_of_lt_of_le h h'.length_le)

/-- If one part is shorter then so is the whole. -/
theorem append (h : EqOrShorter u v) (h' : EqOrShorter w x) : EqOrShorter (u ++ w) (v ++ x) := by
  have hl := h.length_le
  have hl' := h'.length_le
  rcases h with rfl | h
  · rcases h' with rfl | h'
    · exact .refl _
    · exact .inr (by simpa using h')
  · exact .inr (by simp only [List.length_append]; omega)

end EqOrShorter

/-- What the reader takes for a value, put behind `front`, is the form of the value or longer. -/
def ShortestAfter (front : Bytes) (read : Reader α) (form : α → Bytes) : Prop :=
  ∀ (b rest : Bytes) (a : α), read b = .ok (a, rest) →
    ∃ taken, b = taken ++ rest ∧ EqOrShorter (form a) (front ++ taken)

/-- What the reader takes for a value is the form of the value or longer. -/
def Shortest (read : Reader α) (form : α → Bytes) : Prop :=
  ShortestAfter [] read form

/-- Every value that the reader returns has a property. -/
def Yields (read : Reader α) (p : α → Prop) : Prop :=
  ∀ (b rest : Bytes) (a : α), read b = .ok (a, rest) → p a

/-! ### Sequencing -/

namespace ShortestAfter

variable {front : Bytes} {form : α → Bytes}

theorem pure {a : α} (h : form a = front) :
    ShortestAfter front (Pure.pure a : Reader α) form := by
  intro b rest c hc
  cases hc
  exact ⟨[], rfl, by rw [h, List.append_nil]; exact .refl _⟩

theorem throw (e : Defect) : ShortestAfter front (MonadExcept.throw e : Reader α) form := by
  intro b rest c hc
  cases hc

/-- **Sequencing.** After a value comes what is read after its form. -/
theorem bind {read : Reader β} {part : β → Bytes} {f : β → Reader α} (first : Shortest read part)
    (second : ∀ b rest c, read b = .ok (c, rest) → ShortestAfter (front ++ part c) (f c) form) :
    ShortestAfter front (read >>= f) form := by
  intro b rest a h
  obtain ⟨c, middle, hc, ha⟩ := bind_eq_ok h
  obtain ⟨taken, rfl, htaken⟩ := first _ _ _ hc
  obtain ⟨later, rfl, hlater⟩ := second _ _ _ hc _ _ _ ha
  refine ⟨taken ++ later, (List.append_assoc ..).symm, hlater.trans ?_⟩
  rw [← List.append_assoc]
  exact ((EqOrShorter.refl front).append htaken).append (.refl later)

end ShortestAfter

namespace Yields

variable {p : α → Prop}

theorem pure {a : α} (h : p a) : Yields (Pure.pure a : Reader α) p := by
  intro b rest c hc
  cases hc
  exact h

theorem throw (e : Defect) : Yields (MonadExcept.throw e : Reader α) p := by
  intro b rest c hc
  cases hc

/-- What the first reader yields is known when the next one starts. -/
theorem bind {read : Reader β} {q : β → Prop} {f : β → Reader α} (first : Yields read q)
    (second : ∀ c, q c → Yields (f c) p) : Yields (read >>= f) p := by
  intro b rest a ha
  obtain ⟨c, middle, hc, ha⟩ := bind_eq_ok ha
  exact second c (first _ _ _ hc) _ _ _ ha

/-- Nothing is asked of a value that comes first. -/
theorem after {read : Reader β} {f : β → Reader α} (h : ∀ c, Yields (f c) p) :
    Yields (read >>= f) p :=
  bind (q := fun _ => True) (fun _ _ _ _ => trivial) fun c _ => h c

end Yields

/-! ### Bytes -/

/-- The bytes that are taken are as many as were asked for. -/
private theorem take_eq_ok {n : Nat} {b rest a : Bytes} (h : Reader.take n b = .ok (a, rest)) :
    b = a ++ rest ∧ a.length = n := by
  unfold Reader.take at h
  split at h <;> cases h
  next hr => exact Bytes.splitAt?_eq_some_iff.1 hr

private theorem shortest_take {n : Nat} {front : Bytes} {form : Bytes → Bytes}
    (h : ∀ a : Bytes, a.length = n → form a = front ++ a) :
    ShortestAfter front (Reader.take n) form := by
  intro b rest a ha
  obtain ⟨rfl, hl⟩ := take_eq_ok ha
  exact ⟨a, rfl, h a hl ▸ .refl _⟩

private theorem shortest_byte : Shortest Reader.byte fun a => [a] := by
  intro b rest a h
  cases b with
  | nil => cases h
  | cons x b =>
    cases h
    exact ⟨[a], rfl, .refl _⟩

/-- A word is read byte for byte. -/
private theorem word_eq_ok {width n : Nat} {b rest : Bytes}
    (h : Reader.word width b = .ok (n, rest)) :
    ∃ w : Bytes, w.length = width ∧ n = Bytes.toNat w ∧ b = w ++ rest := by
  obtain ⟨w, middle, hw, h⟩ := bind_eq_ok h
  cases h
  obtain ⟨rfl, hl⟩ := take_eq_ok hw
  exact ⟨w, hl, rfl, rfl⟩

private theorem shortest_word (width : Nat) : Shortest (Reader.word width) (Bytes.ofNat width) := by
  intro b rest n h
  obtain ⟨w, rfl, rfl, rfl⟩ := word_eq_ok h
  exact ⟨w, rfl, .inl (Bytes.ofNat_toNat w)⟩

private theorem word_yields (width : Nat) : Yields (Reader.word width) (· < 256 ^ width) := by
  intro b rest n h
  obtain ⟨w, rfl, rfl, -⟩ := word_eq_ok h
  exact Bytes.toNat_lt w

/-! ### Numbers -/

/-- The tags of numbers of more than one byte. -/
private def tags : List (UInt8 × IntKind) :=
  [(251, .u16), (252, .u32), (253, .u64), (254, .u128)]

/-- A number that is written behind a tag has a form that is no longer, whatever the tag. -/
private theorem eqOrShorter_ofNat {tag : UInt8} {found : IntKind} (htag : (tag, found) ∈ tags)
    {w : Bytes} (hw : w.length = found.width) :
    EqOrShorter (ofNat (Bytes.toNat w)) (tag :: w) := by
  have hlt := Bytes.toNat_lt w
  have hform := Bytes.ofNat_toNat w
  generalize Bytes.toNat w = n at hlt hform
  rw [hw] at hlt hform
  simp only [tags, List.mem_cons, Prod.mk.injEq, List.not_mem_nil, or_false] at htag
  -- The form has the same tag, or the tag of a number of fewer bytes.
  rcases htag with ⟨rfl, rfl⟩ | ⟨rfl, rfl⟩ | ⟨rfl, rfl⟩ | ⟨rfl, rfl⟩ <;>
    simp only [IntKind.width] at hw hlt hform <;> unfold ofNat <;> repeat' split
  all_goals first
    | exact .inl (congrArg _ hform)
    | omega
    | exact .inr (by simp [hw])

/-- A wide number is read behind its tag. -/
private theorem shortest_wide {expected : IntKind} {tag : UInt8} {found : IntKind}
    (htag : (tag, found) ∈ tags) :
    ShortestAfter ([] ++ [tag])
      (if found.width ≤ expected.width then Reader.word found.width
        else throw (.invalidInteger expected found)) ofNat := by
  split
  · intro b rest n h
    obtain ⟨w, hw, rfl, rfl⟩ := word_eq_ok h
    exact ⟨w, rfl, eqOrShorter_ofNat htag hw⟩
  · exact .throw _

/-- **Numbers.** Of all the forms that a target accepts, the shortest one is written. -/
theorem shortest_nat (expected : IntKind) : Shortest (Reader.nat expected) ofNat := by
  refine .bind shortest_byte fun b rest tag _ => ?_
  dsimp only
  split
  · next htag =>
    refine .pure ?_
    have hlt : tag.toNat < 251 := UInt8.lt_iff_toNat_lt.1 htag
    rw [ofNat, if_pos hlt, UInt8.ofNat_toNat]
    rfl
  split
  · next htag => exact htag ▸ shortest_wide (by decide)
  split
  · next htag => exact htag ▸ shortest_wide (by decide)
  split
  · next htag => exact htag ▸ shortest_wide (by decide)
  split
  · next htag => exact htag ▸ shortest_wide (by decide)
  · exact .throw _

/-- A target holds what is read for it. -/
private theorem nat_yields {expected : IntKind} (h : 1 ≤ expected.width) :
    Yields (Reader.nat expected) (· < 256 ^ expected.width) := by
  have hwide (found : IntKind) :
      Yields (if found.width ≤ expected.width then Reader.word found.width
        else throw (.invalidInteger expected found)) (· < 256 ^ expected.width) := by
    split
    · next hle =>
      intro b rest n hn
      exact Nat.lt_of_lt_of_le (word_yields _ _ _ _ hn) (Nat.pow_le_pow_right (by decide) hle)
    · exact .throw _
  refine .after fun tag => ?_
  dsimp only
  split
  · exact .pure (Nat.lt_of_lt_of_le tag.toNat_lt (Nat.pow_le_pow_right (n := 256) (by decide) h))
  split
  · exact hwide _
  split
  · exact hwide _
  split
  · exact hwide _
  split
  · exact hwide _
  · exact .throw _

/-- Every natural number stands for an integer. -/
theorem zigzag_unzigzag (n : Nat) : zigzag (unzigzag n) = n := by
  unfold zigzag unzigzag
  split <;> split <;> omega

/-- An integer is read as the number that stands for it. -/
private theorem int_eq_ok {kind : IntKind} {b rest : Bytes} {n : Int}
    (h : Reader.int kind b = .ok (n, rest)) :
    ∃ m, Reader.nat kind b = .ok (m, rest) ∧ n = unzigzag m := by
  unfold Reader.int at h
  split at h <;> cases h
  next m hm => exact ⟨m, hm, rfl⟩

/-- An integer is written in the shortest of its forms. -/
private theorem shortest_int (kind : IntKind) : Shortest (Reader.int kind) ofInt := by
  intro b rest n h
  obtain ⟨m, hm, rfl⟩ := int_eq_ok h
  rw [ofInt, zigzag_unzigzag]
  exact shortest_nat kind _ _ _ hm

/-- A target holds what is read for it, in two's complement. -/
private theorem bounds_of_int {kind : IntKind} (h : 1 ≤ kind.width) {m : Nat}
    (hm : 256 ^ kind.width = 2 * m) {b rest : Bytes} {n : Int}
    (hn : Reader.int kind b = .ok (n, rest)) : -(m : Int) ≤ n ∧ n < m := by
  obtain ⟨k, hk, rfl⟩ := int_eq_ok hn
  have hlt := nat_yields h _ _ _ hk
  unfold unzigzag
  split <;> omega

private theorem shortest_bool : Shortest Reader.bool ofBool := by
  refine .bind shortest_byte fun b rest a _ => ?_
  split
  · exact .pure rfl
  · exact .pure rfl
  · exact .throw _

/-! ### Text and lists -/

private theorem shortest_bytes : Shortest Reader.bytes ofBytes :=
  .bind (shortest_nat .u64) fun _ _ _ _ => shortest_take fun _ hl => hl ▸ rfl

private theorem shortest_string : Shortest Reader.string ofString := by
  refine .bind shortest_bytes fun b rest a _ => ?_
  split
  · next hs => exact .pure (congrArg ofBytes (Utf8.encode_of_decode hs))
  · exact .throw _

/-- The items of a list are written in their shortest forms if the items are. -/
private theorem shortest_many {read : Reader α} {pack : α → Bytes} (h : Shortest read pack)
    {front : Bytes} {form : List α → Bytes} (done : List α) (n : Nat)
    (hform : ∀ l : List α, l.length = done.length + n → form l = front ++ l.flatMap pack) :
    ShortestAfter (front ++ done.reverse.flatMap pack) (Reader.many read done n) form := by
  induction n generalizing done with
  | zero => exact .pure (hform _ (by simp))
  | succ n ih =>
    refine .bind h fun b rest a _ => ?_
    have hdone : front ++ done.reverse.flatMap pack ++ pack a =
        front ++ (a :: done).reverse.flatMap pack := by simp
    rw [hdone]
    exact ih (a :: done) fun l hl => hform l (by rw [hl, List.length_cons]; omega)

/-- A list has the shortest form if its items do. -/
private theorem shortest_list {read : Reader α} {pack : α → Bytes} (h : Shortest read pack) :
    Shortest (Reader.list read) fun items => ofNat items.length ++ items.flatMap pack := by
  refine .bind (shortest_nat .u64) fun b rest n _ => ?_
  have hmany : ShortestAfter (ofNat n ++ ([] : List α).reverse.flatMap pack) (Reader.many read [] n)
      fun items => ofNat items.length ++ items.flatMap pack :=
    shortest_many h [] n fun l hl => by rw [hl]; simp
  simpa using hmany

private theorem bytes_yields : Yields Reader.bytes (·.length < maxLength) :=
  .bind (nat_yields (by decide)) fun _ hn _ _ _ ha => (take_eq_ok ha).2 ▸ hn

private theorem string_yields :
    Yields Reader.string fun s => (Utf8.encode s).length < maxLength := by
  refine .bind bytes_yields fun b hb => ?_
  split
  · next hs => exact .pure (Utf8.encode_of_decode hs ▸ hb)
  · exact .throw _

/-- A list has as many items as it says, and each of them is what its reader yields. -/
private theorem many_yields {read : Reader α} {p : α → Prop} (h : Yields read p) (done : List α)
    (hdone : ∀ a ∈ done, p a) (n : Nat) :
    Yields (Reader.many read done n) fun items =>
      items.length = done.length + n ∧ ∀ a ∈ items, p a := by
  induction n generalizing done with
  | zero => exact .pure ⟨by simp, by simpa using hdone⟩
  | succ n ih =>
    refine .bind h fun a ha => ?_
    have hmore := ih (a :: done) (by simpa using ⟨ha, hdone⟩)
    rw [List.length_cons, Nat.add_assoc, Nat.add_comm 1] at hmore
    exact hmore

private theorem list_yields {read : Reader α} {p : α → Prop} (h : Yields read p) :
    Yields (Reader.list read) fun items => items.length < maxLength ∧ ∀ a ∈ items, p a := by
  refine .bind (nat_yields (by decide)) fun n hn b rest items hitems => ?_
  obtain ⟨hl, hall⟩ := many_yields h [] nofun n _ _ _ hitems
  have hlt : n < maxLength := hn
  exact ⟨by rwa [hl, List.length_nil, Nat.zero_add], hall⟩

end Columnar.Packed

namespace Columnar

open Packed

/-! ### Types, fields and constants -/

/-- A type is written in the shortest of its forms. -/
theorem DataType.shortest_reader : Shortest DataType.reader DataType.pack := by
  refine .bind (shortest_nat .u32) fun b rest n _ => ?_
  split
  case h_9 =>
    refine .bind shortest_byte fun _ _ precision _ => ?_
    refine .bind shortest_byte fun _ _ scale _ => .pure ?_
    simp [pack]
  all_goals first | exact .pure rfl | exact .throw _

namespace Field

/-- A field is written in the shortest of its forms. -/
theorem shortest_reader : Shortest reader pack :=
  .bind shortest_string fun _ _ _ _ => .bind DataType.shortest_reader fun _ _ _ _ =>
    .bind shortest_bool fun _ _ _ _ => .pure rfl

/-- The name of a field that was read can be written. -/
theorem reader_yields : Yields reader IsSized :=
  .bind string_yields fun _ hname => .after fun _ => .after fun _ => .pure hname

end Field

namespace Literal

/-- The integers of 32 bits that constants hold. -/
private theorem shortest_int32 {f : Int32 → Literal} {front : Bytes}
    (hf : ∀ v, (f v).pack = front ++ Packed.ofInt v.toInt) :
    ShortestAfter front (Reader.int .u32 >>= fun n => pure (f (Int32.ofInt n))) pack := by
  refine .bind (shortest_int .u32) fun b rest n hn => .pure ?_
  obtain ⟨lower, upper⟩ := bounds_of_int (m := 2 ^ 31) (by decide) (by decide) hn
  rw [hf, Int32.toInt_ofInt_of_le lower upper]

/-- The integers of 64 bits that constants hold. -/
private theorem shortest_int64 {f : Int64 → Literal} {front : Bytes}
    (hf : ∀ v, (f v).pack = front ++ Packed.ofInt v.toInt) :
    ShortestAfter front (Reader.int .u64 >>= fun n => pure (f (Int64.ofInt n))) pack := by
  refine .bind (shortest_int .u64) fun b rest n hn => .pure ?_
  obtain ⟨lower, upper⟩ := bounds_of_int (m := 2 ^ 63) (by decide) (by decide) hn
  rw [hf, Int64.toInt_ofInt_of_le lower upper]

/-- A constant is written in the shortest of its forms. -/
theorem shortest_reader : Shortest reader pack := by
  refine .bind (shortest_nat .u32) fun b rest n _ => ?_
  split
  case h_1 => exact .bind DataType.shortest_reader fun _ _ _ _ => .pure rfl
  case h_2 => exact .bind shortest_bool fun _ _ _ _ => .pure rfl
  case h_3 => exact .bind shortest_byte fun _ _ v _ => .pure (by simp [pack])
  case h_4 =>
    refine .bind (shortest_int .u16) fun b rest v hv => .pure ?_
    obtain ⟨lower, upper⟩ := bounds_of_int (m := 2 ^ 15) (by decide) (by decide) hv
    rw [pack, Int16.toInt_ofInt_of_le lower upper]
    rfl
  case h_5 | h_12 => exact shortest_int32 fun _ => rfl
  case h_6 | h_13 => exact shortest_int64 fun _ => rfl
  case h_7 =>
    refine .bind (shortest_word 4) fun b rest v hv => .pure ?_
    have hlt : v < 2 ^ 32 := word_yields 4 _ _ _ hv
    rw [pack, UInt32.toNat_ofNat_of_lt' hlt]
    rfl
  case h_8 =>
    refine .bind (shortest_word 8) fun b rest v hv => .pure ?_
    have hlt : v < 2 ^ 64 := word_yields 8 _ _ _ hv
    rw [pack, UInt64.toNat_ofNat_of_lt' hlt]
    rfl
  case h_9 =>
    refine .bind (shortest_int .u128) fun b rest v hv => .bind shortest_byte fun _ _ precision _ =>
      .bind shortest_byte fun _ _ scale _ => .pure ?_
    obtain ⟨lower, upper⟩ := bounds_of_int (m := 2 ^ 127) (by decide) (by decide) hv
    have hv : (BitVec.ofInt 128 v).toInt = v := by
      rw [BitVec.toInt_ofInt]
      exact Int.bmod_eq_of_le (by omega) (by omega)
    simp [pack, hv]
  case h_10 => exact .bind shortest_string fun _ _ _ _ => .pure rfl
  case h_11 => exact .bind shortest_bytes fun _ _ _ _ => .pure rfl
  case h_14 => exact .throw _

/-- A constant that was read can be written. -/
theorem reader_yields : Yields reader IsSized := by
  refine .after fun n => ?_
  split
  case h_10 => exact .bind string_yields fun _ hv => .pure hv
  case h_11 => exact .bind bytes_yields fun _ hv => .pure hv
  case h_9 => exact .after fun _ => .after fun _ => .after fun _ => .pure trivial
  case h_14 => exact .throw _
  all_goals exact .after fun _ => .pure trivial

end Literal

/-! ### Trees -/

namespace TreeNode

/-- A tree is written in the shortest of its forms. -/
theorem shortest_reader (depth : Nat) : Shortest (reader depth) pack := by
  induction depth with
  | zero => exact .throw _
  | succ depth ih =>
    refine .bind (shortest_nat .u32) fun b rest n _ => ?_
    split
    case h_1 =>
      refine .bind (shortest_nat .size) fun b rest index hindex =>
        .bind Field.shortest_reader fun _ _ f _ => .pure ?_
      have hlt : index < 2 ^ 64 := nat_yields (by decide) _ _ _ hindex
      rw [pack, UInt64.toNat_ofNat_of_lt' hlt]
      rfl
    case h_2 => exact .bind Literal.shortest_reader fun _ _ _ _ => .pure rfl
    case h_3 =>
      refine .bind shortest_string fun _ _ name _ => .bind (shortest_list ih) fun _ _ children _ =>
        .bind DataType.shortest_reader fun _ _ type _ => .pure ?_
      simp [pack, packAll_eq]
    case h_4 | h_5 =>
      refine .bind (shortest_list ih) fun _ _ children _ => .pure ?_
      simp [pack, packAll_eq]
    case h_6 => exact .throw _

/-- A tree that was read can be written. -/
theorem reader_yields (depth : Nat) : Yields (reader depth) IsSized := by
  induction depth with
  | zero => exact .throw _
  | succ depth ih =>
    have hlist : Yields (Reader.list (reader depth)) fun children =>
        children.length < maxLength ∧ AllSized children := by
      intro b rest children h
      obtain ⟨hl, hall⟩ := list_yields ih _ _ _ h
      exact ⟨hl, allSized_iff.2 hall⟩
    refine .after fun n => ?_
    split
    case h_1 => exact .after fun _ => .bind Field.reader_yields fun _ hf => .pure hf
    case h_2 => exact .bind Literal.reader_yields fun _ hv => .pure hv
    case h_3 =>
      exact .bind string_yields fun _ hname => .bind hlist fun _ hchildren => .after fun _ =>
        .pure ⟨hname, hchildren⟩
    case h_4 | h_5 => exact .bind hlist fun _ hchildren => .pure hchildren
    case h_6 => exact .throw _

end TreeNode

/-! ### Whole trees -/

namespace ExpressionTree

/-- What is taken for a tree is a front of the bytes, and the tree can be packed. -/
private theorem exists_taken {b : Bytes} {t : ExpressionTree} (h : unpack b = .ok t) :
    (∃ taken rest, b = taken ++ rest ∧ EqOrShorter t.pack taken) ∧ t.IsSized := by
  obtain ⟨⟨tree, rest⟩, hread, rfl⟩ := Except.map_eq_ok (Except.mapError_eq_ok h)
  obtain ⟨root, middle, hroot, hread⟩ := bind_eq_ok hread
  obtain ⟨result, rest, hresult, hread⟩ := bind_eq_ok hread
  cases hread
  obtain ⟨front, rfl, hfront⟩ := TreeNode.shortest_reader _ _ _ _ hroot
  obtain ⟨back, rfl, hback⟩ := Field.shortest_reader _ _ _ hresult
  refine ⟨⟨front ++ back, rest, (List.append_assoc ..).symm, hfront.append hback⟩, ?_⟩
  exact ⟨TreeNode.reader_yields _ _ _ _ hroot, Field.reader_yields _ _ _ hresult⟩

/-- A tree that can be packed reads back. -/
private theorem unpack_of_isSized {t : ExpressionTree} (hs : t.IsSized) :
    unpack t.pack = .ok t := by
  have hroot : t.root.pack.length ≤ t.pack.length := by simp [pack]
  have hread := (TreeNode.reads_reader hs.1 hroot).bind
    (f := fun root => Field.reader >>= fun result => pure (ExpressionTree.mk root result))
    ((Field.reads_reader hs.2).map (ExpressionTree.mk t.root))
  have hwhole := hread.whole []
  rw [List.append_nil] at hwhole
  exact congrArg (Except.mapError _ <| Except.map Prod.fst ·) hwhole

/-- **A normal form.** A tree that is read from bytes is packed into at most as many bytes, and into
the same ones if they are as many. Those read as the same tree again. -/
theorem pack_of_unpack {b : Bytes} {t : ExpressionTree} (h : unpack b = .ok t) :
    t.pack.length ≤ b.length ∧ (t.pack.length = b.length → t.pack = b) ∧ unpack t.pack = .ok t := by
  obtain ⟨⟨taken, rest, rfl, htaken⟩, hs⟩ := exists_taken h
  have hle := htaken.length_le
  refine ⟨by simp only [List.length_append]; omega, fun hl => ?_, unpack_of_isSized hs⟩
  rw [List.length_append] at hl
  have hrest : rest = [] := List.length_eq_zero_iff.1 (by omega)
  rw [hrest, List.append_nil]
  exact htaken.eq_of_length_eq (by omega)

/-- A tree whose numbers are written wider than needed, with more bytes behind it. -/
theorem pack_of_unpack_wide :
    let b : Bytes :=
      [251, 1, 0, 252, 9, 0, 0, 0, 253, 1, 0, 0, 0, 0, 0, 0, 0, 120, 251, 1, 0, 99, 1, 1, 255]
    let t : ExpressionTree := ⟨.literal (.utf8 "x"), ⟨"c", .boolean, true⟩⟩
    unpack b = .ok t ∧ t.pack.length ≤ b.length ∧ (t.pack.length = b.length → t.pack = b) ∧
      unpack t.pack = .ok t := by
  intro b t
  have h : unpack b = .ok t := by rfl
  exact ⟨h, pack_of_unpack h⟩

end ExpressionTree

end Columnar
