import Columnar.Packed.Basic
import Columnar.Proofs.Bytes
import Columnar.Proofs.Utf8

/-!
# Reading what was packed

`Reads read w a` says that `w` is a form of `a` for a reader: whatever stands behind it, the reader
takes `w` and nothing else and returns `a`; and if `w` is cut short anywhere, the reader reports
that the bytes ended. Both parts are needed of every piece for either of them to hold of the whole,
so they are proved together:

* `Reads.bind` puts two pieces one after the other; this is the only place where a cut has to be
  located.
* `reads_nat`, `reads_int`, `reads_string`, `reads_list`: numbers that fit their target, text and
  lists.

`Consuming` readers only ever take bytes off the front, `Advancing` ones at least one. What such a
reader does with the items of a list depends on strings no longer than the one it started with
(`many_congr`).
-/

namespace Columnar.Packed

variable {α β : Type}

/-- The reader takes `w` for `a`, and stops at the end of every shorter front of `w`. -/
structure Reads (read : Reader α) (w : Bytes) (a : α) : Prop where
  /-- What follows is left alone. -/
  whole : ∀ rest, read (w ++ rest) = .ok (a, rest)
  /-- Any strict prefix ends unexpectedly. -/
  cut : ∀ p, p <+: w → p ≠ w → ∃ missing, read p = .error (.unexpectedEnd missing)

/-- A reader that takes some bytes off the front, or none. -/
def Consuming (read : Reader α) : Prop :=
  ∀ (b rest : Bytes) (a : α), read b = .ok (a, rest) → rest <:+ b

/-- A reader that takes at least one byte off the front. -/
def Advancing (read : Reader α) : Prop :=
  ∀ (b rest : Bytes) (a : α), read b = .ok (a, rest) → ∃ x, x :: rest <:+ b

/-! ### Sequencing -/

/-- Reading goes on with what was read first. -/
private theorem bind_ok {read : Reader α} {f : α → Reader β} {b rest : Bytes} {a : α}
    (h : read b = .ok (a, rest)) : (read >>= f) b = f a rest := by
  change Except.bind (read b) _ = _
  rw [h]
  rfl

private theorem bind_error {read : Reader α} {f : α → Reader β} {b : Bytes} {e : Defect}
    (h : read b = .error e) : (read >>= f) b = .error e := by
  change Except.bind (read b) _ = _
  rw [h]
  rfl

/-- A sequence that succeeds is one of two steps that do. -/
theorem bind_eq_ok {read : Reader α} {f : α → Reader β} {b rest : Bytes} {c : β}
    (h : (read >>= f) b = .ok (c, rest)) :
    ∃ a middle, read b = .ok (a, middle) ∧ f a middle = .ok (c, rest) := by
  cases hr : read b with
  | error e => rw [bind_error hr] at h; cases h
  | ok r => exact ⟨r.1, r.2, rfl, by rwa [bind_ok hr] at h⟩

/-- Two sequences do the same if their first steps do, and then their second ones on what is
left. -/
theorem bind_congr {read read' : Reader α} {f g : α → Reader β} {b : Bytes} (h : read b = read' b)
    (hfg : ∀ a rest, read b = .ok (a, rest) → f a rest = g a rest) :
    (read >>= f) b = (read' >>= g) b := by
  cases hr : read b with
  | error e => rw [bind_error hr, bind_error (h ▸ hr)]
  | ok r =>
    obtain ⟨a, rest⟩ := r
    rw [bind_ok hr, bind_ok (h ▸ hr), hfg a rest hr]

namespace Reads

/-- Nothing is written for a value that is known. -/
theorem pure (a : α) : Reads (Pure.pure a : Reader α) [] a where
  whole _ := rfl
  cut _ hp hne := absurd (List.prefix_nil.1 hp) hne

/-- **Sequencing.** The forms of two values that are read one after the other follow each other. -/
theorem bind {read : Reader α} {f : α → Reader β} {v w : Bytes} {a : α} {c : β}
    (first : Reads read v a) (second : Reads (f a) w c) : Reads (read >>= f) (v ++ w) c where
  whole rest := by rw [List.append_assoc, bind_ok (first.whole _), second.whole]
  cut p hp hne := by
    -- The cut falls inside the first piece, or the first piece is whole and it falls inside the
    -- second.
    rcases List.prefix_or_prefix_of_prefix hp (List.prefix_append v w) with hpv | ⟨q, rfl⟩
    · by_cases h : p = v
      · subst h
        have hw : [] ≠ w := fun hw => hne (by rw [← hw, List.append_nil])
        obtain ⟨n, hn⟩ := second.cut [] List.nil_prefix hw
        exact ⟨n, by rw [← List.append_nil p, bind_ok (first.whole []), hn]⟩
      · obtain ⟨n, hn⟩ := first.cut p hpv h
        exact ⟨n, bind_error hn⟩
    · rw [List.prefix_append_right_inj] at hp
      obtain ⟨n, hn⟩ := second.cut q hp fun h => hne (by rw [h])
      exact ⟨n, by rw [bind_ok (first.whole q), hn]⟩

/-- A value that is made of what was read. -/
theorem map {read : Reader α} {w : Bytes} {a : α} (h : Reads read w a) (f : α → β) :
    Reads (read >>= fun a => Pure.pure (f a)) w (f a) := by
  simpa using h.bind (f := fun a => Pure.pure (f a)) (.pure (f a))

/-- Reading back is about the bytes and the value, in whatever form they are given. -/
theorem congr {read : Reader α} {v w : Bytes} {a c : α} (h : Reads read v a) (hw : v = w)
    (ha : a = c) : Reads read w c :=
  hw ▸ ha ▸ h

end Reads

namespace Consuming

/-- Where nothing is read, all of the bytes are left. -/
theorem pure (a : α) : Consuming (Pure.pure a : Reader α) := by
  intro b rest c h
  cases h
  exact List.suffix_refl _

theorem throw (e : Defect) : Consuming (MonadExcept.throw e : Reader α) := by
  intro b rest c h
  cases h

/-- Of the bytes that one reader leaves the next one leaves the end. -/
theorem bind {read : Reader α} {f : α → Reader β} (h : Consuming read) (hf : ∀ a, Consuming (f a)) :
    Consuming (read >>= f) := by
  intro b rest c hc
  obtain ⟨a, middle, hr, hfa⟩ := bind_eq_ok hc
  exact (hf a _ _ _ hfa).trans (h _ _ _ hr)

/-- What is left is not longer than what was there. -/
theorem length_le {read : Reader α} (h : Consuming read) {b rest : Bytes} {a : α}
    (hr : read b = .ok (a, rest)) : rest.length ≤ b.length :=
  (h _ _ _ hr).length_le

end Consuming

namespace Advancing

/-- A reader that takes at least one byte leaves the end of what was there. -/
theorem consuming {read : Reader α} (h : Advancing read) : Consuming read := by
  intro b rest a hr
  obtain ⟨x, hx⟩ := h _ _ _ hr
  exact (List.suffix_cons x rest).trans hx

/-- It is enough that the first reader takes at least one byte. -/
theorem bind {read : Reader α} {f : α → Reader β} (h : Advancing read) (hf : ∀ a, Consuming (f a)) :
    Advancing (read >>= f) := by
  intro b rest c hc
  obtain ⟨a, middle, hr, hfa⟩ := bind_eq_ok hc
  obtain ⟨x, hx⟩ := h _ _ _ hr
  obtain ⟨taken, rfl⟩ := hf a _ _ _ hfa
  cases taken with
  | nil => exact ⟨x, hx⟩
  | cons y taken =>
    obtain ⟨z, hz⟩ : ∃ z, z :: rest <:+ x :: (y :: taken ++ rest) := by
      rcases List.eq_nil_or_concat taken with rfl | ⟨init, z, rfl⟩
      · exact ⟨y, List.suffix_cons _ _⟩
      · exact ⟨z, x :: y :: init, by simp⟩
    exact ⟨z, hz.trans hx⟩

/-- What is left is shorter than what was there. -/
theorem length_lt {read : Reader α} (h : Advancing read) {b rest : Bytes} {a : α}
    (hr : read b = .ok (a, rest)) : rest.length < b.length := by
  obtain ⟨x, hx⟩ := h _ _ _ hr
  exact hx.length_le

end Advancing

/-! ### Bytes -/

/-- A number of bytes reads back. -/
theorem reads_take {n : Nat} {b : Bytes} (h : b.length = n) : Reads (Reader.take n) b b where
  whole rest := by rw [Reader.take, Bytes.splitAt?_append_of_eq rest h]
  cut p hp hne := by
    have hlt : p.length < n :=
      h ▸ Nat.lt_of_le_of_ne hp.length_le fun hl => hne (hp.eq_of_length hl)
    exact ⟨n - p.length, by rw [Reader.take, Bytes.splitAt?_eq_none_iff.2 hlt]⟩

/-- A byte reads back. -/
theorem reads_byte (a : UInt8) : Reads Reader.byte [a] a where
  whole _ := rfl
  cut p hp hne := by
    have hnil : p = [] := by
      rcases List.prefix_cons_iff.1 hp with h | ⟨q, rfl, hq⟩
      · exact h
      · exact absurd (by rw [List.prefix_nil.1 hq]) hne
    exact ⟨1, by rw [hnil]; rfl⟩

/-- A number of fixed width reads back if the width holds it. -/
theorem reads_word (width : Nat) {n : Nat} (h : n < 256 ^ width) :
    Reads (Reader.word width) (Bytes.ofNat width n) n :=
  ((reads_take (Bytes.length_ofNat width n)).map Bytes.toNat).congr rfl (Bytes.toNat_ofNat_of_lt h)

private theorem consuming_take (n : Nat) : Consuming (Reader.take n) := by
  intro b rest a h
  unfold Reader.take at h
  split at h
  · next r hr =>
    cases h
    rw [(Bytes.splitAt?_eq_some_iff.1 hr).1]
    exact List.suffix_append _ _
  · cases h

private theorem advancing_byte : Advancing Reader.byte := by
  intro b rest a h
  cases b with
  | nil => cases h
  | cons x b =>
    cases h
    exact ⟨a, List.suffix_refl _⟩

theorem consuming_byte : Consuming Reader.byte :=
  advancing_byte.consuming

theorem consuming_word (width : Nat) : Consuming (Reader.word width) :=
  (consuming_take width).bind fun _ => .pure _

/-! ### Numbers -/

/-- A number of more than one byte stands behind the tag of its width. -/
private theorem reads_wide {expected : IntKind} (found : IntKind) {tag : UInt8} {n : Nat}
    (htag : (tag, found) ∈ [(251, IntKind.u16), (252, .u32), (253, .u64), (254, .u128)])
    (hw : found.width ≤ expected.width) (hn : n < 256 ^ found.width) :
    Reads (Reader.nat expected) (tag :: Bytes.ofNat found.width n) n := by
  have hword := reads_word _ hn
  refine (reads_byte tag).bind ?_
  simp only [List.mem_cons, Prod.mk.injEq, List.not_mem_nil, or_false] at htag
  rcases htag with ⟨rfl, rfl⟩ | ⟨rfl, rfl⟩ | ⟨rfl, rfl⟩ | ⟨rfl, rfl⟩ <;>
    simpa [hw] using hword

/-- A target that holds a number is at least as wide as the shortest form of the number. -/
private theorem width_le_of_lt {expected found : IntKind} {n least : Nat}
    (h : n < 256 ^ expected.width) (hn : least ≤ n)
    (hleast :
      (found, least) ∈ [(IntKind.u16, 251), (.u32, 2 ^ 16), (.u64, 2 ^ 32), (.u128, 2 ^ 64)]) :
    found.width ≤ expected.width := by
  simp only [List.mem_cons, Prod.mk.injEq, List.not_mem_nil, or_false] at hleast
  rcases hleast with ⟨rfl, rfl⟩ | ⟨rfl, rfl⟩ | ⟨rfl, rfl⟩ | ⟨rfl, rfl⟩ <;> cases expected <;>
    simp only [IntKind.width] at h ⊢ <;> omega

/-- A natural number reads back for every target that can hold it. -/
theorem reads_nat (expected : IntKind) {n : Nat} (h : n < 256 ^ expected.width)
    (h128 : n < 2 ^ 128) :
    Reads (Reader.nat expected) (ofNat n) n := by
  unfold ofNat
  split
  · next hn =>
    have htag : UInt8.ofNat n < 251 := by
      rw [UInt8.lt_iff_toNat_lt, UInt8.toNat_ofNat', Nat.mod_eq_of_lt (by omega)]
      exact hn
    have hvalue : (UInt8.ofNat n).toNat = n := by
      rw [UInt8.toNat_ofNat', Nat.mod_eq_of_lt (by omega)]
    refine (reads_byte (UInt8.ofNat n)).bind (w := []) ?_
    simpa [htag, hvalue] using Reads.pure n
  split
  · exact reads_wide .u16 (by simp) (width_le_of_lt h (Nat.not_lt.1 ‹_›) (by simp)) ‹_›
  split
  · exact reads_wide .u32 (by simp) (width_le_of_lt h (Nat.not_lt.1 ‹_›) (by simp)) ‹_›
  split
  · exact reads_wide .u64 (by simp) (width_le_of_lt h (Nat.not_lt.1 ‹_›) (by simp)) ‹_›
  · exact reads_wide .u128 (by simp) (width_le_of_lt h (Nat.not_lt.1 ‹_›) (by simp)) h128

/-- The bounds of two's complement are those of the natural numbers that stand for integers. -/
theorem zigzag_lt {n : Int} {m : Nat} (lower : -m ≤ n) (upper : n < m) : zigzag n < 2 * m := by
  unfold zigzag
  split <;> omega

/-- An integer reads back for every target that can hold it. -/
theorem reads_int (kind : IntKind) {n : Int} (h : zigzag n < 256 ^ kind.width)
    (h128 : zigzag n < 2 ^ 128) : Reads (Reader.int kind) (ofInt n) n where
  whole rest := by
    rw [Reader.int, ofInt, (reads_nat kind h h128).whole]
    simp
  cut p hp hne := by
    obtain ⟨missing, hm⟩ := (reads_nat kind h h128).cut p hp hne
    exact ⟨missing, by rw [Reader.int, hm]⟩

/-- A truth value reads back. -/
theorem reads_bool (v : Bool) : Reads Reader.bool (ofBool v) v := by
  refine (reads_byte _).bind (w := []) ?_
  cases v <;> exact .pure _

theorem length_ofNat_pos (n : Nat) : 0 < (ofNat n).length := by
  unfold ofNat
  repeat' split
  all_goals simp

/-- A number takes at least one byte. -/
theorem advancing_nat (expected : IntKind) : Advancing (Reader.nat expected) := by
  refine advancing_byte.bind fun tag => ?_
  have hwide (found : IntKind) :
      Consuming (if found.width ≤ expected.width then Reader.word found.width
        else throw (.invalidInteger expected found)) := by
    split
    · exact consuming_word _
    · exact .throw _
  dsimp only
  split
  · exact .pure _
  split
  · exact hwide _
  split
  · exact hwide _
  split
  · exact hwide _
  split
  · exact hwide _
  · exact .throw _

theorem consuming_nat (expected : IntKind) : Consuming (Reader.nat expected) :=
  (advancing_nat expected).consuming

theorem consuming_int (kind : IntKind) : Consuming (Reader.int kind) := by
  intro b rest n h
  unfold Reader.int at h
  split at h
  · next m r hr =>
    cases h
    exact consuming_nat kind _ _ _ hr
  · cases h
  · cases h

theorem consuming_bool : Consuming Reader.bool := by
  refine consuming_byte.bind fun b => ?_
  split
  · exact .pure _
  · exact .pure _
  · exact .throw _

/-! ### Text and lists -/

/-- Lengths are written as 64-bit numbers. -/
def maxLength : Nat := 2 ^ 64

private theorem reads_length {n : Nat} (h : n < maxLength) : Reads (Reader.nat .u64) (ofNat n) n :=
  reads_nat _ h (Nat.lt_trans h (by decide))

/-- A byte string reads back if its length can be written. -/
theorem reads_bytes {b : Bytes} (h : b.length < maxLength) : Reads Reader.bytes (ofBytes b) b :=
  (reads_length h).bind (reads_take rfl)

/-- A text reads back if the length of its bytes can be written. -/
theorem reads_string {s : String} (h : (Utf8.encode s).length < maxLength) :
    Reads Reader.string (ofString s) s := by
  rw [ofString, ← List.append_nil (ofBytes _)]
  refine (reads_bytes h).bind ?_
  rw [Utf8.decode_encode]
  exact .pure _

/-- Items read back one after the other, behind those that were read before. -/
private theorem reads_many {read : Reader α} {pack : α → Bytes} {items : List α}
    (h : ∀ a ∈ items, Reads read (pack a) a) (done : List α) :
    Reads (Reader.many read done items.length) (items.flatMap pack) (done.reverse ++ items) := by
  induction items generalizing done with
  | nil => simpa [Reader.many] using Reads.pure done.reverse
  | cons a items ih =>
    have hrest := ih (fun c hc => h c (by simp [hc])) (a :: done)
    rw [List.flatMap_cons]
    exact ((h a (by simp)).bind hrest).congr rfl (by simp)

/-- A list reads back after its length if each item does. -/
theorem reads_list {read : Reader α} {pack : α → Bytes} {items : List α}
    (hl : items.length < maxLength) (h : ∀ a ∈ items, Reads read (pack a) a) :
    Reads (Reader.list read) (ofNat items.length ++ items.flatMap pack) items :=
  (reads_length hl).bind (reads_many h [])

theorem consuming_bytes : Consuming Reader.bytes :=
  (consuming_nat _).bind consuming_take

theorem consuming_string : Consuming Reader.string := by
  refine consuming_bytes.bind fun b => ?_
  split
  · exact .pure _
  · exact .throw _

private theorem consuming_many {read : Reader α} (h : Consuming read) (done : List α) (n : Nat) :
    Consuming (Reader.many read done n) := by
  induction n generalizing done with
  | zero => exact .pure _
  | succ n ih => exact h.bind fun a => ih (a :: done)

theorem consuming_list {read : Reader α} (h : Consuming read) : Consuming (Reader.list read) :=
  (consuming_nat _).bind (consuming_many h [])

/-- Two readers that agree on strings of some length and below read the same lists from them. -/
theorem many_congr {read read' : Reader α} {m : Nat} (hc : Consuming read)
    (h : ∀ b : Bytes, b.length ≤ m → read b = read' b) (n : Nat) (done : List α) (b : Bytes)
    (hb : b.length ≤ m) : Reader.many read done n b = Reader.many read' done n b := by
  induction n generalizing done b with
  | zero => rfl
  | succ n ih =>
    refine bind_congr (h b hb) fun a rest hr => ?_
    exact ih _ _ (Nat.le_trans (hc.length_le hr) hb)

/-- Lists are read in the same way by readers of items that agree on everything that is not longer
than the bytes at hand. -/
theorem list_congr {read read' : Reader α} {m : Nat} (hc : Consuming read)
    (h : ∀ b : Bytes, b.length ≤ m → read b = read' b) (b : Bytes) (hb : b.length ≤ m) :
    Reader.list read b = Reader.list read' b := by
  refine bind_congr rfl fun n rest hr => ?_
  exact many_congr hc h n [] rest (Nat.le_trans ((consuming_nat _).length_le hr) hb)

end Columnar.Packed
