import Columnar.Bytes

/-!
# Laws of byte strings

Numbers of a fixed width read back from their bytes, unsigned (`toNat_ofNat_of_lt`) and in two's
complement (`toInt_ofInt`), as long as they fit the width; and bytes are those of the number that
they stand for (`ofNat_toNat`).

Cutting is stated through concatenation, so that no proof about a format has to count positions:
`splitAt?` splits off a front exactly if there is one of the length (`splitAt?_eq_some_iff`), and a
string `Holds` another one at a place if it stands there between two other parts. Padding brings a
length to the next multiple of the alignment.
-/

namespace Columnar.Bytes

/-! ### Numbers of a fixed width -/

/-- A number takes the bytes of its width. -/
@[simp] theorem length_ofNat (width n : Nat) : (ofNat width n).length = width := by
  induction width generalizing n with
  | zero => rfl
  | succ width ih => simp [ofNat, ih]

@[simp] theorem length_ofInt (width : Nat) (n : Int) : (ofInt width n).length = width :=
  length_ofNat _ _

@[simp] theorem toNat_nil : toNat [] = 0 :=
  rfl

@[simp] theorem toNat_cons (b : UInt8) (bs : Bytes) : toNat (b :: bs) = b.toNat + 256 * toNat bs :=
  rfl

/-- A number is written as far as the width holds it. -/
theorem toNat_ofNat (width n : Nat) : toNat (ofNat width n) = n % 256 ^ width := by
  induction width generalizing n with
  | zero => simp [ofNat, Nat.mod_one]
  | succ width ih =>
    have hsplit : n % 256 ^ (width + 1) = n % 256 + 256 * (n / 256 % 256 ^ width) := by
      rw [Nat.pow_succ', Nat.mod_mul]
    rw [ofNat, toNat_cons, ih, UInt8.toNat_ofNat', hsplit]

/-- A number that fits its width reads back. -/
theorem toNat_ofNat_of_lt {width n : Nat} (h : n < 256 ^ width) : toNat (ofNat width n) = n := by
  rw [toNat_ofNat, Nat.mod_eq_of_lt h]

/-- Bytes are those of their number. -/
theorem ofNat_toNat (b : Bytes) : ofNat b.length (toNat b) = b := by
  induction b with
  | nil => rfl
  | cons a b ih =>
    have hlow : UInt8.ofNat (a.toNat + 256 * toNat b) = a := by
      rw [← UInt8.toNat_inj, UInt8.toNat_ofNat', Nat.add_mul_mod_self_left,
        Nat.mod_eq_of_lt a.toNat_lt]
    have hhigh : (a.toNat + 256 * toNat b) / 256 = toNat b := by
      have := a.toNat_lt
      omega
    rw [toNat_cons, List.length_cons, ofNat, hlow, hhigh, ih]

/-- Bytes stand for a number of their width. -/
theorem toNat_lt (b : Bytes) : toNat b < 256 ^ b.length := by
  have hmod := toNat_ofNat b.length (toNat b)
  rw [ofNat_toNat] at hmod
  rw [hmod]
  exact Nat.mod_lt _ (Nat.pow_pos (by decide))

/-- A number splits into its low and its high bytes. -/
theorem ofNat_add (low high n : Nat) :
    ofNat (low + high) n = ofNat low n ++ ofNat high (n / 256 ^ low) := by
  induction low generalizing n with
  | zero => simp [ofNat]
  | succ low ih =>
    rw [Nat.succ_add, ofNat, ih, ofNat, Nat.div_div_eq_div_mul, ← Nat.pow_succ', List.cons_append]

/-- A number in the lower half of its width is the same in two's complement. -/
theorem toInt_ofNat {width n : Nat} (h : 2 * n < 256 ^ width) : toInt (ofNat width n) = n := by
  rw [toInt, length_ofNat, toNat_ofNat_of_lt (by omega)]
  exact Int.bmod_eq_of_le (by omega) (by omega)

/-- An integer that fits its width in two's complement reads back. -/
theorem toInt_ofInt {width : Nat} {n : Int} (lower : -(256 ^ width : Nat) ≤ 2 * n)
    (upper : 2 * n < (256 ^ width : Nat)) : toInt (ofInt width n) = n := by
  have hcast : (256 : Int) ^ width = (256 ^ width : Nat) := (Int.natCast_pow 256 width).symm
  have hpos : (0 : Int) < (256 ^ width : Nat) := Int.natCast_pos.2 (Nat.pow_pos (by decide))
  have hmod : 0 ≤ n % (256 ^ width : Nat) := Int.emod_nonneg _ (by omega)
  have hlt : (n % (256 ^ width : Nat)).toNat < 256 ^ width := by
    have := Int.emod_lt_of_pos n hpos
    omega
  rw [toInt, length_ofInt, ofInt, hcast, toNat_ofNat_of_lt hlt, Int.toNat_of_nonneg hmod,
    Int.emod_bmod]
  exact Int.bmod_eq_of_le (by omega) (by omega)

/-! ### Cutting -/

/-- Bytes are split in front of a rest if the front has as many as were asked for. -/
theorem splitAt?_eq_some_iff {n : Nat} {b front rest : Bytes} :
    splitAt? n b = some (front, rest) ↔ b = front ++ rest ∧ front.length = n := by
  simp only [splitAt?, List.splitAt_eq]
  split
  · next h =>
    simp only [Option.some.injEq, Prod.mk.injEq]
    constructor
    · rintro ⟨rfl, rfl⟩
      exact ⟨(List.take_append_drop n b).symm, h⟩
    · rintro ⟨rfl, rfl⟩
      simp
  · next h =>
    simp only [reduceCtorEq, false_iff, not_and]
    rintro rfl rfl
    simp at h

/-- A front of known length is split off. -/
@[simp] theorem splitAt?_append (front rest : Bytes) :
    splitAt? front.length (front ++ rest) = some (front, rest) :=
  splitAt?_eq_some_iff.2 ⟨rfl, rfl⟩

theorem splitAt?_append_of_eq {n : Nat} {front : Bytes} (rest : Bytes) (h : front.length = n) :
    splitAt? n (front ++ rest) = some (front, rest) :=
  splitAt?_eq_some_iff.2 ⟨rfl, h⟩

/-- Bytes are not split if there are too few. -/
@[simp] theorem splitAt?_eq_none_iff {n : Nat} {b : Bytes} :
    splitAt? n b = none ↔ b.length < n := by
  simp only [splitAt?, List.splitAt_eq]
  split
  · next h =>
    rw [List.length_take] at h
    simp only [reduceCtorEq, false_iff]
    omega
  · next h =>
    rw [List.length_take] at h
    simp only [true_iff]
    omega

/-! ### Items of one width -/

/-- Items that take the same number of bytes each take as many as there are of them. -/
theorem length_flatMap_of_width {α : Type} {f : α → Bytes} {width : Nat} {items : List α}
    (h : ∀ a ∈ items, (f a).length = width) : (items.flatMap f).length = width * items.length := by
  have hwidths : items.map (fun a => (f a).length) = List.replicate items.length width :=
    List.eq_replicate_iff.2 ⟨List.length_map _, by simpa using h⟩
  rw [List.length_flatMap, hwidths, List.sum_replicate_nat, Nat.mul_comm]

/-! ### Places -/

/-- The string `b` holds `s` from position `pos` on. -/
def Holds (b : Bytes) (pos : Nat) (s : Bytes) : Prop :=
  ∃ front rest, b = front ++ s ++ rest ∧ front.length = pos

namespace Holds

variable {b s t : Bytes} {pos : Nat}

/-- A front of a string stands at its beginning. -/
theorem front (s rest : Bytes) : Holds (s ++ rest) 0 s :=
  ⟨[], rest, rfl, rfl⟩

/-- What is held is within the bytes. -/
theorem le_length (h : Holds b pos s) : pos + s.length ≤ b.length := by
  obtain ⟨front, rest, rfl, rfl⟩ := h
  simp

/-- Two strings stand one after the other exactly if the second begins where the first ends. -/
theorem append_iff : Holds b pos (s ++ t) ↔ Holds b pos s ∧ Holds b (pos + s.length) t := by
  constructor
  · rintro ⟨front, rest, rfl, rfl⟩
    exact ⟨⟨front, t ++ rest, by simp, rfl⟩, ⟨front ++ s, rest, by simp, by simp⟩⟩
  · rintro ⟨⟨front, rest, rfl, rfl⟩, ⟨front', rest', h, hl⟩⟩
    have hfront : front' = front ++ s := by
      have := congrArg (List.take front'.length) h
      rw [List.append_assoc front' t rest', List.take_left, hl, ← List.length_append,
        List.take_left] at this
      exact this.symm
    subst hfront
    rw [List.append_assoc (front ++ s), List.append_cancel_left_eq] at h
    exact ⟨front, rest', by simp [h], rfl⟩

theorem left (h : Holds b pos (s ++ t)) : Holds b pos s :=
  (append_iff.1 h).1

theorem right (h : Holds b pos (s ++ t)) : Holds b (pos + s.length) t :=
  (append_iff.1 h).2

theorem drop_eq (h : Holds b pos s) : (b.drop pos).take s.length = s := by
  obtain ⟨front, rest, rfl, rfl⟩ := h
  simp

/-- The slice at a place is what stands there. -/
theorem slice? (h : Holds b pos s) : b.slice? pos s.length = some s := by
  simp [Bytes.slice?, h.drop_eq]

/-- What is held is found by its place and its length. -/
theorem slice?_of_eq {n : Nat} (h : Holds b pos s) (hn : s.length = n) : b.slice? pos n = some s :=
  hn ▸ h.slice?

/-- The byte at the beginning of a place. -/
theorem getElem?_zero {x : UInt8} (h : Holds b pos [x]) : b[pos]? = some x := by
  obtain ⟨front, rest, rfl, rfl⟩ := h
  simp

end Holds

/-! ### Padding -/

theorem length_padding (alignment n : Nat) :
    (padding alignment n).length = (alignment - n % alignment) % alignment :=
  List.length_replicate

/-- A padded length is a multiple of the alignment. -/
theorem add_length_padding_mod {alignment : Nat} (h : 0 < alignment) (n : Nat) :
    (n + (padding alignment n).length) % alignment = 0 := by
  rw [length_padding]
  rcases Nat.eq_zero_or_pos (n % alignment) with hn | hn
  · rw [hn, Nat.sub_zero, Nat.mod_self, Nat.add_zero, hn]
  · have hlt := Nat.mod_lt n h
    rw [Nat.mod_eq_of_lt (by omega : alignment - n % alignment < alignment), Nat.add_mod,
      Nat.mod_eq_of_lt (by omega : alignment - n % alignment < alignment),
      Nat.add_sub_cancel' (Nat.le_of_lt hlt), Nat.mod_self]

end Columnar.Bytes
