import Columnar.Proofs.Bytes
import Columnar.Proofs.Stream.Schema
import Columnar.Stream.Layout

/-!
# Columns read back from their buffers

The buffers that a layout writes for some slots are read as those slots, values and NULLs
(`Layout.read_write`), if the layout is sound: each value reads back from what is written for it.
The layouts of all types whose values are kept are sound (`layout_isSound`).

Bits and offsets are the two parts with an arithmetic of their own. Packed bits are followed by
spare ones, of which nothing needs to be known. Offsets have four bytes, so that the byte strings of
a column together are shorter than `maxDataLength`.
-/

namespace Columnar.Stream

/-! ### Bits -/

/-- A number that is put together from bits has them. -/
private theorem testBit_foldr (bits : List Bool) (i : Nat) :
    (bits.foldr (fun (bit : Bool) high => bit.toNat + 2 * high) 0).testBit i =
      bits[i]?.getD false := by
  induction bits generalizing i with
  | nil => simp
  | cons bit bits ih =>
    rw [List.foldr_cons, Nat.add_comm]
    cases i with
    | zero => cases bit <;> simp
    | succ i =>
      rw [Nat.testBit_succ, List.getElem?_cons_succ, ← ih i]
      congr 1
      cases bit <;> simp only [Bool.toNat_true, Bool.toNat_false] <;> omega

/-- The bits of a byte are those it was made of, and zeros above them. -/
theorem bitsOfByte_byteOfBits {bits : List Bool} (h : bits.length ≤ 8) :
    bitsOfByte (byteOfBits bits) = bits ++ List.replicate (8 - bits.length) false := by
  refine List.ext_getElem? fun i => ?_
  rw [bitsOfByte, byteOfBits, UInt8.toNat_ofNat', List.getElem?_map]
  by_cases hi : i < 8
  · rw [List.getElem?_range hi, Option.map_some, Nat.testBit_mod_two_pow, testBit_foldr,
      decide_eq_true hi, Bool.true_and]
    by_cases hin : i < bits.length
    · rw [List.getElem?_append_left hin, List.getElem?_eq_getElem hin, Option.getD_some]
    · rw [List.getElem?_append_right (Nat.le_of_not_lt hin),
        List.getElem?_eq_none (Nat.le_of_not_lt hin), List.getElem?_replicate, if_pos (by omega)]
      rfl
  · rw [List.getElem?_eq_none (by simpa using hi), List.getElem?_eq_none (by simp; omega)]
    rfl

/-- Bits are packed into as many bytes as are asked for. -/
@[simp] theorem length_packBits (n : Nat) (bits : List Bool) : (packBits n bits).length = n := by
  induction n generalizing bits with
  | zero => rfl
  | succ n ih => rw [packBits, List.length_cons, ih]

/-- Packed bits are a front of what is unpacked. -/
theorem unpackBits_packBits {n : Nat} (bits : List Bool) (h : bits.length ≤ 8 * n) :
    ∃ spare, unpackBits (packBits n bits) = bits ++ spare := by
  induction n generalizing bits with
  | zero => exact ⟨[], by simp_all [packBits, unpackBits]⟩
  | succ n ih =>
    have htake : (bits.take 8).length ≤ 8 := by rw [List.length_take]; exact Nat.min_le_left ..
    obtain ⟨spare, hspare⟩ := ih (bits.drop 8) (by rw [List.length_drop]; omega)
    have hcons : unpackBits (packBits (n + 1) bits) =
        bits.take 8 ++ List.replicate (8 - (bits.take 8).length) false ++
          (bits.drop 8 ++ spare) := by
      rw [packBits, unpackBits, List.flatMap_cons, bitsOfByte_byteOfBits htake, ← hspare,
        unpackBits]
    rw [hcons]
    by_cases hlen : bits.length ≤ 8
    · rw [List.take_of_length_le hlen, List.drop_eq_nil_of_le hlen, List.nil_append,
        List.append_assoc]
      exact ⟨_, rfl⟩
    · have hfull : (bits.take 8).length = 8 := by rw [List.length_take]; omega
      rw [hfull, Nat.sub_self, List.replicate_zero, List.append_nil, ← List.append_assoc,
        List.take_append_drop]
      exact ⟨_, rfl⟩

private theorem le_bitBytes (n : Nat) : n ≤ 8 * bitBytes n := by
  rw [bitBytes]
  omega

/-! ### NULLs -/

namespace Layout

section Marks

variable {α : Type} {slots : List (Option α)}

/-- The validity takes a bit for each slot. -/
@[simp] theorem length_validity (slots : List (Option α)) :
    (validity slots).length = bitBytes slots.length := by
  rw [validity]
  split <;> simp

private theorem unpackBits_replicate (n : Nat) :
    unpackBits (List.replicate n 0xFF) = List.replicate (8 * n) true := by
  have hbyte : bitsOfByte 0xFF = List.replicate 8 true := rfl
  induction n with
  | zero => rfl
  | succ n ih =>
    rw [List.replicate_succ, unpackBits, List.flatMap_cons, hbyte, ← unpackBits, ih,
      List.replicate_append_replicate, Nat.mul_succ, Nat.add_comm]

/-- The marks tell values from NULLs. -/
theorem unpackBits_validity (slots : List (Option α)) :
    ∃ spare, unpackBits (validity slots) = slots.map Option.isSome ++ spare := by
  have hle := le_bitBytes slots.length
  rw [validity]
  split
  · next hall =>
    have hmap : slots.map Option.isSome = List.replicate slots.length true :=
      List.eq_replicate_iff.2 ⟨List.length_map _, by simpa using hall⟩
    refine ⟨List.replicate (8 * bitBytes slots.length - slots.length) true, ?_⟩
    rw [unpackBits_replicate, hmap, List.replicate_append_replicate, Nat.add_sub_cancel' hle]
  · exact unpackBits_packBits _ (by simpa using hle)

/-- Values and their validity make up the slots again; the spare bits after them are not looked
at. -/
private theorem zipWith_isSome {f : Option α → α} (hf : ∀ a, f (some a) = a)
    (slots : List (Option α)) (spare : List Bool) :
    (slots.map f).zipWith (fun v valid => if valid then some v else none)
      (slots.map Option.isSome ++ spare) = slots := by
  induction slots with
  | nil => rfl
  | cons s slots ih => cases s <;> simp [hf, ih]

/-- The NULLs that are marked are those of the slots. -/
private theorem mark_validity {f : Option α → α} (hf : ∀ a, f (some a) = a)
    (slots : List (Option α)) :
    mark (slots.countP Option.isNone : Nat) (validity slots) (slots.map f) = .ok slots := by
  rw [mark]
  split
  · next hnone =>
    have hall : ∀ s ∈ slots, ¬s.isNone = true := List.countP_eq_zero.1 (by omega)
    congr 1
    conv => rhs; rw [← List.map_id slots]
    rw [List.map_map]
    refine List.map_congr_left fun s hs => ?_
    cases s with
    | none => exact absurd rfl (hall none hs)
    | some a => exact congrArg some (hf a)
  · obtain ⟨spare, hspare⟩ := unpackBits_validity slots
    rw [checkLength, List.length_map, length_validity, if_neg (Nat.lt_irrefl _), hspare,
      zipWith_isSome hf]
    rfl

end Marks

end Layout

/-! ### Pieces and offsets -/

/-- The byte strings of a column together are shorter than this, so that offsets have a sign bit to
spare. -/
def maxDataLength : Nat := 2 ^ 31

/-- Strings of one width are the pieces of what they make up. -/
private theorem pieces_flatMap {α : Type} {f : α → Bytes} {width : Nat} {items : List α}
    (h : ∀ a ∈ items, (f a).length = width) :
    pieces width items.length (items.flatMap f) = items.map f := by
  induction items with
  | nil => rfl
  | cons a items ih =>
    have hlen := h a List.mem_cons_self
    rw [List.length_cons, List.flatMap_cons, pieces, ← hlen, List.take_left, List.drop_left, hlen,
      ih fun c hc => h c (List.mem_cons_of_mem _ hc), List.map_cons]

/-- Where each of some byte strings ends when they follow each other, the first one at `pos`. -/
def ends (pos : Nat) : List Bytes → List Int
  | [] => []
  | b :: items => (pos + b.length : Nat) :: ends (pos + b.length) items

@[simp] theorem length_offsets (pos : Nat) (items : List Bytes) :
    (offsets pos items).length = offsetWidth * (items.length + 1) := by
  induction items generalizing pos with
  | nil => rfl
  | cons b items ih =>
    rw [offsets, List.length_append, ih, Bytes.length_ofNat, List.length_cons,
      Nat.mul_succ offsetWidth (items.length + 1), Nat.add_comm]

/-- The offsets of byte strings read back. -/
private theorem map_toInt_pieces_offsets (pos : Nat) {items : List Bytes}
    (h : pos + items.flatten.length < maxDataLength) :
    (pieces offsetWidth (items.length + 1) (offsets pos items)).map Bytes.toInt =
      (pos : Int) :: ends pos items := by
  -- No offset is beyond the last one, which fits its bytes.
  have hfirst : Bytes.toInt (Bytes.ofNat offsetWidth pos) = pos := by
    refine Bytes.toInt_ofNat ?_
    simp only [maxDataLength, offsetWidth] at h ⊢
    omega
  have hwidth : offsetWidth = (Bytes.ofNat offsetWidth pos).length := (Bytes.length_ofNat ..).symm
  induction items generalizing pos with
  | nil =>
    have hone : pieces offsetWidth 1 (Bytes.ofNat offsetWidth pos) =
        [Bytes.ofNat offsetWidth pos] :=
      congrArg (· :: []) (List.take_of_length_le (Nat.le_of_eq hwidth.symm))
    rw [List.length_nil, offsets, hone, List.map_singleton, hfirst]
    rfl
  | cons b items ih =>
    rw [List.flatten_cons, List.length_append, ← Nat.add_assoc] at h
    have hnext : Bytes.toInt (Bytes.ofNat offsetWidth (pos + b.length)) =
        (pos + b.length : Nat) := by
      refine Bytes.toInt_ofNat ?_
      simp only [maxDataLength, offsetWidth] at h ⊢
      omega
    have htake : (offsets pos (b :: items)).take offsetWidth = Bytes.ofNat offsetWidth pos := by
      rw [offsets, List.take_append_of_le_length (Nat.le_of_eq hwidth),
        List.take_of_length_le (Nat.le_of_eq hwidth.symm)]
    have hdrop : (offsets pos (b :: items)).drop offsetWidth = offsets (pos + b.length) items := by
      rw [offsets, List.drop_append_of_le_length (Nat.le_of_eq hwidth),
        List.drop_of_length_le (Nat.le_of_eq hwidth.symm), List.nil_append]
    rw [List.length_cons, pieces, htake, hdrop, List.map_cons, hfirst,
      ih _ h hnext (Bytes.length_ofNat ..).symm, ends]

/-- Byte strings that follow each other are cut where they end. -/
private theorem cut_ends (pos : Nat) (items : List Bytes) :
    cut pos items.flatten (ends pos items) = .ok items := by
  induction items generalizing pos with
  | nil => rfl
  | cons b items ih =>
    rw [ends, cut, if_neg (by omega), Int.toNat_natCast, Nat.add_sub_cancel_left, List.flatten_cons,
      Bytes.splitAt?_append]
    simp only [ih (pos + b.length), Except.map]

namespace Layout

/-- Byte strings read back from their offsets and their bytes. -/
theorem readVarying_offsets {mayBegin : Bytes → Nat → Bool} {items : List Bytes}
    (hb : mayBegin items.flatten 0 = true) (h : items.flatten.length < maxDataLength) :
    readVarying offsetWidth mayBegin items.length (if items.isEmpty then [] else offsets 0 items)
      items.flatten = .ok items := by
  by_cases hempty : items = []
  · subst hempty
    rfl
  have hmap := map_toInt_pieces_offsets 0 (by simpa using h)
  have hne : ¬(items.length = 0 ∧ offsets 0 items = []) :=
    fun hn => hempty (List.length_eq_zero_iff.1 hn.1)
  have hlen : checkLength (offsetWidth * (items.length + 1)) (offsets 0 items) = .ok () := by
    rw [checkLength, length_offsets, if_neg (Nat.lt_irrefl _)]
  have hfirst : ¬(((0 : Nat) : Int) < 0 ∨ (items.flatten.length : Int) < ((0 : Nat) : Int)) := by
    omega
  have hcond : (if items.isEmpty then [] else offsets 0 items) = offsets 0 items :=
    if_neg (by simpa using hempty)
  rw [hcond, readVarying, if_neg hne, hlen, hmap]
  simp only [if_neg hfirst, Int.toNat_natCast, hb, Bool.not_true, Bool.and_false, List.drop_zero]
  exact cut_ends 0 items

/-! ### Slots -/

variable {α : Type}

/-- Every value reads back from what is written for it, and there is something to be read in place
of a NULL. What is dropped does not read back. -/
def IsSound : Layout α → Prop
  | nulls => α → False
  | bits write read => ∀ a, read (write a) = a
  | fixed width write read => ∀ a, (write a).length = width ∧ read (write a) = a
  | varying write read mayBegin => (∀ a, read (write a) = some a) ∧ (read []).isSome ∧
      ∀ values : List α, mayBegin (values.flatMap write) 0 = true
  | dropped .. => False

/-- How many bytes the byte strings of some slots have together. -/
def dataLength (l : Layout α) (slots : List (Option α)) : Nat :=
  match l with
  | varying write _ _ => (slots.flatMap fun s => s.elim [] write).length
  | _ => 0

/-- Slots of a type without values are NULLs. -/
theorem eq_replicate_of_nulls (h : (nulls : Layout α).IsSound) (slots : List (Option α)) :
    slots = List.replicate slots.length none := by
  refine List.eq_replicate_iff.2 ⟨rfl, fun s _ => ?_⟩
  cases s with
  | none => rfl
  | some a => exact (h a).elim

private theorem flatMap_elim (write : α → Bytes) (slots : List (Option α)) :
    (slots.flatMap fun s => s.elim [] write) = (slots.filterMap id).flatMap write := by
  induction slots with
  | nil => rfl
  | cons s slots ih => cases s <;> simp [ih]

private theorem mapM_map_eq_ok {ε β γ : Type} {g : α → β} {step : β → Except ε γ} {f : α → γ}
    (h : ∀ a, step (g a) = .ok (f a)) (xs : List α) : (xs.map g).mapM step = .ok (xs.map f) := by
  induction xs with
  | nil => rfl
  | cons a xs ih =>
    rw [List.map_cons, List.mapM_cons, h a, ih]
    rfl

/-- Packed values read back, with some value where there is none. -/
private theorem readValues_bits {write : α → Bool} {read : Bool → α} (slots : List (Option α)) :
    readValues (.bits write read) slots.length
        [packBits (bitBytes slots.length) (slots.map fun s => s.elim false write)] =
      .ok (slots.map fun s => read (s.elim false write)) := by
  obtain ⟨spare, hspare⟩ := unpackBits_packBits (n := bitBytes slots.length)
    (slots.map fun s => s.elim false write) (by simpa using le_bitBytes slots.length)
  have htake : (unpackBits (packBits (bitBytes slots.length)
      (slots.map fun s => s.elim false write))).take slots.length =
        slots.map fun s => s.elim false write := by
    rw [hspare]
    exact List.take_left' (List.length_map _)
  rw [readValues, checkLength, length_packBits, if_neg (Nat.lt_irrefl _), htake, List.map_map]
  rfl

/-- Values of fixed width read back, with zeros where there is none. -/
private theorem readValues_fixed {width : Nat} {write : α → Bytes} {read : Bytes → α}
    (h : ∀ a, (write a).length = width) (slots : List (Option α)) :
    readValues (.fixed width write read) slots.length
        [slots.flatMap fun s => s.elim (List.replicate width 0) write] =
      .ok (slots.map fun s => read (s.elim (List.replicate width 0) write)) := by
  have hwidth (s : Option α) (_ : s ∈ slots) :
      (s.elim (List.replicate width 0) write).length = width := by
    cases s with
    | none => exact List.length_replicate
    | some a => exact h a
  rw [readValues, checkLength, Bytes.length_flatMap_of_width hwidth, if_neg (Nat.lt_irrefl _),
    pieces_flatMap hwidth, List.map_map]
  rfl

/-- Values of varying length read back by their offsets, with nothing where there is none. -/
private theorem readValues_varying {write : α → Bytes} {read : Bytes → Option α}
    {mayBegin : Bytes → Nat → Bool} {f : Option α → α} (slots : List (Option α))
    (hf : ∀ s, read (s.elim [] write) = some (f s))
    (hb : mayBegin (slots.map fun s => s.elim [] write).flatten 0 = true)
    (hl : (slots.map fun s => s.elim [] write).flatten.length < maxDataLength) :
    readValues (.varying write read mayBegin) slots.length
        [if slots.isEmpty then [] else offsets 0 (slots.map fun s => s.elim [] write),
          (slots.map fun s => s.elim [] write).flatten] = .ok (slots.map f) := by
  have hitems := readVarying_offsets hb hl
  rw [List.length_map, List.isEmpty_map] at hitems
  rw [readValues, hitems]
  exact mapM_map_eq_ok (fun s => by simp only [hf s]) slots

/-- **Slots read back.** The first buffer has the marks of the NULLs and the others the values, as
many of them as the layout tells. -/
theorem read_write {l : Layout α} (hl : l.IsSound) (hn : l ≠ nulls) {slots : List (Option α)}
    (hd : l.dataLength slots < maxDataLength) :
    ∃ data values, l.write slots = validity slots :: data ∧ l.buffers? = some data.length ∧
      l.readValues slots.length data = .ok values ∧
      mark (l.nullCount slots) (validity slots) values = .ok slots := by
  cases l with
  | nulls => exact absurd rfl hn
  | dropped value buffers check => exact hl.elim
  | bits write read =>
    exact ⟨_, _, rfl, rfl, readValues_bits slots,
      mark_validity (f := fun s => read (s.elim false write)) hl slots⟩
  | fixed width write read =>
    exact ⟨_, _, rfl, rfl, readValues_fixed (fun a => (hl a).1) slots,
      mark_validity (f := fun s => read (s.elim (List.replicate width 0) write)) (fun a => (hl a).2)
        slots⟩
  | varying write read mayBegin =>
    obtain ⟨hread, hempty, hbegin⟩ := hl
    obtain ⟨default, hdefault⟩ := Option.isSome_iff_exists.1 hempty
    have hflat : (slots.map fun s => s.elim [] write).flatten =
        (slots.filterMap id).flatMap write :=
      flatMap_elim write slots
    -- NULL has the empty byte string, of which something is read that the marks take away.
    have hf (s : Option α) : read (s.elim [] write) = some (s.getD default) := by
      cases s with
      | none => exact hdefault
      | some a => exact hread a
    have hvalues := readValues_varying slots hf (hflat ▸ hbegin _) hd
    exact ⟨_, _, rfl, rfl, hvalues, mark_validity (fun _ => rfl) slots⟩

end Layout

/-! ### Types -/

/-- A signed number reads back if the width holds it. -/
private theorem signed_isSound {α : Type} {width : Nat} {toInt : α → Int} {ofInt : Int → α}
    (h : ∀ a, ofInt (toInt a) = a)
    (hw : ∀ a, -(256 ^ width : Nat) ≤ 2 * toInt a ∧ 2 * toInt a < (256 ^ width : Nat)) :
    (signed width toInt ofInt).IsSound := fun a =>
  ⟨Bytes.length_ofInt .., (congrArg ofInt (Bytes.toInt_ofInt (hw a).1 (hw a).2)).trans (h a)⟩

/-- A pattern of bits reads back if the width holds it. -/
private theorem pattern_isSound {α : Type} {width : Nat} {toNat : α → Nat} {ofNat : Nat → α}
    (h : ∀ a, ofNat (toNat a) = a) (hw : ∀ a, toNat a < 256 ^ width) :
    (pattern width toNat ofNat).IsSound := fun a =>
  ⟨Bytes.length_ofNat .., (congrArg ofNat (Bytes.toNat_ofNat_of_lt (hw a))).trans (h a)⟩

/-- Text begins at its beginning. -/
private theorem mayBeginText_zero (s : String) : mayBeginText (Utf8.encode s) 0 = true := by
  rw [mayBeginText]
  split
  · next hbyte => rw [Utf8.isContinuation_of_encode hbyte, Bool.not_false]
  · rfl

/-- **The layouts of types whose values are kept are sound.** -/
theorem layout_isSound {t : ColumnType} (h : IsKept t) : (layout t).IsSound := by
  cases t with
  | foreign name => exact absurd rfl (h name)
  | null => exact Empty.elim
  | boolean => exact fun _ => rfl
  | int8 =>
    exact signed_isSound (fun a => Int8.ofInt_toInt a) fun a => by
      have := a.toInt_lt; have := a.le_toInt; omega
  | int16 =>
    exact signed_isSound (fun a => Int16.ofInt_toInt a) fun a => by
      have := a.toInt_lt; have := a.le_toInt; omega
  | int32 | date32 =>
    exact signed_isSound (fun a => Int32.ofInt_toInt a) fun a => by
      have := a.toInt_lt; have := a.le_toInt; omega
  | int64 | timestampMicros | duration _ =>
    exact signed_isSound (fun a => Int64.ofInt_toInt a) fun a => by
      have := a.toInt_lt; have := a.le_toInt; omega
  | float32 => exact pattern_isSound (fun _ => UInt32.ofNat_toNat) fun a => a.toNat_lt
  | float64 => exact pattern_isSound (fun _ => UInt64.ofNat_toNat) fun a => a.toNat_lt
  | decimal128 precision scale =>
    exact pattern_isSound (fun a => BitVec.ofNat_toNat 128 a ▸ BitVec.setWidth_eq a) fun a => a.isLt
  | utf8 =>
    refine ⟨fun s => congrArg Except.toOption (Utf8.decode_encode s), rfl, fun values => ?_⟩
    rw [Utf8.flatMap_encode]
    exact mayBeginText_zero _
  | binary => exact ⟨fun _ => rfl, rfl, fun _ => rfl⟩

end Columnar.Stream
