import Columnar.Proofs.Bytes
import Columnar.Stream.FlatBuffer

/-!
# Where the parts of flat buffers stand

Wherever a written part stands in a buffer, aligned as it was laid out, it is found again by
following the positions that stand in the buffer.

* `Part.IsAt` says that a part stands at a place. A part that refers to others holds them, so that
  they have places, too.
* `Slot.IsAt` says what a table has in a slot, in terms of what was written for it: nothing, the
  bytes of a number, or the distance to the place of a part.
* `Part.table_isAt` and `Part.vector_isAt` find the slots of a table and the items of a vector.
* `Part.IsLaidOut` says that a part can be referred to; it holds of the parts that are made of such.

Distances have four bytes and places in slot indices two, so that buffers are shorter than
`maxLength` and tables have at most `maxSlots` slots.
-/

namespace Columnar.FlatBuffer

open Bytes (Holds)

/-- Buffers are shorter than this, so that all distances fit four bytes. -/
def maxLength : Nat := 2 ^ 32

/-- Tables that are written have no more slots than this. -/
def maxSlots : Nat := 16

/-! ### Numbers -/

section Numbers

variable {b : Bytes} {pos n : Nat}

/-- The low bytes of a number are a number at the same place. -/
theorem nat?_of_holds {width wide : Nat} (h : b.Holds pos (Bytes.ofNat wide n)) (hw : width ≤ wide)
    (hn : n < 256 ^ width) : nat? width pos b = some n := by
  obtain ⟨high, rfl⟩ := Nat.exists_eq_add_of_le hw
  rw [Bytes.ofNat_add] at h
  rw [nat?, h.left.slice?_of_eq (Bytes.length_ofNat width n), Option.map_some,
    Bytes.toNat_ofNat_of_lt hn]

/-- A number is found where its bytes are held. -/
theorem int?_of_holds {width : Nat} {k : Int} {s : Bytes} (h : b.Holds pos s)
    (hl : s.length = width) (hs : Bytes.toInt s = k) : int? width pos b = some k := by
  rw [int?, h.slice?_of_eq hl, Option.map_some, hs]

/-- A distance that is held leads on to where it says. -/
theorem follow?_of_holds (h : b.Holds pos (Bytes.ofNat 4 n)) (hn : n < maxLength) :
    follow? pos b = some (pos + n) := by
  rw [follow?, nat?_of_holds h (Nat.le_refl 4) hn, Option.map_some]

/-- Where enough bytes are held, something that is aligned may stand. -/
theorem isAt_of_holds {alignment size : Nat} {s : Bytes} (h : b.Holds pos s)
    (ha : pos % alignment = 0) (hs : size ≤ s.length) : isAt b alignment pos size = true := by
  have := h.le_length
  simp only [isAt, ha, beq_self_eq_true, Bool.true_and, decide_eq_true_eq]
  omega

end Numbers

/-! ### Parts and slots -/

namespace Part

/-- A part that others can follow, and that can be referred to. -/
structure IsLaidOut (p : Part) : Prop where
  /-- What follows it is aligned. -/
  aligned : p.bytes.length % alignment = 0
  /-- It is entered where it has bytes, or behind them. -/
  entry_le : p.entry ≤ p.bytes.length

/-- A part stands at a place of a buffer. -/
structure IsAt (p : Part) (b : Bytes) (pos : Nat) : Prop where
  /-- The place is aligned. -/
  aligned : pos % alignment = 0
  /-- The bytes of the part are there. -/
  holds : b.Holds pos p.bytes

end Part

namespace Slot

/-- What is found at the place of a value if a slot was written for it; `place` is missing if there
is no such place. -/
def StandsAt (b : Bytes) (place : Option Nat) : Slot → Prop
  | missing => place = none
  | word n => ∃ pos, place = some pos ∧ pos % 4 = 0 ∧ b.Holds pos (Bytes.ofNat 4 n)
  | long n => ∃ pos, place = some pos ∧ pos % 8 = 0 ∧ b.Holds pos (Bytes.ofNat 8 n)
  | part p => ∃ pos target n, place = some pos ∧ pos % 4 = 0 ∧ b.Holds pos (Bytes.ofNat 4 n) ∧
      follow? pos b = some (target + p.entry) ∧ p.IsAt b target

/-- What a table has in a slot if `s` was written for it. -/
def IsAt (t : Table) (i : Nat) (s : Slot) : Prop :=
  s.StandsAt t.buffer (t.slot i)

/-- The part that is referred to, if there is one, can be. -/
def IsLaidOut : Slot → Prop
  | part p => p.IsLaidOut
  | _ => True

/-- What a value refers to takes a multiple of eight bytes, so that the part after it is aligned. -/
private theorem IsLaidOut.dvd_length {s : Slot} (h : s.IsLaidOut) : 8 ∣ s.partBytes.length := by
  cases s with
  | part p => exact Nat.dvd_of_mod_eq_zero (Part.IsLaidOut.aligned h)
  | _ => exact Nat.dvd_zero 8

private theorem length_gap (pos : Nat) (s : Slot) :
    (s.gap pos).length = (s.width - pos % s.width) % s.width := by
  cases s <;> simp [gap, width, Bytes.length_padding]

/-- Where a value begins that has its place at `pos`. -/
def start (pos : Nat) (s : Slot) : Nat :=
  pos + (s.gap pos).length

/-- Values are aligned to their width. -/
private theorem width_dvd_start (pos : Nat) (s : Slot) (h : s ≠ missing) :
    s.width ∣ s.start pos := by
  refine Nat.dvd_of_mod_eq_zero ?_
  cases s with
  | missing => exact absurd rfl h
  | word n | part p => exact Bytes.add_length_padding_mod (by decide : 0 < 4) pos
  | long n => exact Bytes.add_length_padding_mod (by decide : 0 < 8) pos

/-- What stands in a table for a slot whose value begins at `start`, if parts are laid out from
`partPos` on. -/
def bytes (start partPos : Nat) : Slot → Bytes
  | missing => []
  | word n => Bytes.ofNat 4 n
  | long n => Bytes.ofNat 8 n
  | part p => Bytes.ofNat 4 (partPos + p.entry - start)

/-- A value takes the bytes of its width. -/
@[simp] theorem length_bytes (start partPos : Nat) (s : Slot) :
    (s.bytes start partPos).length = s.width := by
  cases s <;> simp [bytes, width]

/-- The entry of a slot index for a slot whose value has its place at `pos`. -/
def distance (pos : Nat) (s : Slot) : Nat :=
  match s with
  | missing => 0
  | _ => s.start pos

private theorem stop_eq (pos : Nat) (s : Slot) : s.stop pos = s.start pos + s.width :=
  rfl

private theorem le_start (pos : Nat) (s : Slot) : pos ≤ s.start pos :=
  Nat.le_add_right _ _

private theorem stop_le (pos : Nat) (s : Slot) : s.stop pos ≤ pos + 15 := by
  have h := s.length_gap pos
  cases s <;> simp only [width] at h <;> simp only [stop, width] <;> omega

end Slot

private theorem le_valuesEnd (pos : Nat) (slots : List Slot) : pos ≤ valuesEnd pos slots := by
  induction slots generalizing pos with
  | nil => exact Nat.le_refl _
  | cons s slots ih =>
    refine Nat.le_trans ?_ (ih (s.stop pos))
    rw [s.stop_eq]
    exact Nat.le_trans (s.le_start pos) (Nat.le_add_right _ _)

/-- A value takes at most fifteen bytes with the gap before it. This keeps the distances of a table
small. -/
private theorem valuesEnd_le (pos : Nat) (slots : List Slot) :
    valuesEnd pos slots ≤ pos + 15 * slots.length := by
  induction slots generalizing pos with
  | nil => exact Nat.le_refl _
  | cons s slots ih =>
    have hstop := s.stop_le pos
    have := ih (s.stop pos)
    simp only [valuesEnd, List.foldl_cons, List.length_cons] at this ⊢
    omega

/-- All values take multiples of four bytes. -/
private theorem four_dvd_valuesEnd {pos : Nat} (slots : List Slot) (h : 4 ∣ pos) :
    4 ∣ valuesEnd pos slots := by
  induction slots generalizing pos with
  | nil => exact h
  | cons s slots ih =>
    refine ih ?_
    cases s with
    | missing => exact h
    | word n | part p => exact Nat.dvd_add (Slot.width_dvd_start pos _ nofun) (Nat.dvd_refl 4)
    | long n =>
      have hdvd : 8 ∣ Slot.start pos (.long n) := Slot.width_dvd_start pos _ nofun
      exact Nat.dvd_add (Nat.dvd_trans (by decide : 4 ∣ 8) hdvd) (by decide : 4 ∣ 8)

/-! ### Tables -/

/-- The first value stands behind its gap, and what it refers to comes before what the others refer
to. -/
private theorem values_cons (pos partPos : Nat) (s : Slot) (slots : List Slot) :
    values pos partPos (s :: slots) =
      s.gap pos ++ s.bytes (s.start pos) partPos ++
        values (s.stop pos) (partPos + s.partBytes.length) slots := by
  cases s <;> rfl

private theorem entries_cons (pos : Nat) (s : Slot) (slots : List Slot) :
    entries pos (s :: slots) = Bytes.ofNat 2 (s.distance pos) ++ entries (s.stop pos) slots := by
  cases s <;> rfl

/-- A value stands where the entry of its slot says. -/
private theorem Slot.standsAt_of_holds {b : Bytes} {base pos partPos : Nat} {s : Slot}
    (hbase : 8 ∣ base) (hb : b.length < maxLength) (hl : s.IsLaidOut) (hpos : 0 < pos)
    (hstart : s.start pos ≤ partPos) (hpart : 8 ∣ partPos)
    (hvalue : b.Holds (base + s.start pos) (s.bytes (s.start pos) partPos))
    (hparts : b.Holds (base + partPos) s.partBytes) :
    s.StandsAt b (if s.distance pos = 0 then none else some (base + s.distance pos)) := by
  have hne : s.start pos ≠ 0 := Nat.ne_of_gt (Nat.lt_of_lt_of_le hpos (s.le_start pos))
  cases s with
  | missing => rfl
  | word n =>
    have hdvd : 4 ∣ Slot.start pos (.word n) := width_dvd_start pos _ nofun
    refine ⟨_, if_neg hne, Nat.mod_eq_zero_of_dvd ?_, hvalue⟩
    exact Nat.dvd_add (Nat.dvd_trans (by decide : 4 ∣ 8) hbase) hdvd
  | long n =>
    have hdvd : 8 ∣ Slot.start pos (.long n) := width_dvd_start pos _ nofun
    exact ⟨_, if_neg hne, Nat.mod_eq_zero_of_dvd (Nat.dvd_add hbase hdvd), hvalue⟩
  | part p =>
    have hdvd : 4 ∣ Slot.start pos (.part p) := width_dvd_start pos _ nofun
    have hentry : p.entry ≤ p.bytes.length := hl.entry_le
    have hlen : base + partPos + p.bytes.length ≤ b.length := hparts.le_length
    have hfollow := follow?_of_holds hvalue (by omega)
    refine ⟨_, base + partPos, _, if_neg hne, Nat.mod_eq_zero_of_dvd ?_, hvalue, ?_,
      Nat.mod_eq_zero_of_dvd (Nat.dvd_add hbase hpart), hparts⟩
    · exact Nat.dvd_add (Nat.dvd_trans (by decide : 4 ∣ 8) hbase) hdvd
    · exact hfollow.trans (congrArg some (by omega))

/-- The values of a table and the entries of its slot index agree: for each slot there is an entry,
and what it leads to is what was written. -/
private theorem standsAt_of_holds {b : Bytes} {base : Nat} (hbase : 8 ∣ base)
    (hb : b.length < maxLength) {slots : List Slot} (hl : ∀ s ∈ slots, s.IsLaidOut)
    {index pos partPos : Nat} (hpos : 0 < pos) (hend : valuesEnd pos slots ≤ partPos)
    (hsmall : valuesEnd pos slots < 2 ^ 16) (hpart : 8 ∣ partPos)
    (hvalues : b.Holds (base + pos) (values pos partPos slots))
    (hentries : b.Holds index (entries pos slots))
    (hparts : b.Holds (base + partPos) (slots.flatMap Slot.partBytes)) (i : Nat) (s : Slot)
    (hi : slots[i]? = some s) :
    ∃ distance, nat? 2 (index + 2 * i) b = some distance ∧
      s.StandsAt b (if distance = 0 then none else some (base + distance)) := by
  induction slots generalizing index pos partPos i with
  | nil => cases hi
  | cons s' slots ih =>
    have hstop : s'.stop pos ≤ valuesEnd pos (s' :: slots) := le_valuesEnd (s'.stop pos) slots
    have hstart : s'.start pos ≤ s'.stop pos := Nat.le_add_right _ _
    have hle : pos ≤ s'.start pos := s'.le_start pos
    rw [values_cons, List.append_assoc] at hvalues
    rw [entries_cons] at hentries
    rw [List.flatMap_cons] at hparts
    have hvalue := hvalues.right
    rw [Nat.add_assoc] at hvalue
    cases i with
    | zero =>
      obtain rfl : s' = s := Option.some.inj hi
      have hdist : s'.distance pos < 256 ^ 2 := by
        cases s' <;> simp only [Slot.distance] <;> omega
      refine ⟨s'.distance pos, nat?_of_holds hentries.left (Nat.le_refl 2) hdist, ?_⟩
      exact Slot.standsAt_of_holds hbase hb (hl _ List.mem_cons_self) hpos (by omega) hpart
        hvalue.left hparts.left
    | succ i =>
      -- Values, entries and parts go on behind those of the first slot.
      have hrest := hvalue.right
      rw [Slot.length_bytes, Nat.add_assoc] at hrest
      have hindex : index + 2 * (i + 1) = index + 2 + 2 * i := by omega
      have hentries := hentries.right
      rw [Bytes.length_ofNat] at hentries
      have hparts := hparts.right
      rw [Nat.add_assoc] at hparts
      have hdvd : 8 ∣ s'.partBytes.length := (hl _ List.mem_cons_self).dvd_length
      rw [hindex]
      exact ih (fun s hs => hl s (List.mem_cons_of_mem _ hs)) (by omega)
        (Nat.le_trans hend (Nat.le_add_right _ _)) hsmall (Nat.dvd_add hpart hdvd) hrest hentries
        hparts i hi

/-- The values end where they are laid out to end. -/
private theorem length_values (pos partPos : Nat) (slots : List Slot) :
    pos + (values pos partPos slots).length = valuesEnd pos slots := by
  induction slots generalizing pos partPos with
  | nil => rfl
  | cons s slots ih =>
    have htail := ih (s.stop pos) (partPos + s.partBytes.length)
    rw [values_cons, List.length_append, List.length_append, Slot.length_bytes, ← Nat.add_assoc,
      ← Nat.add_assoc]
    exact htail

/-- There are two bytes for each value. -/
@[simp] theorem length_entries (pos : Nat) (slots : List Slot) :
    (entries pos slots).length = 2 * slots.length := by
  induction slots generalizing pos with
  | nil => rfl
  | cons s slots ih =>
    rw [entries_cons, List.length_append, ih, Bytes.length_ofNat, List.length_cons]
    omega

private theorem dvd_length_flatMap {α : Type} {f : α → Bytes} {items : List α} {n : Nat}
    (h : ∀ a ∈ items, n ∣ (f a).length) : n ∣ (items.flatMap f).length := by
  induction items with
  | nil => exact Nat.dvd_zero n
  | cons a items ih =>
    rw [List.flatMap_cons, List.length_append]
    exact Nat.dvd_add (h a List.mem_cons_self) (ih fun c hc => h c (List.mem_cons_of_mem _ hc))

/-- The stretches of a table that stands at a place, one after the other. The parts that its slots
refer to are laid out from `partPos` on. -/
private structure TableAt (slots : List Slot) (b : Bytes) (pos partPos : Nat) : Prop where
  /-- The distance back to the slot index. -/
  back : b.Holds pos (Bytes.ofInt 4 (-(valuesEnd 4 slots)))
  /-- The values. -/
  values : b.Holds (pos + 4) (values 4 partPos slots)
  /-- The length of the slot index. -/
  size : b.Holds (pos + valuesEnd 4 slots) (Bytes.ofNat 2 (4 + 2 * slots.length))
  /-- The entries of the slot index. -/
  entries : b.Holds (pos + valuesEnd 4 slots + 4) (entries 4 slots)
  /-- The parts. -/
  parts : b.Holds (pos + partPos) (slots.flatMap Slot.partBytes)
  /-- The parts are aligned. -/
  dvd : 8 ∣ partPos
  /-- They follow the values. -/
  valuesEnd_le : valuesEnd 4 slots ≤ partPos

/-- The values of a table are found where its bytes are held. -/
private theorem tableAt_of_holds {slots : List Slot} {b : Bytes} {pos : Nat}
    (h : b.Holds pos (Part.table slots).bytes) : ∃ partPos, TableAt slots b pos partPos := by
  have hpad := Bytes.add_length_padding_mod (by decide : 0 < alignment)
    (valuesEnd 4 slots + (Table.indexHead + 2 * slots.length))
  simp only [Part.table, Table.indexHead] at h hpad
  -- The distance, the values, the slot index with its two lengths, a gap, and the parts.
  generalize Bytes.padding alignment (valuesEnd 4 slots + (4 + 2 * slots.length)) = gap at h hpad
  obtain ⟨h, hparts⟩ := Holds.append_iff.1 h
  obtain ⟨h, -⟩ := Holds.append_iff.1 h
  obtain ⟨hhead, hindex⟩ := Holds.append_iff.1 h
  obtain ⟨hback, hvalues⟩ := Holds.append_iff.1 hhead
  obtain ⟨hsize, hentries⟩ := Holds.append_iff.1 hindex
  have hlength := length_values 4 (valuesEnd 4 slots + (4 + 2 * slots.length) + gap.length) slots
  simp only [List.length_append, Bytes.length_ofInt, Bytes.length_ofNat, length_entries, hlength]
    at hparts hvalues hsize hentries
  exact ⟨_, hback, hvalues, hsize.left, hentries, hparts, Nat.dvd_of_mod_eq_zero hpad,
    Nat.le_trans (Nat.le_add_right _ _) (Nat.le_add_right _ _)⟩

/-- Where a table stands, there is one with a sound slot index. -/
private theorem tableAt?_of_tableAt {slots : List Slot} {b : Bytes} {pos partPos : Nat}
    (h : TableAt slots b pos partPos) (hpos : 8 ∣ pos) (hs : slots.length ≤ maxSlots) :
    tableAt? b pos = some ⟨b, pos, pos + valuesEnd 4 slots, 4 + 2 * slots.length⟩ := by
  have hlen : valuesEnd 4 slots ≤ 4 + 15 * slots.length := valuesEnd_le 4 slots
  have hfour : 4 ∣ valuesEnd 4 slots := four_dvd_valuesEnd slots (by decide)
  simp only [maxSlots] at hs
  have hback : int? 4 pos b = some (-(valuesEnd 4 slots : Int)) :=
    int?_of_holds h.back (Bytes.length_ofInt 4 _) (Bytes.toInt_ofInt (by omega) (by omega))
  have hsize : nat? 2 (pos + valuesEnd 4 slots) b = some (4 + 2 * slots.length) :=
    nat?_of_holds h.size (Nat.le_refl 2) (by omega)
  have hend := h.entries.le_length
  rw [length_entries] at hend
  have hindex : (pos : Int) - -(valuesEnd 4 slots : Int) =
      ((pos + valuesEnd 4 slots : Nat) : Int) := by
    omega
  have htable :
      Table.ofPos? b pos = some ⟨b, pos, pos + valuesEnd 4 slots, 4 + 2 * slots.length⟩ := by
    simp only [Table.ofPos?, hback, Option.bind_eq_bind, Option.bind_some, hindex,
      Int.toNat_natCast, hsize]
    rw [if_neg (by omega), if_neg (by omega)]
    rfl
  -- The check of the table itself: it is aligned, and so is its slot index, which is in the buffer.
  have hstart : isAt b 4 pos 4 = true :=
    isAt_of_holds h.back (Nat.mod_eq_zero_of_dvd (Nat.dvd_trans (by decide : 4 ∣ 8) hpos))
      (Nat.le_of_eq (Bytes.length_ofInt 4 _).symm)
  have hindexAt : isAt b 2 (pos + valuesEnd 4 slots) (4 + 2 * slots.length) = true := by
    simp only [isAt, Bool.and_eq_true, beq_iff_eq, decide_eq_true_eq]
    omega
  have heven : (4 + 2 * slots.length) % 2 = 0 := by omega
  simp [tableAt?, htable, hstart, hindexAt, heven]

/-- **Tables read back.** Where a table stands, there is one with a sound slot index, and each of
its slots has what was written for it. Slots beyond those that were written are missing. -/
theorem Part.table_isAt {slots : List Slot} {b : Bytes} {pos : Nat}
    (h : (Part.table slots).IsAt b pos) (hb : b.length < maxLength) (hs : slots.length ≤ maxSlots)
    (hl : ∀ s ∈ slots, s.IsLaidOut) :
    ∃ t, tableAt? b pos = some t ∧ t.buffer = b ∧
      ∀ i : Nat, Slot.IsAt t i (slots[i]?.getD .missing) := by
  obtain ⟨halign, hholds⟩ := h
  have halign : 8 ∣ pos := Nat.dvd_of_mod_eq_zero halign
  obtain ⟨partPos, hat⟩ := tableAt_of_holds hholds
  refine ⟨_, tableAt?_of_tableAt hat halign hs, rfl, fun i => ?_⟩
  have hlen : valuesEnd 4 slots ≤ 4 + 15 * slots.length := valuesEnd_le 4 slots
  simp only [maxSlots] at hs
  by_cases hi : i < slots.length
  · obtain ⟨distance, hentry, hstands⟩ := standsAt_of_holds halign hb hl (by decide)
      hat.valuesEnd_le (by omega) hat.dvd hat.values hat.entries hat.parts i _
      (List.getElem?_eq_getElem hi)
    have hslot : Table.slot ⟨b, pos, pos + valuesEnd 4 slots, 4 + 2 * slots.length⟩ i =
        if distance = 0 then none else some (pos + distance) := by
      simp only [Table.slot, Table.indexHead, hentry]
      rw [if_neg (by omega)]
      cases distance <;> rfl
    rw [Slot.IsAt, hslot, List.getElem?_eq_getElem hi]
    exact hstands
  · -- The slot index has no entry for the slot.
    rw [List.getElem?_eq_none (Nat.not_lt.1 hi)]
    exact if_pos (by simp only [Table.indexHead]; omega)

/-! ### Vectors -/

/-- The references of a vector lead to its parts. -/
private theorem follow?_of_references {b : Bytes} {base : Nat} (hbase : 8 ∣ base)
    (hb : b.length < maxLength) {parts : List Part} (hl : ∀ p ∈ parts, p.IsLaidOut)
    {pos partPos : Nat} (hpos : pos + 4 * parts.length ≤ partPos) (hpart : 8 ∣ partPos)
    (hrefs : b.Holds (base + pos) (references pos partPos parts))
    (hparts : b.Holds (base + partPos) (parts.flatMap (·.bytes))) (i : Nat) (p : Part)
    (hi : parts[i]? = some p) :
    ∃ target, follow? (base + pos + 4 * i) b = some (target + p.entry) ∧ p.IsAt b target := by
  induction parts generalizing pos partPos i with
  | nil => cases hi
  | cons q parts ih =>
    have hq := hl q List.mem_cons_self
    have hentry := hq.entry_le
    rw [List.length_cons] at hpos
    rw [references] at hrefs
    rw [List.flatMap_cons] at hparts
    have hlen := hparts.left.le_length
    cases i with
    | zero =>
      obtain rfl : q = p := Option.some.inj hi
      have hfollow := follow?_of_holds hrefs.left (by omega)
      exact ⟨base + partPos, hfollow.trans (congrArg some (by omega)),
        Nat.mod_eq_zero_of_dvd (Nat.dvd_add hbase hpart), hparts.left⟩
    | succ i =>
      -- References and parts go on behind those of the first part.
      have hrefs := hrefs.right
      have hparts := hparts.right
      rw [Bytes.length_ofNat, Nat.add_assoc] at hrefs
      rw [Nat.add_assoc] at hparts
      have hpos' : base + pos + 4 * (i + 1) = base + (pos + 4) + 4 * i := by omega
      rw [hpos']
      exact ih (fun p hp => hl p (List.mem_cons_of_mem _ hp)) (by omega)
        (Nat.dvd_add hpart (Nat.dvd_of_mod_eq_zero hq.aligned)) hrefs hparts i hi

/-- There are four bytes for each part. -/
private theorem length_references (pos partPos : Nat) (parts : List Part) :
    (references pos partPos parts).length = 4 * parts.length := by
  induction parts generalizing pos partPos with
  | nil => rfl
  | cons p parts ih =>
    rw [references, List.length_append, ih, Bytes.length_ofNat, List.length_cons]
    omega

/-- **Vectors read back.** Where a vector stands, there is its length, and behind it a reference to
each of its parts. -/
theorem Part.vector_isAt {parts : List Part} {b : Bytes} {pos : Nat}
    (h : (Part.vector parts).IsAt b pos) (hb : b.length < maxLength)
    (hl : ∀ p ∈ parts, p.IsLaidOut) :
    nat? 4 pos b = some parts.length ∧ pos + 4 + 4 * parts.length ≤ b.length ∧
      ∀ (i : Nat) p, parts[i]? = some p →
        ∃ target, follow? (pos + 4 + 4 * i) b = some (target + p.entry) ∧ p.IsAt b target := by
  obtain ⟨halign, hholds⟩ := h
  have hpad := Bytes.add_length_padding_mod (by decide : 0 < alignment) (4 + 4 * parts.length)
  simp only [Part.vector] at hholds
  -- The length, the references, a gap, and the parts.
  generalize Bytes.padding alignment (4 + 4 * parts.length) = gap at hholds hpad
  obtain ⟨hholds, hparts⟩ := Holds.append_iff.1 hholds
  obtain ⟨hcount, hrefs⟩ := Holds.append_iff.1 hholds.left
  have hend := hrefs.le_length
  simp only [List.length_append, Bytes.length_ofNat, length_references] at hparts hrefs hend
  refine ⟨nat?_of_holds hcount (Nat.le_refl 4) ?_, by omega, ?_⟩
  · simp only [maxLength] at hb
    omega
  · exact follow?_of_references (Nat.dvd_of_mod_eq_zero halign) hb hl (Nat.le_add_right _ _)
      (Nat.dvd_of_mod_eq_zero hpad) hrefs hparts

private theorem length_flatten_of_width {width : Nat} {items : List Bytes}
    (hw : ∀ s ∈ items, s.length = width) : items.flatten.length = width * items.length := by
  rw [← List.flatMap_id]
  exact Bytes.length_flatMap_of_width hw

/-- Where an item of a sequence of byte strings of one length stands. -/
private theorem holds_of_flatten {b : Bytes} {width pos : Nat} {items : List Bytes}
    (hw : ∀ s ∈ items, s.length = width) (h : b.Holds pos items.flatten) (k : Nat) (s : Bytes)
    (hk : items[k]? = some s) : b.Holds (pos + width * k) s := by
  induction items generalizing pos k with
  | nil => cases hk
  | cons s' items ih =>
    rw [List.flatten_cons] at h
    cases k with
    | zero => cases hk; exact h.left
    | succ k =>
      have hright := h.right
      rw [hw s' List.mem_cons_self] at hright
      have := ih (fun s hs => hw s (List.mem_cons_of_mem _ hs)) hright k hk
      rwa [Nat.add_assoc, Nat.add_comm width, ← Nat.mul_succ] at this

/-- Where a vector of structures stands, there is its length, and behind it the structures. -/
theorem Part.structs_isAt {items : List Bytes} {width : Nat} {b : Bytes} {pos : Nat}
    (h : (Part.structs items).IsAt b pos) (hb : b.length < maxLength) (hpos : 0 < width)
    (hw : ∀ s ∈ items, s.length = width) :
    nat? 4 (pos + 4) b = some items.length ∧ pos + 4 + 4 + width * items.length ≤ b.length ∧
      ∀ (k : Nat) s, items[k]? = some s → b.Holds (pos + 4 + 4 + width * k) s := by
  obtain ⟨-, hholds⟩ := h
  simp only [Part.structs] at hholds
  obtain ⟨hhead, hitems⟩ := Holds.append_iff.1 hholds
  have hcount := hhead.right
  have hlen := hitems.le_length
  have hflat := length_flatten_of_width hw
  simp only [List.length_append, Bytes.length_ofNat, hflat] at hcount hitems hlen
  have hle : items.length ≤ width * items.length := Nat.le_mul_of_pos_left _ hpos
  exact ⟨nat?_of_holds hcount (Nat.le_refl 4) (by simp only [maxLength] at hb; omega), by omega,
    holds_of_flatten hw hitems⟩

/-! ### Parts that can be referred to -/

namespace Part

/-- A table is laid out if its values are. -/
theorem table_isLaidOut {slots : List Slot} (hl : ∀ s ∈ slots, s.IsLaidOut) :
    (Part.table slots).IsLaidOut where
  aligned := by
    have hpad := Bytes.add_length_padding_mod (by decide : 0 < alignment)
      (valuesEnd 4 slots + (Table.indexHead + 2 * slots.length))
    have hparts := dvd_length_flatMap fun s hs => (hl s hs).dvd_length
    have hvalues := length_values 4 (valuesEnd 4 slots + (4 + 2 * slots.length) +
      (Bytes.padding alignment (valuesEnd 4 slots + (4 + 2 * slots.length))).length) slots
    simp only [Part.table, Table.indexHead, List.length_append, Bytes.length_ofInt,
      Bytes.length_ofNat, length_entries, hvalues] at hpad ⊢
    simp only [alignment] at *
    omega
  entry_le := Nat.zero_le _

/-- A table takes little more than its parts. -/
theorem length_table_le (slots : List Slot) :
    (Part.table slots).bytes.length ≤
      15 + 17 * slots.length + (slots.flatMap Slot.partBytes).length := by
  have hend := valuesEnd_le 4 slots
  have hgap := Bytes.length_padding alignment (valuesEnd 4 slots + (4 + 2 * slots.length))
  have hvalues := length_values 4 (valuesEnd 4 slots + (4 + 2 * slots.length) +
    (Bytes.padding alignment (valuesEnd 4 slots + (4 + 2 * slots.length))).length) slots
  have hmod := Nat.mod_lt (alignment - (valuesEnd 4 slots + (4 + 2 * slots.length)) % alignment)
    (by decide : 0 < alignment)
  simp only [Part.table, Table.indexHead, List.length_append, Bytes.length_ofInt,
    Bytes.length_ofNat, length_entries, hvalues]
  simp only [alignment] at *
  omega

/-- A vector of structures takes eight bytes more than its structures. -/
theorem length_structs {items : List Bytes} {width : Nat} (hw : ∀ s ∈ items, s.length = width) :
    (Part.structs items).bytes.length = 8 + width * items.length := by
  simp only [Part.structs, List.length_append, Bytes.length_ofNat, length_flatten_of_width hw]

/-- A vector is laid out if its parts are. -/
theorem vector_isLaidOut {parts : List Part} (hl : ∀ p ∈ parts, p.IsLaidOut) :
    (Part.vector parts).IsLaidOut where
  aligned := by
    have hpad := Bytes.add_length_padding_mod (by decide : 0 < alignment) (4 + 4 * parts.length)
    have hparts : 8 ∣ (parts.flatMap (·.bytes)).length :=
      dvd_length_flatMap fun p hp => Nat.dvd_of_mod_eq_zero (hl p hp).aligned
    simp only [Part.vector, List.length_append, Bytes.length_ofNat, length_references]
    simp only [alignment] at *
    omega
  entry_le := Nat.zero_le _

/-- Bytes and texts are laid out, whatever they hold. -/
theorem ofBytes_isLaidOut (b : Bytes) : (Part.ofBytes b).IsLaidOut where
  aligned := by
    rw [Part.ofBytes, FlatBuffer.aligned, List.length_append]
    exact Bytes.add_length_padding_mod (by decide) _
  entry_le := Nat.zero_le _

/-- A vector of structures is laid out if the size of each is a multiple of eight. -/
theorem structs_isLaidOut {items : List Bytes} (h : ∀ s ∈ items, 8 ∣ s.length) :
    (Part.structs items).IsLaidOut where
  aligned := by
    have hitems : 8 ∣ items.flatten.length := by
      simpa [List.flatMap_def] using dvd_length_flatMap h
    simp only [Part.structs, List.length_append, Bytes.length_ofNat, alignment]
    omega
  entry_le := by
    simp only [Part.structs, List.length_append, Bytes.length_ofNat]
    omega

end Part

end Columnar.FlatBuffer
