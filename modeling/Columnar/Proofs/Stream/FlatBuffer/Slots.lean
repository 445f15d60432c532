import Columnar.Proofs.Except
import Columnar.Proofs.Stream.FlatBuffer.Parts

/-!
# Slots of flat buffers

What was written into a slot of a table is read from it, be it a number, a byte string or a vector,
and it passes the check of what is expected there. Both follow from where the parts stand: a theorem
about a slot needs to know only that the slot `IsAt` its table.

A check counts the tables that it comes to; `checkSlot_tables` says how many are left after a vector
of them.
-/

namespace Columnar.FlatBuffer

open Bytes (Holds)

/-! ### Reading slots -/

namespace Table

variable {t : Table} {i : Nat}

/-- A number of up to four bytes reads back from its slot. -/
theorem natAt?_of_word {n width : Nat} (h : Slot.IsAt t i (.word n)) (hw : width ≤ 4)
    (hn : n < 256 ^ width) (default : Nat) : t.natAt? width i default = some n := by
  obtain ⟨pos, hslot, -, hholds⟩ := h
  simp only [natAt?, hslot]
  exact nat?_of_holds hholds hw hn

theorem intAt?_of_word {n : Nat} (h : Slot.IsAt t i (.word n)) (default : Int) :
    t.intAt? 4 i default = some (Bytes.toInt (Bytes.ofNat 4 n)) := by
  obtain ⟨pos, hslot, -, hholds⟩ := h
  simp only [intAt?, hslot]
  exact int?_of_holds hholds (Bytes.length_ofNat 4 n) rfl

theorem intAt?_of_long {n : Nat} (h : Slot.IsAt t i (.long n)) (hn : n < 2 ^ 63) (default : Int) :
    t.intAt? 8 i default = some (n : Int) := by
  obtain ⟨pos, hslot, -, hholds⟩ := h
  simp only [intAt?, hslot]
  exact int?_of_holds hholds (Bytes.length_ofNat 8 n) (Bytes.toInt_ofNat (by omega))

/-- A slot that refers to a part leads to where the part is entered. -/
theorem childAt?_of_part {p : Part} (h : Slot.IsAt t i (.part p)) :
    ∃ target, t.childAt? i = some (target + p.entry) ∧ p.IsAt t.buffer target := by
  obtain ⟨pos, target, n, hslot, -, -, hfollow, hp⟩ := h
  exact ⟨target, by simp [childAt?, hslot, hfollow], hp⟩

/-- A byte string reads back from its slot. -/
theorem bytesAt?_of_part {b : Bytes} (h : Slot.IsAt t i (.part (.ofBytes b)))
    (hb : t.buffer.length < maxLength) : t.bytesAt? i = some b := by
  obtain ⟨target, hchild, -, hholds⟩ := childAt?_of_part h
  have hstring := hholds.left.left
  have hlen := hstring.le_length
  rw [List.length_append, Bytes.length_ofNat] at hlen
  have hcount : nat? 4 target t.buffer = some b.length :=
    nat?_of_holds hstring.left (Nat.le_refl 4) (by simp only [maxLength] at hb; omega)
  have hslice : t.buffer.slice? (target + 4) b.length = some b := by
    have := hstring.right.slice?
    rwa [Bytes.length_ofNat] at this
  simp only [bytesAt?, hchild, Option.bind_eq_bind, Option.bind_some, Part.ofBytes, Nat.add_zero,
    hcount, hslice]

/-- Structures read back from the slot of their vector. -/
theorem structsAt?_of_part {width : Nat} {items : List Bytes}
    (h : Slot.IsAt t i (.part (.structs items))) (hb : t.buffer.length < maxLength)
    (hpos : 0 < width) (hw : ∀ s ∈ items, s.length = width) :
    t.structsAt? width i = some items := by
  obtain ⟨target, hchild, hat⟩ := childAt?_of_part h
  obtain ⟨hcount, hend, hitems⟩ := Part.structs_isAt hat hb hpos hw
  have hplace : t.itemsAt? width i =
      some ((List.range items.length).map fun k => target + 4 + 4 + width * k) := by
    simp only [itemsAt?, hchild, Option.bind_eq_bind, Option.bind_some, Part.structs, hcount]
    rw [if_neg (by omega)]
    rfl
  simp only [structsAt?, hplace, Option.bind_eq_bind, Option.bind_some, List.mapM_map]
  refine Option.mapM_range_eq_self fun k s hk => ?_
  exact (hitems k s hk).slice?_of_eq (hw s (List.mem_of_getElem? hk))

/-- Tables read back from the slot of their vector, if what is read of each of them does. -/
theorem tablesAt?_of_part {α : Type} {part : α → Part} {read : Table → Option α} {items : List α}
    (h : Slot.IsAt t i (.part (.vector (items.map part)))) (hb : t.buffer.length < maxLength)
    (hl : ∀ a ∈ items, (part a).IsLaidOut)
    (hread : ∀ a ∈ items, ∀ target, (part a).IsAt t.buffer target →
      ∃ u, ofPos? t.buffer (target + (part a).entry) = some u ∧ read u = some a) :
    ∃ tables, t.tablesAt? i = some tables ∧ tables.mapM read = some items := by
  obtain ⟨target, hchild, hvector⟩ := childAt?_of_part h
  obtain ⟨hcount, hend, hrefs⟩ := Part.vector_isAt hvector hb (by simpa using hl)
  rw [List.length_map] at hcount hend
  have hplace : t.itemsAt? 4 i =
      some ((List.range items.length).map fun k => target + 4 + 4 * k) := by
    simp only [itemsAt?, hchild, Option.bind_eq_bind, Option.bind_some, Part.vector, Nat.add_zero,
      hcount]
    rw [if_neg (by omega)]
    rfl
  simp only [tablesAt?, hplace, Option.bind_eq_bind, Option.bind_some, List.mapM_map]
  refine Option.mapM_range_eq_some fun k a hk => ?_
  obtain ⟨place, hfollow, hat⟩ := hrefs k (part a) (by rw [List.getElem?_map, hk]; rfl)
  obtain ⟨u, hu, ha⟩ := hread a (List.mem_of_getElem? hk) place hat
  exact ⟨u, by simp [hfollow, hu], ha⟩

end Table

/-! ### Checking -/

theorem ofPos?_of_tableAt? {b : Bytes} {pos : Nat} {t : Table} (h : tableAt? b pos = some t) :
    Table.ofPos? b pos = some t := by
  rw [tableAt?] at h
  obtain ⟨u, hu, h⟩ := Option.bind_eq_some_iff.1 h
  split at h <;> cases h
  exact hu

section Checking

variable {τ : Type} {shapes : τ → List (Nat × Shape τ)} {depth : Nat} {t : Table} {i left : Nat}

/-- Checks what a table has in a slot. -/
def checkSlot (shapes : τ → List (Nat × Shape τ)) (depth : Nat) (t : Table) (left : Nat)
    (entry : Nat × Shape τ) : Option Nat :=
  match t.slot entry.1 with
  | some pos => entry.2.check t.buffer (checkTable shapes t.buffer depth) t pos left
  | none => if entry.2.mayMiss t then some left else none

/-- A table is checked slot by slot. -/
theorem checkTable_of_tableAt? {b : Bytes} {pos : Nat} {kind : τ} (h : tableAt? b pos = some t)
    (hb : t.buffer = b) :
    checkTable shapes b (depth + 1) kind pos (left + 1) =
      (shapes kind).foldlM (checkSlot shapes depth t) left := by
  rw [checkTable, h]
  subst hb
  rfl

theorem checkSlot_missing {shape : Shape τ} (h : Slot.IsAt t i .missing)
    (hs : shape.mayMiss t = true) : checkSlot shapes depth t left (i, shape) = some left := by
  have hslot : t.slot i = none := h
  simp only [checkSlot, hslot, hs, if_true]

theorem checkSlot_word {n width : Nat} (h : Slot.IsAt t i (.word n)) (hw : width ∣ 4) :
    checkSlot shapes depth t left (i, .number width) = some left := by
  obtain ⟨pos, hslot, halign, hholds⟩ := h
  have hpos := Nat.dvd_trans hw (Nat.dvd_of_mod_eq_zero halign)
  have hat : isAt t.buffer width pos width = true :=
    isAt_of_holds hholds (Nat.mod_eq_zero_of_dvd hpos)
      (by rw [Bytes.length_ofNat]; exact Nat.le_of_dvd (by decide) hw)
  simp only [checkSlot, hslot, Shape.check, hat, if_true]

theorem checkSlot_long {n : Nat} (h : Slot.IsAt t i (.long n)) :
    checkSlot shapes depth t left (i, .number 8) = some left := by
  obtain ⟨pos, hslot, halign, hholds⟩ := h
  have hat : isAt t.buffer 8 pos 8 = true :=
    isAt_of_holds hholds halign (Nat.le_of_eq (Bytes.length_ofNat 8 n).symm)
  simp only [checkSlot, hslot, Shape.check, hat, if_true]

/-- The distance in a slot that refers to a part is in the buffer and aligned. -/
private theorem isAt_part {p : Part} (h : Slot.IsAt t i (.part p)) :
    ∃ pos target, t.slot i = some pos ∧ isAt t.buffer 4 pos 4 = true ∧
      follow? pos t.buffer = some (target + p.entry) ∧ p.IsAt t.buffer target := by
  obtain ⟨pos, target, n, hslot, halign, hholds, hfollow, hp⟩ := h
  exact ⟨pos, target, hslot,
    isAt_of_holds hholds halign (Nat.le_of_eq (Bytes.length_ofNat 4 n).symm), hfollow, hp⟩

private theorem mod_of_eight {pos : Nat} (h : pos % 8 = 0) (n : Nat) (hn : n ∣ 8) : pos % n = 0 :=
  Nat.mod_eq_zero_of_dvd (Nat.dvd_trans hn (Nat.dvd_of_mod_eq_zero h))

/-- A vector that stands in the buffer, aligned, is found to have its length. -/
private theorem vectorLength?_eq {b : Bytes} {alignment width pos count : Nat}
    (hcount : nat? 4 pos b = some count) (hpos : pos % 4 = 0) (hitems : (pos + 4) % alignment = 0)
    (hend : pos + 4 + width * count ≤ b.length) :
    vectorLength? b alignment width pos = some count := by
  have hle : pos + 4 ≤ b.length := Nat.le_trans (Nat.le_add_right _ _) hend
  simp [vectorLength?, isAt, hcount, hpos, hitems, hend, hle]

theorem checkSlot_text {c : Bytes} {s : String} (h : Slot.IsAt t i (.part (.ofBytes c)))
    (hb : t.buffer.length < maxLength) (hc : Utf8.decode c = .ok s) :
    checkSlot shapes depth t left (i, .text) = some left := by
  obtain ⟨pos, target, hslot, hat, hfollow, halign, hholds⟩ := isAt_part h
  have hstring := hholds.left
  have hlen := hstring.le_length
  simp only [List.length_append, Bytes.length_ofNat, List.length_singleton] at hlen
  have hcount : nat? 4 target t.buffer = some c.length :=
    nat?_of_holds hstring.left.left (Nat.le_refl 4) (by simp only [maxLength] at hb; omega)
  have hvector : vectorLength? t.buffer 1 1 target = some c.length :=
    vectorLength?_eq hcount (mod_of_eight halign 4 (by decide)) (Nat.mod_one _) (by omega)
  have hcontent := hstring.left.right
  have hzero := hstring.right
  simp only [List.length_append, Bytes.length_ofNat] at hcontent hzero
  -- The bytes decode, and a zero byte follows them.
  have htext : isTextAt t.buffer target = true := by
    have hlast : t.buffer[target + 4 + c.length]? = some 0 := by
      rw [Nat.add_assoc]
      exact hzero.getElem?_zero
    simp only [isTextAt, hvector, hcontent.drop_eq, hc, hlast]
    rfl
  simp only [checkSlot, hslot, Shape.check, hat, hfollow, Part.ofBytes, Nat.add_zero, htext,
    Option.bind_eq_bind, Option.bind_some, Bool.and_self, if_true]

/-- A vector of structures passes, of whatever length they are. -/
theorem checkSlot_structs {width : Nat} {items : List Bytes}
    (h : Slot.IsAt t i (.part (.structs items))) (hb : t.buffer.length < maxLength)
    (hpos : 0 < width) (hw : ∀ s ∈ items, s.length = width) :
    checkSlot shapes depth t left (i, .structs width) = some left := by
  obtain ⟨pos, target, hslot, hat, hfollow, hplace⟩ := isAt_part h
  obtain ⟨hcount, hend, -⟩ := Part.structs_isAt hplace hb hpos hw
  have halign := hplace.aligned
  simp only [alignment] at halign
  have hvector : vectorLength? t.buffer 1 width (target + 4) = some items.length :=
    vectorLength?_eq hcount (by omega) (Nat.mod_one _) hend
  simp only [checkSlot, hslot, Shape.check, hat, hfollow, Part.structs, hvector, if_true,
    Option.bind_eq_bind, Option.bind_some]

/-- A table of a kind chosen by another slot passes if it does where it stands. -/
theorem checkSlot_union {p : Part} {key n : Nat} {kind? : Nat → Option τ} {kind : τ} {left' : Nat}
    (h : Slot.IsAt t i (.part p)) (hkey : Slot.IsAt t key (.word n)) (hn : n < 256)
    (hkind : kind? n = some kind)
    (hp : ∀ target, p.IsAt t.buffer target →
      checkTable shapes t.buffer depth kind (target + p.entry) left = some left') :
    checkSlot shapes depth t left (i, .union key kind?) = some left' := by
  obtain ⟨pos, target, hslot, hat, hfollow, hplace⟩ := isAt_part h
  obtain ⟨keyPos, hkeySlot, -, hholds⟩ := hkey
  have hnumber : nat? 1 keyPos t.buffer = some n := nat?_of_holds hholds (by decide) hn
  simp only [checkSlot, hslot, Shape.check, hkeySlot, hnumber, hkind, hat, hfollow, if_true,
    Option.bind_eq_bind, Option.bind_some, hp target hplace]

/-- Steps that take `cost` each. -/
private theorem foldlM_range {step : Nat → Nat → Option Nat} {cost : Nat} (n : Nat)
    (h : ∀ k < n, ∀ left, step (left + cost) k = some left) (left : Nat) :
    (List.range n).foldlM step (left + cost * n) = some left := by
  induction n generalizing left with
  | zero => rfl
  | succ n ih =>
    have hsplit : left + cost * (n + 1) = left + cost + cost * n := by
      rw [Nat.mul_succ]
      omega
    have hfront := ih (fun k hk => h k (Nat.lt_succ_of_lt hk)) (left + cost)
    rw [List.range_succ, List.foldlM_append, hsplit, hfront]
    simp [h n (Nat.lt_succ_self n) left]

/-- A vector of tables passes if they do where they stand; `cost` tables are visited for each of
them. -/
theorem checkSlot_tables {parts : List Part} {kind : τ} (cost : Nat)
    (h : Slot.IsAt t i (.part (.vector parts))) (hb : t.buffer.length < maxLength)
    (hl : ∀ p ∈ parts, p.IsLaidOut)
    (hp : ∀ p ∈ parts, ∀ target left, p.IsAt t.buffer target →
      checkTable shapes t.buffer depth kind (target + p.entry) (left + cost) = some left) :
    checkSlot shapes depth t (left + cost * parts.length) (i, .tables kind) = some left := by
  obtain ⟨pos, target, hslot, hat, hfollow, hplace⟩ := isAt_part h
  obtain ⟨hcount, hend, hrefs⟩ := Part.vector_isAt hplace hb hl
  have halign := hplace.aligned
  simp only [alignment] at halign
  have hvector : vectorLength? t.buffer 4 4 target = some parts.length :=
    vectorLength?_eq hcount (by omega) (by omega) hend
  simp only [checkSlot, hslot, Shape.check, hat, hfollow, Part.vector, Nat.add_zero, hvector,
    if_true, Option.bind_eq_bind, Option.bind_some]
  refine foldlM_range parts.length (fun k hk left => ?_) left
  obtain ⟨place, hplace, hp'⟩ := hrefs k _ (List.getElem?_eq_getElem hk)
  rw [hplace, Option.bind_some]
  exact hp _ (List.getElem_mem hk) place left hp'

end Checking

end Columnar.FlatBuffer
