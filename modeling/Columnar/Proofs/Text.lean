import Columnar.Proofs.Except
import Columnar.Text
import Mathlib.Data.List.TakeWhile

/-!
# Blanks and integers in text

What trimming leaves of a text, and which texts are read as integers. A text is trimmed to another
one that is between blanks in it (`Text.Pads`), and if that has no blanks itself, to that one only
(`Text.trim_iff`). The integers of a range are read from their numerals and from nothing else
(`Text.parseInteger_eq_ok_iff`); a numeral may have a sign, and zeros in front.
-/

namespace Columnar.Text

/-! ### Blanks -/

/-- One text is the other one between blanks. -/
def Pads (text padded : List Char) : Prop :=
  ∃ before after, (∀ c ∈ before, isBlank c = true) ∧ (∀ c ∈ after, isBlank c = true) ∧
    padded = before ++ text ++ after

/-- Trimming takes nothing but blanks away. -/
theorem pads_trim (s : List Char) : Pads (trim s) s := by
  refine ⟨s.takeWhile isBlank, ((s.dropWhile isBlank).reverse.takeWhile isBlank).reverse,
    fun c => List.mem_takeWhile_imp, fun c hc => List.mem_takeWhile_imp (List.mem_reverse.1 hc), ?_⟩
  rw [trim, List.append_assoc, ← List.reverse_append, List.takeWhile_append_dropWhile,
    List.reverse_reverse, List.takeWhile_append_dropWhile]

private theorem dropWhile_isBlank_eq_self {s : List Char} (hs : ∀ c ∈ s, isBlank c = false) :
    s.dropWhile isBlank = s := by
  cases s with
  | nil => rfl
  | cons c s => rw [List.dropWhile_cons_of_neg (by simp [hs c List.mem_cons_self])]

/-- Trimming takes all blanks away around a text without any. -/
theorem trim_of_pads {text padded : List Char} (htext : ∀ c ∈ text, isBlank c = false)
    (h : Pads text padded) : trim padded = text := by
  obtain ⟨before, after, hbefore, hafter, rfl⟩ := h
  -- What is left of the front is the text; if there is none, the blanks behind it go as well.
  have hfront : ((before ++ text ++ after).dropWhile isBlank).reverse.dropWhile isBlank =
      text.reverse := by
    rw [List.append_assoc, List.dropWhile_append_of_pos hbefore]
    cases text with
    | nil =>
      rw [List.nil_append, List.dropWhile_eq_nil_iff.2 hafter]
      rfl
    | cons c text =>
      have hafter' : ∀ d ∈ after.reverse, isBlank d = true := by simpa using hafter
      rw [List.cons_append, List.dropWhile_cons_of_neg (by simp [htext c List.mem_cons_self]),
        ← List.cons_append, List.reverse_append, List.dropWhile_append_of_pos hafter']
      exact dropWhile_isBlank_eq_self fun d hd => htext d (List.mem_reverse.1 hd)
  rw [trim, hfront, List.reverse_reverse]

/-- What can be said of texts without blanks only is said of a trimmed text if it is said of the
text between the blanks. -/
theorem trim_iff {P : List Char → Prop} {padded : List Char}
    (hP : ∀ text, P text → ∀ c ∈ text, isBlank c = false) :
    P (trim padded) ↔ ∃ text, Pads text padded ∧ P text := by
  refine ⟨fun h => ⟨_, pads_trim padded, h⟩, ?_⟩
  rintro ⟨text, hpads, h⟩
  rwa [trim_of_pads (hP text h) hpads]

private theorem isBlank_of_isDigit {c : Char} (hc : c.isDigit = true) : isBlank c = false := by
  simp only [Char.isDigit, Bool.and_eq_true, decide_eq_true_eq, UInt32.le_iff_toNat_le] at hc
  obtain ⟨hlow, hhigh⟩ := hc
  have hn : 48 ≤ c.toNat ∧ c.toNat ≤ 57 := ⟨hlow, hhigh⟩
  simp only [isBlank, Bool.or_eq_false_iff, Bool.and_eq_false_iff, decide_eq_false_iff_not,
    beq_eq_false_iff_ne]
  omega

/-- Blanks are no letters. -/
theorem toLower_of_isBlank {c : Char} (hc : isBlank c = true) : c.toLower = c := by
  have hupper : ¬(65 ≤ c.toNat ∧ c.toNat ≤ 90) := by
    simp only [isBlank, Bool.or_eq_true, Bool.and_eq_true, decide_eq_true_eq, beq_iff_eq] at hc
    omega
  exact dif_neg hupper

/-! ### Integers -/

/-- Decimal digits, at least one, that stand for a number. Zeros may be in front. -/
def IsMagnitude (digits : List Char) (n : Nat) : Prop :=
  digits ≠ [] ∧ (∀ c ∈ digits, c.isDigit = true) ∧ Nat.ofDigitChars 10 digits 0 = n

/-- The numerals of an integer. A minus sign is a sign in signed numerals only, and there zero may
have it as well. -/
inductive IsNumeral (signed : Bool) : List Char → Int → Prop
  /-- Digits alone. -/
  | plain {digits n} (h : IsMagnitude digits n) : IsNumeral signed digits n
  /-- Digits after a plus sign. -/
  | plus {digits n} (h : IsMagnitude digits n) : IsNumeral signed ('+' :: digits) n
  /-- Digits after a minus sign. -/
  | minus {digits n} (hsigned : signed = true) (h : IsMagnitude digits n) :
    IsNumeral signed ('-' :: digits) (-n)

theorem le_ofDigitChars (digits : List Char) (n : Nat) : n ≤ Nat.ofDigitChars 10 digits n := by
  induction digits generalizing n with
  | nil => exact Nat.le_refl n
  | cons c cs ih =>
    rw [Nat.ofDigitChars_cons]
    have := ih (10 * n + (c.toNat - '0'.toNat))
    omega

/-- Digits are read up to a limit. As a number grows with each digit, it is enough to look at the
whole number. -/
theorem parseDigits_eq_ok_iff {limit magnitude n : Nat} {beyond : IntegerFault} {s : List Char}
    (hmagnitude : magnitude ≤ limit) : parseDigits limit beyond magnitude s = .ok n ↔
      (∀ c ∈ s, c.isDigit = true) ∧ Nat.ofDigitChars 10 s magnitude = n ∧ n ≤ limit := by
  induction s generalizing magnitude with
  | nil =>
    rw [parseDigits, Except.ok.injEq]
    exact ⟨fun h => ⟨nofun, h, h ▸ hmagnitude⟩, fun h => h.2.1⟩
  | cons c s ih =>
    rw [parseDigits, List.forall_mem_cons, Nat.ofDigitChars_cons, show '0'.toNat = 48 from rfl]
    split
    · next hdigit =>
      dsimp only
      split
      · next hnext => rw [ih hnext, and_iff_right hdigit]
      · next hnext =>
        have hle := le_ofDigitChars s (10 * magnitude + (c.toNat - 48))
        exact iff_of_false nofun fun ⟨_, hn, hlimit⟩ => hnext (Nat.le_trans hle (hn ▸ hlimit))
    · next hdigit => exact iff_of_false nofun fun h => hdigit h.1.1

/-- Digits that stand for a number are read with a sign, if the limit on the number is the one that
the range sets. -/
private theorem map_parseDigits_eq_ok_iff {limit : Nat} {beyond : IntegerFault} {digits : List Char}
    {sign : Nat → Int} {least greatest n : Int} (hdigits : digits ≠ [])
    (hlimit : ∀ m, m ≤ limit ↔ least ≤ sign m ∧ sign m ≤ greatest) :
    (parseDigits limit beyond 0 digits).map sign = .ok n ↔
      (∃ m, IsMagnitude digits m ∧ sign m = n) ∧ least ≤ n ∧ n ≤ greatest := by
  constructor
  · intro h
    obtain ⟨m, hm, rfl⟩ := Except.map_eq_ok h
    obtain ⟨hall, hvalue, hle⟩ := (parseDigits_eq_ok_iff (Nat.zero_le limit)).1 hm
    exact ⟨⟨m, ⟨hdigits, hall, hvalue⟩, rfl⟩, (hlimit m).1 hle⟩
  · rintro ⟨⟨m, ⟨-, hall, hvalue⟩, rfl⟩, hrange⟩
    rw [(parseDigits_eq_ok_iff (Nat.zero_le limit)).2 ⟨hall, hvalue, (hlimit m).2 hrange⟩]
    rfl

private theorem IsMagnitude.isDigit_head {c : Char} {digits : List Char} {n : Nat}
    (h : IsMagnitude (c :: digits) n) : c.isDigit = true :=
  h.2.1 c List.mem_cons_self

section Numerals

variable {signed : Bool} {digits : List Char} {n : Int}

private theorem isNumeral_plus_iff :
    IsNumeral signed ('+' :: digits) n ↔ ∃ m, IsMagnitude digits m ∧ Int.ofNat m = n := by
  constructor
  · intro h
    cases h with
    | plain h => exact absurd h.isDigit_head (by decide)
    | plus h => exact ⟨_, h, rfl⟩
  · rintro ⟨m, h, rfl⟩
    exact .plus h

private theorem isNumeral_minus_iff : IsNumeral signed ('-' :: digits) n ↔
    signed = true ∧ ∃ m, IsMagnitude digits m ∧ -(m : Int) = n := by
  constructor
  · intro h
    cases h with
    | plain h => exact absurd h.isDigit_head (by decide)
    | minus hsigned h => exact ⟨hsigned, _, h, rfl⟩
  · rintro ⟨hsigned, m, h, rfl⟩
    exact .minus hsigned h

private theorem isNumeral_plain_iff (hplus : ∀ cs, digits ≠ '+' :: cs)
    (hminus : ∀ cs, digits ≠ '-' :: cs) :
    IsNumeral signed digits n ↔ ∃ m, IsMagnitude digits m ∧ Int.ofNat m = n := by
  constructor
  · intro h
    cases h with
    | plain h => exact ⟨_, h, rfl⟩
    | plus h => exact absurd rfl (hplus _)
    | minus hsigned h => exact absurd rfl (hminus _)
  · rintro ⟨m, h, rfl⟩
    exact .plain h

/-- There are no blanks in a numeral. -/
theorem IsNumeral.isBlank_eq_false (h : IsNumeral signed digits n) :
    ∀ c ∈ digits, isBlank c = false := by
  cases h with
  | plain h => exact fun c hc => isBlank_of_isDigit (h.2.1 c hc)
  | plus h =>
    exact List.forall_mem_cons.2 ⟨rfl, fun c hc => isBlank_of_isDigit (h.2.1 c hc)⟩
  | minus _ h =>
    exact List.forall_mem_cons.2 ⟨rfl, fun c hc => isBlank_of_isDigit (h.2.1 c hc)⟩

end Numerals

/-- **Integers are read from their numerals.** An integer is read if it is in the range, from each
of its numerals, which are signed where the range has negative numbers. -/
theorem parseInteger_eq_ok_iff {least n : Int} {greatest : Nat} {s : List Char}
    (hleast : least ≤ 0) : parseInteger least greatest s = .ok n ↔
      IsNumeral (decide (least < 0)) s n ∧ least ≤ n ∧ n ≤ greatest := by
  have hnil {m : Nat} : ¬IsMagnitude [] m := fun h => h.1 rfl
  have hpositive (m : Nat) : m ≤ greatest ↔ least ≤ Int.ofNat m ∧ Int.ofNat m ≤ greatest := by
    rw [Int.ofNat_eq_natCast]
    omega
  have hnegative (m : Nat) : m ≤ least.natAbs ↔ least ≤ -(m : Int) ∧ -(m : Int) ≤ greatest := by
    omega
  -- The digits are read as a natural number, and made an integer before the sign is taken.
  have hcast (x : Except IntegerFault Nat) :
      (do let m ← x; pure (m : Int)).map (fun n => -n) = x.map fun m : Nat => -(m : Int) := by
    cases x <;> rfl
  have hne (c : Char) (cs : List Char) : [] ≠ c :: cs := (List.cons_ne_nil c cs).symm
  unfold parseInteger
  -- No text, a sign alone, digits after a sign, and digits alone.
  split
  · rw [isNumeral_plain_iff (hne '+') (hne '-')]
    exact iff_of_false nofun fun ⟨⟨_, h, _⟩, _⟩ => hnil h
  · rw [isNumeral_plus_iff]
    exact iff_of_false nofun fun ⟨⟨_, h, _⟩, _⟩ => hnil h
  · rw [isNumeral_minus_iff]
    exact iff_of_false nofun fun ⟨⟨_, _, h, _⟩, _⟩ => hnil h
  · next digits hdigits => rw [map_parseDigits_eq_ok_iff hdigits hpositive, isNumeral_plus_iff]
  · next digits hdigits =>
    rw [isNumeral_minus_iff, decide_eq_true_eq]
    split
    · next hsigned =>
      rw [hcast, map_parseDigits_eq_ok_iff hdigits hnegative, and_iff_right hsigned]
    · next hsigned => exact iff_of_false nofun fun h => hsigned h.1.1
  · next hempty _ _ hplus hminus =>
    rw [map_parseDigits_eq_ok_iff hempty hpositive, isNumeral_plain_iff hplus hminus]

end Columnar.Text
