import Columnar.Json.Basic
import Columnar.Json.Parser
import Columnar.Json.Record
import Columnar.Proofs.Text
import Mathlib.Data.List.TakeDrop

/-!
# Numerals and strings in JSON

The two tokens of JSON that carry data, read where they were written. The numeral of an integer is
read as a whole if what follows does not go on with it (`Parser.EndsNumeral`), and stands for the
integer if 64 bits hold it. A quoted string is read as its text, however its characters are escaped.
-/

namespace Columnar.Json

/-! ### Digits -/

private theorem toList_toString_natCast (n : Nat) :
    (toString (n : Int)).toList = Nat.toDigits 10 n :=
  String.toList_ofList

private theorem toList_toString_negSucc (n : Nat) :
    (toString (Int.negSucc n)).toList = '-' :: Nat.toDigits 10 (n + 1) := by
  change ("-" ++ toString (n + 1)).toList = _
  rw [String.toList_append]
  exact congrArg (['-'] ++ ·) String.toList_ofList

/-- A natural number is written with digits. -/
private theorem isDigit_of_mem_toDigits {n : Nat} {c : Char} (hc : c ∈ Nat.toDigits 10 n) :
    c.isDigit = true :=
  Nat.isDigit_of_mem_toDigits (by omega) (by omega) hc

/-- A natural number is written with one digit at least. -/
private theorem toDigits_eq_cons (n : Nat) :
    ∃ c cs, Nat.toDigits 10 n = c :: cs ∧ c.isDigit = true := by
  obtain ⟨c, cs, h⟩ := List.exists_cons_of_ne_nil (Nat.toDigits_ne_nil (n := n) (b := 10))
  exact ⟨c, cs, h, isDigit_of_mem_toDigits (n := n) (by rw [h]; exact .head _)⟩

private theorem toDigits_append_ne_minus (n : Nat) (cs ds : List Char) :
    Nat.toDigits 10 n ++ cs ≠ '-' :: ds := by
  obtain ⟨c, digits, hdigits, hc⟩ := toDigits_eq_cons n
  rw [hdigits]
  rintro ⟨⟩
  exact absurd hc (by decide)

/-- The digits of a number above zero do not begin with a zero. -/
private theorem head?_toDigits {n : Nat} (hn : 0 < n) : (Nat.toDigits 10 n).head? ≠ some '0' := by
  induction n using Nat.strongRecOn with
  | ind n ih =>
    by_cases h : n < 10
    · have hdigit : ∀ d < 10, 0 < d → d.digitChar ≠ '0' := by decide
      rw [Nat.toDigits_of_lt_base h]
      simpa using hdigit n h hn
    · have hhead := ih (n / 10) (by omega) (by omega)
      obtain ⟨c, cs, hdigits, -⟩ := toDigits_eq_cons (n / 10)
      rw [Nat.toDigits_of_base_le (by omega) (by omega), hdigits]
      rwa [hdigits] at hhead

namespace Parser

/-- What follows a numeral does not go on with it. -/
def EndsNumeral (rest : List Char) : Prop :=
  ∀ c ∈ rest.head?, c.isDigit = false ∧ c ≠ '.' ∧ c ≠ 'e' ∧ c ≠ 'E'

variable {rest : List Char}

/-- The digits in front of what ends a numeral are taken as a whole. -/
private theorem span_isDigit {digits : List Char} (hdigits : ∀ c ∈ digits, c.isDigit = true)
    (hrest : EndsNumeral rest) : (digits ++ rest).span Char.isDigit = (digits, rest) := by
  rw [List.span_eq_takeWhile_dropWhile, List.takeWhile_append_of_pos hdigits,
    List.dropWhile_append_of_pos hdigits]
  cases rest with
  | nil => simp
  | cons c cs =>
    have hc : ¬c.isDigit = true := by simp [(hrest c rfl).1]
    rw [List.takeWhile_cons_of_neg hc, List.dropWhile_cons_of_neg hc, List.append_nil]

/-- The digits of a natural number are read as its whole part, since no zero is in front of
others. -/
private theorem whole?_toDigits (n : Nat) (hrest : EndsNumeral rest) :
    whole? (Nat.toDigits 10 n ++ rest) = some (Nat.toDigits 10 n, rest) := by
  have hdigits? : digits? (Nat.toDigits 10 n ++ rest) = some (Nat.toDigits 10 n, rest) := by
    rw [digits?, span_isDigit (fun c => isDigit_of_mem_toDigits) hrest]
    split
    · next h => exact absurd (congrArg Prod.fst h) Nat.toDigits_ne_nil
    · next h => rw [h]
  obtain rfl | hn := Nat.eq_zero_or_pos n
  · cases rest with
    | nil => rfl
    | cons c cs =>
      have hc : c.isDigit = false := (hrest c rfl).1
      simp [whole?, hc]
  · have hhead := head?_toDigits hn
    rw [whole?]
    · exact hdigits?
    · intro cs hcs
      obtain ⟨c, ds, hdigits, -⟩ := toDigits_eq_cons n
      rw [hdigits] at hhead hcs
      cases hcs
      exact hhead rfl

private theorem fraction?_of_endsNumeral (hrest : EndsNumeral rest) :
    fraction? rest = some ([], rest) := by
  rw [fraction?]
  rintro cs rfl
  exact (hrest '.' rfl).2.1 rfl

private theorem exponent?_of_endsNumeral (hrest : EndsNumeral rest) :
    exponent? rest = some ([], rest) := by
  cases rest with
  | nil => rfl
  | cons c cs =>
    obtain ⟨-, -, hlower, hupper⟩ := hrest c rfl
    exact if_neg (not_or.2 ⟨hlower, hupper⟩)

/-- A natural number is its own magnitude: there is neither a fraction nor an exponent. -/
private theorem magnitude?_toDigits (n : Nat) (hrest : EndsNumeral rest) :
    magnitude? (Nat.toDigits 10 n ++ rest) = some (Nat.toDigits 10 n, rest) := by
  simp only [magnitude?, whole?_toDigits n hrest, fraction?_of_endsNumeral hrest,
    exponent?_of_endsNumeral hrest, Option.bind_eq_bind, Option.bind_some, List.append_nil]
  rfl

/-- The numeral of an integer is read as a whole. -/
theorem numeral?_toString (n : Int) (hrest : EndsNumeral rest) :
    numeral? ((toString n).toList ++ rest) = some ((toString n).toList, rest) := by
  cases n with
  | ofNat n =>
    rw [Int.ofNat_eq_natCast, toList_toString_natCast, numeral?]
    · exact magnitude?_toDigits n hrest
    · exact fun cs hcs => toDigits_append_ne_minus n rest cs hcs
  | negSucc n =>
    rw [toList_toString_negSucc, List.cons_append, numeral?, magnitude?_toDigits _ hrest]
    rfl

/-- The numeral of an integer begins with a digit or a minus sign. -/
theorem toString_eq_cons (n : Int) :
    ∃ c cs, (toString n).toList = c :: cs ∧ (c.isDigit = true ∨ c = '-') := by
  cases n with
  | ofNat n =>
    obtain ⟨c, cs, hdigits, hc⟩ := toDigits_eq_cons n
    exact ⟨c, cs, (toList_toString_natCast n).trans hdigits, .inl hc⟩
  | negSucc n => exact ⟨'-', _, toList_toString_negSucc n, .inr rfl⟩

end Parser

namespace Number

/-- All digits of a number of 64 bits are taken. -/
private theorem accumulate_eq {digits : List Char} {significand : Nat}
    (h : Nat.ofDigitChars 10 digits significand < 2 ^ 64) :
    accumulate significand digits = (Nat.ofDigitChars 10 digits significand, 0) := by
  induction digits generalizing significand with
  | nil => rfl
  | cons c cs ih =>
    rw [Nat.ofDigitChars_cons] at h ⊢
    have hnext := Nat.lt_of_le_of_lt (Text.le_ofDigitChars cs _) h
    rw [accumulate]
    exact (if_pos hnext).trans (ih h)

/-- A magnitude of at most 64 bits is a whole number, behind a sign if it is neither zero nor too
large. -/
private theorem ofMagnitude_toDigits {n : Nat} (hn : n < 2 ^ 64) (positive : Bool) :
    ofMagnitude positive (Nat.toDigits 10 n) =
      if positive then some (.natural (UInt64.ofNat n))
      else if 1 ≤ n ∧ n ≤ 2 ^ 63 then some (.negative (Int64.ofInt (-n)))
      else ofParts false n 0 := by
  have hspan : (Nat.toDigits 10 n).span Char.isDigit = (Nat.toDigits 10 n, []) := by
    have hdigits : ∀ c ∈ Nat.toDigits 10 n, c.isDigit = true := fun c => isDigit_of_mem_toDigits
    have h : (Nat.toDigits 10 n ++ []).span Char.isDigit = (Nat.toDigits 10 n, []) :=
      Parser.span_isDigit hdigits nofun
    rwa [List.append_nil] at h
  have hvalue : Nat.ofDigitChars 10 (Nat.toDigits 10 n) 0 = n := Nat.ofDigitChars_ten_toDigits
  have haccumulate : accumulate 0 (Nat.toDigits 10 n) = (n, 0) := by
    rw [accumulate_eq (by rwa [hvalue]), hvalue]
  rw [ofMagnitude, hspan]
  simp only [haccumulate]
  rfl

/-- The numeral of an integer stands for it, if 64 bits hold it. -/
theorem int?_ofNumeral? {n : Int} (hleast : -2 ^ 63 ≤ n) (hgreatest : n < 2 ^ 64) :
    ∃ x, ofNumeral? (toString n) = some x ∧ x.int? = some n := by
  cases n with
  | ofNat n =>
    have hn : n < 2 ^ 64 := by
      rw [Int.ofNat_eq_natCast] at hgreatest
      omega
    refine ⟨.natural (UInt64.ofNat n), ?_, ?_⟩
    · rw [ofNumeral?, Int.ofNat_eq_natCast, toList_toString_natCast]
      split
      · next cs hcs =>
        exact absurd ((List.append_nil _).trans hcs) (toDigits_append_ne_minus n [] cs)
      · rw [ofMagnitude_toDigits hn, if_pos rfl]
    · rw [int?, UInt64.toNat_ofNat_of_lt' hn]
      rfl
  | negSucc n =>
    have hn : n + 1 ≤ 2 ^ 63 := by omega
    refine ⟨.negative (Int64.ofInt (-(n + 1 : Nat))), ?_, ?_⟩
    · have hdigits := ofMagnitude_toDigits (n := n + 1) (by omega) false
      rw [if_neg Bool.false_ne_true, if_pos ⟨by omega, hn⟩] at hdigits
      rw [ofNumeral?, toList_toString_negSucc]
      exact hdigits
    · rw [int?, Int64.toInt_ofInt_of_le (by omega) (by omega)]
      rfl

end Number

/-! ### Strings -/

namespace Parser

private theorem hexValue?_lowerHexDigit {n : Nat} (hn : n < 16) :
    hexValue? (lowerHexDigit n) = some n := by
  have hdigit : ∀ d < 16, hexValue? (lowerHexDigit d) = some d := by decide
  exact hdigit n hn

/-- Two hexadecimal digits behind two zeros stand for the number they were written for. -/
private theorem hex4?_lowerHexDigit {n : Nat} (hn : n < 256) :
    hex4? '0' '0' (lowerHexDigit (n / 16)) (lowerHexDigit (n % 16)) = some n := by
  have hzero : hexValue? '0' = some 0 := rfl
  have hhigh : n / 16 < 16 := by omega
  have hlow : n % 16 < 16 := by omega
  simp only [hex4?, hzero, hexValue?_lowerHexDigit hhigh, hexValue?_lowerHexDigit hlow,
    Option.bind_eq_bind, Option.bind_some]
  exact congrArg some (by omega)

/-- A piece stands for a character, whatever stands around it. -/
def Piece.Is (piece : Piece) (c : Char) : Prop :=
  ∀ done pieces, text? done (piece :: pieces) = text? (c :: done) pieces

private theorem Piece.is_char (c : Char) : (Piece.char c).Is c :=
  fun _ _ => rfl

/-- The number of a character below the surrogates stands for the character. -/
private theorem Piece.is_unit {c : Char} (hc : c.toNat < 0xD800) : (Piece.unit c.toNat).Is c := by
  have hhigh : isHigh c.toNat = false := by simp [isHigh]; omega
  have hlow : isLow c.toNat = false := by simp [isLow]; omega
  intro done pieces
  rcases pieces with - | ⟨d | m, pieces⟩ <;> simp [text?, hhigh, hlow, Char.ofNat_toNat]

/-- A character is read from its escape. -/
private theorem stringBody?_escape (c : Char) :
    ∃ piece : Piece, piece.Is c ∧
      ∀ done rest, stringBody? done (escape c ++ rest) = stringBody? (piece :: done) rest := by
  by_cases hshort : c = '"' ∨ c = '\\' ∨ c = '\n' ∨ c = '\r' ∨ c = '\t' ∨ c = '\x08' ∨ c = '\x0c'
  · refine ⟨.char c, Piece.is_char c, fun done rest => ?_⟩
    rcases hshort with rfl | rfl | rfl | rfl | rfl | rfl | rfl <;> rfl
  · simp only [not_or] at hshort
    obtain ⟨hquote, hbackslash, hn, hr, ht, hb, hf⟩ := hshort
    rw [escape, if_neg hquote, if_neg hbackslash, if_neg hn, if_neg hr, if_neg ht, if_neg hb,
      if_neg hf]
    by_cases hcontrol : c.toNat < 0x20
    · refine ⟨.unit c.toNat, Piece.is_unit (by omega), fun done rest => ?_⟩
      rw [if_pos hcontrol]
      simp only [List.cons_append, List.nil_append]
      rw [stringBody?, hex4?_lowerHexDigit (by omega)]
    · refine ⟨.char c, Piece.is_char c, fun done rest => ?_⟩
      rw [if_neg hcontrol, List.singleton_append, stringBody?, if_neg hcontrol]
      -- No other pattern of the reader begins with the character.
      all_goals
        intros
        contradiction

/-- The pieces of an escaped text stand for it. -/
private theorem stringBody?_flatMap_escape (cs : List Char) :
    ∃ pieces, (∀ done, text? done pieces = some (String.ofList (done.reverse ++ cs))) ∧
      ∀ done rest, stringBody? done (cs.flatMap escape ++ '"' :: rest) =
        some (done.reverse ++ pieces, rest) := by
  induction cs with
  | nil =>
    refine ⟨[], fun done => ?_, fun done rest => ?_⟩
    · rw [text?, List.append_nil]
    · rw [List.append_nil]
      rfl
  | cons c cs ih =>
    obtain ⟨piece, hpiece, hescape⟩ := stringBody?_escape c
    obtain ⟨pieces, htext, hpieces⟩ := ih
    refine ⟨piece :: pieces, fun done => ?_, fun done rest => ?_⟩
    · rw [hpiece, htext, List.reverse_cons, List.append_assoc, List.singleton_append]
    · rw [List.flatMap_cons, List.append_assoc, hescape, hpieces, List.reverse_cons,
        List.append_assoc, List.singleton_append]

/-- A quoted text is read as the text. -/
theorem string?_flatMap_escape (s : String) (rest : List Char) :
    string? (s.toList.flatMap escape ++ '"' :: rest) = some (some s, rest) := by
  obtain ⟨pieces, htext, hpieces⟩ := stringBody?_flatMap_escape s.toList
  have htext : text? [] pieces = some s := (htext []).trans (congrArg some String.ofList_toList)
  rw [string?, hpieces, List.reverse_nil, List.nil_append, Option.map_some]
  exact congrArg (fun text => some (text, rest)) htext

end Parser

theorem quote_append (s : String) (rest : List Char) :
    quote s ++ rest = '"' :: (s.toList.flatMap escape ++ '"' :: rest) := by
  rw [quote, List.cons_append, List.cons_append, List.append_assoc, List.singleton_append]

end Columnar.Json
