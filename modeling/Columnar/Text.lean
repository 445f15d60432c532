import Columnar.Bytes

/-!
# Text

The UTF-8 form of text, and what reading settings needs to know about characters: white space and
the notation of integers.
-/

namespace Columnar

/-! ## Text as bytes

The UTF-8 form of text. `Utf8.decode` refuses ill-formed bytes and says where the well-formed part
ends and how many bytes the first ill-formed sequence takes, or that the text ends inside a
sequence.
-/

namespace Utf8

/-- Where bytes stop being well-formed text. -/
structure Fault where
  /-- The length of the longest well-formed prefix. -/
  validUpTo : Nat
  /-- The length of the ill-formed sequence after it, or `none` when the bytes end inside it. -/
  length : Option Nat
deriving DecidableEq, Repr

/-- The bytes of a text. -/
def encode (s : String) : Bytes :=
  s.toList.flatMap String.utf8EncodeChar

/-- Whether a byte continues a sequence. -/
def isContinuation (b : UInt8) : Bool :=
  0x80 ≤ b && b ≤ 0xBF

/-- Whether `second` may follow the lead byte `lead` of a sequence of three or four: it rules out
overlong forms, surrogates and numbers beyond the last character. -/
def isSecond (lead second : UInt8) : Bool :=
  if lead == 0xE0 then 0xA0 ≤ second && second ≤ 0xBF
  else if lead == 0xED then 0x80 ≤ second && second ≤ 0x9F
  else if lead == 0xF0 then 0x90 ≤ second && second ≤ 0xBF
  else if lead == 0xF4 then 0x80 ≤ second && second ≤ 0x8F
  else isContinuation second

/-- The character with the six-bit groups `groups` after the bits `lead`. -/
def assemble (lead : Nat) (groups : List UInt8) : Char :=
  Char.ofNat (groups.foldl (fun n b => 64 * n + (b.toNat - 0x80)) lead)

/-- The characters of well-formed bytes. -/
def decodeChars (bytes : Bytes) : Except Fault (List Char) :=
  go 0 [] bytes
where
  /-- Decodes the rest, `pos` bytes in, with the characters so far in reverse. -/
  go (pos : Nat) (done : List Char) : Bytes → Except Fault (List Char)
    | [] => .ok done.reverse
    | a :: r =>
      if a < 0x80 then go (pos + 1) (assemble a.toNat [] :: done) r
      else if a < 0xC2 then .error ⟨pos, some 1⟩
      else if a < 0xE0 then
        match r with
        | [] => .error ⟨pos, none⟩
        | b :: r =>
          if isContinuation b then go (pos + 2) (assemble (a.toNat - 0xC0) [b] :: done) r
          else .error ⟨pos, some 1⟩
      else if a < 0xF0 then
        match r with
        | [] => .error ⟨pos, none⟩
        | [b] => .error ⟨pos, if isSecond a b then none else some 1⟩
        | b :: c :: r =>
          if !isSecond a b then .error ⟨pos, some 1⟩
          else if isContinuation c then
            go (pos + 3) (assemble (a.toNat - 0xE0) [b, c] :: done) r
          else .error ⟨pos, some 2⟩
      else if a < 0xF5 then
        match r with
        | [] => .error ⟨pos, none⟩
        | [b] => .error ⟨pos, if isSecond a b then none else some 1⟩
        | [b, c] =>
          .error ⟨pos, if !isSecond a b then some 1 else if isContinuation c then none else some 2⟩
        | b :: c :: d :: r =>
          if !isSecond a b then .error ⟨pos, some 1⟩
          else if !isContinuation c then .error ⟨pos, some 2⟩
          else if isContinuation d then
            go (pos + 4) (assemble (a.toNat - 0xF0) [b, c, d] :: done) r
          else .error ⟨pos, some 3⟩
      else .error ⟨pos, some 1⟩

/-- The text of well-formed bytes. -/
def decode (bytes : Bytes) : Except Fault String :=
  (decodeChars bytes).map String.ofList

end Utf8

/-! ## White space

The characters that count as blank around a setting, and text without them at both ends.
-/

namespace Text

/-- Whether a character is white space: the controls for layout, the spaces of all widths, and the
separators of lines and paragraphs. -/
def isBlank (c : Char) : Bool :=
  let n := c.toNat
  (0x09 ≤ n && n ≤ 0x0D) || n == 0x20 || n == 0x85 || n == 0xA0 || n == 0x1680 ||
    (0x2000 ≤ n && n ≤ 0x200A) || n == 0x2028 || n == 0x2029 || n == 0x202F || n == 0x205F ||
    n == 0x3000

/-- All blanks that are known as such to text processing in general are blanks here. -/
theorem isBlank_of_isWhitespace {c : Char} (h : c.isWhitespace = true) : isBlank c = true := by
  simp only [Char.isWhitespace, Bool.or_eq_true, decide_eq_true_eq] at h
  rcases h with ((rfl | rfl) | rfl) | rfl <;> rfl

/-- A text without the white space at its ends. -/
def trim (s : List Char) : List Char :=
  ((s.dropWhile isBlank).reverse.dropWhile isBlank).reverse

/-! ## Integers in text

Integers as settings write them: an optional sign and decimal digits. A minus sign is a sign only
where negative numbers are allowed. Text is read from the left, and the first fault that is met is
reported.
-/

/-- What can be wrong with the text of an integer. -/
inductive IntegerFault where
  /-- There is no text. -/
  | empty
  /-- A character that is no digit. -/
  | invalidDigit
  /-- A number above the greatest. -/
  | tooLarge
  /-- A number below the least. -/
  | tooSmall
deriving DecidableEq, Repr

/-- The text of a fault. -/
def IntegerFault.text : IntegerFault → String
  | empty => "cannot parse integer from empty string"
  | invalidDigit => "invalid digit found in string"
  | tooLarge => "number too large to fit in target type"
  | tooSmall => "number too small to fit in target type"

/-- Reads digits, with the magnitude so far; `limit` is the greatest magnitude, and `beyond` what is
wrong with a greater one. -/
def parseDigits (limit : Nat) (beyond : IntegerFault) (magnitude : Nat) :
    List Char → Except IntegerFault Nat
  | [] => .ok magnitude
  | c :: rest =>
    if c.isDigit then
      let next := 10 * magnitude + (c.toNat - 48)
      if next ≤ limit then parseDigits limit beyond next rest else .error beyond
    else .error .invalidDigit

/-- Reads an integer between `least`, which is not above zero, and `greatest`. -/
def parseInteger (least : Int) (greatest : Nat) (s : List Char) : Except IntegerFault Int :=
  match s with
  | [] => .error .empty
  | ['+'] | ['-'] => .error .invalidDigit
  | '+' :: digits => (parseDigits greatest .tooLarge 0 digits).map Int.ofNat
  | '-' :: digits =>
    if least < 0 then (parseDigits least.natAbs .tooSmall 0 digits).map fun n => -(n : Int)
    else .error .invalidDigit
  | digits => (parseDigits greatest .tooLarge 0 digits).map Int.ofNat

end Text

end Columnar
