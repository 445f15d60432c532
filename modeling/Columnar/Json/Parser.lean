import Columnar.Json.Basic

/-!
# Reading JSON

A strict reader: no comments, no trailing commas, no leading zeros, nothing but blanks after the
document. It checks syntax only; numerals and half surrogate pairs are kept for the reader of the
document to judge. A step of the reader takes at least one character, so the length of the text
bounds the number of steps.
-/

namespace Columnar.Json

namespace Parser

/-- The blanks between tokens. -/
def isBlank (c : Char) : Bool :=
  c == ' ' || c == '\n' || c == '\t' || c == '\r'

/-- Drops blanks. -/
def skipBlanks (s : List Char) : List Char :=
  s.dropWhile isBlank

/-- The value of a hexadecimal digit. -/
def hexValue? (c : Char) : Option Nat :=
  if '0' ≤ c ∧ c ≤ '9' then some (c.toNat - 48)
  else if 'a' ≤ c ∧ c ≤ 'f' then some (c.toNat - 87)
  else if 'A' ≤ c ∧ c ≤ 'F' then some (c.toNat - 55)
  else none

/-- The number of four hexadecimal digits. -/
def hex4? (a b c d : Char) : Option Nat := do
  return 4096 * (← hexValue? a) + 256 * (← hexValue? b) + 16 * (← hexValue? c) + (← hexValue? d)

/-- The character of an escape with one letter. -/
def shortEscape? (c : Char) : Option Char :=
  match c with
  | '"' | '\\' | '/' => some c
  | 'b' => some '\x08'
  | 'f' => some '\x0c'
  | 'n' => some '\n'
  | 'r' => some '\r'
  | 't' => some '\t'
  | _ => none

/-- The character that a surrogate pair stands for. -/
def ofPair (high low : Nat) : Char :=
  Char.ofNat (0x10000 + 1024 * (high - 0xD800) + (low - 0xDC00))

/-- A part of a string as written: a character, or the number of an escape. -/
inductive Piece where
  /-- A character that stands for itself or has an escape with one letter. -/
  | char (c : Char)
  /-- An escape with four hexadecimal digits: a character or half of a surrogate pair. -/
  | unit (n : Nat)

/-- Whether a number is the first half of a surrogate pair. -/
def isHigh (n : Nat) : Bool :=
  0xD800 ≤ n && n < 0xDC00

/-- Whether a number is the second half of a surrogate pair. -/
def isLow (n : Nat) : Bool :=
  0xDC00 ≤ n && n < 0xE000

/-- The text of the parts of a string, after the characters so far in reverse; none when half of a
surrogate pair stands alone. -/
def text? (done : List Char) : List Piece → Option String
  | [] => some (String.ofList done.reverse)
  | .char c :: rest => text? (c :: done) rest
  | [.unit n] =>
    if isHigh n || isLow n then none else some (String.ofList (Char.ofNat n :: done).reverse)
  | .unit n :: .char c :: rest =>
    if isHigh n || isLow n then none else text? (c :: Char.ofNat n :: done) rest
  | .unit n :: .unit m :: rest =>
    if isHigh n then if isLow m then text? (ofPair n m :: done) rest else none
    else if isLow n then none
    else text? (Char.ofNat n :: done) (.unit m :: rest)

/-- Reads the parts of a string after its opening quotation mark, with those so far in reverse. -/
def stringBody? (done : List Piece) : List Char → Option (List Piece × List Char)
  | [] => none
  | '"' :: rest => some (done.reverse, rest)
  | '\\' :: 'u' :: a :: b :: c :: d :: rest =>
    match hex4? a b c d with
    | some n => stringBody? (.unit n :: done) rest
    | none => none
  | '\\' :: c :: rest =>
    match shortEscape? c with
    | some e => stringBody? (.char e :: done) rest
    | none => none
  | c :: rest => if c.toNat < 0x20 then none else stringBody? (.char c :: done) rest

/-- Reads a string after its opening quotation mark. -/
def string? (s : List Char) : Option (Option String × List Char) :=
  (stringBody? [] s).map fun (pieces, rest) => (text? [] pieces, rest)

/-- Splits off a run of digits, at least one. -/
def digits? (s : List Char) : Option (List Char × List Char) :=
  match s.span Char.isDigit with
  | ([], _) => none
  | (digits, rest) => some (digits, rest)

/-- Splits off the whole part of a numeral, which has no leading zero. -/
def whole? : List Char → Option (List Char × List Char)
  | '0' :: rest => if (rest.head?.map Char.isDigit).getD false then none else some (['0'], rest)
  | s => digits? s

/-- Splits off the fraction of a numeral, if there is one. -/
def fraction? : List Char → Option (List Char × List Char)
  | '.' :: rest => (digits? rest).map fun (digits, rest) => ('.' :: digits, rest)
  | s => some ([], s)

/-- Splits off the exponent of a numeral, if there is one. -/
def exponent? : List Char → Option (List Char × List Char)
  | e :: rest =>
    if e = 'e' ∨ e = 'E' then
      match rest with
      | '+' :: rest => (digits? rest).map fun (digits, rest) => (e :: '+' :: digits, rest)
      | '-' :: rest => (digits? rest).map fun (digits, rest) => (e :: '-' :: digits, rest)
      | rest => (digits? rest).map fun (digits, rest) => (e :: digits, rest)
    else some ([], e :: rest)
  | [] => some ([], [])

/-- Splits off a numeral without sign. -/
def magnitude? (s : List Char) : Option (List Char × List Char) := do
  let (whole, s) ← whole? s
  let (fraction, s) ← fraction? s
  let (exponent, s) ← exponent? s
  return (whole ++ fraction ++ exponent, s)

/-- Splits off a numeral. -/
def numeral? : List Char → Option (List Char × List Char)
  | '-' :: s => (magnitude? s).map fun (numeral, rest) => ('-' :: numeral, rest)
  | s => magnitude? s

mutual

/-- Reads a value, with a bound on the number of steps. -/
def value : (steps : Nat) → List Char → Option (Json × List Char)
  | 0, _ => none
  | steps + 1, s =>
    match skipBlanks s with
    | 'n' :: 'u' :: 'l' :: 'l' :: rest => some (.null, rest)
    | 't' :: 'r' :: 'u' :: 'e' :: rest => some (.bool true, rest)
    | 'f' :: 'a' :: 'l' :: 's' :: 'e' :: rest => some (.bool false, rest)
    | '"' :: rest => (string? rest).map fun (s, rest) => (.string s, rest)
    | '[' :: rest =>
      match skipBlanks rest with
      | ']' :: rest => some (.array [], rest)
      | rest => items steps [] rest
    | '{' :: rest =>
      match skipBlanks rest with
      | '}' :: rest => some (.object [], rest)
      | rest => members steps [] rest
    | s => (numeral? s).map fun (numeral, rest) => (.number (String.ofList numeral), rest)

/-- Reads the items of an array up to its end, with the items so far in reverse. -/
def items : (steps : Nat) → List Json → List Char → Option (Json × List Char)
  | 0, _, _ => none
  | steps + 1, done, s =>
    match value steps s with
    | none => none
    | some (j, s) =>
      match skipBlanks s with
      | ',' :: s => items steps (j :: done) s
      | ']' :: s => some (.array (j :: done).reverse, s)
      | _ => none

/-- Reads the members of an object up to its end, with the members so far in reverse. -/
def members : (steps : Nat) → List (Option String × Json) → List Char → Option (Json × List Char)
  | 0, _, _ => none
  | steps + 1, done, s =>
    match skipBlanks s with
    | '"' :: s =>
      match string? s with
      | none => none
      | some (name, s) =>
        match skipBlanks s with
        | ':' :: s =>
          match value steps s with
          | none => none
          | some (j, s) =>
            match skipBlanks s with
            | ',' :: s => members steps ((name, j) :: done) s
            | '}' :: s => some (.object ((name, j) :: done).reverse, s)
            | _ => none
        | _ => none
    | _ => none

end

end Parser

/-- Reads a document, with nothing but blanks around it. -/
def parse? (text : String) : Option Json :=
  let s := text.toList
  match Parser.value (s.length + 1) s with
  | some (j, rest) => if (Parser.skipBlanks rest).isEmpty then some j else none
  | none => none

end Columnar.Json
