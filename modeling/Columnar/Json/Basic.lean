import Columnar.Bytes

/-!
# JSON documents

Documents as they are written, and their text.
-/

namespace Columnar

/-! ## Documents

`Json` is a document as written: members keep their order and repetitions, numbers keep their
numerals, and a string whose escapes name half of a surrogate pair is present but has no text. What
a reader makes of such a string is its own affair: a member that nobody asks for may hold one.
-/

/-- A JSON document as written. -/
inductive Json where
  /-- The null literal. -/
  | null
  /-- A truth value. -/
  | bool (value : Bool)
  /-- A number, by its numeral. -/
  | number (numeral : String)
  /-- A string; it has no text when its escapes leave a surrogate without its partner. -/
  | string (text : Option String)
  /-- An array. -/
  | array (items : List Json)
  /-- An object; names are strings, so they too may have no text. -/
  | object (members : List (Option String × Json))
deriving Repr, Inhabited

namespace Json

/-- A string of a text. -/
def ofString (s : String) : Json :=
  string (some s)

/-- A number of an integer. -/
def ofInt (n : Int) : Json :=
  number (toString n)

/-- An object with the given names. -/
def ofMembers (members : List (String × Json)) : Json :=
  object (members.map fun m => (some m.1, m.2))

mutual

/-- How many arrays and objects lie inside one another. -/
def depth : Json → Nat
  | array items => depthItems items + 1
  | object members => depthMembers members + 1
  | _ => 0

/-- The greatest depth among the items of an array. -/
def depthItems : List Json → Nat
  | [] => 0
  | j :: rest => max j.depth (depthItems rest)

/-- The greatest depth among the members of an object. -/
def depthMembers : List (Option String × Json) → Nat
  | [] => 0
  | (_, j) :: rest => max j.depth (depthMembers rest)

end

end Json

/-! ## Writing JSON

Two layouts: compact, without any blank, and pretty, with two spaces of indentation, one item or
member a line, and empty containers closed at once. Strings escape the quotation mark, the backslash
and the characters below the space; all others are written as they are.
-/

namespace Json

/-- How a document is laid out. -/
inductive Layout where
  /-- On one line, without blanks. -/
  | compact
  /-- One item a line, indented by depth. -/
  | pretty
deriving DecidableEq, Repr

/-- A digit of hexadecimal text, in lower case. -/
def lowerHexDigit (n : Nat) : Char :=
  if n < 10 then Char.ofNat (48 + n) else Char.ofNat (87 + n)

/-- A character as it stands inside a string. -/
def escape (c : Char) : List Char :=
  if c = '"' then ['\\', '"']
  else if c = '\\' then ['\\', '\\']
  else if c = '\n' then ['\\', 'n']
  else if c = '\r' then ['\\', 'r']
  else if c = '\t' then ['\\', 't']
  else if c = '\x08' then ['\\', 'b']
  else if c = '\x0c' then ['\\', 'f']
  else if c.toNat < 0x20 then
    ['\\', 'u', '0', '0', lowerHexDigit (c.toNat / 16), lowerHexDigit (c.toNat % 16)]
  else [c]

/-- A quoted string. -/
def quote (s : String) : List Char :=
  '"' :: s.toList.flatMap escape ++ ['"']

namespace Layout

/-- What stands before an item at a depth. -/
def line (l : Layout) (depth : Nat) : List Char :=
  match l with
  | compact => []
  | pretty => '\n' :: List.replicate (2 * depth) ' '

/-- What stands between a name and its value. -/
def colon : Layout → List Char
  | compact => [':']
  | pretty => [':', ' ']

end Layout

mutual

/-- Writes a document at a depth, in front of `rest`. -/
def write (l : Layout) (depth : Nat) (j : Json) (rest : List Char) : List Char :=
  match j with
  | null => "null".toList ++ rest
  | bool b => (if b then "true" else "false").toList ++ rest
  | number numeral => numeral.toList ++ rest
  | string s => quote (s.getD "") ++ rest
  | array [] => '[' :: ']' :: rest
  | array (j :: items) =>
    '[' :: (l.line (depth + 1) ++
      write l (depth + 1) j (writeItems l (depth + 1) items (l.line depth ++ ']' :: rest)))
  | object [] => '{' :: '}' :: rest
  | object ((name, j) :: members) =>
    '{' :: (l.line (depth + 1) ++ quote (name.getD "") ++ l.colon ++
      write l (depth + 1) j (writeMembers l (depth + 1) members (l.line depth ++ '}' :: rest)))

/-- Writes the items of an array after its first. -/
def writeItems (l : Layout) (depth : Nat) (items : List Json) (rest : List Char) : List Char :=
  match items with
  | [] => rest
  | j :: items => ',' :: (l.line depth ++ write l depth j (writeItems l depth items rest))

/-- Writes the members of an object after its first. -/
def writeMembers (l : Layout) (depth : Nat) (members : List (Option String × Json))
    (rest : List Char) : List Char :=
  match members with
  | [] => rest
  | (name, j) :: members =>
    ',' :: (l.line depth ++ quote (name.getD "") ++ l.colon ++
      write l depth j (writeMembers l depth members rest))

end

/-- The text of a document. -/
def render (l : Layout) (j : Json) : String :=
  String.ofList (write l 0 j [])

/-- The text of a document on one line. -/
def compact (j : Json) : String :=
  j.render .compact

/-- The text of a document, one item a line. -/
def pretty (j : Json) : String :=
  j.render .pretty

end Json

end Columnar
