import Columnar.Text

/-!
# Flat buffers

The metadata of a stream is kept in flat buffers. A buffer starts with the position of its root
table. A table has numbered slots, each of which may be missing: the table starts with the distance
back to its *slot index*, which holds, for each slot, how far from the start of the table its value
is, or zero. A value that has no fixed width is kept elsewhere; the slot then holds the distance to
it. All numbers are little-endian.

Reading follows positions wherever they point within the buffer and fails where they leave it;
`check` is stricter, and looks at all that a buffer should have before anything of it is used.
Writing lays out every table as its values, its slot index, and then what its slots refer to, so
that all distances point forward.
-/

namespace Columnar.FlatBuffer

/-! ### Reading -/

/-- The number of `width` bytes at a position. -/
def nat? (width pos : Nat) (b : Bytes) : Option Nat :=
  (b.slice? pos width).map Bytes.toNat

/-- The number of `width` bytes in two's complement at a position. -/
def int? (width pos : Nat) (b : Bytes) : Option Int :=
  (b.slice? pos width).map Bytes.toInt

/-- The position to which the distance at `pos` leads. -/
def follow? (pos : Nat) (b : Bytes) : Option Nat :=
  (nat? 4 pos b).map (pos + ·)

/-- A table of a buffer. -/
structure Table where
  /-- The buffer. -/
  buffer : Bytes
  /-- The position of the table. -/
  pos : Nat
  /-- The position of its slot index. -/
  index : Nat
  /-- The length of its slot index. -/
  size : Nat
deriving DecidableEq, Repr

namespace Table

/-- The bytes of a slot index before its first entry. -/
def indexHead : Nat := 4

/-- The table at a position. -/
def ofPos? (b : Bytes) (pos : Nat) : Option Table := do
  let back ← int? 4 pos b
  let index := (pos : Int) - back
  if index < 0 then none
  let size ← nat? 2 index.toNat b
  if b.length < index.toNat + size then none
  return ⟨b, pos, index.toNat, size⟩

/-- The root table of a buffer. -/
def root? (b : Bytes) : Option Table := do
  ofPos? b (← follow? 0 b)

/-- The position of the value of a slot, or `none` if it is missing. -/
def slot (t : Table) (i : Nat) : Option Nat :=
  if t.size < indexHead + 2 * i + 2 then none
  else
    match nat? 2 (t.index + indexHead + 2 * i) t.buffer with
    | none | some 0 => none
    | some distance => some (t.pos + distance)

/-- The value of a slot of `width` bytes; `default` if it is missing. -/
def natAt? (t : Table) (width i default : Nat) : Option Nat :=
  match t.slot i with
  | some pos => nat? width pos t.buffer
  | none => some default

/-- The value in two's complement of a slot of `width` bytes; `default` if it is missing. -/
def intAt? (t : Table) (width i : Nat) (default : Int) : Option Int :=
  match t.slot i with
  | some pos => int? width pos t.buffer
  | none => some default

/-- The position to which a slot refers. -/
def childAt? (t : Table) (i : Nat) : Option Nat := do
  follow? (← t.slot i) t.buffer

/-- The table to which a slot refers. -/
def tableAt? (t : Table) (i : Nat) : Option Table := do
  ofPos? t.buffer (← t.childAt? i)

/-- The byte string to which a slot refers. -/
def bytesAt? (t : Table) (i : Nat) : Option Bytes := do
  let pos ← t.childAt? i
  t.buffer.slice? (pos + 4) (← nat? 4 pos t.buffer)

/-- The positions of the items, of `width` bytes each, of the vector to which a slot refers. -/
def itemsAt? (t : Table) (width i : Nat) : Option (List Nat) := do
  let pos ← t.childAt? i
  let count ← nat? 4 pos t.buffer
  if t.buffer.length < pos + 4 + width * count then none
  return (List.range count).map fun k => pos + 4 + width * k

/-- The vector of structures of `width` bytes to which a slot refers. -/
def structsAt? (t : Table) (width i : Nat) : Option (List Bytes) := do
  (← t.itemsAt? width i).mapM fun pos => t.buffer.slice? pos width

/-- The vector of tables to which a slot refers. -/
def tablesAt? (t : Table) (i : Nat) : Option (List Table) := do
  (← t.itemsAt? 4 i).mapM fun pos => do ofPos? t.buffer (← follow? pos t.buffer)

end Table

/-! ### Checking -/

/-- What is expected in a slot. `τ` names the kinds of tables. -/
inductive Shape (τ : Type) where
  /-- A number of `width` bytes. -/
  | number (width : Nat)
  /-- Text. -/
  | text
  /-- A vector of numbers. -/
  | numbers (width : Nat)
  /-- A vector of structures, which need no alignment. -/
  | structs (width : Nat)
  /-- A table. -/
  | table (kind : τ)
  /-- A vector of tables. -/
  | tables (kind : τ)
  /-- A table whose kind is chosen by the number of one byte in slot `key`, or anything if that
  chooses none. The two slots belong together. -/
  | union (key : Nat) (kind? : Nat → Option τ)

/-- Whether `size` bytes at a position are in the buffer and aligned. -/
def isAt (b : Bytes) (alignment pos size : Nat) : Bool :=
  pos % alignment == 0 && pos + size ≤ b.length

/-- Whether a vector at a position is in the buffer and aligned; if so, its length. -/
def vectorLength? (b : Bytes) (alignment width pos : Nat) : Option Nat := do
  let count ← nat? 4 pos b
  if isAt b 4 pos 4 && isAt b alignment (pos + 4) (width * count) then some count else none

/-- Whether text at a position is in the buffer, well formed, and followed by a zero byte. -/
def isTextAt (b : Bytes) (pos : Nat) : Bool :=
  match vectorLength? b 1 1 pos with
  | none => false
  | some count =>
    (Utf8.decode ((b.drop (pos + 4)).take count)).toOption.isSome && b[pos + 4 + count]? == some 0

/-- Whether a table at a position is in the buffer and aligned, and its slot index as well. -/
def tableAt? (b : Bytes) (pos : Nat) : Option Table := do
  let t ← Table.ofPos? b pos
  if isAt b 4 pos 4 && isAt b 2 t.index t.size && t.size % 2 == 0 then some t else none

/-- Checks what is in a slot at a position, with `visit` for tables. Like `visit`, it is given how
many more tables may be visited, and returns how many are left. -/
def Shape.check {τ : Type} (b : Bytes) (visit : τ → (pos left : Nat) → Option Nat) (t : Table)
    (pos left : Nat) : Shape τ → Option Nat
  | number width => if isAt b width pos width then some left else none
  | text => do if isAt b 4 pos 4 && isTextAt b (← follow? pos b) then some left else none
  | numbers width => do
    let _ ← vectorLength? b width width (← follow? pos b)
    if isAt b 4 pos 4 then some left else none
  | structs width => do
    let _ ← vectorLength? b 1 width (← follow? pos b)
    if isAt b 4 pos 4 then some left else none
  | table kind => do if isAt b 4 pos 4 then visit kind (← follow? pos b) left else none
  | tables kind => do
    let start ← follow? pos b
    let count ← vectorLength? b 4 4 start
    if isAt b 4 pos 4 then
      (List.range count).foldlM (fun left i => do
        visit kind (← follow? (start + 4 + 4 * i) b) left) left
    else none
  | union key kind? => do
    match kind? (← nat? 1 (← t.slot key) b) with
    | none => some left
    | some kind => if isAt b 4 pos 4 then visit kind (← follow? pos b) left else none

/-- Whether a slot may be missing from a table: the slot of a union only together with its key. -/
def Shape.mayMiss {τ : Type} (t : Table) : Shape τ → Bool
  | union key _ => (t.slot key).isNone
  | _ => true

/-- Checks a table at a position, and all tables that it refers to, which may lie `depth` deep;
`shapes` tells what is in the slots of each kind of table. At most `left` tables are visited. -/
def checkTable {τ : Type} (shapes : τ → List (Nat × Shape τ)) (b : Bytes) :
    (depth : Nat) → τ → (pos left : Nat) → Option Nat
  | 0, _, _, _ => none
  | _, _, _, 0 => none
  | depth + 1, kind, pos, left + 1 => do
    let t ← tableAt? b pos
    (shapes kind).foldlM (fun left (i, shape) =>
      match t.slot i with
      | some pos => shape.check b (checkTable shapes b depth) t pos left
      | none => if shape.mayMiss t then some left else none) left

/-- How deep tables may lie. -/
def maxDepth : Nat := 64

/-- How many tables a buffer may have. -/
def maxTables : Nat := 1000000

/-- Whether a buffer holds what it should, with a root table of a kind. -/
def check {τ : Type} (shapes : τ → List (Nat × Shape τ)) (root : τ) (b : Bytes) : Bool :=
  match follow? 0 b with
  | some pos => (checkTable shapes b maxDepth root pos maxTables).isSome
  | none => false

/-! ### Writing -/

/-- All parts of a buffer are laid out in multiples of so many bytes. -/
def alignment : Nat := 8

/-- A byte string filled up to the alignment. -/
def aligned (b : Bytes) : Bytes :=
  b ++ Bytes.padding alignment b.length

/-- A part of a buffer that a slot refers to. -/
structure Part where
  /-- Where in the bytes the value is that is referred to. -/
  entry : Nat
  /-- The bytes, as many as the alignment allows. -/
  bytes : Bytes
deriving DecidableEq, Repr

/-- What is written for a slot. -/
inductive Slot where
  /-- A missing value. -/
  | missing
  /-- A number of up to four bytes. -/
  | word (n : Nat)
  /-- A number of eight bytes. -/
  | long (n : Nat)
  /-- A reference. -/
  | part (p : Part)
deriving DecidableEq, Repr

namespace Slot

/-- The bytes that the value takes in its table. -/
def width : Slot → Nat
  | missing => 0
  | word _ | part _ => 4
  | long _ => 8

/-- The part that is referred to. -/
def partBytes : Slot → Bytes
  | part p => p.bytes
  | _ => []

/-- Zero bytes in front of a value that would start at `pos`. -/
def gap (pos : Nat) (s : Slot) : Bytes :=
  match s.width with
  | 0 => []
  | width => Bytes.padding width pos

/-- Where a value ends whose place begins at `pos`. -/
def stop (pos : Nat) (s : Slot) : Nat :=
  pos + (s.gap pos).length + s.width

end Slot

/-- Where the values of a table end, the next one having its place at `pos`. -/
def valuesEnd (pos : Nat) (slots : List Slot) : Nat :=
  slots.foldl Slot.stop pos

/-- The values of a table from `pos` on. The parts they refer to are laid out from `partPos` on. -/
def values (pos partPos : Nat) : List Slot → Bytes
  | [] => []
  | s :: slots =>
    let start := pos + (s.gap pos).length
    let value := match s with
      | .missing => []
      | .word n => Bytes.ofNat 4 n
      | .long n => Bytes.ofNat 8 n
      | .part p => Bytes.ofNat 4 (partPos + p.entry - start)
    s.gap pos ++ value ++ values (s.stop pos) (partPos + s.partBytes.length) slots

/-- The entries of the slot index of a table. -/
def entries (pos : Nat) : List Slot → Bytes
  | [] => []
  | s :: slots =>
    let distance := match s with
      | .missing => 0
      | _ => pos + (s.gap pos).length
    Bytes.ofNat 2 distance ++ entries (s.stop pos) slots

/-- A table with the given slots. -/
def Part.table (slots : List Slot) : Part :=
  let size := valuesEnd 4 slots
  let indexSize := Table.indexHead + 2 * slots.length
  let gap := Bytes.padding alignment (size + indexSize)
  let partPos := size + indexSize + gap.length
  ⟨0, Bytes.ofInt 4 (-size) ++ values 4 partPos slots ++
    (Bytes.ofNat 2 indexSize ++ Bytes.ofNat 2 size ++ entries 4 slots) ++ gap ++
    slots.flatMap Slot.partBytes⟩

/-- A byte string; a zero byte that does not count ends it. -/
def Part.ofBytes (b : Bytes) : Part :=
  ⟨0, aligned (Bytes.ofNat 4 b.length ++ b ++ [0])⟩

/-- A vector of structures, whose lengths are multiples of the alignment. -/
def Part.structs (items : List Bytes) : Part :=
  ⟨4, Bytes.ofNat 4 0 ++ Bytes.ofNat 4 items.length ++ items.flatten⟩

/-- The references of a vector, the first one at `pos`, to parts laid out from `partPos` on. -/
def references (pos partPos : Nat) : List Part → Bytes
  | [] => []
  | p :: parts =>
    Bytes.ofNat 4 (partPos + p.entry - pos) ++
      references (pos + 4) (partPos + p.bytes.length) parts

/-- A vector of references. -/
def Part.vector (parts : List Part) : Part :=
  let size := 4 + 4 * parts.length
  let gap := Bytes.padding alignment size
  ⟨0, Bytes.ofNat 4 parts.length ++ references 4 (size + gap.length) parts ++ gap ++
    parts.flatMap (·.bytes)⟩

/-- The buffer with a root table. -/
def ofRoot (root : Part) : Bytes :=
  Bytes.ofNat 4 (8 + root.entry) ++ Bytes.ofNat 4 0 ++ root.bytes

end Columnar.FlatBuffer
