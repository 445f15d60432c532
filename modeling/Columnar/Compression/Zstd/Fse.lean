import Columnar.Bytes

/-!
# Bits and states

What entropy-coded data are read with: bits of a byte string in both directions, and tables of
states that turn them into symbols. Before that stands what can be wrong with a frame.
-/

namespace Columnar.Compression.Zstd

/-! ## Faults of frames

What can be wrong with frames, and taking bytes off their front.
-/

/-- What can be wrong with frames. -/
inductive Fault where
  /-- They end where more is needed. -/
  | truncated
  /-- A frame begins with another number. -/
  | badMagic
  /-- A head with bits that are reserved. -/
  | reservedBits
  /-- A window larger than is supported. -/
  | windowTooLarge (size : Nat)
  /-- A dictionary is needed. -/
  | dictionary (id : Nat)
  /-- A block of the reserved kind. -/
  | reservedBlock
  /-- A block longer than the window or the limit. -/
  | blockTooLarge (size : Nat)
  /-- The literals of a compressed block. -/
  | badLiterals
  /-- The sequences of a compressed block. -/
  | badSequences
  /-- Sequences that cannot be executed. -/
  | badCopies
  /-- Content of another length than declared. -/
  | wrongSize (declared actual : Nat)
  /-- The check differs. -/
  | badChecksum
deriving DecidableEq, Repr

/-- The text of a fault. -/
def Fault.text : Fault → String
  | truncated => "incomplete frame"
  | badMagic => "unknown kind of frame"
  | reservedBits => "reserved bits are set"
  | windowTooLarge size => s!"a window of {size} bytes is too large"
  | dictionary id => s!"dictionary {id} is missing"
  | reservedBlock => "a block of the reserved kind"
  | blockTooLarge size => s!"a block of {size} bytes is too large"
  | badLiterals => "the literals of a block are corrupt"
  | badSequences => "the sequences of a block are corrupt"
  | badCopies => "the sequences of a block do not fit its content"
  | wrongSize declared actual => s!"the content has {actual} bytes instead of {declared}"
  | badChecksum => "the content does not match its check"

/-- Splits off some bytes. -/
def cut (n : Nat) (b : Bytes) : Except Fault (Bytes × Bytes) :=
  match b.splitAt? n with
  | some r => .ok r
  | none => .error .truncated

/-! ## Bits of a byte string

Bits are numbered from the lowest one of the first byte. Descriptions of tables are read forwards
from there; coded data are read backwards, from a mark in the last byte down to the first bit.
`BackwardBits` ends there; a `Tape` can be read on, for readers that look only later whether there
were enough bits.
-/

/-- The number of `count` bytes from a place on, least significant first; zero beyond the end. -/
def wordAt (b : Array UInt8) (start : Nat) : (count : Nat) → Nat
  | 0 => 0
  | count + 1 => (b.getD start 0).toNat + 256 * wordAt b (start + 1) count

/-- The number of `count` bits from a place on; zero beyond the end. -/
def bitsAt (b : Array UInt8) (start count : Nat) : Nat :=
  wordAt b (start / 8) ((start % 8 + count + 7) / 8) / 2 ^ (start % 8) % 2 ^ count

/-- Bits that are read backwards. -/
structure BackwardBits where
  /-- The bytes. -/
  bytes : Array UInt8
  /-- How many bits are left. -/
  left : Nat
deriving DecidableEq, Repr

namespace BackwardBits

/-- The bits of a byte string below the highest bit of its last byte, which must not be zero. -/
def ofBytes? (b : Array UInt8) : Option BackwardBits :=
  match b.back? with
  | some last => if last = 0 then none else some ⟨b, 8 * (b.size - 1) + last.toNat.log2⟩
  | none => none

/-- Reads `count` bits, if as many are left. -/
def read? (r : BackwardBits) (count : Nat) : Option (Nat × BackwardBits) :=
  if count ≤ r.left then
    some (bitsAt r.bytes (r.left - count) count, { r with left := r.left - count })
  else none

end BackwardBits

/-- Bits that are read backwards, also beyond the first one. -/
structure Tape extends BackwardBits where
  /-- How many bits beyond the first one have been passed over. -/
  beyond : Nat
deriving DecidableEq, Repr

namespace Tape

/-- The bits of a byte string below the highest bit of its last byte, which must not be zero. -/
def ofBytes? (b : Array UInt8) : Option Tape :=
  (BackwardBits.ofBytes? b).map fun r => ⟨r, 0⟩

/-- Whether all bits have been passed over, and none beyond. -/
def isDone (t : Tape) : Bool :=
  t.left == 0 && t.beyond == 0

/-- The next `count` bits. The last ones are looked at through a register of the first eight bytes:
zeros follow its bits, and whoever has passed over all of them finds it as it was. -/
def peek (t : Tape) (count : Nat) : Nat :=
  if count ≤ t.left then bitsAt t.bytes (t.left - count) count
  else wordAt t.bytes 0 8 * 2 ^ ((64 - t.left + t.beyond) % 64) % 2 ^ 64 / 2 ^ (64 - count)

/-- Passes over `count` bits. -/
def skip (t : Tape) (count : Nat) : Tape :=
  { t with left := t.left - count, beyond := t.beyond + (count - t.left) }

end Tape

/-! ## Finite state entropy

A table of states: each stands for a symbol, and leads to a next state that depends on some of the
following bits. The table is made from a distribution, which gives every symbol a number of states.
A symbol so rare that its share is less than one state is marked by `-1`; it gets one state, near
the end of the table.
-/

namespace Fse

/-- A state of a table. -/
structure State where
  /-- The symbol. -/
  symbol : Nat
  /-- How many bits lead to the next state. -/
  bits : Nat
  /-- What is added to the number of those bits to get the next state. -/
  base : Nat
deriving Inhabited

/-- A table of `2 ^ accuracy` states. -/
structure Table where
  /-- The bits that choose the first state. -/
  accuracy : Nat
  /-- The states. -/
  states : Array State

/-- The table of a single symbol, which takes no bits. -/
def Table.single (symbol : Nat) : Table :=
  ⟨0, #[⟨symbol, 0, 0⟩]⟩

/-! ### Tables -/

/-- The next place of the spread that is not among the last ones, which are taken. -/
def nextPlace (size high : Nat) : (steps : Nat) → (place : Nat) → Nat
  | 0, place => place
  | steps + 1, place =>
    let place := (place + size / 2 + size / 8 + 3) % size
    if high ≤ place then nextPlace size high steps place else place

/-- Gives `count` places of the table to a symbol. -/
def spreadSymbol (size high symbol : Nat) : (count : Nat) → Nat × Array Nat → Nat × Array Nat
  | 0, s => s
  | count + 1, (place, table) =>
    spreadSymbol size high symbol count
      (nextPlace size high size place, table.setIfInBounds place symbol)

/-- The symbols of the states, in order. -/
def spread (accuracy : Nat) (distribution : List Int) : Array Nat :=
  let size := 2 ^ accuracy
  let symbols := distribution.zipIdx
  let (high, table) := symbols.foldl (fun (high, table) (count, symbol) =>
    if count = -1 then (high - 1, table.setIfInBounds (high - 1) symbol) else (high, table))
    (size, Array.replicate size 0)
  (symbols.foldl (fun s (count, symbol) => spreadSymbol size high symbol count.toNat s)
    (0, table)).2

/-- The states of the given symbols. The states of one symbol are numbered from its share on; the
number of a state says how many bits it takes and where they lead. -/
def numberStates (accuracy : Nat) (numbers : Array Nat) (done : Array State) :
    List Nat → Array State
  | [] => done
  | symbol :: rest =>
    let number := numbers.getD symbol 1
    let bits := accuracy - number.log2
    numberStates accuracy (numbers.setIfInBounds symbol (number + 1))
      (done.push ⟨symbol, bits, number * 2 ^ bits - 2 ^ accuracy⟩) rest

/-- The table of a distribution. -/
def Table.ofDistribution (accuracy : Nat) (distribution : List Int) : Table :=
  ⟨accuracy, numberStates accuracy (distribution.map Int.natAbs).toArray #[]
    (spread accuracy distribution).toList⟩

/-! ### Distributions -/

/-- The fewest bytes that a description is read from; zero bytes fill up shorter ones. -/
def minDescription : Nat := 8

/-- Where reading goes on. Bits are looked at four bytes at a time, and never beyond the end:
whoever gets to the end of the last four bytes begins again with the first of them. -/
def wrapped (b : Array UInt8) (place : Nat) : Nat :=
  let last := 8 * (max minDescription b.size - 4)
  if place < last then place else last + (place - last) % 32

/-- The groups of a run of symbols without a share that are looked at together. -/
def maxGroups : Nat := 12

/-- Reads how many symbols after one without a share have none either: groups of two bits, of which
a three is followed by another group. Returns the place behind them; at most `limit` symbols are
counted. `groups` is how many groups have been looked at together. -/
def zeroRun? (b : Array UInt8) : (limit groups place : Nat) → Option (Nat × Nat)
  | 0, _, _ => none
  | limit + 1, groups, place =>
    let n := bitsAt b place 2
    if n < 3 then some (n, wrapped b (place + 2))
    else
      let (groups, place) :=
        if groups + 1 < maxGroups then (groups + 1, place + 2) else (0, wrapped b (place + 2))
      (zeroRun? b limit groups place).map fun (m, place) => (m + 3, place)

/-- Reads the shares of the symbols from a place on, as long as `remaining`, which is one more than
what is left to share out, is above one. At most `limit` symbols may follow. Returns the shares, in
reverse after those already read, and the place behind them. -/
def shares? (b : Array UInt8) : (limit place remaining : Nat) → List Int → Option (List Int × Nat)
  | 0, _, _, _ => none
  | limit + 1, place, remaining, done =>
    -- A value takes as many bits as `remaining` has, or one less for the lowest values.
    let threshold := 2 ^ remaining.log2
    let short := 2 * threshold - 1 - remaining
    let low := bitsAt b place remaining.log2
    let full := bitsAt b place (remaining.log2 + 1)
    let (value, place) :=
      if low < short then (low, place + remaining.log2)
      else (if threshold ≤ full then full - short else full, place + remaining.log2 + 1)
    let share : Int := (value : Int) - 1
    let remaining := remaining - share.natAbs
    if remaining ≤ 1 then some (share :: done, place)
    else if share = 0 then
      match zeroRun? b (limit + 1) 0 (wrapped b place) with
      | none => none
      | some (zeros, place) =>
        if limit ≤ zeros then none
        else shares? b (limit - zeros) place remaining (List.replicate zeros 0 ++ (share :: done))
    else shares? b limit (wrapped b place) remaining (share :: done)
termination_by limit => limit
decreasing_by all_goals omega

/-- Reads a distribution; returns its accuracy, its shares and the length of its description. -/
def distribution? (maxAccuracy maxSymbol : Nat) (b : Array UInt8) : Option (Nat × List Int × Nat) :=
  let accuracy := bitsAt b 0 4 + 5
  if maxAccuracy < accuracy then none
  else
    match shares? b (maxSymbol + 1) 4 (2 ^ accuracy + 1) [] with
    | none => none
    | some (shares, place) =>
      let size := (place + 7) / 8
      if b.size < size then none else some (accuracy, shares.reverse, size)

/-- Reads a table from its description; returns it with the length of the description. -/
def Table.read? (maxAccuracy maxSymbol : Nat) (b : Array UInt8) : Option (Table × Nat) :=
  (distribution? maxAccuracy maxSymbol b).map fun (accuracy, shares, size) =>
    (.ofDistribution accuracy shares, size)

/-! ### States -/

/-- Reads the first state. -/
def Table.start? (t : Table) (r : BackwardBits) : Option (State × BackwardBits) :=
  (r.read? t.accuracy).map fun (n, r) => (t.states.getD n default, r)

/-- Reads the state after a state. -/
def Table.next? (t : Table) (s : State) (r : BackwardBits) : Option (State × BackwardBits) :=
  (r.read? s.bits).map fun (n, r) => (t.states.getD (s.base + n) default, r)

end Fse

end Columnar.Compression.Zstd
