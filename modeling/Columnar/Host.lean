import Columnar.Compression.Algorithm
import Columnar.Json.Basic

/-!
# Hosts

The world that readers of blocks share. It holds everything besides the blocks themselves: memory,
references to buffers, the counts of compressors and a log of events.
-/

namespace Columnar

/-! ## Broadcast buffers

A buffer is what every partition of a dataset reads: some blocks, each of which holds the batches of
one group. It never changes. Its identity is a random number, which is shown in the usual form of
such numbers and distinguishes buffers of the same content.
-/

/-- The identity of a buffer: the random bits of a version 4 UUID. -/
structure BroadcastId where
  /-- The bits. -/
  bits : BitVec 122
deriving DecidableEq, Repr

namespace BroadcastId

/-- The number that is shown: version and variant stand between the random bits. -/
def number (id : BroadcastId) : Nat :=
  let n := id.bits.toNat
  n / 2 ^ 74 * 2 ^ 80 + 4 * 2 ^ 76 + n / 2 ^ 62 % 2 ^ 12 * 2 ^ 64 + 2 * 2 ^ 62 + n % 2 ^ 62

/-- The last `width` hexadecimal digits of a number. -/
def hex : (width n : Nat) → List Char
  | 0, _ => []
  | width + 1, n => hex width (n / 16) ++ [Nat.digitChar (n % 16)]

/-- The five groups of digits. -/
def uuid (id : BroadcastId) : String :=
  let digits := hex 32 id.number
  let group (start length : Nat) := String.ofList ((digits.drop start).take length)
  "-".intercalate [group 0 8, group 8 4, group 12 4, group 16 4, group 20 12]

/-- The name of a buffer. -/
def text (id : BroadcastId) : String :=
  "broadcast_" ++ id.uuid

instance : ToString BroadcastId where
  toString := text

end BroadcastId

/-- A buffer. -/
structure Buffer where
  /-- Its identity. -/
  id : BroadcastId
  /-- Its blocks, in order. -/
  blocks : List Bytes
deriving DecidableEq, Repr

namespace Buffer

/-- The number of blocks. -/
def numBlocks (b : Buffer) : Nat :=
  b.blocks.length

/-- The number of bytes of all blocks. -/
def sizeBytes (b : Buffer) : Nat :=
  (b.blocks.map List.length).sum

end Buffer

/-! ## Partitions

A dataset is split into partitions, numbered from zero; each has a name that messages show.
-/

/-- One part of a dataset. -/
structure Partition where
  /-- Its number. -/
  index : UInt64
deriving DecidableEq, Repr

namespace Partition

/-- The name of a partition. -/
def id (p : Partition) : String :=
  "partition_" ++ toString p.index.toNat

/-- A partition as a document. -/
def toJson (p : Partition) : Json :=
  .ofMembers [("index", .ofInt p.index.toNat)]

end Partition

/-! ## Memory pools

A pool hands out memory as long as its limit allows. Its users ask for what they need and give back
what they do not need any more; a request that goes beyond the limit changes nothing.
-/

/-- Memory for many users. -/
structure Pool where
  /-- The number of bytes that may be reserved at once. -/
  limit : Nat
  /-- The number of bytes that are reserved. -/
  reserved : Nat := 0
deriving DecidableEq, Repr

namespace Pool

/-- Reserves `n` more bytes, if the limit allows. -/
def grow (n : Nat) (p : Pool) : Option Pool :=
  if p.reserved + n ≤ p.limit then some { p with reserved := p.reserved + n } else none

/-- Gives back `n` bytes. -/
def shrink (n : Nat) (p : Pool) : Pool :=
  { p with reserved := p.reserved - n }

/-- Changes a reservation from `old` to `new` bytes, if the limit allows. -/
def resize (old new : Nat) (p : Pool) : Option Pool :=
  if old < new then p.grow (new - old) else some (p.shrink (old - new))

end Pool

/-! ## Events

What is worth a line in a log. A world in which events happen can take note of them.
-/

/-- Something that happened. -/
inductive Event where
  /-- A buffer was built from batches. -/
  | built (buffer : Buffer)
  /-- A buffer was registered. -/
  | registered (buffer : Buffer)
  /-- A buffer was removed from the registry. -/
  | removed (id : BroadcastId)
  /-- A reader opened a block. -/
  | opened (block : Nat)
  /-- An iterator over a partition was made. -/
  | computing (partition : Partition) (buffer : Buffer)
  /-- An iterator over a partition was closed. -/
  | closed (partition : Partition)
deriving DecidableEq, Repr

namespace Event

/-- Whether an event matters to more than those who look for faults. -/
def isNotable : Event → Bool
  | registered _ | removed _ => true
  | _ => false

/-- An event in words. -/
def text : Event → String
  | built b => s!"Built {b.id} with {b.numBlocks} blocks ({b.sizeBytes} bytes)"
  | registered b => s!"Registered {b.id} ({b.numBlocks} blocks, {b.sizeBytes} bytes)"
  | removed id => s!"Removed {id}"
  | opened block => s!"Opened broadcast block {block}"
  | computing p b => s!"Computing {p.id} from {b.id} ({b.numBlocks} blocks)"
  | closed p => s!"Closed batch iterator of partition {p.index.toNat}"

end Event

/-- A world that takes note of events. -/
class Journal (ω : Type) where
  /-- Takes note of an event. -/
  note : Event → ω → ω

/-! ## The host

Everything that readers share besides the blocks they read: a memory pool, if there is one, the
counts of the compressor, how many references there are to each buffer, and a log.

A buffer lives as long as there is a reference to it. Whoever keeps a buffer takes a reference and
gives it up in the end: the holder of a handle, the registry, a cache, a reader, and a block that is
being read where it stands.
-/

/-- What readers share. -/
structure Host where
  /-- The memory for blocks that are being read, if it is limited. -/
  pool : Option Pool := none
  /-- What has passed through the compressor. -/
  stats : Compression.Stats := {}
  /-- The number of references to each buffer. -/
  references : BroadcastId → Nat := fun _ => 0
  /-- What happened, the latest first. -/
  log : List Event := []

namespace Host

instance : Journal Host where
  note e h := { h with log := e :: h.log }

/-- Takes a reference to a buffer. -/
def retain (id : BroadcastId) (h : Host) : Host :=
  { h with references := fun i => if i = id then h.references i + 1 else h.references i }

/-- Gives up a reference to a buffer. -/
def release (id : BroadcastId) (h : Host) : Host :=
  { h with references := fun i => if i = id then h.references i - 1 else h.references i }

/-- Gives back reserved memory. -/
def free (n : Nat) (h : Host) : Host :=
  { h with pool := h.pool.map (Pool.shrink n) }

end Host

end Columnar
