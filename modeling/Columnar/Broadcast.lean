import Columnar.Block

/-!
# Broadcasting buffers

How buffers come into being, and where they are kept so that others find them: the registry, and a
cache for those that were fetched from elsewhere.
-/

namespace Columnar

/-! ## Building buffers

A buffer is built from groups of batches: one block for each group.
-/

/-- The blocks of some groups of batches, in order. -/
def Block.Codec.writeAll (c : Codec) (stats : Compression.Stats) :
    List (List Batch) → List Bytes × Compression.Stats
  | [] => ([], stats)
  | group :: groups =>
    let (block, stats) := c.write stats group
    let (blocks, stats) := c.writeAll stats groups
    (block :: blocks, stats)

/-- A buffer that holds some groups of batches, and the handle on it. -/
def Buffer.ofGroups (c : Block.Codec) (id : BroadcastId) (groups : List (List Batch)) (h : Host) :
    Buffer × Host :=
  let (blocks, stats) := c.writeAll h.stats groups
  let buffer : Buffer := ⟨id, blocks⟩
  (buffer, Journal.note (.built buffer) ({ h with stats }.retain id))

/-! ## The registry

Where buffers are kept under their identities until they are removed. The registry has a reference
of its own to every buffer it keeps. Removing a buffer does not touch those who hold it: it is only
not found any more.
-/

/-- Buffers by their identities. -/
structure Registry where
  /-- The buffers; each identity occurs once. -/
  buffers : List Buffer := []
deriving DecidableEq, Repr

namespace Registry

/-- Whether a buffer of some identity is registered. -/
def contains (id : BroadcastId) (r : Registry) : Bool :=
  r.buffers.any (·.id == id)

/-- The registry without a buffer. -/
def without (id : BroadcastId) (r : Registry) : Registry :=
  ⟨r.buffers.filter (·.id != id)⟩

/-- Gives up the reference to a buffer, if there is one. -/
def releaseIfPresent (r : Registry) (id : BroadcastId) (h : Host) : Host :=
  if r.contains id then h.release id else h

/-- Registers a buffer, in place of one of the same identity. -/
def register (b : Buffer) (r : Registry) (h : Host) : BroadcastId × Registry × Host :=
  let h := Journal.note (.registered b) h
  (b.id, ⟨b :: (r.without b.id).buffers⟩, r.releaseIfPresent b.id (h.retain b.id))

/-- The buffer of an identity, with a reference for the one who asks. -/
def get (id : BroadcastId) (r : Registry) (h : Host) : Option Buffer × Host :=
  match r.buffers.find? (·.id == id) with
  | some b => (some b, h.retain id)
  | none => (none, h)

/-- Removes a buffer, and tells whether it was there. -/
def remove (id : BroadcastId) (r : Registry) (h : Host) : Bool × Registry × Host :=
  if r.contains id then (true, r.without id, Journal.note (.removed id) (h.release id))
  else (false, r, h)

/-- The identities of all buffers. -/
def ids (r : Registry) : List BroadcastId :=
  r.buffers.map (·.id)

/-- Removes all buffers. -/
def clear (r : Registry) (h : Host) : Registry × Host :=
  ({}, r.buffers.foldl (fun h b => h.release b.id) h)

end Registry

/-! ## The cache

Where buffers are kept that were fetched from elsewhere, up to some number of them, and as long as
they are used now and then. Times are seconds on a clock that does not run backwards. What has not
been used for the idle time is not found any more; it is dropped when room is made. Among more
buffers than the capacity allows, the ones that were used last stay.
-/

/-- A buffer that is kept in a cache. -/
structure CacheEntry where
  /-- The buffer. -/
  buffer : Buffer
  /-- When it was used last. -/
  lastUsed : Nat
deriving DecidableEq, Repr

/-- A cache of buffers. -/
structure BroadcastCache where
  /-- How many buffers it keeps. -/
  capacity : Nat
  /-- How long it keeps a buffer that is not used. -/
  idleSeconds : Nat
  /-- The buffers, the one used last first; each identity occurs once. -/
  entries : List CacheEntry := []
deriving DecidableEq, Repr

namespace BroadcastCache

/-- The empty cache that the settings ask for. -/
def ofSettings (s : Settings) : BroadcastCache :=
  { capacity := s.cacheCapacity.toNat, idleSeconds := s.cacheIdleSeconds.toNat }

/-- Whether an entry has not been used for the idle time. -/
def isExpired (now : Nat) (e : CacheEntry) (c : BroadcastCache) : Bool :=
  e.lastUsed + c.idleSeconds ≤ now

/-- Gives up the references of entries. -/
def releaseAll (entries : List CacheEntry) (h : Host) : Host :=
  entries.foldl (fun h e => h.release e.buffer.id) h

/-- Drops the entries that have expired, and then those beyond the capacity. -/
def makeRoom (now : Nat) (c : BroadcastCache) (h : Host) : BroadcastCache × Host :=
  let (expired, live) := c.entries.partition fun e => c.isExpired now e
  ({ c with entries := live.take c.capacity },
    releaseAll (expired ++ live.drop c.capacity) h)

/-- The entry of a buffer that has not expired. -/
def find? (now : Nat) (id : BroadcastId) (c : BroadcastCache) : Option CacheEntry :=
  c.entries.find? fun e => e.buffer.id == id && !c.isExpired now e

/-- Drops the buffer of an identity. -/
def invalidate (id : BroadcastId) (c : BroadcastCache) (h : Host) : BroadcastCache × Host :=
  let (dropped, kept) := c.entries.partition (·.buffer.id == id)
  ({ c with entries := kept }, releaseAll dropped h)

/-- Keeps a buffer, in place of one of the same identity. -/
def insert (now : Nat) (b : Buffer) (c : BroadcastCache) (h : Host) : BroadcastCache × Host :=
  let (c, h) := c.invalidate b.id (h.retain b.id)
  { c with entries := ⟨b, now⟩ :: c.entries }.makeRoom now h

/-- The buffer of an identity, with a reference for the one who asks. This counts as a use. -/
def get (now : Nat) (id : BroadcastId) (c : BroadcastCache) (h : Host) :
    Option Buffer × BroadcastCache × Host :=
  match c.find? now id with
  | none => (none, c, h)
  | some e =>
    let others := c.entries.filter (·.buffer.id != id)
    (some e.buffer, { c with entries := { e with lastUsed := now } :: others }, h.retain id)

/-- Whether the buffer of an identity is found. -/
def contains (now : Nat) (id : BroadcastId) (c : BroadcastCache) : Bool :=
  (c.find? now id).isSome

/-- The number of buffers, after room was made. -/
def length (now : Nat) (c : BroadcastCache) (h : Host) : Nat × BroadcastCache × Host :=
  let (c, h) := c.makeRoom now h
  (c.entries.length, c, h)

end BroadcastCache

end Columnar
