import Columnar.Bytes

/-!
# Checks of content

The checks and hashes by which compressed formats guard their content.
-/

namespace Columnar.Compression

/-! ## CRC-32C

The cyclic redundancy check with the Castagnoli polynomial, bits taken least significant first,
started from all ones and inverted at the end.
-/

namespace Crc32c

/-- The polynomial, its bits reversed. -/
def polynomial : UInt32 := 0x82F63B78

/-- Shifts out the lowest bits of a remainder. -/
def shift : (bits : Nat) → UInt32 → UInt32
  | 0, r => r
  | bits + 1, r => shift bits (if r &&& 1 = 1 then (r >>> 1) ^^^ polynomial else r >>> 1)

/-- The remainder after one more byte. -/
def update (r : UInt32) (b : UInt8) : UInt32 :=
  shift 8 (r ^^^ b.toUInt32)

/-- The check of a byte string. -/
def checksum (b : Bytes) : UInt32 :=
  (b.foldl update 0xFFFFFFFF) ^^^ 0xFFFFFFFF

end Crc32c

/-! ## XXH32

The 32-bit hash by which frames check their heads, blocks and content, with a seed of zero. Stripes
of four words are mixed into four accumulators; what is left is mixed in by words and single bytes.
-/

namespace XxHash32

/-- The first multiplier. -/
def prime1 : UInt32 := 0x9E3779B1

/-- The second multiplier. -/
def prime2 : UInt32 := 0x85EBCA77

/-- The third multiplier. -/
def prime3 : UInt32 := 0xC2B2AE3D

/-- The fourth multiplier. -/
def prime4 : UInt32 := 0x27D4EB2F

/-- The fifth multiplier. -/
def prime5 : UInt32 := 0x165667B1

/-- Rotates a word to the left. -/
def rotate (x : UInt32) (n : UInt32) : UInt32 :=
  (x <<< n) ||| (x >>> (32 - n))

/-- Mixes a word into an accumulator. -/
def mix (acc word : UInt32) : UInt32 :=
  rotate (acc + word * prime2) 13 * prime1

/-- The word of some bytes. -/
def word (b : Bytes) : UInt32 :=
  UInt32.ofNat (Bytes.toNat b)

/-- The four accumulators. -/
structure Lanes where
  /-- The first. -/
  a : UInt32
  /-- The second. -/
  b : UInt32
  /-- The third. -/
  c : UInt32
  /-- The fourth. -/
  d : UInt32

/-- The accumulators at the beginning. -/
def Lanes.initial : Lanes :=
  ⟨prime1 + prime2, prime2, 0, 0 - prime1⟩

/-- Mixes whole stripes into the accumulators; returns them with the bytes left. There are at most
`stripes` of them. -/
def Lanes.mixAll (l : Lanes) : (stripes : Nat) → Bytes → Lanes × Bytes
  | 0, b => (l, b)
  | stripes + 1, b =>
    Lanes.mixAll ⟨mix l.a (word (b.take 4)), mix l.b (word ((b.drop 4).take 4)),
      mix l.c (word ((b.drop 8).take 4)), mix l.d (word ((b.drop 12).take 4))⟩ stripes (b.drop 16)

/-- The hash of four accumulators. -/
def Lanes.hash (l : Lanes) : UInt32 :=
  rotate l.a 1 + rotate l.b 7 + rotate l.c 12 + rotate l.d 18

/-- Mixes the bytes after the stripes into the hash. -/
def finish (hash : UInt32) : Bytes → UInt32
  | a :: b :: c :: d :: rest =>
    finish (rotate (hash + word [a, b, c, d] * prime3) 17 * prime4) rest
  | a :: rest => finish (rotate (hash + a.toUInt32 * prime5) 11 * prime1) rest
  | [] => hash

/-- Spreads the bits of the hash. -/
def avalanche (h : UInt32) : UInt32 :=
  let h := (h ^^^ (h >>> 15)) * prime2
  let h := (h ^^^ (h >>> 13)) * prime3
  h ^^^ (h >>> 16)

/-- The hash of a byte string. -/
def hash (b : Bytes) : UInt32 :=
  let length := UInt32.ofNat b.length
  let (l, rest) := Lanes.initial.mixAll (b.length / 16) b
  avalanche (finish ((if b.length < 16 then prime5 else l.hash) + length) rest)

end XxHash32

/-! ## XXH64

The 64-bit hash by which frames check their content, with a seed of zero. Stripes of four words are
mixed into four accumulators; what is left is mixed in by words of eight and four bytes and by
single bytes.
-/

namespace XxHash64

/-- The first multiplier. -/
def prime1 : UInt64 := 0x9E3779B185EBCA87

/-- The second multiplier. -/
def prime2 : UInt64 := 0xC2B2AE3D27D4EB4F

/-- The third multiplier. -/
def prime3 : UInt64 := 0x165667B19E3779F9

/-- The fourth multiplier. -/
def prime4 : UInt64 := 0x85EBCA77C2B2AE63

/-- The fifth multiplier. -/
def prime5 : UInt64 := 0x27D4EB2F165667C5

/-- Rotates a word to the left. -/
def rotate (x : UInt64) (n : UInt64) : UInt64 :=
  (x <<< n) ||| (x >>> (64 - n))

/-- Mixes a word into an accumulator. -/
def mix (acc word : UInt64) : UInt64 :=
  rotate (acc + word * prime2) 31 * prime1

/-- Mixes an accumulator into the hash. -/
def merge (hash acc : UInt64) : UInt64 :=
  (hash ^^^ mix 0 acc) * prime1 + prime4

/-- The word of some bytes. -/
def word (b : Bytes) : UInt64 :=
  UInt64.ofNat (Bytes.toNat b)

/-- The four accumulators. -/
structure Lanes where
  /-- The first. -/
  a : UInt64
  /-- The second. -/
  b : UInt64
  /-- The third. -/
  c : UInt64
  /-- The fourth. -/
  d : UInt64

/-- The accumulators at the beginning. -/
def Lanes.initial : Lanes :=
  ⟨prime1 + prime2, prime2, 0, 0 - prime1⟩

/-- Mixes whole stripes into the accumulators; returns them with the bytes left. There are at most
`stripes` of them. -/
def Lanes.mixAll (l : Lanes) : (stripes : Nat) → Bytes → Lanes × Bytes
  | 0, b => (l, b)
  | stripes + 1, b =>
    Lanes.mixAll ⟨mix l.a (word (b.take 8)), mix l.b (word ((b.drop 8).take 8)),
      mix l.c (word ((b.drop 16).take 8)), mix l.d (word ((b.drop 24).take 8))⟩ stripes (b.drop 32)

/-- The hash of four accumulators. -/
def Lanes.hash (l : Lanes) : UInt64 :=
  let h := rotate l.a 1 + rotate l.b 7 + rotate l.c 12 + rotate l.d 18
  merge (merge (merge (merge h l.a) l.b) l.c) l.d

/-- Mixes the bytes after the stripes into the hash. -/
def finish (hash : UInt64) : Bytes → UInt64
  | a :: b :: c :: d :: e :: f :: g :: h :: rest =>
    finish (rotate (hash ^^^ mix 0 (word [a, b, c, d, e, f, g, h])) 27 * prime1 + prime4) rest
  | a :: b :: c :: d :: rest =>
    finish (rotate (hash ^^^ (word [a, b, c, d] * prime1)) 23 * prime2 + prime3) rest
  | a :: rest => finish (rotate (hash ^^^ (a.toUInt64 * prime5)) 11 * prime1) rest
  | [] => hash

/-- Spreads the bits of the hash. -/
def avalanche (h : UInt64) : UInt64 :=
  let h := (h ^^^ (h >>> 33)) * prime2
  let h := (h ^^^ (h >>> 29)) * prime3
  h ^^^ (h >>> 32)

/-- The hash of a byte string. -/
def hash (b : Bytes) : UInt64 :=
  let length := UInt64.ofNat b.length
  let (l, rest) := Lanes.initial.mixAll (b.length / 32) b
  avalanche (finish ((if b.length < 32 then prime5 else l.hash) + length) rest)

end XxHash64

end Columnar.Compression
