import Columnar.Compression.Algorithm
import Columnar.Compression.Lz4
import Columnar.Compression.Snappy
import Columnar.Compression.Zstd.Frame

/-!
# Compressors

A compressor works by one of the algorithms and may count what passes through it. What it returns is
a value, and so are its counts: each operation takes them and returns them.

A block declares its length only where the format does so in a fixed place. Such a length is not
believed when it is beyond what the format could reach.
-/

namespace Columnar.Compression

/-- A compressor. -/
structure Compressor where
  /-- How it works. -/
  algorithm : Algorithm
  /-- The level that was chosen. Readers need none, and the writers of this library, which look for
  runs only, do not use it: the same byte string has the same block at every level. -/
  level : Int32
  /-- Whether it counts. -/
  trackStats : Bool
deriving DecidableEq, Repr

/-- Why a block cannot be decompressed. -/
inductive Defect where
  /-- It declares more than its length can hold. -/
  | excessiveSize (size declared : Nat)
  /-- It is no frame of the algorithm; `reason` says why not. -/
  | badFrame (algorithm : Algorithm) (reason : String)
deriving DecidableEq, Repr

/-- The error of a defect. -/
def Defect.toError : Defect → Error
  | excessiveSize size declared =>
    ⟨.decompression, s!"LZ4 frame of {size} bytes declares {declared} uncompressed bytes", none⟩
  | badFrame algorithm reason =>
    let title := match algorithm with
      | .lz4 => "LZ4"
      | .zstd => "Zstd"
      | .snappy => "Snappy"
    .wrap .decompression s!"{title} decompression failed" reason

namespace Compressor

/-- The compressor of a choice. Levels are checked for the algorithm that has them. -/
def ofConfig (c : Config) : Except Error Compressor :=
  let level := c.level.getD c.algorithm.defaultLevel
  if c.algorithm.supportsLevels ∧ (level < 1 ∨ 22 < level) then
    .error ⟨.configuration,
      s!"Invalid zstd compression level: {level.toInt}. Must be between 1 and 22", none⟩
  else .ok ⟨c.algorithm, level, c.trackStats⟩

/-- The compressed form of a byte string, which does not depend on the level. -/
def encode (c : Compressor) (b : Bytes) : Bytes :=
  match c.algorithm with
  | .lz4 => Lz4.compress b
  | .zstd => Zstd.compress b
  | .snappy => Snappy.compress b

/-- The length that a block declares. -/
def declaredSize? (c : Compressor) (block : Bytes) : Option Nat :=
  match c.algorithm with
  | .lz4 => Lz4.declaredSize? block
  | .zstd | .snappy => none

/-- A byte of a block stands for at most so many bytes. -/
def maxExpansion : Nat := 255

/-- The byte string of which a block is the compressed form. -/
def decode (c : Compressor) (block : Bytes) : Except Defect Bytes :=
  match c.algorithm with
  | .lz4 =>
    let declared := (c.declaredSize? block).getD 0
    if block.length * maxExpansion < declared then .error (.excessiveSize block.length declared)
    else (Lz4.decompress block).mapError fun e => .badFrame .lz4 e.text
  | .zstd => (Zstd.decompress block).mapError fun e => .badFrame .zstd e.text
  | .snappy => (Snappy.decompress block).mapError fun e => .badFrame .snappy e.text

/-- Compresses a byte string, and counts it. -/
def compress (c : Compressor) (stats : Stats) (b : Bytes) : Bytes × Stats :=
  let block := c.encode b
  (block, if c.trackStats then stats.recordCompression b.length block.length else stats)

/-- Decompresses a block, and counts it if that succeeds. -/
def decompress (c : Compressor) (stats : Stats) (block : Bytes) : Except Error Bytes × Stats :=
  match c.decode block with
  | .ok b => (.ok b, if c.trackStats then stats.recordDecompression b.length else stats)
  | .error e => (.error e.toError, stats)

end Compressor

end Columnar.Compression
