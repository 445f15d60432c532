import Columnar.Error
import Columnar.Text

/-!
# Compression algorithms

Which algorithms there are, how one is chosen, and what is counted about their use.
-/

namespace Columnar.Compression

/-! ## Algorithms

The algorithms by which a block may be compressed, and how settings name them.
-/

/-- How blocks are compressed. -/
inductive Algorithm where
  /-- One block of sequences of literals and matches, after the length of the content. -/
  | lz4
  /-- Frames of entropy-coded blocks. -/
  | zstd
  /-- A stream of chunks with checksums. -/
  | snappy
deriving DecidableEq, Repr

namespace Algorithm

/-- The name of an algorithm in settings and messages. -/
def name : Algorithm → String
  | lz4 => "lz4"
  | zstd => "zstd"
  | snappy => "snappy"

instance : ToString Algorithm where
  toString := name

/-- All algorithms. -/
def all : List Algorithm :=
  [lz4, zstd, snappy]

/-- The algorithm of an exact name. -/
def ofName? (s : String) : Option Algorithm :=
  all.find? (·.name == s)

/-- An algorithm is found by its name. -/
@[simp] theorem ofName?_name (a : Algorithm) : ofName? a.name = some a := by
  cases a <;> rfl

/-- The algorithm that a setting names, whatever the case of its letters and the blanks around
it. -/
def parse (s : String) : Except Error Algorithm :=
  let normal := String.ofList ((Text.trim s.toList).map Char.toLower)
  match ofName? normal with
  | some a => .ok a
  | none =>
    .error ⟨.configuration,
      s!"Unknown compression codec '{normal}', expected one of lz4, zstd, snappy", none⟩

/-- The level at which an algorithm works unless told otherwise. -/
def defaultLevel : Algorithm → Int32
  | zstd => 1
  | lz4 | snappy => 0

/-- Whether the level makes a difference. -/
def supportsLevels : Algorithm → Bool
  | zstd => true
  | lz4 | snappy => false

end Algorithm

/-- The choice of a compressor. -/
structure Config where
  /-- How blocks are compressed. -/
  algorithm : Algorithm
  /-- The level, or `none` for the default of the algorithm. -/
  level : Option Int32
  /-- Whether the compressor counts what passes through it. -/
  trackStats : Bool
deriving DecidableEq, Repr

/-- The choice of an algorithm at its default level, with statistics. -/
def Config.ofAlgorithm (a : Algorithm) : Config :=
  ⟨a, some a.defaultLevel, true⟩

/-! ## Statistics

How often a compressor was used, and on how much.
-/

/-- What has passed through a compressor, in 64-bit counters. -/
structure Stats where
  /-- Blocks compressed. -/
  compressions : UInt64 := 0
  /-- Blocks decompressed. -/
  decompressions : UInt64 := 0
  /-- Bytes given to be compressed. -/
  inputBytes : UInt64 := 0
  /-- Bytes that compression returned. -/
  compressedBytes : UInt64 := 0
  /-- Bytes that decompression returned. -/
  decompressedBytes : UInt64 := 0
deriving DecidableEq, Repr

namespace Stats

/-- Counts one compression. -/
def recordCompression (inputSize compressedSize : Nat) (s : Stats) : Stats :=
  { s with
    compressions := s.compressions + 1
    inputBytes := s.inputBytes + UInt64.ofNat inputSize
    compressedBytes := s.compressedBytes + UInt64.ofNat compressedSize }

/-- Counts one decompression. -/
def recordDecompression (decompressedSize : Nat) (s : Stats) : Stats :=
  { s with
    decompressions := s.decompressions + 1
    decompressedBytes := s.decompressedBytes + UInt64.ofNat decompressedSize }

/-- Compressed bytes for each byte of input; zero when nothing was compressed. -/
def ratio (s : Stats) : Float :=
  if s.inputBytes == 0 then 0.0 else s.compressedBytes.toFloat / s.inputBytes.toFloat

end Stats

end Columnar.Compression
