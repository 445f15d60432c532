import Columnar.Batch
import Columnar.Block
import Columnar.Broadcast
import Columnar.Bytes
import Columnar.Compile
import Columnar.Compression.Algorithm
import Columnar.Compression.Checksum
import Columnar.Compression.Compressor
import Columnar.Compression.Lz4
import Columnar.Compression.Runs
import Columnar.Compression.Snappy
import Columnar.Compression.Zstd.Early.Frame
import Columnar.Compression.Zstd.Early.Literals
import Columnar.Compression.Zstd.Early.Sequences
import Columnar.Compression.Zstd.Frame
import Columnar.Compression.Zstd.Fse
import Columnar.Compression.Zstd.Literals
import Columnar.Compression.Zstd.Sequences
import Columnar.DataType
import Columnar.Dataset
import Columnar.Error
import Columnar.Eval.Arithmetic
import Columnar.Eval.Executable
import Columnar.Eval.Kernel
import Columnar.Expr
import Columnar.Host
import Columnar.Json.Basic
import Columnar.Json.Parser
import Columnar.Json.Record
import Columnar.Json.Tree
import Columnar.Number
import Columnar.Packed.Basic
import Columnar.Packed.Tree
import Columnar.Pipeline
import Columnar.Proofs.Block.Accounting
import Columnar.Proofs.Block.Calls
import Columnar.Proofs.Block.Codec
import Columnar.Proofs.Block.Declared
import Columnar.Proofs.Block.Enforcement
import Columnar.Proofs.Block.Reader
import Columnar.Proofs.Block.Reading
import Columnar.Proofs.Block.References
import Columnar.Proofs.Block.Room
import Columnar.Proofs.Block.Step
import Columnar.Proofs.Block.Truncation
import Columnar.Proofs.Broadcast.Lifetime
import Columnar.Proofs.Broadcast.Registry
import Columnar.Proofs.Bytes
import Columnar.Proofs.Compile.Executable
import Columnar.Proofs.Compile.OutputType
import Columnar.Proofs.Compile.Resolved
import Columnar.Proofs.Compile.Scripts
import Columnar.Proofs.Compile.Supported
import Columnar.Proofs.Compile.Trace
import Columnar.Proofs.Compile.Tree
import Columnar.Proofs.Compile.Walk
import Columnar.Proofs.Compression.Lossless
import Columnar.Proofs.Compression.Lz4
import Columnar.Proofs.Compression.Runs
import Columnar.Proofs.Compression.Snappy
import Columnar.Proofs.Compression.SnappyFormat
import Columnar.Proofs.Compression.Zstd
import Columnar.Proofs.Dataset.Interleaving
import Columnar.Proofs.Dataset.Lifecycle
import Columnar.Proofs.Dataset.Reading
import Columnar.Proofs.Dataset.Replay
import Columnar.Proofs.Dataset.Session
import Columnar.Proofs.Eval.Batch
import Columnar.Proofs.Eval.Kleene
import Columnar.Proofs.Eval.Row
import Columnar.Proofs.Eval.Slice
import Columnar.Proofs.Eval.Type
import Columnar.Proofs.Except
import Columnar.Proofs.Filter
import Columnar.Proofs.Filter.Cut
import Columnar.Proofs.Json.Document
import Columnar.Proofs.Json.Text
import Columnar.Proofs.Json.Tree
import Columnar.Proofs.Packed.Reading
import Columnar.Proofs.Packed.Shortest
import Columnar.Proofs.Packed.Tree
import Columnar.Proofs.Settings
import Columnar.Proofs.Settings.Pairs
import Columnar.Proofs.Stream.Batch
import Columnar.Proofs.Stream.FlatBuffer.Parts
import Columnar.Proofs.Stream.FlatBuffer.Slots
import Columnar.Proofs.Stream.Layout
import Columnar.Proofs.Stream.Message
import Columnar.Proofs.Stream.Metadata
import Columnar.Proofs.Stream.Reader
import Columnar.Proofs.Stream.Schema
import Columnar.Proofs.Stream.Truncation
import Columnar.Proofs.Text
import Columnar.Proofs.Utf8
import Columnar.Settings
import Columnar.Stream.FlatBuffer
import Columnar.Stream.Layout
import Columnar.Stream.Message
import Columnar.Stream.Metadata
import Columnar.Text
import Columnar.Tree
