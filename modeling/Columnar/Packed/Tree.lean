import Columnar.Error
import Columnar.Packed.Basic
import Columnar.Tree

/-!
# The packed form of expression trees

Types, fields, constants and trees in the packed form. The alternatives of a type are numbered in
the order of its constructors, and the parts of a value follow in their order.
`ExpressionTree.unpack` ignores what follows the tree.
-/

namespace Columnar

open Packed

namespace DataType

/-- A type in packed form. -/
def pack : DataType → Bytes
  | null => Packed.ofNat 0
  | boolean => Packed.ofNat 1
  | int8 => Packed.ofNat 2
  | int16 => Packed.ofNat 3
  | int32 => Packed.ofNat 4
  | int64 => Packed.ofNat 5
  | float32 => Packed.ofNat 6
  | float64 => Packed.ofNat 7
  | decimal128 precision scale => Packed.ofNat 8 ++ [precision, scale.toUInt8]
  | utf8 => Packed.ofNat 9
  | binary => Packed.ofNat 10
  | date32 => Packed.ofNat 11
  | timestampMicros => Packed.ofNat 12

/-- Reads a type. -/
def reader : Reader DataType := do
  match ← Reader.variant with
  | 0 => return null
  | 1 => return boolean
  | 2 => return int8
  | 3 => return int16
  | 4 => return int32
  | 5 => return int64
  | 6 => return float32
  | 7 => return float64
  | 8 =>
    let precision ← Reader.byte
    let scale ← Reader.byte
    return decimal128 precision scale.toInt8
  | 9 => return utf8
  | 10 => return binary
  | 11 => return date32
  | 12 => return timestampMicros
  | n => throw (.unexpectedVariant "DataType" 12 n)

end DataType

namespace Field

/-- A field in packed form. -/
def pack (f : Field) : Bytes :=
  Packed.ofString f.name ++ f.type.pack ++ Packed.ofBool f.nullable

/-- Reads a field. -/
def reader : Reader Field := do
  let name ← Reader.string
  let type ← DataType.reader
  let nullable ← Reader.bool
  return ⟨name, type, nullable⟩

/-- A list of fields in packed form. -/
def packAll (fields : List Field) : Bytes :=
  Packed.ofNat fields.length ++ fields.flatMap pack

end Field

namespace Literal

/-- A constant in packed form. -/
def pack : Literal → Bytes
  | null type => Packed.ofNat 0 ++ type.pack
  | boolean v => Packed.ofNat 1 ++ Packed.ofBool v
  | int8 v => Packed.ofNat 2 ++ [v.toUInt8]
  | int16 v => Packed.ofNat 3 ++ Packed.ofInt v.toInt
  | int32 v => Packed.ofNat 4 ++ Packed.ofInt v.toInt
  | int64 v => Packed.ofNat 5 ++ Packed.ofInt v.toInt
  | float32 v => Packed.ofNat 6 ++ Bytes.ofNat 4 v.toNat
  | float64 v => Packed.ofNat 7 ++ Bytes.ofNat 8 v.toNat
  | decimal128 v precision scale =>
    Packed.ofNat 8 ++ Packed.ofInt v.toInt ++ [precision, scale.toUInt8]
  | utf8 v => Packed.ofNat 9 ++ Packed.ofString v
  | binary v => Packed.ofNat 10 ++ Packed.ofBytes v
  | date32 v => Packed.ofNat 11 ++ Packed.ofInt v.toInt
  | timestampMicros v => Packed.ofNat 12 ++ Packed.ofInt v.toInt

/-- Reads a constant. -/
def reader : Reader Literal := do
  match ← Reader.variant with
  | 0 => return null (← DataType.reader)
  | 1 => return boolean (← Reader.bool)
  | 2 => return int8 (← Reader.byte).toInt8
  | 3 => return int16 (Int16.ofInt (← Reader.int .u16))
  | 4 => return int32 (Int32.ofInt (← Reader.int .u32))
  | 5 => return int64 (Int64.ofInt (← Reader.int .u64))
  | 6 => return float32 (UInt32.ofNat (← Reader.word 4))
  | 7 => return float64 (UInt64.ofNat (← Reader.word 8))
  | 8 =>
    let value ← Reader.int .u128
    let precision ← Reader.byte
    let scale ← Reader.byte
    return decimal128 (BitVec.ofInt 128 value) precision scale.toInt8
  | 9 => return utf8 (← Reader.string)
  | 10 => return binary (← Reader.bytes)
  | 11 => return date32 (Int32.ofInt (← Reader.int .u32))
  | 12 => return timestampMicros (Int64.ofInt (← Reader.int .u64))
  | n => throw (.unexpectedVariant "Literal" 12 n)

end Literal

namespace TreeNode

mutual

/-- A tree in packed form. -/
def pack : TreeNode → Bytes
  | field index f => Packed.ofNat 0 ++ Packed.ofNat index.toNat ++ f.pack
  | literal value => Packed.ofNat 1 ++ value.pack
  | function name children type =>
    Packed.ofNat 2 ++ Packed.ofString name ++ Packed.ofNat children.length ++ packAll children ++
      type.pack
  | and children => Packed.ofNat 3 ++ Packed.ofNat children.length ++ packAll children
  | or children => Packed.ofNat 4 ++ Packed.ofNat children.length ++ packAll children

/-- Trees in packed form, one after the other. -/
def packAll : List TreeNode → Bytes
  | [] => []
  | node :: nodes => node.pack ++ packAll nodes

end

/-- Reads a tree whose depth is at most `depth`. Each level takes at least one byte, so that with as
many levels as there are bytes the bytes end before the levels do. -/
def reader : (depth : Nat) → Reader TreeNode
  | 0 => throw (.unexpectedEnd 1)
  | depth + 1 => do
    match ← Reader.variant with
    | 0 =>
      let index ← Reader.nat .size
      let f ← Field.reader
      return field (UInt64.ofNat index) f
    | 1 => return literal (← Literal.reader)
    | 2 =>
      let name ← Reader.string
      let children ← Reader.list (reader depth)
      let type ← DataType.reader
      return function name children type
    | 3 => return and (← Reader.list (reader depth))
    | 4 => return or (← Reader.list (reader depth))
    | n => throw (.unexpectedVariant "TreeNode" 4 n)

end TreeNode

namespace ExpressionTree

/-- An expression tree in packed form. -/
def pack (t : ExpressionTree) : Bytes :=
  t.root.pack ++ t.result.pack

/-- Reads an expression tree from the front of bytes; what follows it is ignored. -/
def unpack? (b : Bytes) : Except Packed.Defect ExpressionTree :=
  let read : Reader ExpressionTree := do
    let root ← TreeNode.reader b.length
    let result ← Field.reader
    return ⟨root, result⟩
  (read b).map (·.1)

/-- Reads an expression tree from the front of bytes. -/
def unpack (b : Bytes) : Except Error ExpressionTree :=
  (unpack? b).mapError fun defect =>
    ⟨.deserialization, "Failed to decode expression tree: " ++ defect.text, none⟩

end ExpressionTree

end Columnar
