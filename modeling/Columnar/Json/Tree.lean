import Columnar.Json.Record
import Columnar.Tree

/-!
# The JSON form of expression trees

Types, fields, constants and trees as documents. A node names its `kind` beside its parts; a
constant names its type.

Which kind of node an object stands for is known only when all of it has been read, so the whole of
`root` is held in memory first: it must be plain, and the document must not nest deeper than 127
containers. Held documents are read a little more freely than others (an empty object may stand for
null, and the number of a kind for its name), and they have no integers of 128 bits, so that a
decimal constant is written but never read.
-/

namespace Columnar

namespace DataType

/-- The types that are written as a name alone, with their names. -/
def named : List (String × DataType) :=
  [("null", null), ("boolean", boolean), ("int8", int8), ("int16", int16), ("int32", int32),
    ("int64", int64), ("float32", float32), ("float64", float64), ("utf8", utf8),
    ("binary", binary), ("date32", date32), ("timestampMicros", timestampMicros)]

/-- A type as a document. -/
def toJson : DataType → Json
  | decimal128 precision scale =>
    .ofMembers [("decimal128",
      .ofMembers [("precision", .ofInt precision.toNat), ("scale", .ofInt scale.toInt)])]
  | type => .string ((named.find? (·.2 == type)).map (·.1))

/-- Reads the parameters of a decimal type. -/
def decimalOfJson? (j : Json) : Option DataType := do
  let [precision, scale] ← j.record? ["precision", "scale"] | none
  return decimal128 (UInt8.ofNat (← (← precision).unsigned? 8)) (Int8.ofInt (← (← scale).signed? 8))

/-- Reads a type, from a document in memory if `held`. -/
def ofJson? (held : Bool) : Json → Option DataType
  | .string s => do named.lookup (← s)
  | .object [(some "decimal128", j)] => decimalOfJson? j
  | .object [(some name, .null)] => named.lookup name
  | .object [(some name, .object [])] => if held then named.lookup name else none
  | _ => none

end DataType

namespace Field

/-- A field as a document. -/
def toJson (f : Field) : Json :=
  .ofMembers [("name", .ofString f.name), ("data_type", f.type.toJson),
    ("nullable", .bool f.nullable)]

/-- Reads a field, from a document in memory if `held`. -/
def ofJson? (held : Bool) (j : Json) : Option Field := do
  let [name, type, nullable] ← j.record? ["name", "data_type", "nullable"] | none
  return ⟨← (← name).string?, ← DataType.ofJson? held (← type), ← (← nullable).bool?⟩

end Field

namespace Literal

/-- A number as a document, null if JSON has no numeral for it. -/
private def floatToJson (f : Binary) (bits : Nat) : Json :=
  match f.jsonText? bits with
  | some numeral => .number numeral
  | none => .null

/-- A constant as a document. -/
def toJson : Literal → Json
  | null type => .ofMembers [("null", type.toJson)]
  | boolean v => .ofMembers [("boolean", .bool v)]
  | int8 v => .ofMembers [("int8", .ofInt v.toInt)]
  | int16 v => .ofMembers [("int16", .ofInt v.toInt)]
  | int32 v => .ofMembers [("int32", .ofInt v.toInt)]
  | int64 v => .ofMembers [("int64", .ofInt v.toInt)]
  | float32 v => .ofMembers [("float32", floatToJson .single v.toNat)]
  | float64 v => .ofMembers [("float64", floatToJson .double v.toNat)]
  | decimal128 v precision scale =>
    .ofMembers [("decimal128",
      .ofMembers [("value", .ofInt v.toInt), ("precision", .ofInt precision.toNat),
        ("scale", .ofInt scale.toInt)])]
  | utf8 v => .ofMembers [("utf8", .ofString v)]
  | binary v => .ofMembers [("binary", .array (v.map fun b => .ofInt b.toNat))]
  | date32 v => .ofMembers [("date32", .ofInt v.toInt)]
  | timestampMicros v => .ofMembers [("timestampMicros", .ofInt v.toInt)]

/-- Reads a constant from a document in memory. -/
def ofJson? : Json → Option Literal
  | .object [(some name, j)] =>
    match name with
    | "null" => (DataType.ofJson? true j).map null
    | "boolean" => j.bool?.map boolean
    | "int8" => (j.signed? 8).map fun n => int8 (Int8.ofInt n)
    | "int16" => (j.signed? 16).map fun n => int16 (Int16.ofInt n)
    | "int32" => (j.signed? 32).map fun n => int32 (Int32.ofInt n)
    | "int64" => (j.signed? 64).map fun n => int64 (Int64.ofInt n)
    | "float32" => j.number?.map fun n => float32 n.toSingle
    | "float64" => j.number?.map fun n => float64 n.toDouble
    | "utf8" => j.string?.map utf8
    | "binary" => do
      return binary ((← (← j.items?).mapM (·.unsigned? 8)).map UInt8.ofNat)
    | "date32" => (j.signed? 32).map fun n => date32 (Int32.ofInt n)
    | "timestampMicros" => (j.signed? 64).map fun n => timestampMicros (Int64.ofInt n)
    | _ => none
  | _ => none

end Literal

namespace TreeNode

mutual

/-- A tree as a document. -/
def toJson : TreeNode → Json
  | field index f =>
    .ofMembers [("kind", .ofString "field"), ("index", .ofInt index.toNat), ("field", f.toJson)]
  | literal value => .ofMembers [("kind", .ofString "literal"), ("value", value.toJson)]
  | function name children type =>
    .ofMembers [("kind", .ofString "function"), ("name", .ofString name),
      ("children", .array (toJsonAll children)), ("return_type", type.toJson)]
  | and children =>
    .ofMembers [("kind", .ofString "and"), ("children", .array (toJsonAll children))]
  | or children =>
    .ofMembers [("kind", .ofString "or"), ("children", .array (toJsonAll children))]

/-- Trees as documents. -/
def toJsonAll : List TreeNode → List Json
  | [] => []
  | node :: nodes => node.toJson :: toJsonAll nodes

end

/-- The names of the kinds of nodes, in order. -/
def kinds : List String :=
  ["field", "literal", "function", "and", "or"]

/-- The name of a kind; below the root its number will do. -/
def kindOfJson? (isRoot : Bool) : Json → Option String
  | .string s => do
    let name ← s
    if kinds.contains name then some name else none
  | .number numeral => do
    let n ← (← Json.Number.ofNumeral? numeral).int?
    if isRoot || n < 0 then none else kinds[n.toNat]?
  | _ => none

/-- Splits a node into its kind and its parts: the members of an object besides its kind, or the
items of an array after the first. -/
def splitKind? (isRoot : Bool) : Json → Option (String × Json)
  | .object members =>
    match members.filter (·.1 == some "kind") with
    | [(_, kind)] => do
      return (← kindOfJson? isRoot kind, .object (members.filter (·.1 != some "kind")))
    | _ => none
  | .array (kind :: parts) => do return (← kindOfJson? isRoot kind, .array parts)
  | _ => none

/-- Reads a tree of at most `depth` levels from a document in memory. -/
def ofJson? (isRoot : Bool) : (depth : Nat) → Json → Option TreeNode
  | 0, _ => none
  | depth + 1, j => do
    let (kind, parts) ← splitKind? isRoot j
    let nodes? (j : Json) : Option (List TreeNode) := do
      (← j.items?).mapM (ofJson? false depth)
    match kind with
    | "field" =>
      let [index, f] ← parts.record? ["index", "field"] | none
      return field (UInt64.ofNat (← (← index).unsigned? 64)) (← Field.ofJson? true (← f))
    | "literal" =>
      let [value] ← parts.record? ["value"] | none
      return literal (← Literal.ofJson? (← value))
    | "function" =>
      let [name, children, type] ← parts.record? ["name", "children", "return_type"] | none
      return function (← (← name).string?) (← nodes? (← children))
        (← DataType.ofJson? true (← type))
    | "and" =>
      let [children] ← parts.record? ["children"] | none
      return and (← nodes? (← children))
    | _ =>
      let [children] ← parts.record? ["children"] | none
      return or (← nodes? (← children))

end TreeNode

namespace ExpressionTree

/-- An expression tree as a document. -/
def toJson (t : ExpressionTree) : Json :=
  .ofMembers [("root", t.root.toJson), ("result", t.result.toJson)]

/-- The greatest depth of containers around and inside a document that is held in memory. -/
def maxDepth : Nat := 127

/-- Reads an expression tree from a document. -/
def ofJson? (j : Json) : Option ExpressionTree := do
  let [root, result] ← j.record? ["root", "result"] | none
  let root ← root
  if root.isPlain && root.depth + 1 ≤ maxDepth then
    return ⟨← TreeNode.ofJson? true root.depth root, ← Field.ofJson? false (← result)⟩
  else none

end ExpressionTree

end Columnar
