import Columnar.Compile

/-!
# Expression trees

A compiled expression as data that is handed to a native backend, the functions that a backend must
know, and the node builder that makes trees of them.
-/

namespace Columnar

/-! ## Trees

A compiled expression in the form that is handed to a native backend: references by position with a
copy of the field, constants, applications of named functions, and conjunctions and disjunctions of
any number of operands.
-/

/-- One node of an expression tree. -/
inductive TreeNode where
  /-- The input column at a position, with its description. -/
  | field (index : UInt64) (field : Field)
  /-- A constant. -/
  | literal (value : Literal)
  /-- A native function applied to operands. -/
  | function (name : String) (children : List TreeNode) (type : DataType)
  /-- The conjunction of the operands. -/
  | and (children : List TreeNode)
  /-- The disjunction of the operands. -/
  | or (children : List TreeNode)
deriving Repr, Inhabited

namespace TreeNode

/-- The type of the value that a node produces. -/
def type : TreeNode → DataType
  | field _ f => f.type
  | literal value => value.type
  | function _ _ type => type
  | and _ | or _ => .boolean

/-- The operands of a node. -/
def children : TreeNode → List TreeNode
  | field _ _ | literal _ => []
  | function _ children _ | and children | or children => children

/-- The name of the function that a node applies. -/
def functionName? : TreeNode → Option String
  | function name _ _ => some name
  | _ => none

mutual

/-- The number of nodes of a tree. -/
def count : TreeNode → Nat
  | field _ _ | literal _ => 1
  | function _ children _ | and children | or children => countAll children + 1

/-- The number of nodes of a list of trees. -/
def countAll : List TreeNode → Nat
  | [] => 0
  | node :: nodes => node.count + countAll nodes

end

mutual

/-- Whether a constant in a tree is no number, and so differs from itself. -/
def hasNaN : TreeNode → Bool
  | field _ _ => false
  | literal value => value.isNaN
  | function _ children _ | and children | or children => anyNaN children

/-- Whether a constant in a list of trees is no number. -/
def anyNaN : List TreeNode → Bool
  | [] => false
  | node :: nodes => node.hasNaN || anyNaN nodes

end

mutual

/-- Decides equality of trees, floating-point constants bit for bit. -/
def decEq : (x y : TreeNode) → Decidable (x = y)
  | field i f, field j g =>
    decidable_of_iff (i = j ∧ f = g) (by simp)
  | literal v, literal w => decidable_of_iff (v = w) (by simp)
  | function m xs t, function n ys u =>
    have := decEqAll xs ys
    decidable_of_iff (m = n ∧ xs = ys ∧ t = u) (by simp)
  | and xs, and ys | or xs, or ys =>
    have := decEqAll xs ys
    decidable_of_iff (xs = ys) (by simp)
  | field _ _, literal _ | field _ _, function _ _ _ | field _ _, and _ | field _ _, or _
  | literal _, field _ _ | literal _, function _ _ _ | literal _, and _ | literal _, or _
  | function _ _ _, field _ _ | function _ _ _, literal _ | function _ _ _, and _
  | function _ _ _, or _
  | and _, field _ _ | and _, literal _ | and _, function _ _ _ | and _, or _
  | or _, field _ _ | or _, literal _ | or _, function _ _ _ | or _, and _ =>
    isFalse (by simp)

/-- Decides equality of lists of trees. -/
def decEqAll : (xs ys : List TreeNode) → Decidable (xs = ys)
  | [], [] => isTrue rfl
  | [], _ :: _ | _ :: _, [] => isFalse (by simp)
  | x :: xs, y :: ys =>
    have := decEq x y
    have := decEqAll xs ys
    decidable_of_iff (x = y ∧ xs = ys) (by simp)

end

instance : DecidableEq TreeNode := decEq

end TreeNode

/-- A compiled expression with the description of its output. -/
structure ExpressionTree where
  /-- The expression. -/
  root : TreeNode
  /-- The output: its name and type; it may always hold NULL. -/
  result : Field
deriving DecidableEq, Repr

namespace ExpressionTree

/-- The tree of an expression whose output has a name. -/
def ofRoot (root : TreeNode) (name : String) : ExpressionTree :=
  ⟨root, ⟨name, root.type, true⟩⟩

end ExpressionTree

/-! ## Native functions

The functions that a native backend must know, with the number of their operands. Trees are checked
against this list when they are built.
-/

/-- The shape of a native function. -/
structure NativeFunction where
  /-- The name that trees use. -/
  name : String
  /-- How many operands it takes. -/
  arity : Nat
  /-- Whether it always returns a truth value. -/
  returnsBoolean : Bool
deriving DecidableEq, Repr

namespace NativeFunction

/-- A comparison of two operands. -/
private def comparison (name : String) : NativeFunction :=
  ⟨name, 2, true⟩

/-- An arithmetic operation on two operands. -/
private def arithmetic (name : String) : NativeFunction :=
  ⟨name, 2, false⟩

/-- A test of one operand. -/
private def test (name : String) : NativeFunction :=
  ⟨name, 1, true⟩

/-- All native functions. -/
def registry : List NativeFunction :=
  [comparison "equal", comparison "less_than", comparison "less_than_or_equal_to",
    comparison "greater_than", comparison "greater_than_or_equal_to", arithmetic "add",
    arithmetic "subtract", arithmetic "multiply", arithmetic "divide", arithmetic "mod",
    test "not", test "isnull", test "isnotnull"]

/-- The native function of a name. -/
def lookup? (name : String) : Option NativeFunction :=
  registry.find? (·.name == name)

end NativeFunction

/-! ## Building expression trees

The node builder whose nodes are expression trees. It checks each function against the list of
native functions: its name, the number of its operands, and that a test is given the type of a truth
value.
-/

namespace TreeNode

/-- The conjunction of at least one tree. -/
def makeAnd (nodes : List TreeNode) : Except Refusal TreeNode :=
  if nodes.isEmpty then .error (.noOperands "and") else .ok (and nodes)

/-- The disjunction of at least one tree. -/
def makeOr (nodes : List TreeNode) : Except Refusal TreeNode :=
  if nodes.isEmpty then .error (.noOperands "or") else .ok (or nodes)

/-- A native function applied to trees. -/
def makeFunction (name : String) (nodes : List TreeNode) (type : DataType) :
    Except Refusal TreeNode :=
  match NativeFunction.lookup? name with
  | none => .error (.unknownFunction name)
  | some f =>
    if f.arity ≠ nodes.length then .error (.wrongArity name f.arity nodes.length)
    else if f.returnsBoolean ∧ type ≠ .boolean then .error (.notBoolean name type)
    else .ok (function name nodes type)

/-- The node builder of expression trees; it keeps no state. -/
def builder : NodeBuilder Unit TreeNode where
  field index f := pure (field index f)
  literal value := pure (literal value)
  and nodes := ExceptT.mk (pure ((makeAnd nodes).mapError Refusal.toError))
  or nodes := ExceptT.mk (pure ((makeOr nodes).mapError Refusal.toError))
  function name nodes type :=
    ExceptT.mk (pure ((makeFunction name nodes type).mapError Refusal.toError))

end TreeNode

namespace Expr

/-- The expression tree of an expression, with the type of its value. -/
def toTreeNode (e : Expr) (fields : List Field) : Except Error (TreeNode × DataType) :=
  (e.compile TreeNode.builder fields ⟨(), []⟩).1

/-- The expression tree of an expression, with an output of the given name. -/
def toTree (e : Expr) (fields : List Field) (name : String) : Except Error ExpressionTree :=
  (e.toTreeNode fields).map fun (root, _) => .ofRoot root name

end Expr

end Columnar
