import Columnar.Proofs.Compile.Executable
import Columnar.Proofs.Compile.OutputType
import Columnar.Proofs.Compile.Supported
import Mathlib.Data.List.Forall2

/-!
# Compiled trees

`HasTree fields e x t` relates an expression to its expression tree and the type that the compiler
finds for it. There is one rule for each kind of expression, and `hasTree_of_compile` derives it
from a compilation that succeeds: what follows are inductions over `HasTree`.

Main statement: `Expr.isWellFormed_of_toTree`. A compiled tree has the shape of its expression, node
by node (`Expr.IsMirroredBy`), and each node of it is well formed.

A position in a tree is a word of 64 bits, so these statements are about lists of at most `2 ^ 64`
fields, as every list in memory is.
-/

namespace Columnar

/-- The type of the node of a lowering whose first operand has a type. -/
def Lowering.typeOn (operandType : DataType) : Lowering → DataType
  | conjunction | disjunction | function _ .boolean => .boolean
  | function _ .declared => operandType

/-- An expression over input fields, its expression tree and the type found for it. -/
inductive HasTree (fields : List Field) : Expr → TreeNode → DataType → Prop where
  /-- A reference by position has the field there, and the type that it declares. -/
  | bound {ordinal : UInt64} {type : DataType} {nullable : Bool} {f : Field}
      (h : fields[ordinal.toNat]? = some f) :
      HasTree fields (.bound ordinal type nullable) (.field ordinal f) type
  /-- A reference by name has the first field of that name. -/
  | column {name : String} {f : Field} {index : Nat}
      (h : fields.zipIdx.find? (·.1.name == name) = some (f, index)) :
      HasTree fields (.column name) (.field (UInt64.ofNat index) f) f.type
  /-- A constant. -/
  | literal {value : Literal} : HasTree fields (.literal value) (.literal value) value.type
  /-- An operator with two operands. -/
  | binary {op : BinaryOp} {lowering : Lowering} {left right : Expr} {x y : TreeNode}
      {t u : DataType} (h : op.lowering? = some lowering) (hx : HasTree fields left x t)
      (hy : HasTree fields right y u) :
      HasTree fields (.binary op left right)
        ((Finding.operator lowering).tree [x, y] (lowering.typeOn t)) (lowering.typeOn t)
  /-- An operator with one operand. -/
  | unary {op : UnaryOp} {lowering : Lowering} {child : Expr} {x : TreeNode} {t : DataType}
      (h : op.lowering? = some lowering) (hx : HasTree fields child x t) :
      HasTree fields (.unary op child)
        ((Finding.operator lowering).tree [x] (lowering.typeOn t)) (lowering.typeOn t)

variable {fields : List Field} {e : Expr} {x : TreeNode} {t : DataType}

/-! ### Types -/

@[simp]
theorem Finding.type_tree_operator (lowering : Lowering) (nodes : List TreeNode) (t : DataType) :
    ((operator lowering).tree nodes (lowering.typeOn t)).type = lowering.typeOn t := by
  cases lowering <;> rfl

namespace HasTree

/-- The type found for an expression is the declared one, where there is one. -/
private theorem getD_type? (h : HasTree fields e x t) : e.type?.getD t = t := by
  induction h with
  | bound | column | literal => rfl
  | @binary op lowering left right x y t u hl hx hy ihx ihy =>
    cases op <;> cases hl <;> first | rfl | exact ihx
  | @unary op lowering child x t hl hx ihx => cases op <;> cases hl <;> rfl

/-- A lowering has the type that the compiler finds for its operator. -/
private theorem loweredType_binary {op : BinaryOp} {lowering : Lowering}
    (hl : op.lowering? = some lowering) (h : HasTree fields e x t) (right : Expr) :
    (Expr.binary op e right).loweredType t lowering = lowering.typeOn t := by
  cases op <;> cases hl <;> first | rfl | exact h.getD_type?

/-- A tree has the type that is found, if references by position declare the types of their
fields. -/
theorem type_eq (h : HasTree fields e x t) (ha : e.IsAnalysed fields) : x.type = t := by
  induction h with
  | bound hf => exact (ha _ hf).symm
  | column | literal => rfl
  | binary | unary => exact Finding.type_tree_operator _ _ _

end HasTree

/-! ### Compilations -/

namespace Expr

/-- **Inversion.** A compilation that succeeds ends with what the rules of `HasTree` say. -/
theorem hasTree_of_compile {s s' : CompileState Unit}
    (h : e.compile TreeNode.builder fields s = (.ok (x, t), s')) : HasTree fields e x t := by
  induction e generalizing x t s s' with
  | bound ordinal type nullable =>
    rw [compile] at h
    cases hf : fields[ordinal.toNat]? with
    | none => rw [hf] at h; cases h
    | some f =>
      simp only [hf, Compile.call_typed] at h
      cases h
      exact .bound hf
  | column name =>
    rw [compile] at h
    cases hf : fields.zipIdx.find? (·.1.name == name) with
    | none => rw [hf] at h; cases h
    | some r =>
      simp only [hf, Compile.call_typed] at h
      cases h
      exact .column hf
  | literal value =>
    rw [compile, Compile.call_typed] at h
    cases h
    exact .literal
  | binary op left right ihl ihr =>
    have ht := typeOver_of_compile h
    rw [compile] at h
    cases hl : op.lowering? with
    | none => rw [hl] at h; cases h
    | some lowering =>
      rw [hl] at h
      obtain ⟨⟨y, u⟩, s₁, hy, h⟩ := ExceptT.bind_eq_ok h
      obtain ⟨⟨z, v⟩, s₂, hz, h⟩ := ExceptT.bind_eq_ok h
      have htype : (Expr.binary op left right).typeOver fields = some _ :=
        typeOver_binary hl (typeOver_of_compile hy)
      have hroot : x = (Finding.operator lowering).tree [y, z] t :=
        root_of_ask (by rw [lookUp, hl]) rfl htype ((emit_eq ..).symm.trans h)
      have hy := ihl hy
      rw [hy.loweredType_binary hl, ht] at htype
      rw [hroot, Option.some.inj htype]
      exact .binary hl hy (ihr hz)
  | unary op child ih =>
    have ht := typeOver_of_compile h
    rw [compile] at h
    cases hl : op.lowering? with
    | none => rw [hl] at h; cases h
    | some lowering =>
      rw [hl] at h
      obtain ⟨⟨y, u⟩, s₁, hy, h⟩ := ExceptT.bind_eq_ok h
      have htype : (Expr.unary op child).typeOver fields = some _ := typeOver_unary u hl
      have hroot : x = (Finding.operator lowering).tree [y] t :=
        root_of_ask (by rw [lookUp, hl]) rfl htype ((emit_eq ..).symm.trans h)
      have hlowered : (Expr.unary op child).loweredType u lowering = lowering.typeOn u := by
        cases op <;> cases hl <;> rfl
      rw [hlowered, ht] at htype
      rw [hroot, Option.some.inj htype]
      exact .unary hl (ih hy)

theorem hasTree_of_toTreeNode (h : e.toTreeNode fields = .ok (x, t)) : HasTree fields e x t :=
  hasTree_of_compile (Prod.ext h rfl)

end Expr

/-! ### Nodes -/

namespace TreeNode

mutual

/-- The nodes of a tree, before their operands, and left before right. -/
def preorder : TreeNode → List TreeNode
  | field index f => [field index f]
  | literal value => [literal value]
  | function name children type => function name children type :: preorderAll children
  | and children => and children :: preorderAll children
  | or children => or children :: preorderAll children

/-- The nodes of a list of trees. -/
def preorderAll : List TreeNode → List TreeNode
  | [] => []
  | node :: nodes => node.preorder ++ preorderAll nodes

end

mutual

theorem length_preorder : (node : TreeNode) → node.preorder.length = node.count
  | field _ _ | literal _ => rfl
  | function _ children _ | and children | or children => by
    rw [preorder, count, List.length_cons, length_preorderAll]

theorem length_preorderAll : (nodes : List TreeNode) → (preorderAll nodes).length = countAll nodes
  | [] => rfl
  | node :: nodes => by
    rw [preorderAll, countAll, List.length_append, length_preorder node, length_preorderAll nodes]

end

/-- A node is what a native backend expects: a field of the input at its position, a native function
with its number of operands and its type, or a connective of two operands. -/
def IsWellFormed (fields : List Field) : TreeNode → Prop
  | field index f => fields[index.toNat]? = some f
  | literal _ => True
  | function name children type => ∃ f, NativeFunction.lookup? name = some f ∧
      children.length = f.arity ∧ (f.returnsBoolean = true → type = .boolean)
  | and children | or children => children.length = 2

/-- A native function that does not return a truth value has the type of its first operand. -/
def KeepsType : TreeNode → Prop
  | function name children type => ∀ f, NativeFunction.lookup? name = some f →
      f.returnsBoolean = false → children.head?.map TreeNode.type = some type
  | _ => True

end TreeNode

namespace Finding

private theorem preorder_tree_pair (lowering : Lowering) (x y : TreeNode) (t : DataType) :
    ((operator lowering).tree [x, y] t).preorder =
      (operator lowering).tree [x, y] t :: (x.preorder ++ y.preorder) := by
  cases lowering <;> simp only [tree, TreeNode.preorder, TreeNode.preorderAll, List.append_nil]

private theorem preorder_tree_singleton (lowering : Lowering) (x : TreeNode) (t : DataType) :
    ((operator lowering).tree [x] t).preorder = (operator lowering).tree [x] t :: x.preorder := by
  cases lowering <;> simp only [tree, TreeNode.preorder, TreeNode.preorderAll, List.append_nil]

end Finding

/-- A node stands for an expression: the field at its position, the first field of its name, the
same constant, or the lowering of its operator with as many operands. -/
def Expr.IsMirroredBy (fields : List Field) : Expr → TreeNode → Prop
  | bound ordinal _ _, node => ∃ f, fields[ordinal.toNat]? = some f ∧ node = .field ordinal f
  | column name, node => ∃ index f, fields[index.toNat]? = some f ∧ f.name = name ∧
      (∀ i < index.toNat, ∀ g, fields[i]? = some g → g.name ≠ name) ∧ node = .field index f
  | literal value, node => node = .literal value
  | binary op _ _, node => ∃ lowering x y t, op.lowering? = some lowering ∧
      node = (Finding.operator lowering).tree [x, y] t
  | unary op _, node => ∃ lowering x t, op.lowering? = some lowering ∧
      node = (Finding.operator lowering).tree [x] t

/-- A name is found at the first field that has it. -/
theorem Expr.first_of_find? {name : String} {f : Field} {index : Nat}
    (h : fields.zipIdx.find? (·.1.name == name) = some (f, index)) :
    fields[index]? = some f ∧ f.name = name ∧
      ∀ i < index, ∀ g, fields[i]? = some g → g.name ≠ name := by
  obtain ⟨hname, i, hi, hget, hbefore⟩ := List.find?_eq_some_iff_getElem.1 h
  rw [List.getElem_zipIdx, Prod.mk.injEq, Nat.zero_add] at hget
  obtain ⟨rfl, rfl⟩ := hget
  refine ⟨List.getElem?_eq_getElem _, by simpa using hname, fun j hj g hg hname => ?_⟩
  obtain ⟨hlt, rfl⟩ := List.getElem?_eq_some_iff.1 hg
  simpa [hname] using hbefore j hj

/-- A position in a list of fields is that of its number. -/
theorem Expr.toNat_ofNat_of_getElem? {f : Field} {index : Nat} (hw : fields.length ≤ 2 ^ 64)
    (h : fields[index]? = some f) : (UInt64.ofNat index).toNat = index := by
  have hlt := (List.getElem?_eq_some_iff.1 h).1
  exact UInt64.toNat_ofNat_of_lt' (Nat.lt_of_lt_of_le hlt hw)

namespace HasTree

/-- **The shape of a tree.** The nodes of a tree stand for those of its expression, one by one. -/
theorem forall₂_preorder (hw : fields.length ≤ 2 ^ 64) (h : HasTree fields e x t) :
    List.Forall₂ (Expr.IsMirroredBy fields) e.preorder x.preorder := by
  induction h with
  | bound hf => exact .cons ⟨_, hf, rfl⟩ .nil
  | column hf =>
    obtain ⟨hget, hname, hfirst⟩ := Expr.first_of_find? hf
    have hindex := Expr.toNat_ofNat_of_getElem? hw hget
    refine .cons ⟨_, _, ?_, hname, ?_, rfl⟩ .nil
    · rwa [hindex]
    · rwa [hindex]
  | literal => exact .cons rfl .nil
  | binary hl hx hy ihx ihy =>
    rw [Finding.preorder_tree_pair]
    exact .cons ⟨_, _, _, _, hl, rfl⟩ (List.rel_append ihx ihy)
  | unary hl hx ihx =>
    rw [Finding.preorder_tree_singleton]
    exact .cons ⟨_, _, _, hl, rfl⟩ ihx

end HasTree

/-! ### Well-formed nodes -/

/-- The lowering of an operator with two operands is a native function of two operands, or a
connective. -/
private theorem isWellFormed_binary {op : BinaryOp} {lowering : Lowering}
    (hl : op.lowering? = some lowering) (x y : TreeNode) (t : DataType) :
    ((Finding.operator lowering).tree [x, y] (lowering.typeOn t)).IsWellFormed fields := by
  cases op <;> cases hl <;> first
    | rfl
    | exact ⟨_, rfl, rfl, fun _ => rfl⟩
    | exact ⟨_, rfl, rfl, nofun⟩

/-- The lowering of an operator with one operand is a native test. -/
private theorem isWellFormed_unary {op : UnaryOp} {lowering : Lowering}
    (hl : op.lowering? = some lowering) (x : TreeNode) (t : DataType) :
    ((Finding.operator lowering).tree [x] (lowering.typeOn t)).IsWellFormed fields := by
  cases op <;> cases hl <;> exact ⟨_, rfl, rfl, fun _ => rfl⟩

/-- The lowering of arithmetic asks for the type of its first operand. -/
private theorem keepsType_binary {op : BinaryOp} {lowering : Lowering}
    (hl : op.lowering? = some lowering) (x y : TreeNode) :
    ((Finding.operator lowering).tree [x, y] (lowering.typeOn x.type)).KeepsType := by
  cases op <;> cases hl <;> first
    | exact trivial
    | exact fun _ _ _ => rfl
    | (rintro _ ⟨⟩ ⟨⟩)

private theorem keepsType_unary {op : UnaryOp} {lowering : Lowering}
    (hl : op.lowering? = some lowering) (x : TreeNode) (t : DataType) :
    ((Finding.operator lowering).tree [x] t).KeepsType := by
  cases op <;> cases hl <;> rintro _ ⟨⟩ ⟨⟩

namespace HasTree

theorem isWellFormed_of_mem_preorder (hw : fields.length ≤ 2 ^ 64) (h : HasTree fields e x t) :
    ∀ node ∈ x.preorder, node.IsWellFormed fields := by
  induction h with
  | bound hf => exact List.forall_mem_singleton.2 hf
  | column hf =>
    obtain ⟨hget, -⟩ := Expr.first_of_find? hf
    refine List.forall_mem_singleton.2 ?_
    rwa [TreeNode.IsWellFormed, Expr.toNat_ofNat_of_getElem? hw hget]
  | literal => exact List.forall_mem_singleton.2 trivial
  | binary hl hx hy ihx ihy =>
    rw [Finding.preorder_tree_pair, List.forall_mem_cons, List.forall_mem_append]
    exact ⟨isWellFormed_binary hl _ _ _, ihx, ihy⟩
  | unary hl hx ihx =>
    rw [Finding.preorder_tree_singleton, List.forall_mem_cons]
    exact ⟨isWellFormed_unary hl _ _, ihx⟩

theorem keepsType_of_mem_preorder (h : HasTree fields e x t) (ha : e.IsAnalysed fields) :
    ∀ node ∈ x.preorder, node.KeepsType := by
  induction h with
  | bound | column | literal => exact List.forall_mem_singleton.2 trivial
  | binary hl hx hy ihx ihy =>
    rw [Finding.preorder_tree_pair, List.forall_mem_cons, List.forall_mem_append]
    refine ⟨?_, ihx ha.1, ihy ha.2⟩
    rw [← hx.type_eq ha.1]
    exact keepsType_binary hl _ _
  | unary hl hx ihx =>
    rw [Finding.preorder_tree_singleton, List.forall_mem_cons]
    exact ⟨keepsType_unary hl _ _, ihx ha⟩

end HasTree

namespace Expr

/-- **Compiled trees are well formed.** The nodes of a compiled tree stand for those of its
expression, one by one. Each is what a native backend expects, and arithmetic asks for the type of
its first operand if references by position declare the types of their fields. -/
theorem isWellFormed_of_toTree {name : String} {tree : ExpressionTree}
    (hw : fields.length ≤ 2 ^ 64) (h : e.toTree fields name = .ok tree) :
    List.Forall₂ (IsMirroredBy fields) e.preorder tree.root.preorder ∧
      tree.root.count = e.preorder.length ∧
      (∀ node ∈ tree.root.preorder, node.IsWellFormed fields) ∧
      (e.IsAnalysed fields → ∀ node ∈ tree.root.preorder, node.KeepsType) := by
  obtain ⟨⟨root, t⟩, hroot, rfl⟩ := Except.map_eq_ok h
  have hroot : HasTree fields e root t := hasTree_of_toTreeNode hroot
  have hshape := hroot.forall₂_preorder hw
  refine ⟨hshape, ?_, hroot.isWellFormed_of_mem_preorder hw, hroot.keepsType_of_mem_preorder⟩
  exact (TreeNode.length_preorder root).symm.trans hshape.length_eq.symm

/-- The second of two fields of one name is not found by the name, and a sum of columns below a
comparison has the type of the first. -/
theorem isWellFormed_of_toTree_duplicate :
    let fields : List Field := [⟨"a", .int32, true⟩, ⟨"b", .int64, true⟩, ⟨"b", .utf8, true⟩]
    let e := binary .less (binary .add (column "b") (bound 0 .int32 true)) (literal (.int64 7))
    let sum : TreeNode :=
      .function "add" [.field 1 ⟨"b", .int64, true⟩, .field 0 ⟨"a", .int32, true⟩] .int64
    let root : TreeNode := .function "less_than" [sum, .literal (.int64 7)] .boolean
    e.toTree fields "c" = .ok ⟨root, ⟨"c", .boolean, true⟩⟩ ∧ root.count = 5 ∧
      sum.IsWellFormed fields ∧ sum.KeepsType := by
  intro fields e sum root
  have h : e.toTree fields "c" = .ok ⟨root, ⟨"c", .boolean, true⟩⟩ := rfl
  obtain ⟨-, hcount, hnodes, htypes⟩ := isWellFormed_of_toTree (by decide) h
  have hsum : sum ∈ root.preorder := by decide
  have ha : e.IsAnalysed fields := ⟨⟨trivial, fun f hf => by cases hf; rfl⟩, trivial⟩
  exact ⟨h, hcount, hnodes sum hsum, htypes ha sum hsum⟩

end Expr

end Columnar
