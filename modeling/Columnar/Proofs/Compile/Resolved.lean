import Columnar.Proofs.Compile.Tree

/-!
# What compilation forgets

Two expressions can have one tree. A name becomes the position of the first field that has it, the
two equalities become one function, and a reference by position loses its note whether it may hold
NULL. `Expr.resolve` does these three things to an expression, and a compilation does no more
(`Expr.root_eq_iff`):

* the tree of an expression is that of the resolved expression (`HasTree.resolve`), and an
  expression has no other tree (`HasTree.unique`);
* the resolved expression can be read off the tree (`TreeNode.toExpr?`, `HasTree.toExpr?_eq`), since
  no two other operators have the same lowering.
-/

namespace Columnar

/-! ### Resolved expressions -/

/-- An operator, with one equality for both. -/
def BinaryOp.plain : BinaryOp → BinaryOp
  | equalNullSafe => equal
  | op => op

/-- An expression with its columns by position, and one equality. Whether a column may hold NULL is
forgotten. -/
def Expr.resolve (fields : List Field) : Expr → Expr
  | bound ordinal type _ => bound ordinal type false
  | column name =>
    match fields.zipIdx.find? (·.1.name == name) with
    | some (f, index) => bound (UInt64.ofNat index) f.type false
    | none => column name
  | literal value => literal value
  | binary op left right => binary op.plain (left.resolve fields) (right.resolve fields)
  | unary op child => unary op (child.resolve fields)

@[simp]
theorem BinaryOp.lowering?_plain (op : BinaryOp) : op.plain.lowering? = op.lowering? := by
  cases op <;> rfl

variable {fields : List Field} {e : Expr} {x : TreeNode} {t : DataType}

namespace HasTree

theorem resolve (hw : fields.length ≤ 2 ^ 64) (h : HasTree fields e x t) :
    HasTree fields (e.resolve fields) x t := by
  induction h with
  | bound hf => exact .bound hf
  | column hf =>
    obtain ⟨hget, -⟩ := Expr.first_of_find? hf
    rw [Expr.resolve, hf]
    exact .bound (by rwa [Expr.toNat_ofNat_of_getElem? hw hget])
  | literal => exact .literal
  | @binary op lowering left right x y t u hl hx hy ihx ihy =>
    exact .binary (op.lowering?_plain.trans hl) ihx ihy
  | unary hl hx ihx => exact .unary hl ihx

/-- An expression has one tree. -/
theorem unique {x' : TreeNode} {t' : DataType} (h : HasTree fields e x t)
    (h' : HasTree fields e x' t') : x = x' ∧ t = t' := by
  induction h generalizing x' t' with
  | bound hf =>
    cases h' with
    | bound hf' => exact ⟨congrArg _ (Option.some.inj (hf.symm.trans hf')), rfl⟩
  | column hf =>
    cases h' with
    | column hf' =>
      cases hf.symm.trans hf'
      exact ⟨rfl, rfl⟩
  | literal =>
    cases h'
    exact ⟨rfl, rfl⟩
  | binary hl hx hy ihx ihy =>
    cases h' with
    | binary hl' hx' hy' =>
      obtain rfl := Option.some.inj (hl.symm.trans hl')
      obtain ⟨rfl, rfl⟩ := ihx hx'
      obtain ⟨rfl, rfl⟩ := ihy hy'
      exact ⟨rfl, rfl⟩
  | unary hl hx ihx =>
    cases h' with
    | unary hl' hx' =>
      obtain rfl := Option.some.inj (hl.symm.trans hl')
      obtain ⟨rfl, rfl⟩ := ihx hx'
      exact ⟨rfl, rfl⟩

end HasTree

/-! ### Reading trees back -/

/-- The operator with two operands of a native function. -/
def BinaryOp.ofFunction? (name : String) : Option BinaryOp :=
  all.find? fun op => op.lowering? == some (.function name .boolean) ||
    op.lowering? == some (.function name .declared)

/-- The operator with one operand of a native function. -/
def UnaryOp.ofFunction? (name : String) : Option UnaryOp :=
  all.find? fun op => op.lowering? == some (.function name .boolean)

/-- The resolved expression of a tree. -/
def TreeNode.toExpr? : TreeNode → Option Expr
  | field index f => some (.bound index f.type false)
  | literal value => some (.literal value)
  | and [x, y] => return .binary .and (← x.toExpr?) (← y.toExpr?)
  | or [x, y] => return .binary .or (← x.toExpr?) (← y.toExpr?)
  | function name [x, y] _ =>
    return .binary (← BinaryOp.ofFunction? name) (← x.toExpr?) (← y.toExpr?)
  | function name [x] _ => return .unary (← UnaryOp.ofFunction? name) (← x.toExpr?)
  | _ => none

/-- A lowering with two operands determines the operator, up to the two equalities. -/
theorem TreeNode.toExpr?_binary {op : BinaryOp} {lowering : Lowering}
    (hl : op.lowering? = some lowering) {x y : TreeNode} {left right : Expr}
    (hx : x.toExpr? = some left) (hy : y.toExpr? = some right) (t : DataType) :
    ((Finding.operator lowering).tree [x, y] t).toExpr? = some (.binary op.plain left right) := by
  cases op <;> cases hl <;> rw [Finding.tree, toExpr?, hx, hy] <;> rfl

/-- A lowering with one operand determines the operator. -/
theorem TreeNode.toExpr?_unary {op : UnaryOp} {lowering : Lowering}
    (hl : op.lowering? = some lowering) {x : TreeNode} {child : Expr}
    (hx : x.toExpr? = some child) (t : DataType) :
    ((Finding.operator lowering).tree [x] t).toExpr? = some (.unary op child) := by
  cases op <;> cases hl <;> rw [Finding.tree, toExpr?, hx] <;> rfl

/-- The resolved expression is read off its tree, if references by position declare the types of
their fields. -/
theorem HasTree.toExpr?_eq (h : HasTree fields e x t) (ha : e.IsAnalysed fields) :
    x.toExpr? = some (e.resolve fields) := by
  induction h with
  | bound hf => rw [TreeNode.toExpr?, Expr.resolve, ha _ hf]
  | column hf => rw [TreeNode.toExpr?, Expr.resolve, hf]
  | literal => rw [TreeNode.toExpr?, Expr.resolve]
  | binary hl hx hy ihx ihy => exact TreeNode.toExpr?_binary hl (ihx ha.1) (ihy ha.2) _
  | unary hl hx ihx => exact TreeNode.toExpr?_unary hl (ihx ha) _

/-! ### The law -/

namespace Expr

/-- **What compilation forgets.** Two expressions whose references by position declare the types of
their fields have the same tree if they are the same when resolved, and only then; and likewise with
the description of an output of one name beside the tree. -/
theorem root_eq_iff {e' : Expr} {root root' : TreeNode} {t' : DataType}
    (hw : fields.length ≤ 2 ^ 64)
    (h : e.toTreeNode fields = .ok (root, t)) (ha : e.IsAnalysed fields)
    (h' : e'.toTreeNode fields = .ok (root', t')) (ha' : e'.IsAnalysed fields) :
    (root = root' ↔ e.resolve fields = e'.resolve fields) ∧
      ∀ name, e.toTree fields name = e'.toTree fields name ↔
        e.resolve fields = e'.resolve fields := by
  have htree := hasTree_of_toTreeNode h
  have htree' := hasTree_of_toTreeNode h'
  have hroot : root = root' ↔ e.resolve fields = e'.resolve fields := by
    constructor
    · rintro rfl
      exact Option.some.inj ((htree.toExpr?_eq ha).symm.trans (htree'.toExpr?_eq ha'))
    · intro heq
      have hresolved := htree.resolve hw
      rw [heq] at hresolved
      exact (hresolved.unique (htree'.resolve hw)).1
  refine ⟨hroot, fun name => ?_⟩
  rw [← hroot, toTree, toTree, h, h']
  constructor
  · rintro ⟨⟩
    rfl
  · rintro rfl
    rfl

/-- Both equalities, of names and of positions, have one tree; a comparison turned round has
another. -/
theorem root_eq_iff_equal :
    let fields : List Field := [⟨"a", .int32, true⟩, ⟨"b", .int32, false⟩]
    let e := binary .equalNullSafe (column "a") (bound 1 .int32 true)
    let e' := binary .equal (bound 0 .int32 false) (column "b")
    let turned := binary .equal (column "b") (column "a")
    e.resolve fields = e'.resolve fields ∧
      (∀ name, e.toTree fields name = e'.toTree fields name) ∧
      e.toTree fields "c" ≠ turned.toTree fields "c" := by
  intro fields e e' turned
  have h : e.toTreeNode fields = .ok (_, _) := rfl
  have h' : e'.toTreeNode fields = .ok (_, _) := rfl
  have hturned : turned.toTreeNode fields = .ok (_, _) := rfl
  have ha : e.IsAnalysed fields := ⟨trivial, fun f hf => by cases hf; rfl⟩
  have ha' : e'.IsAnalysed fields := ⟨fun f hf => by cases hf; rfl, trivial⟩
  obtain ⟨-, heq⟩ := root_eq_iff (by decide) h ha h' ha'
  obtain ⟨-, hne⟩ := root_eq_iff (by decide) h ha hturned ⟨trivial, trivial⟩
  exact ⟨by decide, fun name => (heq name).2 (by decide),
    fun h => absurd ((hne "c").1 h) (by decide)⟩

end Expr

end Columnar
