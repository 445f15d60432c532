import Columnar.Proofs.Compile.Walk

/-!
# Types of outputs

An expression tree says itself what type it has (`TreeNode.type`), and that is what the description
of an output records. The compiler returns a type beside the tree, which it finds on another way:
from what expressions declare. The two are the same for every expression but one
(`Expr.type_eq_type_root_iff`): a reference by position that is compiled on its own is returned with
the type that it declares, while its tree has the type of the field at the position.

Below the root this cannot happen. The node of an operator carries the type that is returned with
it, whatever the operands say of themselves.
-/

namespace Columnar

namespace Finding

/-- What is found for an expression has its type, unless it is a reference by position. -/
private theorem type_tree {fields : List Field} {e : Expr} {finding : Finding} {type : DataType}
    (h : e.lookUp fields = .ok finding) (ht : e.typeOver fields = some type)
    (hbound : ∀ ordinal declared nullable, e ≠ .bound ordinal declared nullable)
    (nodes : List TreeNode) : (finding.tree nodes type).type = type := by
  cases e with
  | bound ordinal declared nullable => exact absurd rfl (hbound ordinal declared nullable)
  | literal value =>
    cases h
    exact Option.some.inj ht
  | column name =>
    rw [Expr.lookUp] at h
    split at h <;> cases h
    next f index hf =>
      have htype : (fields.find? (·.name == name)).map (·.type) = some f.type := by
        rw [← Expr.find?_zipIdx, hf]
        rfl
      exact Option.some.inj (htype.symm.trans ht)
  | binary op left right =>
    obtain ⟨lowering, hl, rfl⟩ := Expr.lookUp_binary_eq_ok h
    cases op <;> cases hl <;> first | rfl | exact Option.some.inj ht
  | unary op child =>
    obtain ⟨lowering, hl, rfl⟩ := Expr.lookUp_unary_eq_ok h
    cases op <;> cases hl <;> rfl

/-- A reference by position is found as the field there. -/
private theorem type_tree_bound {fields : List Field} {ordinal : UInt64} {declared : DataType}
    {nullable : Bool} {finding : Finding}
    (h : (Expr.bound ordinal declared nullable).lookUp fields = .ok finding)
    (nodes : List TreeNode) (type : DataType) :
    ∃ f, fields[ordinal.toNat]? = some f ∧ (finding.tree nodes type).type = f.type := by
  rw [Expr.lookUp] at h
  split at h <;> cases h
  next f hf => exact ⟨f, hf, rfl⟩

end Finding

namespace Expr

variable {fields : List Field} {e : Expr} {root : TreeNode} {t : DataType}

/-- The builder of expression trees makes the tree of what was found, whatever it is asked. -/
theorem root_of_ask {finding : Finding} (h : e.lookUp fields = .ok finding)
    {nodes : List TreeNode} (hnodes : nodes.length = e.children.length) {type : DataType}
    (ht : e.typeOver fields = some type) {log : List Lowered} {s' : CompileState Unit}
    (hask : finding.ask TreeNode.builder e nodes type log () = (.ok (root, t), s')) :
    root = finding.tree nodes t := by
  rw [Finding.ask, Finding.run_tree h ht hnodes] at hask
  cases hask
  rfl

/-- The tree of an expression is that of what is found for it. -/
private theorem exists_tree_of_compile {s s' : CompileState Unit}
    (h : e.compile TreeNode.builder fields s = (.ok (root, t), s')) :
    ∃ finding nodes, e.lookUp fields = .ok finding ∧ root = finding.tree nodes t := by
  cases hfound : e.lookUp fields with
  | error f =>
    rw [compile_of_error hfound] at h
    cases h
  | ok finding =>
    refine ⟨finding, ?_⟩
    cases e with
    | bound | column | literal =>
      obtain ⟨type, ht, hcompile⟩ := compile_leaf hfound rfl
      rw [hcompile] at h
      exact ⟨[], rfl, root_of_ask hfound rfl ht h⟩
    | binary op left right =>
      obtain ⟨lowering, hl, rfl⟩ := lookUp_binary_eq_ok hfound
      simp only [compile, hl] at h
      obtain ⟨⟨x, u⟩, s₁, hx, h⟩ := ExceptT.bind_eq_ok h
      obtain ⟨⟨y, v⟩, s₂, hy, h⟩ := ExceptT.bind_eq_ok h
      have ht : (binary op left right).typeOver fields = some _ :=
        typeOver_binary hl (typeOver_of_compile hx)
      exact ⟨[x, y], rfl, root_of_ask hfound rfl ht ((emit_eq ..).symm.trans h)⟩
    | unary op child =>
      obtain ⟨lowering, hl, rfl⟩ := lookUp_unary_eq_ok hfound
      simp only [compile, hl] at h
      obtain ⟨⟨x, u⟩, s₁, hx, h⟩ := ExceptT.bind_eq_ok h
      exact ⟨[x], rfl, root_of_ask hfound rfl (typeOver_unary u hl) ((emit_eq ..).symm.trans h)⟩

/-- **Types of outputs.** The description of an output records the type of its tree. That is the
type which the compiler returns with the tree, unless the expression is a reference by position that
declares another type than its field has. -/
theorem type_eq_type_root_iff (h : e.toTreeNode fields = .ok (root, t)) (name : String) :
    e.toTree fields name = .ok ⟨root, ⟨name, root.type, true⟩⟩ ∧
    (t = root.type ↔ ∀ ordinal type nullable f, e = .bound ordinal type nullable →
      fields[ordinal.toNat]? = some f → type = f.type) := by
  constructor
  · rw [toTree, h]
    rfl
  · have hcompile : e.compile TreeNode.builder fields ⟨(), []⟩ = (.ok (root, t), _) :=
      Prod.ext h rfl
    obtain ⟨finding, nodes, hfound, rfl⟩ := exists_tree_of_compile hcompile
    have ht := typeOver_of_compile hcompile
    by_cases hbound : ∃ ordinal declared nullable, e = .bound ordinal declared nullable
    · obtain ⟨ordinal, declared, nullable, rfl⟩ := hbound
      obtain ⟨f, hf, htype⟩ := finding.type_tree_bound hfound nodes t
      obtain rfl : declared = t := Option.some.inj ht
      rw [htype]
      constructor
      · rintro hdeclared _ _ _ g ⟨⟩ hg
        rw [hdeclared, Option.some.inj (hf.symm.trans hg)]
      · intro hall
        exact hall ordinal declared nullable f rfl hf
    · have hbound (ordinal declared nullable) : e ≠ .bound ordinal declared nullable :=
        fun he => hbound ⟨ordinal, declared, nullable, he⟩
      refine iff_of_true (finding.type_tree hfound ht hbound nodes).symm ?_
      intro ordinal declared nullable _ he
      exact absurd he (hbound ordinal declared nullable)

/-- The node of an operator has the type that is returned with it, also where a reference below it
declares another type than its field has. -/
theorem type_eq_type_root_add :
    let fields : List Field := [⟨"a", .int32, true⟩]
    let root : TreeNode :=
      .function "add" [.field 0 ⟨"a", .int32, true⟩, .literal (.int64 1)] .int64
    (binary .add (bound 0 .int64 true) (literal (.int64 1))).toTreeNode fields =
      .ok (root, .int64) ∧
      .int64 = root.type := by
  intro fields root
  have h : (binary .add (bound 0 .int64 true) (literal (.int64 1))).toTreeNode fields =
    .ok (root, .int64) := by rfl
  exact ⟨h, (type_eq_type_root_iff h "b").2.2 nofun⟩

/-- A reference that declares another type than its field has, compiled on its own: the compiler
returns the declared type, and the description of the output records that of the field. -/
theorem type_ne_type_root_bound :
    let fields : List Field := [⟨"a", .int32, true⟩]
    let root : TreeNode := .field 0 ⟨"a", .int32, true⟩
    (bound 0 .int64 true).toTreeNode fields = .ok (root, .int64) ∧ .int64 ≠ root.type ∧
      (bound 0 .int64 true).toTree fields "b" = .ok ⟨root, ⟨"b", .int32, true⟩⟩ := by
  intro fields root
  exact ⟨rfl, nofun, rfl⟩

end Expr

end Columnar
