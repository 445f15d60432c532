import Columnar.Eval.Executable
import Columnar.Proofs.Compile.Walk

/-!
# The supported expressions

Compilation fails for two reasons only: an operator on bits and a reference that does not resolve
(`Expr.flaw?`). The builders of expression trees and of executable expressions refuse none of the
calls that a compilation makes (`NodeBuilder.Accepts`), although each of them has a table of
functions of its own with the numbers of their operands. So they accept the same expressions, find
the same types, and fail with the same error: that of the first flaw, where an expression comes
before its operands.

Main statement: `compile_supported`.
-/

namespace Columnar

variable {σ Node : Type}

/-! ### Flaws -/

/-- Whether an operator works on bits. -/
def BinaryOp.isBitwise : BinaryOp → Bool
  | bitAnd | bitOr | bitXor => true
  | _ => false

/-- Whether an operator works on bits. -/
def UnaryOp.isBitwise : UnaryOp → Bool
  | bitNot => true
  | _ => false

namespace Expr

/-- What is wrong with an expression, apart from its operands: its operator works on bits, or its
reference does not resolve. -/
def flaw? (fields : List Field) : Expr → Option CompileFailure
  | bound ordinal type nullable =>
    if ordinal.toNat < fields.length then none
    else some (.ordinalOutOfRange (bound ordinal type nullable) fields.length)
  | column name =>
    if ∃ f ∈ fields, f.name = name then none else some (.columnNotFound name fields)
  | literal _ => none
  | binary op left right => if op.isBitwise then some (.noLowering (binary op left right)) else none
  | unary op child => if op.isBitwise then some (.noLowering (unary op child)) else none

/-- The nodes of an expression, before their operands, and left before right. -/
def preorder : Expr → List Expr
  | binary op left right => binary op left right :: (left.preorder ++ right.preorder)
  | unary op child => unary op child :: child.preorder
  | e => [e]

/-- There is no flaw anywhere in an expression. -/
def IsSupported (fields : List Field) (e : Expr) : Prop :=
  ∀ node ∈ e.preorder, node.flaw? fields = none

end Expr

variable {fields : List Field} {e : Expr}

/-- Compilation by itself fails in two ways. -/
theorem CompileFailure.kind_toError (f : CompileFailure) :
    f.toError.kind = .unsupportedOperator ∨ f.toError.kind = .unresolvedReference := by
  cases f with
  | noLowering => exact .inl rfl
  | ordinalOutOfRange | columnNotFound => exact .inr rfl

/-- The operators on two operands that are not lowered are those on bits. -/
theorem BinaryOp.lowering?_eq_none_iff (op : BinaryOp) :
    op.lowering? = none ↔ op.isBitwise = true := by
  cases op <;> simp [lowering?, isBitwise]

/-- The operator on one operand that is not lowered is the one on bits. -/
theorem UnaryOp.lowering?_eq_none_iff (op : UnaryOp) :
    op.lowering? = none ↔ op.isBitwise = true := by
  cases op <;> simp [lowering?, isBitwise]

namespace Expr

/-- An expression that is found has no flaw. -/
private theorem flaw?_of_ok {finding : Finding} (h : e.lookUp fields = .ok finding) :
    e.flaw? fields = none := by
  cases e with
  | literal => rfl
  | bound ordinal type nullable =>
    rw [lookUp] at h
    split at h
    · next f hf => exact if_pos (List.getElem?_eq_some_iff.1 hf).1
    · cases h
  | column name =>
    rw [lookUp] at h
    split at h
    · next f index hf =>
      have hfound : fields.find? (·.name == name) = some f := by
        rw [← find?_zipIdx, hf]
        rfl
      exact if_pos ⟨f, List.mem_of_find?_eq_some hfound, by simpa using List.find?_some hfound⟩
    · cases h
  | binary op left right =>
    obtain ⟨lowering, hl, -⟩ := lookUp_binary_eq_ok h
    have hop : ¬op.isBitwise = true := fun hop => by simp [op.lowering?_eq_none_iff.2 hop] at hl
    exact if_neg hop
  | unary op child =>
    obtain ⟨lowering, hl, -⟩ := lookUp_unary_eq_ok h
    have hop : ¬op.isBitwise = true := fun hop => by simp [op.lowering?_eq_none_iff.2 hop] at hl
    exact if_neg hop

/-- An expression that is not found has a flaw. -/
private theorem flaw?_of_error {f : CompileFailure} (h : e.lookUp fields = .error f) :
    e.flaw? fields = some f := by
  cases e with
  | literal => cases h
  | bound ordinal type nullable =>
    rw [lookUp] at h
    split at h <;> cases h
    next hf => exact if_neg (Nat.not_lt.2 (List.getElem?_eq_none_iff.1 hf))
  | column name =>
    rw [lookUp] at h
    split at h <;> cases h
    next hf =>
      have hnone : fields.find? (·.name == name) = none := by
        rw [← find?_zipIdx, hf]
        rfl
      exact if_neg (by simpa using hnone)
  | binary op left right =>
    rw [lookUp] at h
    split at h <;> cases h
    next hl => exact if_pos (op.lowering?_eq_none_iff.1 hl)
  | unary op child =>
    rw [lookUp] at h
    split at h <;> cases h
    next hl => exact if_pos (op.lowering?_eq_none_iff.1 hl)

end Expr

/-! ### Builders that refuse nothing -/

/-- A builder makes the node of every expression that is found, whatever the nodes of its operands
are. -/
def NodeBuilder.Accepts (b : NodeBuilder σ Node) (fields : List Field) : Prop :=
  ∀ (e : Expr) finding type (nodes : List Node) (s : σ), e.lookUp fields = .ok finding →
    e.typeOver fields = some type → nodes.length = e.children.length →
    ∃ x s', (finding.call nodes type).run b s = (.ok x, s')

/-- The builder of trees refuses nothing. -/
theorem TreeNode.accepts_builder (fields : List Field) : TreeNode.builder.Accepts fields :=
  fun _ finding type nodes _ h ht hnodes =>
    ⟨finding.tree nodes type, (), Finding.run_tree h ht hnodes⟩

/-- The builder of executable expressions refuses nothing that an expression asks it for. -/
theorem Executable.accepts_builder (fields : List Field) : Executable.builder.Accepts fields := by
  intro e finding type nodes s h _ hnodes
  cases e with
  | literal => cases h; exact ⟨_, _, rfl⟩
  | bound | column =>
    rw [Expr.lookUp] at h
    split at h <;> cases h
    exact ⟨_, _, rfl⟩
  | binary op left right =>
    obtain ⟨lowering, hl, rfl⟩ := Expr.lookUp_binary_eq_ok h
    obtain ⟨x, nodes, rfl⟩ := List.exists_cons_of_length_eq_add_one hnodes
    obtain ⟨y, rfl⟩ := List.length_eq_one_iff.1 (Nat.succ.inj hnodes)
    cases op <;> cases hl <;> exact ⟨_, _, rfl⟩
  | unary op child =>
    obtain ⟨lowering, hl, rfl⟩ := Expr.lookUp_unary_eq_ok h
    obtain ⟨x, rfl⟩ := List.length_eq_one_iff.1 hnodes
    cases op <;> cases hl <;> exact ⟨_, _, rfl⟩

/-- What a compilation comes to with a builder that refuses nothing: a node if there is no flaw, and
the error of the first flaw otherwise. -/
def Expr.Settles (b : NodeBuilder σ Node) (fields : List Field) (e : Expr) (s : CompileState σ) :
    Prop :=
  (∃ x t s', e.compile b fields s = (.ok (x, t), s') ∧ e.preorder.findSome? (flaw? fields) = none) ∨
    ∃ f s', e.compile b fields s = (.error f.toError, s') ∧
      e.preorder.findSome? (flaw? fields) = some f

namespace Expr

variable {b : NodeBuilder σ Node}

/-- A builder that accepts what it is asked for gives a node of the type that was asked for. -/
private theorem ask_of_accepts (hb : b.Accepts fields) {finding : Finding} {type : DataType}
    (h : e.lookUp fields = .ok finding) (ht : e.typeOver fields = some type) (nodes : List Node)
    (hnodes : nodes.length = e.children.length) (log : List Lowered) (s : σ) :
    ∃ x s', finding.ask b e nodes type log s = (.ok (x, type), s') := by
  obtain ⟨x, s', hrun⟩ := hb e finding type nodes s h ht hnodes
  refine ⟨x, ⟨s', log⟩, ?_⟩
  rw [Finding.ask, hrun]
  rfl

/-- A builder that accepts what it is asked for gives an operator. -/
private theorem emit_of_accepts (hb : b.Accepts fields) {lowering : Lowering}
    {operandType : DataType}
    (h : e.lookUp fields = .ok (.operator lowering))
    (ht : e.typeOver fields = some (e.loweredType operandType lowering)) (nodes : List Node)
    (hnodes : nodes.length = e.children.length) (s : CompileState σ) :
    ∃ x t s', emit b e lowering nodes operandType s = (.ok (x, t), s') := by
  obtain ⟨x, s', hask⟩ := ask_of_accepts hb h ht nodes hnodes
    (⟨e, lowering, e.loweredType operandType lowering⟩ :: s.log) s.builder
  exact ⟨x, _, s', (emit_eq lowering nodes operandType s).trans hask⟩

private theorem settles_of_error {f : CompileFailure} (h : e.lookUp fields = .error f)
    {nodes : List Expr} (hpre : e.preorder = e :: nodes) (s : CompileState σ) :
    e.Settles b fields s := by
  refine .inr ⟨f, s, compile_of_error h s, ?_⟩
  rw [hpre, List.findSome?_cons, flaw?_of_error h]

private theorem settles_leaf (hb : b.Accepts fields) (he : e.children = [])
    (hpre : e.preorder = [e]) (s : CompileState σ) : e.Settles b fields s := by
  cases h : e.lookUp fields with
  | error f => exact settles_of_error h hpre s
  | ok finding =>
    obtain ⟨type, ht, hcompile⟩ := compile_leaf h he
    obtain ⟨x, s', hask⟩ :=
      ask_of_accepts hb h ht [] (congrArg List.length he.symm) s.log s.builder
    refine .inl ⟨x, type, s', (hcompile b s).trans hask, ?_⟩
    rw [hpre, List.findSome?_cons, flaw?_of_ok h]
    rfl

/-- The induction follows the expression: the operands are settled, and then the flaw is theirs or
the own one of the expression. -/
private theorem settles_of_accepts (hb : b.Accepts fields) (e : Expr) (s : CompileState σ) :
    e.Settles b fields s := by
  induction e generalizing s with
  | bound | column | literal => exact settles_leaf hb rfl rfl s
  | unary op child ih =>
    cases h : (unary op child).lookUp fields with
    | error f => exact settles_of_error h rfl s
    | ok finding =>
      obtain ⟨lowering, hl, rfl⟩ := lookUp_unary_eq_ok h
      simp only [Settles, compile, hl, preorder, List.findSome?_cons, flaw?_of_ok h]
      obtain ⟨x, t, s₁, hx, hpre⟩ | ⟨f, s₁, hf, hpre⟩ := ih s
      · rw [ExceptT.bind_of_ok hx, hpre]
        obtain ⟨y, u, s₂, hy⟩ := emit_of_accepts hb h (typeOver_unary t hl) [x] rfl s₁
        exact .inl ⟨y, u, s₂, hy, rfl⟩
      · exact .inr ⟨f, s₁, ExceptT.bind_of_error hf, hpre⟩
  | binary op left right ihl ihr =>
    cases h : (binary op left right).lookUp fields with
    | error f => exact settles_of_error h rfl s
    | ok finding =>
      obtain ⟨lowering, hl, rfl⟩ := lookUp_binary_eq_ok h
      simp only [Settles, compile, hl, preorder, List.findSome?_cons, flaw?_of_ok h,
        List.findSome?_append]
      obtain ⟨x, t, s₁, hx, hleft⟩ | ⟨f, s₁, hf, hleft⟩ := ihl s
      · rw [ExceptT.bind_of_ok hx, hleft]
        obtain ⟨y, u, s₂, hy, hright⟩ | ⟨f, s₂, hf, hright⟩ := ihr s₁
        · rw [ExceptT.bind_of_ok hy, hright]
          obtain ⟨z, v, s₃, hz⟩ :=
            emit_of_accepts hb h (typeOver_binary hl (typeOver_of_compile hx)) [x, y] rfl s₂
          exact .inl ⟨z, v, s₃, hz, rfl⟩
        · rw [ExceptT.bind_of_error hf, hright]
          exact .inr ⟨f, s₂, rfl, rfl⟩
      · rw [ExceptT.bind_of_error hf, hleft]
        exact .inr ⟨f, s₁, rfl, rfl⟩

/-- What a compilation returns with a builder that refuses nothing. -/
theorem compile_of_accepts (hb : b.Accepts fields) (e : Expr) (s : CompileState σ) :
    (e.IsSupported fields → ∃ x t, (e.compile b fields s).1 = .ok (x, t) ∧
      e.typeOver fields = some t) ∧
    ∀ f, e.preorder.findSome? (flaw? fields) = some f →
      (e.compile b fields s).1 = .error f.toError := by
  obtain ⟨x, t, s', hx, hpre⟩ | ⟨f, s', hf, hpre⟩ := settles_of_accepts hb e s
  · exact ⟨fun _ => ⟨x, t, congrArg Prod.fst hx, typeOver_of_compile hx⟩,
      fun f hf => by simp [hpre] at hf⟩
  · refine ⟨fun h => ?_, fun g hg => ?_⟩
    · rw [List.findSome?_eq_none_iff.2 h] at hpre
      cases hpre
    · rw [hf, Option.some.inj (hpre.symm.trans hg)]

end Expr

/-! ### The backends -/

/-- **Both backends support the same expressions.** Each of the two builders compiles an expression
if there is no flaw anywhere in it, and only then. They find the same type: the declared one, or
that of the first field that the bottom names. Otherwise they fail with the same error, that of the
first flaw. -/
theorem compile_supported (fields : List Field) (e : Expr) :
    ((∃ r, e.toTreeNode fields = .ok r) ↔ e.IsSupported fields) ∧
    ((∃ r, e.toExecutable fields = .ok r) ↔ e.IsSupported fields) ∧
    (e.IsSupported fields → ∃ tree x t, e.toTreeNode fields = .ok (tree, t) ∧
      e.toExecutable fields = .ok (x, t) ∧ e.typeOver fields = some t) ∧
    (¬e.IsSupported fields → ∃ f, e.preorder.findSome? (Expr.flaw? fields) = some f ∧
      e.toTreeNode fields = .error f.toError ∧ e.toExecutable fields = .error f.toError ∧
      (f.toError.kind = .unsupportedOperator ∨ f.toError.kind = .unresolvedReference)) := by
  obtain ⟨htree, htreeError⟩ := Expr.compile_of_accepts (TreeNode.accepts_builder fields) e ⟨(), []⟩
  obtain ⟨hexec, hexecError⟩ :=
    Expr.compile_of_accepts (Executable.accepts_builder fields) e ⟨(), []⟩
  cases hf : e.preorder.findSome? (Expr.flaw? fields) with
  | none =>
    have hsupported : e.IsSupported fields := List.findSome?_eq_none_iff.1 hf
    obtain ⟨tree, t, htree, ht⟩ := htree hsupported
    obtain ⟨x, u, hexec, hu⟩ := hexec hsupported
    obtain rfl : t = u := Option.some.inj (ht.symm.trans hu)
    exact ⟨⟨fun _ => hsupported, fun _ => ⟨_, htree⟩⟩, ⟨fun _ => hsupported, fun _ => ⟨_, hexec⟩⟩,
      fun _ => ⟨tree, x, t, htree, hexec, ht⟩, fun h => absurd hsupported h⟩
  | some f =>
    have hunsupported : ¬e.IsSupported fields := fun h => by
      rw [List.findSome?_eq_none_iff.2 h] at hf
      cases hf
    have htree : e.toTreeNode fields = .error f.toError := htreeError f hf
    have hexec : e.toExecutable fields = .error f.toError := hexecError f hf
    refine ⟨⟨fun ⟨r, hr⟩ => ?_, fun h => absurd h hunsupported⟩,
      ⟨fun ⟨r, hr⟩ => ?_, fun h => absurd h hunsupported⟩, fun h => absurd h hunsupported,
      fun _ => ⟨f, rfl, htree, hexec, f.kind_toError⟩⟩
    · rw [htree] at hr
      cases hr
    · rw [hexec] at hr
      cases hr

end Columnar
