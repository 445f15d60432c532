import Columnar.Eval.Executable
import Columnar.Proofs.Eval.Row
import Columnar.Proofs.Except

/-!
# Compiled expressions

`Compiled fields e x t` relates an expression to its executable form and the type that the compiler
finds for it, with one rule for each kind of expression. It drops what compilation goes through on
the way: the log, the names of native functions and the refusals of builders.
`compiled_of_toExecutable` derives it from a compilation that succeeds, so that later proofs are
inductions over `Compiled` and never look into the compiler.

A type that the compiler finds is the declared one where there is one (`Compiled.type?_eq`), so that
arithmetic has the type of its left operand.
-/

namespace Columnar

/-- An expression over input fields, its executable form and the type found for it. -/
inductive Compiled (fields : List Field) : Expr → Executable → DataType → Prop where
  /-- A reference by position takes the position, the name of the field and the declared type. -/
  | bound {ordinal : UInt64} {type : DataType} {nullable : Bool} {f : Field}
      (h : fields[ordinal.toNat]? = some f) :
      Compiled fields (.bound ordinal type nullable) (.column f.name ordinal) type
  /-- A reference by name takes the first field of that name. -/
  | column {name : String} {f : Field} {index : Nat}
      (h : fields.zipIdx.find? (·.1.name == name) = some (f, index)) :
      Compiled fields (.column name) (.column f.name (UInt64.ofNat index)) f.type
  /-- A constant. -/
  | literal {value : Literal} :
      Compiled fields (.literal value) (.constant (.ofLiteral value)) value.type
  /-- Conjunction. -/
  | and {left right : Expr} {x y : Executable} {t u : DataType} (hx : Compiled fields left x t)
      (hy : Compiled fields right y u) :
      Compiled fields (.binary .and left right) (.and x y) .boolean
  /-- Disjunction. -/
  | or {left right : Expr} {x y : Executable} {t u : DataType} (hx : Compiled fields left x t)
      (hy : Compiled fields right y u) :
      Compiled fields (.binary .or left right) (.or x y) .boolean
  /-- Comparison. -/
  | compare {op : BinaryOp} {c : Comparison} {left right : Expr} {x y : Executable} {t u : DataType}
      (h : op.comparison? = some c) (hx : Compiled fields left x t)
      (hy : Compiled fields right y u) :
      Compiled fields (.binary op left right) (.compare c x y) .boolean
  /-- Arithmetic has the declared type of its left operand, or the one found for it. -/
  | arithmetic {op : BinaryOp} {a : Arithmetic} {left right : Expr} {x y : Executable}
      {t u : DataType} (h : op.arithmetic? = some a) (hx : Compiled fields left x t)
      (hy : Compiled fields right y u) :
      Compiled fields (.binary op left right) (.arithmetic a x y) (left.type?.getD t)
  /-- Negation. -/
  | not {child : Expr} {x : Executable} {t : DataType} (hx : Compiled fields child x t) :
      Compiled fields (.unary .not child) (.not x) .boolean
  /-- Test for NULL. -/
  | isNull {child : Expr} {x : Executable} {t : DataType} (hx : Compiled fields child x t) :
      Compiled fields (.unary .isNull child) (.isNull x) .boolean
  /-- Test for a value. -/
  | isNotNull {child : Expr} {x : Executable} {t : DataType} (hx : Compiled fields child x t) :
      Compiled fields (.unary .isNotNull child) (.isNotNull x) .boolean

/-! ### Steps of a compilation -/

namespace Compile

variable {σ α : Type}

private theorem pure_eq_ok {a c : α} {s s' : CompileState σ}
    (h : (pure a : Compile σ α) s = (.ok c, s')) : a = c := by
  cases h
  rfl

/-- A call of a builder that keeps no state succeeds if the builder does. -/
private theorem call_eq_ok {e : Expr} {r : Except Error α} {s s' : CompileState Unit} {c : α}
    (h : call e (ExceptT.mk (pure r)) s = (.ok c, s')) : r = .ok c := by
  cases r with
  | error e => cases h
  | ok a => cases h; rfl

end Compile

namespace Expr

open Executable

/-- What the node of an operator is made of, if it is made. -/
private theorem emit_eq_ok {e : Expr} {l : Lowering} {nodes : List Executable}
    {operandType t : DataType} {x : Executable} {s s' : CompileState Unit}
    (h : emit builder e l nodes operandType s = (.ok (x, t), s')) :
    t = e.loweredType operandType l ∧
      match l with
      | .conjunction => makeAnd nodes = .ok x
      | .disjunction => makeOr nodes = .ok x
      | .function name _ => makeFunction name nodes = .ok x := by
  obtain ⟨-, s₁, -, h⟩ := ExceptT.bind_eq_ok h
  obtain ⟨y, s₂, hy, h⟩ := ExceptT.bind_eq_ok h
  obtain ⟨rfl, rfl⟩ := Prod.mk.inj (Compile.pure_eq_ok h)
  refine ⟨rfl, ?_⟩
  cases l <;> exact Except.mapError_eq_ok (Compile.call_eq_ok hy)

/-- **Inversion.** A compilation that succeeds ends with what the rules of `Compiled` say. -/
theorem compiled_of_compile {fields : List Field} {e : Expr} {x : Executable} {t : DataType}
    {s s' : CompileState Unit} (h : e.compile builder fields s = (.ok (x, t), s')) :
    Compiled fields e x t := by
  induction e generalizing x t s s' with
  | bound ordinal type nullable =>
    rw [compile] at h
    cases hf : fields[ordinal.toNat]? with
    | none => rw [hf] at h; cases h
    | some f =>
      rw [hf] at h
      obtain ⟨y, s₁, hy, h⟩ := ExceptT.bind_eq_ok h
      obtain ⟨rfl, rfl⟩ := Prod.mk.inj (Compile.pure_eq_ok h)
      cases Compile.call_eq_ok hy
      exact .bound hf
  | column name =>
    rw [compile] at h
    cases hf : fields.zipIdx.find? (·.1.name == name) with
    | none => rw [hf] at h; cases h
    | some r =>
      rw [hf] at h
      obtain ⟨y, s₁, hy, h⟩ := ExceptT.bind_eq_ok h
      obtain ⟨rfl, rfl⟩ := Prod.mk.inj (Compile.pure_eq_ok h)
      cases Compile.call_eq_ok hy
      exact .column hf
  | literal value =>
    rw [compile] at h
    obtain ⟨y, s₁, hy, h⟩ := ExceptT.bind_eq_ok h
    obtain ⟨rfl, rfl⟩ := Prod.mk.inj (Compile.pure_eq_ok h)
    cases Compile.call_eq_ok hy
    exact .literal
  | binary op left right ihl ihr =>
    rw [compile] at h
    cases hl : op.lowering? with
    | none => rw [hl] at h; cases h
    | some l =>
      rw [hl] at h
      obtain ⟨⟨y, u⟩, s₁, hy, h⟩ := ExceptT.bind_eq_ok h
      obtain ⟨⟨z, v⟩, s₂, hz, h⟩ := ExceptT.bind_eq_ok h
      have hy := ihl hy
      have hz := ihr hz
      obtain ⟨rfl, hx⟩ := emit_eq_ok h
      -- One native construct for each operator that has a lowering.
      cases op <;> cases hl <;> cases hx
      all_goals first
        | exact .and hy hz
        | exact .or hy hz
        | exact .compare rfl hy hz
        | exact .arithmetic rfl hy hz
  | unary op child ih =>
    rw [compile] at h
    cases hl : op.lowering? with
    | none => rw [hl] at h; cases h
    | some l =>
      rw [hl] at h
      obtain ⟨⟨y, u⟩, s₁, hy, h⟩ := ExceptT.bind_eq_ok h
      have hy := ih hy
      obtain ⟨rfl, hx⟩ := emit_eq_ok h
      cases op <;> cases hl <;> cases hx
      all_goals first | exact .not hy | exact .isNull hy | exact .isNotNull hy

theorem compiled_of_toExecutable {fields : List Field} {e : Expr} {x : Executable} {t : DataType}
    (h : e.toExecutable fields = .ok (x, t)) : Compiled fields e x t :=
  compiled_of_compile (Prod.ext h rfl)

end Expr

/-! ### Types -/

/-- Every reference by position declares the type of the field at its position. -/
def Expr.IsAnalysed (fields : List Field) : Expr → Prop
  | bound ordinal type _ => ∀ f, fields[ordinal.toNat]? = some f → type = f.type
  | column _ | literal _ => True
  | binary _ left right => left.IsAnalysed fields ∧ right.IsAnalysed fields
  | unary _ child => child.IsAnalysed fields

private theorem BinaryOp.isPredicate_of_comparison? (op : BinaryOp) {c : Comparison}
    (h : op.comparison? = some c) : op.isPredicate = true := by
  cases op <;> simp_all [comparison?, isPredicate]

private theorem BinaryOp.not_isPredicate_of_arithmetic? (op : BinaryOp) {a : Arithmetic}
    (h : op.arithmetic? = some a) : ¬op.isPredicate = true := by
  cases op <;> simp_all [arithmetic?, isPredicate]

namespace Compiled

variable {fields : List Field} {e : Expr} {x : Executable} {t : DataType}

/-- The type found for an expression is the declared one, where there is one. -/
theorem type?_eq (h : Compiled fields e x t) {d : DataType} (hd : e.type? = some d) : t = d := by
  induction h generalizing d with
  | bound | literal => exact Option.some.inj hd
  | column => cases hd
  | and | or => exact Option.some.inj hd
  | not | isNull | isNotNull => exact Option.some.inj hd
  | @compare op c left right x y t u h =>
    rw [Expr.type?, if_pos (op.isPredicate_of_comparison? h)] at hd
    exact Option.some.inj hd
  | @arithmetic op a left right x y t u h =>
    rw [Expr.type?, if_neg (op.not_isPredicate_of_arithmetic? h)] at hd
    rw [hd, Option.getD_some]

/-- The type found for arithmetic is the one found for its left operand. -/
theorem getD_type? (h : Compiled fields e x t) : e.type?.getD t = t := by
  cases hd : e.type? with
  | none => rfl
  | some d => exact (h.type?_eq hd).symm

end Compiled

end Columnar
