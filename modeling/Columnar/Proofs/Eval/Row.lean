import Columnar.Batch
import Columnar.Eval.Arithmetic
import Columnar.Eval.Executable
import Columnar.Eval.Kernel
import Columnar.Expr

/-!
# What an expression means in a row

The semantics of expressions that evaluation on whole batches has to meet, one row at a time and
without columns, node builders or types of results. A row gives each expression a `Datum`, which is
NULL or a value, or no datum at all where an operation fails (`Expr.valueAt`).

* Conjunction and disjunction follow Kleene's tables (`Logic.kleene`). A left operand that decides
  does so whether or not the right one has a datum.
* NOT of NULL is NULL, and the tests for NULL always give a truth value.
* Comparison and arithmetic give NULL for NULL, and otherwise what the kernel of the two types
  computes. Both equalities are the plain one.
-/

namespace Columnar

/-- What an expression is in a row: NULL, or a value of some type. -/
abbrev Datum : Type :=
  Option ((t : ColumnType) × t.Cell)

namespace Datum

/-- The datum in a slot of a column. -/
def ofSlot {t : ColumnType} (slot : Slot t) : Datum :=
  slot.map fun a => ⟨t, a⟩

/-- A truth value as a datum. -/
def ofTruth (p : Option Bool) : Datum :=
  ofSlot (t := .boolean) p

/-- The truth value of a datum that is one. NULL is, whatever type it may have. -/
def truth? : Datum → Option (Option Bool)
  | none => some none
  | some ⟨.boolean, p⟩ => some (some p)
  | some _ => none

end Datum

/-- The operation of Kleene's logic that a truth value decides: conjunction if this is falsehood,
and disjunction if it is truth. -/
def Logic.kleene (decisive : Bool) (p q : Option Bool) : Option Bool :=
  if p = some decisive ∨ q = some decisive then some decisive
  else if p = none ∨ q = none then none
  else some !decisive

namespace Datum

/-- A logical operation on data, of which the right one may be missing if the left one decides. -/
def logic (decisive : Bool) (x y : Option Datum) : Option Datum := do
  let p ← (← x).truth?
  if p = some decisive then return ofTruth p
  else return ofTruth (Logic.kleene decisive p (← (← y).truth?))

/-- A kernel on data: NULL for NULL, and otherwise what the kernel of their types computes. -/
def lift (kernel : (t u : ColumnType) → Except EvalError (Kernel t u)) :
    Datum → Datum → Option Datum
  | some ⟨t, a⟩, some ⟨u, b⟩ => do
    let k ← (kernel t u).toOption
    return some ⟨k.type, ← (k.apply a b).toOption⟩
  | _, _ => some none

end Datum

/-- The comparison that an operator stands for. -/
def BinaryOp.comparison? : BinaryOp → Option Comparison
  | equal | equalNullSafe => some .equal
  | less => some .less
  | lessOrEqual => some .lessOrEqual
  | greater => some .greater
  | greaterOrEqual => some .greaterOrEqual
  | _ => none

/-- The arithmetic operation that an operator stands for. -/
def BinaryOp.arithmetic? : BinaryOp → Option Arithmetic
  | add => some .add
  | subtract => some .subtract
  | multiply => some .multiply
  | divide => some .divide
  | remainder => some .remainder
  | _ => none

/-- What a row of a batch has in the column at a position. -/
def Batch.datum? (b : Batch) (index row : Nat) : Option Datum := do
  let c ← b.column? index
  return .ofSlot (← c.slots[row]?)

/-- **The meaning of an expression in a row** of a batch over some fields. -/
def Expr.valueAt (fields : List Field) (b : Batch) (row : Nat) : Expr → Option Datum
  | bound ordinal _ _ => b.datum? ordinal.toNat row
  | column name => do b.datum? (← fields.findIdx? (·.name == name)) row
  | literal value => some (.ofSlot (Scalar.ofLiteral value).slot)
  | binary .and left right =>
    Datum.logic false (valueAt fields b row left) (valueAt fields b row right)
  | binary .or left right =>
    Datum.logic true (valueAt fields b row left) (valueAt fields b row right)
  | binary op left right => do
    let x ← valueAt fields b row left
    let y ← valueAt fields b row right
    match op.comparison?, op.arithmetic? with
    | some c, _ => Datum.lift c.kernel x y
    | none, some a => Datum.lift a.kernel x y
    | none, none => none
  | unary .not child => do return .ofTruth ((← (← valueAt fields b row child).truth?).map (!·))
  | unary .isNull child => do return .ofTruth (some (← valueAt fields b row child).isNone)
  | unary .isNotNull child => do return .ofTruth (some (← valueAt fields b row child).isSome)
  | unary .bitNot _ => none

/-! ### Laws -/

namespace Logic

/-- A left operand that decides. -/
theorem kleene_decided (decisive : Bool) (q : Option Bool) :
    kleene decisive (some decisive) q = some decisive :=
  if_pos (.inl rfl)

theorem and_eq_kleene (p q : Option Bool) : Logic.and p q = kleene false p q := by
  rcases p with _ | _ | _ <;> rcases q with _ | _ | _ <;> rfl

theorem or_eq_kleene (p q : Option Bool) : Logic.or p q = kleene true p q := by
  rcases p with _ | _ | _ <;> rcases q with _ | _ | _ <;> rfl

end Logic

namespace Datum

@[simp] theorem truth?_ofTruth (p : Option Bool) : (ofTruth p).truth? = some p := by
  cases p <;> rfl

theorem ofTruth_inj {p q : Option Bool} : ofTruth p = ofTruth q ↔ p = q := by
  constructor
  · intro h
    simpa using congrArg truth? h
  · rintro rfl
    rfl

@[simp] theorem isNone_ofSlot {t : ColumnType} (slot : Slot t) :
    (ofSlot slot).isNone = slot.isNone := by
  cases slot <;> rfl

/-- A logical operation whose left operand decides. -/
theorem logic_decided (decisive : Bool) (y : Option Datum) :
    logic decisive (some (ofTruth (some decisive))) y = some (ofTruth (some decisive)) := by
  simp [logic]

/-- A logical operation on two truth values. -/
theorem logic_ofTruth (decisive : Bool) (p q : Option Bool) :
    logic decisive (some (ofTruth p)) (some (ofTruth q)) =
      some (ofTruth (Logic.kleene decisive p q)) := by
  by_cases h : p = some decisive
  · subst h
    rw [logic_decided, Logic.kleene_decided]
  · simp [logic, h]

/-- A kernel on slots and on data is the same. -/
theorem lift_ofSlot {kernel : (t u : ColumnType) → Except EvalError (Kernel t u)} {t u : ColumnType}
    {k : Kernel t u} {x : Slot t} {y : Slot u} {z : Slot k.type} (hk : kernel t u = .ok k)
    (h : k.onSlots x y = .ok z) : lift kernel (ofSlot x) (ofSlot y) = some (ofSlot z) := by
  cases x with
  | none => cases h; rfl
  | some a =>
    cases y with
    | none => cases h; rfl
    | some b =>
      rw [Kernel.onSlots] at h
      cases hz : k.apply a b with
      | error e => rw [hz] at h; cases h
      | ok c =>
        rw [hz] at h
        cases h
        simp [lift, ofSlot, hk, hz, Except.toOption]

end Datum

namespace Expr

variable {fields : List Field} {b : Batch} {row : Nat} {op : BinaryOp} {left right : Expr}
  {x y : Datum}

/-- A comparison in a row. -/
theorem valueAt_compare {c : Comparison} (h : op.comparison? = some c)
    (hx : left.valueAt fields b row = some x) (hy : right.valueAt fields b row = some y) :
    (binary op left right).valueAt fields b row = Datum.lift c.kernel x y := by
  cases op <;> cases h <;> simp [valueAt, hx, hy, BinaryOp.comparison?]

/-- An arithmetic operation in a row. -/
theorem valueAt_arithmetic {a : Arithmetic} (h : op.arithmetic? = some a)
    (hx : left.valueAt fields b row = some x) (hy : right.valueAt fields b row = some y) :
    (binary op left right).valueAt fields b row = Datum.lift a.kernel x y := by
  cases op <;> cases h <;>
    simp [valueAt, hx, hy, BinaryOp.comparison?, BinaryOp.arithmetic?]

end Expr

end Columnar
