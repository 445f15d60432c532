import Columnar.Compile
import Columnar.Eval.Arithmetic

/-!
# Executable expressions

Expressions that evaluate on batches column by column, the values they have there, and the filters
that are made of conditions.
-/

namespace Columnar

/-! ## Values of evaluation

An expression evaluates to a column, or to a scalar where it does not depend on the rows. A scalar
can have decimal parameters that no column may have; it can then be tested for NULL, and everything
that would need it as a column fails.
-/

/-- One slot with its type. -/
structure Scalar where
  /-- The type. -/
  type : ColumnType
  /-- The value, or NULL. -/
  slot : Slot type

namespace Scalar

/-- The scalar of a constant. -/
def ofLiteral : Literal → Scalar
  | .null type => ⟨type.stored, none⟩
  | .boolean v => ⟨.boolean, some v⟩
  | .int8 v => ⟨.int8, some v⟩
  | .int16 v => ⟨.int16, some v⟩
  | .int32 v => ⟨.int32, some v⟩
  | .int64 v => ⟨.int64, some v⟩
  | .float32 v => ⟨.float32, some v⟩
  | .float64 v => ⟨.float64, some v⟩
  | .decimal128 v precision scale => ⟨.decimal128 precision scale, some v⟩
  | .utf8 v => ⟨.utf8, some v⟩
  | .binary v => ⟨.binary, some v⟩
  | .date32 v => ⟨.date32, some v⟩
  | .timestampMicros v => ⟨.timestampMicros, some v⟩

/-- Fails for a type that no column may have. -/
def checkType (s : Scalar) : Except EvalError Unit :=
  match s.type with
  | .decimal128 precision scale =>
    if ColumnType.IsValidDecimal precision.toNat scale.toInt then .ok ()
    else .error (.invalidDecimal precision.toNat scale.toInt)
  | _ => .ok ()

/-- The column that repeats a scalar. -/
def toColumn (rows : Nat) (s : Scalar) : Except EvalError Column :=
  s.checkType.map fun _ => .replicate rows s.slot

end Scalar

/-- What an expression evaluates to. -/
inductive Value where
  /-- A value for each row. -/
  | column (c : Column)
  /-- One value for all rows. -/
  | scalar (s : Scalar)

namespace Value

/-- The type of a value. -/
def type : Value → ColumnType
  | column c => c.type
  | scalar s => s.type

/-- Fails for a scalar of a type that no column may have. -/
def checkType : Value → Except EvalError Unit
  | column _ => .ok ()
  | scalar s => s.checkType

/-- A value as a column. -/
def toColumn (rows : Nat) : Value → Except EvalError Column
  | column c => .ok c
  | scalar s => s.toColumn rows

/-- Applies a kernel, which is chosen by the types of the operands. A scalar meets every row of a
column; of two scalars the result is a scalar. -/
def combine (kernel : (t u : ColumnType) → Except EvalError (Kernel t u)) (x y : Value) :
    Except EvalError Value := do
  x.checkType
  y.checkType
  match x, y with
  | column a, column b =>
    let k ← kernel a.type b.type
    return column ⟨k.type, ← k.onRows a.slots b.slots⟩
  | column a, scalar s =>
    let k ← kernel a.type s.type
    return column ⟨k.type, ← a.slots.mapM fun slot => k.onSlots slot s.slot⟩
  | scalar s, column b =>
    let k ← kernel s.type b.type
    return column ⟨k.type, ← b.slots.mapM fun slot => k.onSlots s.slot slot⟩
  | scalar r, scalar s =>
    let k ← kernel r.type s.type
    return scalar ⟨k.type, ← k.onSlots r.slot s.slot⟩

end Value

/-! ## Expressions

Expressions in a form that evaluates on batches. Columns are taken by their position, whatever their
name and type in the batch. A conjunction whose left operand is false in every row is that operand,
and the right one is not evaluated; likewise a disjunction whose left operand is true in every row.
Where a conjunction or disjunction does need both operands, they must also make sense by their types
alone (`Executable.type`), down to parts that were not evaluated.

`Executable.builder` is the node builder of executable expressions.
-/

/-- An expression that evaluates on batches. -/
inductive Executable where
  /-- The column at a position. -/
  | column (name : String) (index : UInt64)
  /-- A constant. -/
  | constant (value : Scalar)
  /-- Conjunction. -/
  | and (left right : Executable)
  /-- Disjunction. -/
  | or (left right : Executable)
  /-- Comparison. -/
  | compare (op : Comparison) (left right : Executable)
  /-- Arithmetic. -/
  | arithmetic (op : Arithmetic) (left right : Executable)
  /-- Negation. -/
  | not (operand : Executable)
  /-- Test for NULL. -/
  | isNull (operand : Executable)
  /-- Test for a value. -/
  | isNotNull (operand : Executable)

namespace Value

/-- The truth values of a value, one for each row. -/
def booleans (rows : Nat) (x : Value) : Except EvalError (List (Option Bool)) := do
  let c ← x.toColumn rows
  match c.booleans? with
  | some slots => return slots
  | none => throw (.notBoolean c.type)

/-- Whether a value is `b` in every row; of no rows it is. -/
def isAll (b : Bool) : Value → Bool
  | column c =>
    match c.booleans? with
    | some slots => slots.all (· == some b)
    | none => false
  | scalar ⟨.boolean, slot⟩ => slot == some b
  | scalar _ => false

/-- Negates a value. A scalar NULL of any type negates to NULL. -/
def not : Value → Except EvalError Value
  | column c =>
    match c.booleans? with
    | some slots => .ok (column ⟨.boolean, slots.map Logic.not⟩)
    | none => .error (.notBoolean c.type)
  | scalar ⟨_, none⟩ => .ok (scalar ⟨.boolean, none⟩)
  | scalar ⟨.boolean, some b⟩ => .ok (scalar ⟨.boolean, some !b⟩)
  | scalar s => .error (.notBoolean s.type)

/-- Tests a value for NULL in every row; `negate` tests for a value. -/
def testNull (negate : Bool) : Value → Value
  | column c => column ⟨.boolean, c.slots.map fun slot => some (slot.isNone != negate)⟩
  | scalar s => scalar ⟨.boolean, some (s.slot.isNone != negate)⟩

end Value

namespace Executable

/-- The truth type of a logical operation on two types, each of truth values or of NULLs. -/
def logicType (t u : ColumnType) : Except EvalError ColumnType :=
  if t ≠ .boolean ∧ t ≠ .null then .error (.notBoolean t)
  else if u ≠ .boolean ∧ u ≠ .null then .error (.notBoolean u)
  else .ok .boolean

/-- The type of an expression over columns of the given types, without evaluation. -/
def type (columns : List ColumnType) : Executable → Except EvalError ColumnType
  | column _ index =>
    match columns[index.toNat]? with
    | some t => .ok t
    | none => .error (.columnOutOfRange index.toNat columns.length)
  | constant value => .ok value.type
  | and left right | or left right => do
    logicType (← type columns left) (← type columns right)
  | compare _ left right => do
    let t ← type columns left
    let u ← type columns right
    if t.areComparable u then return .boolean else throw (.incomparable t u)
  | arithmetic op left right => do
    op.resultType (← type columns left) (← type columns right)
  | not _ | isNull _ | isNotNull _ => .ok .boolean

/-- Evaluates a logical operation: `decisive` is the truth value of the left operand that alone
decides every row, and `op` combines the truth values otherwise, provided that `type` is one. -/
def evaluateLogic (rows : Nat) (decisive : Bool) (op : Option Bool → Option Bool → Option Bool)
    (type : Except EvalError ColumnType) (left : Value) (right : Except EvalError Value) :
    Except EvalError Value :=
  if left.isAll decisive then .ok left
  else do
    let r ← right
    let _ ← type
    let xs ← left.booleans rows
    let ys ← r.booleans rows
    return .column ⟨.boolean, List.zipWith op xs ys⟩

/-- The value of an expression on a batch. -/
def evaluate (b : Batch) : Executable → Except EvalError Value
  | column _ index =>
    match b.column? index.toNat with
    | some c => .ok (.column c)
    | none => .error (.columnOutOfRange index.toNat b.columns.length)
  | constant value => .ok (.scalar value)
  | and left right => do
    evaluateLogic b.rows false Logic.and ((and left right).type b.types) (← evaluate b left)
      (evaluate b right)
  | or left right => do
    evaluateLogic b.rows true Logic.or ((or left right).type b.types) (← evaluate b left)
      (evaluate b right)
  | compare op left right => do
    let x ← evaluate b left
    let y ← evaluate b right
    x.combine op.kernel y
  | arithmetic op left right => do
    let x ← evaluate b left
    let y ← evaluate b right
    x.combine op.kernel y
  | not operand => do (← evaluate b operand).not
  | isNull operand => return (← evaluate b operand).testNull false
  | isNotNull operand => return (← evaluate b operand).testNull true

/-- The value of an expression on a batch, one slot for each row. -/
def evaluateColumn (b : Batch) (e : Executable) : Except EvalError Column := do
  (← evaluate b e).toColumn b.rows

/-! ### Building -/

/-- The conjunction of at least one expression, from the left. -/
def makeAnd : List Executable → Except Refusal Executable
  | [] => .error (.noOperands "and")
  | e :: es => .ok (es.foldl and e)

/-- The disjunction of at least one expression, from the left. -/
def makeOr : List Executable → Except Refusal Executable
  | [] => .error (.noOperands "or")
  | e :: es => .ok (es.foldl or e)

/-- The operation with two operands that a native function stands for. -/
def binaryOfName? (name : String) : Option (Executable → Executable → Executable) :=
  match name with
  | "equal" => some (compare .equal)
  | "less_than" => some (compare .less)
  | "less_than_or_equal_to" => some (compare .lessOrEqual)
  | "greater_than" => some (compare .greater)
  | "greater_than_or_equal_to" => some (compare .greaterOrEqual)
  | "add" => some (arithmetic .add)
  | "subtract" => some (arithmetic .subtract)
  | "multiply" => some (arithmetic .multiply)
  | "divide" => some (arithmetic .divide)
  | "mod" => some (arithmetic .remainder)
  | _ => none

/-- The operation with one operand that a native function stands for. -/
def unaryOfName? (name : String) : Option (Executable → Executable) :=
  match name with
  | "not" => some not
  | "isnull" => some isNull
  | "isnotnull" => some isNotNull
  | _ => none

/-- A native function applied to expressions. -/
def makeFunction (name : String) (nodes : List Executable) : Except Refusal Executable :=
  match binaryOfName? name, unaryOfName? name, nodes with
  | some op, _, [left, right] => .ok (op left right)
  | some _, _, _ => .error (.wrongArity name 2 nodes.length)
  | none, some op, [operand] => .ok (op operand)
  | none, some _, _ => .error (.wrongArity name 1 nodes.length)
  | none, none, _ => .error (.unknownFunction name)

/-- The node builder of executable expressions; it keeps no state, and the types that it is told do
not matter. -/
def builder : NodeBuilder Unit Executable where
  field index f := pure (column f.name index)
  literal value := pure (constant (.ofLiteral value))
  and nodes := ExceptT.mk (pure ((makeAnd nodes).mapError Refusal.toError))
  or nodes := ExceptT.mk (pure ((makeOr nodes).mapError Refusal.toError))
  function name nodes _ := ExceptT.mk (pure ((makeFunction name nodes).mapError Refusal.toError))

end Executable

/-! ## Row filters

A filter is a condition, compiled once, that picks rows of batches: those where it is true. Rows
where it is false or NULL are dropped.
-/

/-- The executable form of an expression, with the type of its value. -/
def Expr.toExecutable (e : Expr) (fields : List Field) : Except Error (Executable × DataType) :=
  (e.compile Executable.builder fields ⟨(), []⟩).1

/-- A condition on rows. -/
structure Filter where
  /-- The condition as it was given. -/
  condition : Expr
  /-- The condition in executable form. -/
  predicate : Executable

namespace Filter

/-- The filter of a condition over input fields. The condition must have the type of truth
values. -/
def ofCondition (condition : Expr) (fields : List Field) : Except Error Filter := do
  let (predicate, type) ← condition.toExecutable fields
  if type = .boolean then return ⟨condition, predicate⟩
  else throw ⟨.unsupportedType,
    s!"Filter condition {condition} returns {type}, expected boolean", none⟩

/-- The condition on a batch: a truth value or NULL for each row. -/
def mask (f : Filter) (b : Batch) : Except Error (List (Option Bool)) := do
  let c ← (f.predicate.evaluateColumn b).mapError fun e =>
    .wrap .native s!"Failed to evaluate {f.condition}" e.text
  match c.booleans? with
  | some slots => return slots
  | none =>
    throw (.wrap .native s!"{f.condition} did not produce booleans"
      (EvalError.notBoolean c.type).text)

/-- The rows of a batch that satisfy the condition. -/
def apply (f : Filter) (b : Batch) : Except Error Batch := do
  let mask := (← f.mask b).map (· == some true)
  if h : mask.length = b.rows then return b.filter mask h
  else throw (.wrap .native s!"Failed to apply {f.condition}" "the mask has another length")

end Filter

end Columnar
