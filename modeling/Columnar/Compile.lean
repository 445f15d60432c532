import Columnar.Expr

/-!
# Compilation

From expressions to the nodes of a native backend: which native construct expresses an operator,
what a backend offers to make nodes, and how the nodes of an expression are made with it.
-/

namespace Columnar

/-! ## Lowerings

Which native construct expresses an operator: a conjunction, a disjunction, or a function with a
rule for its result type. Operators on bits have no lowering.
-/

/-- How the result type of a function is found. -/
inductive ResultRule where
  /-- A truth value. -/
  | boolean
  /-- The declared type of the operator, or the type of its first operand if none is declared. -/
  | declared
deriving DecidableEq, Repr

/-- The name of a rule in log lines. -/
def ResultRule.text : ResultRule → String
  | boolean => "Boolean"
  | declared => "Declared"

/-- How an operator is expressed natively. -/
inductive Lowering where
  /-- As a conjunction. -/
  | conjunction
  /-- As a disjunction. -/
  | disjunction
  /-- As a function. -/
  | function (name : String) (result : ResultRule)
deriving DecidableEq, Repr

/-- The text of a lowering in log lines. -/
def Lowering.text : Lowering → String
  | conjunction => "Conjunction"
  | disjunction => "Disjunction"
  | function name result =>
    "Function \x7b name: \"" ++ name ++ "\", result: " ++ result.text ++ " \x7d"

/-- The lowering of an operator with two operands. Both equalities share one function, under which
two NULLs are not equal. -/
def BinaryOp.lowering? : BinaryOp → Option Lowering
  | and => some .conjunction
  | or => some .disjunction
  | equal | equalNullSafe => some (.function "equal" .boolean)
  | less => some (.function "less_than" .boolean)
  | lessOrEqual => some (.function "less_than_or_equal_to" .boolean)
  | greater => some (.function "greater_than" .boolean)
  | greaterOrEqual => some (.function "greater_than_or_equal_to" .boolean)
  | add => some (.function "add" .declared)
  | subtract => some (.function "subtract" .declared)
  | multiply => some (.function "multiply" .declared)
  | divide => some (.function "divide" .declared)
  | remainder => some (.function "mod" .declared)
  | bitAnd | bitOr | bitXor => none

/-- The lowering of an operator with one operand. -/
def UnaryOp.lowering? : UnaryOp → Option Lowering
  | not => some (.function "not" .boolean)
  | isNull => some (.function "isnull" .boolean)
  | isNotNull => some (.function "isnotnull" .boolean)
  | bitNot => none

/-! ## Node builders

A node builder makes the nodes of a native backend: references, constants, conjunctions,
disjunctions and applications of functions. It may keep a state and may refuse any call. The
compiler knows nodes only as what a builder returned, and passes to a call only nodes that the same
builder returned before.

A script is a sequence of calls that work on a stack of nodes, for builders used by hand
(`ScriptStep`).
-/

/-- Why a builder that checks its calls refuses one. -/
inductive Refusal where
  /-- No function has the name. -/
  | unknownFunction (name : String)
  /-- The function takes another number of operands. -/
  | wrongArity (name : String) (expected actual : Nat)
  /-- The function returns a truth value, whatever type is asked for. -/
  | notBoolean (name : String) (type : DataType)
  /-- A conjunction or disjunction of nothing. -/
  | noOperands (name : String)
deriving DecidableEq, Repr

/-- The error of a refusal. -/
def Refusal.toError (r : Refusal) : Error :=
  let message := match r with
    | unknownFunction name => s!"Unknown native function '{name}'"
    | wrongArity name expected actual =>
      s!"Native function '{name}' takes {expected} operands, got {actual}"
    | notBoolean name type => s!"Native function '{name}' returns boolean, not {type}"
    | noOperands name => s!"{name}() needs at least one operand"
  ⟨.native, message, none⟩

/-- A call of a builder: it may change the builder's state, and succeeds or fails. -/
abbrev BuilderCall (σ α : Type) : Type :=
  ExceptT Error (StateM σ) α

/-- The calls of a node builder with states in `σ`. -/
structure NodeBuilder (σ Node : Type) where
  /-- The input column at a position. -/
  field : (index : UInt64) → Field → BuilderCall σ Node
  /-- A constant. -/
  literal : Literal → BuilderCall σ Node
  /-- The conjunction of nodes. -/
  and : List Node → BuilderCall σ Node
  /-- The disjunction of nodes. -/
  or : List Node → BuilderCall σ Node
  /-- A function applied to nodes. -/
  function : (name : String) → List Node → DataType → BuilderCall σ Node

/-- One call of a script. Calls with operands take them from the top of the stack. -/
inductive ScriptStep where
  /-- Pushes the input column at a position. -/
  | field (index : UInt64) (field : Field)
  /-- Pushes a constant. -/
  | literal (value : Literal)
  /-- Replaces nodes by their conjunction. -/
  | and (operands : Nat)
  /-- Replaces nodes by their disjunction. -/
  | or (operands : Nat)
  /-- Replaces nodes by a function applied to them. -/
  | function (name : String) (operands : Nat) (type : DataType)
deriving Repr

namespace ScriptStep

/-- How many nodes a step takes from the stack. -/
def operands : ScriptStep → Nat
  | field _ _ | literal _ => 0
  | and n | or n | function _ n _ => n

/-- The call that a step makes, with its operands in the order in which they were pushed. -/
def call {σ Node : Type} (b : NodeBuilder σ Node) (nodes : List Node) :
    ScriptStep → BuilderCall σ Node
  | field index f => b.field index f
  | literal value => b.literal value
  | and _ => b.and nodes
  | or _ => b.or nodes
  | function name _ type => b.function name nodes type

/-- Makes the call of a step on a stack, which holds its top first. The operands are gone also when
the call is refused. -/
def run {σ Node : Type} (b : NodeBuilder σ Node) (step : ScriptStep) (stack : List Node)
    (state : σ) : Except Error Unit × List Node × σ :=
  let rest := stack.drop step.operands
  match step.call b (stack.take step.operands).reverse state with
  | (.ok node, state) => (.ok (), node :: rest, state)
  | (.error e, state) => (.error e, rest, state)

end ScriptStep

/-- Makes the calls of a script in order, whether earlier ones were refused or not; returns their
outcomes and the final stack, top first. -/
def NodeBuilder.runScript {σ Node : Type} (b : NodeBuilder σ Node) :
    List ScriptStep → List Node → σ → List (Except Error Unit) × List Node
  | [], stack, _ => ([], stack)
  | step :: script, stack, state =>
    let (outcome, stack, state) := step.run b stack state
    let (outcomes, stack) := b.runScript script stack state
    (outcome :: outcomes, stack)

/-! ## Compiling expressions

`Expr.compile` makes the nodes of an expression with any node builder, operands before the nodes
that use them, left before right. An operator without a lowering is refused before its operands are
looked at. The first failure ends the compilation; a failure of the builder names the expression
whose node it refused to make, and no other.
-/

/-- Why an expression has no native form. -/
inductive CompileFailure where
  /-- The operator of an expression has no lowering. -/
  | noLowering (e : Expr)
  /-- A position outside the input fields. -/
  | ordinalOutOfRange (e : Expr) (fields : Nat)
  /-- A name that no input field has. -/
  | columnNotFound (name : String) (fields : List Field)

/-- The error of a compile failure. -/
def CompileFailure.toError : CompileFailure → Error
  | noLowering e => ⟨.unsupportedOperator, e.text, none⟩
  | ordinalOutOfRange e fields =>
    ⟨.unresolvedReference, s!"{e} is out of range for {fields} input fields", none⟩
  | columnNotFound name fields =>
    let names := ", ".intercalate (fields.map (·.name))
    ⟨.unresolvedReference, s!"column '{name}' not found among [{names}]", none⟩

/-- A line of the compilation log: the node of an operator was asked for. -/
structure Lowered where
  /-- The expression. -/
  expr : Expr
  /-- How its operator is expressed. -/
  lowering : Lowering
  /-- The type of the node. -/
  type : DataType

/-- The text of a log line. -/
def Lowered.text (l : Lowered) : String :=
  s!"Lowered {l.expr} as {l.lowering.text} returning {l.type}"

/-- What a compilation changes: the state of the builder, and the log, latest line first. -/
structure CompileState (σ : Type) where
  /-- The state of the builder. -/
  builder : σ
  /-- The log, latest line first. -/
  log : List Lowered := []

/-- A step of a compilation. -/
abbrev Compile (σ α : Type) : Type :=
  ExceptT Error (StateM (CompileState σ)) α

namespace Compile

variable {σ α : Type}

/-- Calls the builder for an expression. -/
def call (e : Expr) (c : BuilderCall σ α) : Compile σ α := fun s =>
  let (r, builder) := c s.builder
  (r.mapError (·.inContext e.text), { s with builder })

/-- Fails for a reason of the compiler's own. -/
def fail (f : CompileFailure) : Compile σ α :=
  throw f.toError

/-- Writes a line of the log. -/
def log (l : Lowered) : Compile σ Unit := fun s =>
  (.ok (), { s with log := l :: s.log })

end Compile

namespace Expr

variable {σ Node : Type}

/-- The type of the node that a lowering makes for an expression whose first operand has a type. -/
def loweredType (e : Expr) (operandType : DataType) : Lowering → DataType
  | .conjunction | .disjunction | .function _ .boolean => .boolean
  | .function _ .declared => e.type?.getD operandType

/-- The call that makes the node of a lowering. -/
def loweredCall (b : NodeBuilder σ Node) (nodes : List Node) (type : DataType) :
    Lowering → BuilderCall σ Node
  | .conjunction => b.and nodes
  | .disjunction => b.or nodes
  | .function name _ => b.function name nodes type

/-- Makes the node of an operator from those of its operands. -/
def emit (b : NodeBuilder σ Node) (e : Expr) (lowering : Lowering) (nodes : List Node)
    (operandType : DataType) : Compile σ (Node × DataType) := do
  let type := e.loweredType operandType lowering
  Compile.log ⟨e, lowering, type⟩
  let node ← Compile.call e (loweredCall b nodes type lowering)
  return (node, type)

/-- Makes the nodes of an expression over the input fields; returns the last one and its type. -/
def compile (b : NodeBuilder σ Node) (fields : List Field) : Expr → Compile σ (Node × DataType)
  | bound ordinal type nullable => do
    let e := bound ordinal type nullable
    match fields[ordinal.toNat]? with
    | some f => return (← Compile.call e (b.field ordinal f), type)
    | none => Compile.fail (.ordinalOutOfRange e fields.length)
  | column name =>
    match fields.zipIdx.find? (·.1.name == name) with
    | some (f, index) => do
      return (← Compile.call (column name) (b.field (UInt64.ofNat index) f), f.type)
    | none => Compile.fail (.columnNotFound name fields)
  | literal value => do
    return (← Compile.call (literal value) (b.literal value), value.type)
  | binary op left right =>
    match op.lowering? with
    | none => Compile.fail (.noLowering (binary op left right))
    | some lowering => do
      let (l, operandType) ← compile b fields left
      let (r, _) ← compile b fields right
      emit b (binary op left right) lowering [l, r] operandType
  | unary op child =>
    match op.lowering? with
    | none => Compile.fail (.noLowering (unary op child))
    | some lowering => do
      let (c, operandType) ← compile b fields child
      emit b (unary op child) lowering [c] operandType

end Expr

end Columnar
