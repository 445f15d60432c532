import Columnar.Compile

/-!
# Traces of compilations

A compilation goes through the nodes of an expression in a fixed order (`Expr.walk`). Each node is
looked up first (`Expr.lookUp`): a reference has to resolve and an operator to have a lowering. Then
come the operands, left before right, and after them the node is made by one call of the builder.
The first step that fails is the last.

`Trace` says which calls the steps of a walk make and how it ends, for builders that may keep a
state and refuse any call, and `Wired` from which calls the operands of a call come. The calls of a
builder are those that `NodeBuilder.recording` writes down, which is the builder itself with a
record.
-/

namespace Columnar

variable {σ Node : Type}

/-! ### Calls of builders -/

/-- A call of a node builder. -/
inductive NodeCall (Node : Type) where
  /-- For the input column at a position. -/
  | field (index : UInt64) (field : Field)
  /-- For a constant. -/
  | literal (value : Literal)
  /-- For the conjunction of nodes. -/
  | and (nodes : List Node)
  /-- For the disjunction of nodes. -/
  | or (nodes : List Node)
  /-- For a function applied to nodes. -/
  | function (name : String) (nodes : List Node) (type : DataType)

namespace NodeCall

/-- The nodes that a call takes. -/
def operands : NodeCall Node → List Node
  | field _ _ | literal _ => []
  | and nodes | or nodes | function _ nodes _ => nodes

/-- Makes a call. -/
def run (b : NodeBuilder σ Node) : NodeCall Node → BuilderCall σ Node
  | field index f => b.field index f
  | literal value => b.literal value
  | and nodes => b.and nodes
  | or nodes => b.or nodes
  | function name nodes type => b.function name nodes type

/-- Makes a call and adds it, with what came of it, to a record. -/
def record (b : NodeBuilder σ Node) (c : NodeCall Node) :
    BuilderCall (σ × List (NodeCall Node × Except Error Node)) Node := fun (s, calls) =>
  let (outcome, s) := c.run b s
  (outcome, s, calls ++ [(c, outcome)])

end NodeCall

/-- A builder with a record of its calls, in order. -/
def NodeBuilder.recording (b : NodeBuilder σ Node) :
    NodeBuilder (σ × List (NodeCall Node × Except Error Node)) Node where
  field index f := NodeCall.record b (.field index f)
  literal value := NodeCall.record b (.literal value)
  and nodes := NodeCall.record b (.and nodes)
  or nodes := NodeCall.record b (.or nodes)
  function name nodes type := NodeCall.record b (.function name nodes type)

theorem NodeCall.run_recording (b : NodeBuilder σ Node) (c : NodeCall Node) :
    c.run b.recording = c.record b := by
  cases c <;> rfl

/-! ### Walks -/

/-- What the compiler finds for a node before it is made. -/
inductive Finding where
  /-- The input column at a position. -/
  | column (index : UInt64) (field : Field)
  /-- A constant. -/
  | constant (value : Literal)
  /-- The lowering of an operator. -/
  | operator (lowering : Lowering)

/-- A step of a walk. -/
inductive WalkStep where
  /-- Looks a node up. -/
  | check (e : Expr)
  /-- Makes a node. -/
  | make (e : Expr)

/-- The steps of a walk that make nodes. -/
def WalkStep.made? : WalkStep → Option Expr
  | check _ => none
  | make e => some e

namespace Expr

/-- Looks a node up: a position has to be one of a field, a name that of a field, and an operator
has to have a lowering. -/
def lookUp (fields : List Field) : Expr → Except CompileFailure Finding
  | bound ordinal type nullable =>
    match fields[ordinal.toNat]? with
    | some f => .ok (.column ordinal f)
    | none => .error (.ordinalOutOfRange (bound ordinal type nullable) fields.length)
  | column name =>
    match fields.zipIdx.find? (·.1.name == name) with
    | some (f, index) => .ok (.column (UInt64.ofNat index) f)
    | none => .error (.columnNotFound name fields)
  | literal value => .ok (.constant value)
  | binary op left right =>
    match op.lowering? with
    | some lowering => .ok (.operator lowering)
    | none => .error (.noLowering (binary op left right))
  | unary op child =>
    match op.lowering? with
    | some lowering => .ok (.operator lowering)
    | none => .error (.noLowering (unary op child))

/-- The steps of a compilation: a node is looked up before its operands and made after them. -/
def walk : Expr → List WalkStep
  | binary op left right =>
    .check (binary op left right) :: (left.walk ++ (right.walk ++ [.make (binary op left right)]))
  | unary op child => .check (unary op child) :: (child.walk ++ [.make (unary op child)])
  | e => [.check e, .make e]

/-- The reference or constant at the bottom of an expression, down its left operands. -/
def bottom : Expr → Expr
  | binary _ left _ => left.bottom
  | unary _ child => child.bottom
  | e => e

/-- The type of the first field of a name, for a reference by name. -/
def fieldType? (fields : List Field) : Expr → Option DataType
  | column name => (fields.find? (·.name == name)).map (·.type)
  | _ => none

/-- The type of the node of an expression: the declared one, or else that of the first field that
the bottom names. -/
def typeOver (fields : List Field) (e : Expr) : Option DataType :=
  e.type?.or (e.bottom.fieldType? fields)

/-- The nodes of an expression, operands before the nodes that use them. -/
def postorder : Expr → List Expr
  | binary op left right => left.postorder ++ (right.postorder ++ [binary op left right])
  | unary op child => child.postorder ++ [unary op child]
  | e => [e]

end Expr

/-- The call for a lowering of an operator. -/
def Lowering.call (nodes : List Node) (type : DataType) : Lowering → NodeCall Node
  | conjunction => .and nodes
  | disjunction => .or nodes
  | function name _ => .function name nodes type

namespace Finding

/-- The call that makes a node of a type from those of its operands. -/
def call (nodes : List Node) (type : DataType) : Finding → NodeCall Node
  | column index f => .field index f
  | constant value => .literal value
  | operator lowering => lowering.call nodes type

end Finding

/-- A call that was made for an expression. -/
structure Request (Node : Type) where
  /-- The expression. -/
  expr : Expr
  /-- The call. -/
  call : NodeCall Node
  /-- What came of it. -/
  outcome : Except Error Node

namespace Request

/-- A call as builders see it. -/
def entry (r : Request Node) : NodeCall Node × Except Error Node :=
  (r.call, r.outcome)

/-- A call is one for an expression: that of the field, constant or lowering that was found, with
the type of the expression. -/
def IsFor (fields : List Field) (e : Expr) (r : Request Node) : Prop :=
  r.expr = e ∧ ∃ finding type, e.lookUp fields = .ok finding ∧ e.typeOver fields = some type ∧
    r.call = finding.call r.call.operands type

end Request

/-- The calls that the steps of a walk make, in order, up to the first step that fails, and the
error of that one. -/
inductive Trace (fields : List Field) :
    List WalkStep → List (Request Node) → Option Error → Prop where
  /-- All steps are taken. -/
  | done : Trace fields [] [] none
  /-- A node is found. -/
  | check {e : Expr} {finding : Finding} {steps : List WalkStep} {requests : List (Request Node)}
      {failure : Option Error} (h : e.lookUp fields = .ok finding)
      (hlater : Trace fields steps requests failure) :
      Trace fields (.check e :: steps) requests failure
  /-- A node is made. -/
  | make {e : Expr} {r : Request Node} {x : Node} {steps : List WalkStep}
      {requests : List (Request Node)} {failure : Option Error} (h : r.IsFor fields e)
      (hx : r.outcome = .ok x) (hlater : Trace fields steps requests failure) :
      Trace fields (.make e :: steps) (r :: requests) failure
  /-- An operator has no lowering. No call is made, and the error shows the expression. -/
  | unsupported {e : Expr} {steps : List WalkStep} (h : e.lookUp fields = .error (.noLowering e)) :
      Trace fields (.check e :: steps) [] (some ⟨.unsupportedOperator, e.text, none⟩)
  /-- A reference does not resolve. No call is made. -/
  | unresolved {e : Expr} {f : CompileFailure} {steps : List WalkStep} (he : e.children = [])
      (h : e.lookUp fields = .error f) :
      Trace fields (.check e :: steps) [] (some ⟨.unresolvedReference, f.toError.message, none⟩)
  /-- The builder refuses to make a node. Its error names the expression, once. -/
  | refused {e : Expr} {r : Request Node} {err : Error} {steps : List WalkStep}
      (h : r.IsFor fields e) (hx : r.outcome = .error err) :
      Trace fields (.make e :: steps) [r]
        (some ⟨err.kind, e.text ++ ": " ++ err.message, err.source⟩)

/-- All calls for some expressions and what is below them, one expression after the other, with the
nodes that were made for them: each is what came of the last call for its expression. -/
def Gave : List Expr → List (Request Node) → List Node → Prop
  | [], requests, nodes => requests = [] ∧ nodes = []
  | e :: es, requests, nodes => ∃ first later x xs, requests = first ++ later ∧ nodes = x :: xs ∧
      first.map (·.expr) = e.postorder ∧ first.getLast?.map (·.outcome) = some (.ok x) ∧
      Gave es later xs

/-- Every call takes the nodes that were made for the operands of its expression, by the calls right
before it. -/
inductive Wired : List (Request Node) → Prop where
  /-- There are no calls. -/
  | nil : Wired []
  /-- A call comes after those for its operands. -/
  | concat {earlier own : List (Request Node)} {r : Request Node} (h : Wired (earlier ++ own))
      (hown : Gave r.expr.children own r.call.operands) : Wired (earlier ++ own ++ [r])

/-- The error of a computation, if it fails. -/
def failureOf {α : Type} : Except Error α → Option Error
  | .ok _ => none
  | .error e => some e

/-! ### Traces -/

namespace Trace

variable {fields : List Field} {steps later : List WalkStep} {rs qs : List (Request Node)}
  {failure : Option Error} {err : Error}

/-- Steps that succeed are followed by others. -/
theorem append (h : Trace fields steps rs none) (hlater : Trace fields later qs failure) :
    Trace fields (steps ++ later) (rs ++ qs) failure := by
  generalize hnone : none = f at h
  induction h with
  | done => exact hlater
  | check hfinding _ ih => exact .check hfinding (ih hnone)
  | make hr hx _ ih => exact .make hr hx (ih hnone)
  | unsupported | unresolved | refused => cases hnone

/-- After a step that fails no other is taken. -/
theorem append_of_failure (h : Trace fields steps rs (some err)) (later : List WalkStep) :
    Trace fields (steps ++ later) rs (some err) := by
  generalize hsome : some err = f at h
  induction h with
  | done => cases hsome
  | check hfinding _ ih => exact .check hfinding (ih hsome)
  | make hr hx _ ih => exact .make hr hx (ih hsome)
  | unsupported h => exact hsome ▸ .unsupported h
  | unresolved he h => exact hsome ▸ .unresolved he h
  | refused h hx => exact hsome ▸ .refused h hx

/-- The expressions that are made are made in the order of a walk. -/
theorem map_expr (h : Trace fields steps rs failure) :
    rs.map (·.expr) <+: steps.filterMap WalkStep.made? := by
  induction h with
  | done => exact List.prefix_rfl
  | check _ _ ih => exact ih
  | make hr _ _ ih =>
    rw [List.map_cons, hr.1]
    exact (List.prefix_cons_inj _).2 ih
  | unsupported | unresolved => exact List.nil_prefix
  | refused hr =>
    rw [List.map_cons, hr.1]
    exact (List.prefix_cons_inj _).2 List.nil_prefix

end Trace

theorem Expr.postorder_eq (e : Expr) : e.postorder = e.children.flatMap postorder ++ [e] := by
  cases e with
  | bound | column | literal => rfl
  | binary op left right => simp [postorder, children]
  | unary op child => simp [postorder, children]

theorem Expr.filterMap_walk (e : Expr) : e.walk.filterMap WalkStep.made? = e.postorder := by
  induction e with
  | bound | column | literal => rfl
  | unary op child ih =>
    rw [walk, List.filterMap_cons_none rfl, List.filterMap_append, ih]
    rfl
  | binary op left right ihl ihr =>
    rw [walk, List.filterMap_cons_none rfl, List.filterMap_append, List.filterMap_append, ihl, ihr]
    rfl

namespace Gave

variable {es fs : List Expr} {rs qs : List (Request Node)} {xs ys : List Node}

/-- There is one call for each node, operands before the nodes that use them. -/
theorem map_expr (h : Gave es rs xs) : rs.map (·.expr) = es.flatMap Expr.postorder := by
  induction es generalizing rs xs with
  | nil =>
    obtain ⟨rfl, -⟩ := h
    rfl
  | cons e es ih =>
    obtain ⟨first, later, x, xs, rfl, -, hfirst, -, hlater⟩ := h
    rw [List.map_append, hfirst, ih hlater, List.flatMap_cons]

theorem append (h : Gave es rs xs) (hlater : Gave fs qs ys) :
    Gave (es ++ fs) (rs ++ qs) (xs ++ ys) := by
  induction es generalizing rs xs with
  | nil =>
    obtain ⟨rfl, rfl⟩ := h
    exact hlater
  | cons e es ih =>
    obtain ⟨first, later, x, xs, rfl, rfl, hfirst, hlast, h⟩ := h
    exact ⟨first, later ++ qs, x, xs ++ ys, List.append_assoc .., rfl, hfirst, hlast, ih h⟩

/-- The last call for an expression is its own, after those for its operands. -/
theorem singleton {e : Expr} {r : Request Node} {x : Node}
    (h : rs.map (·.expr) ++ [r.expr] = e.postorder)
    (hx : r.outcome = .ok x) : Gave [e] (rs ++ [r]) [x] := by
  refine ⟨rs ++ [r], [], x, [], (List.append_nil _).symm, rfl, ?_, ?_, rfl, rfl⟩
  · rw [← h, List.map_append, List.map_singleton]
  · rw [List.getLast?_concat, ← hx]
    rfl

end Gave

theorem Wired.append {rs qs : List (Request Node)} (hrs : Wired rs) (hqs : Wired qs) :
    Wired (rs ++ qs) := by
  induction hqs with
  | nil => rwa [List.append_nil]
  | @concat earlier own r _ hown ih =>
    rw [← List.append_assoc] at ih
    have hconcat := concat ih hown
    simpa only [List.append_assoc] using hconcat

end Columnar
