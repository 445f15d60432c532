import Columnar.Eval.Executable
import Columnar.Proofs.Compile.Trace
import Columnar.Proofs.Except
import Columnar.Tree

/-!
# Scripts of calls

The builders of expression trees and of executable expressions can be used by hand. A script is a
list of calls, whose operands are nodes of calls before: a node is named by the position of the call
that made it, and may be used again or not at all (`NodeBuilder.outcomes`). A call is left out if
one of its operands was not made.

What the list of native functions says of a call is `NodeCall.misuse?`. The builder of executable
expressions has no such list: it looks a name up among the operations with two operands, and then
among those with one. Both lists have the same names with the same numbers of operands
(`NativeFunction.arity_lookup?`), so that both builders refuse the same calls for the same reason,
except that the builder of trees also checks the type that it is told (`NodeBuilder.run_agree`).
-/

namespace Columnar

variable {Node α β : Type}

/-! ### Running a script -/

namespace NodeCall

/-- The same call with other operands, if there is one for each. -/
def resolve (f : α → Option β) : NodeCall α → Option (NodeCall β)
  | field index column => some (field index column)
  | literal value => some (literal value)
  | and nodes => (nodes.mapM f).map and
  | or nodes => (nodes.mapM f).map or
  | function name nodes type => (nodes.mapM f).map (function name · type)

end NodeCall

/-- What comes of a call for the nodes that were made; nothing does if one of its operands was not
made. -/
def NodeBuilder.outcome (b : NodeBuilder Unit Node) (made : Nat → Option Node)
    (call : NodeCall Nat) : Option (Except Error Node) :=
  (call.resolve made).map fun call => (call.run b ()).1

/-- The nodes that were made, with the one of the call at a position. -/
def NodeBuilder.madeAfter (b : NodeBuilder Unit Node) (made : Nat → Option Node)
    (call : NodeCall Nat) (position : Nat) : Nat → Option Node := fun i =>
  if i = position then (b.outcome made call).bind Except.toOption else made i

/-- What comes of each call of a script, from a position on. `made` has the nodes of the calls
before that position. -/
def NodeBuilder.outcomes (b : NodeBuilder Unit Node) :
    List (NodeCall Nat) → (position : Nat) → (made : Nat → Option Node) →
      List (Option (Except Error Node))
  | [], _, _ => []
  | call :: script, position, made =>
    b.outcome made call :: b.outcomes script (position + 1) (b.madeAfter made call position)

/-- What comes of each call of a script. -/
def NodeBuilder.run (b : NodeBuilder Unit Node) (script : List (NodeCall Nat)) :
    List (Option (Except Error Node)) :=
  b.outcomes script 0 fun _ => none

/-! ### Calls that are refused -/

/-- Why the list of native functions has none of a name with a number of operands. -/
def NativeFunction.refusal? (name : String) (operands : Nat) : Option Refusal :=
  match (lookup? name).map (·.arity) with
  | none => some (.unknownFunction name)
  | some arity => if arity = operands then none else some (.wrongArity name arity operands)

namespace NodeCall

/-- Why a call is none that the list of native functions allows: it has no function of the name, or
the function takes another number of operands, or there is nothing to be combined. -/
def misuse? : NodeCall Node → Option Refusal
  | field _ _ | literal _ => none
  | and nodes => if nodes.length = 0 then some (.noOperands "and") else none
  | or nodes => if nodes.length = 0 then some (.noOperands "or") else none
  | function name nodes _ => NativeFunction.refusal? name nodes.length

/-- A call for a function that returns truth values is told another type. -/
def mistyping? : NodeCall Node → Option Refusal
  | function name _ type =>
    match NativeFunction.lookup? name with
    | none => none
    | some f => if f.returnsBoolean ∧ type ≠ .boolean then some (.notBoolean name type) else none
  | _ => none

/-- What a builder says that refuses a call for a reason, or else makes a node. -/
def Answers (refusal : Option Refusal) (outcome : Except Error Node) : Prop :=
  match refusal with
  | some r => outcome = .error r.toError
  | none => ∃ node, outcome = .ok node

/-- Why a call is refused does not depend on what its operands are. -/
private theorem refusals_resolve {f : α → Option β} {call : NodeCall α} {call' : NodeCall β}
    (h : call.resolve f = some call') :
    call'.misuse? = call.misuse? ∧ call'.mistyping? = call.mistyping? := by
  cases call with
  | field | literal => cases h; exact ⟨rfl, rfl⟩
  | and | or | function =>
    obtain ⟨nodes, hnodes, rfl⟩ := Option.map_eq_some_iff.1 h
    simp only [misuse?, mistyping?, Option.length_of_mapM hnodes, and_self]

/-- A call has all its operands if each was made. -/
private theorem isSome_resolve {f : α → Option β} {call : NodeCall α} :
    (call.resolve f).isSome ↔ ∀ x ∈ call.operands, (f x).isSome := by
  cases call with
  | field | literal => exact ⟨nofun, fun _ => rfl⟩
  | and | or | function => rw [resolve, Option.isSome_map, Option.isSome_mapM, operands]

end NodeCall

/-! ### Names and numbers of operands -/

/-- **Two lists of functions.** The operations that native functions stand for have the names and
the numbers of operands that are listed. -/
theorem NativeFunction.arity_lookup? (name : String) :
    (lookup? name).map (·.arity) =
      if (Executable.binaryOfName? name).isSome then some 2
      else if (Executable.unaryOfName? name).isSome then some 1 else none := by
  cases h : lookup? name with
  | some f =>
    -- It is one of the listed functions, and has its name.
    obtain rfl : f.name = name := by simpa using List.find?_some h
    have hf : f ∈ registry := List.mem_of_find?_eq_some h
    clear h
    revert f
    decide
  | none =>
    have hbinary : Executable.binaryOfName? name = none := by
      unfold Executable.binaryOfName?
      split <;> first | rfl | cases h
    have hunary : Executable.unaryOfName? name = none := by
      unfold Executable.unaryOfName?
      split <;> first | rfl | cases h
    rw [hbinary, hunary]
    rfl

/-! ### Single calls -/

open NodeCall (Answers)

/-- What the builder of expression trees says to a call. -/
theorem TreeNode.answers_builder (call : NodeCall TreeNode) :
    Answers (call.misuse?.or call.mistyping?) (call.run builder ()).1 := by
  cases call with
  | field | literal => exact ⟨_, rfl⟩
  | and nodes | or nodes => cases nodes <;> first | rfl | exact ⟨_, rfl⟩
  | function name nodes type =>
    have hrun : ((NodeCall.function name nodes type).run builder ()).1 =
        (makeFunction name nodes type).mapError Refusal.toError := rfl
    rw [hrun, makeFunction, NodeCall.misuse?, NodeCall.mistyping?, NativeFunction.refusal?]
    cases NativeFunction.lookup? name with
    | none => rfl
    | some f =>
      dsimp only [Option.map_some]
      by_cases harity : f.arity = nodes.length
      · have hkept : ¬f.arity ≠ nodes.length := fun h => h harity
        rw [if_neg hkept, if_pos harity]
        by_cases htype : f.returnsBoolean = true ∧ type ≠ .boolean
        · rw [if_pos htype, if_pos htype]
          rfl
        · rw [if_neg htype, if_neg htype]
          exact ⟨_, rfl⟩
      · rw [if_pos harity, if_neg harity]
        rfl

/-- A function applied to executable expressions is refused for a misuse only. -/
private theorem Executable.answers_makeFunction (name : String) (nodes : List Executable) :
    Answers (NativeFunction.refusal? name nodes.length)
      ((makeFunction name nodes).mapError Refusal.toError) := by
  rw [NativeFunction.refusal?, NativeFunction.arity_lookup?]
  unfold makeFunction
  cases binaryOfName? name with
  | some op =>
    match nodes with
    | [] | [_] | _ :: _ :: _ :: _ => rfl
    | [left, right] => exact ⟨_, rfl⟩
  | none =>
    cases unaryOfName? name with
    | some op =>
      match nodes with
      | [] | _ :: _ :: _ => rfl
      | [operand] => exact ⟨_, rfl⟩
    | none => rfl

/-- What the builder of executable expressions says to a call. -/
theorem Executable.answers_builder (call : NodeCall Executable) :
    Answers call.misuse? (call.run builder ()).1 := by
  cases call with
  | field | literal => exact ⟨_, rfl⟩
  | and nodes | or nodes => cases nodes <;> first | rfl | exact ⟨_, rfl⟩
  | function name nodes type => exact answers_makeFunction name nodes

/-! ### Two builders -/

namespace NodeCall

/-- A node is made of a call that is not refused. -/
private theorem Answers.isSome_toOption {refusal : Option Refusal} {outcome : Except Error Node}
    (h : Answers refusal outcome) : outcome.toOption.isSome ↔ refusal = none := by
  cases refusal with
  | some r => cases h; exact ⟨nofun, nofun⟩
  | none => obtain ⟨node, rfl⟩ := h; exact ⟨fun _ => rfl, fun _ => rfl⟩

/-- What comes of a call with trees and with executable expressions. -/
structure Agree (call : NodeCall Nat) (tree : Option (Except Error TreeNode))
    (executable : Option (Except Error Executable)) : Prop where
  /-- If all operands are there as trees, they are as executable expressions. -/
  tried : tree.isSome → executable.isSome
  /-- Trees are refused for a misuse or else for a mistyping, and made otherwise. -/
  tree_answers : ∀ outcome ∈ tree, Answers (call.misuse?.or call.mistyping?) outcome
  /-- Executable expressions are refused for a misuse, and made otherwise. -/
  executable_answers : ∀ outcome ∈ executable, Answers call.misuse? outcome

/-- A call that is refused for a misuse if it is refused for anything. -/
def IsTyped (call : NodeCall Nat) : Prop :=
  call.misuse? = none → call.mistyping? = none

end NodeCall

section

variable {trees : Nat → Option TreeNode} {executables : Nat → Option Executable}

namespace NodeCall.Agree

variable {call : NodeCall Nat} {tree : Option (Except Error TreeNode)}
  {executable : Option (Except Error Executable)}

/-- Of what a tree is made an executable expression is made. -/
private theorem isSome_executable (h : call.Agree tree executable)
    (hmade : (tree.bind Except.toOption).isSome) :
    (executable.bind Except.toOption).isSome := by
  cases tree with
  | none => cases hmade
  | some t =>
    obtain ⟨x, rfl⟩ := Option.isSome_iff_exists.1 (h.tried rfl)
    have hrefusals := (h.tree_answers t rfl).isSome_toOption.1 hmade
    exact (h.executable_answers x rfl).isSome_toOption.2 (Option.or_eq_none_iff.1 hrefusals).1

/-- Of what an executable expression is made a tree is made, if it has its operands and a type that
fits. -/
private theorem isSome_tree (h : call.Agree tree executable) (htyped : call.IsTyped)
    (htried : executable.isSome → tree.isSome)
    (hmade : (executable.bind Except.toOption).isSome) : (tree.bind Except.toOption).isSome := by
  cases executable with
  | none => cases hmade
  | some x =>
    obtain ⟨t, rfl⟩ := Option.isSome_iff_exists.1 (htried rfl)
    have hmisuse := (h.executable_answers x rfl).isSome_toOption.1 hmade
    exact (h.tree_answers t rfl).isSome_toOption.2
      (Option.or_eq_none_iff.2 ⟨hmisuse, htyped hmisuse⟩)

end NodeCall.Agree

/-- A call whose operands were made by both builders if by that of trees. -/
private theorem NodeCall.agree_outcome (h : ∀ j, (trees j).isSome → (executables j).isSome)
    (call : NodeCall Nat) :
    call.Agree (TreeNode.builder.outcome trees call)
      (Executable.builder.outcome executables call) where
  tried htried := by
    rw [NodeBuilder.outcome, Option.isSome_map, isSome_resolve] at htried ⊢
    exact fun j hj => h j (htried j hj)
  tree_answers outcome houtcome := by
    obtain ⟨call', hcall', rfl⟩ := Option.map_eq_some_iff.1 houtcome
    obtain ⟨hmisuse, hmistyping⟩ := refusals_resolve hcall'
    rw [← hmisuse, ← hmistyping]
    exact TreeNode.answers_builder call'
  executable_answers outcome houtcome := by
    obtain ⟨call', hcall', rfl⟩ := Option.map_eq_some_iff.1 houtcome
    rw [← (refusals_resolve hcall').1]
    exact Executable.answers_builder call'

/-- After a call there is still an executable expression for each tree that was made. -/
private theorem NodeBuilder.isSome_madeAfter (h : ∀ j, (trees j).isSome → (executables j).isSome)
    (call : NodeCall Nat) (position j : Nat)
    (hmade : (TreeNode.builder.madeAfter trees call position j).isSome) :
    (Executable.builder.madeAfter executables call position j).isSome := by
  unfold madeAfter at hmade ⊢
  by_cases hj : j = position
  · rw [if_pos hj] at hmade ⊢
    exact (NodeCall.agree_outcome h call).isSome_executable hmade
  · rw [if_neg hj] at hmade ⊢
    exact h j hmade

/-- A call has its operands as trees if there is a tree for each executable expression. -/
private theorem NodeBuilder.isSome_outcome (h : ∀ j, (executables j).isSome → (trees j).isSome)
    (call : NodeCall Nat) (htried : (Executable.builder.outcome executables call).isSome) :
    (TreeNode.builder.outcome trees call).isSome := by
  rw [outcome, Option.isSome_map, NodeCall.isSome_resolve] at htried ⊢
  exact fun j hj => h j (htried j hj)

/-- The rest of a script with the two builders, if there is an executable expression for each tree
that was made. -/
theorem NodeBuilder.outcomes_agree (script : List (NodeCall Nat)) (position : Nat)
    (h : ∀ j, (trees j).isSome → (executables j).isSome) {i : Nat} {call : NodeCall Nat}
    (hcall : script[i]? = some call) :
    ∃ tree executable,
      (TreeNode.builder.outcomes script position trees)[i]? = some tree ∧
      (Executable.builder.outcomes script position executables)[i]? = some executable ∧
      call.Agree tree executable ∧
      ((∀ j, (executables j).isSome → (trees j).isSome) →
        (∀ earlier ∈ script.take i, earlier.IsTyped) → executable.isSome → tree.isSome) := by
  induction script generalizing position trees executables i with
  | nil => cases hcall
  | cons first script ih =>
    cases i with
    | zero =>
      cases hcall
      exact ⟨_, _, rfl, rfl, NodeCall.agree_outcome h call,
        fun hmade _ => isSome_outcome hmade call⟩
    | succ i =>
      obtain ⟨tree, executable, htree, hexecutable, hagree, hback⟩ :=
        ih (position + 1) (isSome_madeAfter h first position) hcall
      refine ⟨tree, executable, htree, hexecutable, hagree, fun hmade htyped => ?_⟩
      rw [List.take_succ_cons, List.forall_mem_cons] at htyped
      -- The first call is typed, so that it made a tree if it made an executable expression.
      refine hback (fun j hmade' => ?_) htyped.2
      unfold madeAfter at hmade' ⊢
      by_cases hj : j = position
      · rw [if_pos hj] at hmade' ⊢
        have hfirst := NodeCall.agree_outcome h first
        exact hfirst.isSome_tree htyped.1 (isSome_outcome hmade first) hmade'
      · rw [if_neg hj] at hmade' ⊢
        exact hmade j hmade'

end

/-- **Two builders, one script.** Take any script, with names of functions, numbers of operands and
types of all kinds. A call that can be made with trees can be made with executable expressions, and
both builders refuse it for the same misuse with the same error, or else both make a node: only that
of trees refuses it for a type that is not that of truth values. Until the first call of that kind
the same calls can be made with both. -/
theorem NodeBuilder.run_agree (script : List (NodeCall Nat)) {i : Nat} {call : NodeCall Nat}
    (hcall : script[i]? = some call) :
    ∃ tree executable,
      (TreeNode.builder.run script)[i]? = some tree ∧
      (Executable.builder.run script)[i]? = some executable ∧
      call.Agree tree executable ∧
      ((∀ earlier ∈ script.take i, earlier.IsTyped) → (tree.isSome ↔ executable.isSome)) := by
  obtain ⟨tree, executable, htree, hexecutable, hagree, hback⟩ :=
    @outcomes_agree (fun _ => none) (fun _ => none) script 0 nofun i call hcall
  exact ⟨tree, executable, htree, hexecutable, hagree,
    fun htyped => ⟨hagree.tried, hback nofun htyped⟩⟩

/-- A script with an equality of two columns, negated with a type that only the builder of trees
refuses. -/
def NodeBuilder.negatedEquality : List (NodeCall Nat) :=
  [.field 0 ⟨"a", .int32, true⟩, .field 1 ⟨"b", .int32, true⟩, .function "equal" [0, 1] .boolean,
    .function "not" [2] .int32, .and [2, 3]]

/-- The negation is refused as a tree, and made as an executable expression. -/
theorem NodeBuilder.run_agree_negatedEquality :
    negatedEquality[3]? = some (.function "not" [2] .int32) ∧
    (TreeNode.builder.run negatedEquality)[3]? =
      some (some (.error (Refusal.notBoolean "not" .int32).toError)) ∧
    (Executable.builder.run negatedEquality)[3]? =
      some (some (.ok (.not (.compare .equal (.column "a" 0) (.column "b" 1))))) ∧
    ∃ tree executable,
      (TreeNode.builder.run negatedEquality)[3]? = some tree ∧
      (Executable.builder.run negatedEquality)[3]? = some executable ∧
      (NodeCall.function "not" [2] .int32).Agree tree executable ∧
      ((∀ earlier ∈ negatedEquality.take 3, earlier.IsTyped) →
        (tree.isSome ↔ executable.isSome)) :=
  ⟨rfl, rfl, rfl, run_agree negatedEquality rfl⟩

end Columnar
