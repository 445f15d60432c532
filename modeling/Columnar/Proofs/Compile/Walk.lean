import Columnar.Proofs.Compile.Trace
import Columnar.Proofs.Except
import Columnar.Tree

/-!
# The order of a compilation

A compilation is the walk of its expression (`Expr.walks_compile`): each step of the compiler is one
step of the walk, and an expression that has operands first goes through the walks of these. Whether
the calls of the builder are recorded makes no difference.

Main statements:

* `compile_trace`: the calls of a compilation are those of a walk, and its error is that of the step
  that fails;
* `Expr.build_of_compile`: a compilation that succeeds makes of an expression what the builder makes
  of its expression tree (`TreeNode.build`), call by call.
-/

namespace Columnar

variable {σ Node : Type}

/-! ### Steps of a compilation -/

namespace Compile

variable {α : Type}

/-- A call for an expression whose node has a type. -/
theorem call_typed {e : Expr} (c : BuilderCall σ α) (t : DataType) (s : CompileState σ) :
    (do return (← call e c, t) : Compile σ (α × DataType)) s =
      (((c s.builder).1.mapError (·.inContext e.text)).map (·, t), ⟨(c s.builder).2, s.log⟩) := by
  cases hc : c s.builder with
  | mk outcome builder =>
    have hcall : call e c s = (outcome.mapError (·.inContext e.text), ⟨builder, s.log⟩) := by
      simp only [call, hc]
    cases outcome with
    | ok x => exact ExceptT.bind_of_ok hcall
    | error err => exact ExceptT.bind_of_error hcall

end Compile

variable {b : NodeBuilder σ Node} {fields : List Field} {e : Expr} {finding : Finding}

/-- What a compilation comes to that asks a builder for the node of an expression, after its
operands. -/
def Finding.ask (b : NodeBuilder σ Node) (e : Expr) (nodes : List Node) (type : DataType)
    (finding : Finding) (log : List Lowered) (s : σ) :
    Except Error (Node × DataType) × CompileState σ :=
  let (outcome, s) := (finding.call nodes type).run b s
  ((outcome.mapError (·.inContext e.text)).map (·, type), ⟨s, log⟩)

namespace Expr

theorem lookUp_binary_eq_ok {op : BinaryOp} {left right : Expr}
    (h : (binary op left right).lookUp fields = .ok finding) :
    ∃ lowering, op.lowering? = some lowering ∧ finding = .operator lowering := by
  rw [lookUp] at h
  split at h
  · next lowering hl => exact ⟨lowering, hl, (Except.ok.inj h).symm⟩
  · cases h

theorem lookUp_unary_eq_ok {op : UnaryOp} {child : Expr}
    (h : (unary op child).lookUp fields = .ok finding) :
    ∃ lowering, op.lowering? = some lowering ∧ finding = .operator lowering := by
  rw [lookUp] at h
  split at h
  · next lowering hl => exact ⟨lowering, hl, (Except.ok.inj h).symm⟩
  · cases h

/-- A node that is not found is the end of its compilation. -/
theorem compile_of_error {f : CompileFailure} (h : e.lookUp fields = .error f)
    (s : CompileState σ) :
    e.compile b fields s = (.error f.toError, s) := by
  cases e with
  | literal value => cases h
  | bound | column | binary | unary =>
    rw [lookUp] at h
    split at h
    · cases h
    · next hnone =>
      cases h
      simp only [compile, hnone]
      rfl

/-- The first field of a name, found with its position. -/
theorem find?_zipIdx (name : String) :
    (fields.zipIdx.find? (·.1.name == name)).map Prod.fst = fields.find? (·.name == name) := by
  have hmap := List.find?_map (f := Prod.fst) (p := fun f : Field => f.name == name)
    (l := fields.zipIdx)
  rw [List.zipIdx_map_fst] at hmap
  exact hmap.symm

/-- The node of an expression without operands is asked for at once. -/
theorem compile_leaf (h : e.lookUp fields = .ok finding) (he : e.children = []) :
    ∃ type, e.typeOver fields = some type ∧ ∀ {σ Node : Type} (b : NodeBuilder σ Node)
      (s : CompileState σ), e.compile b fields s = finding.ask b e [] type s.log s.builder := by
  cases e with
  | binary | unary => cases he
  | literal value => cases h; exact ⟨_, rfl, fun _ s => Compile.call_typed _ _ s⟩
  | bound ordinal type nullable =>
    rw [lookUp] at h
    split at h
    · next f hf =>
      cases h
      refine ⟨type, rfl, fun b s => ?_⟩
      simp only [compile, hf]
      exact Compile.call_typed _ _ s
    · cases h
  | column name =>
    rw [lookUp] at h
    split at h
    · next f index hf =>
      cases h
      have htype : (fields.find? (·.name == name)).map (·.type) = some f.type := by
        rw [← find?_zipIdx, hf]
        rfl
      refine ⟨f.type, htype, fun b s => ?_⟩
      simp only [compile, hf]
      exact Compile.call_typed _ _ s
    · cases h

/-- An operator with two operands has the type of its lowering. -/
theorem typeOver_binary {op : BinaryOp} {left right : Expr} {lowering : Lowering} {t : DataType}
    (hl : op.lowering? = some lowering) (ht : left.typeOver fields = some t) :
    (binary op left right).typeOver fields =
      some ((binary op left right).loweredType t lowering) := by
  have hdeclared : left.type?.or (left.bottom.fieldType? fields) = some (left.type?.getD t) := by
    rw [typeOver] at ht
    cases hd : left.type? with
    | none => rwa [hd] at ht
    | some d => rfl
  cases op <;> cases hl <;> first | rfl | exact hdeclared

/-- An operator with one operand has the type of its lowering. -/
theorem typeOver_unary {op : UnaryOp} {child : Expr} {lowering : Lowering} (t : DataType)
    (hl : op.lowering? = some lowering) :
    (unary op child).typeOver fields = some ((unary op child).loweredType t lowering) := by
  cases op <;> cases hl <;> rfl

/-- The node of an operator is asked for when those of its operands are made. -/
theorem emit_eq (lowering : Lowering) (nodes : List Node) (operandType : DataType)
    (s : CompileState σ) :
    emit b e lowering nodes operandType s =
      (Finding.operator lowering).ask b e nodes (e.loweredType operandType lowering)
        (⟨e, lowering, e.loweredType operandType lowering⟩ :: s.log) s.builder := by
  have hlog (l : Lowered) : Compile.log l s = (.ok (), ⟨s.builder, l :: s.log⟩) := rfl
  rw [emit, ExceptT.bind_of_ok (hlog _), Compile.call_typed]
  cases lowering <;> rfl

/-- A node that is not found is the end of a walk, with the error of the compilation. -/
private theorem trace_of_error {f : CompileFailure} (h : e.lookUp fields = .error f) :
    Trace fields e.walk ([] : List (Request Node)) (some f.toError) := by
  cases e with
  | literal value => cases h
  | bound | column =>
    have hf : f.toError = ⟨.unresolvedReference, f.toError.message, none⟩ := by
      rw [lookUp] at h
      split at h <;> cases h
      rfl
    rw [hf]
    exact .unresolved rfl h
  | binary | unary =>
    have hf := h
    rw [lookUp] at hf
    split at hf <;> cases hf
    exact .unsupported h

end Expr

namespace Finding

private theorem operands_call (nodes : List Node) (type : DataType) (finding : Finding)
    (h : nodes = [] ∨ ∃ lowering, finding = .operator lowering) :
    (finding.call nodes type).operands = nodes := by
  obtain rfl | ⟨lowering, rfl⟩ := h
  · cases finding with
    | operator lowering => cases lowering <;> rfl
    | column | constant => rfl
  · cases lowering <;> rfl

/-- The call that asks for a node is the one that is recorded. -/
private theorem trace_ask {type : DataType} (h : e.lookUp fields = .ok finding)
    (ht : e.typeOver fields = some type) (nodes : List Node)
    (hnodes : (finding.call nodes type).operands = nodes) (log : List Lowered) (s : σ) :
    ∃ r : Request Node, r.expr = e ∧ r.call.operands = nodes ∧
      Trace fields [.make e] [r] (failureOf (finding.ask b e nodes type log s).1) ∧
      (∀ x t, (finding.ask b e nodes type log s).1 = .ok (x, t) → t = type ∧ r.outcome = .ok x) ∧
      ∀ calls, finding.ask b.recording e nodes type log (s, calls) =
        ((finding.ask b e nodes type log s).1,
          ⟨((finding.ask b e nodes type log s).2.builder, calls ++ [r.entry]), log⟩) := by
  cases hrun : (finding.call nodes type).run b s with
  | mk outcome s' =>
    have hfor : Request.IsFor fields e ⟨e, finding.call nodes type, outcome⟩ :=
      ⟨rfl, finding, type, h, ht, by rw [hnodes]⟩
    have hask : finding.ask b e nodes type log s =
        ((outcome.mapError (·.inContext e.text)).map (·, type), ⟨s', log⟩) := by
      rw [ask, hrun]
    rw [hask]
    refine ⟨⟨e, finding.call nodes type, outcome⟩, rfl, hnodes, ?_, ?_, fun calls => ?_⟩
    · cases outcome with
      | ok x => exact .make hfor rfl .done
      | error err => exact .refused hfor rfl
    · cases outcome with
      | ok x => rintro _ _ ⟨⟩; exact ⟨rfl, rfl⟩
      | error err => nofun
    · rw [ask, NodeCall.run_recording, NodeCall.record, hrun]
      rfl

end Finding

/-! ### Compilations are walks -/

/-- A compilation makes the calls of the walk of its expression, and no others, whether or not they
are recorded. -/
def Expr.Walks (b : NodeBuilder σ Node) (fields : List Field) (e : Expr) (s : CompileState σ) :
    Prop :=
  ∃ requests : List (Request Node), Wired requests ∧
    Trace fields e.walk requests (failureOf (e.compile b fields s).1) ∧
    (∀ x t, (e.compile b fields s).1 = .ok (x, t) →
      e.typeOver fields = some t ∧ Gave [e] requests [x]) ∧
    ∀ calls, e.compile b.recording fields ⟨(s.builder, calls), s.log⟩ =
      ((e.compile b fields s).1, ⟨((e.compile b fields s).2.builder,
        calls ++ requests.map Request.entry), (e.compile b fields s).2.log⟩)

namespace Expr

private theorem walks_of_error {f : CompileFailure} (h : e.lookUp fields = .error f)
    (s : CompileState σ) : e.Walks b fields s := by
  refine ⟨[], .nil, ?_, ?_, fun calls => ?_⟩
  · rw [compile_of_error h]
    exact trace_of_error h
  · rw [compile_of_error h]
    nofun
  · rw [compile_of_error h, compile_of_error h, List.map_nil, List.append_nil]

/-- When the operands are compiled, the node of an expression is asked for. -/
private theorem walks_of_ask (h : e.lookUp fields = .ok finding) {steps : List WalkStep}
    (hwalk : e.walk = .check e :: (steps ++ [.make e])) {rs : List (Request Node)}
    (hwired : Wired rs) (htrace : Trace fields steps rs none) {nodes : List Node}
    (hgave : Gave e.children rs nodes)
    {type : DataType} (ht : e.typeOver fields = some type)
    (hnodes : (finding.call nodes type).operands = nodes)
    {s : CompileState σ} {builder : σ} {log : List Lowered}
    (hcompile : e.compile b fields s = finding.ask b e nodes type log builder)
    (hrecord : ∀ calls, e.compile b.recording fields ⟨(s.builder, calls), s.log⟩ =
      finding.ask b.recording e nodes type log (builder, calls ++ rs.map Request.entry)) :
    e.Walks b fields s := by
  obtain ⟨r, hexpr, hoperands, hmake, hok, hcall⟩ :=
    finding.trace_ask (b := b) h ht nodes hnodes log builder
  refine ⟨rs ++ [r], ?_, ?_, fun x t hx => ?_, fun calls => ?_⟩
  · have hown : Gave r.expr.children rs r.call.operands := by
      rwa [hexpr, hoperands]
    exact @Wired.concat Node [] rs r hwired hown
  · rw [hcompile, hwalk]
    exact .check h (htrace.append hmake)
  · rw [hcompile] at hx
    obtain ⟨rfl, houtcome⟩ := hok x t hx
    refine ⟨ht, .singleton ?_ houtcome⟩
    rw [hexpr, hgave.map_expr, ← postorder_eq]
  · rw [hrecord, hcompile, hcall, List.map_append, List.append_assoc]
    rfl

private theorem walks_leaf (he : e.children = []) (hwalk : e.walk = [.check e, .make e])
    (s : CompileState σ) : e.Walks b fields s := by
  cases h : e.lookUp fields with
  | error f => exact walks_of_error h s
  | ok finding =>
    obtain ⟨type, ht, hcompile⟩ := compile_leaf h he
    have hgave : Gave e.children ([] : List (Request Node)) [] := he ▸ ⟨rfl, rfl⟩
    refine walks_of_ask h hwalk .nil .done hgave ht (finding.operands_call [] type (.inl rfl))
      (hcompile b s) fun calls => ?_
    rw [List.map_nil, List.append_nil]
    exact hcompile _ _

private theorem walks_of_emit {lowering : Lowering} (h : e.lookUp fields = .ok (.operator lowering))
    {steps : List WalkStep} (hwalk : e.walk = .check e :: (steps ++ [.make e]))
    {rs : List (Request Node)} (hwired : Wired rs) (htrace : Trace fields steps rs none)
    {nodes : List Node} (hgave : Gave e.children rs nodes) {operandType : DataType}
    (ht : e.typeOver fields = some (e.loweredType operandType lowering))
    {s : CompileState σ} (s' : CompileState σ)
    (hcompile : e.compile b fields s = emit b e lowering nodes operandType s')
    (hrecord : ∀ calls, e.compile b.recording fields ⟨(s.builder, calls), s.log⟩ =
      emit b.recording e lowering nodes operandType
        ⟨(s'.builder, calls ++ rs.map Request.entry), s'.log⟩) :
    e.Walks b fields s := by
  have hnodes := Finding.operands_call nodes (e.loweredType operandType lowering) _
    (.inr ⟨lowering, rfl⟩)
  refine walks_of_ask h hwalk hwired htrace hgave ht hnodes
    (hcompile.trans (emit_eq lowering nodes operandType s')) fun calls => ?_
  exact (hrecord calls).trans (emit_eq lowering nodes operandType _)

/-- An operand that is not compiled is the end of the walk. -/
private theorem walks_of_operand (h : e.lookUp fields = .ok finding) {steps more : List WalkStep}
    (hwalk : e.walk = .check e :: (steps ++ more)) {rs : List (Request Node)} (hwired : Wired rs)
    {err : Error} (htrace : Trace fields steps rs (some err)) {s : CompileState σ}
    (s' : CompileState σ) (hcompile : e.compile b fields s = (.error err, s'))
    (hrecord : ∀ calls, e.compile b.recording fields ⟨(s.builder, calls), s.log⟩ =
      (.error err, ⟨(s'.builder, calls ++ rs.map Request.entry), s'.log⟩)) :
    e.Walks b fields s := by
  refine ⟨rs, hwired, ?_, ?_, fun calls => ?_⟩
  · rw [hcompile, hwalk]
    exact .check h (htrace.append_of_failure more)
  · rw [hcompile]
    nofun
  · rw [hrecord, hcompile]

/-- What is known of an operand: it is compiled, with its own calls, or it is the end. -/
private theorem Walks.cases {s : CompileState σ} (h : e.Walks b fields s) :
    ∃ requests : List (Request Node), Wired requests ∧ ∃ s' : CompileState σ,
      (∃ x t, e.typeOver fields = some t ∧ Trace fields e.walk requests none ∧
        Gave [e] requests [x] ∧
        e.compile b fields s = (.ok (x, t), s') ∧
        ∀ calls, e.compile b.recording fields ⟨(s.builder, calls), s.log⟩ =
          (.ok (x, t), ⟨(s'.builder, calls ++ requests.map Request.entry), s'.log⟩)) ∨
      ∃ err, Trace fields e.walk requests (some err) ∧ e.compile b fields s = (.error err, s') ∧
        ∀ calls, e.compile b.recording fields ⟨(s.builder, calls), s.log⟩ =
          (.error err, ⟨(s'.builder, calls ++ requests.map Request.entry), s'.log⟩) := by
  obtain ⟨requests, hwired, htrace, hgave, hrecord⟩ := h
  cases hc : e.compile b fields s with
  | mk outcome s' =>
    rw [hc] at htrace hgave hrecord
    refine ⟨requests, hwired, s', ?_⟩
    cases outcome with
    | ok x =>
      obtain ⟨ht, hgave⟩ := hgave x.1 x.2 rfl
      exact .inl ⟨x.1, x.2, ht, htrace, hgave, rfl, hrecord⟩
    | error err => exact .inr ⟨err, htrace, rfl, hrecord⟩

/-- **Compilations are walks.** -/
theorem walks_compile (e : Expr) (s : CompileState σ) : e.Walks b fields s := by
  induction e generalizing s with
  | bound | column | literal => exact walks_leaf rfl rfl s
  | unary op child ih =>
    cases h : (unary op child).lookUp fields with
    | error f => exact walks_of_error h s
    | ok finding =>
      obtain ⟨lowering, hl, rfl⟩ := lookUp_unary_eq_ok h
      obtain ⟨rs, hrs, s₁, ⟨x, t, -, htrace, hgave, hc, hrecord⟩ | ⟨err, htrace, hc, hrecord⟩⟩ :=
        (ih s).cases
      · refine walks_of_emit h rfl hrs htrace hgave (typeOver_unary t hl) s₁ ?_ fun calls => ?_
        all_goals simp only [compile, hl]
        · rw [ExceptT.bind_of_ok hc]
        · rw [ExceptT.bind_of_ok (hrecord calls)]
      · refine walks_of_operand h rfl hrs htrace s₁ ?_ fun calls => ?_
        all_goals simp only [compile, hl]
        · rw [ExceptT.bind_of_error hc]
        · rw [ExceptT.bind_of_error (hrecord calls)]
  | binary op left right ihl ihr =>
    cases h : (binary op left right).lookUp fields with
    | error f => exact walks_of_error h s
    | ok finding =>
      obtain ⟨lowering, hl, rfl⟩ := lookUp_binary_eq_ok h
      have hwalk : (binary op left right).walk = .check (binary op left right) ::
          ((left.walk ++ right.walk) ++ [.make (binary op left right)]) := by
        rw [walk, List.append_assoc]
      obtain ⟨rs, hrs, s₁, ⟨x, t, ht, htrace, hgave, hc, hrecord⟩ | ⟨err, htrace, hc, hrecord⟩⟩ :=
        (ihl s).cases
      · obtain ⟨qs, hqs, s₂,
          ⟨y, u, -, hlater, hright, hc', hrecord'⟩ | ⟨err, hlater, hc', hrecord'⟩⟩ :=
          (ihr s₁).cases
        · refine walks_of_emit h hwalk (hrs.append hqs) (htrace.append hlater) (hgave.append hright)
            (typeOver_binary hl ht) s₂ ?_ fun calls => ?_
          all_goals simp only [compile, hl]
          · rw [ExceptT.bind_of_ok hc, ExceptT.bind_of_ok hc', List.singleton_append]
          · rw [ExceptT.bind_of_ok (hrecord calls), ExceptT.bind_of_ok (hrecord' _),
              List.map_append,
              List.append_assoc, List.singleton_append]
        · refine walks_of_operand h hwalk (hrs.append hqs) (htrace.append hlater) s₂ ?_
            fun calls => ?_
          all_goals simp only [compile, hl]
          · rw [ExceptT.bind_of_ok hc, ExceptT.bind_of_error hc']
          · rw [ExceptT.bind_of_ok (hrecord calls), ExceptT.bind_of_error (hrecord' _),
              List.map_append,
              List.append_assoc]
      · refine walks_of_operand h rfl hrs htrace s₁ ?_ fun calls => ?_
        all_goals simp only [compile, hl]
        · rw [ExceptT.bind_of_error hc]
        · rw [ExceptT.bind_of_error (hrecord calls)]

/-- The type that a compilation finds. -/
theorem typeOver_of_compile {s s' : CompileState σ} {x : Node} {t : DataType}
    (h : e.compile b fields s = (.ok (x, t), s')) : e.typeOver fields = some t := by
  have hwalks : e.Walks b fields s := e.walks_compile s
  obtain ⟨requests, -, -, hok, -⟩ := hwalks
  exact (hok x t (congrArg Prod.fst h)).1

end Expr

/-! ### Expression trees -/

mutual

/-- What a builder makes of an expression tree, operands before the nodes that use them. -/
def TreeNode.build (b : NodeBuilder σ Node) : TreeNode → BuilderCall σ Node
  | .field index f => b.field index f
  | .literal value => b.literal value
  | .function name children type => do b.function name (← TreeNode.buildAll b children) type
  | .and children => do b.and (← TreeNode.buildAll b children)
  | .or children => do b.or (← TreeNode.buildAll b children)

/-- What a builder makes of a list of trees, from left to right. -/
def TreeNode.buildAll (b : NodeBuilder σ Node) : List TreeNode → BuilderCall σ (List Node)
  | [] => return []
  | node :: nodes => do
    let x ← node.build b
    let xs ← TreeNode.buildAll b nodes
    return x :: xs

end

namespace Finding

/-- The tree of an expression, from those of its operands. -/
def tree (nodes : List TreeNode) (type : DataType) : Finding → TreeNode
  | column index f => .field index f
  | constant value => .literal value
  | operator .conjunction => .and nodes
  | operator .disjunction => .or nodes
  | operator (.function name _) => .function name nodes type

/-- The builder of expression trees knows the functions of all lowerings. -/
theorem run_tree {type : DataType} (h : e.lookUp fields = .ok finding)
    (ht : e.typeOver fields = some type) {nodes : List TreeNode}
    (hnodes : nodes.length = e.children.length) :
    (finding.call nodes type).run TreeNode.builder () = (.ok (finding.tree nodes type), ()) := by
  cases e with
  | literal => cases h; rfl
  | bound | column =>
    rw [Expr.lookUp] at h
    split at h <;> cases h
    rfl
  | binary op left right =>
    obtain ⟨lowering, hl, rfl⟩ := Expr.lookUp_binary_eq_ok h
    match nodes, hnodes with
    | [x, y], _ => cases op <;> cases hl <;> first | rfl | cases ht; rfl
  | unary op child =>
    obtain ⟨lowering, hl, rfl⟩ := Expr.lookUp_unary_eq_ok h
    match nodes, hnodes with
    | [x], _ => cases op <;> cases hl <;> cases ht <;> rfl

/-- A tree is built by the call for its expression, after its operands. -/
private theorem build_tree {trees : List TreeNode} {nodes : List Node} {s s' : σ} (type : DataType)
    (h : TreeNode.buildAll b trees s = (.ok nodes, s'))
    (hleaf : trees = [] ∨ ∃ lowering, finding = .operator lowering) :
    (finding.tree trees type).build b s = (finding.call nodes type).run b s' := by
  obtain rfl | ⟨lowering, rfl⟩ := hleaf
  · cases h
    cases finding with
    | column | constant => rfl
    | operator lowering => cases lowering <;> rfl
  · cases lowering <;> exact ExceptT.bind_of_ok h

end Finding

namespace Expr

variable {s s' : CompileState σ} {x : Node} {t : DataType}

/-- The node that a builder is asked for, if it makes it. -/
private theorem run_of_ask {nodes : List Node} {type : DataType} {log : List Lowered} {builder : σ}
    (h : finding.ask b e nodes type log builder = (.ok (x, t), s')) :
    t = type ∧ (finding.call nodes type).run b builder = (.ok x, s'.builder) := by
  cases hrun : (finding.call nodes type).run b builder with
  | mk outcome s₁ =>
    rw [Finding.ask, hrun] at h
    cases outcome with
    | error err => cases h
    | ok y => cases h; exact ⟨rfl, rfl⟩

/-- The same node is asked for of the builder of expression trees. -/
private theorem tree_of_ask (h : e.lookUp fields = .ok finding) {trees : List TreeNode}
    {nodes : List Node} {type : DataType} (ht : e.typeOver fields = some type)
    (htrees : trees.length = e.children.length)
    (hleaf : trees = [] ∨ ∃ lowering, finding = .operator lowering) {builder builder₁ : σ}
    (hbuild : TreeNode.buildAll b trees builder = (.ok nodes, builder₁)) {log : List Lowered}
    (hask : finding.ask b e nodes type log builder₁ = (.ok (x, t), s')) (log' : List Lowered) :
    finding.ask TreeNode.builder e trees type log' () =
        (.ok (finding.tree trees type, t), ⟨(), log'⟩) ∧
      (finding.tree trees type).build b builder = (.ok x, s'.builder) := by
  obtain ⟨rfl, hrun⟩ := run_of_ask hask
  refine ⟨?_, (Finding.build_tree t hbuild hleaf).trans hrun⟩
  rw [Finding.ask, Finding.run_tree h ht htrees]
  rfl

private theorem build_leaf (he : e.children = []) (h : e.compile b fields s = (.ok (x, t), s'))
    (c : CompileState Unit) :
    ∃ tree c', e.compile TreeNode.builder fields c = (.ok (tree, t), c') ∧
      tree.build b s.builder = (.ok x, s'.builder) := by
  cases hfound : e.lookUp fields with
  | error f =>
    rw [compile_of_error hfound] at h
    cases h
  | ok finding =>
    obtain ⟨type, ht, hcompile⟩ := compile_leaf hfound he
    rw [hcompile] at h
    obtain ⟨htree, hbuild⟩ :=
      tree_of_ask hfound ht (congrArg List.length he.symm) (.inl rfl) rfl h c.log
    exact ⟨_, _, (hcompile _ c).trans htree, hbuild⟩

private theorem build_of_emit {lowering : Lowering} (h : e.lookUp fields = .ok (.operator lowering))
    {trees : List TreeNode} {nodes : List Node} {operandType : DataType}
    (ht : e.typeOver fields = some (e.loweredType operandType lowering))
    (htrees : trees.length = e.children.length) {builder : σ} {s₁ : CompileState σ}
    (hbuild : TreeNode.buildAll b trees builder = (.ok nodes, s₁.builder))
    (hemit : emit b e lowering nodes operandType s₁ = (.ok (x, t), s')) (c : CompileState Unit) :
    ∃ tree c', emit TreeNode.builder e lowering trees operandType c = (.ok (tree, t), c') ∧
      tree.build b builder = (.ok x, s'.builder) := by
  rw [emit_eq] at hemit
  obtain ⟨htree, hbuild⟩ := tree_of_ask h ht htrees (.inr ⟨lowering, rfl⟩) hbuild hemit
    (⟨e, lowering, e.loweredType operandType lowering⟩ :: c.log)
  exact ⟨_, _, (emit_eq lowering trees operandType c).trans htree, hbuild⟩

/-- **Trees are folded.** What a compilation makes of an expression is what the builder makes of its
expression tree. -/
theorem build_of_compile (h : e.compile b fields s = (.ok (x, t), s')) (c : CompileState Unit) :
    ∃ tree c', e.compile TreeNode.builder fields c = (.ok (tree, t), c') ∧
      tree.build b s.builder = (.ok x, s'.builder) := by
  induction e generalizing x t s s' c with
  | bound | column | literal => exact build_leaf rfl h c
  | unary op child ih =>
    cases hfound : (unary op child).lookUp fields with
    | error f =>
      rw [compile_of_error hfound] at h
      cases h
    | ok finding =>
      obtain ⟨lowering, hl, rfl⟩ := lookUp_unary_eq_ok hfound
      simp only [compile, hl] at h ⊢
      obtain ⟨⟨y, u⟩, s₁, hy, h⟩ := ExceptT.bind_eq_ok h
      obtain ⟨tree, c₁, htree, hbuild⟩ := ih hy c
      rw [ExceptT.bind_of_ok htree]
      refine build_of_emit hfound (typeOver_unary u hl) rfl ?_ h c₁
      exact ExceptT.bind_of_ok hbuild
  | binary op left right ihl ihr =>
    cases hfound : (binary op left right).lookUp fields with
    | error f =>
      rw [compile_of_error hfound] at h
      cases h
    | ok finding =>
      obtain ⟨lowering, hl, rfl⟩ := lookUp_binary_eq_ok hfound
      simp only [compile, hl] at h ⊢
      obtain ⟨⟨y, u⟩, s₁, hy, h⟩ := ExceptT.bind_eq_ok h
      obtain ⟨⟨z, v⟩, s₂, hz, h⟩ := ExceptT.bind_eq_ok h
      obtain ⟨first, c₁, hfirst, hbuild⟩ := ihl hy c
      obtain ⟨second, c₂, hsecond, hbuild'⟩ := ihr hz c₁
      rw [ExceptT.bind_of_ok hfirst, ExceptT.bind_of_ok hsecond]
      refine build_of_emit hfound (typeOver_binary hl (typeOver_of_compile hy)) rfl ?_ h c₂
      exact (ExceptT.bind_of_ok hbuild).trans (ExceptT.bind_of_ok (ExceptT.bind_of_ok hbuild'))

end Expr

/-! ### The law -/

/-- **Compilations.** Whatever a builder does, a compilation makes the calls of the walk of its
expression, and no others: in the order of `Expr.postorder`, up to the first step of the walk that
fails, each with the nodes made for its operands. Its error is that of the step. If none fails, its
node is that of the last call, and the one that the builder makes of the expression tree of the
expression. -/
theorem compile_trace (b : NodeBuilder σ Node) (fields : List Field) (e : Expr) (s : σ) :
    ∃ requests : List (Request Node),
      e.compile b.recording fields ⟨(s, []), []⟩ =
        ((e.compile b fields ⟨s, []⟩).1, ⟨((e.compile b fields ⟨s, []⟩).2.builder,
          requests.map Request.entry), (e.compile b fields ⟨s, []⟩).2.log⟩) ∧
      requests.map (·.expr) <+: e.postorder ∧ Wired requests ∧
      Trace fields e.walk requests (failureOf (e.compile b fields ⟨s, []⟩).1) ∧
      ∀ x t, (e.compile b fields ⟨s, []⟩).1 = .ok (x, t) →
        Gave [e] requests [x] ∧ ∃ tree, e.toTreeNode fields = .ok (tree, t) ∧
          tree.build b s = (.ok x, (e.compile b fields ⟨s, []⟩).2.builder) := by
  have hwalks : e.Walks b fields ⟨s, []⟩ := e.walks_compile _
  obtain ⟨requests, hwired, htrace, hok, hrecord⟩ := hwalks
  refine ⟨requests, hrecord [], ?_, hwired, htrace, fun x t hx => ⟨(hok x t hx).2, ?_⟩⟩
  · rw [← e.filterMap_walk]
    exact htrace.map_expr
  · obtain ⟨tree, c, htree, hbuild⟩ := Expr.build_of_compile (Prod.ext hx rfl) ⟨(), []⟩
    exact ⟨tree, congrArg Prod.fst htree, hbuild⟩

end Columnar
