import Columnar.Proofs.Eval.Batch

/-!
# Types of evaluated expressions

Kernels choose the types of their results by the types of their operands, and nothing else does:
what a compilation says of the type of an expression does not take part in its evaluation. So the
type of a value can be told from the fields alone (`Expr.kernelType`), and the question is when it
is the one that the compilation has found.

It is for references, constants and truth values, and for arithmetic on integers and floating-point
numbers, which stays in the type of its operands. Arithmetic on decimals follows
`Arithmetic.decimalRule` instead, and differences of dates or points in time are durations, for
which there is no data type (`DataType.Yields`).

Main statement: `Expr.type_evaluateColumn`.
-/

namespace Columnar

/-! ### Types of kernels -/

theorem Comparison.type_kernel {c : Comparison} {t u : ColumnType} {k : Kernel t u}
    (h : c.kernel t u = .ok k) : k.type = .boolean := by
  rw [kernel] at h
  split at h <;> cases h
  rfl

namespace Arithmetic

/-- The types of two operands that arithmetic takes, and of what it gives. -/
inductive Takes : ColumnType → ColumnType → ColumnType → Prop where
  /-- Integers and floating-point numbers of one type. -/
  | number {t : ColumnType} (h : t ∈ ColumnType.numericRanks) : Takes t t t
  /-- Decimals. -/
  | decimal {p q r : UInt8} {s t u : Int8} :
      Takes (.decimal128 p s) (.decimal128 q t) (.decimal128 r u)
  /-- The difference of two dates. -/
  | dates : Takes .date32 .date32 (.duration .second)
  /-- The difference of two points in time. -/
  | times : Takes .timestampMicros .timestampMicros (.duration .microsecond)
  /-- A point in time and a duration. -/
  | timeDuration : Takes .timestampMicros (.duration .microsecond) .timestampMicros
  /-- A duration and a point in time. -/
  | durationTime : Takes (.duration .microsecond) .timestampMicros .timestampMicros
  /-- Durations of one unit. -/
  | durations {v : TimeUnit} : Takes (.duration v) (.duration v) (.duration v)

variable {op : Arithmetic} {t u : ColumnType} {k : Kernel t u}

private theorem takes_of_decimalKernel {p q : UInt8} {s t : Int8}
    {k : Kernel (.decimal128 p s) (.decimal128 q t)} (h : op.decimalKernel p s q t = .ok k) :
    Takes (.decimal128 p s) (.decimal128 q t) k.type := by
  obtain ⟨left, -, h⟩ := Except.bind_eq_ok h
  obtain ⟨right, -, h⟩ := Except.bind_eq_ok h
  split at h <;> cases h
  exact .decimal

/-- **Inversion.** The kernels of arithmetic are those for the types that it takes. -/
theorem takes_of_kernel (h : op.kernel t u = .ok k) : Takes t u k.type := by
  cases t with
  | decimal128 p s =>
    cases u with
    | decimal128 q t => exact takes_of_decimalKernel h
    | _ => cases h
  | date32 =>
    cases u with
    | date32 =>
      cases op <;> cases h
      exact .dates
    | _ => cases h
  | timestampMicros =>
    cases u with
    | timestampMicros =>
      cases op <;> cases h
      exact .times
    | duration v => cases v <;> cases op <;> cases h <;> exact .timeDuration
    | _ => cases h
  | duration v =>
    cases u with
    | timestampMicros => cases v <;> cases op <;> cases h; exact .durationTime
    | duration w => cases v <;> cases w <;> cases op <;> cases h <;> exact .durations
    | _ => cases v <;> cases h
  -- Numbers, and what arithmetic does not take.
  | _ => cases u <;> cases h <;> exact .number (by decide)

private theorem kernelType_eq_some {v : ColumnType} (h : (op.kernelType t u).toOption = some v) :
    ∃ k, op.kernel t u = .ok k ∧ k.type = v := by
  rw [kernelType] at h
  cases hk : op.kernel t u with
  | error e => rw [hk] at h; cases h
  | ok k =>
    rw [hk] at h
    exact ⟨k, rfl, Option.some.inj h⟩

end Arithmetic

/-! ### Types of expressions -/

/-- What arithmetic gives if its left operand has a data type, on its own or after arithmetic.
Numbers keep their type. Decimals become decimals of other parameters, dates become durations, and
points in time may. -/
def DataType.Yields : DataType → ColumnType → Prop
  | decimal128 _ _, u => ∃ p s, u = .decimal128 p s
  | date32, u => u = .duration .second
  | timestampMicros, u => u = .timestampMicros ∨ u = .duration .microsecond
  | d, u => u = d.stored

theorem Arithmetic.Takes.yields {d : DataType} {t u v : ColumnType} (h : Takes t u v)
    (ht : t = d.stored ∨ d.Yields t) : d.Yields v := by
  cases d with
  | decimal128 p s =>
    obtain ⟨q, r, rfl⟩ : ∃ q r, t = .decimal128 q r := ht.elim (fun ht => ⟨p, s, ht⟩) id
    cases h with
    | number h => simp [ColumnType.numericRanks] at h
    | decimal => exact ⟨_, _, rfl⟩
  | date32 =>
    rcases ht with rfl | rfl <;> cases h
    case inl.number h | inr.number h => exact absurd h (by decide)
    case inl.dates | inr.durations => rfl
  | timestampMicros =>
    rcases ht with rfl | rfl | rfl <;> cases h
    case inl.number h | inr.inl.number h | inr.inr.number h => exact absurd h (by decide)
    case inl.times | inr.inl.times | inr.inr.durations => exact .inr rfl
    case inl.timeDuration | inr.inl.timeDuration | inr.inr.durationTime => exact .inl rfl
  | _ =>
    obtain rfl := ht.elim id id
    cases h
    rfl

namespace Expr

/-- Whether an expression is an arithmetic operation. -/
def isArithmetic : Expr → Bool
  | binary op _ _ => op.arithmetic?.isSome
  | _ => false

/-- The type that the kernels give an expression over columns of the types of the fields. -/
def kernelType (fields : List Field) : Expr → Option ColumnType
  | bound ordinal _ _ => (fields[ordinal.toNat]?).map (·.type.stored)
  | column name => do (fields[← fields.findIdx? (·.name == name)]?).map (·.type.stored)
  | literal value => some value.type.stored
  | binary op left right =>
    match op.arithmetic? with
    | some a => do (a.kernelType (← kernelType fields left) (← kernelType fields right)).toOption
    | none => some .boolean
  | unary _ _ => some .boolean

end Expr

@[simp] theorem Scalar.type_ofLiteral (value : Literal) :
    (Scalar.ofLiteral value).type = value.type.stored := by
  cases value <;> rfl

/-- A column of a batch has the type of the field at its position. -/
private theorem Batch.type_of_column? {b : Batch} {fields : List Field}
    (hb : b.types = fields.map (·.type.stored)) {index : Nat} {c : Column}
    (hc : b.column? index = some c) : (fields[index]?).map (·.type.stored) = some c.type := by
  rw [← List.getElem?_map, ← hb, types, List.getElem?_map]
  obtain ⟨nc, hnc, rfl⟩ := Option.map_eq_some_iff.1 hc
  rw [hnc]
  rfl

/-- The column of a value has its type. -/
theorem Value.type_toColumn {v : Value} {rows : Nat} {c : Column} (h : v.toColumn rows = .ok c) :
    c.type = v.type := by
  cases v with
  | column d =>
    cases h
    rfl
  | scalar s =>
    obtain ⟨-, -, rfl⟩ := Except.map_eq_ok h
    rfl

namespace Compiled

variable {fields : List Field} {e : Expr} {x : Executable} {t : DataType}

/-- **Kernels choose the types.** The type of a value is the one that the kernels give the
expression, whatever the compilation has found. -/
theorem kernelType_evaluate (h : Compiled fields e x t) (hw : fields.length ≤ 2 ^ 64) {b : Batch}
    (hb : b.types = fields.map (·.type.stored)) {v : Value} (hv : x.evaluate b = .ok v) :
    e.kernelType fields = some v.type := by
  induction h generalizing v with
  | bound =>
    obtain ⟨c, hc, rfl⟩ := Executable.evaluate_column_eq_ok hv
    exact Batch.type_of_column? hb hc
  | column hf =>
    obtain ⟨hidx, -, hpos⟩ := findIdx?_eq hf hw
    obtain ⟨c, hc, rfl⟩ := Executable.evaluate_column_eq_ok hv
    rw [hpos] at hc
    rw [Expr.kernelType, hidx]
    exact Batch.type_of_column? hb hc
  | literal =>
    cases hv
    exact congrArg some (Scalar.type_ofLiteral _).symm
  | and hx hy =>
    obtain ⟨l, hl, hv⟩ := Except.bind_eq_ok hv
    obtain ⟨-, htype, -⟩ := Executable.evaluateLogic_eq_ok Logic.and_eq_kleene hv
      (hx.datum_evaluate hw hl).1 fun r hr => hy.datum_evaluate hw hr
    rw [htype]
    rfl
  | or hx hy =>
    obtain ⟨l, hl, hv⟩ := Except.bind_eq_ok hv
    obtain ⟨-, htype, -⟩ := Executable.evaluateLogic_eq_ok Logic.or_eq_kleene hv
      (hx.datum_evaluate hw hl).1 fun r hr => hy.datum_evaluate hw hr
    rw [htype]
    rfl
  | @compare op c left right x y t u hop hx hy =>
    obtain ⟨l, hl, hv⟩ := Except.bind_eq_ok hv
    obtain ⟨r, hr, hv⟩ := Except.bind_eq_ok hv
    obtain ⟨-, ⟨k, hk, htype⟩, -⟩ :=
      Value.combine_eq_ok hv (hx.datum_evaluate hw hl).1 (hy.datum_evaluate hw hr).1
    rw [htype, Comparison.type_kernel hk]
    cases op <;> cases hop <;> rfl
  | arithmetic hop hx hy ihx ihy =>
    obtain ⟨l, hl, hv⟩ := Except.bind_eq_ok hv
    obtain ⟨r, hr, hv⟩ := Except.bind_eq_ok hv
    obtain ⟨-, ⟨k, hk, htype⟩, -⟩ :=
      Value.combine_eq_ok hv (hx.datum_evaluate hw hl).1 (hy.datum_evaluate hw hr).1
    simp [Expr.kernelType, hop, ihx hl, ihy hr, Arithmetic.kernelType, hk, htype, Except.map,
      Except.toOption]
  | not hx =>
    obtain ⟨l, hl, hv⟩ := Except.bind_eq_ok hv
    obtain ⟨-, htype, -⟩ := Value.not_eq_ok hv (hx.datum_evaluate hw hl).1
    rw [htype]
    rfl
  | isNull hx =>
    obtain ⟨l, hl, hv⟩ := Except.bind_eq_ok hv
    cases hv
    rw [(Value.testNull_fits false (hx.datum_evaluate hw hl).1).2.1]
    rfl
  | isNotNull hx =>
    obtain ⟨l, hl, hv⟩ := Except.bind_eq_ok hv
    cases hv
    rw [(Value.testNull_fits true (hx.datum_evaluate hw hl).1).2.1]
    rfl

/-- The type that the kernels give an expression, beside the one that was found for it. -/
theorem of_kernelType (h : Compiled fields e x t) (hw : fields.length ≤ 2 ^ 64)
    (ha : e.IsAnalysed fields) {u : ColumnType} (hu : e.kernelType fields = some u) :
    if e.isArithmetic then t.Yields u else u = t.stored := by
  induction h generalizing u with
  | bound hf =>
    rw [Expr.kernelType, hf] at hu
    rw [ha _ hf]
    exact (Option.some.inj hu).symm
  | column hf =>
    obtain ⟨hidx, hget, -⟩ := findIdx?_eq hf hw
    simp only [Expr.kernelType, hidx, Option.bind_eq_bind, Option.bind_some, hget] at hu
    exact (Option.some.inj hu).symm
  | literal => exact (Option.some.inj hu).symm
  | and | or | not | isNull | isNotNull => exact (Option.some.inj hu).symm
  | @compare op c left right x y t u hop =>
    cases op <;> cases hop <;> exact (Option.some.inj hu).symm
  | @arithmetic op a left right x y t _ hop hx hy ihx ihy =>
    simp only [Expr.isArithmetic, hop, Option.isSome_some, if_true]
    simp only [Expr.kernelType, hop, Option.bind_eq_bind] at hu
    obtain ⟨v, hv, hu⟩ := Option.bind_eq_some_iff.1 hu
    obtain ⟨w, -, hu⟩ := Option.bind_eq_some_iff.1 hu
    obtain ⟨k, hk, rfl⟩ := Arithmetic.kernelType_eq_some hu
    rw [hx.getD_type?]
    refine (Arithmetic.takes_of_kernel hk).yields ?_
    -- The left operand is arithmetic too, or has the type that was found for it.
    have hleft := ihx ha.1 hv
    split at hleft
    · exact .inr hleft
    · exact .inl hleft

/-- The type of a column that is evaluated is the one that the kernels give the expression. -/
theorem kernelType_evaluateColumn (h : Compiled fields e x t) (hw : fields.length ≤ 2 ^ 64)
    {b : Batch} (hb : b.types = fields.map (·.type.stored)) {c : Column}
    (hc : x.evaluateColumn b = .ok c) : e.kernelType fields = some c.type := by
  obtain ⟨v, hv, hc⟩ := Except.bind_eq_ok hc
  rw [h.kernelType_evaluate hw hb hv, Value.type_toColumn hc]

end Compiled

namespace Expr

/-- **Types of evaluated expressions.** An expression that is compiled over some fields, and
evaluates on a batch of their types, gives a column of the type that the kernels choose. This is the
type that the compilation has found, unless the expression is arithmetic; and then too for integers
and floating-point numbers. Decimals come out as decimals of other parameters, and dates and points
in time as durations, or the latter as themselves. References must declare the types of their
fields, and positions are 64-bit numbers, which all fields have. -/
theorem type_evaluateColumn {fields : List Field} {e : Expr} {x : Executable} {t : DataType}
    (hx : e.toExecutable fields = .ok (x, t)) (hw : fields.length ≤ 2 ^ 64)
    (ha : e.IsAnalysed fields) {b : Batch} (hb : b.types = fields.map (·.type.stored)) {c : Column}
    (hc : x.evaluateColumn b = .ok c) :
    e.kernelType fields = some c.type ∧
      if e.isArithmetic then t.Yields c.type else c.type = t.stored := by
  have hcompiled := compiled_of_toExecutable hx
  have htype := hcompiled.kernelType_evaluateColumn hw hb hc
  exact ⟨htype, hcompiled.of_kernelType hw ha htype⟩

/-- The difference of two dates. -/
theorem type_evaluateColumn_dates :
    let fields : List Field := [⟨"d", .date32, true⟩]
    let e : Expr := .binary .subtract (.column "d") (.bound 0 .date32 true)
    let x : Executable := .arithmetic .subtract (.column "d" 0) (.column "d" 0)
    let b : Batch := ⟨1, [⟨"d", true, ⟨.date32, [some 5]⟩⟩], by decide⟩
    e.toExecutable fields = .ok (x, .date32) ∧ fields.length ≤ 2 ^ 64 ∧ e.IsAnalysed fields ∧
      b.types = fields.map (·.type.stored) ∧
      ∃ c, x.evaluateColumn b = .ok c ∧ c.type = .duration .second := by
  intro fields e x b
  have hx : e.toExecutable fields = .ok (x, .date32) := rfl
  have hw : fields.length ≤ 2 ^ 64 := by decide
  have ha : e.IsAnalysed fields := by
    refine ⟨trivial, fun f hf => ?_⟩
    cases hf
    rfl
  have hb : b.types = fields.map (·.type.stored) := rfl
  have hc : x.evaluateColumn b = .ok ⟨.duration .second, [some 0]⟩ := rfl
  exact ⟨hx, hw, ha, hb, _, hc, (type_evaluateColumn hx hw ha hb hc).2⟩

/-- The sum of two decimals has a digit more than what the compilation has found for it. -/
theorem type_evaluateColumn_ne_decimals :
    let t : DataType := .decimal128 10 2
    let fields : List Field := [⟨"d", t, true⟩]
    let e : Expr := .binary .add (.bound 0 t true) (.bound 0 t true)
    let x : Executable := .arithmetic .add (.column "d" 0) (.column "d" 0)
    let b : Batch := ⟨1, [⟨"d", true, ⟨.decimal128 10 2, [some 100]⟩⟩], by decide⟩
    e.toExecutable fields = .ok (x, t) ∧ e.IsAnalysed fields ∧
      b.types = fields.map (·.type.stored) ∧
      x.evaluateColumn b = .ok ⟨.decimal128 11 2, [some 200]⟩ ∧ .decimal128 11 2 ≠ t.stored := by
  intro t fields e x b
  have ha : e.IsAnalysed fields := by
    constructor <;> rintro f ⟨⟩ <;> rfl
  exact ⟨rfl, ha, rfl, rfl, by decide⟩

end Expr

end Columnar
