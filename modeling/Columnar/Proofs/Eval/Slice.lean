import Columnar.Proofs.Eval.Batch

/-!
# Evaluation on slices

A slice of a batch is a run of its rows. An expression that evaluates on a batch evaluates on every
slice of it, to the same slice of its value (`Executable.evaluate_slice`). This holds although
evaluation looks at whole columns: on a slice the left operand of a conjunction or disjunction may
decide every row where it did not on the batch, and the right one is then left out. But the rows it
decides are the same either way.

The proof is an induction over expressions, with one lemma for each operation on values.
-/

namespace Columnar

/-! ### Slices -/

/-- The slots of a column from a position on, at most as many as given. -/
def Column.slice (start count : Nat) (c : Column) : Column :=
  ⟨c.type, (c.slots.drop start).take count⟩

/-- The rows of a batch from a position on, at most as many as given. -/
def Batch.slice (start count : Nat) (b : Batch) : Batch where
  rows := min count (b.rows - start)
  columns := b.columns.map fun c => { c with column := c.column.slice start count }
  length_eq := by
    intro c hc
    obtain ⟨d, hd, rfl⟩ := List.mem_map.1 hc
    have hlen : d.column.slots.length = b.rows := b.length_eq d hd
    simp [Column.length, Column.slice, hlen]

namespace Batch

variable {b : Batch} {start count : Nat}

@[simp] theorem rows_slice : (b.slice start count).rows = min count (b.rows - start) := rfl

@[simp] theorem types_slice : (b.slice start count).types = b.types := by
  simp [types, slice, Column.slice, Function.comp_def]

@[simp] theorem schema_slice : (b.slice start count).schema = b.schema := by
  simp [schema, slice, NamedColumn.field, Column.slice, Function.comp_def]

theorem column?_slice {index : Nat} {c : Column} (h : b.column? index = some c) :
    (b.slice start count).column? index = some (c.slice start count) := by
  obtain ⟨nc, hnc, rfl⟩ := Option.map_eq_some_iff.1 h
  simp [column?, slice, hnc]

end Batch

namespace Value

/-- A value on a slice of the rows. -/
def slice (start count : Nat) : Value → Value
  | column c => column (c.slice start count)
  | scalar s => scalar s

variable {x y v : Value} {rows start count : Nat}

@[simp] theorem checkType_slice : (x.slice start count).checkType = x.checkType := by
  cases x <;> rfl

/-! ### Operations on values -/

private theorem onRows_slice {t u : ColumnType} {k : Kernel t u} {xs : List (Slot t)}
    {ys : List (Slot u)} {zs : List (Slot k.type)} (h : k.onRows xs ys = .ok zs) :
    k.onRows ((xs.drop start).take count) ((ys.drop start).take count) =
      .ok ((zs.drop start).take count) := by
  rw [Kernel.onRows, List.zip_eq_zipWith, ← List.take_zipWith, ← List.drop_zipWith]
  exact Except.mapM_slice h start count

/-- A kernel goes through on a slice of its operands. -/
theorem combine_slice {kernel : (t u : ColumnType) → Except EvalError (Kernel t u)}
    (h : x.combine kernel y = .ok v) :
    (x.slice start count).combine kernel (y.slice start count) = .ok (v.slice start count) := by
  obtain ⟨_, hx, h⟩ := Except.bind_eq_ok h
  obtain ⟨_, hy, h⟩ := Except.bind_eq_ok h
  unfold combine
  rw [checkType_slice, checkType_slice, hx, hy]
  cases x with
  | column c =>
    cases y with
    | column d =>
      obtain ⟨k, hk, h⟩ := Except.bind_eq_ok h
      obtain ⟨zs, hzs, h⟩ := Except.bind_eq_ok h
      cases h
      simp only [slice, Column.slice, hk, onRows_slice hzs, bind, pure, Except.bind, Except.pure]
    | scalar s =>
      obtain ⟨k, hk, h⟩ := Except.bind_eq_ok h
      obtain ⟨zs, hzs, h⟩ := Except.bind_eq_ok h
      cases h
      have hslice := Except.mapM_slice hzs start count
      simp only [slice, Column.slice, hk, hslice, bind, pure, Except.bind, Except.pure]
  | scalar r =>
    cases y with
    | column d =>
      obtain ⟨k, hk, h⟩ := Except.bind_eq_ok h
      obtain ⟨zs, hzs, h⟩ := Except.bind_eq_ok h
      cases h
      have hslice := Except.mapM_slice hzs start count
      simp only [slice, Column.slice, hk, hslice, bind, pure, Except.bind, Except.pure]
    | scalar s =>
      obtain ⟨k, hk, h⟩ := Except.bind_eq_ok h
      obtain ⟨z, hz, h⟩ := Except.bind_eq_ok h
      cases h
      simp only [slice, hk, hz, bind, pure, Except.bind, Except.pure]

/-- A slice of a value has the slots of the value as a column. -/
theorem toColumn_slice {c : Column} (h : x.toColumn rows = .ok c) :
    (x.slice start count).toColumn (min count (rows - start)) = .ok (c.slice start count) := by
  cases x with
  | column d =>
    cases h
    rfl
  | scalar s =>
    obtain ⟨u, hs, rfl⟩ := Except.map_eq_ok h
    simp [slice, toColumn, Scalar.toColumn, hs, Except.map, Column.slice, Column.replicate]

theorem booleans?_slice {c : Column} {ps : List (Option Bool)} (h : c.booleans? = some ps) :
    (c.slice start count).booleans? = some ((ps.drop start).take count) := by
  obtain ⟨t, slots⟩ := c
  cases t <;> cases h
  rfl

/-- The truth values of a slice. -/
theorem booleans_slice {ps : List (Option Bool)} (h : x.booleans rows = .ok ps) :
    (x.slice start count).booleans (min count (rows - start)) =
      .ok ((ps.drop start).take count) := by
  obtain ⟨c, hc, h⟩ := Except.bind_eq_ok h
  rw [booleans, toColumn_slice hc]
  split at h
  · next hps =>
    cases h
    simp only [bind, Except.bind, booleans?_slice hps]
    rfl
  · cases h

/-- What is one truth value in every row is that in every row of a slice. -/
private theorem isAll_slice {d : Bool} (h : x.isAll d = true) :
    (x.slice start count).isAll d = true := by
  cases x with
  | column c =>
    rw [isAll] at h
    split at h
    · next ps hps =>
      rw [slice, isAll, booleans?_slice hps]
      refine List.all_eq_true.2 fun p hp => List.all_eq_true.1 h p ?_
      exact List.mem_of_mem_drop (List.mem_of_mem_take hp)
    · cases h
  | scalar s => exact h

/-- Only a column can be one truth value in every row of a slice and not in every row. -/
private theorem eq_column_of_isAll_slice {d : Bool} {ps : List (Option Bool)}
    (h : x.booleans rows = .ok ps) (hall : ¬x.isAll d = true)
    (hslice : (x.slice start count).isAll d = true) :
    x = column ⟨.boolean, ps⟩ ∧ ∀ p ∈ (ps.drop start).take count, p = some d := by
  cases x with
  | column c =>
    obtain ⟨_, ⟨⟩, h⟩ := Except.bind_eq_ok h
    split at h
    · next hps =>
      cases h
      cases eq_boolean hps
      exact ⟨rfl, fun p hp => beq_iff_eq.1 (List.all_eq_true.1 hslice p hp)⟩
    · cases h
  | scalar s => exact absurd hslice hall

/-- Negation of a slice. -/
theorem not_slice (h : x.not = .ok v) : (x.slice start count).not = .ok (v.slice start count) := by
  cases x with
  | column c =>
    rw [not] at h
    split at h
    · next ps hps =>
      cases h
      rw [slice, not, booleans?_slice hps]
      simp [slice, Column.slice, List.map_take, List.map_drop]
    · cases h
  | scalar s =>
    obtain ⟨t, _ | a⟩ := s
    · cases h
      rfl
    · cases t <;> cases h
      rfl

/-- The tests for NULL of a slice. -/
theorem testNull_slice (negate : Bool) :
    (x.slice start count).testNull negate = (x.testNull negate).slice start count := by
  cases x with
  | column c => simp [slice, Column.slice, testNull, List.map_take, List.map_drop]
  | scalar s => rfl

end Value

/-! ### Expressions -/

open Value

namespace Executable

/-- A logical operation gives truth values that fit the batch. -/
theorem fits_evaluateLogic {rows : Nat} {decisive : Bool}
    {op : Option Bool → Option Bool → Option Bool} (hop : ∀ p q, op p q = Logic.kleene decisive p q)
    {type : Except EvalError ColumnType} {left v : Value} {right : Except EvalError Value}
    (h : evaluateLogic rows decisive op type left right = .ok v) (hl : left.Fits rows)
    (hr : ∀ r, right = .ok r → r.Fits rows) : v.Fits rows ∧ v.type = .boolean := by
  have hdatum (r : Value) (hright : right = .ok r) :
      r.Fits rows ∧ ∀ i < rows, right.toOption.map (·.datum i) = some (r.datum i) :=
    ⟨hr r hright, fun _ _ => by rw [hright]; rfl⟩
  obtain ⟨hfit, htype, -⟩ := evaluateLogic_eq_ok hop h hl hdatum
  exact ⟨hfit, htype⟩

/-- An expression evaluates to a value that fits the batch. -/
theorem fits_evaluate {x : Executable} {b : Batch} {v : Value} (hv : x.evaluate b = .ok v) :
    v.Fits b.rows := by
  induction x generalizing v with
  | column name index =>
    obtain ⟨c, hc, rfl⟩ := evaluate_column_eq_ok hv
    obtain ⟨nc, hnc, rfl⟩ := Option.map_eq_some_iff.1 hc
    exact b.length_eq nc (List.mem_of_getElem? hnc)
  | constant s =>
    cases hv
    trivial
  | and left right ihl ihr =>
    obtain ⟨l, hl, hv⟩ := Except.bind_eq_ok hv
    exact (fits_evaluateLogic Logic.and_eq_kleene hv (ihl hl) fun r hr => ihr hr).1
  | or left right ihl ihr =>
    obtain ⟨l, hl, hv⟩ := Except.bind_eq_ok hv
    exact (fits_evaluateLogic Logic.or_eq_kleene hv (ihl hl) fun r hr => ihr hr).1
  | compare op left right ihl ihr | arithmetic op left right ihl ihr =>
    obtain ⟨l, hl, hv⟩ := Except.bind_eq_ok hv
    obtain ⟨r, hr, hv⟩ := Except.bind_eq_ok hv
    exact (combine_eq_ok hv (ihl hl) (ihr hr)).1
  | not operand ih =>
    obtain ⟨l, hl, hv⟩ := Except.bind_eq_ok hv
    exact (not_eq_ok hv (ih hl)).1
  | isNull operand ih =>
    obtain ⟨l, hl, hv⟩ := Except.bind_eq_ok hv
    cases hv
    exact (testNull_fits false (ih hl)).1
  | isNotNull operand ih =>
    obtain ⟨l, hl, hv⟩ := Except.bind_eq_ok hv
    cases hv
    exact (testNull_fits true (ih hl)).1

/-- An operation that its left operand decides in every row. -/
theorem zipWith_of_decided {decisive : Bool} {op : Option Bool → Option Bool → Option Bool}
    (hop : ∀ p q, op p q = Logic.kleene decisive p q) {ps qs : List (Option Bool)}
    (hp : ∀ p ∈ ps, p = some decisive) (hlen : ps.length = qs.length) :
    List.zipWith op ps qs = ps := by
  refine List.ext_getElem (by rw [List.length_zipWith, hlen, Nat.min_self]) fun i _ hi => ?_
  rw [List.getElem_zipWith, hp _ (List.getElem_mem hi), hop, Logic.kleene_decided]

private theorem slice_zipWith {op : Option Bool → Option Bool → Option Bool}
    {ps qs : List (Option Bool)} {start count : Nat} :
    (Value.column ⟨.boolean, List.zipWith op ps qs⟩).slice start count = Value.column ⟨.boolean,
      List.zipWith op ((ps.drop start).take count) ((qs.drop start).take count)⟩ := by
  rw [slice, Column.slice, List.drop_zipWith, List.take_zipWith]

/-- **Short circuits on a slice.** A logical operation goes through on a slice of its operands. Its
left operand may decide the rows of the slice where it does not decide all rows; the right one is
then left out, and has no part in these rows otherwise. -/
theorem evaluateLogic_slice {rows start count : Nat} {decisive : Bool}
    {op : Option Bool → Option Bool → Option Bool} (hop : ∀ p q, op p q = Logic.kleene decisive p q)
    {type : Except EvalError ColumnType} {left v : Value} {right right' : Except EvalError Value}
    (h : evaluateLogic rows decisive op type left right = .ok v) (hl : left.Fits rows)
    (hr : ∀ r, right = .ok r → r.Fits rows ∧ right' = .ok (r.slice start count)) :
    evaluateLogic (min count (rows - start)) decisive op type (left.slice start count) right' =
      .ok (v.slice start count) := by
  rw [evaluateLogic] at h ⊢
  split at h
  · next hall =>
    cases h
    rw [if_pos (isAll_slice hall)]
  · next hall =>
    obtain ⟨r, hright, h⟩ := Except.bind_eq_ok h
    obtain ⟨_, htype, h⟩ := Except.bind_eq_ok h
    obtain ⟨ps, hps, h⟩ := Except.bind_eq_ok h
    obtain ⟨qs, hqs, h⟩ := Except.bind_eq_ok h
    cases h
    obtain ⟨hfit, hright'⟩ := hr r hright
    have hlen : ps.length = qs.length := by
      rw [(booleans_eq_ok hps hl).2.1, (booleans_eq_ok hqs hfit).2.1]
    rw [slice_zipWith]
    split
    · next hall' =>
      obtain ⟨rfl, hdecided⟩ := eq_column_of_isAll_slice hps hall hall'
      rw [zipWith_of_decided hop hdecided (by simp [hlen])]
      rfl
    · simp only [hright', htype, booleans_slice hps, booleans_slice hqs, bind, pure, Except.bind,
        Except.pure]

/-- **Evaluation on slices.** What evaluates on a batch does on every slice of it, to the slice of
its value. -/
theorem evaluate_slice {x : Executable} {b : Batch} {v : Value} (hv : x.evaluate b = .ok v)
    (start count : Nat) : x.evaluate (b.slice start count) = .ok (v.slice start count) := by
  induction x generalizing v with
  | column name index =>
    obtain ⟨c, hc, rfl⟩ := evaluate_column_eq_ok hv
    rw [evaluate, Batch.column?_slice hc]
    rfl
  | constant s =>
    cases hv
    rfl
  | and left right ihl ihr =>
    obtain ⟨l, hl, hv⟩ := Except.bind_eq_ok hv
    rw [evaluate, ihl hl, Batch.types_slice]
    exact evaluateLogic_slice Logic.and_eq_kleene hv (fits_evaluate hl) fun r hr =>
      ⟨fits_evaluate hr, ihr hr⟩
  | or left right ihl ihr =>
    obtain ⟨l, hl, hv⟩ := Except.bind_eq_ok hv
    rw [evaluate, ihl hl, Batch.types_slice]
    exact evaluateLogic_slice Logic.or_eq_kleene hv (fits_evaluate hl) fun r hr =>
      ⟨fits_evaluate hr, ihr hr⟩
  | compare op left right ihl ihr | arithmetic op left right ihl ihr =>
    obtain ⟨l, hl, hv⟩ := Except.bind_eq_ok hv
    obtain ⟨r, hr, hv⟩ := Except.bind_eq_ok hv
    rw [evaluate, ihl hl, ihr hr]
    exact combine_slice hv
  | not operand ih =>
    obtain ⟨l, hl, hv⟩ := Except.bind_eq_ok hv
    rw [evaluate, ih hl]
    exact not_slice hv
  | isNull operand ih | isNotNull operand ih =>
    obtain ⟨l, hl, hv⟩ := Except.bind_eq_ok hv
    cases hv
    rw [evaluate, ih hl, ← testNull_slice]
    rfl

/-- The column of an expression on a slice. -/
theorem evaluateColumn_slice {x : Executable} {b : Batch} {c : Column}
    (hc : x.evaluateColumn b = .ok c) (start count : Nat) :
    x.evaluateColumn (b.slice start count) = .ok (c.slice start count) := by
  obtain ⟨v, hv, hc⟩ := Except.bind_eq_ok hc
  rw [evaluateColumn, evaluate_slice hv]
  exact toColumn_slice hc

end Executable

end Columnar
