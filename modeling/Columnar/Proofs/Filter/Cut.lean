import Columnar.Proofs.Eval.Slice
import Columnar.Proofs.Filter

/-!
# Filters and the boundaries of batches

Where the boundaries between batches lie has no influence on what a filter lets through: if it goes
through on a batch, it does on all parts into which the batch is cut, and what it lets through of
them is, one after the other, what it lets through of the batch (`Filter.table_apply_cut`).

The converse does not hold. A conjunction or disjunction leaves out its right operand where the left
one decides every row, so an operand that fails in some row may go unnoticed in a part and not in
the whole.
-/

namespace Columnar

/-- A value that is one truth value in every row. -/
def Value.IsEverywhere (rows : Nat) (d : Bool) (v : Value) : Prop :=
  v.type = .boolean ∧ ∀ i < rows, v.datum i = .ofTruth (some d)

/-- A right operand that fails is left out only if the left one decides every row. -/
private theorem Executable.isEverywhere_of_error {rows : Nat} {decisive : Bool}
    {op : Option Bool → Option Bool → Option Bool} {type : Except EvalError ColumnType}
    {left v : Value} {e : EvalError} (hl : left.Fits rows)
    (h : evaluateLogic rows decisive op type left (.error e) = .ok v) :
    left = v ∧ v.IsEverywhere rows decisive := by
  rw [evaluateLogic] at h
  split at h
  · next hall =>
    cases h
    exact ⟨rfl, Value.isAll_eq_true hall hl⟩
  · cases h

/-! ### Cutting a batch -/

namespace Batch

variable {b : Batch} {start count : Nat}

/-- The parts of a batch from a row on that have the given numbers of rows. -/
def cut (b : Batch) : Nat → List Nat → List Batch
  | _, [] => []
  | start, n :: counts => b.slice start n :: b.cut (start + n) counts

private theorem row_slice {i : Nat} (hi : i < count) :
    (b.slice start count).row i = b.row (start + i) := by
  simp [row, slice, Column.slice, Value.datum, List.getElem?_take_of_lt hi, Function.comp_def]

end Batch

/-! ### Filtering the parts -/

namespace Filter

variable {f : Filter} {b out : Batch} {mask : List (Option Bool)} {start count : Nat}

/-- What goes through has a mask with an entry for each row. -/
private theorem mask_of_apply (h : f.apply b = .ok out) :
    ∃ mask, f.mask b = .ok mask ∧ mask.length = b.rows := by
  obtain ⟨mask, hmask, h⟩ := Except.bind_eq_ok h
  dsimp only at h
  split at h
  · next hlen => exact ⟨mask, hmask, by rwa [List.length_map] at hlen⟩
  · cases h

/-- The mask on a slice. -/
private theorem mask_slice (h : f.mask b = .ok mask) (start count : Nat) :
    f.mask (b.slice start count) = .ok ((mask.drop start).take count) := by
  obtain ⟨c, hc, h⟩ := Except.bind_eq_ok h
  have hslice := Executable.evaluateColumn_slice (Except.mapError_eq_ok hc) start count
  split at h
  · next hps =>
    cases h
    rw [Filter.mask, hslice]
    simp only [Except.mapError_ok, bind, Except.bind, Value.booleans?_slice hps]
    rfl
  · cases h

/-- A mask lets through the rows that it marks. -/
private theorem table_of_mask (hm : f.mask b = .ok mask) (hl : mask.length = b.rows) :
    ∃ out, f.apply b = .ok out ∧ out.schema = b.schema ∧
      out.table = ((List.range b.rows).filter fun i => mask[i]? == some (some true)).map b.row := by
  have hmap : mask.map (· == some true) =
      (List.range b.rows).map fun i => mask[i]? == some (some true) := by
    refine List.ext_getElem (by simp [hl]) fun i hi _ => ?_
    rw [List.length_map] at hi
    simp [List.getElem?_eq_getElem hi]
  have hlen : (mask.map (· == some true)).length = b.rows := by rw [List.length_map, hl]
  refine ⟨_, apply_of_mask hm hlen, ?_, ?_⟩
  · simp [Batch.schema, Batch.filter, Column.filter, NamedColumn.field]
  · -- The rows that are kept are now named by the mask at a position.
    generalize mask.map (· == some true) = m at hmap hlen
    subst hmap
    exact Batch.table_filter _ hlen

/-- A slice lets through the rows of it that the mask of the batch marks. -/
theorem table_apply_slice (hm : f.mask b = .ok mask) (hl : mask.length = b.rows)
    (hcount : start + count ≤ b.rows) :
    ∃ out, f.apply (b.slice start count) = .ok out ∧ out.schema = b.schema ∧ out.table =
      ((List.range' start count).filter fun i => mask[i]? == some (some true)).map b.row := by
  obtain ⟨out, hout, hschema, htable⟩ :=
    table_of_mask (mask_slice hm start count) (by simp [hl])
  refine ⟨out, hout, by rw [hschema, Batch.schema_slice], ?_⟩
  have hrows : min count (b.rows - start) = count := by omega
  rw [htable, Batch.rows_slice, hrows, List.range'_eq_map_range, List.filter_map, List.map_map]
  have hmark (i : Nat) (hi : i ∈ List.range count) :
      (((mask.drop start).take count)[i]? == some (some true)) =
        (mask[start + i]? == some (some true)) := by
    rw [List.getElem?_take_of_lt (List.mem_range.1 hi), List.getElem?_drop]
  rw [List.filter_congr hmark]
  refine List.map_congr_left fun i hi => ?_
  exact Batch.row_slice (List.mem_range.1 (List.mem_filter.1 hi).1)

/-- The parts of a batch from a row on let through, one after the other, the rows from there on that
the mask of the batch marks. -/
theorem table_apply_parts (hm : f.mask b = .ok mask) (hl : mask.length = b.rows) {counts : List Nat}
    (hcounts : start + counts.sum ≤ b.rows) :
    ∃ outs, (b.cut start counts).mapM f.apply = .ok outs ∧ (∀ o ∈ outs, o.schema = b.schema) ∧
      outs.flatMap Batch.table =
        ((List.range' start counts.sum).filter fun i =>
          mask[i]? == some (some true)).map b.row := by
  induction counts generalizing start with
  | nil => exact ⟨[], rfl, nofun, rfl⟩
  | cons n counts ih =>
    rw [List.sum_cons] at hcounts ⊢
    obtain ⟨out, hout, hschema, htable⟩ :=
      f.table_apply_slice hm hl (by omega : start + n ≤ b.rows)
    obtain ⟨outs, houts, hschemas, htables⟩ := ih (by omega : start + n + counts.sum ≤ b.rows)
    refine ⟨out :: outs, ?_, List.forall_mem_cons.2 ⟨hschema, hschemas⟩, ?_⟩
    · rw [Batch.cut, List.mapM_cons, hout, houts]
      rfl
    · rw [List.flatMap_cons, htable, htables, ← List.map_append, ← List.filter_append,
        List.range'_append_1]

/-- **Results do not depend on the boundaries of batches.** If a filter goes through on a batch, it
goes through on all parts into which the batch is cut, and what comes out of the parts has the
schema of what comes out of the batch and, one part after the other, its rows. The right operand of
a conjunction or disjunction that is evaluated, on a batch or a part of it, may fail only where the
left one decides every row. -/
theorem table_apply_cut (h : f.apply b = .ok out) {counts : List Nat}
    (hcounts : counts.sum = b.rows) :
    (∃ outs, (b.cut 0 counts).mapM f.apply = .ok outs ∧ (∀ o ∈ outs, o.schema = out.schema) ∧
      outs.flatMap Batch.table = out.table) ∧
    ∀ (part : Batch) (left right : Executable) (v : Value) (e : EvalError),
      right.evaluate part = .error e →
        ((left.and right).evaluate part = .ok v →
          left.evaluate part = .ok v ∧ v.IsEverywhere part.rows false) ∧
        ((left.or right).evaluate part = .ok v →
          left.evaluate part = .ok v ∧ v.IsEverywhere part.rows true) := by
  constructor
  · obtain ⟨mask, hm, hl⟩ := mask_of_apply h
    obtain ⟨out', hout, hschema, htable⟩ := table_of_mask hm hl
    obtain rfl : out' = out := Except.ok.inj (hout.symm.trans h)
    obtain ⟨outs, houts, hschemas, htables⟩ :=
      f.table_apply_parts hm hl (by omega : 0 + counts.sum ≤ b.rows)
    refine ⟨outs, houts, fun o ho => (hschemas o ho).trans hschema.symm, ?_⟩
    rw [htables, htable, hcounts, List.range_eq_range']
  · intro part left right v e hright
    constructor
    all_goals
      intro hv
      obtain ⟨l, hl, hv⟩ := Except.bind_eq_ok hv
      rw [hright] at hv
      obtain ⟨rfl, hdecided⟩ := Executable.isEverywhere_of_error (Executable.fits_evaluate hl) hv
      exact ⟨hl, hdecided⟩

/-- A division that the part with a negative divisor leaves out. -/
theorem table_apply_cut_divide :
    let fields : List Field := [⟨"a", .int64, true⟩]
    let a : Expr := .column "a"
    let condition : Expr := .binary .and (.binary .less (.literal (.int64 0)) a)
      (.binary .less (.binary .divide (.literal (.int64 6)) a) (.literal (.int64 4)))
    let x : Executable := .column "a" 0
    let f : Filter := ⟨condition, .and (.compare .less (.constant (.ofLiteral (.int64 0))) x)
      (.compare .less (.arithmetic .divide (.constant (.ofLiteral (.int64 6))) x)
        (.constant (.ofLiteral (.int64 4))))⟩
    let b : Batch := ⟨3, [⟨"a", true, ⟨.int64, [some (-1), some 1, some 2]⟩⟩], by decide⟩
    ofCondition condition fields = .ok f ∧ ∃ out, f.apply b = .ok out ∧ [1, 2].sum = b.rows ∧
      ∃ outs, (b.cut 0 [1, 2]).mapM f.apply = .ok outs ∧ outs.flatMap Batch.table = out.table ∧
        out.table = [[some ⟨.int64, 2⟩]] := by
  intro fields a condition x f b
  have h : f.apply b = .ok (b.filter [false, false, true] (by decide)) := rfl
  obtain ⟨⟨outs, houts, -, htable⟩, -⟩ := table_apply_cut h (by decide : [1, 2].sum = b.rows)
  exact ⟨rfl, _, h, by decide, outs, houts, htable, rfl⟩

end Filter

end Columnar
