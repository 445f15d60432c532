import Columnar.Eval.Executable
import Columnar.Proofs.Eval.Type

/-!
# What filters keep

A filter evaluates its condition on whole batches, and the outcome is a matter of rows: the mask has
the truth value of the condition in each row, and the batch that comes out has the rows where that
is truth, in their order (`Filter.table_apply`). Neither of the errors for a mask that is none can
occur: a condition that has the type of truth values, and evaluates, evaluates to one truth value
for each row.
-/

namespace Columnar

/-- A row of a batch: a datum for each column. -/
def Batch.row (b : Batch) (i : Nat) : List Datum :=
  b.columns.map fun c => (Value.column c.column).datum i

/-- The rows of a batch, in order. -/
def Batch.table (b : Batch) : List (List Datum) :=
  (List.range b.rows).map b.row

/-- The numbers of the rows in which an expression is true, in order. -/
def Expr.trueRows (fields : List Field) (b : Batch) (e : Expr) : List Nat :=
  (List.range b.rows).filter fun i => e.valueAt fields b i == some (.ofTruth (some true))

/-! ### Filtering a batch -/

private theorem filter_zip_map {ι α : Type} (is : List ι) (f : ι → α) (m : ι → Bool) :
    (((is.map f).zip (is.map m)).filter (·.2)).map (·.1) = (is.filter m).map f := by
  simp [List.zip_map', List.filter_map, Function.comp_def]

/-- The slots that are kept of a column, as data. -/
private theorem Column.map_filter {c : Column} {n : Nat} (hl : c.slots.length = n)
    (m : Nat → Bool) :
    (c.filter ((List.range n).map m)).slots.map Datum.ofSlot =
      ((List.range n).filter m).map fun i => (Value.column c).datum i := by
  have hslots : c.slots.map Datum.ofSlot =
      (List.range n).map fun i => (Value.column c).datum i := by
    refine List.ext_getElem (by simp [hl]) fun i hi _ => ?_
    rw [List.length_map] at hi
    simp [Value.datum, List.getElem?_eq_getElem hi]
  rw [← filter_zip_map, ← hslots, filter]
  simp [List.zip_map_left, List.filter_map, Function.comp_def]

/-- The rows that are kept of a batch. -/
theorem Batch.table_filter {b : Batch} (m : Nat → Bool)
    (h : ((List.range b.rows).map m).length = b.rows) :
    (b.filter ((List.range b.rows).map m) h).table = ((List.range b.rows).filter m).map b.row := by
  have hrows : ((List.range b.rows).map m).countP id = ((List.range b.rows).filter m).length := by
    rw [List.countP_map, List.countP_eq_length_filter]
    rfl
  refine List.ext_getElem (by simp [table, filter, hrows]) fun j hj hj' => ?_
  rw [List.length_map] at hj'
  simp only [table, row, filter, List.getElem_map, List.getElem_range, List.map_map]
  refine List.map_congr_left fun c hc => ?_
  have hmap := congrArg (·[j]?) (c.column.map_filter (b.length_eq c hc) m)
  simp only [List.getElem?_map, List.getElem?_eq_getElem hj', Option.map_some] at hmap
  obtain ⟨slot, hslot, hdatum⟩ := Option.map_eq_some_iff.1 hmap
  rw [← hdatum, Function.comp_apply, Value.datum, hslot]
  rfl

/-! ### Masks -/

namespace Filter

variable {condition : Expr} {fields : List Field} {f : Filter} {b : Batch}

theorem ofCondition_eq_ok (h : ofCondition condition fields = .ok f) :
    Compiled fields condition f.predicate .boolean := by
  obtain ⟨⟨x, t⟩, hx, h⟩ := Except.bind_eq_ok h
  dsimp only at h
  split at h
  · next ht =>
    cases h
    exact ht ▸ Expr.compiled_of_toExecutable hx
  · cases h

/-- A predicate that evaluates gives one truth value for each row: that of the condition there. -/
private theorem mask_of_evaluateColumn (hf : ofCondition condition fields = .ok f)
    (hw : fields.length ≤ 2 ^ 64) (ha : condition.IsAnalysed fields)
    (hb : b.types = fields.map (·.type.stored)) {c : Column}
    (hc : f.predicate.evaluateColumn b = .ok c) :
    ∃ mask, c = ⟨.boolean, mask⟩ ∧ f.mask b = .ok mask ∧ mask.length = b.rows ∧
      ∀ (i : Nat) p, mask[i]? = some p → condition.valueAt fields b i = some (.ofTruth p) := by
  have hcompiled := ofCondition_eq_ok hf
  obtain ⟨v, hv, hcolumn⟩ := Except.bind_eq_ok hc
  obtain ⟨hfit, hrow⟩ := hcompiled.datum_evaluate hw hv
  have htype := hcompiled.of_kernelType hw ha (hcompiled.kernelType_evaluateColumn hw hb hc)
  have hbool : c.type = .boolean := by split at htype <;> exact htype
  -- So the column holds truth values, and the mask is its slots.
  obtain ⟨t, slots⟩ := c
  cases hbool
  have hmask : f.mask b = .ok slots := by
    rw [mask, hc]
    rfl
  have hps : v.booleans b.rows = .ok slots := by
    rw [Value.booleans, hcolumn]
    rfl
  obtain ⟨-, hlen, hp⟩ := Value.booleans_eq_ok hps hfit
  refine ⟨slots, rfl, hmask, hlen, fun i p hi => ?_⟩
  have hlt : i < b.rows := hlen ▸ (List.getElem?_eq_some_iff.1 hi).1
  obtain ⟨q, hq, hdatum⟩ := hp i hlt
  rw [hrow i hlt, hdatum, Option.some.inj (hi.symm.trans hq)]

/-- A mask of the right length goes through. -/
theorem apply_of_mask {mask : List (Option Bool)} (hm : f.mask b = .ok mask)
    (h : (mask.map (· == some true)).length = b.rows) :
    f.apply b = .ok (b.filter (mask.map (· == some true)) h) := by
  rw [apply, hm]
  exact dif_pos h

/-- The mask of a predicate that evaluates marks the rows in which the condition is true. -/
private theorem map_mask {mask : List (Option Bool)} (hl : mask.length = b.rows)
    (hp : ∀ (i : Nat) p, mask[i]? = some p → condition.valueAt fields b i = some (.ofTruth p)) :
    mask.map (· == some true) =
      (List.range b.rows).map fun i =>
        condition.valueAt fields b i == some (.ofTruth (some true)) := by
  refine List.ext_getElem (by simp [hl]) fun i hi _ => ?_
  rw [List.length_map] at hi
  rw [List.getElem_map, List.getElem_map, List.getElem_range, hp i _ (List.getElem?_eq_getElem hi)]
  rw [Bool.eq_iff_iff, beq_iff_eq, beq_iff_eq, Option.some_inj, Datum.ofTruth_inj]

/-- **Filters keep the rows where their condition is true.** If the predicate of a filter evaluates
on a batch of the columns it was made for, then to a column of truth values with one slot for each
row, that of the condition in that row; and the filter goes through. What it lets through has the
schema of the batch and of its rows exactly those where the condition is true, in order. Positions
are 64-bit numbers, which all fields have. -/
theorem table_apply (hf : ofCondition condition fields = .ok f) (hw : fields.length ≤ 2 ^ 64)
    (ha : condition.IsAnalysed fields) (hb : b.types = fields.map (·.type.stored)) :
    (∀ c, f.predicate.evaluateColumn b = .ok c →
      (∃ mask, c = ⟨.boolean, mask⟩ ∧ f.mask b = .ok mask ∧ mask.length = b.rows ∧
        ∀ (i : Nat) p, mask[i]? = some p → condition.valueAt fields b i = some (.ofTruth p)) ∧
      ∃ out, f.apply b = .ok out) ∧
    ∀ out, f.apply b = .ok out →
      out.schema = b.schema ∧ out.rows = (condition.trueRows fields b).length ∧
        out.table = (condition.trueRows fields b).map b.row := by
  constructor
  · intro c hc
    obtain ⟨mask, hcol, hmask, hlen, hp⟩ := mask_of_evaluateColumn hf hw ha hb hc
    exact ⟨⟨mask, hcol, hmask, hlen, hp⟩, _, apply_of_mask hmask (by rw [List.length_map, hlen])⟩
  · intro out hout
    obtain ⟨_, hmask, -⟩ := Except.bind_eq_ok hout
    obtain ⟨c, hc, -⟩ := Except.bind_eq_ok hmask
    obtain ⟨mask, -, hmask, hlen, hp⟩ :=
      mask_of_evaluateColumn hf hw ha hb (Except.mapError_eq_ok hc)
    have hmap := map_mask hlen hp
    have hlen' : (mask.map (· == some true)).length = b.rows := by rw [List.length_map, hlen]
    rw [apply_of_mask hmask hlen'] at hout
    cases hout
    -- The rows that are kept are now named by the condition, no longer by the mask.
    generalize mask.map (· == some true) = m at hmap hlen'
    subst hmap
    have htable := Batch.table_filter _ hlen'
    refine ⟨?_, ?_, htable⟩
    · simp [Batch.schema, Batch.filter, Column.filter, NamedColumn.field]
    · simpa [Batch.table, Expr.trueRows] using congrArg List.length htable

/-- A comparison with a constant, on a batch that holds NULL. -/
theorem table_apply_less :
    let fields : List Field := [⟨"a", .int64, true⟩]
    let condition : Expr := .binary .less (.literal (.int64 1)) (.bound 0 .int64 true)
    let f : Filter :=
      ⟨condition, .compare .less (.constant (.ofLiteral (.int64 1))) (.column "a" 0)⟩
    let b : Batch := ⟨3, [⟨"a", true, ⟨.int64, [some 2, none, some 1]⟩⟩], by decide⟩
    ofCondition condition fields = .ok f ∧ fields.length ≤ 2 ^ 64 ∧ condition.IsAnalysed fields ∧
      b.types = fields.map (·.type.stored) ∧
      ∃ out, f.apply b = .ok out ∧ out.schema = b.schema ∧ out.table = [[some ⟨.int64, 2⟩]] := by
  intro fields condition f b
  have hf : ofCondition condition fields = .ok f := rfl
  have hw : fields.length ≤ 2 ^ 64 := by decide
  have ha : condition.IsAnalysed fields := by
    refine ⟨trivial, fun g hg => ?_⟩
    cases hg
    rfl
  have hb : b.types = fields.map (·.type.stored) := rfl
  obtain ⟨hmask, hout⟩ := table_apply hf hw ha hb
  obtain ⟨-, out, happly⟩ := hmask ⟨.boolean, [some true, none, some false]⟩ rfl
  obtain ⟨hschema, -, htable⟩ := hout out happly
  exact ⟨hf, hw, ha, hb, out, happly, hschema, htable⟩

end Filter

end Columnar
