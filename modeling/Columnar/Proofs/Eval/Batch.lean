import Columnar.Proofs.Compile.Executable
import Columnar.Proofs.Eval.Row
import Columnar.Proofs.Except

/-!
# Evaluation on batches, row by row

Evaluation works on whole columns and on scalars that stand for a value in every row, and leaves out
the right operand of a conjunction or disjunction that the left one decides in every row. None of
this shows in a row: if an expression evaluates on a batch, its value in each row is the datum that
the row gives it (`Compiled.datum_evaluate`).

The proof has one lemma for each operation on values (`combine_eq_ok`, `isAll_eq_true`,
`booleans_eq_ok`, `not_eq_ok`), which says what the operation does in a row, and is then an
induction over `Compiled`.
-/

namespace Columnar

namespace Value

/-- What a value is in a row. -/
def datum (row : Nat) : Value → Datum
  | column c => (c.slots[row]?).bind Datum.ofSlot
  | scalar s => Datum.ofSlot s.slot

/-- A column has a slot for each of the rows, and a scalar stands for all of them. -/
def Fits (rows : Nat) : Value → Prop
  | column c => c.slots.length = rows
  | scalar _ => True

variable {x y v : Value} {rows : Nat}

private theorem datum_column {t : ColumnType} {slots : List (Slot t)} {i : Nat} {slot : Slot t}
    (h : slots[i]? = some slot) : (column ⟨t, slots⟩).datum i = .ofSlot slot := by
  simp [datum, h]

private theorem getElem?_eq {α : Type} {xs : List α} {i : Nat} (hl : xs.length = rows)
    (hi : i < rows) :
    ∃ a, xs[i]? = some a :=
  ⟨_, List.getElem?_eq_getElem (hl ▸ hi)⟩

/-! ### Kernels -/

/-- A kernel on the slots of one column. -/
private theorem mapM_eq_ok {t u : ColumnType} {xs : List (Slot t)} {ys : List (Slot u)}
    {f : Slot t → Except EvalError (Slot u)} (h : xs.mapM f = .ok ys) (hl : xs.length = rows) :
    (column ⟨u, ys⟩).Fits rows ∧ ∀ i < rows, ∃ a b, (column ⟨t, xs⟩).datum i = .ofSlot a ∧
      (column ⟨u, ys⟩).datum i = .ofSlot b ∧ f a = .ok b := by
  obtain ⟨hlen, hall⟩ := Except.mapM_eq_ok h
  refine ⟨hlen.trans hl, fun i hi => ?_⟩
  obtain ⟨a, ha⟩ := getElem?_eq hl hi
  obtain ⟨b, hb, hf⟩ := hall i a ha
  exact ⟨a, b, datum_column ha, datum_column hb, hf⟩

/-- A kernel on the slots of two columns. -/
private theorem onRows_eq_ok {t u : ColumnType} {k : Kernel t u} {xs : List (Slot t)}
    {ys : List (Slot u)} {zs : List (Slot k.type)} (h : k.onRows xs ys = .ok zs)
    (hx : xs.length = rows) (hy : ys.length = rows) :
    (column ⟨k.type, zs⟩).Fits rows ∧ ∀ i < rows, ∃ a b c, (column ⟨t, xs⟩).datum i = .ofSlot a ∧
      (column ⟨u, ys⟩).datum i = .ofSlot b ∧ (column ⟨k.type, zs⟩).datum i = .ofSlot c ∧
      k.onSlots a b = .ok c := by
  obtain ⟨hlen, hall⟩ := Except.mapM_eq_ok h
  have hzip : (xs.zip ys).length = rows := by rw [List.length_zip, hx, hy, Nat.min_self]
  refine ⟨hlen.trans hzip, fun i hi => ?_⟩
  obtain ⟨⟨a, b⟩, hab⟩ := getElem?_eq hzip hi
  obtain ⟨ha, hb⟩ := List.getElem?_zip_eq_some.1 hab
  obtain ⟨c, hc, hk⟩ := hall i (a, b) hab
  exact ⟨a, b, c, datum_column ha, datum_column hb, datum_column hc, hk⟩

/-- **Kernels row by row.** Whatever mix of columns and scalars a kernel is applied to, it has the
types that its operands have and computes each row from their data there. -/
theorem combine_eq_ok {kernel : (t u : ColumnType) → Except EvalError (Kernel t u)}
    (h : x.combine kernel y = .ok v) (hx : x.Fits rows) (hy : y.Fits rows) :
    v.Fits rows ∧ (∃ k, kernel x.type y.type = .ok k ∧ v.type = k.type) ∧
      ∀ i < rows, Datum.lift kernel (x.datum i) (y.datum i) = some (v.datum i) := by
  -- The two checks before the kernel give nothing that it uses.
  obtain ⟨-, -, h⟩ := Except.bind_eq_ok h
  obtain ⟨-, -, h⟩ := Except.bind_eq_ok h
  cases x with
  | column c =>
    cases y with
    | column d =>
      obtain ⟨k, hk, h⟩ := Except.bind_eq_ok h
      obtain ⟨zs, hzs, h⟩ := Except.bind_eq_ok h
      cases h
      obtain ⟨hfit, hrow⟩ := onRows_eq_ok hzs hx hy
      refine ⟨hfit, ⟨k, hk, rfl⟩, fun i hi => ?_⟩
      obtain ⟨a, b, e, ha, hb, he, hslots⟩ := hrow i hi
      rw [ha, hb, he, Datum.lift_ofSlot hk hslots]
    | scalar s =>
      obtain ⟨k, hk, h⟩ := Except.bind_eq_ok h
      obtain ⟨zs, hzs, h⟩ := Except.bind_eq_ok h
      cases h
      obtain ⟨hfit, hrow⟩ := mapM_eq_ok hzs hx
      refine ⟨hfit, ⟨k, hk, rfl⟩, fun i hi => ?_⟩
      obtain ⟨a, b, ha, hb, hslots⟩ := hrow i hi
      rw [ha, hb]
      exact Datum.lift_ofSlot hk hslots
  | scalar r =>
    cases y with
    | column d =>
      obtain ⟨k, hk, h⟩ := Except.bind_eq_ok h
      obtain ⟨zs, hzs, h⟩ := Except.bind_eq_ok h
      cases h
      obtain ⟨hfit, hrow⟩ := mapM_eq_ok hzs hy
      refine ⟨hfit, ⟨k, hk, rfl⟩, fun i hi => ?_⟩
      obtain ⟨a, b, ha, hb, hslots⟩ := hrow i hi
      rw [ha, hb]
      exact Datum.lift_ofSlot hk hslots
    | scalar s =>
      obtain ⟨k, hk, h⟩ := Except.bind_eq_ok h
      obtain ⟨z, hz, h⟩ := Except.bind_eq_ok h
      cases h
      exact ⟨trivial, ⟨k, hk, rfl⟩, fun _ _ => Datum.lift_ofSlot hk hz⟩

/-! ### Truth values -/

theorem eq_boolean {c : Column} {ps : List (Option Bool)} (h : c.booleans? = some ps) :
    c = ⟨.boolean, ps⟩ := by
  obtain ⟨t, slots⟩ := c
  cases t <;> cases h
  rfl

/-- A value that is one truth value in every row. -/
theorem isAll_eq_true {d : Bool} (h : x.isAll d = true) (hx : x.Fits rows) :
    x.type = .boolean ∧ ∀ i < rows, x.datum i = .ofTruth (some d) := by
  cases x with
  | column c =>
    rw [isAll] at h
    split at h
    · next ps hps =>
      cases eq_boolean hps
      refine ⟨rfl, fun i hi => ?_⟩
      obtain ⟨p, hp⟩ := getElem?_eq hx hi
      have hall := List.all_eq_true.1 h p (List.mem_of_getElem? hp)
      rw [datum_column hp, beq_iff_eq.1 hall]
      rfl
    · cases h
  | scalar s =>
    obtain ⟨t, slot⟩ := s
    cases t <;> try cases h
    refine ⟨rfl, fun i _ => ?_⟩
    rw [datum, beq_iff_eq.1 h]
    rfl

/-- The truth values of a value that has one in each row. -/
theorem booleans_eq_ok {ps : List (Option Bool)} (h : x.booleans rows = .ok ps) (hx : x.Fits rows) :
    x.type = .boolean ∧ ps.length = rows ∧
      ∀ i < rows, ∃ p, ps[i]? = some p ∧ x.datum i = .ofTruth p := by
  obtain ⟨c, hc, h⟩ := Except.bind_eq_ok h
  have hps : c.booleans? = some ps := by
    split at h
    · next qs hqs => cases h; exact hqs
    · cases h
  cases eq_boolean hps
  cases x with
  | column d =>
    cases hc
    refine ⟨rfl, hx, fun i hi => ?_⟩
    obtain ⟨p, hp⟩ := getElem?_eq hx hi
    exact ⟨p, hp, datum_column hp⟩
  | scalar s =>
    obtain ⟨-, -, hs⟩ := Except.map_eq_ok hc
    obtain ⟨t, slot⟩ := s
    cases hs
    refine ⟨rfl, List.length_replicate, fun i hi => ⟨slot, ?_, rfl⟩⟩
    rw [List.getElem?_replicate, if_pos hi]

/-- Negation row by row. -/
theorem not_eq_ok (h : x.not = .ok v) (hx : x.Fits rows) :
    v.Fits rows ∧ v.type = .boolean ∧
      ∀ i < rows, ∃ p, (x.datum i).truth? = some p ∧ v.datum i = .ofTruth (p.map (!·)) := by
  cases x with
  | column c =>
    rw [not] at h
    split at h
    · next ps hps =>
      cases eq_boolean hps
      cases h
      refine ⟨by simpa [Fits] using hx, rfl, fun i hi => ?_⟩
      obtain ⟨p, hp⟩ := getElem?_eq hx hi
      have hnot : (ps.map Logic.not)[i]? = some (Logic.not p) := by rw [List.getElem?_map, hp]; rfl
      refine ⟨p, by rw [datum_column hp]; exact Datum.truth?_ofTruth p, ?_⟩
      rw [datum_column hnot]
      rfl
    · cases h
  | scalar s =>
    obtain ⟨t, _ | a⟩ := s
    · cases h
      exact ⟨trivial, rfl, fun _ _ => ⟨none, rfl, rfl⟩⟩
    · cases t <;> cases h
      exact ⟨trivial, rfl, fun _ _ => ⟨some a, rfl, rfl⟩⟩

/-- The tests for NULL row by row. -/
theorem testNull_fits (negate : Bool) (hx : x.Fits rows) :
    (x.testNull negate).Fits rows ∧ (x.testNull negate).type = .boolean ∧
      ∀ i < rows, (x.testNull negate).datum i = .ofTruth (some ((x.datum i).isNone != negate)) := by
  cases x with
  | column c =>
    refine ⟨by simpa [testNull, Fits] using hx, rfl, fun i hi => ?_⟩
    obtain ⟨a, ha⟩ := getElem?_eq hx hi
    rw [datum_column ha, Datum.isNone_ofSlot]
    exact datum_column (by rw [List.getElem?_map, ha]; rfl)
  | scalar s =>
    refine ⟨trivial, rfl, fun i _ => ?_⟩
    rw [datum, Datum.isNone_ofSlot]
    rfl

end Value

/-! ### Expressions -/

open Value

/-- **Short circuits do not show.** A logical operation gives truth values, which in each row are
those of Kleene's logic, whether or not the right operand was evaluated. -/
theorem Executable.evaluateLogic_eq_ok {rows : Nat} {decisive : Bool}
    {op : Option Bool → Option Bool → Option Bool} (hop : ∀ p q, op p q = Logic.kleene decisive p q)
    {type : Except EvalError ColumnType} {left v : Value} {right : Except EvalError Value}
    {y : Nat → Option Datum} (h : evaluateLogic rows decisive op type left right = .ok v)
    (hl : left.Fits rows)
    (hr : ∀ r, right = .ok r → r.Fits rows ∧ ∀ i < rows, y i = some (r.datum i)) :
    v.Fits rows ∧ v.type = .boolean ∧
      ∀ i < rows, Datum.logic decisive (some (left.datum i)) (y i) = some (v.datum i) := by
  rw [evaluateLogic] at h
  split at h
  -- The left operand decides every row, and is the value.
  · next hall =>
    cases h
    obtain ⟨htype, hrow⟩ := isAll_eq_true hall hl
    refine ⟨hl, htype, fun i hi => ?_⟩
    rw [hrow i hi, Datum.logic_decided]
  -- Both operands are evaluated, and their truth values are combined row by row.
  · obtain ⟨r, hright, h⟩ := Except.bind_eq_ok h
    obtain ⟨-, -, h⟩ := Except.bind_eq_ok h
    obtain ⟨ps, hps, h⟩ := Except.bind_eq_ok h
    obtain ⟨qs, hqs, h⟩ := Except.bind_eq_ok h
    cases h
    obtain ⟨hfit, hy⟩ := hr r hright
    obtain ⟨-, hplen, hprow⟩ := booleans_eq_ok hps hl
    obtain ⟨-, hqlen, hqrow⟩ := booleans_eq_ok hqs hfit
    refine ⟨?_, rfl, fun i hi => ?_⟩
    · rw [Fits, List.length_zipWith, hplen, hqlen, Nat.min_self]
    · obtain ⟨p, hp, hpd⟩ := hprow i hi
      obtain ⟨q, hq, hqd⟩ := hqrow i hi
      rw [hy i hi, hpd, hqd, Datum.logic_ofTruth, ← hop]
      refine congrArg some (datum_column ?_).symm
      rw [List.getElem?_zipWith, hp, hq]

/-- What a batch has in a column of its own. -/
private theorem Batch.datum?_eq {b : Batch} {index : Nat} {c : Column}
    (h : b.column? index = some c) :
    (Value.column c).Fits b.rows ∧
      ∀ i < b.rows, b.datum? index i = some ((Value.column c).datum i) := by
  have hfit : c.slots.length = b.rows := by
    obtain ⟨nc, hnc, rfl⟩ := Option.map_eq_some_iff.1 h
    exact b.length_eq nc (List.mem_of_getElem? hnc)
  refine ⟨hfit, fun i hi => ?_⟩
  obtain ⟨slot, hslot⟩ := getElem?_eq hfit hi
  rw [datum?, h]
  simp [datum, hslot]

/-- A reference evaluates to the column at its position. -/
theorem Executable.evaluate_column_eq_ok {name : String} {index : UInt64} {b : Batch}
    {v : Value} (h : (Executable.column name index).evaluate b = .ok v) :
    ∃ c, b.column? index.toNat = some c ∧ v = .column c := by
  rw [evaluate] at h
  split at h
  · next c hc => cases h; exact ⟨c, hc, rfl⟩
  · cases h

/-- The first field of a name has the position that is recorded for it, as a number of 64 bits. -/
theorem findIdx?_eq {fields : List Field} {name : String} {f : Field} {index : Nat}
    (h : fields.zipIdx.find? (·.1.name == name) = some (f, index)) (hw : fields.length ≤ 2 ^ 64) :
    fields.findIdx? (·.name == name) = some index ∧ fields[index]? = some f ∧
      (UInt64.ofNat index).toNat = index := by
  have hf : fields[index]? = some f := List.mem_zipIdx_iff_getElem?.1 (List.mem_of_find?_eq_some h)
  have hlt : index < 2 ^ 64 := Nat.lt_of_lt_of_le (List.getElem?_eq_some_iff.1 hf).1 hw
  refine ⟨?_, hf, UInt64.toNat_ofNat_of_lt' hlt⟩
  rw [List.findIdx?_eq_fst_find?_zipIdx, h]
  rfl

/-- **Evaluation is sound row by row.** If an expression evaluates on a batch, the value fits the
batch and is in each row what the expression means there. -/
theorem Compiled.datum_evaluate {fields : List Field} {e : Expr} {x : Executable} {t : DataType}
    (h : Compiled fields e x t) (hw : fields.length ≤ 2 ^ 64) {b : Batch} {v : Value}
    (hv : x.evaluate b = .ok v) :
    v.Fits b.rows ∧ ∀ i < b.rows, e.valueAt fields b i = some (v.datum i) := by
  induction h generalizing v with
  | bound =>
    obtain ⟨c, hc, rfl⟩ := Executable.evaluate_column_eq_ok hv
    exact Batch.datum?_eq hc
  | column hf =>
    obtain ⟨hidx, -, hpos⟩ := findIdx?_eq hf hw
    obtain ⟨c, hc, rfl⟩ := Executable.evaluate_column_eq_ok hv
    rw [hpos] at hc
    simpa [Expr.valueAt, hidx] using Batch.datum?_eq hc
  | literal =>
    cases hv
    exact ⟨trivial, fun _ _ => rfl⟩
  | and hx hy ihx ihy =>
    obtain ⟨l, hl, hv⟩ := Except.bind_eq_ok hv
    obtain ⟨hfit, hrow⟩ := ihx hl
    obtain ⟨hvfit, -, hlogic⟩ :=
      Executable.evaluateLogic_eq_ok Logic.and_eq_kleene hv hfit fun r hr => ihy hr
    exact ⟨hvfit, fun i hi => by rw [Expr.valueAt, hrow i hi, hlogic i hi]⟩
  | or hx hy ihx ihy =>
    obtain ⟨l, hl, hv⟩ := Except.bind_eq_ok hv
    obtain ⟨hfit, hrow⟩ := ihx hl
    obtain ⟨hvfit, -, hlogic⟩ :=
      Executable.evaluateLogic_eq_ok Logic.or_eq_kleene hv hfit fun r hr => ihy hr
    exact ⟨hvfit, fun i hi => by rw [Expr.valueAt, hrow i hi, hlogic i hi]⟩
  | compare hop hx hy ihx ihy =>
    obtain ⟨l, hl, hv⟩ := Except.bind_eq_ok hv
    obtain ⟨r, hr, hv⟩ := Except.bind_eq_ok hv
    obtain ⟨hlfit, hlrow⟩ := ihx hl
    obtain ⟨hrfit, hrrow⟩ := ihy hr
    obtain ⟨hfit, -, hrow⟩ := combine_eq_ok hv hlfit hrfit
    refine ⟨hfit, fun i hi => ?_⟩
    rw [Expr.valueAt_compare hop (hlrow i hi) (hrrow i hi), hrow i hi]
  | arithmetic hop hx hy ihx ihy =>
    obtain ⟨l, hl, hv⟩ := Except.bind_eq_ok hv
    obtain ⟨r, hr, hv⟩ := Except.bind_eq_ok hv
    obtain ⟨hlfit, hlrow⟩ := ihx hl
    obtain ⟨hrfit, hrrow⟩ := ihy hr
    obtain ⟨hfit, -, hrow⟩ := combine_eq_ok hv hlfit hrfit
    refine ⟨hfit, fun i hi => ?_⟩
    rw [Expr.valueAt_arithmetic hop (hlrow i hi) (hrrow i hi), hrow i hi]
  | not hx ih =>
    obtain ⟨l, hl, hv⟩ := Except.bind_eq_ok hv
    obtain ⟨hlfit, hlrow⟩ := ih hl
    obtain ⟨hfit, -, hrow⟩ := not_eq_ok hv hlfit
    refine ⟨hfit, fun i hi => ?_⟩
    obtain ⟨p, hp, hpd⟩ := hrow i hi
    simp [Expr.valueAt, hlrow i hi, hp, hpd]
  | isNull hx ih =>
    obtain ⟨l, hl, hv⟩ := Except.bind_eq_ok hv
    cases hv
    obtain ⟨hlfit, hlrow⟩ := ih hl
    obtain ⟨hfit, -, hrow⟩ := testNull_fits false hlfit
    refine ⟨hfit, fun i hi => ?_⟩
    simp [Expr.valueAt, hlrow i hi, hrow i hi]
  | isNotNull hx ih =>
    obtain ⟨l, hl, hv⟩ := Except.bind_eq_ok hv
    cases hv
    obtain ⟨hlfit, hlrow⟩ := ih hl
    obtain ⟨hfit, -, hrow⟩ := testNull_fits true hlfit
    refine ⟨hfit, fun i hi => ?_⟩
    simp [Expr.valueAt, hlrow i hi, hrow i hi]

end Columnar
