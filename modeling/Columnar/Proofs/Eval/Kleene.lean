import Columnar.Proofs.Eval.Slice
import Columnar.Proofs.Eval.Type

/-!
# Conjunctions and disjunctions of many operands

The conjunction of many expressions is built from conjunctions of two, and so is their disjunction.
Evaluation may return the left operand as it is, or compute all rows from both operands, and goes
one way or the other in each of the conjunctions: none of this shows in a row, where the outcome is
that of Kleene's logic for any number of operands (`Logic.kleeneAll`). It is decided by which truth
values there are among the operands, so that neither their order matters, nor how they are grouped
(`Executable.Groups`), nor how often each of them occurs.

The operands are expressions of truth values by their types (`Executable.IsTruth`). It is not enough
that they evaluate to truth values: one of them may do so without a part that makes no sense, which
another operand then brings to light.
-/

namespace Columnar

/-! ### Kleene's logic -/

namespace Logic

/-- The operation of Kleene's logic that a truth value decides, for any number of operands. -/
def kleeneAll (decisive : Bool) (ps : List (Option Bool)) : Option Bool :=
  if some decisive ∈ ps then some decisive
  else if none ∈ ps then none
  else some !decisive

variable {decisive : Bool} {ps qs : List (Option Bool)}

theorem kleeneAll_singleton (p : Option Bool) : kleeneAll decisive [p] = p := by
  cases decisive <;> rcases p with _ | _ | _ <;> rfl

/-- Operands can be grouped. -/
theorem kleeneAll_append :
    kleeneAll decisive (ps ++ qs) =
      kleene decisive (kleeneAll decisive ps) (kleeneAll decisive qs) := by
  simp only [kleeneAll, kleene, List.mem_append]
  grind

/-- It only matters which operands there are. -/
theorem kleeneAll_congr (h : ∀ p, p ∈ ps ↔ p ∈ qs) :
    kleeneAll decisive ps = kleeneAll decisive qs := by
  simp only [kleeneAll, h]

end Logic

/-! ### Expressions of truth values -/

/-- The type of arithmetic is not that of truth values. -/
private theorem Arithmetic.resultType_ne_boolean (op : Arithmetic) (t u : ColumnType) :
    op.resultType t u ≠ .ok .boolean := by
  have hkernel (t u : ColumnType) (h : op.kernelType t u = .ok .boolean) : False := by
    obtain ⟨k, hk, htype⟩ := Except.map_eq_ok h
    have htakes := takes_of_kernel hk
    rw [htype] at htakes
    cases htakes with
    | number hnumber => exact absurd hnumber (by decide)
  have hrank {p : ColumnType → Bool} {v : ColumnType}
      (hv : ColumnType.numericRanks.find? p = some v) : v ≠ .boolean := by
    rintro rfl
    exact absurd (List.mem_of_find?_eq_some hv) (by decide)
  intro h
  rw [resultType] at h
  split at h
  · next v hv => exact hkernel t u (hv.trans h)
  -- Without a kernel for the two types it is that of a kernel for others, or one of numbers.
  · unfold convertedType at h
    repeat' split at h
    all_goals first
      | exact hkernel _ _ h
      | exact hrank ‹_› (Except.ok.inj h)
      | cases h

namespace Executable

variable {b : Batch} {x y : Executable}

/-- An expression of truth values: it is one by its type over the columns of a batch, and evaluates
on the batch. -/
structure IsTruth (b : Batch) (x : Executable) : Prop where
  /-- The type is that of truth values. -/
  type_eq : x.type b.types = .ok .boolean
  /-- The expression has a value. -/
  evaluates : ∃ v, x.evaluate b = .ok v

/-- The truth value or NULL that an expression is in a row. -/
def truth? (b : Batch) (row : Nat) (x : Executable) : Option (Option Bool) := do
  let c ← (x.evaluateColumn b).toOption
  (← c.booleans?)[row]?

/-- What is an expression of truth values by its type evaluates to truth values. -/
private theorem type_evaluate_of_boolean (hx : x.type b.types = .ok .boolean) {v : Value}
    (hv : x.evaluate b = .ok v) : v.type = .boolean := by
  cases x with
  | column name index =>
    obtain ⟨c, hc, rfl⟩ := evaluate_column_eq_ok hv
    rw [type, Batch.types, List.getElem?_map] at hx
    obtain ⟨nc, hnc, rfl⟩ := Option.map_eq_some_iff.1 hc
    rw [hnc] at hx
    exact Except.ok.inj hx
  | constant s => cases hv; exact Except.ok.inj hx
  | and left right =>
    obtain ⟨l, hl, hv⟩ := Except.bind_eq_ok hv
    exact (fits_evaluateLogic Logic.and_eq_kleene hv (fits_evaluate hl) fun _ => fits_evaluate).2
  | or left right =>
    obtain ⟨l, hl, hv⟩ := Except.bind_eq_ok hv
    exact (fits_evaluateLogic Logic.or_eq_kleene hv (fits_evaluate hl) fun _ => fits_evaluate).2
  | compare op left right =>
    obtain ⟨l, hl, hv⟩ := Except.bind_eq_ok hv
    obtain ⟨r, hr, hv⟩ := Except.bind_eq_ok hv
    obtain ⟨-, ⟨k, hk, htype⟩, -⟩ := Value.combine_eq_ok hv (fits_evaluate hl) (fits_evaluate hr)
    rw [htype, Comparison.type_kernel hk]
  | arithmetic op left right =>
    obtain ⟨t, -, hx⟩ := Except.bind_eq_ok hx
    obtain ⟨u, -, hx⟩ := Except.bind_eq_ok hx
    exact absurd hx (op.resultType_ne_boolean t u)
  | not operand =>
    obtain ⟨l, hl, hv⟩ := Except.bind_eq_ok hv
    exact (Value.not_eq_ok hv (fits_evaluate hl)).2.1
  | isNull operand | isNotNull operand =>
    obtain ⟨l, hl, hv⟩ := Except.bind_eq_ok hv
    cases hv
    exact (Value.testNull_fits _ (fits_evaluate hl)).2.1

end Executable

namespace Value

variable {v : Value} {rows : Nat} {ps : List (Option Bool)}

/-- A value of truth values has one for each row. -/
private theorem exists_toColumn (htype : v.type = .boolean) (hfit : v.Fits rows) :
    ∃ ps : List (Option Bool), v.toColumn rows = .ok ⟨.boolean, ps⟩ ∧ ps.length = rows := by
  cases v with
  | column c =>
    obtain ⟨t, slots⟩ := c
    cases htype
    exact ⟨slots, rfl, hfit⟩
  | scalar s =>
    obtain ⟨t, slot⟩ := s
    cases htype
    exact ⟨List.replicate rows slot, rfl, List.length_replicate⟩

private theorem booleans_of_toColumn (h : v.toColumn rows = .ok ⟨.boolean, ps⟩) :
    v.booleans rows = .ok ps := by
  rw [booleans, h]
  rfl

/-- A value that is one truth value in every row has no other as a column. -/
private theorem eq_of_isAll {d : Bool} (hall : v.isAll d = true)
    (h : v.toColumn rows = .ok ⟨.boolean, ps⟩) : ∀ p ∈ ps, p = some d := by
  intro p hp
  cases v with
  | column c =>
    cases h
    exact beq_iff_eq.1 (List.all_eq_true.1 hall p hp)
  | scalar s =>
    obtain ⟨t, slot⟩ := s
    obtain ⟨-, -, h⟩ := Except.map_eq_ok h
    cases h
    rw [List.eq_of_mem_replicate hp]
    exact beq_iff_eq.1 hall

end Value

namespace Executable

variable {b : Batch} {x y : Executable} {ps qs : List (Option Bool)}

theorem IsTruth.exists_evaluateColumn (h : x.IsTruth b) :
    ∃ ps : List (Option Bool), x.evaluateColumn b = .ok ⟨.boolean, ps⟩ ∧ ps.length = b.rows := by
  obtain ⟨v, hv⟩ := h.evaluates
  obtain ⟨ps, hps, hlen⟩ :=
    Value.exists_toColumn (type_evaluate_of_boolean h.type_eq hv) (fits_evaluate hv)
  exact ⟨ps, by rw [evaluateColumn, hv]; exact hps, hlen⟩

/-- The truth values of a column that an expression evaluates to. -/
private theorem truth?_eq (h : x.evaluateColumn b = .ok ⟨.boolean, ps⟩) (row : Nat) :
    x.truth? b row = ps[row]? := by
  rw [truth?, h]
  rfl

/-! ### Two operands -/

/-- The connective that a truth value decides. -/
def connective : (decisive : Bool) → Executable → Executable → Executable
  | false => and
  | true => or

variable {decisive : Bool}

private theorem evaluate_connective : (connective decisive x y).evaluate b =
    x.evaluate b >>= fun left => evaluateLogic b.rows decisive (Logic.kleene decisive)
      ((connective decisive x y).type b.types) left (y.evaluate b) := by
  have hand : Logic.and = Logic.kleene false :=
    funext fun p => funext fun q => Logic.and_eq_kleene p q
  have hor : Logic.or = Logic.kleene true :=
    funext fun p => funext fun q => Logic.or_eq_kleene p q
  cases decisive with
  | false => rw [connective, evaluate, hand]
  | true => rw [connective, evaluate, hor]

private theorem type_connective {columns : List ColumnType} (hx : x.type columns = .ok .boolean)
    (hy : y.type columns = .ok .boolean) :
    (connective decisive x y).type columns = .ok .boolean := by
  cases decisive <;> rw [connective, type, hx, hy] <;> rfl

/-- **Two operands row by row.** Whether the left operand decides all rows or both operands are
needed, the outcome in each row is that of Kleene's logic. -/
theorem IsTruth.connective (hx : x.IsTruth b) (hy : y.IsTruth b)
    (hps : x.evaluateColumn b = .ok ⟨.boolean, ps⟩) (hqs : y.evaluateColumn b = .ok ⟨.boolean, qs⟩)
    (hlen : ps.length = qs.length) :
    (connective decisive x y).IsTruth b ∧ (connective decisive x y).evaluateColumn b =
      .ok ⟨.boolean, List.zipWith (Logic.kleene decisive) ps qs⟩ := by
  have htype : (Executable.connective decisive x y).type b.types = .ok .boolean :=
    type_connective hx.type_eq hy.type_eq
  obtain ⟨v, hv, hvps⟩ := Except.bind_eq_ok hps
  obtain ⟨w, hw, hwqs⟩ := Except.bind_eq_ok hqs
  obtain ⟨z, hz, hzcolumn⟩ : ∃ z, (Executable.connective decisive x y).evaluate b = .ok z ∧
      z.toColumn b.rows = .ok ⟨.boolean, List.zipWith (Logic.kleene decisive) ps qs⟩ := by
    rw [evaluate_connective, hv]
    change ∃ z, evaluateLogic _ _ _ _ v _ = _ ∧ _
    rw [evaluateLogic]
    split
    · next hall =>
      refine ⟨v, rfl, ?_⟩
      rw [hvps, zipWith_of_decided (fun _ _ => rfl) (Value.eq_of_isAll hall hvps) hlen]
    · rw [hw, htype, Value.booleans_of_toColumn hvps]
      change ∃ z, (w.booleans b.rows >>= _) = _ ∧ _
      rw [Value.booleans_of_toColumn hwqs]
      exact ⟨_, rfl, rfl⟩
  exact ⟨⟨htype, z, hz⟩, by rw [evaluateColumn, hz]; exact hzcolumn⟩

/-! ### Many operands -/

/-- An expression that is one column of truth values on a batch: in each row it has the outcome of
Kleene's logic for all operands. -/
structure Combines (b : Batch) (decisive : Bool) (xs : List Executable) (y : Executable) :
    Prop where
  /-- It is an expression of truth values, as the operands are. -/
  isTruth : y.IsTruth b
  /-- All operands have a truth value or NULL in each row, which decide on it. -/
  column : ∃ ps : List (Option Bool), y.evaluateColumn b = .ok ⟨.boolean, ps⟩ ∧
    ps.length = b.rows ∧ ∀ i < b.rows, ∃ qs, xs.mapM (truth? b i) = some qs ∧
      ps[i]? = some (Logic.kleeneAll decisive qs)

namespace Combines

variable {xs ys : List Executable}

/-- One operand. -/
private theorem operand (h : x.IsTruth b) : Combines b decisive [x] x where
  isTruth := h
  column := by
    obtain ⟨ps, hps, hlen⟩ := h.exists_evaluateColumn
    refine ⟨ps, hps, hlen, fun i hi => ?_⟩
    obtain ⟨p, hp⟩ : ∃ p, ps[i]? = some p := ⟨_, List.getElem?_eq_getElem (hlen ▸ hi)⟩
    refine ⟨[p], ?_, by rw [hp, Logic.kleeneAll_singleton]⟩
    rw [List.mapM_cons, truth?_eq hps, hp]
    rfl

/-- Two expressions that combine operands. -/
theorem connective (hx : Combines b decisive xs x) (hy : Combines b decisive ys y) :
    Combines b decisive (xs ++ ys) (connective decisive x y) := by
  obtain ⟨ps, hps, hplen, hprow⟩ := hx.column
  obtain ⟨qs, hqs, hqlen, hqrow⟩ := hy.column
  obtain ⟨htruth, hcolumn⟩ :=
    hx.isTruth.connective hy.isTruth hps hqs (hplen.trans hqlen.symm)
  refine ⟨htruth, _, hcolumn, by rw [List.length_zipWith, hplen, hqlen, Nat.min_self], ?_⟩
  intro i hi
  obtain ⟨us, hus, hp⟩ := hprow i hi
  obtain ⟨vs, hvs, hq⟩ := hqrow i hi
  refine ⟨us ++ vs, by rw [List.mapM_append, hus, hvs]; rfl, ?_⟩
  rw [List.getElem?_zipWith, hp, hq, Logic.kleeneAll_append]

/-- A fold from the left over expressions that combine operands. -/
private theorem foldl (hx : Combines b decisive xs x) {gs : List (List Executable × Executable)}
    (h : ∀ g ∈ gs, Combines b decisive g.1 g.2) :
    Combines b decisive (xs ++ gs.flatMap (·.1))
      ((gs.map (·.2)).foldl (Executable.connective decisive) x) := by
  induction gs generalizing xs x with
  | nil => simpa using hx
  | cons g gs ih =>
    rw [List.forall_mem_cons] at h
    rw [List.flatMap_cons, ← List.append_assoc]
    exact ih (hx.connective h.1) h.2

/-- The column depends on nothing but which operands there are. -/
theorem evaluateColumn_eq (hx : Combines b decisive xs x) (hy : Combines b decisive ys y)
    (hsame : ∀ z, z ∈ ys ↔ z ∈ xs) : y.evaluateColumn b = x.evaluateColumn b := by
  obtain ⟨ps, hps, hplen, hprow⟩ := hx.column
  obtain ⟨qs, hqs, hqlen, hqrow⟩ := hy.column
  have hrows : qs = ps := by
    refine List.ext_getElem? fun i => ?_
    by_cases hi : i < b.rows
    · obtain ⟨us, hus, hp⟩ := hprow i hi
      obtain ⟨vs, hvs, hq⟩ := hqrow i hi
      rw [hp, hq]
      refine congrArg some (Logic.kleeneAll_congr fun p => ?_)
      rw [Option.mem_of_mapM hus, Option.mem_of_mapM hvs]
      simp only [hsame]
    · rw [List.getElem?_eq_none (by omega), List.getElem?_eq_none (by omega)]
  rw [hps, hqs, hrows]

end Combines

/-- An expression that is made of operands in groups, and groups of groups. -/
inductive Groups (make : List Executable → Except Refusal Executable) :
    List Executable → Executable → Prop
  /-- One operand. -/
  | operand (x : Executable) : Groups make [x] x
  /-- What is made of groups, each of them with its operands. -/
  | group {gs : List (List Executable × Executable)} {y : Executable}
    (hgs : ∀ g ∈ gs, Groups make g.1 g.2) (hy : make (gs.map (·.2)) = .ok y) :
    Groups make (gs.flatMap (·.1)) y

/-- What is made of many expressions with the connective that a truth value decides. -/
def makeAll : (decisive : Bool) → List Executable → Except Refusal Executable
  | false => makeAnd
  | true => makeOr

private theorem makeAll_cons (decisive : Bool) (x : Executable) (xs : List Executable) :
    makeAll decisive (x :: xs) = .ok (xs.foldl (connective decisive) x) := by
  cases decisive <;> rfl

theorem Groups.combines {xs : List Executable} (h : Groups (makeAll decisive) xs x)
    (hxs : ∀ z ∈ xs, z.IsTruth b) : Combines b decisive xs x := by
  induction h with
  | operand x => exact .operand (hxs x List.mem_cons_self)
  | @group gs y _ hy ih =>
    have hgs (g : List Executable × Executable) (hg : g ∈ gs) : Combines b decisive g.1 g.2 :=
      ih g hg fun z hz => hxs z (List.mem_flatMap.2 ⟨g, hg, hz⟩)
    cases gs with
    | nil => cases decisive <;> cases hy
    | cons g gs =>
      rw [List.map_cons, makeAll_cons] at hy
      cases hy
      rw [List.forall_mem_cons] at hgs
      exact hgs.1.foldl hgs.2

/-- All operands in one group. -/
theorem groups_makeAll {xs : List Executable} (hy : makeAll decisive xs = .ok y) :
    Groups (makeAll decisive) xs y := by
  have hnodes : (xs.map fun x => ([x], x)).map (·.2) = xs := by simp [Function.comp_def]
  have hoperands : (xs.map fun x => ([x], x)).flatMap (·.1) = xs := by
    rw [List.flatMap_map]
    exact List.flatMap_singleton' xs
  have hgroup : Groups (makeAll decisive) ((xs.map fun x => ([x], x)).flatMap (·.1)) y := by
    refine .group (fun g hg => ?_) (hnodes.symm ▸ hy)
    obtain ⟨x, -, rfl⟩ := List.mem_map.1 hg
    exact .operand x
  rwa [hoperands] at hgroup

/-- Many operands, and any other grouping of them. -/
theorem combines_makeAll (decisive : Bool) {xs : List Executable} (hne : xs ≠ [])
    (hxs : ∀ x ∈ xs, x.IsTruth b) :
    ∃ y, makeAll decisive xs = .ok y ∧ Combines b decisive xs y ∧
      ∀ ys z, Groups (makeAll decisive) ys z → (∀ x, x ∈ ys ↔ x ∈ xs) →
        z.evaluateColumn b = y.evaluateColumn b := by
  cases xs with
  | nil => exact absurd rfl hne
  | cons x xs =>
    have hy := makeAll_cons decisive x xs
    have hcombines := (groups_makeAll hy).combines hxs
    exact ⟨_, hy, hcombines, fun ys z hz hsame =>
      hcombines.evaluateColumn_eq (hz.combines fun w hw => hxs w ((hsame w).1 hw)) hsame⟩

/-- **Conjunction and disjunction of many operands.** Any number of expressions of truth values,
columns and constants, have a conjunction and a disjunction that evaluate on the batch. In each row
the conjunction is false if an operand is, or else NULL if an operand is, or else true; and so the
disjunction, with true and false exchanged. No other order, grouping or repetition of the operands
gives another column. -/
theorem combines_makeAnd_makeOr {xs : List Executable} (hne : xs ≠ [])
    (hxs : ∀ x ∈ xs, x.IsTruth b) :
    (∃ y, makeAnd xs = .ok y ∧ Combines b false xs y ∧
      ∀ ys z, Groups makeAnd ys z → (∀ x, x ∈ ys ↔ x ∈ xs) →
        z.evaluateColumn b = y.evaluateColumn b) ∧
    ∃ y, makeOr xs = .ok y ∧ Combines b true xs y ∧
      ∀ ys z, Groups makeOr ys z → (∀ x, x ∈ ys ↔ x ∈ xs) →
        z.evaluateColumn b = y.evaluateColumn b :=
  ⟨combines_makeAll false hne hxs, combines_makeAll true hne hxs⟩

/-- A column with a constant NULL and a constant. -/
theorem combines_makeAnd_makeOr_constants :
    let b : Batch := ⟨3, [⟨"p", true, ⟨.boolean, [some true, some false, none]⟩⟩], by decide⟩
    let xs : List Executable :=
      [.column "p" 0, .constant ⟨.boolean, none⟩, .constant ⟨.boolean, some true⟩]
    xs ≠ [] ∧ (∀ x ∈ xs, x.IsTruth b) ∧
      (∃ y, makeAnd xs = .ok y ∧ Combines b false xs y ∧
        y.evaluateColumn b = .ok ⟨.boolean, [none, some false, none]⟩) ∧
      ∃ y, makeOr xs = .ok y ∧ Combines b true xs y ∧
        y.evaluateColumn b = .ok ⟨.boolean, [some true, some true, some true]⟩ := by
  intro b xs
  have hne : xs ≠ [] := nofun
  have hxs : ∀ x ∈ xs, x.IsTruth b := by
    intro x hx
    simp only [xs, List.mem_cons, List.not_mem_nil, or_false] at hx
    obtain rfl | rfl | rfl := hx <;> exact ⟨rfl, _, rfl⟩
  obtain ⟨⟨y, hy, hand, -⟩, z, hz, hor, -⟩ := combines_makeAnd_makeOr hne hxs
  cases hy
  cases hz
  exact ⟨hne, hxs, ⟨_, rfl, hand, rfl⟩, _, rfl, hor, rfl⟩

end Executable

end Columnar
