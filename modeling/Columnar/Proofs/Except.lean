/-!
# Computations that may fail

What is known of the steps of a computation that succeeded, with a state or without, and when the
traversal of a list does.
-/

namespace Columnar

/-! ### Errors -/

namespace Except

variable {ε α β : Type}

/-- A computation in two steps that succeeds is one of two steps that do. -/
theorem bind_eq_ok {x : Except ε α} {f : α → Except ε β} {c : β} (h : (x >>= f) = .ok c) :
    ∃ a, x = .ok a ∧ f a = .ok c := by
  cases x with
  | error e => cases h
  | ok a => exact ⟨a, rfl, h⟩

theorem map_eq_ok {x : Except ε α} {f : α → β} {c : β} (h : x.map f = .ok c) :
    ∃ a, x = .ok a ∧ f a = c := by
  cases x with
  | error e => cases h
  | ok a => cases h; exact ⟨a, rfl, rfl⟩

theorem mapError_eq_ok {ε' : Type} {x : Except ε α} {f : ε → ε'} {a : α}
    (h : x.mapError f = .ok a) : x = .ok a := by
  cases x with
  | error e => cases h
  | ok a => cases h; rfl

theorem mapError_ok {ε' : Type} (f : ε → ε') (a : α) :
    (Except.ok a : Except ε α).mapError f = .ok a :=
  rfl

theorem mapError_error {ε' : Type} (f : ε → ε') (e : ε) :
    (Except.error e : Except ε α).mapError f = .error (f e) :=
  rfl

/-- A step that succeeds for every item of a list gives a result for each of them, in their
order. -/
theorem mapM_eq_ok {f : α → Except ε β} {xs : List α} {ys : List β} (h : xs.mapM f = .ok ys) :
    ys.length = xs.length ∧
      ∀ (i : Nat) x, xs[i]? = some x → ∃ y, ys[i]? = some y ∧ f x = .ok y := by
  induction xs generalizing ys with
  | nil => cases h; exact ⟨rfl, nofun⟩
  | cons x xs ih =>
    rw [List.mapM_cons] at h
    obtain ⟨y, hy, h⟩ := bind_eq_ok h
    obtain ⟨zs, hzs, h⟩ := bind_eq_ok h
    cases h
    obtain ⟨hlen, hall⟩ := ih hzs
    refine ⟨congrArg (· + 1) hlen, fun i w hw => ?_⟩
    cases i with
    | zero => cases hw; exact ⟨y, rfl, hy⟩
    | succ i => exact hall i w hw

/-- A step that succeeds for every item of a list does so for a run of its items. -/
theorem mapM_slice {f : α → Except ε β} {xs : List α} {ys : List β} (h : xs.mapM f = .ok ys)
    (start count : Nat) :
    ((xs.drop start).take count).mapM f = .ok ((ys.drop start).take count) := by
  induction xs generalizing ys start count with
  | nil => cases h; simp [pure, Except.pure]
  | cons x xs ih =>
    rw [List.mapM_cons] at h
    obtain ⟨y, hy, h⟩ := bind_eq_ok h
    obtain ⟨zs, hzs, h⟩ := bind_eq_ok h
    cases h
    cases start with
    | succ start => exact ih hzs start count
    | zero =>
      cases count with
      | zero => rfl
      | succ count =>
        have htail := ih hzs 0 count
        rw [List.drop_zero, List.drop_zero] at htail
        rw [List.drop_zero, List.drop_zero, List.take_succ_cons, List.mapM_cons, hy, htail]
        rfl

end Except

/-! ### Steps that change a state -/

namespace ExceptT

variable {ε σ α β : Type} {m : ExceptT ε (StateM σ) α} {f : α → ExceptT ε (StateM σ) β} {s s' : σ}

/-- After a step that succeeds comes the next one. -/
theorem bind_of_ok {a : α} (h : m s = (.ok a, s')) : (m >>= f) s = f a s' := by
  change ExceptT.bindCont f (m s).1 (m s).2 = _
  rw [h]
  rfl

/-- A step that fails is the last one. -/
theorem bind_of_error {e : ε} (h : m s = (.error e, s')) : (m >>= f) s = (.error e, s') := by
  change ExceptT.bindCont f (m s).1 (m s).2 = _
  rw [h]
  rfl

/-- Two steps that succeed are one after the other. -/
theorem bind_eq_ok {c : β} (h : (m >>= f) s = (.ok c, s')) :
    ∃ a middle, m s = (.ok a, middle) ∧ f a middle = (.ok c, s') := by
  cases hm : m s with
  | mk r middle =>
    cases r with
    | ok a => exact ⟨a, middle, rfl, (bind_of_ok hm).symm.trans h⟩
    | error e =>
      rw [bind_of_error hm] at h
      cases h

end ExceptT

/-! ### Missing values -/

namespace Option

variable {α β : Type}

/-- A step that finds something for every item of a list finds as many. -/
theorem length_of_mapM {f : α → Option β} {xs : List α} {ys : List β} (h : xs.mapM f = some ys) :
    ys.length = xs.length := by
  induction xs generalizing ys with
  | nil => cases h; rfl
  | cons x xs ih =>
    rw [List.mapM_cons] at h
    obtain ⟨y, -, h⟩ := Option.bind_eq_some_iff.1 h
    obtain ⟨zs, hzs, h⟩ := Option.bind_eq_some_iff.1 h
    cases h
    exact congrArg (· + 1) (ih hzs)

/-- What a step finds for the items of a list. -/
theorem mem_of_mapM {f : α → Option β} {xs : List α} {ys : List β} (h : xs.mapM f = some ys)
    {y : β} : y ∈ ys ↔ ∃ x ∈ xs, f x = some y := by
  induction xs generalizing ys with
  | nil => cases h; exact ⟨nofun, nofun⟩
  | cons x xs ih =>
    rw [List.mapM_cons] at h
    obtain ⟨z, hz, h⟩ := Option.bind_eq_some_iff.1 h
    obtain ⟨zs, hzs, h⟩ := Option.bind_eq_some_iff.1 h
    cases h
    rw [List.mem_cons, ih hzs]
    simp [hz, eq_comm]

theorem isSome_mapM {f : α → Option β} {xs : List α} :
    (xs.mapM f).isSome ↔ ∀ x ∈ xs, (f x).isSome := by
  induction xs with
  | nil => exact ⟨nofun, fun _ => rfl⟩
  | cons x xs ih =>
    rw [List.mapM_cons, List.forall_mem_cons, ← ih]
    cases f x <;> cases xs.mapM f <;> simp

/-- The positions of a list are traversed with two steps that lead from each position to its
item. -/
theorem mapM_range_eq_some {f : Nat → Option β} {g : β → Option α} {xs : List α}
    (h : ∀ (i : Nat) x, xs[i]? = some x → ∃ y, f i = some y ∧ g y = some x) :
    ∃ ys, (List.range xs.length).mapM f = some ys ∧ ys.mapM g = some xs := by
  induction xs generalizing f with
  | nil => exact ⟨[], rfl, rfl⟩
  | cons x xs ih =>
    obtain ⟨y, hy, hx⟩ := h 0 x rfl
    have htail (i : Nat) (x' : α) (hi : xs[i]? = some x') :
        ∃ y, (f ∘ Nat.succ) i = some y ∧ g y = some x' := h (i + 1) x' hi
    obtain ⟨ys, hys, hxs⟩ := ih htail
    refine ⟨y :: ys, ?_, by simp [hx, hxs]⟩
    rw [List.length_cons, List.range_succ_eq_map, List.mapM_cons, List.mapM_map, hys, hy]
    rfl

/-- The positions of a list are traversed with one step. -/
theorem mapM_range_eq_self {f : Nat → Option α} {xs : List α}
    (h : ∀ (i : Nat) x, xs[i]? = some x → f i = some x) :
    (List.range xs.length).mapM f = some xs := by
  obtain ⟨ys, hys, hxs⟩ := mapM_range_eq_some fun i x hi => ⟨x, h i x hi, rfl⟩
  have hpure : ys.mapM some = some ys := by
    simpa using (List.mapM_pure (m := Option) (l := ys) (f := id))
  rw [hys, ← hpure, hxs]

end Option

end Columnar
