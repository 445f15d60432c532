import Columnar.Compression.Runs

/-!
# Runs and their copies

Segments stand for the byte string that was cut into them (`flatMap_expand_segments`), and all but
the last one end in a run that is worth a copy (`segments_eq`).

Decoders put the content of one part after the other behind their output, which is an array; the
content is a list (`appendList_appendList`, `size_appendList`).
-/

namespace Columnar.Compression

/-! ### Segments -/

/-- The bytes of runs. -/
def expandRuns (runs : List (UInt8 × Nat)) : Bytes :=
  runs.flatMap fun (b, n) => List.replicate n b

/-- A byte in front lengthens the first run or begins another. -/
private theorem expandRuns_addToRuns (b : UInt8) (runs : List (UInt8 × Nat)) :
    expandRuns (addToRuns b runs) = b :: expandRuns runs := by
  cases runs with
  | nil => rfl
  | cons run others =>
    obtain ⟨c, n⟩ := run
    by_cases h : b = c
    · subst h
      simp [addToRuns, expandRuns, List.replicate_succ]
    · simp [addToRuns, expandRuns, h]

/-- The runs of a byte string make up the byte string. -/
theorem expandRuns_runs (b : Bytes) : expandRuns (runs b) = b := by
  induction b with
  | nil => rfl
  | cons x b ih => rw [runs, List.foldr_cons, ← runs, expandRuns_addToRuns, ih]

/-- Runs are not empty. -/
private theorem pos_of_mem_runs {b : Bytes} : ∀ run ∈ runs b, 0 < run.2 := by
  induction b with
  | nil => exact nofun
  | cons x b ih =>
    rw [runs, List.foldr_cons, ← runs]
    cases hr : runs b with
    | nil => simp [addToRuns]
    | cons run others =>
      obtain ⟨c, n⟩ := run
      rw [hr] at ih
      intro run hrun
      rw [addToRuns] at hrun
      split at hrun
      · rcases List.mem_cons.1 hrun with rfl | hmem
        · exact Nat.succ_pos n
        · exact ih run (List.mem_cons_of_mem _ hmem)
      · rcases List.mem_cons.1 hrun with rfl | hmem
        · exact Nat.one_pos
        · exact ih run hmem

/-- A segment that ends in a run. -/
structure Segment.IsRun (least : Nat) (s : Segment) : Prop where
  /-- There is a byte to be repeated. -/
  literals : s.literals ≠ []
  /-- It is repeated often enough. -/
  copies : least ≤ s.copies

private theorem Segment.expand_of_getLast? {s : Segment} {b : UInt8}
    (h : s.literals.getLast? = some b) : s.expand = s.literals ++ List.replicate s.copies b := by
  simp only [expand, h]

/-- A segment with literals repeats the last of them. -/
theorem Segment.exists_expand_eq {s : Segment} (h : s.literals ≠ []) :
    ∃ b, s.literals.getLast? = some b ∧ s.expand = s.literals ++ List.replicate s.copies b :=
  have hlast := List.getLast?_eq_some_getLast h
  ⟨_, hlast, expand_of_getLast? hlast⟩

/-- A segment without copies stands for its literals. -/
theorem Segment.expand_of_no_copies (literals : Bytes) :
    Segment.expand ⟨literals, 0⟩ = literals := by
  rw [expand]
  split
  · exact List.append_nil _
  · next h => exact (List.getLast?_eq_none_iff.1 h).symm

theorem Segment.length_literals_le (s : Segment) : s.literals.length ≤ s.expand.length := by
  rw [expand]
  split
  · rw [List.length_append]
    exact Nat.le_add_right _ _
  · next h => exact Nat.le_of_eq (congrArg List.length (List.getLast?_eq_none_iff.1 h))

/-- Segments make up the runs that they are gathered from, behind the plain bytes that are
waiting. -/
private theorem flatMap_expand_gather {least : Nat} {literals : Bytes} {runs : List (UInt8 × Nat)}
    (h : ∀ run ∈ runs, 0 < run.2) :
    (gather least literals runs).flatMap Segment.expand = literals.reverse ++ expandRuns runs := by
  induction runs generalizing literals with
  | nil => simp [gather, expandRuns, Segment.expand_of_no_copies]
  | cons run rest ih =>
    obtain ⟨b, n⟩ := run
    have hpos : 0 < n := h (b, n) List.mem_cons_self
    have hrest := fun run hrun => h run (List.mem_cons_of_mem _ hrun)
    obtain ⟨k, rfl⟩ := Nat.exists_eq_add_of_le hpos
    rw [gather]
    split
    · have hlast : (b :: literals).reverse.getLast? = some b := by simp
      rw [List.flatMap_cons, ih hrest, Segment.expand_of_getLast? hlast, Nat.succ_add_sub_one]
      simp [expandRuns, Nat.add_comm 1 k, List.replicate_succ]
    · rw [ih hrest]
      simp [expandRuns]

/-- All segments but the last one end in a run. -/
private theorem gather_eq (least : Nat) (literals : Bytes) (runs : List (UInt8 × Nat)) :
    ∃ front last, gather least literals runs = front ++ [⟨last, 0⟩] ∧
      ∀ s ∈ front, s.IsRun least := by
  induction runs generalizing literals with
  | nil => exact ⟨[], literals.reverse, rfl, nofun⟩
  | cons run rest ih =>
    obtain ⟨b, n⟩ := run
    rw [gather]
    split
    · next h =>
      obtain ⟨front, last, heq, hruns⟩ := ih []
      refine ⟨⟨(b :: literals).reverse, n - 1⟩ :: front, last, by rw [heq, List.cons_append], ?_⟩
      intro s hs
      rcases List.mem_cons.1 hs with rfl | hs
      · exact ⟨by simp, Nat.le_sub_one_of_lt h⟩
      · exact hruns s hs
    · exact ih _

/-- **Segments stand for the byte string** that was cut. -/
theorem flatMap_expand_segments (least : Nat) (b : Bytes) :
    (segments least b).flatMap Segment.expand = b := by
  rw [segments, flatMap_expand_gather pos_of_mem_runs, expandRuns_runs]
  rfl

/-- A byte string is cut into runs with the plain bytes before them, and plain bytes at its end. -/
theorem segments_eq (least : Nat) (b : Bytes) :
    ∃ front last, segments least b = front ++ [⟨last, 0⟩] ∧ (∀ s ∈ front, s.IsRun least) ∧
      front.flatMap Segment.expand ++ last = b := by
  obtain ⟨front, last, heq, hruns⟩ := gather_eq least [] (runs b)
  refine ⟨front, last, heq, hruns, ?_⟩
  have hexpand := flatMap_expand_segments least b
  rwa [segments, heq, List.flatMap_append, List.flatMap_singleton,
    Segment.expand_of_no_copies] at hexpand

/-- Where a segment has copies, there is a byte to be repeated. -/
theorem copies_or_literals_of_mem_segments {least : Nat} {b : Bytes} {s : Segment}
    (hs : s ∈ segments least b) : s.copies = 0 ∨ s.literals ≠ [] := by
  obtain ⟨front, last, heq, hruns, -⟩ := segments_eq least b
  rw [heq] at hs
  rcases List.mem_append.1 hs with hs | hs
  · exact .inr (hruns s hs).literals
  · obtain rfl := List.mem_singleton.1 hs
    exact .inl rfl

/-! ### Output -/

/-- Lists of bytes are put behind one by one, or as a whole. -/
theorem appendList_appendList (out : Array UInt8) (b c : Bytes) : out ++ b ++ c = out ++ (b ++ c) :=
  Array.ext' (by simp)

/-- What is put behind adds its length. -/
theorem size_appendList (out : Array UInt8) (b : Bytes) :
    (out ++ b).size = out.size + b.length := by
  rw [← Array.length_toList, Array.toList_appendList, List.length_append, Array.length_toList]

end Columnar.Compression
