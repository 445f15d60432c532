import Columnar.Proofs.Block.Step
import Mathlib.Algebra.Group.Action.Defs
import Mathlib.Algebra.Order.BigOperators.Group.List
import Mathlib.Algebra.Order.Group.Nat

/-!
# Memory of many readers

Any number of readers share a host with limited memory, and are called in any order (`Readers.run`).
At any time the memory that is reserved is the sum of the lengths of the streams that the readers
have open (`Readers.reserved_run`), however the calls ended. A reader that has come to its end, to
an error or to a refusal of memory, or was closed or dropped, has no share in it.

What a call does to one reader is known from its step, where the others are the rest of the sum. So
the only thing to prove of all of them is how a sum changes with one of its items (`sum_map_set`).
-/

namespace Columnar.Block

/-! ### Calls -/

/-- A reader that was started. -/
structure Slot where
  /-- The reader, unless it is dropped. -/
  reader : Option Reader
  /-- Whether the reader was closed or dropped, or has handed out an error or the end. -/
  isDone : Bool

/-- The length of the stream that a reader has open, or zero if it has none. -/
def Slot.openLength (slot : Slot) : Nat :=
  (slot.reader.map Reader.openLength).getD 0

/-- Readers that share a host. -/
structure Readers where
  /-- All readers that were started, in order. -/
  slots : List Slot
  /-- The host. -/
  host : Host

/-- A call of one of many readers, by its number. -/
inductive ReadersCall where
  /-- Starts another reader, of a buffer. -/
  | start (fields : List Field) (buffer : Buffer)
  /-- Asks a reader for its next batch. -/
  | next (i : Nat)
  /-- Closes a reader. -/
  | close (i : Nat)
  /-- Drops a reader. -/
  | drop (i : Nat)

/-- Whether nothing comes after an item: it is an error or the end. -/
def isLast : Item → Bool
  | some (.ok _) => false
  | _ => true

namespace Readers

/-- Does something to a reader that is there, and to the host. -/
def update (s : Readers) (i : Nat) (f : Reader → Bool → Host → Slot × Host) : Readers :=
  match s.slots[i]? with
  | some ⟨some r, isDone⟩ =>
    let (slot, host) := f r isDone s.host
    ⟨s.slots.set i slot, host⟩
  | _ => s

/-- Makes a call. -/
def step (c : Codec) (s : Readers) : ReadersCall → Readers
  | .start fields buffer =>
    let (r, host) := Reader.start c fields buffer s.host
    ⟨s.slots ++ [⟨some r, false⟩], host⟩
  | .next i => s.update i fun r isDone h =>
    let (item, r, h) := r.next h
    (⟨some r, isDone || isLast item⟩, h)
  | .close i => s.update i fun r _ h =>
    let (r, h) := r.close h
    (⟨some r, true⟩, h)
  | .drop i => s.update i fun r _ h => (⟨none, true⟩, (r.close h).2)

/-- Makes calls, from a host with no readers on. -/
def run (c : Codec) (calls : List ReadersCall) (h : Host) : Readers :=
  calls.foldl (step c) ⟨[], h⟩

end Readers

/-! ### Sums -/

/-- A sum of numbers is one of them and the rest, whatever that one is. -/
private theorem sum_set {xs : List Nat} {i x : Nat} (h : xs[i]? = some x) :
    ∃ others, xs.sum = others + x ∧ ∀ y, (xs.set i y).sum = others + y := by
  obtain ⟨hi, rfl⟩ := List.getElem?_eq_some_iff.1 h
  have hset (y : Nat) : (xs.set i y).sum = (xs.take i).sum + (xs.drop (i + 1)).sum + y := by
    rw [List.sum_set, if_pos hi, Nat.add_right_comm]
  refine ⟨_, ?_, hset⟩
  rw [← hset, List.set_getElem_self]

/-- A sum over a list is one item and the rest, whatever the item is. -/
theorem sum_map_set {α : Type} (f : α → Nat) {xs : List α} {i : Nat} {x : α}
    (h : xs[i]? = some x) :
    ∃ others, (xs.map f).sum = others + f x ∧ ∀ y, ((xs.set i y).map f).sum = others + f y := by
  have hmap : (xs.map f)[i]? = some (f x) := by rw [List.getElem?_map, h, Option.map_some]
  obtain ⟨others, hsum, hset⟩ := sum_set hmap
  exact ⟨others, hsum, fun y => by rw [List.map_set, hset]⟩

/-- A sum of numbers of up to `n` has room for `n` in the place of one of them. -/
theorem sum_map_add_le {α : Type} (f : α → Nat) {xs : List α} {i : Nat} {x : α}
    (h : xs[i]? = some x) {n : Nat} (hn : ∀ y ∈ xs, f y ≤ n) :
    (xs.map f).sum + n ≤ xs.length * n + f x := by
  have hmap : (xs.map f)[i]? = some (f x) := by rw [List.getElem?_map, h, Option.map_some]
  obtain ⟨others, hsum, hset⟩ := sum_set hmap
  have hle : ((xs.map f).set i n).sum ≤ ((xs.map f).set i n).length • n := by
    refine List.sum_le_card_nsmul _ n fun m hm => ?_
    obtain hm | rfl := List.mem_or_eq_of_mem_set hm
    · obtain ⟨y, hy, rfl⟩ := List.mem_map.1 hm
      exact hn y hy
    · exact Nat.le_refl _
  rw [hset, List.length_set, List.length_map, smul_eq_mul] at hle
  omega

/-! ### The invariant -/

/-- A slot in order: its reader has reserved what it has open, and nothing more if it is done. -/
structure Slot.IsSound (slot : Slot) : Prop where
  /-- The blocks that a reader has not come to are those after the ones that it has come to. -/
  rest_eq : ∀ r p, slot.reader = some r → r.position = some p →
    p.rest = p.buffer.blocks.drop p.visited
  /-- A reader has reserved the length of the stream that it has open. -/
  reserved_eq : ∀ r, slot.reader = some r → r.reserved = r.openLength
  /-- A reader that is done is closed. -/
  closed : slot.isDone = true → ∀ r, slot.reader = some r → r.position = none

/-- The memory that is reserved is that of the streams that readers have open. -/
structure Readers.Balanced (limit : Nat) (s : Readers) : Prop where
  /-- All slots are in order. -/
  sound : ∀ slot ∈ s.slots, slot.IsSound
  /-- The pool holds their sum. -/
  pool_eq : s.host.pool = some ⟨limit, (s.slots.map Slot.openLength).sum⟩

/-- What is left of a reader in a slot, and of the memory that others have reserved. -/
structure Slot.Holds (others : Pool) (r : Reader) (out : Slot × Host) : Prop where
  /-- The reader stands in the host. -/
  stands : r.Stands (some others) out.2
  /-- The slot has the reader, or it is dropped. -/
  reader : ∀ q, out.1.reader = some q → q = r
  /-- If it is done, the reader is closed. -/
  closed : out.1.isDone = true → r.position = none
  /-- The slot has what the reader has open. -/
  openLength : out.1.openLength = r.openLength

/-- A slot that is done has nothing open. -/
private theorem Slot.IsSound.openLength_of_isDone {slot : Slot} (h : slot.IsSound)
    (hdone : slot.isDone = true) : slot.openLength = 0 := by
  cases hr : slot.reader with
  | none => rw [Slot.openLength, hr]; rfl
  | some r =>
    have hclosed := h.closed hdone r hr
    rw [Slot.openLength, hr, Option.map_some, Option.getD_some, Reader.openLength, hclosed]
    rfl

private theorem Slot.Holds.isSound {others : Pool} {r : Reader} {out : Slot × Host}
    (h : Holds others r out) : out.1.IsSound where
  rest_eq q p hq hp := by
    obtain rfl := h.reader q hq
    exact h.stands.rest_eq p hp
  reserved_eq q hq := by
    obtain rfl := h.reader q hq
    exact h.stands.reserved_eq nofun
  closed hdone q hq := by
    obtain rfl := h.reader q hq
    exact h.closed hdone

namespace Readers

variable {limit : Nat} {s : Readers}

/-- What is done to a reader keeps the balance if it leaves the memory of the others as it is. -/
private theorem Balanced.update (hs : s.Balanced limit) {f : Reader → Bool → Host → Slot × Host}
    (i : Nat)
    (hf : ∀ r isDone others, r.Stands (some others) s.host → (isDone = true → r.position = none) →
      ∃ r', Slot.Holds others r' (f r isDone s.host)) : (s.update i f).Balanced limit := by
  rw [Readers.update]
  split
  · next r isDone hi =>
    have hsound := hs.sound _ (List.mem_of_getElem? hi)
    obtain ⟨others, hsum, hset⟩ := sum_map_set Slot.openLength hi
    -- The others have reserved the rest of the sum.
    have hstands : r.Stands (some ⟨limit, others⟩) s.host := by
      refine ⟨fun p hp => hsound.rest_eq r p rfl hp, fun _ => hsound.reserved_eq r rfl, ?_⟩
      rw [Beside, hs.pool_eq, hsum, hsound.reserved_eq r rfl]
      rfl
    obtain ⟨r', hr'⟩ := hf r isDone _ hstands fun hdone => hsound.closed hdone r rfl
    refine ⟨fun slot hmem => ?_, ?_⟩
    · obtain hmem | rfl := List.mem_or_eq_of_mem_set hmem
      · exact hs.sound slot hmem
      · exact hr'.isSound
    · have hpool : (f r isDone s.host).2.pool = some ⟨limit, others + r'.reserved⟩ :=
        hr'.stands.beside
      rw [hpool, hset, hr'.openLength, hr'.stands.reserved_eq (Option.some_ne_none _)]
  · exact hs

private theorem Balanced.start (c : Codec) (hs : s.Balanced limit) (fields : List Field)
    (buffer : Buffer) :
    (s.step c (.start fields buffer)).Balanced limit := by
  have hb : Beside (some ⟨limit, (s.slots.map Slot.openLength).sum⟩) 0 s.host := hs.pool_eq
  have hr : Slot.Holds _ _ (⟨some (Reader.start c fields buffer s.host).1, false⟩, _) :=
    ⟨Reader.start_stands c fields buffer hb, fun q hq => (Option.some.inj hq).symm, nofun, rfl⟩
  refine ⟨fun slot hmem => ?_, ?_⟩
  · obtain hmem | hmem := List.mem_append.1 hmem
    · exact hs.sound slot hmem
    · obtain rfl := List.mem_singleton.1 hmem
      exact hr.isSound
  · rw [Readers.step, List.map_append, List.sum_append]
    exact hr.stands.beside

/-- **Step.** Every call keeps the balance. -/
theorem Balanced.step (c : Codec) (hs : s.Balanced limit) (call : ReadersCall) :
    (s.step c call).Balanced limit := by
  cases call with
  | start fields buffer => exact hs.start c fields buffer
  | next i =>
    rw [Readers.step]
    refine hs.update i fun r isDone others hr hdone => ⟨(r.next s.host).2.1, ?_⟩
    have hsteps := Reader.next_steps hr
    refine ⟨hsteps.stands, fun q hq => (Option.some.inj hq).symm, fun h => ?_, rfl⟩
    obtain h | h := Bool.or_eq_true_iff.1 h
    · have hnext : r.next s.host = (none, r, s.host) := by rw [Reader.next, hdone h]
      rw [hnext]
      exact hdone h
    · refine hsteps.closed fun b hb => ?_
      rw [hb] at h
      cases h
  | close i =>
    rw [Readers.step]
    refine hs.update i fun r isDone others hr hdone => ⟨(r.close s.host).1, ?_⟩
    obtain ⟨hclosed, hr⟩ := Reader.close_stands hr
    exact ⟨hr, fun q hq => (Option.some.inj hq).symm, fun _ => hclosed, rfl⟩
  | drop i =>
    rw [Readers.step]
    refine hs.update i fun r isDone others hr hdone => ⟨(r.close s.host).1, ?_⟩
    obtain ⟨hclosed, hr⟩ := Reader.close_stands hr
    refine ⟨hr, by rintro _ ⟨⟩, fun _ => hclosed, ?_⟩
    rw [Reader.openLength, hclosed]
    rfl

theorem balanced_run (c : Codec) (h : Host) (hpool : h.pool = some ⟨limit, 0⟩)
    (calls : List ReadersCall) : (Readers.run c calls h).Balanced limit := by
  have hfrom (s : Readers) (hs : s.Balanced limit) :
      (calls.foldl (Readers.step c) s).Balanced limit := by
    induction calls generalizing s with
    | nil => exact hs
    | cons call calls ih => exact ih _ (hs.step c call)
  exact hfrom _ ⟨List.forall_mem_nil _, hpool⟩

/-- **Memory of many readers.** Whatever calls are made of readers that share a host with limited
memory, the memory that is reserved is the sum of the lengths of the streams that they have open. A
reader that is done is closed and has no share in it; when all of them are, no memory is
reserved. -/
theorem reserved_run (c : Codec) (limit : Nat) (h : Host) (calls : List ReadersCall) :
    let s := Readers.run c calls { h with pool := some ⟨limit, 0⟩ }
    s.host.pool = some ⟨limit, (s.slots.map Slot.openLength).sum⟩ ∧
    (∀ slot ∈ s.slots, slot.isDone = true →
      slot.openLength = 0 ∧ ∀ r, slot.reader = some r → r.position = none) ∧
    ((∀ slot ∈ s.slots, slot.isDone = true) → s.host.pool = some ⟨limit, 0⟩) := by
  intro s
  have hs : s.Balanced limit := balanced_run c { h with pool := some ⟨limit, 0⟩ } rfl calls
  have hzero (slot : Slot) (hmem : slot ∈ s.slots) (hdone : slot.isDone = true) :
      slot.openLength = 0 :=
    (hs.sound slot hmem).openLength_of_isDone hdone
  refine ⟨hs.pool_eq, fun slot hmem hdone => ⟨hzero slot hmem hdone, ?_⟩, fun hall => ?_⟩
  · exact (hs.sound slot hmem).closed hdone
  · have hsum : (s.slots.map Slot.openLength).sum = 0 := by
      refine List.sum_eq_zero_iff_forall_eq_nat.2 fun n hn => ?_
      obtain ⟨slot, hmem, rfl⟩ := List.mem_map.1 hn
      exact hzero slot hmem (hall slot hmem)
    rw [hs.pool_eq, hsum]

/-- Two readers of a stream of 520 bytes, where there is no room for both: the second one is
refused, and is done. -/
example :
    let b : Batch := ⟨1, [⟨"a", false, ⟨.int64, [some 7]⟩⟩], by decide⟩
    let buffer : Buffer := ⟨⟨0⟩, [Stream.ofBatches [b]]⟩
    let s := Readers.run {} [.start [] buffer, .start [] buffer, .next 0, .next 1]
      { pool := some ⟨1000, 0⟩ }
    s.host.pool = some ⟨1000, 520⟩ ∧ s.slots.map (·.isDone) = [false, true] := by
  decide +kernel

end Readers

end Columnar.Block
