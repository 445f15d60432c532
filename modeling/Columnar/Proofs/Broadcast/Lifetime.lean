import Columnar.Proofs.Block.Accounting
import Columnar.Proofs.Block.Codec
import Columnar.Proofs.Block.References
import Columnar.Proofs.Dataset.Lifecycle
import Columnar.Proofs.Dataset.Reading

/-!
# Lifetime of buffers

A buffer lives as long as there are references to it, and these are taken and given up by handles,
datasets, the registry and iterators, in any order. `Owners` is all of them together, and
`Owners.Call` is what can be done. After any calls each of them has the references that it should
have, and there are no others (`Owners.lifetime`).

To remove buffers from the registry does not touch those who hold them: whatever is done after that,
the iterators are the same as without (`Owners.Alike`).
-/

namespace Columnar

open Block (Codec Reader)

/-! ### Iterators over blocks -/

/-- How iterators use readers of blocks, whatever the codec is. -/
def Block.batchReader : BatchReader Reader Host :=
  ({} : Codec).source

/-- Runs of the same metrics and the same memory. -/
structure Run.Alike (run run' : Run Host) : Prop where
  /-- The metrics are the same. -/
  metrics_eq : run.metrics = run'.metrics
  /-- The memory is the same. -/
  pool_eq : run.world.pool = run'.world.pool

namespace Life

open Block (batchReader)

/-- The references to a buffer that an iterator has. -/
def references (id : BroadcastId) (l : Life Reader) : Nat :=
  (l.iterator.reader.map (·.references id)).getD 0

/-- An iterator that is open reads from a reader that is. -/
def IsReading (l : Life Reader) : Prop :=
  ∀ r, l.iterator.reader = some r → r.position ≠ none

private theorem isReading_of_closed {l : Life Reader} (h : l.iterator.reader = none) :
    l.IsReading := by
  intro r hr
  rw [h] at hr
  cases hr

/-- What a call of an iterator comes to for the references to a buffer, of which others have
some. -/
structure Keeps (id : BroadcastId) (others : Nat) (out : Life Reader × Run Host) : Prop where
  /-- The iterator has the references besides those of others. -/
  references_eq : out.2.world.references id = others + out.1.references id
  /-- If it is open, its reader is. -/
  isReading : out.1.IsReading

variable {id : BroadcastId} {others : Nat} {l : Life Reader} {run : Run Host}

/-- **References of iterators.** A call leaves an iterator with the references that it should have,
and does not touch those of others. -/
theorem call_keeps (c : IteratorCall) (hl : l.IsReading)
    (hr : run.world.references id = others + l.references id) :
    Keeps id others (l.call batchReader c run) := by
  unfold call
  split
  · exact ⟨hr, hl⟩
  obtain ⟨⟨p, meter, _ | r⟩, calls, answers, events⟩ := l
  · cases c <;> exact ⟨hr, hl⟩
  · replace hr : run.world.references id = others + r.references id := hr
    cases c with
    | next =>
      obtain ⟨hreferences, hopen⟩ := Reader.next_refers hr
      rcases hnext : r.next run.world with ⟨item, r', world⟩
      rw [hnext] at hreferences hopen
      have hnext' : batchReader.next r run.world = (item, r', world) := hnext
      simp only [BatchIterator.next, hnext']
      rcases item with _ | e | b
      · exact ⟨Reader.references_close hreferences, isReading_of_closed rfl⟩
      · exact ⟨Reader.references_close hreferences, isReading_of_closed rfl⟩
      · refine ⟨hreferences, ?_⟩
        rintro _ ⟨⟩
        exact hopen b rfl
    | close => exact ⟨Reader.references_close hr, isReading_of_closed rfl⟩
    | drop => exact ⟨Reader.references_close hr, isReading_of_closed rfl⟩

/-- What comes of a call depends on the metrics and on the memory only. -/
private theorem call_alike (l : Life Reader) (c : IteratorCall) {run' : Run Host}
    (hrun : run.Alike run') :
    (l.call batchReader c run).1 = (l.call batchReader c run').1 ∧
      (l.call batchReader c run).2.Alike (l.call batchReader c run').2 := by
  obtain ⟨hmetrics, hpool⟩ := hrun
  unfold call
  split
  · exact ⟨rfl, hmetrics, hpool⟩
  obtain ⟨⟨p, meter, _ | r⟩, calls, answers, events⟩ := l
  · cases c <;> exact ⟨rfl, hmetrics, hpool⟩
  · cases c with
    | next =>
      obtain ⟨hitem, hreader, hpool⟩ := Reader.next_alike r hpool
      rcases hnext : r.next run.world with ⟨item, r', world⟩
      rcases hnext' : r.next run'.world with ⟨item', r'', world'⟩
      rw [hnext, hnext'] at hitem hreader hpool
      obtain rfl : item = item' := hitem
      obtain rfl : r' = r'' := hreader
      have hcall : batchReader.next r run.world = (item, r', world) := hnext
      have hcall' : batchReader.next r run'.world = (item, r', world') := hnext'
      simp only [BatchIterator.next, eventsOf, BatchReader.recorded, hcall, hcall', hmetrics]
      rcases item with _ | e | b
      · exact ⟨rfl, rfl, (Reader.close_alike hpool).2⟩
      · exact ⟨rfl, rfl, (Reader.close_alike hpool).2⟩
      · exact ⟨rfl, rfl, hpool⟩
    | close => exact ⟨rfl, hmetrics, (Reader.close_alike hpool).2⟩
    | drop => exact ⟨rfl, hmetrics, (Reader.close_alike hpool).2⟩

end Life

/-! ### Owners -/

/-- Something that has a reference to a buffer, and with which one gets at it. -/
inductive Holder where
  /-- A handle. -/
  | handle (buffer : Buffer)
  /-- A dataset, which owns a handle. -/
  | dataset (n : UInt64) (c : Codec) (fields : List Field) (buffer : Buffer)

/-- The buffer of a holder. -/
def Holder.buffer : Holder → Buffer
  | handle b => b
  | dataset _ _ _ b => b

/-- Everyone who has references to buffers. -/
structure Owners extends Lives Reader Host where
  /-- The handles and datasets, in the order in which they were made; those that were given up are
  left out, but not their places. -/
  holders : List (Option Holder) := []
  /-- The registry. -/
  registry : Registry := {}
  /-- What was done to it, the latest change first. -/
  changes : List Registry.Change := []

/-- What can be done with a handle or a dataset. -/
inductive Holder.Call where
  /-- Makes another handle on its buffer. -/
  | handle
  /-- Makes another one of it. -/
  | clone
  /-- Gives it up. -/
  | drop
  /-- Gives a handle to the registry. -/
  | register
  /-- Makes a handle a dataset. -/
  | build (n : UInt64) (c : Codec) (fields : List Field)
  /-- Makes an iterator over a partition of a dataset. -/
  | compute (p : Partition)

/-- What can be done. Handles and datasets are called by their places, and iterators by their
numbers. -/
inductive Owners.Call where
  /-- Makes a buffer. Identities are random, and are taken for different; buffers of the same one
  would be counted together. -/
  | create (buffer : Buffer)
  /-- Makes a buffer of some groups of batches. -/
  | ofGroups (c : Codec) (id : BroadcastId) (groups : List (List Batch))
  /-- Asks the registry for a buffer. -/
  | get (id : BroadcastId)
  /-- Removes a buffer from the registry. -/
  | remove (id : BroadcastId)
  /-- Removes all buffers from the registry. -/
  | clear
  /-- Does something with a handle or a dataset. -/
  | holder (i : Nat) (call : Holder.Call)
  /-- Calls an iterator. -/
  | iterator (i : Nat) (call : IteratorCall)

namespace Owners

/-- One holder more. -/
def push (s : Owners) (x : Option Holder) (host : Host) : Owners :=
  { s with holders := s.holders ++ [x], run.world := host }

/-- Does something with a holder. -/
def callHolder (s : Owners) (i : Nat) (x : Holder) : Holder.Call → Owners
  | .handle => s.push (some (.handle x.buffer)) (s.run.world.retain x.buffer.id)
  | .clone => s.push (some x) (s.run.world.retain x.buffer.id)
  | .drop =>
    { s with holders := s.holders.set i none, run.world := s.run.world.release x.buffer.id }
  | .register =>
    match x with
    | .handle b =>
      let (_, registry, host) := s.registry.register b s.run.world
      { s with
        holders := s.holders.set i none
        registry
        changes := .registered b :: s.changes
        run.world := host.release b.id }
    | .dataset .. => s
  | .build n c fields =>
    match x with
    | .handle b => { s with holders := s.holders.set i (some (.dataset n c fields b)) }
    | .dataset .. => s
  | .compute p =>
    match x with
    | .handle _ => s
    | .dataset n c fields b =>
      match (Dataset.ofBuffer n c fields b).compute p s.run with
      | (.ok iterator, run) => { s with lives := s.lives ++ [{ iterator }], run }
      | (.error _, run) => { s with run }

/-- Does something. There is nothing to do with what was given up. -/
def step (s : Owners) : Call → Owners
  | .create b => s.push (some (.handle b)) (s.run.world.retain b.id)
  | .ofGroups c id groups =>
    let (b, host) := Buffer.ofGroups c id groups s.run.world
    s.push (some (.handle b)) host
  | .get id =>
    let (b, host) := s.registry.get id s.run.world
    s.push (b.map .handle) host
  | .remove id =>
    let (_, registry, host) := s.registry.remove id s.run.world
    { s with registry, changes := .removed id :: s.changes, run.world := host }
  | .clear =>
    let (registry, host) := s.registry.clear s.run.world
    { s with registry, changes := .cleared :: s.changes, run.world := host }
  | .holder i call =>
    match s.holders[i]? with
    | some (some x) => s.callHolder i x call
    | _ => s
  | .iterator i call => { s with toLives := s.toLives.step Block.batchReader (.call i call) }

/-- What has become of everyone, from a host without references. -/
def after (calls : List Call) (host : Host) : Owners :=
  calls.foldl step { lives := [], run := ⟨{}, { host with references := fun _ => 0 }⟩ }

/-! ### References -/

/-- The references to a buffer that a holder has, if it is there. -/
def heldBy (id : BroadcastId) (x : Option Holder) : Nat :=
  (x.map (·.buffer.id.one id)).getD 0

/-- As many references are held as there are handles and datasets. -/
private theorem sum_heldBy (holders : List (Option Holder)) (id : BroadcastId) :
    (holders.map (heldBy id)).sum = (holders.filterMap (·.map (·.buffer.id))).count id := by
  induction holders with
  | nil => rfl
  | cons x holders ih =>
    cases x with
    | none => simpa [heldBy] using ih
    | some x =>
      have hheld : heldBy id (some x) = x.buffer.id.one id := rfl
      have hcons : (some x :: holders).filterMap (·.map (·.buffer.id)) =
          x.buffer.id :: holders.filterMap (·.map (·.buffer.id)) := rfl
      rw [List.map_cons, List.sum_cons, ih, hcons, List.count_cons, hheld, BroadcastId.one_eq_beq,
        Nat.add_comm]

/-- What is known of everyone. -/
structure IsSound (s : Owners) : Prop where
  /-- The registry has what its history says. -/
  reflects : s.registry.Reflects s.changes
  /-- The iterators that are open have readers that are. -/
  isReading : ∀ l ∈ s.lives, l.IsReading
  /-- The references are those of everyone. -/
  references_eq : ∀ id, s.run.world.references id = (s.holders.map (heldBy id)).sum +
    s.registry.references id + (s.lives.map (Life.references id)).sum

variable {s : Owners}

/-- One holder more, with its reference. -/
private theorem IsSound.push (hs : s.IsSound) {x : Option Holder} {host : Host}
    (hhost : ∀ id, host.references id = s.run.world.references id + heldBy id x) :
    (s.push x host).IsSound where
  reflects := hs.reflects
  isReading := hs.isReading
  references_eq id := by
    have hsum : (s.push x host).holders.map (heldBy id) =
        s.holders.map (heldBy id) ++ [heldBy id x] := List.map_append
    have heq := hs.references_eq id
    have hnew := hhost id
    rw [hsum, List.sum_append, List.sum_singleton]
    simp only [Owners.push]
    omega

/-- Something is done to the registry, which does not touch the references of others. -/
private theorem IsSound.registry (hs : s.IsSound) {registry : Registry} {change : Registry.Change}
    {host : Host} (hreflects : registry.Reflects (change :: s.changes))
    (hregistry : ∀ id others, s.run.world.references id = others + s.registry.references id →
      host.references id = others + registry.references id) :
    IsSound { s with registry, changes := change :: s.changes, run.world := host } where
  reflects := hreflects
  isReading := hs.isReading
  references_eq id := by
    have heq := hs.references_eq id
    rw [Nat.add_right_comm] at heq ⊢
    exact hregistry id _ heq

/-- An iterator is called, which does not touch the references of others. -/
private theorem IsSound.iterator (hs : s.IsSound) {i : Nat} {l : Life Reader}
    (hi : s.lives[i]? = some l) (c : IteratorCall) :
    IsSound { s with
      lives := s.lives.set i (l.call Block.batchReader c s.run).1
      run := (l.call Block.batchReader c s.run).2 } := by
  have hkeeps (id : BroadcastId) : ∃ others,
      (∀ l', ((s.lives.set i l').map (Life.references id)).sum = others + l'.references id) ∧
        Life.Keeps id ((s.holders.map (heldBy id)).sum + s.registry.references id + others)
          (l.call Block.batchReader c s.run) := by
    obtain ⟨others, hsum, hset⟩ := Block.sum_map_set (Life.references id) hi
    have heq := hs.references_eq id
    rw [hsum, ← Nat.add_assoc] at heq
    exact ⟨others, hset, Life.call_keeps c (hs.isReading l (List.mem_of_getElem? hi)) heq⟩
  refine ⟨hs.reflects, fun l' hl' => ?_, fun id => ?_⟩
  · obtain hl' | rfl := List.mem_or_eq_of_mem_set hl'
    · exact hs.isReading l' hl'
    · obtain ⟨_, _, hcall⟩ := hkeeps ⟨0⟩
      exact hcall.isReading
  · obtain ⟨others, hset, hcall⟩ := hkeeps id
    rw [hset, ← Nat.add_assoc]
    exact hcall.references_eq

/-- An iterator that is made has one reference. -/
private theorem IsSound.compute (hs : s.IsSound) (n : UInt64) (c : Codec) (fields : List Field)
    (b : Buffer)
    (p : Partition) {i : Nat} : (s.callHolder i (.dataset n c fields b) (.compute p)).IsSound := by
  by_cases hp : n ≤ p.index
  · have hrange : (Dataset.ofBuffer n c fields b).numPartitions ≤ p.index := hp
    simp only [Owners.callHolder, Dataset.compute, if_pos hrange]
    exact ⟨hs.reflects, hs.isReading, hs.references_eq⟩
  · simp only [Owners.callHolder, Dataset.compute_ofBuffer (UInt64.not_le.1 hp)]
    refine ⟨hs.reflects, fun l hl => ?_, fun id => ?_⟩
    · obtain hl | hl := List.mem_append.1 hl
      · exact hs.isReading l hl
      · obtain rfl := List.mem_singleton.1 hl
        rintro _ ⟨⟩
        exact Option.some_ne_none _
    · rw [List.map_append, List.sum_append, ← Nat.add_assoc, ← hs.references_eq id]
      exact Reader.references_start c fields b rfl

/-- One holder is put in place of another, with its reference. -/
private theorem IsSound.set (hs : s.IsSound) {i : Nat} {x : Holder}
    (hi : s.holders[i]? = some (some x)) {y : Option Holder} {host : Host}
    (hhost : ∀ id others, s.run.world.references id = others + x.buffer.id.one id →
      host.references id = others + heldBy id y) :
    IsSound { s with holders := s.holders.set i y, run.world := host } where
  reflects := hs.reflects
  isReading := hs.isReading
  references_eq id := by
    obtain ⟨others, hsum, hset⟩ := Block.sum_map_set (heldBy id) hi
    have hheld : heldBy id (some x) = x.buffer.id.one id := rfl
    have heq := hs.references_eq id
    rw [hsum, hheld] at heq
    have hnew := hhost id
      (others + s.registry.references id + (s.lives.map (Life.references id)).sum) (by omega)
    dsimp only
    rw [hset, hnew]
    omega

/-- Whatever is done with a holder, everyone has the references that they should have. -/
private theorem IsSound.callHolder (hs : s.IsSound) {i : Nat} {x : Holder}
    (hi : s.holders[i]? = some (some x)) (call : Holder.Call) :
    (s.callHolder i x call).IsSound := by
  have hrelease (host : Host) (id : BroadcastId) (others : Nat)
      (hr : host.references id = others + x.buffer.id.one id) :
      (host.release x.buffer.id).references id = others + heldBy id none := by
    rw [Host.references_release, hr]
    exact Nat.add_sub_cancel _ _
  cases call with
  | handle => exact hs.push fun id => Host.references_retain ..
  | clone => exact hs.push fun id => Host.references_retain ..
  | drop => exact hs.set hi (hrelease _)
  | register =>
    cases x with
    | dataset n c fields b => exact hs
    | handle b =>
      have hregistered := hs.registry (hs.reflects.register b s.run.world)
        fun id others hr => Registry.references_register b hr
      exact hregistered.set hi (hrelease _)
  | build n c fields =>
    cases x with
    | dataset n c fields b => exact hs
    | handle b => exact hs.set hi fun id others hr => hr
  | compute p =>
    cases x with
    | dataset n c fields b => exact hs.compute n c fields b p
    | handle b => exact hs

/-- **Step.** Whatever is done, everyone has the references that they should have. -/
theorem IsSound.step (hs : s.IsSound) (call : Call) : (s.step call).IsSound := by
  cases call with
  | create b => exact hs.push fun id => Host.references_retain ..
  | ofGroups c id groups => exact hs.push fun id => Host.references_retain ..
  | get id =>
    simp only [Owners.step, Registry.get_eq]
    refine hs.push fun i => ?_
    cases hfind : s.registry.find? id with
    | none => rfl
    | some b =>
      have hid : b.id = id := by simpa using List.find?_some hfind
      simp only [Option.isSome_some, if_true, Host.references_retain]
      rw [← hid]
      rfl
  | remove id =>
    refine hs.registry (hs.reflects.remove id s.run.world) fun i others hr => ?_
    exact Registry.references_remove id hr
  | clear =>
    refine hs.registry (Registry.reflects_clear s.changes) fun i others hr => ?_
    exact Registry.references_clear hs.reflects.nodup_ids hr
  | holder i call =>
    simp only [Owners.step]
    split
    · next x hi => exact hs.callHolder hi call
    · exact hs
  | iterator i call =>
    simp only [Owners.step, Lives.step]
    cases hi : s.lives[i]? with
    | none => exact hs
    | some l => exact hs.iterator hi call

theorem isSound_after (calls : List Call) (host : Host) : (after calls host).IsSound :=
  List.foldlRecOn calls step ⟨Registry.reflects_nil, List.forall_mem_nil _, fun _ => rfl⟩
    fun _ hs call _ => hs.step call

/-! ### Removals -/

/-- What a call is about is there. -/
def Call.IsPossible (s : Owners) : Call → Prop
  | .holder i _ => ∃ x, s.holders[i]? = some (some x)
  | _ => True

/-- What calls are about is there, each time. -/
def ArePossible : Owners → List Call → Prop
  | _, [] => True
  | s, call :: calls => call.IsPossible s ∧ ArePossible (s.step call) calls

/-- A call that removes buffers from the registry. -/
def Call.IsRemoval : Call → Prop
  | .remove _ | .clear => True
  | _ => False

/-- The same iterators and the same memory. What can be done with the one can be done with the
other, which may have more holders and more registered buffers. -/
structure Alike (s s' : Owners) : Prop where
  /-- The iterators are the same. -/
  lives_eq : s.lives = s'.lives
  /-- The metrics are the same, and the memory. -/
  run_alike : s.run.Alike s'.run
  /-- There are as many places for holders. -/
  length_eq : s.holders.length = s'.holders.length
  /-- The holders of the one are there. -/
  holders_le : ∀ (i : Nat) x, s.holders[i]? = some (some x) → s'.holders[i]? = some (some x)
  /-- The registered buffers of the one are there. -/
  find?_le : ∀ id b, s.registry.find? id = some b → s'.registry.find? id = some b

variable {s' : Owners}

private theorem Alike.push (h : s.Alike s') {x x' : Option Holder} {host host' : Host}
    (hx : ∀ y, x = some y → x' = some y) (hpool : host.pool = host'.pool) :
    (s.push x host).Alike (s'.push x' host') where
  lives_eq := h.lives_eq
  run_alike := ⟨h.run_alike.metrics_eq, hpool⟩
  length_eq := by simp only [Owners.push, List.length_append, h.length_eq, List.length_singleton]
  holders_le i y hy := by
    simp only [Owners.push, List.getElem?_append, List.getElem?_singleton, ← h.length_eq] at hy ⊢
    split at hy
    · rw [if_pos ‹_›]
      exact h.holders_le i y hy
    · rw [if_neg ‹_›]
      obtain ⟨hi, hy⟩ := Option.ite_none_right_eq_some.1 hy
      rw [if_pos hi, hx y (Option.some.inj hy)]
  find?_le := h.find?_le

/-- The same is put in the same place. -/
private theorem Alike.set (h : s.Alike s') (i : Nat) (x : Option Holder) :
    (s.holders.set i x).length = (s'.holders.set i x).length ∧
      ∀ (j : Nat) y, (s.holders.set i x)[j]? = some (some y) →
        (s'.holders.set i x)[j]? = some (some y) := by
  refine ⟨by simp only [List.length_set, h.length_eq], fun j y hy => ?_⟩
  rw [List.getElem?_set] at hy ⊢
  split at hy
  · rwa [if_pos ‹_›, ← h.length_eq]
  · rw [if_neg ‹_›]
    exact h.holders_le j y hy

private theorem Alike.callHolder (h : s.Alike s') (i : Nat) (x : Holder) (call : Holder.Call) :
    (s.callHolder i x call).Alike (s'.callHolder i x call) := by
  obtain ⟨hmetrics, hpool⟩ := h.run_alike
  cases call with
  | handle => exact h.push (fun _ hy => hy) hpool
  | clone => exact h.push (fun _ hy => hy) hpool
  | drop =>
    obtain ⟨hlength, hle⟩ := h.set i none
    exact ⟨h.lives_eq, ⟨hmetrics, hpool⟩, hlength, hle, h.find?_le⟩
  | register =>
    cases x with
    | dataset n c fields b => exact h
    | handle b =>
      obtain ⟨hlength, hle⟩ := h.set i none
      refine ⟨h.lives_eq, ⟨hmetrics, ?_⟩, hlength, hle, fun id b' hb' => ?_⟩
      · exact (Registry.pool_register b).trans (hpool.trans (Registry.pool_register b).symm)
      · simp only [Owners.callHolder, Registry.find?_register] at hb' ⊢
        split at hb'
        · rwa [if_pos ‹_›]
        · rw [if_neg ‹_›]
          exact h.find?_le id b' hb'
  | build n c fields =>
    cases x with
    | dataset n c fields b => exact h
    | handle b =>
      obtain ⟨hlength, hle⟩ := h.set i (some (.dataset n c fields b))
      exact ⟨h.lives_eq, ⟨hmetrics, hpool⟩, hlength, hle, h.find?_le⟩
  | compute p =>
    cases x with
    | handle b => exact h
    | dataset n c fields b =>
      by_cases hp : n ≤ p.index
      · have hrange : (Dataset.ofBuffer n c fields b).numPartitions ≤ p.index := hp
        simp only [Owners.callHolder, Dataset.compute, if_pos hrange]
        exact h
      · simp only [Owners.callHolder, Dataset.compute_ofBuffer (UInt64.not_le.1 hp), h.lives_eq,
          hmetrics]
        exact ⟨rfl, ⟨rfl, hpool⟩, h.length_eq, h.holders_le, h.find?_le⟩

/-- **Step.** What can be done with one of them comes to the same with the other. -/
theorem Alike.step (h : s.Alike s') {call : Call} (hcall : call.IsPossible s) :
    (s.step call).Alike (s'.step call) := by
  obtain ⟨hmetrics, hpool⟩ := h.run_alike
  cases call with
  | create b => exact h.push (fun _ hy => hy) hpool
  | ofGroups c id groups =>
    refine h.push (fun y hy => ?_) hpool
    rw [← hy]
    exact congrArg (fun blocks => some (Holder.handle ⟨id, blocks⟩)) (Codec.writeAll_fst groups _ _)
  | get id =>
    refine h.push (fun y hy => ?_)
      ((Registry.pool_get id).trans (hpool.trans (Registry.pool_get id).symm))
    change Option.map Holder.handle (s.registry.get id s.run.world).1 = some y at hy
    change Option.map Holder.handle (s'.registry.get id s'.run.world).1 = some y
    rw [Registry.get_eq] at hy ⊢
    obtain ⟨b, hb, rfl⟩ := Option.map_eq_some_iff.1 hy
    exact Option.map_eq_some_iff.2 ⟨b, h.find?_le id b hb, rfl⟩
  | remove id =>
    refine ⟨h.lives_eq, ⟨hmetrics, ?_⟩, h.length_eq, h.holders_le, fun i b hb => ?_⟩
    · exact (Registry.pool_remove id).trans (hpool.trans (Registry.pool_remove id).symm)
    · simp only [Owners.step, Registry.find?_remove] at hb ⊢
      obtain ⟨hi, hb⟩ := Option.ite_none_left_eq_some.1 hb
      rw [if_neg hi]
      exact h.find?_le i b hb
  | clear =>
    exact ⟨h.lives_eq, ⟨hmetrics, Registry.pool_clear.trans (hpool.trans Registry.pool_clear.symm)⟩,
      h.length_eq, h.holders_le, fun _ _ hb => hb⟩
  | holder i call =>
    obtain ⟨x, hx⟩ := hcall
    simp only [Owners.step, hx, h.holders_le i x hx]
    exact h.callHolder i x call
  | iterator i c =>
    simp only [Owners.step, Lives.step, ← h.lives_eq]
    cases s.lives[i]? with
    | none => exact ⟨h.lives_eq, ⟨hmetrics, hpool⟩, h.length_eq, h.holders_le, h.find?_le⟩
    | some l =>
      obtain ⟨hl, hrun⟩ := l.call_alike c h.run_alike
      dsimp only
      rw [hl]
      exact ⟨rfl, hrun, h.length_eq, h.holders_le, h.find?_le⟩

theorem Alike.foldl (h : s.Alike s') {calls : List Call} (hcalls : ArePossible s calls) :
    (calls.foldl Owners.step s).Alike (calls.foldl Owners.step s') := by
  induction calls generalizing s s' with
  | nil => exact h
  | cons call calls ih => exact ih (h.step hcalls.1) hcalls.2

/-- What is left after a removal is nothing new. -/
theorem alike_removal (s : Owners) {call : Call} (hcall : call.IsRemoval) :
    (s.step call).Alike s := by
  cases call with
  | remove id =>
    refine ⟨rfl, ⟨rfl, Registry.pool_remove id⟩, rfl, fun _ _ hx => hx, fun i b hb => ?_⟩
    simp only [Owners.step, Registry.find?_remove] at hb
    exact (Option.ite_none_left_eq_some.1 hb).2
  | clear => exact ⟨rfl, ⟨rfl, Registry.pool_clear⟩, rfl, fun _ _ hx => hx, nofun⟩
  | create | ofGroups | get | holder | iterator => exact hcall.elim

/-- **Lifetime of buffers.** After any calls:

* A buffer is found in the registry exactly if it was registered and not removed since; it is the
  one that was registered last under its identity. Removing a buffer tells whether it was there, and
  the identities of the registered buffers are listed once each.
* There are as many references to a buffer as there are handles and datasets, one more if it is
  registered, and those of iterators. A closed iterator has none. An open one has a reference to its
  buffer, and another one as long as it reads a block that is not compressed.
* If buffers are removed from the registry, the iterators are the same as if they were not, whatever
  is done after that with what there is. -/
theorem lifetime (calls : List Call) (host : Host) :
    let s := after calls host
    (∀ id h, (s.registry.get id h).1 = Registry.latest? id s.changes ∧
      ((s.registry.get id h).1.isSome ↔ Registry.WasRegistered id s.changes) ∧
      ((s.registry.remove id h).1 = true ↔ Registry.WasRegistered id s.changes) ∧
      (id ∈ s.registry.ids ↔ Registry.WasRegistered id s.changes)) ∧
    s.registry.ids.Nodup ∧
    (∀ id h, s.run.world.references id = (s.holders.filterMap (·.map (·.buffer.id))).count id +
      (if (s.registry.get id h).1.isSome then 1 else 0) + (s.lives.map (Life.references id)).sum) ∧
    (∀ l ∈ s.lives, ∀ id,
      match l.iterator.reader with
      | none => l.references id = 0
      | some r => ∃ p, r.position = some p ∧ l.references id =
          if p.buffer.id = id then if r.codec.compressor = none ∧ p.current ≠ none then 2 else 1
          else 0) ∧
    ∀ (removal : Call) (later : List Call), removal.IsRemoval → ArePossible (s.step removal) later →
      (later.foldl Owners.step (s.step removal)).lives = (later.foldl Owners.step s).lives := by
  intro s
  have hs : s.IsSound := isSound_after calls host
  have hget (id : BroadcastId) (h : Host) :
      (s.registry.get id h).1 = Registry.latest? id s.changes := by
    rw [Registry.get_eq, hs.reflects.find?_eq]
  refine ⟨fun id h => ⟨hget id h, ?_, ?_, ?_⟩, hs.reflects.nodup_ids, fun id h => ?_,
    fun l hl id => ?_, fun removal later hremoval hlater => ?_⟩
  · rw [hget, Registry.isSome_latest?_iff]
  · rw [Registry.remove_fst, hs.reflects.contains_iff]
  · rw [Registry.mem_ids_iff, hs.reflects.contains_iff]
  · rw [hs.references_eq, Registry.references, Registry.contains_eq, Registry.get_eq, sum_heldBy]
    cases (s.registry.find? id).isSome <;> rfl
  · cases hr : l.iterator.reader with
    | none => rw [Life.references, hr]; rfl
    | some r =>
      obtain ⟨p, hp⟩ := Option.ne_none_iff_exists'.1 (hs.isReading l hl r hr)
      refine ⟨p, hp, ?_⟩
      rw [Life.references, hr, Option.map_some, Option.getD_some, Reader.references_eq hp]
  · exact ((alike_removal s hremoval).foldl hlater).lives_eq

/-- A registered buffer is removed while it is read, and then the iterator is closed. -/
example :
    let b : Batch := ⟨1, [⟨"a", false, ⟨.int64, [some 7]⟩⟩], by decide⟩
    let calls : List Call := [.create ⟨⟨0⟩, [Stream.ofBatches [b]]⟩, .holder 0 .clone,
      .holder 1 .register, .holder 0 (.build 1 {} []), .holder 0 (.compute ⟨0⟩), .iterator 0 .next]
    let references (later : List Call) := (after (calls ++ later) {}).run.world.references ⟨0⟩
    references [] = 4 ∧ references [.remove ⟨0⟩] = 3 ∧
      references [.remove ⟨0⟩, .iterator 0 .close] = 1 := by
  decide +kernel

end Owners

end Columnar
