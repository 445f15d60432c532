import Columnar.Proofs.Block.Step
import Columnar.Proofs.Broadcast.Registry

/-!
# References of readers

An open reader has one reference to its buffer, and another one as long as a block is open that it
reads where it stands; a closed one has none. All its steps keep this up, beside the references of
others (`Reader.next_refers`, `Reader.references_close`).

A step looks at the memory of the host and at nothing else of it, so that it comes to the same in
every host with the same memory, whatever references there are (`Reader.next_alike`).
-/

namespace Columnar.Block

/-! ### Opening a block -/

/-- Leases of the same memory. -/
structure Lease.Alike (l l' : Lease) : Prop where
  /-- The same is reserved. -/
  reserved_eq : l.reserved = l'.reserved
  /-- The pool is the same. -/
  pool_eq : l.host.pool = l'.host.pool

/-- A step of opening a block that does nothing about references, and of the host looks at its
memory only. -/
structure IsBlind {α : Type} (x : Opening α) : Prop where
  /-- References are neither taken nor given up. -/
  references_eq : ∀ l, (x l).2.host.references = l.host.references
  /-- It comes to the same where the memory is the same. -/
  alike : ∀ l l', l.Alike l' → (x l).1 = (x l').1 ∧ (x l).2.Alike (x l').2

namespace IsBlind

variable {α β : Type} {x : Opening α} {f : α → Opening β}

theorem pure (a : α) : IsBlind (pure a : Opening α) :=
  ⟨fun _ => rfl, fun _ _ h => ⟨rfl, h⟩⟩

theorem throw (o : Obstacle) : IsBlind (throw o : Opening α) :=
  ⟨fun _ => rfl, fun _ _ h => ⟨rfl, h⟩⟩

/-- Two steps that are blind to the references are blind together. -/
theorem bind (hx : IsBlind x) (hf : ∀ a, IsBlind (f a)) : IsBlind (x >>= f) where
  references_eq l := by
    have hfirst := hx.references_eq l
    rcases hl : x l with ⟨_ | a, k⟩
    · rw [ExceptT.bind_of_error hl, ← hfirst, hl]
    · rw [ExceptT.bind_of_ok hl, (hf a).references_eq, ← hfirst, hl]
  alike l l' h := by
    obtain ⟨hout, hk⟩ := hx.alike l l' h
    rcases hl : x l with ⟨o | a, k⟩ <;> rcases hl' : x l' with ⟨o' | a', k'⟩ <;>
      rw [hl, hl'] at hout hk <;> cases hout
    · rw [ExceptT.bind_of_error hl, ExceptT.bind_of_error hl']
      exact ⟨rfl, hk⟩
    · rw [ExceptT.bind_of_ok hl, ExceptT.bind_of_ok hl']
      exact (hf a).alike k k' hk

/-- What is counted or logged on the way does not matter. -/
theorem of_host (hx : IsBlind x) {y : Opening α} (g : Host → Host)
    (hg : ∀ h, (g h).references = h.references ∧ (g h).pool = h.pool)
    (hy : ∀ l, y l = x { l with host := g l.host }) : IsBlind y where
  references_eq l := by rw [hy, hx.references_eq, (hg l.host).1]
  alike l l' h := by
    rw [hy, hy]
    refine hx.alike _ _ ⟨h.reserved_eq, ?_⟩
    rw [(hg l.host).2, (hg l'.host).2, h.pool_eq]

end IsBlind

/-- Memory is reserved without regard to the references. -/
private theorem isBlind_reserve (n : Nat) : IsBlind (reserve n) where
  references_eq l := by
    rw [reserve_apply]
    split
    · rfl
    · split <;> rfl
  alike l l' h := by
    rw [reserve_apply, reserve_apply, h.reserved_eq, h.pool_eq]
    cases hpool : l'.host.pool with
    | none => exact ⟨rfl, h⟩
    | some pool =>
      dsimp only
      cases pool.resize l'.reserved n with
      | some grown => exact ⟨rfl, rfl, rfl⟩
      | none => exact ⟨rfl, h⟩

private theorem isBlind_decode (c : Codec) (index : Nat) (block : Bytes) :
    IsBlind (decode c index block) := by
  obtain ⟨_ | p⟩ := c
  · exact (isBlind_reserve _).bind fun _ => .pure block
  · refine (isBlind_reserve _).bind fun _ => ?_
    have hget (k : Lease) : (get : Opening Lease) k = (.ok k, k) := rfl
    have hset (k m : Lease) : (set m : Opening Unit) k = (.ok (), m) := rfl
    -- The counts of the compressor change, and nothing depends on them.
    cases hd : p.decode block with
    | error d =>
      refine (IsBlind.throw (.badFrame index p.algorithm d.toError)).of_host (fun h => h)
        (fun _ => ⟨rfl, rfl⟩)
        fun k => (ExceptT.bind_of_ok (hget k)).trans ?_
      simp only [Compression.Compressor.decompress, hd]
      rfl
    | ok stream =>
      refine ((isBlind_reserve stream.length).bind fun _ => IsBlind.pure stream).of_host
        (fun h => { h with stats := (p.decompress h.stats block).2 }) (fun _ => ⟨rfl, rfl⟩)
        fun k => (ExceptT.bind_of_ok (hget k)).trans ?_
      simp only [Compression.Compressor.decompress, hd]
      exact ExceptT.bind_of_ok (hset k _)

/-- A block is opened without regard to the references. -/
private theorem isBlind_openBlock (c : Codec) (index : Nat) (block : Bytes) :
    IsBlind (openBlock c index block) := by
  refine (isBlind_decode c index block).bind fun stream => ?_
  by_cases hend : Stream.endMarker.isSuffixOf stream = true
  · cases hs : Stream.Reader.ofBytes stream with
    | error fault =>
      simp only [hend]
      exact .throw _
    | ok s =>
      simp only [hend]
      exact (IsBlind.pure s).of_host (Journal.note (.opened index)) (fun _ => ⟨rfl, rfl⟩)
        fun _ => rfl
  · simp only [hend]
    exact .throw _

/-! ### References of readers -/

namespace Reader

/-- The references to a buffer that a reader at a position has: one of its own, and one of the block
that it is at, if it reads that where it stands. -/
def referencesAt (r : Reader) (p : Position) (id : BroadcastId) : Nat :=
  p.buffer.id.one id + if r.readsInPlace p then p.buffer.id.one id else 0

/-- The references to a buffer that a reader has. -/
def references (r : Reader) (id : BroadcastId) : Nat :=
  (r.position.map (r.referencesAt · id)).getD 0

/-- What a step comes to for the references to a buffer, of which others have some. A reader that
has handed out a batch is open. -/
structure Refers (id : BroadcastId) (others : Nat) (out : Item × Reader × Host) : Prop where
  /-- The reader has the references besides those of others. -/
  references_eq : out.2.2.references id = others + out.2.1.references id
  /-- After a batch it is open. -/
  isOpen : ∀ b, out.1 = some (.ok b) → out.2.1.position ≠ none

variable {id : BroadcastId} {others : Nat} {r : Reader} {p : Position} {h : Host}

private theorem referencesAt_of_none (hp : p.current = none) :
    r.referencesAt p id = p.buffer.id.one id := by
  have hnot : r.readsInPlace p = false := by rw [readsInPlace, hp]; exact Bool.and_false _
  rw [referencesAt, hnot]
  rfl

/-- An open reader has one or two references, all of them to its buffer. -/
theorem references_eq (hp : r.position = some p) :
    r.references id = if p.buffer.id = id then
      if r.codec.compressor = none ∧ p.current ≠ none then 2 else 1 else 0 := by
  have hplace : r.readsInPlace p = true ↔ r.codec.compressor = none ∧ p.current ≠ none := by
    rw [readsInPlace, Bool.and_eq_true, Option.isNone_iff_eq_none, Option.isSome_iff_ne_none]
  rw [references, hp, Option.map_some, Option.getD_some, referencesAt]
  simp only [hplace]
  by_cases hid : p.buffer.id = id
  · rw [if_pos hid, hid, BroadcastId.one_self]
    split <;> rfl
  · rw [if_neg hid, BroadcastId.one_of_ne (Ne.symm hid)]
    split <;> rfl

/-- The reference of a block goes with it. -/
private theorem references_finishBlock (hr : h.references id = others + r.referencesAt p id) :
    (r.finishBlock p h).2.references id = others + r.referencesAt (r.finishBlock p h).1 id := by
  have hfree : (h.free p.reserved).references id = h.references id := rfl
  rw [referencesAt_of_none rfl]
  rw [referencesAt] at hr
  simp only [finishBlock]
  split at hr
  · rw [if_pos ‹_›, Host.references_release, hfree]
    omega
  · rw [if_neg ‹_›]
    exact hr

/-- A reader that is closed gives up its references. -/
theorem references_close (hr : h.references id = others + r.references id) :
    (r.close h).2.references id = others := by
  cases hp : r.position with
  | none =>
    have hclose : r.close h = (r, h) := by rw [close, hp]
    rw [references, hp] at hr
    rw [hclose]
    exact hr
  | some p =>
    rw [references, hp] at hr
    have hblock := references_finishBlock (p := p) hr
    rw [referencesAt_of_none rfl] at hblock
    simp only [close, hp]
    rw [Host.references_release, hblock]
    exact Nat.add_sub_cancel _ _

/-- A reader starts with one reference. -/
theorem references_start (c : Codec) (fields : List Field) (buffer : Buffer)
    (hr : h.references id = others) :
    (start c fields buffer h).2.references id =
      others + (start c fields buffer h).1.references id := by
  have hshare : (start c fields buffer h).1.references id = buffer.id.one id :=
    referencesAt_of_none (p := ⟨buffer, 0, buffer.blocks, none, 0⟩) rfl
  rw [hshare, ← hr]
  exact Host.references_retain ..

/-- A reader that is finished gives up its references, and only these. -/
private theorem finish_refers {item : Item} (hitem : ∀ b, item ≠ some (.ok b))
    (hr : h.references id = others + r.referencesAt p id) : Refers id others (r.finish p item h) :=
  ⟨references_close (r := { r with position := some p }) hr, fun b hb => absurd hb (hitem b)⟩

/-- A step within a block. -/
private theorem nextAt_refers {s : Stream.Reader} (hcurrent : p.current = some s)
    (hr : h.references id = others + r.referencesAt p id)
    (hnext : ∀ {q : Position} {h : Host}, q.current = none →
      h.references id = others + r.referencesAt q id → Refers id others (r.nextBlock q p.rest h)) :
    Refers id others (r.nextAt p s h) := by
  rw [nextAt]
  rcases r.nextInBlock p s with d | _ | ⟨b, t⟩
  · exact finish_refers (by rintro _ ⟨⟩) hr
  · exact hnext rfl (references_finishBlock hr)
  · refine ⟨hr.trans ?_, fun _ _ => Option.some_ne_none _⟩
    -- It is another place in the same block.
    rw [referencesAt, readsInPlace, hcurrent]
    rfl

/-- A step to the next block that has a batch, or is bad. -/
private theorem nextBlock_refers {blocks : List Bytes} (hcurrent : p.current = none)
    (hr : h.references id = others + r.referencesAt p id) :
    Refers id others (r.nextBlock p blocks h) := by
  induction blocks generalizing p h with
  | nil => exact finish_refers (by rintro _ ⟨⟩) hr
  | cons block rest ih =>
    have hopened := (isBlind_openBlock r.codec p.visited block).references_eq ⟨p.reserved, h⟩
    rcases hrun : (openBlock r.codec p.visited block).run ⟨p.reserved, h⟩ with ⟨o | s, k⟩
    · have hk : k.host.references = h.references :=
        (congrArg (·.2.host.references) hrun).symm.trans hopened
      simp only [nextBlock, hrun]
      refine finish_refers (by rintro _ ⟨⟩) ?_
      rw [hk, hr, referencesAt_of_none hcurrent]
      exact congrArg (others + ·) (referencesAt_of_none hcurrent).symm
    · have hk : k.host.references = h.references :=
        (congrArg (·.2.host.references) hrun).symm.trans hopened
      rw [nextBlock_of_ok rest hrun]
      refine nextAt_refers rfl ?_ fun hcurrent hr => ih hcurrent hr
      rw [referencesAt_of_none hcurrent, ← hk] at hr
      rw [referencesAt]
      split
      · rw [Host.references_retain, hr, Nat.add_assoc]
      · exact hr

/-- **References of readers.** A step of a reader leaves it with the references that it should have,
and does not touch those of others. -/
theorem next_refers (hr : h.references id = others + r.references id) :
    Refers id others (r.next h) := by
  cases hp : r.position with
  | none =>
    rw [next_of_closed hp]
    exact ⟨hr, nofun⟩
  | some p =>
    rw [references, hp] at hr
    cases hcurrent : p.current with
    | none =>
      rw [next_of_between hp hcurrent]
      exact nextBlock_refers hcurrent hr
    | some s =>
      rw [next_of_within hp hcurrent]
      exact nextAt_refers hcurrent hr fun hcurrent hr => nextBlock_refers hcurrent hr

/-! ### Hosts of the same memory -/

/-- Outcomes that are the same for the one who asks and for the memory. -/
structure Alike (out out' : Item × Reader × Host) : Prop where
  /-- The same is handed out. -/
  item_eq : out.1 = out'.1
  /-- The reader is the same. -/
  reader_eq : out.2.1 = out'.2.1
  /-- The memory is the same. -/
  pool_eq : out.2.2.pool = out'.2.2.pool

variable {host : Host}

private theorem pool_finishBlock (hpool : host.pool = h.pool) :
    (r.finishBlock p host).2.pool = (r.finishBlock p h).2.pool := by
  have hfree : (host.free p.reserved).pool = (h.free p.reserved).pool :=
    congrArg (Option.map _) hpool
  simp only [finishBlock]
  split <;> exact hfree

/-- What closing comes to depends on the memory only. -/
theorem close_alike (hpool : host.pool = h.pool) :
    (r.close host).1 = (r.close h).1 ∧ (r.close host).2.pool = (r.close h).2.pool := by
  cases hp : r.position with
  | none => simpa only [close, hp, true_and] using hpool
  | some p =>
    simp only [close, hp]
    exact ⟨trivial, pool_finishBlock hpool⟩

private theorem finish_alike (item : Item) (hpool : host.pool = h.pool) :
    Alike (r.finish p item host) (r.finish p item h) :=
  ⟨rfl, (close_alike hpool).1, (close_alike hpool).2⟩

private theorem nextAt_alike {s : Stream.Reader} (hpool : host.pool = h.pool)
    (hnext : ∀ {q : Position} {host h : Host}, host.pool = h.pool →
      Alike (r.nextBlock q p.rest host) (r.nextBlock q p.rest h)) :
    Alike (r.nextAt p s host) (r.nextAt p s h) := by
  rw [nextAt, nextAt]
  rcases r.nextInBlock p s with d | _ | ⟨b, t⟩
  · exact finish_alike _ hpool
  · exact hnext (pool_finishBlock hpool)
  · exact ⟨rfl, rfl, hpool⟩

/-- The items of a reader depend on the memory only, whoever else refers to the buffers. -/
private theorem nextBlock_alike {blocks : List Bytes} (hpool : host.pool = h.pool) :
    Alike (r.nextBlock p blocks host) (r.nextBlock p blocks h) := by
  induction blocks generalizing p host h with
  | nil => exact finish_alike none hpool
  | cons block rest ih =>
    obtain ⟨hout, hk⟩ := (isBlind_openBlock r.codec p.visited block).alike
      ⟨p.reserved, host⟩ ⟨p.reserved, h⟩ ⟨rfl, hpool⟩
    rcases hrun : (openBlock r.codec p.visited block).run ⟨p.reserved, host⟩ with ⟨out, k⟩
    rcases hrun' : (openBlock r.codec p.visited block).run ⟨p.reserved, h⟩ with ⟨out', k'⟩
    obtain rfl : out = out' := ((congrArg (·.1) hrun).symm.trans hout).trans (congrArg (·.1) hrun')
    obtain ⟨hreserved, hpool⟩ : k.Alike k' := by
      rwa [show openBlock r.codec p.visited block ⟨p.reserved, host⟩ = _ from hrun,
        show openBlock r.codec p.visited block ⟨p.reserved, h⟩ = _ from hrun'] at hk
    cases out with
    | error o =>
      simp only [nextBlock, hrun, hrun', hreserved]
      exact finish_alike _ hpool
    | ok s =>
      rw [nextBlock_of_ok rest hrun, nextBlock_of_ok rest hrun', hreserved]
      refine nextAt_alike ?_ ih
      split <;> exact hpool

/-- **A step looks at memory only.** It comes to the same in hosts of the same memory. -/
theorem next_alike (r : Reader) (hpool : host.pool = h.pool) : Alike (r.next host) (r.next h) := by
  cases hp : r.position with
  | none =>
    rw [next_of_closed hp, next_of_closed hp]
    exact ⟨rfl, rfl, hpool⟩
  | some p =>
    cases hcurrent : p.current with
    | none =>
      rw [next_of_between hp hcurrent, next_of_between hp hcurrent]
      exact nextBlock_alike hpool
    | some s =>
      rw [next_of_within hp hcurrent, next_of_within hp hcurrent]
      exact nextAt_alike hpool nextBlock_alike

end Reader

end Columnar.Block
