import Columnar.Broadcast

/-!
# What a registry has

A registry is known by its history: under an identity it has the buffer that was registered last,
unless that was removed since (`Registry.latest?`). `Registry.Reflects` says so of a registry and a
history, and each operation keeps it.

The registry has one reference to each of its buffers. An operation leaves those of others as they
are.
-/

namespace Columnar

/-! ### References of a host -/

/-- One reference to a buffer, as it is counted for an identity. -/
def BroadcastId.one (id i : BroadcastId) : Nat :=
  if i = id then 1 else 0

theorem BroadcastId.one_self (id : BroadcastId) : id.one id = 1 :=
  if_pos rfl

/-- As it is counted in a list. -/
theorem BroadcastId.one_eq_beq (id i : BroadcastId) : id.one i = if id == i then 1 else 0 := by
  simp only [one, beq_iff_eq, @eq_comm _ id]

theorem BroadcastId.one_of_ne {id i : BroadcastId} (h : i ≠ id) : id.one i = 0 :=
  if_neg h

namespace Host

/-- A reference that is taken counts for its buffer only. -/
theorem references_retain (id i : BroadcastId) (h : Host) :
    (h.retain id).references i = h.references i + id.one i := by
  simp only [retain, BroadcastId.one]
  split <;> rfl

/-- A reference that is given up counts for its buffer only. -/
theorem references_release (id i : BroadcastId) (h : Host) :
    (h.release id).references i = h.references i - id.one i := by
  simp only [release, BroadcastId.one]
  split <;> rfl

end Host

namespace Registry

/-! ### Histories -/

/-- Something that was done to a registry. -/
inductive Change where
  /-- A buffer was registered. -/
  | registered (buffer : Buffer)
  /-- A buffer was to be removed, whether it was there or not. -/
  | removed (id : BroadcastId)
  /-- All buffers were removed. -/
  | cleared

/-- The buffer that was registered last under an identity, unless it was removed since. The latest
change is the first. -/
def latest? (id : BroadcastId) : List Change → Option Buffer
  | [] => none
  | .registered b :: changes => if b.id = id then some b else latest? id changes
  | .removed i :: changes => if i = id then none else latest? id changes
  | .cleared :: _ => none

/-- A buffer was registered under an identity, and none was removed since. The latest change is the
first. -/
def WasRegistered (id : BroadcastId) (changes : List Change) : Prop :=
  ∃ later b before, changes = later ++ .registered b :: before ∧ b.id = id ∧
    ∀ c ∈ later, c ≠ .removed id ∧ c ≠ .cleared

variable {id : BroadcastId} {changes : List Change} {r : Registry} {h : Host}

private theorem not_wasRegistered_nil : ¬WasRegistered id [] := by
  rintro ⟨later, b, before, hchanges, -⟩
  cases later <;> cases hchanges

/-- The latest change decides, unless it is about another buffer. -/
private theorem wasRegistered_cons {c : Change} :
    WasRegistered id (c :: changes) ↔ (∃ b, c = .registered b ∧ b.id = id) ∨
      (c ≠ .removed id ∧ c ≠ .cleared) ∧ WasRegistered id changes := by
  constructor
  · rintro ⟨_ | ⟨d, later⟩, b, before, hchanges, hid, hlater⟩
    · cases hchanges
      exact .inl ⟨b, rfl, hid⟩
    · cases hchanges
      obtain ⟨hd, hlater⟩ := List.forall_mem_cons.1 hlater
      exact .inr ⟨hd, later, b, before, rfl, hid, hlater⟩
  · rintro (⟨b, rfl, hid⟩ | ⟨hc, later, b, before, rfl, hid, hlater⟩)
    · exact ⟨[], b, changes, rfl, hid, List.forall_mem_nil _⟩
    · exact ⟨c :: later, b, before, rfl, hid, List.forall_mem_cons.2 ⟨hc, hlater⟩⟩

/-- There is a latest buffer exactly if one was registered, and none was removed since. -/
theorem isSome_latest?_iff : (latest? id changes).isSome ↔ WasRegistered id changes := by
  induction changes with
  | nil => exact iff_of_false nofun not_wasRegistered_nil
  | cons c changes ih =>
    rw [wasRegistered_cons, ← ih]
    cases c with
    | registered b => by_cases hid : b.id = id <;> simp [latest?, hid]
    | removed i => by_cases hid : i = id <;> simp [latest?, hid]
    | cleared => simp [latest?]

/-! ### The invariant -/

/-- The buffer of an identity. -/
def find? (id : BroadcastId) (r : Registry) : Option Buffer :=
  r.buffers.find? (·.id == id)

/-- A registry has what its history says, and each identity once. -/
structure Reflects (r : Registry) (changes : List Change) : Prop where
  /-- No identity occurs twice. -/
  nodup_ids : r.ids.Nodup
  /-- Under an identity there is the latest buffer. -/
  find?_eq : ∀ id, r.find? id = latest? id changes

/-- A buffer is contained if it is found. -/
theorem contains_eq (id : BroadcastId) (r : Registry) : r.contains id = (r.find? id).isSome := by
  rw [contains, find?, Bool.eq_iff_iff, List.any_eq_true, List.find?_isSome]

/-- The identities that are listed are those of the buffers that are contained. -/
theorem mem_ids_iff : id ∈ r.ids ↔ r.contains id = true := by
  rw [ids, contains, List.mem_map, List.any_eq_true]
  simp only [beq_iff_eq]

/-- Getting a buffer finds it, and takes a reference if it is there. -/
theorem get_eq (id : BroadcastId) (r : Registry) (h : Host) :
    r.get id h = (r.find? id, if (r.find? id).isSome then h.retain id else h) := by
  rw [get, find?]
  cases r.buffers.find? (·.id == id) <;> rfl

/-- Removing tells whether the buffer was there. -/
theorem remove_fst (id : BroadcastId) (r : Registry) (h : Host) :
    (r.remove id h).1 = r.contains id := by
  rw [remove]
  split
  · exact Eq.symm ‹_›
  · exact (Bool.eq_false_iff.2 ‹_›).symm

/-- What is found is the same as before under other identities, and nothing under the one that is
left out. -/
private theorem find?_without (i : BroadcastId) :
    (r.without i).find? id = if i = id then none else r.find? id := by
  rw [find?, find?, without, List.find?_filter]
  split
  · next hid =>
    refine List.find?_eq_none.2 fun b _ hb => ?_
    simp [hid] at hb
  · next hid =>
    congr 1
    funext b
    by_cases hb : b.id = id
    · simp [hb, Ne.symm hid]
    · simp [hb]

/-- The buffer that was registered last is found under its identity, and other identities find what
they found. -/
theorem find?_register (b : Buffer) :
    (r.register b h).2.1.find? id = if b.id = id then some b else r.find? id := by
  have hwithout : (r.without b.id).buffers.find? (·.id == id) =
      if b.id = id then none else r.find? id := find?_without b.id
  rw [find?]
  simp only [register, List.find?_cons, hwithout]
  by_cases hid : b.id = id
  · simp [hid]
  · simp [beq_eq_false_iff_ne.2 hid, hid]

/-- A buffer that was removed is not found, and other identities find what they found. -/
theorem find?_remove (i : BroadcastId) :
    (r.remove i h).2.1.find? id = if i = id then none else r.find? id := by
  by_cases hi : r.contains i = true
  · simp only [remove, if_pos hi]
    exact find?_without i
  · simp only [remove, if_neg hi]
    split
    · next hid =>
      rw [contains_eq, hid] at hi
      exact Option.not_isSome_iff_eq_none.1 hi
    · rfl

private theorem nodup_ids_without (hr : r.ids.Nodup) (i : BroadcastId) : (r.without i).ids.Nodup :=
  hr.sublist (List.filter_sublist.map _)

/-- The empty registry comes from no changes. -/
theorem reflects_nil : Reflects {} [] :=
  ⟨List.nodup_nil, fun _ => rfl⟩

/-- A buffer is contained if it was registered and neither removed nor cleared since. -/
theorem Reflects.contains_iff (hr : r.Reflects changes) (id : BroadcastId) :
    r.contains id = true ↔ WasRegistered id changes := by
  rw [contains_eq, hr.find?_eq, isSome_latest?_iff]

/-- Registering keeps the registry in step with its changes. -/
theorem Reflects.register (hr : r.Reflects changes) (b : Buffer) (h : Host) :
    (r.register b h).2.1.Reflects (.registered b :: changes) where
  nodup_ids := by
    refine List.nodup_cons.2 ⟨fun hmem => ?_, nodup_ids_without hr.nodup_ids b.id⟩
    obtain ⟨b', hb', hid⟩ := List.mem_map.1 hmem
    simp [without, hid] at hb'
  find?_eq id := by rw [find?_register, latest?, hr.find?_eq]

/-- Removing keeps the registry in step with its changes. -/
theorem Reflects.remove (hr : r.Reflects changes) (i : BroadcastId) (h : Host) :
    (r.remove i h).2.1.Reflects (.removed i :: changes) where
  nodup_ids := by
    rw [Registry.remove]
    split
    · exact nodup_ids_without hr.nodup_ids i
    · exact hr.nodup_ids
  find?_eq id := by rw [find?_remove, latest?, hr.find?_eq]

/-- Clearing leaves the empty registry, whatever was there. -/
theorem reflects_clear (changes : List Change) : Reflects {} (.cleared :: changes) :=
  ⟨List.nodup_nil, fun _ => rfl⟩

/-! ### References -/

/-- The references to a buffer that a registry has. -/
def references (r : Registry) (id : BroadcastId) : Nat :=
  (r.contains id).toNat

variable {others : Nat}

/-- A registry without a buffer has no reference to it, and its references to the others. -/
private theorem references_without (i : BroadcastId) :
    (r.without i).references id = if i = id then 0 else r.references id := by
  rw [references, contains_eq, find?_without, references, contains_eq]
  split <;> rfl

/-- A buffer takes the place of one of the same identity, whose reference is given up. -/
theorem references_register (b : Buffer) (hr : h.references id = others + r.references id) :
    (r.register b h).2.2.references id = others + (r.register b h).2.1.references id := by
  have hnew : (r.register b h).2.1.references id = if b.id = id then 1 else r.references id := by
    rw [references, contains_eq, find?_register, references, contains_eq]
    split <;> rfl
  have hretain : ((Journal.note (.registered b) h).retain b.id).references id =
      h.references id + b.id.one id := Host.references_retain ..
  rw [hnew]
  simp only [register, releaseIfPresent]
  by_cases hid : b.id = id
  · subst hid
    rw [if_pos rfl]
    cases hb : r.contains b.id with
    | true =>
      rw [references, hb] at hr
      rw [if_pos rfl, Host.references_release, hretain, hr]
      exact Nat.add_sub_cancel _ _
    | false =>
      rw [references, hb] at hr
      rw [if_neg nofun, hretain, hr, BroadcastId.one_self]
      rfl
  · have hone := BroadcastId.one_of_ne (Ne.symm hid)
    rw [if_neg hid]
    split
    · rw [Host.references_release, hretain, hone, hr]
      rfl
    · rw [hretain, hone, hr]
      rfl

/-- Removing gives up the reference of the registry, and none of the others. -/
theorem references_remove (i : BroadcastId) (hr : h.references id = others + r.references id) :
    (r.remove i h).2.2.references id = others + (r.remove i h).2.1.references id := by
  by_cases hi : r.contains i = true
  · simp only [remove, if_pos hi]
    refine (Host.references_release i id h).trans ?_
    rw [references_without, hr]
    by_cases hid : i = id
    · subst hid
      rw [if_pos rfl, references, hi, BroadcastId.one_self]
      rfl
    · rw [if_neg hid, BroadcastId.one_of_ne (Ne.symm hid)]
      rfl
  · simp only [remove, if_neg hi]
    exact hr

/-- Some buffers are given up one after the other. -/
private theorem references_foldl_release (buffers : List Buffer) (h : Host) :
    (buffers.foldl (fun h b => h.release b.id) h).references id =
      h.references id - (buffers.map (·.id)).count id := by
  induction buffers generalizing h with
  | nil => rfl
  | cons b buffers ih =>
    rw [List.foldl_cons, ih, Host.references_release, List.map_cons, List.count_cons,
      BroadcastId.one_eq_beq, Nat.sub_sub, Nat.add_comm]

/-- Clearing gives up the references of the registry to all buffers, and none of the others. -/
theorem references_clear (hnodup : r.ids.Nodup) (hr : h.references id = others + r.references id) :
    (r.clear h).2.references id = others + (r.clear h).1.references id := by
  have hcount : r.ids.count id = r.references id := by
    rw [hnodup.count, references]
    simp only [mem_ids_iff]
    cases r.contains id <;> rfl
  simp only [clear]
  refine (references_foldl_release r.buffers h).trans ?_
  rw [← hcount] at hr
  rw [hr]
  exact Nat.add_sub_cancel _ _

/-! ### Memory -/

/-- No memory is reserved for what a registry has, and none given back. -/
theorem pool_register (b : Buffer) : (r.register b h).2.2.pool = h.pool := by
  simp only [register, releaseIfPresent]
  split <;> rfl

theorem pool_get (i : BroadcastId) : (r.get i h).2.pool = h.pool := by
  rw [get_eq]
  dsimp only
  split <;> rfl

theorem pool_remove (i : BroadcastId) : (r.remove i h).2.2.pool = h.pool := by
  rw [remove]
  split <;> rfl

theorem pool_clear : (r.clear h).2.pool = h.pool := by
  have hfold (buffers : List Buffer) (h : Host) :
      (buffers.foldl (fun h b => h.release b.id) h).pool = h.pool := by
    induction buffers generalizing h with
    | nil => rfl
    | cons b buffers ih => exact ih _
  exact hfold r.buffers h

end Registry

end Columnar
