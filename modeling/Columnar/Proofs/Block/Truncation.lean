import Columnar.Proofs.Block.Codec
import Columnar.Proofs.Stream.Truncation

/-!
# Blocks that are cut

A reader tells a block that was cut by its last bytes, which have to be the marker that ends
streams. The data of a column can be these bytes too, and so the test is not complete:
`itemsOf_of_prefix` says which fronts of a block are found to be corrupt, and what is handed out of
the others, which have a false end. Of those the batches before the cut are handed out, and nothing
tells that there were more.

All of this is about blocks that are not compressed.
-/

namespace Columnar.Block

variable {group : List Batch} {p : Bytes}

section Gives

variable {batches : List Batch} {ending : Option Error}

/-- A block that is not compressed and not opened. -/
private theorem gives_of_error {o : Obstacle} (h : openStream 0 p = .error o) :
    ({} : Codec).Gives (· = p.length) 0 [p] [] (some o.toError) := by
  refine ⟨p, ⟨rfl, rfl⟩, ?_⟩
  rw [h]
  exact ⟨rfl, rfl⟩

/-- A block that is not compressed, and is opened. -/
private theorem gives_of_ok {s : Stream.Reader} (hmarker : Stream.endMarker <:+ p)
    (hs : Stream.Reader.ofBytes p = .ok s)
    (hwithin : Within 0 s (({} : Codec).Gives (· = p.length) 1 []) batches ending) :
    ({} : Codec).Gives (· = p.length) 0 [p] batches ending := by
  have hopen : openStream 0 p = .ok s := by
    rw [openStream, if_pos hmarker, hs]
    rfl
  refine ⟨p, ⟨rfl, rfl⟩, ?_⟩
  rw [hopen]
  exact hwithin

end Gives

/-- A front without a false end is not opened, or has a message that is cut. -/
private theorem gives_of_prefix (hg : Stream.IsStorableGroup group)
    (hp : p <+: Stream.ofBatches group)
    (hne : p ≠ Stream.ofBatches group) (hend : ¬∃ first, Stream.IsFalseEnd group p first) :
    ∃ first e, first <+: group ∧ e.kind = .corruptData ∧
      ({} : Codec).Gives (· = p.length) 0 [p] first (some e) := by
  by_cases hmarker : Stream.endMarker <:+ p
  · obtain h | hstart | ⟨s, first, hfirst, hs, hhands⟩ :=
      Stream.Reader.hands_of_prefix hg hp hne hmarker
    · exact absurd h hend
    · -- The cut is in the schema.
      have hopen : openStream 0 p = .error (.badStream 0 .truncated) := by
        rw [openStream, if_pos hmarker, hstart]
        rfl
      exact ⟨[], _, List.nil_prefix, rfl, gives_of_error hopen⟩
    · -- The cut is in a batch, or in the marker.
      exact ⟨first, (Reader.Defect.badMessage 0 .truncated).toError, hfirst, rfl,
        gives_of_ok hmarker hs (.inl ⟨.truncated, hhands, rfl⟩)⟩
  · have hopen : openStream 0 p = .error (.noEndMarker 0) := if_neg hmarker
    exact ⟨[], _, List.nil_prefix, rfl, gives_of_error hopen⟩

/-- A front with a false end gives the batches before that, and then ends like a whole block. -/
private theorem gives_of_isFalseEnd (hg : Stream.IsStorableGroup group) {first : List Batch}
    (hp : Stream.IsFalseEnd group p first) :
    ({} : Codec).Gives (· = p.length) 0 [p] first none := by
  obtain ⟨hmarker, s, hs, hhands⟩ := Stream.Reader.hands_of_isFalseEnd hg hp
  exact gives_of_ok hmarker hs (.inr ⟨first, [], (List.append_nil _).symm, hhands, rfl, rfl⟩)

/-- What a reader hands out of a buffer of one block that is not compressed. -/
def itemsOf (id : BroadcastId) (p : Bytes) (h : Host) : List (Except Error Batch) :=
  let (r, h) := Reader.start {} [] ⟨id, [p]⟩ h
  (r.drain h).1

private theorem itemsOf_of_gives {batches : List Batch} {ending : Option Error}
    (hgives : ({} : Codec).Gives (· = p.length) 0 [p] batches ending) (id : BroadcastId) {h : Host}
    (hroom : ∀ pool ∈ h.pool, pool.reserved + p.length ≤ pool.limit) :
    itemsOf id p h = batches.map .ok ++ (ending.map .error).toList := by
  refine Reader.drain_of_has (Reader.start_has ?_ hgives)
  rintro pool hpool
  refine ⟨Nat.zero_le _, ?_⟩
  rintro _ rfl
  exact hroom pool hpool

/-- **Blocks that are cut.** A strict front of a block with a false end, cut after a batch whose
body ends with the bytes of the marker, is taken for a whole block: the batches up to the cut are
handed out and no error. Every other strict front is found to be corrupt, after some of the batches
that were written. The reader has enough memory for the block. -/
theorem itemsOf_of_prefix (hg : Stream.IsStorableGroup group) (stats : Compression.Stats)
    (hp : p <+: (({} : Codec).write stats group).1) (hne : p ≠ (({} : Codec).write stats group).1)
    (id : BroadcastId) {h : Host} (hroom : ∀ pool ∈ h.pool, pool.reserved + p.length ≤ pool.limit) :
    (∀ first, Stream.IsFalseEnd group p first → itemsOf id p h = first.map .ok) ∧
    ((¬∃ first, Stream.IsFalseEnd group p first) →
      ∃ first e, first <+: group ∧ e.kind = .corruptData ∧
        itemsOf id p h = first.map .ok ++ [.error e]) := by
  constructor
  · intro first hend
    rw [itemsOf_of_gives (gives_of_isFalseEnd hg hend) id hroom]
    exact List.append_nil _
  · intro hend
    obtain ⟨first, e, hfirst, hkind, hgives⟩ := gives_of_prefix hg hp hne hend
    exact ⟨first, e, hfirst, hkind, itemsOf_of_gives hgives id hroom⟩

/-- A batch that is handed out though the marker of its block is cut off, and not if four bytes are
left. -/
theorem itemsOf_of_prefix_marker :
    let b : Batch :=
      ⟨8, [⟨"a", false, ⟨.int64, [some 0, some 0, some 0, some 0, some 0, some 0, some 0,
        some 4294967295]⟩⟩], by decide⟩
    let block := (({} : Codec).write {} [b]).1
    let p := block.take (block.length - 8)
    p <+: block ∧ p ≠ block ∧ itemsOf ⟨0⟩ p {} = [.ok b] ∧
      ∃ e, .error e ∈ itemsOf ⟨0⟩ (block.take 4) {} ∧ e.kind = .corruptData := by
  intro b block p
  have hb : Stream.IsStorableBatch b := by
    refine ⟨by decide, by decide, by decide +kernel, fun d hd => ?_⟩
    obtain rfl := List.mem_singleton.1 hd
    exact ⟨nofun, by decide +kernel, fun _ => rfl⟩
  have hg : Stream.IsStorableGroup [b] := ⟨by decide, by simpa using hb, by decide +kernel⟩
  have hp : p <+: block := List.take_prefix _ _
  have hne : p ≠ block := by decide +kernel
  have hend : Stream.IsFalseEnd [b] p [b] := by
    refine ⟨List.prefix_rfl, by decide +kernel, b, rfl, by decide +kernel⟩
  have hshort : ¬∃ first, Stream.IsFalseEnd [b] (block.take 4) first := by
    rintro ⟨first, hfirst⟩
    have hmarker := (Stream.Reader.hands_of_isFalseEnd hg hfirst).1
    exact absurd hmarker.length_le (by decide +kernel)
  have hempty : ∀ {n : Nat}, ∀ pool ∈ ({} : Host).pool, pool.reserved + n ≤ pool.limit := nofun
  obtain ⟨hitems, -⟩ := itemsOf_of_prefix hg {} hp hne ⟨0⟩ hempty
  obtain ⟨-, hcorrupt⟩ :=
    itemsOf_of_prefix hg {} (List.take_prefix 4 block) (by decide +kernel) ⟨0⟩ hempty
  obtain ⟨first, e, -, hkind, herror⟩ := hcorrupt hshort
  have hmem : .error e ∈ itemsOf ⟨0⟩ (block.take 4) {} :=
    herror ▸ List.mem_append_right _ List.mem_cons_self
  exact ⟨hp, hne, hitems [b] hend, e, hmem, hkind⟩

end Columnar.Block
