import Columnar.Broadcast
import Columnar.Proofs.Block.Reader
import Columnar.Proofs.Compression.Lossless
import Columnar.Proofs.Settings

/-!
# Groups read back

The block of a group holds the stream that was written for it, however it is compressed, so that
blocks that were written for some groups give the batches of all of them in order, and then come to
their end (`gives_writeAll`).
-/

namespace Columnar.Block.Codec

open Compression (Algorithm Compressor Config)

variable {c : Codec} {group : List Batch} {groups : List (List Batch)}

/-- Settings in their ranges have a codec. It compresses if they say so, by their algorithm, and at
their level if the algorithm has levels. -/
theorem ofSettings_of_isInRange {s : Settings} (h : s.IsInRange) :
    ofSettings s = .ok ⟨if s.compress then
      some ⟨s.codec, if s.codec.supportsLevels then s.zstdLevel else s.codec.defaultLevel, true⟩
      else none⟩ := by
  have hcodec : ofSettings s = s.blockCompression.elim (.ok {}) ofConfig := by
    rw [ofSettings, Settings.validate_eq_ok_iff.2 h]
    cases s.blockCompression <;> rfl
  rw [hcodec, Settings.blockCompression]
  by_cases hs : s.compress = true
  · rw [if_pos hs, if_pos hs]
    -- The level has been checked with the settings, so the compressor does not refuse it.
    by_cases hlevels : s.codec.supportsLevels = true
    · have hlevel : ({ Config.ofAlgorithm s.codec with level := some s.zstdLevel }).IsAccepted :=
        fun _ => ⟨h.one_le_level, h.level_le⟩
      simp only [if_pos hlevels, Option.elim_some, ofConfig,
        Compressor.ofConfig_eq_ok_iff.2 ⟨hlevel, rfl⟩]
      rfl
    · have hlevel : (Config.ofAlgorithm s.codec).IsAccepted := fun h => absurd h hlevels
      simp only [if_neg hlevels, Option.elim_some, ofConfig,
        Compressor.ofConfig_eq_ok_iff.2 ⟨hlevel, rfl⟩]
      rfl
  · simp only [if_neg hs]
    rfl

/-- The algorithm of blocks is the one that the settings name, if they are to be compressed. -/
theorem algorithm?_ofSettings {s : Settings} (h : ofSettings s = .ok c) :
    c.algorithm? = if s.compress then some s.codec else none := by
  obtain ⟨_, hvalid, -⟩ := Except.bind_eq_ok h
  have hs := Settings.validate_eq_ok_iff.1 hvalid
  obtain rfl := Except.ok.inj ((ofSettings_of_isInRange hs).symm.trans h)
  rw [algorithm?]
  split <;> rfl

/-- What can be written: where blocks are compressed there is room for the length of a stream. -/
def Fits (c : Codec) (group : List Batch) : Prop :=
  c.algorithm? = some .lz4 → (Stream.ofBatches group).length < 2 ^ 32

/-- However a block is compressed, it holds the stream of its group. -/
theorem holds_write (h : c.Fits group) (stats : Compression.Stats) :
    c.Holds (fun _ => True) (c.write stats group).1 (Stream.ofBatches group) := by
  obtain ⟨compressor⟩ := c
  cases compressor with
  | none => exact ⟨rfl, trivial⟩
  | some p =>
    refine ⟨Compressor.decode_encode fun ha => h ?_, trivial, trivial⟩
    simp only [algorithm?, Option.map_some, ha]

/-- The stream of a group is opened. -/
private theorem openStream_ofBatches (h : Stream.IsStorableGroup group) (index : Nat) :
    ∃ s, openStream index (Stream.ofBatches group) = .ok s ∧ s.Hands (.ok none) group := by
  obtain ⟨s, hopen, hhands⟩ := Stream.Reader.hands_ofBatches h
  have hend : Stream.endMarker <:+ Stream.ofBatches group := ⟨_, rfl⟩
  refine ⟨s, ?_, hhands⟩
  rw [openStream, if_pos hend, hopen]
  rfl

/-- **Groups read back.** Blocks that were written for groups of batches give all of them in
order. -/
theorem gives_writeAll (hgroups : ∀ g ∈ groups, Stream.IsStorableGroup g ∧ c.Fits g)
    (stats : Compression.Stats) (index : Nat) :
    c.Gives (fun _ => True) index (c.writeAll stats groups).1 groups.flatten none := by
  induction groups generalizing stats index with
  | nil => exact ⟨rfl, rfl⟩
  | cons g groups ih =>
    obtain ⟨hg, hfits⟩ := hgroups g List.mem_cons_self
    obtain ⟨s, hopen, hhands⟩ := openStream_ofBatches hg index
    refine ⟨_, holds_write hfits stats, ?_⟩
    rw [hopen]
    exact .inr ⟨g, groups.flatten, rfl, hhands,
      ih (fun g hg => hgroups g (List.mem_cons_of_mem _ hg)) _ _⟩

/-- What is written does not depend on what was counted before. -/
theorem writeAll_fst (groups : List (List Batch)) (stats stats' : Compression.Stats) :
    (c.writeAll stats groups).1 = (c.writeAll stats' groups).1 := by
  have hwrite (g : List Batch) (stats stats' : Compression.Stats) :
      (c.write stats g).1 = (c.write stats' g).1 := by
    rw [write, write, compress, compress]
    cases c.compressor <;> rfl
  induction groups generalizing stats stats' with
  | nil => rfl
  | cons g groups ih =>
    simp only [writeAll]
    rw [hwrite g stats stats', ih]

/-- There is one block for each group. -/
theorem length_writeAll (groups : List (List Batch)) (stats : Compression.Stats) :
    (c.writeAll stats groups).1.length = groups.length := by
  induction groups generalizing stats with
  | nil => rfl
  | cons g groups ih => exact congrArg (· + 1) (ih _)

end Columnar.Block.Codec
