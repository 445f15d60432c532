import Columnar.Compression.Compressor
import Columnar.Proofs.Compression.Snappy
import Columnar.Proofs.Compression.Zstd

/-!
# Compression loses nothing

Every choice of a compressor that is accepted gives one that restores what it compresses, whatever
its level and whether or not it counts (`Compressor.ofConfig_lossless`).

What is restored does not depend on how well the writer compresses. For LZ4 and Snappy there are
relations of a block and its content that mention neither reader nor writer (`Lz4.Holds`,
`Snappy.IsStream`); all blocks of these formats are restored, whoever wrote them
(`Compressor.decode_lz4_of_holds`, `Compressor.decode_snappy_eq_ok_iff`). For Zstandard, whose
entropy coding is read but never written here, this is claimed of the frames that are written here
only.

Only LZ4 has something to get wrong beside the format: the length is written down by one operation
and judged by another. It is the right length, and within the limit, for no block of the format
expands beyond the limit.
-/

namespace Columnar.Compression

/-- The level that is chosen. -/
def Config.usedLevel (cfg : Config) : Int32 :=
  cfg.level.getD cfg.algorithm.defaultLevel

/-- The level is one of the algorithm, if that has levels. -/
def Config.IsAccepted (cfg : Config) : Prop :=
  cfg.algorithm.supportsLevels = true → 1 ≤ cfg.usedLevel ∧ cfg.usedLevel ≤ 22

namespace Compressor

/-- What can be compressed: there is room for the length. -/
def Fits (a : Algorithm) (b : Bytes) : Prop :=
  a = .lz4 → b.length < 2 ^ 32

variable {cfg : Config} {c : Compressor} {b block content : Bytes}

/-! ### Blocks of any writer -/

/-- A block of LZ4 that declares more than it could hold is not decompressed, and of the others
exactly those that hold no more than they declare. -/
theorem decode_lz4_eq_ok_iff (hc : c.algorithm = .lz4) : c.decode block = .ok content ↔
    ∃ n, c.declaredSize? block = some n ∧ n ≤ 255 * block.length ∧ content.length ≤ n ∧
      Lz4.Holds [] (block.drop 4) content := by
  have hdeclared : c.declaredSize? block = Lz4.declaredSize? block := by rw [declaredSize?, hc]
  rw [decode, hc, hdeclared]
  dsimp only
  constructor
  · intro h
    split at h
    · cases h
    next hguard =>
    obtain ⟨n, hn, hle, hholds⟩ := Lz4.decompress_eq_ok_iff.1 (Except.mapError_eq_ok h)
    rw [hn, Option.getD_some, maxExpansion] at hguard
    exact ⟨n, hn, by omega, hle, hholds⟩
  · rintro ⟨n, hn, hguard, hle, hholds⟩
    rw [hn, Option.getD_some, maxExpansion, if_neg (by omega),
      Lz4.decompress_eq_ok_iff.2 ⟨n, hn, hle, hholds⟩]
    rfl

/-- **No honest block is refused.** What a block of LZ4 declares and holds is decompressed, whoever
wrote it. -/
theorem decode_lz4_of_holds (hc : c.algorithm = .lz4)
    (hdeclared : c.declaredSize? block = some content.length)
    (hholds : Lz4.Holds [] (block.drop 4) content) : c.decode block = .ok content := by
  refine (decode_lz4_eq_ok_iff hc).2 ⟨_, hdeclared, ?_, Nat.le_refl _, hholds⟩
  have hle := hholds.length_le
  rw [List.length_drop] at hle
  omega

/-- With any smaller limit there would be blocks that are refused though they hold what they
declare. -/
theorem exists_decode_lz4_gt (hc : c.algorithm = .lz4) {m : Nat} (hm : m < maxExpansion) :
    ∃ block content, c.decode block = .ok content ∧ m * block.length < content.length := by
  -- As many bytes of a length as make up for the ten others.
  let content : Bytes := List.replicate (20 + 255 * 2521) 0
  let sequences : Bytes := 31 :: 0 :: 1 :: 0 :: (List.replicate 2521 255 ++ [0, 0])
  have hcontent : content.length = 20 + 255 * 2521 := List.length_replicate
  have hblock : (Bytes.ofNat 4 content.length ++ sequences).length = 10 + 2521 := by
    simp only [sequences, List.length_append, Bytes.length_ofNat, List.length_cons,
      List.length_replicate, List.length_nil]
  refine ⟨Bytes.ofNat 4 content.length ++ sequences, content, decode_lz4_of_holds hc ?_ ?_, ?_⟩
  · rw [declaredSize?, hc]
    dsimp only
    rw [Lz4.declaredSize?, Bytes.splitAt?_append_of_eq _ (Bytes.length_ofNat 4 _)]
    exact congrArg some (Bytes.toNat_ofNat_of_lt (by rw [hcontent]; decide))
  · have hdrop : (Bytes.ofNat 4 content.length ++ sequences).drop 4 = sequences :=
      List.drop_left' (Bytes.length_ofNat 4 _)
    rw [hdrop]
    exact Lz4.holds_replicate 2521 0
  · rw [hblock, hcontent]
    simp only [maxExpansion] at hm
    omega

/-- Of Snappy exactly the streams that have a content are decompressed. -/
theorem decode_snappy_eq_ok_iff (hc : c.algorithm = .snappy) :
    c.decode block = .ok content ↔ Snappy.IsStream block content := by
  rw [decode, hc, ← Snappy.decompress_eq_ok_iff]
  exact ⟨Except.mapError_eq_ok, fun h => congrArg (Except.mapError _) h⟩

/-! ### Round trip -/

/-- **Compressed byte strings read back.** -/
theorem decode_encode (h : Fits c.algorithm b) : c.decode (c.encode b) = .ok b := by
  obtain ⟨algorithm, level, trackStats⟩ := c
  cases algorithm with
  | lz4 =>
    exact decode_lz4_of_holds rfl (Lz4.declaredSize?_compress (h rfl))
      ((Lz4.drop_compress b).symm ▸ Lz4.holds_block b)
  | zstd => simp only [decode, encode, Zstd.decompress_compress, Except.mapError_ok]
  | snappy => exact (decode_snappy_eq_ok_iff rfl).2 (Snappy.isStream_compress b)

/-! ### Choices of a compressor -/

/-- The compressor of a choice that is accepted. -/
theorem ofConfig_eq_ok_iff : ofConfig cfg = .ok c ↔
    cfg.IsAccepted ∧ c = ⟨cfg.algorithm, cfg.usedLevel, cfg.trackStats⟩ := by
  have hlevel : cfg.level.getD cfg.algorithm.defaultLevel = cfg.usedLevel := rfl
  rw [ofConfig, Config.IsAccepted, hlevel]
  split
  · next hrefused =>
    refine iff_of_false nofun fun ⟨haccepted, _⟩ => ?_
    obtain ⟨hlow, hhigh⟩ := haccepted hrefused.1
    exact hrefused.2.elim (Int32.not_lt.2 hlow) (Int32.not_lt.2 hhigh)
  · next hrefused =>
    have haccepted (hlevels : cfg.algorithm.supportsLevels = true) :
        1 ≤ cfg.usedLevel ∧ cfg.usedLevel ≤ 22 :=
      ⟨Int32.not_lt.1 fun h => hrefused ⟨hlevels, .inl h⟩,
        Int32.not_lt.1 fun h => hrefused ⟨hlevels, .inr h⟩⟩
    rw [Except.ok.injEq, eq_comm]
    exact ⟨fun h => ⟨haccepted, h⟩, And.right⟩

/-- What is compressed is restored, and each operation counts itself if the compressor counts. -/
theorem decompress_encode (h : Fits c.algorithm b) (stats : Stats) :
    c.decompress stats (c.encode b) =
      (.ok b, if c.trackStats then stats.recordDecompression b.length else stats) := by
  rw [decompress, decode_encode h]

/-- A frame of LZ4 declares the length of what it holds, which is within the limit. -/
theorem declaredSize?_encode (hc : c.algorithm = .lz4) (h : Fits c.algorithm b) :
    c.declaredSize? (c.encode b) = some b.length ∧
      b.length ≤ (c.encode b).length * maxExpansion := by
  have hsize : c.declaredSize? (c.encode b) = some b.length := by
    rw [declaredSize?, encode, hc]
    exact Lz4.declaredSize?_compress (h hc)
  obtain ⟨n, hn, hle, -⟩ := (decode_lz4_eq_ok_iff hc).1 (decode_encode h)
  obtain rfl : b.length = n := Option.some.inj (hsize.symm.trans hn)
  exact ⟨hsize, by rwa [maxExpansion, Nat.mul_comm]⟩

/-- **Compression loses nothing.** There is a compressor for every choice whose level is one of the
algorithm. It restores every byte string that it has compressed, for LZ4 if the length fits four
bytes; nothing but its own operations is counted, and only if that was chosen. A block of LZ4
declares the length of the byte string, within the limit on such lengths, and so does every block
that another writer makes of it. Every such block is restored, and so is every stream of Snappy that
another writer makes of the byte string. -/
theorem ofConfig_lossless (cfg : Config) :
    ((∃ c, ofConfig cfg = .ok c) ↔ cfg.IsAccepted) ∧
    ∀ c, ofConfig cfg = .ok c → ∀ b, Fits cfg.algorithm b → ∀ before after : Stats,
      ∃ block, c.compress before b = (block,
          if cfg.trackStats then before.recordCompression b.length block.length else before) ∧
        c.decompress after block =
          (.ok b, if cfg.trackStats then after.recordDecompression b.length else after) ∧
        match cfg.algorithm with
        | .lz4 => c.declaredSize? block = some b.length ∧ b.length ≤ block.length * maxExpansion ∧
          ∀ other, c.declaredSize? other = some b.length → Lz4.Holds [] (other.drop 4) b →
            b.length ≤ other.length * maxExpansion ∧ (c.decompress after other).1 = .ok b
        | .zstd => c.declaredSize? block = none
        | .snappy => c.declaredSize? block = none ∧
          ∀ other, Snappy.IsStream other b → (c.decompress after other).1 = .ok b := by
  refine ⟨⟨fun ⟨c, hc⟩ => (ofConfig_eq_ok_iff.1 hc).1,
    fun h => ⟨_, ofConfig_eq_ok_iff.2 ⟨h, rfl⟩⟩⟩, fun c hc b hb before after => ?_⟩
  obtain ⟨-, rfl⟩ := ofConfig_eq_ok_iff.1 hc
  refine ⟨_, rfl, decompress_encode hb after, ?_⟩
  obtain ⟨algorithm, level, trackStats⟩ := cfg
  cases algorithm with
  | lz4 =>
    obtain ⟨hsize, hle⟩ := declaredSize?_encode (c := ⟨.lz4, _, trackStats⟩) rfl hb
    refine ⟨hsize, hle, fun other hdeclared hholds => ?_⟩
    have hdecode := decode_lz4_of_holds rfl hdeclared hholds
    obtain ⟨n, hn, hguard, -⟩ := (decode_lz4_eq_ok_iff rfl).1 hdecode
    obtain rfl : b.length = n := Option.some.inj (hdeclared.symm.trans hn)
    exact ⟨by rwa [maxExpansion, Nat.mul_comm], by rw [decompress, hdecode]⟩
  | zstd => rfl
  | snappy =>
    refine ⟨rfl, fun other hother => ?_⟩
    rw [decompress, (decode_snappy_eq_ok_iff rfl).2 hother]

/-- A million zeros, which LZ4 makes as small as the format allows. -/
theorem ofConfig_lossless_zeros :
    let cfg : Config := ⟨.lz4, none, true⟩
    let c : Compressor := ⟨.lz4, 0, true⟩
    let zeros : Bytes := List.replicate 1000000 0
    ofConfig cfg = .ok c ∧ Fits cfg.algorithm zeros ∧
      ∃ block, (c.compress {} zeros).1 = block ∧ (c.decompress {} block).1 = .ok zeros ∧
        c.declaredSize? block = some zeros.length ∧
        zeros.length ≤ block.length * maxExpansion := by
  intro cfg c zeros
  have hc : ofConfig cfg = .ok c := ofConfig_eq_ok_iff.2 ⟨nofun, rfl⟩
  have hzeros : Fits cfg.algorithm zeros := fun _ => by
    rw [show zeros.length = 1000000 from List.length_replicate]
    decide
  obtain ⟨block, hblock, hrestored, hsize, hle, -⟩ :=
    (ofConfig_lossless cfg).2 c hc zeros hzeros {} {}
  exact ⟨hc, hzeros, block, congrArg Prod.fst hblock, congrArg Prod.fst hrestored, hsize, hle⟩

end Compressor

end Columnar.Compression
