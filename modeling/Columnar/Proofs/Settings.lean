import Columnar.Proofs.Text
import Columnar.Settings

/-!
# Values of settings

Settings are one value for each key (`Settings.get`). Which values a text has is said here without
the readers of values (`Settings.Key.Denotes`): a truth value is named, the name of an algorithm may
be in capitals, a number is given by a numeral of its type, and there may be blanks around. The
readers find these values and no others (`Settings.Key.read_eq_ok_iff`), so that setting a key comes
down to updating one value (`Settings.set_eq`). Whatever goes wrong is an error of configuration.
-/

namespace Columnar

open Compression (Algorithm)

theorem Compression.Algorithm.ofName?_eq_some_iff {s : String} {a : Algorithm} :
    Algorithm.ofName? s = some a ↔ s = a.name := by
  refine ⟨fun h => ?_, fun h => h ▸ Algorithm.ofName?_name a⟩
  have hname := List.find?_some h
  exact (beq_iff_eq.1 hname).symm

namespace Settings

/-! ### One value for each key -/

/-- The values of a key. -/
def Key.Value : Key → Type
  | compress => Bool
  | codec => Algorithm
  | zstdLevel => Int32
  | cacheCapacity | cacheIdleSeconds => UInt64

/-- The value of a key in the settings. -/
def get (s : Settings) : (key : Key) → key.Value
  | .compress => s.compress
  | .codec => s.codec
  | .zstdLevel => s.zstdLevel
  | .cacheCapacity => s.cacheCapacity
  | .cacheIdleSeconds => s.cacheIdleSeconds

/-- The settings with another value of a key. -/
def update (s : Settings) : (key : Key) → key.Value → Settings
  | .compress, v => { s with compress := v }
  | .codec, v => { s with codec := v }
  | .zstdLevel, v => { s with zstdLevel := v }
  | .cacheCapacity, v => { s with cacheCapacity := v }
  | .cacheIdleSeconds, v => { s with cacheIdleSeconds := v }

variable {s s' : Settings} {key key' : Key} {value : String} {text : List Char} {e : Error}

/-- A setting has the value that it was given. -/
@[simp]
theorem get_update_self (s : Settings) (key : Key) (v : key.Value) :
    (s.update key v).get key = v := by
  cases key <;> rfl

/-- Other settings keep their values. -/
theorem get_update_of_ne (h : key' ≠ key) (v : key.Value) :
    (s.update key v).get key' = s.get key' := by
  cases key <;> cases key' <;> first | rfl | exact absurd rfl h

/-- Settings are the same if they have the same value for each key. -/
theorem ext_get (h : ∀ key, s.get key = s'.get key) : s = s' := by
  obtain ⟨compress, codec, zstdLevel, cacheCapacity, cacheIdleSeconds⟩ := s
  obtain rfl : compress = s'.compress := h .compress
  obtain rfl : codec = s'.codec := h .codec
  obtain rfl : zstdLevel = s'.zstdLevel := h .zstdLevel
  obtain rfl : cacheCapacity = s'.cacheCapacity := h .cacheCapacity
  obtain rfl : cacheIdleSeconds = s'.cacheIdleSeconds := h .cacheIdleSeconds
  rfl

/-! ### The texts of a value -/

namespace Key

/-- A text stands for a value of a key. -/
def IsText : (key : Key) → List Char → key.Value → Prop
  | compress, text, (b : Bool) => text = (toString b).toList
  | codec, text, (a : Algorithm) => text.map Char.toLower = a.name.toList
  | zstdLevel, text, (level : Int32) => Text.IsNumeral true text level.toInt
  | cacheCapacity, text, (n : UInt64) | cacheIdleSeconds, text, (n : UInt64) =>
    Text.IsNumeral false text n.toNat

/-- A text stands for a value of a key, with blanks around it or without. -/
def Denotes (key : Key) (value : String) (v : key.Value) : Prop :=
  ∃ text, Text.Pads text value.toList ∧ key.IsText text v

/-- Reads a value of a key. -/
def read : (key : Key) → String → Except Error key.Value
  | compress, value => parseValue parseBool compress value
  | codec, value => Algorithm.parse value
  | zstdLevel, value => parseValue parseInt32 zstdLevel value
  | cacheCapacity, value => parseValue parseUInt64 cacheCapacity value
  | cacheIdleSeconds, value => parseValue parseUInt64 cacheIdleSeconds value

/-- There are no blanks in a name, in small letters or in capitals. -/
private theorem isBlank_eq_false_of_name {a : Algorithm}
    (h : text.map Char.toLower = a.name.toList) :
    ∀ c ∈ text, Text.isBlank c = false := by
  have hname : a.name.toList.any Text.isBlank = false := by
    cases a <;> rfl
  refine fun c hc => Bool.eq_false_iff.2 fun hblank => ?_
  -- A blank has no other case, so it would be left in the name.
  have hlower : c.toLower ∈ text.map Char.toLower := List.mem_map_of_mem hc
  rw [h, Text.toLower_of_isBlank hblank] at hlower
  exact List.any_eq_false.1 hname c hlower hblank

/-- There are no blanks in the text of a value. -/
private theorem IsText.isBlank_eq_false :
    (key : Key) → (v : key.Value) → key.IsText text v → ∀ c ∈ text, Text.isBlank c = false
  | compress, (b : Bool), (h : text = (toString b).toList) => by
    have hname : (toString b).toList.any Text.isBlank = false := by
      cases b <;> rfl
    exact h ▸ fun c hc => Bool.eq_false_iff.2 (List.any_eq_false.1 hname c hc)
  | codec, (_ : Algorithm), h => isBlank_eq_false_of_name h
  | zstdLevel, _, h | cacheCapacity, _, h | cacheIdleSeconds, _, h =>
    Text.IsNumeral.isBlank_eq_false h

end Key

/-! ### Reading values -/

/-- A truth value is read from its name only. -/
theorem parseBool_eq_ok_iff {b : Bool} : parseBool text = .ok b ↔ text = (toString b).toList := by
  have hne : "true".toList ≠ "false".toList := by decide
  unfold parseBool
  split
  · next htrue =>
    cases b with
    | true => exact iff_of_true rfl htrue
    | false => exact iff_of_false nofun fun hfalse => hne (htrue.symm.trans hfalse)
  · next htrue =>
    split
    · next hfalse =>
      cases b with
      | true => exact iff_of_false nofun htrue
      | false => exact iff_of_true rfl hfalse
    · next hfalse =>
      cases b with
      | true => exact iff_of_false nofun htrue
      | false => exact iff_of_false nofun hfalse

/-- The values of a type that has the integers between two bounds are read from their numerals. -/
theorem parseBetween_eq_ok_iff {α : Type} {least : Int} {greatest : Nat} {ofInt : Int → α}
    (toInt : α → Int) {a : α} (hleast : least ≤ 0) (hbounds : least ≤ toInt a ∧ toInt a ≤ greatest)
    (hofInt : ∀ i, least ≤ i → i ≤ greatest → (ofInt i = a ↔ i = toInt a)) :
    (match Text.parseInteger least greatest text with
      | .ok i => Except.ok (ofInt i)
      | .error fault => .error fault.text) = .ok a ↔
      Text.IsNumeral (decide (least < 0)) text (toInt a) := by
  have hread (h : Text.IsNumeral (decide (least < 0)) text (toInt a)) :
      Text.parseInteger least greatest text = .ok (toInt a) :=
    (Text.parseInteger_eq_ok_iff hleast).2 ⟨h, hbounds⟩
  split
  · next i hi =>
    obtain ⟨hnumeral, hlow, hhigh⟩ := (Text.parseInteger_eq_ok_iff hleast).1 hi
    rw [Except.ok.injEq, hofInt i hlow hhigh]
    exact ⟨fun h => h ▸ hnumeral, fun h => Except.ok.inj (hi.symm.trans (hread h))⟩
  · next fault hfault =>
    refine iff_of_false nofun fun h => ?_
    cases hfault.symm.trans (hread h)

/-- A number is read from its numerals, if the width holds it. -/
theorem parseInt32_eq_ok_iff {n : Int32} :
    parseInt32 text = .ok n ↔ Text.IsNumeral true text n.toInt := by
  have hbounds : -2 ^ 31 ≤ n.toInt ∧ n.toInt ≤ (2 ^ 31 - 1 : Nat) := by
    have hlow := n.le_toInt
    have hhigh := n.toInt_lt
    omega
  have hofInt (i : Int) (hlow : -2 ^ 31 ≤ i) (hhigh : i ≤ (2 ^ 31 - 1 : Nat)) :
      Int32.ofInt i = n ↔ i = n.toInt := by
    rw [← Int32.toInt_inj, Int32.toInt_ofInt_of_le hlow (by omega)]
  exact parseBetween_eq_ok_iff Int32.toInt (by decide) hbounds hofInt

theorem parseUInt64_eq_ok_iff {n : UInt64} :
    parseUInt64 text = .ok n ↔ Text.IsNumeral false text n.toNat := by
  have hbounds : 0 ≤ (n.toNat : Int) ∧ (n.toNat : Int) ≤ (2 ^ 64 - 1 : Nat) := by
    have hhigh := n.toNat_lt
    omega
  have hofInt (i : Int) (hlow : 0 ≤ i) (hhigh : i ≤ (2 ^ 64 - 1 : Nat)) :
      UInt64.ofNat i.toNat = n ↔ i = n.toNat := by
    have hlt : i.toNat < 2 ^ 64 := by omega
    rw [← UInt64.toNat_inj, UInt64.toNat_ofNat_of_lt' hlt]
    omega
  exact parseBetween_eq_ok_iff (fun n : UInt64 => (n.toNat : Int)) (by decide) hbounds hofInt

/-- The name of an algorithm may have blanks around it and capital letters. -/
theorem parse_eq_ok_iff (value : String) (a : Algorithm) : Algorithm.parse value = .ok a ↔
    (Text.trim value.toList).map Char.toLower = a.name.toList := by
  have hname (s : List Char) :
      Algorithm.ofName? (String.ofList s) = some a ↔ s = a.name.toList := by
    rw [Algorithm.ofName?_eq_some_iff, ← String.toList_inj, String.toList_ofList]
  rw [← hname]
  unfold Algorithm.parse
  dsimp only
  split
  · next b hb => rw [hb, Except.ok.injEq, Option.some.injEq]
  · next hb => rw [hb]; exact iff_of_false nofun nofun

theorem parseValue_eq_ok_iff {α : Type} {parse : List Char → Except String α} {a : α} :
    parseValue parse key value = .ok a ↔ parse (Text.trim value.toList) = .ok a := by
  rw [parseValue]
  cases parse (Text.trim value.toList) with
  | ok b => rw [Except.mapError_ok, Except.ok.injEq, Except.ok.injEq]
  | error reason => exact iff_of_false nofun nofun

private theorem Key.read_eq_ok_iff_isText : (key : Key) → (v : key.Value) →
    (key.read value = .ok v ↔ key.IsText (Text.trim value.toList) v)
  | compress, (_ : Bool) => parseValue_eq_ok_iff.trans parseBool_eq_ok_iff
  | codec, (a : Algorithm) => parse_eq_ok_iff value a
  | zstdLevel, (_ : Int32) => parseValue_eq_ok_iff.trans parseInt32_eq_ok_iff
  | cacheCapacity, (_ : UInt64) => parseValue_eq_ok_iff.trans parseUInt64_eq_ok_iff
  | cacheIdleSeconds, (_ : UInt64) => parseValue_eq_ok_iff.trans parseUInt64_eq_ok_iff

/-- **The values of a key are read from their texts**, and from nothing else. -/
theorem Key.read_eq_ok_iff {v : key.Value} : key.read value = .ok v ↔ key.Denotes value v :=
  -- What is between the blanks is the trimmed text.
  (read_eq_ok_iff_isText key v).trans (Text.trim_iff fun _ => IsText.isBlank_eq_false key v)

/-- A key is set by updating its value to the one that is read. -/
theorem set_eq (s : Settings) (key : Key) (value : String) :
    s.set key value = (key.read value).map (s.update key) := by
  cases key <;> exact bind_pure_comp _ _

/-! ### Errors -/

/-- A fault of a setting is an error of configuration. -/
theorem Fault.kind_toError (f : Fault) : f.toError.kind = .configuration :=
  rfl

private theorem exists_reason_of_parseValue {α : Type} {parse : List Char → Except String α}
    (h : parseValue parse key value = .error e) :
    ∃ reason, e = (Fault.badValue key value reason).toError := by
  rw [parseValue] at h
  cases hparse : parse (Text.trim value.toList) with
  | ok a => rw [hparse] at h; cases h
  | error reason =>
    rw [hparse, Except.mapError_error, Except.error.injEq] at h
    exact ⟨reason, h.symm⟩

/-- The error of a value that cannot be read names the key and the value. Only the error of an
algorithm does not: it has the name that was looked up, and the names that there are. -/
theorem Key.read_eq_error (h : key.read value = .error e) :
    (∃ reason, e = (Fault.badValue key value reason).toError) ∨
      key = codec ∧ ∃ looked, looked = String.ofList ((Text.trim value.toList).map Char.toLower) ∧
        e = ⟨.configuration,
          s!"Unknown compression codec '{looked}', expected one of lz4, zstd, snappy", none⟩ := by
  cases key with
  | compress | zstdLevel | cacheCapacity | cacheIdleSeconds =>
    exact .inl (exists_reason_of_parseValue h)
  | codec =>
    rw [read, Algorithm.parse] at h
    split at h <;> cases h
    exact .inr ⟨rfl, _, rfl, rfl⟩

/-- A value that cannot be read is an error of configuration. -/
theorem Key.kind_of_read (h : key.read value = .error e) : e.kind = .configuration := by
  obtain ⟨reason, rfl⟩ | ⟨-, looked, -, rfl⟩ := read_eq_error h
  · exact Fault.kind_toError _
  · rfl

/-! ### Ranges -/

/-- The values are in their ranges: the level is one that exists, and a cache holds something. -/
structure IsInRange (s : Settings) : Prop where
  /-- The level is not below the least. -/
  one_le_level : 1 ≤ s.zstdLevel
  /-- The level is not above the greatest. -/
  level_le : s.zstdLevel ≤ 22
  /-- A cache holds something. -/
  capacity_pos : 0 < s.cacheCapacity

/-- Settings are accepted if their numbers are in range. -/
theorem validate_eq_ok_iff : s.validate = .ok () ↔ s.IsInRange := by
  unfold validate
  split
  · next hlevel =>
    refine iff_of_false nofun fun h => ?_
    exact hlevel.elim (Int32.not_lt.2 h.one_le_level) (Int32.not_lt.2 h.level_le)
  · next hlevel =>
    rw [not_or, Int32.not_lt, Int32.not_lt] at hlevel
    split
    · next hcapacity =>
      exact iff_of_false nofun fun h => UInt64.pos_iff_ne_zero.1 h.capacity_pos hcapacity
    · next hcapacity =>
      exact iff_of_true rfl ⟨hlevel.1, hlevel.2, UInt64.pos_iff_ne_zero.2 hcapacity⟩

/-- A value out of its range is an error of configuration. -/
theorem kind_of_validate (h : s.validate = .error e) : e.kind = .configuration := by
  unfold validate at h
  split at h
  · cases h; exact Fault.kind_toError _
  · split at h <;> cases h
    exact Fault.kind_toError _

end Settings

end Columnar
