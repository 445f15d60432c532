import Columnar.Proofs.Block.Codec

/-!
# Settings from pairs

Pairs of names and values come from a table, in which each name occurs once and which has no order
of its own. Here the order in which they are read turns out not to matter
(`Settings.ofPairs_unordered`), although the first value that cannot be read ends the reading, and
the ranges of the values are checked only after all pairs.

What pairs do to settings is said without an order (`Settings.Changes`): a key that they name gets
the value that its text stands for, and any other key keeps its own. Reading the pairs one by one
does that if the names are distinct (`Settings.setAll_eq_ok_iff`), so that the same pairs in two
orders give the same settings, or none. Which error is reported may depend on the order, if there is
more than one to report. The errors that some order reports are known (`Settings.Reports`), and each
of them is one of configuration.
-/

namespace Columnar.Settings

variable {pairs other : List (String × String)} {s s' : Settings} {key key' : Key}
  {name value value' : String} {e : Error}

/-! ### Names -/

namespace Key

@[simp]
theorem ofName?_name (key : Key) : ofName? key.name = some key := by
  cases key <;> decide

theorem name_inj : key.name = key'.name ↔ key = key' := by
  refine ⟨fun h => ?_, congrArg name⟩
  have hkeys := ofName?_name key
  rw [h, ofName?_name] at hkeys
  exact (Option.some.inj hkeys).symm

private theorem name_of_ofName? (h : ofName? name = some key) : key.name = name := by
  have hname := List.find?_some h
  exact beq_iff_eq.1 hname

end Key

/-- A pair with the name of a key. -/
def isKnown (p : String × String) : Bool :=
  (Key.ofName? p.1).isSome

private theorem mem_cons_name : (key'.name, value') ∈ (key.name, value) :: pairs ↔
    key' = key ∧ value' = value ∨ (key'.name, value') ∈ pairs := by
  rw [List.mem_cons, Prod.mk.injEq, Key.name_inj]

private theorem mem_cons_unknown (h : Key.ofName? name = none) :
    (key.name, value') ∈ (name, value) :: pairs ↔ (key.name, value') ∈ pairs := by
  rw [List.mem_cons, or_iff_right]
  rintro ⟨⟩
  rw [Key.ofName?_name] at h
  cases h

/-! ### What pairs do to settings -/

/-- Pairs change settings into others: a key that is named gets a value that its text stands for,
and a key that is not named keeps its value. -/
structure Changes (pairs : List (String × String)) (s s' : Settings) : Prop where
  /-- A key that is named has a value that its text stands for. -/
  named : ∀ (key : Key) value, (key.name, value) ∈ pairs → key.Denotes value (s'.get key)
  /-- A key that is not named has the value that it had. -/
  unnamed : ∀ key : Key, (∀ value, (key.name, value) ∉ pairs) → s'.get key = s.get key

/-- What pairs do depends neither on their order nor on pairs with other names. -/
theorem changes_congr
    (h : ∀ (key : Key) value, (key.name, value) ∈ pairs ↔ (key.name, value) ∈ other) :
    Changes pairs s s' ↔ Changes other s s' := by
  constructor
  · rintro ⟨hnamed, hunnamed⟩
    simp only [h] at hnamed hunnamed
    exact ⟨hnamed, hunnamed⟩
  · rintro ⟨hnamed, hunnamed⟩
    simp only [← h] at hnamed hunnamed
    exact ⟨hnamed, hunnamed⟩

private theorem changes_nil : Changes [] s s' ↔ s = s' := by
  constructor
  · rintro ⟨-, hunnamed⟩
    exact ext_get fun key => (hunnamed key fun _ => List.not_mem_nil).symm
  · rintro rfl
    exact ⟨nofun, fun _ _ => rfl⟩

/-- A pair in front gives its key a value, and the others do not name that key again. -/
private theorem changes_cons (hfresh : key.name ∉ pairs.map Prod.fst) :
    Changes ((key.name, value) :: pairs) s s' ↔
      ∃ v, key.Denotes value v ∧ Changes pairs (s.update key v) s' := by
  have hkey (v : String) : (key.name, v) ∉ pairs := fun hv => hfresh (List.mem_map_of_mem hv)
  constructor
  · rintro ⟨hnamed, hunnamed⟩
    refine ⟨s'.get key, hnamed key value List.mem_cons_self,
      fun k v hv => hnamed k v (List.mem_cons_of_mem _ hv), fun k hk => ?_⟩
    by_cases h : k = key
    · rw [h, get_update_self]
    · rw [get_update_of_ne h]
      exact hunnamed k fun v hv => (mem_cons_name.1 hv).elim (fun hv => h hv.1) (hk v)
  · rintro ⟨v, hv, hnamed, hunnamed⟩
    refine ⟨fun k w hw => ?_, fun k hk => ?_⟩
    · obtain ⟨rfl, rfl⟩ | hw := mem_cons_name.1 hw
      · rwa [hunnamed k hkey, get_update_self]
      · exact hnamed k w hw
    · have h : k ≠ key := fun h => hk value (h ▸ List.mem_cons_self)
      rw [hunnamed k fun w hw => hk w (List.mem_cons_of_mem _ hw), get_update_of_ne h]

/-! ### Reading pairs one by one -/

private theorem setAll_cons_name : s.setAll ((key.name, value) :: pairs) =
    (key.read value).bind fun v => (s.update key v).setAll pairs := by
  rw [setAll, Key.ofName?_name]
  change (s.set key value).bind (·.setAll pairs) = _
  rw [set_eq]
  cases key.read value <;> rfl

private theorem setAll_cons_unknown (h : Key.ofName? name = none) :
    s.setAll ((name, value) :: pairs) = s.setAll pairs := by
  rw [setAll, h]

/-- A pair has the name of a key or another one. -/
private theorem name_cases (name : String) :
    (∃ key : Key, key.name = name) ∨ Key.ofName? name = none := by
  cases h : Key.ofName? name with
  | none => exact .inr rfl
  | some key => exact .inl ⟨key, Key.name_of_ofName? h⟩

/-- **Pairs with distinct names are read as what they do to settings.** -/
theorem setAll_eq_ok_iff (hnodup : (pairs.map Prod.fst).Nodup) :
    s.setAll pairs = .ok s' ↔ Changes pairs s s' := by
  induction pairs generalizing s with
  | nil => rw [changes_nil, setAll, Except.ok.injEq]
  | cons p pairs ih =>
    obtain ⟨name, value⟩ := p
    obtain ⟨hfresh, hrest⟩ := List.nodup_cons.1 hnodup
    have ih (s : Settings) : s.setAll pairs = .ok s' ↔ Changes pairs s s' := ih hrest
    obtain ⟨key, rfl⟩ | hname := name_cases name
    · rw [setAll_cons_name, changes_cons hfresh]
      constructor
      · intro h
        obtain ⟨v, hv, h⟩ := Except.bind_eq_ok h
        exact ⟨v, Key.read_eq_ok_iff.1 hv, (ih _).1 h⟩
      · rintro ⟨v, hv, h⟩
        rw [Key.read_eq_ok_iff.2 hv]
        exact (ih _).2 h
    · rw [setAll_cons_unknown hname, ih s]
      exact changes_congr fun k v => (mem_cons_unknown hname).symm

/-- Pairs that cannot be read have a value that cannot be read. -/
private theorem exists_of_setAll_eq_error (h : s.setAll pairs = .error e) :
    ∃ (key : Key) (value : String), (key.name, value) ∈ pairs ∧ key.read value = .error e := by
  induction pairs generalizing s with
  | nil => cases h
  | cons p pairs ih =>
    obtain ⟨name, value⟩ := p
    obtain ⟨key, rfl⟩ | hname := name_cases name
    · rw [setAll_cons_name] at h
      cases hv : key.read value with
      | error e' =>
        rw [hv] at h
        cases h
        exact ⟨key, value, List.mem_cons_self, hv⟩
      | ok v =>
        rw [hv] at h
        obtain ⟨k, w, hw, he⟩ := ih h
        exact ⟨k, w, List.mem_cons_of_mem _ hw, he⟩
    · rw [setAll_cons_unknown hname] at h
      obtain ⟨k, w, hw, he⟩ := ih h
      exact ⟨k, w, List.mem_cons_of_mem _ hw, he⟩

/-- Pairs with other names are passed over. -/
private theorem setAll_filter (s : Settings) (pairs : List (String × String)) :
    s.setAll (pairs.filter isKnown) = s.setAll pairs := by
  induction pairs generalizing s with
  | nil => rfl
  | cons p pairs ih =>
    obtain ⟨name, value⟩ := p
    obtain ⟨key, rfl⟩ | hname := name_cases name
    · rw [List.filter_cons_of_pos (by simp [isKnown]), setAll_cons_name, setAll_cons_name]
      simp only [ih]
    · rw [List.filter_cons_of_neg (by simp [isKnown, hname]), setAll_cons_unknown hname, ih]

/-- Pairs with distinct names change settings if each value of a key can be read. -/
private theorem exists_changes_iff (hnodup : (pairs.map Prod.fst).Nodup) :
    (∃ s', Changes pairs s s') ↔
    ∀ (key : Key) value, (key.name, value) ∈ pairs → ∃ v, key.Denotes value v := by
  constructor
  · rintro ⟨s', hchanges⟩ key value hp
    exact ⟨_, hchanges.named key value hp⟩
  · intro h
    cases hs : s.setAll pairs with
    | ok s' => exact ⟨s', (setAll_eq_ok_iff hnodup).1 hs⟩
    | error e =>
      obtain ⟨key, value, hp, he⟩ := exists_of_setAll_eq_error hs
      obtain ⟨v, hv⟩ := h key value hp
      cases he.symm.trans (Key.read_eq_ok_iff.2 hv)

/-! ### Settings that pairs describe -/

private theorem ofPairs_of_setAll (h : ({} : Settings).setAll pairs = .ok s) :
    ofPairs pairs = s.validate.map fun _ => s := by
  rw [ofPairs, h]
  change (s.validate >>= fun _ => pure s) = _
  cases s.validate <;> rfl

private theorem ofPairs_of_error (h : ({} : Settings).setAll pairs = .error e) :
    ofPairs pairs = .error e := by
  rw [ofPairs, h]
  rfl

/-- Pairs with distinct names describe the settings into which they change the default ones, if
those are in their ranges. -/
theorem ofPairs_eq_ok_iff (hnodup : (pairs.map Prod.fst).Nodup) :
    ofPairs pairs = .ok s ↔ Changes pairs {} s ∧ s.IsInRange := by
  rw [← setAll_eq_ok_iff hnodup, ← validate_eq_ok_iff]
  constructor
  · intro h
    cases hs : ({} : Settings).setAll pairs with
    | error e => cases (ofPairs_of_error hs).symm.trans h
    | ok s' =>
      rw [ofPairs_of_setAll hs] at h
      obtain ⟨_, hvalid, rfl⟩ := Except.map_eq_ok h
      exact ⟨rfl, hvalid⟩
  · rintro ⟨hs, hvalid⟩
    rw [ofPairs_of_setAll hs, hvalid]
    rfl

/-- Pairs with distinct names describe settings if all values can be read, and those that come of
that are in their ranges. -/
theorem exists_ofPairs_iff (hnodup : (pairs.map Prod.fst).Nodup) : (∃ s, ofPairs pairs = .ok s) ↔
    (∀ (key : Key) value, (key.name, value) ∈ pairs → ∃ v, key.Denotes value v) ∧
      ∀ s, Changes pairs {} s → s.IsInRange := by
  rw [← exists_changes_iff hnodup]
  constructor
  · rintro ⟨s, hs⟩
    obtain ⟨hchanges, hrange⟩ := (ofPairs_eq_ok_iff hnodup).1 hs
    refine ⟨⟨s, hchanges⟩, fun s' hs' => ?_⟩
    -- The settings are the same, since reading the pairs gives both.
    have hread := (setAll_eq_ok_iff hnodup).2 hchanges
    have hread' := (setAll_eq_ok_iff hnodup).2 hs'
    rwa [← Except.ok.inj (hread.symm.trans hread')]
  · rintro ⟨⟨s, hchanges⟩, hrange⟩
    exact ⟨s, (ofPairs_eq_ok_iff hnodup).2 ⟨hchanges, hrange s hchanges⟩⟩

/-! ### Errors that pairs report -/

/-- The errors that pairs report: of a value that cannot be read or, if all can, of one that is out
of its range. -/
inductive Reports (pairs : List (String × String)) : Error → Prop
  /-- The error of a value that cannot be read. -/
  | value {key : Key} {value : String} {e : Error} (hp : (key.name, value) ∈ pairs)
    (he : key.read value = .error e) : Reports pairs e
  /-- The error of a value out of its range. -/
  | range {s : Settings} {e : Error} (hs : Changes pairs {} s) (he : s.validate = .error e) :
    Reports pairs e

private theorem Reports.kind_eq (h : Reports pairs e) : e.kind = .configuration := by
  cases h with
  | value _ he => exact Key.kind_of_read he
  | range _ he => exact kind_of_validate he

private theorem Reports.congr
    (hsame : ∀ (key : Key) value, (key.name, value) ∈ pairs ↔ (key.name, value) ∈ other)
    (h : Reports pairs e) : Reports other e := by
  cases h with
  | value hp he => exact .value ((hsame _ _).1 hp) he
  | range hs he => exact .range ((changes_congr hsame).1 hs) he

/-- Pairs with distinct names that describe no settings report an error. -/
theorem reports_of_ofPairs (hnodup : (pairs.map Prod.fst).Nodup) (h : ofPairs pairs = .error e) :
    Reports pairs e := by
  cases hs : ({} : Settings).setAll pairs with
  | error e' =>
    obtain rfl := Except.error.inj ((ofPairs_of_error hs).symm.trans h)
    obtain ⟨key, value, hp, he⟩ := exists_of_setAll_eq_error hs
    exact .value hp he
  | ok s =>
    rw [ofPairs_of_setAll hs] at h
    cases hvalid : s.validate with
    | ok _ => rw [hvalid] at h; cases h
    | error e' =>
      rw [hvalid] at h
      obtain rfl := Except.error.inj h
      exact .range ((setAll_eq_ok_iff hnodup).1 hs) hvalid

/-- Each error that pairs report is the one that is met first in some order of theirs. -/
private theorem exists_perm_iff_reports (hnodup : (pairs.map Prod.fst).Nodup) :
    (∃ other, pairs.Perm other ∧ ofPairs other = .error e) ↔ Reports pairs e := by
  constructor
  · rintro ⟨other, hperm, h⟩
    have hreports := reports_of_ofPairs ((hperm.map Prod.fst).nodup hnodup) h
    exact hreports.congr fun _ _ => hperm.symm.mem_iff
  · intro h
    cases h with
    | @value key value _ hp he =>
      refine ⟨_, List.perm_cons_erase hp, ofPairs_of_error ?_⟩
      rw [setAll_cons_name, he]
      rfl
    | @range s _ hs he =>
      refine ⟨pairs, .refl _, ?_⟩
      rw [ofPairs_of_setAll ((setAll_eq_ok_iff hnodup).2 hs), he]
      rfl

/-! ### Any order -/

/-- Two readings agree: both have the same settings, or both an error of configuration. -/
inductive Agree : Except Error Settings → Except Error Settings → Prop
  /-- The same settings. -/
  | settings (s : Settings) : Agree (.ok s) (.ok s)
  /-- Errors of configuration, which may differ. -/
  | errors {e e' : Error} (h : e.kind = .configuration) (h' : e'.kind = .configuration) :
    Agree (.error e) (.error e')

/-- Readings of pairs with distinct names agree if the names of keys have the same values. -/
private theorem agree_ofPairs (hpairs : (pairs.map Prod.fst).Nodup)
    (hother : (other.map Prod.fst).Nodup)
    (hsame : ∀ (key : Key) value, (key.name, value) ∈ pairs ↔ (key.name, value) ∈ other) :
    Agree (ofPairs pairs) (ofPairs other) := by
  have hok (s : Settings) : ofPairs pairs = .ok s ↔ ofPairs other = .ok s := by
    rw [ofPairs_eq_ok_iff hpairs, ofPairs_eq_ok_iff hother, changes_congr hsame]
  cases h : ofPairs pairs with
  | ok s =>
    rw [(hok s).1 h]
    exact .settings s
  | error e =>
    cases h' : ofPairs other with
    | ok s => cases h.symm.trans ((hok s).2 h')
    | error e' =>
      exact .errors (reports_of_ofPairs hpairs h).kind_eq (reports_of_ofPairs hother h').kind_eq

/-- **Settings do not depend on the order of pairs.** Other pairs with distinct names that have the
same values for the names of keys give the same settings, or an error of configuration as well. Such
are the same pairs in any other order, with any pairs of other names added to them or taken away.
Where the order of the rest is kept, pairs of other names do not change the error either.

Settings are described if the value of each key that is named can be read, and the values that come
of that are in their ranges. Else the errors that some order reports are those of the values that
cannot be read and, if there is no such value, the one of the ranges.

A codec can be had for all settings that are described. It has a compressor if they say that blocks
are compressed, which works by the algorithm that they name. -/
theorem ofPairs_unordered (hnodup : (pairs.map Prod.fst).Nodup) :
    (∀ other, (other.map Prod.fst).Nodup →
      (∀ (key : Key) value, (key.name, value) ∈ pairs ↔ (key.name, value) ∈ other) →
      Agree (ofPairs pairs) (ofPairs other)) ∧
    (∀ other, pairs.filter isKnown = other.filter isKnown → ofPairs pairs = ofPairs other) ∧
    ((∃ s, ofPairs pairs = .ok s) ↔
      (∀ (key : Key) value, (key.name, value) ∈ pairs → ∃ v, key.Denotes value v) ∧
        ∀ s, Changes pairs {} s → s.IsInRange) ∧
    (∀ e, (∃ other, pairs.Perm other ∧ ofPairs other = .error e) ↔ Reports pairs e) ∧
    ∀ s, ofPairs pairs = .ok s → Changes pairs {} s ∧
      ∃ c, Block.Codec.ofSettings s = .ok c ∧
        c.compressor = if s.compress then
          some ⟨s.codec, if s.codec.supportsLevels then s.zstdLevel else s.codec.defaultLevel, true⟩
          else none := by
  refine ⟨fun other hother hsame => agree_ofPairs hnodup hother hsame, fun other hfilter => ?_,
    exists_ofPairs_iff hnodup, fun e => exists_perm_iff_reports hnodup, fun s hs => ?_⟩
  · rw [ofPairs, ofPairs, ← setAll_filter {} pairs, hfilter, setAll_filter]
  · obtain ⟨hchanges, hrange⟩ := (ofPairs_eq_ok_iff hnodup).1 hs
    exact ⟨hchanges, _, Block.Codec.ofSettings_of_isInRange hrange, rfl⟩

/-- Three settings in two orders, with blanks, capitals, a plus sign and a zero in front, and in one
of the orders among pairs that are not for this library. -/
theorem ofPairs_unordered_zstd :
    let pairs := [("nativesql.io.compression.codec", " ZSTD\t"),
      ("nativesql.io.compression.zstd.level", "+05"), ("nativesql.broadcast.cache.capacity", "8\n")]
    let other := [("nativesql.some.future.key", "1"), ("nativesql.broadcast.cache.capacity", "8\n"),
      ("nativesql.io.compression.zstd.level", "+05"), ("shuffle.partitions", "200"),
      ("nativesql.io.compression.codec", " ZSTD\t")]
    let s : Settings := { codec := .zstd, zstdLevel := 5, cacheCapacity := 8 }
    (pairs.map Prod.fst).Nodup ∧ ofPairs pairs = .ok s ∧ ofPairs other = .ok s ∧
      ∃ c, Block.Codec.ofSettings s = .ok c ∧ c.compressor = some ⟨.zstd, 5, true⟩ := by
  intro pairs other s
  have hnodup : (pairs.map Prod.fst).Nodup := by decide
  have hs : ofPairs pairs = .ok s := by rfl
  obtain ⟨hagree, -, -, -, hcodec⟩ := ofPairs_unordered hnodup
  have hsame (key : Key) (value : String) :
      (key.name, value) ∈ pairs ↔ (key.name, value) ∈ other := by
    cases key <;> simp [pairs, other, Key.name]
  have hother := hagree other (by decide) hsame
  rw [hs] at hother
  cases h : ofPairs other with
  | error e => rw [h] at hother; cases hother
  | ok s' =>
    rw [h] at hother
    cases hother
    exact ⟨hnodup, hs, rfl, (hcodec s hs).2⟩

end Columnar.Settings
