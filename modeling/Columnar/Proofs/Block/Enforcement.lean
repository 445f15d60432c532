import Columnar.Proofs.Block.Calls
import Columnar.Proofs.Block.Codec

/-!
# Expected schemas

A reader that expects a schema hands out what a reader hands out that expects none, under the names
of the schema, up to the first batch that does not conform to it (`Reader.answer_enforces`). That
batch becomes an error, and the last item. Nothing else changes: in particular not the error of a
flaw that comes first.

A batch conforms (`Conforms`) if its columns have the types of the schema, in order, and if those
that may not hold NULL hold none. The last is found out by counting marks, of which a column of the
type of NULLs has none: that such a column holds nothing else goes unnoticed
(`Reader.answer_start_nulls`).
-/

namespace Columnar

/-- Marks are found for all NULLs but those of a type that has nothing else. -/
private theorem Column.markedNulls_eq_zero {c : Column} :
    c.markedNulls = 0 ↔ (c.type ≠ .null → none ∉ c.slots) := by
  have hcount : c.nullCount = 0 ↔ none ∉ c.slots := by
    rw [nullCount, List.countP_eq_zero]
    exact ⟨fun h hmem => h none hmem rfl, fun h slot hmem hnone =>
      h (Option.isNone_iff_eq_none.1 hnone ▸ hmem)⟩
  rw [markedNulls]
  split
  · next htype => exact ⟨fun _ hne => absurd htype hne, fun _ => rfl⟩
  · next hne => exact ⟨fun h _ => hcount.1 h, fun h => hcount.2 (h hne)⟩

namespace Block

variable {fields : List ColumnField} {b b' : Batch}

/-! ### Batches of a schema -/

/-- A batch that can be had under a schema. -/
structure Conforms (fields : List ColumnField) (b : Batch) : Prop where
  /-- There is a column for each field, of its type. -/
  types : b.types = fields.map (·.type)
  /-- No column holds NULL that may not, if its type has anything but NULL. -/
  nulls : ∀ p ∈ fields.zip b.columns, p.1.nullable = false → p.2.column.type ≠ .null →
    none ∉ p.2.column.slots

/-- The same rows and values under a schema. -/
structure Relabels (fields : List ColumnField) (b b' : Batch) : Prop where
  /-- The number of rows is the same. -/
  rows : b'.rows = b.rows
  /-- The columns have the same values. -/
  values : b'.columns.map (·.column) = b.columns.map (·.column)
  /-- The names are those of the schema, and what it says about NULLs. -/
  schema : b'.schema = fields

private theorem map_eq_map_iff {α β γ : Type} {f : α → γ} {g : β → γ} {xs : List α} {ys : List β}
    (hlen : ys.length = xs.length) : ys.map g = xs.map f ↔ ∀ p ∈ xs.zip ys, f p.1 = g p.2 := by
  induction xs generalizing ys with
  | nil => cases ys <;> simp_all
  | cons x xs ih =>
    cases ys with
    | nil => cases hlen
    | cons y ys =>
      rw [List.zip_cons_cons, List.forall_mem_cons, List.map_cons, List.map_cons, List.cons.injEq,
        ih (Nat.succ.inj hlen), eq_comm]

theorem typeMismatch?_eq_none (hlen : b.columns.length = fields.length) :
    typeMismatch? fields b = none ↔ b.types = fields.map (·.type) := by
  rw [typeMismatch?, List.findSome?_eq_none_iff, Batch.types, map_eq_map_iff hlen]
  refine forall₂_congr fun p _ => ?_
  by_cases h : p.1.type = p.2.column.type <;> simp [h]

theorem nullMismatch?_eq_none : nullMismatch? fields b = none ↔
    ∀ p ∈ fields.zip b.columns, p.1.nullable = false → p.2.column.type ≠ .null →
      none ∉ p.2.column.slots := by
  rw [nullMismatch?, List.findSome?_eq_none_iff]
  refine forall₂_congr fun ⟨f, c⟩ _ => ?_
  rw [← Column.markedNulls_eq_zero]
  cases hf : f.nullable <;> simp [hf]

/-- What is expected of a batch is that it conforms. -/
theorem conform_eq_ok_iff (hne : fields ≠ []) :
    conform fields b = .ok b' ↔ Conforms fields b ∧ b' = relabel fields b := by
  have hexpected : ¬fields.isEmpty = true := fun h => hne (List.isEmpty_iff.1 h)
  rw [conform, if_neg hexpected]
  by_cases hlen : b.columns.length = fields.length
  · have hlen' : ¬b.columns.length ≠ fields.length := fun h => h hlen
    rw [if_neg hlen']
    have hnone : (typeMismatch? fields b).or (nullMismatch? fields b) = none ↔
        Conforms fields b := by
      rw [Option.or_eq_none_iff, typeMismatch?_eq_none hlen, nullMismatch?_eq_none]
      exact ⟨fun h => ⟨h.1, h.2⟩, fun h => ⟨h.types, h.nulls⟩⟩
    rw [← hnone]
    cases (typeMismatch? fields b).or (nullMismatch? fields b) with
    | some m => exact ⟨nofun, fun h => nomatch h.1⟩
    | none => exact ⟨fun h => ⟨rfl, (Except.ok.inj h).symm⟩, fun h => congrArg _ h.2.symm⟩
  · rw [if_pos hlen]
    refine ⟨nofun, fun h => absurd ?_ hlen⟩
    have htypes := congrArg List.length h.1.types
    rwa [Batch.types, List.length_map, List.length_map] at htypes

private theorem map_zipWith_labels {columns : List NamedColumn}
    (h : columns.map (·.column.type) = fields.map (·.type)) :
    let labelled :=
      fields.zipWith (fun f c => (⟨f.name, f.nullable, c.column⟩ : NamedColumn)) columns
    labelled.map (·.column) = columns.map (·.column) ∧ labelled.map NamedColumn.field = fields := by
  induction fields generalizing columns with
  | nil => cases columns <;> simp_all
  | cons f fields ih =>
    cases columns with
    | nil => cases h
    | cons c columns =>
      obtain ⟨htype, h⟩ := List.cons.inj h
      obtain ⟨hvalues, hschema⟩ := ih h
      have hfield : NamedColumn.field ⟨f.name, f.nullable, c.column⟩ = f :=
        congrArg (ColumnField.mk f.name · f.nullable) htype
      exact ⟨congrArg (c.column :: ·) hvalues,
        (congrArg (· :: _) hfield).trans (congrArg (f :: ·) hschema)⟩

/-- A batch with the types of a schema can be relabelled. -/
private theorem relabels_relabel (h : b.types = fields.map (·.type)) :
    Relabels fields b (relabel fields b) := by
  obtain ⟨hvalues, hschema⟩ := map_zipWith_labels h
  exact ⟨rfl, hvalues, hschema⟩

/-! ### Readings under a schema -/

/-- Some batches under an expected schema, up to the first one that does not conform to it. -/
def enforce (fields : List ColumnField) (ending : Option Flaw) : List Batch → Reading
  | [] => ⟨[], ending⟩
  | b :: batches =>
    match conform fields b with
    | .error m => ⟨[], some (.defect (.mismatch m))⟩
    | .ok b => (enforce fields ending batches).cons b

namespace Reading

variable {x y : Reading}

/-- A reading under an expected schema. -/
def enforce (fields : List ColumnField) (x : Reading) : Reading :=
  Block.enforce fields x.ending x.batches

theorem enforce_cons (b : Batch) (x : Reading) : (cons b x).enforce fields =
    match conform fields b with
    | .error m => ⟨[], some (.defect (.mismatch m))⟩
    | .ok b => (x.enforce fields).cons b :=
  rfl

theorem enforce_append (x y : Reading) :
    (x.append y).enforce fields = (x.enforce fields).append (y.enforce fields) := by
  obtain ⟨batches, ending⟩ := x
  induction batches with
  | nil => cases ending <;> rfl
  | cons b batches ih =>
    have hcons : (⟨b :: batches, ending⟩ : Reading) = cons b ⟨batches, ending⟩ := rfl
    rw [hcons, cons_append, enforce_cons, enforce_cons, ih]
    cases conform fields b with
    | error m => rfl
    | ok b => exact (cons_append b _ _).symm

end Reading

/-- A stream under an expected schema is read like any stream, up to the first batch that does not
conform. -/
private theorem streamReading_eq (fields : List ColumnField) (index : Nat) (s : Stream.Reader) :
    streamReading fields index s = (streamReading [] index s).enforce fields := by
  fun_induction streamReading [] index s with
  | case1 s fault h => rw [streamReading_next, h]; rfl
  | case2 s h => rw [streamReading_next, h]; rfl
  | case3 s b t h m hm => cases hm
  | case4 s b t h b' hb ih =>
    cases hb
    rw [streamReading_next, h]
    cases hconform : conform fields b <;> simp only [hconform, ih, Reading.enforce_cons]

/-- Blocks under an expected schema are read like any blocks, up to the first batch that does not
conform. -/
theorem Codec.reading_eq (c : Codec) (fields : List ColumnField) (index : Nat)
    (blocks : List Bytes) :
    c.reading fields index blocks = (c.reading [] index blocks).enforce fields := by
  induction blocks generalizing index with
  | nil => rfl
  | cons block blocks ih =>
    rw [reading, reading]
    cases c.opens index block with
    | error o => rfl
    | ok s => rw [Reading.enforce_append, ← ih, ← streamReading_eq]

/-! ### What groups hold -/

/-- The reading of a stream that hands out some batches, and then comes to an end or to a flaw. -/
private theorem streamReading_of_hands {index : Nat} {s : Stream.Reader} {batches : List Batch}
    {ending : Except Stream.Fault (Option (Batch × Stream.Reader))} {flaw : Option Flaw}
    (hending : ∀ t : Stream.Reader, t.next = ending → streamReading [] index t = ⟨[], flaw⟩)
    (h : s.Hands ending batches) : streamReading [] index s = ⟨batches, flaw⟩ := by
  induction batches generalizing s with
  | nil => exact hending s h
  | cons b batches ih =>
    obtain ⟨t, hnext, h⟩ := h
    rw [streamReading_next, hnext]
    exact congrArg (Reading.cons b) (ih h)

private theorem Codec.opens_of_holds {c : Codec} {sizes : Nat → Prop} {block stream : Bytes}
    (h : c.Holds sizes block stream) (index : Nat) :
    c.opens index block = openStream index stream := by
  obtain ⟨_ | p⟩ := c
  · obtain ⟨rfl, -⟩ : block = stream ∧ sizes stream.length := h
    rfl
  · have hdecode : p.decode block = .ok stream := h.1
    have hstream : (⟨some p⟩ : Codec).streamOf index block = .ok stream := by
      simp only [streamOf, hdecode]
      rfl
    rw [opens, hstream]
    rfl

/-- What blocks give is what they hold, if no schema is expected. -/
private theorem Codec.reading_of_gives {c : Codec} {sizes : Nat → Prop} {index : Nat}
    {blocks : List Bytes}
    {batches : List Batch} {ending : Option Error} (h : c.Gives sizes index blocks batches ending) :
    ∃ flaw, c.reading [] index blocks = ⟨batches, flaw⟩ ∧ flaw.map Flaw.toError = ending := by
  induction blocks generalizing index batches with
  | nil =>
    obtain ⟨rfl, rfl⟩ := h
    exact ⟨none, rfl, rfl⟩
  | cons block blocks ih =>
    obtain ⟨stream, hholds, h⟩ := h
    rw [reading, opens_of_holds hholds]
    cases hopen : openStream index stream with
    | error o =>
      rw [hopen] at h
      obtain ⟨rfl, rfl⟩ := h
      exact ⟨some (.obstacle o), rfl, rfl⟩
    | ok s =>
      rw [hopen] at h
      obtain ⟨fault, hhands, rfl⟩ | ⟨first, later, rfl, hhands, hlater⟩ := h
      · have hstream : streamReading [] index s =
            ⟨batches, some (.defect (.badMessage index fault))⟩ :=
          streamReading_of_hands (fun t ht => by rw [streamReading_next, ht]) hhands
        exact ⟨_, congrArg (Reading.append · _) hstream, rfl⟩
      · have hstream : streamReading [] index s = ⟨first, none⟩ :=
          streamReading_of_hands (fun t ht => by rw [streamReading_next, ht]) hhands
        obtain ⟨flaw, hreading, hflaw⟩ := ih hlater
        refine ⟨flaw, ?_, hflaw⟩
        simp only [hstream, hreading]
        rfl

/-- Blocks that were written for groups hold the batches of all of them. -/
private theorem Codec.reading_writeAll {c : Codec} {groups : List (List Batch)}
    (hgroups : ∀ g ∈ groups, Stream.IsStorableGroup g ∧ c.Fits g) (stats : Compression.Stats)
    (index : Nat) : c.reading [] index (c.writeAll stats groups).1 = ⟨groups.flatten, none⟩ := by
  obtain ⟨flaw, hreading, hflaw⟩ := reading_of_gives (gives_writeAll hgroups stats index)
  rw [hreading, Option.map_eq_none_iff.1 hflaw]

/-- A group of one batch, of one column that can be stored. -/
private theorem isStorableGroup_singleton {rows : Nat} {d : NamedColumn}
    {h : ∀ c ∈ [d], c.column.length = rows} (hrows : rows < 2 ^ 63) (hd : Stream.IsStorable d)
    (hbody : (Stream.batchBody ⟨rows, [d], h⟩).length < 2 ^ 63)
    (hmetadata : (Stream.Message.ofSchema [d.field]).metadata.length < 2 ^ 31) :
    Stream.IsStorableGroup [⟨rows, [d], h⟩] := by
  have hwidth : [d].length ≤ Stream.Header.maxFields := by
    rw [List.length_singleton]
    decide
  refine ⟨by simp, fun b hb => ?_, hmetadata⟩
  obtain rfl := List.mem_singleton.1 hb
  exact ⟨hrows, hwidth, hbody, fun c hc => List.mem_singleton.1 hc ▸ hd⟩

/-! ### Items under a schema -/

/-- What is handed out, without an expected schema and with it. -/
inductive Enforces (fields : List ColumnField) :
    List (Except Error Batch) → List (Except Error Batch) → Prop
  /-- Both come to their end together. -/
  | nil : Enforces fields [] []
  /-- Both have the same error. -/
  | error (e : Error) : Enforces fields [.error e] [.error e]
  /-- A batch that conforms has the labels of the schema. -/
  | batch {b b' : Batch} {items items' : List (Except Error Batch)} (hb : Conforms fields b)
    (hlabels : Relabels fields b b') (h : Enforces fields items items') :
    Enforces fields (.ok b :: items) (.ok b' :: items')
  /-- A batch that does not conform is an error, and the last item. -/
  | mismatch {b : Batch} {e : Error} (hb : ¬Conforms fields b) (he : e.kind = .corruptData)
    (items : List (Except Error Batch)) : Enforces fields (.ok b :: items) [.error e]

private theorem Reading.enforces_items (hne : fields ≠ []) (x : Reading) :
    Enforces fields x.items (x.enforce fields).items := by
  obtain ⟨batches, ending⟩ := x
  induction batches with
  | nil =>
    cases ending with
    | none => exact .nil
    | some f => exact .error f.toError
  | cons b batches ih =>
    have hcons : (⟨b :: batches, ending⟩ : Reading) = cons b ⟨batches, ending⟩ := rfl
    rw [hcons, items_cons, enforce_cons]
    cases hconform : conform fields b with
    | error m =>
      refine .mismatch (fun hb => ?_) (Reader.Defect.kind_toError (.mismatch m)) _
      rw [(conform_eq_ok_iff hne).2 ⟨hb, rfl⟩] at hconform
      cases hconform
    | ok b' =>
      obtain ⟨hb, rfl⟩ := (conform_eq_ok_iff hne).1 hconform
      exact .batch hb (relabels_relabel hb.types) ih

/-- The answers of a reader that expects a schema. -/
private theorem Reader.answer_start (c : Codec) (fields : List Field) (buffer : Buffer) {h : Host}
    (hpool : h.pool = none) (calls : List ReaderCall) :
    let r := start c fields buffer h
    (r.1.answer calls r.2).1 = answersOf
      ((c.reading [] 0 buffer.blocks).enforce (fields.map Field.stored)).items calls := by
  intro r
  rw [← Codec.reading_eq]
  exact answer_eq (start_stands c fields buffer hpool) calls

/-- **Expected schemas.** Where memory is not limited, a reader that expects a schema hands out the
batches of one that does not, as long as they conform to it: their rows and values, with the names
of the schema and with what it says about NULL. The first batch that does not conform becomes an
error of corrupt data, and nothing comes after it. An error that comes before is the same error, and
both readers come to their end together. -/
theorem Reader.answer_enforces (c : Codec) {fields : List Field} (hne : fields ≠ [])
    (buffer : Buffer) {h : Host} (hpool : h.pool = none) :
    let any := Reader.start c [] buffer h
    let expecting := Reader.start c fields buffer h
    ∃ items items', Enforces (fields.map Field.stored) items items' ∧
      (∀ calls, (any.1.answer calls any.2).1 = answersOf items calls) ∧
      ∀ calls, (expecting.1.answer calls expecting.2).1 = answersOf items' calls := by
  intro any expecting
  let x := c.reading [] 0 buffer.blocks
  have hne' : fields.map Field.stored ≠ [] := fun h => hne (List.map_eq_nil_iff.1 h)
  exact ⟨x.items, (x.enforce (fields.map Field.stored)).items, x.enforces_items hne',
    answer_eq (start_stands c [] buffer hpool), answer_start c fields buffer hpool⟩

/-- Two blocks with a column that may not hold NULL, and does so in the second one. -/
theorem Reader.answer_enforces_null :
    let fields : List Field := [⟨"k", .int32, false⟩]
    let b₁ : Batch := ⟨2, [⟨"a", true, ⟨.int32, [some 1, some 2]⟩⟩], by decide⟩
    let b₂ : Batch := ⟨1, [⟨"b", true, ⟨.int32, [none]⟩⟩], by decide⟩
    let b₁' : Batch := ⟨2, [⟨"k", false, ⟨.int32, [some 1, some 2]⟩⟩], by decide⟩
    let buffer : Buffer := ⟨⟨0⟩, (({} : Codec).writeAll {} [[b₁], [b₂]]).1⟩
    let any := Reader.start {} [] buffer {}
    let expecting := Reader.start {} fields buffer {}
    fields ≠ [] ∧ ({} : Host).pool = none ∧
      (∃ items items', Enforces (fields.map Field.stored) items items' ∧
        (∀ calls, (any.1.answer calls any.2).1 = answersOf items calls) ∧
        ∀ calls, (expecting.1.answer calls expecting.2).1 = answersOf items' calls) ∧
      (any.1.answer [.next, .next, .next] any.2).1 = [some (.ok b₁), some (.ok b₂), none] ∧
      (expecting.1.answer [.next, .next, .next] expecting.2).1 =
        [some (.ok b₁'), some (.error (Mismatch.null "k").toError), none] := by
  intro fields b₁ b₂ b₁' buffer any expecting
  have hgroups : ∀ g ∈ [[b₁], [b₂]], Stream.IsStorableGroup g ∧ ({} : Codec).Fits g := by
    have h₁ : Stream.IsStorableGroup [b₁] :=
      isStorableGroup_singleton (by decide) ⟨nofun, by decide +kernel, nofun⟩ (by decide +kernel)
        (by decide +kernel)
    have h₂ : Stream.IsStorableGroup [b₂] :=
      isStorableGroup_singleton (by decide) ⟨nofun, by decide +kernel, nofun⟩ (by decide +kernel)
        (by decide +kernel)
    simpa using ⟨⟨h₁, nofun⟩, h₂, nofun⟩
  have hreading : ({} : Codec).reading [] 0 buffer.blocks = ⟨[b₁, b₂], none⟩ :=
    Codec.reading_writeAll hgroups {} 0
  have hany := answer_start {} [] buffer (h := {}) rfl [.next, .next, .next]
  have hexpecting := answer_start {} fields buffer (h := {}) rfl [.next, .next, .next]
  rw [hreading] at hany hexpecting
  have hne : fields ≠ [] := List.cons_ne_nil _ _
  exact ⟨hne, rfl, answer_enforces {} hne buffer (h := {}) rfl, hany.trans rfl,
    hexpecting.trans rfl⟩

/-- A column of NULLs passes under a name that does not allow NULL. -/
theorem Reader.answer_start_nulls :
    let fields : List Field := [⟨"k", .null, false⟩]
    let b : Batch := ⟨1, [⟨"n", true, ⟨.null, [none]⟩⟩], by decide⟩
    let b' : Batch := ⟨1, [⟨"k", false, ⟨.null, [none]⟩⟩], by decide⟩
    let buffer : Buffer := ⟨⟨0⟩, (({} : Codec).writeAll {} [[b]]).1⟩
    let any := Reader.start {} [] buffer {}
    let expecting := Reader.start {} fields buffer {}
    (∃ p ∈ (fields.map Field.stored).zip b.columns,
      p.1.nullable = false ∧ none ∈ p.2.column.slots) ∧
    (any.1.answer [.next, .next] any.2).1 = [some (.ok b), none] ∧
    (expecting.1.answer [.next, .next] expecting.2).1 = [some (.ok b'), none] := by
  intro fields b b' buffer any expecting
  have hgroups : ∀ g ∈ [[b]], Stream.IsStorableGroup g ∧ ({} : Codec).Fits g := by
    have hb : Stream.IsStorableGroup [b] :=
      isStorableGroup_singleton (by decide) ⟨nofun, by decide +kernel, nofun⟩ (by decide +kernel)
        (by decide +kernel)
    simpa using ⟨hb, nofun⟩
  have hreading : ({} : Codec).reading [] 0 buffer.blocks = ⟨[b], none⟩ :=
    Codec.reading_writeAll hgroups {} 0
  have hany := answer_start {} [] buffer (h := {}) rfl [.next, .next]
  have hexpecting := answer_start {} fields buffer (h := {}) rfl [.next, .next]
  rw [hreading] at hany hexpecting
  exact ⟨⟨_, List.mem_cons_self, rfl, List.mem_cons_self⟩, hany.trans rfl, hexpecting.trans rfl⟩

end Block

end Columnar
