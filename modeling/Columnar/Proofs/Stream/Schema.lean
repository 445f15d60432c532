import Columnar.Proofs.Stream.FlatBuffer.Slots
import Columnar.Proofs.Utf8
import Columnar.Stream.Metadata

/-!
# Schemas read back

The table of a schema that was written passes the check of metadata, and the fields that are read
from it are those it was written for. Both hold of types, fields and schemas, one after the other; a
field takes two tables and a schema one more than its fields.

Columns of types that are known by name only are written as columns of NULLs, and are left out here.
-/

namespace Columnar.Stream

open FlatBuffer

/-- A column whose values are kept. -/
def IsKept (t : ColumnType) : Prop :=
  ∀ name, t ≠ .foreign name

/-- The columns of the supported types are kept. -/
theorem isKept_stored (d : DataType) : IsKept d.stored := by
  intro name
  cases d <;> exact nofun

/-- Slots that are checked one after the other, without any further tables. -/
theorem foldlM_checkSlot {τ : Type} {shapes : τ → List (Nat × Shape τ)} {depth left : Nat}
    {t : Table} {entries : List (Nat × Shape τ)}
    (h : ∀ e ∈ entries, checkSlot shapes depth t left e = some left) :
    entries.foldlM (checkSlot shapes depth t) left = some left := by
  induction entries with
  | nil => rfl
  | cons e entries ih =>
    rw [List.foldlM_cons, h e List.mem_cons_self]
    exact ih fun e he => h e (List.mem_cons_of_mem _ he)

/-! ### Types -/

/-- The parameters of decimals read back. -/
private theorem decimalType?_of_toInt (precision : UInt8) (scale : Int8) :
    decimalType? (Bytes.toInt (Bytes.ofNat 4 precision.toNat))
      (Bytes.toInt (Bytes.ofNat 4 (scale.toInt % 2 ^ 32).toNat)) 128 =
        some (.decimal128 precision scale) := by
  have hp := precision.toNat_lt
  have hlow := scale.le_toInt
  have hhigh := scale.toInt_lt
  have hprecision : Bytes.toInt (Bytes.ofNat 4 precision.toNat) = precision.toNat :=
    Bytes.toInt_ofNat (by omega)
  have hscale : Bytes.toInt (Bytes.ofNat 4 (scale.toInt % 2 ^ 32).toNat) = scale.toInt :=
    Bytes.toInt_ofInt (by omega) (by omega)
  rw [hprecision, hscale, decimalType?, if_neg (by omega)]
  simp

private theorem readType?_decimal {u : Table} {precision : UInt8} {scale : Int8}
    (h0 : Slot.IsAt u 0 (.word precision.toNat))
    (h1 : Slot.IsAt u 1 (.word (scale.toInt % 2 ^ 32).toNat)) (h2 : Slot.IsAt u 2 (.word 128)) :
    readType? u .decimal = some (.decimal128 precision scale) := by
  have hbits : u.natAt? 4 2 128 = some 128 := Table.natAt?_of_word h2 (by decide) (by decide) 128
  have hread {p s : Int} (hp : u.intAt? 4 0 0 = some p) (hs : u.intAt? 4 1 0 = some s) :
      readType? u .decimal = decimalType? p s 128 := by
    simp only [readType?, hp, hs, hbits, Option.bind_eq_bind, Option.bind_some]
  rw [hread (Table.intAt?_of_word h0 0) (Table.intAt?_of_word h1 0)]
  exact decimalType?_of_toInt precision scale

/-- A type reads back from its parameters if the stream keeps it. -/
theorem readType?_typeParameters {t : ColumnType} (ht : IsKept t) {u : Table}
    (hu : ∀ i : Nat, Slot.IsAt u i ((typeParameters t).2[i]?.getD .missing)) :
    readType? u (typeParameters t).1 = some t := by
  have h0 := hu 0
  have h1 := hu 1
  cases t with
  | foreign name => exact absurd rfl (ht name)
  | null | boolean | utf8 | binary => rfl
  | int8 | int16 | int32 | int64 =>
    simp [typeParameters] at h0 h1
    simp [typeParameters, readType?, Table.natAt?_of_word h0, Table.natAt?_of_word h1, intType?]
  | float32 | float64 | date32 =>
    simp [typeParameters] at h0
    simp [typeParameters, readType?, Table.natAt?_of_word h0]
  | timestampMicros =>
    simp [typeParameters] at h0 h1
    have h1 : u.slot 1 = none := h1
    simp [typeParameters, readType?, Table.natAt?_of_word h0, h1, timestampType?]
  | duration unit =>
    cases unit <;>
    · simp [typeParameters] at h0
      simp [typeParameters, readType?, Table.natAt?_of_word h0]
  | decimal128 precision scale => exact readType?_decimal (hu 0) (hu 1) (hu 2)

/-- No type has more parameters than a table has room for. -/
private theorem length_typeParameters (t : ColumnType) :
    (typeParameters t).2.length ≤ maxSlots := by
  cases t with
  | duration unit => cases unit <;> decide
  | _ => simp [typeParameters, maxSlots]

private theorem isLaidOut_typeParameters (t : ColumnType) :
    ∀ s ∈ (typeParameters t).2, s.IsLaidOut := by
  cases t with
  | duration unit => cases unit <;> simp [typeParameters, Slot.IsLaidOut]
  | _ => simp [typeParameters, Slot.IsLaidOut]

private theorem number_lt (k : TypeKind) : k.number < 256 := by
  cases k <;> decide

/-- The number of a kind of type says which table its parameters are in. -/
private theorem parameters?_number (k : TypeKind) :
    MetadataTable.parameters? k.number = some (.parameters k.number) := by
  cases k <;> rfl

/-- The parameters of a type pass the check. -/
private theorem checkTable_parameters {t : ColumnType} {b : Bytes} {pos depth left : Nat}
    (h : (Part.table (typeParameters t).2).IsAt b pos) (hb : b.length < maxLength) :
    checkTable MetadataTable.shapes b (depth + 1) (.parameters (typeParameters t).1.number) pos
      (left + 1) = some left := by
  obtain ⟨u, hu, hbuffer, hslots⟩ :=
    Part.table_isAt h hb (length_typeParameters t) (isLaidOut_typeParameters t)
  have h0 := hslots 0
  have h1 := hslots 1
  have h2 := hslots 2
  rw [checkTable_of_tableAt? hu hbuffer]
  refine foldlM_checkSlot fun e he => ?_
  -- The kinds have no parameters, one, two or three.
  cases t with
  | null | boolean | utf8 | binary | foreign name => exact absurd he List.not_mem_nil
  | float32 | float64 | date32 =>
    obtain rfl := List.mem_singleton.1 he
    exact checkSlot_word h0 (by decide)
  | duration unit =>
    cases unit <;>
    · obtain rfl := List.mem_singleton.1 he
      exact checkSlot_word h0 (by decide)
  | int8 | int16 | int32 | int64 =>
    obtain rfl | he := List.mem_cons.1 he
    · exact checkSlot_word h0 (by decide)
    · obtain rfl := List.mem_singleton.1 he
      exact checkSlot_word h1 (by decide)
  | timestampMicros =>
    obtain rfl | he := List.mem_cons.1 he
    · exact checkSlot_word h0 (by decide)
    · obtain rfl := List.mem_singleton.1 he
      exact checkSlot_missing h1 rfl
  | decimal128 precision scale =>
    obtain rfl | he := List.mem_cons.1 he
    · exact checkSlot_word h0 (by decide)
    obtain rfl | he := List.mem_cons.1 he
    · exact checkSlot_word h1 (by decide)
    · obtain rfl := List.mem_singleton.1 he
      exact checkSlot_word h2 (by decide)

/-! ### Fields -/

/-- The slots of the table of a field. -/
private def fieldSlots (f : ColumnField) : List FlatBuffer.Slot :=
  [.part (.ofBytes (Utf8.encode f.name)), .word f.nullable.toNat,
    .word (typeParameters f.type).1.number, .part (.table (typeParameters f.type).2), .missing,
    .part (.vector [])]

private theorem isLaidOut_fieldSlots (f : ColumnField) : ∀ s ∈ fieldSlots f, s.IsLaidOut := by
  intro s hs
  simp only [fieldSlots, List.mem_cons, List.not_mem_nil, or_false] at hs
  rcases hs with rfl | rfl | rfl | rfl | rfl | rfl
  · exact Part.ofBytes_isLaidOut _
  · trivial
  · trivial
  · exact Part.table_isLaidOut (isLaidOut_typeParameters f.type)
  · trivial
  · exact Part.vector_isLaidOut nofun

private theorem isLaidOut_fieldPart (f : ColumnField) : (fieldPart f).IsLaidOut :=
  Part.table_isLaidOut (isLaidOut_fieldSlots f)

/-- Where the table of a field stands, there is one with the slots that were written. -/
private theorem fieldPart_isAt {f : ColumnField} {b : Bytes} {pos : Nat}
    (h : (fieldPart f).IsAt b pos) (hb : b.length < maxLength) :
    ∃ t, FlatBuffer.tableAt? b pos = some t ∧ t.buffer = b ∧
      ∀ i : Nat, Slot.IsAt t i ((fieldSlots f)[i]?.getD .missing) :=
  Part.table_isAt h hb (by decide : 6 ≤ maxSlots) (isLaidOut_fieldSlots f)

/-- A field reads back from its table. -/
theorem readField?_fieldPart {f : ColumnField} (hf : IsKept f.type) {b : Bytes} {pos : Nat}
    (h : (fieldPart f).IsAt b pos) (hb : b.length < maxLength) :
    ∃ t, Table.ofPos? b pos = some t ∧ readField? t = some f := by
  obtain ⟨t, ht, hbuffer, hslots⟩ := fieldPart_isAt h hb
  subst hbuffer
  have hname : t.bytesAt? 0 = some (Utf8.encode f.name) := Table.bytesAt?_of_part (hslots 0) hb
  have hnullable : t.natAt? 1 1 0 = some f.nullable.toNat :=
    Table.natAt?_of_word (hslots 1) (by decide) (by cases f.nullable <;> decide) 0
  have hkind : t.natAt? 1 2 0 = some (typeParameters f.type).1.number :=
    Table.natAt?_of_word (hslots 2) (by decide) (number_lt _) 0
  obtain ⟨target, hchild, hat⟩ := Table.childAt?_of_part (hslots 3)
  obtain ⟨u, hu, -, hparameters⟩ :=
    Part.table_isAt hat hb (length_typeParameters f.type) (isLaidOut_typeParameters f.type)
  have htable : t.tableAt? 3 = some u := by
    simp only [Table.tableAt?, hchild, Option.bind_eq_bind, Option.bind_some]
    exact ofPos?_of_tableAt? hu
  have htype : readType? u (typeParameters f.type).1 = some f.type :=
    readType?_typeParameters hf hparameters
  have hchildren : t.slot 4 = none := hslots 4
  refine ⟨t, ofPos?_of_tableAt? ht, ?_⟩
  simp only [readField?, hchildren, hkind, textAt?, hname, htable, htype, hnullable,
    TypeKind.ofNumber?_number, Utf8.decode_encode, Option.bind_eq_bind, Option.bind_some,
    Option.isSome_none]
  cases f with
  | mk name type nullable => cases nullable <;> rfl

/-- The table of a field passes the check; it is one of two. -/
private theorem checkTable_fieldPart {f : ColumnField} {b : Bytes} {pos depth left : Nat}
    (h : (fieldPart f).IsAt b pos) (hb : b.length < maxLength) :
    checkTable MetadataTable.shapes b (depth + 2) .field pos (left + 2) = some left := by
  obtain ⟨t, ht, hbuffer, hslots⟩ := fieldPart_isAt h hb
  subst hbuffer
  rw [checkTable_of_tableAt? ht rfl]
  have hname : checkSlot MetadataTable.shapes (depth + 1) t (left + 1) (0, .text) =
      some (left + 1) := checkSlot_text (hslots 0) hb (Utf8.decode_encode f.name)
  have hnullable : checkSlot MetadataTable.shapes (depth + 1) t (left + 1) (1, .number 1) =
      some (left + 1) := checkSlot_word (hslots 1) (by decide)
  have htype : checkSlot MetadataTable.shapes (depth + 1) t (left + 1)
      (3, .union 2 MetadataTable.parameters?) = some left :=
    checkSlot_union (hslots 3) (hslots 2) (number_lt _) (parameters?_number _)
      fun _ hat => checkTable_parameters hat hb
  have hdictionary : checkSlot MetadataTable.shapes (depth + 1) t left (4, .table .dictionary) =
      some left := checkSlot_missing (hslots 4) rfl
  have hchildren : checkSlot MetadataTable.shapes (depth + 1) t left (5, .tables .field) =
      some left := checkSlot_tables 0 (hslots 5) hb nofun nofun
  have hcustom : checkSlot MetadataTable.shapes (depth + 1) t left (6, .tables .pair) = some left :=
    checkSlot_missing (hslots 6) rfl
  simp only [MetadataTable.shapes, List.foldlM_cons, List.foldlM_nil, hname, hnullable, htype,
    hdictionary, hchildren, hcustom, Option.bind_eq_bind, Option.bind_some, Option.pure_def]

/-! ### Schemas -/

private theorem isLaidOut_schemaSlots (fields : List ColumnField) :
    ∀ s ∈ [FlatBuffer.Slot.missing, .part (.vector (fields.map fieldPart))], s.IsLaidOut := by
  intro s hs
  simp only [List.mem_cons, List.not_mem_nil, or_false] at hs
  rcases hs with rfl | rfl
  · trivial
  · refine Part.vector_isLaidOut fun p hp => ?_
    obtain ⟨f, -, rfl⟩ := List.mem_map.1 hp
    exact isLaidOut_fieldPart f

/-- The schema is laid out. -/
theorem isLaidOut_schemaPart (fields : List ColumnField) : (schemaPart fields).IsLaidOut :=
  Part.table_isLaidOut (isLaidOut_schemaSlots fields)

/-- The table of a schema is found where the schema is laid out, with its slots. -/
private theorem schemaPart_isAt {fields : List ColumnField} {b : Bytes} {pos : Nat}
    (h : (schemaPart fields).IsAt b pos) (hb : b.length < maxLength) :
    ∃ t, FlatBuffer.tableAt? b pos = some t ∧ t.buffer = b ∧ ∀ i : Nat, Slot.IsAt t i
      (([.missing, .part (.vector (fields.map fieldPart))] : List FlatBuffer.Slot)[i]?.getD
        .missing) :=
  Part.table_isAt h hb (by decide : 2 ≤ maxSlots) (isLaidOut_schemaSlots fields)

/-- **Schemas read back** from their tables. -/
theorem readSchema?_schemaPart {fields : List ColumnField} (hf : ∀ f ∈ fields, IsKept f.type)
    {b : Bytes} {pos : Nat} (h : (schemaPart fields).IsAt b pos) (hb : b.length < maxLength) :
    ∃ t, Table.ofPos? b pos = some t ∧ readSchema? t = some fields := by
  obtain ⟨t, ht, hbuffer, hslots⟩ := schemaPart_isAt h hb
  subst hbuffer
  obtain ⟨tables, htables, hfields⟩ : ∃ tables, t.tablesAt? 1 = some tables ∧
      tables.mapM readField? = some fields :=
    Table.tablesAt?_of_part (hslots 1) hb (fun f _ => isLaidOut_fieldPart f)
      fun f hmem _ hat => readField?_fieldPart (hf f hmem) hat hb
  refine ⟨t, ofPos?_of_tableAt? ht, ?_⟩
  simp only [readSchema?, htables, Option.bind_eq_bind, Option.bind_some, hfields]

/-- The table of a schema passes the check, with two tables for each field. -/
theorem checkTable_schemaPart {fields : List ColumnField} {b : Bytes} {pos depth left : Nat}
    (h : (schemaPart fields).IsAt b pos) (hb : b.length < maxLength) :
    checkTable MetadataTable.shapes b (depth + 3) .schema pos (left + 2 * fields.length + 1) =
      some left := by
  obtain ⟨t, ht, hbuffer, hslots⟩ := schemaPart_isAt h hb
  subst hbuffer
  rw [checkTable_of_tableAt? ht rfl]
  have horder : checkSlot MetadataTable.shapes (depth + 2) t (left + 2 * fields.length)
      (0, .number 2) = some (left + 2 * fields.length) := checkSlot_missing (hslots 0) rfl
  have hfields : checkSlot MetadataTable.shapes (depth + 2) t (left + 2 * fields.length)
      (1, .tables .field) = some left := by
    rw [← List.length_map fieldPart]
    refine checkSlot_tables 2 (hslots 1) hb (fun p hp => ?_) fun p hp target left hat => ?_
    · obtain ⟨f, -, rfl⟩ := List.mem_map.1 hp
      exact isLaidOut_fieldPart f
    · obtain ⟨f, -, rfl⟩ := List.mem_map.1 hp
      exact checkTable_fieldPart hat hb
  have hcustom : checkSlot MetadataTable.shapes (depth + 2) t left (2, .tables .pair) = some left :=
    checkSlot_missing (hslots 2) rfl
  have hfeatures : checkSlot MetadataTable.shapes (depth + 2) t left (3, .numbers 8) = some left :=
    checkSlot_missing (hslots 3) rfl
  simp only [MetadataTable.shapes, List.foldlM_cons, List.foldlM_nil, horder, hfields, hcustom,
    hfeatures, Option.bind_eq_bind, Option.bind_some, Option.pure_def]

end Columnar.Stream
