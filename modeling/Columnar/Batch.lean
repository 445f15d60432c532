import Columnar.DataType

/-!
# Columns and batches

The values that expressions work on: columns of one type each, and tables of named columns.
-/

namespace Columnar

/-! ## Columns

A column is a sequence of slots of one type; a slot holds a value or NULL.
-/

/-- A slot of a column: a value of the column's type, or NULL. -/
abbrev Slot (t : ColumnType) : Type :=
  Option t.Cell

/-- A column of values. -/
structure Column where
  /-- The type of its values. -/
  type : ColumnType
  /-- Its slots, in order. -/
  slots : List (Slot type)

namespace Column

instance : DecidableEq Column := fun ⟨t, xs⟩ ⟨u, ys⟩ =>
  if h : t = u then
    match u, h, ys with
    | _, rfl, ys =>
      have : DecidableEq t.Cell := ColumnType.Cell.decidableEq t
      decidable_of_iff (xs = ys) (by simp)
  else isFalse (by simp [h])

/-- The number of slots. -/
def length (c : Column) : Nat :=
  c.slots.length

/-- How many slots hold NULL. -/
def nullCount (c : Column) : Nat :=
  c.slots.countP Option.isNone

/-- How many slots hold NULL by a mark of their own: where the type has no other value, none needs a
mark. -/
def markedNulls (c : Column) : Nat :=
  match c.type with
  | .null => 0
  | _ => c.nullCount

/-- A column of one value. -/
def replicate {t : ColumnType} (n : Nat) (slot : Slot t) : Column :=
  ⟨t, List.replicate n slot⟩

/-- The slots for which the mask is true. -/
def filter (mask : List Bool) (c : Column) : Column :=
  ⟨c.type, ((c.slots.zip mask).filter (·.2)).map (·.1)⟩

private theorem length_filter_zip {α : Type} (mask : List Bool) (xs : List α)
    (h : xs.length = mask.length) :
    (((xs.zip mask).filter (·.2)).map (·.1)).length = mask.countP id := by
  induction mask generalizing xs with
  | nil => simp
  | cons m mask ih =>
    match xs, h with
    | x :: xs, h =>
      have := ih xs (by simpa using h)
      cases m <;> simp_all

/-- A column that is filtered keeps one slot for each bit that is set. -/
theorem length_filter (c : Column) {mask : List Bool} (h : c.length = mask.length) :
    (c.filter mask).length = mask.countP id :=
  length_filter_zip mask c.slots h

/-- The truth values of a column that holds such. -/
def booleans? : Column → Option (List (Option Bool))
  | ⟨.boolean, slots⟩ => some slots
  | _ => none

end Column

/-! ## Batches

A batch is a table of some rows: named columns of one length. Without columns it still has a number
of rows.
-/

/-- A column with its entry in the schema of a batch. -/
structure NamedColumn where
  /-- The name of the column. -/
  name : String
  /-- Whether it may hold NULL. -/
  nullable : Bool
  /-- The values. -/
  column : Column
deriving DecidableEq

/-- The schema entry of a column. -/
def NamedColumn.field (c : NamedColumn) : ColumnField :=
  ⟨c.name, c.column.type, c.nullable⟩

/-- A table of rows. -/
structure Batch where
  /-- The number of rows. -/
  rows : Nat
  /-- The columns, in order. -/
  columns : List NamedColumn
  /-- Every column has a slot for each row. -/
  length_eq : ∀ c ∈ columns, c.column.length = rows
deriving DecidableEq

namespace Batch

/-- The batch of some columns, if they have a slot for each row. -/
def ofColumns? (rows : Nat) (columns : List NamedColumn) : Option Batch :=
  if h : ∀ c ∈ columns, c.column.length = rows then some ⟨rows, columns, h⟩ else none

/-- The names and types of the columns. -/
def schema (b : Batch) : List ColumnField :=
  b.columns.map NamedColumn.field

/-- The types of the columns. -/
def types (b : Batch) : List ColumnType :=
  b.columns.map (·.column.type)

/-- The column at a position. -/
def column? (b : Batch) (index : Nat) : Option Column :=
  (b.columns[index]?).map (·.column)

/-- The rows for which the mask is true, which has an entry for each row. -/
def filter (mask : List Bool) (b : Batch) (h : mask.length = b.rows) : Batch where
  rows := mask.countP id
  columns := b.columns.map fun c => { c with column := c.column.filter mask }
  length_eq := by
    intro c hc
    obtain ⟨d, hd, rfl⟩ := List.mem_map.1 hc
    exact (d.column.length_filter (by rw [b.length_eq d hd, h]))

end Batch

/-- What is handed out where batches are read one by one: a batch or an error, or nothing at the
end. -/
abbrev Item : Type :=
  Option (Except Error Batch)

end Columnar
