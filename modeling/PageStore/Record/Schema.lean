import PageStore.Record.Field

/-!
# Schemas

A schema lists the columns of a row: a type each, and a name if it has one.  Two schemas agree
when their types do, whatever the names.
-/

namespace PageStore

/-- One column of a schema. -/
structure Column where
  type : FieldType
  name : Option String
deriving DecidableEq, Repr, Inhabited

/-- The columns of a row. -/
structure Schema where
  columns : List Column
deriving DecidableEq, Repr, Inhabited

/-- The number of bytes that fields of the given types take on a page. -/
def FieldType.totalWidth : List FieldType → Nat
  | [] => 0
  | type :: types => type.width + totalWidth types

theorem FieldType.totalWidth_append (a b : List FieldType) :
    totalWidth (a ++ b) = totalWidth a + totalWidth b := by
  induction a with
  | nil => simp [totalWidth]
  | cons type types ih =>
    simp only [List.cons_append, totalWidth, ih]
    omega

namespace Schema

/-- The types of the columns. -/
def types (schema : Schema) : List FieldType := schema.columns.map Column.type

/-- The schema with the given types, and with names as far as they are given. -/
def ofTypes : List FieldType → (names : List String) → Schema
  | types, names => ⟨types.zipIdx.map fun (type, i) => ⟨type, names[i]?⟩⟩

/-- The number of columns. -/
def size (schema : Schema) : Nat := schema.columns.length

/-- The number of bytes that a row of the schema takes on a page. -/
def width (schema : Schema) : Nat := FieldType.totalWidth schema.types

/-- Whether two schemas have the same types. -/
def agrees (a b : Schema) : Bool := a.types == b.types

/-- The columns of one schema followed by those of another. -/
def append (a b : Schema) : Schema := ⟨a.columns ++ b.columns⟩

/-- The column at a position. -/
def column? (schema : Schema) (i : Nat) : Option Column := schema.columns[i]?

/-- The position of the first column with a name. -/
def position? (schema : Schema) (name : String) : Option Nat :=
  schema.columns.findIdx? fun column => column.name == some name

/-- The schema whose named columns carry a label and a point before their names. -/
def labelled (schema : Schema) (label : String) : Schema :=
  ⟨schema.columns.map fun column => { column with name := column.name.map (label ++ "." ++ ·) }⟩

/-- A schema as readers see it: each type with its column's name. -/
def render (schema : Schema) : String :=
  ", ".intercalate
    (schema.columns.map fun column => column.type.label ++ "(" ++ column.name.getD "null" ++ ")")

theorem agrees_iff {a b : Schema} : a.agrees b ↔ a.types = b.types := by
  simp [agrees]

theorem width_append (a b : Schema) : (a.append b).width = a.width + b.width := by
  simp [append, width, types, FieldType.totalWidth_append]

end Schema

end PageStore
