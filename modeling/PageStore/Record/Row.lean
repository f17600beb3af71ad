import PageStore.Ident
import PageStore.Record.Schema

/-!
# Rows

A row is a list of fields, together with the record it was read from, if it was read.
-/

namespace PageStore

/-- The fields of a row, and the record that holds it. -/
structure Row where
  fields : List Field
  record : Option RecordId
deriving DecidableEq, Repr, Inhabited

namespace Row

/-- A row that no record holds. -/
def ofFields (fields : List Field) : Row := ⟨fields, none⟩

/-- The types of the fields. -/
def types (row : Row) : List FieldType := row.fields.map Field.type

/-- Whether a row has the types of a schema. -/
def fits (row : Row) (schema : Schema) : Bool := row.types == schema.types

/-- The row with one field replaced, if it has that many fields. -/
def set? (row : Row) (i : Nat) (field : Field) : Option Row :=
  if i < row.fields.length then some { row with fields := row.fields.set i field } else none

/-- A row as readers see it: its fields, with tabs between them. -/
def render (row : Row) : String := "\t".intercalate (row.fields.map Field.render)

theorem fits_iff {row : Row} {schema : Schema} : row.fits schema ↔ row.types = schema.types := by
  simp [fits]

end Row

end PageStore
