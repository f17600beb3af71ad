import PageStore.Error

/-!
# Checked access to rows and schemas

Look-ups by position or name, and the stored form of a row of a given schema, each with the cause
of its failure.
-/

namespace PageStore

namespace Schema

/-- The column at a position. -/
def columnAt (schema : Schema) (i : Nat) : Except Error Column :=
  match schema.column? i with
  | some column => .ok column
  | none => .error (.fieldOutOfRange i)

/-- The type of the column at a position. -/
def typeAt (schema : Schema) (i : Nat) : Except Error FieldType :=
  (schema.columnAt i).map Column.type

/-- The position of the first column with a name. -/
def positionOf (schema : Schema) (name : String) : Except Error Nat :=
  match schema.position? name with
  | some i => .ok i
  | none => .error (.unknownField name)

end Schema

namespace Row

/-- The field at a position. -/
def fieldAt (row : Row) (i : Nat) : Except Error Field :=
  match row.fields[i]? with
  | some field => .ok field
  | none => .error (.fieldOutOfRange i)

/-- The row with the field at a position replaced. -/
def replace (row : Row) (i : Nat) (field : Field) : Except Error Row :=
  match row.set? i field with
  | some row => .ok row
  | none => .error (.fieldOutOfRange i)

/-- The bytes that store a row of a schema. -/
def encode (row : Row) (schema : Schema) : Except Error Bytes :=
  if row.fits schema then .ok (encodeFields row.fields) else .error (.rowMismatch row schema)

/-- The row of a schema that bytes store.  Bytes after it are ignored. -/
def decode (schema : Schema) (bytes : Bytes) : Except Error Row :=
  match decodeFields schema.types bytes with
  | .ok fields => .ok (.ofFields fields)
  | .error fault => .error (.notDecoded fault)

end Row

end PageStore
