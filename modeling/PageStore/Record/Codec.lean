import PageStore.Bytes.Utf8
import PageStore.Bytes.Word
import PageStore.Record.Row

/-!
# The stored form of rows

A row is stored as its fields, one after another, each in the fixed width of its type.  An integer
is a word of four bytes.  A text is a word that counts its bytes, then the bytes, then zeros up to
its room; of a longer text the longest beginning is stored that fits the room and ends with a whole
character.

Reading takes the counted bytes and ignores the rest of the room.  A count past the room counts as
the room.
-/

namespace PageStore

/-- Why bytes are not a field. -/
inductive DecodeFault where
  /-- Fewer bytes are left than the field takes. -/
  | short (left : Nat) (type : FieldType)
  /-- The counted bytes are not a text. -/
  | notText (fault : Utf8.Fault)
deriving DecidableEq, Repr, Inhabited

/-- The part of a text that is stored. -/
def storedText (text : String) : String := String.ofList (Utf8.cut textRoom text.toList)

/-- The part of a field that is stored. -/
def Field.stored : Field → Field
  | .int value => .int value
  | .text value => .text (storedText value)

/-- A row as it is stored. -/
def Row.stored (row : Row) : Row := { row with fields := row.fields.map Field.stored }

/-- The stored form of an integer. -/
def encodeInt (value : Int32) : Bytes := Word.big 4 value.toUInt32.toNat

/-- The integer that four bytes store. -/
def decodeInt (bytes : Bytes) : Int32 := (UInt32.ofNat (Word.ofBig bytes)).toInt32

/-- The stored form of a text. -/
def encodeText (text : String) : Bytes :=
  let content := Utf8.encode (Utf8.cut textRoom text.toList)
  Word.big 4 content.length ++ content ++ Bytes.zeros (textRoom - content.length)

/-- The stored form of a field. -/
def Field.encode : Field → Bytes
  | .int value => encodeInt value
  | .text value => encodeText value

/-- The stored form of fields, one after another. -/
def encodeFields (fields : List Field) : Bytes := fields.flatMap Field.encode

/-- Reads one field from the front of a byte string, and what is left of the bytes.  A field for
which there are too few bytes takes none of them; a field that is not a text takes its count. -/
def FieldType.decode (type : FieldType) (bytes : Bytes) : Except DecodeFault Field × Bytes :=
  if bytes.length < type.width then (.error (.short bytes.length type), bytes)
  else
    match type with
    | .int => (.ok (.int (decodeInt (bytes.take 4))), bytes.drop 4)
    | .text =>
      let count := min (Word.ofBig (bytes.take 4)) textRoom
      match Utf8.decode ((bytes.drop 4).take count) with
      | .ok chars => (.ok (.text (String.ofList chars)), bytes.drop (4 + textRoom))
      | .error fault => (.error (.notText fault), bytes.drop 4)

/-- Reads fields of the given types from the front of a byte string. -/
def decodeFields : List FieldType → Bytes → Except DecodeFault (List Field)
  | [], _ => .ok []
  | type :: types, bytes =>
    match type.decode bytes with
    | (.ok field, rest) => (decodeFields types rest).map (field :: ·)
    | (.error fault, _) => .error fault

theorem length_encodeInt (value : Int32) : (encodeInt value).length = FieldType.int.width := by
  simp [encodeInt, FieldType.width]

theorem length_encodeText (text : String) :
    (encodeText text).length = FieldType.text.width := by
  have := Utf8.length_encode_cut textRoom text.toList
  simp only [encodeText, List.length_append, Word.length_big, Bytes.length_zeros, FieldType.width]
  omega

/-- A stored field takes the width of its type. -/
theorem Field.length_encode (field : Field) : field.encode.length = field.type.width := by
  cases field with
  | int value => exact length_encodeInt value
  | text value => exact length_encodeText value

/-- Stored fields take the widths of their types. -/
theorem length_encodeFields (fields : List Field) :
    (encodeFields fields).length = FieldType.totalWidth (fields.map Field.type) := by
  induction fields with
  | nil => rfl
  | cons field rest ih =>
    simp only [encodeFields, List.flatMap_cons, List.length_append, List.map_cons,
      FieldType.totalWidth, Field.length_encode]
    rw [← ih]
    rfl

/-- A stored row takes the width of its schema. -/
theorem Row.length_encode {row : Row} {schema : Schema} (fits : row.fits schema) :
    (encodeFields row.fields).length = schema.width := by
  rw [length_encodeFields, Schema.width, ← Row.fits_iff.1 fits, Row.types]

end PageStore
