/-!
# Fields

A field of a row is an integer of 32 bits or a text.  Each type of field takes a fixed number of
bytes on a page; a text has room for 128 bytes.
-/

namespace PageStore

/-- What a column holds. -/
inductive FieldType where
  | int
  | text
deriving DecidableEq, Repr, Inhabited

/-- A value of a column. -/
inductive Field where
  | int (value : Int32)
  | text (value : String)
deriving DecidableEq, Repr, Inhabited

/-- How many bytes of a text are stored at most. -/
def textRoom : Nat := 128

namespace FieldType

/-- The number of bytes that a field of the type takes on a page. -/
def width : FieldType → Nat
  | int => 4
  | text => 4 + textRoom

/-- The name of the type in a schema. -/
def label : FieldType → String
  | int => "INT"
  | text => "STRING"

end FieldType

namespace Field

/-- The type of a field. -/
def type : Field → FieldType
  | int _ => .int
  | text _ => .text

/-- The integer that a field holds, unless it holds a text. -/
def int? : Field → Option Int32
  | int value => some value
  | text _ => none

/-- A field as readers see it: the digits of an integer, a text as it is. -/
def render : Field → String
  | int value => toString value.toInt
  | text value => value

/-- Fields in order: integers by value, then texts by their characters. -/
def le : Field → Field → Bool
  | int a, int b => a ≤ b
  | int _, text _ => true
  | text _, int _ => false
  | text a, text b => a ≤ b

end Field

end PageStore
