import PageStore.Error
import PageStore.Page.Basic
import PageStore.Page.Layout

/-!
# The slots of a page

A page read by a schema is a row of slots.  A bit of the header, the least significant bit of a
byte first, tells whether a slot is used; a used slot stores a row.  A row goes to the first free
slot, and a deleted row only clears its bit.
-/

namespace PageStore.Page

/-- The number of slots for rows of a schema.  The bytes of a page and those of a row are in memory,
where the bits of so many are machine words, so this is what the program counts. -/
def slots (page : Page) (schema : Schema) : Nat := slotCount page.bytes.length schema.width

/-- The header bit of a slot. -/
def headerBit (bytes : Bytes) (slot : Nat) : Bool :=
  (bytes.getD (slot / 8) 0).toNat.testBit (slot % 8)

/-- The bytes with the header bit of a slot set. -/
def setBit (bytes : Bytes) (slot : Nat) : Bytes :=
  bytes.modify (slot / 8) fun b => b ||| UInt8.ofNat (1 <<< (slot % 8))

/-- The bytes with the header bit of a slot cleared. -/
def clearBit (bytes : Bytes) (slot : Nat) : Bytes :=
  bytes.modify (slot / 8) fun b => b &&& ~~~ UInt8.ofNat (1 <<< (slot % 8))

/-- Whether a slot holds a row. -/
def isUsed (page : Page) (schema : Schema) (slot : Nat) : Bool :=
  slot < page.slots schema && headerBit page.bytes slot

/-- The slots that hold no row, in order. -/
def freeSlots (page : Page) (schema : Schema) : List Nat :=
  (List.range (page.slots schema)).filter fun slot => !headerBit page.bytes slot

/-- The first slot that holds no row. -/
def firstFree? (page : Page) (schema : Schema) : Option Nat :=
  (List.range (page.slots schema)).find? fun slot => !headerBit page.bytes slot

/-- Where a slot begins. -/
def start (page : Page) (schema : Schema) (slot : Nat) : Nat :=
  slotStart (page.slots schema) schema.width slot

/-- The row that the bytes of a slot store. -/
def storedRow (page : Page) (schema : Schema) (slot : Nat) : Except Error Row :=
  match decodeFields schema.types (page.bytes.slice (page.start schema slot) schema.width) with
  | .ok fields => .ok ⟨fields, some ⟨page.id, slot⟩⟩
  | .error fault => .error (.notDecoded fault)

/-- The row in a slot, if the slot holds one. -/
def row? (page : Page) (schema : Schema) (slot : Nat) : Except Error (Option Row) :=
  if page.isUsed schema slot then (page.storedRow schema slot).map some else .ok none

/-- The slots that hold rows, in order. -/
def usedSlots (page : Page) (schema : Schema) : List Nat :=
  (List.range (page.slots schema)).filter (headerBit page.bytes)

/-- The rows of a page in the order of their slots. -/
def rows (page : Page) (schema : Schema) : Except Error (List Row) :=
  (page.usedSlots schema).mapM (page.storedRow schema)

/-- The page with a row stored in a slot. -/
def store (page : Page) (schema : Schema) (slot : Nat) (row : Row) : Page :=
  let written := page.bytes.splice (page.start schema slot) (encodeFields row.fields)
  { page with bytes := setBit written slot }

/-- Stores a row in the first free slot.  Gives the page and the record that holds the row. -/
def insert (page : Page) (schema : Schema) (row : Row) : Except Error (Page × RecordId) :=
  if row.fits schema then
    match page.firstFree? schema with
    | some slot => .ok (page.store schema slot row, ⟨page.id, slot⟩)
    | none => .error (.pageFull page.id)
  else .error (.rowMismatch row schema)

/-- Frees the slot of a record. -/
def delete (page : Page) (schema : Schema) (record : RecordId) : Except Error Page :=
  if record.page ≠ page.id then .error (.recordElsewhere record page.id)
  else if page.isUsed schema record.slot then
    .ok { page with bytes := clearBit page.bytes record.slot }
  else .error (.slotEmpty record.slot page.id)

end PageStore.Page
