import PageStore.Proofs.Query.Listing

/-!
# Tables of slots

What a table is to a transaction that works on it alone: so many pages, each with the same number of
slots, and in each slot a row or none (`SlotTable`).  `SlotTable.Step` says what inserting a row,
deleting one and scanning the table answer, and what they make of the table.  It speaks of no cache,
file or lock.

A row that is inserted goes to the first free slot, in the order of pages and then of slots; only if
there is none is a page added, for which the row is the first.  A row is deleted if its record names
a used slot, and the scan lists the rows of these slots in their order.  No access changes more than
one slot.
-/

namespace PageStore

/-- The number of slots of each page of a file. -/
def HeapFile.slots (file : HeapFile) : Nat := slotCount file.pageSize file.schema.width

theorem HeapFile.Sound.slots_pos {file : HeapFile} (sound : file.Sound) : 0 < file.slots :=
  sound.room.2

/-- What a transaction does to a table. -/
inductive Access where
  | insert (row : Row)
  | delete (row : Row)
  | scan (mode : LockMode)

/-- A table as pages of slots. -/
structure SlotTable where
  pages : Nat
  contents : Contents

namespace SlotTable

variable {file : HeapFile} {table : SlotTable} {record other : RecordId} {row : Row}

/-- The record names a slot of one of the pages. -/
structure Slot (file : HeapFile) (table : SlotTable) (record : RecordId) : Prop where
  own : record.page.table = file.table
  page : record.page.number < table.pages
  slot : record.slot < file.slots

/-- The slot holds a row. -/
def IsUsed (table : SlotTable) (record : RecordId) : Prop :=
  ∃ row, table.contents record = .ok (some row)

/-- The slot is free, and every slot before it is used. -/
structure IsFirstFree (file : HeapFile) (table : SlotTable) (record : RecordId) : Prop where
  slot : table.Slot file record
  free : table.contents record = .ok none
  before : ∀ other, table.Slot file other → other.Precedes record → table.IsUsed other

/-- Every slot of every page is used. -/
def IsFull (file : HeapFile) (table : SlotTable) : Prop :=
  ∀ record, table.Slot file record → table.IsUsed record

/-- The table after one slot was changed. -/
def change (table : SlotTable) (change : Change) : SlotTable :=
  { table with contents := table.contents.change change }

/-- The table with one more page. -/
def grow (table : SlotTable) : SlotTable := { table with pages := table.pages + 1 }

/-- The first slot of the page that a table would be given next. -/
def nextSlot (file : HeapFile) (table : SlotTable) : RecordId := ⟨⟨file.table, table.pages⟩, 0⟩

/-- How an access is answered, and what it makes of the table. -/
inductive Step (file : HeapFile) (table : SlotTable) :
    Access → Except Stop (List Row) → SlotTable → Prop
  | inserts {row : Row} {record : RecordId} (fits : row.fits file.schema = true)
      (first : table.IsFirstFree file record) :
      Step file table (.insert row) (.ok []) (table.change ⟨record, some (row.storedAt record)⟩)
  | appends {row : Row} (fits : row.fits file.schema = true) (full : table.IsFull file) :
      Step file table (.insert row) (.ok [])
        (table.grow.change ⟨table.nextSlot file, some (row.storedAt (table.nextSlot file))⟩)
  | misfits {row : Row} (misfits : row.fits file.schema = false) :
      Step file table (.insert row) (.error (.failed (.rowMismatch row file.schema))) table
  | deletes {row : Row} {record : RecordId} (named : row.record = some record)
      (slot : table.Slot file record) (used : table.IsUsed record) :
      Step file table (.delete row) (.ok []) (table.change ⟨record, none⟩)
  | refuses {row : Row} {cause : Error}
      (absent : ∀ record, row.record = some record → table.Slot file record →
        ¬ table.IsUsed record) :
      Step file table (.delete row) (.error (.failed cause)) table
  | lists {mode : LockMode} {rows : List Row}
      (lists : table.contents.Lists (table.Slot file) rows) :
      Step file table (.scan mode) (.ok rows) table

/-- What accesses answer, one after another, and what they make of the table. -/
inductive Runs (file : HeapFile) :
    SlotTable → List Access → List (Except Stop (List Row)) → SlotTable → Prop
  | nil (table : SlotTable) : Runs file table [] [] table
  | cons {table next last : SlotTable} {access : Access} {answer : Except Stop (List Row)}
      {accesses : List Access} {answers : List (Except Stop (List Row))}
      (step : Step file table access answer next) (rest : Runs file next accesses answers last) :
      Runs file table (access :: accesses) (answer :: answers) last

end SlotTable

end PageStore
