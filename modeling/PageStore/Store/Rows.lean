import PageStore.Store.Commit

/-!
# Rows of tables

A row is inserted into the first page of its table that has a free slot, and each page on the way
is locked exclusively; if all pages are full a page of zeros is appended to the file.  A row is
deleted from the slot that its record names.  Both leave the page that they change in the cache,
dirty with the transaction's writes.
-/

namespace PageStore.Store

/-- The number of whole pages of a file. -/
def pageCount (file : HeapFile) : Op Nat := fun s => .ok (file.pageCount s.disk) s

/-- Writes a page into a file. -/
def writeInto (file : HeapFile) (page : Page) : Op Unit := fun s =>
  match file.write s.disk page with
  | .ok disk => .ok () { s with disk := disk }
  | .error e => .error (.failed e) s

/-- Appends a page of zeros to a file, locked for a transaction, and fetches it. -/
def appendPage (file : HeapFile) (txn : TxnId) : Op Frame := do
  let page : PageId := ⟨file.table, ← pageCount file⟩
  acquire txn page .exclusive
  writeInto file (.blank page file.pageSize)
  fetch txn page .exclusive

/-- Stores a row in a loaded page, unless the page is full.  Gives the record that holds the row. -/
def storeRow (file : HeapFile) (txn : TxnId) (frame : Frame) (row : Row) :
    Op (Option RecordId) := fun s =>
  match frame.page.firstFree? file.schema with
  | none => .ok none s
  | some _ =>
    match frame.page.insert file.schema row with
    | .error e => .error (.failed e) s
    | .ok (page, record) =>
      .ok (some record) (s.setFrame { frame with page := page.dirtiedBy txn })

/-- Stores a row in a page of a file, unless the page is full.  Gives the page that was changed and
the record that holds the row. -/
def storeInPage (file : HeapFile) (txn : TxnId) (row : Row) (number : Nat) :
    Op (Option (PageRef × RecordId)) := do
  let frame ← fetch txn ⟨file.table, number⟩ .exclusive
  return (← storeRow file txn frame row).map fun record => (frame.ref, record)

/-- Stores a row in the first page that has a free slot, among the pages of the given numbers. -/
def storeInPages (file : HeapFile) (txn : TxnId) (row : Row) :
    List Nat → Op (Option (PageRef × RecordId))
  | [] => pure none
  | number :: numbers => do
    match ← storeInPage file txn row number with
    | some stored => return some stored
    | none => storeInPages file txn row numbers

/-- Stores a row in a page that is appended for it. -/
def storeInFresh (file : HeapFile) (txn : TxnId) (row : Row) : Op (PageRef × RecordId) := do
  let frame ← appendPage file txn
  match ← storeRow file txn frame row with
  | some record => return (frame.ref, record)
  | none => Op.fail (.freshPageFull frame.page.id)

/-- Stores a row in the first of some pages that has a free slot, or in an appended page. -/
def storeFrom (file : HeapFile) (txn : TxnId) (row : Row) (numbers : List Nat) :
    Op (PageRef × RecordId) := do
  match ← storeInPages file txn row numbers with
  | some stored => return stored
  | none => storeInFresh file txn row

/-- Refuses a row of other types than a file's. -/
def checkRow (file : HeapFile) (row : Row) : Op Unit :=
  if row.fits file.schema then pure () else Op.fail (.rowMismatch row file.schema)

/-- Inserts a row into a file.  Gives the pages that were changed. -/
def insertInto (file : HeapFile) (txn : TxnId) (row : Row) : Op (List PageRef) := do
  checkRow file row
  let (ref, _) ← storeFrom file txn row (List.range (← pageCount file))
  return [ref]

/-- Frees the slot of a record in a loaded page. -/
def freeRecord (file : HeapFile) (txn : TxnId) (frame : Frame) (record : RecordId) : Op Unit :=
  fun s =>
    match frame.page.delete file.schema record with
    | .error e => .error (.failed e) s
    | .ok page => .ok () (s.setFrame { frame with page := page.dirtiedBy txn })

/-- Refuses a record whose page is not in a file. -/
def checkRecord (file : HeapFile) (record : RecordId) : Op Unit := do
  Op.ofExcept (file.checkPage record.page)
  if (← pageCount file) ≤ record.page.number then Op.fail (.noPage record.page)

/-- Frees the slot of a record in its page.  Gives the page that was changed. -/
def freeInPage (file : HeapFile) (txn : TxnId) (record : RecordId) : Op PageRef := do
  let frame ← fetch txn record.page .exclusive
  freeRecord file txn frame record
  return frame.ref

/-- Deletes a row from a file.  Gives the pages that were changed. -/
def deleteFrom (file : HeapFile) (txn : TxnId) (row : Row) : Op (List PageRef) :=
  match row.record with
  | none => Op.fail (.noRecord row)
  | some record => do
    checkRecord file record
    return [← freeInPage file txn record]

/-- The file of a table. -/
def fileOf (table : TableId) : Op HeapFile := fun s => Op.ofExcept (s.catalog.file table) s

/-- Inserts a row into a table. -/
def insert (txn : TxnId) (table : TableId) (row : Row) : Op Unit := do
  let file ← fileOf table
  let changed ← insertInto file txn row
  applyRefs changed

/-- Inserts rows into a table, up to the first that cannot be inserted. -/
def insertAll (txn : TxnId) (table : TableId) (rows : List Row) : Op Unit :=
  rows.forM (insert txn table)

/-- Deletes the row of a record. -/
def delete (txn : TxnId) (row : Row) : Op Unit :=
  match row.record with
  | none => Op.fail (.noRecord row)
  | some record => do
    let file ← fileOf record.page.table
    let changed ← deleteFrom file txn row
    applyRefs changed

end PageStore.Store
