import PageStore.Store.Cache

/-!
# The end of a transaction

A transaction commits by flushing its pages and giving back its locks.  To flush a page is to write
an entry for it to the log, to force the log, and only then to write the page into its file; after
that the page is clean.  If a page cannot be flushed the transaction is aborted, and what was
flushed stays written.

A transaction aborts by dropping the pages that hold its writes, so that the next reader finds what
was stored before them.
-/

namespace PageStore.Store

/-- Writes an entry to the log. -/
def logWrite (entry : Entry) : Op Unit := fun s =>
  match s.journal.write s.disk entry with
  | (.ok (), journal, disk) => .ok () { s with journal := journal, disk := disk }
  | (.error e, journal, disk) => .error (.failed e) { s with journal := journal, disk := disk }

/-- Forces the log. -/
def logForce : Op Unit := fun s =>
  match s.journal.force s.disk with
  | (.ok (), journal, disk) => .ok () { s with journal := journal, disk := disk }
  | (.error e, journal, disk) => .error (.failed e) { s with journal := journal, disk := disk }

/-- Writes a page into the file of its table. -/
def writeStored (page : Page) : Op Unit := fun s =>
  match (do (← s.catalog.file page.id.table).write s.disk page) with
  | .ok disk => .ok () { s with disk := disk }
  | .error e => .error (.failed e) s

/-- Flushes a cached page that holds a transaction's writes. -/
def flushDirty (frame : Frame) (txn : TxnId) : Op Unit := do
  logWrite ⟨txn, frame.page.id, frame.page.before, frame.page.bytes⟩
  logForce
  writeStored frame.page
  modify fun s => s.setFrame { frame with page := frame.page.persisted }

/-- Flushes a cached page, if it is dirty. -/
def flushPage (page : PageId) : Op Unit := fun s =>
  match s.cache.get? page with
  | none => .ok () s
  | some frame =>
    match frame.page.dirtier with
    | none => .ok () s
    | some txn => flushDirty frame txn s

/-- The cached pages that hold a transaction's writes. -/
def pagesDirtiedBy (s : Store) (txn : TxnId) : List PageId :=
  s.cachedPages.filter fun page => (s.cached? page).any fun cached => cached.dirtier == some txn

/-- The cached pages that hold anybody's writes. -/
def dirtyPages (s : Store) : List PageId :=
  s.cachedPages.filter fun page => (s.cached? page).any Page.isDirty

/-- Flushes the pages that hold a transaction's writes. -/
def flushPages (txn : TxnId) : Op Unit := do
  (pagesDirtiedBy (← get) txn).forM flushPage

/-- Flushes every dirty page, whoever wrote it. -/
def flushAll : Op Unit := do
  (dirtyPages (← get)).forM flushPage

/-- Ends a transaction without its writes. -/
def abort (txn : TxnId) (s : Store) : Store :=
  releaseAll txn (s.dropPages fun page => page.dirtier == some txn)

/-- Ends a transaction with its writes stored, or aborts it. -/
def commit (txn : TxnId) : Op Unit := fun s =>
  match flushPages txn s with
  | .ok () s => .ok () (releaseAll txn s)
  | .error stop s => .error stop (abort txn s)

end PageStore.Store
