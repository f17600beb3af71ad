import PageStore.Query.Run
import PageStore.Store.Kept

/-!
# Databases

A database is a store that was opened under some settings, together with the transactions that
were begun and have not ended.  Transactions are numbered in the order in which they begin; a number
stays usable after its transaction ended.

Opening a database again in the same directory keeps what is on disk and nothing else: running
transactions are aborted, and what the log had buffered reaches its file.
-/

namespace PageStore

/-- Where the log of a database is. -/
inductive LogPlace where
  /-- The file that the settings name. -/
  | file
  /-- Memory; the log is empty each time the database is opened. -/
  | memory (log : MemoryLog)
deriving Inhabited

/-- An open database. -/
structure Database where
  settings : Settings
  logPlace : LogPlace
  store : Store
  nextTxn : TxnId
  /-- The transactions that have not ended. -/
  running : List TxnId
deriving Inhabited

namespace Database

/-- Opens the log of a database. -/
def openLog (settings : Settings) (place : LogPlace) (disk : Disk) :
    Except Error (Journal × Disk) :=
  match place with
  | .memory log => .ok (.memory log, disk)
  | .file => do
    let (log, disk) := FileLog.onDisk disk (← disk.directory.fileAt settings.logName) settings.sync
    return (.file log, disk)

/-- Opens a database over a disk.  Its operations run one at a time, so nobody could end a wait
inside an operation before the bound does, and such a wait is refused. -/
def openOn (settings : Settings) (place : LogPlace) (disk : Disk) (nextTxn : TxnId) :
    Except Error Database := do
  settings.validate
  let (journal, disk) ← openLog settings place disk
  let store := Store.start disk settings.bufferPages (fun _ => true) journal
  return ⟨settings, place, store, nextTxn, []⟩

/-- Opens a database in an empty directory, given its name and those of the directories above it,
from the inside out. -/
def create (settings : Settings) (names : List String) (place : LogPlace) (firstTxn : TxnId) :
    Except Error Database :=
  openOn settings place (.empty ⟨settings.directory, names⟩) firstTxn

/-- Runs an operation on the store. -/
def run {α : Type} (db : Database) (op : Op α) : Except Stop α × Database :=
  match op db.store with
  | .ok a store => (.ok a, { db with store := store })
  | .error stop store => (.error stop, { db with store := store })

/-! ## Transactions -/

/-- Begins a transaction. -/
def beginTxn (db : Database) : TxnId × Database :=
  (db.nextTxn, { db with nextTxn := db.nextTxn + 1, running := db.running ++ [db.nextTxn] })

/-- The database without a transaction among those that run. -/
def ended (db : Database) (txn : TxnId) : Database :=
  { db with running := db.running.filter (· ≠ txn) }

/-- Ends a transaction with its writes stored, or aborts it. -/
def commit (db : Database) (txn : TxnId) : Except Stop Unit × Database :=
  (db.ended txn).run (Store.commit txn)

/-- Ends a transaction without its writes. -/
def abort (db : Database) (txn : TxnId) : Database :=
  { db.ended txn with store := db.store.abort txn }

/-- Lets go of a transaction: one that still runs is aborted. -/
def drop (db : Database) (txn : TxnId) : Database :=
  if txn ∈ db.running then db.abort txn else db

/-- Asks for the lock of a page.  The request may stay waiting while others act, unless its caller
waits for the verdict or the bound on waits is zero; any other bound is taken never to be
reached. -/
def acquire (db : Database) (txn : TxnId) (page : PageId) (mode : LockMode) (atOnce : Bool) :
    Verdict × Database :=
  let overdue := atOnce || db.settings.lockTimeout == 0
  let (verdict, locks) := db.store.locks.acquire txn page mode overdue
  (verdict, { db with store := { db.store with locks := locks } })

/-- Whether a transaction has a waiting request, and so can do nothing else. -/
def isWaiting (db : Database) (txn : TxnId) : Bool := db.store.locks.isWaiting txn

/-- Judges the waiting requests that were woken. -/
def settle (db : Database) : List (TxnId × Verdict) × Database :=
  let (verdicts, locks) := db.store.locks.settle fun _ => db.settings.lockTimeout == 0
  (verdicts, { db with store := { db.store with locks := locks } })

/-! ## Tables -/

/-- Opens a file and registers it under a name.  A file that cannot be registered stays on
disk.  The program checks its arithmetic, so all files that it opens have slots. -/
def addFile (db : Database) (fileName : String) (schema : Schema) (name : String)
    (pageSize : Nat) : Except Error HeapFile × Option HeapFile × Database :=
  match HeapFile.onDisk .checked db.store.disk fileName schema pageSize with
  | .error e => (.error e, none, db)
  | .ok (file, disk) =>
    let db := { db with store := { db.store with disk := disk } }
    match db.store.catalog.add file name with
    | .error e => (.error e, some file, db)
    | .ok catalog => (.ok file, some file, { db with store := { db.store with catalog := catalog } })

/-- The name of the file of a table. -/
def fileName (table : String) : String := table ++ ".dat"

/-- Opens the file of a table's name, and registers it under the name. -/
def createTable (db : Database) (name : String) (schema : Schema) :
    Except Error TableId × Database :=
  let (added, _, db) := db.addFile (fileName name) schema name db.settings.pageSize
  (added.map HeapFile.table, db)

/-! ## Opening again -/

/-- Aborts every transaction that runs. -/
def abortAll (db : Database) : Database := db.running.foldl abort db

/-- Opens the database again in the same directory. -/
def reopen (db : Database) : Except Error Database :=
  let db := db.abortAll
  openOn db.settings db.logPlace (db.store.journal.close db.store.disk) db.nextTxn

end Database

end PageStore
