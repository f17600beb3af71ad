import PageStore.Journal.FileLog
import PageStore.Journal.MemoryLog

/-!
# The write-ahead log

A journal is a log in memory or in a file on the disk of the database.  A page reaches its table's
file only after an entry for it was written to the journal and forced.
-/

namespace PageStore

/-- A write-ahead log. -/
inductive Journal where
  | memory (log : MemoryLog)
  | file (log : FileLog)
deriving Inhabited

namespace Journal

/-- Writes an entry. -/
def write (journal : Journal) (disk : Disk) (entry : Entry) :
    Except Error Unit × Journal × Disk :=
  match journal with
  | memory log =>
    let (answer, log) := log.write entry
    (answer, memory log, disk)
  | file log =>
    match log.write disk entry with
    | .ok (log, disk) => (.ok (), file log, disk)
    | .error e => (.error e, file log, disk)

/-- Forces every entry written so far. -/
def force (journal : Journal) (disk : Disk) : Except Error Unit × Journal × Disk :=
  match journal with
  | memory log =>
    let (answer, log) := log.force
    (answer, memory log, disk)
  | file log =>
    let (log, disk) := log.flush disk
    (.ok (), file log, disk)

/-- The entries of the journal, with the journal and the disk after they were read. -/
def read (journal : Journal) (disk : Disk) : Except Error (List Entry) × Journal × Disk :=
  match journal with
  | memory log => (.ok log.entries, memory log, disk)
  | file log =>
    let (answer, log, disk) := log.read disk
    (answer, file log, disk)

/-- The disk once the journal is closed. -/
def close (journal : Journal) (disk : Disk) : Disk :=
  match journal with
  | memory _ => disk
  | file log => log.close disk

/-- The entries that are known to outlive the program: those that a force covered, or those that
the file holds. -/
def forcedEntries (journal : Journal) (disk : Disk) : List Entry :=
  match journal with
  | memory log => log.forcedEntries
  | file log => (entriesOf? (disk.read log.path)).getD []

end Journal

end PageStore
