import PageStore.Disk.Basic
import PageStore.Journal.Entry

/-!
# A log in a file

Frames pass through a buffer on their way to the file, so an entry that was written may not be in
the file yet.  A frame that does not fit what is left of the buffer sends the buffer to the file
first; a frame as large as the whole buffer goes to the file directly.  Forcing the log, reading it
and closing it empty the buffer into the file.

The log adds to the end of its file wherever that end is by then: others may have changed the file.
-/

namespace PageStore

/-- A log file that is open for appending. -/
structure FileLog where
  path : String
  /-- Whether forcing the log also waits until the medium holds the file. -/
  sync : Bool
  buffer : Bytes
deriving DecidableEq, Repr, Inhabited

namespace FileLog

/-- The size of the buffer. -/
def bufferSize : Nat := 8192

/-- The largest count that the word before a frame can hold. -/
def maxEntry : Nat := 4294967295

/-- Opens a log on a file, and creates the file if it is not there. -/
def onDisk (disk : Disk) (path : String) (sync : Bool) : FileLog × Disk :=
  (⟨path, sync, []⟩, disk.create path)

/-- The log with its buffer emptied into the file. -/
def flush (log : FileLog) (disk : Disk) : FileLog × Disk :=
  ({ log with buffer := [] }, disk.append log.path log.buffer)

/-- Appends bytes by way of the buffer. -/
def append (log : FileLog) (disk : Disk) (data : Bytes) : FileLog × Disk :=
  if log.buffer.length + data.length ≤ bufferSize ∧ data.length < bufferSize then
    ({ log with buffer := log.buffer ++ data }, disk)
  else
    let (log, disk) := log.flush disk
    if data.length < bufferSize then ({ log with buffer := data }, disk)
    else (log, disk.append log.path data)

/-- Writes an entry. -/
def write (log : FileLog) (disk : Disk) (entry : Entry) : Except Error (FileLog × Disk) :=
  if entry.encode.length ≤ maxEntry then .ok (log.append disk (Frame.encode entry.encode))
  else .error (.entryTooLong entry.encode.length)

/-- The entries of the log, with the log and the disk after they were read. -/
def read (log : FileLog) (disk : Disk) : Except Error (List Entry) × FileLog × Disk :=
  let (log, disk) := log.flush disk
  match entriesOf? (disk.read log.path) with
  | some entries => (.ok entries, log, disk)
  | none => (.error .truncatedEntry, log, disk)

/-- The disk once the log is closed. -/
def close (log : FileLog) (disk : Disk) : Disk := (log.flush disk).2

/-- The log opened anew on its file while it is still open, and only then closed: what the old log
had buffered reaches the file after the new one was opened. -/
def reopen (log : FileLog) (disk : Disk) (sync : Bool) : FileLog × Disk :=
  let (fresh, disk) := onDisk disk log.path sync
  (fresh, log.close disk)

end FileLog

end PageStore
