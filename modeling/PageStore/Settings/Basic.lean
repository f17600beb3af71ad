import PageStore.Error

/-!
# Settings

What can be set when a store is opened, with the values that hold when nothing is set.  A page must
have room for a byte and the cache for a page.
-/

namespace PageStore

/-- How a store is set up. -/
structure Settings where
  /-- The directory of the table files and the log. -/
  directory : String
  /-- The number of bytes of a page. -/
  pageSize : Nat
  /-- How many pages may be cached. -/
  bufferPages : Nat
  /-- How many milliseconds a transaction may live before a wait is refused. -/
  lockTimeout : Nat
  /-- The name of the log file in the directory. -/
  logName : String
  /-- Whether forcing the log waits until the medium holds it. -/
  sync : Bool
deriving DecidableEq, Repr, Inhabited

/-- A name inside a directory.  A name that begins at the root stands for itself. -/
def joinPath (directory name : String) : String :=
  if name.startsWith "/" then name
  else if directory = "" || directory.endsWith "/" then directory ++ name
  else directory ++ "/" ++ name

namespace Settings

/-- What holds when nothing is set. -/
def default : Settings := ⟨"data", 4096, 50, 1000, "wal.log", true⟩

/-- Refuses settings under which nothing can be stored or cached. -/
def validate (settings : Settings) : Except Error Unit :=
  if settings.pageSize = 0 then .error .pageSizeNotPositive
  else if settings.bufferPages = 0 then .error .bufferPagesNotPositive
  else .ok ()

/-- The path of the log file. -/
def logPath (settings : Settings) : String := joinPath settings.directory settings.logName

end Settings

end PageStore
