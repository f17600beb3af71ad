import PageStore.Dictionary
import PageStore.Disk.Directory

/-!
# The disk

The files of a database, by path: those of its tables, and that of its log unless the log is in
memory.  What an operation does to a file is seen by whoever reads that file (`read_put`), and no
other file changes.
-/

namespace PageStore

/-- The files of a database. -/
structure Disk where
  directory : Directory
  files : Dictionary String Bytes
deriving Inhabited

namespace Disk

/-- A disk without files. -/
def empty (directory : Directory) : Disk := ⟨directory, .empty⟩

/-- The bytes of a file; there are none if there is no file. -/
def read (disk : Disk) (path : String) : Bytes := (disk.files.get? path).getD []

/-- The disk with a file of given bytes. -/
def put (disk : Disk) (path : String) (bytes : Bytes) : Disk :=
  { disk with files := disk.files.put path bytes }

/-- The disk with a file, empty if it was not there. -/
def create (disk : Disk) (path : String) : Disk := disk.put path (disk.read path)

/-- The disk with bytes written into a file from some offset on.  What lies between the end of the
file and the offset is filled with zeros. -/
def write (disk : Disk) (path : String) (start : Nat) (data : Bytes) : Disk :=
  disk.put path (((disk.read path).extendTo start).splice start data)

/-- The disk with bytes added at the end of a file. -/
def append (disk : Disk) (path : String) (data : Bytes) : Disk :=
  disk.put path (disk.read path ++ data)

@[simp] theorem read_put (disk : Disk) (path : String) (bytes : Bytes) (other : String) :
    (disk.put path bytes).read other = if other = path then bytes else disk.read other := by
  simp only [read, put, Dictionary.get?_put]
  split <;> rfl

@[simp] theorem read_create (disk : Disk) (path other : String) :
    (disk.create path).read other = disk.read other := by
  rw [create, read_put]
  split
  · next h => rw [h]
  · rfl

@[simp] theorem read_append (disk : Disk) (path : String) (data : Bytes) (other : String) :
    (disk.append path data).read other =
      if other = path then disk.read path ++ data else disk.read other :=
  read_put ..

end Disk

end PageStore
