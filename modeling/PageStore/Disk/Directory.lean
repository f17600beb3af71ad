import PageStore.Bytes.Utf8
import PageStore.Settings.Basic

/-!
# Names of files

A database keeps its files in one directory, and the name of a file is read from there on.  The
name goes along its parts, which stand between slashes: up where a part is `..`, down where a part
names a directory that leads to the database's, and its last part is the file.  No other directories
are there.

`Directory.fileAt` gives all names of one file the same path, so that a file is one file however it
is named.
-/

namespace PageStore

/-- The directory of a database. -/
structure Directory where
  path : String
  /-- The names of the directory and of those above it, from the inside out. -/
  names : List String
deriving DecidableEq, Repr, Inhabited

namespace Directory

/-- The longest name of a file, in bytes. -/
def maxName : Nat := 255

/-- The longest path, in bytes. -/
def maxPath : Nat := 4095

/-- Where a part leads down to, from so many levels above the directory. -/
def below? (directory : Directory) : (up : Nat) → (part : String) → Option Nat
  | 0, _ => none
  | up + 1, part => if directory.names[up]? = some part then some up else none

/-- The file that the parts of a name lead to, from so many levels above the directory: its own
level and its name there. -/
def locate? (directory : Directory) (up : Nat) : (parts : List String) → Option (Nat × String)
  | [] => none
  | part :: parts =>
    if part = "" || part = "." then directory.locate? up parts
    else if part = ".." then directory.locate? (min (up + 1) directory.names.length) parts
    else
      match directory.below? up part with
      | some up => directory.locate? up parts
      | none =>
        if parts.isEmpty && (Utf8.encode part.toList).length ≤ maxName then some (up, part)
        else none

/-- The path of the file that a name leads to.  The machine refuses a name that leads to a
directory, or through one that is not there. -/
def fileAt (directory : Directory) (name : String) : Except Error String :=
  let whole := joinPath directory.path name
  if name.toList.contains '\x00' then .error .zeroInName
  else if name.startsWith "/" || maxPath < (Utf8.encode whole.toList).length then .error .machine
  else
    match directory.locate? 0 (name.splitOn "/") with
    | some (up, file) =>
      .ok (joinPath directory.path (String.join (List.replicate up "../") ++ file))
    | none => .error .machine

end Directory

end PageStore
