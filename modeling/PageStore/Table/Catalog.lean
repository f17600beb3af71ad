import PageStore.Table.HeapFile

/-!
# The catalog

The tables by their numbers, each with a name and an open file.  A name belongs to one table; giving
it to another file takes it from the table that had it.  A number that belongs to a table of another
name is refused.
-/

namespace PageStore

/-- A table of the catalog. -/
structure Table where
  name : String
  file : HeapFile
deriving DecidableEq, Repr, Inhabited

/-- The tables by their numbers. -/
abbrev Catalog := Dictionary TableId Table

namespace Catalog

/-- Registers a file under a name. -/
def add (catalog : Catalog) (file : HeapFile) (name : String) : Except Error Catalog :=
  let taken := (catalog.get? file.table).filter fun table => table.name ≠ name
  match taken with
  | some table => .error (.tableTaken file.table name table.name)
  | none => .ok ((catalog.filter fun _ table => table.name ≠ name).put file.table ⟨name, file⟩)

/-- The file of a table. -/
def file (catalog : Catalog) (table : TableId) : Except Error HeapFile :=
  match catalog.get? table with
  | some entry => .ok entry.file
  | none => .error (.unknownTableId table)

/-- The number of the table of a name. -/
def tableId (catalog : Catalog) (name : String) : Except Error TableId :=
  match catalog.entries.find? fun entry => entry.2.name == name with
  | some entry => .ok entry.1
  | none => .error (.unknownTable name)

/-- The name of a table. -/
def tableName (catalog : Catalog) (table : TableId) : Except Error String :=
  match catalog.get? table with
  | some entry => .ok entry.name
  | none => .error (.unknownTableId table)

/-- The numbers of all tables, in order. -/
def tableIds (catalog : Catalog) : List TableId := catalog.keys.mergeSort (· ≤ ·)

end Catalog

end PageStore
