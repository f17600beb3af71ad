import PageStore.Disk.Basic
import PageStore.Page.Slots

/-!
# Heap files

A table is stored in a file of pages of one size; page `k` begins `k` page sizes into the file.  The
number of a table is a hash of its file's path, so one file has one number however often it is
opened, and two files can in principle have the same number.

A file is opened for a schema only if a page has room for a row, which is to say a slot
(`accepts_eq`).  The sizes are compared in bits, as machine words (`Arithmetic`).
-/

namespace PageStore

/-- The number of the table whose file has a given path. -/
def TableId.ofPath (path : String) : TableId :=
  (Utf8.encode path.toList).foldl
    (fun hash b => (Nat.xor hash b.toNat * 16777619) % 4294967296) 2166136261

/-- An open table file. -/
structure HeapFile where
  table : TableId
  path : String
  schema : Schema
  pageSize : Nat
deriving DecidableEq, Repr, Inhabited

namespace HeapFile

/-- Whether a page of the given size has room for a row of a schema, as the program decides it if it
does not stop. -/
def accepts (arithmetic : Arithmetic) (schema : Schema) (pageSize : Nat) : Option Bool :=
  if schema.width = 0 then some false
  else do return (← arithmetic.slotBits schema.width) ≤ (← arithmetic.pageBits pageSize)

/-- A page has room for a row if it is counted a slot, and the program stops over the one question
where it stops over the other. -/
theorem accepts_eq (arithmetic : Arithmetic) (schema : Schema) (pageSize : Nat) :
    accepts arithmetic schema pageSize =
      (slotsPerPage arithmetic pageSize schema.width).map fun slots => decide (1 ≤ slots) := by
  by_cases wide : schema.width = 0
  · rw [accepts, slotsPerPage, if_pos wide, if_pos wide]
    rfl
  · rw [accepts, slotsPerPage, if_neg wide, if_neg wide]
    cases takes : arithmetic.slotBits schema.width with
    | none => cases arithmetic.pageBits pageSize <;> rfl
    | some row =>
      cases arithmetic.pageBits pageSize with
      | none => rfl
      | some page =>
        have once : row ≤ page ↔ 1 ≤ page / row := by
          rw [Nat.le_div_iff_mul_le (Arithmetic.slotBits_pos takes), Nat.one_mul]
        exact congrArg some (decide_eq_decide.2 once)

theorem accepts_eq_true {arithmetic : Arithmetic} {schema : Schema} {pageSize : Nat} :
    accepts arithmetic schema pageSize = some true ↔
      0 < schema.width ∧ ∃ slots, slotsPerPage arithmetic pageSize schema.width = some slots ∧
        1 ≤ slots := by
  rw [accepts_eq, Option.map_eq_some_iff]
  simp only [decide_eq_true_eq]
  refine ⟨fun counted => ⟨Nat.pos_of_ne_zero fun narrow => ?_, counted⟩, fun counted => counted.2⟩
  obtain ⟨slots, counts, least⟩ := counted
  rw [slotsPerPage, if_pos narrow] at counts
  cases counts
  exact absurd least (by decide)

theorem accepts_eq_false {arithmetic : Arithmetic} {schema : Schema} {pageSize : Nat} :
    accepts arithmetic schema pageSize = some false ↔
      slotsPerPage arithmetic pageSize schema.width = some 0 := by
  rw [accepts_eq]
  cases slotsPerPage arithmetic pageSize schema.width <;> simp

theorem accepts_eq_none {arithmetic : Arithmetic} {schema : Schema} {pageSize : Nat} :
    accepts arithmetic schema pageSize = none ↔
      slotsPerPage arithmetic pageSize schema.width = none := by
  rw [accepts_eq, Option.map_eq_none_iff]

/-- What a checked program accepts has sizes in words, and so a slot. -/
theorem room_of_accepts {schema : Schema} {pageSize : Nat}
    (accepted : accepts .checked schema pageSize = some true) :
    0 < schema.width ∧ 1 ≤ slotCount pageSize schema.width := by
  obtain ⟨wide, slots, counts, least⟩ := accepts_eq_true.1 accepted
  by_cases inWords : InWords pageSize schema.width
  · rw [slotsPerPage_of_inWords inWords] at counts
    cases counts
    exact ⟨wide, least⟩
  · rw [slotsPerPage_checked wide inWords] at counts
    cases counts

/-- Opens the file of a name, and creates it if it is not there. -/
def onDisk (arithmetic : Arithmetic) (disk : Disk) (name : String) (schema : Schema)
    (pageSize : Nat) : Except Error (HeapFile × Disk) :=
  match accepts arithmetic schema pageSize with
  | none => .error .tooManyBits
  | some false => .error (.doesNotFit schema pageSize)
  | some true => do
    let path ← disk.directory.fileAt name
    return (⟨TableId.ofPath path, path, schema, pageSize⟩, disk.create path)

/-- Refuses a page of another table. -/
def checkPage (file : HeapFile) (page : PageId) : Except Error Unit :=
  if page.table = file.table then .ok () else .error (.foreignPage page file.table)

/-- The number of whole pages in the file. -/
def pageCount (file : HeapFile) (disk : Disk) : Nat := (disk.read file.path).length / file.pageSize

/-- Reads a page of the file. -/
def read (file : HeapFile) (disk : Disk) (page : PageId) : Except Error Page := do
  file.checkPage page
  let start := page.offset file.pageSize
  if start + file.pageSize ≤ (disk.read file.path).length then
    .ok (.ofStored page ((disk.read file.path).slice start file.pageSize))
  else .error (.pastEnd page file.path)

/-- Writes a page into the file. -/
def write (file : HeapFile) (disk : Disk) (page : Page) : Except Error Disk := do
  file.checkPage page.id
  if page.bytes.length = file.pageSize then
    .ok (disk.write file.path (page.id.offset file.pageSize) page.bytes)
  else .error (.pageLength page.id page.bytes.length file.pageSize)

end HeapFile

end PageStore
