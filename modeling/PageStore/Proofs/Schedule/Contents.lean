import PageStore.Proofs.Schedule.Call

/-!
# The contents of the table files

`Store.recordAt` is what a record holds by the files of the tables, whatever is cached.  A store's
contents give this for every record, and a change replaces what one record holds
(`Contents.apply`).

What a record holds is a matter of the page that the file has for it: it is the row in the slot of
that page, or nothing if there is no such page (`recordAt_of_stores`, `recordAt_of_missing`).  So
nothing that a transaction does on the way to a page changes any record, not even a page that it
appends (`Readies.recordAt_eq`).
-/

namespace PageStore

/-- What each record holds. -/
abbrev Contents := RecordId → Except Error (Option Row)

namespace Contents

variable {contents other : Contents} {changes : List Change} {record : RecordId}

/-- The contents after a change. -/
def change (contents : Contents) (change : Change) : Contents := fun record =>
  if record = change.record then .ok change.row else contents record

/-- The contents after changes, one after another. -/
def apply (contents : Contents) (changes : List Change) : Contents :=
  changes.foldl Contents.change contents

theorem apply_append (contents : Contents) (first second : List Change) :
    contents.apply (first ++ second) = (contents.apply first).apply second :=
  List.foldl_append

theorem apply_snoc (contents : Contents) (changes : List Change) (change : Change)
    (record : RecordId) :
    contents.apply (changes ++ [change]) record =
      if record = change.record then .ok change.row else contents.apply changes record := by
  rw [apply_append]
  rfl

/-- Changes of other records leave a record as it was. -/
theorem apply_of_not_mem (contents : Contents)
    (others : ∀ change ∈ changes, change.record ≠ record) :
    contents.apply changes record = contents record := by
  induction changes generalizing contents with
  | nil => rfl
  | cons change changes ih =>
    have rest := ih (contents.change change) fun other mem => others other (.tail _ mem)
    have ne : record ≠ change.record := (others change (.head _)).symm
    show (contents.change change).apply changes record = contents record
    rw [rest, Contents.change, if_neg ne]

/-- What changes make of a record depends on what it held alone. -/
theorem apply_congr (same : contents record = other record) (changes : List Change) :
    contents.apply changes record = other.apply changes record := by
  induction changes generalizing contents other with
  | nil => exact same
  | cons change changes ih =>
    show (contents.change change).apply changes record = (other.change change).apply changes record
    refine ih ?_
    simp only [Contents.change]
    rw [same]

end Contents

namespace Store

variable {s after : Store} {txn : TxnId} {page : PageId} {file : HeapFile} {slot : Nat}

/-- What a record holds by the files of the tables. -/
def recordAt (s : Store) : Contents := fun record =>
  match s.catalog.file record.page.table with
  | .error _ => .ok none
  | .ok file =>
    match file.read s.disk record.page with
    | .error _ => .ok none
    | .ok page => page.row? file.schema record.slot

theorem recordAt_of_stores {stored : Page} (stores : s.Stores page stored)
    (listed : s.catalog.file page.table = .ok file) (slot : Nat) :
    s.recordAt ⟨page, slot⟩ = stored.row? file.schema slot := by
  simp only [recordAt, listed, stores.read listed]

theorem recordAt_of_missing (missing : ∀ stored, ¬ s.Stores page stored) (slot : Nat) :
    s.recordAt ⟨page, slot⟩ = .ok none := by
  unfold recordAt
  cases listed : s.catalog.file page.table with
  | error e => rfl
  | ok file =>
    cases read : file.read s.disk page with
    | error e => simp only [read]
    | ok stored => exact absurd ⟨file, listed, read⟩ (missing stored)

/-- By a clean page its records hold what they hold by the file. -/
theorem Coherent.row?_of_clean {frame : Frame} (coherent : Coherent s)
    (cached : s.cache.get? page = some frame) (clean : frame.page.dirtier = none)
    (listed : s.catalog.file page.table = .ok file) (slot : Nat) :
    frame.page.row? file.schema slot = s.recordAt ⟨page, slot⟩ := by
  have faithful := coherent.faithful page frame cached
  rw [recordAt_of_stores faithful.before listed]
  exact Page.row?_of_bytes faithful.id (faithful.clean clean) file.schema slot

/-- A record holds what it held if its page is stored as it was. -/
theorem recordAt_congr (catalog : after.catalog = s.catalog)
    (same : ∀ stored, after.Stores page stored ↔ s.Stores page stored) (slot : Nat) :
    after.recordAt ⟨page, slot⟩ = s.recordAt ⟨page, slot⟩ := by
  by_cases present : ∃ stored, s.Stores page stored
  · rcases present with ⟨stored, stores⟩
    obtain ⟨file, listed, -⟩ := id stores
    rw [recordAt_of_stores stores listed,
      recordAt_of_stores ((same stored).2 stores) (by rw [catalog, listed])]
  · have missing : ∀ stored, ¬ s.Stores page stored := fun stored stores =>
      present ⟨stored, stores⟩
    rw [recordAt_of_missing missing,
      recordAt_of_missing fun stored stores => missing stored ((same stored).1 stores)]

theorem recordAt_of_disk (catalog : after.catalog = s.catalog) (disk : after.disk = s.disk) :
    after.recordAt = s.recordAt := by
  funext record
  simp only [recordAt, catalog, disk]

/-- The records of an appended page held nothing before, and hold nothing now. -/
theorem Appends.recordAt_eq (appends : Appends s after) (sound : s.catalog.Sound) :
    after.recordAt = s.recordAt := by
  rcases appends with @⟨file, disk, listed, writes⟩
  funext ⟨page, slot⟩
  rcases eq_or_ne page ⟨file.table, file.pageCount s.disk⟩ with rfl | new
  · have stores : Stores { s with disk := disk } ⟨file.table, file.pageCount s.disk⟩
        (.blank _ file.pageSize) := ⟨file, listed, writes.read_self⟩
    have missing : ∀ stored, ¬ s.Stores ⟨file.table, file.pageCount s.disk⟩ stored :=
      fun stored stores => Nat.lt_irrefl _ (stores.lt_pageCount sound listed)
    rw [recordAt_of_stores stores listed, recordAt_of_missing missing, Page.row?_blank]
  · have catalog : Store.catalog { s with disk := disk } = s.catalog := rfl
    exact recordAt_congr catalog (fun stored =>
      stores_of_writes sound listed catalog writes (Nat.le_refl _) new) slot

/-- On the way to a page no record changes. -/
theorem Readies.recordAt_eq (readies : Readies txn s after) (sound : s.catalog.Sound) :
    after.recordAt = s.recordAt := by
  cases readies with
  | fetches fetches => exact recordAt_of_disk fetches.catalog fetches.disk
  | appends before appends rest =>
    rw [recordAt_of_disk rest.catalog rest.disk,
      appends.recordAt_eq (by rw [before.catalog]; exact sound),
      recordAt_of_disk before.catalog before.disk]

end Store

end PageStore
