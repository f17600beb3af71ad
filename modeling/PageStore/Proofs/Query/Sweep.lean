import PageStore.Proofs.Query.Cursor
import PageStore.Proofs.Query.Listing
import PageStore.Proofs.Query.Taking

/-!
# Scans whose rows are written as they are given

What takes the rows of a scan and writes each before it asks for the next turns pages and writes
rows in turns.  What turning a page keeps and writing a row keeps (`Plan.Sweeps`) holds all the way,
of the rows that were given, the store, and the place of the scan.

The rows of a page that is turned are those that its records show (`Store.lists_of_fetch`), and so
are those of a whole scan in which nothing is written (`Store.scan_lists_shown`).
-/

namespace PageStore

open Store

/-! ## Turning and writing -/

namespace Plan

open Turn

variable {file : HeapFile} {txn : TxnId} {mode : LockMode} {write : Row → Op Unit}
  {inv : List Row → Store → Cursor → Prop} {given rows : List Row} {s after : Store}
  {place : Cursor} {left : Option Cursor} {row : Row} {stop : Stop}

/-- A scan of a table is one of its file. -/
theorem scanOf_eq_ok {catalog : Catalog} {table : TableId} {label : Option String} {child : Plan}
    (made : scanOf catalog table label txn mode = .ok child) :
    ∃ file schema, catalog.file table = .ok file ∧ child = scan file schema txn mode := by
  obtain ⟨file, listed, same⟩ := Answer.bind_eq_ok.1 made
  cases same
  exact ⟨file, _, listed, rfl⟩

/-- A relation of the rows that a scan has given, the store and the place of the scan, that is kept
whenever a page is turned and whenever a row is written. -/
structure Sweeps (file : HeapFile) (txn : TxnId) (mode : LockMode) (write : Row → Op Unit)
    (inv : List Row → Store → Cursor → Prop) : Prop where
  turned : ∀ {given s number frame after rows}, inv given s ⟨number, []⟩ →
    number < file.pageCount s.disk → fetch txn ⟨file.table, number⟩ mode s = .ok frame after →
    frame.page.rows file.schema = .ok rows → inv given after ⟨number + 1, rows⟩
  written : ∀ {given s number row rows after}, inv given s ⟨number, row :: rows⟩ →
    write row s = .ok () after → inv (given ++ [row]) after ⟨number, rows⟩

theorem Sweeps.skims (sweeps : Sweeps file txn mode write inv) {now ended : Store × Nat}
    (skims : Skims file txn mode now ended) (holds : inv given now.1 ⟨now.2, []⟩) :
    inv given ended.1 ⟨ended.2, []⟩ := by
  induction skims with
  | nil => exact holds
  | cons inside fetched empty _ ih => exact ih (sweeps.turned holds inside fetched empty)

/-- A row that is given is the first of those that are left of a page. -/
theorem Sweeps.next (sweeps : Sweeps file txn mode write inv) (holds : inv given s place)
    (gives : scanNext file txn mode (s, some place) = .ok (some row) (after, left)) :
    ∃ number rows, left = some ⟨number, rows⟩ ∧ inv given after ⟨number, row :: rows⟩ := by
  obtain ⟨number, pending⟩ := place
  cases pending with
  | cons first pending =>
    cases gives
    exact ⟨number, pending, rfl, holds⟩
  | nil =>
    have meets := scanNext_meets s file txn mode number
    rw [gives] at meets
    cases meets with
    | gives skims inside fetched found =>
      exact ⟨_, _, rfl, sweeps.turned (sweeps.skims skims holds) inside fetched found⟩

/-- When there are no more rows, all pages were turned. -/
theorem Sweeps.drained (sweeps : Sweeps file txn mode write inv) (holds : inv given s place)
    (none : scanNext file txn mode (s, some place) = .ok none (after, left)) :
    ∃ number, inv given after ⟨number, []⟩ ∧ file.pageCount after.disk ≤ number := by
  obtain ⟨number, pending⟩ := place
  cases pending with
  | cons first pending => cases none
  | nil =>
    have meets := scanNext_meets s file txn mode number
    rw [none] at meets
    cases meets with
    | ends skims past => exact ⟨_, sweeps.skims skims holds, past⟩

/-- A scan that is stopped is to turn a page, which is refused or cannot be read. -/
theorem Sweeps.stopped (sweeps : Sweeps file txn mode write inv) (holds : inv given s place)
    (stops : scanNext file txn mode (s, some place) = .error stop (after, left)) :
    ∃ t number, inv given t ⟨number, []⟩ ∧ number < file.pageCount t.disk ∧
      (fetch txn ⟨file.table, number⟩ mode t = .error stop after ∨
        ∃ frame e, fetch txn ⟨file.table, number⟩ mode t = .ok frame after ∧
          frame.page.rows file.schema = .error e) := by
  obtain ⟨number, pending⟩ := place
  cases pending with
  | cons first pending => cases stops
  | nil =>
    have meets := scanNext_meets s file txn mode number
    rw [stops] at meets
    cases meets with
    | refused skims inside refuses =>
      exact ⟨_, _, sweeps.skims skims holds, inside, .inl refuses⟩
    | unread skims inside fetched fails =>
      exact ⟨_, _, sweeps.skims skims holds, inside, .inr ⟨_, _, fetched, fails⟩⟩

/-- What is kept holds after any rows. -/
theorem Sweeps.takes (sweeps : Sweeps file txn mode write inv) {now ended : Store × Option Cursor}
    (takes : Takes (scanNext file txn mode) write now rows ended) (opened : now.2 = some place)
    (holds : inv given now.1 place) :
    ∃ last, ended.2 = some last ∧ inv (given ++ rows) ended.1 last := by
  induction takes generalizing given place with
  | nil now => exact ⟨place, opened, by rwa [List.append_nil]⟩
  | @cons now _ _ _ _ row _ gives handled _ ih =>
    obtain ⟨s, cursor⟩ := now
    obtain rfl : cursor = some place := opened
    obtain ⟨number, pending, rfl, holds⟩ := sweeps.next holds gives
    obtain ⟨last, same, holds⟩ := ih rfl (sweeps.written holds handled)
    exact ⟨last, same, by rwa [List.append_assoc] at holds⟩

end Plan

/-! ## What a scan reads of the records -/

namespace Store

variable {s after : Store} {txn : TxnId} {mode : LockMode} {file : HeapFile} {table : TableId}
  {frame : Frame} {number : Nat} {rows : List Row} {record : RecordId} {row : Row}

/-- A store whose records show given contents. -/
structure Shown (contents : Contents) (file : HeapFile) (s : Store) : Prop where
  coherent : s.Coherent
  listed : s.catalog.file file.table = .ok file
  shown : s.shownAt = contents

theorem Shown.readies {contents : Contents} (shown : s.Shown contents file)
    (readies : Readies txn s after) : after.Shown contents file where
  coherent := shown.coherent.readies readies
  listed := by rw [readies.catalog_eq, shown.listed]
  shown := (readies.shownAt_eq shown.coherent).trans shown.shown

/-- Each page that is fetched shows what its records show. -/
theorem gives_of_shown (contents : Contents) (file : HeapFile) (txn : TxnId) (mode : LockMode) :
    Gives (Shown contents file) txn mode file contents := by
  intro s number frame after shown fetched
  obtain ⟨fetches, cached, -⟩ := (fetch_leads s txn ⟨file.table, number⟩ mode).of_ok fetched
  have later := shown.readies (.fetches fetches)
  have id := (later.coherent.faithful _ frame cached).id
  refine ⟨later, id, fun slot => ?_⟩
  rw [← later.shown, id, shownAt_of_cached cached later.listed]

/-- The rows of a page that is fetched are those of its records, each of which can be read. -/
theorem lists_of_fetch (coherent : s.Coherent) (listed : s.catalog.file file.table = .ok file)
    (fetched : fetch txn ⟨file.table, number⟩ mode s = .ok frame after)
    (found : frame.page.rows file.schema = .ok rows) :
    s.shownAt.Lists (fun record => record.page = ⟨file.table, number⟩) rows ∧
      ∀ slot, ∃ row, s.shownAt ⟨⟨file.table, number⟩, slot⟩ = .ok row := by
  obtain ⟨-, id, shows⟩ :=
    gives_of_shown s.shownAt file txn mode s number frame after ⟨coherent, listed, rfl⟩ fetched
  rw [← id]
  exact ⟨Page.lists found shows, fun slot => shows slot ▸ Page.exists_row? found slot⟩

/-- A record that shows a row is on a page of its table's file. -/
theorem lt_pageCount_of_shown (coherent : s.Coherent)
    (listed : s.catalog.file record.page.table = .ok file)
    (shown : s.shownAt record = .ok (some row)) : record.page.number < file.pageCount s.disk := by
  cases cached : s.cache.get? record.page with
  | some frame => exact (coherent.faithful _ frame cached).before.lt_pageCount coherent.catalog listed
  | none =>
    by_cases present : ∃ page, s.Stores record.page page
    · obtain ⟨page, stores⟩ := present
      exact stores.lt_pageCount coherent.catalog listed
    · have missing := recordAt_of_missing (fun page stores => present ⟨page, stores⟩) record.slot
      rw [← shownAt_of_missing cached] at missing
      cases missing.symm.trans shown

/-- A scan that succeeds lists what the records of its table show. -/
theorem scan_lists_shown (coherent : s.Coherent)
    (scanned : scanAll txn table mode s = .ok rows after) :
    s.shownAt.Lists (fun record => record.page.table = table) rows := by
  obtain ⟨file, rfl, listed, reads⟩ := readPages_of_scanAll coherent.catalog scanned
  obtain ⟨-, lists⟩ :=
    readPages_lists (gives_of_shown s.shownAt file txn mode) ⟨coherent, listed, rfl⟩ reads
  refine lists.congr fun record row held => ⟨And.left, fun here => ⟨here, Nat.zero_le _, ?_⟩⟩
  rw [Nat.zero_add]
  exact lt_pageCount_of_shown coherent (here ▸ listed) held

end Store

end PageStore
