import PageStore.Proofs.Schedule.FailedFetch
import PageStore.Proofs.Schedule.Stops
import PageStore.Proofs.Schedule.Whole

/-!
# What a failed insertion or deletion leaves

An insertion or deletion that stops has come to no change of a page (`Store.Readies.spared`): pages
that were cached and still are hold what they held, those with writes are still there, and nobody
loses a lock.  Since the files of the tables consist of whole pages, its own file is as it was or
longer by one page of zeros (`Store.Tries.grown`).
-/

namespace PageStore

namespace Store

variable {s after : Store} {txn : TxnId} {grows? : Option HeapFile}

/-- A store in which a transaction came to no change.  A page that was cached and still is has its
bytes, its writer and what it gives as last stored; pages with writes are still cached; nothing was
written to the log; and everybody holds what it held, and as strongly at least. -/
structure Spared (txn : TxnId) (s after : Store) : Prop where
  catalog : after.catalog = s.catalog
  pages : ∀ page frame now, s.cache.get? page = some frame → after.cache.get? page = some now →
    now.page = frame.page
  dirty : ∀ page frame, s.cache.get? page = some frame → frame.page.isDirty = true →
    after.cache.get? page = some frame
  journal : after.journal = s.journal
  log : ∀ path, s.journal.path? = some path → after.disk.read path = s.disk.read path
  others : ∀ other page, other ≠ txn → after.locks.mode? other page = s.locks.mode? other page
  mine : ∀ page mode, s.locks.mode? txn page = some mode →
    after.locks.mode? txn page = some mode ∨ after.locks.mode? txn page = some .exclusive

/-- The files are as they were, or a page of zeros was appended to the one that may be appended
to. -/
def Grown (grows? : Option HeapFile) (s after : Store) : Prop :=
  after.disk = s.disk ∨ ∃ file, grows? = some file ∧ ∀ path, after.disk.read path =
    if path = file.path then s.disk.read path ++ Bytes.zeros file.pageSize else s.disk.read path

theorem Readies.widens (readies : Readies txn s after) : s.locks.Widens txn after.locks := by
  cases readies with
  | fetches fetches => exact fetches.locks
  | appends before appends rest =>
    cases appends
    exact before.locks.trans rest.locks

theorem Readies.journal_eq (readies : Readies txn s after) : after.journal = s.journal := by
  cases readies with
  | fetches fetches => exact fetches.journal
  | appends before appends rest =>
    cases appends
    exact rest.journal.trans before.journal

/-- Pages are appended to the files of tables alone. -/
theorem Readies.read_other (readies : Readies txn s after) {path : String}
    (apart : ∀ table file, s.catalog.file table = .ok file → path ≠ file.path) :
    after.disk.read path = s.disk.read path := by
  cases readies with
  | fetches fetches => rw [fetches.disk]
  | appends before appends rest =>
    rcases appends with ⟨listed, writes⟩
    rw [before.catalog] at listed
    rw [rest.disk]
    exact (writes.bytes_other (apart _ _ listed)).trans (by rw [before.disk])

/-- Fetching and appending change no page. -/
theorem Readies.spared (readies : Readies txn s after) (coherent : Coherent s) :
    Spared txn s after := by
  have coherent' := coherent.readies readies
  refine ⟨readies.catalog_eq, fun page frame now before here => ?_, fun page frame cached dirty => ?_,
    readies.journal_eq, fun path logs => readies.read_other fun table file listed same => ?_,
    readies.widens.others, readies.widens.mine⟩
  · cases writer : frame.page.dirtier with
    | some other =>
      obtain rfl : frame = now :=
        Option.some.inj (((readies.dirty_iff writer).2 before).symm.trans here)
      rfl
    | none =>
      cases writer' : now.page.dirtier with
      | some other =>
        obtain rfl : now = frame :=
          Option.some.inj (((readies.dirty_iff writer').1 here).symm.trans before)
        rfl
      | none =>
        -- Both are what is stored, and that has not changed.
        have stored := readies.stores coherent.catalog
          ((coherent.faithful page frame before).stores writer)
        exact stored.unique ((coherent'.faithful page now here).stores writer')
  · obtain ⟨writer, writes⟩ := Option.isSome_iff_exists.1 dirty
    exact (readies.dirty_iff writes).2 cached
  · exact coherent.apart table file listed (same ▸ logs)

/-- A file that may be appended to is that of a table. -/
def ListsFile (s : Store) (grows? : Option HeapFile) : Prop :=
  ∀ file, grows? = some file → s.catalog.file file.table = .ok file

theorem Tries.readies (tries : Tries grows? txn s after) (coherent : Coherent s)
    (listed : s.ListsFile grows?) : Readies txn s after := by
  cases tries with
  | fetches fetches => exact .fetches fetches
  | appends may before held writes rest =>
    have known := listed _ may
    rw [← before.catalog] at known
    exact .of_writes before (coherent.turnover before.toTurnover).catalog known writes held rest

theorem Tries.grown (tries : Tries grows? txn s after) (whole : s.Whole)
    (listed : s.ListsFile grows?) : Grown grows? s after := by
  cases tries with
  | fetches fetches => exact .inl fetches.disk
  | @appends file locked _ disk may before held writes rest =>
    refine .inr ⟨file, may, fun path => ?_⟩
    rw [rest.disk]
    show disk.read path = _
    split
    · next here =>
      have appended := writes.read_next (by rw [before.disk]; exact whole _ _ (listed _ may))
      rw [here, appended, before.disk]
    · next apart => rw [writes.bytes_other apart, before.disk]

end Store

open Store

namespace System

variable {start sys : System} {txn : TxnId} {after : Store}

/-! ## Failures touch no page -/

/-- What an insertion or a deletion leaves that stops, given the file that it may append to.  It came
to no change; the files are as they were, but for a page of zeros; if it waits they are as they
were; and it was not for want of room in a page that it appended. -/
structure Leaves (grows? : Option HeapFile) (txn : TxnId) (s : Store) (stop : Stop)
    (after : Store) : Prop where
  spared : Spared txn s after
  grown : Grown grows? s after
  waits : stop = .waiting → after.disk = s.disk
  roomy : ∀ page, stop ≠ .failed (.freshPageFull page)

theorem leaves_of_stopped {s : Store} {stop : Stop} {grows? : Option HeapFile}
    (coherent : s.Coherent) (whole : s.Whole) (listed : s.ListsFile grows?)
    (stopped : Stopped grows? txn s stop after) : Leaves grows? txn s stop after where
  spared := (stopped.tries.readies coherent listed).spared coherent
  grown := stopped.tries.grown whole listed
  waits waits := (stopped.waits waits).disk
  roomy := stopped.roomy

/-- Insertions and deletions that fail or must wait have come to no change of a page.  An insertion
that fails may have left its table's file longer by one page of zeros; no appended page is ever full.
What was changed is handed back to the cache, which does not fail.  The files of the tables consist
of whole pages to begin with.  All this holds of calls that others interrupt as of those that nobody
does. -/
theorem failed_changes_touch_no_page (fresh : start.Fresh) (whole : start.store.Whole)
    (becomes : Becomes start sys) (txn : TxnId) :
    (∀ table row stop after, Store.insert txn table row sys.store = .error stop after →
      Leaves (sys.store.catalog.file table).toOption txn sys.store stop after) ∧
    (∀ row stop after, Store.delete txn row sys.store = .error stop after →
      Leaves none txn sys.store stop after) ∧
    (∀ file row numbers, sys.calls.get? txn = some (.insert file row numbers) →
      (∀ stop after,
        (Call.insert file row numbers).advance txn sys.store = .error stop after →
          Leaves (some file) txn sys.store stop after) ∧
      ∀ next after,
        (Call.insert file row numbers).advance txn sys.store = .ok (.inr next) after →
          Spared txn sys.store after ∧ after.disk = sys.store.disk) ∧
    (∀ file record, sys.calls.get? txn = some (.delete file record) →
      ∀ stop after, (Call.delete file record).advance txn sys.store = .error stop after →
        Leaves none txn sys.store stop after) ∧
    ∀ file row refs after, sys.store.catalog.file file.table = .ok file →
      insertInto file txn row sys.store = .ok refs after ∨
        deleteFrom file txn row sys.store = .ok refs after →
      applyRefs refs after = .ok () after := by
  have steady := (becomes.steady fresh).1
  have coherent := steady.coherent
  have leaves {grows? : Option HeapFile} {stop : Stop} {after : Store}
      (listed : sys.store.ListsFile grows?) (stopped : Stopped grows? txn sys.store stop after) :=
    leaves_of_stopped coherent (becomes.whole fresh whole) listed stopped
  refine ⟨fun table row stop after fails => leaves (fun file found => ?_)
      (insert_stops coherent txn table row stop after fails),
    fun row stop after fails => leaves nofun (delete_stops coherent txn row stop after fails),
    fun file row numbers halted => ?_, fun file record halted stop after fails => ?_,
    fun file row refs after listed changes => ?_⟩
  · cases listed : sys.store.catalog.file table with
    | error e =>
      rw [listed] at found
      cases found
    | ok other =>
      rw [listed] at found
      cases found
      rw [(coherent.catalog _ _ listed).1, listed]
  · have listed := steady.registered txn _ halted
    obtain ⟨stops, goesOn⟩ := advance_insert coherent listed txn row numbers
    refine ⟨fun stop after fails => leaves ?_ (stops stop after fails), fun next after halts => ?_⟩
    · intro other same
      cases same
      exact listed
    · have fetches := goesOn next after halts
      exact ⟨(Readies.fetches fetches).spared coherent, fetches.disk⟩
  · have listed := steady.registered txn _ halted
    exact leaves nofun (advance_delete coherent listed txn stop after fails)
  · rcases changes with inserts | deletes
    · exact (insertInto_hands coherent listed txn row).of_ok inserts
    · exact (deleteFrom_hands coherent listed txn row).of_ok deletes

theorem narrow_whole : narrow.store.Whole := by
  intro table file listed
  exact Nat.dvd_zero _

/-- The statement above where a page was appended, and the cache has no place for it. -/
theorem failed_changes_touch_no_page_of_append_without_place :
    let sys := narrow.acts [.begin, .demand 0 (.insert smallFile.table ⟨[.int 7], none⟩),
      .advance 0, .commit 0, .begin]
    ∃ after, Store.insert 1 smallFile.table ⟨[.int 8], none⟩ sys.store =
        .error (.failed (.cacheExhausted 1)) after ∧
      Leaves (some smallFile) 1 sys.store (.failed (.cacheExhausted 1)) after ∧
      after.disk.read smallFile.path = sys.store.disk.read smallFile.path ++ Bytes.zeros 8 := by
  intro sys
  have becomes : Becomes narrow sys := (run_acts narrow fun _ _ _ => trivial).becomes
  obtain ⟨after, fails⟩ : ∃ after, Store.insert 1 smallFile.table ⟨[.int 8], none⟩ sys.store =
      .error (.failed (.cacheExhausted 1)) after := Op.exists_of_answer_error (by decide +kernel)
  have listed : sys.store.catalog.file smallFile.table = .ok smallFile := by decide +kernel
  have leaves := (failed_changes_touch_no_page narrow_fresh narrow_whole becomes 1).1
    smallFile.table ⟨[.int 8], none⟩ _ after fails
  have grows : (Op.final (Store.insert 1 smallFile.table ⟨[.int 8], none⟩ sys.store)).disk.read
      smallFile.path = sys.store.disk.read smallFile.path ++ Bytes.zeros 8 := by decide +kernel
  rw [fails] at grows
  rw [listed] at leaves
  exact ⟨after, fails, leaves, grows⟩

end System

end PageStore
