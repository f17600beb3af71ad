import PageStore.Proofs.Schedule.Handles
import PageStore.Proofs.Schedule.Settles

/-!
# The end of a commit

A commit that succeeds has stored what its transaction wrote, and that alone (`Store.Commits`): the
pages that were dirty with its writes are in their files, each after an entry that was secured in the
log, and every other byte, cached page and lock is what it was.

A commit that fails ends as an abort, but the pages that were flushed before the failure stay stored
(`Store.Backs`).  For each of them the log holds an entry that was secured before the page was
written and that gives what the page was before; and nothing of the transaction stays in memory but
what is also in the files.

Both hold of any system, whatever was done to it before (`System.Becomes`), whichever pages are
dirty, however the cache orders them, and wherever the log fails.
-/

namespace PageStore

/-! ## What an ended transaction leaves of the locks -/

namespace LockTable

variable {locks : LockTable}

/-- The locks once a transaction has ended: it holds nothing, and every other holds and asks for
what it did, but the requests for its pages are woken and nobody waits for it. -/
structure Ends (txn : TxnId) (locks after : LockTable) : Prop where
  free : ∀ page, after.mode? txn page = none
  none : after.heldBy txn = []
  modes : ∀ other page, other ≠ txn → after.mode? other page = locks.mode? other page
  held : ∀ other, other ≠ txn → after.heldBy other = locks.heldBy other
  requests : ∀ other, after.requests.get? other = (locks.requests.get? other).map fun request =>
    request.wokenIf (locks.holds txn request.page = true)
  waits : ∀ other, other ≠ txn → after.waits.get? other =
    (locks.waits.get? other).map fun wait => wait.withoutIf txn True

theorem Consistent.ends_releaseAll (consistent : Consistent locks) (txn : TxnId) :
    locks.Ends txn (locks.releaseAll txn) where
  free page := (consistent.mode?_releaseAll txn txn page).trans (if_pos rfl)
  none := (locks.heldBy_releaseAll txn txn).trans (if_pos rfl)
  modes other page ne := (consistent.mode?_releaseAll txn other page).trans (if_neg ne)
  held other ne := (locks.heldBy_releaseAll txn other).trans (if_neg ne)
  requests := consistent.requests_releaseAll txn
  waits _ ne := locks.waits_releaseAll_of_ne ne

end LockTable

namespace Store

variable {s after settled flushed : Store} {txn : TxnId} {page : PageId} {frame : Frame}
  {pages : List PageId} {file : HeapFile} {table : TableId}

/-! ## The bytes of pages in files -/

/-- What the file of a table holds in the place of a page. -/
def content (s : Store) (file : HeapFile) (number : Nat) : Bytes :=
  (s.disk.read file.path).slice (number * file.pageSize) file.pageSize

theorem Stores.content {stored : Page} (stores : s.Stores page stored)
    (listed : s.catalog.file page.table = .ok file) :
    s.content file page.number = stored.bytes := by
  rw [(HeapFile.read_eq_ok.1 (stores.read listed)).2.2]
  rfl

/-- What was not flushed is in its file as it was. -/
theorem Settles.content_other (settles : Settles pages s after) (sound : s.catalog.Sound)
    (listed : s.catalog.file table = .ok file) {number : Nat}
    (absent : (⟨file.table, number⟩ : PageId) ∉ pages) :
    after.content file number = s.content file number := by
  have positive := (sound _ _ listed).2.pageSize_pos
  refine List.ext_getElem? fun i => ?_
  unfold content
  rw [Bytes.getElem?_slice, Bytes.getElem?_slice]
  split
  · next inside =>
    have own : (number * file.pageSize + i) / file.pageSize = number := by
      rw [Nat.mul_comm, Nat.mul_add_div positive, Nat.div_eq_of_lt inside, Nat.add_zero]
    rw [settles.bytes table file listed, own, if_neg absent]
  · rfl

/-- What was flushed is in its file as it was in the cache. -/
theorem Settles.content_self (settles : Settles pages s after) (mem : page ∈ pages)
    (cached : s.cache.get? page = some frame) (listed : s.catalog.file page.table = .ok file) :
    after.content file page.number = frame.page.bytes :=
  (settles.persists.written page frame mem cached).content
    (by rw [settles.persists.catalog, listed])

theorem tale_of_dirty (cached : s.cache.get? page = some frame) (id : frame.page.id = page)
    (dirty : frame.page.dirtier = some txn) :
    s.tale page = [⟨txn, page, frame.page.before, frame.page.bytes⟩] := by
  simp [tale, cached?, cached, dirty, id]

/-- An entry was told of each page that was flushed. -/
theorem mem_of_tale {entries : List Entry} {entry : Entry}
    (told : entriesAbout page entries = [entry]) : entry ∈ entries :=
  List.mem_of_mem_filter (told ▸ List.mem_singleton_self entry)

/-- Letting go of locks after pages were settled ends the transaction. -/
theorem Settles.ends (settles : Settles pages s settled) (consistent : s.locks.Consistent)
    (txn : TxnId) : s.locks.Ends txn (settled.locks.releaseAll txn) := by
  rw [settles.persists.locks]
  exact consistent.ends_releaseAll txn

/-- What was not flushed is cached as it was. -/
theorem Settles.get?_other (settles : Settles pages s after) (absent : page ∉ pages) :
    after.cache.get? page = s.cache.get? page := by
  rw [settles.persists.cached]
  simp only [if_neg absent, Option.map_id']

/-! ## A commit that succeeds -/

/-- A store after a transaction has committed.  A page that was dirty with its writes is in its file
and is still cached, clean and with its bytes as those last stored. -/
structure Commits (txn : TxnId) (s after : Store) : Prop where
  catalog : after.catalog = s.catalog
  stored : ∀ page frame, s.cache.get? page = some frame → frame.page.dirtier = some txn →
    after.cache.get? page = some frame.persisted ∧
      ∃ file, s.catalog.file page.table = .ok file ∧ page.number < file.pageCount s.disk ∧
        after.content file page.number = frame.page.bytes
  told : ∃ more, s.journal.Gains more s.disk after.journal after.disk ∧
    (more ≠ [] → s.journal.Secures more s.disk after.journal after.disk) ∧
    (∀ page frame, s.cache.get? page = some frame → frame.page.dirtier = some txn →
      entriesAbout page more = [⟨txn, page, frame.page.before, frame.page.bytes⟩]) ∧
    ∀ page, page ∉ s.pagesDirtiedBy txn → entriesAbout page more = []
  sizes : ∀ table file, s.catalog.file table = .ok file →
    (after.disk.read file.path).length = (s.disk.read file.path).length
  bytes : ∀ table file, s.catalog.file table = .ok file → ∀ i,
    (⟨file.table, i / file.pageSize⟩ : PageId) ∉ s.pagesDirtiedBy txn →
      (after.disk.read file.path)[i]? = (s.disk.read file.path)[i]?
  others : ∀ page, page ∉ s.pagesDirtiedBy txn → after.cache.get? page = s.cache.get? page
  clean : ∀ page frame, after.cache.get? page = some frame → frame.page.dirtier ≠ some txn
  locks : s.locks.Ends txn after.locks

theorem Settles.commits (settles : Settles (s.pagesDirtiedBy txn) s settled)
    (coherent : s.Coherent) (consistent : s.locks.Consistent) :
    Commits txn s (settled.releaseAll txn) where
  catalog := settles.persists.catalog
  stored page frame cached dirty := by
    have mem := (s.mem_pagesDirtiedBy txn page).2 ⟨frame, cached, dirty⟩
    have faithful := coherent.faithful page frame cached
    obtain ⟨file, listed, -⟩ := faithful.before
    refine ⟨?_, file, listed, faithful.before.lt_pageCount coherent.catalog listed,
      settles.content_self mem cached listed⟩
    show settled.cache.get? page = _
    rw [settles.persists.cached, cached, Option.map_some, if_pos mem]
  told := by
    obtain ⟨more, gains, secures, told⟩ := settles.told
    refine ⟨more, gains, secures, fun page frame cached dirty => ?_, fun page absent => ?_⟩
    · rw [told, if_pos ((s.mem_pagesDirtiedBy txn page).2 ⟨frame, cached, dirty⟩)]
      exact tale_of_dirty cached (coherent.faithful page frame cached).id dirty
    · rw [told, if_neg absent]
  sizes := settles.sizes
  bytes table file listed i absent := (settles.bytes table file listed i).trans (if_neg absent)
  others _ := settles.get?_other
  clean page frame now dirty := by
    obtain ⟨absent, before⟩ := settles.persists.dirty now dirty
    exact absent ((s.mem_pagesDirtiedBy txn page).2 ⟨frame, before, dirty⟩)
  locks := settles.ends consistent txn

/-! ## A commit that fails -/

/-- A store after a commit of a transaction has failed.  What its tables' files hold of a page is
what they held before, or what the transaction wrote; and then an entry that gives what they held
before was secured in the log. -/
structure Backs (txn : TxnId) (s after : Store) : Prop where
  catalog : after.catalog = s.catalog
  clean : ∀ page frame, after.cache.get? page = some frame → frame.page.dirtier ≠ some txn
  told : ∃ more, (more ≠ [] → s.journal.Secures more s.disk after.journal after.disk) ∧
    ∀ table file, s.catalog.file table = .ok file → ∀ number,
      after.content file number = s.content file number ∨
        ∃ frame, s.cache.get? ⟨file.table, number⟩ = some frame ∧ frame.page.dirtier = some txn ∧
          after.content file number = frame.page.bytes ∧
          (⟨txn, ⟨file.table, number⟩, s.content file number, frame.page.bytes⟩ : Entry) ∈ more
  sizes : ∀ table file, s.catalog.file table = .ok file →
    (after.disk.read file.path).length = (s.disk.read file.path).length
  agree : ∀ page frame now, s.cache.get? page = some frame → frame.page.dirtier = some txn →
    after.cache.get? page = some now → now.page.dirtier = none ∧
      ∃ file, s.catalog.file page.table = .ok file ∧
        now.page.bytes = after.content file page.number
  others : ∀ page, page ∉ s.pagesDirtiedBy txn → after.cache.get? page = s.cache.get? page
  locks : s.locks.Ends txn after.locks

/-- Calls of the log and an abort leave the files of the tables as they were. -/
theorem Logs.read_abort (logs : Logs settled flushed) (coherent : settled.Coherent)
    (listed : settled.catalog.file table = .ok file) (txn : TxnId) :
    (flushed.abort txn).disk.read file.path = settled.disk.read file.path := by
  rw [abort_eq]
  exact logs.keeps.others file.path (coherent.apart table file listed)

/-- Once some pages were flushed a file holds of a page what it held before; or it holds what the
flush wrote, and an entry tells what it held before. -/
theorem Settles.content_cases {entries : List Entry} (settles : Settles pages s settled)
    (coherent : s.Coherent) (among : pages ⊆ s.pagesDirtiedBy txn)
    (told : ∀ page, entriesAbout page entries = if page ∈ pages then s.tale page else [])
    (listed : s.catalog.file table = .ok file) (number : Nat) :
    settled.content file number = s.content file number ∨
      ∃ frame, s.cache.get? ⟨file.table, number⟩ = some frame ∧ frame.page.dirtier = some txn ∧
        settled.content file number = frame.page.bytes ∧
        (⟨txn, ⟨file.table, number⟩, s.content file number, frame.page.bytes⟩ : Entry) ∈ entries := by
  obtain rfl : file.table = table := (coherent.catalog _ _ listed).1
  by_cases mem : (⟨file.table, number⟩ : PageId) ∈ pages
  · obtain ⟨frame, cached, dirty⟩ := (s.mem_pagesDirtiedBy txn _).1 (among mem)
    have faithful := coherent.faithful _ frame cached
    have before : s.content file number = frame.page.before := faithful.before.content listed
    have about := told ⟨file.table, number⟩
    rw [if_pos mem, tale_of_dirty cached faithful.id dirty, ← before] at about
    exact .inr ⟨frame, cached, dirty, settles.content_self mem cached listed, mem_of_tale about⟩
  · exact .inl (settles.content_other coherent.catalog listed mem)

/-- A page that was dirty with a transaction's writes and is cached after its abort was flushed. -/
theorem Settles.flushed_of_kept {now : Frame} (settles : Settles pages s settled)
    (cached : s.cache.get? page = some frame) (dirty : frame.page.dirtier = some txn)
    (kept : settled.cache.get? page = some now) (foreign : now.page.dirtier ≠ some txn) :
    page ∈ pages ∧ now = frame.persisted := by
  rw [settles.persists.cached, cached, Option.map_some, Option.some.injEq] at kept
  split at kept
  · next mem => exact ⟨mem, kept.symm⟩
  · exact absurd (kept ▸ dirty) foreign

/-- An abort leaves what the transaction has not dirtied. -/
theorem get?_abort_other (absent : page ∉ s.pagesDirtiedBy txn)
    (kept : flushed.cache.get? page = s.cache.get? page) :
    (flushed.abort txn).cache.get? page = s.cache.get? page := by
  rw [get?_abort, kept]
  cases cached : s.cache.get? page with
  | none => rfl
  | some frame =>
    have foreign : frame.page.dirtier ≠ some txn := fun dirty =>
      absent ((s.mem_pagesDirtiedBy txn page).2 ⟨frame, cached, dirty⟩)
    rw [Option.filter_some, if_pos (decide_eq_true foreign)]

theorem Falters.backs (falters : Falters (s.pagesDirtiedBy txn) s flushed) (coherent : s.Coherent)
    (consistent : s.locks.Consistent) : Backs txn s (flushed.abort txn) := by
  obtain ⟨done, among, settled, settles, logs, -⟩ := falters
  have ends := flushed.abort_eq txn
  have coherent' := coherent.persists settles.persists
  have cache : flushed.cache = settled.cache := logs.cache_eq
  have files {table : TableId} {file : HeapFile} (listed : s.catalog.file table = .ok file) :
      (flushed.abort txn).disk.read file.path = settled.disk.read file.path :=
    logs.read_abort coherent' (by rw [settles.persists.catalog, listed]) txn
  have contents {table : TableId} {file : HeapFile} (listed : s.catalog.file table = .ok file)
      (number : Nat) : (flushed.abort txn).content file number = settled.content file number := by
    unfold content
    rw [files listed]
  obtain ⟨more, -, secures, told⟩ := settles.told
  refine ⟨by rw [ends, logs.eq, settles.persists.catalog],
    fun page frame now => (get?_abort_eq_some.1 now).2,
    ⟨more, fun some => ?_, fun table file listed number => ?_⟩, fun table file listed => ?_,
    fun page frame now cached dirty here => ?_, fun page absent => ?_, ?_⟩
  · rw [ends]
    exact logs.secured (secures some)
  · rw [contents listed]
    exact settles.content_cases coherent among told listed number
  · rw [files listed]
    exact settles.sizes table file listed
  · obtain ⟨kept, foreign⟩ := get?_abort_eq_some.1 here
    obtain ⟨mem, rfl⟩ := settles.flushed_of_kept cached dirty (cache ▸ kept) foreign
    obtain ⟨file, listed, -⟩ := (coherent.faithful page frame cached).before
    refine ⟨rfl, file, listed, ?_⟩
    rw [contents listed]
    exact (settles.content_self mem cached listed).symm
  · refine get?_abort_other absent ?_
    rw [cache, settles.get?_other fun mem => absent (among mem)]
  · rw [ends]
    show s.locks.Ends txn (flushed.locks.releaseAll txn)
    rw [show flushed.locks = settled.locks by rw [logs.eq]]
    exact settles.ends consistent txn

end Store

open Store

namespace System

variable {start sys : System} {txn : TxnId} {after : Store} {stop : Stop}

/-- A commit that succeeds has stored the pages that were dirty with its transaction's writes, each
after an entry for it was forced in the log, and keeps them in the cache, clean; the transaction
holds and dirties nothing any more; and every other byte of every table, every other cached page and
every lock of the others is what it was. -/
theorem commit_is_durable_and_local (fresh : start.Fresh) (becomes : Becomes start sys)
    (commits : Store.commit txn sys.store = .ok () after) : Commits txn sys.store after := by
  obtain ⟨steady, tidy⟩ := becomes.steady fresh
  have ends := commit_ends (flushPages_settles steady.coherent txn)
  obtain ⟨settled, settles, rfl⟩ := ends.of_ok commits
  exact settles.commits steady.coherent tidy.consistent

/-- The statement above while another transaction has written a page and waits for one that the
commit stores. -/
theorem commit_is_durable_and_local_beside_waiting :
    let sys := paired.acts [.begin, .begin, .demand 0 (.insert smallFile.table ⟨[.int 7], none⟩),
      .advance 0, .demand 1 (.insert otherFile.table ⟨[.int 8], none⟩), .advance 1,
      .demand 1 (.fetch ⟨smallFile.table, 0⟩ .shared), .advance 1]
    sys.store.pagesDirtiedBy 0 = [⟨smallFile.table, 0⟩] ∧
      sys.store.pagesDirtiedBy 1 = [⟨otherFile.table, 0⟩] ∧
      sys.store.locks.isWaiting 1 = true ∧
      ∃ after, Store.commit 0 sys.store = .ok () after ∧ Commits 0 sys.store after := by
  intro sys
  have becomes : Becomes paired sys := (run_acts paired fun _ _ _ => trivial).becomes
  obtain ⟨after, commits⟩ : ∃ after, Store.commit 0 sys.store = .ok () after :=
    Op.exists_of_answer_ok (by decide +kernel)
  exact ⟨by decide +kernel, by decide +kernel, by decide +kernel, after, commits,
    commit_is_durable_and_local paired_fresh becomes commits⟩

/-- A commit that fails leaves nothing of its transaction in memory that is not in the files.  Each
page of each table is what it was; or it is what the transaction made of it, and an entry that gives
what it was is forced in the log.  The cached pages and the locks of the others are what they
were. -/
theorem failed_commit_is_recoverable (fresh : start.Fresh) (becomes : Becomes start sys)
    (fails : Store.commit txn sys.store = .error stop after) : Backs txn sys.store after := by
  obtain ⟨steady, tidy⟩ := becomes.steady fresh
  have ends := commit_ends (flushPages_settles steady.coherent txn)
  obtain ⟨flushed, falters, rfl⟩ := ends.of_error fails
  exact falters.backs steady.coherent tidy.consistent

/-- The statement above where the log cannot be forced for the second of two pages, and another
transaction waits for it. -/
theorem failed_commit_is_recoverable_between_pages :
    let start : System := { paired with
      store := { paired.store with
        capacity := 4
        journal := .memory (.failing (fun _ => false) fun n => n == 1) } }
    let sys := start.acts [.begin, .begin, .demand 0 (.insert smallFile.table ⟨[.int 7], none⟩),
      .advance 0, .demand 0 (.insert otherFile.table ⟨[.int 8], none⟩), .advance 0,
      .demand 1 (.fetch ⟨otherFile.table, 0⟩ .shared), .advance 1]
    sys.store.pagesDirtiedBy 0 = [⟨smallFile.table, 0⟩, ⟨otherFile.table, 0⟩] ∧
      sys.store.locks.isWaiting 1 = true ∧
      ∃ after, Store.commit 0 sys.store = .error (.failed .diskFull) after ∧
        Backs 0 sys.store after := by
  intro start sys
  have fresh : start.Fresh := { paired_fresh with apart := fun _ _ _ => nofun }
  have becomes : Becomes start sys := (run_acts start fun _ _ _ => trivial).becomes
  obtain ⟨after, fails⟩ : ∃ after, Store.commit 0 sys.store = .error (.failed .diskFull) after :=
    Op.exists_of_answer_error (by decide +kernel)
  exact ⟨by decide +kernel, by decide +kernel, after, fails,
    failed_commit_is_recoverable fresh becomes fails⟩

end System

end PageStore
