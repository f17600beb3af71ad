import PageStore.Proofs.Answers
import PageStore.Proofs.Schedule.Ledger

/-!
# What the pages of a table show

A page shows its cached bytes, or what is stored of it if it is not cached (`Store.Shows`).  Pages
that come and go, are flushed, or are dropped while they are clean show what they showed; a page
that a transaction holds does so too when another is aborted (`Shows.abort`).

`Reads` puts together the rows of the first pages of a table, as a scan comes by them.  Rows of more
pages come after those of fewer (`Reads.splits`).  Pages that hold no rows, in the cache or beneath
it (`Vacant`), add none.
-/

namespace PageStore

/-! ## Rows of a page -/

namespace Page

variable {page after : Page} {schema : Schema} {rows : List Row}

/-- The rows of a page are a matter of its bytes. -/
theorem rows_of_bytes (id : after.id = page.id) (bytes : after.bytes = page.bytes)
    (schema : Schema) : after.rows schema = page.rows schema := by
  have slots : after.slots schema = page.slots schema := by rw [slots, slots, bytes]
  have same : after.storedRow schema = page.storedRow schema := by
    funext slot
    unfold storedRow start
    rw [id, bytes, slots]
  unfold rows usedSlots
  rw [same, slots, bytes]

theorem record_of_storedRow {slot : Nat} {row : Row} (stored : page.storedRow schema slot = .ok row) :
    row.record = some ⟨page.id, slot⟩ := by
  unfold storedRow at stored
  split at stored
  · cases stored
    rfl
  · cases stored

/-- The rows of a page are in slots of that page. -/
theorem record_of_mem_rows (ok : page.rows schema = .ok rows) {row : Row} (mem : row ∈ rows) :
    ∃ slot, row.record = some ⟨page.id, slot⟩ := by
  unfold Page.rows at ok
  obtain ⟨slot, -, stored⟩ := Answer.exists_of_mem (Answer.forall₂_of_mapM ok) mem
  exact ⟨slot, record_of_storedRow stored⟩

/-- A page without used slots has no rows. -/
theorem rows_of_vacant (vacant : ∀ slot, page.row? schema slot = .ok none) :
    page.rows schema = .ok [] := by
  have none : page.usedSlots schema = [] := by
    refine List.filter_eq_nil_iff.2 fun slot inside used => ?_
    have lt : slot < page.slots schema := List.mem_range.1 inside
    have full : page.isUsed schema slot = true := by simp [isUsed, lt, used]
    have empty := vacant slot
    rw [row?, if_pos full] at empty
    cases row : page.storedRow schema slot <;> simp [row, Except.map] at empty
  rw [Page.rows, none]
  rfl

end Page

namespace Store

variable {s after flushed : Store} {txn other : TxnId} {page : PageId} {bytes : Bytes}
  {file : HeapFile} {number more : Nat} {found rows : List Row} {pages : List PageId}

/-! ## What a page shows -/

/-- The bytes that a page shows: those in the cache, or else those that are stored. -/
inductive Shows (s : Store) (page : PageId) : Bytes → Prop
  | cached {frame : Frame} (cached : s.cache.get? page = some frame) :
      Shows s page frame.page.bytes
  | stored {stored : Page} (missing : s.cache.get? page = none) (stores : s.Stores page stored) :
      Shows s page stored.bytes

theorem Stores.unique {first second : Page} (stores : s.Stores page first)
    (same : s.Stores page second) : second = first := by
  obtain ⟨file, listed, read⟩ := stores
  exact Except.ok.inj ((same.read listed).symm.trans read)

theorem Shows.unique {first second : Bytes} (shows : s.Shows page first)
    (same : s.Shows page second) : first = second := by
  cases shows with
  | cached cached =>
    cases same with
    | cached cached' =>
      rw [cached] at cached'
      cases cached'
      rfl
    | stored missing stores =>
      rw [cached] at missing
      cases missing
  | stored missing stores =>
    cases same with
    | cached cached =>
      rw [cached] at missing
      cases missing
    | stored missing' stores' => rw [stores'.unique stores]

/-- A page that shows anything is in its file. -/
theorem Shows.stores (shows : s.Shows page bytes) (coherent : Coherent s) :
    ∃ stored, s.Stores page stored := by
  cases shows with
  | cached cached => exact ⟨_, (coherent.faithful page _ cached).before⟩
  | stored missing stores => exact ⟨_, stores⟩

theorem Shows.congr (shows : s.Shows page bytes)
    (cache : after.cache.get? page = s.cache.get? page)
    (stores : ∀ stored, s.Stores page stored → after.Stores page stored) :
    after.Shows page bytes := by
  cases shows with
  | cached cached => exact .cached (by rw [cache, cached])
  | stored missing here => exact .stored (by rw [cache, missing]) (stores _ here)

/-- A page shows what is stored of it unless it is dirty. -/
theorem shows_of_clean (coherent : Coherent s) (stores : s.Stores page (.ofStored page bytes))
    (clean : ∀ frame, s.cache.get? page = some frame → frame.page.dirtier = none) :
    s.Shows page bytes := by
  cases cached : s.cache.get? page with
  | none => exact .stored cached stores
  | some frame =>
    have faithful := coherent.faithful page frame cached
    have same : Page.ofStored page frame.page.before = .ofStored page bytes :=
      stores.unique faithful.before
    have bytes : frame.page.bytes = bytes := by
      rw [faithful.clean (clean frame cached)]
      exact congrArg Page.bytes same
    exact bytes ▸ .cached cached

/-- Where a page is stored as it was and its writes stay as they were, it shows what it showed. -/
theorem Shows.of_dirty_iff (shows : s.Shows page bytes) (coherent : Coherent s)
    (coherent' : Coherent after)
    (stores : ∀ stored, s.Stores page stored → after.Stores page stored)
    (dirty : ∀ frame writer, frame.page.dirtier = some writer →
      (after.cache.get? page = some frame ↔ s.cache.get? page = some frame)) :
    after.Shows page bytes := by
  have clean (stored : s.Stores page (.ofStored page bytes))
      (before : ∀ frame, s.cache.get? page = some frame → frame.page.dirtier = none) :
      after.Shows page bytes := by
    refine shows_of_clean coherent' (stores _ stored) fun frame now => ?_
    cases writes : frame.page.dirtier with
    | none => rfl
    | some writer =>
      rw [before frame ((dirty frame writer writes).1 now)] at writes
      cases writes
  cases shows with
  | @cached frame cached =>
    cases writes : frame.page.dirtier with
    | some writer => exact .cached ((dirty frame writer writes).2 cached)
    | none =>
      have faithful := coherent.faithful page frame cached
      refine clean ?_ fun other here => ?_
      · rw [faithful.clean writes]
        exact faithful.before
      · rw [cached] at here
        cases here
        exact writes
  | @stored stored missing here =>
    refine clean ?_ fun frame cached => ?_
    · rw [← here.eq_ofStored]
      exact here
    · rw [missing] at cached
      cases cached

theorem Readies.stores (readies : Readies txn s after) (sound : s.catalog.Sound) {stored : Page}
    (stores : s.Stores page stored) : after.Stores page stored := by
  cases readies with
  | fetches fetches => exact fetches.toTurnover.stores.2 stores
  | appends before appends rest =>
    have sound : Catalog.Sound _ := before.catalog ▸ sound
    exact rest.toTurnover.stores.2 (appends.stores sound (before.toTurnover.stores.2 stores))

theorem Shows.readies (shows : s.Shows page bytes) (coherent : Coherent s)
    (readies : Readies txn s after) : after.Shows page bytes :=
  shows.of_dirty_iff coherent (coherent.readies readies)
    (fun _ => readies.stores coherent.catalog) fun _ _ => readies.dirty_iff

/-- A flush stores what the page shows. -/
theorem Shows.persists (shows : s.Shows page bytes) (persists : Persists pages s after) :
    after.Shows page bytes := by
  cases shows with
  | @cached frame cached =>
    have now := persists.cached page
    rw [cached, Option.map_some] at now
    have shows := Shows.cached now
    split at shows <;> exact shows
  | stored missing stores =>
    refine .stored ?_ ((persists.others page _ (.inr missing)).2 stores)
    rw [persists.cached, missing, Option.map_none]

/-- A page that a transaction holds keeps its bytes when another is aborted. -/
theorem Shows.abort (shows : s.Shows page bytes) (guarded : Guarded s)
    (held : (s.locks.mode? txn page).isSome) (ne : other ≠ txn) :
    (s.abort other).Shows page bytes := by
  have same := s.abort_eq other
  refine shows.congr ?_ fun stored stores => ?_
  · rw [get?_abort]
    cases cached : s.cache.get? page with
    | none => rfl
    | some frame =>
      have apart : frame.page.dirtier ≠ some other := by
        intro writes
        have exclusive := guarded.exclusive page frame other cached writes
        exact ne ((guarded.locks.exclusive page).eq_of_mode? exclusive held).symm
      simp [apart]
  · rw [same]
    exact stores

/-- A page that is clean when it leaves the cache shows what it showed. -/
theorem Shows.dropPage {place : PageId} (shows : s.Shows page bytes) (coherent : Coherent s)
    (clean : ∀ frame, s.cache.get? place = some frame → frame.page.dirtier = none) :
    (s.dropPage place).Shows page bytes := by
  have same := s.dropPage_eq place
  refine shows.of_dirty_iff coherent (coherent.dropPage place) (fun stored stores => ?_)
    fun frame writer writes => ?_
  · rw [same]
    exact stores
  · exact get?_dropPage_iff_of_dirty clean writes

/-! ## What a scan reads -/

/-- The rows of the pages of a table whose numbers are below some number, in their order. -/
inductive Reads (s : Store) (file : HeapFile) : Nat → List Row → Prop
  | nil : Reads s file 0 []
  | snoc {number : Nat} {found rows : List Row} {bytes : Bytes} (before : Reads s file number found)
      (shows : s.Shows ⟨file.table, number⟩ bytes)
      (read : (Page.ofStored ⟨file.table, number⟩ bytes).rows file.schema = .ok rows) :
      Reads s file (number + 1) (found ++ rows)

/-- What is read last are the rows of the last page. -/
theorem Reads.last (reads : s.Reads file (number + 1) found) :
    ∃ earlier rows bytes, s.Reads file number earlier ∧ s.Shows ⟨file.table, number⟩ bytes ∧
      (Page.ofStored ⟨file.table, number⟩ bytes).rows file.schema = .ok rows ∧
      found = earlier ++ rows := by
  cases reads with
  | snoc before shows read => exact ⟨_, _, _, before, shows, read, rfl⟩

/-- What is read of pages is a matter of what they show. -/
theorem Reads.congr (reads : s.Reads file number found)
    (shows : ∀ n bytes, n < number → s.Shows ⟨file.table, n⟩ bytes →
      after.Shows ⟨file.table, n⟩ bytes) : after.Reads file number found := by
  induction reads with
  | nil => exact .nil
  | @snoc number found rows bytes before here read ih =>
    refine .snoc (ih fun n bytes lt => shows n bytes (Nat.lt_succ_of_lt lt)) ?_ read
    exact shows number bytes (Nat.lt_succ_self number) here

theorem Reads.unique (reads : s.Reads file number found) (same : s.Reads file number rows) :
    found = rows := by
  induction reads generalizing rows with
  | nil =>
    cases same
    rfl
  | snoc before shows read ih =>
    cases same with
    | snoc before' shows' read' =>
      rw [shows'.unique shows, read] at read'
      rw [ih before', Except.ok.inj read']

/-- The pages that are read are in the file. -/
theorem Reads.le_pageCount (reads : s.Reads file number found) (coherent : Coherent s)
    (listed : s.catalog.file file.table = .ok file) : number ≤ file.pageCount s.disk := by
  cases reads with
  | nil => exact Nat.zero_le _
  | snoc before shows read =>
    obtain ⟨stored, stores⟩ := shows.stores coherent
    exact stores.lt_pageCount coherent.catalog listed

/-- Rows that lie on pages of a table from some number on. -/
def LieFrom (file : HeapFile) (number : Nat) (rows : List Row) : Prop :=
  ∀ row ∈ rows, ∃ record, row.record = some record ∧ record.page.table = file.table ∧
    number ≤ record.page.number

/-- The rows of more pages are those of fewer, and then rows that lie on the others. -/
theorem Reads.splits (reads : s.Reads file (number + more) found) :
    ∃ before extra, s.Reads file number before ∧ found = before ++ extra ∧
      LieFrom file number extra := by
  induction more generalizing found with
  | zero => exact ⟨found, [], reads, (List.append_nil _).symm, nofun⟩
  | succ more ih =>
    replace reads : s.Reads file (number + more + 1) found := reads
    obtain ⟨earlier, rows, bytes, others, shows, read, rfl⟩ := reads.last
    obtain ⟨before, extra, fewer, rfl, lie⟩ := ih others
    refine ⟨before, extra ++ rows, fewer, List.append_assoc .., fun row mem => ?_⟩
    rcases List.mem_append.1 mem with old | new
    · exact lie row old
    · obtain ⟨slot, record⟩ := Page.record_of_mem_rows read new
      exact ⟨_, record, rfl, Nat.le_add_right number more⟩

/-! ## Pages without rows -/

/-- The pages of a table from some number on hold no rows, neither in the cache nor in the file. -/
structure Vacant (s : Store) (file : HeapFile) (number : Nat) : Prop where
  cached : ∀ page frame slot, page.table = file.table → number ≤ page.number →
    s.cache.get? page = some frame → frame.page.row? file.schema slot = .ok none
  stored : ∀ page stored slot, page.table = file.table → number ≤ page.number →
    s.Stores page stored → stored.row? file.schema slot = .ok none

/-- Pages without rows add nothing to what is read. -/
theorem Reads.of_vacant (reads : s.Reads file (number + more) found)
    (coherent : Coherent s) (vacant : s.Vacant file number) : s.Reads file number found := by
  induction more generalizing found with
  | zero => exact reads
  | succ more ih =>
    replace reads : s.Reads file (number + more + 1) found := reads
    obtain ⟨earlier, rows, bytes, others, shows, read, rfl⟩ := reads.last
    have beyond : number ≤ number + more := Nat.le_add_right number more
    have empty : (Page.ofStored ⟨file.table, number + more⟩ bytes).rows file.schema = .ok [] := by
      refine Page.rows_of_vacant fun slot => ?_
      cases shows with
      | @cached frame cached =>
        have id : (Page.ofStored ⟨file.table, number + more⟩ frame.page.bytes).id = frame.page.id :=
          (coherent.faithful _ frame cached).id.symm
        rw [Page.row?_of_bytes id rfl, vacant.cached _ frame slot rfl beyond cached]
      | @stored stored missing stores =>
        have id : (Page.ofStored ⟨file.table, number + more⟩ stored.bytes).id = stored.id :=
          stores.id_eq.symm
        rw [Page.row?_of_bytes id rfl, vacant.stored _ stored slot rfl beyond stores]
    rw [read] at empty
    cases empty
    rw [List.append_nil]
    exact ih others

/-- There are no rows behind the end of a file. -/
theorem vacant_of_pageCount (coherent : Coherent s)
    (listed : s.catalog.file file.table = .ok file) : s.Vacant file (file.pageCount s.disk) := by
  have missing {page : PageId} {stored : Page} (table : page.table = file.table)
      (beyond : file.pageCount s.disk ≤ page.number) : ¬ s.Stores page stored := by
    intro stores
    have inside : page.number < file.pageCount s.disk :=
      stores.lt_pageCount coherent.catalog (by rw [table, listed])
    omega
  exact ⟨fun page frame _ table beyond cached =>
    absurd (coherent.faithful page frame cached).before (missing table beyond),
    fun page stored _ table beyond stores => absurd stores (missing table beyond)⟩

theorem Vacant.readies (vacant : s.Vacant file number) (sound : s.catalog.Sound)
    (readies : Readies txn s after) : after.Vacant file number := by
  have turns {s after : Store} (vacant : s.Vacant file number) (turnover : Turnover s after) :
      after.Vacant file number := by
    refine ⟨fun page frame slot table beyond cached => ?_,
      fun page stored slot table beyond stores =>
        vacant.stored page stored slot table beyond (turnover.stores.1 stores)⟩
    rcases turnover.read page frame cached with before | stores
    · exact vacant.cached page frame slot table beyond before
    · exact vacant.stored page _ slot table beyond stores
  cases readies with
  | fetches fetches => exact turns vacant fetches.toTurnover
  | @appends locked grown _ before appends rest =>
    refine turns ?_ rest.toTurnover
    have vacant := turns vacant before.toTurnover
    have sound : locked.catalog.Sound := before.catalog ▸ sound
    rcases appends with @⟨grows, disk, listed, writes⟩
    refine ⟨vacant.cached, fun page stored slot table beyond stores => ?_⟩
    rcases eq_or_ne page ⟨grows.table, grows.pageCount locked.disk⟩ with rfl | ne
    · have blank : Stores { locked with disk := disk } ⟨grows.table, grows.pageCount locked.disk⟩
          (.blank _ grows.pageSize) := ⟨grows, listed, writes.read_self⟩
      rw [blank.unique stores, Page.row?_blank]
    · have catalog : Store.catalog { locked with disk := disk } = locked.catalog := rfl
      exact vacant.stored page stored slot table beyond
        ((stores_of_writes sound listed catalog writes (Nat.le_refl _) ne).1 stores)

theorem Vacant.persists (vacant : s.Vacant file number) (coherent : Coherent s)
    (persists : Persists pages s after) : after.Vacant file number := by
  refine ⟨fun page frame slot table beyond cached => ?_,
    fun page stored slot table beyond stores => ?_⟩
  · rw [persists.cached, Option.map_eq_some_iff] at cached
    rcases cached with ⟨old, before, same⟩
    have empty := vacant.cached page old slot table beyond before
    split at same
    · rw [← same, ← empty]
      exact Page.row?_of_bytes rfl rfl file.schema slot
    · exact same ▸ empty
  · by_cases flushed : page ∈ pages ∧ ∃ frame, s.cache.get? page = some frame
    · obtain ⟨mem, frame, cached⟩ := flushed
      have id : (Page.ofStored page frame.page.bytes).id = frame.page.id :=
        (coherent.faithful page frame cached).id.symm
      rw [(persists.written page frame mem cached).unique stores, Page.row?_of_bytes id rfl,
        vacant.cached page frame slot table beyond cached]
    · have apart : page ∉ pages ∨ s.cache.get? page = none := by
        rw [not_and_or, not_exists] at flushed
        exact flushed.imp_right Option.eq_none_iff_forall_ne_some.2
      have before := (persists.others page stored apart).1 stores
      exact vacant.stored page stored slot table beyond before

/-- Pages that leave the cache have no rows beneath them. -/
theorem Vacant.of_kept (vacant : s.Vacant file number) (disk : after.disk = s.disk)
    (catalog : after.catalog = s.catalog)
    (kept : ∀ page frame, after.cache.get? page = some frame → s.cache.get? page = some frame) :
    after.Vacant file number := by
  refine ⟨fun page frame slot table beyond cached =>
    vacant.cached page frame slot table beyond (kept page frame cached),
    fun page stored slot table beyond stores => vacant.stored page stored slot table beyond ?_⟩
  unfold Stores at stores ⊢
  rw [catalog, disk] at stores
  exact stores

theorem Vacant.rewrites {record : RecordId} {row : Option Row} (vacant : s.Vacant file number)
    (listed : s.catalog.file file.table = .ok file)
    (rewrites : Rewrites txn record row s after)
    (frees : record.page.table = file.table → row = none) : after.Vacant file number := by
  rcases rewrites with @⟨into, old, changed, listed', cached, id, exclusive, changes⟩
  refine ⟨fun page frame slot table beyond now => ?_, vacant.stored⟩
  rw [get?_withFrame changes id] at now
  split at now
  · next here =>
    subst here
    cases now
    have same : into = file := Except.ok.inj (listed'.symm.trans (table ▸ listed))
    subst same
    have shown : (changed.dirtiedBy txn).row? into.schema slot = changed.row? into.schema slot :=
      Page.row?_of_bytes rfl rfl into.schema slot
    rw [shown]
    rcases eq_or_ne slot record.slot with rfl | ne
    · rw [changes.changed, frees table]
    · rw [changes.others slot ne]
      exact vacant.cached record.page old slot table beyond cached
  · exact vacant.cached page frame slot table beyond now

end Store

end PageStore
