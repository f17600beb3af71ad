import PageStore.Proofs.Journal.Forced
import PageStore.Proofs.Page.Cells
import PageStore.Proofs.Store.Cache

/-!
# The cache agrees with the files

A cached page is faithful if the bytes that it gives as last stored are those in the file of its
table, and if it differs from them only while it is dirty.  A store is coherent if every cached page
is faithful, its catalog is sound, and its log is in no table's file.

Whatever changes a coherent store leaves it coherent if it keeps the catalog and the place of the
log and leaves every cached page faithful (`Coherent.of_faithful`).  This module applies that to the
three ways in which an operation prepares and makes a change of rows: fetching pages, appending a
page of zeros, and rewriting one slot of a cached page.  A page that is appended was not in the file
before, so it cannot be cached (`Appends.not_cached`).
-/

namespace PageStore.Store

variable {s after later : Store} {txn other : TxnId} {page place : PageId} {frame : Frame}
  {stored : Page} {file : HeapFile} {record : RecordId} {row : Option Row}

/-! ## Stored pages -/

theorem Stores.read (stores : s.Stores page stored)
    (listed : s.catalog.file page.table = .ok file) : file.read s.disk page = .ok stored := by
  rcases stores with ⟨file', listed', ok⟩
  rw [listed] at listed'
  cases listed'
  exact ok

theorem Stores.lt_pageCount (stores : s.Stores page stored) (sound : s.catalog.Sound)
    (listed : s.catalog.file page.table = .ok file) : page.number < file.pageCount s.disk := by
  obtain ⟨own, inside, -⟩ := HeapFile.read_eq_ok.1 (stores.read listed)
  rw [HeapFile.lt_pageCount_iff (sound _ _ listed).2.pageSize_pos]
  exact inside

/-- What is stored is a matter of the bytes of the table files. -/
theorem stores_congr (catalog : after.catalog = s.catalog)
    (files : ∀ table file, s.catalog.file table = .ok file →
      after.disk.read file.path = s.disk.read file.path) :
    after.Stores page stored ↔ s.Stores page stored := by
  unfold Stores
  rw [catalog]
  refine exists_congr fun file => and_congr_right ?_
  intro listed
  rw [HeapFile.read_congr (files page.table file listed)]

/-- A page write changes what is stored of its page alone. -/
theorem stores_of_writes {bytes : Bytes} (sound : s.catalog.Sound)
    (listed : s.catalog.file page.table = .ok file) (catalog : after.catalog = s.catalog)
    (writes : file.Writes page bytes s.disk after.disk)
    (next : page.number ≤ file.pageCount s.disk) (ne : place ≠ page) :
    after.Stores place stored ↔ s.Stores place stored := by
  unfold Stores
  rw [catalog]
  refine exists_congr fun held => and_congr_right ?_
  intro listed'
  by_cases same : place.table = page.table
  · rw [same, listed] at listed'
    cases listed'
    exact writes.read_other (sound _ _ listed).2.pageSize_pos next ne
  · have own := (sound _ _ listed).1
    have own' := (sound _ _ listed').1
    rw [← own] at listed
    rw [← own'] at listed'
    have apart : held.path ≠ file.path :=
      sound.path_ne listed listed' (by rw [own, own']; exact same)
    rw [HeapFile.read_congr (writes.bytes_other apart)]

/-! ## Faithful pages -/

/-- A cached page that agrees with the file of its table. -/
structure Faithful (s : Store) (page : PageId) (cached : Page) : Prop where
  id : cached.id = page
  before : s.Stores page (.ofStored page cached.before)
  length : cached.bytes.length = cached.before.length
  clean : cached.dirtier = none → cached.bytes = cached.before

theorem Faithful.congr {cached : Page} (faithful : s.Faithful page cached)
    (stores : ∀ stored, s.Stores page stored → after.Stores page stored) :
    after.Faithful page cached :=
  ⟨faithful.id, stores _ faithful.before, faithful.length, faithful.clean⟩

theorem Stores.faithful (stores : s.Stores page stored) : s.Faithful page stored := by
  have same := stores.eq_ofStored
  have before : stored.before = stored.bytes := by rw [same]; rfl
  refine ⟨stores.id_eq, ?_, by rw [before], fun _ => before.symm⟩
  rw [before, ← same]
  exact stores

/-- A clean page that agrees with its file is what is stored. -/
theorem Faithful.stores {cached : Page} (faithful : s.Faithful page cached)
    (clean : cached.dirtier = none) : s.Stores page cached := by
  have bytes := faithful.clean clean
  rcases cached with ⟨id, bytes', dirtier, before⟩
  obtain rfl : id = page := faithful.id
  obtain rfl : dirtier = none := clean
  obtain rfl : bytes' = before := bytes
  exact faithful.before

/-- A store whose cache agrees with its files. -/
structure Coherent (s : Store) : Prop where
  catalog : s.catalog.Sound
  apart : s.journal.Apart s.catalog
  faithful : ∀ page frame, s.cache.get? page = some frame → s.Faithful page frame.page

theorem Coherent.of_faithful (coherent : Coherent s) (catalog : after.catalog = s.catalog)
    (path : after.journal.path? = s.journal.path?)
    (faithful : ∀ page frame, after.cache.get? page = some frame → after.Faithful page frame.page) :
    Coherent after where
  catalog := catalog ▸ coherent.catalog
  apart table file listed := by
    rw [path]
    rw [catalog] at listed
    exact coherent.apart table file listed
  faithful := faithful

/-! ## Fetching -/

theorem Coherent.turnover (coherent : Coherent s) (turnover : Turnover s after) :
    Coherent after := by
  refine coherent.of_faithful turnover.catalog (by rw [turnover.journal]) ?_
  intro page frame cached
  rcases turnover.read page frame cached with same | stores
  · exact (coherent.faithful page frame same).congr fun _ => turnover.stores.2
  · exact (turnover.stores.2 stores).faithful

/-! ## Appending -/

/-- A page of zeros appended to the file of a table. -/
inductive Appends (s : Store) : Store → Prop
  | intro {file : HeapFile} {disk : Disk} (listed : s.catalog.file file.table = .ok file)
      (writes : file.Writes ⟨file.table, file.pageCount s.disk⟩ (Bytes.zeros file.pageSize)
        s.disk disk) :
      Appends s { s with disk := disk }

theorem Appends.stores (appends : Appends s after) (sound : s.catalog.Sound)
    (stores : s.Stores place stored) : after.Stores place stored := by
  rcases appends with ⟨listed, writes⟩
  refine Iff.mpr (stores_of_writes sound listed rfl writes (Nat.le_refl _) ?_) stores
  rintro rfl
  exact Nat.lt_irrefl _ (stores.lt_pageCount sound listed)

theorem Coherent.appends (coherent : Coherent s) (appends : Appends s after) : Coherent after := by
  have stores : ∀ place stored, s.Stores place stored → after.Stores place stored :=
    fun _ _ => appends.stores coherent.catalog
  rcases appends with ⟨listed, writes⟩
  exact coherent.of_faithful rfl rfl fun page frame cached =>
    (coherent.faithful page frame cached).congr (stores page)

/-! ## Rewriting -/

/-- The store with a frame in the cache, in place of any other of its page. -/
def withFrame (s : Store) (frame : Frame) : Store :=
  { s with cache := s.cache.put frame.page.id frame }

/-- To set a frame touches the cache and the shelf alone. -/
theorem setFrame_eq (s : Store) (frame : Frame) :
    s.setFrame frame =
      { s with cache := (s.setFrame frame).cache, shelf := (s.setFrame frame).shelf } := by
  unfold setFrame
  split <;> rfl

theorem setFrame_of_cached {old : Frame} (cached : s.cache.get? frame.page.id = some old)
    (serial : old.serial = frame.serial) : s.setFrame frame = s.withFrame frame := by
  have here : (s.cache.get? frame.page.id).filter (fun old => old.serial = frame.serial) =
      some old := by
    rw [cached, Option.filter_some, if_pos (decide_eq_true serial)]
  rw [setFrame, here, withFrame]

/-- One record of a cached page changed by a transaction that holds the page exclusively. -/
inductive Rewrites (txn : TxnId) (record : RecordId) (row : Option Row) (s : Store) : Store → Prop
  | intro {file : HeapFile} {frame : Frame} {changed : Page}
      (listed : s.catalog.file record.page.table = .ok file)
      (cached : s.cache.get? record.page = some frame) (id : frame.page.id = record.page)
      (exclusive : s.locks.mode? txn record.page = some .exclusive)
      (changes : frame.page.Changes changed file.schema record.slot row) :
      Rewrites txn record row s (s.withFrame { frame with page := changed.dirtiedBy txn })

/-- What is cached once a record of a page was changed: the changed page, and the others as they
were. -/
theorem get?_withFrame {old : Frame} {changed : Page} {schema : Schema} {slot : Nat}
    {row : Option Row} (changes : old.page.Changes changed schema slot row)
    (id : old.page.id = page) (place : PageId) :
    (s.withFrame { old with page := changed.dirtiedBy txn }).cache.get? place =
      if place = page then some { old with page := changed.dirtiedBy txn }
      else s.cache.get? place := by
  have own : (changed.dirtiedBy txn).id = page := changes.id.trans id
  simp only [withFrame, Dictionary.get?_put, own]

theorem Coherent.rewrites (coherent : Coherent s) (rewrites : Rewrites txn record row s after) :
    Coherent after := by
  rcases rewrites with @⟨file, old, changed, listed, cached, id, exclusive, changes⟩
  refine coherent.of_faithful rfl rfl ?_
  intro page frame now
  have here := coherent.faithful _ _ cached
  rw [get?_withFrame changes id] at now
  split at now
  · next same =>
    subst same
    cases now
    refine ⟨changes.id.trans here.id, ?_, ?_, ?_⟩
    · show s.Stores record.page (.ofStored record.page changed.before)
      rw [changes.before]
      exact here.before
    · show changed.bytes.length = changed.before.length
      rw [changes.before, changes.length, here.length]
    · intro clean
      cases clean
  · exact (coherent.faithful page frame now).congr fun _ stores => stores

/-! ## Dropping -/

theorem Coherent.of_kept (coherent : Coherent s) (disk : after.disk = s.disk)
    (catalog : after.catalog = s.catalog) (journal : after.journal = s.journal)
    (kept : ∀ page frame, after.cache.get? page = some frame → s.cache.get? page = some frame) :
    Coherent after := by
  refine coherent.of_faithful catalog (by rw [journal]) ?_
  intro page frame cached
  refine (coherent.faithful page frame (kept page frame cached)).congr ?_
  intro stored stores
  unfold Stores
  rw [catalog, disk]
  exact stores

theorem Coherent.dropPage (coherent : Coherent s) (page : PageId) : Coherent (s.dropPage page) := by
  have same := dropPage_eq s page
  exact coherent.of_kept (by rw [same]) (by rw [same]) (by rw [same])
    fun _ _ cached => get?_of_dropPage cached

end PageStore.Store
