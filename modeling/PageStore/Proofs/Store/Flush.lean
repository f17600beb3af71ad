import PageStore.Proofs.Store.Coherence
import PageStore.Store.Commit

/-!
# Storing dirty pages

Calls of the log touch no table (`Journals`).  Flushing pages of a coherent store writes their bytes
into the files of their tables and leaves them cached and clean (`Persists`).  A flush that fails
has persisted some of the pages and left the others as they were (`flushEach_some`), so it never
leaves a page half flushed.

A commit that succeeds persists every page that holds the transaction's writes, and lets go of its
locks.  One that fails persists some pages and aborts the transaction (`commit_leads`), and to abort
it is to drop the pages that hold its writes (`get?_abort`).
-/

namespace PageStore

/-- The frame once its page is stored. -/
def Frame.persisted (frame : Frame) : Frame := { frame with page := frame.page.persisted }

namespace Store

variable {s after later : Store} {txn : TxnId} {page place : PageId} {frame : Frame}
  {stored : Page} {entry : Entry} {pages : List PageId}

/-! ## Calls of the log -/

/-- A store after calls of its log. -/
structure Journals (s after : Store) : Prop where
  eq : after = { s with journal := after.journal, disk := after.disk }
  keeps : s.journal.Keeps s.disk after.journal after.disk

theorem Journals.trans (first : Journals s after) (second : Journals after later) :
    Journals s later := by
  refine ⟨?_, first.keeps.trans second.keeps⟩
  rw [second.eq, first.eq]

theorem Journals.cache_eq (journals : Journals s after) : after.cache = s.cache := by
  rw [journals.eq]

theorem Journals.stores (journals : Journals s after) (coherent : Coherent s) :
    after.Stores page stored ↔ s.Stores page stored :=
  stores_congr (by rw [journals.eq]) fun table file listed =>
    journals.keeps.others file.path (coherent.apart table file listed)

theorem Coherent.journals (coherent : Coherent s) (journals : Journals s after) :
    Coherent after := by
  refine coherent.of_faithful (by rw [journals.eq]) journals.keeps.path ?_
  intro page frame cached
  rw [journals.cache_eq] at cached
  exact (coherent.faithful page frame cached).congr fun _ => (journals.stores coherent).2

/-- How a write to the log ends, and what it leaves, is up to the log. -/
theorem logWrite_ends (s : Store) (entry : Entry) :
    (logWrite entry).Leads s
      (fun _ after => (s.journal.write s.disk entry).1 = .ok () ∧
        after = { s with
          journal := (s.journal.write s.disk entry).2.1
          disk := (s.journal.write s.disk entry).2.2 })
      (fun after => (∃ e, (s.journal.write s.disk entry).1 = .error e) ∧
        after = { s with
          journal := (s.journal.write s.disk entry).2.1
          disk := (s.journal.write s.disk entry).2.2 }) := by
  unfold logWrite Op.Leads
  rcases call : s.journal.write s.disk entry with ⟨answer, journal, disk⟩
  cases answer with
  | ok _ =>
    simp only [call]
    exact ⟨trivial, trivial⟩
  | error e =>
    simp only [call]
    exact ⟨⟨e, rfl⟩, trivial⟩

theorem logForce_ends (s : Store) :
    logForce.Leads s
      (fun _ after => (s.journal.force s.disk).1 = .ok () ∧
        after = { s with
          journal := (s.journal.force s.disk).2.1
          disk := (s.journal.force s.disk).2.2 })
      (fun after => (∃ e, (s.journal.force s.disk).1 = .error e) ∧
        after = { s with
          journal := (s.journal.force s.disk).2.1
          disk := (s.journal.force s.disk).2.2 }) := by
  unfold logForce Op.Leads
  rcases call : s.journal.force s.disk with ⟨answer, journal, disk⟩
  cases answer with
  | ok _ =>
    simp only [call]
    exact ⟨trivial, trivial⟩
  | error e =>
    simp only [call]
    exact ⟨⟨e, rfl⟩, trivial⟩

theorem logWrite_leads (s : Store) (entry : Entry) :
    (logWrite entry).Leads s
      (fun _ after => Journals s after ∧ after.journal.Entered entry after.disk) (Journals s) := by
  have keeps := s.journal.write_keeps s.disk entry
  refine (logWrite_ends s entry).mono ?_ ?_
  · rintro _ _ ⟨ok, rfl⟩
    exact ⟨⟨rfl, keeps⟩, s.journal.write_entered s.disk entry ok⟩
  · rintro _ ⟨-, rfl⟩
    exact ⟨rfl, keeps⟩

theorem logForce_leads (entered : s.journal.Entered entry s.disk) :
    logForce.Leads s
      (fun _ after => Journals s after ∧ after.journal.Forced entry after.disk) (Journals s) := by
  have keeps := s.journal.force_keeps s.disk
  refine (logForce_ends s).mono ?_ ?_
  · rintro _ _ ⟨ok, rfl⟩
    exact ⟨⟨rfl, keeps⟩, Journal.force_forced entered ok⟩
  · rintro _ ⟨-, rfl⟩
    exact ⟨rfl, keeps⟩

/-! ## Writing a page -/

/-- A store after the bytes of a page were written into the file of its table. -/
inductive WritesPage (page : PageId) (bytes : Bytes) (s : Store) : Store → Prop
  | intro {file : HeapFile} {disk : Disk} (listed : s.catalog.file page.table = .ok file)
      (writes : file.Writes page bytes s.disk disk) : WritesPage page bytes s { s with disk := disk }

/-- A cached page of a coherent store can be written. -/
theorem writeStored_leads {stopped : Store → Prop} (coherent : Coherent s)
    (cached : s.cache.get? page = some frame) :
    (writeStored frame.page).Leads s (fun _ after => WritesPage page frame.page.bytes s after)
      stopped := by
  have faithful := coherent.faithful page frame cached
  obtain ⟨file, listed, read⟩ := faithful.before
  have whole : frame.page.bytes.length = file.pageSize := by
    rw [faithful.length]
    exact (HeapFile.read_shape read).2
  have own : page.table = file.table := (HeapFile.read_eq_ok.1 read).1
  have writes : file.Writes page frame.page.bytes s.disk
      (s.disk.write file.path (page.offset file.pageSize) frame.page.bytes) := ⟨own, whole, rfl⟩
  have written : (do (← s.catalog.file frame.page.id.table).write s.disk frame.page) =
      Except.ok (s.disk.write file.path (page.offset file.pageSize) frame.page.bytes) := by
    rw [faithful.id, listed]
    exact HeapFile.write_eq_ok.2 (by rw [faithful.id]; exact writes)
  unfold writeStored Op.Leads
  simp only [written]
  exact .intro listed writes

theorem WritesPage.stores_self {bytes : Bytes} (written : WritesPage page bytes s after) :
    after.Stores page (.ofStored page bytes) := by
  rcases written with ⟨listed, writes⟩
  exact ⟨_, listed, writes.read_self⟩

theorem WritesPage.stores_other {bytes : Bytes} (written : WritesPage page bytes s after)
    (coherent : Coherent s) (cached : s.cache.get? page = some frame) (ne : place ≠ page) :
    after.Stores place stored ↔ s.Stores place stored := by
  rcases written with ⟨listed, writes⟩
  have inside := (coherent.faithful page frame cached).before.lt_pageCount coherent.catalog listed
  exact stores_of_writes coherent.catalog listed rfl writes (Nat.le_of_lt inside) ne

/-! ## Persisting pages -/

/-- A store after some pages were stored, of those that are cached.  They stay cached and are clean;
nothing else changes but the log. -/
structure Persists (pages : List PageId) (s after : Store) : Prop where
  locks : after.locks = s.locks
  catalog : after.catalog = s.catalog
  path : after.journal.path? = s.journal.path?
  cached : ∀ page, after.cache.get? page =
    (s.cache.get? page).map fun frame => if page ∈ pages then frame.persisted else frame
  written : ∀ page frame, page ∈ pages → s.cache.get? page = some frame →
    after.Stores page (.ofStored page frame.page.bytes)
  others : ∀ page stored, page ∉ pages ∨ s.cache.get? page = none →
    (after.Stores page stored ↔ s.Stores page stored)

theorem Journals.persists (journals : Journals s after) (coherent : Coherent s) :
    Persists [] s after where
  locks := by rw [journals.eq]
  catalog := by rw [journals.eq]
  path := journals.keeps.path
  cached page := by
    rw [journals.cache_eq]
    simp
  written _ _ mem := nomatch mem
  others _ _ _ := journals.stores coherent

theorem persisted_of_clean (coherent : Coherent s) (cached : s.cache.get? page = some frame)
    (clean : frame.page.dirtier = none) : frame.persisted = frame := by
  have same := (coherent.faithful page frame cached).clean clean
  rcases frame with ⟨serial, id, bytes, dirtier, before⟩
  simp only at clean same
  subst clean same
  rfl

/-- A page that is not dirty needs no flush. -/
theorem persists_of_clean (coherent : Coherent s)
    (clean : ∀ frame, s.cache.get? page = some frame → frame.page.dirtier = none) :
    Persists [page] s s where
  locks := rfl
  catalog := rfl
  path := rfl
  cached place := by
    cases cached : s.cache.get? place with
    | none => rfl
    | some frame =>
      rw [Option.map_some]
      split
      · next mem =>
        rw [List.mem_singleton.1 mem] at cached
        rw [persisted_of_clean coherent cached (clean frame cached)]
      · rfl
  written place frame mem cached := by
    have faithful := coherent.faithful place frame cached
    have same : place = page := List.mem_singleton.1 mem
    subst same
    rw [faithful.clean (clean frame cached)]
    exact faithful.before
  others _ _ _ := Iff.rfl

theorem Persists.refl (s : Store) : Persists [] s s :=
  ⟨rfl, rfl, rfl, fun _ => by simp, nofun, fun _ _ _ => Iff.rfl⟩

theorem Persists.trans {more : List PageId} (first : Persists pages s after)
    (second : Persists more after later) : Persists (pages ++ more) s later where
  locks := second.locks.trans first.locks
  catalog := second.catalog.trans first.catalog
  path := second.path.trans first.path
  cached page := by
    rw [second.cached, first.cached, Option.map_map]
    congr 1
    funext frame
    by_cases a : page ∈ pages <;> by_cases b : page ∈ more <;> simp [a, b, Frame.persisted]
    rfl
  written page frame mem cached := by
    have between := first.cached page
    rw [cached, Option.map_some] at between
    by_cases b : page ∈ more
    · have bytes := second.written page _ b between
      split at bytes <;> exact bytes
    · have a : page ∈ pages := (List.mem_append.1 mem).resolve_right b
      exact (second.others page _ (.inl b)).2 (first.written page frame a cached)
  others page stored apart := by
    have between := first.cached page
    rcases apart with absent | missing
    · rw [List.mem_append, not_or] at absent
      rw [second.others page stored (.inl absent.2), first.others page stored (.inl absent.1)]
    · rw [missing, Option.map_none] at between
      rw [second.others page stored (.inr between), first.others page stored (.inr missing)]

theorem Coherent.persists (coherent : Coherent s) (persists : Persists pages s after) :
    Coherent after := by
  refine coherent.of_faithful persists.catalog persists.path ?_
  intro page frame now
  rw [persists.cached] at now
  cases cached : s.cache.get? page with
  | none => simp [cached] at now
  | some old =>
    have faithful := coherent.faithful page old cached
    rw [cached, Option.map_some, Option.some.injEq] at now
    subst now
    by_cases mem : page ∈ pages
    · rw [if_pos mem]
      exact ⟨faithful.id, persists.written page old mem cached, rfl, fun _ => rfl⟩
    · rw [if_neg mem]
      exact faithful.congr fun stored => (persists.others page stored (.inl mem)).2

/-! ## Flushing -/

/-- The store once the frame of a page that was written is marked as stored. -/
theorem WritesPage.persists (coherent : Coherent s) (cached : s.cache.get? page = some frame)
    (written : WritesPage page frame.page.bytes s after) :
    Persists [page] s (after.setFrame frame.persisted) := by
  have id := (coherent.faithful page frame cached).id
  have self := written.stores_self
  have other : ∀ place stored, place ≠ page → (after.Stores place stored ↔ s.Stores place stored) :=
    fun _ _ => written.stores_other coherent cached
  rcases written with @⟨file, disk, listed, writes⟩
  have kept : s.cache.get? frame.persisted.page.id = some frame := by
    rw [show frame.persisted.page.id = page from id, cached]
  have marked : Store.setFrame { s with disk := disk } frame.persisted =
      Store.withFrame { s with disk := disk } frame.persisted := setFrame_of_cached kept rfl
  rw [marked]
  refine ⟨rfl, rfl, rfl, fun place => ?_, fun place old mem here => ?_, fun place stored apart => ?_⟩
  · simp only [withFrame, Dictionary.get?_put, show frame.persisted.page.id = page from id,
      List.mem_singleton]
    split
    · next same => rw [same, cached, Option.map_some]
    · simp
  · have same : place = page := List.mem_singleton.1 mem
    subst same
    rw [cached] at here
    cases here
    exact self
  · refine other place stored ?_
    rintro rfl
    rcases apart with absent | missing
    · exact absent (List.mem_singleton_self place)
    · rw [cached] at missing
      cases missing

theorem flushDirty_leads (coherent : Coherent s) (cached : s.cache.get? page = some frame)
    (txn : TxnId) :
    (flushDirty frame txn).Leads s (fun _ => Persists [page] s) (Persists [] s) := by
  refine ((logWrite_leads s _).mono (fun _ _ => id) fun _ journals =>
    journals.persists coherent).bind fun _ entered ⟨journals, taken⟩ => ?_
  refine ((logForce_leads taken).mono (fun _ _ => id) fun _ more =>
    (journals.trans more).persists coherent).bind fun _ forced ⟨more, safe⟩ => ?_
  have journals' := journals.trans more
  have coherent' := coherent.journals journals'
  have cached' : forced.cache.get? page = some frame := by rw [journals'.cache_eq, cached]
  refine (writeStored_leads coherent' cached').bind ?_
  intro _ after written
  exact (journals'.persists coherent).trans (written.persists coherent' cached')

/-- Either one frame is to be flushed for a page, or nothing. -/
theorem dirty_or_clean (s : Store) (page : PageId) :
    (∃ frame txn, s.cache.get? page = some frame ∧ frame.page.dirtier = some txn) ∨
      ∀ frame, s.cache.get? page = some frame → frame.page.dirtier = none := by
  cases cached : s.cache.get? page with
  | none => exact .inr nofun
  | some frame =>
    cases dirty : frame.page.dirtier with
    | none => exact .inr fun other same => by cases same; exact dirty
    | some txn => exact .inl ⟨frame, txn, rfl, dirty⟩

theorem flushPage_of_dirty (cached : s.cache.get? page = some frame)
    (dirty : frame.page.dirtier = some txn) : flushPage page s = flushDirty frame txn s := by
  simp only [flushPage, cached, dirty]

theorem flushPage_of_clean
    (clean : ∀ frame, s.cache.get? page = some frame → frame.page.dirtier = none) :
    flushPage page s = .ok () s := by
  unfold flushPage
  cases cached : s.cache.get? page with
  | none => rfl
  | some frame => simp only [clean frame cached]

theorem flushPage_leads (coherent : Coherent s) (page : PageId) :
    (flushPage page).Leads s (fun _ => Persists [page] s) (Persists [] s) := by
  rcases s.dirty_or_clean page with ⟨frame, txn, cached, dirty⟩ | clean
  · exact (flushDirty_leads coherent cached txn).congr (flushPage_of_dirty cached dirty)
  · exact Op.leads_of_ok (flushPage_of_clean clean) (persists_of_clean coherent clean)

/-- Flushing pages one after another persists all of them, or some of them if it fails. -/
theorem flushEach_some (coherent : Coherent s) (pages : List PageId) :
    (pages.forM flushPage).Leads s (fun _ => Persists pages s)
      (fun after => ∃ done ⊆ pages, Persists done s after) := by
  induction pages generalizing s with
  | nil => exact .refl s
  | cons page pages ih =>
    refine ((flushPage_leads coherent page).mono (fun _ _ => id) fun _ none =>
      ⟨[], List.nil_subset _, none⟩).bind ?_
    intro _ flushed persists
    refine (ih (coherent.persists persists)).mono (fun _ after rest => persists.trans rest) ?_
    rintro after ⟨done, among, rest⟩
    exact ⟨page :: done, List.cons_subset_cons page among, persists.trans rest⟩

/-- However the flushing of pages ends, it has persisted some of them and no others. -/
theorem flushEach_persists (coherent : Coherent s) (pages : List PageId) :
    ∃ done ⊆ pages, Persists done s (Op.final (pages.forM flushPage s)) := by
  have leads : (pages.forM flushPage).Leads s
      (fun _ after => ∃ done ⊆ pages, Persists done s after)
      (fun after => ∃ done ⊆ pages, Persists done s after) :=
    (flushEach_some coherent pages).mono
      (fun _ _ persists => ⟨pages, List.Subset.refl pages, persists⟩) fun _ => id
  exact leads.final

/-- A page that is not flushed stays in the cache as it is. -/
theorem get?_flushEach (coherent : Coherent s) (absent : page ∉ pages) :
    (Op.final (pages.forM flushPage s)).cache.get? page = s.cache.get? page := by
  obtain ⟨done, among, persists⟩ := flushEach_persists coherent pages
  rw [persists.cached]
  simp only [if_neg fun mem => absent (among mem), Option.map_id']

/-! ## Dropping -/

theorem get?_foldl_dropPage (pages : List PageId) (s : Store) (place : PageId) :
    (pages.foldl dropPage s).cache.get? place =
      if place ∈ pages then none else s.cache.get? place := by
  induction pages generalizing s with
  | nil => simp
  | cons page pages ih =>
    rw [List.foldl_cons, ih, get?_dropPage]
    by_cases here : place = page <;> by_cases later : place ∈ pages <;> simp [here, later]

theorem foldl_dropPage_eq (pages : List PageId) (s : Store) :
    pages.foldl dropPage s =
      { s with
        cache := (pages.foldl dropPage s).cache
        shelf := (pages.foldl dropPage s).shelf } := by
  induction pages generalizing s with
  | nil => rfl
  | cons page pages ih =>
    rw [List.foldl_cons, ih, dropPage_eq]

/-- The pages that pass the test leave the cache. -/
theorem get?_dropPages (s : Store) (test : Page → Bool) (place : PageId) :
    (s.dropPages test).cache.get? place =
      (s.cache.get? place).filter fun frame => !test frame.page := by
  rw [dropPages, get?_foldl_dropPage]
  simp only [List.mem_filter, Dictionary.mem_keys_iff, cached?]
  cases s.cache.get? place with
  | none => rfl
  | some frame => cases passes : test frame.page <;> simp [passes, Option.filter_some]

/-! ## The end of a transaction -/

theorem mem_pagesDirtiedBy (s : Store) (txn : TxnId) (page : PageId) :
    page ∈ s.pagesDirtiedBy txn ↔
      ∃ frame, s.cache.get? page = some frame ∧ frame.page.dirtier = some txn := by
  rw [pagesDirtiedBy, List.mem_filter, mem_cachedPages, cached?]
  cases s.cache.get? page <;> simp

/-- A page that holds the writes of one transaction holds none of another. -/
theorem not_mem_pagesDirtiedBy {other : TxnId} (cached : s.cache.get? page = some frame)
    (writes : frame.page.dirtier = some txn) (ne : other ≠ txn) :
    page ∉ s.pagesDirtiedBy other := by
  intro mine
  obtain ⟨same, cached', writes'⟩ := (s.mem_pagesDirtiedBy other page).1 mine
  rw [cached] at cached'
  cases cached'
  rw [writes] at writes'
  exact ne (Option.some.inj writes').symm

/-- A transaction that is aborted loses the cached pages that hold its writes. -/
theorem get?_abort (s : Store) (txn : TxnId) (page : PageId) :
    (s.abort txn).cache.get? page =
      (s.cache.get? page).filter fun frame => frame.page.dirtier ≠ some txn := by
  have drops := s.get?_dropPages (fun page => page.dirtier == some txn) page
  show (s.dropPages _).cache.get? page = _
  rw [drops]
  congr 1
  funext frame
  by_cases own : frame.page.dirtier = some txn <;> simp [own]

theorem get?_abort_eq_some : (s.abort txn).cache.get? page = some frame ↔
    s.cache.get? page = some frame ∧ frame.page.dirtier ≠ some txn := by
  rw [get?_abort, Option.filter_eq_some_iff, decide_eq_true_iff]

/-- Aborting touches the cache, the shelf and the locks alone. -/
theorem abort_eq (s : Store) (txn : TxnId) :
    s.abort txn =
      { s with
        cache := (s.abort txn).cache
        shelf := (s.abort txn).shelf
        locks := s.locks.releaseAll txn } := by
  unfold abort releaseAll dropPages
  rw [foldl_dropPage_eq]

theorem Coherent.abort (coherent : Coherent s) (txn : TxnId) : Coherent (s.abort txn) := by
  have same := s.abort_eq txn
  refine coherent.of_kept (by rw [same]) (by rw [same]) (by rw [same]) ?_
  intro page frame cached
  rw [get?_abort, Option.filter_eq_some_iff] at cached
  exact cached.1

/-- A commit gives back the locks once the pages are flushed, and aborts if one cannot be. -/
theorem commit_ends {done : Unit → Store → Prop} {stopped : Store → Prop}
    (flushes : (flushPages txn).Leads s done stopped) :
    (commit txn).Leads s
      (fun _ after => ∃ flushed, done () flushed ∧ after = flushed.releaseAll txn)
      (fun after => ∃ flushed, stopped flushed ∧ after = flushed.abort txn) := by
  unfold commit Op.Leads
  cases ends : flushPages txn s with
  | ok _ flushed =>
    simp only [ends]
    exact ⟨flushed, flushes.of_ok ends, rfl⟩
  | error stop flushed =>
    simp only [ends]
    exact ⟨flushed, flushes.of_error ends, rfl⟩

/-- A commit stores every page that holds the transaction's writes, or it stores some of them and
aborts. -/
theorem commit_leads (coherent : Coherent s) (txn : TxnId) :
    (commit txn).Leads s
      (fun _ after => ∃ flushed, Persists (s.pagesDirtiedBy txn) s flushed ∧
        after = flushed.releaseAll txn)
      (fun after => ∃ done ⊆ s.pagesDirtiedBy txn, ∃ flushed, Persists done s flushed ∧
        after = flushed.abort txn) := by
  have flushes : (flushPages txn).Leads s (fun _ => Persists (s.pagesDirtiedBy txn) s)
      (fun after => ∃ done ⊆ s.pagesDirtiedBy txn, Persists done s after) :=
    flushEach_some coherent _
  refine (commit_ends flushes).mono (fun _ _ => id) ?_
  rintro after ⟨flushed, ⟨done, among, persists⟩, same⟩
  exact ⟨done, among, flushed, persists, same⟩

end Store

end PageStore
