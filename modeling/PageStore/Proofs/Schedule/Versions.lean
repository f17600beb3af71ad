import PageStore.Proofs.Journal.Entries
import PageStore.Proofs.Schedule.WriteAhead

/-!
# The log tells every version of a page

An entry tells of a page before and after a write, and the entries of one page link up
(`Entry.Links`): each begins with the version of the page where the one before it ended.  So redoing
the entries leads from the first version to the last, and undoing them leads back.

`Versioned` says that the entries of each page link what was stored of it first with what is stored
now; a page that is appended begins as zeros.  A flush keeps that, since the entry that it writes
has the stored bytes as those before: whatever was aborted, discarded or read anew in between, a
cached page remembers what is stored of it (`Faithful`).  Everything else leaves the log and the
stored pages as they are, but for pages that are appended.  A flush that cannot force the log stops
between the two, with an entry for a write that did not happen, so no force may fail (`Tells`).
-/

namespace PageStore

variable {first middle last : Bytes} {entries further : List Entry}

/-! ## Entries of one page -/

/-- The entries that tell of a page. -/
def entriesAbout (page : PageId) (entries : List Entry) : List Entry :=
  entries.filter fun entry => entry.page = page

theorem entriesAbout_append (page : PageId) (entries further : List Entry) :
    entriesAbout page (entries ++ further) =
      entriesAbout page entries ++ entriesAbout page further :=
  List.filter_append ..

namespace Entry

/-- Entries that lead from one version of a page to another, each from where the one before it
ended. -/
def Links (first : Bytes) : List Entry → Bytes → Prop
  | [], last => first = last
  | entry :: entries, last => entry.before = first ∧ Links entry.after entries last

/-- A version of a page once entries were redone, one after another. -/
def redo (first : Bytes) (entries : List Entry) : Bytes :=
  entries.foldl (fun _ entry => entry.after) first

/-- A version of a page once entries were undone, the last one first. -/
def undo (entries : List Entry) (last : Bytes) : Bytes :=
  entries.foldr (fun entry _ => entry.before) last

theorem links_append :
    Links first (entries ++ further) last ↔
      ∃ middle, Links first entries middle ∧ Links middle further last := by
  induction entries generalizing first with
  | nil => exact ⟨fun links => ⟨first, rfl, links⟩, fun ⟨_, same, links⟩ => same ▸ links⟩
  | cons entry entries ih =>
    show entry.before = first ∧ Links entry.after (entries ++ further) last ↔ _
    rw [ih]
    exact ⟨fun ⟨begins, middle, before, after⟩ => ⟨middle, ⟨begins, before⟩, after⟩,
      fun ⟨middle, ⟨begins, before⟩, after⟩ => ⟨begins, middle, before, after⟩⟩

theorem Links.redo_eq (links : Links first entries last) : redo first entries = last := by
  induction entries generalizing first with
  | nil => exact links
  | cons entry entries ih => exact ih links.2

theorem Links.undo_eq (links : Links first entries last) : undo entries last = first := by
  cases entries with
  | nil => exact Eq.symm links
  | cons entry entries => exact links.1

end Entry

namespace Store

variable {s after later : Store} {txn : TxnId} {page : PageId} {frame : Frame} {entry : Entry}
  {origin : PageId → Bytes}

/-- The first version of a page: what is stored of it, or zeros if it is yet to be appended. -/
def firstVersion (s : Store) (page : PageId) : Bytes :=
  match s.catalog.file page.table with
  | .error _ => []
  | .ok file =>
    match file.read s.disk page with
    | .ok stored => stored.bytes
    | .error _ => Bytes.zeros file.pageSize

theorem Stores.firstVersion_eq {stored : Page} (stores : s.Stores page stored) :
    s.firstVersion page = stored.bytes := by
  rcases stores with ⟨file, listed, read⟩
  simp only [Store.firstVersion, listed, read]

theorem firstVersion_of_missing {file : HeapFile} (listed : s.catalog.file page.table = .ok file)
    (missing : ∀ stored, ¬ s.Stores page stored) :
    s.firstVersion page = Bytes.zeros file.pageSize := by
  unfold Store.firstVersion
  rw [listed]
  cases read : file.read s.disk page with
  | error e => simp only [read]
  | ok stored => exact absurd ⟨file, listed, read⟩ (missing stored)

/-! ## Versions that the log tells -/

/-- Writing into the file of a table leaves what the log holds. -/
theorem Coherent.holds_of_writes (coherent : Coherent s) {table : TableId} {file : HeapFile}
    {bytes : Bytes} {disk : Disk} (listed : s.catalog.file table = .ok file)
    (writes : file.Writes page bytes s.disk disk) (holds : s.journal.Holds entries s.disk) :
    s.journal.Holds entries disk := by
  refine holds.congr fun path here => writes.bytes_other ?_
  rintro rfl
  exact coherent.apart table file listed here

/-- The log holds entries that link the first version of each page with what is stored of it. -/
structure Versioned (origin : PageId → Bytes) (entries : List Entry) (s : Store) : Prop where
  holds : s.journal.Holds entries s.disk
  known : ∀ entry ∈ entries, ∃ stored, s.Stores entry.page stored
  links : ∀ page stored, s.Stores page stored →
    Entry.Links (origin page) (entriesAbout page entries) stored.bytes
  blank : ∀ page file, s.catalog.file page.table = .ok file → (∀ stored, ¬ s.Stores page stored) →
    origin page = Bytes.zeros file.pageSize

theorem versioned_of_empty (empty : s.journal.Holds [] s.disk) : Versioned s.firstVersion [] s where
  holds := empty
  known := nofun
  links _ _ stores := stores.firstVersion_eq
  blank _ _ := firstVersion_of_missing

/-- Where the log holds what it held and each page is stored as it was, the log tells what it
told. -/
theorem Versioned.congr (versioned : Versioned origin entries s)
    (catalog : after.catalog = s.catalog) (holds : after.journal.Holds entries after.disk)
    (stores : ∀ page stored, after.Stores page stored ↔ s.Stores page stored) :
    Versioned origin entries after where
  holds := holds
  known entry mem := by
    obtain ⟨stored, before⟩ := versioned.known entry mem
    exact ⟨stored, (stores _ _).2 before⟩
  links page stored now := versioned.links page stored ((stores page stored).1 now)
  blank page file listed missing := by
    rw [catalog] at listed
    exact versioned.blank page file listed fun stored before =>
      missing stored ((stores page stored).2 before)

/-- A page that is appended has no entries, and is stored as its first version. -/
theorem Versioned.appends (versioned : Versioned origin entries s) (coherent : Coherent s)
    (appends : Appends s after) : Versioned origin entries after := by
  have kept : ∀ page stored, s.Stores page stored → after.Stores page stored :=
    fun _ _ => appends.stores coherent.catalog
  rcases appends with @⟨file, disk, listed, writes⟩
  have missing : ∀ stored, ¬ s.Stores ⟨file.table, file.pageCount s.disk⟩ stored :=
    fun stored stores => Nat.lt_irrefl _ (stores.lt_pageCount coherent.catalog listed)
  have others {page : PageId} {stored : Page} (ne : page ≠ ⟨file.table, file.pageCount s.disk⟩) :
      Stores { s with disk := disk } page stored ↔ s.Stores page stored :=
    stores_of_writes coherent.catalog listed rfl writes (Nat.le_refl _) ne
  refine ⟨coherent.holds_of_writes listed writes versioned.holds, fun entry mem => ?_,
    fun page stored now => ?_, fun page held listed' absent => ?_⟩
  · obtain ⟨stored, before⟩ := versioned.known entry mem
    exact ⟨stored, kept _ _ before⟩
  · rcases eq_or_ne page ⟨file.table, file.pageCount s.disk⟩ with rfl | ne
    · have blank := versioned.blank _ file listed missing
      have none : entriesAbout ⟨file.table, file.pageCount s.disk⟩ entries = [] := by
        refine List.filter_eq_nil_iff.2 fun entry mem about => ?_
        obtain ⟨stored, before⟩ := versioned.known entry mem
        rw [of_decide_eq_true about] at before
        exact missing stored before
      have zeros : stored.bytes = Bytes.zeros file.pageSize := by
        have read : file.read disk _ = .ok stored := now.read listed
        rw [writes.read_self] at read
        rw [← Except.ok.inj read]
        rfl
      rw [none, zeros]
      exact blank
    · exact versioned.links page stored ((others ne).1 now)
  · exact versioned.blank page held listed' fun stored before => absent stored (kept _ _ before)

/-- A page that is written after an entry for the write: the entry goes from the version that was
stored to the one that is. -/
theorem Versioned.writes (versioned : Versioned origin entries s)
    (catalog : after.catalog = s.catalog)
    (holds : after.journal.Holds (entries ++ [entry]) after.disk)
    (before : s.Stores entry.page (.ofStored entry.page entry.before))
    (stored : after.Stores entry.page (.ofStored entry.page entry.after))
    (others : ∀ page stored, page ≠ entry.page →
      (after.Stores page stored ↔ s.Stores page stored)) :
    Versioned origin (entries ++ [entry]) after where
  holds := holds
  known other mem := by
    by_cases same : other.page = entry.page
    · rw [same]
      exact ⟨_, stored⟩
    · have old : other ∈ entries := by
        rcases List.mem_append.1 mem with old | new
        · exact old
        · exact absurd (congrArg Entry.page (List.mem_singleton.1 new)) same
      obtain ⟨held, stores⟩ := versioned.known other old
      exact ⟨held, (others _ _ same).2 stores⟩
  links page held now := by
    rw [entriesAbout_append]
    rcases eq_or_ne page entry.page with rfl | ne
    · obtain ⟨file, listed, read⟩ := stored
      have same : held = .ofStored entry.page entry.after :=
        Except.ok.inj ((now.read listed).symm.trans read)
      have own : entriesAbout entry.page [entry] = [entry] := by simp [entriesAbout]
      rw [own, same, Entry.links_append]
      exact ⟨entry.before, versioned.links _ _ before, rfl, rfl⟩
    · have other : entriesAbout page [entry] = [] := by simp [entriesAbout, ne.symm]
      rw [other, List.append_nil]
      exact versioned.links page held ((others page held ne).1 now)
  blank page file listed missing := by
    rw [catalog] at listed
    refine versioned.blank page file listed fun held stores => ?_
    rcases eq_or_ne page entry.page with rfl | ne
    · exact missing _ stored
    · exact missing held ((others page held ne).2 stores)

/-! ## What goes on in the log -/

/-- From one store to another the log goes on telling versions, unless a force failed. -/
def Tells (origin : PageId → Bytes) (s after : Store) : Prop :=
  after.journal.ForcesHold → s.journal.ForcesHold ∧
    ∀ entries, Versioned origin entries s → ∃ further, Versioned origin (entries ++ further) after

theorem Tells.trans (first : Tells origin s after) (second : Tells origin after later) :
    Tells origin s later := by
  intro hold
  obtain ⟨hold, rest⟩ := second hold
  obtain ⟨hold, begins⟩ := first hold
  refine ⟨hold, fun entries versioned => ?_⟩
  obtain ⟨some, versioned⟩ := begins entries versioned
  obtain ⟨more, versioned⟩ := rest _ versioned
  exact ⟨some ++ more, by rw [← List.append_assoc]; exact versioned⟩

/-- Where nothing new is told, the log holds the entries that it held. -/
theorem Tells.of_versioned (hold : after.journal.ForcesHold → s.journal.ForcesHold)
    (same : ∀ entries, Versioned origin entries s → Versioned origin entries after) :
    Tells origin s after :=
  fun held => ⟨hold held, fun entries versioned =>
    ⟨[], by rw [List.append_nil]; exact same entries versioned⟩⟩

/-- Where the files and the log are as they were, so is what the log tells. -/
theorem Tells.of_same (disk : after.disk = s.disk) (catalog : after.catalog = s.catalog)
    (journal : after.journal = s.journal) : Tells origin s after := by
  refine .of_versioned (fun hold => journal ▸ hold) fun entries versioned => ?_
  have holds : after.journal.Holds entries after.disk := by
    rw [journal, disk]
    exact versioned.holds
  refine versioned.congr catalog holds fun page stored => ?_
  unfold Stores
  rw [catalog, disk]

theorem Tells.readies (coherent : Coherent s) (readies : Readies txn s after) :
    Tells origin s after := by
  cases readies with
  | fetches fetches => exact .of_same fetches.disk fetches.catalog fetches.journal
  | @appends locked grown _ before appends rest =>
    have locks : Tells origin s locked := .of_same before.disk before.catalog before.journal
    have coherent := coherent.turnover before.toTurnover
    have same : grown.journal = locked.journal := by cases appends; rfl
    have grows : Tells origin locked grown :=
      .of_versioned (fun hold => same ▸ hold) fun _ versioned => versioned.appends coherent appends
    exact (locks.trans grows).trans (.of_same rest.disk rest.catalog rest.journal)

/-! ## Flushing -/

theorem logWrite_holds (s : Store) (entry : Entry) :
    (logWrite entry).Leads s
      (fun _ after => (after.journal.ForcesHold → s.journal.ForcesHold) ∧
        ∀ entries, s.journal.Holds entries s.disk →
          after.journal.Holds (entries ++ [entry]) after.disk)
      (fun after => (after.journal.ForcesHold → s.journal.ForcesHold) ∧
        ∀ entries, s.journal.Holds entries s.disk → after.journal.Holds entries after.disk) := by
  refine (logWrite_ends s entry).mono ?_ ?_
  · rintro _ _ ⟨ok, rfl⟩
    refine ⟨Journal.forcesHold_of_write, fun entries holds => ?_⟩
    have written := Journal.write_holds holds entry
    rwa [ok] at written
  · rintro _ ⟨⟨e, fails⟩, rfl⟩
    refine ⟨Journal.forcesHold_of_write, fun entries holds => ?_⟩
    have written := Journal.write_holds holds entry
    rwa [fails] at written

theorem logForce_holds (s : Store) :
    logForce.Leads s
      (fun _ after => (after.journal.ForcesHold → s.journal.ForcesHold) ∧
        ∀ entries, s.journal.Holds entries s.disk → after.journal.Holds entries after.disk)
      (fun after => ¬ after.journal.ForcesHold) := by
  refine (logForce_ends s).mono ?_ ?_
  · rintro _ _ ⟨-, rfl⟩
    exact ⟨Journal.forcesHold_of_force, fun _ holds => Journal.force_holds holds⟩
  · rintro _ ⟨⟨e, fails⟩, rfl⟩
    exact Journal.not_forcesHold_of_error fails

theorem flushDirty_tells (coherent : Coherent s) (cached : s.cache.get? page = some frame)
    (txn : TxnId) :
    (flushDirty frame txn).Leads s (fun _ => Tells origin s) (Tells origin s) := by
  have faithful := coherent.faithful page frame cached
  have own := faithful.id
  have enters := (logWrite_leads s ⟨txn, frame.page.id, frame.page.before, frame.page.bytes⟩).and
    (logWrite_holds s ⟨txn, frame.page.id, frame.page.before, frame.page.bytes⟩)
  refine (enters.mono (fun _ _ => id) ?refused).bind
    fun _ entered ⟨⟨journals, taken⟩, hold, holds⟩ => ?_
  case refused =>
    rintro after ⟨journals, hold, holds⟩
    exact .of_versioned hold fun entries versioned =>
      versioned.congr (by rw [journals.eq]) (holds entries versioned.holds)
        fun _ _ => journals.stores coherent
  have forces := (logForce_leads taken).and (logForce_holds entered)
  refine (forces.mono (fun _ _ => id) ?fails).bind fun _ forced ⟨⟨more, _⟩, hold', holds'⟩ => ?_
  case fails =>
    rintro after ⟨-, fails⟩
    exact fun hold => absurd hold fails
  have journals := journals.trans more
  have coherent' := coherent.journals journals
  have cached' : forced.cache.get? page = some frame := by rw [journals.cache_eq, cached]
  refine (writeStored_leads coherent' cached').bind ?_
  intro _ after written
  have marked : Tells origin after (after.setFrame frame.persisted) := by
    have same := after.setFrame_eq frame.persisted
    exact .of_same (by rw [same]) (by rw [same]) (by rw [same])
  refine Tells.trans (fun now => ?_) marked
  have self := written.stores_self
  have others {place : PageId} {stored : Page} (ne : place ≠ page) :
      after.Stores place stored ↔ s.Stores place stored :=
    (written.stores_other coherent' cached' ne).trans (journals.stores coherent)
  rcases written with @⟨file, disk, listed, writes⟩
  refine ⟨hold (hold' now), fun entries versioned => ⟨[_], versioned.writes (by rw [journals.eq])
    (coherent'.holds_of_writes listed writes (holds' _ (holds _ versioned.holds))) ?_ ?_ ?_⟩⟩
  · rw [own]
    exact faithful.before
  · rw [own]
    exact self
  · rw [own]
    exact fun _ _ => others

theorem flushPage_tells (coherent : Coherent s) (page : PageId) :
    (flushPage page).Leads s (fun _ => Tells origin s) (Tells origin s) := by
  rcases s.dirty_or_clean page with ⟨frame, txn, cached, dirty⟩ | clean
  · exact (flushDirty_tells coherent cached txn).congr (flushPage_of_dirty cached dirty)
  · exact Op.leads_of_ok (flushPage_of_clean clean) (.of_same rfl rfl rfl)

/-- However many pages are flushed, and wherever that stops, the log tells of those that were. -/
theorem flushEach_tells (coherent : Coherent s) (pages : List PageId) :
    (pages.forM flushPage).Leads s (fun _ => Tells origin s) (Tells origin s) := by
  induction pages generalizing s with
  | nil => exact .of_same rfl rfl rfl
  | cons page pages ih =>
    have tells : (flushPage page).Leads s (fun _ => Tells origin s) (Tells origin s) :=
      flushPage_tells coherent page
    refine (((flushPage_leads coherent page).and tells).mono (fun _ _ both => both)
      fun _ both => both.2).bind ?_
    rintro _ flushed ⟨persists, tells⟩
    exact (ih (coherent.persists persists)).mono (fun _ _ rest => tells.trans rest)
      fun _ rest => tells.trans rest

/-- A commit tells of the pages that it flushed, whether or not it succeeds. -/
theorem commit_tells (coherent : Coherent s) (txn : TxnId) :
    Tells origin s (Op.final (commit txn s)) := by
  have flushes : (flushPages txn).Leads s (fun _ => Tells origin s) (Tells origin s) :=
    flushEach_tells coherent (s.pagesDirtiedBy txn)
  refine ((commit_ends flushes).mono ?_ ?_).final
  · rintro _ _ ⟨flushed, tells, rfl⟩
    exact tells.trans (.of_same rfl rfl rfl)
  · rintro _ ⟨flushed, tells, rfl⟩
    have same := flushed.abort_eq txn
    exact tells.trans (.of_same (by rw [same]) (by rw [same]) (by rw [same]))

end Store

open Store

namespace System

variable {sys start later : System} {reports more : List Report} {origin : PageId → Bytes}

/-- An action that flushes nothing tells of nothing. -/
theorem Moves.tells {s after : Store} {action : Action} {report : Report}
    (moves : Moves s action report after) (coherent : s.Coherent)
    (calm : action.isFlush = false) (ends : action.isCommit = false) : Tells origin s after := by
  obtain ⟨txn, readied, readies, disk, catalog, journal⟩ := moves.readied calm ends
  exact Tells.trans (.readies coherent readies) (.of_same disk catalog journal)

theorem act_tells (steady : sys.Steady) (action : Action) :
    Tells origin sys.store (sys.act action).2.store := by
  have moves := act_moves steady action
  cases action with
  | commit txn =>
    have commits : Tells origin sys.store (Op.final (Store.commit txn sys.store)) :=
      commit_tells steady.coherent txn
    simp only [System.act]
    split
    · cases ends : Store.commit txn sys.store <;> rw [ends] at commits <;> exact commits
    · exact .of_same rfl rfl rfl
  | flushPages txn => exact (flushEach_tells steady.coherent (sys.store.pagesDirtiedBy txn)).final
  | flushAll => exact (flushEach_tells steady.coherent sys.store.dirtyPages).final
  | begin => exact moves.tells steady.coherent rfl rfl
  | demand txn demand => exact moves.tells steady.coherent rfl rfl
  | advance txn => exact moves.tells steady.coherent rfl rfl
  | abort txn => exact moves.tells steady.coherent rfl rfl
  | discard page => exact moves.tells steady.coherent rfl rfl
  | release txn page => exact moves.tells steady.coherent rfl rfl
  | turn overdue arrangement => exact moves.tells steady.coherent rfl rfl

theorem Run.tells {allowed : System → Action → Prop} (run : Run allowed start reports sys)
    (steady : start.Steady) : sys.Steady ∧ Tells origin start.store sys.store := by
  induction run with
  | nil => exact ⟨steady, .of_same rfl rfl rfl⟩
  | act _ action _ ih => exact ⟨ih.1.act action, ih.2.trans (act_tells ih.1 action)⟩

/-- A run that begins with an empty log and has reached two moments, one after the other, while no
force failed: what the log holds at the earlier moment it still holds at the later, and what was
added comes after it; all of it can be read.  The entries of each page link its first version, which
is what was stored when the run began, or zeros if the page was appended since, with what is stored
now. Redoing those of the earlier moment from the first version, or undoing the others from what is
stored now, gives what was stored at the earlier moment. -/
theorem entries_link_page_versions (fresh : start.Fresh)
    (empty : start.store.journal.Holds [] start.store.disk)
    (run : Run (fun _ _ => True) start reports sys) (rest : Run (fun _ _ => True) sys more later)
    (hold : later.store.journal.ForcesHold) :
    ∃ entries further,
      sys.store.journal.Holds entries sys.store.disk ∧
      later.store.journal.Holds (entries ++ further) later.store.disk ∧
      ((∀ entry ∈ entries ++ further, entry.Worded) →
        (later.store.journal.read later.store.disk).1 = .ok (entries ++ further)) ∧
      (∀ entry ∈ entries ++ further, ∃ stored, later.store.Stores entry.page stored) ∧
      ∀ page last, later.store.Stores page last →
        Entry.Links (start.store.firstVersion page) (entriesAbout page (entries ++ further))
          last.bytes ∧
        ∀ middle, sys.store.Stores page middle →
          Entry.redo (start.store.firstVersion page) (entriesAbout page entries) = middle.bytes ∧
          Entry.undo (entriesAbout page further) last.bytes = middle.bytes := by
  obtain ⟨steady, tells⟩ : sys.Steady ∧ Tells start.store.firstVersion start.store sys.store :=
    run.tells fresh.steady
  obtain ⟨held, goesOn⟩ := (rest.tells steady).2 hold
  obtain ⟨entries, before⟩ := (tells held).2 [] (versioned_of_empty empty)
  rw [List.nil_append] at before
  obtain ⟨further, after⟩ := goesOn entries before
  refine ⟨entries, further, before.holds, after.holds, after.holds.read, after.known, ?_⟩
  intro page last stored
  have links := after.links page last stored
  refine ⟨links, fun middle stores => ?_⟩
  rw [entriesAbout_append, Entry.links_append] at links
  obtain ⟨version, first, rest⟩ := links
  have redone := (before.links page middle stores).redo_eq
  exact ⟨redone, by rw [rest.undo_eq, ← first.redo_eq, redone]⟩

/-- The statement above for a row that is inserted and committed before the earlier moment, and
deleted and committed after it, while a third transaction inserts a row of its own and aborts. -/
theorem entries_link_page_versions_of_deleted_row :
    let page : PageId := ⟨smallFile.table, 0⟩
    let row : Row := ⟨[.int 7], some ⟨page, 0⟩⟩
    let inserts : List Action := [.begin, .begin, .begin,
      .demand 0 (.insert page.table ⟨[.int 7], none⟩), .advance 0, .commit 0]
    let deletes : List Action := [.demand 1 (.delete row), .advance 1, .commit 1,
      .demand 2 (.insert page.table ⟨[.int 8], none⟩), .advance 2, .abort 2]
    let sys := small.acts inserts
    let later := sys.acts deletes
    let used : Bytes := [1, 0, 0, 0, 7, 0, 0, 0]
    let freed : Bytes := [0, 0, 0, 0, 7, 0, 0, 0]
    (small.store.journal.Holds [] small.store.disk ∧ later.store.journal.ForcesHold ∧
      later.store.journal.forcedEntries later.store.disk =
        [⟨0, page, Bytes.zeros 8, used⟩, ⟨1, page, used, freed⟩] ∧
      sys.store.Stores page (.ofStored page used) ∧
      later.store.Stores page (.ofStored page freed)) ∧
    ∃ entries further,
      sys.store.journal.Holds entries sys.store.disk ∧
      later.store.journal.Holds (entries ++ further) later.store.disk ∧
      Entry.Links (small.store.firstVersion page) (entriesAbout page (entries ++ further)) freed ∧
      Entry.redo (small.store.firstVersion page) (entriesAbout page entries) = used ∧
      Entry.undo (entriesAbout page further) freed = used := by
  intro page row inserts deletes sys later used freed
  have empty : small.store.journal.Holds [] small.store.disk := .memory rfl
  have hold : later.store.journal.ForcesHold := by decide +kernel
  have before : sys.store.Stores page (.ofStored page used) :=
    ⟨smallFile, by decide +kernel, by decide +kernel⟩
  have now : later.store.Stores page (.ofStored page freed) :=
    ⟨smallFile, by decide +kernel, by decide +kernel⟩
  have run : Run (fun _ _ => True) small (small.hears inserts) sys :=
    run_acts small fun _ _ _ => trivial
  have rest : Run (fun _ _ => True) sys (sys.hears deletes) later :=
    run_acts sys fun _ _ _ => trivial
  obtain ⟨entries, further, held, holds, -, -, versions⟩ :=
    entries_link_page_versions small_fresh empty run rest hold
  obtain ⟨links, middle⟩ := versions page _ now
  exact ⟨⟨empty, hold, by decide +kernel, before, now⟩, entries, further, held, holds, links,
    middle _ before⟩

end System

end PageStore
