import PageStore.Proofs.Answers
import PageStore.Proofs.Store.Capacity

/-!
# Only pages that exist are held

A page is extant if it lies in the file of a table of the catalog.  A store is grounded if every page
that is cached, and every page that somebody holds, is extant.

`Builds` is what an operation may do to a store for this to stay so: files do not get shorter, and
what is newly cached or held is extant afterwards.  A fetch takes a lock before it knows whether the
page exists.  If the page cannot be loaded, the lock is given back if it is new; if it is not, it is
a lock that was held before (`fetch_builds`).  An append takes the lock of a page that does not exist
yet, and then writes the page (`appendPage_builds`).

On a grounded store nobody holds the page after the last of a file, so whoever asks for it is granted
it (`Grounded.acquire_next`), and nothing stops an append but a cache that is full
(`Grounded.appendPage_error`).
-/

namespace PageStore

/-! ## Files that do not get shorter -/

namespace Disk

variable {disk after later : Disk}

/-- No file is shorter than it was. -/
def Longer (disk after : Disk) : Prop :=
  ∀ path, (disk.read path).length ≤ (after.read path).length

theorem Longer.refl (disk : Disk) : Longer disk disk := fun _ => Nat.le_refl _

theorem Longer.trans (first : Longer disk after) (second : Longer after later) :
    Longer disk later :=
  fun path => Nat.le_trans (first path) (second path)

theorem longer_append (disk : Disk) (path : String) (data : Bytes) :
    Longer disk (disk.append path data) := by
  intro place
  rw [read_append]
  split
  · next here =>
    rw [here, List.length_append]
    omega
  · exact Nat.le_refl _

theorem longer_write (disk : Disk) (path : String) (start : Nat) (data : Bytes) :
    Longer disk (disk.write path start data) := by
  intro place
  rw [write, read_put]
  split
  · next here =>
    rw [here, Bytes.length_splice_extendTo]
    omega
  · exact Nat.le_refl _

end Disk

namespace Journal

theorem longer_write (journal : Journal) (disk : Disk) (entry : Entry) :
    disk.Longer (journal.write disk entry).2.2 := by
  cases journal with
  | memory log => exact .refl disk
  | file log =>
    unfold write FileLog.write
    by_cases small : entry.encode.length ≤ FileLog.maxEntry
    · simp only [small, if_true]
      have flushed : disk.Longer (log.flush disk).2 := disk.longer_append log.path log.buffer
      unfold FileLog.append
      split
      · exact .refl disk
      · dsimp only
        split
        · exact flushed
        · exact flushed.trans (Disk.longer_append _ _ _)
    · simp only [small, if_false]
      exact .refl disk

theorem longer_force (journal : Journal) (disk : Disk) :
    disk.Longer (journal.force disk).2.2 := by
  cases journal with
  | memory log => exact .refl disk
  | file log => exact disk.longer_append log.path log.buffer

end Journal

namespace LockTable

variable {locks : LockTable} {txn other : TxnId} {page place : PageId} {mode : LockMode}
  {overdue : Bool}

/-- A request adds no lock but the one that it asks for. -/
theorem held_of_acquire
    (held : ((locks.acquire txn page mode overdue).2.mode? other place).isSome) :
    (locks.mode? other place).isSome ∨
      (locks.acquire txn page mode overdue).1 = .granted ∧ other = txn ∧ place = page := by
  rcases locks.acquire_grants_or_keeps txn page mode overdue with
    ⟨granted, ok, answer, holders, -⟩ | ⟨-, holders, -⟩
  · by_cases ne : other = txn ∧ place = page
    · exact .inr ⟨answer, ne⟩
    · left
      rw [mode?, holders, holders_withGrant] at held
      split at held
      · next here =>
        have apart : other ≠ txn := fun same => ne ⟨same, here⟩
        rw [Holders.mode?_grant_of_ne ok apart] at held
        rw [mode?, here]
        exact held
      · exact held
  · left
    rw [mode?, holders] at held
    exact held

/-- A page that nobody holds is granted to whoever asks for it. -/
theorem acquire_of_free (free : ∀ other, locks.mode? other page = none) (mode : LockMode)
    (overdue : Bool) : (locks.acquire txn page mode overdue).1 = .granted := by
  have none : locks.holders page = Holders.none := by
    refine Holders.eq_none_of_isFree ?_
    cases held : (locks.holders page).isFree with
    | true => rfl
    | false =>
      obtain ⟨other, holds⟩ := Holders.isFree_eq_false.1 held
      have empty := free other
      rw [mode?] at empty
      rw [empty] at holds
      cases holds
  rcases locks.acquire_cases txn page mode overdue with ⟨_, _, eq⟩ | ⟨blockers, refuses, _⟩
  · rw [eq]
  · rw [none] at refuses
    cases mode <;> cases refuses

end LockTable

namespace Store

variable {s after later : Store} {txn : TxnId} {page : PageId} {mode : LockMode} {frame : Frame}
  {file : HeapFile}

/-! ## Pages that exist -/

/-- The page lies in the file of a table of the catalog. -/
def Extant (s : Store) (page : PageId) : Prop :=
  ∃ file, s.catalog.file page.table = .ok file ∧ page.number < file.pageCount s.disk

/-- Every page that is cached or held is extant. -/
structure Grounded (s : Store) : Prop where
  sound : s.catalog.Sound
  cached : ∀ page, (s.cache.get? page).isSome → s.Extant page
  locked : ∀ txn page, (s.locks.mode? txn page).isSome → s.Extant page

/-- A page stays extant as long as its table does, and the file gets no shorter. -/
theorem Extant.grows (extant : s.Extant page)
    (listed : ∀ table file, s.catalog.file table = .ok file → after.catalog.file table = .ok file)
    (files : ∀ table file, s.catalog.file table = .ok file →
      (s.disk.read file.path).length ≤ (after.disk.read file.path).length) :
    after.Extant page := by
  obtain ⟨file, own, inside⟩ := extant
  refine ⟨file, listed _ file own, Nat.lt_of_lt_of_le inside ?_⟩
  exact Nat.div_le_div_right (files _ file own)

/-- A store from which nothing extant was lost, and in which what is newly cached or held is
extant. -/
structure Builds (s after : Store) : Prop where
  catalog : after.catalog = s.catalog
  files : s.disk.Longer after.disk
  cached : ∀ page, (after.cache.get? page).isSome → (s.cache.get? page).isSome ∨ after.Extant page
  locked : ∀ txn page, (after.locks.mode? txn page).isSome →
    (s.locks.mode? txn page).isSome ∨ after.Extant page

theorem Builds.refl (s : Store) : Builds s s :=
  ⟨rfl, .refl _, fun _ => .inl, fun _ _ => .inl⟩

theorem Builds.extant (builds : Builds s after) (extant : s.Extant page) : after.Extant page :=
  extant.grows (fun _ _ listed => by rw [builds.catalog, listed])
    fun _ file _ => builds.files file.path

theorem Builds.trans (first : Builds s after) (second : Builds after later) : Builds s later where
  catalog := second.catalog.trans first.catalog
  files := first.files.trans second.files
  cached page cached := by
    rcases second.cached page cached with before | extant
    · exact (first.cached page before).imp_right second.extant
    · exact .inr extant
  locked txn page held := by
    rcases second.locked txn page held with before | extant
    · exact (first.locked txn page before).imp_right second.extant
    · exact .inr extant

theorem Grounded.builds (grounded : s.Grounded) (builds : Builds s after) : after.Grounded where
  sound := builds.catalog ▸ grounded.sound
  cached page cached :=
    (builds.cached page cached).elim (fun before => builds.extant (grounded.cached page before)) id
  locked txn page held :=
    (builds.locked txn page held).elim (fun before => builds.extant (grounded.locked txn page before))
      id

/-- Where catalog and files are as they were, and nothing is newly cached or held. -/
theorem Builds.of_fewer (catalog : after.catalog = s.catalog) (disk : after.disk = s.disk)
    (cached : ∀ page, (after.cache.get? page).isSome → (s.cache.get? page).isSome)
    (locked : ∀ txn page, (after.locks.mode? txn page).isSome → (s.locks.mode? txn page).isSome) :
    Builds s after :=
  ⟨catalog, disk ▸ .refl _, fun page => .inl ∘ cached page,
    fun txn page => .inl ∘ locked txn page⟩

/-- Where only files were written to. -/
theorem Builds.of_disk (catalog : after.catalog = s.catalog) (cache : after.cache = s.cache)
    (locks : after.locks = s.locks)
    (files : s.disk.Longer after.disk) : Builds s after :=
  ⟨catalog, files, fun _ cached => .inl (cache ▸ cached), fun _ _ held => .inl (locks ▸ held)⟩

/-! ## Fetching -/

theorem Stores.extant {stored : Page} (stores : s.Stores page stored) (sound : s.catalog.Sound) :
    s.Extant page := by
  obtain ⟨file, listed, read⟩ := stores
  exact ⟨file, listed, Stores.lt_pageCount ⟨file, listed, read⟩ sound listed⟩

theorem load_builds (sound : s.catalog.Sound) (page : PageId) :
    (load page).Leads s
      (fun _ after => Builds s after ∧ after.locks = s.locks ∧ (after.cache.get? page).isSome)
      (fun after => after = s) := by
  refine (load_leads s page).mono ?_ fun _ => id
  rintro frame after ⟨turnover, locks, cached⟩
  have files : s.disk.Longer after.disk := turnover.disk ▸ .refl _
  refine ⟨⟨turnover.catalog, files, fun place now => ?_, fun txn place held => ?_⟩, locks, ?_⟩
  · obtain ⟨other, now⟩ := Option.isSome_iff_exists.1 now
    rcases turnover.read place other now with before | stores
    · exact .inl (by rw [before]; rfl)
    · exact .inr ((turnover.stores.2 stores).extant (turnover.catalog ▸ sound))
  · rw [locks] at held
    exact .inl held
  · rw [cached]
    rfl

/-- A request that is not granted adds no lock, and one that is adds its own. -/
theorem acquire_held (s : Store) (txn : TxnId) (page : PageId) (mode : LockMode) :
    (acquire txn page mode).Leads s
      (fun _ after => ∀ other place, (after.locks.mode? other place).isSome →
        (s.locks.mode? other place).isSome ∨ other = txn ∧ place = page)
      (fun after => ∀ other place, (after.locks.mode? other place).isSome →
        (s.locks.mode? other place).isSome) := by
  have adds (other : TxnId) (place : PageId) :=
    @LockTable.held_of_acquire s.locks txn other page place mode (s.overdue txn)
  refine (acquire_ends s txn page mode).mono ?_ ?_
  · rintro _ _ ⟨-, rfl⟩ other place held
    exact (adds other place held).imp_right And.right
  · rintro _ ⟨stopped, rfl⟩ other place held
    exact (adds other place held).resolve_right fun now => stopped now.1

/-- A fetch that succeeds holds a page that exists; one that fails holds no page that was not held
before. -/
theorem fetch_builds (grounded : s.Grounded) (txn : TxnId) (page : PageId) (mode : LockMode) :
    (fetch txn page mode).Leads s (fun _ => Builds s) (Builds s) := by
  have acquires := (acquire_leads s txn page mode).and (acquire_held s txn page mode)
  refine leads_fetch (acquires.mono (fun _ _ => id) ?refused) ?granted
  case refused =>
    rintro locked ⟨⟨same, -⟩, fewer⟩
    exact .of_fewer (by rw [same]) (by rw [same]) (fun _ => by rw [same]; exact id) fewer
  rintro locked ⟨⟨same, -⟩, adds⟩
  have disk : locked.disk = s.disk := by rw [same]
  have catalog : locked.catalog = s.catalog := by rw [same]
  have cache : locked.cache = s.cache := by rw [same]
  refine (load_builds (catalog ▸ grounded.sound) page).mono ?_ ?_
  · rintro frame after ⟨builds, locks, here⟩
    have files : s.disk.Longer after.disk := disk ▸ builds.files
    have stays {place : PageId} (extant : s.Extant place) : after.Extant place :=
      extant.grows (fun _ _ listed => by rw [builds.catalog, catalog, listed])
        fun _ file _ => files file.path
    refine ⟨builds.catalog.trans catalog, files, cache ▸ builds.cached, fun other place held => ?_⟩
    rw [locks] at held
    rcases adds other place held with before | ⟨-, rfl⟩
    · exact .inl before
    · right
      rcases builds.cached place here with before | extant
      · exact stays (grounded.cached place (cache ▸ before))
      · exact extant
  · rintro _ rfl
    split
    · next holds =>
      refine .of_fewer catalog disk (fun _ => by rw [cache]; exact id) fun other place held => ?_
      rcases adds other place held with before | ⟨rfl, rfl⟩
      · exact before
      · exact holds
    · refine .of_fewer catalog disk (fun _ => by rw [release, cache]; exact id)
        fun other place held => ?_
      rw [release, LockTable.mode?_release] at held
      split at held
      · cases held
      · next apart =>
        exact (adds other place held).resolve_right fun ⟨mine, here⟩ => apart ⟨here, mine⟩

/-! ## Appending -/

/-- The page after the last of a file is not extant. -/
theorem not_extant_next (listed : s.catalog.file file.table = .ok file) :
    ¬ s.Extant ⟨file.table, file.pageCount s.disk⟩ := by
  rintro ⟨own, listed', inside⟩
  rw [listed] at listed'
  cases listed'
  exact Nat.lt_irrefl _ inside

/-- Nobody holds the page that would be appended next. -/
theorem Grounded.free_next (grounded : s.Grounded)
    (listed : s.catalog.file file.table = .ok file) (other : TxnId) :
    s.locks.mode? other ⟨file.table, file.pageCount s.disk⟩ = none := by
  rw [← Option.not_isSome_iff_eq_none]
  exact fun held => not_extant_next listed (grounded.locked other _ held)

/-- The page that would be appended next is not cached. -/
theorem Grounded.missing_next (grounded : s.Grounded)
    (listed : s.catalog.file file.table = .ok file) :
    s.cache.get? ⟨file.table, file.pageCount s.disk⟩ = none := by
  rw [← Option.not_isSome_iff_eq_none]
  exact fun cached => not_extant_next listed (grounded.cached _ cached)

/-- Whoever asks for the page after the last of a file is granted it at once. -/
theorem Grounded.acquire_next (grounded : s.Grounded)
    (listed : s.catalog.file file.table = .ok file) (txn : TxnId) (overdue : Bool) :
    (s.locks.acquire txn ⟨file.table, file.pageCount s.disk⟩ .exclusive overdue).1 = .granted :=
  LockTable.acquire_of_free (grounded.free_next listed) .exclusive overdue

/-- What an append has made of locks and files when it comes to fetch its page: it holds the page
after the last, and has written zeros there. -/
structure Appending (txn : TxnId) (file : HeapFile) (s : Store) (locks : LockTable) (disk : Disk) :
    Prop where
  asked : s.locks.acquire txn ⟨file.table, file.pageCount s.disk⟩ .exclusive (s.overdue txn) =
    (.granted, locks)
  held : locks.mode? txn ⟨file.table, file.pageCount s.disk⟩ = some .exclusive
  widens : s.locks.Widens txn locks
  adds : ∀ other place, (locks.mode? other place).isSome → (s.locks.mode? other place).isSome ∨
    other = txn ∧ place = ⟨file.table, file.pageCount s.disk⟩
  writes : file.Writes ⟨file.table, file.pageCount s.disk⟩ (Bytes.zeros file.pageSize) s.disk disk
  readies : Readies txn s { s with locks := locks, disk := disk }
  builds : Builds s { s with locks := locks, disk := disk }

/-- An append comes to fetch a page that it locked and wrote, which was not there before. -/
theorem Grounded.appendPage_eq (grounded : s.Grounded)
    (listed : s.catalog.file file.table = .ok file) (txn : TxnId) :
    ∃ locks disk, Appending txn file s locks disk ∧ appendPage file txn s =
      fetch txn ⟨file.table, file.pageCount s.disk⟩ .exclusive
        { s with locks := locks, disk := disk } := by
  let page : PageId := ⟨file.table, file.pageCount s.disk⟩
  rcases asked : s.locks.acquire txn page .exclusive (s.overdue txn) with ⟨verdict, locks⟩
  obtain rfl : verdict = .granted :=
    (congrArg Prod.fst asked).symm.trans (grounded.acquire_next listed txn _)
  have asks : acquire txn page .exclusive s = .ok () { s with locks := locks } := by
    simp only [acquire, asked]
  obtain ⟨disk, writes, wrote⟩ := writeInto_blank { s with locks := locks } file page.number
  have stores : ({ s with locks := locks, disk := disk } : Store).Stores page
      (.ofStored page (Bytes.zeros file.pageSize)) := ⟨file, listed, writes.read_self⟩
  have widens := LockTable.Widens.acquire s.locks txn page .exclusive (s.overdue txn)
  have held := LockTable.mode?_acquire_of_granted (congrArg Prod.fst asked)
  rw [asked] at widens held
  have held : locks.mode? txn page = some .exclusive := held.elim id id
  have adds := (acquire_held s txn page .exclusive).of_ok asks
  refine ⟨locks, disk, ⟨asked, held, widens, adds, writes, ?_, rfl, ?_, fun _ => .inl,
    fun other place held => ?_⟩, (Op.bind_ok rfl).trans ((Op.bind_ok asks).trans (Op.bind_ok wrote))⟩
  · have locked : Fetches txn s { s with locks := locks } := .of_locks rfl widens
    exact .of_writes locked grounded.sound listed writes held (.refl txn _)
  · show s.disk.Longer disk
    rw [writes.eq]
    exact Disk.longer_write _ _ _ _
  · rcases adds other place held with before | ⟨-, rfl⟩
    · exact .inl before
    · exact .inr (stores.extant grounded.sound)

/-- An append holds the page that it appends, and no other page that was not held before. -/
theorem appendPage_builds (grounded : s.Grounded) (listed : s.catalog.file file.table = .ok file)
    (txn : TxnId) : (appendPage file txn).Leads s (fun _ => Builds s) (Builds s) := by
  obtain ⟨locks, disk, appending, same⟩ := grounded.appendPage_eq listed txn
  have builds := appending.builds
  have fetches := fetch_builds (grounded.builds builds) txn ⟨file.table, file.pageCount s.disk⟩
    .exclusive
  exact (fetches.mono (fun _ _ => builds.trans) fun _ => builds.trans).congr same

/-- Nothing stops an append but a cache that is full of pages that cannot leave it. -/
theorem Grounded.appendPage_error (grounded : s.Grounded)
    (listed : s.catalog.file file.table = .ok file) {stop : Stop}
    (stops : appendPage file txn s = .error stop after) :
    stop = .failed (.cacheExhausted s.capacity) := by
  obtain ⟨locks, disk, appending, same⟩ := grounded.appendPage_eq listed txn
  rw [same] at stops
  have missing := grounded.missing_next listed
  have stores : ({ s with locks := locks, disk := disk } : Store).Stores
      ⟨file.table, file.pageCount s.disk⟩ _ := ⟨file, listed, appending.writes.read_self⟩
  have granted : (locks.acquire txn ⟨file.table, file.pageCount s.disk⟩ .exclusive
      (s.overdue txn)).1 = .granted := by
    rcases locks.acquire_cases txn ⟨file.table, file.pageCount s.disk⟩ .exclusive
      (s.overdue txn) with ⟨_, _, eq⟩ | ⟨blockers, refuses, _⟩
    · rw [eq]
    · rw [Holders.grant_of_exclusive appending.held] at refuses
      cases refuses
  obtain ⟨locked, asks⟩ := acquire_ok (s := { s with locks := locks, disk := disk }) granted
  rcases fetch_missing stores missing asks with ⟨-, -, later, -, fails⟩ | ⟨-, frame, later, ok⟩
  · rw [fails] at stops
    cases stops
    rfl
  · rw [ok] at stops
    cases stops

/-! ## Rows -/

/-- What goes on from a store that was built on builds on it too. -/
theorem builds_bind {α β : Type} {op : Op α} {rest : α → Op β}
    (first : op.Leads s (fun _ => Builds s) (Builds s))
    (then' : ∀ a after, Builds s after → (rest a).Leads after (fun _ => Builds after) (Builds after)) :
    (op >>= rest).Leads s (fun _ => Builds s) (Builds s) :=
  first.bind fun a after builds =>
    (then' a after builds).mono (fun _ _ => builds.trans) fun _ => builds.trans

theorem builds_setFrame (s : Store) (frame : Frame) : Builds s (s.setFrame frame) := by
  unfold setFrame
  split
  · next old cached =>
    refine .of_fewer rfl rfl (fun page now => ?_) fun _ _ => id
    rw [Dictionary.get?_put] at now
    split at now
    · next here =>
      rw [Option.filter_eq_some_iff] at cached
      rw [here, cached.1]
      rfl
    · exact now
  · exact .of_disk rfl rfl rfl (.refl _)

theorem storeRow_builds (file : HeapFile) (txn : TxnId) (frame : Frame) (row : Row) (s : Store) :
    (storeRow file txn frame row).Leads s (fun _ => Builds s) (Builds s) := by
  refine (storeRow_ends file txn frame row s).mono (fun stored after ends => ?_)
    fun _ same => same ▸ .refl s
  cases stored with
  | none => exact ends.2 ▸ .refl s
  | some record =>
    obtain ⟨changed, -, rfl⟩ := ends
    exact builds_setFrame s _

theorem freeRecord_builds (file : HeapFile) (txn : TxnId) (frame : Frame) (record : RecordId)
    (s : Store) : (freeRecord file txn frame record).Leads s (fun _ => Builds s) (Builds s) := by
  refine (freeRecord_ends file txn frame record s).mono (fun _ after ends => ?_)
    fun _ same => same ▸ .refl s
  obtain ⟨changed, -, rfl⟩ := ends
  exact builds_setFrame s _

theorem storeInPage_builds (grounded : s.Grounded) (file : HeapFile) (txn : TxnId) (row : Row)
    (number : Nat) : (storeInPage file txn row number).Leads s (fun _ => Builds s) (Builds s) := by
  refine builds_bind (fetch_builds grounded txn _ .exclusive) fun frame fetched _ => ?_
  exact builds_bind (storeRow_builds file txn frame row fetched) fun _ after _ => .refl after

theorem storeInFresh_builds (grounded : s.Grounded) (listed : s.catalog.file file.table = .ok file)
    (txn : TxnId) (row : Row) :
    (storeInFresh file txn row).Leads s (fun _ => Builds s) (Builds s) := by
  refine builds_bind (appendPage_builds grounded listed txn) fun frame fetched _ => ?_
  refine builds_bind (storeRow_builds file txn frame row fetched) fun stored after _ => ?_
  cases stored <;> exact .refl after

theorem freeInPage_builds (grounded : s.Grounded) (file : HeapFile) (txn : TxnId)
    (record : RecordId) :
    (freeInPage file txn record).Leads s (fun _ => Builds s) (Builds s) := by
  refine builds_bind (fetch_builds grounded txn _ .exclusive) fun frame fetched _ => ?_
  exact builds_bind (freeRecord_builds file txn frame record fetched) fun _ after _ => .refl after

/-! ## Flushes and ends -/

theorem builds_dropPage (s : Store) (page : PageId) : Builds s (s.dropPage page) := by
  have same := dropPage_eq s page
  refine .of_fewer (by rw [same]) (by rw [same]) (fun place now => ?_)
    fun _ _ => by rw [same]; exact id
  rw [get?_dropPage] at now
  split at now
  · cases now
  · exact now

theorem builds_releaseAll (txn : TxnId) (s : Store) : Builds s (releaseAll txn s) := by
  refine .of_fewer rfl rfl (fun _ => id) fun other page held => ?_
  rw [releaseAll, LockTable.mode?, LockTable.holders_releaseAll] at held
  split at held
  · rw [Holders.mode?_remove] at held
    split at held
    · cases held
    · exact held
  · exact held

theorem builds_release (txn : TxnId) (page : PageId) (s : Store) : Builds s (release txn page s) := by
  refine .of_fewer rfl rfl (fun _ => id) fun other place held => ?_
  rw [release, LockTable.mode?_release] at held
  split at held
  · cases held
  · exact held

theorem builds_dropPages (s : Store) (test : Page → Bool) : Builds s (s.dropPages test) := by
  unfold dropPages
  generalize s.cache.keys.filter _ = pages
  induction pages generalizing s with
  | nil => exact .refl s
  | cons page pages ih => exact (builds_dropPage s page).trans (ih (s.dropPage page))

theorem builds_abort (s : Store) (txn : TxnId) : Builds s (s.abort txn) :=
  (builds_dropPages s _).trans (builds_releaseAll txn _)

theorem logWrite_builds (entry : Entry) (s : Store) :
    (logWrite entry).Leads s (fun _ => Builds s) (Builds s) := by
  have longer := s.journal.longer_write s.disk entry
  refine (logWrite_ends s entry).mono ?_ ?_
  · rintro _ _ ⟨-, rfl⟩
    exact .of_disk rfl rfl rfl longer
  · rintro _ ⟨-, rfl⟩
    exact .of_disk rfl rfl rfl longer

theorem logForce_builds (s : Store) : logForce.Leads s (fun _ => Builds s) (Builds s) := by
  have longer := s.journal.longer_force s.disk
  refine (logForce_ends s).mono ?_ ?_
  · rintro _ _ ⟨-, rfl⟩
    exact .of_disk rfl rfl rfl longer
  · rintro _ ⟨-, rfl⟩
    exact .of_disk rfl rfl rfl longer

theorem writeStored_builds (page : Page) (s : Store) :
    (writeStored page).Leads s (fun _ => Builds s) (Builds s) := by
  unfold writeStored Op.Leads
  cases written : (do (← s.catalog.file page.id.table).write s.disk page : Except Error Disk) with
  | ok disk =>
    simp only [written]
    obtain ⟨file, -, written⟩ := Answer.bind_eq_ok.1 written
    refine .of_disk rfl rfl rfl ?_
    rw [(HeapFile.write_eq_ok.1 written).eq]
    exact Disk.longer_write _ _ _ _
  | error e =>
    simp only [written]
    exact .refl s

theorem flushPage_builds (page : PageId) (s : Store) :
    (flushPage page).Leads s (fun _ => Builds s) (Builds s) := by
  rcases s.dirty_or_clean page with ⟨frame, txn, cached, dirty⟩ | clean
  · refine Op.Leads.congr ?_ (flushPage_of_dirty cached dirty)
    refine builds_bind (logWrite_builds _ s) fun _ written _ => ?_
    refine builds_bind (logForce_builds written) fun _ forced _ => ?_
    refine builds_bind (writeStored_builds _ forced) fun _ stored _ => ?_
    exact Op.leads_of_ok (Op.modify_ok _ stored) (builds_setFrame stored _)
  · exact Op.leads_of_ok (flushPage_of_clean clean) (.refl s)

theorem flushEach_builds (pages : List PageId) (s : Store) :
    (pages.forM flushPage).Leads s (fun _ => Builds s) (Builds s) := by
  induction pages generalizing s with
  | nil => exact .refl s
  | cons page pages ih => exact builds_bind (flushPage_builds page s) fun _ after _ => ih after

theorem commit_builds (txn : TxnId) (s : Store) :
    (commit txn).Leads s (fun _ => Builds s) (Builds s) := by
  have flushes : (flushPages txn).Leads s (fun _ => Builds s) (Builds s) :=
    flushEach_builds (s.pagesDirtiedBy txn) s
  refine (commit_ends flushes).mono ?_ ?_
  · rintro _ _ ⟨flushed, builds, rfl⟩
    exact builds.trans (builds_releaseAll txn flushed)
  · rintro _ ⟨flushed, builds, rfl⟩
    exact builds.trans (builds_abort flushed txn)

end Store

end PageStore
