import PageStore.Proofs.Lock.Consistency
import PageStore.Proofs.Store.Leads
import PageStore.Proofs.Table.HeapFile
import PageStore.Store.Cache

/-!
# What fetching does

Fetching a page can evict a clean page, load the page from its file, and widen the locks of the
transaction that fetches.  `Turnover` says what this may do to the cache: dirty pages stay, and what
is new is as it is stored.  `Fetches` adds the locks.  `fetch_leads` is the whole specification of
`Store.fetch`: however it ends, the store was left by `Fetches`; and if it succeeds, the page it
gives is the cached one, and the transaction holds it.
-/

namespace PageStore.Store

variable {s after later : Store} {txn other : TxnId} {page place : PageId} {frame : Frame}
  {mode : LockMode} {stored : Page} {ref : PageRef}

/-! ## Stored pages -/

/-- What reading a page from the file of its table gives. -/
def Stores (s : Store) (page : PageId) (stored : Page) : Prop :=
  ∃ file, s.catalog.file page.table = .ok file ∧ file.read s.disk page = .ok stored

theorem Stores.eq_ofStored (stores : s.Stores page stored) :
    stored = .ofStored page stored.bytes := by
  rcases stores with ⟨file, -, ok⟩
  exact (HeapFile.read_shape ok).1

theorem Stores.id_eq (stores : s.Stores page stored) : stored.id = page := by
  rw [stores.eq_ofStored]
  rfl

theorem Stores.dirtier_eq (stores : s.Stores page stored) : stored.dirtier = none := by
  rw [stores.eq_ofStored]
  rfl

theorem readStored_leads (s : Store) (page : PageId) :
    (readStored page).Leads s (fun stored after => after = s ∧ s.Stores page stored)
      (fun after => after = s) := by
  refine Op.leads_ofExcept (fun stored ok => ⟨rfl, ?_⟩) rfl
  cases listed : s.catalog.file page.table with
  | error e => simp [listed, bind, Except.bind] at ok
  | ok file =>
    rw [listed] at ok
    exact ⟨file, listed, ok⟩

/-! ## The cache -/

theorem get?_dropPage (s : Store) (page place : PageId) :
    (s.dropPage page).cache.get? place = if place = page then none else s.cache.get? place := by
  cases cached : s.cache.get? page with
  | none =>
    simp only [dropPage, cached]
    split
    · next here => rw [here, cached]
    · rfl
  | some frame =>
    simp only [dropPage, cached]
    exact Dictionary.get?_erase ..

/-- What is cached once a page was dropped was cached before. -/
theorem get?_of_dropPage (now : (s.dropPage page).cache.get? place = some frame) :
    s.cache.get? place = some frame := by
  rw [get?_dropPage] at now
  split at now
  · cases now
  · exact now

/-- Dropping a clean page leaves the dirty ones as they are. -/
theorem get?_dropPage_iff_of_dirty
    (clean : ∀ frame, s.cache.get? page = some frame → frame.page.dirtier = none)
    (dirty : frame.page.dirtier = some txn) :
    (s.dropPage page).cache.get? place = some frame ↔ s.cache.get? place = some frame := by
  refine ⟨get?_of_dropPage, fun cached => ?_⟩
  rw [get?_dropPage, if_neg, cached]
  rintro rfl
  rw [clean frame cached] at dirty
  cases dirty

/-- Dropping a page touches the cache and the shelf alone. -/
theorem dropPage_eq (s : Store) (page : PageId) :
    s.dropPage page =
      { s with cache := (s.dropPage page).cache, shelf := (s.dropPage page).shelf } := by
  unfold dropPage
  split <;> rfl

theorem isEvictable_iff (s : Store) (page : PageId) :
    s.isEvictable page = true ↔
      ∃ frame, s.cache.get? page = some frame ∧ frame.page.isDirty = false ∧
        s.locks.isLocked page = false := by
  unfold isEvictable cached?
  cases s.cache.get? page <;> simp

theorem mem_cachedPages (s : Store) (page : PageId) :
    page ∈ s.cachedPages ↔ ∃ frame, s.cache.get? page = some frame := by
  rw [cachedPages, (s.arrangement.perm s.cache.keys).mem_iff, Dictionary.mem_keys_iff,
    Option.isSome_iff_exists]

/-- What coming and going of clean pages does to a store. -/
structure Turnover (s after : Store) : Prop where
  disk : after.disk = s.disk
  catalog : after.catalog = s.catalog
  journal : after.journal = s.journal
  kept : ∀ page frame, s.cache.get? page = some frame → frame.page.isDirty = true →
    after.cache.get? page = some frame
  read : ∀ page frame, after.cache.get? page = some frame →
    s.cache.get? page = some frame ∨ s.Stores page frame.page

theorem Turnover.refl (s : Store) : Turnover s s :=
  ⟨rfl, rfl, rfl, fun _ _ cached _ => cached, fun _ _ cached => .inl cached⟩

theorem Turnover.stores (turnover : Turnover s after) :
    after.Stores page stored ↔ s.Stores page stored := by
  unfold Stores
  rw [turnover.disk, turnover.catalog]

theorem Turnover.trans (first : Turnover s after) (second : Turnover after later) :
    Turnover s later where
  disk := second.disk.trans first.disk
  catalog := second.catalog.trans first.catalog
  journal := second.journal.trans first.journal
  kept page frame cached dirty :=
    second.kept page frame (first.kept page frame cached dirty) dirty
  read page frame cached := by
    rcases second.read page frame cached with same | stores
    · exact first.read page frame same
    · exact .inr (first.stores.1 stores)

/-- A page that is evicted is clean and nobody holds it. -/
theorem evict_leads (s : Store) :
    evict.Leads s
      (fun _ after => ∃ victim, s.isEvictable victim = true ∧ after = s.dropPage victim)
      (fun after => after = s) := by
  unfold evict Op.Leads
  cases found : s.cachedPages.find? s.isEvictable with
  | none => simp only [found]
  | some victim =>
    simp only [found]
    exact ⟨victim, List.find?_some found, rfl⟩

theorem Turnover.dropPage (evictable : s.isEvictable page = true) :
    Turnover s (s.dropPage page) := by
  obtain ⟨gone, cached, clean, -⟩ := (s.isEvictable_iff page).1 evictable
  rw [dropPage_eq]
  refine ⟨rfl, rfl, rfl, fun place frame now dirty => ?_,
    fun place frame now => .inl (get?_of_dropPage now)⟩
  rw [get?_dropPage, if_neg]
  · exact now
  · rintro rfl
    rw [cached] at now
    cases now
    rw [clean] at dirty
    cases dirty

theorem makeRoom_of_full (full : s.capacity ≤ s.cache.size) : makeRoom s = evict s := if_pos full

theorem makeRoom_of_room (room : s.cache.size < s.capacity) : makeRoom s = .ok () s :=
  if_neg (Nat.not_le_of_lt room)

/-- To make room is to evict a page, or nothing at all. -/
theorem makeRoom_evicts (s : Store) :
    makeRoom.Leads s
      (fun _ after => after = s ∨ ∃ victim, s.isEvictable victim = true ∧ after = s.dropPage victim)
      (fun after => after = s) := by
  by_cases full : s.capacity ≤ s.cache.size
  · exact ((evict_leads s).mono (fun _ _ => .inr) fun _ => id).congr (makeRoom_of_full full)
  · exact Op.leads_of_ok (makeRoom_of_room (Nat.lt_of_not_le full)) (.inl rfl)

theorem makeRoom_leads (s : Store) :
    makeRoom.Leads s
      (fun _ after => Turnover s after ∧ after.locks = s.locks ∧
        ∀ page, s.cache.get? page = none → after.cache.get? page = none)
      (fun after => after = s) := by
  refine (makeRoom_evicts s).mono ?_ fun _ => id
  rintro _ _ (rfl | ⟨victim, evictable, rfl⟩)
  · exact ⟨.refl _, rfl, fun _ => id⟩
  · refine ⟨.dropPage evictable, by rw [dropPage_eq], fun page missing => ?_⟩
    rw [get?_dropPage, missing]
    split <;> rfl

theorem addPage_leads (stores : s.Stores page stored) (missing : s.cache.get? page = none) :
    (addPage stored).Leads s
      (fun frame after => Turnover s after ∧ after.locks = s.locks ∧
        after.cache.get? page = some frame)
      (fun _ => False) := by
  have id := stores.id_eq
  show Turnover s _ ∧ _ ∧ Dictionary.get? (s.cache.put stored.id _) page = _
  refine ⟨⟨rfl, rfl, rfl, fun place frame cached _ => ?_, fun place frame cached => ?_⟩, rfl, ?_⟩
  · have apart : place ≠ stored.id := by
      rintro rfl
      rw [id, missing] at cached
      cases cached
    simpa [apart] using cached
  · simp only [Dictionary.get?_put] at cached
    split at cached
    · next here =>
      cases cached
      rw [here, id]
      exact .inr stores
    · exact .inl cached
  · simp [id]

theorem load_of_cached (cached : s.cache.get? page = some frame) : load page s = .ok frame s := by
  simp only [load, cached]

/-- A page that is not cached is read, and put where there is room for it. -/
theorem load_of_missing (missing : s.cache.get? page = none) :
    load page s = (do
      let stored ← readStored page
      makeRoom
      addPage stored : Op Frame) s := by
  simp only [load, missing]

/-- Loading a page gives the cached one, and leaves everything as it was if it fails. -/
theorem load_leads (s : Store) (page : PageId) :
    (load page).Leads s
      (fun frame after => Turnover s after ∧ after.locks = s.locks ∧
        after.cache.get? page = some frame)
      (fun after => after = s) := by
  cases cached : s.cache.get? page with
  | some frame =>
    exact Op.leads_of_ok (load_of_cached cached) ⟨.refl s, rfl, cached⟩
  | none =>
    refine Op.Leads.congr ?_ (load_of_missing cached)
    refine (readStored_leads s page).bind ?_
    rintro stored read ⟨rfl, stores⟩
    refine (makeRoom_leads read).bind ?_
    rintro _ roomy ⟨made, locks, missing⟩
    have added := addPage_leads (made.stores.2 stores) (missing page cached)
    refine added.mono ?_ fun _ never => never.elim
    rintro frame after ⟨turnover, locks', here⟩
    exact ⟨made.trans turnover, locks'.trans locks, here⟩

/-! ## Locks and fetches -/

/-- How a request for a lock ends, and what it leaves, is up to the lock table. -/
theorem acquire_ends (s : Store) (txn : TxnId) (page : PageId) (mode : LockMode) :
    (acquire txn page mode).Leads s
      (fun _ after => (s.locks.acquire txn page mode (s.overdue txn)).1 = .granted ∧
        after = { s with locks := (s.locks.acquire txn page mode (s.overdue txn)).2 })
      (fun after => (s.locks.acquire txn page mode (s.overdue txn)).1 ≠ .granted ∧
        after = { s with locks := (s.locks.acquire txn page mode (s.overdue txn)).2 }) := by
  unfold acquire Op.Leads
  rcases asked : s.locks.acquire txn page mode (s.overdue txn) with ⟨verdict, locks⟩
  cases verdict with
  | granted =>
    simp only [asked]
    exact ⟨trivial, trivial⟩
  | refused e =>
    simp only [asked]
    exact ⟨nofun, trivial⟩
  | waiting =>
    simp only [asked]
    exact ⟨nofun, trivial⟩

theorem acquire_leads (s : Store) (txn : TxnId) (page : PageId) (mode : LockMode) :
    (acquire txn page mode).Leads s
      (fun _ after => after = { s with locks := after.locks } ∧ s.locks.Widens txn after.locks ∧
        (after.locks.mode? txn page = some mode ∨ after.locks.mode? txn page = some .exclusive))
      (fun after => after = { s with locks := after.locks } ∧
        s.locks.Widens txn after.locks) := by
  have widens := LockTable.Widens.acquire s.locks txn page mode (s.overdue txn)
  refine (acquire_ends s txn page mode).mono ?_ ?_
  · rintro _ _ ⟨granted, rfl⟩
    exact ⟨rfl, widens, LockTable.mode?_acquire_of_granted granted⟩
  · rintro _ ⟨-, rfl⟩
    exact ⟨rfl, widens⟩

/-- What fetching by a transaction does to a store, however it ends. -/
structure Fetches (txn : TxnId) (s after : Store) : Prop extends Turnover s after where
  locks : s.locks.Widens txn after.locks

theorem Fetches.refl (txn : TxnId) (s : Store) : Fetches txn s s :=
  ⟨Turnover.refl s, .refl txn s.locks⟩

theorem Fetches.trans (first : Fetches txn s after) (second : Fetches txn after later) :
    Fetches txn s later :=
  ⟨first.toTurnover.trans second.toTurnover, first.locks.trans second.locks⟩

/-- A change of locks alone. -/
theorem Fetches.of_locks (same : after = { s with locks := after.locks })
    (widens : s.locks.Widens txn after.locks) : Fetches txn s after := by
  rw [same]
  exact ⟨⟨rfl, rfl, rfl, fun _ _ cached _ => cached, fun _ _ cached => .inl cached⟩, widens⟩

theorem Fetches.of_turnover (turnover : Turnover s after) (same : after.locks = s.locks) :
    Fetches txn s after :=
  ⟨turnover, same ▸ .refl txn s.locks⟩

/-! A fetch asks for its lock, and then loads its page. -/

theorem fetch_of_refused {stop : Stop} (refused : acquire txn page mode s = .error stop after) :
    fetch txn page mode s = .error stop after := by
  simp only [fetch, refused]

theorem fetch_of_loaded {locked : Store} (granted : acquire txn page mode s = .ok () locked)
    (loaded : load page locked = .ok frame after) : fetch txn page mode s = .ok frame after := by
  simp only [fetch, granted, loaded]

theorem fetch_of_unloaded {locked : Store} {stop : Stop}
    (granted : acquire txn page mode s = .ok () locked)
    (failed : load page locked = .error stop after) :
    fetch txn page mode s =
      .error stop (if s.locks.holds txn page then after else release txn page after) := by
  simp only [fetch, granted, failed]

/-- A fetch whose page cannot be loaded gives back its lock, if the transaction did not hold the page
before. -/
theorem leads_fetch {granted : Store → Prop} {done : Frame → Store → Prop} {stopped : Store → Prop}
    (asks : (acquire txn page mode).Leads s (fun _ => granted) stopped)
    (loads : ∀ locked, granted locked → (load page).Leads locked done
      fun after => stopped (if s.locks.holds txn page then after else release txn page after)) :
    (fetch txn page mode).Leads s done stopped := by
  cases asked : acquire txn page mode s with
  | error stop refused =>
    exact Op.leads_of_error (fetch_of_refused asked) (asks.of_error asked)
  | ok _ locked =>
    have loads := loads locked (asks.of_ok asked)
    cases read : load page locked with
    | ok frame loaded => exact Op.leads_of_ok (fetch_of_loaded asked read) (loads.of_ok read)
    | error stop failed =>
      exact Op.leads_of_error (fetch_of_unloaded asked read) (loads.of_error read)

/-- A page that was fetched is cached, and held by who fetched it. -/
theorem fetch_leads (s : Store) (txn : TxnId) (page : PageId) (mode : LockMode) :
    (fetch txn page mode).Leads s
      (fun frame after => Fetches txn s after ∧ after.cache.get? page = some frame ∧
        (after.locks.mode? txn page = some mode ∨ after.locks.mode? txn page = some .exclusive))
      (Fetches txn s) := by
  refine leads_fetch ((acquire_leads s txn page mode).mono (fun _ _ => id)
    fun _ ⟨same, widens⟩ => .of_locks same widens) fun locked ⟨same, widens, holds⟩ => ?_
  refine (load_leads locked page).mono ?_ ?_
  · rintro frame loaded ⟨turnover, locks, cached⟩
    refine ⟨(Fetches.of_locks same widens).trans (.of_turnover turnover locks), cached, ?_⟩
    rw [locks]
    exact holds
  · rintro _ rfl
    split
    · exact .of_locks same widens
    · next free =>
      have free : s.locks.mode? txn page = none := by simpa [LockTable.holds] using free
      refine .of_locks ?_ (widens.release free)
      rw [same]
      rfl

/-! ## Handing back -/

/-- The store with the page of a reference in the cache. -/
def putBack (ref : PageRef) (s : Store) : Store :=
  match s.deref? ref with
  | none => s
  | some page => s.replaceFrame ⟨ref.serial, page⟩

theorem applyRef_of_contains (here : s.cache.contains ref.page = true) :
    applyRef ref s = .ok () (s.putBack ref) := by
  have reads : (get : Op Store) s = .ok s s := rfl
  unfold applyRef
  rw [Op.bind_ok reads, here]
  rfl

/-- Handing back a page makes room for it, unless it is cached, and puts it into the cache. -/
theorem applyRef_leads {good bad : Store → Prop}
    (cached : s.cache.contains ref.page = true → good (s.putBack ref))
    (missing : s.cache.contains ref.page = false →
      makeRoom.Leads s (fun _ roomy => good (roomy.putBack ref)) bad) :
    (applyRef ref).Leads s (fun _ => good) bad := by
  cases here : s.cache.contains ref.page with
  | true => exact Op.leads_of_ok (applyRef_of_contains here) (cached here)
  | false =>
    have reads : (get : Op Store) s = .ok s s := rfl
    have makes : applyRef ref s = (makeRoom >>= fun _ => modify (putBack ref)) s := by
      unfold applyRef
      rw [Op.bind_ok reads, here]
      rfl
    refine Op.Leads.congr ((missing here).bind fun _ roomy put => ?_) makes
    exact Op.leads_of_ok (Op.modify_ok (putBack ref) roomy) put

end PageStore.Store
