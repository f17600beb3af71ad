import PageStore.Proofs.Store.Flush
import PageStore.Proofs.Store.Rows

/-!
# The cache stays within its capacity

A store fits if no more pages are cached than its capacity, each under its own number
(`Store.Fits`).  Two ways lead into the cache: a page is loaded for who fetches it, or a reference
is handed back to a page that has left the cache meanwhile.  Both make room first where the cache is
full (`makeRoom_fits`); everything else puts only pages that are cached already.  So no operation
lets a store grow beyond its capacity (`Op.Bounded`).

To make room is to take out one page, which is clean and which nobody holds (`evict_ok`).  There is
none exactly if every cached page is dirty or held (`Stuck`), and that is the one way in which a
fetch fails whose page can be read and whose lock was granted (`fetch_missing`).
-/

namespace PageStore

namespace Store

variable {s after locked : Store} {txn : TxnId} {page : PageId} {mode : LockMode} {stored : Page}
  {frame : Frame} {n : Nat}

/-! ## Stores that fit -/

/-- A store of some capacity whose cache is within it, with each page under its own number. -/
structure Fits (n : Nat) (s : Store) : Prop where
  capacity : s.capacity = n
  size : s.cache.size ≤ n
  named : ∀ page frame, s.cache.get? page = some frame → frame.page.id = page

theorem Fits.of_same (fits : s.Fits n) (capacity : after.capacity = s.capacity)
    (cache : after.cache = s.cache) : after.Fits n where
  capacity := capacity.trans fits.capacity
  size := by
    rw [cache]
    exact fits.size
  named := by
    rw [cache]
    exact fits.named

theorem Fits.erase (fits : s.Fits n) (capacity : after.capacity = s.capacity)
    (cache : after.cache = s.cache.erase page) : after.Fits n where
  capacity := capacity.trans fits.capacity
  size := by
    have size := fits.size
    rw [cache, Dictionary.size_erase]
    split <;> omega
  named place frame cached := by
    rw [cache] at cached
    exact fits.named place frame (Dictionary.get?_of_erase cached)

/-- A page is put where it is cached already, or where there is room. -/
theorem Fits.put (fits : s.Fits n) (capacity : after.capacity = s.capacity)
    (cache : after.cache = s.cache.put frame.page.id frame)
    (room : (s.cache.get? frame.page.id).isSome ∨ s.cache.size < n) : after.Fits n where
  capacity := capacity.trans fits.capacity
  size := by
    have size := fits.size
    rw [cache, Dictionary.size_put]
    split
    · exact size
    · next absent => exact room.resolve_left absent
  named place other cached := by
    rw [cache, Dictionary.get?_put] at cached
    split at cached
    · next here =>
      cases cached
      exact here.symm
    · exact fits.named place other cached

theorem Fits.dropPage (fits : s.Fits n) (page : PageId) : (s.dropPage page).Fits n := by
  unfold Store.dropPage
  split
  · exact fits
  · exact fits.erase rfl rfl

theorem Fits.setFrame (fits : s.Fits n) (frame : Frame) : (s.setFrame frame).Fits n := by
  unfold Store.setFrame
  split
  · next old cached =>
    rw [Option.filter_eq_some_iff] at cached
    exact fits.put rfl rfl (.inl (by rw [cached.1]; rfl))
  · exact fits.of_same rfl rfl

theorem Fits.replaceFrame (fits : s.Fits n)
    (room : (s.cache.get? frame.page.id).isSome ∨ s.cache.size < n) :
    (s.replaceFrame frame).Fits n := by
  unfold Store.replaceFrame
  split
  · exact fits.put rfl rfl room
  · split
    · exact fits
    · exact fits.put rfl rfl room

theorem Fits.abort (fits : s.Fits n) (txn : TxnId) : (s.abort txn).Fits n := by
  have drops (pages : List PageId) {s : Store} (fits : s.Fits n) :
      (pages.foldl Store.dropPage s).Fits n := by
    induction pages generalizing s with
    | nil => exact fits
    | cons page pages ih => exact ih (fits.dropPage page)
  exact (drops _ fits).of_same rfl rfl

end Store

open Store

namespace Op

variable {α β : Type} {op : Op α} {s : Store} {n : Nat}

/-- An operation that leaves stores fit, however it ends. -/
def Bounded (op : Op α) : Prop := ∀ n s, Fits n s → op.Leads s (fun _ => Fits n) (Fits n)

theorem Bounded.final (bounded : op.Bounded) (fits : s.Fits n) : (Op.final (op s)).Fits n :=
  (bounded n s fits).final

/-- An operation that leaves the cache alone is bounded. -/
theorem bounded_of_same
    (same : ∀ s, (final (op s)).capacity = s.capacity ∧ (final (op s)).cache = s.cache) :
    op.Bounded := by
  intro n s fits
  have after := fits.of_same (same s).1 (same s).2
  unfold Leads
  cases ran : op s <;> rw [ran] at after <;> exact after

theorem Bounded.bind {rest : α → Op β} (first : op.Bounded) (then' : ∀ a, (rest a).Bounded) :
    (op >>= rest).Bounded :=
  fun n s fits => (first n s fits).bind fun a after => then' a n after

theorem bounded_pure (a : α) : (pure a : Op α).Bounded := fun _ _ fits => fits

theorem bounded_ofExcept (answer : Except Error α) : (ofExcept answer).Bounded :=
  fun _ _ fits => leads_ofExcept (fun _ _ => fits) fits

theorem bounded_forM {l : List α} {each : α → Op Unit} (bounded : ∀ a, (each a).Bounded) :
    (l.forM each).Bounded := by
  induction l with
  | nil => exact bounded_pure ()
  | cons a l ih => exact (bounded a).bind fun _ => ih

end Op

namespace Store

variable {s after locked : Store} {txn : TxnId} {page : PageId} {mode : LockMode} {stored : Page}
  {frame : Frame} {file : HeapFile} {ref : PageRef} {n : Nat}

/-! ## Eviction -/

/-- No page can leave the cache: each is dirty, or somebody holds it. -/
def Stuck (s : Store) : Prop :=
  ∀ page frame, s.cache.get? page = some frame →
    frame.page.isDirty = true ∨ ∃ txn, s.locks.holds txn page = true

/-- One page is evicted, which was cached and clean, and which nobody holds. -/
theorem evict_ok (evicts : evict s = .ok () after) :
    ∃ victim frame, s.cache.get? victim = some frame ∧ frame.page.isDirty = false ∧
      (∀ txn, s.locks.holds txn victim = false) ∧ after = s.dropPage victim ∧
      after.cache = s.cache.erase victim ∧ after.cache.size + 1 = s.cache.size := by
  obtain ⟨victim, evictable, rfl⟩ := (evict_leads s).of_ok evicts
  obtain ⟨frame, cached, clean, free⟩ := (s.isEvictable_iff victim).1 evictable
  have cache : (s.dropPage victim).cache = s.cache.erase victim := by
    unfold dropPage
    rw [cached]
  have present : victim ∈ s.cache.keys := Dictionary.mem_keys_iff.2 (by rw [cached]; rfl)
  have inhabited : 0 < s.cache.size := by
    rw [← Dictionary.length_keys]
    exact List.length_pos_of_mem present
  have unheld (txn : TxnId) : s.locks.holds txn victim = false := by
    refine Bool.eq_false_iff.2 fun held => ?_
    rw [(s.locks.isLocked_iff victim).2 ⟨txn, held⟩] at free
    cases free
  refine ⟨victim, frame, cached, clean, unheld, rfl, cache, ?_⟩
  rw [cache, Dictionary.size_erase, cached, if_pos (by rfl)]
  exact Nat.sub_add_cancel inhabited

/-- A page can be evicted unless none can leave the cache. -/
theorem evict_cases (s : Store) :
    (s.Stuck ∧ evict s = .error (.failed (.cacheExhausted s.capacity)) s) ∨
      (¬ s.Stuck ∧ ∃ after, evict s = .ok () after) := by
  unfold evict
  cases found : s.cachedPages.find? s.isEvictable with
  | some victim =>
    refine .inr ⟨fun stuck => ?_, _, rfl⟩
    obtain ⟨frame, cached, clean, free⟩ := (s.isEvictable_iff victim).1 (List.find?_some found)
    rcases stuck victim frame cached with dirty | held
    · rw [clean] at dirty
      cases dirty
    · rw [(s.locks.isLocked_iff victim).2 held] at free
      cases free
  | none =>
    refine .inl ⟨fun page frame cached => ?_, rfl⟩
    have kept := List.find?_eq_none.1 found page ((s.mem_cachedPages page).2 ⟨frame, cached⟩)
    rw [isEvictable_iff] at kept
    cases dirty : frame.page.isDirty with
    | true => exact .inl rfl
    | false =>
      refine .inr ((s.locks.isLocked_iff page).1 ?_)
      cases held : s.locks.isLocked page with
      | true => rfl
      | false => exact absurd ⟨frame, cached, dirty, held⟩ kept

/-- Once room was made there is some. -/
theorem makeRoom_fits (fits : s.Fits n) :
    makeRoom.Leads s (fun _ after => after.Fits n ∧ after.cache.size < n) (Fits n) := by
  by_cases full : s.capacity ≤ s.cache.size
  · have room := makeRoom_of_full full
    rcases s.evict_cases with ⟨-, fails⟩ | ⟨-, after, evicts⟩
    · exact Op.leads_of_error (room.trans fails) fits
    · obtain ⟨victim, -, -, -, -, dropped, -, size⟩ := evict_ok evicts
      have within := fits.size
      exact Op.leads_of_ok (room.trans evicts) ⟨dropped ▸ fits.dropPage victim, by omega⟩
  · have room := Nat.lt_of_not_le full
    exact Op.leads_of_ok (makeRoom_of_room room) ⟨fits, fits.capacity ▸ room⟩

/-! ## Fetching and handing back -/

theorem bounded_readStored (page : PageId) : (readStored page).Bounded :=
  fun _ s fits => Op.bounded_ofExcept _ _ s fits

theorem addPage_fits (fits : s.Fits n) (room : s.cache.size < n) (page : Page) :
    (addPage page).Leads s (fun _ => Fits n) (Fits n) := by
  have adds (frame : Frame) : Fits n { s with
      cache := s.cache.put frame.page.id frame
      nextSerial := s.nextSerial + 1 } := fits.put rfl rfl (.inr room)
  exact adds ⟨s.nextSerial, page⟩

theorem bounded_load (page : PageId) : (load page).Bounded := by
  intro n s fits
  cases cached : s.cache.get? page with
  | some frame =>
    exact Op.leads_of_ok (load_of_cached cached) fits
  | none =>
    refine Op.Leads.congr ?_ (load_of_missing cached)
    refine (bounded_readStored page n s fits).bind fun stored read fits => ?_
    refine (makeRoom_fits fits).bind ?_
    rintro _ roomy ⟨fits, room⟩
    exact addPage_fits fits room stored

theorem bounded_acquire (txn : TxnId) (page : PageId) (mode : LockMode) :
    (acquire txn page mode).Bounded := by
  refine Op.bounded_of_same fun s => ?_
  unfold acquire
  split <;> exact ⟨rfl, rfl⟩

theorem bounded_fetch (txn : TxnId) (page : PageId) (mode : LockMode) :
    (fetch txn page mode).Bounded := by
  intro n s fits
  refine leads_fetch (bounded_acquire txn page mode n s fits) fun locked fits => ?_
  refine (bounded_load page n locked fits).mono (fun _ _ => id) fun after fits => ?_
  split
  · exact fits
  · exact fits.of_same rfl rfl

/-- A reference names the page that it refers to. -/
def Names (s : Store) (ref : PageRef) : Prop :=
  ∀ page, s.deref? ref = some page → page.id = ref.page

theorem Fits.putBack (fits : s.Fits n)
    (room : ∀ page, s.deref? ref = some page →
      (s.cache.get? page.id).isSome ∨ s.cache.size < n) : (s.putBack ref).Fits n := by
  unfold Store.putBack
  cases refers : s.deref? ref with
  | none => exact fits
  | some page => exact fits.replaceFrame (room page refers)

/-- Handing back a page makes room for it if it has left the cache. -/
theorem applyRef_fits (fits : s.Fits n) (names : s.Names ref) :
    (applyRef ref).Leads s (fun _ => Fits n) (Fits n) := by
  refine applyRef_leads (fun cached => fits.putBack fun page refers => .inl ?_) fun _ => ?_
  · rw [names page refers]
    exact cached
  · refine (makeRoom_fits fits).mono ?_ fun _ => id
    rintro _ roomy ⟨fits, room⟩
    -- The evicted page may be the one that is found now, but there is room for any.
    exact fits.putBack fun _ _ => .inr room

/-! ## What fails a fetch -/

/-- Why a fetch can fail. -/
inductive FetchFault (txn : TxnId) (page : PageId) (s : Store) : Error → Prop
  | deadlock : FetchFault txn page s (.wouldDeadlock txn page)
  | late : FetchFault txn page s (.timedOut txn page)
  | unlisted : FetchFault txn page s (.unknownTableId page.table)
  | foreign (table : TableId) : FetchFault txn page s (.foreignPage page table)
  | outside (path : String) : FetchFault txn page s (.pastEnd page path)
  | exhausted : FetchFault txn page s (.cacheExhausted s.capacity)

theorem readStored_fault {stop : Stop} (fails : readStored page s = .error stop after) :
    ∃ cause, stop = .failed cause ∧ FetchFault txn page s cause := by
  unfold readStored at fails
  cases listed : s.catalog.file page.table with
  | error e =>
    rw [listed] at fails
    cases fails
    unfold Catalog.file at listed
    split at listed
    · cases listed
    · cases listed
      exact ⟨_, rfl, .unlisted⟩
  | ok file =>
    rw [listed] at fails
    replace fails : Op.ofExcept (file.read s.disk page) s = .error stop after := fails
    unfold HeapFile.read HeapFile.checkPage at fails
    split at fails
    · simp only [bind, Except.bind] at fails
      split at fails
      · cases fails
      · cases fails
        exact ⟨_, rfl, .outside file.path⟩
    · cases fails
      exact ⟨_, rfl, .foreign file.table⟩

/-- A page fails to load, it never waits. -/
theorem load_fault {stop : Stop} (fails : load page s = .error stop after) :
    ∃ cause, stop = .failed cause ∧ FetchFault txn page s cause := by
  cases cached : s.cache.get? page with
  | some frame =>
    cases (load_of_cached cached).symm.trans fails
  | none =>
    rcases Op.bind_eq_error.1 ((load_of_missing cached).symm.trans fails) with unread | ⟨stored, read, reads, puts⟩
    · exact readStored_fault unread
    · obtain ⟨rfl, -⟩ := (readStored_leads s page).of_ok reads
      rcases Op.bind_eq_error.1 puts with stuck | ⟨_, roomy, -, adds⟩
      · by_cases full : read.capacity ≤ read.cache.size
        · rw [makeRoom_of_full full] at stuck
          rcases read.evict_cases with ⟨-, evicts⟩ | ⟨-, left, evicts⟩
          · cases evicts.symm.trans stuck
            exact ⟨_, rfl, .exhausted⟩
          · cases evicts.symm.trans stuck
        · cases (makeRoom_of_room (Nat.lt_of_not_le full)).symm.trans stuck
      · cases adds

/-- A fetch fails for its lock, for its page, or for want of room. -/
theorem fetch_fault {cause : Error} (fails : fetch txn page mode s = .error (.failed cause) after) :
    FetchFault txn page s cause := by
  cases asked : acquire txn page mode s with
  | error stop refused =>
    cases (fetch_of_refused asked).symm.trans fails
    unfold acquire at asked
    rcases s.locks.acquire_cases txn page mode (s.overdue txn) with
      ⟨granted, -, eq⟩ | ⟨blockers, -, ⟨-, eq⟩ | ⟨-, -, eq⟩ | ⟨-, -, eq⟩⟩
    all_goals
      rw [eq] at asked
      cases asked
    · exact .deadlock
    · exact .late
  | ok _ locked =>
    cases read : load page locked with
    | ok frame loaded => cases (fetch_of_loaded asked read).symm.trans fails
    | error stop failed =>
      cases (fetch_of_unloaded asked read).symm.trans fails
      have same := ((acquire_leads s txn page mode).of_ok asked).1
      have capacity : locked.capacity = s.capacity := by rw [same]
      obtain ⟨_, failed, fault⟩ : ∃ other, Stop.failed cause = .failed other ∧
        FetchFault txn page locked other := load_fault read
      cases failed
      cases fault with
      | deadlock => exact .deadlock
      | late => exact .late
      | unlisted => exact .unlisted
      | foreign table => exact .foreign table
      | outside path => exact .outside path
      | exhausted => exact capacity ▸ .exhausted

/-- A page that can be read and is not cached is loaded unless the cache is full and no page can
leave it. -/
theorem load_missing (stores : s.Stores page stored) (missing : s.cache.get? page = none) :
    (s.capacity ≤ s.cache.size ∧ s.Stuck ∧
        load page s = .error (.failed (.cacheExhausted s.capacity)) s) ∨
      (¬ (s.capacity ≤ s.cache.size ∧ s.Stuck) ∧ ∃ frame after, load page s = .ok frame after) := by
  obtain ⟨file, listed, read⟩ := stores
  have reads : readStored page s = .ok stored s := by
    unfold readStored
    rw [listed]
    show Op.ofExcept (file.read s.disk page) s = _
    rw [read]
    rfl
  have loads : load page s = (makeRoom >>= fun _ => addPage stored) s :=
    (load_of_missing missing).trans (Op.bind_ok reads)
  rw [loads]
  by_cases full : s.capacity ≤ s.cache.size
  · have room := makeRoom_of_full full
    rcases s.evict_cases with ⟨stuck, fails⟩ | ⟨free, after, evicts⟩
    · exact .inl ⟨full, stuck, Op.bind_error (room.trans fails)⟩
    · exact .inr ⟨fun both => free both.2, _, _, Op.bind_ok (room.trans evicts)⟩
  · have room := makeRoom_of_room (Nat.lt_of_not_le full)
    exact .inr ⟨fun both => full both.1, _, _, Op.bind_ok room⟩

theorem acquire_ok (granted : (s.locks.acquire txn page mode (s.overdue txn)).1 = .granted) :
    ∃ locked, acquire txn page mode s = .ok () locked := by
  have ends := acquire_ends s txn page mode
  cases asked : acquire txn page mode s with
  | ok _ locked => exact ⟨locked, rfl⟩
  | error stop refused => exact absurd granted (ends.of_error asked).1

/-- Locks that a transaction takes on a page that is not cached let no page leave the cache. -/
theorem stuck_of_acquire (granted : acquire txn page mode s = .ok () locked)
    (missing : s.cache.get? page = none) :
    (locked.cache = s.cache ∧ locked.capacity = s.capacity) ∧ (locked.Stuck ↔ s.Stuck) := by
  obtain ⟨-, rfl⟩ := (acquire_ends s txn page mode).of_ok granted
  refine ⟨⟨rfl, rfl⟩, forall_congr' fun place => forall_congr' fun frame => ?_⟩
  refine forall_congr' fun cached => ?_
  have ne : place ≠ page := by
    rintro rfl
    rw [missing] at cached
    cases cached
  have others := s.locks.holders_acquire_of_ne txn mode (s.overdue txn) ne
  have same (other : TxnId) :
      (s.locks.acquire txn page mode (s.overdue txn)).2.holds other place =
        s.locks.holds other place := by
    rw [LockTable.holds, LockTable.mode?, others]
    rfl
  simp only [same]

/-- A fetch that is granted the lock of a page, which can be read and is not cached, fails only
where the cache is full and no page can leave it, and there it leaves the cache as it was. -/
theorem fetch_missing (stores : s.Stores page stored) (missing : s.cache.get? page = none)
    (granted : acquire txn page mode s = .ok () locked) :
    (s.capacity ≤ s.cache.size ∧ s.Stuck ∧ ∃ after, after.cache = s.cache ∧
        fetch txn page mode s = .error (.failed (.cacheExhausted s.capacity)) after) ∨
      (¬ (s.capacity ≤ s.cache.size ∧ s.Stuck) ∧
        ∃ frame after, fetch txn page mode s = .ok frame after) := by
  obtain ⟨⟨cache, capacity⟩, stuck⟩ := stuck_of_acquire granted missing
  have locks := ((acquire_leads s txn page mode).of_ok granted).1
  have stores' : locked.Stores page stored := by
    rw [locks]
    exact stores
  have loads := load_missing stores' (by rw [cache, missing])
  rw [cache, capacity, stuck] at loads
  rcases loads with ⟨full, stuck, fails⟩ | ⟨free, frame, after, ok⟩
  · refine .inl ⟨full, stuck, _, ?_, fetch_of_unloaded granted fails⟩
    split <;> exact cache
  · exact .inr ⟨free, frame, after, fetch_of_loaded granted ok⟩

/-! ## Rows -/

/-- Whoever changes a cached page changes it in the cache, so that handing it back does nothing. -/
theorem storeRow_fits (fits : s.Fits n) (cached : s.cache.get? page = some frame) (row : Row) :
    (storeRow file txn frame row).Leads s
      (fun stored after => after.Fits n ∧
        ∀ record, stored = some record → applyRef frame.ref after = .ok () after) (Fits n) := by
  refine (storeRow_ends file txn frame row s).mono (fun stored after ends => ?_)
    fun _ same => same ▸ fits
  cases stored with
  | none => exact ⟨ends.2 ▸ fits, nofun⟩
  | some record =>
    obtain ⟨changed, inserted, rfl⟩ := ends
    have own := fits.named page frame cached
    exact ⟨fits.setFrame _, fun _ _ => applyRef_setFrame (own ▸ cached)
      (Page.insert_changes inserted).2.id⟩

theorem freeRecord_fits (fits : s.Fits n) (cached : s.cache.get? page = some frame)
    (record : RecordId) :
    (freeRecord file txn frame record).Leads s
      (fun _ after => after.Fits n ∧ applyRef frame.ref after = .ok () after) (Fits n) := by
  refine (freeRecord_ends file txn frame record s).mono (fun _ after ends => ?_)
    fun _ same => same ▸ fits
  obtain ⟨changed, deleted, rfl⟩ := ends
  have own := fits.named page frame cached
  exact ⟨fits.setFrame _, applyRef_setFrame (own ▸ cached) (Page.delete_changes deleted).2.id⟩

theorem fetch_fits (fits : s.Fits n) (txn : TxnId) (page : PageId) (mode : LockMode) :
    (fetch txn page mode).Leads s
      (fun frame after => after.Fits n ∧ after.cache.get? page = some frame) (Fits n) :=
  ((bounded_fetch txn page mode n s fits).and (fetch_leads s txn page mode)).mono
    (fun _ _ ⟨fits, _, cached, _⟩ => ⟨fits, cached⟩) fun _ ⟨fits, _⟩ => fits

theorem bounded_pageCount (file : HeapFile) : (pageCount file).Bounded := fun _ _ fits => fits

theorem bounded_writeInto (file : HeapFile) (page : Page) : (writeInto file page).Bounded := by
  refine Op.bounded_of_same fun s => ?_
  unfold writeInto
  split <;> exact ⟨rfl, rfl⟩

theorem appendPage_fits (fits : s.Fits n) (file : HeapFile) (txn : TxnId) :
    (appendPage file txn).Leads s
      (fun frame after => after.Fits n ∧ ∃ page, after.cache.get? page = some frame) (Fits n) := by
  refine (bounded_pageCount file n s fits).bind fun number counted fits => ?_
  refine (bounded_acquire txn _ .exclusive n counted fits).bind fun _ locked fits => ?_
  refine (bounded_writeInto file _ n locked fits).bind fun _ grown fits => ?_
  exact (fetch_fits fits txn _ .exclusive).mono (fun _ _ ⟨fits, cached⟩ => ⟨fits, _, cached⟩)
    fun _ => id

theorem storeInPage_fits (fits : s.Fits n) (file : HeapFile) (txn : TxnId) (row : Row)
    (number : Nat) :
    (storeInPage file txn row number).Leads s
      (fun stored after => after.Fits n ∧
        ∀ ref record, stored = some (ref, record) → applyRef ref after = .ok () after)
      (Fits n) := by
  refine (fetch_fits fits txn _ .exclusive).bind fun frame fetched ⟨fits, cached⟩ => ?_
  refine (storeRow_fits fits cached row).bind fun stored after ⟨fits, kept⟩ => ?_
  refine Op.leads_pure _ ⟨fits, fun ref record same => ?_⟩
  cases stored with
  | none => cases same
  | some placed =>
    cases same
    exact kept record rfl

theorem storeInFresh_fits (fits : s.Fits n) (file : HeapFile) (txn : TxnId) (row : Row) :
    (storeInFresh file txn row).Leads s
      (fun stored after => after.Fits n ∧ applyRef stored.1 after = .ok () after) (Fits n) := by
  refine (appendPage_fits fits file txn).bind fun frame fetched ⟨fits, page, cached⟩ => ?_
  refine (storeRow_fits fits cached row).bind fun stored after ⟨fits, kept⟩ => ?_
  cases stored with
  | none => exact Op.leads_fail _ fits
  | some placed => exact Op.leads_pure _ ⟨fits, kept placed rfl⟩

theorem freeInPage_fits (fits : s.Fits n) (file : HeapFile) (txn : TxnId) (record : RecordId) :
    (freeInPage file txn record).Leads s
      (fun ref after => after.Fits n ∧ applyRef ref after = .ok () after) (Fits n) := by
  refine (fetch_fits fits txn record.page .exclusive).bind fun frame fetched ⟨fits, cached⟩ => ?_
  exact (freeRecord_fits fits cached record).bind fun _ after kept => Op.leads_pure _ kept

/-! ## The end of a transaction -/

theorem bounded_logWrite (entry : Entry) : (logWrite entry).Bounded := by
  refine Op.bounded_of_same fun s => ?_
  unfold logWrite
  split <;> exact ⟨rfl, rfl⟩

theorem bounded_logForce : logForce.Bounded := by
  refine Op.bounded_of_same fun s => ?_
  unfold logForce
  split <;> exact ⟨rfl, rfl⟩

theorem bounded_writeStored (page : Page) : (writeStored page).Bounded := by
  refine Op.bounded_of_same fun s => ?_
  unfold writeStored
  split <;> exact ⟨rfl, rfl⟩

/-- To mark a frame as stored leaves a store fit. -/
theorem bounded_setFrame (frame : Frame) : (modify fun s => s.setFrame frame : Op Unit).Bounded :=
  fun _ _ fits => fits.setFrame frame

theorem bounded_flushDirty (frame : Frame) (txn : TxnId) : (flushDirty frame txn).Bounded :=
  (bounded_logWrite _).bind fun _ => bounded_logForce.bind fun _ =>
    (bounded_writeStored _).bind fun _ => bounded_setFrame _

theorem bounded_flushPage (page : PageId) : (flushPage page).Bounded := by
  intro n s fits
  rcases s.dirty_or_clean page with ⟨frame, txn, cached, dirty⟩ | clean
  · exact (bounded_flushDirty frame txn n s fits).congr (flushPage_of_dirty cached dirty)
  · exact Op.leads_of_ok (flushPage_of_clean clean) fits

theorem bounded_commit (txn : TxnId) : (commit txn).Bounded := by
  intro n s fits
  have flushes : (flushPages txn).Leads s (fun _ => Fits n) (Fits n) :=
    Op.bounded_forM bounded_flushPage n s fits
  refine (commit_ends flushes).mono ?_ ?_
  · rintro _ _ ⟨flushed, fits, rfl⟩
    exact fits.of_same rfl rfl
  · rintro _ ⟨flushed, fits, rfl⟩
    exact fits.abort txn

end Store

end PageStore
