import PageStore.Proofs.Schedule.Slotted.Accesses

/-!
# What fits in the cache

A transaction keeps the lock of every page that it has fetched, and a page that is held does not
leave the cache (`Store.fetch_keeps`).  So a transaction that goes through the pages of a table takes
one place of the cache for each (`Store.Passed`).  What was cached before it came can leave, as long
as nobody else holds anything and nothing is dirty.  The next page is fetched exactly if the pages
that were passed leave a place (`Passed.fetch_cases`), whichever of the others are cached and
whichever the cache gives up first.

So a scan takes as many places as its table has pages, and an insertion as many as there are pages up
to the first with a free slot, or up to the one that is appended (`HeapFile.firstOpen`).
-/

namespace PageStore

/-! ## The first page with a free slot -/

namespace HeapFile

variable {file : HeapFile} {disk : Disk} {number : Nat} {stored : Page}

/-- Whether a page of a file has a free slot, by what is stored. -/
def hasFree (file : HeapFile) (disk : Disk) (number : Nat) : Bool :=
  match file.read disk ⟨file.table, number⟩ with
  | .ok page => (List.range file.slots).any fun slot => !page.isUsed file.schema slot
  | .error _ => false

/-- The number of the first page that has a free slot.  If there is none it is the number of the page
that would be appended next. -/
def firstOpen (file : HeapFile) (disk : Disk) : Nat :=
  ((List.range (file.pageCount disk)).find? (file.hasFree disk)).getD (file.pageCount disk)

theorem hasFree_iff (read : file.read disk ⟨file.table, number⟩ = .ok stored) :
    file.hasFree disk number = true ↔ (stored.firstFree? file.schema).isSome := by
  have slots : stored.slots file.schema = file.slots := by
    rw [Page.slots, (read_shape read).2, HeapFile.slots]
  rw [Page.firstFree?_isSome_iff, slots]
  simp only [hasFree, read, List.any_eq_true, List.mem_range, Bool.not_eq_true']

end HeapFile

/-! ## Operations that need room -/

namespace Op

variable {α β : Type} {op : Op α} {rest : α → Op β} {s mid : Store} {places : Nat}

/-- An operation that succeeds exactly if the cache has so many places, and fails for want of room if
it has fewer. -/
structure Needs (op : Op α) (s : Store) (places : Nat) : Prop where
  ok_iff : (∃ a after, op s = .ok a after) ↔ places ≤ s.capacity
  lacking : s.capacity < places →
    ∃ after, op s = .error (.failed (.cacheExhausted s.capacity)) after

theorem needs_of_ok {a : α} (ok : op s = .ok a mid) (room : places ≤ s.capacity) :
    op.Needs s places :=
  ⟨⟨fun _ => room, fun _ => ⟨a, mid, ok⟩⟩, fun few => absurd room (Nat.not_le_of_lt few)⟩

theorem needs_of_error (fails : op s = .error (.failed (.cacheExhausted s.capacity)) mid)
    (few : s.capacity < places) : op.Needs s places := by
  refine ⟨⟨fun ⟨a, after, ok⟩ => ?_, fun room => absurd room (Nat.not_le_of_lt few)⟩,
    fun _ => ⟨mid, fails⟩⟩
  cases fails.symm.trans ok

/-- What an operation comes to needs the room that is left to it. -/
theorem Needs.congr {last : Op α} (needs : last.Needs mid places) (same : op s = last mid)
    (capacity : mid.capacity = s.capacity) : op.Needs s places := by
  refine ⟨?_, fun few => ?_⟩
  · rw [same, ← capacity]
    exact needs.ok_iff
  · rw [same, ← capacity]
    exact needs.lacking (capacity ▸ few)

/-- What is made of an answer needs no room. -/
theorem Needs.map (needs : op.Needs s places) (f : α → β) :
    (do return f (← op) : Op β).Needs s places := by
  rcases Nat.lt_or_ge s.capacity places with few | room
  · obtain ⟨after, fails⟩ := needs.lacking few
    exact needs_of_error (Op.bind_error fails) few
  · obtain ⟨a, after, ok⟩ := needs.ok_iff.2 room
    exact needs_of_ok (Op.bind_ok ok) room

end Op

namespace Store

variable {s after : Store} {txn other : TxnId} {file : HeapFile} {page place : PageId}
  {frame kept : Frame} {mode : LockMode} {number pages : Nat} {row : Row}

/-! ## Pages that are held stay cached -/

/-- Loading a page takes no other page out of the cache that somebody holds. -/
theorem load_keeps (held : s.locks.holds other place = true)
    (cached : s.cache.get? place = some kept) (loaded : load page s = .ok frame after) :
    after.cache.get? place = some kept := by
  cases here : s.cache.get? page with
  | some found =>
    cases (load_of_cached here).symm.trans loaded
    exact cached
  | none =>
    obtain ⟨stored, read, reads, loaded⟩ :=
      Op.bind_eq_ok.1 ((load_of_missing here).symm.trans loaded)
    obtain ⟨_, roomy, makes, adds⟩ := Op.bind_eq_ok.1 loaded
    obtain ⟨rfl, stores⟩ := (readStored_leads s page).of_ok reads
    have stays : roomy.cache.get? place = some kept := by
      rcases (makeRoom_evicts read).of_ok makes with rfl | ⟨victim, evictable, rfl⟩
      · exact cached
      · obtain ⟨-, -, -, free⟩ := (read.isEvictable_iff victim).1 evictable
        rw [get?_dropPage, if_neg, cached]
        rintro rfl
        rw [(read.locks.isLocked_iff place).2 ⟨other, held⟩] at free
        cases free
    cases adds
    refine (Dictionary.get?_put ..).trans ((if_neg ?_).trans stays)
    rintro rfl
    rw [stores.id_eq, here] at cached
    cases cached

/-- Fetching a page takes no page out of the cache that somebody holds. -/
theorem fetch_keeps (held : s.locks.holds other place = true)
    (cached : s.cache.get? place = some kept)
    (fetched : fetch txn page mode s = .ok frame after) :
    after.cache.get? place = some kept ∧ after.locks.holds other place = true := by
  obtain ⟨locked, asked, loads⟩ := loaded_of_fetch fetched
  obtain ⟨same, widens, -⟩ := (acquire_leads s txn page mode).of_ok asked
  have still := widens.holds held
  have cached : locked.cache.get? place = some kept := by
    rw [same]
    exact cached
  exact ⟨load_keeps still cached loads, ((load_leads locked page).of_ok loads).2.1.symm ▸ still⟩

/-! ## Passing through the pages of a table -/

/-- A store in which a transaction has fetched the first pages of a table, and nobody holds anything
else, but for the next page, which the transaction may hold.  Nothing is dirty. -/
structure Passed (txn : TxnId) (file : HeapFile) (number : Nat) (s : Store) : Prop where
  coherent : s.Coherent
  grounded : s.Grounded
  fits : s.Fits s.capacity
  listed : s.catalog.file file.table = .ok file
  clean : ∀ page frame, s.cache.get? page = some frame → frame.page.isDirty = false
  held : ∀ other page, s.locks.holds other page = true →
    other = txn ∧ page.table = file.table ∧ page.number ≤ number
  passed : ∀ earlier, earlier < number → s.locks.holds txn ⟨file.table, earlier⟩ = true ∧
    (s.cache.get? ⟨file.table, earlier⟩).isSome

/-- The first pages of a table. -/
def firstPages (file : HeapFile) (number : Nat) : List PageId :=
  (List.range number).map (⟨file.table, ·⟩)

theorem mem_firstPages :
    page ∈ firstPages file number ↔ page.table = file.table ∧ page.number < number := by
  rw [firstPages, List.mem_map]
  constructor
  · rintro ⟨earlier, mem, rfl⟩
    exact ⟨rfl, List.mem_range.1 mem⟩
  · rintro ⟨own, before⟩
    exact ⟨page.number, List.mem_range.2 before, by rw [← own]⟩

theorem nodup_firstPages (file : HeapFile) (number : Nat) : (firstPages file number).Nodup :=
  List.pairwise_map.2 (List.nodup_range.imp fun ne same => ne (congrArg PageId.number same))

theorem length_firstPages (file : HeapFile) (number : Nat) :
    (firstPages file number).length = number := by
  rw [firstPages, List.length_map, List.length_range]

/-- The pages that were passed are cached. -/
theorem Passed.firstPages_subset (passed : Passed txn file number s) :
    firstPages file number ⊆ s.cache.keys := by
  intro page mem
  obtain ⟨own, before⟩ := mem_firstPages.1 mem
  have cached := (passed.passed page.number before).2
  rw [← own] at cached
  exact Dictionary.mem_keys_iff.2 cached

theorem Passed.le_size (passed : Passed txn file number s) : number ≤ s.cache.size := by
  have few := ((nodup_firstPages file number).subperm passed.firstPages_subset).length_le
  rwa [length_firstPages, Dictionary.length_keys] at few

/-- While the next page is missing, the cache is full of pages that cannot leave it exactly if there
are no more places than pages passed. -/
theorem Passed.stuck_iff (passed : Passed txn file number s)
    (missing : s.cache.get? ⟨file.table, number⟩ = none) :
    (s.capacity ≤ s.cache.size ∧ s.Stuck) ↔ s.capacity ≤ number := by
  constructor
  · rintro ⟨full, stuck⟩
    have among : s.cache.keys ⊆ firstPages file number := by
      intro page mem
      obtain ⟨frame, cached⟩ := Option.isSome_iff_exists.1 (Dictionary.mem_keys_iff.1 mem)
      obtain ⟨other, held⟩ := (stuck page frame cached).resolve_left
        (Bool.eq_false_iff.1 (passed.clean page frame cached))
      obtain ⟨-, own, upTo⟩ := passed.held other page held
      refine mem_firstPages.2 ⟨own, Nat.lt_of_le_of_ne upTo ?_⟩
      rintro rfl
      rw [← own, cached] at missing
      cases missing
    have few := (s.cache.nodup_keys.subperm among).length_le
    rw [length_firstPages, Dictionary.length_keys] at few
    exact Nat.le_trans full few
  · intro few
    have full := Nat.le_trans few passed.le_size
    refine ⟨full, fun page frame cached => .inr ⟨txn, ?_⟩⟩
    -- There are as many places as pages passed, so nothing else is cached.
    have same : (firstPages file number).Perm s.cache.keys := by
      refine ((nodup_firstPages file number).subperm passed.firstPages_subset).perm_of_length_le ?_
      rw [length_firstPages, Dictionary.length_keys]
      exact Nat.le_trans passed.fits.size few
    have mem : page ∈ firstPages file number :=
      same.mem_iff.2 (Dictionary.mem_keys_iff.2 (by rw [cached]; rfl))
    obtain ⟨own, before⟩ := mem_firstPages.1 mem
    have held := (passed.passed page.number before).1
    rwa [← own] at held

/-- If there are no more places than pages passed, the next page is not cached. -/
theorem Passed.missing_of_full (passed : Passed txn file number s) (few : s.capacity ≤ number) :
    s.cache.get? ⟨file.table, number⟩ = none := by
  rw [← Option.not_isSome_iff_eq_none]
  intro cached
  have among : firstPages file (number + 1) ⊆ s.cache.keys := by
    intro page mem
    obtain ⟨own, upTo⟩ := mem_firstPages.1 mem
    rcases Nat.lt_succ_iff_lt_or_eq.1 upTo with before | here
    · exact passed.firstPages_subset (mem_firstPages.2 ⟨own, before⟩)
    · rw [← own, ← here] at cached
      exact Dictionary.mem_keys_iff.2 cached
  have more := ((nodup_firstPages file (number + 1)).subperm among).length_le
  rw [length_firstPages, Dictionary.length_keys] at more
  exact absurd (Nat.le_trans more (Nat.le_trans passed.fits.size few)) (Nat.not_succ_le_self number)

/-- A store in which one more page was passed, and is as it is stored. -/
structure Passes (txn : TxnId) (file : HeapFile) (number : Nat) (s : Store) (frame : Frame)
    (after : Store) : Prop where
  passed : Passed txn file (number + 1) after
  disk : after.disk = s.disk
  catalog : after.catalog = s.catalog
  capacity : after.capacity = s.capacity
  cached : after.cache.get? ⟨file.table, number⟩ = some frame
  read : file.read s.disk ⟨file.table, number⟩ = .ok frame.page

theorem Passed.passes (passed : Passed txn file number s)
    (fetched : fetch txn ⟨file.table, number⟩ mode s = .ok frame after) :
    Passes txn file number s frame after := by
  have leads := ((fetch_leads s txn ⟨file.table, number⟩ mode).and
    (fetch_builds passed.grounded txn _ mode)).and
      (bounded_fetch txn ⟨file.table, number⟩ mode _ s passed.fits)
  obtain ⟨⟨⟨fetches, cached, held⟩, builds⟩, fits⟩ := leads.of_ok fetched
  have coherent := passed.coherent.turnover fetches.toTurnover
  have listed : after.catalog.file file.table = .ok file := by
    rw [fetches.catalog, passed.listed]
  have clean (place : PageId) (kept : Frame) (now : after.cache.get? place = some kept) :
      kept.page.isDirty = false := by
    rcases fetches.read place kept now with before | stores
    · exact passed.clean place kept before
    · rw [Page.isDirty, stores.dirtier_eq]
      rfl
  have mine : after.locks.holds txn ⟨file.table, number⟩ = true := by
    rw [LockTable.holds]
    rcases held with held | held <;> rw [held] <;> rfl
  refine ⟨⟨coherent, passed.grounded.builds builds, fits.capacity.symm ▸ fits, listed, clean,
    fun other place held => ?_, fun earlier before => ?_⟩, fetches.disk, fetches.catalog,
    fits.capacity, cached, ?_⟩
  · rcases fetch_held fetched other place held with held | ⟨own, rfl⟩
    · obtain ⟨own, table, upTo⟩ := passed.held other place held
      exact ⟨own, table, Nat.le_succ_of_le upTo⟩
    · exact ⟨own, rfl, Nat.le_succ number⟩
  · rcases Nat.lt_succ_iff_lt_or_eq.1 before with before | rfl
    · obtain ⟨held, here⟩ := passed.passed earlier before
      obtain ⟨kept, here⟩ := Option.isSome_iff_exists.1 here
      obtain ⟨stays, still⟩ := fetch_keeps held here fetched
      exact ⟨still, by rw [stays]; rfl⟩
    · exact ⟨mine, by rw [cached]; rfl⟩
  · have stores := (coherent.faithful _ frame cached).stores
      (Option.not_isSome_iff_eq_none.1 (Bool.eq_false_iff.1 (clean _ frame cached)))
    rw [← fetches.disk]
    exact stores.read listed

/-- The next page is fetched exactly if the pages that were passed leave a place. -/
theorem Passed.fetch_cases (passed : Passed txn file number s)
    (inside : number < file.pageCount s.disk) (mode : LockMode) :
    (number < s.capacity ∧ ∃ frame after, fetch txn ⟨file.table, number⟩ mode s = .ok frame after ∧
        Passes txn file number s frame after) ∨
      s.capacity ≤ number ∧ ∃ after, fetch txn ⟨file.table, number⟩ mode s =
        .error (.failed (.cacheExhausted s.capacity)) after := by
  obtain ⟨locked, asks⟩ := acquire_ok (LockTable.acquire_of_alone
    (fun other held => (passed.held other ⟨file.table, number⟩ held).1) mode (s.overdue txn))
  cases cached : s.cache.get? ⟨file.table, number⟩ with
  | some frame =>
    have fetched := fetch_of_cached asks cached
    refine .inl ⟨Nat.lt_of_not_le fun few => ?_, frame, locked, fetched, passed.passes fetched⟩
    rw [passed.missing_of_full few] at cached
    cases cached
  | none =>
    have positive := (passed.coherent.catalog _ _ passed.listed).2.pageSize_pos
    have stores : s.Stores ⟨file.table, number⟩ _ := ⟨file, passed.listed,
      HeapFile.read_eq_ok.2 ⟨rfl, (HeapFile.lt_pageCount_iff positive number).1 inside, rfl⟩⟩
    rcases fetch_missing stores cached asks with
      ⟨full, stuck, after, -, fails⟩ | ⟨free, frame, after, fetched⟩
    · exact .inr ⟨(passed.stuck_iff cached).1 ⟨full, stuck⟩, after, fails⟩
    · refine .inl ⟨Nat.lt_of_not_le fun few => ?_, frame, after, fetched, passed.passes fetched⟩
      exact free ((passed.stuck_iff cached).2 few)

/-! ## Scanning -/

/-- A scan takes a place for each page, in which every record can be read. -/
theorem Passed.readPages_needs (passed : Passed txn file number s) (legible : s.recordAt.Legible)
    (inside : number + pages ≤ file.pageCount s.disk) (mode : LockMode) :
    (readPages file txn mode pages number).Needs s (number + pages) := by
  induction pages generalizing s number with
  | zero => exact Op.needs_of_ok rfl (Nat.le_trans passed.le_size passed.fits.size)
  | succ pages ih =>
    rcases passed.fetch_cases (by omega) mode with
      ⟨-, frame, after, fetched, passes⟩ | ⟨few, after, fails⟩
    · have stores : s.Stores ⟨file.table, number⟩ frame.page := ⟨file, passed.listed, passes.read⟩
      obtain ⟨rows, decoded⟩ : ∃ rows, frame.page.rows file.schema = .ok rows :=
        Page.exists_rows fun slot => recordAt_of_stores stores passed.listed slot ▸ legible _
      have records : after.recordAt = s.recordAt := recordAt_of_disk passes.catalog passes.disk
      have rest := ih passes.passed (records ▸ legible) (by rw [passes.disk]; omega)
      rw [Nat.succ_add_eq_add_succ] at rest
      have decodes : Op.ofExcept (frame.page.rows file.schema) after = .ok rows after := by
        rw [decoded]
        rfl
      exact (rest.map (rows ++ ·)).congr ((Op.bind_ok fetched).trans (Op.bind_ok decodes))
        passes.capacity
    · exact Op.needs_of_error (Op.bind_error fails) (by omega)

/-! ## Inserting -/

/-- A row is stored in a page that was just passed if the page has a free slot. -/
theorem Passes.storeRow (passes : Passes txn file number s frame after)
    (fits : row.fits file.schema = true) :
    (file.hasFree s.disk number = true ∧ ∃ record last,
        Store.storeRow file txn frame row after = .ok (some record) last ∧
        applyRef frame.ref last = .ok () last) ∨
      file.hasFree s.disk number = false ∧
        Store.storeRow file txn frame row after = .ok none after := by
  have hasFree := HeapFile.hasFree_iff passes.read
  cases free : frame.page.firstFree? file.schema with
  | none =>
    refine .inr ⟨Bool.eq_false_iff.2 fun open' => ?_, by simp only [Store.storeRow, free]⟩
    have some := hasFree.1 open'
    rw [free] at some
    cases some
  | some slot =>
    have stores : Store.storeRow file txn frame row after =
        .ok (some ⟨frame.page.id, slot⟩) (after.setFrame
          { frame with page := (frame.page.store file.schema slot row).dirtiedBy txn }) := by
      simp only [Store.storeRow, free, Page.insert, fits, if_true]
    have handed := ((storeRow_fits passes.passed.fits passes.cached row).of_ok stores).2 _ rfl
    exact .inl ⟨hasFree.2 (by rw [free]; rfl), _, _, stores, handed⟩

/-- A page that is appended is passed once it was fetched. -/
theorem Passed.appendPage (passed : Passed txn file (file.pageCount s.disk) s) :
    ∃ grown, Store.appendPage file txn s =
        fetch txn ⟨file.table, file.pageCount s.disk⟩ .exclusive grown ∧
      Passed txn file (file.pageCount s.disk) grown ∧ grown.capacity = s.capacity ∧
      file.pageCount s.disk < file.pageCount grown.disk ∧
      file.read grown.disk ⟨file.table, file.pageCount s.disk⟩ =
        .ok (.blank ⟨file.table, file.pageCount s.disk⟩ file.pageSize) := by
  have sound := (passed.coherent.catalog _ _ passed.listed).2
  obtain ⟨locks, disk, appending, same⟩ := passed.grounded.appendPage_eq passed.listed txn
  have count := appending.writes.pageCount_next sound.pageSize_pos
  refine ⟨{ s with locks := locks, disk := disk }, same, ⟨passed.coherent.readies appending.readies,
    passed.grounded.builds appending.builds, passed.fits.of_same rfl rfl, passed.listed,
    passed.clean, fun other page held => ?_, fun earlier before => ?_⟩, rfl, ?_,
    appending.writes.read_self⟩
  · rcases appending.adds other page held with held | ⟨own, rfl⟩
    · exact passed.held other page held
    · exact ⟨own, rfl, Nat.le_refl _⟩
  · obtain ⟨held, cached⟩ := passed.passed earlier before
    exact ⟨appending.widens.holds held, cached⟩
  · rw [count]
    exact Nat.lt_succ_self _

/-- An appended page takes the place after all pages of the table. -/
theorem Passed.storeInFresh_needs (passed : Passed txn file (file.pageCount s.disk) s)
    (fits : row.fits file.schema = true) :
    (do
      let stored ← storeInFresh file txn row
      applyRefs [stored.1] : Op Unit).Needs s (file.pageCount s.disk + 1) := by
  obtain ⟨grown, appends, passed', capacity, inside, blank⟩ := passed.appendPage
  rcases passed'.fetch_cases inside .exclusive with
    ⟨room, frame, fetched, fetches, passes⟩ | ⟨few, after, fails⟩
  · have sound := (passed.coherent.catalog _ _ passed.listed).2
    have open' := (HeapFile.hasFree_iff blank).2 (Page.firstFree?_blank _ sound.slots_pos)
    rcases passes.storeRow fits with ⟨-, record, last, stores, handed⟩ | ⟨full, -⟩
    · have places : storeInFresh file txn row s = .ok (frame.ref, record) last :=
        (Op.bind_ok (appends.trans fetches)).trans (Op.bind_ok stores)
      have hands : applyRefs [frame.ref] last = .ok () last := Op.bind_ok handed
      exact Op.needs_of_ok ((Op.bind_ok places).trans hands) (capacity ▸ room)
    · rw [open'] at full
      cases full
  · have full : storeInFresh file txn row s =
        .error (.failed (.cacheExhausted grown.capacity)) after :=
      Op.bind_error (appends.trans fails)
    rw [capacity] at full
    exact Op.needs_of_error (Op.bind_error full) (capacity ▸ Nat.lt_succ_of_le few)

theorem le_find?_range' (number pages : Nat) (test : Nat → Bool) :
    number ≤ ((List.range' number pages).find? test).getD (number + pages) := by
  cases found : (List.range' number pages).find? test with
  | none => exact Nat.le_add_right number pages
  | some first => exact (List.mem_range'_1.1 (List.mem_of_find?_eq_some found)).1

/-- What an insertion needs that is to try the pages from a number on. -/
theorem Passed.storeFrom_needs (passed : Passed txn file number s)
    (fits : row.fits file.schema = true) (whole : number + pages = file.pageCount s.disk) :
    (do
      let stored ← storeFrom file txn row (List.range' number pages)
      applyRefs [stored.1] : Op Unit).Needs s
        (((List.range' number pages).find? (file.hasFree s.disk)).getD (file.pageCount s.disk) +
          1) := by
  induction pages generalizing s number with
  | zero =>
    obtain rfl : number = file.pageCount s.disk := whole
    exact passed.storeInFresh_needs fits
  | succ pages ih =>
    have least := le_find?_range' number (pages + 1) (file.hasFree s.disk)
    rw [whole] at least
    rw [List.range'_succ, List.find?_cons] at least ⊢
    have tries := storeFrom_cons file txn row number (List.range' (number + 1) pages) s
    rcases passed.fetch_cases (by omega) .exclusive with
      ⟨room, frame, fetched, fetches, passes⟩ | ⟨few, after, fails⟩
    · rcases passes.storeRow fits with ⟨free, record, last, stores, handed⟩ | ⟨full, stores⟩
      · have places : storeInPage file txn row number s = .ok (some (frame.ref, record)) last :=
          (Op.bind_ok fetches).trans (Op.bind_ok stores)
        have hands : applyRefs [frame.ref] last = .ok () last := Op.bind_ok handed
        rw [places] at tries
        rw [free]
        exact Op.needs_of_ok ((Op.bind_ok tries).trans hands) room
      · have passedBy : storeInPage file txn row number s = .ok none fetched :=
          (Op.bind_ok fetches).trans (Op.bind_ok stores)
        rw [passedBy] at tries
        have rest := ih passes.passed (by rw [passes.disk]; omega)
        rw [passes.disk] at rest
        rw [full]
        refine rest.congr ?_ passes.capacity
        show EStateM.bind _ _ s = EStateM.bind _ _ fetched
        rw [EStateM.bind, EStateM.bind, tries]
    · have stops : storeInPage file txn row number s =
          .error (.failed (.cacheExhausted s.capacity)) after := Op.bind_error fails
      rw [stops] at tries
      exact Op.needs_of_error (Op.bind_error tries) (Nat.lt_succ_of_le (Nat.le_trans few least))

end Store

open Store

namespace System

variable {start sys : System} {reports : List Report} {allowed : System → Action → Prop}
  {txn : TxnId} {file : HeapFile} {row : Row}

/-- While nothing is dirty and nobody holds anything, a scan of a table succeeds exactly if the cache
has a place for each page of the table, and the insertion of a row that fits exactly if it has one
for each page up to the first that has a free slot, or up to the appended one.  It does not matter
which pages are cached.  If there are fewer places, they fail for want of them. -/
theorem scans_and_insertions_need_their_pages (fresh : start.Fresh)
    (legible : start.store.recordAt.Legible) (run : Run allowed start reports sys)
    (listed : sys.store.catalog.file file.table = .ok file)
    (clean : ∀ page frame, sys.store.cache.get? page = some frame → frame.page.isDirty = false)
    (unlocked : ∀ other page, sys.store.locks.holds other page = false)
    (fits : row.fits file.schema = true) :
    (∀ mode, (scanAll txn file.table mode).Needs sys.store (file.pageCount sys.store.disk)) ∧
      (insert txn file.table row).Needs sys.store (file.firstOpen sys.store.disk + 1) := by
  have rooted := run.rooted fresh
  have passed : Passed txn file 0 sys.store := by
    refine ⟨(run.steady fresh).coherent, rooted.grounded, rooted.fits, listed, clean,
      fun other page held => ?_, fun earlier before => absurd before (Nat.not_lt_zero earlier)⟩
    rw [unlocked] at held
    cases held
  refine ⟨fun mode => ?_, ?_⟩
  · have reads := passed.readPages_needs (run.legible fresh legible).stored
      (Nat.le_of_eq (Nat.zero_add (file.pageCount sys.store.disk))) mode
    rw [Nat.zero_add] at reads
    exact reads.congr ((scanAll_eq ..).trans (Op.bind_ok (fileOf_listed listed))) rfl
  · have places := passed.storeFrom_needs fits (Nat.zero_add (file.pageCount sys.store.disk))
    rw [← List.range_eq_range'] at places
    exact places.congr (insert_eq listed fits) rfl

/-- The statement above for a table of two full pages and a cache of two places: it can be scanned,
but no row can be inserted. -/
theorem scans_and_insertions_need_their_pages_of_full_table :
    let table := smallFile.table
    let sys := small.acts [.begin, .demand 0 (.insert table ⟨[.int 5], none⟩), .advance 0,
      .commit 0, .begin, .demand 1 (.insert table ⟨[.int 6], none⟩), .advance 1, .advance 1,
      .commit 1, .begin]
    sys.store.capacity = 2 ∧ smallFile.pageCount sys.store.disk = 2 ∧
      smallFile.firstOpen sys.store.disk = 2 ∧
      (∀ mode, (scanAll 2 table mode).Needs sys.store (smallFile.pageCount sys.store.disk)) ∧
      (insert 2 table ⟨[.int 7], none⟩).Needs sys.store (smallFile.firstOpen sys.store.disk + 1) := by
  intro table sys
  have nobody : sys.store.locks.pages.entries = [] := by decide +kernel
  have clean : ∀ entry ∈ sys.store.cache.entries, entry.2.page.isDirty = false := by decide +kernel
  exact ⟨by decide +kernel, by decide +kernel, by decide +kernel,
    scans_and_insertions_need_their_pages small_fresh
      (legible_of_empty (s := small.store) small_fresh.catalog fun _ => rfl)
      (run_acts small fun _ _ _ => trivial) (by decide +kernel)
      (fun page frame cached => clean _ (Dictionary.mem_entries_iff.2 cached))
      (LockTable.holds_of_nobody nobody) (by decide +kernel)⟩

end System

end PageStore
