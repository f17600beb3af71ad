import PageStore.Proofs.Schedule.Slotted.Sole
import PageStore.Proofs.Schedule.Undisturbed.Tables

/-!
# Inserting alone into a table

A row that is inserted into a table by a transaction alone goes to the place that a table of slots
has for it (`Store.Places`).  The insertion fetches page after page.  What it has passed is full
(`Sole.storeInPage`), so the free slot that it comes to is the first; and if it comes to the end,
the table is full.  It then appends a page (`Sole.storeInFresh`).  An insertion fails only if the
cache has no room for the pages that the table has by then (`Store.Crowded`).
-/

namespace PageStore.Store

variable {s after : Store} {txn : TxnId} {file : HeapFile} {frame : Frame} {number : Nat}
  {row : Row} {record : RecordId} {mode : LockMode}

/-- A row that was stored where a table of slots has it. -/
structure Places (txn : TxnId) (file : HeapFile) (row : Row) (s : Store)
    (stored : PageRef × RecordId) (after : Store) : Prop where
  sole : Sole txn file after
  capacity : after.capacity = s.capacity
  handed : applyRef stored.1 after = .ok () after
  step : (s.slotTable file).Step file (.insert row) (.ok []) (after.slotTable file)

/-- What an insertion leaves that found no room: the cache has fewer places than the table has
pages, with the one that was appended if all others were full. -/
structure Crowded (file : HeapFile) (s after : Store) : Prop where
  lacking : s.capacity < file.pageCount after.disk
  grown : file.pageCount after.disk = file.pageCount s.disk ∨ (s.slotTable file).IsFull file

/-- A page that a transaction holds exclusively is full, or it stores a row in its first free
slot. -/
theorem Turned.storeRow (turned : Turned txn file .exclusive number s frame after)
    (fits : row.fits file.schema = true) :
    (storeRow file txn frame row after = .ok none after ∧
      ∀ slot, slot < file.slots → frame.page.isUsed file.schema slot = true) ∨
    ∃ slot later, storeRow file txn frame row after = .ok (some ⟨⟨file.table, number⟩, slot⟩) later ∧
      slot < file.slots ∧ frame.page.isUsed file.schema slot = false ∧
      (∀ earlier, earlier < slot → frame.page.isUsed file.schema earlier = true) ∧
      Rewrites txn ⟨⟨file.table, number⟩, slot⟩ (some (row.storedAt ⟨⟨file.table, number⟩, slot⟩))
        after later ∧
      applyRef frame.ref later = .ok () later := by
  have leads := storeRow_leads turned.sole.listed turned.opened row
  cases free : frame.page.firstFree? file.schema with
  | none =>
    refine .inl ⟨by simp only [Store.storeRow, free], fun slot lt => ?_⟩
    exact Page.firstFree?_eq_none free (turned.slots ▸ lt)
  | some slot =>
    have stores : Store.storeRow file txn frame row after =
        .ok (some ⟨⟨file.table, number⟩, slot⟩) (after.setFrame
          { frame with page := (frame.page.store file.schema slot row).dirtiedBy txn }) := by
      simp only [Store.storeRow, free, Page.insert, fits, if_true, turned.id]
    obtain ⟨lt, unused, before⟩ := Page.firstFree?_eq_some free
    obtain ⟨rewrites, handed⟩ := leads.of_ok stores
    exact .inr ⟨slot, _, stores, turned.slots ▸ lt, unused, before, rewrites, handed⟩

/-- A slot that is used on a page of the table is used in the table. -/
theorem Turned.isUsed (turned : Turned txn file mode number s frame after) (sole : Sole txn file s)
    {slot : Nat} (used : frame.page.isUsed file.schema slot = true) :
    (s.slotTable file).IsUsed ⟨⟨file.table, number⟩, slot⟩ := by
  obtain ⟨found, read⟩ := sole.legible.shown ⟨⟨file.table, number⟩, slot⟩
  obtain ⟨row, held⟩ := Page.exists_row_of_used used ((turned.shows slot).trans read)
  exact ⟨row, (turned.shows slot).symm.trans held⟩

theorem Turned.free (turned : Turned txn file mode number s frame after) {slot : Nat}
    (unused : frame.page.isUsed file.schema slot = false) :
    s.shownAt ⟨⟨file.table, number⟩, slot⟩ = .ok none :=
  (turned.shows slot).symm.trans (Page.row?_of_unused unused)

theorem Turned.unused (turned : Turned txn file mode number s frame after) {slot : Nat}
    (free : s.shownAt ⟨⟨file.table, number⟩, slot⟩ = .ok none) :
    frame.page.isUsed file.schema slot = false := by
  have none := (turned.shows slot).trans free
  refine Bool.eq_false_iff.2 fun used => ?_
  obtain ⟨row, held⟩ := Page.exists_row_of_used used none
  rw [none] at held
  cases held

/-- Every slot on the pages before one of some number is used. -/
def FullBefore (s : Store) (file : HeapFile) (number : Nat) : Prop :=
  ∀ record, (s.slotTable file).Slot file record → record.page.number < number →
    (s.slotTable file).IsUsed record

/-- A row is stored in a page, unless the page is full or there is no room for it. -/
theorem Sole.storeInPage (sole : Sole txn file s) (fits : row.fits file.schema = true)
    (inside : number < file.pageCount s.disk) (before : s.FullBefore file number) :
    (∃ after, storeInPage file txn row number s = .ok none after ∧ Sole txn file after ∧
      after.capacity = s.capacity ∧ after.slotTable file = s.slotTable file ∧
      s.FullBefore file (number + 1)) ∨
    (∃ stored after, storeInPage file txn row number s = .ok (some stored) after ∧
      Places txn file row s stored after) ∨
    ∃ after, storeInPage file txn row number s =
      .error (.failed (.cacheExhausted s.capacity)) after ∧ Crowded file s after := by
  rcases sole.fetch_cases inside .exclusive with
    ⟨frame, fetched, fetches⟩ | ⟨lacking, after, fails, disk⟩
  case inr => exact .inr (.inr ⟨after, Op.bind_error fails, disk ▸ lacking, .inl (disk ▸ rfl)⟩)
  have turned := sole.fetched fetches
  have goesOn : Store.storeInPage file txn row number s =
      (do return (← Store.storeRow file txn frame row).map fun record => (frame.ref, record) :
        Op _) fetched := Op.bind_ok fetches
  rcases turned.storeRow fits with
    ⟨stores, full⟩ | ⟨slot, after, stores, lt, unused, earlier, rewrites, handed⟩
  · refine .inl ⟨fetched, goesOn.trans (Op.bind_ok stores), turned.sole, turned.capacity,
      turned.same, fun ⟨place, slot⟩ here below => ?_⟩
    rcases Nat.lt_succ_iff_lt_or_eq.1 below with sooner | same
    · exact before _ here sooner
    · obtain rfl : place = ⟨file.table, number⟩ := by
        rw [← here.own, ← same]
      exact turned.isUsed sole (full slot here.slot)
  · obtain ⟨sole', capacity, table⟩ := turned.sole.rewrites rewrites rfl
    refine .inr (.inl ⟨_, after, goesOn.trans (Op.bind_ok stores), sole',
      capacity.trans turned.capacity, handed, ?_⟩)
    rw [table, turned.same]
    refine .inserts fits ⟨⟨rfl, inside, lt⟩, turned.free unused, fun ⟨place, slot'⟩ here first => ?_⟩
    rcases first with sooner | ⟨same, below⟩
    · exact before _ here sooner
    · obtain rfl : place = ⟨file.table, number⟩ := by
        rw [← here.own, ← show place.number = number from same]
      exact turned.isUsed sole (earlier slot' below)

/-- An append adds a page without rows, which is then fetched. -/
theorem Sole.appendPage (sole : Sole txn file s) :
    ∃ grown,
      Store.appendPage file txn s = fetch txn ⟨file.table, file.pageCount s.disk⟩ .exclusive grown ∧
      Sole txn file grown ∧ grown.capacity = s.capacity ∧
      grown.slotTable file = (s.slotTable file).grow := by
  have sound := (sole.coherent.catalog _ _ sole.listed).2
  obtain ⟨locks, disk, appending, same⟩ := sole.grounded.appendPage_eq sole.listed txn
  refine ⟨{ s with locks := locks, disk := disk }, same, ?_, rfl, ?_⟩
  · refine sole.readies appending.readies appending.builds (sole.fits.of_same rfl rfl)
      fun other page held => ?_
    exact (appending.adds other page held).imp_right fun ⟨own, here⟩ => ⟨own, here ▸ rfl⟩
  · exact congrArg₂ SlotTable.mk (appending.writes.pageCount_next sound.pageSize_pos)
      (appending.readies.shownAt_eq sole.coherent)

/-- A row goes to the first slot of a page that holds none. -/
theorem Turned.storeRow_first (turned : Turned txn file .exclusive number s frame after)
    (fits : row.fits file.schema = true)
    (vacant : ∀ slot, s.shownAt ⟨⟨file.table, number⟩, slot⟩ = .ok none) :
    ∃ last, Store.storeRow file txn frame row after =
        .ok (some ⟨⟨file.table, number⟩, 0⟩) last ∧
      Rewrites txn ⟨⟨file.table, number⟩, 0⟩ (some (row.storedAt ⟨⟨file.table, number⟩, 0⟩)) after
        last ∧
      applyRef frame.ref last = .ok () last := by
  have free (slot : Nat) := turned.unused (vacant slot)
  have positive := (turned.sole.coherent.catalog _ _ turned.sole.listed).2.slots_pos
  rcases turned.storeRow fits with ⟨-, used⟩ | ⟨slot, last, stores, -, -, earlier, rewrites, handed⟩
  · exact absurd ((free 0).symm.trans (used 0 positive)) Bool.false_ne_true
  · obtain rfl : slot = 0 := Nat.eq_zero_of_not_pos fun later =>
      absurd ((free 0).symm.trans (earlier 0 later)) Bool.false_ne_true
    exact ⟨last, stores, rewrites, handed⟩

/-- A row that finds every page full is stored in an appended one, unless there is no room for it.
-/
theorem Sole.storeInFresh (sole : Sole txn file s) (fits : row.fits file.schema = true)
    (full : s.FullBefore file (file.pageCount s.disk)) :
    (∃ stored after, storeInFresh file txn row s = .ok stored after ∧
      Places txn file row s stored after) ∨
    ∃ after, storeInFresh file txn row s = .error (.failed (.cacheExhausted s.capacity)) after ∧
      Crowded file s after := by
  have isFull : (s.slotTable file).IsFull file := fun record here => full record here here.page
  obtain ⟨grown, appends, sole', capacity, table⟩ := sole.appendPage
  have count : file.pageCount grown.disk = file.pageCount s.disk + 1 :=
    congrArg SlotTable.pages table
  rcases sole'.fetch_cases (show file.pageCount s.disk < file.pageCount grown.disk by omega)
    .exclusive with ⟨frame, fetched, fetches⟩ | ⟨lacking, after, fails, disk⟩
  · have turned := sole'.fetched fetches
    have vacant (slot : Nat) :
        grown.shownAt ⟨⟨file.table, file.pageCount s.disk⟩, slot⟩ = .ok none := by
      rw [show grown.shownAt = s.shownAt from congrArg SlotTable.contents table]
      exact sole.shownAt_next slot
    obtain ⟨after, stores, rewrites, handed⟩ := turned.storeRow_first fits vacant
    obtain ⟨sole'', capacity', table'⟩ := turned.sole.rewrites rewrites rfl
    refine .inl ⟨_, after, (Op.bind_ok (appends.trans fetches)).trans (Op.bind_ok stores), sole'',
      capacity'.trans (turned.capacity.trans capacity), handed, ?_⟩
    rw [table', turned.same, table]
    exact .appends fits isFull
  · rw [capacity] at fails lacking
    exact .inr ⟨after, Op.bind_error (appends.trans fails), disk ▸ lacking, .inr isFull⟩

/-- A row is stored in the first free slot of all, or in an appended page, unless there is no room
for the pages. -/
theorem Sole.storeFrom (sole : Sole txn file s) (fits : row.fits file.schema = true) {count : Nat}
    (all : number + count = file.pageCount s.disk) (before : s.FullBefore file number) :
    (∃ stored after, storeFrom file txn row (List.range' number count) s = .ok stored after ∧
      Places txn file row s stored after) ∨
    ∃ after, storeFrom file txn row (List.range' number count) s =
      .error (.failed (.cacheExhausted s.capacity)) after ∧ Crowded file s after := by
  induction count generalizing s number with
  | zero =>
    obtain rfl : number = file.pageCount s.disk := all
    exact sole.storeInFresh fits before
  | succ count ih =>
    rw [List.range'_succ, storeFrom_cons]
    rcases sole.storeInPage fits (by omega) before with
      ⟨passed, full, sole', capacity, same, before⟩ | ⟨stored, after, stores, places⟩ |
        ⟨after, fails, crowded⟩
    · have pages : file.pageCount passed.disk = file.pageCount s.disk :=
        congrArg SlotTable.pages same
      have rest : number + 1 + count = file.pageCount passed.disk := by omega
      simp only [full]
      rw [← capacity]
      refine (ih sole' rest (by unfold FullBefore; rw [same]; exact before)).imp ?_ ?_
      · rintro ⟨stored, after, stores, places⟩
        exact ⟨stored, after, stores, places.sole, places.capacity.trans capacity, places.handed,
          same ▸ places.step⟩
      · rintro ⟨after, fails, crowded⟩
        exact ⟨after, fails, capacity ▸ crowded.lacking, pages ▸ same ▸ crowded.grown⟩
    · simp only [stores]
      exact .inl ⟨stored, after, rfl, places⟩
    · simp only [fails]
      exact .inr ⟨after, rfl, crowded⟩

end PageStore.Store
