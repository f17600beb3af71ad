import PageStore.Proofs.Store.Coherence
import PageStore.Store.Rows

/-!
# What a call does to one page

A transaction that inserts or deletes a row readies the page that it changes, and then rewrites one
record of it.  To ready a page is to fetch pages and perhaps to append one (`Readies`); that changes
no record.  Whatever stops the call happens before the rewrite (`storeInPage_leads`,
`storeInFresh_leads`, `freeInPage_leads`).

The page that was rewritten is the cached one, so handing it back to the cache changes nothing
(`applyRef_of_cached`).
-/

namespace PageStore

/-- The row that a record holds once a row was stored there. -/
def Row.storedAt (row : Row) (record : RecordId) : Row := { row.stored with record := some record }

namespace Store

variable {s after later : Store} {txn : TxnId} {page : PageId} {frame : Frame} {file : HeapFile}
  {record : RecordId} {row : Row} {ref : PageRef} {number : Nat}

/-! ## Readying -/

/-- What a transaction does on the way to a page: it fetches pages, and may append one between, which
it holds exclusively. -/
inductive Readies (txn : TxnId) (s : Store) : Store → Prop
  | fetches {after : Store} (fetches : Fetches txn s after) : Readies txn s after
  | appends {locked grown after : Store} (before : Fetches txn s locked)
      (appends : Appends locked grown) (rest : Fetches txn grown after)
      (held : ∀ page stored, grown.Stores page stored → ¬ locked.Stores page stored →
        locked.locks.mode? txn page = some .exclusive) : Readies txn s after

/-- The only page that an append adds is the one after the last. -/
theorem eq_next_of_writes {disk : Disk} {stored : Page} (sound : s.catalog.Sound)
    (listed : s.catalog.file file.table = .ok file)
    (writes : file.Writes ⟨file.table, file.pageCount s.disk⟩ (Bytes.zeros file.pageSize) s.disk
      disk)
    (there : ({ s with disk := disk } : Store).Stores page stored) (new : ¬ s.Stores page stored) :
    page = ⟨file.table, file.pageCount s.disk⟩ := by
  have catalog : ({ s with disk := disk } : Store).catalog = s.catalog := rfl
  exact Decidable.byContradiction fun apart =>
    new ((stores_of_writes sound listed catalog writes (Nat.le_refl _) apart).1 there)

/-- A page of zeros is written after the last page of a file by who holds it exclusively. -/
theorem Readies.of_writes {locked : Store} {disk : Disk} (before : Fetches txn s locked)
    (sound : locked.catalog.Sound) (listed : locked.catalog.file file.table = .ok file)
    (writes : file.Writes ⟨file.table, file.pageCount locked.disk⟩ (Bytes.zeros file.pageSize)
      locked.disk disk)
    (held : locked.locks.mode? txn ⟨file.table, file.pageCount locked.disk⟩ = some .exclusive)
    (rest : Fetches txn { locked with disk := disk } after) : Readies txn s after := by
  refine .appends before (.intro listed writes) rest fun page stored there new => ?_
  rw [eq_next_of_writes sound listed writes there new, held]

theorem Readies.refl (txn : TxnId) (s : Store) : Readies txn s s := .fetches (.refl txn s)

theorem Appends.catalog_eq (appends : Appends s after) : after.catalog = s.catalog := by
  cases appends
  rfl

theorem Readies.catalog_eq (readies : Readies txn s after) : after.catalog = s.catalog := by
  cases readies with
  | fetches fetches => exact fetches.catalog
  | appends before appends rest => rw [rest.catalog, appends.catalog_eq, before.catalog]

theorem Coherent.readies (coherent : Coherent s) (readies : Readies txn s after) :
    Coherent after := by
  cases readies with
  | fetches fetches => exact coherent.turnover fetches.toTurnover
  | appends before appends rest =>
    exact ((coherent.turnover before.toTurnover).appends appends).turnover rest.toTurnover

/-! ## Fetching for a write -/

/-- A page that a transaction holds exclusively, cached in a frame. -/
structure Opened (txn : TxnId) (page : PageId) (frame : Frame) (s : Store) : Prop where
  cached : s.cache.get? page = some frame
  id : frame.page.id = page
  exclusive : s.locks.mode? txn page = some .exclusive

theorem fetch_opens (coherent : Coherent s) (txn : TxnId) (page : PageId) :
    (fetch txn page .exclusive).Leads s
      (fun frame after => Fetches txn s after ∧ Opened txn page frame after) (Fetches txn s) := by
  refine (fetch_leads s txn page .exclusive).mono ?_ fun _ => id
  rintro frame after ⟨fetches, cached, held⟩
  have faithful := (coherent.turnover fetches.toTurnover).faithful page frame cached
  exact ⟨fetches, cached, faithful.id, held.elim id id⟩

theorem fetch_readies (coherent : Coherent s) (txn : TxnId) (page : PageId) :
    (fetch txn page .exclusive).Leads s
      (fun frame after => Readies txn s after ∧ Opened txn page frame after) (Readies txn s) :=
  (fetch_opens coherent txn page).mono (fun _ _ ⟨fetches, opened⟩ => ⟨.fetches fetches, opened⟩)
    fun _ => .fetches

/-- A page of zeros of a file can be written into it. -/
theorem writeInto_blank (s : Store) (file : HeapFile) (number : Nat) :
    ∃ disk, file.Writes ⟨file.table, number⟩ (Bytes.zeros file.pageSize) s.disk disk ∧
      writeInto file (.blank ⟨file.table, number⟩ file.pageSize) s =
        .ok () { s with disk := disk } := by
  have whole : (Bytes.zeros file.pageSize).length = file.pageSize := Bytes.length_zeros _
  have writes : file.Writes ⟨file.table, number⟩ (Bytes.zeros file.pageSize) s.disk
      (s.disk.write file.path ((⟨file.table, number⟩ : PageId).offset file.pageSize)
        (Bytes.zeros file.pageSize)) := ⟨rfl, whole, rfl⟩
  have written : file.write s.disk (.blank ⟨file.table, number⟩ file.pageSize) = .ok _ :=
    HeapFile.write_eq_ok.2 writes
  refine ⟨_, writes, ?_⟩
  unfold writeInto
  simp only [written]

/-- An appended page is opened for the transaction that appended it. -/
theorem appendPage_opens (coherent : Coherent s) (listed : s.catalog.file file.table = .ok file)
    (txn : TxnId) :
    (appendPage file txn).Leads s
      (fun frame after => ∃ page : PageId, page.table = file.table ∧ Readies txn s after ∧
        Opened txn page frame after)
      (Readies txn s) := by
  have counts : (pageCount file).Leads s
      (fun number after => after = s ∧ number = file.pageCount s.disk) (Readies txn s) :=
    ⟨rfl, rfl⟩
  refine counts.bind fun number counted ⟨same, here⟩ => ?_
  rw [same]
  have locks := (acquire_leads s txn ⟨file.table, number⟩ .exclusive).mono
    (fun _ _ ⟨same, widens, held⟩ => And.intro (Fetches.of_locks same widens) (held.elim id id))
    fun after ⟨same, widens⟩ => Readies.fetches (.of_locks same widens)
  refine locks.bind fun _ locked ⟨before, held⟩ => ?_
  have listed' : locked.catalog.file file.table = .ok file := by rw [before.catalog, listed]
  obtain rfl : number = file.pageCount locked.disk := by rw [before.disk, here]
  obtain ⟨disk, writes, wrote⟩ := writeInto_blank locked file (file.pageCount locked.disk)
  have coherent' := coherent.turnover before.toTurnover
  have readies {after : Store} (rest : Fetches txn { locked with disk := disk } after) :
      Readies txn s after := .of_writes before coherent'.catalog listed' writes held rest
  refine Op.Leads.congr ?_ (Op.bind_ok wrote)
  exact (fetch_opens (coherent'.appends (.intro listed' writes)) txn _).mono
    (fun frame after ⟨rest, opened⟩ => ⟨_, rfl, readies rest, opened⟩) fun _ => readies

/-! ## Handing back -/

/-- Handing back the frame that is cached changes nothing. -/
theorem applyRef_of_cached (cached : s.cache.get? ref.page = some frame)
    (serial : frame.serial = ref.serial) (id : frame.page.id = ref.page) :
    applyRef ref s = .ok () s := by
  have same : s.deref? ref = some frame.page := by
    unfold deref?
    rw [cached, Option.filter_some, if_pos (decide_eq_true serial)]
  have kept : s.replaceFrame ⟨ref.serial, frame.page⟩ = s := by
    unfold replaceFrame
    simp only [id, cached, serial, if_true]
  have contains : s.cache.contains ref.page = true := by
    rw [Dictionary.contains, cached]
    rfl
  rw [applyRef_of_contains contains, putBack, same]
  simp only [kept]

/-- Handing back a page that was changed in the cache changes nothing. -/
theorem applyRef_setFrame {changed : Page} (cached : s.cache.get? frame.page.id = some frame)
    (id : changed.id = frame.page.id) :
    applyRef frame.ref (s.setFrame { frame with page := changed.dirtiedBy txn }) =
      .ok () (s.setFrame { frame with page := changed.dirtiedBy txn }) := by
  have own : (changed.dirtiedBy txn).id = frame.page.id := id
  have kept : s.cache.get? (changed.dirtiedBy txn).id = some frame := by rw [own, cached]
  have stays : s.setFrame { frame with page := changed.dirtiedBy txn } = s.withFrame _ :=
    setFrame_of_cached kept rfl
  rw [stays]
  have cached : (s.withFrame { frame with page := changed.dirtiedBy txn }).cache.get?
      frame.ref.page = some { frame with page := changed.dirtiedBy txn } := by
    simp [withFrame, own, Frame.ref]
  exact applyRef_of_cached cached rfl own

/-! ## Rewriting -/

/-- The store once one record of an opened page was changed. -/
theorem rewrite_leads {changed : Page} {row : Option Row}
    (listed : s.catalog.file page.table = .ok file) (opened : Opened txn page frame s)
    (own : record.page = frame.page.id)
    (changes : frame.page.Changes changed file.schema record.slot row) :
    Rewrites txn record row s (s.setFrame { frame with page := changed.dirtiedBy txn }) ∧
      applyRef frame.ref (s.setFrame { frame with page := changed.dirtiedBy txn }) =
        .ok () (s.setFrame { frame with page := changed.dirtiedBy txn }) := by
  have here : record.page = page := own.trans opened.id
  have cached : s.cache.get? frame.page.id = some frame := by rw [opened.id, opened.cached]
  refine ⟨?_, applyRef_setFrame cached changes.id⟩
  have kept : s.cache.get? (changed.dirtiedBy txn).id = some frame :=
    (congrArg s.cache.get? changes.id).trans cached
  have stays : s.setFrame { frame with page := changed.dirtiedBy txn } = s.withFrame _ :=
    setFrame_of_cached kept rfl
  rw [stays]
  subst here
  exact .intro listed opened.cached opened.id opened.exclusive changes

/-- How storing a row in a loaded page ends: the page is full, or it takes the row. -/
theorem storeRow_ends (file : HeapFile) (txn : TxnId) (frame : Frame) (row : Row) (s : Store) :
    (storeRow file txn frame row).Leads s
      (fun stored after =>
        match stored with
        | none => frame.page.firstFree? file.schema = none ∧ after = s
        | some record => ∃ changed, frame.page.insert file.schema row = .ok (changed, record) ∧
            after = s.setFrame { frame with page := changed.dirtiedBy txn })
      (fun after => after = s) := by
  unfold storeRow Op.Leads
  cases free : frame.page.firstFree? file.schema with
  | none => exact ⟨rfl, rfl⟩
  | some slot =>
    cases stored : frame.page.insert file.schema row with
    | error e => rfl
    | ok answer => exact ⟨answer.1, rfl, rfl⟩

/-- How freeing the slot of a record in a loaded page ends. -/
theorem freeRecord_ends (file : HeapFile) (txn : TxnId) (frame : Frame) (record : RecordId)
    (s : Store) :
    (freeRecord file txn frame record).Leads s
      (fun _ after => ∃ changed, frame.page.delete file.schema record = .ok changed ∧
        after = s.setFrame { frame with page := changed.dirtiedBy txn })
      (fun after => after = s) := by
  unfold freeRecord Op.Leads
  cases freed : frame.page.delete file.schema record with
  | error e => rfl
  | ok changed => exact ⟨changed, rfl, rfl⟩

/-- A row that is stored in a loaded page gets a slot of that page. -/
theorem page_of_storeRow {stored : Option RecordId}
    (stores : storeRow file txn frame row s = .ok stored after) (record : RecordId)
    (taken : stored = some record) : record.page = frame.page.id := by
  subst taken
  obtain ⟨changed, inserted, -⟩ := (storeRow_ends file txn frame row s).of_ok stores
  exact (Page.insert_changes inserted).1

theorem storeRow_leads (listed : s.catalog.file page.table = .ok file)
    (opened : Opened txn page frame s) (row : Row) :
    (storeRow file txn frame row).Leads s
      (fun stored after =>
        match stored with
        | none => after = s
        | some record =>
          Rewrites txn record (some (row.storedAt record)) s after ∧
            applyRef frame.ref after = .ok () after)
      (fun after => after = s) := by
  refine (storeRow_ends file txn frame row s).mono (fun stored after ends => ?_) fun _ => id
  cases stored with
  | none => exact ends.2
  | some record =>
    obtain ⟨changed, inserted, rfl⟩ := ends
    obtain ⟨own, changes⟩ := Page.insert_changes inserted
    exact rewrite_leads listed opened own changes

theorem freeRecord_leads (listed : s.catalog.file page.table = .ok file)
    (opened : Opened txn page frame s) (record : RecordId) :
    (freeRecord file txn frame record).Leads s
      (fun _ after => Rewrites txn record none s after ∧ applyRef frame.ref after = .ok () after)
      (fun after => after = s) := by
  refine (freeRecord_ends file txn frame record s).mono (fun _ after ends => ?_) fun _ => id
  obtain ⟨changed, deleted, rfl⟩ := ends
  obtain ⟨own, changes⟩ := Page.delete_changes deleted
  exact rewrite_leads listed opened own changes

/-- A record changed by a transaction that readied its page before. -/
def Alters (txn : TxnId) (record : RecordId) (row : Option Row) (s after : Store) : Prop :=
  ∃ readied, Readies txn s readied ∧ Rewrites txn record row readied after

theorem Coherent.alters {row : Option Row} (coherent : Coherent s)
    (alters : Alters txn record row s after) : Coherent after := by
  obtain ⟨readied, readies, rewrites⟩ := alters
  exact (coherent.readies readies).rewrites rewrites

/-- What storing a row leads to, given the page that was changed and the record, if there are. -/
def Placed (txn : TxnId) (row : Row) (s : Store) : Option (PageRef × RecordId) → Store → Prop
  | none, after => Readies txn s after
  | some (ref, record), after =>
    Alters txn record (some (row.storedAt record)) s after ∧ applyRef ref after = .ok () after

theorem storeInPage_leads (coherent : Coherent s) (listed : s.catalog.file file.table = .ok file)
    (txn : TxnId) (row : Row) (number : Nat) :
    (storeInPage file txn row number).Leads s (Placed txn row s) (Readies txn s) := by
  refine (fetch_readies coherent txn ⟨file.table, number⟩).bind fun frame fetched ⟨ready, opened⟩ => ?_
  have listed' : fetched.catalog.file file.table = .ok file := by rw [ready.catalog_eq, listed]
  have stores := (storeRow_leads listed' opened row).stops ready
  refine stores.bind fun stored after placed => Op.leads_pure _ ?_
  cases stored with
  | none =>
    rw [show after = fetched from placed]
    exact ready
  | some record => exact ⟨⟨fetched, ready, placed.1⟩, placed.2⟩

theorem storeInFresh_leads (coherent : Coherent s) (listed : s.catalog.file file.table = .ok file)
    (txn : TxnId) (row : Row) :
    (storeInFresh file txn row).Leads s (fun stored => Placed txn row s (some stored))
      (Readies txn s) := by
  refine (appendPage_opens coherent listed txn).bind
    fun frame fetched ⟨page, own, ready, opened⟩ => ?_
  have listed' : fetched.catalog.file page.table = .ok file := by
    rw [ready.catalog_eq, own, listed]
  have stores := (storeRow_leads listed' opened row).stops ready
  refine stores.bind ?_
  intro stored after placed
  cases stored with
  | none =>
    refine Op.leads_fail _ ?_
    rw [show after = fetched from placed]
    exact ready
  | some record => exact Op.leads_pure _ ⟨⟨fetched, ready, placed.1⟩, placed.2⟩

theorem freeInPage_leads (coherent : Coherent s)
    (listed : s.catalog.file record.page.table = .ok file) (txn : TxnId) :
    (freeInPage file txn record).Leads s
      (fun ref after => Alters txn record none s after ∧ applyRef ref after = .ok () after)
      (Readies txn s) := by
  refine (fetch_readies coherent txn record.page).bind fun frame fetched ⟨ready, opened⟩ => ?_
  have listed' : fetched.catalog.file record.page.table = .ok file := by
    rw [ready.catalog_eq, listed]
  have frees := (freeRecord_leads listed' opened record).stops ready
  exact frees.bind fun _ after freed =>
    Op.leads_pure _ ⟨⟨fetched, ready, freed.1⟩, freed.2⟩

end Store

end PageStore
