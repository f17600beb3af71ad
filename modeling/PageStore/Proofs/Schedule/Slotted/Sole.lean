import Mathlib.Data.List.Perm.Subperm
import PageStore.Proofs.Schedule.Slotted.Machine
import PageStore.Proofs.Store.Agree

/-!
# A transaction alone at a table

A transaction is alone at a table if nobody else holds a page, it holds none of other tables, and no
page of other tables is dirty (`Store.Alone`).  Then it is granted every page that it asks for; and
if the cache has room for the pages of the table there is room for each of them, since what else is
cached can be evicted (`Sole.not_stuck`).  So every page of the table can be fetched
(`Sole.exists_fetch`), and shows what it showed before (`Sole.fetched`).
-/

namespace PageStore

namespace LockTable

variable {locks : LockTable} {txn : TxnId} {page : PageId}

/-- A page that nobody else holds is granted. -/
theorem acquire_of_alone (alone : ∀ other, locks.holds other page = true → other = txn)
    (mode : LockMode) (overdue : Bool) : (locks.acquire txn page mode overdue).1 = .granted := by
  rcases locks.acquire_cases txn page mode overdue with ⟨_, _, eq⟩ | ⟨blockers, refused, _⟩
  · rw [eq]
  · obtain ⟨some, blocks⟩ := Holders.blocks_of_grant_error refused
    obtain ⟨holder, mem⟩ := List.exists_mem_of_ne_nil blockers some
    obtain ⟨ne, held, holds, -⟩ := blocks holder mem
    exact absurd (alone holder (by rw [LockTable.holds, mode?, holds]; rfl)) ne

/-- Where no page has a holder, nobody holds a page. -/
theorem holds_of_nobody (nobody : locks.pages.entries = []) (other : TxnId) (page : PageId) :
    locks.holds other page = false := by
  have free : locks.pages.get? page = none := by
    rw [Dictionary.get?, nobody]
    rfl
  rw [LockTable.holds, LockTable.mode?, LockTable.holders, free]
  rfl

end LockTable

namespace Store

variable {s after : Store} {txn : TxnId} {file : HeapFile} {table : TableId} {page : PageId}
  {frame : Frame} {mode : LockMode} {number : Nat} {record : RecordId} {row : Option Row}

/-- A store in which a transaction is alone at a table. -/
structure Alone (txn : TxnId) (table : TableId) (s : Store) : Prop where
  held : ∀ other page, s.locks.holds other page = true → other = txn ∧ page.table = table
  dirty : ∀ page frame, s.cache.get? page = some frame → frame.page.isDirty = true →
    page.table = table

/-- Where nobody holds anything and nothing is dirty, every transaction is alone. -/
theorem alone_of_idle (nobody : s.locks.pages.entries = [])
    (clean : ∀ entry ∈ s.cache.entries, entry.2.page.isDirty = false) : s.Alone txn table := by
  refine ⟨fun other page held => ?_, fun page frame cached dirty => ?_⟩
  · rw [LockTable.holds_of_nobody nobody] at held
    cases held
  · rw [clean _ (Dictionary.mem_entries_iff.2 cached)] at dirty
    cases dirty

/-- A store in which a transaction is alone at a table of the catalog, and every record can be
read. -/
structure Sole (txn : TxnId) (file : HeapFile) (s : Store) : Prop
    extends s.Alone txn file.table where
  coherent : s.Coherent
  grounded : s.Grounded
  fits : s.Fits s.capacity
  legible : s.Legible
  listed : s.catalog.file file.table = .ok file

/-- What a table shows, as pages of slots. -/
def slotTable (s : Store) (file : HeapFile) : SlotTable := ⟨file.pageCount s.disk, s.shownAt⟩

/-- The page that would be appended next shows nothing. -/
theorem Sole.shownAt_next (sole : Sole txn file s) (slot : Nat) :
    s.shownAt ⟨⟨file.table, file.pageCount s.disk⟩, slot⟩ = .ok none := by
  rw [shownAt_of_missing (sole.grounded.missing_next sole.listed)]
  exact recordAt_of_missing (fun stored stores => Nat.lt_irrefl _
    (stores.lt_pageCount sole.coherent.catalog sole.listed)) slot

/-! ## What keeps a transaction alone -/

theorem Sole.readies (sole : Sole txn file s) (readies : Readies txn s after)
    (builds : Builds s after) (fits : after.Fits s.capacity)
    (held : ∀ other page, after.locks.holds other page = true →
      s.locks.holds other page = true ∨ other = txn ∧ page.table = file.table) :
    Sole txn file after where
  held other page now := (held other page now).elim (sole.held other page) id
  dirty page frame cached dirty := by
    obtain ⟨writer, writes⟩ := Option.isSome_iff_exists.1 dirty
    exact sole.dirty page frame ((readies.dirty_iff writes).1 cached) dirty
  coherent := sole.coherent.readies readies
  grounded := sole.grounded.builds builds
  fits := fits.capacity.symm ▸ fits
  legible := sole.legible.readies sole.coherent readies
  listed := by rw [readies.catalog_eq, sole.listed]

theorem Sole.rewrites (sole : Sole txn file s) (rewrites : Rewrites txn record row s after)
    (own : record.page.table = file.table) :
    Sole txn file after ∧ after.capacity = s.capacity ∧
      after.slotTable file = (s.slotTable file).change ⟨record, row⟩ := by
  have coherent := sole.coherent.rewrites rewrites
  have legible := sole.legible.rewrites rewrites
  have shown := rewrites.shownAt_eq
  rcases rewrites with @⟨_, old, changed, _, cached, named, -, changes⟩
  refine ⟨⟨⟨sole.held, fun page frame now dirty => ?_⟩, coherent, ?_, ?_, legible, sole.listed⟩, rfl,
    congrArg (SlotTable.mk (file.pageCount s.disk)) shown⟩
  · rw [get?_withFrame changes named] at now
    split at now
    · next here => exact here ▸ own
    · exact sole.dirty page frame now dirty
  · refine sole.grounded.builds (.of_fewer rfl rfl (fun page now => ?_) fun _ _ => id)
    rw [get?_withFrame changes named] at now
    split at now
    · next here =>
      rw [here, cached]
      rfl
    · exact now
  · have place : (changed.dirtiedBy txn).id = record.page := changes.id.trans named
    exact sole.fits.put rfl rfl (.inl (by rw [place, cached]; rfl))

/-! ## Fetching pages of the table -/

/-- While the cache lacks a page of the table, but has room for all of them, some page can leave
it. -/
theorem Sole.not_stuck (sole : Sole txn file s) (room : file.pageCount s.disk ≤ s.capacity)
    (inside : number < file.pageCount s.disk)
    (missing : s.cache.get? ⟨file.table, number⟩ = none) :
    ¬ (s.capacity ≤ s.cache.size ∧ s.Stuck) := by
  rintro ⟨full, stuck⟩
  have among : s.cache.keys ⊆
      ((List.range (file.pageCount s.disk)).erase number).map (⟨file.table, ·⟩) := by
    intro page mem
    obtain ⟨frame, cached⟩ := Option.isSome_iff_exists.1 (Dictionary.mem_keys_iff.1 mem)
    have own : page.table = file.table := by
      rcases stuck page frame cached with dirty | ⟨other, held⟩
      · exact sole.dirty page frame cached dirty
      · exact (sole.held other page held).2
    have within : page.number < file.pageCount s.disk :=
      (sole.coherent.faithful page frame cached).before.lt_pageCount sole.coherent.catalog
        (own ▸ sole.listed)
    have apart : page.number ≠ number := by
      rintro rfl
      rw [← own, cached] at missing
      cases missing
    exact List.mem_map.2 ⟨page.number, (List.mem_erase_of_ne apart).2 (List.mem_range.2 within),
      by rw [← own]⟩
  have few := (s.cache.nodup_keys.subperm among).length_le
  rw [List.length_map, List.length_erase_of_mem (List.mem_range.2 inside), List.length_range,
    Dictionary.length_keys] at few
  omega

/-- Fetching a page adds no lock but that of the page. -/
theorem fetch_held (fetched : fetch txn page mode s = .ok frame after) (other : TxnId)
    (place : PageId) (held : after.locks.holds other place = true) :
    s.locks.holds other place = true ∨ other = txn ∧ place = page := by
  obtain ⟨locked, asked, loads⟩ := loaded_of_fetch fetched
  refine (acquire_held s txn page mode).of_ok asked other place ?_
  rw [← ((load_leads locked page).of_ok loads).2.1]
  exact held

/-- A page of the table can be fetched, unless the cache has no room for all pages of the table. -/
theorem Sole.fetch_cases (sole : Sole txn file s) (inside : number < file.pageCount s.disk)
    (mode : LockMode) :
    (∃ frame after, fetch txn ⟨file.table, number⟩ mode s = .ok frame after) ∨
      s.capacity < file.pageCount s.disk ∧ ∃ after, fetch txn ⟨file.table, number⟩ mode s =
        .error (.failed (.cacheExhausted s.capacity)) after ∧ after.disk = s.disk := by
  obtain ⟨locked, asks⟩ := acquire_ok (LockTable.acquire_of_alone
    (fun other held => (sole.held other ⟨file.table, number⟩ held).1) mode (s.overdue txn))
  cases cached : s.cache.get? ⟨file.table, number⟩ with
  | some frame =>
    exact .inl ⟨frame, locked, fetch_of_cached asks cached⟩
  | none =>
    have positive := (sole.coherent.catalog _ _ sole.listed).2.pageSize_pos
    have stores : s.Stores ⟨file.table, number⟩ _ := ⟨file, sole.listed,
      HeapFile.read_eq_ok.2 ⟨rfl, (HeapFile.lt_pageCount_iff positive number).1 inside, rfl⟩⟩
    rcases fetch_missing stores cached asks with ⟨full, stuck, after, -, fails⟩ | ⟨-, fetched⟩
    · refine .inr ⟨Nat.lt_of_not_le fun room => ?_, after, fails,
        ((fetch_leads s txn _ mode).of_error fails).disk⟩
      exact sole.not_stuck room inside cached ⟨full, stuck⟩
    · exact .inl fetched

/-- Every page of the table can be fetched. -/
theorem Sole.exists_fetch (sole : Sole txn file s) (room : file.pageCount s.disk ≤ s.capacity)
    (inside : number < file.pageCount s.disk) (mode : LockMode) :
    ∃ frame after, fetch txn ⟨file.table, number⟩ mode s = .ok frame after :=
  (sole.fetch_cases inside mode).resolve_right fun ⟨crowded, _⟩ =>
    Nat.not_le_of_lt crowded room

/-- A page of the table as it was fetched: it shows what it showed. -/
structure Turned (txn : TxnId) (file : HeapFile) (mode : LockMode) (number : Nat) (s : Store)
    (frame : Frame) (after : Store) : Prop where
  sole : Sole txn file after
  capacity : after.capacity = s.capacity
  same : after.slotTable file = s.slotTable file
  id : frame.page.id = ⟨file.table, number⟩
  cached : after.cache.get? ⟨file.table, number⟩ = some frame
  held : after.locks.mode? txn ⟨file.table, number⟩ = some mode ∨
    after.locks.mode? txn ⟨file.table, number⟩ = some .exclusive
  slots : frame.page.slots file.schema = file.slots
  shows : ∀ slot, frame.page.row? file.schema slot = s.shownAt ⟨⟨file.table, number⟩, slot⟩

theorem Turned.opened (turned : Turned txn file .exclusive number s frame after) :
    Opened txn ⟨file.table, number⟩ frame after :=
  ⟨turned.cached, turned.id, or_self_iff.1 turned.held⟩

theorem Sole.fetched (sole : Sole txn file s)
    (fetched : fetch txn ⟨file.table, number⟩ mode s = .ok frame after) :
    Turned txn file mode number s frame after := by
  have leads := ((fetch_leads s txn ⟨file.table, number⟩ mode).and
    (fetch_builds sole.grounded txn _ mode)).and
      (bounded_fetch txn ⟨file.table, number⟩ mode _ s sole.fits)
  obtain ⟨⟨⟨fetches, cached, held⟩, builds⟩, fits⟩ := leads.of_ok fetched
  have readies : Readies txn s after := .fetches fetches
  have sole' := sole.readies readies builds fits fun other page held =>
    (fetch_held fetched other page held).imp_right fun ⟨own, here⟩ => ⟨own, here ▸ rfl⟩
  have faithful := sole'.coherent.faithful _ frame cached
  obtain ⟨found, listed, read⟩ := faithful.before
  obtain rfl : found = file := Except.ok.inj (listed.symm.trans sole'.listed)
  have whole : frame.page.bytes.length = found.pageSize :=
    faithful.length.trans (HeapFile.read_shape read).2
  have shown := readies.shownAt_eq sole.coherent
  refine ⟨sole', fits.capacity, ?_, faithful.id, cached, held, ?_, fun slot => ?_⟩
  · unfold slotTable
    rw [fetches.disk, shown]
  · rw [Page.slots, whole, HeapFile.slots]
  · rw [← shown, shownAt_of_cached cached sole'.listed]

end Store

end PageStore
