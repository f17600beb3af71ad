import Mathlib.Data.List.Perm.Subperm
import PageStore.Proofs.Query.Taking
import PageStore.Proofs.Schedule.Stops
import PageStore.Proofs.Store.Capacity

/-!
# How far a file grows under a scan

Rows that are inserted into a table while it is scanned can be met by the scan, so that the scan has
more rows to give than the table had.  But not without end: a page that is appended for a row stays
in the cache with the row, dirty, and there are no more of these than the cache has places.

`Store.Swells` carries this through a run: a file, with all pages that can still be appended, is no
longer than a bound, where one can be appended for each place that no page appended before takes.
So the file stays below the bound (`Store.StaysBelow`), whatever rows are inserted or deleted, and a
scan ends below its supply even if each of its rows is inserted somewhere or deleted before the next
is asked for (`Plan.endsBelow_insert`, `Plan.endsBelow_delete`).
-/

namespace PageStore

namespace Store

variable {s after : Store} {path : String} {bytes places total : Nat} {added : List PageId}
  {page : PageId} {file : HeapFile} {txn : TxnId} {frame : Frame} {record : RecordId}

/-- A page is cached, and has changes that are not in its file. -/
def Dirty (s : Store) (page : PageId) : Prop :=
  ∃ frame, s.cache.get? page = some frame ∧ frame.page.isDirty = true

/-- Some pages were appended and are dirty; and a file is no longer than a bound that allows for the
pages that the cache has still places for. -/
structure Swells (path : String) (bytes places total : Nat) (added : List PageId) (s : Store) :
    Prop where
  coherent : Coherent s
  short : s.Short bytes
  distinct : added.Nodup
  dirty : ∀ page ∈ added, s.Dirty page
  room : (s.disk.read path).length + (places - added.length) * bytes ≤ total

/-- No more pages were appended than the cache has places. -/
theorem Swells.length_le (swells : s.Swells path bytes places total added) (fits : s.Fits places) :
    added.length ≤ places := by
  have cached : added ⊆ s.cache.keys := fun page mem => by
    obtain ⟨frame, cached, -⟩ := swells.dirty page mem
    exact Dictionary.mem_keys_iff.2 (by rw [cached]; rfl)
  calc added.length
      ≤ s.cache.keys.length := (swells.distinct.subperm cached).length_le
    _ = s.cache.size := s.cache.length_keys
    _ ≤ places := fits.size

theorem Swells.turnover (swells : s.Swells path bytes places total added)
    (turnover : Turnover s after) : after.Swells path bytes places total added where
  coherent := swells.coherent.turnover turnover
  short := swells.short.turnover turnover
  distinct := swells.distinct
  dirty page mem := by
    obtain ⟨frame, cached, dirty⟩ := swells.dirty page mem
    exact ⟨frame, turnover.kept page frame cached dirty, dirty⟩
  room := by
    rw [turnover.disk]
    exact swells.room

/-! ## A page is changed -/

section Rewrites

variable {row : Option Row}

/-- A page whose record was changed is dirty, and those that were dirty are. -/
theorem Rewrites.dirty (rewrites : Rewrites txn record row s after) :
    after.Dirty record.page ∧ ∀ page, s.Dirty page → after.Dirty page := by
  rcases rewrites with @⟨file, old, changed, listed, cached, id, exclusive, changes⟩
  have here : (s.withFrame { old with page := changed.dirtiedBy txn }).Dirty record.page :=
    ⟨_, (get?_withFrame changes id _).trans (if_pos rfl), rfl⟩
  refine ⟨here, fun page dirty => ?_⟩
  by_cases own : page = record.page
  · exact own ▸ here
  · obtain ⟨frame, held, dirty⟩ := dirty
    exact ⟨frame, (get?_withFrame changes id _).trans ((if_neg own).trans held), dirty⟩

theorem Short.rewrites (short : s.Short bytes) (rewrites : Rewrites txn record row s after) :
    after.Short bytes := by
  rcases rewrites with @⟨file, old, changed, listed, cached, id, exclusive, changes⟩
  refine ⟨fun page frame now => ?_, short.files⟩
  rw [get?_withFrame changes id] at now
  split at now
  · cases now
    exact changes.length ▸ short.cached _ old cached
  · exact short.cached page frame now

theorem Swells.rewrites (swells : s.Swells path bytes places total added)
    (rewrites : Rewrites txn record row s after) :
    after.Swells path bytes places total added where
  coherent := swells.coherent.rewrites rewrites
  short := swells.short.rewrites rewrites
  distinct := swells.distinct
  dirty page mem := rewrites.dirty.2 page (swells.dirty page mem)
  room := by
    cases rewrites
    exact swells.room

end Rewrites

/-! ## A page is appended -/

/-- A page that is appended is none of those that were, since those are cached. -/
theorem Swells.next_not_mem (swells : s.Swells path bytes places total added)
    (listed : s.catalog.file file.table = .ok file) :
    (⟨file.table, file.pageCount s.disk⟩ : PageId) ∉ added := by
  intro mem
  obtain ⟨frame, cached, -⟩ := swells.dirty _ mem
  have coherent := swells.coherent
  have inside := (coherent.faithful _ frame cached).before.lt_pageCount coherent.catalog listed
  exact Nat.lt_irrefl _ inside

/-- The file of a table grows by a page. -/
theorem Swells.writes {disk : Disk} (swells : s.Swells path bytes places total added)
    (listed : s.catalog.file file.table = .ok file)
    (writes : file.Writes ⟨file.table, file.pageCount s.disk⟩ (Bytes.zeros file.pageSize) s.disk
      disk) :
    ({ s with disk := disk } : Store).Swells path bytes places (total + bytes) added where
  coherent := swells.coherent.appends (.intro listed writes)
  short := ⟨swells.short.cached, swells.short.files⟩
  distinct := swells.distinct
  dirty := swells.dirty
  room := by
    have size := swells.short.files _ _ listed
    have whole : file.pageCount s.disk * file.pageSize ≤ (s.disk.read file.path).length :=
      Nat.div_mul_le_self _ _
    have length := writes.length_eq
    have room := swells.room
    have grows : (disk.read path).length ≤ (s.disk.read path).length + bytes := by
      by_cases own : path = file.path
      · rw [own, length]
        refine Nat.max_le.2 ⟨Nat.le_add_right _ _, ?_⟩
        exact Nat.add_le_add whole size
      · rw [writes.bytes_other own]
        exact Nat.le_add_right _ _
    show (disk.read path).length + _ ≤ _
    omega

/-- Once the page that was appended is dirty, it takes a place in the cache. -/
theorem Swells.cons (swells : s.Swells path bytes places (total + bytes) added)
    (fits : s.Fits places) (dirty : s.Dirty page) (fresh : page ∉ added) :
    s.Swells path bytes places total (page :: added) := by
  have taken : s.Swells path bytes places (total + bytes) (page :: added) :=
    { swells with
      distinct := List.nodup_cons.2 ⟨fresh, swells.distinct⟩
      dirty := List.forall_mem_cons.2 ⟨dirty, swells.dirty⟩
      room := by
        have less : places - (page :: added).length ≤ places - added.length := by
          rw [List.length_cons]
          omega
        exact Nat.le_trans (Nat.add_le_add_left (Nat.mul_le_mul_right _ less) _) swells.room }
  refine { taken with room := ?_ }
  have room := swells.room
  have few := taken.length_le fits
  have one : places - added.length = places - (page :: added).length + 1 := by
    rw [List.length_cons] at few ⊢
    omega
  rw [one, Nat.succ_mul] at room
  omega

/-! ## Stores whose file stays below a bound -/

/-- A file stays below a bound, however many pages are appended. -/
def StaysBelow (path : String) (bytes places total : Nat) (s : Store) : Prop :=
  s.Fits places ∧ ∃ added, s.Swells path bytes places total added

/-- A file stays below its length and a page for each place of the cache. -/
theorem staysBelow (coherent : Coherent s) (fits : s.Fits places) (path : String)
    (short : s.Short bytes) :
    s.StaysBelow path bytes places ((s.disk.read path).length + places * bytes) :=
  ⟨fits, [], coherent, short, List.nodup_nil, nofun, Nat.le_refl _⟩

theorem StaysBelow.coherent (below : s.StaysBelow path bytes places total) : Coherent s :=
  below.2.choose_spec.coherent

theorem StaysBelow.fetches (below : s.StaysBelow path bytes places total)
    (fetches : Fetches txn s after) (fits : after.Fits places) :
    after.StaysBelow path bytes places total := by
  obtain ⟨-, added, swells⟩ := below
  exact ⟨fits, added, swells.turnover fetches.toTurnover⟩

theorem StaysBelow.fetch (below : s.StaysBelow path bytes places total) (txn : TxnId)
    (page : PageId) (mode : LockMode) :
    (fetch txn page mode).Leads s (fun _ => StaysBelow path bytes places total) fun _ => True :=
  ((fetch_leads s txn page mode).and (fetch_fits below.1 txn page mode)).mono
    (fun _ _ fetched => below.fetches fetched.1.1 fetched.2.1) fun _ _ => trivial

/-! ## Rows that are inserted -/

variable {row : Row}

theorem Swells.storeRow (swells : s.Swells path bytes places total added)
    (listed : s.catalog.file page.table = .ok file) (opened : Opened txn page frame s) (row : Row) :
    (storeRow file txn frame row).Leads s
      (fun stored after => after.Swells path bytes places total added ∧
        (stored.isSome → after.Dirty page)) fun _ => True := by
  unfold Op.Leads
  split
  · next stored after stores =>
    have leads := (storeRow_leads listed opened row).of_ok stores
    cases stored with
    | none =>
      cases (leads : after = s)
      exact ⟨swells, nofun⟩
    | some record =>
      have own := (page_of_storeRow stores record rfl).trans opened.id
      exact ⟨swells.rewrites leads.1, fun _ => own ▸ leads.1.dirty.1⟩
  · trivial

theorem StaysBelow.storeInPage (below : s.StaysBelow path bytes places total)
    (listed : s.catalog.file file.table = .ok file) (txn : TxnId) (row : Row) (number : Nat) :
    (Store.storeInPage file txn row number).Leads s (fun _ => StaysBelow path bytes places total)
      fun _ => True := by
  obtain ⟨fits, added, swells⟩ := below
  have stores : (Store.storeInPage file txn row number).Leads s
      (fun _ after => after.Swells path bytes places total added) fun _ => True := by
    refine ((fetch_opens swells.coherent txn _).mono (fun _ _ => id) fun _ _ => trivial).bind
      fun frame fetched ⟨fetches, opened⟩ => ?_
    have listed' : fetched.catalog.file file.table = .ok file := by rw [fetches.catalog, listed]
    exact ((swells.turnover fetches.toTurnover).storeRow listed' opened row).bind
      fun stored after stored => Op.leads_pure _ stored.1
  exact (stores.and (storeInPage_fits fits file txn row number)).mono
    (fun _ _ stored => ⟨stored.2.1, added, stored.1⟩) fun _ _ => trivial

/-- A page is appended, which is none of those that were, and opened for a change. -/
theorem Swells.appendPage (swells : s.Swells path bytes places total added)
    (listed : s.catalog.file file.table = .ok file) (txn : TxnId) :
    (Store.appendPage file txn).Leads s
      (fun frame after => ∃ page : PageId, page ∉ added ∧ Opened txn page frame after ∧
        after.catalog.file page.table = .ok file ∧
        after.Swells path bytes places (total + bytes) added) fun _ => True := by
  rcases appendPage_cases s file txn with
    ⟨stop, _, -, fails⟩ | ⟨locked, disk, before, same, -, writes, fetches⟩
  · unfold Op.Leads
    rw [fails]
    trivial
  · have listed' : locked.catalog.file file.table = .ok file := by rw [before.catalog, listed]
    rw [← same] at writes fetches
    have locked' := swells.turnover before.toTurnover
    have grown := locked'.writes listed' writes
    refine Op.Leads.congr ?_ fetches
    exact (fetch_opens grown.coherent txn _).mono
      (fun frame after ⟨rest, opened⟩ => ⟨_, locked'.next_not_mem listed', opened,
        by rw [rest.catalog, listed'], grown.turnover rest.toTurnover⟩) fun _ _ => trivial

/-- The page that is appended for a row is dirty with it. -/
theorem StaysBelow.storeInFresh (below : s.StaysBelow path bytes places total)
    (listed : s.catalog.file file.table = .ok file) (txn : TxnId) (row : Row) :
    (Store.storeInFresh file txn row).Leads s (fun _ => StaysBelow path bytes places total)
      fun _ => True := by
  obtain ⟨fits, added, swells⟩ := below
  have stores : (Store.storeInFresh file txn row).Leads s
      (fun _ after => ∃ page, page ∉ added ∧ after.Dirty page ∧
        after.Swells path bytes places (total + bytes) added) fun _ => True := by
    refine (swells.appendPage listed txn).bind
      fun frame fetched ⟨page, fresh, opened, listed', grown⟩ => ?_
    refine (grown.storeRow listed' opened row).bind fun stored after ⟨grown, dirty⟩ => ?_
    cases stored with
    | none => exact Op.leads_fail _ trivial
    | some record => exact Op.leads_pure _ ⟨page, fresh, dirty rfl, grown⟩
  exact (stores.and (storeInFresh_fits fits file txn row)).mono
    (fun _ _ ⟨⟨page, fresh, dirty, grown⟩, fits, _⟩ => ⟨fits, _, grown.cons fits dirty fresh⟩)
    fun _ _ => trivial

theorem StaysBelow.storeFrom (below : s.StaysBelow path bytes places total)
    (listed : s.catalog.file file.table = .ok file) (txn : TxnId) (row : Row) (numbers : List Nat) :
    (Store.storeFrom file txn row numbers).Leads s (fun _ => StaysBelow path bytes places total)
      fun _ => True := by
  induction numbers generalizing s with
  | nil => exact below.storeInFresh listed txn row
  | cons number numbers ih =>
    rw [storeFrom_tries]
    refine ((below.storeInPage listed txn row number).and
      (storeInPage_leads below.coherent listed txn row number)).mono (fun _ _ => id)
        (fun _ _ => trivial) |>.bind fun placed after ⟨below, placed'⟩ => ?_
    cases placed with
    | none => exact ih below (by rw [Readies.catalog_eq placed', listed])
    | some placed => exact Op.leads_pure _ below

/-- A row that is inserted leaves files below their bounds. -/
theorem StaysBelow.insert (below : s.StaysBelow path bytes places total) (txn : TxnId)
    (table : TableId) (row : Row) :
    (Store.insert txn table row).Leads s (fun _ => StaysBelow path bytes places total)
      fun _ => True := by
  have coherent := below.coherent
  refine ((fileOf_leads s table).stops trivial).bind fun file found ⟨same, listed⟩ => ?_
  rw [same]
  obtain rfl : file.table = table := (coherent.catalog _ _ listed).1
  have inserts : (insertInto file txn row).Leads s (fun _ => StaysBelow path bytes places total)
      fun _ => True := by
    refine ((checkRow_leads s file row).stops trivial).bind fun _ checked same => ?_
    rw [same]
    exact (below.storeFrom listed txn row _).bind fun _ _ below => Op.leads_pure _ below
  refine (inserts.and (insertInto_hands coherent listed txn row)).mono (fun _ _ => id)
    (fun _ _ => trivial) |>.bind fun refs after ⟨below, handed⟩ => ?_
  exact Op.leads_of_ok handed below

/-! ## Rows that are deleted -/

theorem StaysBelow.freeInPage (below : s.StaysBelow path bytes places total)
    (listed : s.catalog.file record.page.table = .ok file) (txn : TxnId) :
    (Store.freeInPage file txn record).Leads s (fun _ => StaysBelow path bytes places total)
      fun _ => True := by
  obtain ⟨fits, added, swells⟩ := below
  have frees : (Store.freeInPage file txn record).Leads s
      (fun _ after => after.Swells path bytes places total added) fun _ => True := by
    refine ((fetch_opens swells.coherent txn _).mono (fun _ _ => id) fun _ _ => trivial).bind
      fun frame fetched ⟨fetches, opened⟩ => ?_
    have listed' : fetched.catalog.file record.page.table = .ok file := by
      rw [fetches.catalog, listed]
    refine ((freeRecord_leads listed' opened record).stops trivial).bind fun _ after freed => ?_
    exact Op.leads_pure _ ((swells.turnover fetches.toTurnover).rewrites freed.1)
  exact (frees.and (freeInPage_fits fits file txn record)).mono
    (fun _ _ freed => ⟨freed.2.1, added, freed.1⟩) fun _ _ => trivial

/-- A row that is deleted leaves files below their bounds. -/
theorem StaysBelow.delete (below : s.StaysBelow path bytes places total) (txn : TxnId) (row : Row) :
    (Store.delete txn row).Leads s (fun _ => StaysBelow path bytes places total)
      fun _ => True := by
  have coherent := below.coherent
  rcases row with ⟨fields, held⟩
  cases held with
  | none => trivial
  | some record =>
    refine ((fileOf_leads s record.page.table).stops trivial).bind fun file found ⟨same, listed⟩ => ?_
    rw [same]
    have own : s.catalog.file file.table = .ok file := by
      rw [(coherent.catalog _ _ listed).1, listed]
    have deletes : (deleteFrom file txn ⟨fields, some record⟩).Leads s
        (fun _ => StaysBelow path bytes places total) fun _ => True := by
      refine ((checkRecord_leads s file record).stops trivial).bind fun _ checked ⟨same, _⟩ => ?_
      rw [same]
      exact (below.freeInPage listed txn).bind fun _ _ below => Op.leads_pure _ below
    refine (deletes.and (deleteFrom_hands coherent own txn _)).mono (fun _ _ => id)
      (fun _ _ => trivial) |>.bind fun refs after ⟨below, handed⟩ => ?_
    exact Op.leads_of_ok handed below

end Store

open Store

namespace Plan

variable {each : Row → Op Unit} {s : Store}

/-- A scan ends below its bound, if what is done with its rows leaves its file below one. -/
theorem endsBelow_of_staysBelow (plan : Plan) (coherent : Coherent s) (fits : s.Fits s.capacity)
    (keeps : ∀ path bytes places total t row, t.StaysBelow path bytes places total →
      (each row).Leads t (fun _ => StaysBelow path bytes places total) fun _ => True) :
    plan.EndsBelow each s := by
  cases plan with
  | scan file schema txn mode =>
    let total := (s.disk.read file.path).length + s.capacity * s.longestPage
    refine ⟨total, StaysBelow file.path s.longestPage s.capacity total,
      ⟨?_, ?_, ?_, ?_⟩, staysBelow coherent fits file.path s.short_longestPage, ?_⟩
    · rintro t ⟨-, added, swells⟩
      exact swells.short
    · rintro t ⟨-, added, swells⟩
      calc file.pageCount t.disk
          ≤ (t.disk.read file.path).length := Nat.div_le_self _ _
        _ ≤ total := Nat.le_trans (Nat.le_add_right _ _) swells.room
    · exact fun t number frame after below fetched =>
        (below.fetch txn ⟨file.table, number⟩ mode).of_ok fetched
    · exact fun t row after below handled => (keeps _ _ _ _ t row below).of_ok handled
    · exact Nat.mul_le_mul_right _ (Nat.le_succ total)
  | list | aggregate | insert | delete => trivial

/-- What inserts the rows of a scan, even into its own table, leaves it to end below its bound. -/
theorem endsBelow_insert (plan : Plan) (coherent : Coherent s) (fits : s.Fits s.capacity)
    (txn : TxnId) (table : TableId) : plan.EndsBelow (Store.insert txn table) s :=
  plan.endsBelow_of_staysBelow coherent fits fun _ _ _ _ _ row below => below.insert txn table row

theorem endsBelow_delete (plan : Plan) (coherent : Coherent s) (fits : s.Fits s.capacity)
    (txn : TxnId) : plan.EndsBelow (Store.delete txn) s :=
  plan.endsBelow_of_staysBelow coherent fits fun _ _ _ _ _ row below => below.delete txn row

end Plan

end PageStore
