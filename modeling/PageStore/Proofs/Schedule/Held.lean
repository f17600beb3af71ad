import PageStore.Proofs.Schedule.Residence
import PageStore.Proofs.Store.Ground

/-!
# Locks are held on pages that exist

Transactions ask for any pages, in tables that are registered or not, and for pages of files that
are not that long.  Tables may be registered and files may be changed from outside while they do, as
long as no table is replaced and no table's file gets shorter (`System.Evolves`).  At any time each
page that somebody holds lies in the file of a registered table, so an append is granted the page
that it asks for (`System.held_pages_exist`).
-/

namespace PageStore

open Store

variable {s : Store} {txn : TxnId} {n : Nat}

/-- A call that goes on leaves what is held and cached extant. -/
theorem Call.advance_builds (grounded : s.Grounded) (fits : s.Fits n) (txn : TxnId) (call : Call)
    (registered : call.Registered s.catalog) :
    (call.advance txn).Leads s (fun _ => Builds s) (Builds s) := by
  cases call with
  | fetch page mode =>
    exact (fetch_builds grounded txn page mode).bind fun _ _ builds => builds
  | insert file row numbers =>
    cases numbers with
    | nil =>
      have stores := (storeInFresh_fits fits file txn row).and
        (storeInFresh_builds grounded registered txn row)
      refine (stores.mono (fun _ _ => id) fun _ => And.right).bind fun stored placed ⟨⟨_, kept⟩, builds⟩ => ?_
      exact (Op.leads_of_ok kept builds).bind fun _ _ builds => Op.leads_pure _ builds
    | cons number numbers =>
      have stores := (storeInPage_fits fits file txn row number).and
        (storeInPage_builds grounded file txn row number)
      refine (stores.mono (fun _ _ => id) fun _ => And.right).bind fun stored placed ⟨⟨_, kept⟩, builds⟩ => ?_
      cases stored with
      | none => exact Op.leads_pure _ builds
      | some stored =>
        exact (Op.leads_of_ok (kept _ _ rfl) builds).bind fun _ _ builds => Op.leads_pure _ builds
  | delete file record =>
    have frees := (freeInPage_fits fits file txn record).and
      (freeInPage_builds grounded file txn record)
    refine (frees.mono (fun _ _ => id) fun _ => And.right).bind fun ref freed ⟨⟨_, kept⟩, builds⟩ => ?_
    exact (Op.leads_of_ok kept builds).bind fun _ _ builds => Op.leads_pure _ builds
  | scan file mode number found =>
    have counts : (pageCount file).Leads s (fun _ after => after = s) (Builds s) := rfl
    refine counts.bind ?_
    rintro count _ rfl
    split
    · rw [readPage_eq]
      refine ((fetch_builds grounded txn _ mode).bind fun frame fetched builds => ?_).bind
        fun rows after builds => Op.leads_pure _ builds
      exact Op.leads_ofExcept (fun _ _ => builds) builds
    · exact Op.leads_pure _ (.refl _)

namespace System

variable {sys start : System}

/-- A system whose locks are held on pages that exist, and whose calls go on with tables of its
catalog. -/
structure Rooted (sys : System) : Prop where
  grounded : sys.store.Grounded
  fits : sys.store.Fits sys.store.capacity
  registered : ∀ txn call, sys.calls.get? txn = some call → call.Registered sys.store.catalog

theorem Fresh.rooted (fresh : start.Fresh) : start.Rooted where
  grounded :=
    { sound := fresh.catalog
      cached page cached := by
        rw [fresh.cache] at cached
        cases cached
      locked txn page held := by
        rw [fresh.locks] at held
        cases held }
  fits := fresh.fits
  registered txn call halted := by
    rw [fresh.calls] at halted
    cases halted

/-- What an action does to the store is built on it. -/
theorem Effect.builds {action : Action} {after : Store} (effect : sys.Effect action after)
    (rooted : sys.Rooted) : Builds sys.store after := by
  cases effect with
  | nothing => exact .refl _
  | @advances txn call halted =>
    exact (call.advance_builds rooted.grounded rooted.fits txn
      (rooted.registered txn call halted)).final
  | @commits txn => exact (commit_builds txn sys.store).final
  | aborts => exact builds_abort _ _
  | flushes pages => exact (flushEach_builds pages sys.store).final
  | discards => exact builds_dropPage _ _
  | releases => exact builds_release _ _ _
  | turns => exact .of_disk rfl rfl rfl (.refl _)

theorem Rooted.act (rooted : sys.Rooted) (action : Action) : (sys.act action).2.Rooted := by
  have builds := (sys.act_effect action).builds rooted
  have fits := (sys.act_effect action).fits rooted.fits
  refine ⟨rooted.grounded.builds builds, ?_, ?_⟩
  · rw [fits.capacity]
    exact fits
  · rw [builds.catalog]
    exact act_registered rooted.grounded.sound rooted.registered action

/-! ## Tables and files from outside -/

/-- The system over another disk, with another catalog. -/
def onto (sys : System) (disk : Disk) (catalog : Catalog) : System :=
  { sys with store := { sys.store with disk := disk, catalog := catalog } }

/-- What a system becomes by actions, while files are opened and registered as further tables, and
files are changed from outside, but none of a table is made shorter. -/
inductive Evolves (start : System) : System → Prop
  | start : Evolves start start
  | act {sys : System} (before : Evolves start sys) (action : Action) :
      Evolves start (sys.act action).2
  | registers {sys : System} {fileName name : String} {schema : Schema} {pageSize : Nat}
      {file : HeapFile} {disk : Disk} {catalog : Catalog} (before : Evolves start sys)
      (opened : HeapFile.onDisk .checked sys.store.disk fileName schema pageSize = .ok (file, disk))
      (added : sys.store.catalog.add file name = .ok catalog)
      (kept : ∀ table old, sys.store.catalog.file table = .ok old → catalog.file table = .ok old) :
      Evolves start (sys.onto disk catalog)
  | changes {sys : System} {disk : Disk} (before : Evolves start sys)
      (longer : ∀ table file, sys.store.catalog.file table = .ok file →
        (sys.store.disk.read file.path).length ≤ (disk.read file.path).length) :
      Evolves start (sys.onto disk sys.store.catalog)

/-- No table is lost and no file of a table gets shorter, so what was extant stays so. -/
theorem Rooted.onto {disk : Disk} {catalog : Catalog} (rooted : sys.Rooted) (sound : catalog.Sound)
    (kept : ∀ table old, sys.store.catalog.file table = .ok old → catalog.file table = .ok old)
    (longer : ∀ table file, sys.store.catalog.file table = .ok file →
      (sys.store.disk.read file.path).length ≤ (disk.read file.path).length) :
    (sys.onto disk catalog).Rooted where
  grounded :=
    { sound := sound
      cached page cached := (rooted.grounded.cached page cached).grows kept longer
      locked txn page held := (rooted.grounded.locked txn page held).grows kept longer }
  fits := rooted.fits.of_same rfl rfl
  registered txn call halted := by
    have registered := rooted.registered txn call halted
    cases call with
    | fetch => exact trivial
    | insert => exact kept _ _ registered
    | delete => exact kept _ _ registered
    | scan => exact kept _ _ registered

theorem Evolves.rooted (evolves : Evolves start sys) (rooted : start.Rooted) : sys.Rooted := by
  induction evolves with
  | start => exact rooted
  | act _ action ih => exact ih.act action
  | @registers sys fileName name schema pageSize file disk catalog _ opened added kept ih =>
    have sound := ih.grounded.sound.add file (HeapFile.sound_of_onDisk opened).1 added
    refine ih.onto sound kept fun table old _ => Nat.le_of_eq ?_
    rw [HeapFile.read_onDisk opened]
  | changes _ longer ih => exact ih.onto ih.grounded.sound (fun _ _ => id) longer

/-! ## Pages that are held -/

/-- At any time each page that a transaction holds lies in the file of a registered table.  So
whoever appends a page to a registered table is granted the page at once, and only a cache that is
full of pages that cannot leave it can stop the append. -/
theorem held_pages_exist (fresh : start.Fresh) (evolves : Evolves start sys) :
    (∀ txn page, sys.store.locks.holds txn page = true →
      ∃ file, sys.store.catalog.file page.table = .ok file ∧
        page.number < file.pageCount sys.store.disk) ∧
    ∀ txn table file, sys.store.catalog.file table = .ok file →
      (∀ overdue, (sys.store.locks.acquire txn ⟨table, file.pageCount sys.store.disk⟩ .exclusive
        overdue).1 = .granted) ∧
      ∀ stop after, appendPage file txn sys.store = .error stop after →
        stop = .failed (.cacheExhausted sys.store.capacity) := by
  have rooted := evolves.rooted fresh.rooted
  refine ⟨rooted.grounded.locked, fun txn table file listed => ?_⟩
  have own : file.table = table := (rooted.grounded.sound table file listed).1
  subst own
  exact ⟨rooted.grounded.acquire_next listed txn,
    fun stop after => rooted.grounded.appendPage_error listed⟩

/-- The statement above after a transaction asked for a page that does not exist and for one of a
table that does not, and inserted a row; and after the file got longer from outside. -/
theorem held_pages_exist_after_failed_fetches :
    let page : PageId := ⟨smallFile.table, 0⟩
    let sys := small.acts [.begin, .demand 0 (.fetch ⟨smallFile.table, 5⟩ .shared), .advance 0,
      .demand 0 (.fetch ⟨0, 0⟩ .exclusive), .advance 0, .demand 0 (.insert page.table ⟨[.int 7], none⟩),
      .advance 0]
    let grown := sys.onto (sys.store.disk.append "t" (Bytes.zeros 8)) sys.store.catalog
    (grown.store.locks.holds 0 page = true ∧
      ∃ file, grown.store.catalog.file page.table = .ok file ∧
        page.number < file.pageCount grown.store.disk) ∧
    grown.store.catalog.file page.table = .ok smallFile ∧
    (grown.store.locks.acquire 1 ⟨page.table, smallFile.pageCount grown.store.disk⟩ .exclusive
      true).1 = .granted := by
  intro page sys grown
  have acts (actions : List Action) : Evolves small (small.acts actions) := by
    have goes (sys : System) (evolves : Evolves small sys) : Evolves small (sys.acts actions) := by
      induction actions generalizing sys with
      | nil => exact evolves
      | cons action actions ih => exact ih _ (evolves.act action)
    exact goes small .start
  have evolves : Evolves small grown := by
    refine .changes (acts _) fun table file _ => ?_
    rw [Disk.read_append]
    split
    · next here =>
      rw [here, List.length_append]
      exact Nat.le_add_right _ _
    · exact Nat.le_refl _
  have held : grown.store.locks.holds 0 page = true := by decide +kernel
  have listed : grown.store.catalog.file page.table = .ok smallFile := by decide +kernel
  obtain ⟨exist, appends⟩ := held_pages_exist small_fresh evolves
  exact ⟨⟨held, exist 0 page held⟩, listed, (appends 1 page.table smallFile listed).1 true⟩

end System

end PageStore
