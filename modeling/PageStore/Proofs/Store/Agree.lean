import PageStore.Proofs.Lock.Waiting
import PageStore.Proofs.Store.Ground

/-!
# Stores that agree in some tables

Two stores agree in some tables if these tables are listed alike, have the same bytes in their
files, the same pages in the cache and the same holders of their pages (`Store.Agree`).  In which
frames the pages are, and what else is cached, locked or stored, may differ.

What an operation does to the pages of a table is a matter of these.  For locks, `LockTable.Puts`
says what asking for a page or letting go of it does to the holders of pages, whether or not the
request is granted; a request that is not granted is refused for a cycle only if one of the holders
waits (`LockTable.acquire_of_blocked`).  For the cache, a page that is not cached is loaded without
evicting any as long as there is room (`Store.load_of_stored`).
-/

namespace PageStore

namespace LockTable

variable {locks after later : LockTable} {txn other : TxnId} {page place : PageId}
  {mode : LockMode} {holders : Holders} {blockers : List TxnId}

/-- The locks after a transaction asked for a page or let go of it, which has the given holders
then. -/
structure Puts (txn : TxnId) (page : PageId) (holders : Holders) (locks after : LockTable) :
    Prop where
  here : after.holders page = holders
  elsewhere : ∀ place, place ≠ page → after.holders place = locks.holders place
  waits : ∀ other, other ≠ txn → locks.waits.get? other = none → after.waits.get? other = none

/-- A request that agrees with the holders of its page is granted. -/
theorem acquire_of_grant (ok : (locks.holders page).grant txn mode = .ok holders) (overdue : Bool) :
    ∃ after, locks.acquire txn page mode overdue = (.granted, after) ∧
      Puts txn page holders locks after := by
  rcases acquire_cases locks txn page mode overdue with ⟨granted, ok', eq⟩ | ⟨_, refused, -⟩
  · rw [ok] at ok'
    cases ok'
    refine ⟨_, eq, ?_, fun place ne => ?_, fun other ne none => ?_⟩
    · exact (holders_withGrant locks txn page holders page).trans (if_pos rfl)
    · exact (holders_withGrant locks txn page holders place).trans (if_neg ne)
    · exact (Dictionary.get?_erase ..).trans ((if_neg ne).trans none)
  · rw [ok] at refused
    cases refused

/-- A request that conflicts with holders who do not wait is refused only for being overdue. -/
theorem acquire_of_blocked (blocked : (locks.holders page).grant txn mode = .error blockers)
    (calm : ∀ other, other ≠ txn → (locks.mode? other page).isSome →
      locks.waits.get? other = none) (overdue : Bool) :
    ∃ after, locks.acquire txn page mode overdue =
        (if overdue then .refused (.timedOut txn page) else .waiting, after) ∧
      Puts txn page (locks.holders page) locks after := by
  have missed : WaitGraph.hasCycle (locks.waits.put txn ⟨page, blockers⟩) txn = false := by
    refine WaitGraph.hasCycle_put_of_leaves fun target mem => ?_
    obtain ⟨ne, held, holds, -⟩ := (Holders.blocks_of_grant_error blocked).2 target mem
    exact ⟨ne, calm target ne (by rw [mode?, holds]; rfl)⟩
  refine ⟨(locks.acquire txn page mode overdue).2, ?_⟩
  rcases acquire_cases locks txn page mode overdue with
    ⟨_, ok, -⟩ | ⟨found, refused, ⟨cycle, -⟩ | ⟨-, late, eq⟩ | ⟨-, early, eq⟩⟩
  · rw [blocked] at ok
    cases ok
  all_goals
    rw [blocked] at refused
    cases refused
  · rw [missed] at cycle
    cases cycle
  · rw [eq, late]
    refine ⟨rfl, rfl, fun _ _ => rfl, fun other ne none => ?_⟩
    exact (Dictionary.get?_erase ..).trans ((if_neg ne).trans
      ((Dictionary.get?_put ..).trans ((if_neg ne).trans none)))
  · rw [eq, early]
    refine ⟨rfl, rfl, fun _ _ => rfl, fun other ne none => ?_⟩
    exact (Dictionary.get?_put ..).trans ((if_neg ne).trans none)

/-- Letting go of the page that was asked for. -/
theorem Puts.release (puts : Puts txn page holders locks after) :
    Puts txn page (holders.remove txn) locks (after.release txn page) where
  here := by rw [holders_release, if_pos rfl, puts.here]
  elsewhere place ne := by rw [holders_release, if_neg ne, puts.elsewhere place ne]
  waits other ne none := by
    simp only [LockTable.release, waits_dropHolder, WaitGraph.withoutTargetOn,
      Dictionary.get?_mapValues, puts.waits other ne none, Option.map_none]

end LockTable

namespace Store

variable {mine : TableId → Prop} {s t u after after' : Store} {txn : TxnId} {page place : PageId}
  {frame : Frame} {stored : Page} {mode : LockMode} {file : HeapFile} {holders : Holders}

/-! ## Agreement -/

/-- Two stores of which some tables are the same. -/
structure Agree (mine : TableId → Prop) (s t : Store) : Prop where
  catalog : t.catalog = s.catalog
  overdue : t.overdue = s.overdue
  files : ∀ table file, mine table → s.catalog.file table = .ok file →
    t.disk.read file.path = s.disk.read file.path
  cached : ∀ page, mine page.table → t.cached? page = s.cached? page
  holders : ∀ page, mine page.table → t.locks.holders page = s.locks.holders page

theorem Agree.refl (mine : TableId → Prop) (s : Store) : Agree mine s s :=
  ⟨rfl, rfl, fun _ _ _ _ => rfl, fun _ _ => rfl, fun _ _ => rfl⟩

theorem Agree.symm (agree : Agree mine s t) : Agree mine t s where
  catalog := agree.catalog.symm
  overdue := agree.overdue.symm
  files table file own listed := (agree.files table file own (agree.catalog ▸ listed)).symm
  cached page own := (agree.cached page own).symm
  holders page own := (agree.holders page own).symm

theorem Agree.trans (first : Agree mine s t) (second : Agree mine t u) : Agree mine s u where
  catalog := second.catalog.trans first.catalog
  overdue := second.overdue.trans first.overdue
  files table file own listed :=
    (second.files table file own (first.catalog ▸ listed)).trans (first.files table file own listed)
  cached page own := (second.cached page own).trans (first.cached page own)
  holders page own := (second.holders page own).trans (first.holders page own)

theorem Agree.mono {fewer : TableId → Prop} (agree : Agree mine s t)
    (among : ∀ table, fewer table → mine table) : Agree fewer s t where
  catalog := agree.catalog
  overdue := agree.overdue
  files table file own := agree.files table file (among table own)
  cached page own := agree.cached page (among _ own)
  holders page own := agree.holders page (among _ own)

theorem Agree.mode? (agree : Agree mine s t) (own : mine page.table) (txn : TxnId) :
    t.locks.mode? txn page = s.locks.mode? txn page := by
  rw [LockTable.mode?, agree.holders page own]
  rfl

theorem Agree.pageCount (agree : Agree mine s t) (own : mine file.table)
    (listed : s.catalog.file file.table = .ok file) :
    file.pageCount t.disk = file.pageCount s.disk := by
  unfold HeapFile.pageCount
  rw [agree.files _ file own listed]

theorem Agree.extant (agree : Agree mine s t) (own : mine page.table) :
    t.Extant page ↔ s.Extant page := by
  unfold Extant HeapFile.pageCount
  rw [agree.catalog]
  refine exists_congr fun file => and_congr_right fun listed => ?_
  rw [agree.files page.table file own listed]

/-- A page of a table in which stores agree is cached in both, or in neither. -/
theorem Agree.get? (agree : Agree mine s t) (own : mine page.table) :
    (s.cache.get? page = none ∧ t.cache.get? page = none) ∨
      ∃ frame frame', s.cache.get? page = some frame ∧ t.cache.get? page = some frame' ∧
        frame'.page = frame.page := by
  have same := agree.cached page own
  unfold cached? at same
  cases here : s.cache.get? page with
  | none =>
    rw [here, Option.map_none, Option.map_eq_none_iff] at same
    exact .inl ⟨rfl, same⟩
  | some frame =>
    rw [here, Option.map_some, Option.map_eq_some_iff] at same
    obtain ⟨frame', there, pages⟩ := same
    exact .inr ⟨frame, frame', rfl, there, pages⟩

/-- Reading a page of a table in which stores agree gives the same, whatever is locked. -/
theorem Agree.readStored (agree : Agree mine s t) (own : mine page.table) :
    ∃ answer, (∀ locks, readStored page { s with locks := locks } =
        Op.ofExcept answer { s with locks := locks }) ∧
      ∀ locks, readStored page { t with locks := locks } =
        Op.ofExcept answer { t with locks := locks } := by
  refine ⟨do (← s.catalog.file page.table).read s.disk page, fun _ => rfl, fun locks => ?_⟩
  unfold Store.readStored
  rw [agree.catalog]
  cases listed : s.catalog.file page.table with
  | error e => rfl
  | ok file =>
    show Op.ofExcept (file.read t.disk page) _ = Op.ofExcept (file.read s.disk page) _
    rw [HeapFile.read_congr (agree.files page.table file own listed)]

/-! ## Fetching step by step -/

/-- A fetch that succeeds was granted its lock and has loaded its page. -/
theorem loaded_of_fetch (fetched : fetch txn page mode s = .ok frame after) :
    ∃ locked, acquire txn page mode s = .ok () locked ∧ load page locked = .ok frame after := by
  cases asked : acquire txn page mode s with
  | error stop refused => cases (fetch_of_refused asked).symm.trans fetched
  | ok _ locked =>
    cases loads : load page locked with
    | error stop failed => cases (fetch_of_unloaded asked loads).symm.trans fetched
    | ok found loaded =>
      cases (fetch_of_loaded asked loads).symm.trans fetched
      exact ⟨locked, rfl, loads⟩

/-- A page that is cached is fetched as soon as its lock was granted. -/
theorem fetch_of_cached {locked : Store} (granted : acquire txn page mode s = .ok () locked)
    (cached : s.cache.get? page = some frame) : fetch txn page mode s = .ok frame locked := by
  have same := ((acquire_leads s txn page mode).of_ok granted).1
  refine fetch_of_loaded granted (load_of_cached ?_)
  rw [same]
  exact cached

theorem load_of_unread {stop : Stop} (missing : s.cache.get? page = none)
    (unread : readStored page s = .error stop s) : load page s = .error stop s :=
  (load_of_missing missing).trans (Op.bind_error unread)

/-- A page is loaded as a new frame where there is room. -/
theorem load_of_stored (missing : s.cache.get? page = none)
    (read : readStored page s = .ok stored s) (room : s.cache.size < s.capacity) :
    load page s = .ok ⟨s.nextSerial, stored⟩
      { s with
        cache := s.cache.put stored.id ⟨s.nextSerial, stored⟩
        nextSerial := s.nextSerial + 1 } :=
  (load_of_missing missing).trans ((Op.bind_ok read).trans (Op.bind_ok (makeRoom_of_room room)))

end Store

end PageStore
