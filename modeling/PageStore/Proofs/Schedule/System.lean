import PageStore.Proofs.Schedule.Call
import PageStore.Proofs.Store.Flush

/-!
# Transactions side by side

A system is a store with the halted calls of its transactions.  An action lets one transaction begin
a call, takes a halted call through one page, or ends a transaction; it flushes pages, discards a
page, or gives back a lock; or it changes what is left open: which transactions have outlived the
bound on waits, and how the cache orders its pages.  Actions come in any order (`System.Run`).  A
transaction with a halted call does nothing else until the call has ended.

`System.Outcome` lists what an action can come to, with what is heard of it, and `System.Moves` what
it can do to a coherent store (`System.act_outcome`, `System.act_moves`).  What holds of every move
holds along every run; the first such fact is that the store stays coherent (`System.Run.steady`).
In terms of bytes: every cached page agrees with the file of its table
(`System.cached_pages_agree_with_files`).

The moves are those of coherent stores.  On any store, an action runs one operation of the store or
none (`System.act_effect`).
-/

namespace PageStore

open Store

/-- A store with the halted calls of its transactions. -/
structure System where
  store : Store
  calls : Dictionary TxnId Call
  nextTxn : TxnId
deriving Inhabited

/-- What can happen in a system. -/
inductive Action where
  | begin
  | demand (txn : TxnId) (demand : Demand)
  | advance (txn : TxnId)
  | commit (txn : TxnId)
  | abort (txn : TxnId)
  | flushPages (txn : TxnId)
  | flushAll
  | discard (page : PageId)
  | release (txn : TxnId) (page : PageId)
  | turn (overdue : TxnId → Bool) (arrangement : Arrangement)

/-- What is heard of an action. -/
inductive Report where
  | quiet
  | begun (txn : TxnId)
  | halted (txn : TxnId)
  | stopped (txn : TxnId) (stop : Stop)
  | answered (txn : TxnId) (answer : Answer)
  | committed (txn : TxnId)
  | notCommitted (txn : TxnId) (stop : Stop)
  | aborted (txn : TxnId)
deriving DecidableEq, Repr, Inhabited

namespace Action

/-- Whether an action flushes pages apart from any commit. -/
def isFlush : Action → Bool
  | flushPages _ | flushAll => true
  | _ => false

end Action

namespace Report

/-- Whether a report tells of no change and of no end of a transaction. -/
def isQuiet : Report → Bool
  | answered _ answer => answer.change?.isNone
  | committed _ | notCommitted .. | aborted _ => false
  | quiet | begun _ | halted _ | stopped .. => true

/-- Whether a report tells of a commit that failed. -/
def isFailedCommit : Report → Bool
  | notCommitted .. => true
  | _ => false

end Report

namespace System

/-- Whether a transaction has begun and has no halted call. -/
def isFree (sys : System) (txn : TxnId) : Bool :=
  decide (txn < sys.nextTxn) && !sys.calls.contains txn

/-- Goes on with a call. -/
def advance (sys : System) (txn : TxnId) (call : Call) : Report × System :=
  match call.advance txn sys.store with
  | .ok (.inl answer) store =>
    (.answered txn answer, { sys with store := store, calls := sys.calls.erase txn })
  | .ok (.inr call) store =>
    (.halted txn, { sys with store := store, calls := sys.calls.put txn call })
  | .error .waiting store => (.stopped txn .waiting, { sys with store := store })
  | .error (.failed cause) store =>
    (.stopped txn (.failed cause), { sys with store := store, calls := sys.calls.erase txn })

/-- What an action does.  A transaction that is not free takes no action but to go on. -/
def act (sys : System) : Action → Report × System
  | .begin => (.begun sys.nextTxn, { sys with nextTxn := sys.nextTxn + 1 })
  | .demand txn demand =>
    if sys.isFree txn then
      match demand.start sys.store with
      | .ok call store =>
        (.halted txn, { sys with store := store, calls := sys.calls.put txn call })
      | .error stop store => (.stopped txn stop, { sys with store := store })
    else (.quiet, sys)
  | .advance txn =>
    match sys.calls.get? txn with
    | none => (.quiet, sys)
    | some call => sys.advance txn call
  | .commit txn =>
    if sys.isFree txn then
      match Store.commit txn sys.store with
      | .ok _ store => (.committed txn, { sys with store := store })
      | .error stop store => (.notCommitted txn stop, { sys with store := store })
    else (.quiet, sys)
  | .abort txn =>
    if sys.isFree txn then (.aborted txn, { sys with store := sys.store.abort txn })
    else (.quiet, sys)
  | .flushPages txn => (.quiet, { sys with store := Op.final (Store.flushPages txn sys.store) })
  | .flushAll => (.quiet, { sys with store := Op.final (Store.flushAll sys.store) })
  | .discard page => (.quiet, { sys with store := sys.store.dropPage page })
  | .release txn page =>
    if sys.isFree txn then (.quiet, { sys with store := sys.store.release txn page })
    else (.quiet, sys)
  | .turn overdue arrangement =>
    (.quiet, { sys with store := { sys.store with overdue := overdue, arrangement := arrangement } })

/-- What a system does over time, each action among those allowed in its place, and what is heard
of it. -/
inductive Run (allowed : System → Action → Prop) (start : System) : List Report → System → Prop
  | nil : Run allowed start [] start
  | act {reports : List Report} {sys : System} (run : Run allowed start reports sys)
      (action : Action) (permitted : allowed sys action) :
      Run allowed start (reports ++ [(sys.act action).1]) (sys.act action).2

/-- A system after some actions, one after another. -/
def acts (sys : System) (actions : List Action) : System :=
  actions.foldl (fun sys action => (sys.act action).2) sys

/-- What is heard of some actions, one after another. -/
def hears (sys : System) : List Action → List Report
  | [] => []
  | action :: actions => (sys.act action).1 :: (sys.act action).2.hears actions

/-- A run goes on with actions that are allowed at any time. -/
theorem Run.acts {allowed : System → Action → Prop} {start sys : System} {reports : List Report}
    (run : Run allowed start reports sys) {actions : List Action}
    (permitted : ∀ action ∈ actions, ∀ sys, allowed sys action) :
    Run allowed start (reports ++ sys.hears actions) (sys.acts actions) := by
  induction actions generalizing reports sys with
  | nil => simpa [hears, System.acts] using run
  | cons action actions ih =>
    have first := run.act action (permitted action List.mem_cons_self sys)
    have rest := ih first fun action mem => permitted action (List.mem_cons_of_mem _ mem)
    simpa [hears, System.acts] using rest

/-- What is allowed in a run may be widened. -/
theorem Run.mono {allowed wider : System → Action → Prop} {start sys : System}
    {reports : List Report} (run : Run allowed start reports sys)
    (widens : ∀ sys action, allowed sys action → wider sys action) :
    Run wider start reports sys := by
  induction run with
  | nil => exact .nil
  | act _ action permitted ih => exact ih.act action (widens _ action permitted)

theorem run_acts {allowed : System → Action → Prop} (start : System) {actions : List Action}
    (permitted : ∀ action ∈ actions, ∀ sys, allowed sys action) :
    Run allowed start (start.hears actions) (start.acts actions) :=
  Run.nil.acts permitted

/-- A system in which nothing was done yet: its tables are in files that its log does not write, and
there is nothing in memory. -/
structure Fresh (sys : System) : Prop where
  catalog : sys.store.catalog.Sound
  apart : sys.store.journal.Apart sys.store.catalog
  cache : sys.store.cache = .empty
  locks : sys.store.locks = .empty
  calls : sys.calls = .empty

/-! ## What an action comes to -/

/-- What is heard of an action, and the system after it. -/
inductive Outcome (sys : System) : Action → Report × System → Prop
  | nothing {action : Action} : Outcome sys action (.quiet, sys)
  | begins : Outcome sys .begin (.begun sys.nextTxn, { sys with nextTxn := sys.nextTxn + 1 })
  | starts {txn : TxnId} {demand : Demand} {call : Call}
      (starts : demand.start sys.store = .ok call sys.store) :
      Outcome sys (.demand txn demand) (.halted txn, { sys with calls := sys.calls.put txn call })
  | refuses {txn : TxnId} {demand : Demand} {stop : Stop}
      (refuses : demand.start sys.store = .error stop sys.store) :
      Outcome sys (.demand txn demand) (.stopped txn stop, sys)
  | answers {txn : TxnId} {call : Call} {answer : Answer} {after : Store}
      (halted : sys.calls.get? txn = some call)
      (advances : call.advance txn sys.store = .ok (.inl answer) after) :
      Outcome sys (.advance txn)
        (.answered txn answer, { sys with store := after, calls := sys.calls.erase txn })
  | goesOn {txn : TxnId} {call next : Call} {after : Store}
      (halted : sys.calls.get? txn = some call)
      (advances : call.advance txn sys.store = .ok (.inr next) after) :
      Outcome sys (.advance txn)
        (.halted txn, { sys with store := after, calls := sys.calls.put txn next })
  | waits {txn : TxnId} {call : Call} {after : Store} (halted : sys.calls.get? txn = some call)
      (advances : call.advance txn sys.store = .error .waiting after) :
      Outcome sys (.advance txn) (.stopped txn .waiting, { sys with store := after })
  | fails {txn : TxnId} {call : Call} {cause : Error} {after : Store}
      (halted : sys.calls.get? txn = some call)
      (advances : call.advance txn sys.store = .error (.failed cause) after) :
      Outcome sys (.advance txn)
        (.stopped txn (.failed cause), { sys with store := after, calls := sys.calls.erase txn })
  | commits {txn : TxnId} {after : Store} (free : sys.isFree txn = true)
      (commits : Store.commit txn sys.store = .ok () after) :
      Outcome sys (.commit txn) (.committed txn, { sys with store := after })
  | falters {txn : TxnId} {stop : Stop} {after : Store} (free : sys.isFree txn = true)
      (falters : Store.commit txn sys.store = .error stop after) :
      Outcome sys (.commit txn) (.notCommitted txn stop, { sys with store := after })
  | aborts {txn : TxnId} (free : sys.isFree txn = true) :
      Outcome sys (.abort txn) (.aborted txn, { sys with store := sys.store.abort txn })
  | flushesPages {txn : TxnId} :
      Outcome sys (.flushPages txn)
        (.quiet, { sys with store := Op.final (Store.flushPages txn sys.store) })
  | flushesAll :
      Outcome sys .flushAll (.quiet, { sys with store := Op.final (Store.flushAll sys.store) })
  | discards {page : PageId} :
      Outcome sys (.discard page) (.quiet, { sys with store := sys.store.dropPage page })
  | releases {txn : TxnId} {page : PageId} (free : sys.isFree txn = true) :
      Outcome sys (.release txn page) (.quiet, { sys with store := sys.store.release txn page })
  | turns {overdue : TxnId → Bool} {arrangement : Arrangement} :
      Outcome sys (.turn overdue arrangement)
        (.quiet,
          { sys with store := { sys.store with overdue := overdue, arrangement := arrangement } })

theorem advance_outcome {sys : System} {txn : TxnId} {call : Call}
    (halted : sys.calls.get? txn = some call) :
    sys.Outcome (.advance txn) (sys.advance txn call) := by
  unfold System.advance
  split
  · next advances => exact .answers halted advances
  · next advances => exact .goesOn halted advances
  · next advances => exact .waits halted advances
  · next advances => exact .fails halted advances

theorem act_outcome (sys : System) (action : Action) : sys.Outcome action (sys.act action) := by
  cases action with
  | begin => exact .begins
  | demand txn demand =>
    have same := demand.start_final sys.store
    simp only [System.act]
    split
    · split
      · next starts =>
        rw [starts] at same
        cases same
        exact .starts starts
      · next refuses =>
        rw [refuses] at same
        cases same
        exact .refuses refuses
    · exact .nothing
  | advance txn =>
    simp only [System.act]
    split
    · exact .nothing
    · next halted => exact advance_outcome halted
  | commit txn =>
    simp only [System.act]
    split
    · next free =>
      split
      · next commits => exact .commits free commits
      · next falters => exact .falters free falters
    · exact .nothing
  | abort txn =>
    simp only [System.act]
    split
    · next free => exact .aborts free
    · exact .nothing
  | flushPages txn => exact .flushesPages
  | flushAll => exact .flushesAll
  | discard page => exact .discards
  | release txn page =>
    simp only [System.act]
    split
    · next free => exact .releases free
    · exact .nothing
  | turn overdue arrangement => exact .turns

/-! ## What an action can do -/

/-- What an action can do to a store, with what is heard of it. -/
inductive Moves (s : Store) : Action → Report → Store → Prop
  | readies {action : Action} {report : Report} {after : Store} {txn : TxnId}
      (readies : Readies txn s after) (quiet : report.isQuiet = true) : Moves s action report after
  | alters {txn : TxnId} {answer : Answer} {change : Change} {after : Store}
      (made : answer.change? = some change)
      (alters : Alters txn change.record change.row s after) :
      Moves s (.advance txn) (.answered txn answer) after
  | commits {txn : TxnId} {flushed : Store}
      (persists : Persists (s.pagesDirtiedBy txn) s flushed) :
      Moves s (.commit txn) (.committed txn) (flushed.releaseAll txn)
  | fails {txn : TxnId} {stop : Stop} {done : List PageId} {flushed : Store}
      (persists : Persists done s flushed) (among : done ⊆ s.pagesDirtiedBy txn) :
      Moves s (.commit txn) (.notCommitted txn stop) (flushed.abort txn)
  | aborts {txn : TxnId} : Moves s (.abort txn) (.aborted txn) (s.abort txn)
  | flushes {action : Action} {done : List PageId} {after : Store} (flush : action.isFlush = true)
      (persists : Persists done s after) : Moves s action .quiet after
  | discards {page : PageId} : Moves s (.discard page) .quiet (s.dropPage page)
  | releases {txn : TxnId} {page : PageId} :
      Moves s (.release txn page) .quiet (s.release txn page)

variable {s after : Store} {sys : System} {action : Action} {report : Report} {txn : TxnId}

/-- A store with nothing changed that a move is about. -/
theorem Moves.rests (same : after.disk = s.disk) (catalog : after.catalog = s.catalog)
    (journal : after.journal = s.journal) (cache : after.cache = s.cache)
    (locks : after.locks = s.locks) (quiet : report.isQuiet = true) :
    Moves s action report after := by
  have turnover : Turnover s after :=
    ⟨same, catalog, journal, fun _ _ cached _ => by rw [cache, cached],
      fun _ _ cached => .inl (by rw [← cache, cached])⟩
  have readies : Readies 0 s after := .fetches (.of_turnover turnover locks)
  exact .readies readies quiet

/-- A system whose store is coherent and whose calls go on with tables of its catalog. -/
structure Steady (sys : System) : Prop where
  coherent : sys.store.Coherent
  registered : ∀ txn call, sys.calls.get? txn = some call → call.Registered sys.store.catalog

/-- Calls that were registered stay so when one has ended. -/
theorem registered_erase {catalog : Catalog} {calls : Dictionary TxnId Call}
    (registered : ∀ txn call, calls.get? txn = some call → call.Registered catalog) (txn : TxnId) :
    ∀ other call, (calls.erase txn).get? other = some call → call.Registered catalog :=
  fun other call left => registered other call (Dictionary.get?_of_erase left)

theorem registered_put {catalog : Catalog} {calls : Dictionary TxnId Call} {next : Call}
    (registered : ∀ txn call, calls.get? txn = some call → call.Registered catalog) (txn : TxnId)
    (own : next.Registered catalog) :
    ∀ other call, (calls.put txn next).get? other = some call → call.Registered catalog := by
  intro other call left
  rw [Dictionary.get?_put] at left
  split at left
  · cases left
    exact own
  · exact registered other call left

/-- An action leaves the halted calls on tables of the catalog. -/
theorem act_registered (sound : sys.store.catalog.Sound)
    (registered : ∀ txn call, sys.calls.get? txn = some call → call.Registered sys.store.catalog)
    (action : Action) :
    ∀ txn call, (sys.act action).2.calls.get? txn = some call →
      call.Registered sys.store.catalog := by
  have outcome := sys.act_outcome action
  generalize sys.act action = done at outcome ⊢
  cases outcome with
  | @starts txn demand call starts =>
    exact registered_put registered txn (((demand.start_leads sys.store).of_ok starts).2 sound)
  | @answers txn _ _ _ _ _ => exact registered_erase registered txn
  | @goesOn txn call _ _ halted advances =>
    exact registered_put registered txn
      (Call.advance_registered (registered txn call halted) advances)
  | @fails txn _ _ _ _ _ => exact registered_erase registered txn
  | _ => exact registered

/-- An action makes one of the moves. -/
theorem act_moves (steady : sys.Steady) (action : Action) :
    Moves sys.store action (sys.act action).1 (sys.act action).2.store := by
  have rests {report : Report} (quiet : report.isQuiet = true) :
      Moves sys.store action report sys.store := .rests rfl rfl rfl rfl rfl quiet
  have leads {txn : TxnId} {call : Call} (halted : sys.calls.get? txn = some call) :=
    call.advance_leads steady.coherent txn (steady.registered txn call halted)
  have outcome := sys.act_outcome action
  generalize sys.act action = done at outcome ⊢
  cases outcome with
  | nothing | begins | starts _ | refuses _ => exact rests rfl
  | @answers txn call answer after halted advances =>
    have answers := (leads halted).of_ok advances
    cases made : answer.change? with
    | none =>
      simp only [made] at answers
      exact .readies answers (by simp [Report.isQuiet, made])
    | some change =>
      simp only [made] at answers
      exact .alters made answers
  | goesOn halted advances => exact .readies ((leads halted).of_ok advances) rfl
  | waits halted advances | fails halted advances =>
    exact .readies ((leads halted).of_error advances) rfl
  | @commits txn _ _ commits =>
    obtain ⟨flushed, persists, rfl⟩ := (commit_leads steady.coherent txn).of_ok commits
    exact .commits persists
  | @falters txn _ _ _ falters =>
    obtain ⟨done, among, flushed, persists, rfl⟩ :=
      (commit_leads steady.coherent txn).of_error falters
    exact .fails persists among
  | aborts _ => exact .aborts
  | @flushesPages txn =>
    obtain ⟨done, -, persists⟩ :=
      flushEach_persists steady.coherent (sys.store.pagesDirtiedBy txn)
    exact .flushes rfl persists
  | flushesAll =>
    obtain ⟨done, -, persists⟩ := flushEach_persists steady.coherent sys.store.dirtyPages
    exact .flushes rfl persists
  | discards => exact .discards
  | releases _ => exact .releases
  | turns => exact .rests rfl rfl rfl rfl rfl rfl

/-! ## Operations that actions run -/

/-- The store after an action, by the operation that the action ran on it. -/
inductive Effect (sys : System) : Action → Store → Prop
  | nothing {action : Action} : Effect sys action sys.store
  | advances {txn : TxnId} {call : Call} (halted : sys.calls.get? txn = some call) :
      Effect sys (.advance txn) (Op.final (call.advance txn sys.store))
  | commits {txn : TxnId} : Effect sys (.commit txn) (Op.final (Store.commit txn sys.store))
  | aborts {txn : TxnId} : Effect sys (.abort txn) (sys.store.abort txn)
  | flushes {action : Action} (pages : List PageId) :
      Effect sys action (Op.final (pages.forM flushPage sys.store))
  | discards {page : PageId} : Effect sys (.discard page) (sys.store.dropPage page)
  | releases {txn : TxnId} {page : PageId} :
      Effect sys (.release txn page) (sys.store.release txn page)
  | turns (overdue : TxnId → Bool) (arrangement : Arrangement) :
      Effect sys (.turn overdue arrangement)
        { sys.store with overdue := overdue, arrangement := arrangement }

theorem act_effect (sys : System) (action : Action) :
    sys.Effect action (sys.act action).2.store := by
  have advances {txn : TxnId} {call : Call} (halted : sys.calls.get? txn = some call) :
      sys.Effect (.advance txn) (Op.final (call.advance txn sys.store)) := .advances halted
  have commits {txn : TxnId} :
      sys.Effect (.commit txn) (Op.final (Store.commit txn sys.store)) := .commits
  have outcome := sys.act_outcome action
  generalize sys.act action = done at outcome ⊢
  cases outcome with
  | nothing | begins | starts _ | refuses _ => exact .nothing
  | answers halted ends | goesOn halted ends | waits halted ends | fails halted ends =>
    have effect := advances halted
    rw [ends] at effect
    exact effect
  | @commits txn _ _ ends | @falters txn _ _ _ ends =>
    have effect := @commits txn
    rw [ends] at effect
    exact effect
  | aborts _ => exact .aborts
  | @flushesPages txn => exact .flushes (sys.store.pagesDirtiedBy txn)
  | flushesAll => exact .flushes sys.store.dirtyPages
  | discards => exact .discards
  | releases _ => exact .releases
  | turns => exact .turns _ _

/-! ## The store stays coherent -/

theorem Moves.coherent (moves : Moves s action report after) (coherent : s.Coherent) :
    after.Coherent := by
  cases moves with
  | readies readies _ => exact coherent.readies readies
  | alters _ alters => exact coherent.alters alters
  | commits persists =>
    exact (coherent.persists persists).of_kept rfl rfl rfl fun _ _ cached => cached
  | fails persists => exact (coherent.persists persists).abort _
  | aborts => exact coherent.abort _
  | flushes _ persists => exact coherent.persists persists
  | discards => exact coherent.dropPage _
  | releases => exact coherent.of_kept rfl rfl rfl fun _ _ cached => cached

theorem Moves.catalog_eq (moves : Moves s action report after) : after.catalog = s.catalog := by
  cases moves with
  | readies readies _ => exact readies.catalog_eq
  | alters _ alters =>
    rcases alters with ⟨readied, readies, rewrites⟩
    cases rewrites
    exact readies.catalog_eq
  | commits persists => exact persists.catalog
  | fails persists => rw [abort_eq, persists.catalog]
  | aborts => rw [abort_eq]
  | flushes _ persists => exact persists.catalog
  | discards => rw [dropPage_eq]
  | releases => rfl

theorem Steady.act (steady : sys.Steady) (action : Action) : (sys.act action).2.Steady := by
  have moves := act_moves steady action
  refine ⟨moves.coherent steady.coherent, ?_⟩
  rw [moves.catalog_eq]
  exact act_registered steady.coherent.catalog steady.registered action

theorem Fresh.steady (fresh : sys.Fresh) : sys.Steady := by
  refine ⟨⟨fresh.catalog, fresh.apart, fun page frame cached => ?_⟩, fun txn call halted => ?_⟩
  · rw [fresh.cache] at cached
    cases cached
  · rw [fresh.calls] at halted
    cases halted

theorem Run.steady {allowed : System → Action → Prop} {start : System} {reports : List Report}
    (run : Run allowed start reports sys) (fresh : start.Fresh) : sys.Steady := by
  induction run with
  | nil => exact fresh.steady
  | act _ action _ ih => exact ih.act action

/-! ## A small system -/

/-- The file of a table of integers, with pages of one slot. -/
def smallFile : HeapFile := ⟨TableId.ofPath "t", "t", ⟨[⟨.int, none⟩]⟩, 8⟩

/-- A system over an empty file, with a cache of two pages. -/
def small : System where
  store :=
    { Store.start (.empty default) 2 (fun _ => false) (.memory .empty) with
      catalog := Dictionary.empty.put smallFile.table ⟨"t", smallFile⟩ }
  calls := .empty
  nextTxn := 0

theorem small_fresh : small.Fresh where
  catalog := Catalog.sound_empty.add smallFile ⟨rfl, by decide⟩
    (rfl : Catalog.add _ smallFile "t" = .ok _)
  apart _ _ _ := nofun
  cache := rfl
  locks := rfl
  calls := rfl

/-! ## The cache agrees with the files -/

/-- At any time each cached page is cached under its own number and lies inside the file of its
table. It and what it gives as last stored are as long as the file's pages, and the latter is what
the file holds; a clean page has these bytes itself. -/
theorem cached_pages_agree_with_files {start : System} {reports : List Report} {page : PageId}
    {frame : Frame} (fresh : start.Fresh) (run : Run (fun _ _ => True) start reports sys)
    (cached : sys.store.cache.get? page = some frame) :
    frame.page.id = page ∧
      ∃ file, sys.store.catalog.file page.table = .ok file ∧
        page.number < file.pageCount sys.store.disk ∧
        frame.page.bytes.length = file.pageSize ∧ frame.page.before.length = file.pageSize ∧
        frame.page.before =
          (sys.store.disk.read file.path).slice (page.offset file.pageSize) file.pageSize ∧
        (frame.page.dirtier = none → frame.page.bytes =
          (sys.store.disk.read file.path).slice (page.offset file.pageSize) file.pageSize) := by
  have coherent := (run.steady fresh).coherent
  have faithful := coherent.faithful page frame cached
  obtain ⟨file, listed, read⟩ := faithful.before
  have inside := faithful.before.lt_pageCount coherent.catalog listed
  have whole : frame.page.before.length = file.pageSize := (HeapFile.read_shape read).2
  have stored : frame.page.before =
      (sys.store.disk.read file.path).slice (page.offset file.pageSize) file.pageSize :=
    congrArg Page.before (HeapFile.read_eq_ok.1 read).2.2
  refine ⟨faithful.id, file, listed, inside, faithful.length.trans whole, whole, stored, ?_⟩
  intro clean
  rw [faithful.clean clean, stored]

/-- The statement above for a dirty page that was appended after a full one. -/
theorem cached_pages_agree_with_files_beside_append :
    let page : PageId := ⟨smallFile.table, 1⟩
    let sys := small.acts [.begin, .demand 0 (.insert smallFile.table ⟨[.int 7], none⟩), .advance 0,
      .commit 0, .begin, .demand 1 (.insert smallFile.table ⟨[.int 8], none⟩), .advance 1, .advance 1]
    let frame : Frame := ⟨1, ⟨page, [1, 0, 0, 0, 8, 0, 0, 0], some 1, Bytes.zeros 8⟩⟩
    sys.store.cache.get? page = some frame ∧ frame.page.id = page ∧
      ∃ file, sys.store.catalog.file page.table = .ok file ∧
        page.number < file.pageCount sys.store.disk ∧
        frame.page.bytes.length = file.pageSize ∧ frame.page.before.length = file.pageSize ∧
        frame.page.before =
          (sys.store.disk.read file.path).slice (page.offset file.pageSize) file.pageSize ∧
        (frame.page.dirtier = none → frame.page.bytes =
          (sys.store.disk.read file.path).slice (page.offset file.pageSize) file.pageSize) := by
  intro page sys frame
  have cached : sys.store.cache.get? page = some frame := by decide +kernel
  exact ⟨cached, cached_pages_agree_with_files small_fresh
    (run_acts small fun _ _ _ => trivial) cached⟩

end System

end PageStore
