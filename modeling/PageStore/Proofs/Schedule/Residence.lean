import PageStore.Proofs.Schedule.WriteAhead
import PageStore.Proofs.Schedule.Ledger
import PageStore.Proofs.Store.Capacity

/-!
# What stays in the cache

Whatever transactions do, and whenever references are handed back to the cache, the cache stays
within its capacity (`System.Reaches.fits`).

A page with the writes of a transaction stays in the cache until the transaction ends or flushes its
pages, unless all pages are flushed or that page is discarded.  Each action that does neither leaves
the frame, with no more than the changes that the transaction itself makes on the page
(`System.act_resides`); a run of such actions leaves it with all of them (`System.Run.resides`).
-/

namespace PageStore

open Store

variable {txn other : TxnId} {page : PageId} {n : Nat}

/-! ## Calls leave stores fit -/

/-- A call that goes on leaves stores fit: what it hands back is cached. -/
theorem Call.bounded_advance (txn : TxnId) (call : Call) : (call.advance txn).Bounded := by
  intro n s fits
  cases call with
  | fetch page mode =>
    exact ((bounded_fetch txn page mode).bind fun _ => Op.bounded_pure _) n s fits
  | insert file row numbers =>
    cases numbers with
    | nil =>
      refine (storeInFresh_fits fits file txn row).bind fun stored placed ⟨fits, kept⟩ => ?_
      exact (Op.leads_of_ok kept fits).bind fun _ _ fits => Op.leads_pure _ fits
    | cons number numbers =>
      refine (storeInPage_fits fits file txn row number).bind fun stored placed ⟨fits, kept⟩ => ?_
      cases stored with
      | none => exact Op.leads_pure _ fits
      | some stored =>
        rcases stored with ⟨ref, record⟩
        exact (Op.leads_of_ok (kept ref record rfl) fits).bind fun _ _ fits => Op.leads_pure _ fits
  | delete file record =>
    refine (freeInPage_fits fits file txn record).bind fun ref freed ⟨fits, kept⟩ => ?_
    exact (Op.leads_of_ok kept fits).bind fun _ _ fits => Op.leads_pure _ fits
  | scan file mode number found =>
    refine (bounded_pageCount file n s fits).bind fun count counted fits => ?_
    split
    · have reads : (readPage file txn mode number).Bounded := by
        rw [readPage_eq]
        exact (bounded_fetch txn _ mode).bind fun _ => Op.bounded_ofExcept _
      exact (reads n counted fits).bind fun _ _ fits => Op.leads_pure _ fits
    · exact Op.leads_pure _ fits

namespace System

variable {s after : Store} {sys start later : System} {action : Action} {report : Report}
  {reports more : List Report} {frame : Frame} {file : HeapFile}

/-! ## The cache stays within its capacity -/

theorem Effect.fits {after : Store} (effect : sys.Effect action after) (fits : sys.store.Fits n) :
    after.Fits n := by
  cases effect with
  | nothing => exact fits
  | @advances txn call _ => exact (call.bounded_advance txn).final fits
  | @commits txn => exact (bounded_commit txn).final fits
  | @aborts txn => exact fits.abort txn
  | flushes pages => exact (Op.bounded_forM bounded_flushPage).final fits
  | @discards page => exact fits.dropPage page
  | releases => exact fits.of_same rfl rfl
  | turns => exact fits.of_same rfl rfl

/-- What a system becomes by actions, while references are handed back to its cache at any time. -/
inductive Reaches (start : System) : System → Prop
  | start : Reaches start start
  | act {sys : System} (before : Reaches start sys) (action : Action) :
      Reaches start (sys.act action).2
  | handsBack {sys : System} {ref : PageRef} (before : Reaches start sys)
      (names : sys.store.Names ref) :
      Reaches start { sys with store := Op.final (applyRef ref sys.store) }

theorem Reaches.fits (reaches : Reaches start sys) (fits : start.store.Fits n) :
    sys.store.Fits n := by
  induction reaches with
  | start => exact fits
  | act _ action ih => exact (act_effect _ action).fits ih
  | handsBack _ names ih => exact (applyRef_fits ih names).final

theorem Run.reaches {allowed : System → Action → Prop} (run : Run allowed start reports sys) :
    Reaches start sys := by
  induction run with
  | nil => exact .start
  | act _ action _ ih => exact ih.act action

theorem Fresh.fits (fresh : start.Fresh) : start.store.Fits start.store.capacity where
  capacity := rfl
  size := by
    rw [fresh.cache]
    exact Nat.zero_le _
  named page frame cached := by
    rw [fresh.cache] at cached
    cases cached

end System

/-! ## Changes of a frame -/

/-- What a page shows, whatever page a record is of. -/
def Page.contents (page : Page) (schema : Schema) : Contents := fun record =>
  page.row? schema record.slot

/-- A frame, and what changes by the writer of its page have made of it.  Changes on other pages
leave it as it was. -/
structure Frame.Becomes (frame : Frame) (schema : Schema) (changes : List Change) (now : Frame) :
    Prop where
  serial : now.serial = frame.serial
  id : now.page.id = frame.page.id
  dirtier : now.page.dirtier = frame.page.dirtier
  before : now.page.before = frame.page.before
  rows : ∀ slot, now.page.row? schema slot =
    (frame.page.contents schema).apply changes ⟨frame.page.id, slot⟩
  kept : (∀ change ∈ changes, change.record.page ≠ frame.page.id) → now = frame

namespace Frame.Becomes

variable {frame now last : Frame} {schema : Schema} {changes more : List Change} {change : Change}

theorem of_others (frame : Frame) (schema : Schema)
    (others : ∀ change ∈ changes, change.record.page ≠ frame.page.id) :
    frame.Becomes schema changes frame where
  serial := rfl
  id := rfl
  dirtier := rfl
  before := rfl
  rows slot := by
    rw [Contents.apply_of_not_mem]
    · rfl
    · intro change mem same
      exact others change mem (by rw [same])
  kept _ := rfl

theorem of_changes {changed : Page} (dirty : frame.page.dirtier = some txn)
    (own : change.record.page = frame.page.id)
    (changes : frame.page.Changes changed schema change.record.slot change.row) :
    frame.Becomes schema [change] { frame with page := changed.dirtiedBy txn } where
  serial := rfl
  id := changes.id
  dirtier := dirty.symm
  before := changes.before
  rows slot := by
    have shown : (changed.dirtiedBy txn).row? schema slot = changed.row? schema slot :=
      Page.row?_of_bytes rfl rfl schema slot
    show _ = if _ then _ else _
    rw [shown]
    by_cases here : slot = change.record.slot
    · rw [if_pos (by rw [here, ← own]), here, changes.changed]
    · rw [if_neg fun same => here (congrArg RecordId.slot same), changes.others slot here]
      rfl
  kept others := absurd own (others change (.head _))

theorem trans (first : frame.Becomes schema changes now) (second : now.Becomes schema more last) :
    frame.Becomes schema (changes ++ more) last where
  serial := second.serial.trans first.serial
  id := second.id.trans first.id
  dirtier := second.dirtier.trans first.dirtier
  before := second.before.trans first.before
  rows slot := by
    rw [second.rows, Contents.apply_append, first.id]
    exact Contents.apply_congr (first.rows slot) more
  kept others := by
    have same := first.kept fun change mem => others change (List.mem_append_left _ mem)
    rw [second.kept, same]
    intro change mem
    rw [same]
    exact others change (List.mem_append_right _ mem)

end Frame.Becomes

/-! ## Writes stay in the cache -/

/-- The change of a transaction that a report tells of. -/
def Report.changeBy? (txn : TxnId) : Report → Option Change
  | answered other answer => if other = txn then answer.change? else none
  | quiet | begun _ | halted _ | stopped .. | committed _ | notCommitted .. | aborted _ => none

theorem Report.changeBy?_of_quiet {report : Report} (quiet : report.isQuiet = true) :
    report.changeBy? txn = none := by
  cases report with
  | answered other answer =>
    have none : answer.change? = none := Option.isNone_iff_eq_none.1 quiet
    simp only [changeBy?, none, ite_self]
  | _ => rfl

/-- Whether an action leaves the writes of a transaction on a page in the cache: it is no commit, no
abort and no flush of that transaction, it does not flush all pages, and it does not discard the
page. -/
def Action.leavesWrites (txn : TxnId) (page : PageId) : Action → Bool
  | commit other | abort other | flushPages other => other != txn
  | flushAll => false
  | discard place => place != page
  | begin | demand .. | advance _ | release .. | turn .. => true

namespace System

variable {s after : Store} {sys start later : System} {action : Action} {report : Report}
  {reports more : List Report} {frame : Frame} {file : HeapFile}

theorem get?_abort_of_ne (cached : s.cache.get? page = some frame)
    (writes : frame.page.dirtier = some txn) (ne : other ≠ txn) :
    (s.abort other).cache.get? page = some frame := by
  refine get?_abort_eq_some.2 ⟨cached, fun same => ne ?_⟩
  exact (Option.some.inj (writes.symm.trans same)).symm

/-- A commit stores the pages of who commits alone, whether or not it succeeds. -/
theorem get?_commit (coherent : s.Coherent) (cached : s.cache.get? page = some frame)
    (writes : frame.page.dirtier = some txn) (ne : other ≠ txn) :
    (Op.final (Store.commit other s)).cache.get? page = some frame := by
  have absent := not_mem_pagesDirtiedBy cached writes ne
  have kept : (Op.final (Store.flushPages other s)).cache.get? page = some frame :=
    (get?_flushEach coherent absent).trans cached
  unfold Store.commit
  cases ends : Store.flushPages other s with
  | ok _ flushed =>
    rw [ends] at kept
    exact kept
  | error stop flushed =>
    rw [ends] at kept
    exact get?_abort_of_ne kept writes ne

/-- A move that flushes nothing leaves the writes of a transaction in the cache. -/
theorem Moves.resides (moves : Moves s action report after) (coherent : s.Coherent)
    (guarded : s.Guarded) (calm : action.isFlush = false) (ends : action.isCommit = false)
    (leaves : action.leavesWrites txn page = true) (listed : s.catalog.file page.table = .ok file)
    (cached : s.cache.get? page = some frame) (writes : frame.page.dirtier = some txn) :
    ∃ now, after.cache.get? page = some now ∧
      frame.Becomes file.schema (report.changeBy? txn).toList now := by
  have id := (coherent.faithful page frame cached).id
  have same : frame.Becomes file.schema [] frame := .of_others frame file.schema nofun
  cases moves with
  | readies readies quiet =>
    rw [Report.changeBy?_of_quiet quiet]
    exact ⟨frame, (readies.dirty_iff writes).2 cached, same⟩
  | @alters writer answer change _ made alters =>
    rcases alters with ⟨readied, readies, rewrites⟩
    have cached := (readies.dirty_iff writes).2 cached
    have guarded := guarded.readies readies
    have listed : readied.catalog.file page.table = .ok file := by rw [readies.catalog_eq, listed]
    rcases rewrites with @⟨into, old, changed, listed', cached', id', exclusive, changes⟩
    rw [get?_withFrame changes id']
    by_cases here : page = change.record.page
    · subst here
      rw [cached] at cached'
      cases cached'
      rw [listed] at listed'
      cases listed'
      have own := guarded.writer_eq cached writes exclusive
      subst own
      rw [if_pos rfl, Report.changeBy?, if_pos rfl, made]
      exact ⟨_, rfl, .of_changes writes id.symm changes⟩
    · rw [if_neg here]
      refine ⟨frame, cached, .of_others frame file.schema fun other mem => ?_⟩
      rw [Report.changeBy?, Option.mem_toList] at mem
      split at mem
      · rw [made] at mem
        cases mem
        rw [id]
        exact fun same => here same.symm
      · cases mem
  | commits persists => cases ends
  | fails persists => cases ends
  | aborts => exact ⟨frame, get?_abort_of_ne cached writes (bne_iff_ne.1 leaves), same⟩
  | flushes flush persists =>
    rw [flush] at calm
    cases calm
  | @discards place =>
    have ne : place ≠ page := bne_iff_ne.1 leaves
    exact ⟨frame, by rw [get?_dropPage, if_neg ne.symm, cached], same⟩
  | releases => exact ⟨frame, cached, same⟩

/-- An action leaves the writes of a transaction in the cache, but for what the transaction itself
adds to them. -/
theorem act_resides (steady : sys.Steady) (guarded : sys.store.Guarded)
    (leaves : action.leavesWrites txn page = true)
    (listed : sys.store.catalog.file page.table = .ok file)
    (cached : sys.store.cache.get? page = some frame) (writes : frame.page.dirtier = some txn) :
    ∃ now, (sys.act action).2.store.cache.get? page = some now ∧
      frame.Becomes file.schema ((sys.act action).1.changeBy? txn).toList now := by
  have moves := act_moves steady action
  have resides (calm : action.isFlush = false) (ends : action.isCommit = false) :=
    moves.resides steady.coherent guarded calm ends leaves listed cached writes
  have same : frame.Becomes file.schema [] frame := .of_others frame file.schema nofun
  cases action with
  | commit other =>
    have kept := get?_commit steady.coherent cached writes (bne_iff_ne.1 leaves)
    simp only [System.act]
    split
    · cases ends : Store.commit other sys.store <;> rw [ends] at kept <;> exact ⟨frame, kept, same⟩
    · exact ⟨frame, cached, same⟩
  | flushPages other =>
    have absent := not_mem_pagesDirtiedBy cached writes (bne_iff_ne.1 leaves)
    exact ⟨frame, (get?_flushEach steady.coherent absent).trans cached, same⟩
  | flushAll => cases leaves
  | begin => exact resides rfl rfl
  | demand txn demand => exact resides rfl rfl
  | advance txn => exact resides rfl rfl
  | abort txn => exact resides rfl rfl
  | discard page => exact resides rfl rfl
  | release txn page => exact resides rfl rfl
  | turn overdue arrangement => exact resides rfl rfl

theorem Run.resides
    (run : Run (fun sys action => action.KeepsWrites sys.store ∧
      action.leavesWrites txn page = true) sys more later)
    (steady : sys.Steady) (guarded : sys.store.Guarded)
    (listed : sys.store.catalog.file page.table = .ok file)
    (cached : sys.store.cache.get? page = some frame) (writes : frame.page.dirtier = some txn) :
    ∃ now, later.store.cache.get? page = some now ∧
      frame.Becomes file.schema (more.filterMap (Report.changeBy? txn)) now := by
  -- The file stays in the catalog, and the store coherent and guarded, along the run.
  suffices goesOn : later.Steady ∧ later.store.Guarded ∧
      later.store.catalog.file page.table = .ok file ∧
      ∃ now, later.store.cache.get? page = some now ∧
        frame.Becomes file.schema (more.filterMap (Report.changeBy? txn)) now from goesOn.2.2.2
  induction run with
  | nil => exact ⟨steady, guarded, listed, frame, cached, .of_others frame file.schema nofun⟩
  | @act more last _ action permitted ih =>
    obtain ⟨steady, guarded, listed, now, cached, becomes⟩ := ih
    have moves := act_moves steady action
    obtain ⟨next, cached', adds⟩ := act_resides steady guarded permitted.2 listed cached
      (becomes.dirtier.trans writes)
    refine ⟨steady.act action, moves.guarded guarded permitted.1, by rw [moves.catalog_eq, listed],
      next, cached', ?_⟩
    have told : [(last.act action).1].filterMap (Report.changeBy? txn) =
        ((last.act action).1.changeBy? txn).toList := by
      rw [List.filterMap_cons]
      cases (last.act action).1.changeBy? txn <;> rfl
    rw [List.filterMap_append, told]
    exact becomes.trans adds

/-- Whatever is done, and whenever references are handed back: the cache holds no more pages than
its capacity; and a fetch of a page that can be read and is not cached, once its lock is granted,
fails exactly if the cache is full and each cached page is dirty or held, for that reason, and
leaves the cache as it was.

An eviction takes out one page, which is clean and which nobody holds.  So a page with the writes of
a transaction stays in the cache as it is, but for what the transaction itself changes there, as
long as no action ends that transaction, flushes its pages or all pages, or discards the page. -/
theorem cache_keeps_writes_within_capacity (fresh : start.Fresh) :
    (∀ sys, Reaches start sys →
      sys.store.capacity = start.store.capacity ∧
      sys.store.cache.size ≤ sys.store.capacity ∧
      ∀ txn page mode stored locked, sys.store.Stores page stored →
        sys.store.cache.get? page = none → acquire txn page mode sys.store = .ok () locked →
        ((∃ after, fetch txn page mode sys.store =
            .error (.failed (.cacheExhausted sys.store.capacity)) after) ↔
          sys.store.cache.size = sys.store.capacity ∧ sys.store.Stuck) ∧
        ∀ stop after, fetch txn page mode sys.store = .error stop after →
          stop = .failed (.cacheExhausted sys.store.capacity) ∧
            after.cache = sys.store.cache) ∧
    (∀ s after, evict s = .ok () after →
      ∃ victim frame, s.cache.get? victim = some frame ∧ frame.page.isDirty = false ∧
        (∀ txn, s.locks.holds txn victim = false) ∧ after = s.dropPage victim ∧
        after.cache = s.cache.erase victim ∧ after.cache.size + 1 = s.cache.size) ∧
    ∀ reports sys page frame txn, Run (fun sys => Action.KeepsWrites sys.store) start reports sys →
      sys.store.cache.get? page = some frame → frame.page.dirtier = some txn →
      ∃ file, sys.store.catalog.file page.table = .ok file ∧
        ∀ more later,
          Run (fun sys action => action.KeepsWrites sys.store ∧
            action.leavesWrites txn page = true) sys more later →
          ∃ now, later.store.cache.get? page = some now ∧
            frame.Becomes file.schema (more.filterMap (Report.changeBy? txn)) now := by
  refine ⟨fun sys reaches => ?bounded, fun s after => evict_ok, ?kept⟩
  case bounded =>
    have fits := reaches.fits fresh.fits
    have within : sys.store.cache.size ≤ sys.store.capacity := by
      rw [fits.capacity]
      exact fits.size
    refine ⟨fits.capacity, within, fun txn page mode stored locked stores missing granted => ?_⟩
    rcases fetch_missing stores missing granted with
      ⟨full, stuck, after, cache, fails⟩ | ⟨free, frame, after, fetched⟩
    · refine ⟨⟨fun _ => ⟨Nat.le_antisymm within full, stuck⟩, fun _ => ⟨after, fails⟩⟩, ?_⟩
      intro stop ended ends
      rw [fails] at ends
      cases ends
      exact ⟨rfl, cache⟩
    · rw [fetched]
      refine ⟨⟨?_, fun ⟨full, stuck⟩ => absurd ⟨Nat.le_of_eq full.symm, stuck⟩ free⟩, ?_⟩
      · rintro ⟨ended, ends⟩
        cases ends
      · intro stop ended ends
        cases ends
  case kept =>
    intro reports sys page frame txn run cached writes
    have steady := run.steady fresh
    obtain ⟨file, listed, -⟩ := (steady.coherent.faithful page frame cached).before
    exact ⟨file, listed, fun more later rest =>
      rest.resides steady (run.guarded fresh) listed cached writes⟩

/-- The statement above over a file of three pages, with a cache of two.  While a transaction has
written the first page and another holds the second, a third fails to fetch the last; once the
second has committed, its page is evicted.  The first page stays in the cache while its writer
deletes its row again.  After the third has committed too, the page that was evicted is handed back,
and makes the last page leave. -/
theorem cache_keeps_writes_within_capacity_beside_exhausted_fetch :
    let start : System := { small with store := { small.store with
      disk := small.store.disk.write "t" 0 (Bytes.zeros 24) } }
    let page (number : Nat) : PageId := ⟨smallFile.table, number⟩
    let row : Row := ⟨[.int 7], some ⟨page 0, 0⟩⟩
    let writes : List Action := [.begin, .begin, .begin,
      .demand 0 (.insert smallFile.table ⟨[.int 7], none⟩), .advance 0,
      .demand 1 (.fetch (page 1) .shared), .advance 1]
    let goesOn : List Action := [.commit 1, .demand 2 (.fetch (page 2) .shared), .advance 2,
      .demand 0 (.delete row), .advance 0, .commit 2]
    let sys := start.acts writes
    let freed := (sys.acts [.commit 1]).store
    let later := sys.acts goesOn
    let handed := Op.final (applyRef ⟨page 1, 1⟩ later.store)
    let frame : Frame := ⟨0, ⟨page 0, [1, 0, 0, 0, 7, 0, 0, 0], some 0, Bytes.zeros 8⟩⟩
    (start.Fresh ∧ sys.store.cache.get? (page 0) = some frame ∧
      sys.store.cache.keys = [page 0, page 1] ∧ later.store.cache.keys = [page 0, page 2] ∧
      handed.cache.keys = [page 0, page 1]) ∧
    (∃ after, fetch 2 (page 2) .shared sys.store = .error (.failed (.cacheExhausted 2)) after ∧
      after.cache = sys.store.cache) ∧
    (∃ after victim gone, evict freed = .ok () after ∧ freed.cache.get? victim = some gone ∧
      gone.page.isDirty = false ∧ (∀ txn, freed.locks.holds txn victim = false) ∧
      after.cache = freed.cache.erase victim) ∧
    handed.cache.size ≤ handed.capacity ∧
    ∃ now, later.store.cache.get? (page 0) = some now ∧
      frame.Becomes smallFile.schema [⟨⟨page 0, 0⟩, none⟩] now := by
  intro start page row writes goesOn sys freed later handed frame
  have fresh : start.Fresh := ⟨small_fresh.catalog, small_fresh.apart, rfl, rfl, rfl⟩
  have cached : sys.store.cache.get? (page 0) = some frame := by decide +kernel
  have run : Run (fun sys => Action.KeepsWrites sys.store) start (start.hears writes) sys := by
    refine run_acts start fun action mem sys => ?_
    simp only [writes, List.mem_cons, List.not_mem_nil, or_false] at mem
    rcases mem with rfl | rfl | rfl | rfl | rfl | rfl | rfl <;> trivial
  have rest : Run (fun sys action => action.KeepsWrites sys.store ∧
      action.leavesWrites 0 (page 0) = true) sys (sys.hears goesOn) later := by
    refine run_acts sys fun action mem sys => ?_
    simp only [goesOn, List.mem_cons, List.not_mem_nil, or_false] at mem
    rcases mem with rfl | rfl | rfl | rfl | rfl | rfl <;> exact ⟨trivial, rfl⟩
  obtain ⟨bounded, evicts, keeps⟩ := cache_keeps_writes_within_capacity fresh
  have keys : sys.store.cache.keys = [page 0, page 1] := by decide +kernel
  refine ⟨⟨fresh, cached, keys, by decide +kernel, by decide +kernel⟩, ?fails, ?evicts, ?bounded,
    ?keeps⟩
  case fails =>
    have stores : sys.store.Stores (page 2) (.ofStored (page 2) (Bytes.zeros 8)) :=
      ⟨smallFile, by decide +kernel, by decide +kernel⟩
    have missing : sys.store.cache.get? (page 2) = none := by decide +kernel
    have stuck : sys.store.Stuck := by
      intro place other present
      have mem : place ∈ sys.store.cache.keys := Dictionary.mem_keys_iff.2 (by rw [present]; rfl)
      rw [keys, List.mem_pair] at mem
      rcases mem with rfl | rfl
      · exact .inl (Option.some.inj (cached.symm.trans present) ▸ rfl)
      · exact .inr ⟨1, by decide +kernel⟩
    have capacity : sys.store.capacity = 2 := by decide +kernel
    obtain ⟨locked, granted⟩ : ∃ locked, acquire 2 (page 2) .shared sys.store = .ok () locked :=
      acquire_ok (by decide +kernel)
    obtain ⟨-, -, fetches⟩ := bounded sys run.reaches
    obtain ⟨exhausted, ends⟩ := fetches 2 (page 2) .shared _ locked stores missing granted
    rw [capacity] at exhausted
    obtain ⟨after, fails⟩ := exhausted.2 ⟨by decide +kernel, stuck⟩
    exact ⟨after, fails, (ends _ after fails).2⟩
  case evicts =>
    have found : freed.cachedPages.find? freed.isEvictable = some (page 1) := by decide +kernel
    have ends : evict freed = .ok () (freed.dropPage (page 1)) := by
      unfold evict
      rw [found]
    obtain ⟨victim, gone, cached, clean, free, -, cache, -⟩ := evicts freed _ ends
    exact ⟨_, victim, gone, ends, cached, clean, free, cache⟩
  case bounded =>
    have whole : Run (fun _ _ => True) start (start.hears writes ++ sys.hears goesOn) later :=
      (run_acts start fun _ _ _ => trivial).acts fun _ _ _ => trivial
    have names : later.store.Names ⟨page 1, 1⟩ := by
      intro gone refers
      have shelved : later.store.deref? ⟨page 1, 1⟩ =
          some (.ofStored (page 1) (Bytes.zeros 8)) := by decide +kernel
      exact Option.some.inj (shelved.symm.trans refers) ▸ rfl
    exact (bounded _ (whole.reaches.handsBack names)).2.1
  case keeps =>
    obtain ⟨file, listed, stays⟩ := keeps _ sys (page 0) frame 0 run cached rfl
    have own : sys.store.catalog.file (page 0).table = .ok smallFile := by decide +kernel
    have same : file = smallFile := Except.ok.inj (listed.symm.trans own)
    have changes : (sys.hears goesOn).filterMap (Report.changeBy? 0) =
        [⟨⟨page 0, 0⟩, none⟩] := by decide +kernel
    have becomes := stays _ later rest
    rw [same, changes] at becomes
    exact becomes

end System

end PageStore
