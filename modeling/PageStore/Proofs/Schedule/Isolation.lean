import PageStore.Proofs.Schedule.System

/-!
# No page is read with the writes of another

A store is guarded if its lock table is consistent and each cached page that holds a transaction's
writes is locked exclusively by that transaction (`Store.Guarded`).  A move keeps the store guarded,
unless it gives back the lock of a page that holds the writes of the transaction that gives it back
(`Moves.guarded`): a page gets dirty only under an exclusive lock, and the locks of a transaction
are given back only once its pages are clean or dropped.

A page that is fetched is held by who fetched it.  If it is dirty its writer holds it exclusively,
so the two are the same (`fetch_of_guarded`).
-/

namespace PageStore

namespace Store

variable {s after : Store} {txn : TxnId} {page : PageId} {frame : Frame} {mode : LockMode}
  {pages : List PageId}

/-- A store in which every page that holds a transaction's writes is locked by it. -/
structure Guarded (s : Store) : Prop where
  locks : s.locks.Consistent
  exclusive : ∀ page frame txn, s.cache.get? page = some frame → frame.page.dirtier = some txn →
    s.locks.mode? txn page = some .exclusive

/-- Pages that were dirty before, with their locks kept, stay guarded. -/
theorem Guarded.of_dirty (guarded : Guarded s) (locks : after.locks.Consistent)
    (dirty : ∀ page frame txn, after.cache.get? page = some frame →
      frame.page.dirtier = some txn → s.cache.get? page = some frame ∧
        (s.locks.mode? txn page = some .exclusive →
          after.locks.mode? txn page = some .exclusive)) : Guarded after := by
  refine ⟨locks, ?_⟩
  intro page frame txn cached writes
  obtain ⟨before, keeps⟩ := dirty page frame txn cached writes
  exact keeps (guarded.exclusive page frame txn before writes)

theorem Guarded.fetches (guarded : Guarded s) (fetches : Fetches txn s after) : Guarded after := by
  refine guarded.of_dirty (fetches.locks.consistent guarded.locks) ?_
  intro page frame writer cached writes
  rcases fetches.read page frame cached with before | stores
  · exact ⟨before, fetches.locks.keeps⟩
  · rw [stores.dirtier_eq] at writes
    cases writes

theorem Guarded.readies (guarded : Guarded s) (readies : Readies txn s after) : Guarded after := by
  cases readies with
  | fetches fetches => exact guarded.fetches fetches
  | appends before appends rest =>
    refine Guarded.fetches ?_ rest
    cases appends
    exact (guarded.fetches before).of_dirty (guarded.fetches before).locks
      fun _ _ _ cached _ => ⟨cached, id⟩

/-- A page gets dirty under the exclusive lock of who writes it. -/
theorem Guarded.rewrites {record : RecordId} {row : Option Row} (guarded : Guarded s)
    (rewrites : Rewrites txn record row s after) : Guarded after := by
  rcases rewrites with @⟨file, old, changed, listed, cached, id, exclusive, changes⟩
  refine ⟨guarded.locks, ?_⟩
  intro page frame writer now writes
  rw [get?_withFrame changes id] at now
  split at now
  · next same =>
    subst same
    cases now
    cases writes
    exact exclusive
  · exact guarded.exclusive page frame writer now writes

theorem Persists.dirty (persists : Persists pages s after)
    (cached : after.cache.get? page = some frame) (writes : frame.page.dirtier = some txn) :
    page ∉ pages ∧ s.cache.get? page = some frame := by
  rw [persists.cached, Option.map_eq_some_iff] at cached
  rcases cached with ⟨old, before, same⟩
  split at same
  · subst same
    cases writes
  · next absent => exact ⟨absent, same ▸ before⟩

theorem Guarded.persists (guarded : Guarded s) (persists : Persists pages s after) :
    Guarded after := by
  refine guarded.of_dirty (persists.locks ▸ guarded.locks) ?_
  intro page frame txn cached writes
  rw [persists.locks]
  exact ⟨(persists.dirty cached writes).2, id⟩

/-- A transaction that has no dirty pages can give back all its locks. -/
theorem Guarded.releaseAll (guarded : Guarded s)
    (clean : ∀ page frame, s.cache.get? page = some frame → frame.page.dirtier ≠ some txn) :
    Guarded (s.releaseAll txn) := by
  refine guarded.of_dirty (guarded.locks.releaseAll txn) fun page frame writer cached writes =>
    ⟨cached, ?_⟩
  intro exclusive
  have other : writer ≠ txn := by
    rintro rfl
    exact clean page frame cached writes
  show (s.locks.releaseAll txn).mode? writer page = some .exclusive
  rw [guarded.locks.mode?_releaseAll, if_neg other, exclusive]

theorem Guarded.abort (guarded : Guarded s) (txn : TxnId) : Guarded (s.abort txn) := by
  have locks : (s.abort txn).locks = s.locks.releaseAll txn := by rw [abort_eq]
  refine guarded.of_dirty (locks ▸ guarded.locks.releaseAll txn) ?_
  intro page frame writer cached writes
  rw [get?_abort, Option.filter_eq_some_iff] at cached
  rcases cached with ⟨before, kept⟩
  have other : writer ≠ txn := by
    rintro rfl
    exact of_decide_eq_true kept writes
  refine ⟨before, ?_⟩
  intro exclusive
  rw [locks, guarded.locks.mode?_releaseAll, if_neg other, exclusive]

theorem Guarded.dropPage (guarded : Guarded s) (page : PageId) : Guarded (s.dropPage page) := by
  have locks : (s.dropPage page).locks = s.locks := by rw [dropPage_eq]
  refine guarded.of_dirty (locks ▸ guarded.locks) ?_
  intro place frame txn cached _
  exact ⟨get?_of_dropPage cached, fun exclusive => by rw [locks, exclusive]⟩

/-- The lock of a page that a transaction did not write can be given back. -/
theorem Guarded.release (guarded : Guarded s)
    (clean : ∀ frame, s.cache.get? page = some frame → frame.page.dirtier ≠ some txn) :
    Guarded (s.release txn page) := by
  refine guarded.of_dirty (guarded.locks.release txn page) fun place frame writer cached writes =>
    ⟨cached, ?_⟩
  intro exclusive
  have apart : ¬ (place = page ∧ writer = txn) := by
    rintro ⟨rfl, rfl⟩
    exact clean frame cached writes
  show (s.locks.release txn page).mode? writer place = some .exclusive
  rw [LockTable.mode?_release, if_neg apart, exclusive]

/-- A page that was fetched from a guarded store holds nobody else's writes. -/
theorem fetch_of_guarded (guarded : Guarded s)
    (fetched : Store.fetch txn page mode s = .ok frame after) :
    frame.page.dirtier = none ∨ frame.page.dirtier = some txn := by
  obtain ⟨fetches, cached, held⟩ := (fetch_leads s txn page mode).of_ok fetched
  have guarded := guarded.fetches fetches
  cases dirty : frame.page.dirtier with
  | none => exact .inl rfl
  | some writer =>
    have exclusive := guarded.exclusive page frame writer cached dirty
    have holds : (after.locks.mode? txn page).isSome := by
      rcases held with held | held <;> rw [held] <;> rfl
    rw [(guarded.locks.exclusive page).eq_of_mode? exclusive holds]
    exact .inr rfl

end Store

open Store

/-- Whether an action keeps the lock of every page that holds the writes of who would give it
back. -/
def Action.KeepsWrites (s : Store) : Action → Prop
  | release txn page => ∀ frame, s.cache.get? page = some frame → frame.page.dirtier ≠ some txn
  | _ => True

/-- Whether an action leaves alone what was written: no page is discarded that is dirty, and nobody
gives back the lock of a page that holds the writes of who would give it back. -/
def Action.Spares (s : Store) : Action → Prop
  | discard page => ∀ frame, s.cache.get? page = some frame → frame.page.dirtier = none
  | release txn page => ∀ frame, s.cache.get? page = some frame → frame.page.dirtier ≠ some txn
  | _ => True

theorem Action.Spares.keepsWrites {s : Store} {action : Action} (spares : action.Spares s) :
    action.KeepsWrites s := by
  cases action with
  | release txn page => exact spares
  | _ => trivial

namespace System

variable {s after : Store} {sys start : System} {action : Action} {report : Report}
  {reports : List Report}

theorem Moves.guarded (moves : Moves s action report after) (guarded : Guarded s)
    (keeps : action.KeepsWrites s) : Guarded after := by
  cases moves with
  | readies readies _ => exact guarded.readies readies
  | alters _ alters =>
    rcases alters with ⟨readied, readies, rewrites⟩
    exact (guarded.readies readies).rewrites rewrites
  | commits persists =>
    refine (guarded.persists persists).releaseAll ?_
    intro page frame cached writes
    obtain ⟨absent, before⟩ := persists.dirty cached writes
    exact absent ((mem_pagesDirtiedBy s _ page).2 ⟨frame, before, writes⟩)
  | fails persists => exact (guarded.persists persists).abort _
  | aborts => exact guarded.abort _
  | flushes _ persists => exact guarded.persists persists
  | discards => exact guarded.dropPage _
  | releases => exact guarded.release keeps

theorem Fresh.guarded (fresh : start.Fresh) : Guarded start.store := by
  refine ⟨fresh.locks ▸ LockTable.consistent_empty, ?_⟩
  intro page frame txn cached
  rw [fresh.cache] at cached
  cases cached

theorem Run.guarded (run : Run (fun sys => Action.KeepsWrites sys.store) start reports sys)
    (fresh : start.Fresh) : Guarded sys.store := by
  induction run with
  | nil => exact fresh.guarded
  | act run action keeps ih => exact (act_moves (run.steady fresh) action).guarded ih keeps

/-- At any time each cached page that holds a transaction's writes is locked exclusively by that
transaction; so a page that is fetched, in either mode, is clean or holds the writes of who fetched
it. -/
theorem no_dirty_reads (fresh : start.Fresh)
    (run : Run (fun sys => Action.KeepsWrites sys.store) start reports sys) :
    (∀ page frame txn, sys.store.cache.get? page = some frame → frame.page.dirtier = some txn →
      sys.store.locks.mode? txn page = some .exclusive) ∧
    ∀ txn page mode frame after, Store.fetch txn page mode sys.store = .ok frame after →
      frame.page.dirtier = none ∨ frame.page.dirtier = some txn :=
  ⟨(run.guarded fresh).exclusive, fun _ _ _ _ _ fetched =>
    fetch_of_guarded (run.guarded fresh) fetched⟩

/-- The statement above while one transaction has written a page and another waits to read it. -/
theorem no_dirty_reads_while_another_waits :
    let page : PageId := ⟨smallFile.table, 0⟩
    let sys := small.acts [.begin, .begin, .demand 0 (.insert page.table ⟨[.int 7], none⟩),
      .advance 0, .demand 1 (.fetch page .shared), .advance 1]
    ((sys.store.cached? page).map Page.dirtier = some (some 0) ∧
      sys.store.locks.isWaiting 1 = true) ∧
    (∀ page frame txn, sys.store.cache.get? page = some frame → frame.page.dirtier = some txn →
      sys.store.locks.mode? txn page = some .exclusive) ∧
    ∀ txn page mode frame after, Store.fetch txn page mode sys.store = .ok frame after →
      frame.page.dirtier = none ∨ frame.page.dirtier = some txn := by
  refine ⟨by decide, no_dirty_reads small_fresh (run_acts small fun action mem sys => ?_)⟩
  simp only [List.mem_cons, List.not_mem_nil, or_false] at mem
  rcases mem with rfl | rfl | rfl | rfl | rfl | rfl <;> trivial

end System

end PageStore
