import PageStore.Proofs.Schedule.Settles
import PageStore.Proofs.Schedule.Undisturbed.Basic

/-!
# The end of an undisturbed transaction

A commit flushes the pages with the transaction's writes in the order in which the cache gives them,
and two stores that agree in the pages may give them in different orders.  What flushes lead to is
known without their order (`Settles`), and with a log that is sure no flush fails
(`flushPages_sure`).  So a commit does the same on both (`Ready.commit`), and so does an abort.
-/

namespace PageStore.Store

variable {mine : TableId → Prop} {txn : TxnId} {space : PageId → Prop}
  {s t after later : Store} {page place : PageId} {frame : Frame} {pages more : List PageId}

/-! ## Flushing, dropping and letting go -/

theorem mem_pagesDirtiedBy_iff_cached? (s : Store) (txn : TxnId) (page : PageId) :
    page ∈ s.pagesDirtiedBy txn ↔
      ∃ cached, s.cached? page = some cached ∧ cached.dirtier = some txn := by
  rw [mem_pagesDirtiedBy, cached?]
  cases s.cache.get? page <;> simp

theorem Undisturbed.mem_pagesDirtiedBy (undisturbed : Undisturbed mine txn space s)
    (mem : page ∈ s.pagesDirtiedBy txn) : mine page.table := by
  obtain ⟨cached, here, dirty⟩ := (mem_pagesDirtiedBy_iff_cached? s txn page).1 mem
  exact undisturbed.touched.dirtied page cached here dirty

theorem Undisturbed.settles (undisturbed : Undisturbed mine txn space s)
    (flushes : flushPages txn s = .ok () after)
    (settles : Settles (s.pagesDirtiedBy txn) s after) : Works mine txn s after where
  elsewhere := by
    refine ⟨settles.persists.catalog, settles.overdue, fun table file foreign listed => ?_,
      fun page foreign => ?_, fun _ _ => by rw [settles.persists.locks]⟩
    · obtain rfl : file.table = table := (undisturbed.coherent.catalog _ _ listed).1
      refine List.ext_getElem? fun i => ?_
      rw [settles.bytes file.table file listed, if_neg]
      exact fun mem => foreign (undisturbed.mem_pagesDirtiedBy mem)
    · exact settles.cached?_other fun mem => foreign (undisturbed.mem_pagesDirtiedBy mem)
  builds := (flushEach_builds (s.pagesDirtiedBy txn) s).of_ok flushes
  coherent := undisturbed.coherent.persists settles.persists
  locks := by
    rw [settles.persists.locks]
    exact undisturbed.locks
  sure := by
    obtain ⟨entries, gains, -⟩ := settles.told
    rw [settles.persists.catalog]
    exact undisturbed.sure.gains gains
  others _ _ _ := by rw [settles.persists.locks]
  waits _ _ none := by rw [settles.persists.locks, none]
  writers other page cached _ here dirty := by
    rw [settles.cached?_eq] at here
    obtain ⟨old, before, rfl⟩ := Option.map_eq_some_iff.1 here
    split at dirty
    · cases dirty
    · next absent => rw [if_neg absent, before]
  capacity := settles.capacity

theorem Settles.within (settles : Settles pages s after) (within : s.Within space) :
    after.Within space := by
  rintro page ⟨file, listed, inside⟩
  rw [settles.persists.catalog] at listed
  refine within page ⟨file, listed, ?_⟩
  unfold HeapFile.pageCount at inside ⊢
  rwa [← settles.sizes _ _ listed]

/-- Flushing the transaction's pages does the same on stores that agree in its tables. -/
theorem Ready.flushPages (ready : Ready mine txn space s t) :
    ∃ after after', flushPages txn s = .ok () after ∧ flushPages txn t = .ok () after' ∧
      Pair mine txn s t after after' ∧ after.Within space ∧ after'.Within space := by
  obtain ⟨after, flushes, settles⟩ := flushPages_sure ready.first.coherent ready.first.sure txn
  obtain ⟨after', flushes', settles'⟩ :=
    flushPages_sure ready.second.coherent ready.second.sure txn
  have among {page : PageId} (own : mine page.table) :
      page ∈ t.pagesDirtiedBy txn ↔ page ∈ s.pagesDirtiedBy txn := by
    rw [mem_pagesDirtiedBy_iff_cached?, mem_pagesDirtiedBy_iff_cached?, ready.agree.cached page own]
  have agree : Agree mine after after' := by
    refine ⟨?_, ?_, fun table file own listed => ?_, fun page own => ?_, fun page own => ?_⟩
    · rw [settles'.persists.catalog, settles.persists.catalog, ready.agree.catalog]
    · rw [settles'.overdue, settles.overdue, ready.agree.overdue]
    · rw [settles.persists.catalog] at listed
      obtain rfl : file.table = table := (ready.first.coherent.catalog _ _ listed).1
      refine List.ext_getElem? fun i => ?_
      rw [settles'.bytes file.table file (by rw [ready.agree.catalog, listed]),
        settles.bytes file.table file listed, ready.agree.files file.table file own listed,
        ready.agree.cached ⟨file.table, _⟩ own]
      simp only [among (show mine (⟨file.table, i / file.pageSize⟩ : PageId).table from own)]
    · rw [settles'.cached?_eq, settles.cached?_eq, ready.agree.cached page own]
      simp only [among own]
    · rw [settles'.persists.locks, settles.persists.locks, ready.agree.holders page own]
  obtain ⟨entries, gains, -, told⟩ := settles.told
  obtain ⟨entries', gains', -, told'⟩ := settles'.told
  have enters : Enters mine s t after after' := by
    refine ⟨entries, entries', gains, gains', fun page => ?_, fun entry mem => ?_⟩
    · rw [told, told']
      by_cases own : mine page.table
      · simp only [among own, tale, ready.agree.cached page own]
      · rw [if_neg fun mem => own (ready.first.mem_pagesDirtiedBy mem),
          if_neg fun mem => own (ready.second.mem_pagesDirtiedBy mem)]
    · have about : entry ∈ entriesAbout entry.page entries :=
        List.mem_filter.2 ⟨mem, decide_eq_true rfl⟩
      rw [told] at about
      split at about
      · next dirty => exact ready.first.mem_pagesDirtiedBy dirty
      · cases about
  exact ⟨after, after', flushes, flushes',
    ⟨ready.first.settles flushes settles, ready.second.settles flushes' settles', agree, enters⟩,
    settles.within ready.first.within, settles'.within ready.second.within⟩

theorem cached?_dropPages (s : Store) (test : Page → Bool) (page : PageId) :
    (s.dropPages test).cached? page = (s.cached? page).filter fun cached => !test cached := by
  unfold cached?
  rw [get?_dropPages]
  cases s.cache.get? page with
  | none => rfl
  | some frame => cases passes : test frame.page <;> simp [passes, Option.filter_some]

/-- Dropping pages touches the cache and the shelf alone. -/
theorem dropPages_eq (s : Store) (test : Page → Bool) :
    s.dropPages test =
      { s with cache := (s.dropPages test).cache, shelf := (s.dropPages test).shelf } :=
  foldl_dropPage_eq _ s

theorem Undisturbed.drops (undisturbed : Undisturbed mine txn space s) :
    Works mine txn s (s.dropPages fun page => page.dirtier == some txn) := by
  have same := s.dropPages_eq fun page => page.dirtier == some txn
  refine undisturbed.works_of_cache same (builds_dropPages s _) ?_ (fun page foreign => ?_)
    fun other page cached _ here _ => ?_
  · refine undisturbed.coherent.of_kept (by rw [same]) (by rw [same]) (by rw [same]) ?_
    intro page frame cached
    rw [get?_dropPages, Option.filter_eq_some_iff] at cached
    exact cached.1
  · rw [cached?_dropPages]
    cases here : s.cached? page with
    | none => rfl
    | some cached =>
      have clean : (cached.dirtier == some txn) = false := beq_eq_false_iff_ne.2 fun dirty =>
        foreign (undisturbed.touched.dirtied page cached here dirty)
      rw [Option.filter_some, clean]
      rfl
  · rw [cached?_dropPages, Option.filter_eq_some_iff] at here
    exact here.1

/-- Dropping the pages with the transaction's writes does the same on stores that agree there. -/
theorem Ready.dropPages (ready : Ready mine txn space s t) :
    Pair mine txn s t (s.dropPages fun page => page.dirtier == some txn)
      (t.dropPages fun page => page.dirtier == some txn) := by
  apply ready.pair_of_cache ready.first.drops ready.second.drops (dropPages_eq ..) (dropPages_eq ..)
  intro page own
  rw [cached?_dropPages, cached?_dropPages, ready.agree.cached page own]

theorem Undisturbed.lets_go (undisturbed : Undisturbed mine txn space s) :
    Works mine txn s (s.releaseAll txn) where
  elsewhere := by
    refine ⟨rfl, rfl, fun _ _ _ _ => rfl, fun _ _ => rfl, fun page foreign => ?_⟩
    refine (undisturbed.locks.holders_releaseAll txn page).trans
      (Holders.remove_of_mode?_eq_none (Option.not_isSome_iff_eq_none.1 fun held => ?_))
    exact foreign (undisturbed.touched.held page held)
  builds := builds_releaseAll txn s
  coherent := undisturbed.coherent.of_kept rfl rfl rfl fun _ _ => id
  locks := undisturbed.locks.releaseAll txn
  sure := undisturbed.sure
  others other page ne := (undisturbed.locks.mode?_releaseAll txn other page).trans (if_neg ne)
  waits _ _ none := LockTable.waits_releaseAll_of_none none txn
  writers _ _ _ _ here _ := here
  capacity := rfl

/-- Giving back every lock does the same on stores that agree where they are. -/
theorem Ready.releaseAll (ready : Ready mine txn space s t) :
    Pair mine txn s t (s.releaseAll txn) (t.releaseAll txn) where
  first := ready.first.lets_go
  second := ready.second.lets_go
  agree := by
    refine ⟨ready.agree.catalog, ready.agree.overdue, ready.agree.files, ready.agree.cached,
      fun page own => ?_⟩
    refine (ready.second.locks.holders_releaseAll txn page).trans
      (Eq.trans ?_ (ready.first.locks.holders_releaseAll txn page).symm)
    rw [ready.agree.holders page own]
  enters := enters_nothing rfl rfl (fun _ _ => rfl) fun _ _ => rfl

/-! ## Ending -/

/-- Aborting does the same on stores that agree in the tables of the transaction. -/
theorem Ready.abort (ready : Ready mine txn space s t) :
    Pair mine txn s t (s.abort txn) (t.abort txn) ∧ (s.abort txn).Within space ∧
      (t.abort txn).Within space := by
  have within {store : Store} (within : store.Within space) (test : Page → Bool) :
      (store.dropPages test).Within space :=
    within.of_same (by rw [dropPages_eq]) (by rw [dropPages_eq])
  have first := within ready.first.within fun page => page.dirtier == some txn
  have second := within ready.second.within fun page => page.dirtier == some txn
  have drops := ready.dropPages
  exact ⟨drops.trans (drops.ready ready first second).releaseAll, first.of_same rfl rfl,
    second.of_same rfl rfl⟩

/-- Committing does the same on stores that agree in the tables of the transaction. -/
theorem Ready.commit (ready : Ready mine txn space s t) :
    Same mine txn space (commit txn) (commit txn) s t fun _ _ _ _ => True := by
  obtain ⟨after, after', flushes, flushes', pair, within, within'⟩ := ready.flushPages
  have ends : Store.commit txn s = .ok () (after.releaseAll txn) := by
    simp only [Store.commit, flushes]
  have ends' : Store.commit txn t = .ok () (after'.releaseAll txn) := by
    simp only [Store.commit, flushes']
  exact same_of_ok ends ends' (pair.trans (pair.ready ready within within').releaseAll)
    (within.of_same rfl rfl) (within'.of_same rfl rfl) trivial

end PageStore.Store
