import PageStore.Proofs.Schedule.Unrelated
import PageStore.Store.Kept

/-!
# Callers with pages of their own

Beside the actions of a system, callers keep references to pages.  They write into a page through a
reference, whatever locks they hold and whether or not the page is still cached; they hand pages back
to the cache; and they use the lock table without any page (`System.Becomes`).

A write through a reference changes the bytes of a page and leaves their number, and marks the page
dirty.  Pages that are handed back agree with the files, as those do that an operation on rows has
just changed: an outdated one would come back with what was stored before.  Under these terms the
store stays coherent and its locks stay consistent (`Becomes.steady`).
-/

namespace PageStore

/-- Pages that differ in their bytes alone, and have as many of them. -/
structure Page.Edits (page changed : Page) : Prop where
  id : changed.id = page.id
  before : changed.before = page.before
  length : changed.bytes.length = page.bytes.length

namespace Store

variable {s after : Store} {txn : TxnId} {page victim : PageId} {ref : PageRef} {frame : Frame}
  {change : Page → Page}

/-! ## Putting pages into the cache -/

/-- A store in which a page that agrees with its file came into the cache. -/
theorem Coherent.puts (coherent : Coherent s) (disk : after.disk = s.disk)
    (catalog : after.catalog = s.catalog) (journal : after.journal = s.journal)
    (cache : after.cache = s.cache.put frame.page.id frame)
    (faithful : s.Faithful frame.page.id frame.page) : Coherent after := by
  have stores {page : PageId} {stored : Page} (stores : s.Stores page stored) :
      after.Stores page stored := by
    unfold Stores
    rw [catalog, disk]
    exact stores
  refine coherent.of_faithful catalog (by rw [journal]) fun place other now => ?_
  rw [cache, Dictionary.get?_put] at now
  split at now
  · next same =>
    cases now
    exact same ▸ faithful.congr fun _ => stores
  · exact (coherent.faithful place other now).congr fun _ => stores

/-- A write through a reference leaves the cache in agreement with the files. -/
theorem Coherent.changeRef (coherent : Coherent s) (names : s.Names ref)
    (edits : ∀ page, s.deref? ref = some page → page.Edits (change page)) :
    Coherent (Op.final (changeRef ref txn change s)) := by
  unfold Store.changeRef
  cases refers : s.deref? ref with
  | none => exact coherent
  | some page =>
    have edit := edits page refers
    have named : (change page).id = ref.page := edit.id.trans (names page refers)
    let written : Frame := ⟨ref.serial, (change page).dirtiedBy txn⟩
    show Coherent (s.setFrame written)
    unfold deref? at refers
    split at refers
    · next frame here =>
      obtain ⟨cached, serial⟩ := Option.filter_eq_some_iff.1 here
      cases refers
      have faithful := coherent.faithful ref.page frame cached
      have here : s.cache.get? written.page.id = some frame := named ▸ cached
      have writes : s.setFrame written = s.withFrame written :=
        setFrame_of_cached here (of_decide_eq_true serial)
      have kept : s.Faithful written.page.id written.page := by
        refine ⟨rfl, ?_, ?_, nofun⟩
        · show s.Stores (change frame.page).id
            (.ofStored (change frame.page).id (change frame.page).before)
          rw [named, edit.before]
          exact faithful.before
        · exact edit.length.trans (faithful.length.trans (congrArg List.length edit.before.symm))
      rw [writes]
      exact coherent.puts rfl rfl rfl rfl kept
    · next gone =>
      have shelved : (s.setFrame written).cache = s.cache := by
        unfold setFrame
        rw [show written.page.id = ref.page from named, gone]
      rw [setFrame_eq]
      refine coherent.of_kept rfl rfl rfl fun _ _ cached => ?_
      rwa [shelved] at cached

/-! ## Handing back -/

/-- A page that a reference refers to agrees with the file of its table. -/
def Current (s : Store) (ref : PageRef) : Prop :=
  ∀ page, s.deref? ref = some page → s.Faithful page.id page

theorem Coherent.replaceFrame (coherent : Coherent s)
    (faithful : s.Faithful frame.page.id frame.page) : Coherent (s.replaceFrame frame) := by
  unfold Store.replaceFrame
  split
  · exact coherent.puts rfl rfl rfl rfl faithful
  · split
    · exact coherent
    · exact coherent.puts rfl rfl rfl rfl faithful

/-- What is found by a reference once a page was dropped was found before, or is that page. -/
theorem deref?_dropPage {found : Page} (refers : (s.dropPage victim).deref? ref = some found) :
    s.deref? ref = some found ∨
      ∃ frame, s.cache.get? victim = some frame ∧ found = frame.page := by
  cases cached : s.cache.get? victim with
  | none =>
    have same : s.dropPage victim = s := by simp only [dropPage, cached]
    rw [same] at refers
    exact .inl refers
  | some frame =>
    have shelf : (s.dropPage victim).shelf = s.shelf.put frame.serial frame.page := by
      simp only [dropPage, cached]
    unfold deref? at refers ⊢
    rw [get?_dropPage, shelf, Dictionary.get?_put] at refers
    by_cases here : ref.page = victim
    · rw [if_pos here, Option.filter_none] at refers
      rw [here, cached, Option.filter_some]
      by_cases same : ref.serial = frame.serial
      · rw [if_pos same] at refers
        exact .inr ⟨frame, rfl, (Option.some.inj refers).symm⟩
      · rw [if_neg same] at refers
        rw [if_neg fun serial => same (of_decide_eq_true serial).symm]
        exact .inl refers
    · rw [if_neg here] at refers
      split at refers
      · exact .inl refers
      · split at refers
        · exact .inr ⟨frame, rfl, (Option.some.inj refers).symm⟩
        · exact .inl refers

theorem Current.dropPage (current : s.Current ref) (coherent : Coherent s)
    (evictable : s.isEvictable victim = true) : (s.dropPage victim).Current ref := by
  have kept {page : PageId} {cached : Page} (faithful : s.Faithful page cached) :
      (s.dropPage victim).Faithful page cached :=
    faithful.congr fun _ => ((Turnover.dropPage evictable).stores).2
  intro page refers
  rcases deref?_dropPage refers with before | ⟨frame, cached, rfl⟩
  · exact kept (current page before)
  · have faithful := coherent.faithful victim frame cached
    exact kept (faithful.id.symm ▸ faithful)

theorem Coherent.putBack (coherent : Coherent s) (current : s.Current ref) :
    Coherent (s.putBack ref) ∧ (s.putBack ref).catalog = s.catalog ∧
      (s.putBack ref).locks = s.locks := by
  unfold Store.putBack
  cases refers : s.deref? ref with
  | none => exact ⟨coherent, rfl, rfl⟩
  | some page =>
    refine ⟨coherent.replaceFrame (current page refers), ?_⟩
    show (s.replaceFrame _).catalog = _ ∧ (s.replaceFrame _).locks = _
    unfold Store.replaceFrame
    split
    · exact ⟨rfl, rfl⟩
    · split <;> exact ⟨rfl, rfl⟩

/-- Handing back a page leaves the cache in agreement with the files. -/
theorem Coherent.applyRef (coherent : Coherent s) (current : s.Current ref) :
    (applyRef ref).Leads s
      (fun _ after => Coherent after ∧ after.catalog = s.catalog ∧ after.locks = s.locks)
      (fun after => after = s) := by
  refine applyRef_leads (fun _ => coherent.putBack current) fun _ => ?_
  refine (makeRoom_evicts s).mono ?_ fun _ => id
  rintro _ _ (rfl | ⟨victim, evictable, rfl⟩)
  · exact coherent.putBack current
  · have same := s.dropPage_eq victim
    obtain ⟨coherent', catalog, locks⟩ :=
      (coherent.dropPage victim).putBack (current.dropPage coherent evictable)
    exact ⟨coherent', catalog.trans (by rw [same]), locks.trans (by rw [same])⟩

end Store

open Store

/-! ## What a system becomes -/

theorem LockTable.Tidy.step {locks after : LockTable} (tidy : locks.Tidy)
    (step : LockTable.Step locks after) : after.Tidy := by
  refine ⟨tidy.consistent.step step, ?_⟩
  cases step with
  | acquire txn page mode overdue _ => exact tidy.recorded.acquire txn page mode overdue
  | retry txn overdue =>
    unfold LockTable.retry
    split
    · exact tidy.recorded
    · next request _ => exact tidy.recorded.acquire txn request.page request.mode overdue
  | release txn page _ => exact tidy.recorded.release txn page
  | releaseAll txn _ => exact tidy.recorded.releaseAll txn

namespace System

variable {start sys : System} {allowed : System → Action → Prop} {reports : List Report}

/-- What a system becomes by actions, by writes through references, by pages that are handed back,
and by steps on its lock table, in any order. -/
inductive Becomes (start : System) : System → Prop
  | start : Becomes start start
  | act {sys : System} (before : Becomes start sys) (action : Action) :
      Becomes start (sys.act action).2
  | writes {sys : System} {ref : PageRef} {change : Page → Page} (before : Becomes start sys)
      (names : sys.store.Names ref) (txn : TxnId)
      (edits : ∀ page, sys.store.deref? ref = some page → page.Edits (change page)) :
      Becomes start { sys with store := Op.final (changeRef ref txn change sys.store) }
  | handsBack {sys : System} {ref : PageRef} (before : Becomes start sys)
      (current : sys.store.Current ref) :
      Becomes start { sys with store := Op.final (applyRef ref sys.store) }
  | locks {sys : System} {locks : LockTable} (before : Becomes start sys)
      (step : LockTable.Step sys.store.locks locks) :
      Becomes start { sys with store := { sys.store with locks := locks } }

theorem Run.becomes (run : Run allowed start reports sys) : Becomes start sys := by
  induction run with
  | nil => exact .start
  | act _ action _ ih => exact ih.act action

theorem Becomes.steady (becomes : Becomes start sys) (fresh : start.Fresh) :
    sys.Steady ∧ sys.store.locks.Tidy := by
  induction becomes with
  | start => exact ⟨fresh.steady, (Run.nil : Run (fun _ _ => True) start [] start).tidy fresh⟩
  | act _ action ih =>
    exact ⟨ih.1.act action, (act_moves ih.1 action).tidy ih.2⟩
  | @writes sys ref change _ names txn edits ih =>
    have coherent : Coherent (Op.final (changeRef ref txn change sys.store)) :=
      ih.1.coherent.changeRef names edits
    have same : (Op.final (changeRef ref txn change sys.store)).catalog = sys.store.catalog ∧
        (Op.final (changeRef ref txn change sys.store)).locks = sys.store.locks := by
      unfold changeRef
      cases sys.store.deref? ref with
      | none => exact ⟨rfl, rfl⟩
      | some page =>
        show (Store.setFrame _ _).catalog = _ ∧ (Store.setFrame _ _).locks = _
        rw [setFrame_eq]
        exact ⟨rfl, rfl⟩
    exact ⟨⟨coherent, same.1.symm ▸ ih.1.registered⟩, same.2.symm ▸ ih.2⟩
  | @handsBack sys ref _ current ih =>
    have hands := ((ih.1.coherent.applyRef current).mono (fun _ _ => id) fun after same =>
      same.symm ▸ ⟨ih.1.coherent, rfl, rfl⟩).final
    exact ⟨⟨hands.1, hands.2.1.symm ▸ ih.1.registered⟩, hands.2.2.symm ▸ ih.2⟩
  | locks _ step ih =>
    exact ⟨⟨ih.1.coherent.of_kept rfl rfl rfl fun _ _ => id, ih.1.registered⟩, ih.2.step step⟩

end System

end PageStore
