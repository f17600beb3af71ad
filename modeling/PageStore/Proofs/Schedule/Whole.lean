import PageStore.Proofs.Schedule.Handles
import PageStore.Proofs.Schedule.Settles

/-!
# Files of whole pages

If the files of the tables consist of whole pages, they always do (`System.Becomes.whole`).  A page is
appended right after the last, and a page that is flushed is in its file already.
-/

namespace PageStore

namespace Store

variable {s after : Store} {txn : TxnId}

/-- Every file of a table consists of whole pages. -/
def Whole (s : Store) : Prop :=
  ∀ table file, s.catalog.file table = .ok file → file.pageSize ∣ (s.disk.read file.path).length

theorem Whole.of_sizes (whole : s.Whole) (catalog : after.catalog = s.catalog)
    (sizes : ∀ table file, s.catalog.file table = .ok file →
      (after.disk.read file.path).length = (s.disk.read file.path).length) : after.Whole := by
  intro table file listed
  rw [catalog] at listed
  rw [sizes table file listed]
  exact whole table file listed

theorem Whole.of_same (whole : s.Whole) (catalog : after.catalog = s.catalog)
    (disk : after.disk = s.disk) : after.Whole :=
  whole.of_sizes catalog fun _ _ _ => by rw [disk]

theorem Whole.appends (whole : s.Whole) (sound : s.catalog.Sound) (appends : Appends s after) :
    after.Whole := by
  rcases appends with @⟨file, disk, listed, writes⟩
  intro table other known
  show other.pageSize ∣ (disk.read other.path).length
  by_cases same : other.path = file.path
  · have own : other.table = file.table := by
      by_contra apart
      exact sound.path_ne listed ((sound _ _ known).1 ▸ known) apart same
    have here := known
    rw [← (sound _ _ known).1, own, listed] at here
    cases here
    rw [writes.read_next (whole _ _ listed), List.length_append, Bytes.length_zeros]
    exact Nat.dvd_add (whole _ _ listed) (Nat.dvd_refl _)
  · rw [writes.bytes_other same]
    exact whole _ _ known

theorem Whole.readies (whole : s.Whole) (sound : s.catalog.Sound) (readies : Readies txn s after) :
    after.Whole := by
  cases readies with
  | fetches fetches => exact whole.of_same fetches.catalog fetches.disk
  | appends before appends rest =>
    have locked := whole.of_same before.catalog before.disk
    exact (locked.appends (before.catalog.symm ▸ sound) appends).of_same rest.catalog rest.disk

/-- Flushing writes no file longer, and what the log is given is in no file of a table. -/
theorem flushPage_whole (coherent : Coherent s) (whole : s.Whole) (page : PageId) :
    (flushPage page).Leads s (fun _ after => Coherent after ∧ after.Whole)
      (fun after => Coherent after ∧ after.Whole) := by
  rcases s.dirty_or_clean page with ⟨frame, txn, cached, dirty⟩ | clean
  · refine (flushPage_settles coherent cached dirty).mono (fun _ after settles => ?_)
      fun after ⟨logs, _⟩ => ?_
    · exact ⟨coherent.persists settles.persists,
        whole.of_sizes settles.persists.catalog settles.sizes⟩
    · refine ⟨coherent.journals logs.toJournals, whole.of_sizes (by rw [logs.eq]) ?_⟩
      intro table file listed
      rw [logs.keeps.others file.path (coherent.apart table file listed)]
  · exact Op.leads_of_ok (flushPage_of_clean clean) ⟨coherent, whole⟩

theorem flushEach_whole (coherent : Coherent s) (whole : s.Whole) (pages : List PageId) :
    (pages.forM flushPage).Leads s (fun _ => Whole) Whole := by
  induction pages generalizing s with
  | nil => exact whole
  | cons page pages ih =>
    exact ((flushPage_whole coherent whole page).mono (fun _ _ => id) fun _ both => both.2).bind
      fun _ _ ⟨coherent, whole⟩ => ih coherent whole

theorem commit_whole (coherent : Coherent s) (whole : s.Whole) (txn : TxnId) :
    (commit txn).Leads s (fun _ => Whole) Whole := by
  refine (commit_ends (flushEach_whole coherent whole (s.pagesDirtiedBy txn))).mono ?_ ?_
  · rintro _ _ ⟨flushed, whole, rfl⟩
    exact whole.of_same rfl rfl
  · rintro _ ⟨flushed, whole, rfl⟩
    exact whole.of_same (by rw [abort_eq]) (by rw [abort_eq])

theorem Whole.putBack (whole : s.Whole) (ref : PageRef) : (s.putBack ref).Whole := by
  unfold Store.putBack replaceFrame
  split
  · exact whole
  · split
    · exact whole.of_same rfl rfl
    · split <;> exact whole.of_same rfl rfl

/-- To make room and to put a page into the cache writes nothing. -/
theorem applyRef_whole (whole : s.Whole) (ref : PageRef) :
    (applyRef ref).Leads s (fun _ => Whole) Whole := by
  refine applyRef_leads (fun _ => whole.putBack ref) fun _ => ?_
  refine (makeRoom_evicts s).mono (fun _ roomy evicts => ?_) fun _ same => same ▸ whole
  rcases evicts with rfl | ⟨victim, -, rfl⟩
  · exact whole.putBack ref
  · exact (whole.of_same (by rw [dropPage_eq]) (by rw [dropPage_eq])).putBack ref

theorem changeRef_whole (whole : s.Whole) (ref : PageRef) (txn : TxnId) (change : Page → Page) :
    (Op.final (changeRef ref txn change s)).Whole := by
  unfold changeRef
  cases s.deref? ref with
  | none => exact whole
  | some page =>
    show (Store.setFrame _ _).Whole
    rw [setFrame_eq]
    exact whole.of_same rfl rfl

end Store

open Store

namespace System

variable {start sys : System} {action : Action} {txn : TxnId} {after : Store}

theorem Effect.whole (effect : sys.Effect action after) (steady : sys.Steady)
    (whole : sys.store.Whole) : after.Whole := by
  have sound := steady.coherent.catalog
  cases effect with
  | nothing => exact whole
  | @advances txn call halted =>
    obtain ⟨readied, readies, catalog, disk, -⟩ :=
      call.advance_readies steady.coherent txn (steady.registered txn call halted)
    exact (whole.readies sound readies).of_same catalog disk
  | commits => exact (commit_whole steady.coherent whole _).final
  | aborts => exact whole.of_same (by rw [abort_eq]) (by rw [abort_eq])
  | flushes pages => exact (flushEach_whole steady.coherent whole pages).final
  | discards => exact whole.of_same (by rw [dropPage_eq]) (by rw [dropPage_eq])
  | releases => exact whole.of_same rfl rfl
  | turns overdue arrangement => exact whole.of_same rfl rfl

/-- Whatever happens, the files of the tables consist of whole pages. -/
theorem Becomes.whole (becomes : Becomes start sys) (fresh : start.Fresh)
    (whole : start.store.Whole) : sys.store.Whole := by
  induction becomes with
  | start => exact whole
  | @act sys before action ih => exact (act_effect sys action).whole (before.steady fresh).1 ih
  | writes _ _ txn _ ih => exact changeRef_whole ih _ txn _
  | handsBack _ _ ih => exact (applyRef_whole ih _).final
  | locks _ _ ih => exact ih.of_same rfl rfl

end System

end PageStore
