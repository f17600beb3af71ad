import Mathlib.Logic.Basic
import PageStore.Lock.Table

/-!
# What the lock table's operations do

The lock table keeps the holders of each page (`LockTable.holders`) and the pages of each
transaction (`LockTable.heldBy`).  For each operation this module says what it does to these two
views, and to the mode in which a transaction holds a page (`LockTable.mode?`).

* `acquire_cases` lists the four ways in which a request can end.  Only a grant changes who holds
  what, and it changes one page (`holders_withGrant`) and one transaction (`heldBy_withGrant`).
* A release takes one transaction from the holders of one page (`holders_release`), and the end of a
  transaction takes it from the holders of every page that it is recorded to hold
  (`holders_releaseAll`).
-/

namespace PageStore

/-! ## Holders of one page -/

namespace Holders

variable {holders granted : Holders} {txn other : TxnId} {mode : LockMode}

/-- A page with a writer has no readers. -/
def Exclusive (holders : Holders) : Prop :=
  ∀ writer, holders.writer = some writer → holders.readers = []

@[simp] theorem mode?_none (txn : TxnId) : Holders.none.mode? txn = .none := rfl

theorem exclusive_none : Holders.none.Exclusive := fun _ h => by cases h

/-- Nobody holds a page that is free. -/
theorem eq_none_of_isFree (free : holders.isFree = true) : holders = Holders.none := by
  rcases holders with ⟨readers, writer⟩
  simp only [isFree, Bool.and_eq_true, Option.isNone_iff_eq_none, List.isEmpty_iff] at free
  rcases free with ⟨rfl, rfl⟩
  rfl

theorem mode?_eq_exclusive : holders.mode? txn = some .exclusive ↔ holders.writer = some txn := by
  unfold mode?
  split
  · next h => simp [h]
  · next h => split <;> simp [h]

theorem mode?_eq_none : holders.mode? txn = .none ↔
    holders.writer ≠ some txn ∧ txn ∉ holders.readers := by
  unfold mode?
  split
  · next h => simp [h]
  · next h => split <;> simp_all

/-- Somebody holds a page that is not free. -/
theorem isFree_eq_false : holders.isFree = false ↔ ∃ txn, (holders.mode? txn).isSome := by
  refine ⟨fun held => ?_, fun ⟨txn, held⟩ => ?_⟩
  · rcases holders with ⟨readers, writer⟩
    cases writer with
    | some txn => exact ⟨txn, by simp [mode?]⟩
    | none =>
      cases readers with
      | nil => cases held
      | cons txn readers => exact ⟨txn, by simp [mode?]⟩
  · refine Bool.eq_false_iff.2 fun free => ?_
    rw [eq_none_of_isFree free] at held
    cases held

/-- The ways in which a request is granted: its transaction writes the page already, joins the
readers, or becomes the writer of a page that nobody else holds. -/
theorem grant_ok_cases (ok : holders.grant txn mode = .ok granted) :
    (holders.writer = some txn ∧ granted = holders) ∨
      (holders.writer = .none ∧ mode = .shared ∧ granted = holders ∧ txn ∈ holders.readers) ∨
      (holders.writer = .none ∧ mode = .shared ∧
        granted = { holders with readers := holders.readers ++ [txn] }) ∨
      (holders.writer = .none ∧ mode = .exclusive ∧ (∀ reader ∈ holders.readers, reader = txn) ∧
        granted = ⟨[], some txn⟩) := by
  unfold grant at ok
  cases writer : holders.writer with
  | some w =>
    simp only [writer] at ok
    split at ok
    · next same =>
      cases ok
      exact .inl ⟨by rw [same], rfl⟩
    · cases ok
  | none =>
    simp only [writer] at ok
    cases mode with
    | shared =>
      by_cases reads : txn ∈ holders.readers
      · rw [if_pos reads] at ok
        cases ok
        exact .inr (.inl ⟨rfl, rfl, rfl, reads⟩)
      · rw [if_neg reads] at ok
        cases ok
        exact .inr (.inr (.inl ⟨rfl, rfl, rfl⟩))
    | exclusive =>
      by_cases alone : holders.readers.filter (fun reader => reader ≠ txn) = []
      · rw [if_pos alone] at ok
        cases ok
        refine .inr (.inr (.inr ⟨rfl, rfl, fun reader reads => ?_, rfl⟩))
        simpa using List.filter_eq_nil_iff.1 alone reader reads
      · rw [if_neg alone] at ok
        cases ok

/-- The ways in which a request is not granted: somebody else writes the page, or others read a page
that is asked for exclusively. -/
theorem grant_error_cases {blockers : List TxnId} (refused : holders.grant txn mode = .error blockers) :
    (∃ writer, holders.writer = some writer ∧ writer ≠ txn ∧ blockers = [writer]) ∨
      (holders.writer = .none ∧ mode = .exclusive ∧ blockers ≠ [] ∧
        ∀ reader, reader ∈ blockers ↔ reader ∈ holders.readers ∧ reader ≠ txn) := by
  unfold grant at refused
  cases writer : holders.writer with
  | some w =>
    simp only [writer] at refused
    split at refused
    · cases refused
    · next ne =>
      cases refused
      exact .inl ⟨w, rfl, ne, rfl⟩
  | none =>
    simp only [writer] at refused
    cases mode with
    | shared => cases refused
    | exclusive =>
      by_cases alone : holders.readers.filter (fun reader => reader ≠ txn) = []
      · rw [if_pos alone] at refused
        cases refused
      · rw [if_neg alone] at refused
        cases refused
        exact .inr ⟨rfl, rfl, alone, fun reader => by simp⟩

theorem Exclusive.grant (exclusive : holders.Exclusive)
    (ok : holders.grant txn mode = .ok granted) : granted.Exclusive := by
  rcases grant_ok_cases ok with ⟨-, rfl⟩ | ⟨-, -, rfl, -⟩ | ⟨free, -, rfl⟩ | ⟨-, -, -, rfl⟩
  · exact exclusive
  · exact exclusive
  · intro writer h
    rw [free] at h
    cases h
  · exact fun _ _ => rfl

/-- A grant is a grant to one transaction. -/
theorem mode?_grant_of_ne (ok : holders.grant txn mode = .ok granted) (ne : other ≠ txn) :
    granted.mode? other = holders.mode? other := by
  rcases grant_ok_cases ok with ⟨-, rfl⟩ | ⟨-, -, rfl, -⟩ | ⟨free, -, rfl⟩ | ⟨free, -, alone, rfl⟩
  · rfl
  · rfl
  · simp [mode?, free, ne]
  · have absent : other ∉ holders.readers := fun reads => ne (alone other reads)
    simp [mode?, free, absent, ne.symm]

/-- Who is granted a request holds the page, in the mode asked for or as its writer. -/
theorem mode?_grant (ok : holders.grant txn mode = .ok granted) :
    granted.mode? txn = some mode ∨ granted.mode? txn = some .exclusive := by
  rcases grant_ok_cases ok with ⟨writes, rfl⟩ | ⟨free, rfl, rfl, reads⟩ | ⟨free, rfl, rfl⟩ | ⟨-, rfl, -, rfl⟩
  · exact .inr (mode?_eq_exclusive.2 writes)
  · exact .inl (by simp [mode?, free, reads])
  · exact .inl (by simp [mode?, free])
  · exact .inl (by simp [mode?])

/-- A writer that asks again stays the writer. -/
theorem grant_of_exclusive (writes : holders.mode? txn = some .exclusive) (mode : LockMode) :
    holders.grant txn mode = .ok holders := by
  rw [mode?_eq_exclusive] at writes
  simp [grant, writes]

/-- A reader that asks again stays a reader. -/
theorem Exclusive.grant_of_shared (exclusive : holders.Exclusive)
    (reads : holders.mode? txn = some .shared) : holders.grant txn .shared = .ok holders := by
  have reader : txn ∈ holders.readers := by
    unfold mode? at reads
    split at reads
    · cases reads
    · split at reads
      · assumption
      · cases reads
  cases writer : holders.writer with
  | some other =>
    rw [exclusive other writer] at reader
    cases reader
  | none => simp [Holders.grant, writer, reader]

theorem Exclusive.remove (exclusive : holders.Exclusive) (txn : TxnId) :
    (holders.remove txn).Exclusive := by
  intro writer h
  simp only [Holders.remove] at h ⊢
  split at h
  · cases h
  · rw [exclusive writer h]
    rfl

/-- Who does not hold the page has nothing to let go of. -/
theorem remove_of_mode?_eq_none (absent : holders.mode? txn = .none) :
    holders.remove txn = holders := by
  obtain ⟨writer, readers⟩ := mode?_eq_none.1 absent
  unfold remove
  rw [if_neg writer, List.filter_eq_self.2 fun reader mem => ?_]
  refine decide_eq_true fun same => readers (same ▸ mem)

/-- Who lets go of a page holds it no more, and everybody else holds it as before. -/
@[simp] theorem mode?_remove (holders : Holders) (txn other : TxnId) :
    (holders.remove txn).mode? other = if other = txn then .none else holders.mode? other := by
  rcases eq_or_ne other txn with rfl | same
  · rw [if_pos rfl, mode?_eq_none]
    refine ⟨?_, by simp [remove]⟩
    simp only [remove]
    split
    · exact nofun
    · assumption
  · rw [if_neg same]
    have writes : (holders.remove txn).writer = some other ↔ holders.writer = some other := by
      simp only [remove]
      split
      · next writes => simp [writes, Ne.symm same]
      · rfl
    have reads : other ∈ (holders.remove txn).readers ↔ other ∈ holders.readers := by
      simp [remove, same]
    simp only [mode?, writes, reads]

/-- A page that two transactions hold has no writer. -/
theorem Exclusive.eq_of_mode? (exclusive : holders.Exclusive)
    (writes : holders.mode? txn = some .exclusive) (holds : (holders.mode? other).isSome) :
    other = txn := by
  rw [mode?_eq_exclusive] at writes
  rcases eq_or_ne other txn with same | ne
  · exact same
  · have free : holders.mode? other = .none :=
      mode?_eq_none.2 ⟨by simp [writes, ne.symm], by simp [exclusive txn writes]⟩
    rw [free] at holds
    cases holds

end Holders

namespace LockTable

variable {locks : LockTable} {txn other : TxnId} {page place : PageId} {mode : LockMode}

/-! ## Grants -/

@[simp] theorem holders_empty (page : PageId) : empty.holders page = Holders.none := rfl

@[simp] theorem heldBy_empty (txn : TxnId) : empty.heldBy txn = [] := rfl

@[simp] theorem holders_withGrant (locks : LockTable) (txn : TxnId) (page : PageId)
    (granted : Holders) (place : PageId) :
    (locks.withGrant txn page granted).holders place =
      if place = page then granted else locks.holders place := by
  simp only [holders, withGrant, Dictionary.get?_put]
  split <;> rfl

theorem heldBy_withGrant (locks : LockTable) (txn : TxnId) (page : PageId) (granted : Holders)
    (other : TxnId) :
    (locks.withGrant txn page granted).heldBy other =
      if other = txn then
        if page ∈ locks.heldBy txn then locks.heldBy txn else locks.heldBy txn ++ [page]
      else locks.heldBy other := by
  simp only [heldBy, withGrant, Dictionary.get?_put]
  split <;> rfl

/-- The four ways in which a request ends: it is granted, refused because a cycle is reached from
it, refused because its transaction is overdue, or left waiting. -/
theorem acquire_cases (locks : LockTable) (txn : TxnId) (page : PageId) (mode : LockMode)
    (overdue : Bool) :
    (∃ granted, (locks.holders page).grant txn mode = .ok granted ∧
      locks.acquire txn page mode overdue =
        (.granted, { locks.withGrant txn page granted with
          requests := locks.requests.erase txn })) ∨
      ∃ blockers, (locks.holders page).grant txn mode = .error blockers ∧
        let waits : WaitGraph := locks.waits.put txn ⟨page, blockers⟩
        (waits.hasCycle txn = true ∧
          locks.acquire txn page mode overdue =
            (.refused (.wouldDeadlock txn page),
              { locks with waits := waits.erase txn, requests := locks.requests.erase txn })) ∨
        (waits.hasCycle txn = false ∧ overdue = true ∧
          locks.acquire txn page mode overdue =
            (.refused (.timedOut txn page),
              { locks with waits := waits.erase txn, requests := locks.requests.erase txn })) ∨
        (waits.hasCycle txn = false ∧ overdue = false ∧
          locks.acquire txn page mode overdue =
            (.waiting,
              { locks with
                waits := waits
                requests := locks.requests.put txn ⟨page, mode, false⟩ })) := by
  unfold acquire judge
  cases verdict : (locks.holders page).grant txn mode with
  | ok granted => exact .inl ⟨granted, rfl, rfl⟩
  | error blockers =>
    refine .inr ⟨blockers, rfl, ?_⟩
    by_cases cycle : WaitGraph.hasCycle (locks.waits.put txn ⟨page, blockers⟩) txn = true
    · exact .inl ⟨cycle, by simp [WaitGraph.record, cycle]⟩
    · cases overdue with
      | true => exact .inr (.inl ⟨by simpa using cycle, rfl, by simp [WaitGraph.record, cycle]⟩)
      | false => exact .inr (.inr ⟨by simpa using cycle, rfl, by simp [WaitGraph.record, cycle]⟩)

/-- A request either is granted, or leaves who holds what as it was. -/
theorem acquire_grants_or_keeps (locks : LockTable) (txn : TxnId) (page : PageId) (mode : LockMode)
    (overdue : Bool) :
    (∃ granted, (locks.holders page).grant txn mode = .ok granted ∧
      (locks.acquire txn page mode overdue).1 = .granted ∧
      (∀ place, (locks.acquire txn page mode overdue).2.holders place =
        (locks.withGrant txn page granted).holders place) ∧
      ∀ other, (locks.acquire txn page mode overdue).2.heldBy other =
        (locks.withGrant txn page granted).heldBy other) ∨
      ((locks.acquire txn page mode overdue).1 ≠ .granted ∧
        (∀ place, (locks.acquire txn page mode overdue).2.holders place = locks.holders place) ∧
        ∀ other, (locks.acquire txn page mode overdue).2.heldBy other = locks.heldBy other) := by
  rcases acquire_cases locks txn page mode overdue with
    ⟨granted, ok, eq⟩ | ⟨blockers, -, ⟨-, eq⟩ | ⟨-, -, eq⟩ | ⟨-, -, eq⟩⟩
  · rw [eq]
    exact .inl ⟨granted, ok, rfl, fun _ => rfl, fun _ => rfl⟩
  all_goals
    rw [eq]
    exact .inr ⟨nofun, fun _ => rfl, fun _ => rfl⟩

/-- A page is locked if some transaction holds it. -/
theorem isLocked_iff (locks : LockTable) (page : PageId) :
    locks.isLocked page = true ↔ ∃ txn, locks.holds txn page = true := by
  rw [isLocked, Bool.not_eq_true', Holders.isFree_eq_false]
  rfl

/-- A request is about the holders of its own page alone. -/
theorem holders_acquire_of_ne (locks : LockTable) (txn : TxnId) (mode : LockMode) (overdue : Bool)
    (ne : place ≠ page) :
    (locks.acquire txn page mode overdue).2.holders place = locks.holders place := by
  rcases acquire_grants_or_keeps locks txn page mode overdue with ⟨_, _, _, holders, _⟩ | ⟨_, holders, _⟩
  · rw [holders, holders_withGrant, if_neg ne]
  · exact holders place

/-! ## Releases -/

@[simp] theorem holders_dropHolder (locks : LockTable) (txn : TxnId) (page place : PageId) :
    (locks.dropHolder txn page).holders place =
      if place = page then (locks.holders page).remove txn else locks.holders place := by
  cases entry : locks.pages.get? page with
  | none =>
    have nobody : locks.holders page = Holders.none := by simp [holders, entry]
    simp only [dropHolder, entry]
    split
    · next h => rw [h, nobody]; rfl
    · rfl
  | some current =>
    have whose : locks.holders page = current := by simp [holders, entry]
    rw [whose]
    simp only [dropHolder, entry, holders]
    split
    · next leaves =>
      rw [Bool.and_eq_true] at leaves
      simp only [Dictionary.get?_erase]
      split
      · exact (Holders.eq_none_of_isFree leaves.1).symm
      · rfl
    · simp only [Dictionary.get?_put]
      split <;> rfl

@[simp] theorem held_dropHolder (locks : LockTable) (txn : TxnId) (page : PageId) :
    (locks.dropHolder txn page).held = locks.held := by
  unfold dropHolder
  split <;> rfl

@[simp] theorem waits_dropHolder (locks : LockTable) (txn : TxnId) (page : PageId) :
    (locks.dropHolder txn page).waits = locks.waits := by
  unfold dropHolder
  split <;> rfl

/-- Whoever lets go of a page, the same transactions wait. -/
@[simp] theorem isWaiting_dropHolder (locks : LockTable) (txn : TxnId) (page : PageId)
    (other : TxnId) : (locks.dropHolder txn page).isWaiting other = locks.isWaiting other := by
  unfold dropHolder isWaiting Dictionary.contains
  split
  · rfl
  · dsimp only
    split
    · rfl
    · rw [Dictionary.get?_mapValues, Option.isSome_map]

@[simp] theorem holders_prune (locks : LockTable) (page : PageId) :
    locks.prune.holders page = locks.holders page := by
  simp only [holders, prune, Dictionary.get?_filter]
  cases locks.pages.get? page with
  | none => rfl
  | some current =>
    simp only [Option.filter]
    split
    · rfl
    · exact (Holders.eq_none_of_isFree (by simp_all)).symm

@[simp] theorem holders_release (locks : LockTable) (txn : TxnId) (page place : PageId) :
    (locks.release txn page).holders place =
      if place = page then (locks.holders page).remove txn else locks.holders place :=
  holders_dropHolder _ txn page place

@[simp] theorem mode?_release (locks : LockTable) (txn other : TxnId) (page place : PageId) :
    (locks.release txn page).mode? other place =
      if place = page ∧ other = txn then none else locks.mode? other place := by
  unfold mode?
  rw [holders_release]
  rcases eq_or_ne place page with rfl | here
  · simp
  · simp [here]

theorem heldBy_release (locks : LockTable) (txn : TxnId) (page : PageId) (other : TxnId) :
    (locks.release txn page).heldBy other =
      if other = txn then (locks.heldBy txn).filter (· ≠ page) else locks.heldBy other := by
  simp only [heldBy, release, held_dropHolder, Dictionary.get?_modify]
  rcases eq_or_ne other txn with rfl | same
  · cases locks.held.get? other <;> simp
  · simp [same]

/-- Taking a transaction from the holders of several pages. -/
theorem holders_foldl_dropHolder (txn : TxnId) (pages : List PageId) (locks : LockTable)
    (place : PageId) :
    (pages.foldl (fun locks page => locks.dropHolder txn page) locks).holders place =
      if place ∈ pages then (locks.holders place).remove txn else locks.holders place := by
  induction pages generalizing locks with
  | nil => simp
  | cons page pages ih =>
    rw [List.foldl_cons, ih, holders_dropHolder]
    rcases eq_or_ne place page with rfl | here
    · have twice (h : Holders) : (h.remove txn).remove txn = h.remove txn := by
        simp only [Holders.remove, List.filter_filter, Bool.and_self, Holders.mk.injEq, true_and]
        split <;> simp_all
      simp [twice]
    · simp [here]

/-- What stays when a transaction is taken from the holders of any one page, stays when it is taken
from those of several. -/
theorem foldl_dropHolder {α : Type} (view : LockTable → α) {txn : TxnId}
    (keeps : ∀ locks page, view (locks.dropHolder txn page) = view locks) (pages : List PageId)
    (locks : LockTable) :
    view (pages.foldl (fun locks page => locks.dropHolder txn page) locks) = view locks := by
  induction pages generalizing locks with
  | nil => rfl
  | cons page pages ih => rw [List.foldl_cons, ih, keeps]

@[simp] theorem held_foldl_dropHolder (txn : TxnId) (pages : List PageId) (locks : LockTable) :
    (pages.foldl (fun locks page => locks.dropHolder txn page) locks).held = locks.held :=
  foldl_dropHolder held (fun locks page => held_dropHolder locks txn page) pages locks

@[simp] theorem waits_foldl_dropHolder (txn : TxnId) (pages : List PageId) (locks : LockTable) :
    (pages.foldl (fun locks page => locks.dropHolder txn page) locks).waits = locks.waits :=
  foldl_dropHolder waits (fun locks page => waits_dropHolder locks txn page) pages locks

@[simp] theorem isWaiting_foldl_dropHolder (txn : TxnId) (pages : List PageId) (locks : LockTable)
    (other : TxnId) :
    (pages.foldl (fun locks page => locks.dropHolder txn page) locks).isWaiting other =
      locks.isWaiting other :=
  foldl_dropHolder (fun locks => locks.isWaiting other)
    (fun locks page => isWaiting_dropHolder locks txn page other) pages locks

theorem holders_releaseAll (locks : LockTable) (txn : TxnId) (place : PageId) :
    (locks.releaseAll txn).holders place =
      if place ∈ locks.heldBy txn then (locks.holders place).remove txn else locks.holders place := by
  unfold releaseAll
  rw [holders_prune]
  exact holders_foldl_dropHolder txn (locks.heldBy txn) _ place

theorem heldBy_releaseAll (locks : LockTable) (txn other : TxnId) :
    (locks.releaseAll txn).heldBy other = if other = txn then [] else locks.heldBy other := by
  simp only [heldBy, releaseAll, prune, held_foldl_dropHolder, Dictionary.get?_erase]
  split <;> rfl

end LockTable

end PageStore
