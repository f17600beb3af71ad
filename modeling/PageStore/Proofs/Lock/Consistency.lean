import Mathlib.Logic.Relation
import PageStore.Proofs.Lock.Table

/-!
# The lock table stays consistent

`LockTable.Step` is one step of any number of transactions on the lock table: a transaction without
a waiting request asks for a page, lets go of one, or ends; or the waiting request of a transaction
is judged again.  `LockTable.Reachable` is what such steps lead to from the empty table, in any
order and however each request is answered.

The table keeps who holds what twice, as the holders of each page and as the pages of each
transaction.  `Consistent` says that the two never disagree and that a page with a writer has no
readers.  Every operation keeps it, whoever calls it (`Consistent.acquire`, `Consistent.release`,
`Consistent.releaseAll`), so it holds of every reachable table.
-/

namespace PageStore.LockTable

/-! ## Steps -/

/-- One step of a transaction on the lock table.  A transaction that waits does nothing but wait:
its request is judged again, when it was woken or at any other time. -/
inductive Step (locks : LockTable) : LockTable → Prop
  | acquire (txn : TxnId) (page : PageId) (mode : LockMode) (overdue : Bool)
      (free : locks.isWaiting txn = false) : Step locks (locks.acquire txn page mode overdue).2
  | retry (txn : TxnId) (overdue : Bool) : Step locks (locks.retry txn overdue).2
  | release (txn : TxnId) (page : PageId) (free : locks.isWaiting txn = false) :
      Step locks (locks.release txn page)
  | releaseAll (txn : TxnId) (free : locks.isWaiting txn = false) :
      Step locks (locks.releaseAll txn)

/-- The lock tables that steps lead to from the empty one. -/
abbrev Reachable : LockTable → Prop := Relation.ReflTransGen Step empty

/-- Judging requests one after another, in any order, is a run of steps. -/
theorem Reachable.retryAll (overdue : TxnId → Bool) (txns : List TxnId) {locks : LockTable}
    (reached : Reachable locks) : Reachable (LockTable.retryAll overdue txns locks).2 := by
  induction txns generalizing locks with
  | nil => exact reached
  | cons txn txns ih =>
    have rest := ih (reached.tail (.retry txn (overdue txn)))
    simp only [LockTable.retryAll]
    split <;> exact rest

/-! ## Consistency -/

/-- The holders of pages and the pages of transactions agree, and writers are alone. -/
structure Consistent (locks : LockTable) : Prop where
  exclusive : ∀ page, (locks.holders page).Exclusive
  held : ∀ txn page, page ∈ locks.heldBy txn ↔ (locks.mode? txn page).isSome

variable {locks : LockTable} {txn other : TxnId} {page place : PageId} {mode : LockMode}

theorem consistent_empty : Consistent empty where
  exclusive _ := Holders.exclusive_none
  held txn page := by simp [mode?]

/-- Consistency is a matter of who holds what. -/
theorem Consistent.congr {after : LockTable} (consistent : Consistent locks)
    (holders : ∀ page, after.holders page = locks.holders page)
    (held : ∀ txn, after.heldBy txn = locks.heldBy txn) : Consistent after where
  exclusive page := by
    rw [holders]
    exact consistent.exclusive page
  held txn page := by
    rw [held, mode?, holders]
    exact consistent.held txn page

theorem Consistent.withGrant (consistent : Consistent locks) {granted : Holders}
    (ok : (locks.holders page).grant txn mode = .ok granted) :
    Consistent (locks.withGrant txn page granted) where
  exclusive place := by
    rw [holders_withGrant]
    split
    · exact (consistent.exclusive page).grant ok
    · exact consistent.exclusive place
  held other place := by
    have before := consistent.held other place
    rw [mode?] at before ⊢
    rw [heldBy_withGrant, holders_withGrant]
    rcases eq_or_ne place page with rfl | here
    · rw [if_pos rfl]
      rcases eq_or_ne other txn with rfl | same
      · rcases Holders.mode?_grant ok with mode | mode
        all_goals
          rw [if_pos rfl, mode]
          split <;> simp_all
      · rw [if_neg same, before, Holders.mode?_grant_of_ne ok same]
    · rw [if_neg here, ← before]
      rcases eq_or_ne other txn with rfl | same
      · rw [if_pos rfl]
        split <;> simp [here]
      · rw [if_neg same]

theorem Consistent.acquire (consistent : Consistent locks) (txn : TxnId) (page : PageId)
    (mode : LockMode) (overdue : Bool) :
    Consistent (locks.acquire txn page mode overdue).2 := by
  rcases acquire_grants_or_keeps locks txn page mode overdue with
    ⟨granted, ok, -, holders, held⟩ | ⟨-, holders, held⟩
  · exact (consistent.withGrant ok).congr holders held
  · exact consistent.congr holders held

theorem Consistent.retry (consistent : Consistent locks) (txn : TxnId) (overdue : Bool) :
    Consistent (locks.retry txn overdue).2 := by
  unfold LockTable.retry
  split
  · exact consistent
  · next request _ => exact consistent.acquire txn request.page request.mode overdue

theorem Consistent.release (consistent : Consistent locks) (txn : TxnId) (page : PageId) :
    Consistent (locks.release txn page) where
  exclusive place := by
    rw [holders_release]
    split
    · exact (consistent.exclusive page).remove txn
    · exact consistent.exclusive place
  held other place := by
    have before := consistent.held other place
    rw [mode?] at before ⊢
    rw [heldBy_release, holders_release]
    rcases eq_or_ne place page with rfl | here
    · rw [if_pos rfl, Holders.mode?_remove]
      rcases eq_or_ne other txn with rfl | same
      · simp
      · rw [if_neg same, if_neg same, before]
    · rw [if_neg here, ← before]
      rcases eq_or_ne other txn with rfl | same
      · simp [here]
      · rw [if_neg same]

/-- A transaction that ends lets go of every page. -/
theorem Consistent.holders_releaseAll (consistent : Consistent locks) (txn : TxnId)
    (page : PageId) : (locks.releaseAll txn).holders page = (locks.holders page).remove txn := by
  rw [LockTable.holders_releaseAll]
  split
  · rfl
  · next absent =>
    rw [consistent.held txn page, Option.not_isSome_iff_eq_none] at absent
    exact (Holders.remove_of_mode?_eq_none absent).symm

theorem Consistent.mode?_releaseAll (consistent : Consistent locks) (txn other : TxnId)
    (page : PageId) :
    (locks.releaseAll txn).mode? other page = if other = txn then none else locks.mode? other page := by
  rw [mode?, consistent.holders_releaseAll, Holders.mode?_remove]
  rfl

theorem Consistent.releaseAll (consistent : Consistent locks) (txn : TxnId) :
    Consistent (locks.releaseAll txn) where
  exclusive place := by
    rw [consistent.holders_releaseAll]
    exact (consistent.exclusive place).remove txn
  held other place := by
    rw [heldBy_releaseAll, consistent.mode?_releaseAll]
    by_cases same : other = txn
    · simp [same]
    · rw [if_neg same, if_neg same]
      exact consistent.held other place

theorem Consistent.step {after : LockTable} (consistent : Consistent locks)
    (step : Step locks after) : Consistent after := by
  cases step with
  | acquire txn page mode overdue _ => exact consistent.acquire txn page mode overdue
  | retry txn overdue => exact consistent.retry txn overdue
  | release txn page _ => exact consistent.release txn page
  | releaseAll txn _ => exact consistent.releaseAll txn

theorem Reachable.consistent (reached : Reachable locks) : Consistent locks := by
  induction reached with
  | refl => exact consistent_empty
  | tail _ step ih => exact ih.step step

/-- In every reachable lock table each page has no writer, or one writer and no readers; and the
pages recorded for a transaction are exactly those that it holds in some mode. -/
theorem writers_alone_and_held_pages_recorded (reached : Reachable locks) :
    (∀ page, (locks.holders page).writer = none ∨
      ∃ writer, (locks.holders page).writer = some writer ∧ (locks.holders page).readers = []) ∧
    ∀ txn page, page ∈ locks.heldBy txn ↔ (locks.mode? txn page).isSome := by
  refine ⟨fun page => ?_, reached.consistent.held⟩
  cases writer : (locks.holders page).writer with
  | none => exact .inl rfl
  | some w => exact .inr ⟨w, rfl, reached.consistent.exclusive page w writer⟩

/-- The statement above at a table that an exclusive lock, a wait, the end of the holder and a
second judgement of the waiting request lead to. -/
theorem writers_alone_and_held_pages_recorded_after_handover :
    let page : PageId := ⟨0, 0⟩
    let waiting := ((empty.acquire 0 page .exclusive false).2.acquire 1 page .shared false).2
    let locks := ((waiting.releaseAll 0).retry 1 false).2
    Reachable locks ∧ locks.mode? 1 page = some .shared ∧
      (∀ page, (locks.holders page).writer = none ∨
        ∃ writer, (locks.holders page).writer = some writer ∧ (locks.holders page).readers = []) ∧
      ∀ txn page, page ∈ locks.heldBy txn ↔ (locks.mode? txn page).isSome := by
  have reached : Reachable
      ((((empty.acquire 0 ⟨0, 0⟩ .exclusive false).2.acquire 1 ⟨0, 0⟩ .shared false).2.releaseAll
        0).retry 1 false).2 :=
    .tail (.tail (.tail (.tail .refl (.acquire 0 ⟨0, 0⟩ .exclusive false rfl))
      (.acquire 1 ⟨0, 0⟩ .shared false rfl)) (.releaseAll 0 rfl)) (.retry 1 false)
  exact ⟨reached, rfl, writers_alone_and_held_pages_recorded reached⟩

/-! ## Edges are those of waiting requests -/

/-- Who has edges in the wait-for graph has a waiting request. -/
def Recorded (locks : LockTable) : Prop :=
  ∀ txn, locks.isWaiting txn = false → locks.waits.get? txn = none

theorem Recorded.acquire (recorded : Recorded locks) (txn : TxnId) (page : PageId) (mode : LockMode)
    (overdue : Bool) : Recorded (locks.acquire txn page mode overdue).2 := by
  intro other idle
  rcases acquire_cases locks txn page mode overdue with
    ⟨granted, -, eq⟩ | ⟨blockers, -, ⟨-, eq⟩ | ⟨-, -, eq⟩ | ⟨-, -, eq⟩⟩
  all_goals
    rw [eq] at idle ⊢
    have before := recorded other
    simp only [isWaiting, Dictionary.contains, withGrant, Dictionary.get?_erase,
      Dictionary.get?_put] at idle before ⊢
    split
    · simp_all
    · simp_all

theorem Recorded.release (recorded : Recorded locks) (txn : TxnId) (page : PageId) :
    Recorded (locks.release txn page) := by
  intro other idle
  have same : (locks.release txn page).isWaiting other = locks.isWaiting other :=
    isWaiting_dropHolder _ txn page other
  have before := recorded other (same.symm.trans idle)
  simp only [LockTable.release, waits_dropHolder, WaitGraph.withoutTargetOn,
    Dictionary.get?_mapValues, before, Option.map_none]

/-- Who has no edges gets none when a transaction ends. -/
theorem waits_releaseAll_of_none {other : TxnId} (none : locks.waits.get? other = none)
    (txn : TxnId) : (locks.releaseAll txn).waits.get? other = .none := by
  simp only [LockTable.releaseAll, prune, WaitGraph.withoutTarget, waits_foldl_dropHolder,
    Dictionary.get?_mapValues, Dictionary.get?_erase, none, ite_self, Option.map_none]

theorem Recorded.releaseAll (recorded : Recorded locks) (txn : TxnId) :
    Recorded (locks.releaseAll txn) := by
  intro other idle
  have same : (locks.releaseAll txn).isWaiting other = locks.isWaiting other :=
    isWaiting_foldl_dropHolder txn (locks.heldBy txn) _ other
  exact waits_releaseAll_of_none (recorded other (same.symm.trans idle)) txn

/-! ## Locks that only grow -/

/-- The locks after a transaction asked for more: it keeps what it held, and so do all others. -/
structure Widens (txn : TxnId) (locks after : LockTable) : Prop where
  others : ∀ other page, other ≠ txn → after.mode? other page = locks.mode? other page
  mine : ∀ page mode, locks.mode? txn page = some mode →
    after.mode? txn page = some mode ∨ after.mode? txn page = some .exclusive
  consistent : locks.Consistent → after.Consistent
  recorded : locks.Recorded → after.Recorded

variable {after later : LockTable}

theorem Widens.refl (txn : TxnId) (locks : LockTable) : Widens txn locks locks :=
  ⟨fun _ _ _ => rfl, fun _ _ held => .inl held, id, id⟩

theorem Widens.exclusive (widens : Widens txn locks after)
    (held : locks.mode? txn page = some .exclusive) : after.mode? txn page = some .exclusive :=
  (widens.mine page _ held).elim id id

theorem Widens.trans (first : Widens txn locks after) (second : Widens txn after later) :
    Widens txn locks later where
  others other page ne := (second.others other page ne).trans (first.others other page ne)
  mine page mode held := by
    rcases first.mine page mode held with same | exclusive
    · exact second.mine page mode same
    · exact .inr (second.exclusive exclusive)
  consistent := second.consistent ∘ first.consistent
  recorded := second.recorded ∘ first.recorded

/-- Nobody loses an exclusive lock. -/
theorem Widens.keeps (widens : Widens txn locks after)
    (held : locks.mode? other page = some .exclusive) :
    after.mode? other page = some .exclusive := by
  rcases eq_or_ne other txn with rfl | same
  · exact widens.exclusive held
  · rw [widens.others other page same, held]

/-- Nobody loses a lock. -/
theorem Widens.holds (widens : Widens txn locks after) (held : locks.holds other page = true) :
    after.holds other page = true := by
  obtain ⟨mode, holds⟩ := Option.isSome_iff_exists.1 held
  rcases eq_or_ne other txn with rfl | ne
  · rcases widens.mine page mode holds with same | exclusive
    · rw [LockTable.holds, same]
      rfl
    · rw [LockTable.holds, exclusive]
      rfl
  · rw [LockTable.holds, widens.others other page ne]
    exact held

theorem Widens.acquire (locks : LockTable) (txn : TxnId) (page : PageId) (mode : LockMode)
    (overdue : Bool) : Widens txn locks (locks.acquire txn page mode overdue).2 := by
  refine ⟨fun other place ne => ?_, fun place kept held => ?_,
    fun consistent => consistent.acquire txn page mode overdue,
    fun recorded => recorded.acquire txn page mode overdue⟩
  all_goals
    rcases acquire_grants_or_keeps locks txn page mode overdue with
      ⟨granted, ok, -, holders, -⟩ | ⟨-, holders, -⟩
    all_goals simp only [mode?, holders, holders_withGrant] at *
  · split
    · next here => rw [here, Holders.mode?_grant_of_ne ok ne]
    · rfl
  · split
    · next here =>
      subst here
      cases kept with
      | exclusive =>
        rw [Holders.grant_of_exclusive held mode] at ok
        cases ok
        exact .inr held
      | shared =>
        rcases Holders.mode?_grant ok with now | now
        · cases mode with
          | shared => exact .inl now
          | exclusive => exact .inr now
        · exact .inr now
    · exact .inl held
  · exact .inl held

/-- A transaction that is granted a request holds the page, in the mode asked for or exclusively. -/
theorem mode?_acquire_of_granted {overdue : Bool}
    (granted : (locks.acquire txn page mode overdue).1 = .granted) :
    (locks.acquire txn page mode overdue).2.mode? txn page = some mode ∨
      (locks.acquire txn page mode overdue).2.mode? txn page = some .exclusive := by
  rcases acquire_grants_or_keeps locks txn page mode overdue with
    ⟨now, ok, -, holders, -⟩ | ⟨not, -⟩
  · rw [mode?, holders, holders_withGrant, if_pos rfl]
    exact Holders.mode?_grant ok
  · exact absurd granted not

/-- Giving back a lock that was not held before leaves everybody with the locks from before. -/
theorem Widens.release (widens : Widens txn locks after) (free : locks.mode? txn page = none) :
    Widens txn locks (after.release txn page) where
  others other place ne := by
    rw [mode?_release, if_neg fun h => ne h.2]
    exact widens.others other place ne
  mine place mode held := by
    have apart : ¬ (place = page ∧ txn = txn) := by
      rintro ⟨rfl, -⟩
      rw [free] at held
      cases held
    rw [mode?_release, if_neg apart]
    exact widens.mine place mode held
  consistent consistent := (widens.consistent consistent).release txn page
  recorded recorded := (widens.recorded recorded).release txn page

end PageStore.LockTable
