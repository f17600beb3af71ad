import PageStore.Proofs.Schedule.Handles

/-!
# What a failed fetch leaves

A fetch takes the lock of its page before it loads the page.  Where it fails it gives back what it
took, if its transaction did not hold the page before, so that nothing has changed but the requests
that wait (`Store.fetch_error`).

There is one exception.  A lock is given back whole or kept as it is, never weakened.  So a
transaction that reads a page alone and asks to write it becomes its writer (`Holders.Converts`), and
stays its writer where the page cannot be loaded (`System.failed_fetch_leaves_conversion`).  This
takes a page that is held but not cached, as one is that was discarded.
-/

namespace PageStore

namespace Holders

variable {holders granted : Holders} {txn other : TxnId} {mode : LockMode}

/-- A transaction reads the page, alone, and asks to write it. -/
def Converts (holders : Holders) (txn : TxnId) (mode : LockMode) : Prop :=
  mode = .exclusive ∧ holders.mode? txn = some .shared ∧
    ∀ other, other ≠ txn → holders.mode? other = .none

/-- The only reader of a page becomes its writer when it asks to. -/
theorem Converts.exists_grant (converts : holders.Converts txn mode) :
    ∃ granted, holders.grant txn mode = .ok granted ∧ granted.mode? txn = some .exclusive := by
  obtain ⟨rfl, reads, alone⟩ := converts
  cases asked : holders.grant txn .exclusive with
  | ok granted => exact ⟨granted, rfl, (mode?_grant asked).elim id id⟩
  | error blockers =>
    obtain ⟨some, blocks⟩ := blocks_of_grant_error asked
    obtain ⟨blocker, mem⟩ := List.exists_mem_of_ne_nil blockers some
    obtain ⟨ne, held, holds, -⟩ := blocks blocker mem
    rw [alone blocker ne] at holds
    cases holds

/-- Who is granted a page that it holds already holds it as before, unless it becomes its writer. -/
theorem Exclusive.mode?_grant_of_held (exclusive : holders.Exclusive)
    (ok : holders.grant txn mode = .ok granted) (held : (holders.mode? txn).isSome)
    (fixed : ¬ holders.Converts txn mode) : granted.mode? txn = holders.mode? txn := by
  obtain ⟨before, holds⟩ := Option.isSome_iff_exists.1 held
  cases before with
  | exclusive =>
    obtain rfl : holders = granted := Except.ok.inj ((grant_of_exclusive holds mode).symm.trans ok)
    rfl
  | shared =>
    cases mode with
    | shared =>
      obtain rfl : holders = granted :=
        Except.ok.inj ((exclusive.grant_of_shared holds).symm.trans ok)
      rfl
    | exclusive =>
      refine absurd ⟨rfl, holds, fun other ne => ?_⟩ fixed
      -- The grant makes the transaction the writer, so nobody else holds the page before or after.
      have writes : granted.mode? txn = some .exclusive := (mode?_grant ok).elim id id
      rw [← mode?_grant_of_ne ok ne, ← Option.not_isSome_iff_eq_none]
      exact fun holds => ne ((exclusive.grant ok).eq_of_mode? writes holds)

end Holders

namespace Store

variable {s after : Store} {txn : TxnId} {page : PageId} {mode : LockMode} {stop : Stop}

/-- A store after a fetch of a page has failed, however it failed.  Everybody holds what it held, and
as it did, unless the fetch has made the only reader of its page the writer. -/
structure Unfetched (txn : TxnId) (page : PageId) (mode : LockMode) (s after : Store) : Prop where
  same : after = { s with locks := after.locks }
  others : ∀ other place, other ≠ txn ∨ place ≠ page →
    after.locks.mode? other place = s.locks.mode? other place
  kept : ¬ (s.locks.holders page).Converts txn mode →
    after.locks.mode? txn page = s.locks.mode? txn page
  converted : (s.locks.holders page).Converts txn mode →
    after.locks.mode? txn page = some .exclusive

/-- A request that conflicts with the holders of its page leaves who holds what as it was. -/
theorem acquire_blocked {blockers : List TxnId}
    (blocked : (s.locks.holders page).grant txn mode = .error blockers) :
    ∃ stop locks, acquire txn page mode s = .error stop { s with locks := locks } ∧
      ∀ place, locks.holders place = s.locks.holders place := by
  unfold acquire
  rcases LockTable.acquire_cases s.locks txn page mode (s.overdue txn) with
    ⟨granted, ok, -⟩ | ⟨_, -, ⟨-, eq⟩ | ⟨-, -, eq⟩ | ⟨-, -, eq⟩⟩
  · cases blocked.symm.trans ok
  all_goals
    rw [eq]
    exact ⟨_, _, rfl, fun _ => rfl⟩

/-- A fetch that fails once its lock was granted keeps the lock if its transaction held the page, and
gives it back if not. -/
theorem unfetched_of_grant {granted : Holders} {locks : LockTable}
    (exclusive : (s.locks.holders page).Exclusive)
    (ok : (s.locks.holders page).grant txn mode = .ok granted)
    (puts : s.locks.Puts txn page granted locks) :
    Unfetched txn page mode s
      (if s.locks.holds txn page then { s with locks := locks }
        else release txn page { s with locks := locks }) := by
  have mine : locks.mode? txn page = granted.mode? txn := by
    rw [LockTable.mode?, puts.here]
  have others (other : TxnId) (place : PageId) (apart : other ≠ txn ∨ place ≠ page) :
      locks.mode? other place = s.locks.mode? other place := by
    unfold LockTable.mode?
    by_cases here : place = page
    · rw [here, puts.here]
      exact Holders.mode?_grant_of_ne ok (apart.resolve_right (not_not_intro here))
    · rw [puts.elsewhere place here]
  split
  · next held =>
    refine ⟨rfl, others, fun fixed => ?_, fun converts => ?_⟩
    · exact mine.trans (exclusive.mode?_grant_of_held ok held fixed)
    · obtain ⟨_, ok', writes⟩ := converts.exists_grant
      exact mine.trans (Except.ok.inj (ok.symm.trans ok') ▸ writes)
  · next free =>
    have free : s.locks.mode? txn page = none := by simpa [LockTable.holds] using free
    have given (other : TxnId) (place : PageId) :
        (locks.release txn page).mode? other place =
          if place = page ∧ other = txn then none else locks.mode? other place :=
      LockTable.mode?_release ..
    refine ⟨rfl, fun other place apart => ?_, fun _ => ?_, fun converts => ?_⟩
    · have ne : ¬ (place = page ∧ other = txn) := fun both =>
        apart.elim (fun ne => ne both.2) fun ne => ne both.1
      exact (given other place).trans ((if_neg ne).trans (others other place apart))
    · exact (given txn page).trans ((if_pos ⟨rfl, rfl⟩).trans free.symm)
    · cases free.symm.trans converts.2.1

/-- What a fetch leaves that fails, whether for its lock or while it loads the page. -/
theorem fetch_error (consistent : s.locks.Consistent)
    (fails : fetch txn page mode s = .error stop after) : Unfetched txn page mode s after := by
  cases asked : (s.locks.holders page).grant txn mode with
  | ok granted =>
    obtain ⟨locks, gives, puts⟩ := acquire_granted s asked
    cases loaded : load page { s with locks := locks } with
    | ok frame later => cases (fetch_of_loaded gives loaded).symm.trans fails
    | error reason later =>
      obtain rfl : later = { s with locks := locks } := (load_leads _ page).of_error loaded
      cases (fetch_of_unloaded gives loaded).symm.trans fails
      exact unfetched_of_grant (consistent.exclusive page) asked puts
  | error blockers =>
    obtain ⟨_, locks, refuses, same⟩ := acquire_blocked asked
    cases (fetch_of_refused refuses).symm.trans fails
    have modes (other : TxnId) (place : PageId) :
        locks.mode? other place = s.locks.mode? other place := by
      rw [LockTable.mode?, same]
      rfl
    refine ⟨rfl, fun other place _ => modes other place, fun _ => modes txn page, fun converts => ?_⟩
    obtain ⟨_, ok, -⟩ := converts.exists_grant
    cases asked.symm.trans ok

end Store

open Store

namespace System

variable {start sys : System} {txn : TxnId} {page : PageId} {mode : LockMode} {after : Store}
  {stop : Stop}

/-- A fetch that fails leaves the files, the log and the cache as they were, and everybody holds
every page as before; except that a transaction that was the only reader of the page, and asked to
write it, is its writer now. -/
theorem failed_fetch_undoes_all_but_conversion (fresh : start.Fresh) (becomes : Becomes start sys)
    (fails : Store.fetch txn page mode sys.store = .error stop after) :
    Unfetched txn page mode sys.store after :=
  fetch_error (becomes.steady fresh).2.consistent fails

/-! ## The exception -/

/-- The page that is held and not cached in the system below. -/
def discarded : PageId := ⟨smallFile.table, 0⟩

/-- A system over two empty files, with a cache of one page. -/
def narrow : System := { paired with store := { paired.store with capacity := 1 } }

theorem narrow_fresh : narrow.Fresh := { paired_fresh with }

/-- One transaction reads a page that was discarded since, and another reads the page that is cached
instead. -/
def crowded : System :=
  narrow.acts
    [.begin, .demand 0 (.insert smallFile.table ⟨[.int 7], none⟩), .advance 0, .commit 0,
      .begin, .demand 1 (.insert otherFile.table ⟨[.int 8], none⟩), .advance 1, .commit 1,
      .begin, .demand 2 (.fetch discarded .shared), .advance 2, .discard discarded,
      .begin, .demand 3 (.fetch ⟨otherFile.table, 0⟩ .shared), .advance 3]

theorem crowded_becomes : Becomes narrow crowded :=
  (run_acts narrow fun _ _ _ => trivial).becomes

/-- The statement above where a reader joins another, and the page cannot be loaded. -/
theorem failed_fetch_undoes_all_but_conversion_of_joining_reader :
    crowded.store.locks.mode? 2 discarded = some .shared ∧
      crowded.store.locks.mode? 3 discarded = none ∧
      ∃ after, Store.fetch 3 discarded .shared crowded.store =
          .error (.failed (.cacheExhausted 1)) after ∧
        Unfetched 3 discarded .shared crowded.store after := by
  obtain ⟨after, fails⟩ : ∃ after, Store.fetch 3 discarded .shared crowded.store =
      .error (.failed (.cacheExhausted 1)) after := Op.exists_of_answer_error (by decide +kernel)
  exact ⟨by decide +kernel, by decide +kernel, after, fails,
    failed_fetch_undoes_all_but_conversion narrow_fresh crowded_becomes fails⟩

/-- A reader that asks to write a page alone is left its writer, though the fetch failed. -/
theorem failed_fetch_leaves_conversion :
    narrow.Fresh ∧ Becomes narrow crowded ∧
      crowded.store.locks.mode? 2 discarded = some .shared ∧
      ∃ after, Store.fetch 2 discarded .exclusive crowded.store =
          .error (.failed (.cacheExhausted 1)) after ∧
        after.locks.mode? 2 discarded = some .exclusive := by
  obtain ⟨after, fails⟩ : ∃ after, Store.fetch 2 discarded .exclusive crowded.store =
      .error (.failed (.cacheExhausted 1)) after := Op.exists_of_answer_error (by decide +kernel)
  refine ⟨narrow_fresh, crowded_becomes, by decide +kernel, after, fails, ?_⟩
  have modes : (Op.final (Store.fetch 2 discarded .exclusive crowded.store)).locks.mode? 2 discarded =
      some .exclusive := by decide +kernel
  rwa [fails] at modes

end System

end PageStore
