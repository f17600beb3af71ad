import PageStore.Proofs.Lock.Waiting

/-!
# What a refused request leaves

A request that is refused has recorded its edges before the search for a cycle, and they have to
leave the graph again whether the search refuses it or the bound on waits.  `acquire_of_refused`
says what is left: the table from before, without the edges and without the request of the
transaction that asked.  So everybody holds what it held and as it did, and all others wait for whom
they waited for (`Declines`).

A transaction that asks anew has neither edges nor a request in a reachable table, so its refusal
leaves the very table that it asked (`refused_requests_change_nothing`).
-/

namespace PageStore.LockTable

variable {locks after : LockTable} {txn : TxnId} {page : PageId} {mode : LockMode} {overdue : Bool}
  {cause : Error}

/-- A refusal names its transaction and its page, and takes back what the request recorded. -/
theorem acquire_of_refused (refused : (locks.acquire txn page mode overdue).1 = .refused cause) :
    (cause = .wouldDeadlock txn page ∨ cause = .timedOut txn page) ∧
      (locks.acquire txn page mode overdue).2 =
        { locks with waits := locks.waits.erase txn, requests := locks.requests.erase txn } := by
  rcases acquire_cases locks txn page mode overdue with
    ⟨granted, -, eq⟩ | ⟨blockers, -, ⟨-, eq⟩ | ⟨-, -, eq⟩ | ⟨-, -, eq⟩⟩
  all_goals rw [eq] at refused ⊢
  · cases refused
  · cases refused
    exact ⟨.inl rfl, by rw [Dictionary.erase_put]⟩
  · cases refused
    exact ⟨.inr rfl, by rw [Dictionary.erase_put]⟩
  · cases refused

/-- The locks after a request of a transaction was declined.  Every page has the holders that it had,
in the modes that they had, and every transaction the pages that it had; all others have the edges
and the requests that they had; and the transaction has neither. -/
structure Declines (txn : TxnId) (locks after : LockTable) : Prop where
  holders : ∀ page, after.holders page = locks.holders page
  mode : ∀ other page, after.mode? other page = locks.mode? other page
  held : ∀ other, after.heldBy other = locks.heldBy other
  waits : ∀ other, other ≠ txn → after.waits.get? other = locks.waits.get? other
  requests : ∀ other, other ≠ txn → after.requests.get? other = locks.requests.get? other
  edgeless : after.waits.get? txn = none
  idle : after.isWaiting txn = false

/-- Forgetting what a transaction waits for is no matter of who holds what. -/
theorem declines_erase (txn : TxnId) (locks : LockTable) :
    Declines txn locks
      { locks with waits := locks.waits.erase txn, requests := locks.requests.erase txn } where
  holders _ := rfl
  mode _ _ := rfl
  held _ := rfl
  waits other ne := by rw [Dictionary.get?_erase, if_neg ne]
  requests other ne := by rw [Dictionary.get?_erase, if_neg ne]
  edgeless := by rw [Dictionary.get?_erase, if_pos rfl]
  idle := by simp [isWaiting, Dictionary.contains]

theorem declines_of_refused (refused : (locks.acquire txn page mode overdue).1 = .refused cause) :
    Declines txn locks (locks.acquire txn page mode overdue).2 := by
  rw [(acquire_of_refused refused).2]
  exact declines_erase txn locks

/-- Who does not wait leaves no trace of a request that is refused. -/
theorem Tracked.acquire_of_refused (tracked : Tracked locks) (free : locks.isWaiting txn = false)
    (refused : (locks.acquire txn page mode overdue).1 = .refused cause) :
    (locks.acquire txn page mode overdue).2 = locks := by
  have unasked : locks.requests.get? txn = none := by
    simpa [isWaiting, Dictionary.contains] using free
  rw [(LockTable.acquire_of_refused refused).2,
    Dictionary.erase_of_get?_eq_none (tracked.waits_eq_none free),
    Dictionary.erase_of_get?_eq_none unasked]

/-- Whatever led to a lock table: a new request that is refused, because it would close a cycle or
because its transaction is overdue, leaves the table as it was.  A waiting request that is refused
when it is judged again leaves every page with its holders and their modes, every transaction with
its pages, and all others with their edges and requests, and its own transaction with neither. -/
theorem refused_requests_change_nothing (reached : Reachable locks) :
    (∀ txn page mode overdue cause, locks.isWaiting txn = false →
      (locks.acquire txn page mode overdue).1 = .refused cause →
        cause.kind = .deadlock ∧ (locks.acquire txn page mode overdue).2 = locks ∧
          Declines txn locks (locks.acquire txn page mode overdue).2) ∧
    ∀ txn overdue cause, (locks.retry txn overdue).1 = some (.refused cause) →
      cause.kind = .deadlock ∧ Declines txn locks (locks.retry txn overdue).2 := by
  have kind {txn : TxnId} {page : PageId} {cause : Error}
      (named : cause = .wouldDeadlock txn page ∨ cause = .timedOut txn page) :
      cause.kind = .deadlock := by
    rcases named with rfl | rfl <;> rfl
  refine ⟨fun txn page mode overdue cause free refused => ?_, fun txn overdue cause refused => ?_⟩
  · exact ⟨kind (acquire_of_refused refused).1, reached.tracked.acquire_of_refused free refused,
      declines_of_refused refused⟩
  · unfold retry at refused ⊢
    split at refused
    · cases refused
    · next request waiting =>
      have refused := Option.some.inj refused
      exact ⟨kind (acquire_of_refused refused).1, declines_of_refused refused⟩

/-- The statement above where two readers of a page ask to write it: the first waits for the second,
so the second is refused for the cycle, and the first once it is overdue. -/
theorem refused_requests_change_nothing_of_rival_readers :
    let page : PageId := ⟨0, 0⟩
    let reading := ((empty.acquire 0 page .shared false).2.acquire 1 page .shared false).2
    let locks := (reading.acquire 0 page .exclusive false).2
    (Reachable locks ∧ locks.isWaiting 1 = false) ∧
      ((locks.acquire 1 page .exclusive false).1 = .refused (.wouldDeadlock 1 page) ∧
        (locks.acquire 1 page .exclusive false).2 = locks ∧ locks.mode? 1 page = some .shared) ∧
      ((locks.retry 0 true).1 = some (.refused (.timedOut 0 page)) ∧
        Declines 0 locks (locks.retry 0 true).2 ∧
        (locks.retry 0 true).2.mode? 0 page = some .shared) := by
  intro page reading locks
  have reached : Reachable locks :=
    .tail (.tail (.tail .refl (.acquire 0 page .shared false (by decide)))
      (.acquire 1 page .shared false (by decide))) (.acquire 0 page .exclusive false (by decide))
  have free : locks.isWaiting 1 = false := by decide
  have cycle : (locks.acquire 1 page .exclusive false).1 = .refused (.wouldDeadlock 1 page) := by
    decide +kernel
  have late : (locks.retry 0 true).1 = some (.refused (.timedOut 0 page)) := by decide +kernel
  obtain ⟨new, woken⟩ := refused_requests_change_nothing reached
  have same := (new 1 page .exclusive false _ free cycle).2.1
  have declines := (woken 0 true _ late).2
  have reads : locks.mode? 0 page = some .shared := by decide +kernel
  exact ⟨⟨reached, free⟩, ⟨cycle, same, by decide +kernel⟩,
    ⟨late, declines, (declines.mode 0 page).trans reads⟩⟩

end PageStore.LockTable
