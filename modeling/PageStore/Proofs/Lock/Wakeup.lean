import PageStore.Proofs.Lock.Deadlock

/-!
# No wake-up is lost

A waiting request is judged again after a holder let go of its page, and at no other time has it a
reason to be: whatever else happens to the locks, the request could still not be granted.

Who blocks a request is what a judgement names (`Holders.Exclusive.blocks_iff_mem`), and a request
that somebody blocks is not granted (`Holders.Exclusive.not_blocks_of_grant`).  A request that was
not woken since it was last judged has a blocker left (`Tracked.exists_blocks`).  So once all woken
requests were judged again, in whatever order, each of those that still wait conflicts with a holder
of its page (`waiting_requests_conflict`).
-/

namespace PageStore

/-! ## Blockers and grants -/

namespace Holders

variable {holders granted : Holders} {txn holder : TxnId} {mode : LockMode} {blockers : List TxnId}

/-- Who blocks a request writes the page, or reads a page that is asked for exclusively. -/
theorem Blocks.writes_or_reads (blocks : holders.Blocks holder txn mode) :
    holders.writer = some holder ∨ mode = .exclusive ∧ holder ∈ holders.readers := by
  obtain ⟨-, held, holds, conflict⟩ := blocks
  by_cases writes : holders.writer = some holder
  · exact .inl writes
  · rw [mode?, if_neg writes] at holds
    split at holds
    · next reads =>
      cases holds
      exact .inr ⟨conflict.resolve_right (by decide), reads⟩
    · cases holds

/-- A request that somebody blocks is not granted. -/
theorem Exclusive.not_blocks_of_grant (exclusive : holders.Exclusive)
    (ok : holders.grant txn mode = .ok granted) : ¬ holders.Blocks holder txn mode := by
  intro blocks
  have ne := blocks.1
  rcases grant_ok_cases ok with ⟨mine, -⟩ | ⟨free, rfl, -, -⟩ | ⟨free, rfl, -⟩ | ⟨free, -, alone, -⟩
  all_goals rcases blocks.writes_or_reads with writes | ⟨asked, reads⟩
  · rw [mine] at writes
    cases writes
    exact ne rfl
  · rw [exclusive txn mine] at reads
    cases reads
  · rw [free] at writes
    cases writes
  · cases asked
  · rw [free] at writes
    cases writes
  · cases asked
  · rw [free] at writes
    cases writes
  · exact ne (alone holder reads)

/-- A request that is not granted is told of all who block it, and of nobody else. -/
theorem Exclusive.blocks_iff_mem (exclusive : holders.Exclusive)
    (refused : holders.grant txn mode = .error blockers) :
    holders.Blocks holder txn mode ↔ holder ∈ blockers := by
  refine ⟨fun blocks => ?_, (blocks_of_grant_error refused).2 holder⟩
  have ne := blocks.1
  rcases grant_error_cases refused with ⟨writer, writes, -, rfl⟩ | ⟨free, -, -, others⟩
  all_goals rcases blocks.writes_or_reads with mine | ⟨-, reads⟩
  · rw [writes] at mine
    cases mine
    exact List.mem_singleton_self _
  · rw [exclusive writer writes] at reads
    cases reads
  · rw [free] at mine
    cases mine
  · exact (others holder).2 ⟨reads, ne⟩

end Holders

/-! ## Requests that go on waiting -/

namespace LockTable

variable {locks : LockTable} {txn : TxnId} {request : Request}

/-- Somebody blocks a waiting request that was not woken since it was last judged. -/
theorem Tracked.exists_blocks (tracked : Tracked locks)
    (waiting : locks.requests.get? txn = some request) (asleep : request.woken = false) :
    ∃ holder, locks.Blocks holder txn request.page request.mode := by
  obtain ⟨wait, -, tracks⟩ := tracked.exists_wait waiting
  obtain ⟨holder, mem⟩ := List.exists_mem_of_ne_nil _ (tracks.blocked asleep)
  exact ⟨holder, tracks.blocks holder mem⟩

/-- Whatever led to a lock table and in whatever order its woken requests are judged again: every
request that waits after that conflicts with a holder of its page, which is another transaction that
writes the page or, if the request is exclusive, reads it; and it would not be granted. -/
theorem waiting_requests_conflict (reached : Reachable locks) (overdue : TxnId → Bool)
    {order : List TxnId} (all : ∀ txn ∈ locks.wokenTxns, txn ∈ order) :
    ∀ txn request, (retryAll overdue order locks).2.requests.get? txn = some request →
      ((∃ writer, ((retryAll overdue order locks).2.holders request.page).writer = some writer ∧
          writer ≠ txn) ∨
        request.mode = .exclusive ∧
          ∃ reader ∈ ((retryAll overdue order locks).2.holders request.page).readers,
            reader ≠ txn) ∧
      ∀ granted, ((retryAll overdue order locks).2.holders request.page).grant txn request.mode ≠
        .ok granted := by
  intro txn request waiting
  have tracked := (reached.retryAll overdue order).tracked
  obtain ⟨holder, blocks⟩ := tracked.exists_blocks waiting (asleep_retryAll all waiting)
  refine ⟨?_, fun granted ok => ?_⟩
  · rcases Holders.Blocks.writes_or_reads blocks with writes | ⟨asked, reads⟩
    · exact .inl ⟨holder, writes, blocks.1⟩
    · exact .inr ⟨asked, holder, reads, blocks.1⟩
  · exact (tracked.consistent.exclusive request.page).not_blocks_of_grant ok blocks

/-- The statement above when a writer ends for whom two transactions wait, and the one that is judged
first becomes the next writer. -/
theorem waiting_requests_conflict_after_handover :
    let page : PageId := ⟨0, 0⟩
    let written := (empty.acquire 0 page .exclusive false).2
    let waiting := ((written.acquire 1 page .shared false).2.acquire 2 page .exclusive false).2
    let locks := waiting.releaseAll 0
    (Reachable locks ∧ locks.wokenTxns = [1, 2]) ∧
      (retryAll (fun _ => false) [2, 1] locks).2.requests.get? 1 = some ⟨page, .shared, false⟩ ∧
      ((∃ writer, ((retryAll (fun _ => false) [2, 1] locks).2.holders page).writer = some writer ∧
          writer ≠ 1) ∨
        LockMode.shared = .exclusive ∧
          ∃ reader ∈ ((retryAll (fun _ => false) [2, 1] locks).2.holders page).readers,
            reader ≠ 1) ∧
      ∀ granted, ((retryAll (fun _ => false) [2, 1] locks).2.holders page).grant 1 .shared ≠
        .ok granted := by
  intro page written waiting locks
  have reached : Reachable locks :=
    .tail (.tail (.tail (.tail .refl
      (.acquire 0 page .exclusive false (by decide))) (.acquire 1 page .shared false (by decide)))
      (.acquire 2 page .exclusive false (by decide))) (.releaseAll 0 (by decide))
  have woken : locks.wokenTxns = [1, 2] := by decide +kernel
  have all : ∀ txn ∈ locks.wokenTxns, txn ∈ [2, 1] := by
    rw [woken]
    decide
  have waits : (retryAll (fun _ => false) [2, 1] locks).2.requests.get? 1 =
      some ⟨page, .shared, false⟩ := by decide +kernel
  have conflict := waiting_requests_conflict reached (fun _ => false) all 1 _ waits
  exact ⟨⟨reached, woken⟩, waits, conflict⟩

end LockTable

end PageStore
