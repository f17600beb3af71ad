import Mathlib.Data.Set.Finite.Basic
import Mathlib.Order.Preorder.Finite
import PageStore.Proofs.Lock.Waiting

/-!
# Deadlocks are real, and none lasts

A transaction waits for another if the other blocks its waiting request now
(`LockTable.WaitsFor`).  A request closes a cycle (`LockTable.ClosesCycle`) if somebody who
blocks it waits, perhaps by way of others, for the transaction that asks.  Both are about locks that are
held, not about recorded edges.

A request is refused for a deadlock only if it closes a cycle (`refused_requests_close_cycles`).
The recorded graph had no cycle before, so what the search found leads through the transaction
that asks; and every recorded edge stands for a lock that is held now (`Tracked.waitsFor`).

Once all woken requests were judged again, in whatever order, none is woken any more
(`asleep_retryAll`), and so every waiting transaction has an edge.  The edges have no cycle and
only finitely many transactions have any, so whoever follows them comes to a transaction that does
not wait (`WaitGraph.Acyclic.exists_leaves`): while somebody waits, somebody runs
(`waiting_leads_to_running`).
-/

namespace PageStore

open Relation (ReflTransGen TransGen)

/-! ## Following edges -/

namespace WaitGraph

variable {graph : WaitGraph}

/-- Nobody follows the edges of a graph without cycles for ever. -/
theorem Acyclic.exists_leaves (acyclic : graph.Acyclic) (walk : Nat → TxnId) :
    ∃ n, ¬ graph.Edge (walk n) (walk (n + 1)) := by
  by_contra endless
  simp only [not_exists, not_not] at endless
  have waiting : ∀ n, walk n ∈ {txn | txn ∈ graph.keys} := fun n => (endless n).mem_keys
  obtain ⟨first, again, before, same⟩ :=
    Set.Finite.exists_lt_map_eq_of_forall_mem waiting (List.finite_toSet graph.keys)
  have leads : TransGen graph.Edge (walk first) (walk again) :=
    Nat.rel_of_forall_rel_succ_of_lt _ (fun n => .single (endless n)) before
  rw [← same] at leads
  exact acyclic _ leads

/-- From everywhere the edges lead to a transaction that has none. -/
theorem Acyclic.exists_end (acyclic : graph.Acyclic) (txn : TxnId) :
    ∃ last, ReflTransGen graph.Edge txn last ∧ graph.targets last = [] := by
  by_contra none
  simp only [not_exists, not_and] at none
  -- The walk takes the first edge wherever it is; it always finds one, so it never ends.
  let next (txn : TxnId) : TxnId := (graph.targets txn).headD txn
  have onward : ∀ last, ReflTransGen graph.Edge txn last → graph.Edge last (next last) := by
    intro last reached
    obtain ⟨head, tail, targets⟩ := List.exists_cons_of_ne_nil (none last reached)
    simp [Edge, next, targets]
  have reached : ∀ n, ReflTransGen graph.Edge txn (next^[n] txn) := by
    intro n
    induction n with
    | zero => exact .refl
    | succ n ih =>
      rw [Function.iterate_succ_apply']
      exact ih.tail (onward _ ih)
  obtain ⟨n, leaves⟩ := acyclic.exists_leaves fun n => next^[n] txn
  rw [Function.iterate_succ_apply'] at leaves
  exact leaves (onward _ (reached n))

end WaitGraph

namespace LockTable

variable {locks : LockTable} {txn other holder target : TxnId} {page place : PageId}
  {mode : LockMode} {request : Request} {overdue : Bool}

/-! ## Refusals -/

/-- A transaction has a waiting request that another blocks. -/
def WaitsFor (locks : LockTable) (txn holder : TxnId) : Prop :=
  ∃ request, locks.requests.get? txn = some request ∧
    locks.Blocks holder txn request.page request.mode

/-- A request is blocked by somebody who waits, perhaps by way of others, for the transaction that
asks. -/
def ClosesCycle (locks : LockTable) (txn : TxnId) (page : PageId) (mode : LockMode) : Prop :=
  ∃ first, locks.Blocks first txn page mode ∧ TransGen locks.WaitsFor first txn

/-- A recorded edge stands for a lock that is held. -/
theorem Tracked.waitsFor (tracked : Tracked locks) (edge : locks.waits.Edge txn target) :
    locks.WaitsFor txn target := by
  obtain ⟨wait, recorded, mem⟩ := WaitGraph.edge_iff.1 edge
  obtain ⟨request, waiting, tracks⟩ := tracked.exists_request recorded
  exact ⟨request, waiting, tracks.blocks target mem⟩

theorem Tracked.closesCycle (tracked : Tracked locks)
    (refused : (locks.acquire txn page mode overdue).1 = .refused (.wouldDeadlock other place)) :
    locks.ClosesCycle txn page mode := by
  rcases acquire_cases locks txn page mode overdue with
    ⟨granted, -, eq⟩ | ⟨blockers, blocked, ⟨found, eq⟩ | ⟨-, -, eq⟩ | ⟨-, -, eq⟩⟩
  all_goals rw [eq] at refused
  · cases refused
  · obtain ⟨first, mem, back⟩ := tracked.acyclic.exists_return found
    have blocks := (Holders.blocks_of_grant_error blocked).2 first mem
    refine ⟨first, blocks, ?_⟩
    rcases Relation.reflTransGen_iff_eq_or_transGen.1 back with same | back
    · exact absurd same.symm blocks.1
    · have real : ∀ waiting target, WaitGraph.Edge (locks.waits.erase txn) waiting target →
          locks.WaitsFor waiting target :=
        fun _ _ edge => tracked.waitsFor (WaitGraph.edge_erase.1 edge).2
      exact TransGen.mono real _ _ back
  · cases refused
  · cases refused

/-- If a request is refused for a deadlock, whether it is new or was woken, then it closes a cycle
of transactions of which each waits for a page that the next holds in a conflicting mode. -/
theorem refused_requests_close_cycles (reached : Reachable locks) :
    (∀ txn page mode overdue,
      (locks.acquire txn page mode overdue).1 = .refused (.wouldDeadlock txn page) →
        locks.ClosesCycle txn page mode) ∧
    ∀ txn request overdue, locks.requests.get? txn = some request →
      (locks.retry txn overdue).1 = some (.refused (.wouldDeadlock txn request.page)) →
        locks.ClosesCycle txn request.page request.mode := by
  refine ⟨fun txn page mode overdue refused => reached.tracked.closesCycle refused, ?_⟩
  intro txn request overdue waiting refused
  simp only [retry, waiting, Option.some.injEq] at refused
  exact reached.tracked.closesCycle refused

/-- The statement above for a request that is woken and then blocked by a reader that came later. -/
theorem refused_requests_close_cycles_on_waking :
    let p : PageId := ⟨0, 0⟩
    let q : PageId := ⟨0, 1⟩
    let held := ((empty.acquire 0 p .shared false).2.acquire 1 q .exclusive false).2
    let waiting := ((held.acquire 1 p .exclusive false).2.acquire 2 p .shared false).2
    let locks := (waiting.acquire 2 q .exclusive false).2.release 0 p
    Reachable locks ∧ locks.requests.get? 1 = some ⟨p, .exclusive, true⟩ ∧
      (locks.retry 1 false).1 = some (.refused (.wouldDeadlock 1 p)) ∧
      locks.ClosesCycle 1 p .exclusive := by
  intro p q held waiting locks
  have reached : Reachable locks :=
    .tail (.tail (.tail (.tail (.tail (.tail .refl
      (.acquire 0 p .shared false (by decide))) (.acquire 1 q .exclusive false (by decide)))
      (.acquire 1 p .exclusive false (by decide))) (.acquire 2 p .shared false (by decide)))
      (.acquire 2 q .exclusive false (by decide))) (.release 0 p (by decide))
  have woken : locks.requests.get? 1 = some ⟨p, .exclusive, true⟩ := by decide +kernel
  have refused : (locks.retry 1 false).1 = some (.refused (.wouldDeadlock 1 p)) := by
    decide +kernel
  have closes := (refused_requests_close_cycles reached).2 1 _ false woken refused
  exact ⟨reached, woken, refused, closes⟩

/-! ## Judging all woken requests -/

theorem mem_wokenTxns :
    txn ∈ locks.wokenTxns ↔
      ∃ request, locks.requests.get? txn = some request ∧ request.woken = true := by
  rw [wokenTxns, Dictionary.mem_keys_iff, Dictionary.get?_filter]
  cases locks.requests.get? txn with
  | none => simp
  | some request => cases woken : request.woken <;> simp [Option.filter, woken]

/-- Judging a request leaves the others as they are. -/
theorem requests_acquire_of_ne (ne : other ≠ txn) :
    (locks.acquire txn page mode overdue).2.requests.get? other = locks.requests.get? other := by
  rcases acquire_cases locks txn page mode overdue with
    ⟨granted, -, eq⟩ | ⟨blockers, -, ⟨-, eq⟩ | ⟨-, -, eq⟩ | ⟨-, -, eq⟩⟩
  all_goals simp [eq, ne]

/-- A request that was judged and still waits is not woken. -/
theorem asleep_acquire
    (left : (locks.acquire txn page mode overdue).2.requests.get? txn = some request) :
    request.woken = false := by
  rcases acquire_cases locks txn page mode overdue with
    ⟨granted, -, eq⟩ | ⟨blockers, -, ⟨-, eq⟩ | ⟨-, -, eq⟩ | ⟨-, -, eq⟩⟩
  all_goals simp only [eq, Dictionary.get?_erase, Dictionary.get?_put, if_true] at left
  case inr.inr.inr =>
    cases left
    rfl
  all_goals cases left

theorem requests_retry_of_ne (ne : other ≠ txn) :
    (locks.retry txn overdue).2.requests.get? other = locks.requests.get? other := by
  unfold retry
  split
  · rfl
  · exact requests_acquire_of_ne ne

theorem asleep_retry
    (left : (locks.retry txn overdue).2.requests.get? txn = some request) :
    request.woken = false := by
  unfold retry at left
  split at left
  · next free => exact absurd left (by simp [free])
  · exact asleep_acquire left

theorem retryAll_cons_snd (overdue : TxnId → Bool) (txn : TxnId) (txns : List TxnId)
    (locks : LockTable) :
    (retryAll overdue (txn :: txns) locks).2 =
      (retryAll overdue txns (locks.retry txn (overdue txn)).2).2 := by
  simp only [retryAll]
  split <;> rfl

/-- Once the woken requests were judged, in any order, none is woken any more. -/
theorem asleep_retryAll {overdue : TxnId → Bool} {order : List TxnId}
    (all : ∀ txn ∈ locks.wokenTxns, txn ∈ order)
    (waiting : (retryAll overdue order locks).2.requests.get? txn = some request) :
    request.woken = false := by
  induction order generalizing locks with
  | nil =>
    cases woken : request.woken with
    | false => rfl
    | true => exact nomatch all txn (mem_wokenTxns.2 ⟨request, waiting, woken⟩)
  | cons judged order ih =>
    rw [retryAll_cons_snd] at waiting
    refine ih (fun txn mem => ?_) waiting
    obtain ⟨request, left, woken⟩ := mem_wokenTxns.1 mem
    rcases eq_or_ne txn judged with rfl | ne
    · rw [asleep_retry left] at woken
      cases woken
    · rw [requests_retry_of_ne ne] at left
      have mem := all txn (mem_wokenTxns.2 ⟨request, left, woken⟩)
      exact (List.mem_cons.1 mem).resolve_left ne

/-- A transaction that waits once no request is woken has an edge. -/
theorem Tracked.targets_ne_nil (tracked : Tracked locks)
    (asleep : ∀ txn request, locks.requests.get? txn = some request → request.woken = false)
    (waiting : locks.isWaiting txn = true) : locks.waits.targets txn ≠ [] := by
  obtain ⟨request, recorded⟩ := Option.isSome_iff_exists.1 waiting
  obtain ⟨wait, edges, tracks⟩ := tracked.exists_wait recorded
  have blocked := tracks.blocked (asleep txn request recorded)
  simpa [WaitGraph.targets, edges] using blocked

/-- Whoever waits has edges to holders of the page that is waited for, and whoever follows edges
comes to a transaction that does not wait.  So while somebody waits, somebody who holds a page
runs. -/
structure Live (locks : LockTable) : Prop where
  edges : ∀ txn, locks.isWaiting txn = true → locks.waits.targets txn ≠ []
  holds : ∀ txn holder, locks.waits.Edge txn holder →
    ∃ request, locks.requests.get? txn = some request ∧ locks.holds holder request.page = true
  ends : ∀ walk : Nat → TxnId,
    (∀ n, locks.isWaiting (walk n) = true → locks.waits.Edge (walk n) (walk (n + 1))) →
      ∃ n, locks.isWaiting (walk n) = false
  runs : ∀ txn, locks.isWaiting txn = true → ∃ running page,
    TransGen locks.waits.Edge txn running ∧ locks.isWaiting running = false ∧
      locks.holds running page = true

/-- Where no request is woken, the records of the requests make the table live. -/
theorem Tracked.live (tracked : Tracked locks)
    (asleep : ∀ txn request, locks.requests.get? txn = some request → request.woken = false) :
    Live locks := by
  have holds : ∀ txn holder, locks.waits.Edge txn holder →
      ∃ request, locks.requests.get? txn = some request ∧
        locks.holds holder request.page = true := by
    intro txn holder edge
    obtain ⟨request, waiting, blocks⟩ := tracked.waitsFor edge
    exact ⟨request, waiting, blocks.holds⟩
  refine ⟨fun _ => tracked.targets_ne_nil asleep, holds, fun walk follows => ?_, ?_⟩
  · obtain ⟨n, leaves⟩ := tracked.acyclic.exists_leaves walk
    exact ⟨n, Bool.eq_false_iff.2 fun waiting => leaves (follows n waiting)⟩
  · intro txn waiting
    obtain ⟨running, leads, done⟩ := tracked.acyclic.exists_end txn
    have runs : locks.isWaiting running = false :=
      Bool.eq_false_iff.2 fun waiting => tracked.targets_ne_nil asleep waiting done
    rcases Relation.reflTransGen_iff_eq_or_transGen.1 leads with rfl | leads
    · rw [waiting] at runs
      cases runs
    · obtain ⟨last, -, edge⟩ := TransGen.tail'_iff.1 leads
      obtain ⟨request, -, held⟩ := holds last running edge
      exact ⟨running, request.page, leads, runs, held⟩

/-- Whatever led to a lock table, it is live once all woken requests were judged again, in any
order. -/
theorem waiting_leads_to_running (reached : Reachable locks) (overdue : TxnId → Bool)
    {order : List TxnId} (all : ∀ txn ∈ locks.wokenTxns, txn ∈ order) :
    (retryAll overdue order locks).2.Live :=
  (reached.retryAll overdue order).tracked.live fun _ _ => asleep_retryAll all

/-- The statement above when one of two readers ends for whom a transaction waits that another waits
for. -/
theorem waiting_leads_to_running_after_end :
    let p : PageId := ⟨0, 0⟩
    let q : PageId := ⟨0, 1⟩
    let reading := ((empty.acquire 0 p .shared false).2.acquire 1 p .shared false).2
    let waiting := ((reading.acquire 2 q .exclusive false).2.acquire 2 p .exclusive false).2
    let locks := (waiting.acquire 3 q .shared false).2.releaseAll 0
    (Reachable locks ∧ ∀ txn ∈ locks.wokenTxns, txn ∈ [2]) ∧
      (retryAll (fun _ => false) [2] locks).2.isWaiting 3 = true ∧
      (retryAll (fun _ => false) [2] locks).2.waits.get? 2 = some ⟨p, [1]⟩ ∧
      (retryAll (fun _ => false) [2] locks).2.Live := by
  intro p q reading waiting locks
  have reached : Reachable locks :=
    .tail (.tail (.tail (.tail (.tail (.tail .refl
      (.acquire 0 p .shared false (by decide))) (.acquire 1 p .shared false (by decide)))
      (.acquire 2 q .exclusive false (by decide))) (.acquire 2 p .exclusive false (by decide)))
      (.acquire 3 q .shared false (by decide))) (.releaseAll 0 (by decide))
  have all : ∀ txn ∈ locks.wokenTxns, txn ∈ [2] := by decide +kernel
  have live := waiting_leads_to_running reached (fun _ => false) all
  exact ⟨⟨reached, all⟩, by decide +kernel, by decide +kernel, live⟩

end LockTable

end PageStore
