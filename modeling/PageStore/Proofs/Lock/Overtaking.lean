import Mathlib.Logic.Function.Basic
import PageStore.Proofs.Lock.Wakeup

/-!
# Readers that overtake a writer

A transaction may be admitted to read a page while a writer waits for it.  The writer then waits for
this reader as well, but gets no edge to it until its request is judged again.  So a request can be
left waiting although it closes a cycle (`overtaken_wait_hides_cycle`).

`LockTable.Recalls` follows the steps that lead to a lock table and recalls for each transaction the
table in which its request was last judged.  A reader has overtaken a waiting transaction
(`LockTable.Overtook`) if it did not hold the page then.  No other wait goes unrecorded: whoever was
seen to block a request keeps its edge until it lets go (`Recalls.remembers`), and the writer of a
page is its only holder, so it blocked the request all along (`Recalls.edge_of_waitsFor`).  Hence a
request is left waiting only if a reader has overtaken somebody on every cycle that it closes
(`left_waiting_closes_no_seen_cycle`).
-/

namespace PageStore.LockTable

open Relation (TransGen)

variable {locks after : LockTable} {judged : TxnId → LockTable} {txn other holder : TxnId}
  {page : PageId} {mode : LockMode} {overdue : Bool}

/-! ## Recalling judgements -/

/-- Steps lead to a lock table, and for each transaction they last judged its request in the table
that is recalled for it. -/
inductive Recalls : LockTable → (TxnId → LockTable) → Prop
  | start : Recalls empty fun _ => empty
  | acquire {locks : LockTable} {judged : TxnId → LockTable} (recalls : Recalls locks judged)
      (txn : TxnId) (page : PageId) (mode : LockMode) (overdue : Bool)
      (free : locks.isWaiting txn = false) :
      Recalls (locks.acquire txn page mode overdue).2 (Function.update judged txn locks)
  | retry {locks : LockTable} {judged : TxnId → LockTable} (recalls : Recalls locks judged)
      (txn : TxnId) (overdue : Bool) :
      Recalls (locks.retry txn overdue).2 (Function.update judged txn locks)
  | release {locks : LockTable} {judged : TxnId → LockTable} (recalls : Recalls locks judged)
      (txn : TxnId) (page : PageId) (free : locks.isWaiting txn = false) :
      Recalls (locks.release txn page) judged
  | releaseAll {locks : LockTable} {judged : TxnId → LockTable} (recalls : Recalls locks judged)
      (txn : TxnId) (free : locks.isWaiting txn = false) :
      Recalls (locks.releaseAll txn) judged

theorem Recalls.reachable (recalls : Recalls locks judged) : Reachable locks := by
  induction recalls with
  | start => exact .refl
  | acquire _ txn page mode overdue free ih => exact ih.tail (.acquire txn page mode overdue free)
  | retry _ txn overdue ih => exact ih.tail (.retry txn overdue)
  | release _ txn page free ih => exact ih.tail (.release txn page free)
  | releaseAll _ txn free ih => exact ih.tail (.releaseAll txn free)

theorem Reachable.exists_recalls (reached : Reachable locks) : ∃ judged, Recalls locks judged := by
  induction reached with
  | refl => exact ⟨_, .start⟩
  | tail _ step ih =>
    obtain ⟨judged, recalls⟩ := ih
    cases step with
    | acquire txn page mode overdue free => exact ⟨_, recalls.acquire txn page mode overdue free⟩
    | retry txn overdue => exact ⟨_, recalls.retry txn overdue⟩
    | release txn page free => exact ⟨_, recalls.release txn page free⟩
    | releaseAll txn free => exact ⟨_, recalls.releaseAll txn free⟩

/-! ## What the edges remember -/

/-- A waiting transaction that was not woken has edges to all who blocked its request when it was
last judged. -/
def Remembers (locks : LockTable) (judged : TxnId → LockTable) : Prop :=
  ∀ txn request wait, locks.requests.get? txn = some request → locks.waits.get? txn = some wait →
    request.woken = false →
      ∀ holder, (judged txn).Blocks holder txn request.page request.mode → holder ∈ wait.holders

/-- Judging a request leaves the edges of the others as they are. -/
theorem waits_acquire_of_ne (ne : other ≠ txn) :
    (locks.acquire txn page mode overdue).2.waits.get? other = locks.waits.get? other := by
  rcases acquire_cases locks txn page mode overdue with
    ⟨granted, -, eq⟩ | ⟨blockers, -, ⟨-, eq⟩ | ⟨-, -, eq⟩ | ⟨-, -, eq⟩⟩
  all_goals simp [eq, withGrant, ne]

theorem Remembers.acquire (remembers : Remembers locks judged) (consistent : Consistent locks)
    (txn : TxnId) (page : PageId) (mode : LockMode) (overdue : Bool) :
    Remembers (locks.acquire txn page mode overdue).2 (Function.update judged txn locks) := by
  intro other request wait waiting edges asleep holder blocks
  rcases eq_or_ne other txn with rfl | ne
  · rw [Function.update_self] at blocks
    rcases acquire_cases locks other page mode overdue with
      ⟨granted, -, eq⟩ | ⟨blockers, refused, ⟨-, eq⟩ | ⟨-, -, eq⟩ | ⟨-, -, eq⟩⟩
    all_goals simp only [eq, Dictionary.get?_erase, Dictionary.get?_put, if_true] at waiting edges
    case inr.inr.inr =>
      cases waiting
      cases edges
      exact ((consistent.exclusive page).blocks_iff_mem refused).1 blocks
    all_goals cases waiting
  · rw [Function.update_of_ne ne] at blocks
    rw [requests_acquire_of_ne ne] at waiting
    rw [waits_acquire_of_ne ne] at edges
    exact remembers other request wait waiting edges asleep holder blocks

theorem Remembers.retry (remembers : Remembers locks judged) (consistent : Consistent locks)
    (txn : TxnId) (overdue : Bool) :
    Remembers (locks.retry txn overdue).2 (Function.update judged txn locks) := by
  unfold LockTable.retry
  split
  · next free =>
    intro other request wait waiting
    have ne : other ≠ txn := by
      rintro rfl
      rw [free] at waiting
      cases waiting
    rw [Function.update_of_ne ne]
    exact remembers other request wait waiting
  · next request _ => exact remembers.acquire consistent txn request.page request.mode overdue

/-- A request whose blocker lets go is woken, so one that was not woken keeps its edges. -/
theorem Remembers.letsGo {gone : PageId → Prop} [DecidablePred gone]
    (remembers : Remembers locks judged) (tracked : Tracked locks)
    (letsGo : LetsGo txn gone locks after) : Remembers after judged := by
  intro other request wait waiting edges asleep holder blocks
  rw [letsGo.requests, Option.map_eq_some_iff] at waiting
  rw [letsGo.waits, Option.map_eq_some_iff] at edges
  obtain ⟨request, waiting, rfl⟩ := waiting
  obtain ⟨wait, edges, rfl⟩ := edges
  obtain ⟨missed, asleep⟩ := (Request.woken_wokenIf ..).1 asleep
  rw [Request.page_wokenIf, Request.mode_wokenIf] at blocks
  have mem := remembers other request wait waiting edges asleep holder blocks
  obtain ⟨_, same, tracks⟩ := tracked.exists_wait waiting
  rw [edges] at same
  cases same
  exact (Wait.mem_withoutIf ..).2 ⟨mem, tracks.stays missed mem⟩

theorem Recalls.remembers (recalls : Recalls locks judged) : Remembers locks judged := by
  induction recalls with
  | start =>
    intro _ _ _ waiting
    cases waiting
  | acquire recalls txn page mode overdue _ ih =>
    exact ih.acquire recalls.reachable.consistent txn page mode overdue
  | retry recalls txn overdue ih => exact ih.retry recalls.reachable.consistent txn overdue
  | release recalls txn page _ ih =>
    exact ih.letsGo recalls.reachable.tracked (letsGo_release _ txn page)
  | releaseAll recalls txn free ih =>
    have tracked := recalls.reachable.tracked
    exact ih.letsGo tracked (tracked.letsGo_releaseAll free)

/-! ## Cycles without overtaking -/

/-- A transaction reads the page that another waits for, and did not hold it when the request for it
was last judged. -/
def Overtook (locks : LockTable) (judged : TxnId → LockTable) (reader txn : TxnId) : Prop :=
  ∃ request, locks.requests.get? txn = some request ∧
    locks.mode? reader request.page = some .shared ∧ (judged txn).mode? reader request.page = none

/-- A request is blocked by somebody who waits for the transaction that asks, perhaps by way of
others, and on the way nobody waits for a reader that has overtaken it. -/
def ClosesSeenCycle (locks : LockTable) (judged : TxnId → LockTable) (txn : TxnId) (page : PageId)
    (mode : LockMode) : Prop :=
  ∃ first, locks.Blocks first txn page mode ∧
    TransGen (fun waiting holder =>
      locks.WaitsFor waiting holder ∧ ¬ locks.Overtook judged holder waiting) first txn

theorem asleep_of_wokenTxns_eq_nil {request : Request} (settled : locks.wokenTxns = [])
    (waiting : locks.requests.get? txn = some request) : request.woken = false := by
  cases woken : request.woken with
  | false => rfl
  | true =>
    have mem := mem_wokenTxns.2 ⟨request, waiting, woken⟩
    rw [settled] at mem
    cases mem

/-- Where no request is woken, every wait has its edge unless it is for a reader that has overtaken
the one that waits. -/
theorem Recalls.edge_of_waitsFor (recalls : Recalls locks judged) (settled : locks.wokenTxns = [])
    (waits : locks.WaitsFor txn holder) (seen : ¬ locks.Overtook judged holder txn) :
    locks.waits.Edge txn holder := by
  have tracked := recalls.reachable.tracked
  obtain ⟨request, waiting, ne, held, holds, conflict⟩ := waits
  obtain ⟨wait, edges, tracks⟩ := tracked.exists_wait waiting
  have asleep := asleep_of_wokenTxns_eq_nil settled waiting
  refine WaitGraph.edge_iff.2 ⟨wait, edges, ?_⟩
  cases held with
  | exclusive =>
    -- Somebody has an edge from the request and holds the page, and a writer is alone with it.
    obtain ⟨first, mem⟩ := List.exists_mem_of_ne_nil _ (tracks.blocked asleep)
    have same : first = holder :=
      (tracked.consistent.exclusive request.page).eq_of_mode? holds (tracks.blocks first mem).holds
    rwa [same] at mem
  | shared =>
    have asked : request.mode = .exclusive := conflict.resolve_right nofun
    cases early : (judged txn).mode? holder request.page with
    | none => exact absurd ⟨request, waiting, holds, early⟩ seen
    | some before =>
      exact recalls.remembers txn request wait waiting edges asleep holder
        ⟨ne, before, early, .inl asked⟩

/-- Where no request is woken, a request is left waiting only if it closes no cycle of waits in which
no reader has overtaken the one that waits for it; whichever steps led to the lock table. -/
theorem left_waiting_closes_no_seen_cycle (reached : Reachable locks)
    (settled : locks.wokenTxns = []) :
    (∃ judged, Recalls locks judged) ∧
      ∀ judged, Recalls locks judged → ∀ txn page mode overdue,
        (locks.acquire txn page mode overdue).1 = .waiting →
          ¬ locks.ClosesSeenCycle judged txn page mode := by
  refine ⟨reached.exists_recalls, ?_⟩
  rintro judged recalls txn page mode overdue left ⟨first, blocks, back⟩
  have tracked := reached.tracked
  rcases acquire_cases locks txn page mode overdue with
    ⟨granted, -, eq⟩ | ⟨blockers, refused, ⟨-, eq⟩ | ⟨-, -, eq⟩ | ⟨missed, -, -⟩⟩
  case inr.inr.inr =>
    have mem : first ∈ blockers :=
      ((tracked.consistent.exclusive page).blocks_iff_mem refused).1 blocks
    have recorded : TransGen locks.waits.Edge first txn :=
      TransGen.mono (fun _ _ wait => recalls.edge_of_waitsFor settled wait.1 wait.2) _ _ back
    have found : WaitGraph.hasCycle (locks.waits.put txn ⟨page, blockers⟩) txn = true :=
      WaitGraph.hasCycle_put_of_return mem recorded.to_reflTransGen
    rw [found] at missed
    cases missed
  all_goals
    rw [eq] at left
    cases left

/-- The statement above where the second of two readers has overtaken a writer, and then asks for
the page that the writer holds. -/
theorem left_waiting_closes_no_seen_cycle_beside_reader :
    let p : PageId := ⟨1, 0⟩
    let q : PageId := ⟨1, 1⟩
    let held := ((empty.acquire 0 p .shared false).2.acquire 1 q .exclusive false).2
    let locks := ((held.acquire 1 p .exclusive false).2.acquire 2 p .shared false).2
    (Reachable locks ∧ locks.wokenTxns = []) ∧
      (locks.acquire 2 q .exclusive false).1 = .waiting ∧
      ∃ judged, Recalls locks judged ∧ locks.Overtook judged 2 1 ∧
        ¬ locks.ClosesSeenCycle judged 2 q .exclusive := by
  intro p q held locks
  have recalls : Recalls locks _ :=
    .acquire (.acquire (.acquire (.acquire .start 0 p .shared false (by decide))
      1 q .exclusive false (by decide)) 1 p .exclusive false (by decide))
      2 p .shared false (by decide)
  have settled : locks.wokenTxns = [] := by decide +kernel
  have left : (locks.acquire 2 q .exclusive false).1 = .waiting := by decide +kernel
  have unseen := (left_waiting_closes_no_seen_cycle recalls.reachable settled).2 _ recalls 2 q
    .exclusive false left
  refine ⟨⟨recalls.reachable, settled⟩, left, _, recalls, ?overtook, unseen⟩
  exact ⟨⟨p, .exclusive, false⟩, by decide +kernel, by decide +kernel, by decide +kernel⟩

/-- A request can be left waiting although it closes a cycle: one transaction waits to write a page
that another was admitted to read meanwhile, and the other asks for the page that the first holds. -/
theorem overtaken_wait_hides_cycle :
    let p : PageId := ⟨1, 0⟩
    let q : PageId := ⟨1, 1⟩
    let held := ((empty.acquire 0 p .shared false).2.acquire 1 q .exclusive false).2
    let locks := ((held.acquire 1 p .exclusive false).2.acquire 2 p .shared false).2
    Reachable locks ∧ locks.wokenTxns = [] ∧
      (locks.acquire 2 q .exclusive false).1 = .waiting ∧ locks.ClosesCycle 2 q .exclusive := by
  intro p q held locks
  have reached : Reachable locks :=
    .tail (.tail (.tail (.tail .refl
      (.acquire 0 p .shared false (by decide))) (.acquire 1 q .exclusive false (by decide)))
      (.acquire 1 p .exclusive false (by decide))) (.acquire 2 p .shared false (by decide))
  have blocks : locks.Blocks 1 2 q .exclusive :=
    ⟨by decide, .exclusive, by decide +kernel, .inl rfl⟩
  have waits : locks.WaitsFor 1 2 :=
    ⟨⟨p, .exclusive, false⟩, by decide +kernel, by decide, .shared, by decide +kernel, .inl rfl⟩
  exact ⟨reached, by decide +kernel, by decide +kernel, 1, blocks, .single waits⟩

end PageStore.LockTable
