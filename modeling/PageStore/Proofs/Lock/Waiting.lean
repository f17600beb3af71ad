import PageStore.Proofs.Lock.Consistency
import PageStore.Proofs.Lock.WaitGraph

/-!
# What the lock table records of waiting requests

A holder blocks a request if it is another transaction that holds the page in a conflicting mode
(`LockTable.Blocks`).  A request that is not granted is told its blockers
(`Holders.blocks_of_grant_error`), and they become the edges of its transaction in the wait-for
graph.

The graph is kept apart from the requests, so the two have to be kept in step.  `Tracked` says
that they are: a transaction has edges exactly if it has a waiting request, the edges are labelled
with the page that is asked for, each leads to a holder that blocks the request now, and there is
no cycle.  A request that was not woken since it was last judged has an edge (`Tracks.blocked`),
because the last holder that blocked it would have woken it.

Judging a request keeps this since a grant only widens locks (`Blocks.widens`) and the edges of a
request that waits close no cycle.  For the releases, `LetsGo` says what it is to let go of some
pages: the lock on each of them is gone, the requests for them are woken, and the edges for them
are pruned.  A release of one page and the end of a transaction both are of this kind.
-/

namespace PageStore

/-! ## Blockers -/

namespace Holders

variable {holders : Holders} {txn : TxnId} {mode : LockMode} {blockers : List TxnId}

/-- Another transaction holds the page in a mode that conflicts with a request. -/
def Blocks (holders : Holders) (holder txn : TxnId) (mode : LockMode) : Prop :=
  holder ≠ txn ∧ ∃ held, holders.mode? holder = some held ∧ (mode = .exclusive ∨ held = .exclusive)

/-- A request that is not granted is told who blocks it, and somebody does. -/
theorem blocks_of_grant_error (refused : holders.grant txn mode = .error blockers) :
    blockers ≠ [] ∧ ∀ holder ∈ blockers, holders.Blocks holder txn mode := by
  rcases grant_error_cases refused with ⟨writer, writes, ne, rfl⟩ | ⟨free, rfl, some, others⟩
  · refine ⟨List.cons_ne_nil _ _, List.forall_mem_singleton.2 ⟨ne, .exclusive, ?_, .inr rfl⟩⟩
    exact mode?_eq_exclusive.2 writes
  · refine ⟨some, fun holder mem => ?_⟩
    obtain ⟨reads, ne⟩ := (others holder).1 mem
    exact ⟨ne, .shared, by simp [mode?, free, reads], .inl rfl⟩

end Holders

/-! ## What letting go of a page does to one record -/

/-- The request, woken if something holds. -/
def Request.wokenIf (request : Request) (woken : Prop) [Decidable woken] : Request :=
  if woken then { request with woken := true } else request

/-- What is waited for, without one holder if something holds. -/
def Wait.withoutIf (wait : Wait) (txn : TxnId) (gone : Prop) [Decidable gone] : Wait :=
  if gone then { wait with holders := wait.holders.filter fun holder => holder ≠ txn } else wait

section

variable (request : Request) (wait : Wait) (txn : TxnId) (cond : Prop) [Decidable cond]

@[simp] theorem Request.page_wokenIf : (request.wokenIf cond).page = request.page := by
  unfold wokenIf
  split <;> rfl

@[simp] theorem Request.mode_wokenIf : (request.wokenIf cond).mode = request.mode := by
  unfold wokenIf
  split <;> rfl

theorem Request.woken_wokenIf :
    (request.wokenIf cond).woken = false ↔ ¬ cond ∧ request.woken = false := by
  unfold wokenIf
  split
  · next here => simp [here]
  · next apart => simp [apart]

theorem Request.wokenIf_wokenIf (cond' : Prop) [Decidable cond'] :
    (request.wokenIf cond).wokenIf cond' = request.wokenIf (cond ∨ cond') := by
  unfold wokenIf
  by_cases here : cond <;> by_cases there : cond' <;> simp [here, there]

@[simp] theorem Wait.page_withoutIf : (wait.withoutIf txn cond).page = wait.page := by
  unfold withoutIf
  split <;> rfl

theorem Wait.mem_withoutIf {holder : TxnId} :
    holder ∈ (wait.withoutIf txn cond).holders ↔
      holder ∈ wait.holders ∧ ¬ (cond ∧ holder = txn) := by
  unfold withoutIf
  split
  · next here => simp [here]
  · next apart => simp [apart]

end

namespace LockTable

open Relation (TransGen)

variable {locks after : LockTable} {txn other holder : TxnId} {page place : PageId}
  {mode : LockMode} {request : Request} {wait : Wait}

/-- Another transaction holds a page in a mode that conflicts with a request for it. -/
def Blocks (locks : LockTable) (holder txn : TxnId) (page : PageId) (mode : LockMode) : Prop :=
  (locks.holders page).Blocks holder txn mode

theorem Blocks.holds (blocks : locks.Blocks holder txn page mode) :
    locks.holds holder page = true := by
  obtain ⟨-, held, holds, -⟩ := blocks
  rw [LockTable.holds, mode?, holds]
  rfl

/-- A holder that blocks a request keeps blocking it while locks only widen. -/
theorem Blocks.widens {asker : TxnId} (blocks : locks.Blocks holder txn page mode)
    (widens : locks.Widens asker after) : after.Blocks holder txn page mode := by
  obtain ⟨ne, held, holds, conflict⟩ := blocks
  rcases eq_or_ne holder asker with rfl | apart
  · rcases widens.mine page held holds with same | exclusive
    · exact ⟨ne, held, same, conflict⟩
    · exact ⟨ne, .exclusive, exclusive, .inr rfl⟩
  · exact ⟨ne, held, (widens.others holder page apart).trans holds, conflict⟩

/-! ## The records of one request -/

/-- The edges of a transaction fit its waiting request. -/
structure Tracks (locks : LockTable) (txn : TxnId) (request : Request) (wait : Wait) : Prop where
  page : wait.page = request.page
  blocks : ∀ holder ∈ wait.holders, locks.Blocks holder txn request.page request.mode
  blocked : request.woken = false → wait.holders ≠ []

theorem Tracks.widens {asker : TxnId} (tracks : locks.Tracks txn request wait)
    (widens : locks.Widens asker after) : after.Tracks txn request wait :=
  ⟨tracks.page, fun holder mem => (tracks.blocks holder mem).widens widens, tracks.blocked⟩

/-- The waiting requests and the wait-for graph agree. -/
structure Tracked (locks : LockTable) : Prop where
  consistent : Consistent locks
  recorded : ∀ txn, Option.Rel (locks.Tracks txn) (locks.requests.get? txn) (locks.waits.get? txn)
  acyclic : locks.waits.Acyclic

theorem Tracked.exists_wait (tracked : Tracked locks)
    (waiting : locks.requests.get? txn = some request) :
    ∃ wait, locks.waits.get? txn = some wait ∧ locks.Tracks txn request wait := by
  have recorded := tracked.recorded txn
  rw [waiting] at recorded
  generalize entry : locks.waits.get? txn = found at recorded
  cases recorded with
  | some tracks => exact ⟨_, rfl, tracks⟩

theorem Tracked.exists_request (tracked : Tracked locks)
    (edges : locks.waits.get? txn = some wait) :
    ∃ request, locks.requests.get? txn = some request ∧ locks.Tracks txn request wait := by
  have recorded := tracked.recorded txn
  rw [edges] at recorded
  generalize entry : locks.requests.get? txn = found at recorded
  cases recorded with
  | some tracks => exact ⟨_, rfl, tracks⟩

/-- A transaction without a waiting request has no edges. -/
theorem Tracked.waits_eq_none (tracked : Tracked locks) (free : locks.isWaiting txn = false) :
    locks.waits.get? txn = none := by
  cases edges : locks.waits.get? txn with
  | none => rfl
  | some wait =>
    obtain ⟨request, waiting, -⟩ := tracked.exists_request edges
    rw [isWaiting, Dictionary.contains, waiting] at free
    cases free

theorem tracked_empty : Tracked empty where
  consistent := consistent_empty
  recorded _ := .none
  acyclic := WaitGraph.acyclic_empty

/-! ## Judging a request -/

/-- Whatever becomes of a request, the others keep their records. -/
theorem Tracked.others {asker : TxnId} (tracked : Tracked locks) (widens : locks.Widens asker after)
    (requests : after.requests.get? txn = locks.requests.get? txn)
    (waits : after.waits.get? txn = locks.waits.get? txn) :
    Option.Rel (after.Tracks txn) (after.requests.get? txn) (after.waits.get? txn) := by
  rw [requests, waits]
  have recorded := tracked.recorded txn
  generalize locks.requests.get? txn = request, locks.waits.get? txn = wait at recorded
  cases recorded with
  | some tracks => exact .some (tracks.widens widens)
  | none => exact .none

/-- The records once a request was granted or refused. -/
theorem Tracked.leaves (tracked : Tracked locks) (widens : locks.Widens txn after)
    (requests : after.requests = locks.requests.erase txn)
    (waits : ∀ other, after.waits.get? other = (locks.waits.erase txn).get? other) :
    Tracked after := by
  refine ⟨widens.consistent tracked.consistent, fun other => ?_, ?_⟩
  · rcases eq_or_ne other txn with rfl | ne
    · rw [requests, waits]
      simp only [Dictionary.get?_erase, if_true]
      exact .none
    · refine tracked.others widens ?_ ?_
      · rw [requests, Dictionary.get?_erase, if_neg ne]
      · rw [waits, Dictionary.get?_erase, if_neg ne]
  · refine (tracked.acyclic.erase txn).mono fun other target edge => ?_
    rw [WaitGraph.edge_iff] at edge ⊢
    rw [← waits]
    exact edge

theorem Tracked.acquire (tracked : Tracked locks) (txn : TxnId) (page : PageId) (mode : LockMode)
    (overdue : Bool) : Tracked (locks.acquire txn page mode overdue).2 := by
  have widens := Widens.acquire locks txn page mode overdue
  rcases acquire_cases locks txn page mode overdue with
    ⟨granted, -, eq⟩ | ⟨blockers, refused, ⟨-, eq⟩ | ⟨-, -, eq⟩ | ⟨missed, -, eq⟩⟩
  all_goals rw [eq] at widens ⊢
  · exact tracked.leaves widens rfl fun _ => rfl
  -- A refused request had its new edges for a moment, and they leave the graph with the old ones.
  iterate 2
    refine tracked.leaves widens rfl fun other => ?_
    simp only [Dictionary.get?_erase, Dictionary.get?_put]
    split <;> rfl
  · obtain ⟨blocked, blocks⟩ := Holders.blocks_of_grant_error refused
    refine ⟨widens.consistent tracked.consistent, fun other => ?_, tracked.acyclic.put missed⟩
    rcases eq_or_ne other txn with rfl | ne
    · simp only [Dictionary.get?_put, if_true]
      exact .some ⟨rfl, blocks, fun _ => blocked⟩
    · refine tracked.others widens ?_ ?_
      all_goals exact (Dictionary.get?_put ..).trans (if_neg ne)

theorem Tracked.retry (tracked : Tracked locks) (txn : TxnId) (overdue : Bool) :
    Tracked (locks.retry txn overdue).2 := by
  unfold LockTable.retry
  split
  · exact tracked
  · next request _ => exact tracked.acquire txn request.page request.mode overdue

/-! ## Letting go of pages -/

variable {gone : PageId → Prop} [DecidablePred gone]

/-- The locks after a transaction let go of the pages that it holds among some. -/
structure LetsGo (txn : TxnId) (gone : PageId → Prop) [DecidablePred gone]
    (locks after : LockTable) : Prop where
  mode : ∀ other page, after.mode? other page =
    if gone page ∧ other = txn then none else locks.mode? other page
  requests : ∀ other, after.requests.get? other = (locks.requests.get? other).map fun request =>
    request.wokenIf (gone request.page ∧ locks.holds txn request.page = true)
  waits : ∀ other, after.waits.get? other = (locks.waits.get? other).map fun wait =>
    wait.withoutIf txn (gone wait.page)

theorem LetsGo.blocks (letsGo : LetsGo txn gone locks after)
    (blocks : locks.Blocks holder other page mode) (apart : ¬ (gone page ∧ holder = txn)) :
    after.Blocks holder other page mode := by
  obtain ⟨ne, held, holds, conflict⟩ := blocks
  have kept := letsGo.mode holder page
  rw [if_neg apart] at kept
  exact ⟨ne, held, kept.trans holds, conflict⟩

omit [DecidablePred gone] in
/-- Who is waited for wakes the request when it lets go of the page. -/
theorem Tracks.stays (tracks : locks.Tracks other request wait)
    (missed : ¬ (gone request.page ∧ locks.holds txn request.page = true))
    (mem : holder ∈ wait.holders) : ¬ (gone wait.page ∧ holder = txn) := by
  rintro ⟨here, rfl⟩
  rw [tracks.page] at here
  exact missed ⟨here, (tracks.blocks holder mem).holds⟩

/-- The last blocker of a request wakes it when it lets go. -/
theorem LetsGo.tracks (letsGo : LetsGo txn gone locks after)
    (tracks : locks.Tracks other request wait) :
    after.Tracks other
      (request.wokenIf (gone request.page ∧ locks.holds txn request.page = true))
      (wait.withoutIf txn (gone wait.page)) where
  page := by
    rw [Wait.page_withoutIf, Request.page_wokenIf, tracks.page]
  blocks holder mem := by
    rw [Wait.mem_withoutIf, tracks.page] at mem
    rw [Request.page_wokenIf, Request.mode_wokenIf]
    exact letsGo.blocks (tracks.blocks holder mem.1) mem.2
  blocked asleep := by
    obtain ⟨missed, asleep⟩ := (Request.woken_wokenIf ..).1 asleep
    obtain ⟨first, mem⟩ := List.exists_mem_of_ne_nil _ (tracks.blocked asleep)
    exact List.ne_nil_of_mem ((Wait.mem_withoutIf ..).2 ⟨mem, tracks.stays missed mem⟩)

theorem Tracked.letsGo (tracked : Tracked locks) (letsGo : LetsGo txn gone locks after)
    (consistent : Consistent after) : Tracked after := by
  refine ⟨consistent, fun other => ?_, ?_⟩
  · rw [letsGo.requests, letsGo.waits]
    have recorded := tracked.recorded other
    generalize locks.requests.get? other = request, locks.waits.get? other = wait at recorded
    cases recorded with
    | some tracks => exact .some (letsGo.tracks tracks)
    | none => exact .none
  · refine tracked.acyclic.mono fun other target edge => ?_
    obtain ⟨wait, pruned, mem⟩ := WaitGraph.edge_iff.1 edge
    rw [letsGo.waits, Option.map_eq_some_iff] at pruned
    obtain ⟨before, recorded, rfl⟩ := pruned
    exact WaitGraph.edge_iff.2 ⟨before, recorded, ((Wait.mem_withoutIf ..).1 mem).1⟩

/-! ## Releases -/

/-- A holder that lets go of a page wakes the requests for it. -/
theorem requests_dropHolder (locks : LockTable) (txn : TxnId) (page : PageId) (other : TxnId) :
    (locks.dropHolder txn page).requests.get? other =
      (locks.requests.get? other).map fun request =>
        request.wokenIf (request.page = page ∧ locks.holds txn page = true) := by
  cases entry : locks.pages.get? page with
  | none =>
    have nobody : locks.holds txn page = false := by simp [holds, mode?, holders, entry]
    simp [dropHolder, entry, nobody, Request.wokenIf]
  | some current =>
    have whose : locks.holders page = current := by simp [holders, entry]
    simp only [dropHolder, entry, holds, mode?, whose]
    cases held : current.mode? txn with
    | none => simp [Request.wokenIf]
    | some mode => simp [Request.wokenIf]

theorem letsGo_release (locks : LockTable) (txn : TxnId) (page : PageId) :
    LetsGo txn (· = page) locks (locks.release txn page) where
  mode other place := mode?_release locks txn other page place
  requests other := by
    refine (requests_dropHolder _ txn page other).trans ?_
    refine congrArg (Option.map · _) (funext fun request => ?_)
    rcases eq_or_ne request.page page with rfl | apart
    · rfl
    · simp [Request.wokenIf, apart]
  waits other := by
    simp only [release, WaitGraph.withoutTargetOn, waits_dropHolder, Dictionary.get?_mapValues]
    rfl

/-- A holder that lets go of several pages wakes the requests for all of them. -/
theorem requests_foldl_dropHolder (txn : TxnId) (pages : List PageId) (locks : LockTable)
    (other : TxnId) :
    (pages.foldl (fun locks page => locks.dropHolder txn page) locks).requests.get? other =
      (locks.requests.get? other).map fun request =>
        request.wokenIf (request.page ∈ pages ∧ locks.holds txn request.page = true) := by
  induction pages generalizing locks with
  | nil => simp [Request.wokenIf]
  | cons page pages ih =>
    rw [List.foldl_cons, ih, requests_dropHolder, Option.map_map]
    refine congrArg (Option.map · _) (funext fun request => ?_)
    have still : (locks.dropHolder txn page).holds txn request.page =
        if request.page = page then false else locks.holds txn request.page := by
      simp only [holds, mode?, holders_dropHolder]
      split <;> simp_all
    rcases eq_or_ne request.page page with rfl | apart
    · simp [Request.wokenIf_wokenIf, still]
    · simp [Request.wokenIf, still, apart]

/-- A transaction that ends wakes the requests for the pages that it held. -/
theorem Consistent.requests_releaseAll (consistent : Consistent locks) (txn other : TxnId) :
    (locks.releaseAll txn).requests.get? other =
      (locks.requests.get? other).map fun request =>
        request.wokenIf (locks.holds txn request.page = true) := by
  refine (requests_foldl_dropHolder txn (locks.heldBy txn) _ other).trans ?_
  refine congrArg (Option.map · _) (funext fun request => ?_)
  have held := consistent.held txn request.page
  simp only [Request.wokenIf, held]
  exact if_congr (and_iff_right_of_imp id) rfl rfl

/-- Nobody waits any longer for a transaction that ended. -/
theorem waits_releaseAll_of_ne (locks : LockTable) (ne : other ≠ txn) :
    (locks.releaseAll txn).waits.get? other =
      (locks.waits.get? other).map fun wait => wait.withoutIf txn True := by
  simp only [releaseAll, prune, WaitGraph.withoutTarget, waits_foldl_dropHolder,
    Dictionary.get?_mapValues, Dictionary.get?_erase]
  rw [if_neg ne]
  rfl

/-- A transaction that ends lets go of all pages.  It has no edges of its own, since it does not
wait. -/
theorem Tracked.letsGo_releaseAll (tracked : Tracked locks) (free : locks.isWaiting txn = false) :
    LetsGo txn (fun _ => True) locks (locks.releaseAll txn) where
  mode other page := by simpa using tracked.consistent.mode?_releaseAll txn other page
  requests other := by
    refine (tracked.consistent.requests_releaseAll txn other).trans ?_
    simp only [Request.wokenIf, true_and]
  waits other := by
    rcases eq_or_ne other txn with rfl | ne
    · have none := tracked.waits_eq_none free
      rw [waits_releaseAll_of_none none, none]
      rfl
    · exact locks.waits_releaseAll_of_ne ne

theorem Tracked.step (tracked : Tracked locks) (step : Step locks after) : Tracked after := by
  cases step with
  | acquire txn page mode overdue _ => exact tracked.acquire txn page mode overdue
  | retry txn overdue => exact tracked.retry txn overdue
  | release txn page _ =>
    exact tracked.letsGo (letsGo_release locks txn page) (tracked.consistent.release txn page)
  | releaseAll txn free =>
    exact tracked.letsGo (tracked.letsGo_releaseAll free) (tracked.consistent.releaseAll txn)

theorem Reachable.tracked (reached : Reachable locks) : Tracked locks := by
  induction reached with
  | refl => exact tracked_empty
  | tail _ step ih => exact ih.step step

/-- In every reachable lock table the transactions with edges are those that wait, the edges are
labelled with the page that is waited for, each leads to another transaction that holds this page,
and there is no cycle. -/
theorem wait_graph_matches_requests (reached : Reachable locks) :
    (∀ txn, txn ∈ locks.waits.keys ↔ locks.isWaiting txn = true) ∧
    (∀ txn request wait, locks.requests.get? txn = some request →
      locks.waits.get? txn = some wait → wait.page = request.page ∧
        ∀ holder ∈ wait.holders, holder ≠ txn ∧ locks.holds holder wait.page = true) ∧
    ∀ txn, ¬ TransGen locks.waits.Edge txn txn := by
  have tracked := reached.tracked
  refine ⟨fun txn => ?_, fun txn request wait waiting edges => ?_, tracked.acyclic⟩
  · rw [Dictionary.mem_keys_iff, isWaiting, Dictionary.contains]
    have recorded := tracked.recorded txn
    generalize locks.requests.get? txn = request, locks.waits.get? txn = wait at recorded
    cases recorded with
    | some _ => exact Iff.rfl
    | none => exact Iff.rfl
  · obtain ⟨_, same, tracks⟩ := tracked.exists_wait waiting
    rw [edges] at same
    cases same
    refine ⟨tracks.page, fun holder mem => ?_⟩
    have blocks := tracks.blocks holder mem
    rw [tracks.page]
    exact ⟨blocks.1, blocks.holds⟩

/-- The statement above while one transaction waits for two readers and one of them lets go. -/
theorem wait_graph_matches_requests_after_release :
    let page : PageId := ⟨0, 0⟩
    let reading := ((empty.acquire 0 page .shared false).2.acquire 1 page .shared false).2
    let locks := (reading.acquire 2 page .exclusive false).2.release 0 page
    Reachable locks ∧ locks.waits.get? 2 = some ⟨page, [1]⟩ ∧
      (∀ txn, txn ∈ locks.waits.keys ↔ locks.isWaiting txn = true) ∧
      (∀ txn request wait, locks.requests.get? txn = some request →
        locks.waits.get? txn = some wait → wait.page = request.page ∧
          ∀ holder ∈ wait.holders, holder ≠ txn ∧ locks.holds holder wait.page = true) ∧
      ∀ txn, ¬ TransGen locks.waits.Edge txn txn := by
  intro page reading locks
  have reached : Reachable locks :=
    .tail (.tail (.tail (.tail .refl
      (.acquire 0 page .shared false (by decide))) (.acquire 1 page .shared false (by decide)))
      (.acquire 2 page .exclusive false (by decide))) (.release 0 page (by decide))
  exact ⟨reached, rfl, wait_graph_matches_requests reached⟩

end LockTable

end PageStore
