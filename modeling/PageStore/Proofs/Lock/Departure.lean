import PageStore.Proofs.Lock.Waiting

/-!
# What a transaction leaves when it ends

A transaction that ends lets go of the pages that are recorded for it, and of no others; that these
are all that it holds is the consistency of the table (`Consistent.holders_releaseAll`).  It takes
itself out of the holders of each page and out of the edges of all who wait, and changes nothing else
about them (`Departs`).

The table keeps an entry for a page as long as somebody holds it or waits for it.  Who waits came to
a page with an entry, since somebody held it, and no release takes away the entry of an awaited page
(`Reachable.listed`).  So the entries that are left once the others are pruned are those of the
pages that are held or awaited (`Listed.contains_releaseAll`).
-/

namespace PageStore.LockTable

variable {locks after : LockTable} {txn other : TxnId} {page place : PageId} {mode : LockMode}
  {blockers : List TxnId}

/-! ## Entries of awaited pages -/

theorem isAwaited_iff : locks.isAwaited page = true ↔
    ∃ txn request, locks.requests.get? txn = some request ∧ request.page = page := by
  simp only [isAwaited, Dictionary.values, List.any_map, List.any_eq_true, Function.comp_apply,
    beq_iff_eq]
  constructor
  · rintro ⟨⟨txn, request⟩, mem, same⟩
    exact ⟨txn, request, Dictionary.mem_entries_iff.1 mem, same⟩
  · rintro ⟨txn, request, waiting, same⟩
    exact ⟨(txn, request), Dictionary.mem_entries_iff.2 waiting, same⟩

/-- A page that somebody waits for has an entry. -/
def Listed (locks : LockTable) : Prop :=
  ∀ page, locks.isAwaited page = true → locks.pages.contains page = true

theorem listed_empty : Listed empty := fun _ awaited => nomatch awaited

/-- Fewer waits and more entries. -/
theorem Listed.mono (listed : Listed locks)
    (requests : ∀ txn request, after.requests.get? txn = some request →
      locks.requests.get? txn = some request)
    (pages : ∀ page, locks.pages.contains page = true → after.pages.contains page = true) :
    Listed after := by
  intro page awaited
  obtain ⟨txn, request, waiting, same⟩ := isAwaited_iff.1 awaited
  exact pages page (listed page (isAwaited_iff.2 ⟨txn, request, requests txn request waiting, same⟩))

/-- Whoever asks for a page without an entry is granted it. -/
theorem contains_of_grant_error (refused : (locks.holders page).grant txn mode = .error blockers) :
    locks.pages.contains page = true := by
  cases entry : locks.pages.get? page with
  | some holders =>
    rw [Dictionary.contains, entry]
    rfl
  | none =>
    rw [holders, entry, Option.getD_none] at refused
    cases mode <;> cases refused

theorem Listed.acquire (listed : Listed locks) (txn : TxnId) (page : PageId) (mode : LockMode)
    (overdue : Bool) : Listed (locks.acquire txn page mode overdue).2 := by
  have erased : ∀ other request, (locks.requests.erase txn).get? other = some request →
      locks.requests.get? other = some request := fun _ _ => Dictionary.get?_of_erase
  rcases acquire_cases locks txn page mode overdue with
    ⟨granted, -, eq⟩ | ⟨blockers, refused, ⟨-, eq⟩ | ⟨-, -, eq⟩ | ⟨-, -, eq⟩⟩
  all_goals rw [eq]
  · refine listed.mono erased fun place here => ?_
    simp only [withGrant, Dictionary.contains, Dictionary.get?_put] at here ⊢
    split
    · rfl
    · exact here
  · exact listed.mono erased fun _ here => here
  · exact listed.mono erased fun _ here => here
  · intro place awaited
    obtain ⟨other, request, waiting, same⟩ := isAwaited_iff.1 awaited
    rw [Dictionary.get?_put] at waiting
    split at waiting
    · cases waiting
      exact same ▸ contains_of_grant_error refused
    · exact listed place (isAwaited_iff.2 ⟨other, request, waiting, same⟩)

theorem isAwaited_dropHolder (locks : LockTable) (txn : TxnId) (page place : PageId) :
    (locks.dropHolder txn page).isAwaited place = locks.isAwaited place := by
  rw [Bool.eq_iff_iff, isAwaited_iff, isAwaited_iff]
  simp only [requests_dropHolder, Option.map_eq_some_iff]
  constructor
  · rintro ⟨other, _, ⟨request, waiting, rfl⟩, same⟩
    exact ⟨other, request, waiting, by rwa [Request.page_wokenIf] at same⟩
  · rintro ⟨other, request, waiting, same⟩
    exact ⟨other, _, ⟨request, waiting, rfl⟩, by rwa [Request.page_wokenIf]⟩

/-- Letting go of a page takes its entry away only if nobody waits for it. -/
theorem Listed.dropHolder (listed : Listed locks) (txn : TxnId) (page : PageId) :
    Listed (locks.dropHolder txn page) := by
  intro place awaited
  rw [isAwaited_dropHolder] at awaited
  have here := listed place awaited
  unfold LockTable.dropHolder
  split
  · exact here
  · dsimp only
    split
    · next unused =>
      have apart : place ≠ page := by
        rintro rfl
        rw [awaited, Bool.not_true, Bool.and_false] at unused
        cases unused
      rw [Dictionary.contains, Dictionary.get?_erase, if_neg apart]
      exact here
    · rw [Dictionary.contains, Dictionary.get?_put]
      split
      · rfl
      · exact here

theorem Listed.foldl_dropHolder (txn : TxnId) (pages : List PageId) {locks : LockTable}
    (listed : Listed locks) :
    Listed (pages.foldl (fun locks page => locks.dropHolder txn page) locks) := by
  induction pages generalizing locks with
  | nil => exact listed
  | cons page pages ih => exact ih (listed.dropHolder txn page)

/-- A held page has an entry. -/
theorem contains_of_isLocked (locked : locks.isLocked page = true) :
    locks.pages.contains page = true := by
  cases entry : locks.pages.get? page with
  | some holders =>
    rw [Dictionary.contains, entry]
    rfl
  | none =>
    rw [isLocked, holders, entry, Option.getD_none] at locked
    cases locked

theorem isLocked_prune (locks : LockTable) (page : PageId) :
    locks.prune.isLocked page = locks.isLocked page := by
  rw [isLocked, isLocked, holders_prune]

/-- Pruning leaves the entries of the pages that are held or awaited. -/
theorem Listed.contains_prune (listed : Listed locks) (page : PageId) :
    locks.prune.pages.contains page = true ↔
      locks.prune.isLocked page = true ∨ locks.prune.isAwaited page = true := by
  have kept : locks.prune.pages.contains page = true ↔ locks.pages.contains page = true ∧
      (locks.isLocked page = true ∨ locks.isAwaited page = true) := by
    simp only [LockTable.prune, Dictionary.contains, Dictionary.get?_filter, isLocked, holders]
    cases locks.pages.get? page with
    | none => simp
    | some holders => simp [Option.isSome_filter]
  rw [kept, isLocked_prune]
  refine and_iff_right_of_imp ?_
  rintro (locked | awaited)
  · exact contains_of_isLocked locked
  · exact listed page awaited

theorem Listed.release (listed : Listed locks) (txn : TxnId) (page : PageId) :
    Listed (locks.release txn page) := by
  have before : Listed { locks with
      held := locks.held.modify txn fun pages => pages.filter (· ≠ page) } := listed
  exact before.dropHolder txn page

/-- When a transaction has ended, the entries are those of the pages that are held or awaited. -/
theorem Listed.contains_releaseAll (listed : Listed locks) (txn : TxnId) (page : PageId) :
    (locks.releaseAll txn).pages.contains page = true ↔
      (locks.releaseAll txn).isLocked page = true ∨
        (locks.releaseAll txn).isAwaited page = true := by
  have before : Listed { locks with held := locks.held.erase txn } := listed
  exact Listed.contains_prune (before.foldl_dropHolder txn (locks.heldBy txn)) page

theorem Listed.releaseAll (listed : Listed locks) (txn : TxnId) : Listed (locks.releaseAll txn) :=
  fun page awaited => (listed.contains_releaseAll txn page).2 (.inr awaited)

theorem Listed.step (listed : Listed locks) (step : Step locks after) : Listed after := by
  cases step with
  | acquire txn page mode overdue _ => exact listed.acquire txn page mode overdue
  | retry txn overdue =>
    unfold LockTable.retry
    split
    · exact listed
    · next request _ => exact listed.acquire txn request.page request.mode overdue
  | release txn page _ => exact listed.release txn page
  | releaseAll txn _ => exact listed.releaseAll txn

theorem Reachable.listed (reached : Reachable locks) : Listed locks := by
  induction reached with
  | refl => exact listed_empty
  | tail _ step ih => exact ih.step step

/-! ## The end of a transaction -/

/-- The locks after a transaction ended, before any woken request is judged again.  The transaction
holds no page, waits for nobody, and nobody waits for it.  Apart from it every page has the holders
that it had, all others have the pages that they had, and the edges and the requests, of which those
for its pages are woken.  A page has an entry exactly if somebody holds it or waits for it. -/
structure Departs (txn : TxnId) (locks after : LockTable) : Prop where
  absent : ∀ page, txn ∉ (after.holders page).readers ∧ (after.holders page).writer ≠ some txn
  released : after.heldBy txn = []
  edgeless : txn ∉ after.waits.keys
  awaited : ∀ other, ¬ after.waits.Edge other txn
  readers : ∀ page, (after.holders page).readers =
    (locks.holders page).readers.filter fun reader => reader ≠ txn
  writer : ∀ page other, other ≠ txn →
    ((after.holders page).writer = some other ↔ (locks.holders page).writer = some other)
  held : ∀ other, other ≠ txn → after.heldBy other = locks.heldBy other
  waits : ∀ other, other ≠ txn → after.waits.get? other = (locks.waits.get? other).map fun wait =>
    { wait with holders := wait.holders.filter fun holder => holder ≠ txn }
  requests : ∀ other, after.requests.get? other = (locks.requests.get? other).map fun request =>
    if locks.holds txn request.page then { request with woken := true } else request
  entries : ∀ page, after.pages.contains page = true ↔
    (∃ other, after.holds other page = true) ∨
      ∃ other request, after.requests.get? other = some request ∧ request.page = page

/-- A transaction that ends has no edges, and no edges lead to it. -/
theorem waits_releaseAll_self (locks : LockTable) (txn : TxnId) :
    (locks.releaseAll txn).waits.get? txn = none ∧
      ∀ other, ¬ (locks.releaseAll txn).waits.Edge other txn := by
  have none : (locks.releaseAll txn).waits.get? txn = none := by
    simp only [releaseAll, LockTable.prune, WaitGraph.withoutTarget, waits_foldl_dropHolder,
      Dictionary.get?_mapValues, Dictionary.get?_erase, if_true, Option.map_none]
  refine ⟨none, fun other edge => ?_⟩
  obtain ⟨wait, recorded, mem⟩ := WaitGraph.edge_iff.1 edge
  rcases eq_or_ne other txn with rfl | ne
  · rw [none] at recorded
    cases recorded
  · rw [waits_releaseAll_of_ne locks ne, Option.map_eq_some_iff] at recorded
    obtain ⟨before, -, rfl⟩ := recorded
    exact ((Wait.mem_withoutIf before txn True).1 mem).2 ⟨trivial, rfl⟩

/-- Whatever led to a lock table, a transaction that ends has let go of everything, and of nothing that
is not its own. -/
theorem releaseAll_is_complete_and_local (reached : Reachable locks) (txn : TxnId) :
    Departs txn locks (locks.releaseAll txn) where
  absent page := by
    have gone := reached.consistent.mode?_releaseAll txn txn page
    rw [if_pos rfl] at gone
    exact (Holders.mode?_eq_none.1 gone).symm
  released := by rw [heldBy_releaseAll, if_pos rfl]
  edgeless := by
    rw [Dictionary.mem_keys_iff, (waits_releaseAll_self locks txn).1]
    exact nofun
  awaited := (waits_releaseAll_self locks txn).2
  readers page := by
    rw [reached.consistent.holders_releaseAll]
    rfl
  writer page other ne := by
    rw [← Holders.mode?_eq_exclusive, ← Holders.mode?_eq_exclusive]
    have kept := reached.consistent.mode?_releaseAll txn other page
    rw [if_neg ne, mode?, mode?] at kept
    rw [kept]
  held other ne := by rw [heldBy_releaseAll, if_neg ne]
  waits other ne := waits_releaseAll_of_ne locks ne
  requests other := reached.consistent.requests_releaseAll txn other
  entries page := by
    rw [reached.listed.contains_releaseAll, isLocked_iff, isAwaited_iff]

/-- The statement above for a transaction that reads a page beside another and writes two: somebody
waits for the page that it reads, somebody for one that it writes, and nobody for the other. -/
theorem releaseAll_is_complete_and_local_of_reader_and_writer :
    let p : PageId := ⟨0, 0⟩
    let q : PageId := ⟨0, 1⟩
    let r : PageId := ⟨0, 2⟩
    let reading := ((empty.acquire 0 p .shared false).2.acquire 1 p .shared false).2
    let writing := ((reading.acquire 0 q .exclusive false).2.acquire 0 r .exclusive false).2
    let locks := ((writing.acquire 2 p .exclusive false).2.acquire 3 q .shared false).2
    Reachable locks ∧ Departs 0 locks (locks.releaseAll 0) ∧
      (locks.releaseAll 0).waits.get? 2 = some ⟨p, [1]⟩ ∧
      (locks.releaseAll 0).requests.get? 3 = some ⟨q, .shared, true⟩ ∧
      (locks.releaseAll 0).pages.contains q = true ∧
      (locks.releaseAll 0).pages.contains r = false := by
  intro p q r reading writing locks
  have reached : Reachable locks :=
    .tail (.tail (.tail (.tail (.tail (.tail .refl
      (.acquire 0 p .shared false (by decide))) (.acquire 1 p .shared false (by decide)))
      (.acquire 0 q .exclusive false (by decide))) (.acquire 0 r .exclusive false (by decide)))
      (.acquire 2 p .exclusive false (by decide +kernel)))
      (.acquire 3 q .shared false (by decide +kernel))
  exact ⟨reached, releaseAll_is_complete_and_local reached 0, by decide +kernel, by decide +kernel,
    by decide +kernel, by decide +kernel⟩

end PageStore.LockTable
