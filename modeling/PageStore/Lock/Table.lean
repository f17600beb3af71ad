import PageStore.Error
import PageStore.Lock.Holders
import PageStore.Lock.WaitGraph

/-!
# The lock table

Transactions lock whole pages and keep the locks until they end.  A request that conflicts with the
holders of its page records edges to them in the wait-for graph.  It is refused if a cycle can then
be reached from its transaction, or if the transaction has outlived the bound on waits (`overdue`,
which the caller decides); otherwise it waits.

A waiting request is woken when a holder lets go of its page, and is then judged again: its edges
are replaced and the graph is searched anew, so a woken request can be granted, be refused, or wait
on.  `settle` judges all woken requests, one after another.

Which request is judged first, and in which order edges are followed, is the order of entries here;
nothing that a caller may rely on depends on it.
-/

namespace PageStore

/-- How a request for a lock is answered. -/
inductive Verdict where
  | granted
  | refused (cause : Error)
  | waiting
deriving DecidableEq, Repr, Inhabited

/-- A waiting request. -/
structure Request where
  page : PageId
  mode : LockMode
  /-- Whether a holder has let go of the page since the request was last judged. -/
  woken : Bool
deriving DecidableEq, Repr, Inhabited

/-- The locks of all transactions. -/
structure LockTable where
  /-- The holders of each page that somebody holds or waits for. -/
  pages : Dictionary PageId Holders
  /-- The pages that each transaction holds. -/
  held : Dictionary TxnId (List PageId)
  /-- Whom each waiting transaction waits for. -/
  waits : WaitGraph
  /-- What each waiting transaction has asked for. -/
  requests : Dictionary TxnId Request
deriving Inhabited

namespace LockTable

/-- Nobody holds or waits for anything. -/
def empty : LockTable := ⟨.empty, .empty, .empty, .empty⟩

/-- The holders of a page. -/
def holders (locks : LockTable) (page : PageId) : Holders :=
  (locks.pages.get? page).getD Holders.none

/-- How a transaction holds a page, if it does. -/
def mode? (locks : LockTable) (txn : TxnId) (page : PageId) : Option LockMode :=
  (locks.holders page).mode? txn

/-- Whether a transaction holds a page. -/
def holds (locks : LockTable) (txn : TxnId) (page : PageId) : Bool :=
  (locks.mode? txn page).isSome

/-- Whether anybody holds a page. -/
def isLocked (locks : LockTable) (page : PageId) : Bool := !(locks.holders page).isFree

/-- The pages that a transaction holds. -/
def heldBy (locks : LockTable) (txn : TxnId) : List PageId := (locks.held.get? txn).getD []

/-- Whether a transaction has a waiting request. -/
def isWaiting (locks : LockTable) (txn : TxnId) : Bool := locks.requests.contains txn

/-- Whether a request waits for a page. -/
def isAwaited (locks : LockTable) (page : PageId) : Bool :=
  locks.requests.values.any fun request => request.page == page

/-! ## Requests -/

/-- The locks once a page has the given holders, among them a transaction that waits no more. -/
def withGrant (locks : LockTable) (txn : TxnId) (page : PageId) (holders : Holders) : LockTable :=
  let held := locks.heldBy txn
  { locks with
    pages := locks.pages.put page holders
    held := locks.held.put txn (if page ∈ held then held else held ++ [page])
    waits := locks.waits.erase txn }

/-- Judges a request by the holders of its page and by whom those wait for. -/
def judge (locks : LockTable) (txn : TxnId) (page : PageId) (mode : LockMode) (overdue : Bool) :
    Verdict × LockTable :=
  match (locks.holders page).grant txn mode with
  | .ok holders => (.granted, locks.withGrant txn page holders)
  | .error blockers =>
    match locks.waits.record txn ⟨page, blockers⟩ with
    | (true, waits) => (.refused (.wouldDeadlock txn page), { locks with waits := waits })
    | (false, waits) =>
      if overdue then
        (.refused (.timedOut txn page), { locks with waits := waits.erase txn })
      else (.waiting, { locks with waits := waits })

/-- Asks for a page.  A request that waits stays in the table, and any other leaves it. -/
def acquire (locks : LockTable) (txn : TxnId) (page : PageId) (mode : LockMode)
    (overdue : Bool) : Verdict × LockTable :=
  match locks.judge txn page mode overdue with
  | (.waiting, locks) =>
    (.waiting, { locks with requests := locks.requests.put txn ⟨page, mode, false⟩ })
  | (verdict, locks) => (verdict, { locks with requests := locks.requests.erase txn })

/-! ## Releases -/

/-- Takes a transaction from the holders of a page.  If it held the page the requests for the page
are woken, and a page that nobody holds or waits for leaves the table. -/
def dropHolder (locks : LockTable) (txn : TxnId) (page : PageId) : LockTable :=
  match locks.pages.get? page with
  | none => locks
  | some holders =>
    let rest := holders.remove txn
    { locks with
      pages := if rest.isFree && !locks.isAwaited page then locks.pages.erase page
        else locks.pages.put page rest
      requests := if (holders.mode? txn).isNone then locks.requests
        else locks.requests.mapValues fun _ request =>
          if request.page = page then { request with woken := true } else request }

/-- Releases one page, if the transaction holds it. -/
def release (locks : LockTable) (txn : TxnId) (page : PageId) : LockTable :=
  let locks := { locks with held := locks.held.modify txn fun pages => pages.filter (· ≠ page) }
  let locks := locks.dropHolder txn page
  { locks with waits := WaitGraph.withoutTargetOn locks.waits txn page }

/-- Drops the pages that nobody holds or waits for. -/
def prune (locks : LockTable) : LockTable :=
  { locks with pages := locks.pages.filter fun page holders =>
      !holders.isFree || locks.isAwaited page }

/-- Releases every page of a transaction, when it ends. -/
def releaseAll (locks : LockTable) (txn : TxnId) : LockTable :=
  let pages := locks.heldBy txn
  let locks := { locks with held := locks.held.erase txn }
  let locks := pages.foldl (fun locks page => locks.dropHolder txn page) locks
  let locks := { locks with waits := WaitGraph.withoutTarget (locks.waits.erase txn) txn }
  locks.prune

/-! ## Woken requests -/

/-- Judges the waiting request of a transaction again.  Gives the verdict unless nothing waits. -/
def retry (locks : LockTable) (txn : TxnId) (overdue : Bool) : Option Verdict × LockTable :=
  match locks.requests.get? txn with
  | none => (none, locks)
  | some request =>
    let (verdict, locks) := locks.acquire txn request.page request.mode overdue
    (some verdict, locks)

/-- The transactions whose waiting requests were woken. -/
def wokenTxns (locks : LockTable) : List TxnId :=
  (locks.requests.filter fun _ request => request.woken).keys

/-- Judges the requests of some transactions, one after another.  Gives the verdicts of those that
wait no more. -/
def retryAll (overdue : TxnId → Bool) :
    List TxnId → LockTable → List (TxnId × Verdict) × LockTable
  | [], locks => ([], locks)
  | txn :: txns, locks =>
    let (verdict, locks) := locks.retry txn (overdue txn)
    let (verdicts, locks) := retryAll overdue txns locks
    match verdict with
    | none | some .waiting => (verdicts, locks)
    | some verdict => ((txn, verdict) :: verdicts, locks)

/-- Judges every woken request. -/
def settle (locks : LockTable) (overdue : TxnId → Bool) : List (TxnId × Verdict) × LockTable :=
  retryAll overdue locks.wokenTxns locks

end LockTable

end PageStore
