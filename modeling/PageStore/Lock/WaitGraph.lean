import PageStore.Dictionary
import PageStore.Ident

/-!
# The wait-for graph

A waiting transaction has edges to the holders that it waits for, and a label: the page that it
waits for.  `WaitGraph.hasCycle` tells whether a cycle can be reached from a transaction, by a
search that goes down the edges, remembers what it has seen, and looks for a transaction on its own
path.  Only a transaction with edges has anything below it, so no path of distinct transactions is
deeper than there are waiting transactions, and the search needs to go no deeper.

`WaitGraph.record` is how a transaction comes to wait: its edges replace those that it had, and they
stay in the graph unless a cycle can be reached by them.
-/

namespace PageStore

/-- What a waiting transaction waits for. -/
structure Wait where
  page : PageId
  holders : List TxnId
deriving DecidableEq, Repr, Inhabited

/-- The waiting transactions with what they wait for. -/
abbrev WaitGraph := Dictionary TxnId Wait

namespace WaitGraph

/-- The transactions that a transaction waits for. -/
def targets (graph : WaitGraph) (txn : TxnId) : List TxnId :=
  ((graph.get? txn).map Wait.holders).getD []

/-- Looks for a transaction on the path that led to it, below `txn` and at most so many edges down.
Gives whether there is one, and the transactions seen. -/
def search (graph : WaitGraph) :
    (depth : Nat) → (path seen : List TxnId) → TxnId → Bool × List TxnId
  | 0, _, seen, _ => (false, seen)
  | depth + 1, path, seen, txn =>
    if txn ∈ path then (true, seen)
    else if txn ∈ seen then (false, seen)
    else
      (graph.targets txn).foldl
        (fun (found, seen) next =>
          if found then (found, seen) else search graph depth (txn :: path) seen next)
        (false, txn :: seen)

/-- Whether a cycle can be reached from a transaction. -/
def hasCycle (graph : WaitGraph) (txn : TxnId) : Bool :=
  (graph.search (graph.size + 1) [] [] txn).1

/-- Records what a transaction waits for, in place of what it waited for before.  Gives whether a
cycle can then be reached from it, in which case the transaction is not recorded at all. -/
def record (graph : WaitGraph) (txn : TxnId) (wait : Wait) : Bool × WaitGraph :=
  let later : WaitGraph := graph.put txn wait
  if later.hasCycle txn then (true, later.erase txn) else (false, later)

/-- The graph in which nobody waits for a transaction. -/
def withoutTarget (graph : WaitGraph) (txn : TxnId) : WaitGraph :=
  graph.mapValues fun _ wait => { wait with holders := wait.holders.filter fun h => h ≠ txn }

/-- The graph in which nobody waits for a transaction because of one page. -/
def withoutTargetOn (graph : WaitGraph) (txn : TxnId) (page : PageId) : WaitGraph :=
  graph.mapValues fun _ wait =>
    if wait.page = page then { wait with holders := wait.holders.filter fun h => h ≠ txn }
    else wait

end WaitGraph

end PageStore
