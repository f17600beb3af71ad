import Mathlib.Data.List.Basic
import PageStore.Proofs.Lock.WaitGraph

/-!
# The search without its bound

`WaitGraph.search` goes down so many edges and no more.  `Searches` is the search as it goes without
such a bound, in some order of the holders that each transaction waits for: it marks what it comes to
as seen and as on its path, takes the mark of the path back when it leaves, and stops with the first
transaction that it finds on its own path.  What it does is settled by where it begins
(`Searches.unique`), and it comes to an end.

It comes to an end because the bounded search is such a search (`follows_search`): its path holds
distinct transactions that wait, so it leaves a transaction behind before it has gone down as many
edges as its bound lets it.  Another order of the holders is the order of another graph that has the
same edges (`inOrder`), so the order settles what is marked but not whether a cycle is found.

Of what a transaction is to wait for, `record` keeps what closes no cycle.  In a graph without cycles
that is so exactly if no holder leads back to the transaction (`Acyclic.records`).
-/

namespace PageStore.WaitGraph

open Relation (ReflTransGen TransGen)

variable {graph : WaitGraph} {txn next : TxnId} {wait : Wait} {depth : Nat}
  {path seen txns rest : List TxnId} {order : TxnId → List TxnId}

/-! ## Searches -/

/-- What a search has marked: the transactions that it has seen, and those on the path to where it
is. -/
structure Marks where
  seen : List TxnId
  path : List TxnId

namespace Marks

/-- Nothing is marked. -/
def none : Marks := ⟨[], []⟩

/-- The marks once the search has come to a transaction. -/
def enter (marks : Marks) (txn : TxnId) : Marks := ⟨txn :: marks.seen, txn :: marks.path⟩

/-- The marks once the search has left a transaction. -/
def leave (marks : Marks) (txn : TxnId) : Marks := { marks with path := marks.path.erase txn }

end Marks

/-- A search from some transactions, one after another, that has come to an end: whether it found a
cycle, and what it then had marked.  The holders that a transaction waits for are searched in a given
order. -/
inductive Searches (order : TxnId → List TxnId) : Marks → List TxnId → Bool → Marks → Prop
  | done {marks : Marks} : Searches order marks [] false marks
  | closes {marks : Marks} {txn : TxnId} {rest : List TxnId} :
    txn ∈ marks.path → Searches order marks (txn :: rest) true marks
  | passes {marks after : Marks} {txn : TxnId} {rest : List TxnId} {found : Bool} :
    txn ∉ marks.path → txn ∈ marks.seen → Searches order marks rest found after →
    Searches order marks (txn :: rest) found after
  | finds {marks after : Marks} {txn : TxnId} {rest : List TxnId} :
    txn ∉ marks.path → txn ∉ marks.seen →
    Searches order (marks.enter txn) (order txn) true after →
    Searches order marks (txn :: rest) true after
  | leaves {marks below after : Marks} {txn : TxnId} {rest : List TxnId} {found : Bool} :
    txn ∉ marks.path → txn ∉ marks.seen →
    Searches order (marks.enter txn) (order txn) false below →
    Searches order (below.leave txn) rest found after →
    Searches order marks (txn :: rest) found after

namespace Searches

variable {marks below after after' : Marks} {found found' : Bool}

/-- Where a search begins settles what it finds and what it marks. -/
theorem unique (search : Searches order marks txns found after)
    (search' : Searches order marks txns found' after') : found' = found ∧ after' = after := by
  induction search generalizing found' after' with
  | done =>
    cases search'
    exact ⟨rfl, rfl⟩
  | closes onPath =>
    cases search' with
    | closes => exact ⟨rfl, rfl⟩
    | passes off | finds off | leaves off => exact absurd onPath off
  | passes off known _ ih =>
    cases search' with
    | closes onPath => exact absurd onPath off
    | passes _ _ others => exact ih others
    | finds _ fresh | leaves _ fresh => exact absurd known fresh
  | finds off fresh _ ih =>
    cases search' with
    | closes onPath => exact absurd onPath off
    | passes _ known => exact absurd known fresh
    | finds _ _ deeper => exact ih deeper
    | leaves _ _ deeper => cases (ih deeper).1
  | leaves off fresh _ _ ihBelow ihRest =>
    cases search' with
    | closes onPath => exact absurd onPath off
    | passes _ known => exact absurd known fresh
    | finds _ _ deeper => cases (ihBelow deeper).1
    | leaves _ _ deeper others =>
      obtain ⟨-, rfl⟩ := ihBelow deeper
      exact ihRest others

/-- A search that finds a cycle from the first of some transactions ends there. -/
theorem cons_of_found (search : Searches order marks [txn] true after) :
    Searches order marks (txn :: rest) true after := by
  cases search with
  | closes onPath => exact .closes onPath
  | passes _ _ others => cases others
  | finds off fresh deeper => exact .finds off fresh deeper
  | leaves _ _ _ others => cases others

/-- A search that finds none there goes on with the others. -/
theorem cons_of_missed (search : Searches order marks [txn] false below)
    (others : Searches order below rest found after) :
    Searches order marks (txn :: rest) found after := by
  cases search with
  | passes off known done =>
    cases done
    exact .passes off known others
  | leaves off fresh deeper done =>
    cases done
    exact .leaves off fresh deeper others

end Searches

/-! ## The bounded search is one -/

/-- What a bounded search gives is what the search without a bound gives, which comes back to the same
path unless it finds a cycle. -/
def Follows (graph : WaitGraph) (path seen txns : List TxnId) (answer : Bool × List TxnId) : Prop :=
  ∃ after, Searches graph.targets ⟨seen, path⟩ txns answer.1 after ∧ after.seen = answer.2 ∧
    (answer.1 = false → after.path = path)

theorem follows_searchEach
    (each : ∀ next ∈ txns, ∀ seen,
      graph.Follows path seen [next] (graph.search depth path seen next)) :
    graph.Follows path seen txns (graph.searchEach depth path seen txns) := by
  induction txns generalizing seen with
  | nil => exact ⟨⟨seen, path⟩, .done, rfl, fun _ => rfl⟩
  | cons next txns ih =>
    obtain ⟨⟨seen', path'⟩, search, rfl, back⟩ := each next (.head _) seen
    rw [searchEach_cons]
    cases here : (graph.search depth path seen next).1 with
    | true =>
      rw [here] at search
      rw [if_pos rfl]
      exact ⟨_, here ▸ search.cons_of_found, rfl, fun missed => nomatch here.symm.trans missed⟩
    | false =>
      rw [here] at search
      obtain rfl : path' = path := back here
      obtain ⟨after, others, same, back⟩ := ih fun other mem => each other (.tail _ mem)
      rw [if_neg nofun]
      exact ⟨after, search.cons_of_missed others, same, back⟩

/-- The path holds distinct transactions that wait, so it is never longer than there are any. -/
theorem follows_search (bound : graph.size < depth + path.length) (distinct : path.Nodup)
    (waiting : path ⊆ graph.keys) :
    graph.Follows path seen [txn] (graph.search depth path seen txn) := by
  induction depth generalizing path seen txn with
  | zero =>
    have fits := length_path_le distinct waiting
    omega
  | succ depth ih =>
    rw [search_succ]
    by_cases onPath : txn ∈ path
    · rw [if_pos onPath]
      exact ⟨⟨seen, path⟩, .closes onPath, rfl, nofun⟩
    rw [if_neg onPath]
    by_cases known : txn ∈ seen
    · rw [if_pos known]
      exact ⟨⟨seen, path⟩, .passes onPath known .done, rfl, fun _ => rfl⟩
    rw [if_neg known]
    have deeper : graph.Follows (txn :: path) (txn :: seen) (graph.targets txn)
        (graph.searchEach depth (txn :: path) (txn :: seen) (graph.targets txn)) :=
      follows_searchEach fun next edge seen =>
        ih (by simp only [List.length_cons]; omega) (List.nodup_cons.2 ⟨onPath, distinct⟩)
          (List.cons_subset.2 ⟨Edge.mem_keys edge, waiting⟩)
    obtain ⟨below, search, same, back⟩ := deeper
    cases found : (graph.searchEach depth (txn :: path) (txn :: seen) (graph.targets txn)).1 with
    | true =>
      rw [found] at search
      exact ⟨below, found ▸ .finds onPath known search, same,
        fun missed => nomatch found.symm.trans missed⟩
    | false =>
      rw [found] at search
      refine ⟨below.leave txn, found ▸ .leaves onPath known search .done, same, fun _ => ?_⟩
      rw [Marks.leave, back found, List.erase_cons_head]

/-- A search that may go down more edges than there are transactions that wait answers as the search
without a bound does. -/
theorem searches_search (deep : graph.size < depth) (txn : TxnId) :
    ∃ after, Searches graph.targets .none [txn] (graph.search depth [] [] txn).1 after := by
  have follows : graph.Follows [] [] [txn] (graph.search depth [] [] txn) :=
    follows_search deep List.nodup_nil (List.nil_subset graph.keys)
  obtain ⟨after, search, -⟩ := follows
  exact ⟨after, search⟩

/-- So to let it go down even more edges makes no difference. -/
theorem search_eq_hasCycle (deep : graph.size < depth) (txn : TxnId) :
    (graph.search depth [] [] txn).1 = graph.hasCycle txn := by
  obtain ⟨_, bounded⟩ := searches_search deep txn
  obtain ⟨_, usual⟩ := searches_search (Nat.lt_succ_self graph.size) txn
  exact (usual.unique bounded).1

/-! ## Orders of the holders -/

/-- An order in which the holders that each transaction waits for can be gone through. -/
def Orders (graph : WaitGraph) (order : TxnId → List TxnId) : Prop :=
  ∀ txn next, next ∈ order txn ↔ graph.Edge txn next

/-- The graph with its holders in a given order. -/
def inOrder (graph : WaitGraph) (order : TxnId → List TxnId) : WaitGraph :=
  graph.mapValues fun txn wait => { wait with holders := order txn }

theorem targets_inOrder (orders : graph.Orders order) : (graph.inOrder order).targets = order := by
  funext txn
  rw [targets, inOrder, Dictionary.get?_mapValues]
  cases recorded : graph.get? txn with
  | some wait => rfl
  | none =>
    refine (List.eq_nil_iff_forall_not_mem.2 fun next mem => ?_).symm
    obtain ⟨wait, waits, -⟩ := edge_iff.1 ((orders txn next).1 mem)
    cases recorded.symm.trans waits

theorem hasCycle_inOrder (orders : graph.Orders order) (txn : TxnId) :
    (graph.inOrder order).hasCycle txn = graph.hasCycle txn := by
  have edges : (graph.inOrder order).Edge = graph.Edge := by
    funext txn next
    rw [Edge, targets_inOrder orders]
    exact propext (orders txn next)
  rw [Bool.eq_iff_iff, hasCycle_iff, hasCycle_iff, edges]

/-- Whatever the order, the search comes to an end, and with the same answer. -/
theorem exists_searches (orders : graph.Orders order) (txn : TxnId) :
    ∃ after, Searches order .none [txn] (graph.hasCycle txn) after := by
  have ends := searches_search (Nat.lt_succ_self (graph.inOrder order).size) txn
  rw [targets_inOrder orders] at ends
  exact hasCycle_inOrder orders txn ▸ ends

/-! ## Recording what a transaction waits for -/

/-- What becomes of a graph once a transaction is to wait for some holders.  This closes a cycle
exactly if one of the holders leads back to the transaction, and then nothing is recorded of it;
otherwise what it waits for is recorded, and nothing else of it.  What is recorded of others stays as
it is, and there is no cycle. -/
structure Records (graph : WaitGraph) (txn : TxnId) (wait : Wait) (closes : Bool)
    (after : WaitGraph) : Prop where
  exact : closes = true ↔ ∃ holder ∈ wait.holders, ReflTransGen graph.Edge holder txn
  own : after.get? txn = if closes = true then none else some wait
  others : ∀ other, other ≠ txn → after.get? other = graph.get? other
  acyclic : after.Acyclic

/-- A chain of edges that leads to a transaction needs none of its own edges. -/
theorem Acyclic.hasCycle_put_iff_exists (acyclic : graph.Acyclic) :
    hasCycle (graph.put txn wait) txn = true ↔
      ∃ holder ∈ wait.holders, ReflTransGen graph.Edge holder txn := by
  constructor
  · intro found
    obtain ⟨holder, mem, back⟩ := acyclic.exists_return found
    exact ⟨holder, mem, ReflTransGen.mono (fun _ _ edge => (edge_erase.1 edge).2) _ _ back⟩
  · rintro ⟨holder, mem, back⟩
    exact hasCycle_put_of_return mem back

theorem Acyclic.records (acyclic : graph.Acyclic) (txn : TxnId) (wait : Wait) :
    graph.Records txn wait (graph.record txn wait).1 (graph.record txn wait).2 := by
  have exact : hasCycle (graph.put txn wait) txn = true ↔
      ∃ holder ∈ wait.holders, ReflTransGen graph.Edge holder txn :=
    acyclic.hasCycle_put_iff_exists
  dsimp only [record]
  cases found : hasCycle (graph.put txn wait) txn with
  | true =>
    rw [found] at exact
    rw [if_pos rfl, Dictionary.erase_put]
    refine ⟨exact, ?_, fun other ne => ?_, acyclic.erase txn⟩
    · rw [Dictionary.get?_erase, if_pos rfl, if_pos rfl]
    · rw [Dictionary.get?_erase, if_neg ne]
  | false =>
    rw [found] at exact
    rw [if_neg nofun]
    refine ⟨exact, ?_, fun other ne => ?_, acyclic.put found⟩
    · rw [Dictionary.get?_put, if_pos rfl, if_neg nofun]
    · rw [Dictionary.get?_put, if_neg ne]

/-- Whatever the graph, the search from a transaction comes to an end, in every order of the holders and
always with the answer whether some cycle can be reached; a longer bound makes no difference to it.  So
what is to be waited for in a graph without cycles closes one exactly if some holder leads back to who
waits, and the graph is then left without a record of it, and otherwise with the new one. -/
theorem cycle_search_is_exact (graph : WaitGraph) (txn : TxnId) :
    (∀ order, graph.Orders order →
      (∃ after, Searches order .none [txn] (graph.hasCycle txn) after) ∧
      ∀ found after, Searches order .none [txn] found after → found = graph.hasCycle txn) ∧
    (∀ depth, graph.size < depth → (graph.search depth [] [] txn).1 = graph.hasCycle txn) ∧
    (graph.hasCycle txn = true ↔
      ∃ looped, ReflTransGen graph.Edge txn looped ∧ TransGen graph.Edge looped looped) ∧
    (graph.Acyclic → ∀ page holders,
      graph.Records txn ⟨page, holders⟩ (graph.record txn ⟨page, holders⟩).1
        (graph.record txn ⟨page, holders⟩).2) := by
  refine ⟨fun order orders => ⟨exists_searches orders txn, fun found after search => ?_⟩,
    fun _ deep => search_eq_hasCycle deep txn, hasCycle_iff,
    fun acyclic page holders => acyclic.records txn ⟨page, holders⟩⟩
  obtain ⟨after', ends⟩ := exists_searches orders txn
  exact (ends.unique search).1

/-- The statement above where two ways lead to one transaction and the search goes both, and where
they lead on to a cycle. -/
theorem cycle_search_is_exact_of_diamond :
    let page : PageId := ⟨0, 0⟩
    let upper : WaitGraph := (Dictionary.empty.put 1 ⟨page, [3]⟩).put 2 ⟨page, [3]⟩
    let diamond : WaitGraph := (upper.put 0 ⟨page, [1, 2]⟩).put 3 ⟨page, [4]⟩
    let looped : WaitGraph := diamond.put 4 ⟨page, [1]⟩
    let order : TxnId → List TxnId := fun txn => (looped.targets txn).reverse
    (looped.Orders order ∧ diamond.Acyclic) ∧
      ((∃ after, Searches order .none [0] true after) ∧ looped.hasCycle 0 = true ∧
        ∃ closer, ReflTransGen looped.Edge 0 closer ∧ TransGen looped.Edge closer closer) ∧
      diamond.hasCycle 0 = false ∧
      ((diamond.record 4 ⟨page, [1]⟩).1 = true ∧
        diamond.Records 4 ⟨page, [1]⟩ true (diamond.record 4 ⟨page, [1]⟩).2) ∧
      ((diamond.record 4 ⟨page, [5]⟩).1 = false ∧
        diamond.Records 4 ⟨page, [5]⟩ false (diamond.record 4 ⟨page, [5]⟩).2) := by
  intro page upper diamond looped order
  have orders : looped.Orders order := fun _ _ => List.mem_reverse
  have acyclic : diamond.Acyclic :=
    (((acyclic_empty.put (by decide)).put (by decide)).put (by decide)).put (by decide)
  have cycle : looped.hasCycle 0 = true := by decide
  obtain ⟨searches, -, exact, -⟩ := cycle_search_is_exact looped 0
  obtain ⟨-, -, -, records⟩ := cycle_search_is_exact diamond 4
  have closes : (diamond.record 4 ⟨page, [1]⟩).1 = true := by decide
  have waits : (diamond.record 4 ⟨page, [5]⟩).1 = false := by decide
  refine ⟨⟨orders, acyclic⟩, ⟨cycle ▸ (searches order orders).1, cycle, exact.1 cycle⟩, by decide,
    ⟨closes, ?_⟩, ⟨waits, ?_⟩⟩
  · exact closes ▸ records acyclic page [1]
  · exact waits ▸ records acyclic page [5]

end PageStore.WaitGraph
