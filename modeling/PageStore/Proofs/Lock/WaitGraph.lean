import Mathlib.Logic.Basic
import Mathlib.Logic.Relation
import PageStore.Lock.WaitGraph

/-!
# Cycles in the wait-for graph

`WaitGraph.Edge` is one edge, from a waiting transaction to one that it waits for, and a graph is
acyclic if no chain of edges leads from a transaction back to it.

`hasCycle_iff` says that the search finds a cycle exactly if one can be reached.  Whatever it
finds is there, since its path leads to where it is (`exists_cycle_of_search`).  What it does not
find is not there: when it leaves a transaction behind, everything that can be reached from there
is behind as well and free of cycles (`Explored`, `passes_search`).  The bound on its depth is
never met, since the transactions on its path are distinct and all of them wait.

A request replaces the edges of one transaction.  In a graph that was acyclic before, a cycle can
only lead through that transaction (`Acyclic.hasCycle_put_iff`).
-/

namespace PageStore.WaitGraph

open Relation (ReflTransGen TransGen)

variable {graph later : WaitGraph} {txn other target : TxnId} {wait : Wait} {depth : Nat}
  {path seen txns : List TxnId}

/-! ## Edges -/

/-- A transaction waits for another. -/
def Edge (graph : WaitGraph) (txn target : TxnId) : Prop := target ∈ graph.targets txn

/-- No transaction waits for itself, not even by way of others. -/
def Acyclic (graph : WaitGraph) : Prop := ∀ txn, ¬ TransGen graph.Edge txn txn

theorem edge_iff :
    graph.Edge txn target ↔ ∃ wait, graph.get? txn = some wait ∧ target ∈ wait.holders := by
  unfold Edge targets
  cases graph.get? txn <;> simp

theorem Edge.mem_keys (edge : graph.Edge txn target) : txn ∈ graph.keys := by
  obtain ⟨wait, recorded, -⟩ := edge_iff.1 edge
  rw [Dictionary.mem_keys_iff, recorded]
  rfl

/-- Fewer edges make no cycles. -/
theorem Acyclic.mono (acyclic : graph.Acyclic)
    (fewer : ∀ txn target, later.Edge txn target → graph.Edge txn target) : later.Acyclic :=
  fun txn cycle => acyclic txn (TransGen.mono fewer _ _ cycle)

theorem acyclic_empty : Acyclic (.empty : WaitGraph) := by
  intro txn cycle
  obtain ⟨target, edge, -⟩ := TransGen.head'_iff.1 cycle
  obtain ⟨wait, recorded, -⟩ := edge_iff.1 edge
  cases recorded

/-- A path of distinct transactions that wait is no longer than there are any. -/
theorem length_path_le (distinct : path.Nodup) (waiting : path ⊆ graph.keys) :
    path.length ≤ graph.size := by
  rw [← graph.length_keys]
  exact List.Nodup.length_le_of_subset distinct waiting

/-! ## The search -/

/-- Searches from some transactions, one after another, up to the first that finds a cycle. -/
def searchEach (graph : WaitGraph) (depth : Nat) (path seen txns : List TxnId) :
    Bool × List TxnId :=
  txns.foldl
    (fun (found, seen) next =>
      if found then (found, seen) else graph.search depth path seen next)
    (false, seen)

theorem search_succ (graph : WaitGraph) (depth : Nat) (path seen : List TxnId) (txn : TxnId) :
    graph.search (depth + 1) path seen txn =
      if txn ∈ path then (true, seen)
      else if txn ∈ seen then (false, seen)
      else graph.searchEach depth (txn :: path) (txn :: seen) (graph.targets txn) := rfl

theorem searchEach_cons (graph : WaitGraph) (depth : Nat) (path seen : List TxnId) (next : TxnId)
    (txns : List TxnId) :
    graph.searchEach depth path seen (next :: txns) =
      if (graph.search depth path seen next).1 then graph.search depth path seen next
      else graph.searchEach depth path (graph.search depth path seen next).2 txns := by
  have stops (seen : List TxnId) :
      txns.foldl
        (fun (found, seen) next =>
          if found then (found, seen) else graph.search depth path seen next)
        (true, seen) = (true, seen) := by
    induction txns with
    | nil => rfl
    | cons _ _ ih => exact ih
  unfold searchEach
  rw [List.foldl_cons]
  cases search : graph.search depth path seen next with
  | mk found seen' =>
    cases found with
    | true => simpa [search] using stops seen'
    | false => simp [search]

/-- If searches one after another find a cycle, one of them does. -/
theorem exists_search_of_searchEach
    (found : (graph.searchEach depth path seen txns).1 = true) :
    ∃ next ∈ txns, ∃ seen', (graph.search depth path seen' next).1 = true := by
  induction txns generalizing seen with
  | nil => cases found
  | cons next txns ih =>
    rw [searchEach_cons] at found
    split at found
    · next here => exact ⟨next, .head _, seen, here⟩
    · obtain ⟨next', mem, seen', later⟩ := ih found
      exact ⟨next', .tail _ mem, seen', later⟩

/-- A cycle that the search finds can be reached from where it is. -/
theorem exists_cycle_of_search (leads : ∀ above ∈ path, TransGen graph.Edge above txn)
    (found : (graph.search depth path seen txn).1 = true) :
    ∃ looped, ReflTransGen graph.Edge txn looped ∧ TransGen graph.Edge looped looped := by
  induction depth generalizing path seen txn with
  | zero => cases found
  | succ depth ih =>
    rw [search_succ] at found
    split at found
    · next onPath => exact ⟨txn, .refl, leads txn onPath⟩
    · split at found
      · cases found
      · obtain ⟨next, edge, seen', below⟩ := exists_search_of_searchEach found
        have leads' : ∀ above ∈ txn :: path, TransGen graph.Edge above next := by
          intro above mem
          rcases List.mem_cons.1 mem with rfl | mem
          · exact .single edge
          · exact (leads above mem).tail edge
        obtain ⟨looped, reaches, cycle⟩ := ih leads' below
        exact ⟨looped, .head edge reaches, cycle⟩

/-! ## What a search leaves behind -/

/-- The search has been at a transaction and left it. -/
def Behind (path seen : List TxnId) (txn : TxnId) : Prop := txn ∈ seen ∧ txn ∉ path

/-- Everything that waiting leads to from behind the search is behind it too, and on no cycle. -/
structure Explored (graph : WaitGraph) (path seen : List TxnId) : Prop where
  closed : ∀ txn target, Behind path seen txn → graph.Edge txn target → Behind path seen target
  acyclic : ∀ txn, Behind path seen txn → ¬ TransGen graph.Edge txn txn

theorem Explored.reaches (explored : graph.Explored path seen) (behind : Behind path seen txn)
    (reached : ReflTransGen graph.Edge txn target) : Behind path seen target := by
  induction reached with
  | refl => exact behind
  | tail _ edge ih => exact explored.closed _ _ ih edge

/-- Going down to a transaction leaves nothing behind. -/
theorem Explored.enter (explored : graph.Explored path seen) (fresh : txn ∉ seen) :
    graph.Explored (txn :: path) (txn :: seen) := by
  have same : ∀ other, Behind (txn :: path) (txn :: seen) other ↔ Behind path seen other := by
    intro other
    have apart : other ∈ seen → other ≠ txn := fun mem same => fresh (same ▸ mem)
    simp only [Behind, List.mem_cons, not_or]
    constructor
    · rintro ⟨rfl | mem, ne, off⟩
      · exact absurd rfl ne
      · exact ⟨mem, off⟩
    · rintro ⟨mem, off⟩
      exact ⟨.inr mem, apart mem, off⟩
  refine ⟨fun other target behind edge => ?_, fun other behind => ?_⟩
  · exact (same target).2 (explored.closed other target ((same other).1 behind) edge)
  · exact explored.acyclic other ((same other).1 behind)

/-- Coming back from a transaction leaves it behind, if all that it waits for is behind. -/
theorem Explored.leave (explored : graph.Explored (txn :: path) seen) (here : txn ∈ seen)
    (off : txn ∉ path) (below : ∀ next, graph.Edge txn next → Behind (txn :: path) seen next) :
    graph.Explored path seen := by
  have split : ∀ other, Behind path seen other → other = txn ∨ Behind (txn :: path) seen other := by
    rintro other ⟨mem, off⟩
    rcases eq_or_ne other txn with same | ne
    · exact .inl same
    · exact .inr ⟨mem, by simp [ne, off]⟩
  have widen : ∀ other, Behind (txn :: path) seen other → Behind path seen other :=
    fun other behind => ⟨behind.1, fun mem => behind.2 (.tail _ mem)⟩
  refine ⟨fun other target behind edge => ?_, fun other behind cycle => ?_⟩
  · rcases split other behind with rfl | behind
    · exact widen target (below target edge)
    · exact widen target (explored.closed other target behind edge)
  · rcases split other behind with rfl | behind
    · obtain ⟨next, edge, back⟩ := TransGen.head'_iff.1 cycle
      exact (explored.reaches (below next edge) back).2 (.head _)
    · exact explored.acyclic other behind cycle

/-- What a search that finds no cycle leaves behind: where it began, and what was behind before. -/
structure Passes (graph : WaitGraph) (path seen : List TxnId) (txns : List TxnId)
    (seen' : List TxnId) : Prop where
  explored : graph.Explored path seen'
  keeps : seen ⊆ seen'
  behind : ∀ txn ∈ txns, Behind path seen' txn

/-- If every search leaves behind where it began, so do searches one after another. -/
theorem passes_searchEach (explored : graph.Explored path seen)
    (each : ∀ next ∈ txns, ∀ seen, graph.Explored path seen →
      (graph.search depth path seen next).1 = false →
        graph.Passes path seen [next] (graph.search depth path seen next).2)
    (missed : (graph.searchEach depth path seen txns).1 = false) :
    graph.Passes path seen txns (graph.searchEach depth path seen txns).2 := by
  induction txns generalizing seen with
  | nil => exact ⟨explored, fun _ mem => mem, nofun⟩
  | cons next txns ih =>
    rw [searchEach_cons] at missed ⊢
    cases here : (graph.search depth path seen next).1 with
    | true => simp [here] at missed
    | false =>
      rw [if_neg (by simp [here])] at missed ⊢
      have first := each next (.head _) seen explored here
      have rest := ih first.explored (fun other mem => each other (.tail _ mem)) missed
      refine ⟨rest.explored, fun _ mem => rest.keeps (first.keeps mem), ?_⟩
      intro other mem
      rcases List.mem_cons.1 mem with rfl | mem
      · have behind := first.behind other (.head _)
        exact ⟨rest.keeps behind.1, behind.2⟩
      · exact rest.behind other mem

/-- A search that finds no cycle leaves behind where it began.  The path holds distinct waiting
transactions, so there are fewer of them than the search may still go down. -/
theorem passes_search (bound : graph.size < depth + path.length) (distinct : path.Nodup)
    (waiting : path ⊆ graph.keys) (explored : graph.Explored path seen)
    (missed : (graph.search depth path seen txn).1 = false) :
    graph.Passes path seen [txn] (graph.search depth path seen txn).2 := by
  induction depth generalizing path seen txn with
  | zero =>
    have fits := length_path_le distinct waiting
    omega
  | succ depth ih =>
    rw [search_succ] at missed ⊢
    by_cases onPath : txn ∈ path
    · simp [onPath] at missed
    rw [if_neg onPath] at missed ⊢
    by_cases known : txn ∈ seen
    · rw [if_pos known]
      exact ⟨explored, fun _ mem => mem, List.forall_mem_singleton.2 ⟨known, onPath⟩⟩
    rw [if_neg known] at missed ⊢
    have below := passes_searchEach (explored.enter known) (fun next edge seen explored missed =>
      ih (by simp only [List.length_cons]; omega) (List.nodup_cons.2 ⟨onPath, distinct⟩)
        (List.cons_subset.2 ⟨Edge.mem_keys edge, waiting⟩) explored missed) missed
    have here := below.keeps (List.mem_cons_self (a := txn))
    exact ⟨below.explored.leave here onPath below.behind, fun _ mem => below.keeps (.tail _ mem),
      List.forall_mem_singleton.2 ⟨here, onPath⟩⟩

/-- The search finds a cycle exactly if one can be reached. -/
theorem hasCycle_iff :
    graph.hasCycle txn = true ↔
      ∃ looped, ReflTransGen graph.Edge txn looped ∧ TransGen graph.Edge looped looped := by
  constructor
  · exact exists_cycle_of_search nofun
  · rintro ⟨looped, reaches, cycle⟩
    cases missed : graph.hasCycle txn with
    | true => rfl
    | false =>
      have nothing : graph.Explored [] [] :=
        ⟨fun _ _ ⟨seen, _⟩ => (nomatch seen), fun _ ⟨seen, _⟩ => (nomatch seen)⟩
      have bound : graph.size < graph.size + 1 + ([] : List TxnId).length := Nat.lt_succ_self _
      have passes := passes_search bound List.nodup_nil (List.nil_subset _) nothing missed
      have behind := passes.explored.reaches (passes.behind txn (.head _)) reaches
      exact absurd cycle (passes.explored.acyclic looped behind)

/-! ## Replacing the edges of one transaction -/

theorem edge_put : Edge (graph.put txn wait) other target ↔
    if other = txn then target ∈ wait.holders else graph.Edge other target := by
  rw [edge_iff, Dictionary.get?_put]
  split
  · simp
  · rw [edge_iff]

theorem edge_erase :
    Edge (graph.erase txn) other target ↔ other ≠ txn ∧ graph.Edge other target := by
  rw [edge_iff, Dictionary.get?_erase]
  split
  · next same => simp [same]
  · next ne => simp [ne, edge_iff]

theorem Acyclic.erase (acyclic : graph.Acyclic) (txn : TxnId) : Acyclic (graph.erase txn) :=
  acyclic.mono fun _ _ edge => (edge_erase.1 edge).2

theorem edge_put_of_erase (edge : Edge (graph.erase txn) other target) :
    Edge (graph.put txn wait) other target := by
  obtain ⟨ne, edge⟩ := edge_erase.1 edge
  rw [edge_put, if_neg ne]
  exact edge

/-- A chain of edges does without the new ones, or comes to their transaction without them. -/
theorem reaches_put (reached : ReflTransGen (Edge (graph.put txn wait)) other target) :
    ReflTransGen (Edge (graph.erase txn)) other target ∨
      ReflTransGen (Edge (graph.erase txn)) other txn ∧
        ReflTransGen (Edge (graph.put txn wait)) txn target := by
  induction reached with
  | refl => exact .inl .refl
  | @tail middle target _ edge ih =>
    rcases ih with without | ⟨without, reached⟩
    · rcases eq_or_ne middle txn with rfl | ne
      · exact .inr ⟨without, .single edge⟩
      · rw [edge_put, if_neg ne] at edge
        exact .inl (without.tail (edge_erase.2 ⟨ne, edge⟩))
    · exact .inr ⟨without, reached.tail edge⟩

/-- In a graph that was acyclic, every cycle leads through the transaction with the new edges. -/
theorem Acyclic.cycle_put (acyclic : graph.Acyclic)
    (cycle : TransGen (Edge (graph.put txn wait)) other other) :
    TransGen (Edge (graph.put txn wait)) txn txn := by
  rcases eq_or_ne other txn with rfl | ne
  · exact cycle
  · obtain ⟨next, edge, back⟩ := TransGen.head'_iff.1 cycle
    rcases reaches_put back with without | ⟨without, returns⟩
    · rw [edge_put, if_neg ne] at edge
      have old := TransGen.head' (edge_erase.2 ⟨ne, edge⟩) without
      exact absurd old (acyclic.erase txn other)
    · have comes : ReflTransGen (Edge (graph.put txn wait)) next txn :=
        ReflTransGen.mono (fun _ _ => edge_put_of_erase) _ _ without
      exact (TransGen.trans_right returns (.single edge)).trans_left comes

/-- The search from a transaction with new edges tells whether it is on a cycle itself. -/
theorem Acyclic.hasCycle_put_iff (acyclic : graph.Acyclic) :
    hasCycle (graph.put txn wait) txn = true ↔ TransGen (Edge (graph.put txn wait)) txn txn := by
  rw [hasCycle_iff]
  constructor
  · rintro ⟨looped, -, cycle⟩
    exact acyclic.cycle_put cycle
  · exact fun cycle => ⟨txn, .refl, cycle⟩

/-- New edges from which the search finds no cycle make none. -/
theorem Acyclic.put (acyclic : graph.Acyclic)
    (missed : hasCycle (graph.put txn wait) txn = false) : Acyclic (graph.put txn wait) := by
  intro other cycle
  rw [acyclic.hasCycle_put_iff.2 (acyclic.cycle_put cycle)] at missed
  cases missed

/-- A cycle through the new edges takes one of them and comes back by edges of other
transactions. -/
theorem Acyclic.exists_return (acyclic : graph.Acyclic)
    (found : hasCycle (graph.put txn wait) txn = true) :
    ∃ first ∈ wait.holders, ReflTransGen (Edge (graph.erase txn)) first txn := by
  obtain ⟨first, edge, back⟩ := TransGen.head'_iff.1 (acyclic.hasCycle_put_iff.1 found)
  rw [edge_put, if_pos rfl] at edge
  refine ⟨first, edge, ?_⟩
  rcases reaches_put back with without | ⟨without, -⟩ <;> exact without

/-- New edges from which the old ones lead back make a cycle, and the search finds it. -/
theorem hasCycle_put_of_return {first : TxnId} (mem : first ∈ wait.holders)
    (back : ReflTransGen graph.Edge first txn) : hasCycle (graph.put txn wait) txn = true := by
  -- Up to where the way back first comes to the transaction, no edge on it was replaced.
  have returns : ∀ start, ReflTransGen graph.Edge start txn →
      ReflTransGen (Edge (graph.put txn wait)) start txn := by
    intro start back
    induction back using ReflTransGen.head_induction_on with
    | refl => exact .refl
    | @head start next edge _ ih =>
      rcases eq_or_ne start txn with rfl | ne
      · exact .refl
      · refine .head ?_ ih
        rw [edge_put, if_neg ne]
        exact edge
  have leaves : Edge (graph.put txn wait) txn first := by
    rw [edge_put, if_pos rfl]
    exact mem
  exact hasCycle_iff.2 ⟨txn, .refl, .head' leaves (returns first back)⟩

/-- New edges make no cycle that lead to other transactions without edges. -/
theorem hasCycle_put_of_leaves
    (leaves : ∀ target ∈ wait.holders, target ≠ txn ∧ graph.get? target = none) :
    hasCycle (graph.put txn wait) txn = false := by
  have ends {target next : TxnId} (mem : target ∈ wait.holders) :
      ¬ Edge (graph.put txn wait) target next := by
    obtain ⟨ne, none⟩ := leaves target mem
    rw [edge_put, if_neg ne, edge_iff, none]
    rintro ⟨_, ⟨⟩, -⟩
  refine Bool.eq_false_iff.2 fun found => ?_
  obtain ⟨looped, reached, cycle⟩ := hasCycle_iff.1 found
  obtain ⟨target, edge, reached⟩ := TransGen.head'_iff.1 (TransGen.trans_right reached cycle)
  rw [edge_put, if_pos rfl] at edge
  rcases ReflTransGen.cases_head reached with rfl | ⟨next, leads, -⟩
  · obtain ⟨next, leads, -⟩ := TransGen.head'_iff.1 cycle
    exact ends edge leads
  · exact ends edge leads

end PageStore.WaitGraph
