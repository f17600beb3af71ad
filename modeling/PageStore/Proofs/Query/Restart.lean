import Mathlib.Logic.Relation
import PageStore.Proofs.Query.Calm
import PageStore.Proofs.Schedule.Isolation

/-!
# Plans that are opened again

A plan that only reads gives the same rows each time it is opened, as long as nobody changes its
tables.  Opening a plan, whatever its state, takes it to one state (`opens_start`), because an
aggregate takes all rows of a part that was itself just opened; and from one state all rows are
taken alike in all calm stores (`collect_ends`).  A plan that is closed refuses to give rows until
it is opened (`Shut`).
-/

namespace PageStore.Plan

open Turn

variable {calm : Store → Prop} {s after : Store} {plan : Plan}

/-- The plan only reads, and the tables that it reads are served among calm stores. -/
def ReadsUnder (calm : Store → Prop) : Plan → Prop
  | .list .. => True
  | .scan file _ txn mode => Serves calm file txn mode
  | .aggregate child .. => ReadsUnder calm child
  | .insert .. | .delete .. => False

theorem next_repeats (reads : plan.ReadsUnder calm) (here : calm s) :
    plan.next.Repeats calm plan.supply := by
  cases plan with
  | list schema rows => exact listNext_repeats calm schema rows
  | scan file schema txn mode => exact Serves.repeats reads here schema
  | aggregate child agg schema => exact aggregateNext_repeats calm
  | insert => exact reads.elim
  | delete => exact reads.elim

/-! ## Opening -/

/-- Opening a plan, whatever its state, takes it to one state in all calm stores, or stops for one
reason. -/
def Opens {σ : Type} (open' : Turn σ Unit) (calm : Store → Prop) (opening : Except Stop σ) : Prop :=
  ∀ state, match opening with
    | .ok opened => open'.Ends calm state (.ok ()) opened
    | .error stop => ∃ left, open'.Ends calm state (.error stop) left

/-- An aggregate is opened alike if its part is opened alike and has rows that are taken alike. -/
theorem opens_aggregateStart {σ : Type} {start : Turn σ Unit} {next : Turn σ (Option Row)}
    {bound : σ → Store → Nat} {opening : Except Stop σ} (agg : Aggregation)
    (opens : Opens start calm opening) (repeats : next.Repeats calm bound) (here : calm s) :
    ∃ opening, Opens (aggregateStart agg start next bound) calm opening := by
  match opening, opens with
  | .error stop, opens =>
    refine ⟨.error stop, fun (left, child) => ?_⟩
    obtain ⟨child', ends⟩ := opens child
    exact ⟨(left, child'), (ends.inChild left).bind_error⟩
  | .ok opened, opens =>
    have handles (groups : Groups) (row : Row) (child : σ) : ∃ answer,
        (ofExcept (agg.addRow groups row) : Turn σ Groups).Ends calm child answer child := by
      cases told : agg.addRow groups row with
      | ok more => exact ⟨.ok more, ends_answer rfl⟩
      | error e => exact ⟨.error (.failed e), ends_refusal rfl⟩
    obtain ⟨tallied, child, pulls, -⟩ := repeats.pullAll here handles opened .empty
    match tallied, pulls with
    | .error stop, pulls =>
      refine ⟨.error stop, fun (left, old) => ⟨(left, child), ?_⟩⟩
      refine ((opens old).inChild left).bind (ends_get fun s calmed => ?_)
      exact ((pulls s calmed).inChild left).bind_error
    | .ok groups, pulls =>
      cases made : agg.results groups with
      | error e =>
        refine ⟨.error (.failed e), fun (left, old) => ⟨(left, child), ?_⟩⟩
        refine ((opens old).inChild left).bind (ends_get fun s calmed => ?_)
        refine ((pulls s calmed).inChild left).bind ?_
        exact (ends_refusal made).bind_error
      | ok rows =>
        refine ⟨.ok (some rows, child), fun (left, old) => ?_⟩
        refine ((opens old).inChild left).bind (ends_get fun s calmed => ?_)
        refine ((pulls s calmed).inChild left).bind ?_
        exact (ends_answer made).bind fun s calmed => ⟨s, calmed, rfl⟩

theorem opens_start (reads : plan.ReadsUnder calm) (here : calm s) :
    ∃ opening, Opens plan.start calm opening := by
  induction plan with
  | list schema rows => exact ⟨.ok (some 0 : Option Nat), fun _ => ends_setState _⟩
  | scan file schema txn mode =>
    exact ⟨.ok (some ⟨0, []⟩ : Option Cursor), fun _ => ends_setState _⟩
  | aggregate child agg schema ih =>
    obtain ⟨opening, opens⟩ := ih reads
    exact opens_aggregateStart agg opens (next_repeats reads here) here
  | insert => exact reads.elim
  | delete => exact reads.elim

theorem opens_rewind {opening : Except Stop plan.State} (opens : Opens plan.start calm opening) :
    Opens plan.rewind calm opening := by
  intro state
  have closes : plan.close.Ends calm state (.ok ()) (plan.closed state) :=
    fun s here => ⟨s, here, rfl⟩
  match opening, opens with
  | .ok opened, opens => exact closes.bind (opens _)
  | .error stop, opens =>
    obtain ⟨left, ends⟩ := opens (plan.closed state)
    exact ⟨left, closes.bind ends⟩

/-! ## Taking all rows -/

theorem collect_ends (reads : plan.ReadsUnder calm) (here : calm s) (state : plan.State) :
    ∃ answer left, plan.collect.Ends calm state answer left ∧
      ∀ rows, answer = .ok rows → plan.next.Ends calm left (.ok none) left := by
  have handles (rows : List Row) (row : Row) (state : plan.State) : ∃ answer,
      (pure (row :: rows) : Turn plan.State (List Row)).Ends calm state answer state :=
    ⟨_, ends_pure _⟩
  obtain ⟨answer, left, pulls, ended⟩ :=
    (next_repeats reads here).pullAll here handles state []
  match answer, pulls, ended with
  | .error stop, pulls, _ =>
    exact ⟨.error stop, left, ends_get fun s calmed => (pulls s calmed).bind_error, nofun⟩
  | .ok rows, pulls, ended =>
    exact ⟨.ok rows.reverse, left, ends_get fun s calmed => (pulls s calmed).bind (ends_pure _),
      fun _ _ => ended rows rfl⟩

/-! ## Closed plans -/

/-- The plan is not open. -/
def Shut : (plan : Plan) → plan.State → Prop
  | .list .., given => (given : Option Nat) = none
  | .scan .., cursor => (cursor : Option Cursor) = none
  | .aggregate .., state => (Prod.fst state : Option (List Row)) = none
  | .insert .., state => (Prod.fst state : Progress) = .closed
  | .delete .., state => (Prod.fst state : Progress) = .closed

theorem shut_closed (plan : Plan) (state : plan.State) : plan.Shut (plan.closed state) := by
  cases plan <;> rfl

theorem supply_pos (plan : Plan) (state : plan.State) (s : Store) : 0 < plan.supply state s := by
  cases plan <;> exact Nat.zero_lt_succ _

/-- A plan that is not open refuses to give a row. -/
theorem Shut.next {state : plan.State} (shut : plan.Shut state) (s : Store) :
    ∃ operator, plan.next (s, state) = .error (.failed (.notOpen operator)) (s, state) := by
  cases plan with
  | list schema rows =>
    cases (shut : (state : Option Nat) = none)
    exact ⟨.list, rfl⟩
  | scan file schema txn mode =>
    cases (shut : (state : Option Cursor) = none)
    exact ⟨.scan, rfl⟩
  | aggregate child agg schema =>
    obtain ⟨left, below⟩ := state
    cases (shut : left = none)
    exact ⟨.aggregate, rfl⟩
  | insert child txn table =>
    obtain ⟨progress, below⟩ := state
    cases (shut : progress = .closed)
    exact ⟨.insert, rfl⟩
  | delete child txn =>
    obtain ⟨progress, below⟩ := state
    cases (shut : progress = .closed)
    exact ⟨.delete, rfl⟩

/-- Nothing but opening a plan opens it. -/
theorem Shut.obeys {state left : plan.State} (shut : plan.Shut state) {command : Command}
    (start : command ≠ .start) (rewind : command ≠ .rewind)
    (obeys : plan.Obeys command state left) : plan.Shut left := by
  obtain ⟨s, rfl⟩ := obeys
  obtain ⟨operator, refuses⟩ := shut.next s
  cases command with
  | start => exact absurd rfl start
  | rewind => exact absurd rfl rewind
  | close => exact shut_closed plan state
  | next =>
    have ran : Command.next.turn plan (s, state) = .error _ (s, state) := Op.bind_error refuses
    rw [ran]
    exact shut
  | collect =>
    have ran : plan.collect (s, state) = .error (.failed (.notOpen operator)) (s, state) := by
      have pulls := pullAll_error (plan.supply_pos state s) refuses
        (fun rows row => return row :: rows) []
      exact (Op.bind_ok rfl).trans (Op.bind_error pulls)
    have ran : Command.collect.turn plan (s, state) = .error _ (s, state) := Op.bind_error ran
    rw [ran]
    exact shut

/-! ## What opening again leads to -/

/-- What a plan does that gives the same rows each time it is opened, in whatever state it was. -/
structure Restarts (calm : Store → Prop) (plan : Plan) : Prop where
  /-- A plan that could be opened, or opened again, is in the state that a plan which was never
  used comes to by being opened, in any calm store. -/
  opens : ∀ s state after opened, calm s →
    plan.start (s, state) = .ok () (after, opened) ∨
      plan.rewind (s, state) = .ok () (after, opened) →
    calm after ∧ plan.start.Ends calm plan.initial (.ok ()) opened
  /-- From one state a plan gives the same rows in all calm stores, one by one or all at once. -/
  gives : ∀ s state, calm s →
    (∃ answer left, plan.next.Ends calm state answer left) ∧
      ∃ answer left, plan.collect.Ends calm state answer left
  /-- After its last row, a plan gives no more rows. -/
  ended : ∀ s state after left, calm s →
    plan.next (s, state) = .ok none (after, left) ∨
      (∃ rows, plan.collect (s, state) = .ok rows (after, left)) →
    plan.next.Ends calm left (.ok none) left
  /-- A plan that was closed refuses to give rows, in any store, until it is opened. -/
  closed : ∀ s state after shut left, plan.close (s, state) = .ok () (after, shut) →
    Relation.ReflTransGen (fun state left => ∃ command, command ≠ .start ∧ command ≠ .rewind ∧
      plan.Obeys command state left) shut left →
    ∀ t, ∃ operator, plan.next (t, left) = .error (.failed (.notOpen operator)) (t, left)

/-- A plan that only reads gives the same rows each time it is opened, as long as nobody changes its
tables and it is granted all pages. -/
theorem restarts (reads : plan.ReadsUnder calm) : plan.Restarts calm where
  opens s state after opened here := by
    obtain ⟨opening, opens⟩ := opens_start reads here
    have same (open' : Turn plan.State Unit) (opens' : Opens open' calm opening)
        (ok : open' (s, state) = .ok () (after, opened)) :
        calm after ∧ plan.start.Ends calm plan.initial (.ok ()) opened := by
      match opening, opens, opens' state with
      | .ok first, opens, ends =>
        obtain ⟨-, rfl, calmed⟩ := ends.of_ok here ok
        exact ⟨calmed, opens plan.initial⟩
      | .error stop, _, ⟨left, ends⟩ => cases (ends.of_ok here ok).1
    rintro (ok | ok)
    · exact same plan.start opens ok
    · exact same plan.rewind (opens_rewind opens) ok
  gives s state here := by
    obtain ⟨answer, left, collects, -⟩ := collect_ends reads here state
    exact ⟨(next_repeats reads here).ends state, answer, left, collects⟩
  ended s state after left here := by
    rintro (ok | ⟨rows, ok⟩)
    · exact (next_repeats reads here).stays s state after left here ok
    · obtain ⟨answer, last, collects, ended⟩ := collect_ends reads here state
      obtain ⟨same, rfl, -⟩ := collects.of_ok here ok
      exact ended rows same
  closed s state after shut left ok quiet t := by
    cases ok
    have still : plan.Shut left := by
      induction quiet with
      | refl => exact shut_closed plan state
      | tail _ obeys shut =>
        obtain ⟨command, start, rewind, obeys⟩ := obeys
        exact shut.obeys start rewind obeys
    exact still.next t

/-- The statement above for the count of the rows of a table whose only page the reader holds, after
another transaction stored the row on it. -/
theorem restarts_beside_held_table :
    let sys := System.small.acts [.begin, .demand 0 (.insert System.smallFile.table ⟨[.int 7], none⟩),
      .advance 0, .commit 0, .begin, .demand 1 (.scan System.smallFile.table .shared), .advance 1]
    let plan : Plan := .aggregate (.scan System.smallFile System.smallFile.schema 1 .shared)
      ⟨0, none, .count⟩ ⟨[⟨.int, some "count(*)"⟩]⟩
    let calm := Pinned System.smallFile 1 .shared [[1, 0, 0, 0, 7, 0, 0, 0]]
    calm sys.store ∧
      Op.answer (plan.all sys.store) = .ok [.ofFields [.int 1]] ∧ plan.Restarts calm := by
  intro sys plan calm
  have run : System.Run (fun sys => Action.KeepsWrites sys.store) System.small
      (System.small.hears _) sys :=
    System.run_acts System.small fun action mem sys => by
      simp only [List.mem_cons, List.not_mem_nil, or_false] at mem
      rcases mem with rfl | rfl | rfl | rfl | rfl | rfl | rfl <;> trivial
  have here : calm sys.store := by
    refine ⟨(run.steady System.small_fresh).coherent, (run.guarded System.small_fresh).locks,
      by decide +kernel, fun number bytes listed => ?_, fun number inside => ?_⟩
    · obtain ⟨inside, same⟩ := List.getElem?_eq_some_iff.1 listed
      obtain rfl : number = 0 := Nat.lt_one_iff.1 inside
      cases same
      refine ⟨⟨0, ⟨⟨System.smallFile.table, 0⟩, [1, 0, 0, 0, 7, 0, 0, 0], none,
        [1, 0, 0, 0, 7, 0, 0, 0]⟩⟩, ?_, rfl⟩
      decide +kernel
    · obtain rfl : number = 0 := Nat.lt_one_iff.1 inside
      exact .inl (by decide +kernel)
  refine ⟨here, by decide +kernel, restarts ?_⟩
  exact pinned_serves System.smallFile 1 .shared _

end PageStore.Plan
