import PageStore.Proofs.Query.Groups
import PageStore.Proofs.Query.Taking

/-!
# Aggregates give what they are

An aggregate takes all rows of its part when it is opened, whatever part that is, and then gives the
summary of these rows, one row at a time (`Plan.aggregate_gives_summary`).  It cannot be opened if
an integer field cannot hold a value of the summary, and this is the only failure of its own.
-/

namespace PageStore

namespace Turn

variable {σ : Type} {next : Turn σ (Option Row)} {now after ended : Store × σ}
  {rows others : List Row}

/-- Asked again and again, on whatever stores, a plan gives some rows and then no more. -/
def Yields (next : Turn σ (Option Row)) : List Row → σ → Prop
  | [], state => ∀ s, next (s, state) = .ok none (s, state)
  | row :: rows, state =>
    ∃ left, (∀ s, next (s, state) = .ok (some row) (s, left)) ∧ Yields next rows left

/-- There is one way to take all rows. -/
theorem Drains.unique (drains : Drains next now rows after) (again : Drains next now others ended) :
    rows = others ∧ after = ended := by
  obtain ⟨middle, takes, none⟩ := drains
  obtain ⟨middle', takes', none'⟩ := again
  induction takes generalizing others with
  | nil now =>
    cases takes' with
    | nil =>
      cases none.symm.trans none'
      exact ⟨rfl, rfl⟩
    | cons given => cases none.symm.trans given
  | cons given handled rest ih =>
    cases takes' with
    | nil => cases given.symm.trans none'
    | cons given' handled' rest' =>
      cases given.symm.trans given'
      cases handled
      cases handled'
      obtain ⟨rfl, rfl⟩ := ih none rest'
      exact ⟨rfl, rfl⟩

/-- What a plan yields can be taken from it on any store. -/
theorem Yields.drains {state : σ} (yields : Yields next rows state) (s : Store) :
    ∃ left, Drains next (s, state) rows (s, left) := by
  induction rows generalizing state with
  | nil => exact ⟨state, (s, state), .nil _, yields s⟩
  | cons row rows ih =>
    obtain ⟨left, gives, rest⟩ := yields
    obtain ⟨last, middle, takes, none⟩ := ih rest
    exact ⟨last, middle, .cons (gives s) rfl takes, none⟩

end Turn

namespace Plan

open Turn

variable {child : Plan} {agg : Aggregation} {schema : Schema} {s after : Store} {rows : List Row}
  {left : Option (List Row)} {below : child.State} {began ended : Store × child.State}

/-- The rows that an aggregate is left to give are those that it yields. -/
theorem aggregateNext_yields {σ : Type} (rows : List Row) (state : σ) :
    Yields aggregateNext rows (some rows, state) := by
  induction rows with
  | nil => exact fun s => rfl
  | cons row rows ih => exact ⟨(some rows, state), fun s => rfl, ih⟩

theorem listNext_some_of_append (given : List Row) (row : Row) (rows : List Row) (s : Store) :
    listNext (given ++ row :: rows) (s, some given.length) =
      .ok (some row) (s, some (given.length + 1)) := by
  have found : (given ++ row :: rows)[given.length]? = some row := by simp
  refine (Op.bind_ok rfl).trans ?_
  simp only [found]
  rfl

/-- A list yields its rows. -/
theorem list_yields (schema : Schema) (rows : List Row) :
    Yields (Plan.list schema rows).next rows (some 0 : Option Nat) := by
  suffices rest : ∀ given : List Row, Yields (listNext (given ++ rows)) rows (some given.length) from
    rest []
  induction rows with
  | nil =>
    intro given s
    refine (Op.bind_ok rfl).trans ?_
    simp only [List.append_nil, List.getElem?_length]
    rfl
  | cons row rows ih =>
    intro given
    refine ⟨some (given.length + 1), listNext_some_of_append given row rows, ?_⟩
    have rest := ih (given ++ [row])
    rw [List.append_assoc, List.length_append] at rest
    exact rest

/-- Tallying a row does nothing to the store. -/
theorem handles_addRow {σ : Type} (agg : Aggregation) :
    Handles (σ := σ) (fun groups row => ofExcept (agg.addRow groups row)) agg.addRow
      fun _ => pure () := by
  intro groups row
  funext now
  show (ofExcept (agg.addRow groups row) : Turn σ Groups) now = _
  cases agg.addRow groups row <;> rfl

/-- An aggregate is opened by opening its part, taking all its rows, and making the rows to give. -/
theorem start_aggregate (s : Store) (left : Option (List Row)) (below : child.State) :
    (Plan.aggregate child agg schema).start (s, (left, below)) =
      match child.start (s, below) with
      | .error stop (after, below) => .error stop (after, (left, below))
      | .ok _ (began, opened) =>
        match pullAll child.next (fun groups row => ofExcept (agg.addRow groups row))
            (child.supply opened began) .empty (began, opened) with
        | .error stop (after, below) => .error stop (after, (left, below))
        | .ok groups (after, below) =>
          match agg.results groups with
          | .error e => .error (.failed e) (after, (left, below))
          | .ok rows => .ok () (after, (some rows, below)) := by
  show aggregateStart agg child.start child.next child.supply (s, (left, below)) = _
  cases opens : child.start (s, below) with
  | error stop after => exact Op.bind_error (inChild_error left opens)
  | ok _ began =>
    refine (Op.bind_ok (inChild_ok left opens)).trans ((Op.bind_ok rfl).trans ?_)
    dsimp only
    cases pulls : pullAll child.next (fun groups row => ofExcept (agg.addRow groups row))
      (child.supply began.2 began.1) .empty began with
    | error stop after => exact Op.bind_error (inChild_error left pulls)
    | ok groups after =>
      refine (Op.bind_ok (inChild_ok left pulls)).trans ?_
      cases made : agg.results groups with
      | error e =>
        simp only [made]
        exact Op.bind_error rfl
      | ok rows =>
        simp only [made]
        exact Op.bind_ok rfl

/-- An aggregate that was opened has taken all rows of its part. -/
theorem drains_of_start {kept : Option (List Row)} {last : child.State}
    (opens : (Plan.aggregate child agg schema).start (s, (left, below)) =
      .ok () (after, (kept, last))) :
    ∃ began rows, child.start (s, below) = .ok () began ∧
      Drains child.next began rows (after, last) := by
  rw [start_aggregate] at opens
  cases starts : child.start (s, below) with
  | error stop failed =>
    rw [starts] at opens
    cases opens
  | ok _ began =>
    simp only [starts] at opens
    have pulls := pulled child.next (handles_addRow agg)
      (child.supply began.2 began.1) .empty began
    cases tallied : pullAll child.next (fun groups row => ofExcept (agg.addRow groups row))
      (child.supply began.2 began.1) .empty began with
    | error stop failed =>
      rw [tallied] at opens
      cases opens
    | ok groups ended =>
      rw [tallied] at opens pulls
      simp only at opens
      split at opens
      · cases opens
      · cases opens
        refine ⟨began, ?_⟩
        cases pulls with
        | @drained rows middle _ _ takes _ none => exact ⟨rows, rfl, middle, takes, none⟩
        | bounded takes _ all => exact absurd all (Nat.ne_of_lt (lt_supply_of_takes takes))

/-- An aggregate over rows that suit it is opened with their summary to give, if an integer field can
hold its values, and fails if not. -/
theorem start_of_drains (opens : child.start (s, below) = .ok () began)
    (drains : Drains child.next began rows ended) (suit : ∀ row ∈ rows, agg.Suits row)
    (schema : Schema) (left : Option (List Row)) :
    (agg.InRange rows → (Plan.aggregate child agg schema).start (s, (left, below)) =
      .ok () (ended.1, (some (agg.summary rows), ended.2))) ∧
    (¬ agg.InRange rows → ∃ value, (Plan.aggregate child agg schema).start (s, (left, below)) =
      .error (.failed (.overflow agg.function value)) (ended.1, (left, ended.2))) := by
  obtain ⟨groups, folds, tallied⟩ := Aggregation.exists_tallied suit
  have pulls := drains.pullAll (handles_addRow agg) folds (lt_supply_of_drains drains)
  refine ⟨fun inRange => ?_, fun outside => ?_⟩
  · rw [start_aggregate]
    simp only [opens, pulls, tallied.results_ok suit inRange]
  · obtain ⟨value, fails⟩ := tallied.results_error suit outside
    refine ⟨value, ?_⟩
    rw [start_aggregate]
    simp only [opens, pulls, fails]

/-- All rows of an aggregate are the summary of all rows of its part. -/
theorem all_aggregate (given : child.all s = .ok rows after) (suit : ∀ row ∈ rows, agg.Suits row)
    (out : List Row) (later : Store) :
    (Plan.aggregate child agg schema).all s = .ok out later ↔
      agg.InRange rows ∧ out = agg.summary rows ∧ later = after := by
  obtain ⟨began, last, starts, drains⟩ := all_eq_ok_iff.1 given
  obtain ⟨gives, fails⟩ := start_of_drains starts drains suit schema none
  obtain ⟨left, yields⟩ := (aggregateNext_yields (agg.summary rows) last).drains after
  rw [all_eq_ok_iff]
  by_cases inRange : agg.InRange rows
  · constructor
    · rintro ⟨began, left, opens, taken⟩
      cases (gives inRange).symm.trans opens
      obtain ⟨same, ended⟩ := yields.unique taken
      exact ⟨inRange, same.symm, (congrArg Prod.fst ended).symm⟩
    · rintro ⟨-, rfl, rfl⟩
      exact ⟨_, _, gives inRange, yields⟩
  · refine ⟨?_, fun ⟨inside, _⟩ => absurd inside inRange⟩
    rintro ⟨began, left, opens, -⟩
    obtain ⟨value, fails⟩ := fails inRange
    cases fails.symm.trans opens

/-- An aggregate that could be built, over whatever plan and on whatever store.  If it is opened, the
plan below was opened and gave all its rows; and if these fit the schema below, then the aggregate
gives their summary, whatever becomes of the store: for each group, in the order in which the groups
first appear, the field that it was grouped by, if there is one, and the values over its rows, each
of which the integer field holds that it is given as.

If the plan below can be opened and gives all its rows, and these fit, then it fails to be opened
exactly if an integer field cannot hold one of the values, and always for that reason. -/
theorem aggregate_gives_summary
    (built : aggregateOf child agg = .ok (.aggregate child agg schema)) (s : Store)
    (left : Option (List Row)) (below : child.State) :
    (∀ after kept last, (Plan.aggregate child agg schema).start (s, (left, below)) =
        .ok () (after, (kept, last)) →
      ∃ began rows, child.start (s, below) = .ok () began ∧
        Drains child.next began rows (after, last) ∧
        ((∀ row ∈ rows, row.fits child.schema) → agg.InRange rows ∧
          Yields (Plan.aggregate child agg schema).next (agg.summary rows) (kept, last))) ∧
    ∀ began rows ended, child.start (s, below) = .ok () began →
      Drains child.next began rows ended → (∀ row ∈ rows, row.fits child.schema) →
      ((∃ stop failed, (Plan.aggregate child agg schema).start (s, (left, below)) =
          .error stop failed) ↔
        ∃ key ∈ agg.groupsOf rows, ∃ value ∈ agg.exact (agg.members rows key),
          value < -2147483648 ∨ 2147483647 < value) ∧
      ∀ stop failed, (Plan.aggregate child agg schema).start (s, (left, below)) =
        .error stop failed → ∃ e, stop = .failed e ∧ e.kind = .value := by
  obtain ⟨_, accepted, same⟩ := Answer.bind_eq_ok.1 built
  cases same
  have suit {rows : List Row} (fit : ∀ row ∈ rows, row.fits child.schema) :
      ∀ row ∈ rows, agg.Suits row :=
    fun row mem => Aggregation.suits_of_fits accepted (fit row mem)
  refine ⟨fun after kept last opens => ?_, fun began rows ended starts drains fit => ?_⟩
  · obtain ⟨began, rows, starts, drains⟩ := drains_of_start opens
    refine ⟨began, rows, starts, drains, fun fit => ?_⟩
    obtain ⟨gives, fails⟩ := start_of_drains starts drains (suit fit) schema left
    by_cases inRange : agg.InRange rows
    · cases opens.symm.trans (gives inRange)
      exact ⟨inRange, aggregateNext_yields _ _⟩
    · obtain ⟨value, fails⟩ := fails inRange
      cases opens.symm.trans fails
  · obtain ⟨gives, fails⟩ := start_of_drains starts drains (suit fit) schema left
    have outside : (∃ key ∈ agg.groupsOf rows, ∃ value ∈ agg.exact (agg.members rows key),
        value < -2147483648 ∨ 2147483647 < value) ↔ ¬ agg.InRange rows := by
      simp only [Aggregation.InRange, not_forall, exists_prop]
      refine exists_congr fun key => and_congr_right fun _ => exists_congr fun value =>
        and_congr_right fun _ => ?_
      omega
    rw [outside]
    by_cases inRange : agg.InRange rows
    · refine ⟨⟨?_, fun outside => absurd inRange outside⟩, ?_⟩
      · rintro ⟨stop, failed, error⟩
        cases error.symm.trans (gives inRange)
      · intro stop failed error
        cases error.symm.trans (gives inRange)
    · obtain ⟨value, fails⟩ := fails inRange
      refine ⟨⟨fun _ => inRange, fun _ => ⟨_, _, fails⟩⟩, fun stop failed error => ?_⟩
      cases error.symm.trans fails
      exact ⟨_, rfl, rfl⟩

/-- The results of two players in two games. -/
def games : Plan :=
  .list ⟨[⟨.text, some "name"⟩, ⟨.int, some "points"⟩]⟩
    [.ofFields [.text "b", .int 3], .ofFields [.text "a", .int (-10)],
      .ofFields [.text "b", .int 4], .ofFields [.text "a", .int (-1)]]

/-- The averages of the players are cut off toward zero, and their greatest sum is one too large for
an integer field. -/
theorem aggregate_gives_summary_of_games :
    let averages := Plan.aggregate games ⟨1, some 0, .avg⟩
      ⟨[⟨.text, some "name"⟩, ⟨.int, some "avg(points)"⟩]⟩
    let large := Plan.list ⟨[⟨.int, none⟩]⟩ [.ofFields [.int 2147483647], .ofFields [.int 1]]
    let total := Plan.aggregate large ⟨0, none, .sum⟩ ⟨[⟨.int, some "sum(*)"⟩]⟩
    (∃ opened, averages.start (default, averages.initial) = .ok () (default, opened) ∧
      Yields averages.next [.ofFields [.text "b", .int 3], .ofFields [.text "a", .int (-5)]]
        opened) ∧
    ∃ e failed, total.start (default, total.initial) = .error (.failed e) failed ∧
      e.kind = .value := by
  intro averages large total
  refine ⟨?_, ?_⟩
  · have built : aggregateOf games ⟨1, some 0, .avg⟩ = .ok averages := rfl
    have opens : averages.start (default, averages.initial) = .ok () (default,
        (some [.ofFields [.text "b", .int 3], .ofFields [.text "a", .int (-5)]], some 4)) := rfl
    obtain ⟨began, rows, starts, drains, gives⟩ :=
      (aggregate_gives_summary built default none (none : Option Nat)).1 _ _ _ opens
    cases starts
    obtain ⟨_, given⟩ := (list_yields _ _).drains default
    obtain ⟨rfl, -⟩ := drains.unique given
    exact ⟨_, opens, (gives (by decide)).2⟩
  · have built : aggregateOf large ⟨0, none, .sum⟩ = .ok total := rfl
    obtain ⟨_, given⟩ := (list_yields _ [.ofFields [.int 2147483647], .ofFields [.int 1]]).drains
      default
    obtain ⟨fails, reason⟩ :=
      (aggregate_gives_summary built default none (none : Option Nat)).2 _ _ _ rfl given (by decide)
    obtain ⟨stop, failed, error⟩ := fails.2
      ⟨none, by decide, 2147483648, by decide, .inr (by decide)⟩
    obtain ⟨e, rfl, value⟩ := reason stop failed error
    exact ⟨e, failed, error, value⟩

end Plan

end PageStore
