import PageStore.Proofs.Query.Restart
import PageStore.Proofs.Query.Scan

/-!
# Rows taken one after another

What takes all rows of a plan does something with each row before it asks for the next, so the
store that a row is asked of depends on all rows before.  `Turn.Takes` is such a run: some rows were
given, one after another, and each was handled on the store.  `Turn.Drains` is a run to the end,
where nothing but the plan itself touches the store.

`Turn.pullAll` is such a run, and `Turn.Pulled` tells how it ends: there were no more rows, the next
row was refused, a row could not be handled, or as many rows were taken as the bound allows.  The
last never happens where rows are not handled on the store (`Plan.lt_supply_of_takes`): every plan
has something that each row uses up, and less of it than its supply.  For a scan that is the room
for rows on the pages to come.
-/

namespace PageStore

namespace Turn

variable {σ α : Type} {next : Turn σ (Option Row)} {step : α → Row → Turn σ α}
  {value : α → Row → Except Error α} {each : Row → Op Unit} {now middle after : Store × σ}
  {rows : List Row} {bound : Nat} {a b : α}

/-! ## Runs -/

/-- Some rows are given one after another, and each is handled before the next is asked for. -/
inductive Takes (next : Turn σ (Option Row)) (each : Row → Op Unit) :
    Store × σ → List Row → Store × σ → Prop
  | nil (now : Store × σ) : Takes next each now [] now
  | cons {now after : Store × σ} {s done : Store} {state : σ} {row : Row} {rows : List Row}
      (given : next now = .ok (some row) (s, state)) (handled : each row s = .ok () done)
      (rest : Takes next each (done, state) rows after) : Takes next each now (row :: rows) after

/-- Some rows are given one after another, and then there are no more. -/
def Drains (next : Turn σ (Option Row)) (now : Store × σ) (rows : List Row)
    (after : Store × σ) : Prop :=
  ∃ middle, Takes next (fun _ => pure ()) now rows middle ∧ next middle = .ok none after

/-- If each row uses something up, there are no more rows than there is of it. -/
theorem Takes.length_le (takes : Takes next each now rows after) (inv : Store × σ → Prop)
    (left : Store × σ → Nat)
    (falls : ∀ now s state row done, inv now → next now = .ok (some row) (s, state) →
      each row s = .ok () done → inv (done, state) ∧ left (done, state) < left now)
    (holds : inv now) : rows.length ≤ left now := by
  induction takes with
  | nil => exact Nat.zero_le _
  | cons given handled _ ih =>
    obtain ⟨holds, fewer⟩ := falls _ _ _ _ _ holds given handled
    have := ih holds
    rw [List.length_cons]
    omega

/-! ## How taking all rows ends -/

/-- A row is handled by an answer that depends on the rows before, and then on the store. -/
def Handles (step : α → Row → Turn σ α) (value : α → Row → Except Error α)
    (each : Row → Op Unit) : Prop :=
  ∀ a row, step a row = do
    let b ← ofExcept (value a row)
    inStore (each row)
    return b

theorem ofExcept_ok {answer : Except Error α} (ok : answer = .ok a) (now : Store × σ) :
    (ofExcept answer : Turn σ α) now = .ok a now := by
  rw [ok]
  rfl

theorem ofExcept_error {answer : Except Error α} {e : Error} (error : answer = .error e)
    (now : Store × σ) : (ofExcept answer : Turn σ α) now = .error (.failed e) now := by
  rw [error]
  rfl

theorem Handles.ok (handles : Handles step value each) {s done : Store} {row : Row}
    (answers : value a row = .ok b) (handled : each row s = .ok () done) (state : σ) :
    step a row (s, state) = .ok b (done, state) := by
  rw [handles]
  exact (Op.bind_ok (ofExcept_ok answers _)).trans (Op.bind_ok (inStore_ok state handled))

/-- How taking rows by a bound ends. -/
inductive Pulled (next : Turn σ (Option Row)) (value : α → Row → Except Error α)
    (each : Row → Op Unit) (bound : Nat) (a : α) (now : Store × σ) :
    EStateM.Result Stop (Store × σ) α → Prop
  /-- There are no more rows. -/
  | drained {rows : List Row} {middle after : Store × σ} {b : α}
      (takes : Takes next each now rows middle) (folds : rows.foldlM value a = .ok b)
      (none : next middle = .ok none after) : Pulled next value each bound a now (.ok b after)
  /-- As many rows were taken as the bound allows. -/
  | bounded {rows : List Row} {middle : Store × σ} {b : α}
      (takes : Takes next each now rows middle) (folds : rows.foldlM value a = .ok b)
      (all : rows.length = bound) : Pulled next value each bound a now (.ok b middle)
  /-- The next row is refused. -/
  | refused {rows : List Row} {middle after : Store × σ} {stop : Stop}
      (takes : Takes next each now rows middle) (refuses : next middle = .error stop after) :
      Pulled next value each bound a now (.error stop after)
  /-- The next row is taken, and has no answer. -/
  | unanswered {rows : List Row} {middle after : Store × σ} {b : α} {row : Row} {e : Error}
      (takes : Takes next each now rows middle) (folds : rows.foldlM value a = .ok b)
      (given : next middle = .ok (some row) after) (fails : value b row = .error e) :
      Pulled next value each bound a now (.error (.failed e) after)
  /-- The next row is taken, and cannot be handled on the store. -/
  | lost {rows : List Row} {middle : Store × σ} {s left : Store} {state : σ} {row : Row}
      {stop : Stop} (takes : Takes next each now rows middle)
      (given : next middle = .ok (some row) (s, state)) (fails : each row s = .error stop left) :
      Pulled next value each bound a now (.error stop (left, state))

theorem Pulled.cons {s done : Store} {state : σ} {row : Row}
    {ends : EStateM.Result Stop (Store × σ) α} (given : next now = .ok (some row) (s, state))
    (answers : value a row = .ok b) (handled : each row s = .ok () done)
    (rest : Pulled next value each bound b (done, state) ends) :
    Pulled next value each (bound + 1) a now ends := by
  have folds {rows : List Row} {c : α} (folds : rows.foldlM value b = .ok c) :
      (row :: rows).foldlM value a = .ok c := by
    rw [List.foldlM_cons, answers]
    exact folds
  cases rest with
  | drained takes folded none => exact .drained (.cons given handled takes) (folds folded) none
  | bounded takes folded all =>
    exact .bounded (.cons given handled takes) (folds folded) (congrArg (· + 1) all)
  | refused takes refuses => exact .refused (.cons given handled takes) refuses
  | unanswered takes folded given' fails =>
    exact .unanswered (.cons given handled takes) (folds folded) given' fails
  | lost takes given' fails => exact .lost (.cons given handled takes) given' fails

/-- Taking all rows ends in one of the ways in which it can end. -/
theorem pulled (next : Turn σ (Option Row)) (handles : Handles step value each) (bound : Nat) (a : α)
    (now : Store × σ) :
    Pulled next value each bound a now (pullAll next step bound a now) := by
  induction bound generalizing a now with
  | zero => exact .bounded (.nil now) rfl rfl
  | succ bound ih =>
    show Pulled next value each (bound + 1) a now ((next >>= _) now)
    cases taken : next now with
    | error stop after =>
      rw [Op.bind_error taken]
      exact .refused (.nil now) taken
    | ok found after =>
      rw [Op.bind_ok taken]
      match found, after with
      | none, after => exact .drained (.nil now) rfl taken
      | some row, (s, state) =>
        show Pulled _ _ _ _ _ _ ((step a row >>= pullAll next step bound) (s, state))
        cases answers : value a row with
        | error e =>
          have fails : step a row (s, state) = .error (.failed e) (s, state) := by
            rw [handles]
            exact Op.bind_error (ofExcept_error answers _)
          rw [Op.bind_error fails]
          exact .unanswered (.nil now) rfl taken answers
        | ok b =>
          cases handled : each row s with
          | error stop left =>
            have fails : step a row (s, state) = .error stop (left, state) := by
              rw [handles]
              exact (Op.bind_ok (ofExcept_ok answers _)).trans
                (Op.bind_error (inStore_error state handled))
            rw [Op.bind_error fails]
            exact .lost (.nil now) taken handled
          | ok _ done =>
            rw [Op.bind_ok (handles.ok answers handled state)]
            exact (ih b (done, state)).cons taken answers handled

/-- After some rows were taken, the others are taken by what is left of the bound. -/
theorem Takes.pullAll (takes : Takes next each now rows middle)
    (handles : Handles step value each) (folds : rows.foldlM value a = .ok b) (bound : Nat) :
    pullAll next step (rows.length + bound) a now = pullAll next step bound b middle := by
  induction takes generalizing a with
  | nil =>
    cases folds
    rw [List.length_nil, Nat.zero_add]
  | @cons now after s done state row rows given handled rest ih =>
    rw [List.foldlM_cons] at folds
    obtain ⟨c, answers, folds⟩ := Answer.bind_eq_ok.1 folds
    rw [List.length_cons, Nat.add_right_comm]
    refine (Op.bind_ok given).trans ?_
    exact (Op.bind_ok (handles.ok answers handled state)).trans (ih folds)

/-- All rows are taken that there are. -/
theorem Drains.pullAll (drains : Drains next now rows after)
    (handles : Handles step value fun _ => pure ()) (folds : rows.foldlM value a = .ok b)
    (enough : rows.length < bound) : pullAll next step bound a now = .ok b after := by
  obtain ⟨middle, takes, none⟩ := drains
  obtain ⟨more, rfl⟩ : ∃ more, bound = rows.length + (more + 1) :=
    ⟨bound - rows.length - 1, by omega⟩
  rw [takes.pullAll handles folds]
  exact Op.bind_ok none

end Turn

/-! ## Counts -/

/-- A row holds nothing but a number of rows, as they are counted in 32 bits: the number itself if it
is less than 2 ^ 31, and otherwise what the counter shows after its rounds. -/
def Row.Counts (row : Row) (count : Nat) : Prop :=
  ∃ n : Int32, row = .ofFields [.int n] ∧ (count < 2147483648 → n.toInt = count) ∧
    n.toInt = (count : Int).bmod 4294967296

/-- There is one row that holds a number of rows. -/
theorem Row.counts_iff {row : Row} {count : Nat} : row.Counts count ↔ row = Plan.countRow count := by
  constructor
  · rintro ⟨n, rfl, -, shows⟩
    have same : n = Int32.ofNat count := Int32.toInt_inj.1 (shows.trans Int32.toInt_ofNat'.symm)
    rw [same, Plan.countRow]
  · rintro rfl
    exact ⟨_, rfl, Int32.toInt_ofNat_of_lt, Int32.toInt_ofNat'⟩

open Store

namespace Plan

open Turn

variable {each : Row → Op Unit} {s after : Store} {row : Row} {rows taken : List Row}
  {file : HeapFile} {txn : TxnId} {mode : LockMode}

/-! ## One row -/

theorem listNext_some {state left : Option Nat}
    (given : listNext rows (s, state) = .ok (some row) (after, left)) :
    ∃ n, state = some n ∧ n < rows.length ∧ after = s ∧ left = some (n + 1) := by
  cases state with
  | none => cases given
  | some n =>
    cases found : rows[n]? with
    | none =>
      have asks : listNext rows (s, some n) = .ok none (s, some n) := by
        refine (Op.bind_ok rfl).trans ?_
        simp only [found]
        rfl
      cases asks.symm.trans given
    | some first =>
      have asks : listNext rows (s, some n) = .ok (some first) (s, some (n + 1)) := by
        refine (Op.bind_ok rfl).trans ?_
        simp only [found]
        rfl
      cases asks.symm.trans given
      exact ⟨n, rfl, (List.getElem?_eq_some_iff.1 found).1, rfl, rfl⟩

theorem aggregateNext_some {σ : Type} {state left : Option (List Row) × σ}
    (given : aggregateNext (s, state) = .ok (some row) (after, left)) :
    ∃ others, state.1 = some (row :: others) ∧ after = s ∧ left = (some others, state.2) := by
  obtain ⟨rows, child⟩ := state
  match rows with
  | none => cases given
  | some [] => cases given
  | some (row :: others) =>
    cases given
    exact ⟨others, rfl, rfl, rfl⟩

section Write

variable {σ : Type} {operator : Operator} {next : Turn σ (Option Row)} {write : Row → Op Unit}
  {bound : σ → Store → Nat}

/-- An insertion or deletion that is running counts what it does. -/
theorem writeNext_running (s : Store) (child : σ) :
    writeNext operator next write bound (s, .running, child) =
      match countAll next write (bound child s) (s, child) with
      | .ok count (after, left) => .ok (some (countRow count)) (after, .done, left)
      | .error stop (after, left) => .error stop (after, .running, left) := by
  cases counts : countAll next write (bound child s) (s, child) with
  | ok count after =>
    exact (Op.bind_ok rfl).trans ((Op.bind_ok (inChild_ok Progress.running counts)).trans rfl)
  | error stop after =>
    exact (Op.bind_ok rfl).trans (Op.bind_error (inChild_error Progress.running counts))

theorem writeNext_some {progress : Progress} {child : σ} {left : Progress × σ}
    (given : writeNext operator next write bound (s, progress, child) = .ok (some row) (after, left)) :
    progress = .running ∧ left.1 = .done ∧ ∃ count, row = countRow count ∧
      countAll next write (bound child s) (s, child) = .ok count (after, left.2) := by
  cases progress with
  | closed => cases given
  | done => cases given
  | running =>
    rw [writeNext_running] at given
    split at given
    · next count after child counts =>
      cases given
      exact ⟨rfl, rfl, count, rfl, counts⟩
    · cases given

end Write

/-! ## Scans -/

/-- What holds of every store that a scan meets: no page is longer, and its file has no more pages,
than it is known before. -/
structure Roofed (file : HeapFile) (txn : TxnId) (mode : LockMode) (each : Row → Op Unit)
    (bytes pages : Nat) (inv : Store → Prop) : Prop where
  short : ∀ s, inv s → s.Short bytes
  count : ∀ s, inv s → file.pageCount s.disk ≤ pages
  fetched : ∀ s number frame after, inv s →
    fetch txn ⟨file.table, number⟩ mode s = .ok frame after → inv after
  handled : ∀ s row after, inv s → each row s = .ok () after → inv after

/-- The most rows that a scan can still give, of a file with so many pages at most. -/
def roomLeft (bytes pages : Nat) (cursor : Option Cursor) : Nat :=
  (cursor.map fun place =>
    place.pending.length + (pages - place.nextPage) * (8 * bytes)).getD 0

variable {bytes pages : Nat} {inv : Store → Prop}

theorem turnPages_some (roofed : Roofed file txn mode each bytes pages inv) (holds : inv s)
    {count number : Nat} (inside : number + count ≤ pages) {cursor left : Option Cursor}
    (given : turnPages file txn mode count number (s, cursor) = .ok (some row) (after, left)) :
    inv after ∧ roomLeft bytes pages left < (pages - number) * (8 * bytes) := by
  induction count generalizing s number cursor with
  | zero => cases given
  | succ count ih =>
    rw [turnPages_succ] at given
    cases fetched : fetch txn ⟨file.table, number⟩ mode s with
    | error stop failed =>
      simp only [fetched] at given
      cases given
    | ok frame now =>
      simp only [fetched] at given
      have holds := roofed.fetched s number frame now holds fetched
      have cached := ((fetch_leads s txn ⟨file.table, number⟩ mode).of_ok fetched).2.1
      have room : (pages - number) * (8 * bytes) =
          (pages - (number + 1)) * (8 * bytes) + 8 * bytes := by
        rw [← Nat.succ_mul]
        congr 1
        omega
      cases found : frame.page.rows file.schema with
      | error e =>
        simp only [found] at given
        cases given
      | ok rows =>
        simp only [found] at given
        have few := Nat.le_trans (Page.length_rows found)
          (Nat.mul_le_mul_left 8 ((roofed.short now holds).cached _ frame cached))
        cases rows with
        | nil =>
          have rest := ih holds (by omega) given
          exact ⟨rest.1, by omega⟩
        | cons first others =>
          cases given
          refine ⟨holds, ?_⟩
          rw [List.length_cons] at few
          simp only [roomLeft, Option.map_some, Option.getD_some]
          omega

theorem scanNext_some (roofed : Roofed file txn mode each bytes pages inv) (holds : inv s)
    {cursor left : Option Cursor}
    (given : scanNext file txn mode (s, cursor) = .ok (some row) (after, left)) :
    inv after ∧ roomLeft bytes pages left < roomLeft bytes pages cursor := by
  match cursor with
  | none => cases given
  | some ⟨number, first :: others⟩ =>
    cases given
    refine ⟨holds, ?_⟩
    simp only [roomLeft, Option.map_some, Option.getD_some, List.length_cons]
    omega
  | some ⟨number, []⟩ =>
    have turns : turnPages file txn mode (file.pageCount s.disk - number) number
        (s, some ⟨number, []⟩) = .ok (some row) (after, left) := given
    simp only [roomLeft, Option.map_some, Option.getD_some, List.length_nil, Nat.zero_add]
    by_cases past : file.pageCount s.disk ≤ number
    · rw [Nat.sub_eq_zero_of_le past] at turns
      cases turns
    · have inside : number + (file.pageCount s.disk - number) ≤ pages := by
        have := roofed.count s holds
        omega
      exact turnPages_some roofed holds inside turns

theorem takes_scan (roofed : Roofed file txn mode each bytes pages inv) (holds : inv s)
    {cursor left : Option Cursor}
    (takes : Takes (scanNext file txn mode) each (s, cursor) taken (after, left)) :
    taken.length ≤ roomLeft bytes pages cursor := by
  refine takes.length_le (fun now => inv now.1)
    (fun now => roomLeft bytes pages now.2) ?_ holds
  intro now later state row done holds given handled
  obtain ⟨holds, fewer⟩ := scanNext_some roofed holds given
  exact ⟨roofed.handled later row done holds handled, fewer⟩

/-! ## Other plans -/

/-- A list gives no more rows than it has left. -/
theorem takes_list {cursor left : Option Nat}
    (takes : Takes (listNext rows) each (s, cursor) taken (after, left)) :
    taken.length ≤ (cursor.map fun n => rows.length - n).getD 0 := by
  refine takes.length_le (fun _ => True)
    (fun now => (now.2.map fun n => rows.length - n).getD 0) ?_ trivial
  rintro ⟨s, state⟩ later left row done - gives -
  obtain ⟨n, rfl, inside, -, rfl⟩ := listNext_some gives
  refine ⟨trivial, ?_⟩
  simp only [Option.map_some, Option.getD_some]
  omega

/-- An aggregate gives no more rows than it has left. -/
theorem takes_aggregate {σ : Type} {state left : Option (List Row) × σ}
    (takes : Takes aggregateNext each (s, state) taken (after, left)) :
    taken.length ≤ (state.1.map List.length).getD 0 := by
  refine takes.length_le (fun _ => True)
    (fun now => (now.2.1.map List.length).getD 0) ?_ trivial
  rintro ⟨s, state⟩ later left row done - gives -
  obtain ⟨others, held, -, rfl⟩ := aggregateNext_some gives
  refine ⟨trivial, ?_⟩
  simp only [held, Option.map_some, Option.getD_some, List.length_cons]
  omega

/-- An insertion or deletion gives one row. -/
theorem takes_write {σ : Type} {operator : Operator} {next : Turn σ (Option Row)}
    {write : Row → Op Unit} {bound : σ → Store → Nat} {now after : Store × Progress × σ}
    (takes : Takes (writeNext operator next write bound) each now taken after) :
    taken.length ≤ 1 := by
  have few := takes.length_le (fun _ => True)
    (fun now => if now.2.1 = .running then 1 else 0) ?_ trivial
  · exact Nat.le_trans few (by split <;> decide)
  · rintro ⟨s, progress, child⟩ later left row done - gives -
    obtain ⟨rfl, ended, -⟩ := writeNext_some gives
    exact ⟨trivial, by simp [ended]⟩

/-! ## The supply is not used up -/

/-- What is needed to know that a scan comes to an end before its bound, if a plan is a scan. -/
def EndsBelow (each : Row → Op Unit) (s : Store) : Plan → Prop
  | .scan file _ txn mode => ∃ pages inv, Roofed file txn mode each s.longestPage pages inv ∧
      inv s ∧ pages * (8 * s.longestPage) ≤ s.rowBound file
  | _ => True

/-- A plan gives fewer rows than its supply. -/
theorem EndsBelow.lt_supply {plan : Plan} (below : plan.EndsBelow each s) {state : plan.State}
    {after : Store × plan.State} (takes : Takes plan.next each (s, state) rows after) :
    rows.length < plan.supply state s := by
  cases plan with
  | list schema given =>
    have most : ((state : Option Nat).map fun n => given.length - n).getD 0 ≤ given.length := by
      cases (state : Option Nat) <;> simp
    exact Nat.lt_succ_of_le (Nat.le_trans (takes_list takes) most)
  | scan file schema txn mode =>
    obtain ⟨pages, inv, roofed, holds, room⟩ := below
    have most : roomLeft s.longestPage pages state ≤
        ((state : Option Cursor).map fun c => c.pending.length).getD 0 + s.rowBound file := by
      cases (state : Option Cursor) with
      | none => exact Nat.zero_le _
      | some place =>
        have less := Nat.mul_le_mul_right (8 * s.longestPage) (Nat.sub_le pages place.nextPage)
        simp only [roomLeft, Option.map_some, Option.getD_some]
        omega
    exact Nat.lt_succ_of_le (Nat.le_trans (takes_scan roofed holds takes) most)
  | aggregate child agg schema => exact Nat.lt_succ_of_le (takes_aggregate takes)
  | insert child txn table => exact Nat.lt_succ_of_le (takes_write takes)
  | delete child txn => exact Nat.lt_succ_of_le (takes_write takes)

/-- What only takes rows leaves a scan to end below its bound. -/
theorem endsBelow_taking (plan : Plan) (s : Store) : plan.EndsBelow (fun _ => pure ()) s := by
  cases plan with
  | scan file schema txn mode =>
    refine ⟨file.pageCount s.disk,
      fun t => t.Short s.longestPage ∧ file.pageCount t.disk = file.pageCount s.disk,
      ⟨fun t holds => holds.1, fun t holds => Nat.le_of_eq holds.2, ?_, ?_⟩,
      ⟨s.short_longestPage, rfl⟩, ?_⟩
    · rintro t number frame after ⟨short, count⟩ fetched
      obtain ⟨fetches, -⟩ := (fetch_leads t txn ⟨file.table, number⟩ mode).of_ok fetched
      exact ⟨short.turnover fetches.toTurnover, by rw [fetches.disk, count]⟩
    · rintro t row after holds handled
      cases handled
      exact holds
    · have whole : file.pageCount s.disk ≤ (s.disk.read file.path).length := Nat.div_le_self _ _
      exact Nat.mul_le_mul_right _ (by omega)
  | list | aggregate | insert | delete => trivial

/-- Fewer rows can be taken from a plan than its supply. -/
theorem lt_supply_of_takes {plan : Plan} {state : plan.State} {after : Store × plan.State}
    (takes : Takes plan.next (fun _ => pure ()) (s, state) rows after) :
    rows.length < plan.supply state s :=
  (plan.endsBelow_taking s).lt_supply takes

theorem lt_supply_of_drains {plan : Plan} {state : plan.State} {after : Store × plan.State}
    (drains : Drains plan.next (s, state) rows after) : rows.length < plan.supply state s := by
  obtain ⟨middle, takes, -⟩ := drains
  exact lt_supply_of_takes takes

/-! ## Collecting -/

/-- A plan collects all rows that it has left to give. -/
theorem collect_eq_ok_iff {plan : Plan} {now after : Store × plan.State} :
    plan.collect now = .ok rows after ↔ Drains plan.next now rows after := by
  have handles : Handles (fun given row => (pure (row :: given) : Turn plan.State (List Row)))
      (fun given row => .ok (row :: given)) fun _ => pure () := fun _ _ => rfl
  have folds (rows given : List Row) :
      rows.foldlM (fun given row => (.ok (row :: given) : Except Error (List Row))) given =
        .ok (rows.reverse ++ given) := by
    induction rows generalizing given with
    | nil => rfl
    | cons row rows ih =>
      rw [List.reverse_cons, List.append_assoc]
      exact ih (row :: given)
  constructor
  · intro collects
    obtain ⟨_, _, got, collects⟩ := Op.bind_eq_ok.1 collects
    cases got
    obtain ⟨given, after, pulls, collects⟩ := Op.bind_eq_ok.1 collects
    cases collects
    have ends := pulled plan.next handles (plan.supply now.2 now.1) [] now
    rw [pulls] at ends
    cases ends with
    | @drained rows middle _ _ takes folded none =>
      rw [folds, List.append_nil] at folded
      cases folded
      rw [List.reverse_reverse]
      exact ⟨middle, takes, none⟩
    | bounded takes _ all => exact absurd all (Nat.ne_of_lt (lt_supply_of_takes takes))
  · intro drains
    have pulls := drains.pullAll handles (folds rows []) (lt_supply_of_drains drains)
    refine (Op.bind_ok rfl).trans ((Op.bind_ok pulls).trans ?_)
    rw [List.append_nil, List.reverse_reverse]
    rfl

/-- All rows of a plan are those that it gives after it was opened. -/
theorem all_eq_ok_iff {plan : Plan} :
    plan.all s = .ok rows after ↔ ∃ began left,
      plan.start (s, plan.initial) = .ok () began ∧ Drains plan.next began rows (after, left) := by
  rw [all_eq]
  constructor
  · intro ok
    obtain ⟨left, ok⟩ := forget_eq_ok ok
    obtain ⟨_, began, starts, collects⟩ := Op.bind_eq_ok.1 ok
    exact ⟨began, left, starts, collect_eq_ok_iff.1 collects⟩
  · rintro ⟨began, left, starts, drains⟩
    rw [Op.bind_ok starts, collect_eq_ok_iff.2 drains]
    rfl

end Plan

end PageStore
