import PageStore.Proofs.Query.Growth
import PageStore.Proofs.Schedule.Residence

/-!
# Insertions and deletions that are asked again

An insertion or a deletion takes all rows of its part when its row is first asked for.  If a row
cannot be taken or written that call is stopped, and so may be several calls (`Turn.Attempted`); the
next call goes on with the rows that the part has left, and counts from zero.

So the count that is answered in the end is that of the rows which that call took itself, and wrote
(`Plan.batch_counts_last_call`).  Rows of the calls before are not counted, and each of these calls
may have lost a row, the one that it took and could not write.  The batch then succeeds without it
(`Plan.batch_succeeds_without_lost_row`).
-/

namespace PageStore

open Store

namespace Turn

variable {σ : Type} {kind : Store → Prop} {take : Turn σ (Option Row)} {write : Row → Op Unit}
  {next : Turn σ (Option Row)}

/-! ## Calls that are stopped -/

/-- A call that was stopped: the rows that it wrote, the row that it took after these and could not
write, and what stopped it. -/
structure Attempt where
  written : List Row
  lost : Option Row
  stop : Stop

/-- Rows are taken and written until the next row is refused, or cannot be written. -/
inductive Fails (take : Turn σ (Option Row)) (write : Row → Op Unit) (now : Store × σ) :
    Attempt → Store × σ → Prop
  | refused {rows : List Row} {middle after : Store × σ} {stop : Stop}
      (takes : Takes take write now rows middle) (refuses : take middle = .error stop after) :
      Fails take write now ⟨rows, none, stop⟩ after
  | lost {rows : List Row} {middle : Store × σ} {s left : Store} {state : σ} {row : Row}
      {stop : Stop} (takes : Takes take write now rows middle)
      (given : take middle = .ok (some row) (s, state)) (fails : write row s = .error stop left) :
      Fails take write now ⟨rows, some row, stop⟩ (left, state)

/-- Calls that were stopped one after another, each on any store of some kind. -/
inductive Attempted (kind : Store → Prop) (take : Turn σ (Option Row)) (write : Row → Op Unit) :
    σ → List Attempt → σ → Prop
  | nil (state : σ) : Attempted kind take write state [] state
  | cons {s after : Store} {state left last : σ} {attempt : Attempt} {attempts : List Attempt}
      (here : kind s) (fails : Fails take write (s, state) attempt (after, left))
      (rest : Attempted kind take write left attempts last) :
      Attempted kind take write state (attempt :: attempts) last

/-- The answers of calls one after another, each on any store of some kind. -/
inductive Asked (kind : Store → Prop) (next : Turn σ (Option Row)) :
    σ → List (Except Stop (Option Row)) → σ → Prop
  | nil (state : σ) : Asked kind next state [] state
  | answered {s after : Store} {state left last : σ} {found : Option Row}
      {answers : List (Except Stop (Option Row))} (here : kind s)
      (gives : next (s, state) = .ok found (after, left)) (rest : Asked kind next left answers last) :
      Asked kind next state (.ok found :: answers) last
  | stopped {s after : Store} {state left last : σ} {stop : Stop}
      {answers : List (Except Stop (Option Row))} (here : kind s)
      (stops : next (s, state) = .error stop (after, left)) (rest : Asked kind next left answers last) :
      Asked kind next state (.error stop :: answers) last

/-! ## Counting -/

/-- A call that answers the number of the rows which it took, up to the last, and wrote.  The calls
before were stopped. -/
inductive Counted (kind : Store → Prop) (take : Turn σ (Option Row)) (write : Row → Op Unit)
    (opened : σ) : List (Except Stop (Option Row)) → Store × Progress × σ → Row →
    Store × Progress × σ → Prop
  | intro {attempts : List Attempt} {s after : Store} {middle left : σ} {rows : List Row}
      {ended : Store × σ} {row : Row} (attempted : Attempted kind take write opened attempts middle)
      (takes : Takes take write (s, middle) rows ended) (none : take ended = .ok none (after, left))
      (counts : row.Counts rows.length) :
      Counted kind take write opened (attempts.map fun attempt => .error attempt.stop)
        (s, .running, middle) row (after, .done, left)

/-- However often a batch is asked for its row once it is opened, what it answers counts the rows
which that call took, up to the last, and wrote; it answers once, and then that there are no more. -/
def CountsLastCall (kind : Store → Prop) (start : Turn (Progress × σ) Unit)
    (next : Turn (Progress × σ) (Option Row)) (take : Turn σ (Option Row))
    (write : Row → Op Unit) : Prop :=
  ∀ began s opened earlier now after row last, start began = .ok () (s, opened) →
    Asked kind next opened earlier now.2 → kind now.1 → next now = .ok (some row) (after, last) →
      Counted kind take write opened.2 earlier now row (after, last) ∧
        ∀ later ended, Asked (fun _ => True) next last later ended →
          ended = last ∧ ∀ answer ∈ later, answer = .ok none

end Turn

open Turn

namespace Plan

variable {σ : Type} {kind : Store → Prop} {operator : Operator} {take : Turn σ (Option Row)}
  {write : Row → Op Unit} {bound : σ → Store → Nat} {s after : Store} {child left : σ}
  {answers : List (Except Stop (Option Row))} {last : Progress × σ}

/-! ## One call -/

theorem handles_count (write : Row → Op Unit) :
    Handles (fun count row => (do
        inStore (write row)
        return count + 1 : Turn σ Nat))
      (fun count _ => .ok (count + 1)) write :=
  fun _ _ => rfl

theorem foldlM_count (rows : List Row) (count : Nat) :
    rows.foldlM (fun count _ => (.ok (count + 1) : Except Error Nat)) count =
      .ok (count + rows.length) := by
  induction rows generalizing count with
  | nil => rfl
  | cons row rows ih =>
    rw [List.length_cons, Nat.add_comm rows.length, ← Nat.add_assoc]
    exact ih (count + 1)

/-- How counting the rows of a part ends whose rows are fewer than the bound. -/
theorem countAll_ends (few : ∀ rows ended, Takes take write (s, child) rows ended →
      rows.length < bound child s) :
    match countAll take write (bound child s) (s, child) with
    | .ok count after => ∃ rows ended, Takes take write (s, child) rows ended ∧
        take ended = .ok none after ∧ count = rows.length
    | .error stop after => ∃ attempt, Fails take write (s, child) attempt after ∧
        attempt.stop = stop := by
  have ends := pulled take (handles_count write) (bound child s) 0 (s, child)
  change Pulled _ _ _ _ _ _ (countAll take write (bound child s) (s, child)) at ends
  cases ran : countAll take write (bound child s) (s, child) with
  | ok count after =>
    rw [ran] at ends
    cases ends with
    | @drained rows ended _ _ takes folded none =>
      rw [foldlM_count, Nat.zero_add] at folded
      cases folded
      exact ⟨rows, ended, takes, none, rfl⟩
    | bounded takes _ all => exact absurd all (Nat.ne_of_lt (few _ _ takes))
  | error stop after =>
    rw [ran] at ends
    cases ends with
    | refused takes refuses => exact ⟨_, .refused takes refuses, rfl⟩
    | unanswered _ _ _ fails => cases fails
    | lost takes given fails => exact ⟨_, .lost takes given fails, rfl⟩

section Running

variable {plan : Plan} {state : plan.State} {left : Progress × plan.State}

/-- The call of a running batch that answers has taken and written all rows, if its part ends below
its supply. -/
theorem EndsBelow.takes_of_answered (below : plan.EndsBelow write s) {row : Option Row}
    (answers : writeNext operator plan.next write plan.supply (s, .running, state) =
      .ok row (after, left)) :
    ∃ rows ended, Takes plan.next write (s, state) rows ended ∧
      plan.next ended = .ok none (after, left.2) ∧ row = some (countRow rows.length) := by
  have ends := countAll_ends fun rows ended (takes : Takes plan.next write (s, state) rows ended) =>
    below.lt_supply takes
  rw [writeNext_running] at answers
  split at answers
  · next count after child counts =>
    cases answers
    rw [counts] at ends
    obtain ⟨rows, ended, takes, none, rfl⟩ := ends
    exact ⟨rows, ended, takes, none, rfl⟩
  · cases answers

/-- The call of a running batch that is stopped has taken and written some rows. -/
theorem EndsBelow.fails_of_stopped (below : plan.EndsBelow write s) {stop : Stop}
    (stops : writeNext operator plan.next write plan.supply (s, .running, state) =
      .error stop (after, left)) :
    ∃ attempt, Fails plan.next write (s, state) attempt (after, left.2) ∧ attempt.stop = stop := by
  have ends := countAll_ends fun rows ended (takes : Takes plan.next write (s, state) rows ended) =>
    below.lt_supply takes
  rw [writeNext_running] at stops
  split at stops
  · cases stops
  · next stop after child counts =>
    cases stops
    rw [counts] at ends
    exact ends

end Running

/-! ## Calls one after another -/

/-- Once a batch has answered its count, it answers that there are no more rows. -/
theorem asked_done {state : Progress × σ} (done : state.1 = .done)
    (asked : Asked kind (writeNext operator take write bound) state answers last) :
    last = state ∧ ∀ answer ∈ answers, answer = .ok none := by
  induction asked with
  | nil => exact ⟨rfl, nofun⟩
  | @answered s after state _ _ _ _ _ gives _ ih =>
    obtain ⟨progress, child⟩ := state
    cases done
    cases gives
    obtain ⟨same, none⟩ := ih rfl
    exact ⟨same, List.forall_mem_cons.2 ⟨rfl, none⟩⟩
  | @stopped s after state _ _ _ _ _ stops _ _ =>
    obtain ⟨progress, child⟩ := state
    cases done
    cases stops

/-- Each call of a batch that is running is stopped, or ends it. -/
theorem asked_running
    (few : ∀ s child rows ended, kind s → Takes take write (s, child) rows ended →
      rows.length < bound child s) {state : Progress × σ} (running : state = (.running, child))
    (asked : Asked kind (writeNext operator take write bound) state answers last) :
    (∃ attempts left, last = (.running, left) ∧ Attempted kind take write child attempts left ∧
      answers = attempts.map fun attempt => .error attempt.stop) ∨ last.1 = .done := by
  induction asked generalizing child with
  | nil => exact .inl ⟨[], child, running, .nil child, rfl⟩
  | answered _ gives rest _ =>
    subst running
    rw [writeNext_running] at gives
    split at gives
    · cases gives
      exact .inr (congrArg Prod.fst (asked_done rfl rest).1)
    · cases gives
  | @stopped s after _ left _ stop _ here stops _ ih =>
    subst running
    have ends := countAll_ends (few s child · · here)
    rw [writeNext_running] at stops
    split at stops
    · cases stops
    · next stop after child' counts =>
      cases stops
      rw [counts] at ends
      obtain ⟨attempt, fails, rfl⟩ := ends
      rcases ih rfl with ⟨attempts, left, last, attempted, rfl⟩ | done
      · exact .inl ⟨attempt :: attempts, left, last, .cons here fails attempted, rfl⟩
      · exact .inr done

/-- A batch counts the rows of one call, if its part gives fewer rows than the bound. -/
theorem writeNext_counts {start : Turn σ Unit}
    (few : ∀ s child rows ended, kind s → Takes take write (s, child) rows ended →
      rows.length < bound child s) :
    CountsLastCall kind (writeStart start) (writeNext operator take write bound) take write := by
  rintro began s opened earlier ⟨s', state⟩ after row last starts asked here given
  obtain ⟨child, rfl⟩ : ∃ child, opened = (.running, child) := by
    obtain ⟨_, ⟨middle, progress, child⟩, _, ends⟩ := Op.bind_eq_ok.1 starts
    cases ends
    exact ⟨child, rfl⟩
  obtain ⟨progress, child'⟩ := state
  obtain ⟨ended, childLeft⟩ := last
  obtain ⟨rfl, done, count, rfl, counts⟩ := writeNext_some given
  obtain rfl : ended = .done := done
  rcases asked_running few rfl asked with ⟨attempts, middle, same, attempted, rfl⟩ | done
  · cases same
    have ends := countAll_ends (few s' child' · · here)
    rw [counts] at ends
    obtain ⟨rows, ended, takes, none, rfl⟩ := ends
    exact ⟨.intro attempted takes none (Row.counts_iff.2 rfl), fun later ended asked => asked_done rfl asked⟩
  · cases done

/-! ## Insertions and deletions -/

/-- An insertion or a deletion of the rows of any plan counts the rows of the call that it answers,
each of which was inserted or deleted as it was taken.  The calls before were stopped, and what they
did stays done; the calls after answer that there are no more rows. -/
theorem batch_counts_last_call (child : Plan) (txn : TxnId) (table : TableId) :
    CountsLastCall (fun s => Coherent s ∧ s.Fits s.capacity) (insert child txn table).start
        (insert child txn table).next child.next (Store.insert txn table) ∧
      CountsLastCall (fun s => Coherent s ∧ s.Fits s.capacity) (delete child txn).start
        (delete child txn).next child.next (Store.delete txn) := by
  refine ⟨writeNext_counts fun s state rows ended ⟨coherent, fits⟩ takes => ?_,
    writeNext_counts fun s state rows ended ⟨coherent, fits⟩ takes => ?_⟩
  · exact (child.endsBelow_insert coherent fits txn table).lt_supply takes
  · exact (child.endsBelow_delete coherent fits txn).lt_supply takes

/-- The statement above for a list of two rows whose first has too many fields: the call that it
stops has lost it, and the next one counts the other. -/
theorem batch_counts_last_call_of_misfit :
    let s := System.small.store
    let file := System.smallFile
    let bad : Row := .ofFields [.int 7, .int 7]
    let good : Row := .ofFields [.int 8]
    let child : Plan := .list file.schema [bad, good]
    let plan : Plan := .insert child 0 file.table
    let opened : plan.State := (Progress.running, (some 0 : Option Nat))
    let lost : plan.State := (Progress.running, (some 1 : Option Nat))
    let ended : plan.State := (Progress.done, (some 2 : Option Nat))
    let stop : Stop := .failed (.rowMismatch bad file.schema)
    (Coherent s ∧ s.Fits s.capacity) ∧ plan.start (s, plan.initial) = .ok () (s, opened) ∧
      plan.next (s, opened) = .error stop (s, lost) ∧
      ∃ after, plan.next (s, lost) = .ok (some (.ofFields [.int 1])) (after, ended) ∧
        Counted (fun s => Coherent s ∧ s.Fits s.capacity) child.next (Store.insert 0 file.table)
          (some 0 : Option Nat) [.error stop] (s, lost) (.ofFields [.int 1]) (after, ended) ∧
        plan.next (after, ended) = .ok none (after, ended) := by
  intro s file bad good child plan opened lost ended stop
  have kind : Coherent s ∧ s.Fits s.capacity :=
    ⟨System.small_fresh.steady.coherent, System.small_fresh.fits⟩
  obtain ⟨after, inserted⟩ : ∃ after, Store.insert 0 file.table good s = .ok () after :=
    Op.exists_of_answer_ok (by decide +kernel)
  have takes : Takes child.next (Store.insert 0 file.table) (s, (some 1 : Option Nat)) [good]
      (after, (some 2 : Option Nat)) := .cons rfl inserted (.nil _)
  have counts : countAll child.next (Store.insert 0 file.table)
      (child.supply (some 1 : Option Nat) s) (s, (some 1 : Option Nat)) =
      .ok 1 (after, (some 2 : Option Nat)) :=
    (takes.pullAll (handles_count _) (foldlM_count [good] 0) 2).trans rfl
  have answers : plan.next (s, lost) = .ok (some (.ofFields [.int 1])) (after, ended) := by
    refine (writeNext_running s _).trans ?_
    rw [counts]
    rfl
  refine ⟨kind, rfl, rfl, after, answers, ?_⟩
  have asked : Asked (fun s => Coherent s ∧ s.Fits s.capacity) plan.next opened [.error stop] lost :=
    .stopped kind rfl (.nil lost)
  obtain ⟨counted, later⟩ := (batch_counts_last_call child 0 file.table).1 _ _ _ _ (s, lost) _ _ _
    (rfl : plan.start (s, plan.initial) = .ok () (s, opened)) asked kind answers
  exact ⟨counted, rfl⟩

/-- A batch that was stopped by a row can succeed without that row. -/
theorem batch_succeeds_without_lost_row :
    let row : Row := .ofFields [.int 7]
    let plan : Plan := .delete (.list ⟨[⟨.int, none⟩]⟩ [row]) 0
    let opened : plan.State := (Progress.running, (some 0 : Option Nat))
    let lost : plan.State := (Progress.running, (some 1 : Option Nat))
    let ended : plan.State := (Progress.done, (some 1 : Option Nat))
    plan.start (default, plan.initial) = .ok () (default, opened) ∧
      plan.next (default, opened) = .error (.failed (.noRecord row)) (default, lost) ∧
      plan.next (default, lost) = .ok (some (.ofFields [.int 0])) (default, ended) :=
  ⟨rfl, rfl, rfl⟩

end Plan

end PageStore
