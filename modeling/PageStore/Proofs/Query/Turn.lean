import PageStore.Proofs.Store.Leads
import PageStore.Query.Run

/-!
# What a turn of a plan keeps and gives

A turn changes the store and the state of a plan, and what it did until it stops stays done.
`Turn.Keeps` follows the state alone: whatever the store is, the turn leaves the state with a
property that it had, also where it stops, and a value that it gives has another.  It is about every
store at once, so it speaks of what a plan does among any others that change the store meanwhile.

The user of a plan has five commands.  `Plan.Obeys` is what one of them does to the state on some
store, and `Plan.Moves` is what one does that is given to the plan or to any of its parts.
-/

namespace PageStore

namespace Turn

variable {σ χ π α β : Type} {inv : σ → Prop} {gives gives' : α → Prop} {goes : β → Prop}
  {turn : Turn σ α}

/-! ## Turns on the store and turns of parts -/

theorem inStore_ok {op : Op α} {s after : Store} {a : α} (state : σ) (ok : op s = .ok a after) :
    (inStore op : Turn σ α) (s, state) = .ok a (after, state) := by
  simp only [inStore, ok]

theorem inStore_error {op : Op α} {s after : Store} {stop : Stop} (state : σ)
    (error : op s = .error stop after) :
    (inStore op : Turn σ α) (s, state) = .error stop (after, state) := by
  simp only [inStore, error]

theorem inChild_ok {turn : Turn χ α} {s after : Store} {child left : χ} {a : α} (own : π)
    (ok : turn (s, child) = .ok a (after, left)) :
    (inChild turn : Turn (π × χ) α) (s, own, child) = .ok a (after, own, left) := by
  simp only [inChild, ok]

theorem inChild_error {turn : Turn χ α} {s after : Store} {child left : χ} {stop : Stop} (own : π)
    (error : turn (s, child) = .error stop (after, left)) :
    (inChild turn : Turn (π × χ) α) (s, own, child) = .error stop (after, own, left) := by
  simp only [inChild, error]

/-- What refuses its first row refuses all rows. -/
theorem pullAll_error {next : Turn σ (Option Row)} {bound : Nat} {s : Store} {state : σ}
    {after : Store × σ} {stop : Stop} (pos : 0 < bound)
    (error : next (s, state) = .error stop after) (step : α → Row → Turn σ α) (a : α) :
    pullAll next step bound a (s, state) = .error stop after := by
  cases bound with
  | zero => cases pos
  | succ bound => exact Op.bind_error error

/-- A scan that turns to a page goes on to the next if it finds the page empty, and else gives the
first row of the page. -/
theorem turnPages_succ (s : Store) (file : HeapFile) (txn : TxnId) (mode : LockMode)
    (pages number : Nat) (cursor : Option Cursor) :
    Plan.turnPages file txn mode (pages + 1) number (s, cursor) =
      match Store.fetch txn ⟨file.table, number⟩ mode s with
      | .error stop after => .error stop (after, cursor)
      | .ok frame after =>
        match frame.page.rows file.schema with
        | .error e => .error (.failed e) (after, some ⟨number + 1, []⟩)
        | .ok [] => Plan.turnPages file txn mode pages (number + 1) (after, some ⟨number + 1, []⟩)
        | .ok (row :: rows) => .ok (some row) (after, some ⟨number + 1, rows⟩) := by
  cases fetched : Store.fetch txn ⟨file.table, number⟩ mode s with
  | error stop after => exact Op.bind_error (inStore_error cursor fetched)
  | ok frame after =>
    refine (Op.bind_ok (inStore_ok cursor fetched)).trans ?_
    cases found : frame.page.rows file.schema with
    | error e =>
      simp only [found]
      rfl
    | ok rows =>
      cases rows with
      | nil =>
        simp only [found]
        rfl
      | cons row rows =>
        simp only [found]
        rfl

/-! ## What a turn keeps -/

/-- A turn keeps a property of the state on every store, and gives values of a kind. -/
def Keeps (turn : Turn σ α) (inv : σ → Prop) (gives : α → Prop) : Prop :=
  ∀ s state, inv state →
    match turn (s, state) with
    | .ok a after => inv after.2 ∧ gives a
    | .error _ after => inv after.2

theorem Keeps.of_ok (keeps : turn.Keeps inv gives) {s : Store} {state : σ} (holds : inv state)
    {a : α} {after : Store × σ} (ok : turn (s, state) = .ok a after) : inv after.2 ∧ gives a := by
  simpa only [ok] using keeps s state holds

theorem Keeps.of_error (keeps : turn.Keeps inv gives) {s : Store} {state : σ} (holds : inv state)
    {stop : Stop} {after : Store × σ} (error : turn (s, state) = .error stop after) :
    inv after.2 := by
  simpa only [error] using keeps s state holds

theorem Keeps.mono (keeps : turn.Keeps inv gives) (weaker : ∀ a, gives a → gives' a) :
    turn.Keeps inv gives' := by
  intro s state holds
  cases ran : turn (s, state) with
  | ok a after => exact ⟨(keeps.of_ok holds ran).1, weaker a (keeps.of_ok holds ran).2⟩
  | error stop after => exact keeps.of_error holds ran

theorem Keeps.bind {rest : α → Turn σ β} (first : turn.Keeps inv gives)
    (then' : ∀ a, gives a → (rest a).Keeps inv goes) : (turn >>= rest).Keeps inv goes := by
  intro s state holds
  cases ran : turn (s, state) with
  | ok a after =>
    rw [Op.bind_ok ran]
    have ⟨kept, value⟩ := first.of_ok holds ran
    exact then' a value after.1 after.2 kept
  | error stop after =>
    rw [Op.bind_error ran]
    exact first.of_error holds ran

theorem keeps_pure {a : α} (value : gives a) : (pure a : Turn σ α).Keeps inv gives :=
  fun _ _ holds => ⟨holds, value⟩

theorem keeps_fail (e : Error) : (fail e : Turn σ α).Keeps inv gives := fun _ _ holds => holds

theorem keeps_inStore (op : Op α) : (inStore op : Turn σ α).Keeps inv fun _ => True := by
  intro s state holds
  cases ran : op s with
  | ok a after =>
    rw [inStore_ok state ran]
    exact ⟨holds, trivial⟩
  | error stop after =>
    rw [inStore_error state ran]
    exact holds

theorem keeps_ofExcept {answer : Except Error α} (value : ∀ a, answer = .ok a → gives a) :
    (ofExcept answer : Turn σ α).Keeps inv gives := by
  intro s state holds
  cases answer with
  | ok a => exact ⟨holds, value a rfl⟩
  | error e => exact holds

/-- What is read of the state has the property that the state has. -/
theorem keeps_state : (state : Turn σ σ).Keeps inv inv := fun _ _ holds => ⟨holds, holds⟩

theorem keeps_get : (get : Turn σ (Store × σ)).Keeps inv fun now => inv now.2 :=
  fun _ _ holds => ⟨holds, holds⟩

theorem keeps_setState {state : σ} (holds : inv state) :
    (setState state).Keeps inv fun _ => True :=
  fun _ _ _ => ⟨holds, trivial⟩

theorem keeps_modify {change : Store × σ → Store × σ}
    (changed : ∀ s state, inv state → inv (change (s, state)).2) :
    (modify change : Turn σ Unit).Keeps inv fun _ => True :=
  fun s state holds => ⟨changed s state holds, trivial⟩

/-- A turn of a part leaves the rest of the state as it is. -/
theorem Keeps.inChild {turn : Turn χ α} {inv : χ → Prop} (keeps : turn.Keeps inv gives)
    (own : π → Prop) :
    (inChild turn : Turn (π × χ) α).Keeps (fun state => own state.1 ∧ inv state.2) gives := by
  rintro s ⟨rest, child⟩ ⟨kept, holds⟩
  cases ran : turn (s, child) with
  | ok a after =>
    rw [inChild_ok rest ran]
    exact ⟨⟨kept, (keeps.of_ok holds ran).1⟩, (keeps.of_ok holds ran).2⟩
  | error stop after =>
    rw [inChild_error rest ran]
    exact ⟨kept, keeps.of_error holds ran⟩

/-- Taking all rows keeps what taking one and handling it keep. -/
theorem Keeps.pullAll {next : Turn σ (Option Row)} {step : α → Row → Turn σ α}
    {kind : Row → Prop} (takes : next.Keeps inv fun taken => ∀ row ∈ taken, kind row)
    (handles : ∀ a row, gives a → kind row → (step a row).Keeps inv gives) (bound : Nat) :
    ∀ a, gives a → (Turn.pullAll next step bound a).Keeps inv gives := by
  induction bound with
  | zero => exact fun a value => keeps_pure value
  | succ bound ih =>
    intro a value
    refine takes.bind fun taken kinds => ?_
    cases taken with
    | none => exact keeps_pure value
    | some row => exact (handles a row value (kinds row rfl)).bind ih

end Turn

namespace Plan

/-! ## The uses of a plan -/

/-- What the user of a plan can ask of it. -/
inductive Command where
  | start
  | next
  | collect
  | rewind
  | close
deriving DecidableEq, Repr, Inhabited

/-- A command, without what it gives. -/
def Command.turn (plan : Plan) : Command → Turn plan.State Unit
  | start => plan.start
  | next => do let _ ← plan.next
  | collect => do let _ ← plan.collect
  | rewind => plan.rewind
  | close => plan.close

/-- The store and the state after a turn, however it ended. -/
def ended {σ α : Type} : EStateM.Result Stop (Store × σ) α → Store × σ
  | .ok _ after => after
  | .error _ after => after

/-- A command takes a plan from one state to another, on some store. -/
def Obeys (plan : Plan) (command : Command) (state after : plan.State) : Prop :=
  ∃ s : Store, (ended (command.turn plan (s, state))).2 = after

/-- A command to a plan or to any part of it takes the plan from one state to another. -/
def Moves : (plan : Plan) → (state after : plan.State) → Prop
  | .list schema rows, state, after => ∃ command, Obeys (.list schema rows) command state after
  | .scan file schema txn mode, state, after =>
    ∃ command, Obeys (.scan file schema txn mode) command state after
  | .aggregate child agg schema, state, after =>
    (∃ command, Obeys (.aggregate child agg schema) command state after) ∨
      Prod.fst after = Prod.fst state ∧ Moves child (Prod.snd state) (Prod.snd after)
  | .insert child txn table, state, after =>
    (∃ command, Obeys (.insert child txn table) command state after) ∨
      Prod.fst after = Prod.fst state ∧ Moves child (Prod.snd state) (Prod.snd after)
  | .delete child txn, state, after =>
    (∃ command, Obeys (.delete child txn) command state after) ∨
      Prod.fst after = Prod.fst state ∧ Moves child (Prod.snd state) (Prod.snd after)

/-- A plan with its parts and theirs, each with its own state. -/
def parts : (plan : Plan) → plan.State → List (Σ part : Plan, part.State)
  | .list schema rows, state => [⟨.list schema rows, state⟩]
  | .scan file schema txn mode, state => [⟨.scan file schema txn mode, state⟩]
  | .aggregate child agg schema, state =>
    ⟨.aggregate child agg schema, state⟩ :: parts child (Prod.snd state)
  | .insert child txn table, state =>
    ⟨.insert child txn table, state⟩ :: parts child (Prod.snd state)
  | .delete child txn, state => ⟨.delete child txn, state⟩ :: parts child (Prod.snd state)

end Plan

end PageStore
