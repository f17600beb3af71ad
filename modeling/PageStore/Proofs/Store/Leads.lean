import PageStore.Store.Basic

/-!
# Where operations lead

`Op.Leads` says how an operation ends on a given store: with a value and a store that satisfy one
predicate, or stopped, at a store that satisfies another.  What was done until an operation stops
stays done, so both matter.  `Op.Leads.bind` follows the sequencing of operations; each operation of
the store has one lemma of this form, and its callers use that lemma alone.
-/

namespace PageStore.Op

variable {α β : Type} {op : Op α} {s : Store}
  {done done' : α → Store → Prop} {next : β → Store → Prop} {stopped stopped' : Store → Prop}

/-- The answer of an operation, without the store after it. -/
def answer : EStateM.Result Stop Store α → Except Stop α
  | .ok a _ => .ok a
  | .error stop _ => .error stop

/-- Where an operation leads from a store. -/
def Leads (op : Op α) (s : Store) (done : α → Store → Prop) (stopped : Store → Prop) : Prop :=
  match op s with
  | .ok a after => done a after
  | .error _ after => stopped after

theorem Leads.mono (leads : op.Leads s done stopped)
    (value : ∀ a after, done a after → done' a after)
    (stop : ∀ after, stopped after → stopped' after) : op.Leads s done' stopped' := by
  unfold Leads at leads ⊢
  split at leads
  · exact value _ _ leads
  · exact stop _ leads

/-- Operations that end alike lead to the same. -/
theorem Leads.congr {other : Op α} {t : Store} (leads : other.Leads t done stopped)
    (same : op s = other t) : op.Leads s done stopped := by
  unfold Leads
  rw [same]
  exact leads

/-- An operation that stops only where it began. -/
theorem Leads.stops (leads : op.Leads s done (fun after => after = s)) (here : stopped s) :
    op.Leads s done stopped :=
  leads.mono (fun _ _ => id) fun _ same => same ▸ here

/-- An operation that does not stop succeeds. -/
theorem Leads.exists_ok (leads : op.Leads s done (fun _ => False)) :
    ∃ a after, op s = .ok a after ∧ done a after := by
  unfold Leads at leads
  split at leads
  · next a after ok => exact ⟨a, after, ok, leads⟩
  · exact leads.elim

/-- What two lemmas say of an operation holds together. -/
theorem Leads.and (first : op.Leads s done stopped) (second : op.Leads s done' stopped') :
    op.Leads s (fun a after => done a after ∧ done' a after)
      (fun after => stopped after ∧ stopped' after) := by
  unfold Leads at first second ⊢
  split at first <;> exact ⟨first, by simpa [*] using second⟩

theorem Leads.of_ok (leads : op.Leads s done stopped) {a : α} {after : Store}
    (ok : op s = .ok a after) : done a after := by
  simpa [Leads, ok] using leads

theorem Leads.of_error (leads : op.Leads s done stopped) {stop : Stop} {after : Store}
    (error : op s = .error stop after) : stopped after := by
  simpa [Leads, error] using leads

/-- What holds however an operation ends holds of the store after it. -/
theorem Leads.final {after : Store → Prop} (leads : op.Leads s (fun _ => after) after) :
    after (Op.final (op s)) := by
  unfold Leads at leads
  split at leads
  · next h => rw [h]; exact leads
  · next h => rw [h]; exact leads

theorem leads_of_ok {a : α} {after : Store} (ok : op s = .ok a after) (value : done a after) :
    op.Leads s done stopped := by
  unfold Leads
  rw [ok]
  exact value

theorem leads_of_error {stop : Stop} {after : Store} (error : op s = .error stop after)
    (stops : stopped after) : op.Leads s done stopped := by
  unfold Leads
  rw [error]
  exact stops

theorem leads_pure (a : α) (value : done a s) : (pure a : Op α).Leads s done stopped := value

theorem leads_fail (e : Error) (stop : stopped s) : (Op.fail e : Op α).Leads s done stopped := stop

theorem leads_ofExcept {answer : Except Error α} (value : ∀ a, answer = .ok a → done a s)
    (stop : stopped s) : (ofExcept answer).Leads s done stopped := by
  cases answer with
  | ok a => exact value a rfl
  | error _ => exact stop

/-- How an operation ends is told by its answer. -/
theorem exists_of_answer_ok {a : α} (answered : answer (op s) = .ok a) :
    ∃ after, op s = .ok a after := by
  cases ends : op s with
  | ok b after =>
    rw [ends] at answered
    exact ⟨after, by rw [Except.ok.inj answered]⟩
  | error stop after =>
    rw [ends] at answered
    cases answered

theorem exists_of_answer_error {stop : Stop} (answered : answer (op s) = .error stop) :
    ∃ after, op s = .error stop after := by
  cases ends : op s with
  | ok a after =>
    rw [ends] at answered
    cases answered
  | error other after =>
    rw [ends] at answered
    exact ⟨after, by rw [Except.error.inj answered]⟩

/-! ## Sequencing -/

theorem bind_ok {σ : Type} {op : EStateM Stop σ α} {rest : α → EStateM Stop σ β} {s after : σ}
    {a : α} (ok : op s = .ok a after) : (op >>= rest) s = rest a after := by
  show EStateM.bind op rest s = rest a after
  rw [EStateM.bind, ok]

theorem bind_error {σ : Type} {op : EStateM Stop σ α} {rest : α → EStateM Stop σ β} {s after : σ}
    {stop : Stop} (error : op s = .error stop after) : (op >>= rest) s = .error stop after := by
  show EStateM.bind op rest s = .error stop after
  rw [EStateM.bind, error]

/-- A sequence that succeeds went through the value and the store of its first operation. -/
theorem bind_eq_ok {σ : Type} {op : EStateM Stop σ α} {rest : α → EStateM Stop σ β} {s later : σ}
    {b : β} :
    (op >>= rest) s = .ok b later ↔ ∃ a after, op s = .ok a after ∧ rest a after = .ok b later := by
  cases ran : op s with
  | ok a after =>
    rw [bind_ok ran]
    refine ⟨fun goesOn => ⟨a, after, rfl, goesOn⟩, ?_⟩
    rintro ⟨_, _, same, goesOn⟩
    cases same
    exact goesOn
  | error stop after =>
    rw [bind_error ran]
    exact ⟨nofun, nofun⟩

/-- A sequence that stops does so in its first operation or after it. -/
theorem bind_eq_error {σ : Type} {op : EStateM Stop σ α} {rest : α → EStateM Stop σ β} {s later : σ}
    {stop : Stop} :
    (op >>= rest) s = .error stop later ↔
      op s = .error stop later ∨ ∃ a after, op s = .ok a after ∧ rest a after = .error stop later := by
  cases ran : op s with
  | ok a after =>
    rw [bind_ok ran]
    refine ⟨fun goesOn => .inr ⟨a, after, rfl, goesOn⟩, fun stops => ?_⟩
    rcases stops with stops | ⟨_, _, same, goesOn⟩
    · cases stops
    · cases same
      exact goesOn
  | error reason after =>
    rw [bind_error ran]
    refine ⟨fun stops => ?_, fun stops => ?_⟩
    · cases stops
      exact .inl rfl
    · rcases stops with stops | ⟨_, _, ok, _⟩
      · cases stops
        rfl
      · cases ok

theorem ofExcept_eq_ok {answer : Except Error α} {a : α} {after : Store} :
    ofExcept answer s = .ok a after ↔ answer = .ok a ∧ after = s := by
  cases answer with
  | ok value => simp [ofExcept, eq_comm]
  | error e => simp [ofExcept]

theorem modify_ok (f : Store → Store) (s : Store) : (modify f : Op Unit) s = .ok () (f s) := rfl

theorem Leads.bind {rest : α → Op β} (first : op.Leads s done stopped)
    (then' : ∀ a after, done a after → (rest a).Leads after next stopped) :
    (op >>= rest).Leads s next stopped := by
  cases ran : op s with
  | ok a after =>
    unfold Leads
    rw [bind_ok ran]
    exact then' a after (first.of_ok ran)
  | error stop after =>
    unfold Leads
    rw [bind_error ran]
    exact first.of_error ran

end PageStore.Op
