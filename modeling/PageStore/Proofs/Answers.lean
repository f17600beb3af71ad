import Mathlib.Data.List.Forall2

/-!
# Computations that answer or fail

What a sequence of such computations, or one over a list, went through if it answered.
-/

namespace PageStore.Answer

universe u v w

variable {ε : Type u} {α : Type v} {β : Type w} {xs : List α} {ys : List β}

/-- A sequence that answers went through the answer of its first part. -/
theorem bind_eq_ok {α β : Type v} {first : Except ε α} {rest : α → Except ε β} {b : β} :
    (first >>= rest) = .ok b ↔ ∃ a, first = .ok a ∧ rest a = .ok b := by
  cases first with
  | ok a => exact ⟨fun goesOn => ⟨a, rfl, goesOn⟩, fun ⟨_, same, goesOn⟩ => by cases same; exact goesOn⟩
  | error e => exact ⟨nofun, nofun⟩

theorem map_eq_ok {first : Except ε α} {f : α → β} {b : β} :
    first.map f = .ok b ↔ ∃ a, first = .ok a ∧ f a = b := by
  cases first <;> simp [Except.map]

/-- The answers of a list are those of its members, in their order. -/
theorem forall₂_of_mapM {α β : Type v} {xs : List α} {ys : List β} {f : α → Except ε β}
    (ok : xs.mapM f = .ok ys) : List.Forall₂ (fun x y => f x = .ok y) xs ys := by
  induction xs generalizing ys with
  | nil =>
    cases ok
    exact .nil
  | cons x xs ih =>
    rw [List.mapM_cons] at ok
    obtain ⟨y, first, ok⟩ := bind_eq_ok.1 ok
    obtain ⟨rest, others, ok⟩ := bind_eq_ok.1 ok
    cases ok
    exact .cons first (ih others)

/-- A list is answered if each of its members is. -/
theorem exists_of_forall {α β : Type v} {xs : List α} {f : α → Except ε β}
    (answers : ∀ x ∈ xs, ∃ y, f x = .ok y) : ∃ ys, xs.mapM f = .ok ys := by
  induction xs with
  | nil => exact ⟨[], rfl⟩
  | cons x xs ih =>
    obtain ⟨y, first⟩ := answers x List.mem_cons_self
    obtain ⟨ys, rest⟩ := ih fun x mem => answers x (List.mem_cons_of_mem _ mem)
    refine ⟨y :: ys, ?_⟩
    rw [List.mapM_cons, first]
    show (xs.mapM f >>= fun ys => pure (y :: ys)) = _
    rw [rest]
    rfl

/-- A list of members that all answer is answered by their answers. -/
theorem mapM_of_forall {α β : Type v} {xs : List α} {f : α → Except ε β} {g : α → β}
    (answers : ∀ x ∈ xs, f x = .ok (g x)) : xs.mapM f = .ok (xs.map g) := by
  induction xs with
  | nil => rfl
  | cons x xs ih =>
    rw [List.mapM_cons, answers x List.mem_cons_self]
    show (xs.mapM f >>= fun ys => pure (g x :: ys)) = _
    rw [ih fun x mem => answers x (List.mem_cons_of_mem _ mem)]
    rfl

/-- A list fails where one of its members does. -/
theorem exists_of_mapM_error {α β : Type v} {xs : List α} {f : α → Except ε β} {e : ε}
    (fails : xs.mapM f = .error e) : ∃ x ∈ xs, f x = .error e := by
  induction xs with
  | nil => cases fails
  | cons x xs ih =>
    rw [List.mapM_cons] at fails
    cases first : f x with
    | error e' =>
      rw [first] at fails
      cases fails
      exact ⟨x, List.mem_cons_self, first⟩
    | ok y =>
      rw [first] at fails
      replace fails : (xs.mapM f >>= fun ys => pure (y :: ys)) = .error e := fails
      cases others : xs.mapM f with
      | error e' =>
        rw [others] at fails
        cases fails
        obtain ⟨x, mem, fails⟩ := ih others
        exact ⟨x, List.mem_cons_of_mem _ mem, fails⟩
      | ok ys =>
        rw [others] at fails
        cases fails

/-- Every answer is one of a member. -/
theorem exists_of_mem {relation : α → β → Prop} (paired : List.Forall₂ relation xs ys) {y : β}
    (mem : y ∈ ys) : ∃ x ∈ xs, relation x y := by
  induction paired with
  | nil => cases mem
  | cons first _ ih =>
    rcases List.mem_cons.1 mem with rfl | later
    · exact ⟨_, List.mem_cons_self, first⟩
    · obtain ⟨x, here, related⟩ := ih later
      exact ⟨x, List.mem_cons_of_mem _ here, related⟩

end PageStore.Answer
