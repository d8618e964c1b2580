/-
  Outcomes that may be an exception (`Except`): what is known of the parts of a computation whose
  outcome is known.
-/
import Mathlib.Logic.Basic

namespace CypherConnect.Outcome

variable {ε α β : Type}

/-- A sequence that succeeds is made of two that succeed. -/
theorem bind_ok {x : Except ε α} {f : α → Except ε β} {b : β} (h : x >>= f = .ok b) :
    ∃ a, x = .ok a ∧ f a = .ok b := by
  cases x with
  | error e => cases h
  | ok a => exact ⟨a, rfl, h⟩

/-- A sequence that fails fails in its first part, or behind it. -/
theorem bind_error {x : Except ε α} {f : α → Except ε β} {e : ε} (h : x >>= f = .error e) :
    x = .error e ∨ ∃ a, x = .ok a ∧ f a = .error e := by
  cases x with
  | error e' =>
      cases h
      exact Or.inl rfl
  | ok a => exact Or.inr ⟨a, rfl, h⟩

theorem map_ok {x : Except ε α} {f : α → β} {b : β} (h : x.map f = .ok b) :
    ∃ a, x = .ok a ∧ f a = b := by
  cases x with
  | error e => cases h
  | ok a => exact ⟨a, rfl, Except.ok.inj h⟩

/-- A sequence none of whose items throws is consumed to its end. -/
theorem mapM_ok {f : α → Except ε β} {g : α → β} {l : List α} (h : ∀ a ∈ l, f a = .ok (g a)) :
    l.mapM f = .ok (l.map g) := by
  induction l with
  | nil => rfl
  | cons a l ih =>
      have htail := ih fun x hx => h x (List.mem_cons_of_mem _ hx)
      rw [List.mapM_cons, h a List.mem_cons_self, htail]
      rfl

end CypherConnect.Outcome
