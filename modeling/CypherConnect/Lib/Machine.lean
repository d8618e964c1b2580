/-
  Guarded machines. A machine is a step function `S → E → Option S`; `none` means that the
  event is not enabled in that state. `run` replays an event list, `Meets` says that every
  step of a replay satisfies a condition on the state before it and the event.

  * `run_invariant`: what the first state has and every step keeps holds after every run.
  * `run_invariant_of_meets`: the same for the runs whose steps all meet a condition.
  * `run_history`: an invariant that also speaks of the events so far.
  * `run_of_meets`: where the condition enables the step, all of the events are replayed.
  * `first_violation`: a run whose steps do not all meet a condition has a first step that does not.
  * `run_append`, `meets_append`: a run is split at any of its states.
-/
import Mathlib.Logic.Basic

namespace CypherConnect.Machine

universe u v

variable {S : Type u} {E : Type v}

/-- Replay `es` from `s`; `none` as soon as one event is not enabled. -/
def run (step : S → E → Option S) : S → List E → Option S
  | s, [] => some s
  | s, e :: es => (step s e).bind fun s' => run step s' es

/-- Every step of the replay of `es` from `s` meets `C`. -/
def Meets (step : S → E → Option S) (C : S → E → Prop) : S → List E → Prop
  | _, [] => True
  | s, e :: es => C s e ∧
      match step s e with
      | some s' => Meets step C s' es
      | none => True

instance decMeets (step : S → E → Option S) (C : S → E → Prop) [∀ s e, Decidable (C s e)] :
    (s : S) → (es : List E) → Decidable (Meets step C s es)
  | _, [] => isTrue trivial
  | s, e :: es =>
      match h : step s e with
      | some s' =>
          @decidable_of_iff _ (C s e ∧ Meets step C s' es) (by simp [Meets, h])
            (@instDecidableAnd _ _ inferInstance (decMeets step C s' es))
      | none => @decidable_of_iff _ (C s e) (by simp [Meets, h]) inferInstance

section

variable {step : S → E → Option S} {C : S → E → Prop} {s s' t : S} {e : E} {es es' : List E}

@[simp] theorem run_nil : run step s [] = some s := rfl

theorem run_cons : run step s (e :: es) = (step s e).bind fun s' => run step s' es := rfl

theorem run_cons_of_step (h : step s e = some s') : run step s (e :: es) = run step s' es := by
  rw [run_cons, h]; rfl

theorem run_cons_some (h : run step s (e :: es) = some t) :
    ∃ s', step s e = some s' ∧ run step s' es = some t := by
  rw [run_cons] at h
  exact Option.bind_eq_some_iff.mp h

theorem run_append : run step s (es ++ es') = (run step s es).bind fun s' => run step s' es' := by
  induction es generalizing s with
  | nil => rfl
  | cons e es ih =>
      rw [List.cons_append, run_cons, run_cons]
      cases step s e with
      | none => rfl
      | some s' => exact ih

theorem run_append_some (h : run step s (es ++ es') = some t) :
    ∃ s', run step s es = some s' ∧ run step s' es' = some t := by
  rw [run_append] at h
  exact Option.bind_eq_some_iff.mp h

theorem meets_cons_of_step (hs : step s e = some s') :
    Meets step C s (e :: es) ↔ C s e ∧ Meets step C s' es := by
  simp only [Meets, hs]

/-- A step-wise invariant holds after every run. -/
theorem run_invariant {P : S → Prop} (hstep : ∀ s e s', P s → step s e = some s' → P s')
    (h0 : P s) (h : run step s es = some t) : P t := by
  induction es generalizing s with
  | nil => cases h; exact h0
  | cons e es ih =>
      obtain ⟨s', h1, h2⟩ := run_cons_some h
      exact ih (hstep s e s' h0 h1) h2

/-- What relates the state to the events so far, and is kept by every step, relates the last state
to all of the events. -/
theorem run_history {P : List E → S → Prop}
    (hstep : ∀ past s e s', P past s → step s e = some s' → P (past ++ [e]) s')
    (h0 : P [] s) (h : run step s es = some t) : P es t := by
  suffices hpast : ∀ past, P past s → P (past ++ es) t from hpast [] h0
  clear h0
  intro past h0
  induction es generalizing s past with
  | nil =>
      cases h
      rw [List.append_nil]
      exact h0
  | cons e es ih =>
      obtain ⟨s', h1, h2⟩ := run_cons_some h
      have h' := ih h2 (past ++ [e]) (hstep past s e s' h0 h1)
      rw [List.append_assoc, List.singleton_append] at h'
      exact h'

/-- An invariant that the steps meeting `C` keep holds after every run of such steps. -/
theorem run_invariant_of_meets {P : S → Prop}
    (hstep : ∀ s e s', P s → C s e → step s e = some s' → P s')
    (h0 : P s) (hm : Meets step C s es) (h : run step s es = some t) : P t := by
  induction es generalizing s with
  | nil => cases h; exact h0
  | cons e es ih =>
      obtain ⟨s', h1, h2⟩ := run_cons_some h
      rw [meets_cons_of_step h1] at hm
      exact ih (hstep s e s' h0 hm.1 h1) hm.2 h2

/-- A condition on the events alone. -/
theorem meets_of_forall {Q : E → Prop} (h : ∀ e ∈ es, Q e) : Meets step (fun _ e => Q e) s es := by
  induction es generalizing s with
  | nil => trivial
  | cons e es ih =>
      refine ⟨h e List.mem_cons_self, ?_⟩
      split
      · exact ih fun f hf => h f (List.mem_cons_of_mem _ hf)
      · trivial

/-- A condition that enables every step gives a whole run. -/
theorem run_of_meets (hstep : ∀ s e, C s e → ∃ s', step s e = some s')
    (hm : Meets step C s es) : ∃ t, run step s es = some t := by
  induction es generalizing s with
  | nil => exact ⟨s, rfl⟩
  | cons e es ih =>
      obtain ⟨s', h1⟩ := hstep s e hm.1
      rw [meets_cons_of_step h1] at hm
      rw [run_cons_of_step h1]
      exact ih hm.2

/-- The first step that does not meet `C`. -/
theorem first_violation (h : run step s es = some t) (hm : ¬ Meets step C s es) :
    ∃ before e after u u', es = before ++ e :: after ∧ run step s before = some u ∧
      Meets step C s before ∧ ¬ C u e ∧ step u e = some u' ∧ run step u' after = some t := by
  induction es generalizing s with
  | nil => exact absurd trivial hm
  | cons e es ih =>
      obtain ⟨s', h1, h2⟩ := run_cons_some h
      by_cases hc : C s e
      · have hm' : ¬ Meets step C s' es := fun h' => hm ((meets_cons_of_step h1).mpr ⟨hc, h'⟩)
        obtain ⟨before, f, after, u, u', rfl, hu, hmu, hv⟩ := ih h2 hm'
        refine ⟨e :: before, f, after, u, u', rfl, ?_, ?_, hv⟩
        · rw [run_cons_of_step h1]
          exact hu
        · exact (meets_cons_of_step h1).mpr ⟨hc, hmu⟩
      · exact ⟨[], e, es, s, s', rfl, rfl, trivial, hc, h1, h2⟩

theorem meets_append (h : run step s es = some s') :
    Meets step C s (es ++ es') ↔ Meets step C s es ∧ Meets step C s' es' := by
  induction es generalizing s with
  | nil => cases h; simp [Meets]
  | cons e es ih =>
      obtain ⟨t, h1, h2⟩ := run_cons_some h
      rw [List.cons_append, meets_cons_of_step h1, meets_cons_of_step h1, ih h2, and_assoc]

end

end CypherConnect.Machine
