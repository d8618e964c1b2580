/-
  Input streams that deliver what has arrived: a stream is the list of the pieces it will deliver,
  and one `read` returns a beginning of the next piece, never more.

  * `read_flatten`: nothing is lost between two reads.
  * `readOne_cons`, `readOne_nil`: single elements are read whatever the pieces are.
  * `read_eq`: what one read of the right size returns.
-/
import Mathlib.Data.List.Basic

namespace CypherConnect.InputStream

universe u

variable {α : Type u}

/-- Every piece has something in it. -/
def Arrived (pieces : List (List α)) : Prop := ∀ piece ∈ pieces, piece ≠ []

/-- `read` into an array of `size`: what is read, and the stream behind it. The end of the stream is
read as nothing. -/
def read (size : Nat) : List (List α) → List α × List (List α)
  | [] => ([], [])
  | piece :: pieces =>
      (piece.take size, if piece.length ≤ size then pieces else piece.drop size :: pieces)

/-- `read()` of one element; `none` is the end of the stream. -/
def readOne (pieces : List (List α)) : Option (α × List (List α)) :=
  match read 1 pieces with
  | (x :: _, rest) => some (x, rest)
  | ([], _) => none

/-- The stream behind its first `k` elements. -/
def skip : Nat → List (List α) → List (List α)
  | 0, pieces => pieces
  | k + 1, pieces => skip k (read 1 pieces).2

variable {pieces : List (List α)}

theorem read_flatten (size : Nat) (pieces : List (List α)) :
    (read size pieces).1 ++ (read size pieces).2.flatten = pieces.flatten := by
  cases pieces with
  | nil => rfl
  | cons piece pieces =>
      show piece.take size ++ (if piece.length ≤ size then pieces
          else piece.drop size :: pieces).flatten = _
      split
      · next hle => rw [List.take_of_length_le hle, List.flatten_cons]
      · rw [List.flatten_cons, List.flatten_cons, ← List.append_assoc, List.take_append_drop]

theorem read_arrived (size : Nat) (h : Arrived pieces) : Arrived (read size pieces).2 := by
  cases pieces with
  | nil => exact h
  | cons piece pieces =>
      have htail : Arrived pieces := fun x hx => h x (List.mem_cons_of_mem _ hx)
      show Arrived (if piece.length ≤ size then pieces else piece.drop size :: pieces)
      split
      · exact htail
      · next hlt =>
          intro x hx
          rcases List.mem_cons.mp hx with rfl | hx
          · intro hnil
            exact hlt (List.drop_eq_nil_iff.mp hnil)
          · exact htail x hx

theorem readOne_cons (h : Arrived pieces) {x : α} {t : List α}
    (hflatten : pieces.flatten = x :: t) :
    readOne pieces = some (x, skip 1 pieces) ∧ (skip 1 pieces).flatten = t ∧
      Arrived (skip 1 pieces) := by
  obtain ⟨piece, rest, rfl⟩ : ∃ piece rest, pieces = piece :: rest := by
    refine List.exists_cons_of_ne_nil ?_
    rintro rfl
    cases hflatten
  obtain ⟨y, piece, rfl⟩ := List.exists_cons_of_ne_nil (h piece List.mem_cons_self)
  obtain ⟨rfl, -⟩ := List.cons.inj hflatten
  refine ⟨rfl, ?_, read_arrived 1 h⟩
  have hall := read_flatten 1 ((y :: piece) :: rest)
  rw [hflatten] at hall
  exact (List.cons.inj hall).2

theorem readOne_nil (hflatten : pieces.flatten = []) : readOne pieces = none := by
  have hall := read_flatten 1 pieces
  rw [hflatten, List.append_eq_nil_iff] at hall
  unfold readOne
  split
  · next heq =>
      rw [heq] at hall
      cases hall.1
  · rfl

/-- One read of the size of all that is left returns the first piece. -/
theorem read_eq {t : List α} (hflatten : pieces.flatten = t) :
    (read t.length pieces).1 = pieces.head?.getD [] := by
  cases pieces with
  | nil => rfl
  | cons piece pieces =>
      refine List.take_of_length_le ?_
      rw [← hflatten, List.flatten_cons, List.length_append]
      omega

end CypherConnect.InputStream
