/-
  Signed 64-bit integers as `Int`: the range, arithmetic that wraps around, and when the result of a
  wrapped sum is the sum meant (`wrapLong_eq_iff`, `wrapLong_add_eq_add_iff`).
-/
import Mathlib.Data.Int.ModEq

namespace CypherConnect

/-- Largest value of a `Long`. -/
def maxLong : Int := 2 ^ 63 - 1

def minLong : Int := -2 ^ 63

/-- The value is one a `Long` can have. -/
def IsLong (x : Int) : Prop := minLong ≤ x ∧ x ≤ maxLong

instance (x : Int) : Decidable (IsLong x) := inferInstanceAs (Decidable (_ ∧ _))

/-- The `Long` that equals `x` up to a multiple of `2 ^ 64`. -/
def wrapLong (x : Int) : Int := x.bmod (2 ^ 64)

theorem isLong_wrapLong (x : Int) : IsLong (wrapLong x) := by
  unfold IsLong wrapLong minLong maxLong
  have hlo : -(2 ^ 63) ≤ x.bmod (2 ^ 64) := Int.le_bmod (by decide)
  have hhi : x.bmod (2 ^ 64) < 2 ^ 63 := Int.bmod_lt (by decide)
  omega

theorem wrapLong_of_isLong {x : Int} (h : IsLong x) : wrapLong x = x := by
  unfold IsLong minLong maxLong at h
  unfold wrapLong
  exact Int.bmod_eq_of_le (by omega) (by omega)

/-- Wrapping in between does not change the wrapped sum. -/
theorem wrapLong_wrapLong_add (x y : Int) : wrapLong (wrapLong x + y) = wrapLong (x + y) :=
  Int.bmod_add_bmod

/-- A wrapped number is `y` exactly if `y` fits and the two differ by a multiple of `2 ^ 64`. -/
theorem wrapLong_eq_iff (x y : Int) : wrapLong x = y ↔ IsLong y ∧ x ≡ y [ZMOD 2 ^ 64] := by
  constructor
  · rintro rfl
    refine ⟨isLong_wrapLong x, ?_⟩
    unfold wrapLong Int.ModEq
    exact (Int.bmod_emod ..).symm
  · rintro ⟨hy, hmod⟩
    rw [← wrapLong_of_isLong hy]
    unfold wrapLong
    rw [← Int.emod_bmod x, ← Int.emod_bmod y]
    exact congrArg (Int.bmod · (2 ^ 64)) hmod

/-- Adding the same number to two `Long`s gives the same number exactly if the two are equal and the
sum fits. -/
theorem wrapLong_add_eq_add_iff {x y : Int} (hx : IsLong x) (hy : IsLong y) (t : Int) :
    wrapLong (x + t) = y + t ↔ x = y ∧ IsLong (y + t) := by
  constructor
  · intro h
    obtain ⟨hfits, hmod⟩ := (wrapLong_eq_iff _ _).mp h
    have hsame : wrapLong x = y := (wrapLong_eq_iff x y).mpr ⟨hy, hmod.add_right_cancel' t⟩
    rw [wrapLong_of_isLong hx] at hsame
    exact ⟨hsame, hfits⟩
  · rintro ⟨rfl, hfits⟩
    exact wrapLong_of_isLong hfits

end CypherConnect
