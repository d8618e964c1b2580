/-
  A window over the numbers, kept as a ring of `n` blocks of `b` bits. The block of a number `x` is
  `x / b`, its slot in the ring is `x / b % n`, and its bit in the slot is `x % b`. The ring knows
  the `n` blocks that end with the block of the largest number; slots are used again when the window
  moves.

  * `Tracks`: the bits of the known blocks say which numbers were seen.
  * `Tracks.advance`: the window moves up when the slots of the new blocks are cleared.
  * `Tracks.insert`: a number of the window is marked.
  * `tracks_restart`: nothing but the first slot has to be cleared to start again from zero.
-/
import Mathlib.Data.Int.ModEq
import Mathlib.Data.Set.Insert

namespace CypherConnect.RingWindow

/-- The block of `x` is one of the `n` that end with the block of `last`. -/
def Known (n b last x : Nat) : Prop := x / b ≤ last / b ∧ last / b < x / b + n

/-- No number behind `last` is seen, and the bit of a number of a known block is set if it is
seen. -/
structure Tracks (n b : Nat) (bit : Nat → Nat → Bool) (last : Nat) (seen : Set Nat) : Prop where
  le_last : ∀ x ∈ seen, x ≤ last
  bit_iff : ∀ x, Known n b last x → (bit (x / b % n) (x % b) = true ↔ x ∈ seen)

/-- The slots that are cleared when the window moves from the block `current` to the block
`target`. -/
def Cleared (n current target slot : Nat) : Prop :=
  ∃ d, 1 ≤ d ∧ d ≤ min (target - current) n ∧ slot = (current + d) % n

variable {n b last x : Nat} {bit bit' : Nat → Nat → Bool} {seen : Set Nat}

/-- Two blocks less than a ring apart have different slots. -/
theorem slot_ne {i j : Nat} (hij : i < j) (hj : j < i + n) : i % n ≠ j % n := by
  intro heq
  obtain ⟨k, hk⟩ := (Nat.modEq_iff_dvd' (Nat.le_of_lt hij)).mp heq
  have hpos : 0 < k := by
    apply Nat.pos_of_ne_zero
    intro h0
    rw [h0, Nat.mul_zero] at hk
    omega
  have hle : n ≤ n * k := Nat.le_mul_of_pos_right n hpos
  omega

/-- A block that stays known keeps its slot. -/
theorem not_cleared_of_le {current target i : Nat} (hi : i ≤ current) (htarget : target < i + n) :
    ¬ Cleared n current target (i % n) := by
  intro h
  obtain ⟨d, hd, hle, heq⟩ := h
  have hlow : d ≤ target - current := le_trans hle (Nat.min_le_left _ _)
  exact slot_ne (by omega) (by omega) heq

/-- The slot of every block that becomes known is cleared. -/
theorem cleared_of_lt {current target i : Nat} (hn : 0 < n) (hi : current < i)
    (hle : i ≤ target) : Cleared n current target (i % n) := by
  by_cases hfar : target - current ≤ n
  · refine ⟨i - current, by omega, by rw [Nat.min_eq_left hfar]; omega, ?_⟩
    rw [Nat.add_sub_cancel' (Nat.le_of_lt hi)]
  · -- the whole ring is cleared: some block of the next `n` has the slot
    have hmin : min (target - current) n = n := Nat.min_eq_right (by omega)
    refine ⟨(i - current - 1) % n + 1, by omega, ?_, ?_⟩
    · rw [hmin]
      exact Nat.mod_lt _ hn
    · have hsplit : i = current + 1 + (i - current - 1) := by omega
      rw [Nat.add_comm _ 1, ← Nat.add_assoc, Nat.add_mod_mod, ← hsplit]

/-- The window moves up to `target`. -/
theorem Tracks.advance (h : Tracks n b bit last seen) (hn : 0 < n) {target : Nat}
    (hle : last ≤ target) (hclear : ∀ slot k, bit' slot k = true ↔
      bit slot k = true ∧ ¬ Cleared n (last / b) (target / b) slot) :
    Tracks n b bit' target seen where
  le_last := fun x hx => le_trans (h.le_last x hx) hle
  bit_iff := by
    intro x hx
    by_cases hold : x / b ≤ last / b
    · have hknown : Known n b last x := ⟨hold, lt_of_le_of_lt (Nat.div_le_div_right hle) hx.2⟩
      rw [hclear, and_iff_left (not_cleared_of_le hold hx.2)]
      exact h.bit_iff x hknown
    · -- a number of a new block was not seen
      have hnew : last < x := Nat.lt_of_div_lt_div (Nat.lt_of_not_le hold)
      rw [hclear]
      refine iff_of_false ?_ ?_
      · intro hbit
        exact hbit.2 (cleared_of_lt hn (Nat.lt_of_not_le hold) hx.1)
      · intro hseen
        exact absurd (h.le_last x hseen) (Nat.not_le.mpr hnew)

/-- A number of the window is marked. -/
theorem Tracks.insert (h : Tracks n b bit last seen) (hx : Known n b last x) (hle : x ≤ last)
    (hset : ∀ slot k, bit' slot k = true ↔ bit slot k = true ∨ slot = x / b % n ∧ k = x % b) :
    Tracks n b bit' last (insert x seen) where
  le_last := by
    intro y hy
    rcases Set.mem_insert_iff.mp hy with rfl | hy
    · exact hle
    · exact h.le_last y hy
  bit_iff := by
    intro y hy
    rw [hset, Set.mem_insert_iff, h.bit_iff y hy, or_comm]
    refine or_congr_left ⟨?_, ?_⟩
    · intro heq
      -- both blocks are known, so the same slot is the same block
      have hblock : y / b = x / b := by
        have h1 := hy.1
        have h2 := hy.2
        have h3 := hx.1
        have h4 := hx.2
        rcases Nat.lt_trichotomy (y / b) (x / b) with hlt | hblock | hlt
        · exact absurd heq.1 (slot_ne hlt (by omega))
        · exact hblock
        · exact absurd heq.1.symm (slot_ne hlt (by omega))
      rw [← Nat.div_add_mod y b, ← Nat.div_add_mod x b, hblock, heq.2]
    · intro heq
      rw [heq]
      exact ⟨rfl, rfl⟩

/-- From zero on only the first block is known. -/
theorem tracks_restart (hzero : ∀ k, bit 0 k = false) : Tracks n b bit 0 ∅ where
  le_last := fun x hx => absurd hx (Set.notMem_empty x)
  bit_iff := by
    intro x hx
    have hblock : x / b = 0 := by
      have h1 := hx.1
      rw [Nat.zero_div] at h1
      exact Nat.le_zero.mp h1
    rw [hblock, Nat.zero_mod, hzero]
    exact iff_of_false Bool.false_ne_true (Set.notMem_empty x)

end CypherConnect.RingWindow
