/-
  Automata that read one symbol at a time, put out symbols and may fail.

  * `feed_append`: a word that is read in two parts is read as a whole.
  * `feed_split`, `feed_out_le`: what is put out for a word is put out for its parts, one after the
    other.
  * `feed_invariant`: what every step keeps holds after a word.
-/
import Mathlib.Data.List.Basic

namespace CypherConnect.Transducer

variable {σ ι ο ε : Type} (step : σ → ι → Except ε (σ × List ο))

/-- Reads a word. -/
def feed : σ → List ι → Except ε (σ × List ο)
  | s, [] => .ok (s, [])
  | s, a :: word => (step s a).bind fun x => (feed x.1 word).map fun y => (y.1, x.2 ++ y.2)

variable {step} {s t : σ} {a : ι} {word rest : List ι} {out : List ο} {e : ε}

theorem feed_cons_ok (h : step s a = .ok (t, out)) :
    feed step s (a :: word) = (feed step t word).map fun y => (y.1, out ++ y.2) := by
  show (step s a).bind _ = _
  rw [h]
  rfl

theorem feed_cons_error (h : step s a = .error e) : feed step s (a :: word) = .error e := by
  show (step s a).bind _ = _
  rw [h]
  rfl

theorem feed_append (h : feed step s word = .ok (t, out)) :
    feed step s (word ++ rest) = (feed step t rest).map fun y => (y.1, out ++ y.2) := by
  induction word generalizing s out with
  | nil =>
      cases h
      show feed step _ rest = _
      cases feed step t rest <;> rfl
  | cons a word ih =>
      cases hstep : step s a with
      | error e =>
          rw [feed_cons_error hstep] at h
          cases h
      | ok x =>
          obtain ⟨next, first⟩ := x
          rw [feed_cons_ok hstep] at h
          cases hfeed : feed step next word with
          | error e =>
              rw [hfeed] at h
              cases h
          | ok y =>
              rw [hfeed] at h
              cases h
              rw [List.cons_append, feed_cons_ok hstep, ih hfeed]
              cases feed step y.1 rest with
              | error e => rfl
              | ok z =>
                  show Except.ok (z.1, first ++ (y.2 ++ z.2)) = Except.ok
                      (z.1, (first ++ y.2) ++ z.2)
                  rw [List.append_assoc]

/-- An error in the first part is one in the whole. -/
theorem feed_append_error (h : feed step s word = .error e) :
    feed step s (word ++ rest) = .error e := by
  induction word generalizing s with
  | nil => cases h
  | cons a word ih =>
      cases hstep : step s a with
      | error e' =>
          rw [feed_cons_error hstep] at h
          rw [List.cons_append, feed_cons_error hstep, h]
      | ok x =>
          obtain ⟨next, first⟩ := x
          rw [feed_cons_ok hstep] at h
          cases hfeed : feed step next word with
          | ok y =>
              rw [hfeed] at h
              cases h
          | error e' =>
              rw [hfeed] at h
              cases h
              rw [List.cons_append, feed_cons_ok hstep, ih hfeed]
              rfl

theorem feed_split (h : feed step s (word ++ rest) = .ok (t, out)) :
    ∃ m first last, feed step s word = .ok (m, first) ∧ feed step m rest = .ok (t, last) ∧
      out = first ++ last := by
  cases hword : feed step s word with
  | error e =>
      rw [feed_append_error hword] at h
      cases h
  | ok x =>
      obtain ⟨m, first⟩ := x
      rw [feed_append hword] at h
      cases hrest : feed step m rest with
      | error e =>
          rw [hrest] at h
          cases h
      | ok y =>
          rw [hrest] at h
          cases h
          exact ⟨m, first, y.2, rfl, hrest, rfl⟩

/-- What every step keeps holds after a word. -/
theorem feed_invariant {P : σ → Prop} (hstep : ∀ s a t out, P s → step s a = .ok (t, out) → P t)
    (hs : P s) (h : feed step s word = .ok (t, out)) : P t := by
  induction word generalizing s out with
  | nil =>
      cases h
      exact hs
  | cons a word ih =>
      have h : feed step s ([a] ++ word) = .ok (t, out) := h
      obtain ⟨m, first, last, hfirst, hrest, -⟩ := feed_split h
      cases hone : step s a with
      | error e =>
          rw [feed_cons_error hone] at hfirst
          cases hfirst
      | ok x =>
          rw [feed_cons_ok hone] at hfirst
          cases hfirst
          exact ih (hstep s a x.1 x.2 hs hone) hrest

/-- What a word puts out is the beginning of what a longer word puts out. -/
theorem feed_out_le {u : σ} {all : List ο} (h : feed step s word = .ok (t, out))
    (hall : feed step s (word ++ rest) = .ok (u, all)) : out <+: all := by
  obtain ⟨m, first, last, hfirst, -, hout⟩ := feed_split hall
  rw [h] at hfirst
  cases hfirst
  exact ⟨last, hout.symm⟩

end CypherConnect.Transducer
