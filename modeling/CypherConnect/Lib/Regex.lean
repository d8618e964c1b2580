/-
  Regular expressions with anchors, and what it means to find one in a text. A match has what is
  before it and what is after it, which is all that an anchor looks at.

  * `matches_cat_iff`, `matches_alt_iff`, …: a match of an expression by its parts.
  * `matches_lit_iff`, `matches_star_set_iff`: words, and runs of a class.
-/
import Mathlib.Data.List.Basic

namespace CypherConnect.Regex

universe u

/-- Expressions over the characters `α`. -/
inductive Pattern (α : Type u) where
  | set (p : α → Bool)
  | eps
  | cat (r s : Pattern α)
  | alt (r s : Pattern α)
  | star (r : Pattern α)
  | start
  | stop

variable {α : Type u}

/-- `Matches r before m after`: `r` matches `m` between `before` and `after`. -/
inductive Matches : Pattern α → List α → List α → List α → Prop
  | set {p : α → Bool} {c : α} {before after : List α} (h : p c = true) :
      Matches (.set p) before [c] after
  | eps {before after : List α} : Matches .eps before [] after
  | cat {r s : Pattern α} {before m n after : List α} (hr : Matches r before m (n ++ after))
      (hs : Matches s (before ++ m) n after) : Matches (.cat r s) before (m ++ n) after
  | left {r s : Pattern α} {before m after : List α} (h : Matches r before m after) :
      Matches (.alt r s) before m after
  | right {r s : Pattern α} {before m after : List α} (h : Matches s before m after) :
      Matches (.alt r s) before m after
  | stop_star {r : Pattern α} {before after : List α} : Matches (.star r) before [] after
  | more {r : Pattern α} {before m n after : List α} (hr : Matches r before m (n ++ after))
      (hs : Matches (.star r) (before ++ m) n after) : Matches (.star r) before (m ++ n) after
  | start {after : List α} : Matches .start [] [] after
  | stop {before : List α} : Matches .stop before [] []

/-- The expression is found somewhere in the text. -/
def IsMatch (r : Pattern α) (t : List α) : Prop :=
  ∃ before m after, t = before ++ m ++ after ∧ Matches r before m after

/-- A character. -/
def chr [DecidableEq α] (c : α) : Pattern α := .set (· == c)

/-- A word. -/
def lit [DecidableEq α] (w : List α) : Pattern α := w.foldr (fun c r => .cat (chr c) r) .eps

/-- One or more. -/
def plus (r : Pattern α) : Pattern α := .cat r (.star r)

variable {r s : Pattern α} {before m after : List α}

theorem matches_set_iff {p : α → Bool} :
    Matches (.set p) before m after ↔ ∃ c, p c = true ∧ m = [c] := by
  constructor
  · intro h
    cases h with
    | set h => exact ⟨_, h, rfl⟩
  · rintro ⟨c, hc, rfl⟩
    exact .set hc

theorem matches_eps_iff : Matches (.eps : Pattern α) before m after ↔ m = [] := by
  constructor
  · intro h
    cases h
    rfl
  · rintro rfl
    exact .eps

theorem matches_cat_iff : Matches (.cat r s) before m after ↔
    ∃ a b, m = a ++ b ∧ Matches r before a (b ++ after) ∧ Matches s (before ++ a) b after := by
  constructor
  · intro h
    cases h with
    | cat hr hs => exact ⟨_, _, rfl, hr, hs⟩
  · rintro ⟨a, b, rfl, hr, hs⟩
    exact .cat hr hs

theorem matches_alt_iff :
    Matches (.alt r s) before m after ↔ Matches r before m after ∨ Matches s before m after := by
  constructor
  · intro h
    cases h with
    | left h => exact .inl h
    | right h => exact .inr h
  · rintro (h | h)
    · exact .left h
    · exact .right h

theorem matches_start_iff : Matches (.start : Pattern α) before m after ↔ before = [] ∧ m = [] := by
  constructor
  · intro h
    cases h
    exact ⟨rfl, rfl⟩
  · rintro ⟨rfl, rfl⟩
    exact .start

theorem matches_stop_iff : Matches (.stop : Pattern α) before m after ↔ m = [] ∧ after = [] := by
  constructor
  · intro h
    cases h
    exact ⟨rfl, rfl⟩
  · rintro ⟨rfl, rfl⟩
    exact .stop

section

variable [DecidableEq α]

theorem matches_chr_iff {c : α} : Matches (chr c) before m after ↔ m = [c] := by
  unfold chr
  rw [matches_set_iff]
  simp

theorem matches_lit_iff {w : List α} : Matches (lit w) before m after ↔ m = w := by
  induction w generalizing before m with
  | nil => exact matches_eps_iff
  | cons c w ih =>
      show Matches (.cat (chr c) (lit w)) before m after ↔ _
      rw [matches_cat_iff]
      simp only [matches_chr_iff, ih]
      constructor
      · rintro ⟨a, b, rfl, rfl, rfl⟩
        rfl
      · rintro rfl
        exact ⟨[c], w, rfl, rfl, rfl⟩

end

/-- A run of a class. -/
theorem matches_star_set_iff {p : α → Bool} :
    Matches (.star (.set p)) before m after ↔ ∀ c ∈ m, p c = true := by
  constructor
  · intro h
    generalize hr : Pattern.star (.set p) = e at h
    induction h with
    | stop_star => exact fun c hc => absurd hc List.not_mem_nil
    | more hset _ _ ih =>
        cases hr
        obtain ⟨c, hc, rfl⟩ := matches_set_iff.mp hset
        exact List.forall_mem_cons.mpr ⟨hc, ih rfl⟩
    | set => cases hr
    | eps => cases hr
    | cat => cases hr
    | left => cases hr
    | right => cases hr
    | start => cases hr
    | stop => cases hr
  · intro h
    induction m generalizing before with
    | nil => exact .stop_star
    | cons c m ih =>
        obtain ⟨hc, hm⟩ := List.forall_mem_cons.mp h
        exact Matches.more (m := [c]) (.set hc) (ih hm)

theorem matches_plus_set_iff {p : α → Bool} :
    Matches (plus (.set p)) before m after ↔ m ≠ [] ∧ ∀ c ∈ m, p c = true := by
  unfold plus
  rw [matches_cat_iff]
  simp only [matches_set_iff, matches_star_set_iff]
  constructor
  · rintro ⟨a, b, rfl, ⟨c, hc, rfl⟩, hb⟩
    exact ⟨List.cons_ne_nil _ _, List.forall_mem_cons.mpr ⟨hc, hb⟩⟩
  · rintro ⟨hne, hall⟩
    obtain ⟨c, m, rfl⟩ := List.exists_cons_of_ne_nil hne
    obtain ⟨hc, hm⟩ := List.forall_mem_cons.mp hall
    exact ⟨[c], m, rfl, ⟨c, hc, rfl⟩, hm⟩

/-- A word at the end of the text. -/
theorem matches_lit_stop_iff [DecidableEq α] {w : List α} :
    Matches (.cat (lit w) .stop) before m after ↔ m = w ∧ after = [] := by
  rw [matches_cat_iff]
  simp only [matches_lit_iff, matches_stop_iff]
  constructor
  · rintro ⟨a, b, rfl, rfl, rfl, rfl⟩
    exact ⟨List.append_nil _, rfl⟩
  · rintro ⟨rfl, rfl⟩
    exact ⟨m, [], (List.append_nil _).symm, rfl, rfl, rfl⟩

end CypherConnect.Regex
