/-
  Lists that are related element by element (`List.Forall₂`), and `mapM` into `Option` as such a
  relation.

  * `split`, `split_left`: what belongs to an element, and the lists before and after it.
  * `exists_left`, `exists_getElem?`: what belongs to a member, and at which place it stands.
  * `forall₂_iff`: a property of the first elements, as a relation of the two lists.
  * `mapM_eq_some_iff`: the results of a `mapM` that succeeds are related to its list.
-/
import Mathlib.Data.List.Forall2

namespace CypherConnect.Related

variable {α β γ : Type} {R : α → β → Prop}

/-- The element that belongs to one of the second list, and what stands before and after it. -/
theorem split {l : List α} {before after : List β} {y : β}
    (h : List.Forall₂ R l (before ++ y :: after)) : ∃ l1 x l2, l = l1 ++ x :: l2 ∧
      List.Forall₂ R l1 before ∧ R x y ∧ List.Forall₂ R l2 after := by
  induction before generalizing l with
  | nil =>
      obtain ⟨x, l2, hx, hl2, rfl⟩ := List.forall₂_cons_right_iff.mp h
      exact ⟨[], x, l2, rfl, List.Forall₂.nil, hx, hl2⟩
  | cons z before ih =>
      obtain ⟨w, rest, hw, hrest, rfl⟩ := List.forall₂_cons_right_iff.mp h
      obtain ⟨l1, x, l2, rfl, hl1, hx, hl2⟩ := ih hrest
      exact ⟨w :: l1, x, l2, rfl, List.Forall₂.cons hw hl1, hx, hl2⟩

theorem split_left {l : List β} {before after : List α} {x : α}
    (h : List.Forall₂ R (before ++ x :: after) l) : ∃ l1 y l2, l = l1 ++ y :: l2 ∧
      List.Forall₂ R before l1 ∧ R x y ∧ List.Forall₂ R after l2 := by
  have hflip : List.Forall₂ (flip R) l (before ++ x :: after) := List.Forall₂.flip h
  obtain ⟨l1, y, l2, hl, hl1, hy, hl2⟩ := split hflip
  exact ⟨l1, y, l2, hl, List.Forall₂.flip hl1, hy, List.Forall₂.flip hl2⟩

theorem exists_left {l : List α} {l' : List β} (h : List.Forall₂ R l l') {y : β} (hy : y ∈ l') :
    ∃ x ∈ l, R x y := by
  obtain ⟨before, after, rfl⟩ := List.append_of_mem hy
  obtain ⟨l1, x, l2, rfl, -, hx, -⟩ := split h
  exact ⟨x, List.mem_append_right _ List.mem_cons_self, hx⟩

theorem exists_getElem? {l : List α} {l' : List β} (h : List.Forall₂ R l l') {i : Nat} {x : α}
    (hx : l[i]? = some x) : ∃ y, l'[i]? = some y ∧ R x y := by
  induction h generalizing i with
  | nil => cases hx
  | cons hab _ ih =>
      cases i with
      | zero =>
          cases hx
          exact ⟨_, rfl, hab⟩
      | succ i => exact ih hx

/-- A relation that holds of related elements exactly if the first one has a property. -/
theorem forall₂_iff {S : α → β → Prop} {P : α → Prop} {l : List α} {l' : List β}
    (h : List.Forall₂ S l l') (hiff : ∀ x y, S x y → (R x y ↔ P x)) :
    List.Forall₂ R l l' ↔ ∀ x ∈ l, P x := by
  induction h with
  | nil => exact iff_of_true List.Forall₂.nil (List.forall_mem_nil _)
  | cons hab _ ih => rw [List.forall₂_cons, List.forall_mem_cons, hiff _ _ hab, ih]

/-! ## `mapM` -/

theorem mapM_eq_some_iff {f : α → Option β} {l : List α} {ys : List β} :
    l.mapM f = some ys ↔ List.Forall₂ (fun x y => f x = some y) l ys := by
  induction l generalizing ys with
  | nil =>
      rw [List.mapM_nil, List.forall₂_nil_left_iff]
      exact ⟨fun h => (Option.some.inj h).symm, fun h => congrArg some h.symm⟩
  | cons x l ih =>
      simp only [List.mapM_cons, Option.bind_eq_bind, Option.bind_eq_some_iff, ih,
        List.forall₂_cons_left_iff]
      constructor
      · rintro ⟨y, hy, rest, hrest, heq⟩
        exact ⟨y, rest, hy, hrest, (Option.some.inj heq).symm⟩
      · rintro ⟨y, rest, hy, hrest, rfl⟩
        exact ⟨y, hy, rest, hrest, rfl⟩

theorem exists_of_mem_mapM {f : α → Option β} {l : List α} {ys : List β} (h : l.mapM f = some ys)
    {y : β} (hy : y ∈ ys) : ∃ x ∈ l, f x = some y :=
  exists_left (mapM_eq_some_iff.mp h) hy

theorem mapM_isSome {f : α → Option β} {l : List α} (h : ∀ x ∈ l, ∃ y, f x = some y) :
    ∃ ys, l.mapM f = some ys := by
  induction l with
  | nil => exact ⟨[], rfl⟩
  | cons x l ih =>
      obtain ⟨y, hy⟩ := h x List.mem_cons_self
      obtain ⟨ys, hys⟩ := ih fun z hz => h z (List.mem_cons_of_mem _ hz)
      refine ⟨y :: ys, ?_⟩
      rw [List.mapM_cons, hy, hys]
      rfl

theorem mapM_map {f : β → Option γ} {g : α → β} {k : α → γ} {l : List α}
    (h : ∀ x ∈ l, f (g x) = some (k x)) : (l.map g).mapM f = some (l.map k) := by
  rw [mapM_eq_some_iff, List.forall₂_map_left_iff, List.forall₂_map_right_iff]
  exact List.forall₂_same.mpr h

end CypherConnect.Related
