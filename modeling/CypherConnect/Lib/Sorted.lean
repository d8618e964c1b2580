/-
  Lists that keep their items sorted by a comparator and recognise an item that is already there by
  an equality of its own.

  The comparator may call two items equal that the equality tells apart, and the other way round.
  `Adds` says what adding an item may do; an `Implementation` is any way of doing that.

  * `items_addAll_of_strict`: adding the items of a strictly sorted list in their order gives that
    list.
  * `strict_addAll`: items of which no two tie without being the same give a strictly sorted list.
  * `addAll_eq_of_mem`: where comparator and equality are exact the list depends only on the set of
    the items.
-/
import Mathlib.Data.List.Perm.Basic
import Mathlib.Data.List.Induction
import Mathlib.Data.List.Pairwise
import Mathlib.Data.List.Nodup
import Mathlib.Order.Compare

namespace CypherConnect.Sorted

variable {α : Type}

/-- How items are sorted, and when two of them are the same item. -/
structure Callback (α : Type) where
  compare : α → α → Ordering
  same : α → α → Bool
  trans : Std.TransCmp compare

instance (c : Callback α) : Std.TransCmp c.compare := c.trans

structure SortedList (c : Callback α) where
  items : List α
  sorted : items.Pairwise fun a b => c.compare a b ≠ .gt

theorem SortedList.eq_of_items {c : Callback α} {l l' : SortedList c} (h : l.items = l'.items) :
    l = l' := by
  obtain ⟨items, hsorted⟩ := l
  subst h
  rfl

def SortedList.empty (c : Callback α) : SortedList c := ⟨[], List.Pairwise.nil⟩

/-- No item that ties with `x` is the same as `x`. -/
def IsNew (c : Callback α) (l : List α) (x : α) : Prop :=
  ∀ y ∈ l, c.compare y x = .eq → c.same y x = false

/-- What adding `x` may do to the items. -/
inductive Adds (c : Callback α) : List α → α → List α → Prop
  /-- The item with the same place in the order is replaced. -/
  | replace (pre post : List α) {y x : α} (hsame : c.same y x = true) (htie : c.compare y x = .eq) :
      Adds c (pre ++ y :: post) x (pre ++ x :: post)
  /-- The item before which `x` belongs is the same item, so it is replaced although it sorts
  later. -/
  | displace (pre post : List α) {y x : α} (hsame : c.same y x = true) (hgt : c.compare y x = .gt)
      (hnew : IsNew c (pre ++ y :: post) x) : Adds c (pre ++ y :: post) x (pre ++ x :: post)
  /-- A new item is inserted; among items that tie with it the place is open. -/
  | insert (pre post : List α) {x : α} (hnew : IsNew c (pre ++ post) x) :
      Adds c (pre ++ post) x (pre ++ x :: post)

/-- An implementation keeps the items sorted and replaces the items that are the same. -/
structure Implementation where
  add : ∀ {α : Type} (c : Callback α), SortedList c → α → SortedList c
  adds : ∀ {α : Type} (c : Callback α) (l : SortedList c) (x : α),
    Adds c l.items x (add c l x).items

def Implementation.addAll (S : Implementation) (c : Callback α) (l : SortedList c) (xs : List α) :
    SortedList c :=
  xs.foldl (S.add c) l

/-! ## Comparisons -/

/-- Comparing by a key. -/
theorem transCmp_on {β : Type} (cmp : β → β → Ordering) [Std.TransCmp cmp] (key : α → β) :
    Std.TransCmp fun a b => cmp (key a) (key b) where
  eq_swap := Std.OrientedCmp.eq_swap
  isLE_trans := Std.TransCmp.isLE_trans

section Compare

variable {c : Callback α} {a b d : α}

theorem compare_swap : c.compare a b = (c.compare b a).swap := Std.OrientedCmp.eq_swap

theorem gt_of_lt (h : c.compare a b = .lt) : c.compare b a = .gt := by
  rw [compare_swap, h]
  rfl

theorem lt_of_tie_right (h : c.compare a b = .lt) (htie : c.compare b d = .eq) :
    c.compare a d = .lt :=
  Std.TransCmp.lt_of_lt_of_eq h htie

theorem lt_of_tie_left (htie : c.compare a b = .eq) (h : c.compare b d = .lt) :
    c.compare a d = .lt :=
  Std.TransCmp.lt_of_eq_of_lt htie h

theorem tie_symm (h : c.compare a b = .eq) : c.compare b a = .eq := by
  rw [compare_swap, h]
  rfl

theorem lt_of_not_gt_of_lt (hle : c.compare a b ≠ .gt) (h : c.compare b d = .lt) :
    c.compare a d = .lt :=
  Std.TransCmp.lt_of_isLE_of_lt (Ordering.isLE_iff_ne_gt.mpr hle) h

theorem gt_of_gt_of_not_gt (h : c.compare a d = .gt) (hle : c.compare a b ≠ .gt) :
    c.compare b d = .gt :=
  gt_of_lt (Std.TransCmp.lt_of_lt_of_isLE (Std.OrientedCmp.gt_iff_lt.mp h)
    (Ordering.isLE_iff_ne_gt.mpr hle))

theorem lt_of_not (hgt : c.compare a b ≠ .gt) (heq : c.compare a b ≠ .eq) :
    c.compare a b = .lt := by
  cases h : c.compare a b with
  | lt => rfl
  | eq => exact absurd h heq
  | gt => exact absurd h hgt

end Compare

/-! ## The items after an addition -/

variable {c : Callback α} {items result : List α} {x : α}

namespace Adds

theorem mem (h : Adds c items x result) : x ∈ result := by
  cases h with
  | replace pre post hsame htie => exact List.mem_append_right _ List.mem_cons_self
  | displace pre post hsame hgt hnew => exact List.mem_append_right _ List.mem_cons_self
  | insert pre post hnew => exact List.mem_append_right _ List.mem_cons_self

theorem mem_or (h : Adds c items x result) {z : α} (hz : z ∈ result) : z = x ∨ z ∈ items := by
  have hcons {pre post : List α} (hz : z ∈ pre ++ x :: post) : z = x ∨ z ∈ pre ++ post := by
    rcases List.mem_append.mp hz with hz | hz
    · exact Or.inr (List.mem_append_left _ hz)
    · rcases List.mem_cons.mp hz with hz | hz
      · exact Or.inl hz
      · exact Or.inr (List.mem_append_right _ hz)
  have hold {pre post : List α} {y : α} (hz : z ∈ pre ++ post) : z ∈ pre ++ y :: post :=
    (List.Sublist.append_left (List.sublist_cons_self y post) pre).subset hz
  cases h with
  | replace pre post hsame htie => exact (hcons hz).imp_right hold
  | displace pre post hsame hgt hnew => exact (hcons hz).imp_right hold
  | insert pre post hnew => exact hcons hz

/-- An item that is no longer there was the same as the new one. -/
theorem mem_of_mem (h : Adds c items x result) {z : α} (hz : z ∈ items) :
    z ∈ result ∨ c.same z x = true := by
  have hreplaced {pre post : List α} {y : α} (hsame : c.same y x = true)
      (hz : z ∈ pre ++ y :: post) : z ∈ pre ++ x :: post ∨ c.same z x = true := by
    rcases List.mem_append.mp hz with hz | hz
    · exact Or.inl (List.mem_append_left _ hz)
    · rcases List.mem_cons.mp hz with rfl | hz
      · exact Or.inr hsame
      · exact Or.inl (List.mem_append_right _ (List.mem_cons_of_mem _ hz))
  cases h with
  | replace pre post hsame htie => exact hreplaced hsame hz
  | displace pre post hsame hgt hnew => exact hreplaced hsame hz
  | insert pre post hnew =>
      exact Or.inl ((List.Sublist.append_left (List.sublist_cons_self x post) pre).subset hz)

/-- An item that is larger than all others goes to the end. -/
theorem last (h : Adds c items x result) (hsorted : result.Pairwise fun a b => c.compare a b ≠ .gt)
    (hlt : ∀ y ∈ items, c.compare y x = .lt) : result = items ++ [x] := by
  cases h with
  | @replace pre post y _ hsame htie =>
      rw [hlt y (List.mem_append_right _ List.mem_cons_self)] at htie
      cases htie
  | @displace pre post y _ hsame hgt hnew =>
      rw [hlt y (List.mem_append_right _ List.mem_cons_self)] at hgt
      cases hgt
  | insert pre post hnew =>
      cases post with
      | nil => rw [List.append_nil]
      | cons p post =>
          -- an item after `x` would have to be larger
          have hp := hlt p (List.mem_append_right _ List.mem_cons_self)
          have hle := (List.pairwise_cons.mp (List.pairwise_append.mp hsorted).2.1).1 p
            List.mem_cons_self
          exact absurd (gt_of_lt hp) hle

end Adds

/-! ## Strictly sorted lists -/

/-- No two items tie. -/
def Strict (c : Callback α) (l : List α) : Prop := l.Pairwise fun a b => c.compare a b = .lt

theorem strict_empty : Strict c (SortedList.empty c).items := List.Pairwise.nil

variable {S : Implementation}

theorem addAll_append (l : SortedList c) (xs ys : List α) :
    S.addAll c l (xs ++ ys) = S.addAll c (S.addAll c l xs) ys :=
  List.foldl_append

/-- Adding the items of a strictly sorted list in their order gives that list. -/
theorem items_addAll_of_strict {xs : List α} (l : SortedList c) (h : Strict c (l.items ++ xs)) :
    (S.addAll c l xs).items = l.items ++ xs := by
  induction xs generalizing l with
  | nil => exact (List.append_nil _).symm
  | cons x xs ih =>
      have hx : ∀ y ∈ l.items, c.compare y x = .lt := by
        intro y hy
        exact (List.pairwise_append.mp h).2.2 y hy x List.mem_cons_self
      have hadd : (S.add c l x).items = l.items ++ [x] :=
        (S.adds c l x).last (S.add c l x).sorted hx
      have hnext : Strict c ((S.add c l x).items ++ xs) := by
        rw [hadd, List.append_assoc]
        exact h
      show (S.addAll c (S.add c l x) xs).items = _
      rw [ih (S.add c l x) hnext, hadd, List.append_assoc]
      rfl

/-- A sorted list stays strictly sorted with an item that ties with none of its items. -/
theorem strict_insert {pre post : List α} (hstrict : Strict c (pre ++ post))
    (hsorted : (pre ++ x :: post).Pairwise fun a b => c.compare a b ≠ .gt)
    (hno : ∀ y ∈ pre ++ post, c.compare y x ≠ .eq) : Strict c (pre ++ x :: post) := by
  obtain ⟨hpre, hpost, hcross⟩ := List.pairwise_append.mp hstrict
  obtain ⟨_, hright, hleft⟩ := List.pairwise_append.mp hsorted
  refine List.pairwise_append.mpr ⟨hpre, List.pairwise_cons.mpr ⟨?_, hpost⟩, ?_⟩
  · intro p hp
    refine lt_of_not ((List.pairwise_cons.mp hright).1 p hp) ?_
    intro htie
    exact hno p (List.mem_append_right _ hp) (tie_symm htie)
  · intro a ha b hb
    rcases List.mem_cons.mp hb with rfl | hb
    · exact lt_of_not (hleft a ha b List.mem_cons_self) (hno a (List.mem_append_left _ ha))
    · exact hcross a ha b hb

/-- Adding an item that is the same as every item it ties with. -/
theorem Adds.strict (h : Adds c items x result)
    (hsorted : result.Pairwise fun a b => c.compare a b ≠ .gt) (hstrict : Strict c items)
    (hx : ∀ y ∈ items, c.compare y x = .eq → c.same y x = true) : Strict c result := by
  have hnotie (hnew : IsNew c items x) : ∀ y ∈ items, c.compare y x ≠ .eq := by
    intro y hy htie
    have hsame := hx y hy htie
    rw [hnew y hy htie] at hsame
    cases hsame
  have hsub {pre post : List α} {y : α} : (pre ++ post).Sublist (pre ++ y :: post) :=
    List.Sublist.append_left (List.sublist_cons_self y post) pre
  cases h with
  | @replace pre post y _ hsame htie =>
      refine strict_insert (hstrict.sublist hsub) hsorted ?_
      intro p hp hptie
      -- `p` would tie with `y` too
      have hyp : c.compare p y = .eq := Std.TransCmp.eq_trans hptie (tie_symm htie)
      obtain ⟨_, hpost, hcross⟩ := List.pairwise_append.mp hstrict
      rcases List.mem_append.mp hp with hp | hp
      · rw [hcross p hp y List.mem_cons_self] at hyp
        cases hyp
      · rw [gt_of_lt ((List.pairwise_cons.mp hpost).1 p hp)] at hyp
        cases hyp
  | displace pre post hsame hgt hnew =>
      exact strict_insert (hstrict.sublist hsub) hsorted fun p hp => hnotie hnew p (hsub.subset hp)
  | insert pre post hnew => exact strict_insert hstrict hsorted (hnotie hnew)

theorem mem_addAll {xs : List α} {l : SortedList c} {z : α} (hz : z ∈ (S.addAll c l xs).items) :
    z ∈ l.items ∨ z ∈ xs := by
  induction xs generalizing l with
  | nil => exact Or.inl hz
  | cons x xs ih =>
      rcases ih hz with hz | hz
      · rcases (S.adds c l x).mem_or hz with rfl | hz
        · exact Or.inr List.mem_cons_self
        · exact Or.inl hz
      · exact Or.inr (List.mem_cons_of_mem _ hz)

/-- Items of which no two tie without being the same give a strictly sorted list. -/
theorem strict_addAll {xs : List α} {l : SortedList c} (hl : Strict c l.items)
    (h : ∀ y ∈ l.items ++ xs, ∀ x ∈ xs, c.compare y x = .eq → c.same y x = true) :
    Strict c (S.addAll c l xs).items := by
  induction xs generalizing l with
  | nil => exact hl
  | cons x xs ih =>
      have hadds := S.adds c l x
      refine ih (hadds.strict (S.add c l x).sorted hl ?_) ?_
      · intro y hy
        exact h y (List.mem_append_left _ hy) x List.mem_cons_self
      · intro y hy z hz
        refine h y ?_ z (List.mem_cons_of_mem _ hz)
        rcases List.mem_append.mp hy with hy | hy
        · rcases hadds.mem_or hy with rfl | hy
          · exact List.mem_append_right _ List.mem_cons_self
          · exact List.mem_append_left _ hy
        · exact List.mem_append_right _ (List.mem_cons_of_mem _ hy)

/-- In a strictly sorted list only an item itself ties with it. -/
theorem Strict.eq_of_tie {l : List α} (h : Strict c l) {a b : α} (ha : a ∈ l) (hb : b ∈ l)
    (htie : c.compare a b = .eq) : a = b := by
  obtain ⟨i, hi, rfl⟩ := List.mem_iff_getElem.mp ha
  obtain ⟨j, hj, rfl⟩ := List.mem_iff_getElem.mp hb
  rcases Nat.lt_trichotomy i j with hij | rfl | hij
  · rw [List.pairwise_iff_getElem.mp h i j hi hj hij] at htie
    cases htie
  · rfl
  · rw [gt_of_lt (List.pairwise_iff_getElem.mp h j i hj hi hij)] at htie
    cases htie

/-- A sorted list that is not strictly sorted is so up to a first item that ties with the one
before. -/
theorem exists_first_tie {l : List α} (hsorted : l.Pairwise fun a b => c.compare a b ≠ .gt)
    (h : ¬ Strict c l) : ∃ pre a b post, l = pre ++ a :: b :: post ∧ Strict c (pre ++ [a]) ∧
      c.compare a b = .eq := by
  induction l using List.reverseRecOn with
  | nil => exact absurd List.Pairwise.nil h
  | append_singleton l z ih =>
      obtain ⟨hl, _, hz⟩ := List.pairwise_append.mp hsorted
      by_cases hstrict : Strict c l
      · -- the last item is the first that ties, with some item and so with the one before it
        obtain ⟨y, hy, hyz⟩ : ∃ y ∈ l, c.compare y z ≠ .lt := by
          by_contra hno
          push Not at hno
          refine h (List.pairwise_append.mpr ⟨hstrict, List.pairwise_singleton _ _, ?_⟩)
          intro y hy x hx
          rw [List.mem_singleton.mp hx]
          exact hno y hy
        obtain ⟨pre, a, rfl⟩ : ∃ pre a, l = pre ++ [a] :=
          ⟨_, _, (List.dropLast_append_getLast (List.ne_nil_of_mem hy)).symm⟩
        refine ⟨pre, a, z, [], List.append_assoc _ _ _, hstrict, ?_⟩
        have haz := hz a (List.mem_append_right _ List.mem_cons_self) z List.mem_cons_self
        by_contra hne
        have hlt := lt_of_not haz hne
        rcases List.mem_append.mp hy with hy | hy
        · have hya := (List.pairwise_append.mp hstrict).2.2 y hy a List.mem_cons_self
          exact hyz (Std.TransCmp.lt_trans hya hlt)
        · rw [List.mem_singleton.mp hy] at hyz
          exact hyz hlt
      · obtain ⟨pre, a, b, post, rfl, hpre, htie⟩ := ih hl hstrict
        exact ⟨pre, a, b, post ++ [z], by simp, hpre, htie⟩

/-- Every item added is the same as one of the items of the list. -/
theorem exists_same (hrefl : ∀ a, c.same a a = true)
    (htrans : ∀ a b d, c.same a b = true → c.same b d = true → c.same a d = true) {xs : List α}
    {l : SortedList c} {z : α} (hz : z ∈ l.items ∨ z ∈ xs) :
    ∃ y ∈ (S.addAll c l xs).items, c.same z y = true := by
  induction xs generalizing l z with
  | nil => exact ⟨z, hz.resolve_right List.not_mem_nil, hrefl z⟩
  | cons x xs ih =>
      have hadds := S.adds c l x
      rcases hz with hz | hz
      · rcases hadds.mem_of_mem hz with hz | hsame
        · exact ih (l := S.add c l x) (Or.inl hz)
        · obtain ⟨y, hy, hxy⟩ := ih (l := S.add c l x) (Or.inl hadds.mem)
          exact ⟨y, hy, htrans z x y hsame hxy⟩
      · rcases List.mem_cons.mp hz with rfl | hz
        · exact ih (l := S.add c l z) (Or.inl hadds.mem)
        · exact ih (l := S.add c l x) (Or.inr hz)

/-! ## Items that tie -/

/-- No two items that tie are the same. -/
def Distinct (c : Callback α) (l : List α) : Prop :=
  l.Pairwise fun a b => c.compare a b = .eq → c.same a b = false

theorem distinct_insert (hsymm : ∀ a b, c.same a b = true → c.same b a = true) {pre post : List α}
    (h : Distinct c (pre ++ post)) (hnew : IsNew c (pre ++ post) x) :
    Distinct c (pre ++ x :: post) := by
  obtain ⟨hpre, hpost, hcross⟩ := List.pairwise_append.mp h
  refine List.pairwise_append.mpr ⟨hpre, List.pairwise_cons.mpr ⟨?_, hpost⟩, ?_⟩
  · intro p hp htie
    have hnot := hnew p (List.mem_append_right _ hp) (tie_symm htie)
    by_contra hsame
    rw [Bool.not_eq_false] at hsame
    rw [hsymm x p hsame] at hnot
    cases hnot
  · intro a ha b hb
    rcases List.mem_cons.mp hb with rfl | hb
    · exact hnew a (List.mem_append_left _ ha)
    · exact hcross a ha b hb

theorem Adds.distinct (hsymm : ∀ a b, c.same a b = true → c.same b a = true)
    (htrans : ∀ a b d, c.same a b = true → c.same b d = true → c.same a d = true)
    (h : Adds c items x result) (hitems : Distinct c items) : Distinct c result := by
  have hsub {pre post : List α} {y : α} : (pre ++ post).Sublist (pre ++ y :: post) :=
    List.Sublist.append_left (List.sublist_cons_self y post) pre
  cases h with
  | @replace pre post y _ hsame htie =>
      refine distinct_insert hsymm (hitems.sublist hsub) ?_
      intro p hp hptie
      by_contra hpsame
      rw [Bool.not_eq_false] at hpsame
      -- `p` would be the same as `y` too, and tie with it
      have hpy : c.compare p y = .eq := Std.TransCmp.eq_trans hptie (tie_symm htie)
      have hsamepy := htrans p x y hpsame (hsymm y x hsame)
      obtain ⟨_, hpost, hcross⟩ := List.pairwise_append.mp hitems
      rcases List.mem_append.mp hp with hp | hp
      · rw [hcross p hp y List.mem_cons_self hpy] at hsamepy
        cases hsamepy
      · have hnot := (List.pairwise_cons.mp hpost).1 p hp (tie_symm hpy)
        rw [hsymm p y hsamepy] at hnot
        cases hnot
  | displace pre post hsame hgt hnew =>
      exact distinct_insert hsymm (hitems.sublist hsub) fun p hp => hnew p (hsub.subset hp)
  | insert pre post hnew => exact distinct_insert hsymm hitems hnew

theorem distinct_addAll (hsymm : ∀ a b, c.same a b = true → c.same b a = true)
    (htrans : ∀ a b d, c.same a b = true → c.same b d = true → c.same a d = true) {xs : List α}
    {l : SortedList c} (hl : Distinct c l.items) : Distinct c (S.addAll c l xs).items := by
  induction xs generalizing l with
  | nil => exact hl
  | cons x xs ih => exact ih (l := S.add c l x) ((S.adds c l x).distinct hsymm htrans hl)

/-! ## Exact comparators -/

/-- Only an item itself ties with it, and only it is the same. -/
structure Exact (c : Callback α) : Prop where
  tie : ∀ {a b}, c.compare a b = .eq ↔ a = b
  same : ∀ {a b}, c.same a b = true ↔ a = b

theorem mem_addAll_iff (hc : Exact c) {xs : List α} {l : SortedList c} {z : α} :
    z ∈ (S.addAll c l xs).items ↔ z ∈ l.items ∨ z ∈ xs := by
  refine ⟨mem_addAll, ?_⟩
  induction xs generalizing l with
  | nil => exact fun h => h.resolve_right List.not_mem_nil
  | cons x xs ih =>
      intro h
      have hadds := S.adds c l x
      refine ih (l := S.add c l x) ?_
      rcases h with h | h
      · rcases hadds.mem_of_mem h with h | h
        · exact Or.inl h
        · rw [hc.same.mp h]
          exact Or.inl hadds.mem
      · rcases List.mem_cons.mp h with rfl | h
        · exact Or.inl hadds.mem
        · exact Or.inr h

theorem strict_addAll_of_exact (hc : Exact c) {xs : List α} {l : SortedList c}
    (hl : Strict c l.items) : Strict c (S.addAll c l xs).items := by
  refine strict_addAll hl ?_
  intro y _ x _ htie
  exact hc.same.mpr (hc.tie.mp htie)

/-- Strictly sorted lists with the same members are equal. -/
theorem Strict.eq_of_mem {l l' : List α} (h : Strict c l) (h' : Strict c l')
    (hmem : ∀ z, z ∈ l ↔ z ∈ l') : l = l' := by
  have hne {a b : α} (hlt : c.compare a b = .lt) : a ≠ b := by
    rintro rfl
    have htie : c.compare a a = .eq := Std.ReflCmp.compare_self
    rw [hlt] at htie
    cases htie
  have hperm : l.Perm l' := (List.perm_ext_iff_of_nodup (h.imp hne) (h'.imp hne)).mpr hmem
  refine hperm.eq_of_pairwise (fun a b _ _ hab hba => ?_) h h'
  rw [gt_of_lt hab] at hba
  cases hba

/-- Where comparator and equality are exact only the set of the items matters. -/
theorem addAll_eq_of_mem (hc : Exact c) {xs ys : List α} (hmem : ∀ z, z ∈ xs ↔ z ∈ ys) :
    (S.addAll c (.empty c) xs).items = (S.addAll c (.empty c) ys).items := by
  refine (strict_addAll_of_exact hc strict_empty).eq_of_mem
    (strict_addAll_of_exact hc strict_empty) ?_
  intro z
  rw [mem_addAll_iff hc, mem_addAll_iff hc, hmem]

end CypherConnect.Sorted
