/-
  `androidx.recyclerview.widget.SortedList`: the binary search of `add`, as an implementation of
  sorted lists.

  An item that compares equal to the one the search stops at, without being the same, is searched
  for among the neighbours that compare equal too; if it is not there it is inserted before that
  one.

  * `findIndexOf_placed`: where the search ends.
  * `androidx`: the implementation.
  * `items_addAll_ne`: a list with items that tie changes when its items are added in their order.
-/
import CypherConnect.Lib.Sorted

namespace CypherConnect

open Sorted

variable {α : Type}

namespace Androidx

section

variable (c : Callback α) (item : α) (data : List α)

/-- The first loop of `linearEqualitySearch`: down from the argument, not below `left`. -/
def searchLeft (left : Nat) : Nat → Option Nat
  | 0 => none
  | next + 1 =>
      if next < left then none
      else
        match data[next]? with
        | none => none
        | some nextItem =>
            if c.compare nextItem item = .eq then
              if c.same nextItem item then some next else searchLeft left next
            else none

/-- The second loop: `count` items from `next` on. -/
def searchRight : Nat → Nat → Option Nat
  | 0, _ => none
  | count + 1, next =>
      match data[next]? with
      | none => none
      | some nextItem =>
          if c.compare nextItem item = .eq then
            if c.same nextItem item then some next else searchRight count (next + 1)
          else none

def linearEqualitySearch (middle left right : Nat) : Option Nat :=
  (searchLeft c item data left middle).or
    (searchRight c item data (right - (middle + 1)) (middle + 1))

/-- `findIndexOf` for an insertion. The first argument bounds the number of turns. -/
def findIndexOf : Nat → Nat → Nat → Nat
  | 0, left, _ => left
  | fuel + 1, left, right =>
      if left < right then
        match data[(left + right) / 2]? with
        | none => left
        | some myItem =>
            match c.compare myItem item with
            | .lt => findIndexOf fuel ((left + right) / 2 + 1) right
            | .eq =>
                if c.same myItem item then (left + right) / 2
                else (linearEqualitySearch c item data ((left + right) / 2) left right).getD
                  ((left + right) / 2)
            | .gt => findIndexOf fuel left ((left + right) / 2)
      else left

/-- `add`, on the items. -/
def addItem : List α :=
  let index := findIndexOf c item data data.length 0 data.length
  match data[index]? with
  | some existing =>
      if c.same existing item then data.set index item
      else data.take index ++ item :: data.drop index
  | none => data.take index ++ item :: data.drop index

end

variable {c : Callback α} {item : α} {data : List α}

/-! ## The linear search -/

theorem searchLeft_some {left next k : Nat} (h : searchLeft c item data left next = some k) :
    ∃ y, data[k]? = some y ∧ c.compare y item = .eq ∧ c.same y item = true := by
  induction next with
  | zero => cases h
  | succ next ih =>
      unfold searchLeft at h
      split at h
      · cases h
      · split at h
        · cases h
        · next y hy =>
            split at h
            · next htie =>
                split at h
                · next hsame =>
                    cases h
                    exact ⟨y, hy, htie, hsame⟩
                · exact ih h
            · cases h

theorem searchLeft_none {left next j : Nat} (h : searchLeft c item data left next = none)
    (hleft : left ≤ j) (hj : j < next)
    (htie : ∀ k, j ≤ k → k < next → ∃ y, data[k]? = some y ∧ c.compare y item = .eq) :
    ∀ y, data[j]? = some y → c.same y item = false := by
  induction next with
  | zero => omega
  | succ next ih =>
      obtain ⟨y, hy, heq⟩ := htie next (by omega) (by omega)
      unfold searchLeft at h
      rw [if_neg (by omega)] at h
      simp only [hy, heq, if_true] at h
      split at h
      · cases h
      · next hsame =>
          by_cases hlast : j = next
          · subst hlast
            intro z hz
            rw [hy] at hz
            rw [← Option.some.inj hz]
            exact Bool.eq_false_iff.mpr hsame
          · exact ih h (by omega) fun k h1 h2 => htie k h1 (by omega)

theorem searchRight_some {count next k : Nat} (h : searchRight c item data count next = some k) :
    ∃ y, data[k]? = some y ∧ c.compare y item = .eq ∧ c.same y item = true := by
  induction count generalizing next with
  | zero => cases h
  | succ count ih =>
      unfold searchRight at h
      split at h
      · cases h
      · next y hy =>
          split at h
          · next htie =>
              split at h
              · next hsame =>
                  cases h
                  exact ⟨y, hy, htie, hsame⟩
              · exact ih h
          · cases h

theorem searchRight_none {count next j : Nat} (h : searchRight c item data count next = none)
    (hj : next ≤ j) (hcount : j < next + count)
    (htie : ∀ k, next ≤ k → k ≤ j → ∃ y, data[k]? = some y ∧ c.compare y item = .eq) :
    ∀ y, data[j]? = some y → c.same y item = false := by
  induction count generalizing next with
  | zero => omega
  | succ count ih =>
      obtain ⟨y, hy, heq⟩ := htie next (by omega) hj
      unfold searchRight at h
      simp only [hy, heq, if_true] at h
      split at h
      · cases h
      · next hsame =>
          by_cases hfirst : j = next
          · subst hfirst
            intro z hz
            rw [hy] at hz
            rw [← Option.some.inj hz]
            exact Bool.eq_false_iff.mpr hsame
          · exact ih h (by omega) (by omega) fun k h1 h2 => htie k (by omega) h2

/-! ## The binary search -/

/-- Sortedness by positions. -/
theorem compare_of_lt (hs : data.Pairwise fun a b => c.compare a b ≠ .gt) {i j : Nat} {a b : α}
    (hij : i < j) (ha : data[i]? = some a) (hb : data[j]? = some b) : c.compare a b ≠ .gt := by
  obtain ⟨hi, rfl⟩ := List.getElem?_eq_some_iff.mp ha
  obtain ⟨hj, rfl⟩ := List.getElem?_eq_some_iff.mp hb
  exact List.pairwise_iff_getElem.mp hs i j hi hj hij

/-- What stands between two items that tie with `item` ties with it too. -/
theorem tie_between {a b d : α} (hab : c.compare a b ≠ .gt) (hbd : c.compare b d ≠ .gt)
    (ha : c.compare a item = .eq) (hd : c.compare d item = .eq) : c.compare b item = .eq := by
  have hle : c.compare b item ≠ .gt := by
    refine Std.TransCmp.le_trans hbd ?_
    rw [hd]
    decide
  cases hb : c.compare b item with
  | lt =>
      have hlt : c.compare b a = .lt := lt_of_tie_right hb (tie_symm ha)
      exact absurd (gt_of_lt hlt) hab
  | eq => rfl
  | gt => exact absurd hb hle

/-- So all positions between two that tie hold items that tie. -/
theorem ties_between (hs : data.Pairwise fun a b => c.compare a b ≠ .gt) {i j k : Nat} {y z : α}
    (hi : data[i]? = some y) (hj : data[j]? = some z) (hy : c.compare y item = .eq)
    (hz : c.compare z item = .eq) (hik : i ≤ k) (hkj : k ≤ j) :
    ∃ x, data[k]? = some x ∧ c.compare x item = .eq := by
  rcases Nat.eq_or_lt_of_le hik with rfl | hik
  · exact ⟨y, hi, hy⟩
  rcases Nat.eq_or_lt_of_le hkj with rfl | hkj
  · exact ⟨z, hj, hz⟩
  have hlt : k < data.length := Nat.lt_trans hkj (List.getElem?_eq_some_iff.mp hj).1
  have hk : data[k]? = some data[k] := List.getElem?_eq_getElem hlt
  exact ⟨_, hk, tie_between (compare_of_lt hs hik hi hk) (compare_of_lt hs hkj hk hj) hy hz⟩

/-- Where an item may go: on the item it is, or between the smaller and the larger ones, and then
before one that ties with it if there is any. -/
def Placed (c : Callback α) (item : α) (data : List α) (index : Nat) : Prop :=
  (∃ y, data[index]? = some y ∧ c.compare y item = .eq ∧ c.same y item = true) ∨
    (index ≤ data.length ∧ IsNew c data item ∧
      ((∃ y ∈ data, c.compare y item = .eq) → ∃ y, data[index]? = some y ∧ c.compare y item = .eq) ∧
      (∀ j y, j < index → data[j]? = some y → c.compare y item ≠ .gt) ∧
      ∀ j y, index ≤ j → data[j]? = some y → c.compare y item ≠ .lt)

/-- The items around one that ties with the new item. -/
theorem around_tie (hs : data.Pairwise fun a b => c.compare a b ≠ .gt) {middle : Nat} {myItem : α}
    (hmiddle : data[middle]? = some myItem) (htie : c.compare myItem item = .eq) :
    (∀ j y, j < middle → data[j]? = some y → c.compare y item ≠ .gt) ∧
      ∀ j y, middle ≤ j → data[j]? = some y → c.compare y item ≠ .lt := by
  constructor
  · intro j y hj hy
    refine Std.TransCmp.le_trans (compare_of_lt hs hj hy hmiddle) ?_
    rw [htie]
    decide
  · intro j y hj hy hylt
    rcases Nat.eq_or_lt_of_le hj with rfl | hj
    · have heq : myItem = y := Option.some.inj (hmiddle.symm.trans hy)
      rw [← heq, htie] at hylt
      cases hylt
    · have hback := gt_of_lt (lt_of_tie_right hylt (tie_symm htie))
      exact compare_of_lt hs hj hmiddle hy hback

theorem Placed.bounds (hs : data.Pairwise fun a b => c.compare a b ≠ .gt) {index : Nat}
    (h : Placed c item data index) :
    (∀ j y, j < index → data[j]? = some y → c.compare y item ≠ .gt) ∧
      ∀ j y, index ≤ j → data[j]? = some y → c.compare y item ≠ .lt := by
  rcases h with ⟨y, hy, htie, _⟩ | ⟨_, _, _, hbounds⟩
  · exact around_tie hs hy htie
  · exact hbounds

/-- The search stops at an item that ties with the new one without being the same. -/
theorem placed_of_tie (hs : data.Pairwise fun a b => c.compare a b ≠ .gt) {left middle right : Nat}
    (hleft : ∀ j y, j < left → data[j]? = some y → c.compare y item = .lt)
    (hright : ∀ j y, right ≤ j → data[j]? = some y → c.compare y item = .gt)
    {myItem : α} (hmiddle : data[middle]? = some myItem) (htie : c.compare myItem item = .eq)
    (hsame : c.same myItem item = false) :
    Placed c item data ((linearEqualitySearch c item data middle left right).getD middle) := by
  have hlt : middle < data.length := (List.getElem?_eq_some_iff.mp hmiddle).1
  unfold linearEqualitySearch
  cases hl : searchLeft c item data left middle with
  | some k => exact Or.inl (searchLeft_some hl)
  | none =>
      cases hr : searchRight c item data (right - (middle + 1)) (middle + 1) with
      | some k => exact Or.inl (searchRight_some hr)
      | none =>
          show Placed c item data middle
          refine Or.inr ⟨Nat.le_of_lt hlt, ?_, fun _ => ⟨myItem, hmiddle, htie⟩,
            around_tie hs hmiddle htie⟩
          · intro y hy hytie
            obtain ⟨j, hj⟩ := List.mem_iff_getElem?.mp hy
            rcases Nat.lt_trichotomy j middle with hjm | rfl | hjm
            · have hge : left ≤ j := by
                by_contra hlow
                rw [hleft j y (by omega) hj] at hytie
                cases hytie
              refine searchLeft_none hl hge hjm (fun k h1 h2 => ?_) y hj
              exact ties_between hs hj hmiddle hytie htie h1 (Nat.le_of_lt h2)
            · rw [hmiddle] at hj
              rw [← Option.some.inj hj]
              exact hsame
            · have hge : j < right := by
                by_contra hhigh
                rw [hright j y (by omega) hj] at hytie
                cases hytie
              refine searchRight_none hr (by omega) (by omega) (fun k h1 h2 => ?_) y hj
              exact ties_between hs hmiddle hj htie hytie (by omega) h2

/-- With nothing left to search every item is known to be smaller or larger. -/
theorem placed_of_done {left : Nat} (hbound : left ≤ data.length)
    (hleft : ∀ j y, j < left → data[j]? = some y → c.compare y item = .lt)
    (hright : ∀ j y, left ≤ j → data[j]? = some y → c.compare y item = .gt) :
    Placed c item data left := by
  have hno : ∀ y ∈ data, c.compare y item ≠ .eq := by
    intro y hy htie
    obtain ⟨j, hj⟩ := List.mem_iff_getElem?.mp hy
    by_cases hjl : j < left
    · rw [hleft j y hjl hj] at htie
      cases htie
    · rw [hright j y (by omega) hj] at htie
      cases htie
  refine Or.inr ⟨hbound, fun y hy htie => absurd htie (hno y hy), ?_, ?_, ?_⟩
  · rintro ⟨y, hy, htie⟩
    exact absurd htie (hno y hy)
  · intro j y hj hy
    rw [hleft j y hj hy]
    decide
  · intro j y hj hy
    rw [hright j y hj hy]
    decide

/-- All items outside the window are known to be smaller or larger, and the window shrinks. -/
theorem findIndexOf_placed (hs : data.Pairwise fun a b => c.compare a b ≠ .gt)
    {fuel left right : Nat} (hfuel : right - left ≤ fuel) (hle : left ≤ right)
    (hbound : right ≤ data.length)
    (hleft : ∀ j y, j < left → data[j]? = some y → c.compare y item = .lt)
    (hright : ∀ j y, right ≤ j → data[j]? = some y → c.compare y item = .gt) :
    Placed c item data (findIndexOf c item data fuel left right) := by
  induction fuel generalizing left right with
  | zero =>
      obtain rfl : left = right := by omega
      exact placed_of_done hbound hleft hright
  | succ fuel ih =>
      unfold findIndexOf
      split
      · next hlt =>
          have hmid : (left + right) / 2 < data.length := by omega
          have hget := List.getElem?_eq_getElem hmid
          rw [hget]
          dsimp only
          split
          · next hcmp =>
              refine ih (by omega) (by omega) hbound ?_ hright
              intro j y hj hy
              rcases Nat.lt_or_eq_of_le (Nat.lt_succ_iff.mp hj) with hj | rfl
              · exact lt_of_not_gt_of_lt (compare_of_lt hs hj hy hget) hcmp
              · rw [hget] at hy
                rw [← Option.some.inj hy, hcmp]
          · next hcmp =>
              split
              · next hsame => exact Or.inl ⟨_, hget, hcmp, hsame⟩
              · next hsame =>
                  exact placed_of_tie hs hleft hright hget hcmp (Bool.eq_false_iff.mpr hsame)
          · next hcmp =>
              refine ih (by omega) (by omega) (by omega) hleft ?_
              intro j y hj hy
              rcases Nat.lt_or_eq_of_le hj with hj | rfl
              · exact gt_of_gt_of_not_gt hcmp (compare_of_lt hs hj hget hy)
              · rw [hget] at hy
                rw [← Option.some.inj hy, hcmp]
      · obtain rfl : left = right := by omega
        exact placed_of_done hbound hleft hright

theorem placed_start (hs : data.Pairwise fun a b => c.compare a b ≠ .gt) (item : α) :
    Placed c item data (findIndexOf c item data data.length 0 data.length) := by
  refine findIndexOf_placed hs (by omega) (Nat.zero_le _) (Nat.le_refl _) ?_ ?_
  · intro j y hj
    omega
  · intro j y hj hy
    have := (List.getElem?_eq_some_iff.mp hy).1
    omega

/-! ## Adding -/

/-- The new item between items that are not larger and items that are not smaller. -/
theorem sorted_put (hs : data.Pairwise fun a b => c.compare a b ≠ .gt) {index : Nat}
    (h : Placed c item data index) {k : Nat} (hk : index ≤ k) :
    (data.take index ++ item :: data.drop k).Pairwise fun a b => c.compare a b ≠ .gt := by
  obtain ⟨hbefore, hafter⟩ := h.bounds hs
  refine List.pairwise_append.mpr ⟨hs.sublist (List.take_sublist _ _),
    List.pairwise_cons.mpr ⟨?_, ?_⟩, ?_⟩
  · intro y hy hgt
    obtain ⟨j, hj⟩ := List.mem_iff_getElem?.mp hy
    rw [List.getElem?_drop] at hj
    exact hafter (k + j) y (by omega) hj (Std.OrientedCmp.gt_iff_lt.mp hgt)
  · exact hs.sublist (List.drop_sublist _ _)
  · intro a ha b hb
    obtain ⟨i, hi⟩ := List.mem_iff_getElem?.mp ha
    rw [List.getElem?_take] at hi
    have hlt : i < index := by
      by_contra hge
      rw [if_neg hge] at hi
      cases hi
    rw [if_pos hlt] at hi
    rcases List.mem_cons.mp hb with rfl | hb
    · exact hbefore i a hlt hi
    · obtain ⟨j, hj⟩ := List.mem_iff_getElem?.mp hb
      rw [List.getElem?_drop] at hj
      exact compare_of_lt hs (by omega) hi hj

theorem insert_adds {index : Nat} (hnew : IsNew c data item) :
    Adds c data item (data.take index ++ item :: data.drop index) := by
  have hsplit : IsNew c (data.take index ++ data.drop index) item := by
    rw [List.take_append_drop]
    exact hnew
  have hadds := Adds.insert (data.take index) (data.drop index) hsplit
  rw [List.take_append_drop] at hadds
  exact hadds

/-- `add` does what adding an item may do, and keeps the items sorted. -/
theorem addItem_adds (hs : data.Pairwise fun a b => c.compare a b ≠ .gt) :
    Adds c data item (addItem c item data) ∧
      (addItem c item data).Pairwise fun a b => c.compare a b ≠ .gt := by
  have hplaced := placed_start hs item
  unfold addItem
  generalize findIndexOf c item data data.length 0 data.length = index at hplaced
  dsimp only
  have hsorted := sorted_put hs hplaced (Nat.le_refl index)
  cases hget : data[index]? with
  | none =>
      rcases hplaced with ⟨y, hy, _⟩ | ⟨_, hnew, _⟩
      · rw [hget] at hy
        cases hy
      · exact ⟨insert_adds hnew, hsorted⟩
  | some existing =>
      obtain ⟨hlt, hexisting⟩ := List.getElem?_eq_some_iff.mp hget
      have hsplit : data = data.take index ++ existing :: data.drop (index + 1) := by
        rw [← hexisting, ← List.drop_eq_getElem_cons hlt, List.take_append_drop]
      dsimp only
      split
      · next hsame =>
          rw [List.set_eq_take_append_cons_drop, if_pos hlt]
          refine ⟨?_, sorted_put hs hplaced (Nat.le_succ _)⟩
          rcases hplaced with ⟨y, hy, htie, _⟩ | ⟨_, hnew, _, _, hafter⟩
          · obtain rfl : existing = y := Option.some.inj (hget.symm.trans hy)
            have hadds := Adds.replace (data.take index) (data.drop (index + 1)) hsame htie
            rw [← hsplit] at hadds
            exact hadds
          · -- an item that does not tie, so it is larger
            have hgt : c.compare existing item = .gt := by
              cases hcmp : c.compare existing item with
              | lt => exact absurd hcmp (hafter index existing (Nat.le_refl _) hget)
              | eq =>
                  rw [hnew existing (List.mem_of_getElem? hget) hcmp] at hsame
                  cases hsame
              | gt => rfl
            have hadds := Adds.displace (data.take index) (data.drop (index + 1)) hsame hgt
              (by rw [← hsplit]; exact hnew)
            rw [← hsplit] at hadds
            exact hadds
      · next hsame =>
          rcases hplaced with ⟨y, hy, _, hy'⟩ | ⟨_, hnew, _⟩
          · obtain rfl : existing = y := Option.some.inj (hget.symm.trans hy)
            exact absurd hy' hsame
          · exact ⟨insert_adds hnew, hsorted⟩

/-- A new item that ties with others goes before one of them. -/
theorem addItem_of_tie (hs : data.Pairwise fun a b => c.compare a b ≠ .gt)
    (hnew : IsNew c data item)
    (htie : ∃ y ∈ data, c.compare y item = .eq) : ∃ index y, data[index]? = some y ∧
      c.compare y item = .eq ∧
        addItem c item data = data.take index ++ item :: data.drop index := by
  have hplaced := placed_start hs item
  refine ⟨findIndexOf c item data data.length 0 data.length, ?_⟩
  unfold addItem
  generalize findIndexOf c item data data.length 0 data.length = index at hplaced
  rcases hplaced with ⟨y, hy, hytie, hsame⟩ | ⟨_, _, hat, _⟩
  · rw [hnew y (List.mem_of_getElem? hy) hytie] at hsame
    cases hsame
  · obtain ⟨y, hy, hytie⟩ := hat htie
    refine ⟨y, hy, hytie, ?_⟩
    simp only [hy, hnew y (List.mem_of_getElem? hy) hytie, Bool.false_eq_true, if_false]

end Androidx

/-- The sorted lists of `androidx`. -/
def androidx : Sorted.Implementation where
  add c l x := ⟨Androidx.addItem c x l.items, (Androidx.addItem_adds l.sorted).2⟩
  adds _ l _ := (Androidx.addItem_adds l.sorted).1

/-! ## Items that tie

The first of several items that tie stays the last of them, so a list that has such items changes
when they are added in their order. -/

namespace Androidx

/-- Only larger items come after `g`. -/
def IsLastTie (c : Callback α) (g : α) (items : List α) : Prop :=
  ∃ pre post, items = pre ++ g :: post ∧ ∀ y ∈ post, c.compare g y = .lt

/-- `x` may be added after `y`: it is not smaller, and not the same item. -/
def Follows (c : Callback α) (y x : α) : Prop :=
  c.compare y x ≠ .gt ∧ (c.compare y x = .eq → c.same y x = false)

variable {c : Callback α} {g x : α}

theorem isLastTie_add_of_lt {l : SortedList c} (h : IsLastTie c g l.items)
    (hlt : c.compare g x = .lt)
    (hx : ∀ y ∈ l.items, Follows c y x) : IsLastTie c g (androidx.add c l x).items := by
  obtain ⟨pre, post, hitems, hpost⟩ := h
  have hadds := androidx.adds c l x
  have hsorted := (androidx.add c l x).sorted
  generalize (androidx.add c l x).items = result at hadds hsorted
  rw [hitems] at hadds hx
  generalize hdata : pre ++ g :: post = data at hadds hx
  cases hadds with
  | @replace before after y _ hsame htie =>
      rw [(hx y (List.mem_append_right _ List.mem_cons_self)).2 htie] at hsame
      cases hsame
  | @displace before after y _ hsame hgt hnew =>
      exact absurd hgt (hx y (List.mem_append_right _ List.mem_cons_self)).1
  | insert before after hnew =>
      have hafter : g ∉ after := by
        intro hg
        have hle := (List.pairwise_cons.mp (List.pairwise_append.mp hsorted).2.1).1 g hg
        exact hle (gt_of_lt hlt)
      rcases List.append_eq_append_iff.mp hdata with ⟨between, rfl, hsplit⟩ | ⟨between, _, rfl⟩
      · match between, hsplit with
        | [], hsplit =>
            rw [List.nil_append] at hsplit
            exact absurd (hsplit ▸ List.mem_cons_self) hafter
        | b :: between, hsplit =>
            obtain ⟨rfl, rfl⟩ := List.cons.inj hsplit
            refine ⟨pre, between ++ x :: after, by simp, ?_⟩
            intro y hy
            rcases List.mem_append.mp hy with hy | hy
            · exact hpost y (List.mem_append_left _ hy)
            · rcases List.mem_cons.mp hy with rfl | hy
              · exact hlt
              · exact hpost y (List.mem_append_right _ hy)
      · exact absurd (List.mem_append_right _ List.mem_cons_self) hafter

theorem isLastTie_add_of_tie {l : SortedList c} (h : IsLastTie c g l.items)
    (htie : c.compare g x = .eq) (hx : ∀ y ∈ l.items, Follows c y x) :
    IsLastTie c g (androidx.add c l x).items := by
  obtain ⟨pre, post, hitems, hpost⟩ := h
  have hg : g ∈ l.items := hitems ▸ List.mem_append_right _ List.mem_cons_self
  obtain ⟨index, y, hy, hytie, hadd⟩ :=
    addItem_of_tie l.sorted (fun y hy => (hx y hy).2) ⟨g, hg, htie⟩
  -- what comes after `g` does not tie with `x`
  have hindex : index ≤ pre.length := by
    by_contra hgt
    have hlater : y ∈ post := by
      rw [hitems, List.getElem?_append_right (by omega)] at hy
      obtain ⟨k, hk⟩ : ∃ k, index - pre.length = k + 1 := ⟨index - pre.length - 1, by omega⟩
      rw [hk, List.getElem?_cons_succ] at hy
      exact List.mem_of_getElem? hy
    have hlt := lt_of_tie_left (tie_symm htie) (hpost y hlater)
    rw [gt_of_lt hlt] at hytie
    cases hytie
  refine ⟨pre.take index ++ x :: pre.drop index, post, ?_, hpost⟩
  show addItem c x l.items = _
  rw [hadd, hitems, List.take_append_of_le_length hindex, List.drop_append_of_le_length hindex]
  simp

theorem isLastTie_addAll {xs : List α} {l : SortedList c} (h : IsLastTie c g l.items)
    (hg : ∀ x ∈ xs, c.compare g x ≠ .gt) (hl : ∀ y ∈ l.items, ∀ x ∈ xs, Follows c y x)
    (hxs : xs.Pairwise (Follows c)) : IsLastTie c g (androidx.addAll c l xs).items := by
  induction xs generalizing l with
  | nil => exact h
  | cons x xs ih =>
      have hx : ∀ y ∈ l.items, Follows c y x := fun y hy => hl y hy x List.mem_cons_self
      have hnext : IsLastTie c g (androidx.add c l x).items := by
        by_cases htie : c.compare g x = .eq
        · exact isLastTie_add_of_tie h htie hx
        · exact isLastTie_add_of_lt h (lt_of_not (hg x List.mem_cons_self) htie) hx
      refine ih hnext (fun z hz => hg z (List.mem_cons_of_mem _ hz)) ?_
        (List.pairwise_cons.mp hxs).2
      intro y hy z hz
      rcases (androidx.adds c l x).mem_or hy with rfl | hy
      · exact (List.pairwise_cons.mp hxs).1 z hz
      · exact hl y hy z (List.mem_cons_of_mem _ hz)

/-- Adding the items of a list with two that tie gives another list. -/
theorem items_addAll_ne {items : List α} (hrefl : ∀ a, c.same a a = true)
    (hitems : items.Pairwise (Follows c)) (hstrict : ¬ Strict c items) :
    (androidx.addAll c (.empty c) items).items ≠ items := by
  intro heq
  obtain ⟨pre, a, b, post, rfl, hpre, htie⟩ :=
    exists_first_tie (hitems.imp fun h => h.1) hstrict
  have hnodup : (pre ++ a :: b :: post).Nodup := by
    refine hitems.imp ?_
    rintro y x hfollows rfl
    have hself := hfollows.2 Std.ReflCmp.compare_self
    rw [hrefl] at hself
    cases hself
  -- up to `a` the items are strictly sorted
  have hstart : (androidx.addAll c (.empty c) (pre ++ [a])).items = pre ++ [a] :=
    items_addAll_of_strict (.empty c) hpre
  obtain ⟨_, hright, hcross⟩ := List.pairwise_append.mp hitems
  obtain ⟨ha, htail⟩ := List.pairwise_cons.mp hright
  have hlast : IsLastTie c a (androidx.addAll c (.empty c) (pre ++ [a] ++ b :: post)).items := by
    rw [addAll_append]
    refine isLastTie_addAll ⟨pre, [], hstart, List.forall_mem_nil _⟩
      (fun x hx => (ha x hx).1) ?_ htail
    intro y hy x hx
    rw [hstart] at hy
    rcases List.mem_append.mp hy with hy | hy
    · exact hcross y hy x (List.mem_cons_of_mem _ hx)
    · rw [List.mem_singleton.mp hy]
      exact ha x hx
  rw [List.append_assoc, List.singleton_append, heq] at hlast
  obtain ⟨before, after, hsplit, hafter⟩ := hlast
  have hnot := List.nodup_append.mp hnodup
  have hpre' : a ∉ pre := fun hm => hnot.2.2 a hm a List.mem_cons_self rfl
  have htail' : a ∉ b :: post := (List.nodup_cons.mp hnot.2.1).1
  obtain ⟨_, _, rfl⟩ := (List.append_cons_inj_of_notMem hpre' htail').mp hsplit
  rw [hafter b List.mem_cons_self] at htie
  cases htie

end Androidx

end CypherConnect
