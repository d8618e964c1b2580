/-
  Lists seen through a key: the map in which the last entry of a key wins, and replacing the
  entries of a key.

  * `associateBy key l` is the map built by putting the entries of `l` in order.
  * `associateBy_eq_some_iff`, `associateBy_eq_none_iff`, `associateBy_of_nodup`: what it holds.
  * `put key x l` is the insertion into a map that remembers the order of its keys (`mem_put`), and
    `putAll key l` the map of all entries of `l`, in the order of their first occurrence
    (`mem_putAll`: it holds what `associateBy key l` holds).
  * `find?_eq_some_iff`: with unique keys the search for a key finds its entry.
  * `foldl_replaceBy`: replacing by a whole list of entries, one after the other, leaves at each
    key the last of them (the map again).
-/
import Mathlib.Data.List.Nodup
import Mathlib.Data.List.Induction

namespace CypherConnect.Keyed

universe u v

variable {α : Type u} {κ : Type v} [DecidableEq κ]

/-- The map that sends a key to the last entry with it. -/
def associateBy (key : α → κ) (l : List α) : κ → Option α :=
  l.foldl (fun m x k => if key x = k then some x else m k) fun _ => none

/-- Put `x` in the place of every entry with its key. -/
def replaceBy (key : α → κ) (x : α) (l : List α) : List α :=
  l.map fun y => if key y = key x then x else y

/-- Insert `x` in the place of the entry with its key, or at the end. -/
def put (key : α → κ) (x : α) (l : List α) : List α :=
  if key x ∈ l.map key then replaceBy key x l else l ++ [x]

variable {key : α → κ}

@[simp] theorem associateBy_nil (k : κ) : associateBy key [] k = none := rfl

theorem associateBy_snoc (l : List α) (x : α) (k : κ) :
    associateBy key (l ++ [x]) k = if key x = k then some x else associateBy key l k := by
  unfold associateBy
  rw [List.foldl_append]
  rfl

theorem associateBy_eq_none_iff (l : List α) (k : κ) :
    associateBy key l k = none ↔ k ∉ l.map key := by
  induction l using List.reverseRecOn with
  | nil => simp
  | append_singleton l x ih =>
      rw [associateBy_snoc]
      by_cases hx : key x = k
      · simp [hx]
      · rw [if_neg hx, ih]
        simp [Ne.symm hx]

theorem associateBy_isSome_iff (l : List α) (k : κ) :
    (associateBy key l k).isSome ↔ k ∈ l.map key := by
  rw [← not_iff_not, ← associateBy_eq_none_iff]
  simp

/-- The entry found is in the list, has the key, and none after it has. -/
theorem associateBy_eq_some_iff (l : List α) (k : κ) (x : α) :
    associateBy key l k = some x ↔
      ∃ before after, l = before ++ x :: after ∧ key x = k ∧ k ∉ after.map key := by
  induction l using List.reverseRecOn with
  | nil => simp
  | append_singleton l y ih =>
      rw [associateBy_snoc]
      constructor
      · intro h
        split at h
        · next hy =>
            cases h
            exact ⟨l, [], rfl, hy, by simp⟩
        · next hy =>
            obtain ⟨before, after, hl, hk, ha⟩ := ih.mp h
            refine ⟨before, after ++ [y], by rw [hl]; simp, hk, ?_⟩
            rw [List.map_append, List.mem_append]
            rintro (h' | h')
            · exact ha h'
            · exact hy (by simpa [eq_comm] using h')
      · rintro ⟨before, after, hl, hk, ha⟩
        induction after using List.reverseRecOn with
        | nil =>
            obtain ⟨rfl, hxy⟩ := List.append_inj' hl rfl
            cases hxy
            rw [if_pos hk]
        | append_singleton after z _ =>
            rw [← List.cons_append, ← List.append_assoc] at hl
            obtain ⟨hl', hyz⟩ := List.append_inj' hl rfl
            cases hyz
            have hy : key y ≠ k := fun h => ha (by simp [h])
            rw [if_neg hy]
            exact ih.mpr ⟨before, after, hl', hk, fun h => ha (by simp [h])⟩

theorem associateBy_mem {l : List α} {k : κ} {x : α} (h : associateBy key l k = some x) :
    x ∈ l ∧ key x = k := by
  obtain ⟨before, after, hl, hk, _⟩ := (associateBy_eq_some_iff l k x).mp h
  exact ⟨by rw [hl]; simp, hk⟩

/-- Where keys are unique the map finds every entry. -/
theorem associateBy_of_nodup {l : List α} (h : (l.map key).Nodup) {x : α} (hx : x ∈ l) :
    associateBy key l (key x) = some x := by
  obtain ⟨before, after, hl⟩ := List.append_of_mem hx
  refine (associateBy_eq_some_iff l _ x).mpr ⟨before, after, hl, rfl, ?_⟩
  rw [hl, List.map_append, List.map_cons] at h
  exact (List.nodup_cons.mp (List.nodup_append.mp h).2.1).1

section Find

variable {ι : Type v} [BEq ι] [LawfulBEq ι] {name : α → ι} {l : List α}

theorem find?_some {k : ι} {x : α} (h : l.find? (name · == k) = some x) : x ∈ l ∧ name x = k := by
  have hname := List.find?_some h
  exact ⟨List.mem_of_find?_eq_some h, beq_iff_eq.mp hname⟩

/-- Where keys are unique the search by key finds every entry. -/
theorem find?_of_mem (h : (l.map name).Nodup) {x : α} (hx : x ∈ l) :
    l.find? (name · == name x) = some x := by
  have hsome : (l.find? (name · == name x)).isSome := by
    rw [List.find?_isSome]
    exact ⟨x, hx, beq_self_eq_true (name x)⟩
  obtain ⟨y, hy⟩ := Option.isSome_iff_exists.mp hsome
  obtain ⟨hmem, hname⟩ := find?_some hy
  rw [hy, List.inj_on_of_nodup_map h hmem hx hname]

theorem find?_eq_some_iff (h : (l.map name).Nodup) {k : ι} {x : α} :
    l.find? (name · == k) = some x ↔ x ∈ l ∧ name x = k := by
  refine ⟨find?_some, ?_⟩
  rintro ⟨hx, rfl⟩
  exact find?_of_mem h hx

end Find

theorem map_key_replaceBy (x : α) (l : List α) : (replaceBy key x l).map key = l.map key := by
  unfold replaceBy
  rw [List.map_map]
  refine List.map_congr_left fun y _ => ?_
  simp only [Function.comp]
  split
  · next h => exact h.symm
  · rfl

theorem mem_replaceBy {x y : α} {l : List α} (h : y ∈ replaceBy key x l) :
    y = x ∨ (y ∈ l ∧ key y ≠ key x) := by
  obtain ⟨z, hz, rfl⟩ := List.mem_map.mp h
  split
  · exact Or.inl rfl
  · next hne => exact Or.inr ⟨hz, hne⟩

theorem mem_put_self (x : α) (l : List α) : x ∈ put key x l := by
  unfold put replaceBy
  split
  · next h =>
      obtain ⟨z, hz, hk⟩ := List.mem_map.mp h
      exact List.mem_map.mpr ⟨z, hz, if_pos hk⟩
  · exact List.mem_append_right _ List.mem_cons_self

theorem mem_put_of_ne {x y : α} {l : List α} (hy : y ∈ l) (hne : key y ≠ key x) :
    y ∈ put key x l := by
  unfold put replaceBy
  split
  · exact List.mem_map.mpr ⟨y, hy, if_neg hne⟩
  · exact List.mem_append_left _ hy

/-- The entries after an insertion: the new one, and the old ones of other keys. -/
theorem mem_put {x y : α} {l : List α} :
    y ∈ put key x l ↔ y = x ∨ (y ∈ l ∧ key y ≠ key x) := by
  constructor
  · intro h
    unfold put at h
    split at h
    · exact mem_replaceBy h
    · next hk =>
        rcases List.mem_append.mp h with hy | hy
        · exact Or.inr ⟨hy, fun he => hk (he ▸ List.mem_map_of_mem hy)⟩
        · exact Or.inl (List.mem_singleton.mp hy)
  · rintro (rfl | ⟨hy, hne⟩)
    · exact mem_put_self _ l
    · exact mem_put_of_ne hy hne

theorem nodup_put (x : α) {l : List α} (h : (l.map key).Nodup) : ((put key x l).map key).Nodup := by
  unfold put
  split
  · rw [map_key_replaceBy]
    exact h
  · next hk =>
      rw [List.map_append, List.nodup_append]
      refine ⟨h, List.nodup_singleton _, ?_⟩
      intro a ha b hb heq
      rw [heq, List.mem_singleton.mp hb] at ha
      exact hk ha

def putAll (key : α → κ) (l : List α) : List α := l.foldl (fun m x => put key x m) []

theorem putAll_snoc (l : List α) (x : α) : putAll key (l ++ [x]) = put key x (putAll key l) := by
  unfold putAll
  rw [List.foldl_append]
  rfl

theorem nodup_putAll (l : List α) : ((putAll key l).map key).Nodup := by
  induction l using List.reverseRecOn with
  | nil => exact List.nodup_nil
  | append_singleton l x ih =>
      rw [putAll_snoc]
      exact nodup_put x ih

/-- The ordered map and the plain map hold the same entries. -/
theorem mem_putAll {l : List α} {x : α} :
    x ∈ putAll key l ↔ associateBy key l (key x) = some x := by
  induction l using List.reverseRecOn with
  | nil =>
      rw [associateBy_nil]
      exact iff_of_false List.not_mem_nil (Option.some_ne_none x).symm
  | append_singleton l y ih =>
      rw [putAll_snoc, mem_put, associateBy_snoc, ih]
      by_cases hkey : key y = key x
      · rw [if_pos hkey, Option.some.injEq]
        exact ⟨fun h => h.elim Eq.symm fun h => absurd hkey.symm h.2, fun h => Or.inl h.symm⟩
      · rw [if_neg hkey]
        refine ⟨fun h => h.elim (fun h => absurd (h ▸ rfl) hkey) And.left, fun h => Or.inr ⟨h, ?_⟩⟩
        exact fun h => hkey h.symm

/-- Replacing one after the other leaves at each key the last of the replacements. -/
theorem foldl_replaceBy (us l : List α) :
    us.foldl (fun l u => replaceBy key u l) l =
      l.map fun y => (associateBy key us (key y)).getD y := by
  induction us using List.reverseRecOn with
  | nil => simp
  | append_singleton us u ih =>
      rw [List.foldl_append, ih, List.foldl_cons, List.foldl_nil, replaceBy, List.map_map]
      refine List.map_congr_left fun y _ => ?_
      have hkey : key ((associateBy key us (key y)).getD y) = key y := by
        cases h : associateBy key us (key y) with
        | none => rfl
        | some x => exact (associateBy_mem h).2
      simp only [Function.comp, hkey, associateBy_snoc]
      by_cases h : key y = key u
      · rw [if_pos h, if_pos h.symm, Option.getD_some]
      · rw [if_neg h, if_neg (Ne.symm h)]

end CypherConnect.Keyed
