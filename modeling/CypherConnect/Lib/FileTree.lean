/-
  File trees, and what a path denotes in one.

  A location is the list of names on the way from it to the root, so that the parent of a location
  is its tail and one location lies below another if the other is a suffix of it. Every step of a
  path but the last has to be a directory. There are no symbolic links.

  * `denotes_names`: a path that starts with the names of a directory goes through that directory.
  * `denotes_of_no_up`: without `..` a path does not leave the directory it starts in.
  * `denotes_congr`: what a path denotes depends on the directories only.
  * `put_isSome`: what a path denotes can be made a file, unless it is a directory.
-/
import Mathlib.Data.List.Infix

namespace CypherConnect

universe u v

namespace FileTree

/-- A step of a path: `.`, `..` or a name. -/
inductive Segment (ν : Type u) where
  | here
  | up
  | name (n : ν)
  deriving DecidableEq, Repr

/-- A place in the tree: the names on the way to the root. -/
abbrev Location (ν : Type u) := List ν

/-- Strictly below. -/
def Below {ν : Type u} (dir loc : Location ν) : Prop := dir <:+ loc ∧ dir ≠ loc

instance {ν : Type u} [DecidableEq ν] (dir loc : Location ν) : Decidable (Below dir loc) :=
  inferInstanceAs (Decidable (_ ∧ _))

inductive Node (κ : Type v) where
  | directory
  | file (content : κ)
  deriving DecidableEq, Repr

def Node.isDirectory {κ : Type v} : Node κ → Bool
  | .directory => true
  | .file _ => false

end FileTree

open FileTree in
structure FileTree (ν : Type u) (κ : Type v) where
  node : Location ν → Option (Node κ)
  root : node [] = some .directory
  parent : ∀ n loc, node (n :: loc) ≠ none → node loc = some .directory

namespace FileTree

variable {ν : Type u} {κ : Type v}

def isDirectory (t : FileTree ν κ) (loc : Location ν) : Bool := (t.node loc).any Node.isDirectory

theorem isDirectory_iff {t : FileTree ν κ} {loc : Location ν} :
    t.isDirectory loc = true ↔ t.node loc = some .directory := by
  unfold isDirectory
  cases t.node loc with
  | none => simp
  | some x => cases x <;> simp [Node.isDirectory]

/-- The location a path leads to from `loc`. -/
def denotes (t : FileTree ν κ) (loc : Location ν) : List (Segment ν) → Option (Location ν)
  | [] => some loc
  | .here :: path => t.denotes loc path
  | .up :: path => t.denotes loc.tail path
  | .name n :: path =>
      if path.isEmpty || t.isDirectory (n :: loc) then t.denotes (n :: loc) path else none

section Operations

variable [DecidableEq ν]

/-- Create or replace the file at a location. -/
def put (t : FileTree ν κ) (loc : Location ν) (content : κ) : Option (FileTree ν κ) :=
  if h : t.isDirectory loc.tail = true ∧ t.isDirectory loc = false then
    some {
      node := fun l => if l = loc then some (.file content) else t.node l
      root := by
        have hne : [] ≠ loc := by
          rintro rfl
          exact absurd (h.1.symm.trans h.2) Bool.noConfusion
        rw [if_neg hne]
        exact t.root
      parent := by
        intro n l hsome
        have hold : t.node l = some .directory := by
          split at hsome
          · next heq =>
              rw [← heq, List.tail_cons] at h
              exact isDirectory_iff.mp h.1
          · exact t.parent n l hsome
        have hne : l ≠ loc := by
          rintro rfl
          exact absurd ((isDirectory_iff.mpr hold).symm.trans h.2) Bool.noConfusion
        rw [if_neg hne]
        exact hold }
  else none

/-- Delete everything at and below the location `n` in `loc`. -/
def remove (t : FileTree ν κ) (n : ν) (loc : Location ν) : FileTree ν κ where
  node l := if n :: loc <:+ l then none else t.node l
  root := by
    rw [if_neg fun h => List.cons_ne_nil n loc (List.suffix_nil.mp h)]
    exact t.root
  parent := by
    intro m l hsome
    split at hsome
    · exact absurd rfl hsome
    · next hout =>
        rw [if_neg fun h => hout (h.trans (List.suffix_cons m l))]
        exact t.parent m l hsome

/-- Make a directory and those above it, unless the location is taken or a file is in the way. -/
def mkdirs (t : FileTree ν κ) (loc : Location ν) : Option (FileTree ν κ) :=
  if (t.node loc).isNone ∧ loc.tails.all fun l => (t.node l).all Node.isDirectory then
    some {
      node := fun l => if l <:+ loc then some .directory else t.node l
      root := if_pos List.nil_suffix
      parent := by
        intro n l hsome
        split
        · rfl
        · next hout =>
            rw [if_neg fun h => hout ((List.suffix_cons n l).trans h)] at hsome
            exact t.parent n l hsome }
  else none

end Operations

/-! ## Paths -/

section Paths

variable {t t' : FileTree ν κ} {loc l : Location ν} {path : List (Segment ν)}

theorem isDirectory_tail (h : t.isDirectory loc = true) : t.isDirectory loc.tail = true := by
  cases loc with
  | nil => exact h
  | cons n loc =>
      refine isDirectory_iff.mpr (t.parent n loc ?_)
      rw [isDirectory_iff.mp h]
      exact Option.some_ne_none _

theorem isDirectory_of_append (names : List ν) (h : t.isDirectory (names ++ loc) = true) :
    t.isDirectory loc = true := by
  induction names with
  | nil => exact h
  | cons n names ih => exact ih (isDirectory_tail h)

/-- A path through the names of a directory. -/
theorem denotes_names (names : List ν) (h : t.isDirectory (names.reverse ++ loc) = true) :
    t.denotes loc (names.map .name ++ path) = t.denotes (names.reverse ++ loc) path := by
  induction names generalizing loc with
  | nil => rfl
  | cons n names ih =>
      rw [List.reverse_cons, List.append_assoc, List.singleton_append] at h ⊢
      have hdir : t.isDirectory (n :: loc) = true := isDirectory_of_append names.reverse h
      rw [List.map_cons, List.cons_append, denotes, hdir, Bool.or_true, if_pos rfl]
      exact ih h

/-- Without `..` a path does not leave a directory it starts in. -/
theorem denotes_of_no_up {dir : Location ν} (hpath : Segment.up ∉ path) (hloc : dir <:+ loc)
    (h : t.denotes loc path = some l) : dir <:+ l := by
  induction path generalizing loc with
  | nil =>
      cases h
      exact hloc
  | cons s path ih =>
      have hrest : Segment.up ∉ path := fun hmem => hpath (List.mem_cons_of_mem s hmem)
      cases s with
      | here => exact ih hrest hloc h
      | up => exact absurd List.mem_cons_self hpath
      | name n =>
          rw [denotes] at h
          split at h
          · exact ih hrest (hloc.trans (List.suffix_cons n loc)) h
          · cases h

/-- The parent of what a path denotes is a directory. -/
theorem isDirectory_parent (hloc : t.isDirectory loc = true) (h : t.denotes loc path = some l) :
    t.isDirectory l.tail = true := by
  induction path generalizing loc with
  | nil =>
      cases h
      exact isDirectory_tail hloc
  | cons s path ih =>
      cases s with
      | here => exact ih hloc h
      | up => exact ih (isDirectory_tail hloc) h
      | name n =>
          rw [denotes] at h
          split at h
          · next hcond =>
              rcases Bool.or_eq_true_iff.mp hcond with hempty | hdir
              · rw [List.isEmpty_iff.mp hempty, denotes] at h
                cases h
                exact hloc
              · exact ih hdir h
          · cases h

/-- What a path denotes depends on the directories only. -/
theorem denotes_congr (h : ∀ l, t'.isDirectory l = t.isDirectory l) :
    t'.denotes loc path = t.denotes loc path := by
  induction path generalizing loc with
  | nil => rfl
  | cons s path ih =>
      cases s with
      | here => exact ih
      | up => exact ih
      | name n => rw [denotes, denotes, h, ih]

end Paths

/-! ## Operations -/

section Operations

variable [DecidableEq ν] {t t' : FileTree ν κ} {loc l : Location ν} {content : κ}

/-- A new file is no directory, and takes the place of none. -/
theorem put_isDirectory (h : t.put loc content = some t') (l : Location ν) :
    t'.isDirectory l = t.isDirectory l := by
  unfold put at h
  split at h
  · next hcond =>
      cases h
      by_cases hl : l = loc
      · rw [hl, hcond.2]
        simp [isDirectory, Node.isDirectory]
      · simp [isDirectory, hl]
  · cases h

theorem put_isSome {path : List (Segment ν)} (hloc : t.isDirectory loc = true)
    (h : t.denotes loc path = some l) (hl : t.isDirectory l = false) (content : κ) :
    ∃ t', t.put l content = some t' := by
  unfold put
  rw [dif_pos ⟨isDirectory_parent hloc h, hl⟩]
  exact ⟨_, rfl⟩

theorem mkdirs_isDirectory (h : t.mkdirs loc = some t') : t'.isDirectory loc = true := by
  unfold mkdirs at h
  split at h
  · cases h
    refine isDirectory_iff.mpr ?_
    exact if_pos List.suffix_rfl
  · cases h

end Operations

end FileTree

end CypherConnect
