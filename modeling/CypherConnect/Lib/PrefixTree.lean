/-
  A tree of keys that stands for a set of paths closed under extension: a path is in it if one of
  its beginnings was inserted. Below a marked node nothing is kept, and nothing is inserted below
  one.

  * `contains_insert`: insertion adds exactly the extensions of the path.
-/
import Mathlib.Data.List.Basic

namespace CypherConnect.PrefixTree

universe u

/-- A node with its children by key; of several children with one key the first counts. -/
inductive Node (κ : Type u) where
  | mk (included : Bool) (children : List (κ × Node κ))

variable {κ : Type u} [DecidableEq κ]

namespace Node

def included : Node κ → Bool
  | mk included _ => included

def children : Node κ → List (κ × Node κ)
  | mk _ children => children

def new : Node κ := mk false []

end Node

/-- Change the child with a key, which is new if there is none. -/
def update (k : κ) (f : Node κ → Node κ) : List (κ × Node κ) → List (κ × Node κ)
  | [] => [(k, f .new)]
  | (k', node) :: rest => if k' = k then (k', f node) :: rest else (k', node) :: update k f rest

def get (k : κ) : List (κ × Node κ) → Option (Node κ)
  | [] => none
  | (k', node) :: rest => if k' = k then some node else get k rest

/-- Insert a path that is not empty. -/
def insert (m : List (κ × Node κ)) : List κ → List (κ × Node κ)
  | [] => m
  | k :: ks => update k (fun node =>
      if node.included then node
      else if ks = [] then .mk true []
      else .mk false (insert node.children ks)) m

/-- Whether a beginning of the path is marked. -/
def contains (m : List (κ × Node κ)) : List κ → Bool
  | [] => false
  | k :: ks =>
      match get k m with
      | none => false
      | some node => node.included || contains node.children ks

theorem get_update (k k' : κ) (f : Node κ → Node κ) (m : List (κ × Node κ)) :
    get k' (update k f m) = if k = k' then some (f ((get k m).getD .new)) else get k' m := by
  induction m with
  | nil => simp only [update, get, Option.getD_none]
  | cons entry rest ih =>
      obtain ⟨k₀, node⟩ := entry
      by_cases h0 : k₀ = k
      · subst h0
        simp only [update, get, if_true, Option.getD_some]
        by_cases hk : k₀ = k' <;> simp [hk]
      · simp only [update, get, if_neg h0, ih]
        by_cases hk : k = k'
        · subst hk
          simp [h0]
        · simp [hk]

theorem contains_nil_map (q : List κ) : contains [] q = false := by
  cases q with
  | nil => rfl
  | cons k ks => rfl

/-- The child with a key, new if there is none. -/
def child (k : κ) (m : List (κ × Node κ)) : Node κ := (get k m).getD .new

theorem contains_cons (m : List (κ × Node κ)) (k : κ) (q : List κ) :
    contains m (k :: q) = ((child k m).included || contains (child k m).children q) := by
  unfold child
  simp only [contains]
  cases get k m with
  | none => simp [Node.new, Node.included, Node.children, contains_nil_map]
  | some node => rfl

theorem child_update (k k' : κ) (f : Node κ → Node κ) (m : List (κ × Node κ)) :
    child k' (update k f m) = if k = k' then f (child k m) else child k' m := by
  unfold child
  rw [get_update]
  by_cases hk : k = k' <;> simp [hk]

/-- Insertion adds the extensions of the path and takes nothing away. -/
theorem contains_insert (m : List (κ × Node κ)) (p q : List κ) (hp : p ≠ []) :
    contains (insert m p) q = true ↔ contains m q = true ∨ p <+: q := by
  induction p generalizing m q with
  | nil => exact absurd rfl hp
  | cons k ks ih =>
      cases q with
      | nil => simp [contains]
      | cons k' q =>
          rw [contains_cons, contains_cons, insert, child_update, List.cons_prefix_cons]
          by_cases hk : k = k'
          case neg => simp [hk]
          case pos =>
            subst hk
            generalize child k m = node
            rw [if_pos rfl]
            cases hnode : node.included with
            | true =>
                -- an ancestor is there already, and with it every extension
                simp [hnode]
            | false =>
                by_cases hks : ks = []
                · subst hks
                  simp [Node.included]
                · simp [hks, Node.included, Node.children, ih _ _ hks]

end CypherConnect.PrefixTree
