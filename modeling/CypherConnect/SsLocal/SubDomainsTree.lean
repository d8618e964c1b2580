/-
  `acl/sub_domains_tree.rs`: the domains whose subdomains a list of rules takes in, as a tree over
  the labels from the last one on.

  * `contains_insert`: in any tree, an insertion adds exactly the domain in lower case and what ends
    in a dot and it.
-/
import CypherConnect.Lib.PrefixTree
import CypherConnect.Lib.Scan

namespace CypherConnect.SsLocal

open PrefixTree

/-- `to_ascii_lowercase`. -/
def toAsciiLowercase (t : List Char) : List Char := t.map Char.toLower

/-- `rsplit('.')`. -/
def rsplit (t : List Char) : List (List Char) := (t.splitOn '.').reverse

structure SubDomainsTree where
  parts : List (List Char × Node (List Char))

namespace SubDomainsTree

def new : SubDomainsTree := ⟨[]⟩

def insert (this : SubDomainsTree) (value : List Char) : SubDomainsTree :=
  ⟨PrefixTree.insert this.parts ((rsplit value).map toAsciiLowercase)⟩

def contains (this : SubDomainsTree) (value : List Char) : Bool :=
  PrefixTree.contains this.parts (rsplit value)

def isEmpty (this : SubDomainsTree) : Bool := this.parts.isEmpty

/-- A domain and its subdomains. -/
def IsWithin (domain host : List Char) : Prop := host = domain ∨ '.' :: domain <:+ host

/-! ## Labels and texts -/

theorem toLower_eq_dot_iff (c : Char) : c.toLower = '.' ↔ c = '.' := by
  constructor
  · intro h
    unfold Char.toLower at h
    split at h
    case isTrue hupper =>
      have hval := congrArg Char.toNat h
      simp only [Char.toNat, UInt32.toNat_add] at hval
      obtain ⟨hlo, hhi⟩ := hupper
      simp only [ge_iff_le, UInt32.le_iff_toNat_le] at hlo hhi
      revert hval hlo hhi
      simp
      omega
    case isFalse => exact h
  · rintro rfl
    rfl

theorem splitOn_toAsciiLowercase (t : List Char) :
    (toAsciiLowercase t).splitOn '.' = (t.splitOn '.').map toAsciiLowercase := by
  induction t with
  | nil => rfl
  | cons c t ih =>
      show (c.toLower :: toAsciiLowercase t).splitOn '.' = _
      rw [List.splitOn_cons_eq_if_modifyHead, List.splitOn_cons_eq_if_modifyHead, ih]
      obtain ⟨first, rest, hsplit⟩ := List.exists_cons_of_ne_nil (List.splitOn_ne_nil '.' t)
      rw [hsplit]
      by_cases hc : c = '.'
      · subst hc
        rfl
      · have hlower : c.toLower ≠ '.' := fun h => hc ((toLower_eq_dot_iff c).mp h)
        simp [hc, hlower, toAsciiLowercase]

theorem map_rsplit (t : List Char) :
    (rsplit t).map toAsciiLowercase = rsplit (toAsciiLowercase t) := by
  unfold rsplit
  rw [splitOn_toAsciiLowercase, List.map_reverse]

theorem rsplit_ne_nil (t : List Char) : rsplit t ≠ [] := by
  unfold rsplit
  rw [ne_eq, List.reverse_eq_nil_iff]
  exact List.splitOn_ne_nil _ _

theorem intercalate_append {a b : List (List Char)} (ha : a ≠ []) (hb : b ≠ []) :
    List.intercalate ['.'] (a ++ b) = List.intercalate ['.'] a ++ '.' :: List.intercalate
      ['.'] b := by
  induction a with
  | nil => exact absurd rfl ha
  | cons x a ih =>
      by_cases hnil : a = []
      · rw [hnil, List.singleton_append, List.intercalate_cons_of_ne_nil hb,
          List.intercalate_singleton]
        simp
      · rw [List.cons_append,
          List.intercalate_cons_of_ne_nil (List.append_ne_nil_of_left_ne_nil hnil b), ih hnil,
          List.intercalate_cons_of_ne_nil hnil]
        simp

/-- Labels at the end are a suffix behind a dot. -/
theorem rsplit_prefix_iff (domain host : List Char) :
    rsplit domain <+: rsplit host ↔ IsWithin domain host := by
  unfold rsplit IsWithin
  rw [List.reverse_prefix]
  constructor
  · rintro ⟨labels, hlabels⟩
    have hhost : List.intercalate ['.'] (host.splitOn '.') = host := List.intercalate_splitOn '.'
    have hdomain : List.intercalate ['.'] (domain.splitOn '.') = domain :=
      List.intercalate_splitOn '.'
    by_cases hnil : labels = []
    · left
      rw [hnil, List.nil_append] at hlabels
      rw [← hhost, ← hlabels, hdomain]
    · right
      refine ⟨List.intercalate ['.'] labels, ?_⟩
      rw [← hhost, ← hlabels, intercalate_append hnil (List.splitOn_ne_nil _ _), hdomain]
  · rintro (rfl | ⟨before, rfl⟩)
    · exact List.suffix_rfl
    · rw [List.splitOn_append_cons_self]
      exact List.suffix_append _ _

/-- What an insertion adds, wherever the branches part. -/
theorem contains_insert (this : SubDomainsTree) (value host : List Char) :
    (this.insert value).contains host = true ↔
      this.contains host = true ∨ IsWithin (toAsciiLowercase value) host := by
  unfold contains insert
  rw [map_rsplit, PrefixTree.contains_insert _ _ _ (rsplit_ne_nil _), rsplit_prefix_iff]

theorem contains_new (host : List Char) : new.contains host = false := contains_nil_map _

end SubDomainsTree

end CypherConnect.SsLocal
