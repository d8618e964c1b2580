/-
  The text of an access control list depends on the mode and the set of the rules only, not on their
  order, repetition and grouping (`toString_rule_order`).
-/
import CypherConnect.Acl.Acl
import CypherConnect.Platform.AndroidxSortedList

namespace CypherConnect.Acl

open Sorted Lines

variable {N : JavaNet}

/-! ## The order of the rules -/

/-- Only the set of the rules matters. -/
theorem assemble_congr (S : Implementation) (mode : Bool) {rules rules' : List (Side × Rule)}
    (h : ∀ rule, rule ∈ rules ↔ rule ∈ rules') (urls : List N.Url) :
    assemble S mode rules urls = assemble S mode rules' urls := by
  have hhosts (side : Side) : S.addAll stringSorter (.empty _) (hostnamesOf side rules) =
      S.addAll stringSorter (.empty _) (hostnamesOf side rules') := by
    refine SortedList.eq_of_items (addAll_eq_of_mem stringSorter_exact ?_)
    intro host
    simp only [hostnamesOf, mem_ofSide, h]
  have hsubnets (side : Side) : S.addAll subnetSorter (.empty _) (subnetsOf side rules) =
      S.addAll subnetSorter (.empty _) (subnetsOf side rules') := by
    refine SortedList.eq_of_items (addAll_eq_of_mem subnetSorter_exact ?_)
    intro subnet
    simp only [subnetsOf, mem_ofSide, h]
  unfold assemble
  rw [hhosts, hhosts, hsubnets]

/-- Texts with the same mode and the same set of rules print the same, and subnets are totally
ordered with ties between equal ones only. -/
theorem toString_rule_order (S : Implementation) {text text' : Text} {defaultBypass : Bool}
    {acl acl' : Acl N} (h : fromReader S text defaultBypass = .ok acl)
    (h' : fromReader S text' defaultBypass = .ok acl') (himport : importTexts text = [])
    (himport' : importTexts text' = [])
    (hmode : modeOf text defaultBypass = modeOf text' defaultBypass)
    (hrules : ∀ rule, rule ∈ rulesOf N text defaultBypass ↔ rule ∈ rulesOf N text' defaultBypass) :
    acl.toString = acl'.toString ∧
      (∀ a b, Subnet.compareTo a b = (Subnet.compareTo b a).swap) ∧
      (∀ a b c, (Subnet.compareTo a b).isLE = true → (Subnet.compareTo b c).isLE = true →
        (Subnet.compareTo a c).isLE = true) ∧
      ∀ a b, Subnet.compareTo a b = .eq ↔ Subnet.equals a b = true := by
  refine ⟨?_, fun a b => Std.OrientedCmp.eq_swap, fun a b c => Std.TransCmp.isLE_trans, ?_⟩
  · obtain ⟨_, rfl⟩ := fromReader_ok h
    obtain ⟨_, rfl⟩ := fromReader_ok h'
    unfold importUrls
    rw [himport, himport', hmode, assemble_congr S _ hrules]
  · intro a b
    rw [Subnet.compareTo_eq_iff, Subnet.equals_iff]

/-- Two groupings of the same three rules. -/
def grouped : Text := "b\n1.0.0.0/8\n[proxy_list]\na".toList

def regrouped : Text := "[white_list]\na # twice\na\n\n[black_list]\n1.0.0.0/8\nb".toList

theorem toString_rule_order_regrouped : ∃ acl acl' : Acl plainNet,
    fromReader androidx grouped false = .ok acl ∧ fromReader androidx regrouped false = .ok acl' ∧
      acl.toString = acl'.toString := by
  have hgrouped : Accepts plainNet grouped := by decide +kernel
  have hregrouped : Accepts plainNet regrouped := by decide +kernel
  have hrules : ∀ rule, rule ∈ rulesOf plainNet grouped false ↔
      rule ∈ rulesOf plainNet regrouped false := by
    intro rule
    have hsub : rulesOf plainNet grouped false ⊆ rulesOf plainNet regrouped false := by
      decide +kernel
    have hsub' : rulesOf plainNet regrouped false ⊆ rulesOf plainNet grouped false := by
      decide +kernel
    exact ⟨fun h => hsub h, fun h => hsub' h⟩
  have hread := (fromReader_eq androidx grouped false).1 hgrouped
  have hread' := (fromReader_eq androidx regrouped false).1 hregrouped
  exact ⟨_, _, hread, hread', (toString_rule_order androidx hread hread' (by decide +kernel)
    (by decide +kernel) (by decide +kernel) hrules).1⟩

end CypherConnect.Acl
