/-
  Printing an access control list and reading it again.

  * `toString_eq`: the text is made of one line for the mode, the lists with their headers, and one
    line for each import.
  * `fromReader_toString`: mode, host names and subnets are read back; the imports are added again
    in the order in which they were printed.
  * `fromReader_toString_iff`: that gives the same list if no two imports tie in the order without
    being equal. With the lists of `androidx` two that do change places.
-/
import CypherConnect.Acl.Acl
import CypherConnect.Platform.AndroidxSortedList

namespace CypherConnect.Acl

open Sorted Lines

variable {N : JavaNet}

/-! ## The lines of the text -/

/-- `bypassList` of `toString`. -/
def bypassList (acl : Acl N) : List Text :=
  if acl.bypass then acl.bypassHostnames.items
  else acl.subnets.items.map (Subnet.toString N) ++ acl.bypassHostnames.items

/-- `proxyList` of `toString`. -/
def proxyList (acl : Acl N) : List Text :=
  if acl.bypass then acl.subnets.items.map (Subnet.toString N) ++ acl.proxyHostnames.items
  else acl.proxyHostnames.items

def modeLine (bypass : Bool) : Text :=
  if bypass then "[bypass_all]".toList else "[proxy_all]".toList

/-- A header and its items, if there are any. -/
def blockLines (header : Text) (items : List Text) : List Text :=
  if items.isEmpty then [] else header :: items

def importLine (url : Text) : Text := "#IMPORT_URL <".toList ++ url ++ ['>']

def ruleLines (acl : Acl N) : List Text :=
  modeLine acl.bypass :: (blockLines "[bypass_list]".toList acl.bypassList ++
    blockLines "[proxy_list]".toList acl.proxyList)

def printedLines (acl : Acl N) : List Text :=
  acl.ruleLines ++ acl.urls.items.map fun url => importLine (N.urlText url)

theorem unlines_append (a b : List Text) : unlines (a ++ b) = unlines a ++ unlines b :=
  List.flatMap_append

theorem intercalate_newline {items : List Text} (h : items ≠ []) :
    List.intercalate ['\n'] items ++ ['\n'] = unlines items := by
  induction items with
  | nil => exact absurd rfl h
  | cons item items ih =>
      by_cases hnil : items = []
      · rw [hnil, List.intercalate_singleton]
        exact (List.append_nil _).symm
      · rw [List.intercalate_cons_of_ne_nil hnil, List.append_assoc, ih hnil]
        rfl

theorem listBlock_eq (header : Text) (items : List Text) :
    listBlock (header ++ ['\n']) items = unlines (blockLines header items) := by
  unfold listBlock blockLines
  split
  · rfl
  · next hempty =>
      have hne : items ≠ [] := fun h => hempty (List.isEmpty_iff.mpr h)
      rw [List.append_assoc, intercalate_newline hne]
      rfl

theorem toString_eq (acl : Acl N) : acl.toString = unlines acl.printedLines := by
  have hmode : (if acl.bypass then "[bypass_all]\n".toList else "[proxy_all]\n".toList) =
      modeLine acl.bypass ++ ['\n'] := by
    unfold modeLine
    split
    · rfl
    · rfl
  have himports : (acl.urls.items.flatMap fun url =>
      "#IMPORT_URL <".toList ++ N.urlText url ++ ">\n".toList) =
        unlines (acl.urls.items.map fun url => importLine (N.urlText url)) := by
    unfold unlines
    rw [List.flatMap_map]
    refine List.flatMap_congr fun url _ => ?_
    show _ = ("#IMPORT_URL <".toList ++ N.urlText url ++ ['>']) ++ ['\n']
    rw [List.append_assoc ("#IMPORT_URL <".toList ++ N.urlText url)]
    rfl
  have hbypass : "[bypass_list]\n".toList = "[bypass_list]".toList ++ ['\n'] := rfl
  have hproxy : "[proxy_list]\n".toList = "[proxy_list]".toList ++ ['\n'] := rfl
  show _ ++ listBlock _ acl.bypassList ++ listBlock _ acl.proxyList ++ _ = _
  rw [hmode, himports, hbypass, hproxy, listBlock_eq, listBlock_eq]
  unfold printedLines ruleLines
  rw [unlines_append]
  show _ = (modeLine acl.bypass ++ ['\n'] ++ unlines (_ ++ _)) ++ _
  rw [unlines_append]
  simp only [List.append_assoc]

/-! ## Lines that are read as they are -/

theorem trim_of_no_whitespace {t : Text} (h : ∀ c ∈ t, isWhitespace c = false) : trim t = t :=
  Scan.trim_of_forall h

theorem mem_of_mem_trim {t : Text} {c : Char} (h : c ∈ trim t) : c ∈ t :=
  (Scan.trim_sublist isWhitespace t).subset h

/-- A line that has no comment and no space around it. -/
structure IsInput (t : Text) : Prop where
  hash : '#' ∉ t
  trimmed : trim t = t
  line : IsLine t

theorem isInput_uncomment {line : Text} (h : IsLine line) : IsInput (uncomment line) := by
  have hmem {c : Char} (hc : c ∈ uncomment line) : c ∈ line :=
    (List.takeWhile_sublist _).subset (mem_of_mem_trim hc)
  refine ⟨?_, Scan.trim_trim isWhitespace _, fun hc => h.1 (hmem hc), fun hc => h.2 (hmem hc)⟩
  intro hc
  have hne := List.mem_takeWhile_imp (mem_of_mem_trim hc)
  exact absurd hne (by decide)

theorem IsInput.uncomment {t : Text} (h : IsInput t) : uncomment t = t := by
  have htake : t.takeWhile (· != '#') = t :=
    List.takeWhile_eq_self_iff.mpr (Scan.bne_of_not_mem h.hash)
  show trim (t.takeWhile (· != '#')) = t
  rw [htake, h.trimmed]

theorem IsInput.importUrl {t : Text} (h : IsInput t) : importUrl t = none := by
  have hdrop : t.dropWhile (· != '#') = [] :=
    List.dropWhile_eq_nil_iff.mpr (Scan.bne_of_not_mem h.hash)
  unfold Acl.importUrl
  rw [hdrop]
  rfl

/-- The texts in brackets that the printer writes. -/
theorem isInput_header {t : Text} (h : t ∈ ["[bypass_all]".toList, "[proxy_all]".toList,
    "[bypass_list]".toList, "[proxy_list]".toList]) : IsInput t := by
  simp only [List.mem_cons, List.not_mem_nil, or_false] at h
  rcases h with rfl | rfl | rfl | rfl <;> exact ⟨by decide, by decide, by decide, by decide⟩

/-- An import line is recognised. -/
theorem importUrl_importLine {url : Text} (hne : url ≠ [])
    (hlines : ∀ c ∈ url, Profile.isLineTerminator c = false) :
    Acl.importUrl (importLine url) = some url := by
  have hafter : ((importLine url).dropWhile (· != '#')).drop 1 =
      "IMPORT_URL".toList ++ (' ' :: '<' :: (url ++ ['>'])) := rfl
  have hspace : (("IMPORT_URL".toList ++ (' ' :: '<' :: (url ++ ['>']))).drop 10).dropWhile
      isRegexSpace =
      '<' :: (url ++ ['>']) := rfl
  have hend : (url ++ ['>']).reverse.dropWhile isRegexSpace = '>' :: url.reverse := by
    rw [List.reverse_append]
    rfl
  have hempty : ¬ (url.reverse.isEmpty || url.reverse.any Profile.isLineTerminator) = true := by
    rw [Bool.or_eq_true, List.isEmpty_iff, List.any_eq_true]
    rintro (hnil | ⟨c, hc, hline⟩)
    · exact hne (List.reverse_eq_nil_iff.mp hnil)
    · rw [hlines c (List.mem_reverse.mp hc)] at hline
      cases hline
  have hkeyword : "IMPORT_URL".toList.isPrefixOf
      ("IMPORT_URL".toList ++ (' ' :: '<' :: (url ++ ['>']))) = true := rfl
  unfold Acl.importUrl
  rw [hafter]
  unfold networkAclParser
  rw [if_pos hkeyword, hspace]
  simp only [hend]
  rw [if_neg hempty, List.reverse_reverse]

/-- The URL of an import line has no line terminators. -/
theorem importUrl_some {line url : Text} (h : Acl.importUrl line = some url) :
    ∀ c ∈ url, Profile.isLineTerminator c = false := by
  unfold Acl.importUrl networkAclParser at h
  split at h
  · split at h
    · split at h
      · split at h
        · cases h
        · next u _ hcond =>
            cases h
            intro c hc
            by_contra hline
            refine hcond ?_
            rw [Bool.or_eq_true, List.any_eq_true]
            exact Or.inr ⟨c, List.mem_reverse.mp hc, Bool.not_eq_false _ ▸ hline⟩
      · cases h
    · cases h
  · cases h

/-! ## Rules that are read as they are -/

/-- A line that is a rule. -/
structure IsRule (t : Text) : Prop extends IsInput t where
  nonempty : t ≠ []
  head : t.head? ≠ some '['

theorem IsRule.block {t : Text} (h : IsRule t) : Block.ofText t = none := by
  by_contra hne
  obtain ⟨block, hblock⟩ := Option.ne_none_iff_exists'.mp hne
  exact h.head (block_head hblock)

theorem IsRule.nextMode {t : Text} (h : IsRule t) (mode : Bool) : nextMode mode t = mode := by
  unfold Acl.nextMode
  rw [h.block]

theorem IsRule.nextTarget {t : Text} (h : IsRule t) (target : Option Side) :
    nextTarget target t = target := by
  unfold Acl.nextTarget
  rw [h.block]

theorem IsRule.ruleOf {t : Text} (h : IsRule t) (side : Side) :
    ruleOf N (some side) t = some (side, Rule.ofText N t) :=
  if_pos ⟨h.block, h.nonempty⟩

/-- A rule that a text states comes from a line that is a rule. -/
theorem isRule_of_mem {inputs : List Text} (hinput : ∀ t ∈ inputs, IsInput t)
    (haccepts : ∀ t ∈ inputs, AcceptsInput t) {target : Option Side} {entry : Side × Rule}
    (h : entry ∈ effectiveRules N target inputs) : ∃ t, IsRule t ∧ entry.2 = Rule.ofText N t := by
  induction inputs generalizing target with
  | nil => cases h
  | cons t inputs ih =>
      unfold effectiveRules at h
      rcases List.mem_append.mp h with h | h
      · have hrule : Acl.ruleOf N target t = some entry := Option.mem_toList.mp h
        unfold Acl.ruleOf at hrule
        split at hrule
        · next hcond =>
            obtain ⟨side, _, heq⟩ := Option.map_eq_some_iff.mp hrule
            refine ⟨t, ⟨hinput t List.mem_cons_self, hcond.2, ?_⟩, ?_⟩
            · intro hhead
              exact haccepts t List.mem_cons_self hhead hcond.1
            · rw [← heq]
        · cases hrule
      · exact ih (fun x hx => hinput x (List.mem_cons_of_mem _ hx))
          (fun x hx => haccepts x (List.mem_cons_of_mem _ hx)) h

/-- The characters of the text of a subnet. -/
def isSubnetChar (c : Char) : Bool := JavaNet.isAddressChar c || c == '/'

theorem isSubnetChar_range {c : Char} (h : isSubnetChar c = true) :
    0x2E ≤ c.toNat ∧ c.toNat ≤ 0x66 ∧ c.toNat ≠ 0x5B := by
  have hrange {a b : Char} (ha : a ≤ c) (hb : c ≤ b) : a.toNat ≤ c.toNat ∧ c.toNat ≤ b.toNat :=
    ⟨ha, hb⟩
  unfold isSubnetChar JavaNet.isAddressChar JavaUri.isHex JavaUri.isDigit at h
  simp only [Bool.or_eq_true, Bool.and_eq_true, decide_eq_true_eq, beq_iff_eq] at h
  rcases h with ((((⟨ha, hb⟩ | ⟨ha, hb⟩) | ⟨ha, hb⟩) | rfl) | rfl) | rfl
  · have hdigit := hrange ha hb
    simp only [Char.reduceToNat] at hdigit
    omega
  · have hlower := hrange ha hb
    simp only [Char.reduceToNat] at hlower
    omega
  · have hupper := hrange ha hb
    simp only [Char.reduceToNat] at hupper
    omega
  · decide
  · decide
  · decide

theorem isRule_of_subnetChars {t : Text} (hne : t ≠ []) (h : ∀ c ∈ t, isSubnetChar c = true) :
    IsRule t := by
  have hnot {c : Char} (hc : ¬ (0x2E ≤ c.toNat ∧ c.toNat ≤ 0x66 ∧ c.toNat ≠ 0x5B)) : c ∉ t :=
    fun hm => hc (isSubnetChar_range (h c hm))
  have htrim : trim t = t := by
    refine trim_of_no_whitespace fun c hc => ?_
    have hrange := isSubnetChar_range (h c hc)
    unfold isWhitespace
    simp only [Bool.or_eq_false_iff, Bool.and_eq_false_iff, decide_eq_false_iff_not,
      beq_eq_false_iff_ne]
    omega
  refine ⟨⟨hnot (by decide), htrim, hnot (by decide), hnot (by decide)⟩, hne, ?_⟩
  intro hhead
  exact hnot (by decide) (List.mem_of_head? hhead)

theorem isRule_subnet (hN : N.Documented) {value : Text} {s : Subnet}
    (h : Subnet.fromString N value = some s) : IsRule (Subnet.toString N s) := by
  obtain ⟨t, ht⟩ := Subnet.fromString_address h
  have haddress {c : Char} (hc : c ∈ N.hostAddress s.address) : isSubnetChar c = true := by
    unfold isSubnetChar
    rw [hN.hostAddress_chars t _ ht c hc]
    rfl
  have hdigit {c : Char} (hc : JavaUri.isDigit c = true) : isSubnetChar c = true := by
    unfold isSubnetChar JavaNet.isAddressChar JavaUri.isHex
    rw [hc]
    rfl
  unfold Subnet.toString
  split
  · exact isRule_of_subnetChars (hN.hostAddress_ne_nil t _ ht) fun c hc => haddress hc
  · refine isRule_of_subnetChars (List.append_ne_nil_of_right_ne_nil _ (List.cons_ne_nil _ _)) ?_
    intro c hc
    rcases List.mem_append.mp hc with hc | hc
    · exact haddress hc
    · rcases List.mem_cons.mp hc with rfl | hc
      · rfl
      · exact hdigit (JavaUri.isDigit_of_mem_decimal hc)

/-! ## Lists whose text is read back -/

/-- What is in a list that was read. -/
structure Printable (acl : Acl N) : Prop where
  hostname : ∀ host ∈ acl.bypassHostnames.items ++ acl.proxyHostnames.items,
    IsRule host ∧ Subnet.fromString N host = none
  subnet : ∀ s ∈ acl.subnets.items, ∃ value, Subnet.fromString N value = some s
  url : ∀ u ∈ acl.urls.items, ∃ t, N.url t = some u ∧ ∀ c ∈ t, Profile.isLineTerminator c = false

theorem hostname_of_text {t host : Text} (h : (Rule.ofText N t).host? = some host) :
    t = host ∧ Subnet.fromString N t = none := by
  unfold Rule.ofText at h
  split at h
  · next hnone => exact ⟨Option.some.inj h, hnone⟩
  · cases h

theorem subnet_of_text {t : Text} {s : Subnet} (h : (Rule.ofText N t).subnet? = some s) :
    Subnet.fromString N t = some s := by
  unfold Rule.ofText at h
  split at h
  · cases h
  · next hsome =>
      rw [hsome]
      exact h

theorem isRule_of_rulesOf {text : Text} {defaultBypass : Bool} (h : Accepts N text)
    {entry : Side × Rule} (hentry : entry ∈ rulesOf N text defaultBypass) :
    ∃ t, IsRule t ∧ entry.2 = Rule.ofText N t := by
  refine isRule_of_mem ?_ ?_ hentry
  · intro t ht
    obtain ⟨line, hline, rfl⟩ := List.mem_map.mp ht
    exact isInput_uncomment (isLine_of_mem hline)
  · intro t ht
    obtain ⟨line, hline, rfl⟩ := List.mem_map.mp ht
    exact (h line hline).1

/-- A list that was read can be printed. -/
theorem printable_of_fromReader {S : Implementation} {text : Text} {defaultBypass : Bool}
    {acl : Acl N} (h : fromReader S text defaultBypass = .ok acl) : acl.Printable := by
  obtain ⟨haccepts, rfl⟩ := fromReader_ok h
  have hhost {side : Side} {host : Text}
      (hm : host ∈ hostnamesOf side (rulesOf N text defaultBypass)) :
      IsRule host ∧ Subnet.fromString N host = none := by
    obtain ⟨rule, hrule, hpick⟩ := mem_ofSide.mp hm
    obtain ⟨t, ht, heq⟩ := isRule_of_rulesOf haccepts hrule
    rw [show rule = Rule.ofText N t from heq] at hpick
    obtain ⟨rfl, hnone⟩ := hostname_of_text hpick
    exact ⟨ht, hnone⟩
  refine ⟨?_, ?_, ?_⟩
  · intro host hm
    rcases List.mem_append.mp hm with hm | hm
    · exact hhost ((mem_addAll hm).resolve_left List.not_mem_nil)
    · exact hhost ((mem_addAll hm).resolve_left List.not_mem_nil)
  · intro s hm
    obtain ⟨rule, hrule, hpick⟩ := mem_ofSide.mp ((mem_addAll hm).resolve_left List.not_mem_nil)
    obtain ⟨t, _, heq⟩ := isRule_of_rulesOf haccepts hrule
    rw [show rule = Rule.ofText N t from heq] at hpick
    exact ⟨t, subnet_of_text hpick⟩
  · intro u hm
    obtain ⟨t, ht, hurl⟩ := List.mem_filterMap.mp ((mem_addAll hm).resolve_left List.not_mem_nil)
    obtain ⟨line, _, himport⟩ := List.mem_filterMap.mp ht
    exact ⟨t, hurl, importUrl_some himport⟩

/-! ## What the printed text states -/

theorem effectiveRules_append (target : Option Side) (a b : List Text) :
    effectiveRules N target (a ++ b) =
      effectiveRules N target a ++ effectiveRules N (a.foldl nextTarget target) b := by
  induction a generalizing target with
  | nil => rfl
  | cons t a ih =>
      show _ ++ effectiveRules N _ (a ++ b) = _
      rw [ih, ← List.append_assoc]
      rfl

theorem effectiveMode_append (mode : Bool) (a b : List Text) :
    effectiveMode mode (a ++ b) = effectiveMode (effectiveMode mode a) b :=
  List.foldl_append

section Items

variable {items : List Text}

theorem effectiveRules_items (h : ∀ t ∈ items, IsRule t) (side : Side) :
    effectiveRules N (some side) items = items.map fun t => (side, Rule.ofText N t) := by
  induction items with
  | nil => rfl
  | cons t items ih =>
      have ht := h t List.mem_cons_self
      unfold effectiveRules
      rw [ht.ruleOf, ht.nextTarget, ih fun x hx => h x (List.mem_cons_of_mem _ hx)]
      rfl

theorem effectiveMode_items (h : ∀ t ∈ items, IsRule t) (mode : Bool) :
    effectiveMode mode items = mode := by
  induction items with
  | nil => rfl
  | cons t items ih =>
      show effectiveMode (nextMode mode t) items = mode
      rw [(h t List.mem_cons_self).nextMode]
      exact ih fun x hx => h x (List.mem_cons_of_mem _ hx)

/-- A list under its header. -/
theorem effectiveRules_block (h : ∀ t ∈ items, IsRule t) {header : Text} {side : Side}
    (hrule : ∀ target, ruleOf N target header = none)
    (hside : ∀ target, nextTarget target header = some side) (target : Option Side) :
    effectiveRules N target (blockLines header items) = items.map fun t =>
      (side, Rule.ofText N t) := by
  unfold blockLines
  split
  · next hempty =>
      rw [List.isEmpty_iff.mp hempty]
      rfl
  · unfold effectiveRules
    rw [hrule, hside, effectiveRules_items h]
    rfl

theorem effectiveMode_block (h : ∀ t ∈ items, IsRule t) {header : Text}
    (hmode : ∀ mode, nextMode mode header = mode) (mode : Bool) :
    effectiveMode mode (blockLines header items) = mode := by
  unfold blockLines
  split
  · rfl
  · show effectiveMode (nextMode mode header) items = mode
    rw [hmode, effectiveMode_items h]

end Items

/-- Import lines hold no rules. -/
theorem block_blank : Block.ofText [] = none := by decide

theorem effectiveRules_blank (target : Option Side) (urls : List N.Url) :
    effectiveRules N target (urls.map fun _ => []) = [] := by
  have hrule : ruleOf N target [] = none := if_neg fun h => h.2 rfl
  have hnext : nextTarget target [] = target := by
    unfold nextTarget
    rw [block_blank]
  induction urls with
  | nil => rfl
  | cons u urls ih =>
      rw [List.map_cons, effectiveRules, hrule, hnext, ih]
      rfl

theorem effectiveMode_blank (mode : Bool) (urls : List N.Url) :
    effectiveMode mode (urls.map fun _ => []) = mode := by
  have hnext : nextMode mode [] = mode := by
    unfold nextMode
    rw [block_blank]
  induction urls with
  | nil => rfl
  | cons u urls ih =>
      rw [List.map_cons, effectiveMode, List.foldl_cons, hnext]
      exact ih

section Printed

variable {acl : Acl N}

theorem isLine_importLine (hN : N.Documented) {u : N.Url} {t : Text} (hurl : N.url t = some u)
    (ht : ∀ c ∈ t, Profile.isLineTerminator c = false) :
    (∀ c ∈ N.urlText u, Profile.isLineTerminator c = false) ∧
      IsLine (importLine (N.urlText u)) := by
  have htext : ∀ c ∈ N.urlText u, Profile.isLineTerminator c = false := by
    intro c hc
    rcases hN.urlText_chars t u hurl c hc with hc | hrange
    · exact ht c hc
    · by_contra hline
      rw [Bool.not_eq_false] at hline
      have hmem := List.contains_iff_mem.mp hline
      simp only [List.mem_cons, List.not_mem_nil, or_false] at hmem
      rcases hmem with rfl | rfl | rfl | rfl | rfl <;> exact absurd hrange (by decide)
  have hline {c : Char} (hterminator : Profile.isLineTerminator c = true)
      (haround : c ∉ "#IMPORT_URL <".toList ++ ['>']) : c ∉ importLine (N.urlText u) := by
    intro hc
    unfold importLine at hc
    simp only [List.mem_append] at hc haround
    rcases hc with (hc | hc) | hc
    · exact haround (Or.inl hc)
    · rw [htext c hc] at hterminator
      cases hterminator
    · exact haround (Or.inr hc)
  exact ⟨htext, hline (by decide) (by decide), hline (by decide) (by decide)⟩

theorem Printable.isRule (hN : N.Documented) (h : acl.Printable) {t : Text}
    (ht : t ∈ acl.bypassList ∨ t ∈ acl.proxyList) : IsRule t := by
  have hsubnet (hm : t ∈ acl.subnets.items.map (Subnet.toString N)) : IsRule t := by
    obtain ⟨s, hs, rfl⟩ := List.mem_map.mp hm
    obtain ⟨value, hvalue⟩ := h.subnet s hs
    exact isRule_subnet hN hvalue
  have hbypass (hm : t ∈ acl.bypassHostnames.items) : IsRule t :=
    (h.hostname t (List.mem_append_left _ hm)).1
  have hproxy (hm : t ∈ acl.proxyHostnames.items) : IsRule t :=
    (h.hostname t (List.mem_append_right _ hm)).1
  unfold bypassList proxyList at ht
  split at ht
  · rcases ht with ht | ht
    · exact hbypass ht
    · exact (List.mem_append.mp ht).elim hsubnet hproxy
  · rcases ht with ht | ht
    · exact (List.mem_append.mp ht).elim hsubnet hbypass
    · exact hproxy ht

theorem mem_blockLines {header t : Text} {items : List Text} (h : t ∈ blockLines header items) :
    t = header ∨ t ∈ items := by
  unfold blockLines at h
  split at h
  · cases h
  · exact List.mem_cons.mp h

theorem Printable.isInput (hN : N.Documented) (h : acl.Printable) {t : Text}
    (ht : t ∈ acl.ruleLines) :
    IsInput t := by
  rcases List.mem_cons.mp ht with rfl | ht
  · unfold modeLine
    split
    · exact isInput_header (by decide)
    · exact isInput_header (by decide)
  · rcases List.mem_append.mp ht with ht | ht
    · rcases mem_blockLines ht with rfl | ht
      · exact isInput_header (by decide)
      · exact (h.isRule hN (Or.inl ht)).toIsInput
    · rcases mem_blockLines ht with rfl | ht
      · exact isInput_header (by decide)
      · exact (h.isRule hN (Or.inr ht)).toIsInput

theorem Printable.readLines (hN : N.Documented) (h : acl.Printable) :
    readLines acl.toString = acl.printedLines := by
  rw [toString_eq]
  refine readLines_unlines fun line hline => ?_
  rcases List.mem_append.mp hline with hline | hline
  · exact (h.isInput hN hline).line
  · obtain ⟨u, hu, rfl⟩ := List.mem_map.mp hline
    obtain ⟨t, hurl, ht⟩ := h.url u hu
    exact (isLine_importLine hN hurl ht).2

theorem Printable.inputs (hN : N.Documented) (h : acl.Printable) :
    inputs acl.toString = acl.ruleLines ++ acl.urls.items.map fun _ => [] := by
  have hrules : acl.ruleLines.map uncomment = acl.ruleLines := by
    conv_rhs => rw [← List.map_id acl.ruleLines]
    exact List.map_congr_left fun t ht => (h.isInput hN ht).uncomment
  unfold Acl.inputs
  rw [h.readLines hN, printedLines, List.map_append, List.map_map, hrules]
  rfl

theorem Printable.importLine (hN : N.Documented) (h : acl.Printable) {u : N.Url}
    (hu : u ∈ acl.urls.items) : Acl.importUrl (Acl.importLine (N.urlText u)) = some (N.urlText u) ∧
      N.url (N.urlText u) = some u := by
  obtain ⟨t, hurl, ht⟩ := h.url u hu
  exact ⟨importUrl_importLine (hN.urlText_ne_nil t u hurl) (isLine_importLine hN hurl ht).1,
    hN.url_urlText t u hurl⟩

/-- The imports are read back. -/
theorem Printable.importUrls (hN : N.Documented) (h : acl.Printable) :
    importUrls N acl.toString = acl.urls.items := by
  have hrules : acl.ruleLines.filterMap importUrl = [] :=
    List.filterMap_eq_nil_iff.mpr fun t ht => (h.isInput hN ht).importUrl
  unfold Acl.importUrls importTexts
  rw [h.readLines hN, printedLines, List.filterMap_append, hrules, List.nil_append,
    List.filterMap_map, List.filterMap_filterMap]
  conv_rhs => rw [← List.filterMap_some (l := acl.urls.items)]
  refine List.filterMap_congr fun u hu => ?_
  obtain ⟨himport, hurl⟩ := h.importLine hN hu
  show (Acl.importUrl (Acl.importLine (N.urlText u))).bind N.url = some u
  rw [himport]
  exact hurl

/-- The mode is read back. -/
theorem Printable.modeOf (hN : N.Documented) (h : acl.Printable) (defaultBypass : Bool) :
    modeOf acl.toString defaultBypass = acl.bypass := by
  have hmode : nextMode defaultBypass (modeLine acl.bypass) = acl.bypass := by
    unfold modeLine
    cases acl.bypass with
    | true => rfl
    | false => rfl
  unfold Acl.modeOf
  rw [h.inputs hN, effectiveMode_append, effectiveMode_blank]
  show effectiveMode (nextMode defaultBypass (modeLine acl.bypass)) (_ ++ _) = _
  rw [hmode, effectiveMode_append,
    effectiveMode_block (fun t ht => h.isRule hN (Or.inl ht)) (fun mode => rfl),
    effectiveMode_block (fun t ht => h.isRule hN (Or.inr ht)) (fun mode => rfl)]

/-- So are the rules. -/
theorem Printable.rulesOf (hN : N.Documented) (h : acl.Printable) (defaultBypass : Bool) :
    rulesOf N acl.toString defaultBypass =
      (acl.bypassList.map fun t => (Side.bypass, Rule.ofText N t)) ++
        acl.proxyList.map fun t => (Side.proxy, Rule.ofText N t) := by
  have hmode (target : Option Side) : Acl.ruleOf N target (modeLine acl.bypass) = none := by
    unfold modeLine
    cases acl.bypass with
    | true => rfl
    | false => rfl
  unfold Acl.rulesOf
  rw [h.inputs hN, effectiveRules_append, effectiveRules_blank, List.append_nil]
  unfold ruleLines effectiveRules
  rw [hmode, Option.toList_none, List.nil_append, effectiveRules_append,
    effectiveRules_block (fun t ht => h.isRule hN (Or.inl ht)) (fun _ => rfl) (fun _ => rfl),
    effectiveRules_block (fun t ht => h.isRule hN (Or.inr ht)) (fun _ => rfl) (fun _ => rfl)]

theorem ofSide_same {β : Type} (pick : Rule → Option β) (side : Side) (items : List Text) :
    ofSide pick side (items.map fun t => (side, Rule.ofText N t)) =
      items.filterMap fun t => pick (Rule.ofText N t) := by
  unfold ofSide
  rw [List.filterMap_map]
  exact List.filterMap_congr fun t _ => if_pos rfl

theorem ofSide_other {β : Type} (pick : Rule → Option β) {side side' : Side} (hne : side' ≠ side)
    (items : List Text) : ofSide pick side (items.map fun t => (side', Rule.ofText N t)) = [] := by
  unfold ofSide
  rw [List.filterMap_map]
  exact List.filterMap_eq_nil_iff.mpr fun t _ => if_neg hne

theorem ofText_host {host : Text} (h : Subnet.fromString N host = none) :
    Rule.ofText N host = .hostname host := by
  unfold Rule.ofText
  rw [h]

theorem ofText_subnet (hN : N.Documented) {value : Text} {s : Subnet}
    (h : Subnet.fromString N value = some s) : Rule.ofText N (Subnet.toString N s) = .subnet s := by
  unfold Rule.ofText
  rw [Subnet.fromString_toString hN h]

/-- The items of a printed list: subnets, then host names. -/
theorem hosts_of_items (hN : N.Documented) {subnets : List Subnet} {hosts : List Text}
    (hsubnets : ∀ s ∈ subnets, ∃ value, Subnet.fromString N value = some s)
    (hhosts : ∀ host ∈ hosts, Subnet.fromString N host = none) :
    (subnets.map (Subnet.toString N) ++ hosts).filterMap
      (fun t => (Rule.ofText N t).host?) = hosts ∧
    (subnets.map (Subnet.toString N) ++ hosts).filterMap (fun t => (Rule.ofText N t).subnet?) =
      subnets := by
  rw [List.filterMap_append, List.filterMap_append, List.filterMap_map, List.filterMap_map]
  have hsubnet {s : Subnet} (hs : s ∈ subnets) :
      Rule.ofText N (Subnet.toString N s) = .subnet s := by
    obtain ⟨value, hvalue⟩ := hsubnets s hs
    exact ofText_subnet hN hvalue
  constructor
  · have hnone : subnets.filterMap ((fun t => (Rule.ofText N t).host?) ∘ Subnet.toString N) =
        [] := by
      refine List.filterMap_eq_nil_iff.mpr fun s hs => ?_
      show (Rule.ofText N (Subnet.toString N s)).host? = none
      rw [hsubnet hs]
      rfl
    rw [hnone, List.nil_append]
    conv_rhs => rw [← List.filterMap_some (l := hosts)]
    refine List.filterMap_congr fun host hhost => ?_
    rw [ofText_host (hhosts host hhost)]
    rfl
  · have hnone : hosts.filterMap (fun t => (Rule.ofText N t).subnet?) = [] := by
      refine List.filterMap_eq_nil_iff.mpr fun host hhost => ?_
      rw [ofText_host (hhosts host hhost)]
      rfl
    rw [hnone, List.append_nil]
    conv_rhs => rw [← List.filterMap_some (l := subnets)]
    refine List.filterMap_congr fun s hs => ?_
    show (Rule.ofText N (Subnet.toString N s)).subnet? = some s
    rw [hsubnet hs]
    rfl

theorem Printable.lists (hN : N.Documented) (h : acl.Printable) (defaultBypass : Bool) :
    hostnamesOf .bypass (Acl.rulesOf N acl.toString defaultBypass) = acl.bypassHostnames.items ∧
    hostnamesOf .proxy (Acl.rulesOf N acl.toString defaultBypass) = acl.proxyHostnames.items ∧
    subnetsOf (defaultSide acl.bypass) (Acl.rulesOf N acl.toString defaultBypass) =
      acl.subnets.items := by
  have hbypass {subnets : List Subnet} (hsubnets : subnets ⊆ acl.subnets.items) :=
    hosts_of_items hN (fun s hs => h.subnet s (hsubnets hs))
      fun host hhost => (h.hostname host (List.mem_append_left _ hhost)).2
  have hproxy {subnets : List Subnet} (hsubnets : subnets ⊆ acl.subnets.items) :=
    hosts_of_items hN (fun s hs => h.subnet s (hsubnets hs))
      fun host hhost => (h.hostname host (List.mem_append_right _ hhost)).2
  have hnil : [] ⊆ acl.subnets.items := List.nil_subset _
  have hall : acl.subnets.items ⊆ acl.subnets.items := List.Subset.refl _
  have hbp : Side.bypass ≠ Side.proxy := nofun
  have hpb : Side.proxy ≠ Side.bypass := nofun
  rw [h.rulesOf hN]
  unfold hostnamesOf subnetsOf bypassList proxyList
  simp only [ofSide_append, ofSide_same, ofSide_other _ hbp, ofSide_other _ hpb, List.append_nil,
    List.nil_append]
  cases acl.bypass with
  | true =>
      refine ⟨(hbypass hnil).1, (hproxy hall).1, ?_⟩
      show ofSide Rule.subnet? .proxy _ ++ ofSide Rule.subnet? .proxy _ = _
      rw [ofSide_other _ hbp, List.nil_append, ofSide_same]
      exact (hproxy hall).2
  | false =>
      refine ⟨(hbypass hall).1, (hproxy hnil).1, ?_⟩
      show ofSide Rule.subnet? .bypass _ ++ ofSide Rule.subnet? .bypass _ = _
      rw [ofSide_other _ hpb, List.append_nil, ofSide_same]
      exact (hbypass hall).2

theorem acceptsInput_ruleLine (hN : N.Documented) (h : acl.Printable) {t : Text}
    (ht : t ∈ acl.ruleLines) : AcceptsInput t := by
  have hrule (hitem : t ∈ acl.bypassList ∨ t ∈ acl.proxyList) : AcceptsInput t :=
    fun hhead => absurd hhead (h.isRule hN hitem).head
  rcases List.mem_cons.mp ht with rfl | ht
  · unfold modeLine
    split
    · decide
    · decide
  · rcases List.mem_append.mp ht with ht | ht
    · rcases mem_blockLines ht with rfl | ht
      · decide
      · exact hrule (Or.inl ht)
    · rcases mem_blockLines ht with rfl | ht
      · decide
      · exact hrule (Or.inr ht)

theorem Printable.accepts (hN : N.Documented) (h : acl.Printable) : Accepts N acl.toString := by
  intro line hline
  rw [h.readLines hN] at hline
  rcases List.mem_append.mp hline with hline | hline
  · have hinput := h.isInput hN hline
    refine ⟨?_, ?_⟩
    · rw [hinput.uncomment]
      exact acceptsInput_ruleLine hN h hline
    · rw [hinput.importUrl]
      exact fun _ hm => nomatch hm
  · obtain ⟨u, hu, rfl⟩ := List.mem_map.mp hline
    obtain ⟨himport, hurl⟩ := h.importLine hN hu
    have hblank : AcceptsInput [] := by decide
    refine ⟨hblank, ?_⟩
    rw [himport]
    rintro _ ⟨⟩
    rw [hurl]
    exact Option.some_ne_none u

end Printed

/-! ## The round trip -/

section RoundTrip

variable {S : Implementation} {text : Text} {defaultBypass : Bool} {acl : Acl N}

/-- Mode, host names and subnets are read back; the imports are added again. -/
theorem fromReader_toString (hN : N.Documented) (h : fromReader S text defaultBypass = .ok acl)
    (S' : Implementation) (defaultBypass' : Bool) : fromReader S' acl.toString defaultBypass' =
      .ok { acl with urls := S'.addAll (urlSorter N) (.empty _) acl.urls.items } := by
  have hprint := printable_of_fromReader h
  obtain ⟨hbypass, hproxy, hsubnets⟩ := hprint.lists hN defaultBypass'
  rw [(fromReader_eq S' acl.toString defaultBypass').1 (hprint.accepts hN), Except.ok.injEq,
    assemble, hprint.modeOf hN, hprint.importUrls hN, hbypass, hproxy, hsubnets, Acl.mk.injEq]
  -- each of these lists was made by additions, so it is strictly sorted
  obtain ⟨_, rfl⟩ := fromReader_ok h
  refine ⟨SortedList.eq_of_items ?_, SortedList.eq_of_items ?_, SortedList.eq_of_items ?_, rfl, rfl⟩
  · exact items_addAll_of_strict (.empty _) (strict_addAll_of_exact stringSorter_exact strict_empty)
  · exact items_addAll_of_strict (.empty _) (strict_addAll_of_exact stringSorter_exact strict_empty)
  · exact items_addAll_of_strict (.empty _) (strict_addAll_of_exact subnetSorter_exact strict_empty)

/-- No two import URLs have the same host, port, file and protocol without being equal. -/
def TieFree (N : JavaNet) (text : Text) : Prop :=
  ∀ u ∈ importUrls N text, ∀ v ∈ importUrls N text, urlOrdering N u v = .eq → N.equals u v = true

/-- Import URLs that are equal have the same spelling of host, port, file and protocol. -/
def OneSpelling (N : JavaNet) (text : Text) : Prop :=
  ∀ u ∈ importUrls N text, ∀ v ∈ importUrls N text, N.equals u v = true → urlOrdering N u v = .eq

theorem strict_urls_of_tieFree (h : fromReader S text defaultBypass = .ok acl)
    (hties : TieFree N text) :
    Strict (urlSorter N) acl.urls.items := by
  obtain ⟨_, rfl⟩ := fromReader_ok h
  exact strict_addAll strict_empty hties

/-- A list with strictly sorted imports comes from URLs of which no two tie without being equal. -/
theorem tieFree_of_strict (hN : N.Documented) (h : fromReader S text defaultBypass = .ok acl)
    (hspelling : OneSpelling N text) (hstrict : Strict (urlSorter N) acl.urls.items) :
    TieFree N text := by
  obtain ⟨_, rfl⟩ := fromReader_ok h
  intro u hu v hv htie
  have hkept {w : N.Url} (hw : w ∈ importUrls N text) : ∃ w' ∈ (S.addAll (urlSorter N) (.empty _)
      (importUrls N text)).items, N.equals w w' = true ∧ urlOrdering N w w' = .eq := by
    obtain ⟨w', hw', hsame⟩ := exists_same (c := urlSorter N) (S := S) (l := .empty _)
      hN.equals_refl hN.equals_trans (Or.inr hw)
    exact ⟨w', hw', hsame, hspelling w hw w' ((mem_addAll hw').resolve_left List.not_mem_nil) hsame⟩
  obtain ⟨u', hu', huu', htieu⟩ := hkept hu
  obtain ⟨v', hv', hvv', htiev⟩ := hkept hv
  have htie' : (urlSorter N).compare u v' = .eq := Std.TransCmp.eq_trans htie htiev
  have htie'' : (urlSorter N).compare u' v' = .eq :=
    Std.TransCmp.eq_trans (tie_symm (c := urlSorter N) htieu) htie'
  obtain rfl := hstrict.eq_of_tie hu' hv' htie''
  exact hN.equals_trans u u' v huu' (hN.equals_symm v u' hvv')

/-- Imports that print the same after they were added again are strictly sorted. -/
theorem strict_of_toString (hN : N.Documented)
    (h : fromReader androidx text defaultBypass = .ok acl) {defaultBypass' : Bool} {acl' : Acl N}
    (h' : fromReader androidx acl.toString defaultBypass' = .ok acl')
    (hsame : acl'.toString = acl.toString) : Strict (urlSorter N) acl.urls.items := by
  have hitems : acl'.urls.items = acl.urls.items := by
    rw [← (printable_of_fromReader h').importUrls hN, hsame,
      (printable_of_fromReader h).importUrls hN]
  rw [fromReader_toString hN h] at h'
  obtain rfl := Except.ok.inj h'
  have hdistinct : Distinct (urlSorter N) acl.urls.items := by
    obtain ⟨_, rfl⟩ := fromReader_ok h
    exact distinct_addAll hN.equals_symm hN.equals_trans List.Pairwise.nil
  by_contra hstrict
  exact Androidx.items_addAll_ne hN.equals_refl (acl.urls.sorted.and hdistinct) hstrict hitems

/-- A list that was read is read back from its text if no two imports tie in the order without being
equal; with `androidx` lists, and one spelling for each import, only then does its text stay the
same. -/
theorem fromReader_toString_iff (hN : N.Documented) (text : Text) (defaultBypass : Bool) :
    (TieFree N text → ∀ (S : Implementation)
    (acl : Acl N), fromReader S text defaultBypass = .ok acl →
      ∀ defaultBypass', fromReader S acl.toString defaultBypass' = .ok acl) ∧
    (OneSpelling N text → ∀ acl : Acl N, fromReader androidx text defaultBypass = .ok acl →
      ∀ defaultBypass' (acl' : Acl N), fromReader androidx acl.toString defaultBypass' = .ok acl' →
        acl'.toString = acl.toString → TieFree N text) := by
  constructor
  · intro hties S acl h defaultBypass'
    have hurls : S.addAll (urlSorter N) (.empty _) acl.urls.items = acl.urls :=
      SortedList.eq_of_items (items_addAll_of_strict (.empty _) (strict_urls_of_tieFree h hties))
    rw [fromReader_toString hN h, hurls]
  · intro hspelling acl h defaultBypass' acl' h' hsame
    exact tieFree_of_strict hN h hspelling (strict_of_toString hN h h' hsame)

/-- Two imports that differ in the fragment only. -/
def fragments : Text := "#IMPORT_URL <http://h/#a>\n#IMPORT_URL <http://h/#b>\n".toList

/-- They change places each time the text is read and printed. -/
theorem fromReader_toString_fragments : ∃ acl acl' : Acl plainNet,
    fromReader androidx fragments false = .ok acl ∧
      fromReader androidx acl.toString false = .ok acl' ∧
      acl'.toString ≠ acl.toString := by
  have haccepts : Accepts plainNet fragments := by decide +kernel
  have hread := (fromReader_eq androidx fragments false).1 haccepts
  have hagain := fromReader_toString plainNet_documented hread androidx false
  exact ⟨_, _, hread, hagain, by decide +kernel⟩

/-- A text with rules of both kinds and two imports. -/
def imports : Text :=
  "[bypass_all]\n1.0.0.0/8\n#IMPORT_URL <http://h/b>\n[bypass_list]\na\n#IMPORT_URL <http://h/a>".toList

theorem fromReader_toString_imports : TieFree plainNet imports ∧ ∃ acl : Acl plainNet,
    fromReader androidx imports false = .ok acl ∧
      fromReader androidx acl.toString true = .ok acl := by
  have haccepts : Accepts plainNet imports := by decide +kernel
  have hread := (fromReader_eq androidx imports false).1 haccepts
  have hspelling : OneSpelling plainNet imports := by
    unfold OneSpelling
    decide +kernel
  have hties : TieFree plainNet imports := by
    unfold TieFree
    decide +kernel
  have hboth := fromReader_toString_iff plainNet_documented imports false
  have hagain := hboth.1 hties androidx _ hread true
  exact ⟨hboth.2 hspelling _ hread true _ hagain rfl, _, hread, hagain⟩

end RoundTrip

end CypherConnect.Acl
