/-
  The list that the service saves for the custom route (`Acl.customRules`, `flatten`, `Acl.save`),
  as ss-local reads it (`load_from_file`). Two programs with a parser each meet in one file.

  * `IpRange.Documented`: what the documentation of the crate `iprange` says.
  * `RustNet.Agrees`: both parsers read the texts of a list alike.
  * `customRules_handoff`: ss-local runs in the mode of the list, matches the host names of its
    rules list by list, and routes addresses by its subnets. Rules that are not ASCII are not read.
    The parsers have to agree on the list, and no rule has the character U+0085.
-/
import CypherConnect.Acl.Flatten
import CypherConnect.Acl.Matching
import CypherConnect.Acl.RoundTrip
import CypherConnect.SsLocal.AccessControl

namespace CypherConnect

open Sorted Lines SsLocal Outcome

/-- The two parsers agree on the texts of a list: ss-local reads the text of a subnet as that
subnet, and no host name of the proxy list as a network. They do not agree on every text:
`::ffff:0:0/96` is a network for ss-local only, since `java.net` reads an IPv4 address in it and 96
is too long for that. -/
structure SsLocal.RustNet.Agrees (R : RustNet) {N : JavaNet} (acl : Acl N) : Prop where
  subnet : ∀ s ∈ acl.subnets.items, readNet R (Subnet.toString N s) = some s
  hostname : ∀ t ∈ acl.proxyHostnames.items, readNet R t = none

/-- A range has the addresses of its networks. The networks of a range are of one family. -/
structure SsLocal.IpRange.Documented (I : IpRange) : Prop where
  contains_iff : ∀ (range : List Subnet) (address : List UInt8),
    (∀ s ∈ range, s.address.bytes.length = address.length) →
      (I.contains range address = true ↔
        ∃ s ∈ range, Subnet.SamePrefix s.prefixSize s.address.bytes address)
  isEmpty_iff : ∀ range, I.isEmpty range = true ↔ range = []

namespace Acl

variable {N : JavaNet} {S : Implementation}

/-- `if (file.canRead()) acl.fromReader(file.reader(), true)` -/
def userRules (S : Implementation) : Option Text → Except AclFailure (Acl N)
  | some text => fromReader S text true
  | none => .ok {}

/-- The getter of `customRules`; `file` is what can be read of the user's file. -/
def customRules (S : Implementation) (file : Option Text) : Except AclFailure (Acl N) := do
  let acl ← userRules S file
  .ok (if acl.bypass then acl else { acl with bypass := true, subnets := .empty _ })

/-- The list that the service saves before it starts ss-local. -/
def saveCustomRules (S : Implementation) (connect : N.Url → Option Text) (file : Option Text) :
    Except AclFailure (Acl N) := do
  flatten S connect 10 (← customRules S file)

/-! ## What is saved can be printed -/

theorem Printable.merge {acl child : Acl N} (h : acl.Printable) (hchild : child.Printable) :
    (Acl.merge S acl child).Printable := by
  -- the child's subnets are kept or dropped; its names are kept
  have hkept : ∃ subnets : List Subnet, Acl.merge S acl child = { acl with
      bypassHostnames := S.addAll stringSorter acl.bypassHostnames child.bypassHostnames.items
      proxyHostnames := S.addAll stringSorter acl.proxyHostnames child.proxyHostnames.items
      subnets := S.addAll subnetSorter acl.subnets subnets } ∧
        ∀ s ∈ subnets, s ∈ child.subnets.items := by
    unfold Acl.merge
    by_cases hmode : acl.bypass ≠ child.bypass
    · refine ⟨[], ?_, fun s hs => absurd hs List.not_mem_nil⟩
      rw [if_pos hmode]
      rfl
    · refine ⟨child.subnets.items, ?_, fun s hs => hs⟩
      rw [if_neg hmode]
  obtain ⟨subnets, hmerge, hsubnets⟩ := hkept
  rw [hmerge]
  refine ⟨?_, ?_, h.url⟩
  · intro host hhost
    rcases List.mem_append.mp hhost with hhost | hhost
    · rcases mem_addAll hhost with hhost | hhost
      · exact h.hostname host (List.mem_append_left _ hhost)
      · exact hchild.hostname host (List.mem_append_left _ hhost)
    · rcases mem_addAll hhost with hhost | hhost
      · exact h.hostname host (List.mem_append_right _ hhost)
      · exact hchild.hostname host (List.mem_append_right _ hhost)
  · intro s hs
    rcases mem_addAll hs with hs | hs
    · exact h.subnet s hs
    · exact hchild.subnet s (hsubnets s hs)

/-- Flattening keeps the mode and what makes a list printable; the induction is on the depth, and
inside on the URLs. -/
theorem Printable.flatten {connect : N.Url → Option Text} {depth : Nat} {acl flat : Acl N}
    (h : acl.Printable) (hflat : Acl.flatten S connect depth acl = .ok flat) :
    flat.Printable ∧ flat.bypass = acl.bypass := by
  induction depth generalizing acl flat with
  | zero =>
      cases hflat
      exact ⟨⟨h.hostname, h.subnet, fun u hu => absurd hu List.not_mem_nil⟩, rfl⟩
  | succ depth ih =>
      rw [flatten_succ] at hflat
      obtain ⟨merged, hmerged, hdone⟩ := bind_ok hflat
      have hp : merged.Printable ∧ merged.bypass = acl.bypass := by
        clear hflat
        generalize acl.urls.items = urls at hmerged
        induction urls generalizing acl with
        | nil =>
            cases hmerged
            exact ⟨h, rfl⟩
        | cons url urls ihurls =>
            rw [List.foldlM_cons] at hmerged
            obtain ⟨next, hnext, hmerged⟩ := bind_ok hmerged
            obtain ⟨sub, ⟨text, child, -, hread, hsub⟩, rfl⟩ := body_inv hnext
            have hsubPrintable : sub.Printable := (ih (printable_of_fromReader hread) hsub).1
            obtain ⟨hprintable, hbypass⟩ := ihurls (h.merge hsubPrintable) hmerged
            exact ⟨hprintable, hbypass⟩
      cases hdone
      exact ⟨⟨hp.1.hostname, hp.1.subnet, fun u hu => absurd hu List.not_mem_nil⟩, hp.2⟩

theorem printable_customRules {file : Option Text} {acl : Acl N}
    (h : customRules S file = .ok acl) :
    acl.Printable ∧ acl.bypass = true := by
  unfold customRules at h
  obtain ⟨user, huser, h⟩ := bind_ok h
  have hprintable : user.Printable := by
    cases file with
    | some text => exact printable_of_fromReader huser
    | none =>
        cases huser
        exact ⟨fun t ht => absurd ht List.not_mem_nil, fun s hs => absurd hs List.not_mem_nil,
          fun u hu => absurd hu List.not_mem_nil⟩
  cases h
  split
  · next hbypass => exact ⟨hprintable, hbypass⟩
  · exact ⟨⟨hprintable.hostname, fun s hs => absurd hs List.not_mem_nil, hprintable.url⟩, rfl⟩

theorem printable_saveCustomRules {connect : N.Url → Option Text} {file : Option Text} {acl : Acl N}
    (h : saveCustomRules S connect file = .ok acl) : acl.Printable ∧ acl.bypass = true := by
  obtain ⟨rules, hrules, hflat⟩ := bind_ok h
  obtain ⟨hprintable, hbypass⟩ := printable_customRules hrules
  obtain ⟨hflatPrintable, hmode⟩ := hprintable.flatten hflat
  exact ⟨hflatPrintable, hmode.trans hbypass⟩

/-! ## The lines of the file -/

theorem rustLinesFrom_line {line : Text} (h : IsLine line) {run : Text} (hrun : IsLine run)
    (rest : Text) :
    rustLinesFrom run (line ++ '\n' :: rest) = (run ++ line) :: rustLines rest := by
  induction line generalizing run with
  | nil =>
      have hlast : run.getLast? ≠ some '\r' := fun hlast => hrun.2 (List.mem_of_getLast? hlast)
      rw [List.nil_append, List.append_nil]
      show (if run.getLast? = some '\r' then run.dropLast else run) :: rustLinesFrom [] rest = _
      rw [if_neg hlast]
      rfl
  | cons c line ih =>
      have hc : c ≠ '\n' := fun heq => h.1 (heq ▸ List.mem_cons_self)
      have hnext : IsLine (run ++ [c]) := by
        refine ⟨fun hm => ?_, fun hm => ?_⟩
        · rcases List.mem_append.mp hm with hm | hm
          · exact hrun.1 hm
          · exact hc (List.mem_singleton.mp hm).symm
        · rcases List.mem_append.mp hm with hm | hm
          · exact hrun.2 hm
          · exact h.2 (List.mem_singleton.mp hm ▸ List.mem_cons_self)
      rw [List.cons_append, rustLinesFrom]
      · rw [ih h.tail hnext, List.append_assoc]
        rfl
      · intro heq
        exact hc heq

theorem rustLines_unlines {lines : List Text} (h : ∀ line ∈ lines, IsLine line) :
    rustLines (unlines lines) = lines := by
  induction lines with
  | nil => rfl
  | cons line lines ih =>
      have hnil : IsLine [] := ⟨List.not_mem_nil, List.not_mem_nil⟩
      have htail := ih fun x hx => h x (List.mem_cons_of_mem _ hx)
      show rustLinesFrom [] ((line ++ ['\n']) ++ unlines lines) = _
      rw [List.append_assoc, List.singleton_append,
        rustLinesFrom_line (h line List.mem_cons_self) hnil, htail]
      rfl

/-- What one class leaves at the ends, a smaller one leaves. -/
theorem trim_of_imp {p q : Char → Bool} {t : Text} (hpq : ∀ c ∈ t, p c = true → q c = true)
    (h : Scan.trim q t = t) : Scan.trim p t = t := by
  rw [Scan.trim_eq] at h ⊢
  have hdropLen := (List.rdropWhile_prefix q (t.dropWhile q)).length_le
  rw [h] at hdropLen
  have hdrop : t.dropWhile q = t :=
    (List.dropWhile_sublist q).eq_of_length_le hdropLen
  rw [hdrop] at h
  have hfront : t.dropWhile p = t :=
    List.dropWhile_eq_self_iff.mpr fun hl hp =>
      List.dropWhile_eq_self_iff.mp hdrop hl (hpq _ (List.getElem_mem hl) hp)
  rw [hfront]
  exact List.rdropWhile_eq_self_iff.mpr fun hl hp =>
    List.rdropWhile_eq_self_iff.mp h hl (hpq _ (List.getLast_mem hl) hp)

/-- Apart from one character Rust's white space is Kotlin's. -/
theorem rustTrim_of_trim {t : Text} (hnel : Char.ofNat 0x85 ∉ t) (h : trim t = t) :
    rustTrim t = t := by
  refine trim_of_imp (fun c hc hspace => ?_) (show Scan.trim isWhitespace t = t from h)
  have hne : c.toNat ≠ 0x85 := by
    intro heq
    apply hnel
    rw [← heq, Char.ofNat_toNat]
    exact hc
  unfold isRustWhitespace at hspace
  unfold isWhitespace
  simp only [Bool.or_eq_true, Bool.and_eq_true, decide_eq_true_eq, beq_iff_eq] at hspace ⊢
  omega

/-- A rule is not a line that switches. -/
theorem switch_of_isRule {t : Text} (h : IsRule t) : Switch.ofLine t = none := by
  have hne (header : Text) (hhead : header.head? = some '[') : t ≠ header :=
    fun heq => h.head (heq ▸ hhead)
  unfold Switch.ofLine
  rw [if_neg (not_or.mpr ⟨hne _ rfl, hne _ rfl⟩), if_neg (not_or.mpr ⟨hne _ rfl, hne _ rfl⟩),
    if_neg (hne _ rfl),
    if_neg (not_or.mpr ⟨hne _ rfl, hne _ rfl⟩), if_neg (not_or.mpr ⟨hne _ rfl, hne _ rfl⟩)]

variable {R : RustNet} {C : RegexCrate}

/-- A rule of ASCII characters is added to the list at hand, another one is skipped. -/
theorem loadLine_rule {t : Text} (h : IsRule t) (hnel : Char.ofNat 0x85 ∉ t) (loading : Loading) :
    loading.loadLine R t =
      if isAscii t then (loading.current.addRule R t).map loading.setCurrent else .ok loading := by
  have hhead : t.head? ≠ some '#' := fun hhead => h.hash (List.mem_of_head? hhead)
  unfold Loading.loadLine
  rw [if_neg (not_or.mpr ⟨h.nonempty, hhead⟩), rustTrim_of_trim hnel h.trimmed]
  cases hascii : isAscii t with
  | false => rfl
  | true =>
      rw [switch_of_isRule h]
      simp only [Bool.not_true, Bool.false_eq_true, if_false, if_true]
      cases loading.current.addRule R t <;> rfl

theorem addRule_of_ascii {t : Text} (h : isAscii t = true) (rules : ParsingRules) :
    ∃ rules', rules.addRule R t = .ok rules' := by
  have hdrop (n : Nat) : isAscii (t.drop n) = true := by
    unfold isAscii at h ⊢
    rw [List.all_eq_true] at h ⊢
    exact fun c hc => h c (List.mem_of_mem_drop hc)
  unfold ParsingRules.addRule ParsingRules.addTreeRule ParsingRules.addSetRule
    ParsingRules.checkIsAscii
  rw [if_pos (hdrop 2), if_pos (hdrop 1)]
  split
  · exact ⟨_, rfl⟩
  · split
    · exact ⟨_, rfl⟩
    · split <;> exact ⟨_, rfl⟩

section Current

variable (loading : Loading) (rules next : ParsingRules)

theorem setCurrent_current : loading.setCurrent loading.current = loading := by
  obtain ⟨mode, block, bypass, proxy, curr⟩ := loading
  cases curr <;> rfl

theorem current_setCurrent : (loading.setCurrent rules).current = rules := by
  obtain ⟨mode, block, bypass, proxy, curr⟩ := loading
  cases curr <;> rfl

theorem setCurrent_setCurrent :
    (loading.setCurrent next).setCurrent rules = loading.setCurrent rules := by
  obtain ⟨mode, block, bypass, proxy, curr⟩ := loading
  cases curr <;> rfl

end Current

/-- The rules of one list. -/
theorem foldlM_rules {items : List Text} (h : ∀ t ∈ items, IsRule t ∧ Char.ofNat 0x85 ∉ t)
    (loading : Loading) :
    ∃ rules, (items.filter isAscii).foldlM (ParsingRules.addRule R) loading.current = .ok rules ∧
      items.foldlM (Loading.loadLine R) loading = .ok (loading.setCurrent rules) := by
  induction items generalizing loading with
  | nil =>
      refine ⟨loading.current, rfl, ?_⟩
      show Except.ok loading = _
      rw [setCurrent_current]
  | cons t items ih =>
      obtain ⟨hrule, hnel⟩ := h t List.mem_cons_self
      have hrest := fun loading => ih (fun x hx => h x (List.mem_cons_of_mem _ hx)) loading
      rw [List.foldlM_cons, loadLine_rule hrule hnel]
      cases hascii : isAscii t with
      | false =>
          rw [List.filter_cons_of_neg (by rw [hascii]; exact Bool.false_ne_true)]
          exact hrest loading
      | true =>
          obtain ⟨next, hnext⟩ := addRule_of_ascii hascii loading.current
          rw [List.filter_cons_of_pos hascii, List.foldlM_cons, hnext, if_pos rfl]
          obtain ⟨rules, hrules, hload⟩ := hrest (loading.setCurrent next)
          rw [current_setCurrent] at hrules
          rw [setCurrent_setCurrent] at hload
          exact ⟨rules, hrules, hload⟩

theorem loadLine_comment {t : Text} (h : t.head? = some '#') (loading : Loading) :
    loading.loadLine R t = .ok loading :=
  if_pos (Or.inr h)

theorem foldlM_comments {lines : List Text} (h : ∀ t ∈ lines, t.head? = some '#')
    (loading : Loading) :
    lines.foldlM (Loading.loadLine R) loading = .ok loading := by
  induction lines with
  | nil => rfl
  | cons t lines ih =>
      rw [List.foldlM_cons, loadLine_comment (h t List.mem_cons_self)]
      exact ih fun x hx => h x (List.mem_cons_of_mem _ hx)

/-- A list under its header; without rules the header is not there. -/
theorem foldlM_block (header : Text) (curr : Section) (loading : Loading) {items : List Text}
    (hheader : loading.loadLine R header = .ok { loading with curr })
    (h : ∀ t ∈ items, IsRule t ∧ Char.ofNat 0x85 ∉ t) : ∃ rules last,
      (items.filter isAscii).foldlM (ParsingRules.addRule R) { loading with curr }.current =
        .ok rules ∧
      (blockLines header items).foldlM (Loading.loadLine R) loading =
        .ok { { loading with curr }.setCurrent rules with curr := last } := by
  by_cases hempty : items = []
  · subst hempty
    refine ⟨_, loading.curr, rfl, ?_⟩
    rw [setCurrent_current]
    rfl
  · obtain ⟨rules, hrules, hload⟩ := foldlM_rules (R := R) h { loading with curr }
    refine ⟨rules, ({ loading with curr }.setCurrent rules).curr, hrules, ?_⟩
    unfold blockLines
    rw [if_neg fun hnil => hempty (List.isEmpty_iff.mp hnil), List.foldlM_cons, hheader]
    exact hload

/-- The character that Rust takes for white space and Kotlin does not. -/
def NoNextLine (acl : Acl N) : Prop :=
  ∀ t ∈ acl.bypassHostnames.items ++ acl.proxyHostnames.items, Char.ofNat 0x85 ∉ t

theorem isSubnetChar_toString (hN : N.Documented) {value : Text} {s : Subnet}
    (h : Subnet.fromString N value = some s) {c : Char}
    (hc : c ∈ Subnet.toString N s) : isSubnetChar c = true := by
  obtain ⟨t, ht⟩ := Subnet.fromString_address h
  have haddress (hc : c ∈ N.hostAddress s.address) : isSubnetChar c = true := by
    unfold isSubnetChar
    rw [hN.hostAddress_chars t _ ht c hc]
    rfl
  unfold Subnet.toString at hc
  split at hc
  · exact haddress hc
  · rcases List.mem_append.mp hc with hc | hc
    · exact haddress hc
    · rcases List.mem_cons.mp hc with rfl | hc
      · rfl
      · unfold isSubnetChar JavaNet.isAddressChar JavaUri.isHex
        rw [JavaUri.isDigit_of_mem_decimal hc]
        rfl

theorem nextLine_not_mem_subnet (hN : N.Documented) {value : Text} {s : Subnet}
    (h : Subnet.fromString N value = some s) : Char.ofNat 0x85 ∉ Subnet.toString N s := by
  intro hc
  have hrange := isSubnetChar_range (isSubnetChar_toString hN h hc)
  exact absurd hrange (by decide)

theorem isAscii_subnet (hN : N.Documented) {value : Text} {s : Subnet}
    (h : Subnet.fromString N value = some s) :
    isAscii (Subnet.toString N s) = true := by
  refine List.all_eq_true.mpr fun c hc => decide_eq_true ?_
  have hrange := isSubnetChar_range (isSubnetChar_toString hN h hc)
  omega

theorem bar_not_prefix_subnet (hN : N.Documented) {value : Text} {s : Subnet}
    (h : Subnet.fromString N value = some s) : ¬ "|".toList <+: Subnet.toString N s := by
  intro hbar
  have hrange := isSubnetChar_range (isSubnetChar_toString hN h (hbar.subset List.mem_cons_self))
  exact absurd hrange (by decide)

/-- The items of the two lists are rules as ss-local reads them. -/
theorem Printable.loadable (hN : N.Documented) {acl : Acl N} (h : acl.Printable)
    (hnext : acl.NoNextLine) {t : Text}
    (ht : t ∈ acl.bypassList ∨ t ∈ acl.proxyList) : IsRule t ∧ Char.ofNat 0x85 ∉ t := by
  refine ⟨h.isRule hN ht, ?_⟩
  have hsubnet (hm : t ∈ acl.subnets.items.map (Subnet.toString N)) : Char.ofNat 0x85 ∉ t := by
    obtain ⟨s, hs, rfl⟩ := List.mem_map.mp hm
    obtain ⟨value, hvalue⟩ := h.subnet s hs
    exact nextLine_not_mem_subnet hN hvalue
  have hbypass (hm : t ∈ acl.bypassHostnames.items) : Char.ofNat 0x85 ∉ t :=
    hnext t (List.mem_append_left _ hm)
  have hproxy (hm : t ∈ acl.proxyHostnames.items) : Char.ofNat 0x85 ∉ t :=
    hnext t (List.mem_append_right _ hm)
  unfold bypassList proxyList at ht
  split at ht
  · exact ht.elim hbypass fun ht => (List.mem_append.mp ht).elim hsubnet hproxy
  · exact ht.elim (fun ht => (List.mem_append.mp ht).elim hsubnet hbypass) hproxy

/-- The mode that ss-local is in. -/
def modeOfList (bypass : Bool) : Mode := if bypass then .whiteList else .blackList

/-- The lists that `load_from_file` parses of a printed list. -/
theorem foldlM_printed (hN : N.Documented) {acl : Acl N} (h : acl.Printable)
    (hnext : acl.NoNextLine) :
    ∃ bypass proxy last,
      (acl.bypassList.filter isAscii).foldlM (ParsingRules.addRule R)
      ({} : Loading).bypass = .ok bypass ∧
      (acl.proxyList.filter isAscii).foldlM (ParsingRules.addRule R)
      ({} : Loading).proxy = .ok proxy ∧
      (rustLines acl.toString).foldlM (Loading.loadLine R) {} =
        .ok { mode := modeOfList acl.bypass, bypass, proxy, curr := last } := by
  have hlines : rustLines acl.toString = acl.printedLines := by
    rw [toString_eq]
    refine rustLines_unlines fun line hline => ?_
    rcases List.mem_append.mp hline with hline | hline
    · exact (h.isInput hN hline).line
    · obtain ⟨u, hu, rfl⟩ := List.mem_map.mp hline
      obtain ⟨t, hurl, ht⟩ := h.url u hu
      exact (isLine_importLine hN hurl ht).2
  have hmode : Loading.loadLine R {} (modeLine acl.bypass) =
      .ok { mode := modeOfList acl.bypass } := by
    unfold modeLine modeOfList
    cases acl.bypass <;> rfl
  have himports : ∀ t ∈ acl.urls.items.map (fun url => Acl.importLine (N.urlText url)),
      t.head? = some '#' := by
    intro t ht
    obtain ⟨u, -, rfl⟩ := List.mem_map.mp ht
    rfl
  obtain ⟨bypass, last, hbypass, hload⟩ : ∃ bypass last,
      (acl.bypassList.filter isAscii).foldlM (ParsingRules.addRule R)
      ({} : Loading).bypass = .ok bypass ∧
      (blockLines "[bypass_list]".toList acl.bypassList).foldlM (Loading.loadLine R)
        { mode := modeOfList acl.bypass } =
          .ok { mode := modeOfList acl.bypass, bypass, curr := last } :=
    foldlM_block "[bypass_list]".toList .bypass { mode := modeOfList acl.bypass } rfl
      fun t ht => h.loadable hN hnext (Or.inl ht)
  obtain ⟨proxy, last', hproxy, hload'⟩ : ∃ proxy last',
      (acl.proxyList.filter isAscii).foldlM (ParsingRules.addRule R)
      ({} : Loading).proxy = .ok proxy ∧
      (blockLines "[proxy_list]".toList acl.proxyList).foldlM (Loading.loadLine R)
        { mode := modeOfList acl.bypass, bypass, curr := last } =
          .ok { mode := modeOfList acl.bypass, bypass, proxy, curr := last' } :=
    foldlM_block "[proxy_list]".toList .proxy
      { mode := modeOfList acl.bypass, bypass, curr := last } rfl
      fun t ht => h.loadable hN hnext (Or.inr ht)
  refine ⟨bypass, proxy, last', hbypass, hproxy, ?_⟩
  rw [hlines, printedLines, ruleLines, List.cons_append, List.foldlM_cons, hmode]
  show List.foldlM _ _ _ = _
  rw [List.foldlM_append, List.foldlM_append, hload]
  show (List.foldlM _ _ _ >>= _) = _
  rw [hload']
  exact foldlM_comments himports _

end Acl

/-! ## Addresses -/

namespace SsLocal

open Subnet (bit SamePrefix)

/-- An address, and what stands for it in the other family. -/
def forms (ip : InetAddress) : List (List UInt8) :=
  if ip.bytes.length = 4 then [ip.bytes, toIpv6Mapped ip.bytes]
  else ip.bytes :: (toIpv4Mapped ip.bytes).toList

/-- The subnet covers the address, in one form or the other. -/
def Covers (s : Subnet) (ip : InetAddress) : Prop :=
  ∃ b ∈ forms ip, b.length = s.address.bytes.length ∧ SamePrefix s.prefixSize s.address.bytes b

/-- The networks of each family are of the size of that family. -/
structure ParsingRules.Families (rules : ParsingRules) : Prop where
  ipv4 : ∀ s ∈ rules.ipv4, s.address.bytes.length = 4
  ipv6 : ∀ s ∈ rules.ipv6, s.address.bytes.length = 16

/-- The network that a line adds. -/
def netOf (R : RustNet) (line : Text) : Option Subnet :=
  if "|".toList <+: line then none else readNet R line

/-- A network of the range has the prefix of the address. -/
def InRange (range : List Subnet) (b : List UInt8) : Prop :=
  ∃ s ∈ range, b.length = s.address.bytes.length ∧ SamePrefix s.prefixSize s.address.bytes b

section Range

variable {range : List Subnet} {n : Nat} {b : List UInt8}

theorem contains_iff {I : IpRange} (hI : I.Documented) (h : ∀ s ∈ range, s.address.bytes.length = n)
    (hb : b.length = n) :
    I.contains range b = true ↔ InRange range b := by
  rw [hI.contains_iff range b fun s hs => (h s hs).trans hb.symm]
  refine exists_congr fun s => and_congr_right fun hs => ?_
  rw [and_iff_right (hb.trans (h s hs).symm)]

/-- No network of one family compares with an address of the other. -/
theorem not_inRange (h : ∀ s ∈ range, s.address.bytes.length = n) (hb : b.length ≠ n) :
    ¬ InRange range b := by
  intro ⟨s, hs, hlen, _⟩
  exact hb (hlen.trans (h s hs))

theorem exists_covers_iff {a : List Subnet} {ip : InetAddress} :
    (∃ s ∈ a ++ range, Covers s ip) ↔ ∃ b ∈ forms ip, InRange a b ∨ InRange range b := by
  unfold Covers InRange
  constructor
  · intro ⟨s, hs, b, hb, hsame⟩
    rcases List.mem_append.mp hs with hs | hs
    · exact ⟨b, hb, Or.inl ⟨s, hs, hsame⟩⟩
    · exact ⟨b, hb, Or.inr ⟨s, hs, hsame⟩⟩
  · rintro ⟨b, hb, ⟨s, hs, hsame⟩ | ⟨s, hs, hsame⟩⟩
    · exact ⟨s, List.mem_append_left _ hs, b, hb, hsame⟩
    · exact ⟨s, List.mem_append_right _ hs, b, hb, hsame⟩

end Range

theorem length_toIpv4Mapped {v6 v4 : List UInt8} (hlen : v6.length = 16)
    (h : toIpv4Mapped v6 = some v4) :
    v4.length = 4 := by
  unfold toIpv4Mapped at h
  split at h
  case isFalse => cases h
  case isTrue =>
    cases h
    rw [List.length_drop, hlen]

theorem checkIpMatched_iff {I : IpRange} (hI : I.Documented) {C : RegexCrate}
    {parsed : ParsingRules} {rules : Rules} (hfamilies : parsed.Families)
    (h : Rules.ofParsing C parsed = .ok rules) (ip : InetAddress) :
    rules.checkIpMatched I ip = true ↔ ∃ s ∈ parsed.ipv4 ++ parsed.ipv6, Covers s ip := by
  obtain ⟨hipv4, hipv6⟩ : rules.ipv4 = parsed.ipv4 ∧ rules.ipv6 = parsed.ipv6 := by
    unfold Rules.ofParsing at h
    split at h
    case h_1 => cases h
    case h_2 =>
      cases h
      exact ⟨rfl, rfl⟩
  rw [exists_covers_iff]
  unfold Rules.checkIpMatched forms
  rw [hipv4, hipv6]
  rcases ip.size with hfour | hsixteen
  · have hmapped : (toIpv6Mapped ip.bytes).length = 16 := by simp [toIpv6Mapped, hfour]
    have h4 := contains_iff hI hfamilies.ipv4 hfour
    have h6 := contains_iff hI hfamilies.ipv6 hmapped
    have hno6 := not_inRange hfamilies.ipv6 (b := ip.bytes) (by omega)
    have hno4 := not_inRange hfamilies.ipv4 (b := toIpv6Mapped ip.bytes) (by omega)
    rw [if_pos hfour, if_pos hfour, Bool.or_eq_true, h4, h6]
    simp [hno4, hno6]
  · have hfour : ip.bytes.length ≠ 4 := by omega
    have h6 := contains_iff hI hfamilies.ipv6 hsixteen
    have hno4 := not_inRange hfamilies.ipv4 (b := ip.bytes) hfour
    rw [if_neg hfour, if_neg hfour, Bool.or_eq_true, h6]
    cases hmapped : toIpv4Mapped ip.bytes with
    | none => simp [hno4]
    | some v4 =>
        have hlen := length_toIpv4Mapped hsixteen hmapped
        have h4 := contains_iff hI hfamilies.ipv4 hlen
        have hno6 := not_inRange hfamilies.ipv6 (b := v4) (by omega)
        simp [hno4, hno6, h4]

theorem addIpRule_nets {this : ParsingRules} (hfamilies : this.Families) (net : Subnet) :
    (this.addIpRule net).Families ∧
      ∀ s, s ∈ (this.addIpRule net).ipv4 ++ (this.addIpRule net).ipv6 ↔
        s ∈ this.ipv4 ++ this.ipv6 ∨ s = net := by
  unfold ParsingRules.addIpRule
  by_cases hfour : net.address.bytes.length = 4
  · rw [if_pos hfour]
    refine ⟨⟨?_, hfamilies.ipv6⟩, fun s => ?_⟩
    · intro s hs
      rcases List.mem_append.mp hs with hs | hs
      · exact hfamilies.ipv4 s hs
      · rw [List.mem_singleton.mp hs, hfour]
    · simp only [List.mem_append, List.mem_singleton]
      rw [or_right_comm]
  · rw [if_neg hfour]
    refine ⟨⟨hfamilies.ipv4, ?_⟩, fun s => ?_⟩
    · intro s hs
      rcases List.mem_append.mp hs with hs | hs
      · exact hfamilies.ipv6 s hs
      · rw [List.mem_singleton.mp hs]
        exact net.address.size.resolve_left hfour
    · simp only [List.mem_append, List.mem_singleton]
      rw [or_assoc]

/-- No network was added, as none is by a rule for host names. -/
def SameNets (rules this : ParsingRules) : Prop := rules.ipv4 = this.ipv4 ∧ rules.ipv6 = this.ipv6

theorem addTreeRule_nets {this rules : ParsingRules} {rule : Text}
    (h : this.addTreeRule rule = .ok rules) :
    SameNets rules this := by
  unfold ParsingRules.addTreeRule at h
  obtain ⟨_, _, h⟩ := bind_ok h
  cases h
  exact ⟨rfl, rfl⟩

theorem addSetRule_nets {this rules : ParsingRules} {rule : Text}
    (h : this.addSetRule rule = .ok rules) :
    SameNets rules this := by
  unfold ParsingRules.addSetRule at h
  obtain ⟨_, _, h⟩ := bind_ok h
  cases h
  exact ⟨rfl, rfl⟩

theorem addRegexRule_nets (this : ParsingRules) (line : Text) :
    SameNets (this.addRegexRule line) this := by
  unfold ParsingRules.addRegexRule
  split
  · exact ⟨rfl, rfl⟩
  · split
    · next hset => exact addSetRule_nets hset
    · exact ⟨rfl, rfl⟩
  · split
    · next htree => exact addTreeRule_nets htree
    · exact ⟨rfl, rfl⟩

theorem addRule_nets {R : RustNet} {this rules : ParsingRules} {line : Text}
    (hfamilies : this.Families) (h : this.addRule R line = .ok rules) : rules.Families ∧
      ∀ s, s ∈ rules.ipv4 ++ rules.ipv6 ↔ s ∈ this.ipv4 ++ this.ipv6 ∨ netOf R line = some s := by
  have hsame (hnone : netOf R line = none) (hnets : SameNets rules this) : rules.Families ∧
      ∀ s, s ∈ rules.ipv4 ++ rules.ipv6 ↔ s ∈ this.ipv4 ++ this.ipv6 ∨ netOf R line = some s := by
    obtain ⟨hipv4, hipv6⟩ := hnets
    refine ⟨⟨hipv4 ▸ hfamilies.ipv4, hipv6 ▸ hfamilies.ipv6⟩, fun s => ?_⟩
    rw [hnone, hipv4, hipv6]
    simp
  unfold ParsingRules.addRule at h
  by_cases hbar : "|".toList <+: line
  · have hnone : netOf R line = none := if_pos hbar
    split at h
    · exact hsame hnone (addTreeRule_nets h)
    · exact hsame hnone (addSetRule_nets h)
  · have hbars : ¬ "||".toList <+: line :=
      fun hbars => hbar (List.IsPrefix.trans ⟨['|'], rfl⟩ hbars)
    have hnet : netOf R line = readNet R line := if_neg hbar
    rw [if_neg hbars, if_neg hbar] at h
    cases hread : readNet R line with
    | none =>
        simp only [hread] at h
        cases h
        exact hsame (hnet.trans hread) (addRegexRule_nets this line)
    | some net =>
        simp only [hread] at h
        cases h
        obtain ⟨hnext, hnets⟩ := addIpRule_nets hfamilies net
        refine ⟨hnext, fun s => ?_⟩
        rw [hnets, hnet, hread, Option.some.injEq, eq_comm (a := s)]

theorem foldlM_nets {R : RustNet} {this rules : ParsingRules} {lines : List Text}
    (hfamilies : this.Families)
    (h : lines.foldlM (ParsingRules.addRule R) this = .ok rules) : rules.Families ∧
      ∀ s, s ∈ rules.ipv4 ++ rules.ipv6 ↔
        s ∈ this.ipv4 ++ this.ipv6 ∨ ∃ line ∈ lines, netOf R line = some s := by
  induction lines generalizing this with
  | nil =>
      cases h
      refine ⟨hfamilies, fun s => ?_⟩
      simp
  | cons line lines ih =>
      rw [List.foldlM_cons] at h
      obtain ⟨next, hnext, h⟩ := bind_ok h
      obtain ⟨hfamilies, hnets⟩ := addRule_nets hfamilies hnext
      obtain ⟨hfamilies, hrest⟩ := ih hfamilies h
      refine ⟨hfamilies, fun s => ?_⟩
      rw [hrest, hnets, or_assoc]
      simp

end SsLocal

/-! ## What ss-local decides -/

namespace Acl

variable {N : JavaNet} {S : Implementation} {R : RustNet} {C : RegexCrate} {I : IpRange}
  {acl : Acl N}

/-- The networks of a printed list: those of its subnets. -/
theorem netOf_items (hN : N.Documented) {subnets : List Subnet} {hosts : List Text}
    (hsubnets : ∀ s ∈ subnets, ∃ value, Subnet.fromString N value = some s)
    (hread : ∀ s ∈ subnets, readNet R (Subnet.toString N s) = some s)
    (hhosts : ∀ host ∈ hosts, readNet R host = none) (s : Subnet) :
    (∃ line ∈ (subnets.map (Subnet.toString N) ++ hosts).filter isAscii, netOf R line = some s) ↔
      s ∈ subnets := by
  have hnet {s : Subnet} (hs : s ∈ subnets) : netOf R (Subnet.toString N s) = some s := by
    obtain ⟨value, hvalue⟩ := hsubnets s hs
    unfold netOf
    rw [if_neg (bar_not_prefix_subnet hN hvalue), hread s hs]
  constructor
  · rintro ⟨line, hline, hs⟩
    rcases List.mem_append.mp (List.mem_filter.mp hline).1 with hmem | hmem
    · obtain ⟨s', hs', rfl⟩ := List.mem_map.mp hmem
      rw [hnet hs'] at hs
      exact Option.some.inj hs ▸ hs'
    · unfold netOf at hs
      rw [hhosts line hmem, ite_self] at hs
      cases hs
  · intro hs
    obtain ⟨value, hvalue⟩ := hsubnets s hs
    refine ⟨_, List.mem_filter.mpr ⟨?_, isAscii_subnet hN hvalue⟩, hnet hs⟩
    exact List.mem_append_left _ (List.mem_map_of_mem hs)

/-- Texts of subnets are no rules for host names. -/
theorem ruleMeans_items (hN : N.Documented) {subnets : List Subnet} {hosts : List Text}
    (hsubnets : ∀ s ∈ subnets, ∃ value, Subnet.fromString N value = some s)
    (hread : ∀ s ∈ subnets, readNet R (Subnet.toString N s) = some s) (host : Text) :
    (∃ line ∈ (subnets.map (Subnet.toString N) ++ hosts).filter isAscii, RuleMeans R C line host) ↔
      ∃ rule ∈ hosts, isAscii rule = true ∧ RuleMeans R C rule host := by
  have hnet {s : Subnet} (hs : s ∈ subnets) : ¬ RuleMeans R C (Subnet.toString N s) host := by
    obtain ⟨value, hvalue⟩ := hsubnets s hs
    have hbar := bar_not_prefix_subnet hN hvalue
    have hbars : ¬ "||".toList <+: Subnet.toString N s :=
      fun hbars => hbar (List.IsPrefix.trans ⟨['|'], rfl⟩ hbars)
    unfold RuleMeans
    rw [if_neg hbars, if_neg hbar, hread s hs, if_pos (Option.some_ne_none s)]
    exact not_false
  constructor
  · rintro ⟨line, hline, hmeans⟩
    obtain ⟨hmem, hascii⟩ := List.mem_filter.mp hline
    rcases List.mem_append.mp hmem with hmem | hmem
    · obtain ⟨s, hs, rfl⟩ := List.mem_map.mp hmem
      exact absurd hmeans (hnet hs)
    · exact ⟨line, hmem, hascii, hmeans⟩
  · rintro ⟨rule, hrule, hascii, hmeans⟩
    exact ⟨rule, List.mem_filter.mpr ⟨List.mem_append_right _ hrule, hascii⟩, hmeans⟩

variable (R C acl)

/-- One of the rules is for the host; a rule that is not ASCII is for none. -/
def Named (rules : List Text) (host : Text) : Prop :=
  ∃ rule ∈ rules, isAscii rule = true ∧ RuleMeans R C rule host

/-- An address goes past the proxy if no subnet of the list covers it. -/
def BypassesAddress (ip : InetAddress) : Prop := ¬ ∃ s ∈ acl.subnets.items, Covers s ip

/-- A host goes past the proxy unless a rule of the proxy list is for it: by a rule of the bypass
list, for want of subnets, or with one of its addresses. -/
def BypassesHost (host : Text) (resolved : Option (List InetAddress)) : Prop :=
  ¬ Named R C acl.proxyHostnames.items host ∧ (Named R C acl.bypassHostnames.items host ∨
    acl.subnets.items = [] ∨ ∃ ip ∈ resolved.getD [], acl.BypassesAddress ip)

variable {R C acl}

theorem ofParsing_error {parsed : ParsingRules} {e : LoadError}
    (h : Rules.ofParsing C parsed = .error e) :
    ∃ name, e = .regex name := by
  unfold Rules.ofParsing at h
  split at h
  · exact ⟨_, (Except.error.inj h).symm⟩
  · cases h

theorem isIpEmpty_iff {I : IpRange} (hI : I.Documented) {parsed : ParsingRules} {rules : Rules}
    (h : Rules.ofParsing C parsed = .ok rules) :
    rules.isIpEmpty I = true ↔ parsed.ipv4 ++ parsed.ipv6 = [] := by
  unfold Rules.ofParsing at h
  split at h
  · cases h
  · cases h
    rw [List.append_eq_nil_iff, Rules.isIpEmpty, Bool.and_eq_true, hI.isEmpty_iff, hI.isEmpty_iff]

/-- Once the lines are read, the lists are compiled one by one. -/
theorem loadFromFile_ok {text : Text} {loading : Loading}
    (hload : (rustLines text).foldlM (Loading.loadLine R) {} = .ok loading)
    {control : AccessControl}
    (h : AccessControl.loadFromFile R C text = .ok control) : control.mode = loading.mode ∧
      Rules.ofParsing C loading.bypass = .ok control.blackList ∧
      Rules.ofParsing C loading.proxy = .ok control.whiteList := by
  obtain ⟨loading', hload', h⟩ := bind_ok h
  obtain rfl := Except.ok.inj (hload.symm.trans hload')
  obtain ⟨block, _, h⟩ := bind_ok h
  obtain ⟨blackList, hblack, h⟩ := bind_ok h
  obtain ⟨whiteList, hwhite, h⟩ := bind_ok h
  cases h
  exact ⟨rfl, hblack, hwhite⟩

theorem loadFromFile_error {text : Text} {loading : Loading}
    (hload : (rustLines text).foldlM (Loading.loadLine R) {} = .ok loading) {e : LoadError}
    (h : AccessControl.loadFromFile R C text = .error e) : ∃ name, e = .regex name := by
  rcases bind_error h with h | ⟨_, _, h⟩
  · rw [hload] at h
    cases h
  rcases bind_error h with h | ⟨block, _, h⟩
  · exact ofParsing_error h
  rcases bind_error h with h | ⟨blackList, _, h⟩
  · exact ofParsing_error h
  rcases bind_error h with h | ⟨whiteList, _, h⟩
  · exact ofParsing_error h
  · cases h

/-- ss-local's lists, for a printed list in the mode of the custom route. -/
structure Reads (R : RustNet) (C : RegexCrate) (I : IpRange) (acl : Acl N)
    (control : AccessControl) :
    Prop where
  mode : control.mode = .whiteList
  blackList : ∀ host, '\n' ∉ host →
    (control.blackList.checkHostMatched host = true ↔
      Named R C acl.bypassHostnames.items (trimEndDots host))
  whiteList : ∀ host, '\n' ∉ host →
    (control.whiteList.checkHostMatched host = true ↔
      Named R C acl.proxyHostnames.items (trimEndDots host))
  address : ∀ ip,
    control.whiteList.checkIpMatched I ip = true ↔ ∃ s ∈ acl.subnets.items, Covers s ip
  noAddress : control.whiteList.isIpEmpty I = true ↔ acl.subnets.items = []

theorem Printable.reads (hN : N.Documented) (hI : I.Documented) (hR : R.Agrees acl)
    (h : acl.Printable) (hmode : acl.bypass = true) (hnext : acl.NoNextLine)
    {control : AccessControl}
    (hcontrol : AccessControl.loadFromFile R C acl.toString = .ok control) :
    acl.Reads R C I control := by
  obtain ⟨bypass, proxy, last, hbypass, hproxy, hload⟩ := foldlM_printed (R := R) hN h hnext
  obtain ⟨hwhiteMode, hblack, hwhite⟩ := loadFromFile_ok hload hcontrol
  have hlists : acl.bypassList = ([] : List Subnet).map (Subnet.toString N) ++
      acl.bypassHostnames.items ∧
      acl.proxyList = acl.subnets.items.map (Subnet.toString N) ++ acl.proxyHostnames.items := by
    unfold bypassList proxyList
    rw [if_pos hmode, if_pos hmode]
    exact ⟨rfl, rfl⟩
  rw [hlists.1] at hbypass
  rw [hlists.2] at hproxy
  have hempty : ({} : Loading).proxy.Families := ⟨fun s hs => absurd hs List.not_mem_nil,
    fun s hs => absurd hs List.not_mem_nil⟩
  -- the networks of the proxy list
  obtain ⟨hfamilies, hnets⟩ := foldlM_nets hempty hproxy
  have hsubnets (s : Subnet) : s ∈ proxy.ipv4 ++ proxy.ipv6 ↔ s ∈ acl.subnets.items := by
    rw [hnets, netOf_items hN h.subnet hR.subnet hR.hostname]
    exact or_iff_right List.not_mem_nil
  refine ⟨?_, ?_, ?_, ?_, ?_⟩
  · rw [hwhiteMode, hmode]
    rfl
  · intro host hline
    rw [Rules.checkHostMatched_iff hblack,
      ParsingRules.foldlM_addRule (newline_not_mem_trimEndDots hline) hbypass,
      or_iff_right (ParsingRules.not_matched_new C _ _),
      ruleMeans_items hN (List.forall_mem_nil _) (List.forall_mem_nil _)]
    rfl
  · intro host hline
    rw [Rules.checkHostMatched_iff hwhite,
      ParsingRules.foldlM_addRule (newline_not_mem_trimEndDots hline) hproxy,
      or_iff_right (ParsingRules.not_matched_new C _ _), ruleMeans_items hN h.subnet hR.subnet]
    rfl
  · intro ip
    rw [checkIpMatched_iff hI hfamilies hwhite]
    simp only [hsubnets]
  · rw [isIpEmpty_iff hI hwhite, List.eq_nil_iff_forall_not_mem, List.eq_nil_iff_forall_not_mem]
    simp only [hsubnets]

section Decision

variable {control : AccessControl} (h : acl.Reads R C I control)

include h

theorem Reads.checkIpInProxyList (ip : InetAddress) :
    control.checkIpInProxyList I ip = false ↔ acl.BypassesAddress ip := by
  unfold AccessControl.checkIpInProxyList BypassesAddress
  rw [h.mode, ← h.address, Bool.not_eq_true]

theorem Reads.checkAddress (idna : Text → Option Text) (ip : InetAddress) :
    control.checkTargetBypassed I idna (.address ip) = true ↔ acl.BypassesAddress ip := by
  rw [← h.checkIpInProxyList]
  show (!control.checkIpInProxyList I ip) = true ↔ _
  rw [Bool.not_eq_true']

theorem Reads.checkHost (idna : Text → Option Text) (host : Text)
    (resolved : Option (List InetAddress)) (hline : '\n' ∉ (idna host).getD host) :
    control.checkTargetBypassed I idna (.domain host resolved) = true ↔
      acl.BypassesHost R C (trimEndDots ((idna host).getD host)) resolved := by
  have hany : ((resolved.getD []).any fun ip => !control.checkIpInProxyList I ip) = true ↔
      ∃ ip ∈ resolved.getD [], acl.BypassesAddress ip := by
    rw [List.any_eq_true]
    refine exists_congr fun ip => and_congr_right fun _ => ?_
    rw [Bool.not_eq_true', h.checkIpInProxyList]
  have hnet : control.isIpEmpty I = true ↔ acl.subnets.items = [] := by
    unfold AccessControl.isIpEmpty
    rw [h.mode, ← h.noAddress]
  have hdefault : control.isDefaultInProxyList = false := by
    unfold AccessControl.isDefaultInProxyList
    rw [h.mode]
  unfold AccessControl.checkTargetBypassed AccessControl.checkHostInProxyList
    AccessControl.checkAsciiHostInProxyList BypassesHost
  rw [← h.whiteList _ hline, ← h.blackList _ hline, ← hany, ← hnet]
  cases hwhite : control.whiteList.checkHostMatched ((idna host).getD host) with
  | true => simp [hwhite]
  | false =>
      cases hblack : control.blackList.checkHostMatched ((idna host).getD host) with
      | true => simp [hwhite, hblack]
      | false =>
          cases hempty : control.isIpEmpty I with
          | true => simp [hwhite, hblack, hdefault]
          | false => simp [hwhite, hblack]

end Decision

/-- ss-local reads the list that the service saves for the custom route, if the two parsers agree on
its texts and no rule has the character U+0085: it only fails on a regular expression, and what it
sends past the proxy is what the list says. -/
theorem customRules_handoff (hN : N.Documented) (hI : I.Documented) (S : Implementation)
    (connect : N.Url → Option Text) (file : Option Text) (acl : Acl N)
    (hsave : saveCustomRules S connect file = .ok acl) (hR : R.Agrees acl) (hnext : acl.NoNextLine)
    (C : RegexCrate) :
    (∀ e, AccessControl.loadFromFile R C acl.toString = .error e → ∃ name, e = .regex name) ∧
    ∀ control, AccessControl.loadFromFile R C acl.toString = .ok control →
      ∀ idna : Text → Option Text,
      (∀ ip, control.checkTargetBypassed I idna (.address ip) = true ↔ acl.BypassesAddress ip) ∧
      ∀ host resolved, '\n' ∉ (idna host).getD host →
        (control.checkTargetBypassed I idna (.domain host resolved) = true ↔
          acl.BypassesHost R C (trimEndDots ((idna host).getD host)) resolved) := by
  obtain ⟨hprintable, hbypass⟩ := printable_saveCustomRules hsave
  obtain ⟨bypass, proxy, last, _, _, hload⟩ := foldlM_printed (R := R) hN hprintable hnext
  constructor
  · intro e he
    exact loadFromFile_error hload he
  · intro control hcontrol idna
    have hreads := hprintable.reads hN hI hR hbypass hnext hcontrol
    exact ⟨hreads.checkAddress idna, hreads.checkHost idna⟩

/-- The networks that `plainNet` knows. -/
def plainRustNet : RustNet := ⟨Subnet.fromString plainNet, fun _ => none⟩

theorem readNet_plainRustNet (t : Text) :
    readNet plainRustNet t = Subnet.fromString plainNet t := by
  have hnone : plainRustNet.ipAddr t = none := rfl
  have hnet : plainRustNet.ipNet t = Subnet.fromString plainNet t := rfl
  unfold readNet
  rw [hnone, hnet]
  cases Subnet.fromString plainNet t <;> rfl

/-- A range that looks at its networks one by one. -/
def plainRange : IpRange where
  contains range address :=
    range.any fun s => decide (Subnet.SamePrefix s.prefixSize s.address.bytes address)
  isEmpty range := range.isEmpty

theorem plainRange_documented : plainRange.Documented where
  contains_iff range address _ := by
    show (range.any _) = true ↔ _
    simp only [List.any_eq_true, decide_eq_true_eq]
  isEmpty_iff range := List.isEmpty_iff

/-- A subnet and a domain to send through the proxy. -/
def customText : Text := "1.0.0.0/8\n||a.b\n".toList

/-- The list that is saved of it. -/
def customList : Acl plainNet where
  bypass := true
  subnets := androidx.addAll subnetSorter (.empty _) [⟨⟨[1, 0, 0, 0], Or.inl rfl⟩, 8, by decide⟩]
  proxyHostnames := androidx.addAll stringSorter (.empty _) ["||a.b".toList]

theorem save_customText :
    saveCustomRules androidx (fun _ => none) (some customText) = .ok customList := by
  have haccepts : Accepts plainNet customText := by decide +kernel
  have hread : userRules androidx (some customText) = _ :=
    (fromReader_eq androidx customText true).1 haccepts
  have hmode : modeOf customText true = true := by decide +kernel
  have hrules : rulesOf plainNet customText true =
      [(.proxy, .subnet ⟨⟨[1, 0, 0, 0], Or.inl rfl⟩, 8, by decide⟩),
    (.proxy, .hostname "||a.b".toList)] := by decide +kernel
  have himports : importUrls plainNet customText = [] := by decide +kernel
  unfold saveCustomRules customRules
  rw [hread, hmode, hrules, himports]
  rfl

theorem plainRustNet_agrees : plainRustNet.Agrees customList where
  subnet s hs := by
    have hitems : customList.subnets.items = [⟨⟨[1, 0, 0, 0], Or.inl rfl⟩, 8, by decide⟩] := by
      decide +kernel
    rw [hitems] at hs
    rw [List.mem_singleton.mp hs, readNet_plainRustNet]
    decide +kernel
  hostname t ht := by
    have hitems : customList.proxyHostnames.items = ["||a.b".toList] := by decide +kernel
    rw [hitems] at ht
    rw [List.mem_singleton.mp ht, readNet_plainRustNet]
    decide +kernel

theorem customRules_handoff_sample :
    saveCustomRules androidx (fun _ => none) (some customText) = .ok customList ∧ ∃ control,
    AccessControl.loadFromFile plainRustNet noRegex customList.toString = .ok control ∧
    control.checkTargetBypassed plainRange some (.domain "x.a.b.".toList none) = false ∧
    control.checkTargetBypassed plainRange some (.address ⟨[8, 8, 8, 8], Or.inl rfl⟩) = true := by
  have hnext : customList.NoNextLine := by
    unfold NoNextLine
    decide +kernel
  have hload : (AccessControl.loadFromFile plainRustNet noRegex customList.toString).toBool =
      true := by decide +kernel
  obtain ⟨control, hcontrol⟩ : ∃ control,
      AccessControl.loadFromFile plainRustNet noRegex customList.toString = .ok control := by
    cases hcontrol : AccessControl.loadFromFile plainRustNet noRegex customList.toString with
    | ok control => exact ⟨control, rfl⟩
    | error e =>
        rw [hcontrol] at hload
        cases hload
  obtain ⟨haddress, hhost⟩ :=
    (customRules_handoff plainNet_documented plainRange_documented androidx
    _ _ _ save_customText plainRustNet_agrees hnext noRegex).2 control hcontrol some
  have hrule : "||a.b".toList ∈ customList.proxyHostnames.items := by decide +kernel
  have hmeans : RuleMeans plainRustNet noRegex "||a.b".toList (trimEndDots "x.a.b.".toList) := by
    unfold RuleMeans
    rw [if_pos (by decide)]
    exact Or.inr ⟨['x'], by decide⟩
  refine ⟨save_customText, control, hcontrol, ?_, ?_⟩
  · rw [← Bool.not_eq_true, hhost _ _ (by decide)]
    intro hbypass
    exact hbypass.1 ⟨_, hrule, by decide, hmeans⟩
  · rw [haddress]
    have hitems : customList.subnets.items = [⟨⟨[1, 0, 0, 0], Or.inl rfl⟩, 8, by decide⟩] := by
      decide +kernel
    unfold BypassesAddress
    rw [hitems]
    simp only [List.mem_singleton, exists_eq_left]
    unfold Covers
    decide +kernel

end Acl

end CypherConnect
