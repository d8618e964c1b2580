/-
  `acl/mod.rs`: the access control list that ss-local reads, and what it decides.

  Host names are matched by a set of names, a tree of domains and a set of regular expressions. A
  regular expression of a common shape is not compiled: it becomes a name of the set or a domain of
  the tree (`TREE_SET_RULE_EQUIV`).

  * `RustNet`, `RegexCrate`, `IpRange` are what the crates `ipnet`, `std::net`, `regex` and
    `iprange` do.
  * `host_rules_meaning`: the host names that a list of rules matches, rule by rule. What a shape
    becomes matches what the expression matches, and where the expression asks for a label before
    the domain also the domain itself.
-/
import CypherConnect.Lib.Regex
import CypherConnect.SsLocal.SubDomainsTree
import CypherConnect.Acl.Subnet

namespace CypherConnect.SsLocal

open Regex SubDomainsTree

/-! ## What the crates do -/

structure RustNet where
  /-- `str::parse::<IpNet>` -/
  ipNet : Text → Option Subnet
  /-- `str::parse::<IpAddr>` -/
  ipAddr : Text → Option InetAddress

structure RegexCrate where
  /-- One expression of a `RegexSet`, with `unicode(false)`. -/
  compile : Text → Option (Text → Bool)

/-- `IpRange` of the crate `iprange`. A range is the list of the networks that were added to it;
addresses are bytes. -/
structure IpRange where
  contains : List Subnet → List UInt8 → Bool
  isEmpty : List Subnet → Bool

/-- `trim_end_matches('.')`. -/
def trimEndDots (t : Text) : Text := t.rdropWhile (· == '.')

/-- `str::is_ascii`. -/
def isAscii (t : Text) : Bool := t.all fun c => c.toNat < 128

/-- `char::is_whitespace`. -/
def isRustWhitespace (c : Char) : Bool :=
  let n := c.toNat
  (0x09 ≤ n && n ≤ 0x0D) || n == 0x20 || n == 0x85 || n == 0xA0 || n == 0x1680 ||
    (0x2000 ≤ n && n ≤ 0x200A) ||
    n == 0x2028 || n == 0x2029 || n == 0x202F || n == 0x205F || n == 0x3000

/-- `str::trim`. -/
def rustTrim (t : Text) : Text := Scan.trim isRustWhitespace t

/-! ## Shapes of regular expressions -/

/-- The shapes that `TREE_SET_RULE_EQUIV` knows. -/
inductive Shape where
  /-- `(^|\.)name$` and `(?:^|\.)name$` -/
  | caretOrDot
  /-- `\.name$` -/
  | dot
  /-- `^.+\.name$` -/
  | plusDot
  /-- `^.*\.name$` -/
  | starDot
  /-- `^name$` -/
  | caret
  deriving DecidableEq, Repr

/-- The texts before the name, in the order of the alternatives. -/
def shapePrefixes : List (Text × Shape) :=
  [("(^|\\.)".toList, .caretOrDot), ("(?:^|\\.)".toList, .caretOrDot), ("^.+\\.".toList, .plusDot),
    ("^.*\\.".toList, .starDot), ("\\.".toList, .dot), ("^".toList, .caret)]

/-- `[\w-]` without Unicode. -/
def isNameChar (c : Char) : Bool := c.isAlphanum || c == '_' || c == '-'

/-- `(?:[\w-]+(?:\\\.)?)+` with `\.` put as `.`; a dot is allowed behind a name character. -/
def scanName : Bool → Text → Option Text
  | _, [] => some []
  | dotAllowed, '\\' :: '.' :: rest =>
      if dotAllowed then (scanName false rest).map ('.' :: ·) else none
  | _, c :: rest => if isNameChar c then (scanName true rest).map (c :: ·) else none

/-- A name as the expression captures it. -/
def name? (t : Text) : Option Text := if t = [] then none else scanName false t

/-- `TREE_SET_RULE_EQUIV` on a rule: the shape, and the name with `\.` put as `.`. -/
def treeSetRuleEquiv (rule : Text) : Option (Shape × Text) :=
  if rule.getLast? = some '$' then
    shapePrefixes.findSome? fun (pre, shape) =>
      if pre <+: rule.dropLast then (name? (rule.dropLast.drop pre.length)).map (shape, ·) else none
  else none

/-! ## The rules of a list -/

structure ParsingRules where
  name : Text
  ipv4 : List Subnet := []
  ipv6 : List Subnet := []
  rulesRegex : List Text := []
  rulesSet : List Text := []
  rulesTree : SubDomainsTree := .new

/-- The errors of `load_from_file` behind the opening of the file. -/
inductive LoadError where
  | unicode (message : Text)
  | regex (name : Text)
  deriving DecidableEq, Repr

namespace ParsingRules

variable (this : ParsingRules)

def checkIsAscii (str : Text) : Except LoadError Text :=
  if isAscii str then .ok (trimEndDots str)
  else .error (.unicode
    (this.name ++ " parsing error: Unicode not allowed here `".toList ++ str ++ "`".toList))

def addTreeRule (rule : Text) : Except LoadError ParsingRules := do
  let rule ← this.checkIsAscii rule
  .ok { this with rulesTree := this.rulesTree.insert rule }

def addSetRule (rule : Text) : Except LoadError ParsingRules := do
  let rule ← this.checkIsAscii rule
  .ok { this with rulesSet := toAsciiLowercase rule :: this.rulesSet }

/-- The end of `add_regex_rule`. -/
def pushRegex (rule : Text) : ParsingRules :=
  { this with rulesRegex := this.rulesRegex ++ [toAsciiLowercase rule] }

def addRegexRule (rule : Text) : ParsingRules :=
  match treeSetRuleEquiv rule with
  | none => this.pushRegex rule
  | some (.caret, name) =>
      match this.addSetRule name with
      | .ok rules => rules
      | .error _ => this.pushRegex rule
  | some (_, name) =>
      match this.addTreeRule name with
      | .ok rules => rules
      | .error _ => this.pushRegex rule

/-- `add_ipv4_rule` and `add_ipv6_rule`; an address is a network of its own. -/
def addIpRule (net : Subnet) : ParsingRules :=
  if net.address.bytes.length = 4 then { this with ipv4 := this.ipv4 ++ [net] }
  else { this with ipv6 := this.ipv6 ++ [net] }

end ParsingRules

theorem addressLength_le (address : InetAddress) :
    Subnet.addressLength address ≤ 8 * address.bytes.length :=
  Nat.le_refl _

/-- The network of an address alone. -/
def hostNet (address : InetAddress) : Subnet :=
  ⟨address, Subnet.addressLength address, addressLength_le address⟩

/-- `IpNet`, or a pure `IpAddr`. -/
def readNet (R : RustNet) (line : Text) : Option Subnet :=
  match R.ipNet line with
  | some net => some net
  | none => (R.ipAddr line).map hostNet

structure Rules where
  ipv4 : List Subnet
  ipv6 : List Subnet
  ruleRegex : List (Text → Bool)
  ruleSet : List Text
  ruleTree : SubDomainsTree

/-- `to_ipv6_mapped`. -/
def toIpv6Mapped (v4 : List UInt8) : List UInt8 := List.replicate 10 0 ++ [0xFF, 0xFF] ++ v4

/-- `to_ipv4_mapped`. -/
def toIpv4Mapped (v6 : List UInt8) : Option (List UInt8) :=
  if v6.take 12 = List.replicate 10 0 ++ [0xFF, 0xFF] then some (v6.drop 12) else none

namespace Rules

/-- `compile_regex` and `into_rules`. The regular expressions are compiled together. -/
def ofParsing (C : RegexCrate) (rules : ParsingRules) : Except LoadError Rules :=
  match rules.rulesRegex.mapM C.compile with
  | none => .error (.regex rules.name)
  | some ruleRegex => .ok ⟨rules.ipv4, rules.ipv6, ruleRegex, rules.rulesSet, rules.rulesTree⟩

def checkIpMatched (I : IpRange) (this : Rules) (addr : InetAddress) : Bool :=
  if addr.bytes.length = 4 then
    I.contains this.ipv4 addr.bytes || I.contains this.ipv6 (toIpv6Mapped addr.bytes)
  else
    I.contains this.ipv6 addr.bytes ||
      match toIpv4Mapped addr.bytes with
      | some v4 => I.contains this.ipv4 v4
      | none => false

def checkHostMatched (this : Rules) (host : Text) : Bool :=
  let host := trimEndDots host
  this.ruleSet.contains host || this.ruleTree.contains host || this.ruleRegex.any (· host)

def isIpEmpty (I : IpRange) (this : Rules) : Bool := I.isEmpty this.ipv4 && I.isEmpty this.ipv6

end Rules

/-! ## The file -/

inductive Mode where
  | blackList
  | whiteList
  deriving DecidableEq, Repr

inductive Section where
  | outboundBlock
  | bypass
  | proxy
  deriving DecidableEq, Repr

structure AccessControl where
  outboundBlock : Rules
  blackList : Rules
  whiteList : Rules
  mode : Mode

/-- The locals of `load_from_file`. -/
structure Loading where
  mode : Mode := .blackList
  outboundBlock : ParsingRules := { name := "[outbound_block_list]".toList }
  bypass : ParsingRules := { name := "[black_list] or [bypass_list]".toList }
  proxy : ParsingRules := { name := "[white_list] or [proxy_list]".toList }
  curr : Section := .bypass

/-- What a line in brackets switches. -/
inductive Switch where
  | mode (mode : Mode)
  | list (curr : Section)
  deriving DecidableEq, Repr

/-- The arms of the `match` on a line. -/
def Switch.ofLine (line : Text) : Option Switch :=
  if line = "[reject_all]".toList ∨ line = "[bypass_all]".toList then some (.mode .whiteList)
  else if line = "[accept_all]".toList ∨ line = "[proxy_all]".toList then some (.mode .blackList)
  else if line = "[outbound_block_list]".toList then some (.list .outboundBlock)
  else if line = "[black_list]".toList ∨ line = "[bypass_list]".toList then some (.list .bypass)
  else if line = "[white_list]".toList ∨ line = "[proxy_list]".toList then some (.list .proxy)
  else none

/-- A line that is a rule: a domain, a name, a network or a regular expression. -/
def ParsingRules.addRule (R : RustNet) (this : ParsingRules) (line : Text) :
    Except LoadError ParsingRules :=
  if "||".toList <+: line then this.addTreeRule (line.drop 2)
  else if "|".toList <+: line then this.addSetRule (line.drop 1)
  else
    match readNet R line with
    | some net => .ok (this.addIpRule net)
    | none => .ok (this.addRegexRule line)

namespace Loading

def current (this : Loading) : ParsingRules :=
  match this.curr with
  | .outboundBlock => this.outboundBlock
  | .bypass => this.bypass
  | .proxy => this.proxy

def setCurrent (this : Loading) (rules : ParsingRules) : Loading :=
  match this.curr with
  | .outboundBlock => { this with outboundBlock := rules }
  | .bypass => { this with bypass := rules }
  | .proxy => { this with proxy := rules }

/-- The body of the loop of `load_from_file`. No line in brackets begins with `|`. -/
def loadLine (R : RustNet) (this : Loading) (line : Text) : Except LoadError Loading :=
  if line = [] ∨ line.head? = some '#' then .ok this
  else if !isAscii (rustTrim line) then .ok this
  else
    match Switch.ofLine (rustTrim line) with
    | some (.mode mode) => .ok { this with mode }
    | some (.list curr) => .ok { this with curr }
    | none => do
        let rules ← this.current.addRule R (rustTrim line)
        .ok (this.setCurrent rules)

end Loading

/-- `BufRead::lines`: a line ends in `\n` or `\r\n`. -/
def rustLinesFrom : Text → Text → List Text
  | run, [] => if run = [] then [] else [run]
  | run, '\n' :: rest =>
      (if run.getLast? = some '\r' then run.dropLast else run) :: rustLinesFrom [] rest
  | run, c :: rest => rustLinesFrom (run ++ [c]) rest

def rustLines (text : Text) : List Text := rustLinesFrom [] text

namespace AccessControl

/-- `load_from_file` on the text of the file. -/
def loadFromFile (R : RustNet) (C : RegexCrate) (text : Text) : Except LoadError AccessControl := do
  let loading ← (rustLines text).foldlM (Loading.loadLine R) {}
  let outboundBlock ← Rules.ofParsing C loading.outboundBlock
  let blackList ← Rules.ofParsing C loading.bypass
  let whiteList ← Rules.ofParsing C loading.proxy
  .ok ⟨outboundBlock, blackList, whiteList, loading.mode⟩

variable (I : IpRange) (this : AccessControl)

def checkAsciiHostInProxyList (host : Text) : Option Bool :=
  if this.whiteList.checkHostMatched host then some true
  else if this.blackList.checkHostMatched host then some false
  else none

def isIpEmpty : Bool :=
  match this.mode with
  | .blackList => this.blackList.isIpEmpty I
  | .whiteList => this.whiteList.isIpEmpty I

def checkIpInProxyList (ip : InetAddress) : Bool :=
  match this.mode with
  | .blackList => !this.blackList.checkIpMatched I ip
  | .whiteList => this.whiteList.checkIpMatched I ip

def isDefaultInProxyList : Bool :=
  match this.mode with
  | .blackList => true
  | .whiteList => false

/-- `check_host_in_proxy_list`; `idna` is `domain_to_ascii`, and a name that it refuses is taken as
it is. -/
def checkHostInProxyList (idna : Text → Option Text) (host : Text) : Option Bool :=
  this.checkAsciiHostInProxyList ((idna host).getD host)

/-- A target: an address, or a name with what `dns_resolve` says of it. -/
inductive Target where
  | address (ip : InetAddress)
  | domain (host : Text) (resolved : Option (List InetAddress))

def checkTargetBypassed (idna : Text → Option Text) : Target → Bool
  | .address ip => !this.checkIpInProxyList I ip
  | .domain host resolved =>
      match this.checkHostInProxyList idna host with
      | some value => !value
      | none =>
          if this.isIpEmpty I then !this.isDefaultInProxyList
          else (resolved.getD []).any fun ip => !this.checkIpInProxyList I ip

end AccessControl

/-! ## What the shapes stand for -/

namespace Shape

/-- `.` -/
def anyChar : Pattern Char := .set (· != '\n')

/-- The regular expression, with the name as a word. -/
def pattern (name : Text) : Shape → Pattern Char
  | caretOrDot => .cat (.alt .start (chr '.')) (.cat (lit name) .stop)
  | dot => .cat (chr '.') (.cat (lit name) .stop)
  | plusDot => .cat .start (.cat (plus anyChar) (.cat (chr '.') (.cat (lit name) .stop)))
  | starDot => .cat .start (.cat (.star anyChar) (.cat (chr '.') (.cat (lit name) .stop)))
  | caret => .cat .start (.cat (lit name) .stop)

/-- What the tree matches and the expression does not. -/
def Gains (name host : Text) : Shape → Prop
  | caretOrDot => False
  | dot => host = name
  | plusDot => host = name ∨ host = '.' :: name
  | starDot => host = name
  | caret => False

variable {name host : Text}

/-- A dot and the name at the end. -/
theorem matches_dot_name_iff {before m after : Text} :
    Matches (.cat (chr '.') (.cat (lit name) .stop)) before m after ↔
      m = '.' :: name ∧ after = [] := by
  rw [matches_cat_iff]
  simp only [matches_chr_iff, matches_lit_stop_iff]
  constructor
  · rintro ⟨a, b, rfl, rfl, rfl, rfl⟩
    exact ⟨rfl, rfl⟩
  · rintro ⟨rfl, rfl⟩
    exact ⟨['.'], name, rfl, rfl, rfl, rfl⟩

theorem isMatch_dot_iff : IsMatch (dot.pattern name) host ↔ '.' :: name <:+ host := by
  unfold IsMatch pattern
  simp only [matches_dot_name_iff]
  constructor
  · rintro ⟨before, m, after, rfl, rfl, rfl⟩
    exact ⟨before, by simp⟩
  · rintro ⟨before, rfl⟩
    exact ⟨before, _, [], by simp, rfl, rfl⟩

theorem isMatch_caret_iff : IsMatch (caret.pattern name) host ↔ host = name := by
  unfold IsMatch pattern
  simp only [matches_cat_iff (r := .start), matches_start_iff, matches_lit_stop_iff]
  constructor
  · rintro ⟨before, m, after, rfl, a, b, rfl, ⟨rfl, rfl⟩, rfl, rfl⟩
    simp
  · rintro rfl
    exact ⟨[], host, [], by simp, [], host, rfl, ⟨rfl, rfl⟩, rfl, rfl⟩

theorem isMatch_caretOrDot_iff : IsMatch (caretOrDot.pattern name) host ↔ IsWithin name host := by
  unfold IsMatch pattern IsWithin
  simp only [matches_cat_iff (r := .alt _ _), matches_alt_iff, matches_start_iff, matches_chr_iff,
    matches_lit_stop_iff]
  constructor
  · rintro ⟨before, m, after, rfl, a, b, rfl, ⟨rfl, rfl⟩ | rfl, rfl, rfl⟩
    · exact .inl (by simp)
    · exact .inr ⟨before, by simp⟩
  · rintro (rfl | ⟨before, rfl⟩)
    · exact ⟨[], host, [], by simp, [], host, rfl, .inl ⟨rfl, rfl⟩, rfl, rfl⟩
    · exact ⟨before, '.' :: name, [], by simp, ['.'], name, rfl, .inr rfl, rfl, rfl⟩

theorem isMatch_starDot_iff (hline : '\n' ∉ host) :
    IsMatch (starDot.pattern name) host ↔ '.' :: name <:+ host := by
  unfold IsMatch pattern anyChar
  simp only [matches_cat_iff (r := .start), matches_cat_iff (r := .star _), matches_start_iff,
    matches_star_set_iff, matches_dot_name_iff]
  constructor
  · rintro ⟨before, m, after, rfl, a, b, rfl, ⟨rfl, rfl⟩, c, d, rfl, -, rfl, rfl⟩
    exact ⟨c, by simp⟩
  · rintro ⟨c, rfl⟩
    have hany : ∀ x ∈ c, (x != '\n') = true := by
      intro x hx
      rw [bne_iff_ne]
      rintro rfl
      exact hline (List.mem_append_left _ hx)
    exact ⟨[], c ++ '.' :: name, [], by simp, [], _, rfl, ⟨rfl, rfl⟩, c, _, rfl, hany, rfl, rfl⟩

theorem isMatch_plusDot_iff (hline : '\n' ∉ host) :
    IsMatch (plusDot.pattern name) host ↔ '.' :: name <:+ host ∧ host ≠ '.' :: name := by
  unfold IsMatch pattern anyChar
  simp only [matches_cat_iff (r := .start), matches_cat_iff (r := plus _), matches_start_iff,
    matches_plus_set_iff, matches_dot_name_iff]
  constructor
  · rintro ⟨before, m, after, rfl, a, b, rfl, ⟨rfl, rfl⟩, c, d, rfl, ⟨hne, -⟩, rfl, rfl⟩
    refine ⟨⟨c, by simp⟩, ?_⟩
    intro heq
    have hlen := congrArg List.length heq
    simp only [List.append_nil, List.nil_append, List.length_append] at hlen
    exact hne (List.eq_nil_of_length_eq_zero (by omega))
  · rintro ⟨⟨c, rfl⟩, hne⟩
    have hany : ∀ x ∈ c, (x != '\n') = true := by
      intro x hx
      rw [bne_iff_ne]
      rintro rfl
      exact hline (List.mem_append_left _ hx)
    have hc : c ≠ [] := fun h => hne (by rw [h, List.nil_append])
    exact ⟨[], c ++ '.' :: name, [],
      by simp, [], _, rfl, ⟨rfl, rfl⟩, c, _, rfl, ⟨hc, hany⟩, rfl, rfl⟩

/-- A domain of the tree, against the expression it stands for. -/
theorem isWithin_iff {shape : Shape} (hshape : shape ≠ caret) (hline : '\n' ∉ host) :
    IsWithin name host ↔ IsMatch (shape.pattern name) host ∨ shape.Gains name host := by
  unfold IsWithin
  cases shape with
  | caretOrDot => rw [isMatch_caretOrDot_iff, IsWithin, Gains, or_false]
  | dot => rw [isMatch_dot_iff, Gains, or_comm]
  | starDot => rw [isMatch_starDot_iff hline, Gains, or_comm]
  | plusDot =>
      rw [isMatch_plusDot_iff hline, Gains]
      by_cases hbare : host = '.' :: name
      · simp [hbare]
      · simp [hbare, or_comm]
  | caret => exact absurd rfl hshape

end Shape

/-! ## What a list of rules matches -/

/-- The host names a rule is for. Of a name the dots at the end do not count, as they do not of a
host. -/
def RuleMeans (R : RustNet) (C : RegexCrate) (line host : Text) : Prop :=
  if "||".toList <+: line then IsWithin (toAsciiLowercase (trimEndDots (line.drop 2))) host
  else if "|".toList <+: line then host = toAsciiLowercase (trimEndDots (line.drop 1))
  else if readNet R line ≠ none then False
  else
    match treeSetRuleEquiv line with
    | some (shape, name) =>
        IsMatch (shape.pattern (toAsciiLowercase (trimEndDots name))) host ∨
          shape.Gains (toAsciiLowercase (trimEndDots name)) host
    | none => ∃ f, C.compile (toAsciiLowercase line) = some f ∧ f host = true

namespace ParsingRules

variable {R : RustNet} {C : RegexCrate} {this rules : ParsingRules} {host line rule : Text}

/-- The host names that rules will match once they are compiled. -/
def Matched (C : RegexCrate) (this : ParsingRules) (host : Text) : Prop :=
  host ∈ this.rulesSet ∨ this.rulesTree.contains host = true ∨
    ∃ rule ∈ this.rulesRegex, ∃ f, C.compile rule = some f ∧ f host = true

theorem addTreeRule_ok (h : this.addTreeRule rule = .ok rules) :
    rules.Matched C host ↔
      this.Matched C host ∨ IsWithin (toAsciiLowercase (trimEndDots rule)) host := by
  unfold addTreeRule checkIsAscii at h
  split at h
  case isFalse => cases h
  case isTrue =>
    cases h
    simp only [Matched, contains_insert]
    rw [or_right_comm, ← or_assoc]

theorem addSetRule_ok (h : this.addSetRule rule = .ok rules) :
    rules.Matched C host ↔ this.Matched C host ∨ host = toAsciiLowercase (trimEndDots rule) := by
  unfold addSetRule checkIsAscii at h
  split at h
  case isFalse => cases h
  case isTrue =>
    cases h
    simp only [Matched, List.mem_cons]
    rw [or_comm (a := host = _), or_right_comm]

theorem matched_pushRegex : (this.pushRegex rule).Matched C host ↔
    this.Matched C host ∨ ∃ f, C.compile (toAsciiLowercase rule) = some f ∧ f host = true := by
  simp only [Matched, pushRegex, List.mem_append, List.mem_singleton, or_and_right, exists_or,
    exists_eq_left]
  rw [or_assoc, or_assoc]

theorem isNameChar_lt {c : Char} (h : isNameChar c = true) : c.toNat < 128 := by
  have hle {bound : Char} (hle : c.val ≤ bound.val) (hbound : bound.val < 128) : c.toNat < 128 :=
    lt_of_le_of_lt hle hbound
  have hupper (h : decide (c.val ≥ 'A'.val ∧ c.val ≤ 'Z'.val) = true) : c.toNat < 128 :=
    hle (of_decide_eq_true h).2 (by decide)
  have hlower (h : (decide (c.val ≥ 'a'.val) && decide (c.val ≤ 'z'.val)) = true) : c.toNat < 128 :=
    hle (of_decide_eq_true ((Bool.and_eq_true_iff.mp h).2)) (by decide)
  have hdigit (h : (decide (c.val ≥ '0'.val) && decide (c.val ≤ '9'.val)) = true) : c.toNat < 128 :=
    hle (of_decide_eq_true ((Bool.and_eq_true_iff.mp h).2)) (by decide)
  have hcases : ((c.isUpper || c.isLower) || c.isDigit) || c == '_' || c == '-' := h
  simp only [Bool.or_eq_true, beq_iff_eq] at hcases
  rcases hcases with (((h | h) | h) | rfl) | rfl
  · exact hupper h
  · exact hlower h
  · exact hdigit h
  · decide
  · decide

theorem isAscii_scanName {dotAllowed : Bool} {t name : Text}
    (h : scanName dotAllowed t = some name) :
    isAscii name = true := by
  fun_induction scanName dotAllowed t generalizing name with
  | case1 =>
      cases h
      rfl
  | case2 rest ih =>
      obtain ⟨name, hname, rfl⟩ := Option.map_eq_some_iff.mp h
      have hrest := ih hname
      simp only [isAscii, List.all_cons] at hrest ⊢
      rw [hrest]
      rfl
  | case3 => cases h
  | case4 _ c rest _ hchar ih =>
      obtain ⟨name, hname, rfl⟩ := Option.map_eq_some_iff.mp h
      have hrest := ih hname
      have hc := isNameChar_lt hchar
      simp only [isAscii, List.all_cons] at hrest ⊢
      rw [hrest, decide_eq_true hc]
      rfl
  | case5 => cases h

theorem isAscii_of_treeSetRuleEquiv {shape : Shape} {name : Text}
    (h : treeSetRuleEquiv rule = some (shape, name)) :
    isAscii name = true := by
  unfold treeSetRuleEquiv at h
  split at h
  case isFalse => cases h
  case isTrue =>
    obtain ⟨⟨pre, shape'⟩, -, hfound⟩ := List.exists_of_findSome?_eq_some h
    dsimp only at hfound
    split at hfound
    case isFalse => cases hfound
    case isTrue =>
      obtain ⟨name', hname, hpair⟩ := Option.map_eq_some_iff.mp hfound
      obtain ⟨-, rfl⟩ := Prod.mk.inj hpair
      unfold name? at hname
      split at hname
      case isTrue => cases hname
      case isFalse => exact isAscii_scanName hname

/-- A regular expression, in a shape that is known or not. -/
theorem matched_addRegexRule (hline : '\n' ∉ host) : (this.addRegexRule rule).Matched C host ↔
    this.Matched C host ∨
      match treeSetRuleEquiv rule with
      | some (shape, name) =>
          IsMatch (shape.pattern (toAsciiLowercase (trimEndDots name))) host ∨
            shape.Gains (toAsciiLowercase (trimEndDots name)) host
      | none => ∃ f, C.compile (toAsciiLowercase rule) = some f ∧ f host = true := by
  cases hequiv : treeSetRuleEquiv rule with
  | none =>
      simp only [addRegexRule, hequiv]
      exact matched_pushRegex
  | some found =>
      obtain ⟨shape, name⟩ := found
      have hascii : this.checkIsAscii name = .ok (trimEndDots name) :=
        if_pos (isAscii_of_treeSetRuleEquiv hequiv)
      have htree : this.addTreeRule name =
          .ok { this with rulesTree := this.rulesTree.insert (trimEndDots name) } := by
        unfold addTreeRule
        rw [hascii]
        rfl
      have hset : this.addSetRule name =
          .ok { this with rulesSet := toAsciiLowercase (trimEndDots name) :: this.rulesSet } := by
        unfold addSetRule
        rw [hascii]
        rfl
      dsimp only
      by_cases hcaret : shape = .caret
      · subst hcaret
        simp only [addRegexRule, hequiv, hset]
        rw [addSetRule_ok hset, Shape.isMatch_caret_iff, Shape.Gains, or_false]
      · have hrules : this.addRegexRule rule =
            { this with rulesTree := this.rulesTree.insert (trimEndDots name) } := by
          unfold addRegexRule
          rw [hequiv]
          cases shape with
          | caret => exact absurd rfl hcaret
          | caretOrDot => simp only [htree]
          | dot => simp only [htree]
          | plusDot => simp only [htree]
          | starDot => simp only [htree]
        rw [hrules, addTreeRule_ok htree, Shape.isWithin_iff hcaret hline]

/-- A rule adds what it means. -/
theorem addRule_ok (hline : '\n' ∉ host) (h : this.addRule R line = .ok rules) :
    rules.Matched C host ↔ this.Matched C host ∨ RuleMeans R C line host := by
  unfold addRule at h
  unfold RuleMeans
  split at h
  case isTrue htree =>
    rw [if_pos htree]
    exact addTreeRule_ok h
  case isFalse htree =>
    rw [if_neg htree]
    split at h
    case isTrue hset =>
      rw [if_pos hset]
      exact addSetRule_ok h
    case isFalse hset =>
      rw [if_neg hset]
      cases hnet : readNet R line with
      | some net =>
          simp only [hnet] at h
          cases h
          rw [if_pos nofun, or_false]
          unfold addIpRule
          split <;> exact Iff.rfl
      | none =>
          simp only [hnet] at h
          cases h
          rw [if_neg (not_not.mpr rfl)]
          exact matched_addRegexRule hline

theorem foldlM_addRule {lines : List Text} (hline : '\n' ∉ host)
    (h : lines.foldlM (addRule R) this = .ok rules) :
    rules.Matched C host ↔ this.Matched C host ∨ ∃ line ∈ lines, RuleMeans R C line host := by
  induction lines generalizing this with
  | nil =>
      cases h
      simp
  | cons line lines ih =>
      rw [List.foldlM_cons] at h
      cases hline' : this.addRule R line with
      | error e =>
          rw [hline'] at h
          cases h
      | ok next =>
          rw [hline'] at h
          rw [ih h, addRule_ok hline hline', or_assoc]
          simp

end ParsingRules

theorem mapM_compile_iff {C : RegexCrate} {patterns : List Text} {compiled : List (Text → Bool)}
    (h : patterns.mapM C.compile = some compiled) (host : Text) :
    compiled.any (· host) = true ↔ ∃ rule ∈ patterns, ∃ f, C.compile rule = some f ∧
      f host = true := by
  induction patterns generalizing compiled with
  | nil =>
      cases h
      simp
  | cons rule patterns ih =>
      rw [List.mapM_cons] at h
      cases hrule : C.compile rule with
      | none =>
          rw [hrule] at h
          cases h
      | some f =>
          rw [hrule] at h
          cases hrest : patterns.mapM C.compile with
          | none =>
              rw [hrest] at h
              cases h
          | some rest =>
              rw [hrest] at h
              cases h
              rw [List.any_cons, Bool.or_eq_true, ih hrest]
              simp [hrule]

/-- Compiled rules match what the parsed ones will. -/
theorem Rules.checkHostMatched_iff {C : RegexCrate} {parsed : ParsingRules} {rules : Rules}
    (h : Rules.ofParsing C parsed = .ok rules) (host : Text) :
    rules.checkHostMatched host = true ↔ parsed.Matched C (trimEndDots host) := by
  unfold Rules.ofParsing at h
  split at h
  case h_1 => cases h
  case h_2 compiled hmap =>
    cases h
    unfold Rules.checkHostMatched ParsingRules.Matched
    rw [Bool.or_eq_true, Bool.or_eq_true, mapM_compile_iff hmap, or_assoc, List.contains_iff_mem]

theorem ParsingRules.not_matched_new (C : RegexCrate) (name host : Text) :
    ¬ ParsingRules.Matched C { name } host := by
  simp [ParsingRules.Matched, contains_new]

theorem newline_not_mem_trimEndDots {host : Text} (h : '\n' ∉ host) : '\n' ∉ trimEndDots host :=
  fun hmem => h ((List.rdropWhile_prefix _ _).subset hmem)

/-- The host names that the compiled rules of a list match are those that one of its rules means. -/
theorem host_rules_meaning (R : RustNet) (C : RegexCrate) (name : Text) (lines : List Text)
    (parsed : ParsingRules) (rules : Rules)
    (hload : lines.foldlM (ParsingRules.addRule R) { name } = .ok parsed)
    (hcompile : Rules.ofParsing C parsed = .ok rules) (host : Text) (hline : '\n' ∉ host) :
    rules.checkHostMatched host = true ↔ ∃ line ∈ lines, RuleMeans R C line (trimEndDots host) := by
  have hmatched := ParsingRules.foldlM_addRule (C := C) (newline_not_mem_trimEndDots hline) hload
  rw [or_iff_right (ParsingRules.not_matched_new C name _)] at hmatched
  rw [Rules.checkHostMatched_iff hcompile, hmatched]

/-- No text is a network, no expression compiles. -/
def noNets : RustNet := ⟨fun _ => none, fun _ => none⟩

def noRegex : RegexCrate := ⟨fun _ => none⟩

/-- The expression asks for a label before the domain; the rules match the domain itself. -/
theorem host_rules_meaning_bare : ∃ parsed rules,
    ["\\.a\\.b$".toList].foldlM (ParsingRules.addRule noNets) { name := [] } = .ok parsed ∧
    Rules.ofParsing noRegex parsed = .ok rules ∧ rules.checkHostMatched "a.b.".toList = true := by
  have hequiv : treeSetRuleEquiv "\\.a\\.b$".toList = some (.dot, "a.b".toList) := by decide
  have hmeans : RuleMeans noNets noRegex "\\.a\\.b$".toList (trimEndDots "a.b.".toList) := by
    unfold RuleMeans
    rw [if_neg (by decide), if_neg (by decide), if_neg (by decide), hequiv]
    right
    show trimEndDots "a.b.".toList = toAsciiLowercase (trimEndDots "a.b".toList)
    decide
  refine ⟨_, _, rfl, rfl, ?_⟩
  exact (host_rules_meaning noNets noRegex [] _ _ _ rfl rfl "a.b.".toList (by decide)).mpr
    ⟨_, List.mem_singleton_self _, hmeans⟩

end CypherConnect.SsLocal
