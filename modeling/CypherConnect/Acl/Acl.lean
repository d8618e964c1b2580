/-
  `acl/Acl.kt`: access control lists, their text and its parser.

  A text is read line by line. `#` starts a comment, which may hold an import line; a line in
  brackets sets the mode or the section, every other line is a rule of the section: a subnet or a
  host name.

  * `effectiveMode`, `effectiveRules`, `importUrls` say what a text states, without the parser's
    state.
  * `fromReader_eq`: the parser accepts exactly the texts in which every block and every URL is
    recognised, and what it builds is `assemble` of what the text states.
-/
import CypherConnect.Lib.Lines
import CypherConnect.Lib.Scan
import CypherConnect.Acl.Subnet

namespace CypherConnect

open Sorted Lines

/-- The exceptions of the parser and of `flatten`. -/
inductive AclFailure where
  /-- `error("Unrecognized block: $input")`. -/
  | unrecognizedBlock (input : Text)
  /-- `MalformedURLException`. -/
  | malformedUrl (url : Text)
  /-- `IOException` of a connection. -/
  | io
  deriving DecidableEq, Repr

/-- The lists a rule can be in. -/
inductive Side where
  | bypass
  | proxy
  deriving DecidableEq, Repr

structure Acl (N : JavaNet) where
  bypassHostnames : SortedList stringSorter := .empty _
  proxyHostnames : SortedList stringSorter := .empty _
  subnets : SortedList subnetSorter := .empty _
  urls : SortedList (urlSorter N) := .empty _
  bypass : Bool := false

namespace Acl

/-! ## The lines of a text -/

/-- `Char.isWhitespace`. -/
def isWhitespace (c : Char) : Bool :=
  let n := c.toNat
  (0x09 ≤ n && n ≤ 0x0D) || (0x1C ≤ n && n ≤ 0x20) || n == 0xA0 || n == 0x1680 ||
    (0x2000 ≤ n && n ≤ 0x200A) || n == 0x2028 || n == 0x2029 || n == 0x202F || n == 0x205F ||
      n == 0x3000

/-- `String.trim`. -/
def trim (t : Text) : Text := Scan.trim isWhitespace t

/-- `\s`. -/
def isRegexSpace (c : Char) : Bool :=
  [' ', '\t', '\n', Char.ofNat 0x0B, Char.ofNat 0x0C, '\r'].contains c

/-- `networkAclParser`, `^IMPORT_URL\s*<(.+)>\s*$`, on the whole of `t`: its group. -/
def networkAclParser (t : Text) : Option Text :=
  if "IMPORT_URL".toList.isPrefixOf t then
    match (t.drop 10).dropWhile isRegexSpace with
    | '<' :: r =>
        match r.reverse.dropWhile isRegexSpace with
        | '>' :: u => if u.isEmpty || u.any Profile.isLineTerminator then none else some u.reverse
        | _ => none
    | _ => none
  else none

/-- The URL text in the comment of a line. -/
def importUrl (line : Text) : Option Text := networkAclParser ((line.dropWhile (· != '#')).drop 1)

/-- A line without its comment. -/
def uncomment (line : Text) : Text := trim (line.takeWhile (· != '#'))

/-- What the texts in brackets mean. -/
inductive Block where
  | outboundBlockList
  | bypassList
  | proxyList
  | bypassAll
  | proxyAll
  deriving DecidableEq, Repr

def Block.ofText (input : Text) : Option Block :=
  if input = "[outbound_block_list]".toList then some .outboundBlockList
  else if input = "[black_list]".toList ∨ input = "[bypass_list]".toList then some .bypassList
  else if input = "[white_list]".toList ∨ input = "[proxy_list]".toList then some .proxyList
  else if input = "[reject_all]".toList ∨ input = "[bypass_all]".toList then some .bypassAll
  else if input = "[accept_all]".toList ∨ input = "[proxy_all]".toList then some .proxyAll
  else none

/-! ## The parser -/

section Parser

variable {N : JavaNet} {σ : Type}

/-- The functions `parse` is called with, on a state `σ` that they change. -/
structure Callbacks (N : JavaNet) (σ : Type) where
  bypassHostnames : σ → Text → σ
  proxyHostnames : σ → Text → σ
  urls : Option (σ → N.Url → σ)

/-- The locals of `parse`. `target` stands for `hostnames` and `subnets`, which are set together. -/
structure ParseState (σ : Type) where
  out : σ
  bypass : Bool
  target : Option Side
  bypassSubnets : List Subnet := []
  proxySubnets : List Subnet := []

/-- A rule of the section `side`. -/
def ParseState.rule (cb : Callbacks N σ) (s : ParseState σ) (side : Side) (input : Text) :
    ParseState σ :=
  match Subnet.fromString N input, side with
  | none, .bypass => { s with out := cb.bypassHostnames s.out input }
  | none, .proxy => { s with out := cb.proxyHostnames s.out input }
  | some subnet, .bypass => { s with bypassSubnets := s.bypassSubnets ++ [subnet] }
  | some subnet, .proxy => { s with proxySubnets := s.proxySubnets ++ [subnet] }

def parseInput (cb : Callbacks N σ) (s : ParseState σ) (input : Text) :
    Except AclFailure (ParseState σ) :=
  if input.head? = some '[' then
    match Block.ofText input with
    | some .outboundBlockList => .ok { s with target := none }
    | some .bypassList => .ok { s with target := some .bypass }
    | some .proxyList => .ok { s with target := some .proxy }
    | some .bypassAll => .ok { s with bypass := true }
    | some .proxyAll => .ok { s with bypass := false }
    | none => .error (.unrecognizedBlock input)
  else
    match s.target with
    | none => .ok s
    | some side => .ok (if input.isEmpty then s else s.rule cb side input)

def parseLine (cb : Callbacks N σ) (s : ParseState σ) (line : Text) :
    Except AclFailure (ParseState σ) :=
  match cb.urls with
  | none => parseInput cb s (trim line)
  | some urls =>
      match importUrl line with
      | none => parseInput cb s (uncomment line)
      | some url =>
          match N.url url with
          | none => .error (.malformedUrl url)
          | some url => parseInput cb { s with out := urls s.out url } (uncomment line)

/-- `Acl.parse`: the mode, and the subnets of the list that it does not make the default. -/
def parse (cb : Callbacks N σ) (text : Text) (out : σ) (defaultBypass : Bool) :
    Except AclFailure (σ × Bool × List Subnet) := do
  let s ← (readLines text).foldlM (parseLine cb)
    { out := out, bypass := defaultBypass,
      target := some (if defaultBypass then .proxy else .bypass) }
  .ok (s.out, s.bypass, if s.bypass then s.proxySubnets else s.bypassSubnets)

end Parser

/-! ## `fromReader`, `toString` and `flatten` -/

variable {N : JavaNet}

/-- The `add` functions of the lists. -/
def adders (N : JavaNet) (S : Implementation) : Callbacks N (Acl N) where
  bypassHostnames acl host :=
    { acl with bypassHostnames := S.add stringSorter acl.bypassHostnames host }
  proxyHostnames acl host :=
    { acl with proxyHostnames := S.add stringSorter acl.proxyHostnames host }
  urls := some fun acl url => { acl with urls := S.add (urlSorter N) acl.urls url }

/-- `fromReader`; the lists are cleared first, so it does not matter what was in them. -/
def fromReader (S : Implementation) (text : Text) (defaultBypass : Bool) :
    Except AclFailure (Acl N) := do
  let (acl, bypass, subnets) ← parse (adders N S) text {} defaultBypass
  .ok { acl with bypass := bypass, subnets := S.addAll subnetSorter acl.subnets subnets }

/-- A list with its header, if it has items. -/
def listBlock (header : Text) (items : List Text) : Text :=
  if items.isEmpty then [] else header ++ List.intercalate ['\n'] items ++ ['\n']

def toString (acl : Acl N) : Text :=
  let subnets := acl.subnets.items.map (Subnet.toString N)
  let bypassList :=
    if acl.bypass then acl.bypassHostnames.items else subnets ++ acl.bypassHostnames.items
  let proxyList :=
    if acl.bypass then subnets ++ acl.proxyHostnames.items else acl.proxyHostnames.items
  (if acl.bypass then "[bypass_all]\n".toList else "[proxy_all]\n".toList) ++
    listBlock "[bypass_list]\n".toList bypassList ++ listBlock "[proxy_list]\n".toList proxyList ++
    acl.urls.items.flatMap fun url => "#IMPORT_URL <".toList ++ N.urlText url ++ ">\n".toList

/-- The end of the loop body of `flatten`: subnets of a child in another mode are discarded, the
    rest is merged. -/
def merge (S : Implementation) (acl child : Acl N) : Acl N :=
  let child :=
    if acl.bypass ≠ child.bypass then { child with subnets := .empty _, bypass := acl.bypass }
    else child
  { acl with
    bypassHostnames := S.addAll stringSorter acl.bypassHostnames child.bypassHostnames.items
    proxyHostnames := S.addAll stringSorter acl.proxyHostnames child.proxyHostnames.items
    subnets := S.addAll subnetSorter acl.subnets child.subnets.items }

/-- `flatten`. `connect` fetches a document; `none` is an `IOException`. -/
def flatten (S : Implementation) (connect : N.Url → Option Text) :
    Nat → Acl N → Except AclFailure (Acl N)
  | 0, acl => .ok { acl with urls := .empty _ }
  | depth + 1, acl => do
      let merged ← acl.urls.items.foldlM (fun acl url =>
        match connect url with
        | none => .error .io
        | some text => do
            let child ← fromReader S text acl.bypass
            let child ← flatten S connect depth child
            .ok (merge S acl child)) acl
      .ok { merged with urls := .empty _ }

/-! ## What a text states -/

/-- A rule, as it is classified. -/
inductive Rule where
  | hostname (host : Text)
  | subnet (subnet : Subnet)
  deriving DecidableEq, Repr

def Rule.ofText (N : JavaNet) (input : Text) : Rule :=
  match Subnet.fromString N input with
  | none => .hostname input
  | some s => .subnet s

/-- The lines of a text without their comments. -/
def inputs (text : Text) : List Text := (readLines text).map uncomment

/-- The texts of its import lines. -/
def importTexts (text : Text) : List Text := (readLines text).filterMap importUrl

/-- The mode after a line. -/
def nextMode (mode : Bool) (input : Text) : Bool :=
  match Block.ofText input with
  | some .bypassAll => true
  | some .proxyAll => false
  | _ => mode

/-- The section after a line; the outbound block list is none. -/
def nextTarget (target : Option Side) (input : Text) : Option Side :=
  match Block.ofText input with
  | some .outboundBlockList => none
  | some .bypassList => some .bypass
  | some .proxyList => some .proxy
  | _ => target

/-- The rule of a line in a section. -/
def ruleOf (N : JavaNet) (target : Option Side) (input : Text) : Option (Side × Rule) :=
  if Block.ofText input = none ∧ input ≠ [] then target.map fun side => (side, Rule.ofText N input)
  else none

/-- The mode after the last mode line. -/
def effectiveMode (mode : Bool) (inputs : List Text) : Bool := inputs.foldl nextMode mode

/-- The rules, each with the section it stands in. Those of the outbound block list are ignored. -/
def effectiveRules (N : JavaNet) (target : Option Side) : List Text → List (Side × Rule)
  | [] => []
  | input :: rest =>
      (ruleOf N target input).toList ++ effectiveRules N (nextTarget target input) rest

/-- The section before the first header. -/
def defaultSide (defaultBypass : Bool) : Side := if defaultBypass then .proxy else .bypass

/-- The rules of a text. -/
def rulesOf (N : JavaNet) (text : Text) (defaultBypass : Bool) : List (Side × Rule) :=
  effectiveRules N (some (defaultSide defaultBypass)) (inputs text)

/-- The mode of a text. -/
def modeOf (text : Text) (defaultBypass : Bool) : Bool := effectiveMode defaultBypass (inputs text)

def importUrls (N : JavaNet) (text : Text) : List N.Url := (importTexts text).filterMap N.url

def Rule.host? : Rule → Option Text
  | .hostname host => some host
  | .subnet _ => none

def Rule.subnet? : Rule → Option Subnet
  | .hostname _ => none
  | .subnet s => some s

/-- What `pick` takes from the rules of one section. -/
def ofSide {β : Type} (pick : Rule → Option β) (side : Side) (rules : List (Side × Rule)) :
    List β :=
  rules.filterMap fun entry => if entry.1 = side then pick entry.2 else none

def hostnamesOf (side : Side) (rules : List (Side × Rule)) : List Text :=
  ofSide Rule.host? side rules

def subnetsOf (side : Side) (rules : List (Side × Rule)) : List Subnet :=
  ofSide Rule.subnet? side rules

theorem ofSide_append {β : Type} (pick : Rule → Option β) (side : Side) (a b : List (Side × Rule)) :
    ofSide pick side (a ++ b) = ofSide pick side a ++ ofSide pick side b :=
  List.filterMap_append

theorem mem_ofSide {β : Type} {pick : Rule → Option β} {side : Side} {rules : List (Side × Rule)}
    {x : β} : x ∈ ofSide pick side rules ↔ ∃ rule, (side, rule) ∈ rules ∧ pick rule = some x := by
  unfold ofSide
  rw [List.mem_filterMap]
  constructor
  · rintro ⟨⟨s, rule⟩, hm, heq⟩
    by_cases hs : s = side
    · rw [if_pos hs] at heq
      exact ⟨rule, hs ▸ hm, heq⟩
    · rw [if_neg hs] at heq
      cases heq
  · rintro ⟨rule, hm, heq⟩
    exact ⟨_, hm, (if_pos rfl).trans heq⟩

/-- The access control list that has a mode, rules and imports. -/
def assemble (S : Implementation) (mode : Bool) (rules : List (Side × Rule)) (urls : List N.Url) :
    Acl N where
  bypassHostnames := S.addAll stringSorter (.empty _) (hostnamesOf .bypass rules)
  proxyHostnames := S.addAll stringSorter (.empty _) (hostnamesOf .proxy rules)
  subnets := S.addAll subnetSorter (.empty _) (subnetsOf (defaultSide mode) rules)
  urls := S.addAll (urlSorter N) (.empty _) urls
  bypass := mode

/-- A line without comment that the parser does not fail on. -/
def AcceptsInput (input : Text) : Prop := input.head? = some '[' → Block.ofText input ≠ none

def AcceptsLine (N : JavaNet) (line : Text) : Prop :=
  AcceptsInput (uncomment line) ∧ ∀ url ∈ importUrl line, N.url url ≠ none

def Accepts (N : JavaNet) (text : Text) : Prop := ∀ line ∈ readLines text, AcceptsLine N line

instance (input : Text) : Decidable (AcceptsInput input) :=
  inferInstanceAs (Decidable (input.head? = some '[' → Block.ofText input ≠ none))

instance (N : JavaNet) (line : Text) : Decidable (AcceptsLine N line) :=
  inferInstanceAs (Decidable (AcceptsInput (uncomment line) ∧
    ∀ url ∈ importUrl line, N.url url ≠ none))

instance (N : JavaNet) (text : Text) : Decidable (Accepts N text) :=
  inferInstanceAs (Decidable (∀ line ∈ readLines text, AcceptsLine N line))

/-! ## The parser reads what the text states -/

section Reading

variable {S : Implementation} {s s' s'' : ParseState (Acl N)} {rules rules' : List (Side × Rule)}
  {mode mode' : Bool} {urls urls' : List N.Url}

theorem block_head {input : Text} {block : Block} (h : Block.ofText input = some block) :
    input.head? = some '[' := by
  unfold Block.ofText at h
  split at h
  · next heq => rw [heq]; rfl
  split at h
  · next heq => rcases heq with heq | heq <;> (rw [heq]; rfl)
  split at h
  · next heq => rcases heq with heq | heq <;> (rw [heq]; rfl)
  split at h
  · next heq => rcases heq with heq | heq <;> (rw [heq]; rfl)
  split at h
  · next heq => rcases heq with heq | heq <;> (rw [heq]; rfl)
  · cases h

/-- What reading lines with these rules, this last mode and these imports does to the locals. -/
structure After (S : Implementation) (rules : List (Side × Rule)) (mode : Bool) (urls : List N.Url)
    (s s' : ParseState (Acl N)) : Prop where
  bypass : s'.bypass = mode
  bypassSubnets : s'.bypassSubnets = s.bypassSubnets ++ subnetsOf .bypass rules
  proxySubnets : s'.proxySubnets = s.proxySubnets ++ subnetsOf .proxy rules
  bypassHostnames : s'.out.bypassHostnames =
    S.addAll stringSorter s.out.bypassHostnames (hostnamesOf .bypass rules)
  proxyHostnames : s'.out.proxyHostnames =
    S.addAll stringSorter s.out.proxyHostnames (hostnamesOf .proxy rules)
  subnets : s'.out.subnets = s.out.subnets
  urls : s'.out.urls = S.addAll (urlSorter N) s.out.urls urls

theorem After.trans (h : After S rules mode urls s s') (h' : After S rules' mode' urls' s' s'') :
    After S (rules ++ rules') mode' (urls ++ urls') s s'' where
  bypass := h'.bypass
  bypassSubnets := by
    rw [h'.bypassSubnets, h.bypassSubnets, List.append_assoc]
    exact congrArg _ (ofSide_append _ _ _ _).symm
  proxySubnets := by
    rw [h'.proxySubnets, h.proxySubnets, List.append_assoc]
    exact congrArg _ (ofSide_append _ _ _ _).symm
  bypassHostnames := by
    rw [h'.bypassHostnames, h.bypassHostnames, ← addAll_append]
    exact congrArg _ (ofSide_append _ _ _ _).symm
  proxyHostnames := by
    rw [h'.proxyHostnames, h.proxyHostnames, ← addAll_append]
    exact congrArg _ (ofSide_append _ _ _ _).symm
  subnets := h'.subnets.trans h.subnets
  urls := by rw [h'.urls, h.urls, addAll_append]

/-- Nothing but the mode and the section has changed. -/
theorem After.unchanged {target : Option Side} :
    After S [] mode [] s { s with bypass := mode, target := target } :=
  ⟨rfl, (List.append_nil _).symm, (List.append_nil _).symm, rfl, rfl, rfl, rfl⟩

theorem after_rule (side : Side) (input : Text) :
    After S [(side, Rule.ofText N input)] s.bypass [] s (s.rule (adders N S) side input) := by
  unfold ParseState.rule Rule.ofText
  cases Subnet.fromString N input with
  | none =>
      cases side with
      | bypass =>
          exact ⟨rfl, (List.append_nil _).symm, (List.append_nil _).symm, rfl, rfl, rfl, rfl⟩
      | proxy => exact ⟨rfl, (List.append_nil _).symm, (List.append_nil _).symm, rfl, rfl, rfl, rfl⟩
  | some subnet =>
      cases side with
      | bypass => exact ⟨rfl, rfl, (List.append_nil _).symm, rfl, rfl, rfl, rfl⟩
      | proxy => exact ⟨rfl, (List.append_nil _).symm, rfl, rfl, rfl, rfl, rfl⟩

theorem rule_target (side : Side) (input : Text) :
    (s.rule (adders N S) side input).target = s.target := by
  unfold ParseState.rule
  split <;> rfl

theorem parseInput_ok {input : Text} (h : AcceptsInput input) :
    ∃ s', parseInput (adders N S) s input = .ok s' ∧ s'.target = nextTarget s.target input ∧
      After S (ruleOf N s.target input).toList (nextMode s.bypass input) [] s s' := by
  unfold parseInput
  cases hblock : Block.ofText input with
  | some block =>
      have hrule : ruleOf N s.target input = none := by
        unfold ruleOf
        rw [hblock]
        exact if_neg fun hcond => nomatch hcond.1
      rw [if_pos (block_head hblock), hrule]
      unfold nextTarget nextMode
      simp only [hblock]
      cases block with
      | outboundBlockList => exact ⟨_, rfl, rfl, After.unchanged⟩
      | bypassList => exact ⟨_, rfl, rfl, After.unchanged⟩
      | proxyList => exact ⟨_, rfl, rfl, After.unchanged⟩
      | bypassAll => exact ⟨_, rfl, rfl, After.unchanged⟩
      | proxyAll => exact ⟨_, rfl, rfl, After.unchanged⟩
  | none =>
      have hhead : ¬ input.head? = some '[' := fun hhead => h hhead hblock
      have hnext : nextTarget s.target input = s.target := by
        unfold nextTarget
        rw [hblock]
      have hmode : nextMode s.bypass input = s.bypass := by
        unfold nextMode
        rw [hblock]
      rw [if_neg hhead, hnext, hmode]
      unfold ruleOf
      rw [hblock]
      cases htarget : s.target with
      | none =>
          refine ⟨s, rfl, htarget, ?_⟩
          rw [Option.map_none, ite_self]
          exact After.unchanged
      | some side =>
          by_cases hempty : input = []
          · refine ⟨s, by rw [hempty]; rfl, htarget, ?_⟩
            rw [if_neg fun hcond => hcond.2 hempty]
            exact After.unchanged
          · have hne : ¬ input.isEmpty = true := fun hnil => hempty (List.isEmpty_iff.mp hnil)
            refine ⟨_, rfl, ?_, ?_⟩
            · rw [if_neg hne, rule_target, htarget]
            · rw [if_pos ⟨rfl, hempty⟩, if_neg hne]
              exact after_rule side input

theorem parseInput_error {input : Text} (h : ¬ AcceptsInput input) :
    ∃ e, parseInput (adders N S) s input = .error e := by
  unfold AcceptsInput at h
  push Not at h
  unfold parseInput
  rw [if_pos h.1, h.2]
  exact ⟨_, rfl⟩

/-- The URL of an import line. -/
theorem After.url (url : N.Url) (h : After S rules mode urls
    { s with out := { s.out with urls := S.add (urlSorter N) s.out.urls url } } s') :
    After S rules mode (url :: urls) s s' :=
  ⟨h.bypass, h.bypassSubnets, h.proxySubnets, h.bypassHostnames, h.proxyHostnames,
    h.subnets, h.urls⟩

theorem parseLine_ok {line : Text} (h : AcceptsLine N line) :
    ∃ s', parseLine (adders N S) s line = .ok s' ∧
      s'.target = nextTarget s.target (uncomment line) ∧
      After S (ruleOf N s.target (uncomment line)).toList (nextMode s.bypass (uncomment line))
        ((importUrl line).toList.filterMap N.url) s s' := by
  obtain ⟨hinput, hurl⟩ := h
  unfold parseLine
  simp only [adders]
  cases himport : importUrl line with
  | none => exact parseInput_ok hinput
  | some text =>
      obtain ⟨url, hsome⟩ := Option.ne_none_iff_exists'.mp (hurl text himport)
      obtain ⟨s', hs', htarget, hafter⟩ := parseInput_ok (S := S)
        (s := { s with out := { s.out with urls := S.add (urlSorter N) s.out.urls url } }) hinput
      simp only [hsome]
      refine ⟨s', hs', htarget, ?_⟩
      rw [Option.toList_some, List.filterMap_cons_some hsome, List.filterMap_nil]
      exact hafter.url url

theorem parseLine_error {line : Text} (h : ¬ AcceptsLine N line) :
    ∃ e, parseLine (adders N S) s line = .error e := by
  unfold parseLine
  simp only [adders]
  cases himport : importUrl line with
  | none =>
      refine parseInput_error fun hinput => h ⟨hinput, ?_⟩
      rw [himport]
      exact fun _ hm => nomatch hm
  | some text =>
      cases hurl : N.url text with
      | none =>
          simp only [hurl]
          exact ⟨_, rfl⟩
      | some url =>
          simp only [hurl]
          refine parseInput_error fun hinput => h ⟨hinput, ?_⟩
          rw [himport]
          rintro _ ⟨⟩
          rw [hurl]
          exact Option.some_ne_none url

/-- A whole text: the induction is over its lines, with the section carried along. -/
theorem parseLines_ok {lines : List Text} (h : ∀ line ∈ lines, AcceptsLine N line) :
    ∃ s', lines.foldlM (parseLine (adders N S)) s = .ok s' ∧
      After S (effectiveRules N s.target (lines.map uncomment))
        (effectiveMode s.bypass (lines.map uncomment))
        ((lines.filterMap importUrl).filterMap N.url) s s' := by
  induction lines generalizing s with
  | nil => exact ⟨s, rfl, After.unchanged⟩
  | cons line lines ih =>
      obtain ⟨s1, hs1, htarget, hfirst⟩ :=
        parseLine_ok (S := S) (s := s) (h line List.mem_cons_self)
      obtain ⟨s2, hs2, hrest⟩ := ih (s := s1) fun x hx => h x (List.mem_cons_of_mem _ hx)
      have hurls : ((line :: lines).filterMap importUrl).filterMap N.url =
          (importUrl line).toList.filterMap N.url ++ (lines.filterMap importUrl).filterMap
            N.url := by
        rw [← List.filterMap_append]
        congr 1
        cases himport : importUrl line with
        | none => exact List.filterMap_cons_none himport
        | some text => exact List.filterMap_cons_some himport
      refine ⟨s2, ?_, ?_⟩
      · rw [List.foldlM_cons, hs1]
        exact hs2
      · rw [htarget, hfirst.bypass] at hrest
        rw [hurls]
        exact hfirst.trans hrest

theorem parseLines_error {lines : List Text} (h : ¬ ∀ line ∈ lines, AcceptsLine N line) :
    ∃ e, lines.foldlM (parseLine (adders N S)) s = .error e := by
  induction lines generalizing s with
  | nil => exact absurd (List.forall_mem_nil _) h
  | cons line lines ih =>
      rw [List.foldlM_cons]
      by_cases hline : AcceptsLine N line
      · obtain ⟨s1, hs1, _⟩ := parseLine_ok (S := S) (s := s) hline
        rw [hs1]
        refine ih fun htail => h ?_
        exact List.forall_mem_cons.mpr ⟨hline, htail⟩
      · obtain ⟨e, he⟩ := parseLine_error (S := S) (s := s) hline
        rw [he]
        exact ⟨e, rfl⟩

theorem target_start (defaultBypass : Bool) :
    (if defaultBypass then Side.proxy else Side.bypass) = defaultSide defaultBypass := rfl

/-- The parser accepts exactly the texts whose blocks and URLs are recognised, and it builds what
the text states. -/
theorem fromReader_eq (S : Implementation) (text : Text) (defaultBypass : Bool) :
    (Accepts N text → fromReader S text defaultBypass =
      .ok (assemble S (modeOf text defaultBypass) (rulesOf N text defaultBypass)
        (importUrls N text))) ∧
    (¬ Accepts N text → ∃ e, fromReader (N := N) S text defaultBypass = .error e) := by
  unfold fromReader parse
  constructor
  · intro h
    obtain ⟨s', hs', hafter⟩ := parseLines_ok (S := S)
      (s := { out := {}, bypass := defaultBypass, target := some (defaultSide defaultBypass) }) h
    have hsubnets : (if s'.bypass then s'.proxySubnets else s'.bypassSubnets) =
        subnetsOf (defaultSide s'.bypass) (rulesOf N text defaultBypass) := by
      cases s'.bypass with
      | true => exact hafter.proxySubnets
      | false => exact hafter.bypassSubnets
    rw [target_start, hs']
    show Except.ok _ = _
    rw [Except.ok.injEq, assemble, Acl.mk.injEq]
    refine ⟨hafter.bypassHostnames, hafter.proxyHostnames, ?_, hafter.urls, hafter.bypass⟩
    show S.addAll subnetSorter s'.out.subnets
      (if s'.bypass then s'.proxySubnets else s'.bypassSubnets) = _
    rw [hsubnets, hafter.subnets, hafter.bypass]
    rfl
  · intro h
    obtain ⟨e, he⟩ := parseLines_error (S := S)
      (s := { out := {}, bypass := defaultBypass, target := some (defaultSide defaultBypass) }) h
    rw [target_start, he]
    exact ⟨e, rfl⟩

/-- What the parser returns when it returns. -/
theorem fromReader_ok {S : Implementation} {text : Text} {defaultBypass : Bool} {acl : Acl N}
    (h : fromReader S text defaultBypass = .ok acl) : Accepts N text ∧
      acl = assemble S (modeOf text defaultBypass) (rulesOf N text defaultBypass)
        (importUrls N text) := by
  obtain ⟨hok, herror⟩ := fromReader_eq (N := N) S text defaultBypass
  have haccepts : Accepts N text := by
    by_contra hno
    obtain ⟨e, he⟩ := herror hno
    rw [he] at h
    cases h
  rw [hok haccepts] at h
  exact ⟨haccepts, (Except.ok.inj h).symm⟩

end Reading

end Acl

end CypherConnect
