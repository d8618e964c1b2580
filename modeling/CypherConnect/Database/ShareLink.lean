/-
  Share links: `Profile.toUri`, and what `Profile.findAllUrls` reads from a text with such links.

  Server, port, method and password always come back (`parseUrl_linkWith`). A link that ends in `_`
  or `!` is found without these characters; they belong to the name, or to the options of the plugin
  if there is no name. And the options are printed as a plugin string of their own, which is read
  differently if it starts like a `kcptun` command line of an old release, and not at all if it has
  a control character.

  * `share_link_reads`: one link, and the profile that is read from it.
  * `share_links_iff`: the profiles of a whole text are those that were written exactly if no link
    loses a character and no plugin string is read differently.
-/
import CypherConnect.Platform.AcceptedHost
import CypherConnect.Database.LinksInText
import CypherConnect.Plugin.Selected

namespace CypherConnect.Profile

open Plugin Scan

/-! ## Writing -/

/-- What `Uri.encode` leaves as it is: letters, digits and `_-!.~'()*`. -/
def isUriSafe (c : Char) : Bool :=
  JavaUri.isAlphanum c || ['_', '-', '!', '.', '~', '\'', '(', ')', '*'].contains c

/-- `Uri.encode`: the other characters as escapes of their UTF-8 bytes. -/
def uriEncode (t : Text) : Text := Percent.encode isUriSafe t

/-- `Base64.encodeToString` of method and password, without padding and line breaks, URL-safe. -/
def auth (p : Profile) : Text :=
  Base64.encode Base64.urlSafe (Utf8.encode (p.method ++ ':' :: p.password))

def hostPort (p : Profile) : Text :=
  JavaUri.wrappedHost p.host ++ ':' :: (ToString.toString p.remotePort).toList

/-- `appendQueryParameter`, for the first parameter. -/
def queryOf (key value : Text) : Text := '?' :: key ++ '=' :: uriEncode value

/-- `Builder.fragment`, where the name is not empty. -/
def fragmentOf (name : Text) : Text := if name.isEmpty then [] else '#' :: uriEncode name

/-- `toUri().toString()`; `none` is the exception of a plugin string that cannot be read. -/
def toUri (E : Enumeration) (defaults : Text → Option Text) (p : Profile) : Option Text := do
  let configuration ← PluginConfiguration.ofPlugin (p.plugin.getD [])
  let query ←
    if configuration.selected.isEmpty then some []
    else
      (configuration.getOptions configuration.selected (defaults configuration.selected)).map
        fun options => queryOf pluginKey (options.toString E false)
  some (Platform.scheme ++ (p.auth ++ '@' :: p.hostPort) ++ (query ++ fragmentOf (p.name.getD [])))

/-! ## Reading -/

/-- A server and a port that `java.net.URI` reads. -/
def Reachable (p : Profile) : Prop :=
  ∃ port : Nat, p.remotePort = port ∧ port ≤ 65535 ∧ JavaUri.AcceptedHost p.host port

/-- A profile that can be shared: what the parser of user infos, `java.net.URI` and the plugin
string ask for. -/
structure Shareable (p : Profile) : Prop where
  method_ne : p.method ≠ []
  method_colon : ':' ∉ p.method
  lines : ∀ c ∈ p.method ++ ':' :: p.password, isLineTerminator c = false
  host : p.Reachable
  plugin : (PluginConfiguration.ofPlugin (p.plugin.getD [])).isSome = true

/-- The second profile has the server, the name and the selected plugin of the first. -/
structure SharedAs (defaults : Text → Option Text) (p q : Profile) : Prop where
  method : q.method = p.method
  password : q.password = p.password
  host : q.host = p.host
  remotePort : q.remotePort = p.remotePort
  name : q.name.getD [] = p.name.getD []
  plugin : ∃ o o', selectedOptions defaults p.plugin = some o ∧
    selectedOptions defaults q.plugin = some o' ∧ o'.equals o = true

/-- Neither `_` nor `!` at the end. -/
def EndsPlain (t : Text) : Prop := ∀ c ∈ t.getLast?, isMark c = false

/-- The link of the profile loses nothing, and its plugin string is read as it was written. -/
structure Clean (E : Enumeration) (defaults : Text → Option Text) (p : Profile) : Prop where
  name : EndsPlain (p.name.getD [])
  plugin : ∀ o, selectedOptions defaults p.plugin = some o → o.id ≠ [] →
    (p.name.getD [] = [] → EndsPlain (o.toString E false)) ∧ o.NoControl ∧ ¬ kcptunMark <+: o.id

/-! ## The characters of a link -/

theorem mem_uriEncode {t : Text} {x : Char} (h : x ∈ uriEncode t) :
    isUriSafe x = true ∨ x = '%' := by
  have hhex : ∀ n < 16, isUriSafe (Percent.hexDigit n) = true := by decide
  rcases Percent.mem_encode h with h | h | ⟨n, hn, rfl⟩
  · exact Or.inl h
  · exact Or.inr h
  · exact Or.inl (hhex n hn)

theorem of_isUriSafe {p : Char → Bool} (halnum : ∀ c, JavaUri.isAlphanum c = true → p c = true)
    (hmarks : ['_', '-', '!', '.', '~', '\'', '(', ')', '*'].all p = true) {c : Char}
    (h : isUriSafe c = true) : p c = true := by
  simp only [isUriSafe, Bool.or_eq_true, List.contains_iff_mem] at h
  rcases h with h | h
  · exact halnum c h
  · exact List.all_eq_true.mp hmarks c h

theorem isLinkChar_uriEncode {t : Text} : ∀ x ∈ uriEncode t, isLinkChar x = true := by
  intro x hx
  rcases mem_uriEncode hx with h | rfl
  · exact of_isUriSafe isLinkChar_of_isAlphanum (by decide) h
  · rfl

theorem hash_not_mem_uriEncode (t : Text) : '#' ∉ uriEncode t := by
  intro hm
  rcases mem_uriEncode hm with h | h
  · cases h
  · cases h

theorem uriEncode_append (a b : Text) : uriEncode (a ++ b) = uriEncode a ++ uriEncode b :=
  List.flatMap_append

/-- Marks are written as they are. -/
theorem uriEncode_marks {junk : Text} (h : ∀ c ∈ junk, isMark c = true) :
    uriEncode junk = junk := by
  induction junk with
  | nil => rfl
  | cons c junk ih =>
      have hchar : Percent.encodeChar isUriSafe c = [c] := by
        rcases isMark_iff.mp (h c List.mem_cons_self) with rfl | rfl
        · rfl
        · rfl
      show Percent.encodeChar isUriSafe c ++ uriEncode junk = c :: junk
      rw [hchar, ih fun x hx => h x (List.mem_cons_of_mem _ hx)]
      rfl

/-- An encoded text that does not end in a mark ends in a character that may end a link. -/
theorem uriEncode_last {core : Text} (h : EndsPlain core) {sep : Char}
    (hsep : isLinkEnd sep = true) :
    ∃ init last, sep :: uriEncode core = init ++ [last] ∧ isLinkEnd last = true := by
  refine encode_last hsep fun x hx hsafe => ?_
  have hend : (isMark x || isLinkEnd x) = true := by
    refine of_isUriSafe (p := fun x => isMark x || isLinkEnd x) (fun c hc => ?_) (by decide) hsafe
    rw [isLinkEnd_of_isAlphanum hc, Bool.or_true]
  rw [h x hx] at hend
  exact hend

theorem checkChars_uriEncode {a : Text} (ha : ∀ c ∈ a, JavaUri.isUric c = true) (t : Text) :
    JavaUri.checkChars JavaUri.isUric (a ++ uriEncode t) = true := by
  refine JavaUri.checkChars_encode rfl (fun c hc => ?_) ha t
  refine of_isUriSafe (fun c hc => ?_) (by decide) hc
  simp only [JavaUri.isUric, JavaUri.isUnreserved, hc, Bool.true_or]

variable {p : Profile}

theorem madeOf_auth : JavaUri.MadeOf ['-', '_'] p.auth := JavaUri.madeOf_encode (by decide) _

theorem hostPort_eq {port : Nat} (h : p.remotePort = port) :
    p.hostPort = JavaUri.wrappedHost p.host ++ ':' :: JavaUri.decimal port := by
  have hprint : (ToString.toString (port : Int)).toList = JavaUri.decimal port := Nat.toList_repr
  unfold hostPort
  rw [h, hprint]

theorem madeOf_hostPort (hp : p.Reachable) :
    JavaUri.MadeOf ['-', '.', ':', '%', '_', '[', ']'] p.hostPort := by
  obtain ⟨port, hport, -, haccepted⟩ := hp
  rw [hostPort_eq hport]
  exact haccepted.madeOf_hostPort

theorem madeOf_authority (hp : p.Reachable) :
    JavaUri.MadeOf ['-', '.', ':', '%', '_', '[', ']', '@'] (p.auth ++ '@' :: p.hostPort) :=
  (madeOf_auth.mono (by decide)).append (.cons (by decide) ((madeOf_hostPort hp).mono (by decide)))

theorem isLinkChar_authority (hp : p.Reachable) :
    ∀ x ∈ p.auth ++ '@' :: p.hostPort, isLinkChar x = true :=
  (madeOf_authority hp).forall isLinkChar_of_isAlphanum (by decide)

/-! ## What is read from a link -/

variable {P : Platform} {tail : Text}

/-- The link of a profile, with what stands behind host and port. -/
def linkWith (p : Profile) (tail : Text) : Text :=
  Platform.scheme ++ (p.auth ++ '@' :: p.hostPort) ++ tail

theorem userInfo_linkWith (hP : P.Documented) (hp : p.Reachable)
    (htail : Platform.AfterAuthority tail) : P.userInfo (p.linkWith tail) = some p.auth := by
  refine hP.userInfo_some _ _ _ ?_ ?_ ?_ htail
  · have hauthority : JavaUri.MadeOf ['-', '.', ':', '%', '_', '[', ']'] (p.auth ++ p.hostPort) :=
      (madeOf_auth.mono (by decide)).append (madeOf_hostPort hp)
    exact inAuthority_of_madeOf hauthority (by decide)
  · exact (madeOf_hostPort hp).not_mem rfl (by decide)
  · exact madeOf_auth.not_mem rfl (by decide)

theorem parse_linkWith (hp : p.Reachable) (htail : ∀ c ∈ tail.head?, c = '?' ∨ c = '#')
    (hcheck : JavaUri.checkTail tail = true) :
    JavaUri.parse (p.linkWith tail) = some ⟨some (JavaUri.wrappedHost p.host), p.remotePort⟩ := by
  obtain ⟨port, hport, -, haccepted⟩ := hp
  have huser : ∀ c ∈ p.auth, JavaUri.isUserInfo c = true :=
    madeOf_auth.forall JavaUri.isUserInfo_of_isAlphanum (by decide)
  have hend : ∀ c ∈ tail.head?, JavaUri.inAuthority c = false := by
    intro c hc
    rcases htail c hc with rfl | rfl
    · rfl
    · rfl
  unfold linkWith
  rw [hostPort_eq hport, hport]
  exact haccepted.parse huser hend hcheck

theorem unbracket_wrappedHost (hp : p.Reachable) :
    unbracket (JavaUri.wrappedHost p.host) = p.host := by
  obtain ⟨port, -, -, haccepted⟩ := hp
  by_cases hcolon : ':' ∈ p.host
  · have hlast : ('[' :: p.host ++ [']']).getLast? = some ']' := List.getLast?_concat
    rw [JavaUri.wrappedHost_of_colon hcolon]
    unfold unbracket
    rw [if_pos ⟨rfl, hlast⟩]
    exact List.dropLast_concat
  · rw [JavaUri.wrappedHost_of_not_colon hcolon]
    exact unbracket_of_head haccepted.bare

/-- Server and port come back from every link, method and password where the user info is matched;
name and plugin are what stands behind. -/
theorem parseUrl_linkWith (hP : P.Documented) (feature : Option Profile) (hp : p.Reachable)
    {method password : Text}
    (hmatch : matchUserInfo (p.method ++ ':' :: p.password) = some (method, password))
    (htail : ∀ c ∈ tail.head?, c = '?' ∨ c = '#') (hcheck : JavaUri.checkTail tail = true) :
    ∃ q, parseUrl P feature (p.linkWith tail) = some q ∧ q.method = method ∧
      q.password = password ∧ q.host = p.host ∧ q.remotePort = p.remotePort ∧
      q.plugin = P.queryParameter (p.linkWith tail) pluginKey ∧
      q.name = some ((P.fragment (p.linkWith tail)).getD []) := by
  have hbytes : P.base64Decode Base64.urlSafe p.auth =
      some (Utf8.encode (p.method ++ ':' :: p.password)) := hP.base64_encode _ (Or.inr rfl) _
  obtain ⟨q, hq, hmethod, hpassword, hhost, hport, hplugin, hname⟩ :=
    parseSip002_read feature hbytes hmatch (parse_linkWith hp htail hcheck)
  rw [unbracket_wrappedHost hp] at hhost
  refine ⟨q, ?_, hmethod, hpassword, hhost, hport, hplugin, hname⟩
  rw [parseUrl_of_userInfo (userInfo_linkWith hP hp fun c hc => Or.inr (htail c hc))]
  exact hq

/-! ## Name and plugin -/

/-- What stands behind host and port: the plugin parameter and the name, where they are there. -/
def shareTail (plugin name : Option Text) : Text :=
  plugin.elim [] (queryOf pluginKey) ++ name.elim [] fun name => '#' :: uriEncode name

theorem shareTail_head (plugin name : Option Text) :
    ∀ c ∈ (shareTail plugin name).head?, c = '?' ∨ c = '#' := by
  intro c hc
  cases plugin with
  | some plugin =>
      cases hc
      exact Or.inl rfl
  | none =>
      cases name with
      | some name =>
          cases hc
          exact Or.inr rfl
      | none => cases hc

theorem key_uric : ∀ c ∈ pluginKey ++ ['='], JavaUri.isUric c = true :=
  List.all_eq_true.mp (by decide)

theorem checkTail_shareTail (plugin name : Option Text) :
    JavaUri.checkTail (shareTail plugin name) = true := by
  have hfragment (name : Text) : JavaUri.checkChars JavaUri.isUric (uriEncode name) = true :=
    checkChars_uriEncode (List.forall_mem_nil _) name
  cases plugin with
  | none =>
      cases name with
      | none => rfl
      | some name => exact hfragment name
  | some plugin =>
      have hassoc : pluginKey ++ '=' :: uriEncode plugin = (pluginKey ++ ['=']) ++
          uriEncode plugin := by
        rw [List.append_assoc]
        rfl
      have hquery : JavaUri.checkChars JavaUri.isUric (pluginKey ++ '=' :: uriEncode plugin) =
          true := by
        rw [hassoc]
        exact checkChars_uriEncode key_uric plugin
      have hhash : '#' ∉ pluginKey ++ '=' :: uriEncode plugin := by
        rw [hassoc, List.mem_append, not_or]
        exact ⟨by decide, hash_not_mem_uriEncode plugin⟩
      cases name with
      | none =>
          show JavaUri.checkTail ('?' :: (pluginKey ++ '=' :: uriEncode plugin) ++ []) = true
          rw [List.append_nil]
          exact JavaUri.checkTail_query_only hhash hquery
      | some name => exact JavaUri.checkTail_query hhash hquery (hfragment name)

theorem not_mem_linkWith_authority (hp : p.Reachable) :
    '?' ∉ p.auth ++ '@' :: p.hostPort ∧ '#' ∉ p.auth ++ '@' :: p.hostPort :=
  ⟨(madeOf_authority hp).not_mem (by decide) (by decide),
    (madeOf_authority hp).not_mem (by decide) (by decide)⟩

/-- The plugin parameter that is read. -/
theorem queryParameter_linkWith (hP : P.Documented) (hp : p.Reachable) (plugin name : Option Text) :
    P.queryParameter (p.linkWith (shareTail plugin name)) pluginKey = plugin := by
  obtain ⟨hmark, hhash⟩ := not_mem_linkWith_authority hp
  have hafter : Platform.AfterQuery (name.elim [] fun name => '#' :: uriEncode name) := by
    intro c hc
    cases name with
    | none => cases hc
    | some name =>
        cases hc
        rfl
  cases plugin with
  | none => exact hP.queryParameter_none _ _ _ hmark hhash hafter
  | some plugin =>
      have hsafe : ∀ c ∈ ['%', '+', '&', '#'], isUriSafe c = false := forall_eq_false (by decide)
      have hread := hP.queryParameter_some _ pluginKey isUriSafe plugin _ hmark hhash
        (List.all_eq_true.mp (by decide)) hsafe hafter
      have hlink : p.linkWith (shareTail (some plugin) name) =
          Platform.scheme ++ (p.auth ++ '@' :: p.hostPort) ++ '?' :: pluginKey ++
            '=' :: Percent.encode isUriSafe plugin ++
              name.elim [] fun name => '#' :: uriEncode name := by
        show Platform.scheme ++ (p.auth ++ '@' :: p.hostPort) ++
          ('?' :: pluginKey ++ '=' :: Percent.encode isUriSafe plugin ++ _) = _
        simp only [List.append_assoc]
      rw [hlink]
      exact hread

/-- The name that is read. -/
theorem fragment_linkWith (hP : P.DocumentedLinks) (hp : p.Reachable) (plugin name : Option Text) :
    P.fragment (p.linkWith (shareTail plugin name)) = name := by
  obtain ⟨-, hhash⟩ := not_mem_linkWith_authority hp
  have hfront : '#' ∉ (p.auth ++ '@' :: p.hostPort) ++ plugin.elim [] (queryOf pluginKey) := by
    rw [List.mem_append, not_or]
    refine ⟨hhash, ?_⟩
    cases plugin with
    | none => exact List.not_mem_nil
    | some plugin =>
        intro hm
        rcases List.mem_append.mp hm with hm | hm
        · exact absurd hm (by decide)
        · rcases List.mem_cons.mp hm with hm | hm
          · cases hm
          · exact hash_not_mem_uriEncode plugin hm
  have hlink : p.linkWith (shareTail plugin name) =
      Platform.scheme ++ ((p.auth ++ '@' :: p.hostPort) ++ plugin.elim [] (queryOf pluginKey)) ++
        name.elim [] fun name => '#' :: uriEncode name := by
    unfold linkWith shareTail
    simp only [List.append_assoc]
  rw [hlink]
  cases name with
  | none =>
      show P.fragment (_ ++ []) = none
      rw [List.append_nil]
      exact hP.fragment_none _ hfront
  | some name => exact hP.fragment_some _ isUriSafe name hfront rfl

/-! ## What is found of a link -/

/-- A link that ends in an encoded text is found without the marks at the end of the text. -/
theorem found_encoded {front core junk : Text} (hfront : ∀ c ∈ front, isLinkChar c = true)
    (sep : Char) (hsep : isLinkEnd sep = true) (hcore : EndsPlain core)
    (hjunk : ∀ c ∈ junk, isMark c = true) :
    Found (Platform.scheme ++ (front ++ sep :: uriEncode (core ++ junk)))
      (Platform.scheme ++ (front ++ sep :: uriEncode core)) := by
  obtain ⟨init, last, heq, hlast⟩ := uriEncode_last hcore hsep
  refine ⟨⟨junk, ?_, hjunk⟩, front ++ init, last, ?_, ?_, hlast⟩
  · rw [uriEncode_append, uriEncode_marks hjunk]
    simp only [List.append_assoc, List.cons_append]
  · rw [heq]
    simp only [List.append_assoc]
  · intro c hc
    rcases List.mem_append.mp hc with hc | hc
    · exact hfront c hc
    · have hmem : c ∈ sep :: uriEncode core := by
        rw [heq]
        exact List.mem_append_left _ hc
      rcases List.mem_cons.mp hmem with rfl | hmem
      · exact isLinkChar_of_isLinkEnd hsep
      · exact isLinkChar_uriEncode c hmem

theorem isLinkChar_queryOf (value : Text) : ∀ c ∈ queryOf pluginKey value, isLinkChar c = true := by
  have hkey : ∀ c ∈ '?' :: pluginKey, isLinkChar c = true := List.all_eq_true.mp (by decide)
  intro c hc
  rcases List.mem_append.mp hc with hc | hc
  · exact hkey c hc
  · rcases List.mem_cons.mp hc with rfl | hc
    · rfl
    · exact isLinkChar_uriEncode c hc

theorem found_name (hp : p.Reachable) (plugin : Option Text) {core junk : Text}
    (hcore : EndsPlain core) (hjunk : ∀ c ∈ junk, isMark c = true) :
    Found (p.linkWith (shareTail plugin (some (core ++ junk))))
      (p.linkWith (shareTail plugin (some core))) := by
  have hfront : ∀ c ∈ p.auth ++ '@' :: p.hostPort ++ plugin.elim [] (queryOf pluginKey),
      isLinkChar c = true := by
    intro c hc
    rcases List.mem_append.mp hc with hc | hc
    · exact isLinkChar_authority hp c hc
    · cases plugin with
      | none => cases hc
      | some plugin => exact isLinkChar_queryOf plugin c hc
  have hfound := found_encoded hfront '#' rfl hcore hjunk
  unfold linkWith shareTail
  simp only [Option.elim, List.append_assoc] at hfound ⊢
  exact hfound

theorem found_plugin (hp : p.Reachable) {core junk : Text} (hcore : EndsPlain core)
    (hjunk : ∀ c ∈ junk, isMark c = true) :
    Found (p.linkWith (shareTail (some (core ++ junk)) none))
      (p.linkWith (shareTail (some core) none)) := by
  have hkey : ∀ c ∈ '?' :: pluginKey, isLinkChar c = true := List.all_eq_true.mp (by decide)
  have hfront : ∀ c ∈ p.auth ++ '@' :: p.hostPort ++ '?' :: pluginKey, isLinkChar c = true := by
    intro c hc
    rcases List.mem_append.mp hc with hc | hc
    · exact isLinkChar_authority hp c hc
    · exact hkey c hc
  have hfound := found_encoded hfront '=' rfl hcore hjunk
  unfold linkWith shareTail queryOf
  simp only [Option.elim, List.append_assoc, List.cons_append, List.append_nil] at hfound ⊢
  exact hfound

/-- Without name and plugin a link ends in the port. -/
theorem found_bare (hp : p.Reachable) :
    Found (p.linkWith (shareTail none none)) (p.linkWith (shareTail none none)) := by
  obtain ⟨port, hport, hrange, haccepted⟩ := hp
  have hsplit := List.dropLast_append_getLast (JavaUri.decimal_ne_nil port)
  have hdigit : JavaUri.isDigit
      ((JavaUri.decimal port).getLast (JavaUri.decimal_ne_nil port)) = true :=
    JavaUri.isDigit_of_mem_decimal (List.getLast_mem _)
  refine ⟨⟨[], (List.append_nil _).symm, List.forall_mem_nil _⟩,
    p.auth ++ '@' :: (JavaUri.wrappedHost p.host ++ ':' :: (JavaUri.decimal port).dropLast),
    (JavaUri.decimal port).getLast (JavaUri.decimal_ne_nil port), ?_, ?_,
    isLinkEnd_of_isAlphanum (JavaUri.isAlphanum_iff.mpr (Or.inr hdigit))⟩
  · show Platform.scheme ++ (p.auth ++ '@' :: p.hostPort) ++ [] = _
    rw [List.append_nil, hostPort_eq hport]
    conv_lhs => rw [← hsplit]
    simp only [List.append_assoc, List.cons_append]
  · intro c hc
    refine isLinkChar_authority ⟨port, hport, hrange, haccepted⟩ c ?_
    rw [hostPort_eq hport, ← hsplit]
    have hassoc : p.auth ++ '@' :: (JavaUri.wrappedHost p.host ++ ':' ::
        ((JavaUri.decimal port).dropLast ++
          [(JavaUri.decimal port).getLast (JavaUri.decimal_ne_nil port)])) =
        (p.auth ++ '@' :: (JavaUri.wrappedHost p.host ++ ':' :: (JavaUri.decimal port).dropLast)) ++
          [(JavaUri.decimal port).getLast (JavaUri.decimal_ne_nil port)] := by
      simp only [List.append_assoc, List.cons_append]
    rw [hassoc]
    exact List.mem_append_left _ hc

/-! ## One link -/

section OneLink

variable {E : Enumeration} {defaults : Text → Option Text} {o : PluginOptions}

/-- The plugin string that goes into a link. -/
def sharedPlugin (E : Enumeration) (o : PluginOptions) : Option Text :=
  if o.id = [] then none else some (o.toString E false)

/-- The name that goes into a link. -/
def sharedName (name : Text) : Option Text := if name = [] then none else some name

theorem fragmentOf_eq (name : Text) :
    fragmentOf name = (sharedName name).elim [] fun name => '#' :: uriEncode name := by
  cases name with
  | nil => rfl
  | cons c name => rfl

/-- The link of a profile, with the options of the selected plugin. -/
theorem toUri_eq (E : Enumeration) (defaults : Text → Option Text) (hp : p.Shareable) : ∃ o,
    selectedOptions defaults p.plugin = some o ∧ (o.id = [] → o = {}) ∧ o.Proper (· == '\n') ∧
      toUri E defaults p =
        some (p.linkWith (shareTail (sharedPlugin E o) (sharedName (p.name.getD [])))) := by
  obtain ⟨c, hc⟩ := Option.isSome_iff_exists.mp hp.plugin
  obtain ⟨o, hoptions, hid, hempty, hproper⟩ := PluginConfiguration.getOptions_selected hc
  refine ⟨o, ?_, fun hnil => hempty (hid ▸ hnil), hproper, ?_⟩
  · unfold selectedOptions
    rw [hc, Option.bind_some, hoptions]
  · rw [← hid] at hoptions
    unfold toUri sharedPlugin
    simp only [hc, Option.bind_eq_bind, Option.bind_some, fragmentOf_eq, ← hid, hoptions]
    by_cases hnil : o.id = []
    · rw [if_pos (List.isEmpty_iff.mpr hnil), if_pos hnil]
      rfl
    · rw [if_neg fun h => hnil (List.isEmpty_iff.mp h), if_neg hnil]
      rfl

theorem clean_iff (hselected : selectedOptions defaults p.plugin = some o) :
    p.Clean E defaults ↔ EndsPlain (p.name.getD []) ∧ (o.id ≠ [] →
      (p.name.getD [] = [] → EndsPlain (o.toString E false)) ∧ o.NoControl ∧
        ¬ kcptunMark <+: o.id) := by
  constructor
  · intro h
    exact ⟨h.name, h.plugin o hselected⟩
  · rintro ⟨hname, hplugin⟩
    refine ⟨hname, fun o' hselected' => ?_⟩
    rw [hselected] at hselected'
    cases hselected'
    exact hplugin

theorem endsPlain_nil : EndsPlain [] := fun _ hc => nomatch hc

/-- Marks at the end are just the marks that are left over. -/
theorem endsPlain_append_iff {core junk : Text} (hcore : EndsPlain core)
    (hjunk : ∀ c ∈ junk, isMark c = true) : EndsPlain (core ++ junk) ↔ junk = [] := by
  constructor
  · intro h
    rcases List.eq_nil_or_concat junk with hnil | ⟨front, c, rfl⟩
    · exact hnil
    · rw [List.concat_eq_append] at h hjunk
      have hlast : (core ++ (front ++ [c])).getLast? = some c := by
        rw [← List.append_assoc, List.getLast?_concat]
      have hmark := hjunk c (List.mem_append_right _ List.mem_cons_self)
      rw [h c hlast] at hmark
      cases hmark
  · rintro rfl
    rw [List.append_nil]
    exact hcore

theorem mark_plain {junk : Text} (h : ∀ c ∈ junk, isMark c = true) :
    ∀ c ∈ junk, isDelim c = false ∧ c ∉ kcptunMark := by
  intro c hc
  rcases isMark_iff.mp (h c hc) with rfl | rfl
  · decide
  · decide

/-- A plugin string that keeps its end is read as it was written, under the condition on the
options. -/
theorem selectedOptions_shared_iff (hempty : o.id = [] → o = {}) (hproper : o.Proper (· == '\n')) :
    (∃ o', selectedOptions defaults (sharedPlugin E o) = some o' ∧ o'.equals o = true) ↔
      (o.id ≠ [] → o.NoControl ∧ ¬ kcptunMark <+: o.id) := by
  unfold sharedPlugin
  by_cases hid : o.id = []
  · rw [if_pos hid, hempty hid]
    refine iff_of_true ⟨{}, rfl, rfl⟩ fun hne => absurd rfl hne
  · rw [if_neg hid, selectedOptions_cut_iff defaults hid hproper (List.forall_mem_nil _)
      (List.append_nil _).symm]
    exact ⟨fun h _ => h.2, fun h => ⟨rfl, h hid⟩⟩

/-- The profile that is read from a link with this plugin string and this name. -/
theorem reads_shareTail (hP : P.DocumentedLinks) (feature : Option Profile) (hp : p.Shareable)
    (hselected : selectedOptions defaults p.plugin = some o) (plugin name : Option Text) :
    ∃ q, parseUrl P feature (p.linkWith (shareTail plugin name)) = some q ∧
      (SharedAs defaults p q ↔ name.getD [] = p.name.getD [] ∧
        ∃ o', selectedOptions defaults plugin = some o' ∧ o'.equals o = true) := by
  have hmatch := matchUserInfo_eq hp.method_ne hp.method_colon hp.lines
  obtain ⟨q, hq, hmethod, hpassword, hhost, hport, hplugin, hname⟩ :=
    parseUrl_linkWith hP.toDocumented feature hp.host hmatch (shareTail_head plugin name)
      (checkTail_shareTail plugin name)
  rw [queryParameter_linkWith hP.toDocumented hp.host] at hplugin
  rw [fragment_linkWith hP hp.host] at hname
  refine ⟨q, hq, ?_, ?_⟩
  · intro h
    obtain ⟨o1, o', h1, h2, hequals⟩ := h.plugin
    rw [hselected] at h1
    cases h1
    rw [hplugin] at h2
    refine ⟨?_, o', h2, hequals⟩
    rw [← h.name, hname, Option.getD_some]
  · rintro ⟨hsame, o', ho', hequals⟩
    refine ⟨hmethod, hpassword, hhost, hport, ?_, o, o', hselected, ?_, hequals⟩
    · rw [hname, Option.getD_some, hsame]
    · rw [hplugin, ho']

/-- One link, and the profile that is read from it. -/
theorem share_link_reads (hP : P.DocumentedLinks) (feature : Option Profile) (E : Enumeration)
    (defaults : Text → Option Text) (hp : p.Shareable) : ∃ link value q,
      toUri E defaults p = some link ∧ Found link value ∧ parseUrl P feature value = some q ∧
        (SharedAs defaults p q ↔ p.Clean E defaults) := by
  obtain ⟨o, hselected, hempty, hproper, huri⟩ := toUri_eq E defaults hp
  by_cases hname : p.name.getD [] = []
  · have hnone : sharedName (p.name.getD []) = none := if_pos hname
    by_cases hid : o.id = []
    · -- the link ends in the port
      have hplugin : sharedPlugin E o = none := if_pos hid
      obtain ⟨q, hq, hiff⟩ := reads_shareTail hP feature hp hselected none none
      rw [hnone, hplugin] at huri
      refine ⟨_, _, q, huri, found_bare hp.host, hq, ?_⟩
      rw [hiff, clean_iff hselected, hname, hempty hid]
      refine iff_of_true ⟨rfl, {}, rfl, rfl⟩ ⟨endsPlain_nil, fun hne => absurd rfl hne⟩
    · -- the link ends in the options of the plugin
      obtain ⟨core, junk, hprinted, hjunk, hcore⟩ := exists_trailing_run isMark (o.toString E false)
      have hplugin : sharedPlugin E o = some (core ++ junk) := by
        rw [← hprinted]
        exact if_neg hid
      obtain ⟨q, hq, hiff⟩ := reads_shareTail hP feature hp hselected (some core) none
      rw [hnone, hplugin] at huri
      refine ⟨_, _, q, huri, found_plugin hp.host hcore hjunk, hq, ?_⟩
      rw [hiff, clean_iff hselected, hname,
        selectedOptions_cut_iff defaults hid hproper (mark_plain hjunk) hprinted, hprinted,
        endsPlain_append_iff hcore hjunk]
      constructor
      · rintro ⟨-, hnil, hcontrol, hmark⟩
        exact ⟨endsPlain_nil, fun _ => ⟨fun _ => hnil, hcontrol, hmark⟩⟩
      · rintro ⟨-, h⟩
        exact ⟨rfl, (h hid).1 rfl, (h hid).2⟩
  · -- the link ends in the name
    obtain ⟨core, junk, hsplit, hjunk, hcore⟩ := exists_trailing_run isMark (p.name.getD [])
    have hsome : sharedName (p.name.getD []) = some (core ++ junk) := by
      rw [← hsplit]
      exact if_neg hname
    obtain ⟨q, hq, hiff⟩ := reads_shareTail hP feature hp hselected (sharedPlugin E o) (some core)
    rw [hsome] at huri
    refine ⟨_, _, q, huri, found_name hp.host _ hcore hjunk, hq, ?_⟩
    rw [hiff, clean_iff hselected, selectedOptions_shared_iff hempty hproper, hsplit,
      endsPlain_append_iff hcore hjunk, Option.getD_some, List.self_eq_append_right]
    refine and_congr_right fun _ => imp_congr_right fun _ => ?_
    refine ⟨fun h => ⟨fun hnil => absurd (hsplit.trans hnil) hname, h⟩, And.right⟩

end OneLink

/-! ## A text with links -/

theorem length_seps {seps links : List Text} {text : Text} (h : Embeds seps links text) :
    seps.length = links.length + 1 := by
  induction h with
  | last t => rfl
  | link t l before after h ih => exact congrArg (· + 1) ih

/-- The links of a list of profiles, what is found of them and what is read from it. -/
theorem share_links_read (hP : P.DocumentedLinks) (feature : Option Profile) (E : Enumeration)
    (defaults : Text → Option Text) {profiles : List Profile}
    (hshare : ∀ p ∈ profiles, Shareable p) :
    ∃ links values qs, profiles.mapM (toUri E defaults) = some links ∧
      List.Forall₂ Found links values ∧
      List.Forall₂ (fun value q => parseUrl P feature value = some q) values qs ∧
      profiles.length = qs.length ∧
      (List.Forall₂ (SharedAs defaults) profiles qs ↔ ∀ p ∈ profiles, Clean E defaults p) := by
  induction profiles with
  | nil =>
      refine ⟨[], [], [], rfl, .nil, .nil, rfl, ?_⟩
      exact iff_of_true .nil (List.forall_mem_nil _)
  | cons p profiles ih =>
      obtain ⟨link, value, q, huri, hfound, hread, hiff⟩ :=
        share_link_reads hP feature E defaults (hshare p List.mem_cons_self)
      obtain ⟨links, values, qs, huris, hfounds, hreads, hlen, hiffs⟩ :=
        ih fun x hx => hshare x (List.mem_cons_of_mem _ hx)
      refine ⟨link :: links, value :: values, q :: qs, ?_, .cons hfound hfounds, .cons hread hreads,
        congrArg (· + 1) hlen, ?_⟩
      · rw [List.mapM_cons, huri, huris]
        rfl
      · rw [List.forall₂_cons, hiff, hiffs, List.forall_mem_cons]

/-- The profiles that are read from a text with the links of some profiles are just these profiles,
in their order, exactly if the text between the links has no link of its own, no link loses a
character, and no plugin string is read differently. -/
theorem share_links_iff (P : Platform) (hP : P.DocumentedLinks) (feature : Option Profile)
    (E : Enumeration) (defaults : Text → Option Text) (profiles : List Profile)
    (hshare : ∀ p ∈ profiles, Shareable p) :
    ∃ links, profiles.mapM (toUri E defaults) = some links ∧
      ∀ seps text, Embeds seps links text →
        (List.Forall₂ (SharedAs defaults) profiles (findAllUrls P (some text) feature) ↔
          (∀ t ∈ seps, ∀ link ∈ findAll 0 t, parseUrl P feature link = none) ∧
            ∀ p ∈ profiles, Clean E defaults p) := by
  obtain ⟨links, values, qs, huris, hfounds, hreads, hlen, hiff⟩ :=
    share_links_read hP feature E defaults hshare
  refine ⟨links, huris, fun seps text htext => ?_⟩
  have hfind : findAllUrls P (some text) feature =
      weave ((seps.map (findAll 0)).map (List.filterMap (parseUrl P feature))) qs := by
    unfold findAllUrls
    rw [Option.getD_some, findAll_embeds htext hfounds, weave_filterMap _ hreads]
  have hseps : qs.length ≤
      ((seps.map (findAll 0)).map (List.filterMap (parseUrl P feature))).length := by
    rw [List.length_map, List.length_map, length_seps htext, hfounds.length_eq, hreads.length_eq]
    exact Nat.le_succ _
  rw [hfind, forall₂_weave_iff hseps hlen, hiff]
  simp only [List.forall_mem_map, List.filterMap_eq_nil_iff]

section Samples

/-- No plugin is installed. -/
def noDefaults : Text → Option Text := fun _ => none

def bracketSample : Profile where
  host := "2001:db8::1".toList
  plugin := some "obfs-local;obfs=http".toList

def namedSample (name : Text) : Profile where
  name := some name

def bracketLink : Text :=
  "ss://YWVzLTI1Ni1jZmI6dTFyUldUc3NOdjBw@[2001:db8::1]:8388?plugin=obfs-local%3Bobfs%3Dhttp".toList

def namedLink : Text :=
  "ss://YWVzLTI1Ni1jZmI6dTFyUldUc3NOdjBw@example.shadowsocks.org:8388#my%20server".toList

theorem bracketSample_shareable : bracketSample.Shareable where
  method_ne := by decide
  method_colon := by decide
  lines := forall_eq_false (by decide)
  host := ⟨8388, rfl, by decide, by decide, by decide +kernel⟩
  plugin := by decide +kernel

theorem blank_shareable : Shareable {} where
  method_ne := by decide
  method_colon := by decide
  lines := forall_eq_false (by decide)
  host := ⟨8388, rfl, by decide, by decide, by decide +kernel⟩
  plugin := by decide +kernel

/-- Sharing does not ask for a name. -/
theorem namedSample_shareable (name : Text) : (namedSample name).Shareable where
  method_ne := blank_shareable.method_ne
  method_colon := blank_shareable.method_colon
  lines := blank_shareable.lines
  host := blank_shareable.host
  plugin := blank_shareable.plugin

theorem bracketSample_clean : bracketSample.Clean .inserted noDefaults := by
  have hselected : selectedOptions noDefaults bracketSample.plugin =
      some ⟨"obfs-local".toList, [("obfs".toList, some "http".toList)], by decide⟩ := by
    decide +kernel
  rw [clean_iff hselected]
  refine ⟨endsPlain_nil, fun _ => ⟨fun _ => ?_, ⟨forall_eq_false (by decide), ?_⟩, by decide⟩⟩
  · have hlast : (PluginOptions.toString .inserted
        ⟨"obfs-local".toList, [("obfs".toList, some "http".toList)], by decide⟩ false).getLast? =
          some 'p' := by decide +kernel
    intro c hc
    rw [hlast] at hc
    cases hc
    rfl
  · intro e he
    rw [List.mem_singleton.mp he]
    refine ⟨forall_eq_false (by decide), fun value hvalue => ?_⟩
    cases hvalue
    exact forall_eq_false (by decide)

theorem namedSample_clean : (namedSample "my server".toList).Clean .inserted noDefaults := by
  have hselected : selectedOptions noDefaults (namedSample "my server".toList).plugin = some {} :=
    rfl
  rw [clean_iff hselected]
  refine ⟨?_, fun hne => absurd rfl hne⟩
  intro c hc
  cases hc
  rfl

/-- A name loses a `_` at its end. -/
theorem share_link_loses_mark : (namedSample "a_".toList).Shareable ∧
    ∃ link, toUri .inserted noDefaults (namedSample "a_".toList) = some link ∧
      (findAllUrls aosp (some link) none).map Profile.name = [some "a".toList] :=
  ⟨namedSample_shareable _, _, rfl, by decide +kernel⟩

/-- A text with two links, an address with a plugin and a server with a name. -/
theorem share_links_iff_two : List.Forall₂ (SharedAs noDefaults)
    [bracketSample, namedSample "my server".toList]
    (findAllUrls aosp
      (some ("first ".toList ++ (bracketLink ++ ("\n".toList ++ (namedLink ++ []))))) none) := by
  obtain ⟨links, hlinks, hiff⟩ :=
    share_links_iff aosp aosp_documentedLinks none .inserted noDefaults
    [bracketSample, namedSample "my server".toList] (by
      intro p hp
      rcases List.mem_cons.mp hp with rfl | hp
      · exact bracketSample_shareable
      · rw [List.mem_singleton.mp hp]
        exact namedSample_shareable _)
  have hcomputed : [bracketSample, namedSample "my server".toList].mapM
      (toUri .inserted noDefaults) =
      some [bracketLink, namedLink] := by decide +kernel
  rw [hcomputed] at hlinks
  cases hlinks
  have htext : Embeds ["first ".toList, "\n".toList, []] [bracketLink, namedLink]
      ("first ".toList ++ (bracketLink ++ ("\n".toList ++ (namedLink ++ [])))) := by
    refine .link _ _ (Or.inr ⟨"first".toList, ' ', rfl, rfl⟩) (head_eq_false rfl) ?_
    exact .link _ _ (Or.inr ⟨[], '\n', rfl, rfl⟩) (fun c hc => nomatch hc) (.last _)
  refine (hiff _ _ htext).mpr ⟨?_, ?_⟩
  · have hnone : ∀ t ∈ ["first ".toList, "\n".toList, []], findAll 0 t = [] := by decide
    intro t ht link hlink
    rw [hnone t ht] at hlink
    cases hlink
  · intro p hp
    rcases List.mem_cons.mp hp with rfl | hp
    · exact bracketSample_clean
    · rw [List.mem_singleton.mp hp]
      exact namedSample_clean

end Samples

end CypherConnect.Profile
