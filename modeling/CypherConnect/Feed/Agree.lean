/-
  The feed's producer against its consumer: what `Profile.findAllUrls` reads from a link that
  `config2url` wrote.

  Five formats are nested in a link, and the two sides choose three of them differently: the script
  writes the standard base64 alphabet, the app reads the URL-safe one; the script writes an IPv6
  literal without brackets; and it writes option values without the backslashes `PluginOptions`
  wants. `feed_link_agrees`: without `+` and `/` in the base64 text, IPv6 literals and special
  characters in option values the two agree, and (unless a text contains U+FFFD) they agree then
  only.
-/
import CypherConnect.Database.Links
import CypherConnect.Feed.UpdateProxies
import CypherConnect.Plugin.PluginOptions

namespace CypherConnect.Feed

open Profile Scan

/-! ## Agreement -/

/-- The plugin string, read by `PluginOptions`, has the id and just the options of the config. -/
def Config.ReadsPlugin (c : Config) (plugin : Option Text) : Prop :=
  match c.plugin with
  | none => plugin = none
  | some p => ∃ o, Plugin.PluginOptions.ofOptions plugin = some o ∧ o.id = p.plugin ∧
      o.entries.Perm (p.options.map fun e => (e.1, some e.2))

/-- The link of a config gives one profile, with the values of the config. -/
def Config.Agrees (P : Platform) (feature : Option Profile) (c : Config) : Prop :=
  ∃ profile, findAllUrls P (some (config2url c)) feature = [profile] ∧
    profile.method = c.method ∧ profile.password = c.password ∧ profile.host = c.server ∧
    profile.remotePort = (c.serverPort : Int) ∧ c.ReadsPlugin profile.plugin

/-- A text that `PluginOptions` reads as it is. -/
def PlainValue (value : Text) : Prop :=
  ∀ x ∈ value, x ≠ ';' ∧ x ≠ '\\' ∧ Plugin.isISOControl x = false

instance (value : Text) : Decidable (PlainValue value) :=
  decidable_of_iff ((value.all fun x => x != ';' && x != '\\' && !Plugin.isISOControl x) =
    true) <| by
    unfold PlainValue
    simp only [List.all_eq_true, Bool.and_eq_true, bne_iff_ne, Bool.not_eq_true', and_assoc]

theorem PlainValue.unescaped {value : Text} (h : PlainValue value) :
    ∀ x ∈ value, x ≠ ';' ∧ x ≠ '\\' := by
  intro x hx
  obtain ⟨hsemicolon, hback, -⟩ := h x hx
  exact ⟨hsemicolon, hback⟩

/-- Nothing in the config is written in one way and read in another. -/
structure Config.Plain (c : Config) : Prop where
  plus : '+' ∉ c.userInfo
  slash : '/' ∉ c.userInfo
  server : ¬ JavaUri.IsIPv6Literal c.server
  options : ∀ p ∈ c.plugin, ∀ e ∈ p.options, PlainValue e.2

/-! ## The plugin string -/

section Options

open Plugin

variable {mode host : Text}

/-- The plugin string of an "obfs" proxy. -/
def obfsText (mode host : Text) : Text :=
  "obfs-local".toList ++ ';' :: joinOpts (obfsOptions mode host)

theorem obfsText_eq (mode host : Text) : obfsText mode host = "obfs-local".toList ++ ';' ::
    ("obfs".toList ++ '=' :: (mode ++ ';' :: ("obfs-host".toList ++ '=' :: host))) := by
  unfold obfsText joinOpts obfsOptions
  simp only [List.map_cons, List.map_nil, List.intercalate, List.intersperse, List.flatten_cons,
    List.flatten_nil, List.append_nil, List.append_assoc, List.cons_append, List.nil_append]

theorem obfsText_ne_nil (mode host : Text) : obfsText mode host ≠ [] :=
  List.append_ne_nil_of_left_ne_nil (by decide) _

theorem control_obfsText (mode host : Text) : (obfsText mode host).any isISOControl =
    (mode.any isISOControl || host.any isISOControl) := by
  have h1 : "obfs-local".toList.any isISOControl = false := by decide
  have h2 : "obfs".toList.any isISOControl = false := by decide
  have h3 : "obfs-host".toList.any isISOControl = false := by decide
  have h4 : isISOControl ';' = false := by decide
  have h5 : isISOControl '=' = false := by decide
  rw [obfsText_eq]
  simp only [List.any_append, List.any_cons, h1, h2, h3, h4, h5, Bool.false_or]

/-- Plain values are read as they were written. -/
theorem ofOptions_obfsText (hmode : PlainValue mode) (hhost : PlainValue host) :
    ∃ o, PluginOptions.ofOptions (some (obfsText mode host)) = some o ∧ o.id = "obfs-local".toList ∧
      o.entries = (obfsOptions mode host).map fun e => (e.1, some e.2) := by
  have hcontrol : ¬ (obfsText mode host).any isISOControl = true := by
    rw [control_obfsText, Bool.or_eq_true, List.any_eq_true, List.any_eq_true]
    rintro (⟨x, hx, hc⟩ | ⟨x, hx, hc⟩)
    · rw [(hmode x hx).2.2] at hc
      cases hc
    · rw [(hhost x hx).2.2] at hc
      cases hc
  have htext : obfsText mode host ++ [';'] = "obfs-local".toList ++ ';' :: ("obfs".toList ++ '=' ::
      (mode ++ ';' :: ("obfs-host".toList ++ '=' :: (host ++ ';' :: [])))) := by
    rw [obfsText_eq]
    simp only [List.append_assoc, List.cons_append]
  unfold PluginOptions.ofOptions
  rw [PluginOptions.parse_of_ne_nil (obfsText_ne_nil mode host), if_neg hcontrol, htext,
    Reader.read_id (forall_eq_false (by decide)) (by decide) rfl rfl rfl,
    Reader.read_entry (forall_eq_false (by decide)) hmode.unescaped rfl rfl,
    Reader.read_entry (forall_eq_false (by decide)) hhost.unescaped rfl rfl]
  refine ⟨_, rfl, rfl, ?_⟩
  show List.filter _ (List.filter _ [] ++ [("obfs".toList, some mode)]) ++ _ = _
  rw [List.filter_nil, List.nil_append, List.filter_cons_of_pos rfl]
  rfl

theorem plainValue_of {value : Text} (hcontrol : ∀ x ∈ value, ¬ isISOControl x = true)
    (hback : '\\' ∉ value) (hcount : value.count ';' = 0) : PlainValue value := by
  intro x hx
  refine ⟨?_, ?_, Bool.eq_false_iff.mpr (hcontrol x hx)⟩
  · intro heq
    exact List.count_eq_zero.mp hcount (heq ▸ hx)
  · intro heq
    exact hback (heq ▸ hx)

section Reads

variable {o : PluginOptions} (hid : o.id = "obfs-local".toList)
  (hentries : o.entries.Perm ((obfsOptions mode host).map fun e => (e.1, some e.2)))

include hid hentries

/-- Options with the values that were written weigh as much as the text. -/
theorem weight_of_reads : o.weight = (obfsText mode host).length + 1 := by
  have h4 : "obfs".toList.length = 4 := by decide
  have h9 : "obfs-host".toList.length = 9 := by decide
  have h10 : "obfs-local".toList.length = 10 := by decide
  have hne : "obfs-local".toList.isEmpty = false := by decide
  have hsum : (o.entries.map entryWeight).sum = (mode.length + 6) + (host.length + 11) := by
    rw [(hentries.map entryWeight).sum_nat]
    simp only [obfsOptions, List.map_cons, List.map_nil, List.sum_cons, List.sum_nil, entryWeight,
      Option.elim]
    omega
  unfold PluginOptions.weight
  rw [hsum, hid, obfsText_eq, hne]
  simp only [List.length_append, List.length_cons, Bool.false_eq_true, if_false]
  omega

/-- As many items as were written leave no `;` to the values. -/
theorem count_of_reads (h : o.items = (obfsText mode host).count ';' + 1) :
    mode.count ';' = 0 ∧ host.count ';' = 0 := by
  have hthree : o.items = 3 := by
    unfold PluginOptions.items
    rw [hid, hentries.length_eq]
    rfl
  have h1 : "obfs-local".toList.count ';' = 0 := by decide
  have h2 : "obfs".toList.count ';' = 0 := by decide
  have h3 : "obfs-host".toList.count ';' = 0 := by decide
  rw [hthree, obfsText_eq] at h
  simp only [List.count_append, List.count_cons, h1, h2, h3, beq_self_eq_true, if_true] at h
  omega

/-- If the string is read with the values that were written, the values are plain: a string that
escapes or splits something loses a character of them. -/
theorem plain_of_ofOptions (h : PluginOptions.ofOptions (some (obfsText mode host)) = some o) :
    PlainValue mode ∧ PlainValue host := by
  obtain ⟨hcontrol, -, hfull⟩ := PluginOptions.parse_weight (obfsText_ne_nil mode host) h
  obtain ⟨hback, hitems⟩ := hfull (weight_of_reads hid hentries)
  obtain ⟨hmodeCount, hhostCount⟩ := count_of_reads hid hentries hitems
  rw [control_obfsText, Bool.or_eq_false_iff, List.any_eq_false, List.any_eq_false] at hcontrol
  rw [obfsText_eq] at hback
  simp only [List.mem_append, List.mem_cons, not_or] at hback
  obtain ⟨-, -, -, -, hmode, -, -, -, hhost⟩ := hback
  exact ⟨plainValue_of hcontrol.1 hmode hmodeCount, plainValue_of hcontrol.2 hhost hhostCount⟩

end Reads

end Options

/-! ## The link -/

section Link

variable {c : Config}

theorem madeOf_quote (s : Text) : JavaUri.MadeOf ['_', '.', '-', '~', '/', '%'] (quote s) := by
  have hhex : ∀ n < 16, JavaUri.isAlphanum (Percent.hexDigit n) = true := by decide
  intro x hx
  rcases Percent.mem_encode hx with hsafe | rfl | ⟨n, hn, rfl⟩
  · simp only [isQuoteSafe, Bool.or_eq_true, List.contains_iff_mem] at hsafe
    rcases hsafe with hsafe | hsafe
    · exact .inl hsafe
    · exact .inr (List.mem_append_left ['%'] hsafe)
  · exact .inr (by decide)
  · exact .inl (hhex n hn)

theorem madeOf_hostPort (hc : c.Built) : JavaUri.MadeOf ['-', '.', ':'] c.hostPort :=
  hc.server.madeOf.append
    (.cons (by decide) (JavaUri.madeOf_digits fun _ => JavaUri.isDigit_of_mem_decimal))

theorem isLinkChar_quote {s : Text} : ∀ x ∈ quote s, isLinkChar x = true :=
  (madeOf_quote s).forall isLinkChar_of_isAlphanum (by decide)

theorem madeOf_authority (hc : c.Built) :
    JavaUri.MadeOf ['+', '/', '@', '-', '.', ':'] (c.userInfo ++ '@' :: c.hostPort) :=
  ((madeOf_userInfo c).mono (by decide)).append
    (.cons (by decide) ((madeOf_hostPort hc).mono (by decide)))

theorem slash_not_mem_authority (hc : c.Built) (hslash : '/' ∉ c.userInfo) :
    '/' ∉ c.userInfo ++ '@' :: c.hostPort := by
  intro hm
  rcases List.mem_append.mp hm with hm | hm
  · exact hslash hm
  · rcases List.mem_cons.mp hm with hm | hm
    · cases hm
    · exact (madeOf_hostPort hc).not_mem rfl (by decide) hm

theorem isLinkChar_authority (hc : c.Built) : ∀ x ∈ c.userInfo ++ '@' :: c.hostPort,
    isLinkChar x = true :=
  (madeOf_authority hc).forall isLinkChar_of_isAlphanum (by decide)

theorem isLinkChar_query : ∀ x ∈ c.query, isLinkChar x = true := by
  intro x hx
  unfold Config.query at hx
  cases hplugin : c.plugin with
  | none =>
      rw [hplugin] at hx
      cases hx
  | some p =>
      have hkey : ∀ y ∈ '?' :: pluginKey ++ ['='], isLinkChar y = true :=
        List.all_eq_true.mp (by decide)
      rw [hplugin] at hx
      have hx' : x ∈ ('?' :: pluginKey ++ ['=']) ++ quote (p.plugin ++ ';' :: p.pluginOpts) := by
        rw [List.append_assoc]
        exact hx
      rcases List.mem_append.mp hx' with hx | hx
      · exact hkey x hx
      · exact isLinkChar_quote x hx

/-- A quoted text that does not end in `_` ends in a character that may end a link. -/
theorem quote_last {core : Text} (h : core.getLast? ≠ some '_') :
    ∃ init last, '#' :: quote core = init ++ [last] ∧ isLinkEnd last = true := by
  have hmarks : ∀ y ∈ ['_', '.', '-', '~', '/'], (y == '_' || isLinkEnd y) = true :=
    List.all_eq_true.mp (by decide)
  refine encode_last (by decide) fun x hx hsafe => ?_
  simp only [isQuoteSafe, Bool.or_eq_true, List.contains_iff_mem] at hsafe
  rcases hsafe with hsafe | hsafe
  · exact isLinkEnd_of_isAlphanum hsafe
  · have hend := hmarks x hsafe
    have hne : x ≠ '_' := fun heq => h (heq ▸ hx)
    rw [beq_eq_false_iff_ne.mpr hne] at hend
    exact hend

/-- The link that is found: without the `_` at the end of the name. -/
def Config.link (c : Config) (core : Text) : Text :=
  Platform.scheme ++ (c.userInfo ++ '@' :: c.hostPort) ++ (c.query ++ '#' :: quote core)

theorem quote_trailing (core : Text) (k : Nat) :
    quote (core ++ List.replicate k '_') = quote core ++ List.replicate k '_' := by
  have hsafe : ∀ k, quote (List.replicate k '_') = List.replicate k '_' := by
    intro k
    induction k with
    | zero => rfl
    | succ k ih =>
        show Percent.encodeChar isQuoteSafe '_' ++ quote (List.replicate k '_') = _
        rw [ih]
        rfl
  have happend : quote (core ++ List.replicate k '_') = quote core ++ quote
      (List.replicate k '_') := by
    unfold quote Percent.encode
    rw [List.flatMap_append]
  rw [happend, hsafe]

/-- One link is found in the line of a config. -/
theorem findAllUrls_config2url (P : Platform) (feature : Option Profile) (hc : c.Built) :
    ∃ core, findAllUrls P (some (config2url c)) feature =
      (parseUrl P feature (c.link core)).toList := by
  obtain ⟨name, hname⟩ := hc.name
  obtain ⟨core, k, rfl, hcore⟩ := exists_trailing '_' name
  obtain ⟨init, last, hquote, hlast⟩ := quote_last hcore
  refine ⟨core, ?_⟩
  have hinit : ∀ x ∈ c.userInfo ++ '@' :: c.hostPort ++ c.query ++ init, isLinkChar x = true := by
    intro x hx
    rcases List.mem_append.mp hx with hx | hx
    · rcases List.mem_append.mp hx with hx | hx
      · exact isLinkChar_authority hc x hx
      · exact isLinkChar_query x hx
    · have hmem : x ∈ '#' :: quote core := by
        rw [hquote]
        exact List.mem_append_left _ hx
      rcases List.mem_cons.mp hmem with rfl | hmem
      · rfl
      · exact isLinkChar_quote x hmem
  have hjunk : ∀ x ∈ List.replicate k '_', isLinkChar x = true ∧ isLinkEnd x = false := by
    intro x hx
    rw [List.eq_of_mem_replicate hx]
    decide
  have hlink : c.link core =
      Platform.scheme ++ (c.userInfo ++ '@' :: c.hostPort ++ c.query ++ init ++ [last]) := by
    unfold Config.link
    rw [hquote]
    simp only [List.append_assoc]
  have hurl : config2url c = c.link core ++ (List.replicate k '_' ++ []) := by
    rw [config2url_eq hname, quote_trailing]
    unfold Config.link
    simp only [List.append_assoc, List.cons_append, List.append_nil]
  have hnone : findAll 0 (List.replicate k '_' ++ []) = [] := by
    rw [List.append_nil]
    refine findAll_nil fun hm => ?_
    cases List.eq_of_mem_replicate hm
  have hfind : findAll 0 (config2url c) = [c.link core] := by
    have hafter : ∀ x ∈ ([] : Text).head?, isLinkChar x = false := by
      intro x hx
      cases hx
    rw [hurl, hlink, findAll_link hinit hlast hjunk hafter, hnone]
  unfold findAllUrls
  rw [Option.getD_some, hfind]
  cases hparse : parseUrl P feature (c.link core) with
  | none => rw [List.filterMap_cons_none hparse]; rfl
  | some profile => rw [List.filterMap_cons_some hparse]; rfl

/-! ## The parts of the link -/

theorem tail_head (c : Config) (core : Text) :
    ∀ x ∈ (c.query ++ '#' :: quote core).head?, x = '?' ∨ x = '#' := by
  intro x hx
  unfold Config.query at hx
  cases hplugin : c.plugin with
  | none =>
      rw [hplugin] at hx
      cases hx
      exact .inr rfl
  | some p =>
      rw [hplugin] at hx
      cases hx
      exact .inl rfl

/-- Without `/` in the base64 text it is the user info of the link. -/
theorem userInfo_link {P : Platform} (hP : P.Documented) (hc : c.Built) (hslash : '/' ∉ c.userInfo)
    (core : Text) : P.userInfo (c.link core) = some c.userInfo := by
  refine hP.userInfo_some _ _ _ ?_ ?_ ?_ ?_
  · have hauthority : JavaUri.MadeOf ['+', '-', '.', ':'] (c.userInfo ++ c.hostPort) :=
      (((madeOf_userInfo c).without hslash).mono (by decide)).append
        ((madeOf_hostPort hc).mono (by decide))
    exact inAuthority_of_madeOf hauthority (by decide)
  · exact (madeOf_hostPort hc).not_mem rfl (by decide)
  · exact (madeOf_userInfo c).not_mem rfl (by decide)
  · intro x hx
    exact .inr (tail_head c core x hx)

/-- The plugin parameter of the link is the plugin string of the config. -/
theorem queryParameter_link {P : Platform} (hP : P.Documented) (hc : c.Built) (core : Text) :
    P.queryParameter (c.link core) pluginKey =
      c.plugin.map fun p => p.plugin ++ ';' :: p.pluginOpts := by
  have hmark := (madeOf_authority hc).not_mem (x := '?') (by decide) (by decide)
  have hhash := (madeOf_authority hc).not_mem (x := '#') (by decide) (by decide)
  have hafter : Platform.AfterQuery ('#' :: quote core) := by
    intro x hx
    cases hx
    rfl
  unfold Config.link Config.query
  cases c.plugin with
  | none =>
      rw [List.nil_append, Option.map_none]
      exact hP.queryParameter_none _ _ _ hmark hhash hafter
  | some p =>
      have hsafe : ∀ x ∈ ['%', '+', '&', '#'], isQuoteSafe x = false := forall_eq_false (by decide)
      have hkey : ∀ x ∈ pluginKey, x.isAlphanum = true := List.all_eq_true.mp (by decide)
      have hparam :=
        hP.queryParameter_some _ pluginKey isQuoteSafe (p.plugin ++ ';' :: p.pluginOpts) _
        hmark hhash hkey hsafe hafter
      rw [Option.map_some, ← hparam]
      unfold quote
      simp only [List.append_assoc, List.cons_append]

/-- Without `+` and `/` the two base64 alphabets write the same text. -/
theorem encode_urlSafe {bytes : List UInt8} (hplus : '+' ∉ Base64.encode Base64.standard bytes)
    (hslash : '/' ∉ Base64.encode Base64.standard bytes) :
    Base64.encode Base64.standard bytes = Base64.encode Base64.urlSafe bytes := by
  have hsame : ∀ n < 64, Base64.standard.char n ≠ '+' → Base64.standard.char n ≠ '/' →
      Base64.standard.char n = Base64.urlSafe.char n := by decide
  refine List.map_congr_left fun n hn => hsame n (Base64.digitsOfBytes_lt bytes n hn) ?_ ?_
  · intro heq
    exact hplus (heq ▸ List.mem_map_of_mem hn)
  · intro heq
    exact hslash (heq ▸ List.mem_map_of_mem hn)

theorem checkTail_link (c : Config) (core : Text) :
    JavaUri.checkTail (c.query ++ '#' :: quote core) = true := by
  have hsafe : ∀ x, isQuoteSafe x = true → JavaUri.isUric x = true := by
    intro x hx
    simp only [isQuoteSafe, Bool.or_eq_true, List.contains_iff_mem] at hx
    rcases hx with hx | hx
    · simp only [JavaUri.isUric, JavaUri.isUnreserved, hx, Bool.true_or]
    · have hmarks : ∀ y ∈ ['_', '.', '-', '~', '/'], JavaUri.isUric y = true :=
        List.all_eq_true.mp (by decide)
      exact hmarks x hx
  have hfragment : JavaUri.checkChars JavaUri.isUric (quote core) = true :=
    JavaUri.checkChars_encode (a := []) rfl hsafe (List.forall_mem_nil _) core
  unfold Config.query
  cases c.plugin with
  | none => exact JavaUri.checkTail_fragment hfragment
  | some p =>
      have hkey : ∀ x ∈ pluginKey ++ ['='], JavaUri.isUric x = true :=
        List.all_eq_true.mp (by decide)
      have hquery : JavaUri.checkChars JavaUri.isUric
          (pluginKey ++ '=' :: quote (p.plugin ++ ';' :: p.pluginOpts)) = true := by
        have hcheck := JavaUri.checkChars_encode rfl hsafe hkey (p.plugin ++ ';' :: p.pluginOpts)
        rw [List.append_assoc] at hcheck
        exact hcheck
      refine JavaUri.checkTail_query ?_ hquery hfragment
      intro hm
      have hkeyHash : '#' ∉ pluginKey ++ ['='] := by decide
      rcases List.mem_append.mp hm with hm | hm
      · exact hkeyHash (List.mem_append_left _ hm)
      · rcases List.mem_cons.mp hm with hm | hm
        · cases hm
        · exact (madeOf_quote _).not_mem rfl (by decide) hm

theorem isUserInfo_userInfo (hslash : '/' ∉ c.userInfo) : ∀ x ∈ c.userInfo,
    JavaUri.isUserInfo x = true :=
  ((madeOf_userInfo c).without hslash).forall JavaUri.isUserInfo_of_isAlphanum (by decide)

/-- Host and port of a link whose server needs no brackets. -/
theorem parse_link (hc : c.Built) (hslash : '/' ∉ c.userInfo)
    (hserver : ¬ JavaUri.IsIPv6Literal c.server) (core : Text) :
    JavaUri.parse (c.link core) = some ⟨some c.server, (c.serverPort : Int)⟩ := by
  have hport : c.serverPort < 2 ^ 31 := Nat.lt_of_le_of_lt hc.port (by decide)
  refine JavaUri.parse_link (isUserInfo_userInfo hslash) ?_
    (JavaUri.parseHostPort_plainHost (hc.server.plain hserver) hport) ?_ (checkTail_link c core)
  · exact (madeOf_hostPort hc).forall JavaUri.isServer_of_isAlphanum (by decide)
  · intro x hx
    rcases tail_head c core x hx with rfl | rfl <;> rfl

theorem readsPlugin_of_plain (hc : c.Built)
    (hoptions : ∀ p ∈ c.plugin, ∀ e ∈ p.options, PlainValue e.2) :
    c.ReadsPlugin (c.plugin.map fun p => p.plugin ++ ';' :: p.pluginOpts) := by
  unfold Config.ReadsPlugin
  rcases hc.plugin with hnone | ⟨mode, host, hsome⟩
  · rw [hnone]
    rfl
  · rw [hsome] at hoptions ⊢
    have hvalues := hoptions _ rfl
    obtain ⟨o, ho, hid, hentries⟩ := ofOptions_obfsText
      (hvalues ("obfs".toList, mode) List.mem_cons_self)
      (hvalues ("obfs-host".toList, host) (List.mem_cons_of_mem _ List.mem_cons_self))
    exact ⟨o, ho, hid, hentries ▸ List.Perm.refl _⟩

/-- A plain config is read as it was written. -/
theorem agrees_of_plain {P : Platform} (hP : P.Documented) (feature : Option Profile) (hc : c.Built)
    (h : c.Plain) : c.Agrees P feature := by
  obtain ⟨core, hfind⟩ := findAllUrls_config2url P feature hc
  have hbytes : P.base64Decode Base64.urlSafe c.userInfo =
      some (Utf8.encode (c.method ++ ':' :: c.password)) := by
    have hplus := h.plus
    have hslash := h.slash
    rw [Config.userInfo_eq] at hplus hslash ⊢
    rw [encode_urlSafe hplus hslash]
    exact hP.base64_encode _ (.inr rfl) _
  have hhead : c.server.head? ≠ some '[' := by
    have hport := JavaUri.plainHost_head (hc.server.plain h.server) (JavaUri.decimal c.serverPort)
    cases hserver : c.server with
    | nil => exact fun heq => nomatch heq
    | cons x rest =>
        rw [hserver] at hport
        exact hport
  obtain ⟨profile, hprofile, hmethod, hpassword, hhost, hport, hplugin, -⟩ :=
    parseSip002_read feature hbytes (matchUserInfo_eq hc.method_ne hc.method_colon hc.lines)
      (parse_link hc h.slash h.server core)
  rw [unbracket_of_head hhead] at hhost
  refine ⟨profile, ?_, hmethod, hpassword, hhost, hport, ?_⟩
  · rw [hfind, parseUrl_of_userInfo (userInfo_link hP hc h.slash core), hprofile]
    rfl
  · rw [hplugin, queryParameter_link hP hc core]
    exact readsPlugin_of_plain hc h.options

/-! ## Where the two sides part -/

/-- A text that ends within `method:password` but still has the password, an `@` and more after a
colon has that colon within the method. -/
theorem colon_mem_of_cut {method password m rest text : Text} {k : Nat}
    (htext : text = m ++ ':' :: (password ++ rest)) (hrest : 2 ≤ rest.length)
    (hcut : text = (method ++ ':' :: password).take k ∨
      text = (method ++ ':' :: password).take k ++ [Utf8.replacement] ∧
        k < (method ++ ':' :: password).length) : ':' ∈ method := by
  have hfull : (method ++ ':' :: password).length = method.length + 1 + password.length := by
    rw [List.length_append, List.length_cons]
    omega
  -- in both cases the text is a beginning and at most one character more
  obtain ⟨more, hmore, hone, hbound⟩ : ∃ more, text = (method ++ ':' :: password).take k ++ more ∧
      more.length ≤ 1 ∧ text.length ≤ method.length + 1 + password.length := by
    rcases hcut with hcut | ⟨hcut, hk⟩
    · refine ⟨[], by rw [hcut, List.append_nil], by decide, ?_⟩
      rw [hcut, ← hfull]
      exact List.length_take_le' _ _
    · refine ⟨_, hcut, Nat.le_refl 1, ?_⟩
      rw [hcut, List.length_append, List.length_take, List.length_singleton]
      omega
  have hlen : m.length + 1 + password.length + 2 ≤ text.length := by
    rw [htext, List.length_append, List.length_cons, List.length_append]
    omega
  have hin : m.length < ((method ++ ':' :: password).take k).length := by
    rw [hmore, List.length_append] at hlen
    omega
  have hcolon : text[m.length]? = some ':' := by
    rw [htext, List.getElem?_append_right (Nat.le_refl _), Nat.sub_self]
    rfl
  rw [hmore, List.getElem?_append_left hin,
    List.getElem?_take_of_lt (Nat.lt_of_lt_of_le hin (List.length_take_le _ _)),
    List.getElem?_append_left (by omega)] at hcolon
  exact List.mem_of_getElem? hcolon

variable {P : Platform} {feature : Option Profile}

/-- A `/` in the base64 text ends the authority of the link. What stands before it is read as a link
of the old form. -/
theorem legacy_of_slash (hP : P.Documented) {u v : Text} (huser : c.userInfo = u ++ '/' :: v)
    (hu : '/' ∉ u) {core : Text} {profile : Profile}
    (h : parseUrl P feature (c.link core) = some profile) :
    ∃ bytes method port, bytes <+: Utf8.encode (c.method ++ ':' :: c.password) ∧
      matchLegacy (Utf8.decode bytes) = some (method, profile.password, profile.host, port) := by
  have hplain : JavaUri.MadeOf ['+'] u := by
    refine JavaUri.MadeOf.without (fun x hx => madeOf_userInfo c x ?_) hu
    rw [huser]
    exact List.mem_append_left _ hx
  have hin := inAuthority_of_madeOf hplain (by decide)
  have hlink : c.link core = Platform.scheme ++ u ++
      ('/' :: (v ++ ('@' :: c.hostPort ++ (c.query ++ '#' :: quote core)))) := by
    unfold Config.link
    rw [huser]
    simp only [List.append_assoc, List.cons_append]
  have hafter : ∀ r, Platform.AfterAuthority ('/' :: r) := by
    intro r x hx
    cases hx
    exact .inl rfl
  have hat : '@' ∉ u := hplain.not_mem rfl (by decide)
  rw [hlink, parseUrl_of_no_userInfo (hP.userInfo_none _ _ hin hat (hafter _))] at h
  obtain ⟨bytes, method, port, hbytes, hmatch, -⟩ := parseLegacy_some h
  rw [hP.host_authority _ _ hin hat (hplain.not_mem rfl (by decide))
    (hplain.not_mem rfl (by decide)) (hafter _), Option.getD_some] at hbytes
  refine ⟨bytes, method, port, ?_, hmatch⟩
  rw [hP.base64_bytes _ (.inl rfl) _ _ (hplain.not_mem rfl (by decide)) hbytes]
  refine Base64.prefix_of_cut (b := '/' :: v) ?_
  rw [← Config.userInfo_eq, huser]

/-- What stands before a `/` is too short to hold the password. -/
theorem slash_of_profile (hP : P.Documented) (hc : c.Built) {core : Text} {profile : Profile}
    (h : parseUrl P feature (c.link core) = some profile)
    (hpassword : profile.password = c.password) :
    '/' ∉ c.userInfo := by
  intro hslash
  obtain ⟨u, v, huser, hu⟩ := List.eq_append_cons_of_mem hslash
  obtain ⟨bytes, method, port, hcut, hmatch⟩ := legacy_of_slash hP huser hu h
  obtain ⟨k, hk⟩ := Utf8.decode_of_prefix hcut
  have hsplit := matchLegacy_some hmatch
  rw [hpassword] at hsplit
  refine hc.method_colon (colon_mem_of_cut hsplit ?_ (hk.imp_left And.right))
  simp only [List.length_cons, List.length_append]
  omega

/-- A `+` in the base64 text is none of the alphabet the app reads, so the text spells fewer
bytes. -/
theorem plus_of_profile (hP : P.Documented) (hc : c.Built)
    (htext : Utf8.replacement ∉ c.method ++ ':' :: c.password) (hslash : '/' ∉ c.userInfo)
    {core : Text} {profile : Profile} (h : parseUrl P feature (c.link core) = some profile)
    (hmethod : profile.method = c.method) (hpassword : profile.password = c.password) :
    '+' ∉ c.userInfo := by
  intro hplus
  rw [parseUrl_of_userInfo (userInfo_link hP hc hslash core)] at h
  obtain ⟨bytes, -, hbytes, hmatch, -⟩ := parseSip002_some h
  have hpad : '=' ∉ c.userInfo := (madeOf_userInfo c).not_mem rfl (by decide)
  have hdigits := hP.base64_bytes _ (.inr rfl) _ _ hpad hbytes
  have hdecode : Utf8.decode bytes = c.method ++ ':' :: c.password := by
    rw [matchUserInfo_some hmatch, hmethod, hpassword]
  have hencode : Utf8.encode (c.method ++ ':' :: c.password) = bytes := by
    rw [← hdecode] at htext ⊢
    exact Utf8.encode_decode bytes htext
  have hfewer : (c.userInfo.filterMap Base64.urlSafe.digit).length <
      (Base64.digitsOfBytes (Utf8.encode (c.method ++ ':' :: c.password))).length := by
    have hlength : c.userInfo.length =
        (Base64.digitsOfBytes (Utf8.encode (c.method ++ ':' :: c.password))).length := by
      rw [Config.userInfo_eq]
      exact List.length_map _
    rw [← hlength, List.length_filterMap_lt_length_iff_exists]
    exact ⟨'+', hplus, rfl⟩
  have hlt := Base64.length_bytesOfDigits_lt hfewer
  rw [← hdigits, hencode] at hlt
  exact Nat.lt_irrefl _ hlt

/-- The host of a link without brackets has no colon. -/
theorem server_of_profile (hP : P.Documented) (hc : c.Built) (hslash : '/' ∉ c.userInfo)
    {core : Text} {profile : Profile} (h : parseUrl P feature (c.link core) = some profile)
    (hhost : profile.host = c.server) : ¬ JavaUri.IsIPv6Literal c.server := by
  intro hsix
  rw [parseUrl_of_userInfo (userInfo_link hP hc hslash core)] at h
  obtain ⟨-, uri, -, -, huri, hread, -⟩ := parseSip002_some h
  have hcolon : ':' ∈ uri.host.getD [] := by
    apply mem_of_mem_unbracket
    rw [← hread, hhost]
    exact JavaUri.colon_mem_ipv6 hsix
  cases hsome : uri.host with
  | none =>
      rw [hsome] at hcolon
      cases hcolon
  | some host =>
      rw [hsome, Option.getD_some] at hcolon
      refine JavaUri.host_of_parse (isUserInfo_userInfo hslash) ?_ ?_ ?_ huri hsome hcolon
      · intro x hx
        unfold JavaUri.inAuthority
        simp only [Bool.and_eq_true, bne_iff_ne]
        refine ⟨⟨?_, ?_⟩, ?_⟩
        · rintro rfl
          exact slash_not_mem_authority hc hslash hx
        · rintro rfl
          exact (madeOf_authority hc).not_mem (by decide) (by decide) hx
        · rintro rfl
          exact (madeOf_authority hc).not_mem (by decide) (by decide) hx
      · intro hhead
        have hmem : '[' ∈ c.hostPort := List.mem_of_mem_head? hhead
        exact (madeOf_hostPort hc).not_mem rfl (by decide) hmem
      · intro x hx
        rcases tail_head c core x hx with rfl | rfl <;> rfl

theorem options_of_reads (hc : c.Built)
    (h : c.ReadsPlugin (c.plugin.map fun p => p.plugin ++ ';' :: p.pluginOpts)) :
    ∀ p ∈ c.plugin, ∀ e ∈ p.options, PlainValue e.2 := by
  rcases hc.plugin with hnone | ⟨mode, host, hsome⟩
  · rw [hnone]
    intro p hp
    cases hp
  · unfold Config.ReadsPlugin at h
    rw [hsome] at h ⊢
    obtain ⟨o, ho, hid, hentries⟩ := h
    obtain ⟨hmode, hhost⟩ := plain_of_ofOptions hid hentries ho
    intro p hp e he
    cases hp
    rcases List.mem_cons.mp he with rfl | he
    · exact hmode
    · rw [List.mem_singleton.mp he]
      exact hhost

/-- Where the two sides agree, the config is plain. -/
theorem plain_of_agrees (hP : P.Documented) (hc : c.Built)
    (htext : Utf8.replacement ∉ c.method ++ ':' :: c.password) (h : c.Agrees P feature) :
    c.Plain := by
  obtain ⟨profile, hprofile, hmethod, hpassword, hhost, -, hplugin⟩ := h
  obtain ⟨core, hfind⟩ := findAllUrls_config2url P feature hc
  have hparse : parseUrl P feature (c.link core) = some profile := by
    rw [hfind] at hprofile
    cases hread : parseUrl P feature (c.link core) with
    | none =>
        rw [hread] at hprofile
        cases hprofile
    | some found =>
        rw [hread] at hprofile
        cases hprofile
        rfl
  have hslash := slash_of_profile hP hc hparse hpassword
  have hread : profile.plugin = c.plugin.map fun p => p.plugin ++ ';' :: p.pluginOpts := by
    rw [parseUrl_of_userInfo (userInfo_link hP hc hslash core)] at hparse
    obtain ⟨-, -, -, -, -, -, hparam⟩ := parseSip002_some hparse
    rw [hparam, queryParameter_link hP hc core]
  rw [hread] at hplugin
  exact ⟨plus_of_profile hP hc htext hslash hparse hmethod hpassword, hslash,
    server_of_profile hP hc hslash hparse hhost, options_of_reads hc hplugin⟩

end Link

/-- Of every well-formed proxy `main` builds a config. The app reads its link as it was written if
the config is plain, and, unless method or password contain U+FFFD, only then. -/
theorem feed_link_agrees (P : Platform) (hP : P.Documented) (feature : Option Profile)
    (proxy : Proxy) (hproxy : proxy.WellFormed) (name : Text) :
    ∃ config, proxy.toConfig name = some config ∧
      (config.Plain → config.Agrees P feature) ∧
      (Utf8.replacement ∉ proxy.cipher → Utf8.replacement ∉ proxy.password →
        config.Agrees P feature → config.Plain) := by
  obtain ⟨config, hconfig, hbuilt, hmethod, hpassword, -⟩ := toConfig_some hproxy name
  refine ⟨config, hconfig, agrees_of_plain hP feature hbuilt, ?_⟩
  intro hcipher hpass hagrees
  refine plain_of_agrees hP hbuilt ?_ hagrees
  rw [hmethod, hpassword, List.mem_append, List.mem_cons, not_or, not_or]
  exact ⟨hcipher, by decide, hpass⟩

/-- A server "h" with the plugin. -/
def sampleProxy (password : Text) : Proxy where
  cipher := "a".toList
  password := password
  server := "h".toList
  port := 1
  plugin := some "obfs".toList
  pluginOpts := some [("mode".toList, "http".toList), ("host".toList, "w=1".toList)]

theorem sampleProxy_wellFormed {password : Text}
    (h : ∀ c ∈ password, Profile.isLineTerminator c = false) :
    (sampleProxy password).WellFormed where
  cipher_ne := List.cons_ne_nil _ _
  cipher_colon := by
    show ':' ∉ "a".toList
    decide
  cipher_lines := by
    show ∀ c ∈ "a".toList, Profile.isLineTerminator c = false
    exact forall_eq_false (by decide)
  password_lines := h
  server := by
    refine .inl ⟨[], "h".toList, [], List.forall_mem_nil _,
      ⟨by decide, List.all_eq_true.mp (by decide), ?_, ?_⟩, ?_, .inl rfl, rfl⟩
    · intro c hc
      cases hc
      decide
    · intro c hc
      cases hc
      decide
    · intro c hc
      cases hc
      rfl
  port := ⟨Nat.le_refl 1, by show 1 ≤ 65535; decide⟩
  plugin := .inr ⟨rfl, "http".toList, "w=1".toList, .inl rfl⟩

/-- The sample with the password "b". -/
theorem feed_link_agrees_sample : ∃ config,
    (sampleProxy "b".toList).toConfig "DE-Hesse".toList = some config ∧
      config.Agrees aosp none := by
  obtain ⟨config, hconfig, hplain, -⟩ := feed_link_agrees aosp aosp_documented none
    (sampleProxy "b".toList) (sampleProxy_wellFormed (forall_eq_false (by decide)))
      "DE-Hesse".toList
  refine ⟨config, hconfig, hplain ?_⟩
  cases hconfig
  refine ⟨by decide +kernel, by decide +kernel, ?_, ?_⟩
  · intro hsix
    exact absurd (JavaUri.colon_mem_ipv6 hsix) (by decide)
  · intro p hp e he
    cases hp
    rcases List.mem_cons.mp he with rfl | he
    · decide
    · rw [List.mem_singleton.mp he]
      decide

/-- The password ">" makes "YTo+" of the user info; the app reads the empty password from it. -/
theorem feed_link_drops_plus : ∃ config, (sampleProxy ">".toList).WellFormed ∧
    (sampleProxy ">".toList).toConfig "DE-Hesse".toList = some config ∧
    ((findAllUrls aosp (some (config2url config)) none).map fun p => (p.method, p.password)) =
      [("a".toList, [])] ∧ ¬ config.Agrees aosp none := by
  refine ⟨_, sampleProxy_wellFormed (forall_eq_false (by decide)), rfl, ?_⟩
  have hread : ((findAllUrls aosp (some (config2url
      (((sampleProxy ">".toList).toConfig "DE-Hesse".toList).get rfl))) none).map
        fun p => (p.method, p.password)) = [("a".toList, [])] := by decide +kernel
  refine ⟨hread, ?_⟩
  rintro ⟨profile, hprofile, -, hpassword, -⟩
  have hpair : [(profile.method, profile.password)] = [("a".toList, [])] := by
    rw [← hread]
    exact (congrArg (List.map fun p => (p.method, p.password)) hprofile).symm
  have hempty : profile.password = [] := (Prod.mk.inj (List.cons.inj hpair).1).2
  rw [hpassword] at hempty
  exact List.cons_ne_nil _ _ hempty

end CypherConnect.Feed
