/-
  JSON export: `Profile.toJson` and `ProfileManager.serializeToJson`, and the import of what they
  write.

  A printed document is taken to be parsed as the values it was printed from. The name, the server
  and the settings of a profile come back as they were. The options of its plugin are written
  without their id, read again and stored as a plugin string, which is read as a command line of an
  old release if it starts like one. The fallback of a profile is written into its object, and is
  found again among the profiles that were imported with it.

  * `get_jsonObject`: the members of an object that was put together field by field.
  * `reads_toJson`: the profile that is read from an exported one (`reimported`).
  * `json_round_trip_iff`: an exported list comes back, one profile for each and no others, exactly
    if there are ids for the profiles and no plugin string is read differently.
-/
import CypherConnect.Database.JsonImport
import CypherConnect.Plugin.Selected

namespace CypherConnect

open Plugin JsonParser ProfileTable

/-! ## Objects -/

/-- `JSONObject().apply { put(…) … }`: what is put with `null` is left out. -/
def jsonObject (fields : List (String × Option Json)) : Members :=
  fields.filterMap fun field => field.2.map fun value => (field.1.toList, value)

/-- The first field: the member it is asked for, or left out, or passed over. -/
theorem get_jsonObject_cons (name : String) (value : Option Json)
    (fields : List (String × Option Json))
    (key : String) : Json.get (jsonObject ((name, value) :: fields)) key.toList =
      if name = key then value.or (Json.get (jsonObject fields) key.toList)
      else Json.get (jsonObject fields) key.toList := by
  cases value with
  | none =>
      show Json.get (jsonObject fields) key.toList = _
      rw [Option.none_or, ite_self]
  | some value =>
      show ((List.find? (·.1 == key.toList) ((name.toList, value) :: jsonObject fields)).map
          Prod.snd) = _
      rw [List.find?_cons]
      by_cases h : name = key
      · rw [if_pos h, h, beq_self_eq_true]
        rfl
      · rw [if_neg h, beq_eq_false_iff_ne.mpr fun heq => h (String.toList_inj.mp heq)]
        rfl

theorem get_jsonObject_of_not_mem {fields : List (String × Option Json)} {key : String}
    (h : key ∉ fields.map Prod.fst) : Json.get (jsonObject fields) key.toList = none := by
  induction fields with
  | nil => rfl
  | cons field fields ih =>
      obtain ⟨hne, hrest⟩ := List.ne_and_not_mem_of_not_mem_cons h
      rw [get_jsonObject_cons, if_neg hne.symm, ih hrest]

/-- The member of a field, if the fields have different names. -/
theorem get_jsonObject {fields : List (String × Option Json)} (hnames : (fields.map Prod.fst).Nodup)
    (key : String) : Json.get (jsonObject fields) key.toList = (fields.lookup key).join := by
  induction fields with
  | nil => rfl
  | cons field fields ih =>
      obtain ⟨name, value⟩ := field
      rw [List.map_cons, List.nodup_cons] at hnames
      rw [get_jsonObject_cons, List.lookup_cons]
      by_cases h : name = key
      · rw [if_pos h, get_jsonObject_of_not_mem (h ▸ hnames.1), Option.or_none, h, beq_self_eq_true]
        rfl
      · rw [if_neg h, ih hnames.2, beq_eq_false_iff_ne.mpr (Ne.symm h)]

/-! ## Writing -/

namespace Profile

/-- The fields of `toJson()`. -/
def serverFields (p : Profile) : List (String × Option Json) :=
  [("server", some (.string p.host)),
    ("server_port", some (.number (ToString.toString p.remotePort).toList)),
    ("password", some (.string p.password)),
    ("method", some (.string p.method))]

/-- The fields of `proxy_apps`. -/
def proxyAppsFields (p : Profile) : List (String × Option Json) :=
  [("enabled", some (.bool p.proxyApps)),
    ("bypass", if p.proxyApps then some (.bool p.bypass) else none),
    ("android_list",
      if p.proxyApps then some (.array ((p.individual.splitOn '\n').map .string)) else none)]

/-- `udp_fallback`: the server of a fallback without plugin that is exported too. -/
def fallbackField (profiles : Int → Option Profile) (p : Profile) : Option Json :=
  match p.udpFallback.bind profiles with
  | some fallback =>
      if (fallback.plugin.getD []).isEmpty then some (.object (jsonObject fallback.serverFields))
      else none
  | none => none

/-- The fields of `toJson(profiles)`, with the options of the selected plugin. -/
def fields (E : Enumeration) (profiles : Int → Option Profile) (p : Profile)
    (options : PluginOptions) :
    List (String × Option Json) :=
  p.serverFields ++
    [("plugin", if options.id.isEmpty then none else some (.string options.id)),
      ("plugin_opts", if options.id.isEmpty then none
        else some (.string (options.toString E true))),
      ("remarks", p.name.map .string),
      ("route", some (.string p.route)),
      ("remote_dns", some (.string p.remoteDns)),
      ("ipv6", some (.bool p.ipv6)),
      ("metered", some (.bool p.metered)),
      ("proxy_apps", some (.object (jsonObject p.proxyAppsFields))),
      ("udpdns", some (.bool p.udpdns)),
      ("udp_fallback", fallbackField profiles p)]

/-- `toJson(profiles)`; `none` is the exception of a plugin string that cannot be read. -/
def toJson (E : Enumeration) (defaults : Text → Option Text) (profiles : Int → Option Profile)
    (p : Profile) : Option Members :=
  (selectedOptions defaults p.plugin).map fun options => jsonObject (p.fields E profiles options)

end Profile

/-- `ProfileManager.serializeToJson`. -/
def ProfileManager.serializeToJson (E : Enumeration) (defaults : Text → Option Text)
    (profiles : List Profile) : Option Json :=
  (profiles.mapM (Profile.toJson E defaults (Keyed.associateBy Profile.id profiles))).map
    fun objs =>
    .array (objs.map .object)

namespace Profile

/-- A profile that can be exported and is recognised afterwards. -/
structure Exportable (defaults : Text → Option Text) (p : Profile) : Prop where
  host : p.host ≠ []
  password : p.password ≠ []
  method : p.method ≠ []
  port : 1 ≤ p.remotePort ∧ p.remotePort ≤ 65535
  plugin : ∃ o, selectedOptions defaults p.plugin = some o ∧ o.NoControl

/-- The second profile agrees with the first on what is exported. -/
structure ExportedAs (defaults : Text → Option Text) (p q : Profile) : Prop where
  host : q.host = p.host
  remotePort : q.remotePort = p.remotePort
  password : q.password = p.password
  method : q.method = p.method
  plugin : ∃ o o', selectedOptions defaults p.plugin = some o ∧
    selectedOptions defaults q.plugin = some o' ∧ o'.equals o = true
  name : q.name = p.name
  route : q.route = p.route
  remoteDns : q.remoteDns = p.remoteDns
  ipv6 : q.ipv6 = p.ipv6
  metered : q.metered = p.metered
  udpdns : q.udpdns = p.udpdns
  proxyApps : q.proxyApps = p.proxyApps
  bypass : p.proxyApps = true → q.bypass = p.bypass
  individual : p.proxyApps = true → q.individual = p.individual

/-- No selected plugin has an id that starts like a command line. -/
def NoCommandLine (defaults : Text → Option Text) (p : Profile) : Prop :=
  ∀ o, selectedOptions defaults p.plugin = some o → ¬ kcptunMark <+: o.id

end Profile

/-! ## Plugins -/

namespace Plugin

variable {E : Enumeration} {o o' : PluginOptions}

/-- What is known of selected options. -/
theorem selectedOptions_some {defaults : Text → Option Text} {plugin : Option Text}
    (h : selectedOptions defaults plugin = some o) :
    (o.id = [] → o = {}) ∧ o.Proper (· == '\n') := by
  obtain ⟨c, hc, hoptions⟩ := Option.bind_eq_some_iff.mp h
  obtain ⟨o', hall, hid, hempty, hproper⟩ := PluginConfiguration.getOptions_selected hc
  rw [hall] at hoptions
  cases hoptions
  exact ⟨fun hnil => hempty (hid ▸ hnil), hproper⟩

theorem equals_enumerated : o'.equals (o.enumerated E) = true ↔ o'.equals o = true := by
  rw [PluginOptions.equals_iff, PluginOptions.equals_iff]
  refine and_congr_right fun _ => ⟨fun h => h.trans (E.perm o), fun h => h.trans (E.perm o).symm⟩

/-- The plugin string that an import stores for exported options. -/
def storedPlugin (E : Enumeration) (o : PluginOptions) : Option Text :=
  if o.id = [] then none else some ((o.enumerated E).toString E false)

/-- The stored string is read as the options that were exported, unless it starts like a command
line. -/
theorem selectedOptions_storedPlugin (defaults : Text → Option Text) (hempty : o.id = [] → o = {})
    (hproper : o.Proper (· == '\n')) (hcontrol : o.NoControl) :
    (∃ o', selectedOptions defaults (storedPlugin E o) = some o' ∧ o'.equals o = true) ↔
      ¬ kcptunMark <+: o.id := by
  unfold storedPlugin
  by_cases hid : o.id = []
  · rw [if_pos hid, hempty hid]
    refine iff_of_true ⟨{}, rfl, rfl⟩ fun hmark => ?_
    cases List.prefix_nil.mp hmark
  · have hproper' : (o.enumerated E).Proper (· == '\n') :=
      ⟨hproper.id, fun e he => hproper.entries e ((E.perm o).subset he),
        fun he => hproper.printable ((E.perm o).subset he)⟩
    have hcontrol' : (o.enumerated E).NoControl := ⟨hcontrol.1, hcontrol.enumerated⟩
    have hread := selectedOptions_cut_iff defaults (E := E) (o := o.enumerated E) hid hproper'
      (List.forall_mem_nil _) (List.append_nil _).symm
    simp only [equals_enumerated] at hread
    rw [if_neg hid, hread]
    exact ⟨fun h => h.2.2, fun h => ⟨trivial, hcontrol', h⟩⟩

end Plugin

/-! ## Reading an exported profile -/

section Read

variable {G : Gson} {E : Enumeration} {defaults : Text → Option Text}
  {profiles : Int → Option Profile} {p : Profile} {o : PluginOptions} {json : Members}

theorem nonEmpty_some {t : Text} (h : t ≠ []) : nonEmpty (some t) = some t := by
  have htest : (!t.isEmpty) = true := by rwa [Bool.not_eq_true', List.isEmpty_eq_false_iff]
  exact Option.filter_some_pos htest

/-- An object with the fields of a server is recognised, whatever else it has. -/
theorem server_jsonObject (hG : G.Documented) (hp : p.Exportable defaults)
    (rest : List (String × Option Json)) :
    server G (jsonObject (p.serverFields ++ rest)) = some (serverOf p) := by
  obtain ⟨hpos, hle⟩ := hp.port
  obtain ⟨port, hport⟩ := Int.eq_ofNat_of_zero_le (Int.le_of_lt hpos)
  have hprint : (ToString.toString p.remotePort).toList = JavaUri.decimal port := by
    rw [hport]
    exact Nat.toList_repr
  have hget (key : String) : Json.get (jsonObject (p.serverFields ++ rest)) key.toList =
      if "server" = key then some (.string p.host)
      else if "server_port" = key then some (.number (ToString.toString p.remotePort).toList)
      else if "password" = key then some (.string p.password)
      else if "method" = key then some (.string p.method)
      else Json.get (jsonObject rest) key.toList := by
    show Json.get (jsonObject ((_, _) :: (_, _) :: (_, _) :: (_, _) :: rest)) key.toList = _
    simp only [get_jsonObject_cons, Option.some_or]
  have hhost : optString (jsonObject (p.serverFields ++ rest)) "server" = some p.host := by
    unfold optString
    rw [hget, if_pos rfl]
    rfl
  have hint : optInt G (jsonObject (p.serverFields ++ rest)) "server_port" = some p.remotePort := by
    unfold optInt
    rw [hget, if_neg (by decide), if_pos rfl, hprint, hport]
    exact hG.intValue_decimal port (by omega)
  have hpassword : optString (jsonObject (p.serverFields ++ rest)) "password" =
      some p.password := by
    unfold optString
    rw [hget, if_neg (by decide), if_neg (by decide), if_pos rfl]
    rfl
  have hmethod : optString (jsonObject (p.serverFields ++ rest)) "method" = some p.method := by
    unfold optString
    rw [hget, if_neg (by decide), if_neg (by decide), if_neg (by decide), if_pos rfl]
    rfl
  have hfilter : (some p.remotePort).filter (fun n => decide (0 < n)) = some p.remotePort :=
    Option.filter_some_pos (decide_eq_true hpos)
  unfold server
  rw [hhost, hint, hpassword, hmethod, nonEmpty_some hp.host, nonEmpty_some hp.password,
    nonEmpty_some hp.method, hfilter]
  rfl

/-- The profile that comes back. -/
def reimported (E : Enumeration) (o : PluginOptions) (p : Profile) : Profile where
  name := p.name
  host := p.host
  remotePort := p.remotePort
  password := p.password
  method := p.method
  plugin := storedPlugin E o
  route := p.route
  remoteDns := p.remoteDns
  ipv6 := p.ipv6
  metered := p.metered
  proxyApps := p.proxyApps
  bypass := p.proxyApps && p.bypass
  individual := if p.proxyApps then p.individual else []
  udpdns := p.udpdns

theorem fields_nodup : ((p.fields E profiles o).map Prod.fst).Nodup := by
  show ["server", "server_port", "password", "method", "plugin", "plugin_opts", "remarks", "route",
    "remote_dns", "ipv6", "metered", "proxy_apps", "udpdns", "udp_fallback"].Nodup
  decide

theorem get_fields (key : String) : Json.get (jsonObject (p.fields E profiles o)) key.toList =
    ((p.fields E profiles o).lookup key).join :=
  get_jsonObject fields_nodup key

theorem pluginOf_fields (hproper : o.Proper (· == '\n')) (hcontrol : o.NoControl) :
    pluginOf E (jsonObject (p.fields E profiles o)) = .ok (storedPlugin E o) := by
  have hplugin : Json.get (jsonObject (p.fields E profiles o)) "plugin".toList =
      if o.id.isEmpty then none else some (.string o.id) := get_fields "plugin"
  have hopts : Json.get (jsonObject (p.fields E profiles o)) "plugin_opts".toList =
      if o.id.isEmpty then none else some (.string (o.toString E true)) := get_fields "plugin_opts"
  unfold pluginOf optString storedPlugin
  rw [hplugin, hopts]
  by_cases hid : o.id = []
  · rw [if_pos (List.isEmpty_iff.mpr hid), if_pos hid]
    rfl
  · have hread : PluginOptions.ofIdOptions o.id (some (o.toString E true)) =
        some (o.enumerated E) :=
      PluginOptions.parse_toString_true hcontrol hproper.printable
    rw [if_neg fun h => hid (List.isEmpty_iff.mp h), if_neg fun h => hid (List.isEmpty_iff.mp h),
      if_neg hid]
    simp only [Option.bind_some, Json.asString, nonEmpty_some hid, hread]

/-- The list of apps comes back as it was split. -/
theorem intercalate_strings (individual : Text) : List.intercalate ['\n']
    (((individual.splitOn '\n').map Json.string).filterMap Json.asString) = individual := by
  rw [List.filterMap_map]
  show List.intercalate ['\n'] ((individual.splitOn '\n').filterMap some) = individual
  rw [List.filterMap_some, List.intercalate_splitOn]

theorem get_proxyAppsFields (key : String) :
    Json.get (jsonObject p.proxyAppsFields) key.toList = (p.proxyAppsFields.lookup key).join := by
  refine get_jsonObject ?_ key
  show ["enabled", "bypass", "android_list"].Nodup
  decide

theorem settingsOf_fields : settingsOf (jsonObject (p.fields E profiles o))
    (commonOf none (jsonObject (p.fields E profiles o)) (serverOf p) (storedPlugin E o)) =
      reimported E o p := by
  have hname : optString (jsonObject (p.fields E profiles o)) "remarks" = p.name := by
    unfold optString
    rw [get_fields]
    show (p.name.map Json.string).bind Json.asString = p.name
    cases p.name with
    | none => rfl
    | some name => rfl
  have hroute : optString (jsonObject (p.fields E profiles o)) "route" = some p.route :=
    congrArg (Option.bind · Json.asString) (get_fields "route")
  have hdns : optString (jsonObject (p.fields E profiles o)) "remote_dns" = some p.remoteDns :=
    congrArg (Option.bind · Json.asString) (get_fields "remote_dns")
  have hbool (key : String) (b : Bool)
      (h : ((p.fields E profiles o).lookup key).join = some (.bool b)) :
      optBoolean (jsonObject (p.fields E profiles o)) key = some b :=
    congrArg (Option.bind · Json.asBoolean) ((get_fields key).trans h)
  have happs : optObject (jsonObject (p.fields E profiles o)) "proxy_apps" =
      some (jsonObject p.proxyAppsFields) := by
    unfold optObject
    rw [get_fields]
    rfl
  have henabled : optBoolean (jsonObject p.proxyAppsFields) "enabled" = some p.proxyApps :=
    congrArg (Option.bind · Json.asBoolean) (get_proxyAppsFields "enabled")
  have hbypass : Json.get (jsonObject p.proxyAppsFields) "bypass".toList =
      if p.proxyApps then some (.bool p.bypass) else none := get_proxyAppsFields "bypass"
  have hlist : Json.get (jsonObject p.proxyAppsFields) "android_list".toList =
      if p.proxyApps then some (.array ((p.individual.splitOn '\n').map .string)) else none :=
    get_proxyAppsFields "android_list"
  unfold settingsOf commonOf reimported
  simp only [hname, hroute, hdns, hbool "ipv6" p.ipv6 rfl, hbool "metered" p.metered rfl,
    hbool "udpdns" p.udpdns rfl, happs, henabled, hlist]
  unfold optBoolean
  rw [hbypass]
  cases p.proxyApps with
  | false => rfl
  | true =>
      simp only [if_true, intercalate_strings]
      rfl

/-- The fallback of an exported profile is read as the server of an exported profile without
plugin. -/
theorem fallbackOf_fields (hG : G.Documented)
    (hprofiles : ∀ id q, profiles id = some q → Profile.Exportable defaults q) :
    ∃ fallback, fallbackOf G E none (jsonObject (p.fields E profiles o)) = .ok fallback ∧
      ∀ f ∈ fallback, ∃ id q, profiles id = some q ∧ q.plugin.getD [] = [] ∧
        serverOf f = serverOf q := by
  have hmember : Json.get (jsonObject (p.fields E profiles o)) "udp_fallback".toList =
      p.fallbackField profiles := get_fields "udp_fallback"
  unfold fallbackOf optObject
  rw [hmember]
  unfold Profile.fallbackField
  cases hbind : p.udpFallback.bind profiles with
  | none => exact ⟨none, rfl, fun f hf => nomatch hf⟩
  | some q =>
      dsimp only
      by_cases hempty : (q.plugin.getD []).isEmpty = true
      · obtain ⟨id, -, hq⟩ := Option.bind_eq_some_iff.mp hbind
        have hserver : server G (jsonObject q.serverFields) = some (serverOf q) := by
          have hrest := server_jsonObject hG (hprofiles id q hq) []
          rwa [List.append_nil] at hrest
        have hplugin : Json.get (jsonObject q.serverFields) "plugin".toList = none := by
          refine get_jsonObject_of_not_mem ?_
          show "plugin" ∉ ["server", "server_port", "password", "method"]
          decide
        refine ⟨some (commonOf none (jsonObject q.serverFields) (serverOf q) none), ?_, ?_⟩
        · rw [if_pos hempty]
          dsimp only
          unfold tryParseFallback pluginOf optString
          rw [hserver, hplugin]
          rfl
        · intro f hf
          cases hf
          exact ⟨id, q, hq, List.isEmpty_iff.mp hempty, rfl⟩
      · rw [if_neg hempty]
        exact ⟨none, rfl, fun f hf => nomatch hf⟩

/-- An exported profile is read as `reimported`. -/
theorem reads_toJson (hG : G.Documented) (hp : p.Exportable defaults)
    (hprofiles : ∀ id q, profiles id = some q → Profile.Exportable defaults q)
    (h : p.toJson E defaults profiles = some json) : ∃ o fallback,
      selectedOptions defaults p.plugin = some o ∧ o.NoControl ∧ server G json = some (serverOf p) ∧
      Reads G E none json (reimported E o p, fallback) ∧ ∀ f ∈ fallback, ∃ id q,
        profiles id = some q ∧ q.plugin.getD [] = [] ∧ serverOf f = serverOf q := by
  obtain ⟨o, hoptions, rfl⟩ := Option.map_eq_some_iff.mp h
  obtain ⟨o', hoptions', hcontrol⟩ := hp.plugin
  cases hoptions.symm.trans hoptions'
  have hserver : server G (jsonObject (p.fields E profiles o)) = some (serverOf p) :=
    server_jsonObject hG hp _
  have hplugin := @pluginOf_fields E profiles p o (selectedOptions_some hoptions).2 hcontrol
  obtain ⟨fallback, hfallback, hsame⟩ := @fallbackOf_fields G E defaults profiles p o hG hprofiles
  refine ⟨o, fallback, hoptions, hcontrol, hserver, ?_, hsame⟩
  unfold Reads tryParse
  rw [hserver, hplugin, hfallback, ← @settingsOf_fields E profiles p o]
  rfl

/-- What comes back agrees with what was exported, unless the plugin string is read differently. -/
theorem exportedAs_iff (hoptions : selectedOptions defaults p.plugin = some o)
    (hcontrol : o.NoControl) (id order : Int) (fallback : Option Int) (dirty : Bool) :
    Profile.ExportedAs defaults p { reimported E o p with
        id := id, userOrder := order, udpFallback := fallback, dirty := dirty } ↔
      p.NoCommandLine defaults := by
  obtain ⟨hempty, hproper⟩ := selectedOptions_some hoptions
  have hstored := @selectedOptions_storedPlugin E o defaults hempty hproper hcontrol
  constructor
  · intro h o' ho'
    cases hoptions.symm.trans ho'
    obtain ⟨o1, o2, h1, h2, hequals⟩ := h.plugin
    cases hoptions.symm.trans h1
    exact hstored.mp ⟨o2, h2, hequals⟩
  · intro h
    obtain ⟨o', ho', hequals⟩ := hstored.mpr (h o hoptions)
    refine ⟨rfl, rfl, rfl, rfl, ⟨o, o', hoptions, ho', hequals⟩, rfl, rfl, rfl, rfl, rfl, rfl,
      rfl, ?_, ?_⟩
    · intro happs
      show (p.proxyApps && p.bypass) = p.bypass
      rw [happs, Bool.true_and]
    · intro happs
      exact if_pos happs

end Read

/-! ## A whole list -/

theorem objects_array {G : Gson} {objs : List Members} (h : ∀ json ∈ objs, (server G json).isSome) :
    objects G (.array (objs.map .object)) = objs := by
  show objectsOfElements G (objs.map .object) = objs
  induction objs with
  | nil => rfl
  | cons json objs ih =>
      rw [List.map_cons, objectsOfElements, objects, if_pos (h json List.mem_cons_self),
        ih fun other hother => h other (List.mem_cons_of_mem json hother)]
      rfl

section RoundTrip

variable {G : Gson} {E : Enumeration} {defaults : Text → Option Text} {profiles : List Profile}
  {objs : List Members}

/-- The objects of a list, and what each is read as. -/
structure Exports (G : Gson) (E : Enumeration) (defaults : Text → Option Text)
    (profiles : List Profile) (p : Profile) (json : Members) : Prop where
  mem : p ∈ profiles
  server : (server G json).isSome
  reads : ∃ o fallback, selectedOptions defaults p.plugin = some o ∧ o.NoControl ∧
    Reads G E none json (reimported E o p, fallback) ∧
    ∀ f ∈ fallback, ∃ q ∈ profiles, q.plugin.getD [] = [] ∧ serverOf f = serverOf q

theorem serializeToJson_some (hG : G.Documented)
    (hp : ∀ p ∈ profiles, Profile.Exportable defaults p) :
    ∃ objs, ProfileManager.serializeToJson E defaults profiles = some (.array (objs.map .object)) ∧
      List.Forall₂ (Exports G E defaults profiles) profiles objs := by
  have hlookup : ∀ id q, Keyed.associateBy Profile.id profiles id = some q → q ∈ profiles :=
    fun id q hq => (Keyed.associateBy_mem hq).1
  have hsome : ∀ p ∈ profiles, ∃ json,
      Profile.toJson E defaults (Keyed.associateBy Profile.id profiles) p = some json := by
    intro p hmem
    obtain ⟨o, hoptions, -⟩ := (hp p hmem).plugin
    unfold Profile.toJson
    rw [hoptions]
    exact ⟨_, rfl⟩
  obtain ⟨objs, hobjs⟩ := Related.mapM_isSome hsome
  refine ⟨objs, congrArg (Option.map _) hobjs, ?_⟩
  have hrelated := (List.forall₂_and_left profiles objs).mpr
    ⟨fun p hmem => hmem, Related.mapM_eq_some_iff.mp hobjs⟩
  refine hrelated.imp fun p json ⟨hmem, htoJson⟩ => ?_
  obtain ⟨o, fallback, hoptions, hcontrol, hserver, hreads, hfallback⟩ :=
    reads_toJson hG (hp p hmem) (fun id q hq => hp q (hlookup id q hq)) htoJson
  refine ⟨hmem, Option.isSome_iff_exists.mpr ⟨_, hserver⟩, o, fallback, hoptions, hcontrol,
    hreads, ?_⟩
  intro f hf
  obtain ⟨id, q, hq, hplugin, hsame⟩ := hfallback f hf
  exact ⟨q, hlookup id q hq, hplugin, hsame⟩

/-- A profile without plugin comes back without one. -/
theorem reimported_plugin {p : Profile} {o : PluginOptions} (hplugin : p.plugin.getD [] = [])
    (hoptions : selectedOptions defaults p.plugin = some o) : (reimported E o p).plugin = none := by
  unfold selectedOptions at hoptions
  rw [hplugin] at hoptions
  cases hoptions
  rfl

/-- The fallback of an object has a match among the objects. -/
theorem Exports.match_fallback (hobjs : List.Forall₂ (Exports G E defaults profiles) profiles objs)
    {json : Members} (hjson : json ∈ objs) {item : Item} (hreads : Reads G E none json item)
    {f : Profile} (hf : f ∈ item.2) :
    ∃ other ∈ objs, ∃ item', Reads G E none other item' ∧ isMatch f item'.1 = true := by
  obtain ⟨p, -, hexports⟩ := Related.exists_left hobjs hjson
  obtain ⟨o, fallback, -, -, hreads', hfallback⟩ := hexports.reads
  cases hreads.symm.trans hreads'
  obtain ⟨q, hq, hplugin, hsame⟩ := hfallback f hf
  obtain ⟨other, hother, hexports'⟩ := Related.exists_left (List.Forall₂.flip hobjs) hq
  obtain ⟨oq, fallback', hoptions, -, hreads'', -⟩ := hexports'.reads
  refine ⟨other, hother, _, hreads'', isMatch_iff.mpr ⟨hsame.symm, ?_⟩⟩
  show (reimported E oq q).plugin.getD [] = []
  rw [reimported_plugin hplugin hoptions]
  rfl

/-- The row of an exported profile after the import. -/
def Reimports (E : Enumeration) (defaults : Text → Option Text) (p row : Profile) : Prop :=
  ∃ o id order fallback, selectedOptions defaults p.plugin = some o ∧ o.NoControl ∧
    row = { reimported E o p with
      id := id, userOrder := order, udpFallback := fallback, dirty := false }

theorem rows_reimported (hobjs : List.Forall₂ (Exports G E defaults profiles) profiles objs)
    {doc : Json} (hdoc : objects G doc = objs) {s s1 s' : Storage} {items : List Item}
    {created : List Profile} {map : FallbackMap}
    (h : Imported G E none doc s items created map s1 s')
    (hids : s'.table.rows.map Profile.id = created.map Profile.id) :
    List.Forall₂ (Reimports E defaults) profiles s'.table.rows := by
  have hlength : s'.table.rows.length = created.length := by
    simpa using congrArg List.length hids
  have hcreated : created.length = profiles.length := by
    rw [h.all.length, List.length_map, ← h.reads.length_eq, hdoc, hobjs.length_eq]
  refine List.forall₂_iff_get.mpr ⟨(hlength.trans hcreated).symm, fun i hi hi' => ?_⟩
  have hq : created[i]? = some created[i] := List.getElem?_eq_getElem (hcreated ▸ hi)
  obtain ⟨json, hjson, hexports⟩ := Related.exists_getElem? hobjs (List.getElem?_eq_getElem hi)
  obtain ⟨o, fallback, hoptions, hcontrol, hreads, -⟩ := hexports.reads
  obtain ⟨item, -, hreads', -, id, order, hsame⟩ := h.item (hdoc.symm ▸ hjson) hq
  cases hreads.symm.trans hreads'
  -- the row at the place has the id of the created profile
  have hid : s'.table.rows[i].id = created[i].id := by
    have hplace := congrArg (·[i]?) hids
    simpa [hi', hcreated ▸ hi] using hplace
  have hstored : stored created[i] ∈ s1.table.rows := by
    rw [h.all.rows]
    exact List.mem_append_right _ (List.mem_map_of_mem (List.mem_of_getElem? hq))
  obtain ⟨link, hrow⟩ := h.row_kept hstored
  have hget := s'.table.get_of_mem (List.getElem_mem hi')
  rw [hid, show created[i].id = (stored created[i]).id from rfl, hrow] at hget
  refine ⟨o, id, order, link, hoptions, hcontrol, ?_⟩
  rw [List.get_eq_getElem, ← Option.some.inj hget, hsame]
  rfl

end RoundTrip

/-- An exported list is imported into an empty table as it was, one profile for each and no others,
exactly if there are ids for the profiles and no plugin string is read as a command line. -/
theorem json_round_trip_iff (G : Gson) (hG : G.Documented) (E : Enumeration)
    (defaults : Text → Option Text) (profiles : List Profile)
    (hp : ∀ p ∈ profiles, Profile.Exportable defaults p) (s : Storage) (ho : s.openable = true)
    (hrows : s.table.rows = []) (hseq : 0 ≤ s.table.seq) :
    ∃ doc, ProfileManager.serializeToJson E defaults profiles = some doc ∧
      ((∃ created s', parseJson storage G E none doc s = (.ok created, s') ∧
          s'.table.rows.map Profile.id = created.map Profile.id ∧
          List.Forall₂ (Profile.ExportedAs defaults) profiles s'.table.rows) ↔
        Room s.table profiles.length ∧ ∀ p ∈ profiles, p.NoCommandLine defaults) := by
  obtain ⟨objs, hdoc, hobjs⟩ := @serializeToJson_some G E defaults profiles hG hp
  have hobjects : objects G (.array (objs.map .object)) = objs := by
    refine objects_array fun json hjson => ?_
    obtain ⟨p, -, hexports⟩ := Related.exists_left hobjs hjson
    exact hexports.server
  refine ⟨_, hdoc, ?_⟩
  have hreturns := @parseJson_returns G E none (.array (objs.map .object)) s hseq ho
  rw [hobjects, ← hobjs.length_eq] at hreturns
  rcases hreturns (fun json hjson => by
      obtain ⟨p, -, hexports⟩ := Related.exists_left hobjs hjson
      obtain ⟨o, fallback, -, -, hreads, -⟩ := hexports.reads
      exact ⟨_, hreads⟩)
    (fun json hjson item hreads f hf => Exports.match_fallback hobjs hjson hreads hf) with
    ⟨hroom, created, s', hparse, hids⟩ | ⟨hroom, f, s', hparse⟩
  · rw [hrows] at hids
    obtain ⟨items, map, s1, himported⟩ := parseJson_storage hseq hparse
    have hreimported := rows_reimported hobjs hobjects himported hids
    have hiff : List.Forall₂ (Profile.ExportedAs defaults) profiles s'.table.rows ↔
        ∀ p ∈ profiles, p.NoCommandLine defaults := by
      refine Related.forall₂_iff hreimported fun p row hrow => ?_
      obtain ⟨o, id, order, fallback, hoptions, hcontrol, rfl⟩ := hrow
      exact exportedAs_iff hoptions hcontrol id order fallback false
    constructor
    · rintro ⟨created', s'', hparse', -, hall⟩
      cases hparse.symm.trans hparse'
      exact ⟨hroom, hiff.mp hall⟩
    · rintro ⟨-, hplain⟩
      exact ⟨created, s', hparse, hids, hiff.mpr hplain⟩
  · refine iff_of_false ?_ fun h => hroom h.1
    rintro ⟨created', s'', hparse', -⟩
    cases hparse.symm.trans hparse'

/-- A profile whose plugin string is `plugin`, with the profile 2 as fallback. -/
def pluginSample (plugin : String) : Profile :=
  { id := 1, name := none, plugin := some plugin.toList, udpFallback := some 2, proxyApps := true,
    individual := "a\nb".toList }

theorem pluginSample_exportable {plugin id : String} (hid : id.toList.all (!isISOControl ·) = true)
    (h : selectedOptions (fun _ => none) (some plugin.toList) = some { id := id.toList }) :
    (pluginSample plugin).Exportable fun _ => none := by
  have hport : 1 ≤ (8388 : Int) ∧ (8388 : Int) ≤ 65535 := by decide
  exact ⟨List.cons_ne_nil _ _, List.cons_ne_nil _ _, List.cons_ne_nil _ _, hport, _, h,
    Scan.forall_eq_false hid, List.forall_mem_nil _⟩

theorem json_round_trip_pair : ∃ doc created s',
    ProfileManager.serializeToJson .inserted (fun _ => none) [pluginSample "x", { id := 2 }] =
      some doc ∧
      parseJson storage plainGson .inserted none doc .empty = (.ok created, s') ∧
      List.Forall₂ (Profile.ExportedAs fun _ => none)
        [pluginSample "x", { id := 2 }] s'.table.rows := by
  have hx : selectedOptions (fun _ => none) (some "x".toList) = some { id := "x".toList } := by
    decide +kernel
  have hnone : selectedOptions (fun _ => none) none = some {} := rfl
  have hexportable : ∀ p ∈ [pluginSample "x", { id := 2 }],
      Profile.Exportable (fun _ => none) p := by
    refine List.forall_mem_cons.mpr ⟨pluginSample_exportable (by decide) hx, ?_⟩
    refine List.forall_mem_singleton.mpr ⟨List.cons_ne_nil _ _, List.cons_ne_nil _ _,
      List.cons_ne_nil _ _, by decide, _, hnone, List.forall_mem_nil _, List.forall_mem_nil _⟩
  obtain ⟨doc, hdoc, hiff⟩ :=
    json_round_trip_iff plainGson plainGson_documented .inserted (fun _ => none)
    [pluginSample "x", { id := 2 }] hexportable .empty rfl rfl (Int.le_refl 0)
  have hplain : ∀ p ∈ [pluginSample "x", { id := 2 }], Profile.NoCommandLine (fun _ => none) p := by
    refine List.forall_mem_cons.mpr ⟨fun o ho => ?_, List.forall_mem_singleton.mpr fun o ho => ?_⟩
    · cases hx.symm.trans ho
      decide
    · cases hnone.symm.trans ho
      decide
  obtain ⟨created, s', hparse, -, hall⟩ := hiff.mpr ⟨Or.inr (by decide), hplain⟩
  exact ⟨doc, created, s', hdoc, hparse, hall⟩

/-- The options of a plugin with the id `kcptun x` are stored as a string that is read as a command
line of the plugin `kcptun`. -/
theorem json_round_trip_command_line : (pluginSample "kcptun\\ x").Exportable (fun _ => none) ∧
    ∃ doc created s',
      ProfileManager.serializeToJson .inserted (fun _ => none) [pluginSample "kcptun\\ x"] =
        some doc ∧
      parseJson storage plainGson .inserted none doc .empty = (.ok created, s') ∧
      ¬ List.Forall₂ (Profile.ExportedAs fun _ => none)
        [pluginSample "kcptun\\ x"] s'.table.rows := by
  have hx : selectedOptions (fun _ => none) (some "kcptun\\ x".toList) =
      some { id := "kcptun x".toList } := by decide +kernel
  have hexportable := pluginSample_exportable (by decide) hx
  have hrun : ((ProfileManager.serializeToJson .inserted (fun _ => none)
      [pluginSample "kcptun\\ x"]).map fun doc =>
        ((parseJson storage plainGson .inserted none doc .empty).1.toOption.isSome,
          (parseJson storage plainGson .inserted none doc .empty).2.table.rows.map fun row =>
            (selectedOptions (fun _ => none) row.plugin).map PluginOptions.id)) =
      some (true, [some "kcptun".toList]) := by decide +kernel
  obtain ⟨doc, hdoc, hview⟩ := Option.map_eq_some_iff.mp hrun
  rcases hparse : parseJson storage plainGson .inserted none doc .empty with ⟨r, s'⟩
  rw [hparse] at hview
  cases r with
  | error f => cases hview
  | ok created =>
      refine ⟨hexportable, doc, created, s', hdoc, hparse, fun hall => ?_⟩
      obtain ⟨row, rest, hrow, hrest, hrows⟩ := List.forall₂_cons_left_iff.mp hall
      rw [List.forall₂_nil_left_iff.mp hrest] at hrows
      have hid : [(selectedOptions (fun _ => none) row.plugin).map PluginOptions.id] =
          [some "kcptun".toList] := by
        have hids := congrArg Prod.snd hview
        rwa [hrows] at hids
      obtain ⟨o, o', ho, ho', hequals⟩ := hrow.plugin
      cases hx.symm.trans ho
      rw [ho', Option.map_some, (PluginOptions.equals_iff.mp hequals).1] at hid
      exact absurd hid (by decide)

end CypherConnect
