/-
  `update_proxies.py`: the script that writes the feed of server links.

  `main` takes the proxies of a Clash configuration that answered, names each after the place of its
  server, renames its fields and writes one link a line. What it asks the network for is a
  parameter.

  * `toConfig_some`: of a proxy with the fields the script needs, `main` builds a config.
  * `config2url_eq`: the link by its parts.
-/
import CypherConnect.Lib.Keyed
import CypherConnect.Database.Profile
import CypherConnect.Platform.UriSyntax

namespace CypherConnect.Feed

/-! ## Python -/

/-- A dictionary of strings, in the order of insertion. -/
abbrev Dict := List (Text × Text)

namespace Dict

/-- `d.pop(key)`; `none` is a `KeyError`. -/
def pop (d : Dict) (key : Text) : Option (Text × Dict) :=
  (d.lookup key).map fun value => (value, d.filter (·.1 != key))

/-- `d[key] = value`. -/
def set (d : Dict) (key value : Text) : Dict := Keyed.put Prod.fst (key, value) d

end Dict

/-- The characters `urllib.parse.quote` leaves alone. -/
def isQuoteSafe (c : Char) : Bool :=
  JavaUri.isAlphanum c || ['_', '.', '-', '~', '/'].contains c

/-- `urllib.parse.quote`. -/
def quote (s : Text) : Text := Percent.encode isQuoteSafe s

/-- `base64.b64encode`. -/
def b64encode (bytes : List UInt8) : Text := Base64.encodePadded Base64.standard bytes

/-! ## Configs -/

/-- The plugin of a config: `plugin`, `plugin-opts` and `plugin_opts`. -/
structure PluginConfig where
  plugin : Text
  options : Dict
  pluginOpts : Text
  deriving DecidableEq, Repr

structure Config where
  method : Text
  password : Text
  server : Text
  serverPort : Nat
  plugin : Option PluginConfig
  name : Option Text
  deriving DecidableEq, Repr

namespace Config

/-- Method and password in base64 without padding. -/
def userInfo (c : Config) : Text :=
  (b64encode (Utf8.encode (c.method ++ ':' :: c.password))).filter (· != '=')

def hostPort (c : Config) : Text := c.server ++ ':' :: JavaUri.decimal c.serverPort

end Config

/-- `config2url`. -/
def config2url (config : Config) : Text :=
  let plugin := config.plugin.map fun p => quote (p.plugin ++ ';' :: p.pluginOpts)
  let url := "ss://".toList ++ config.userInfo ++ '@' :: config.hostPort
  let url :=
    match plugin with
    | none | some [] => url
    | some plugin => url ++ "?plugin=".toList ++ plugin
  match config.name with
  | some name => url ++ '#' :: name
  | none => url

/-! ## The loop of `main` -/

/-- An entry of type "ss" of the Clash configuration. -/
structure Proxy where
  cipher : Text
  password : Text
  server : Text
  port : Nat
  plugin : Option Text
  pluginOpts : Option Dict
  deriving DecidableEq, Repr

/-- `";".join(["%s=%s" % (k, v) …])`. -/
def joinOpts (options : Dict) : Text :=
  [';'].intercalate (options.map fun e => e.1 ++ '=' :: e.2)

namespace Proxy

/-- The fields of the plugin as `config2url` wants them. -/
def pluginConfig (proxy : Proxy) : Option PluginConfig := do
  let options ← proxy.pluginOpts
  let (mode, options) ← Dict.pop options "mode".toList
  let options := Dict.set options "obfs".toList mode
  let (host, options) ← Dict.pop options "host".toList
  let options := Dict.set options "obfs-host".toList host
  some ⟨"obfs-local".toList, options, joinOpts options⟩

/-- The config of a proxy under a name; `none` is a `KeyError`. -/
def toConfig (proxy : Proxy) (name : Text) : Option Config := do
  let plugin ←
    match proxy.plugin with
    | none => some none
    | some _ => proxy.pluginConfig.map some
  some ⟨proxy.cipher, proxy.password, proxy.server, proxy.port, plugin, some (quote name)⟩

end Proxy

/-- What ip-api.com says of a server, when it answers with success. -/
structure Location where
  countryCode : Text
  regionName : Option Text
  deriving DecidableEq, Repr

/-- How often each name was given, `defaultdict(int)`. -/
abbrev Names := List (Text × Nat)

/-- The name of a proxy, numbered from its second use on. -/
def proxyName (names : Names) (location : Location) : Text × Names :=
  let name :=
    match location.regionName with
    | some region => location.countryCode ++ '-' :: region
    | none => location.countryCode
  let uses := (names.lookup name).getD 0 + 1
  let names := Keyed.put Prod.fst (name, uses) names
  let sep := if name.length = 2 then '-' else ' '
  (if 1 < uses then name ++ sep :: JavaUri.decimal uses else name, names)

/-- The lines of the feed; `none` is a `KeyError`. Proxies with another plugin than "obfs" and
servers without a location are left out. -/
def feedText (locate : Text → Option Location) : Names → List Proxy → Option Text
  | _, [] => some []
  | names, proxy :: proxies =>
      if proxy.plugin ≠ none ∧ proxy.plugin ≠ some "obfs".toList then feedText locate names proxies
      else
        match locate proxy.server with
        | none => feedText locate names proxies
        | some location => do
            let (name, names) := proxyName names location
            let config ← proxy.toConfig name
            let rest ← feedText locate names proxies
            some (config2url config ++ '\n' :: rest)

/-! ## What `main` builds -/

/-- The options of an "obfs" proxy. -/
def obfsOptions (mode host : Text) : Dict := [("obfs".toList, mode), ("obfs-host".toList, host)]

/-- Method and password are texts the link can carry, the server is a host, and a plugin is "obfs"
with its two options. -/
structure Proxy.WellFormed (proxy : Proxy) : Prop where
  cipher_ne : proxy.cipher ≠ []
  cipher_colon : ':' ∉ proxy.cipher
  cipher_lines : ∀ c ∈ proxy.cipher, Profile.isLineTerminator c = false
  password_lines : ∀ c ∈ proxy.password, Profile.isLineTerminator c = false
  server : JavaUri.IsHost proxy.server
  port : 1 ≤ proxy.port ∧ proxy.port ≤ 65535
  plugin : proxy.plugin = none ∨ proxy.plugin = some "obfs".toList ∧ ∃ mode host,
    proxy.pluginOpts = some [("mode".toList, mode), ("host".toList, host)] ∨
    proxy.pluginOpts = some [("host".toList, host), ("mode".toList, mode)]

/-- A config of a well-formed proxy. -/
structure Config.Built (c : Config) : Prop where
  method_ne : c.method ≠ []
  method_colon : ':' ∉ c.method
  lines : ∀ x ∈ c.method ++ ':' :: c.password, Profile.isLineTerminator x = false
  server : JavaUri.IsHost c.server
  port : c.serverPort ≤ 65535
  name : ∃ name, c.name = some (quote name)
  plugin : c.plugin = none ∨ ∃ mode host, c.plugin =
    some ⟨"obfs-local".toList, obfsOptions mode host, joinOpts (obfsOptions mode host)⟩

theorem pluginConfig_some {proxy : Proxy} {mode host : Text}
    (h : proxy.pluginOpts = some [("mode".toList, mode), ("host".toList, host)] ∨
      proxy.pluginOpts = some [("host".toList, host), ("mode".toList, mode)]) :
    proxy.pluginConfig =
      some ⟨"obfs-local".toList, obfsOptions mode host, joinOpts (obfsOptions mode host)⟩ := by
  unfold Proxy.pluginConfig
  rcases h with h | h <;> rw [h] <;> rfl

/-- Of a well-formed proxy `main` builds a config with its values. -/
theorem toConfig_some {proxy : Proxy} (h : proxy.WellFormed) (name : Text) :
    ∃ config, proxy.toConfig name = some config ∧ config.Built ∧ config.method = proxy.cipher ∧
      config.password = proxy.password ∧ config.server = proxy.server ∧
      config.serverPort = proxy.port := by
  have hlines : ∀ x ∈ proxy.cipher ++ ':' :: proxy.password,
      Profile.isLineTerminator x = false := by
    intro x hx
    rcases List.mem_append.mp hx with hx | hx
    · exact h.cipher_lines x hx
    · rcases List.mem_cons.mp hx with rfl | hx
      · rfl
      · exact h.password_lines x hx
  unfold Proxy.toConfig
  rcases h.plugin with hplugin | ⟨hplugin, mode, host, hopts⟩
  · rw [hplugin]
    exact ⟨_, rfl, ⟨h.cipher_ne, h.cipher_colon, hlines, h.server, h.port.2, ⟨name, rfl⟩, .inl rfl⟩,
      rfl, rfl, rfl, rfl⟩
  · rw [hplugin, pluginConfig_some hopts]
    exact ⟨_, rfl, ⟨h.cipher_ne, h.cipher_colon, hlines, h.server, h.port.2, ⟨name, rfl⟩,
      .inr ⟨mode, host, rfl⟩⟩, rfl, rfl, rfl, rfl⟩

/-! ## Links by their parts -/

/-- Removing the padding leaves the digits. -/
theorem Config.userInfo_eq (c : Config) :
    c.userInfo = Base64.encode Base64.standard (Utf8.encode (c.method ++ ':' :: c.password)) := by
  have hdigits (bytes : List UInt8) : (Base64.encode Base64.standard bytes).filter (· != '=') =
      Base64.encode Base64.standard bytes := by
    rw [List.filter_eq_self]
    intro x hx
    obtain ⟨n, hn, rfl⟩ := List.mem_map.mp hx
    exact bne_iff_ne.mpr (Base64.char_ne_pad n (Base64.digitsOfBytes_lt bytes n hn)).1
  unfold Config.userInfo b64encode Base64.encodePadded
  rw [List.filter_append, hdigits, List.filter_eq_nil_iff.mpr, List.append_nil]
  intro x hx
  rw [List.eq_of_mem_replicate hx]
  exact Bool.false_ne_true

theorem madeOf_userInfo (c : Config) : JavaUri.MadeOf ['/', '+'] c.userInfo := by
  rw [Config.userInfo_eq]
  exact JavaUri.madeOf_encode (by decide) _

/-- The query of a link. -/
def Config.query (c : Config) : Text :=
  match c.plugin with
  | none => []
  | some p => '?' :: Profile.pluginKey ++ '=' :: quote (p.plugin ++ ';' :: p.pluginOpts)

theorem quote_ne_nil {s : Text} (h : ';' ∈ s) : quote s ≠ [] := by
  intro hnil
  obtain ⟨a, b, rfl⟩ := List.append_of_mem h
  have hmem : '%' ∈ quote (a ++ ';' :: b) := by
    unfold quote Percent.encode
    exact List.mem_flatMap.mpr ⟨';', List.mem_append_right _ List.mem_cons_self, by decide⟩
  rw [hnil] at hmem
  cases hmem

theorem config2url_eq {c : Config} {name : Text} (h : c.name = some name) :
    config2url c = Platform.scheme ++ (c.userInfo ++ '@' :: c.hostPort) ++
      (c.query ++ '#' :: name) := by
  unfold config2url Config.query
  rw [h]
  cases c.plugin with
  | none => simp only [Option.map_none, List.append_assoc, List.nil_append]; rfl
  | some p =>
      obtain ⟨x, rest, hx⟩ := List.exists_cons_of_ne_nil
        (quote_ne_nil (s := p.plugin ++ ';' :: p.pluginOpts)
          (List.mem_append_right _ List.mem_cons_self))
      simp only [Option.map_some, hx, List.append_assoc]
      rfl

end CypherConnect.Feed
