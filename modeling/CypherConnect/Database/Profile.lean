/-
  `database/Profile.kt`: the `Profile` entity and `Profile.findAllUrls`, which reads server links
  out of a text.

  Strings are lists of characters. `findAllUrls` is
  `pattern.findAll(data).map { … }.filterNotNull()`: `findAll` scans for the link pattern (`matchAt`
  is one attempt at a position), `parseUrl` is the body of the `map`, `none` there is the `null` of
  an unusable link.
-/
import CypherConnect.Platform.Android
import CypherConnect.Platform.JavaInteger
import CypherConnect.Platform.JavaUri

namespace CypherConnect

abbrev Text := List Char

/-- `Profile.SubscriptionStatus`. -/
inductive SubscriptionStatus where
  | userConfigured
  | active
  | obsolete
  deriving DecidableEq, Repr

/-- A row of the table `Profile`. `dirty` is not a column. -/
structure Profile where
  id : Int := 0
  name : Option Text := some []
  host : Text := "example.shadowsocks.org".toList
  remotePort : Int := 8388
  password : Text := "u1rRWTssNv0p".toList
  method : Text := "aes-256-cfb".toList
  route : Text := "all".toList
  remoteDns : Text := "dns.google".toList
  proxyApps : Bool := false
  bypass : Bool := false
  udpdns : Bool := false
  ipv6 : Bool := false
  metered : Bool := false
  individual : Text := []
  plugin : Option Text := none
  udpFallback : Option Int := none
  subscription : SubscriptionStatus := .userConfigured
  tx : Int := 0
  rx : Int := 0
  userOrder : Int := 0
  dirty : Bool := false
  deriving DecidableEq, Repr

namespace Profile

/-- `formattedAddress`. -/
def formattedAddress (p : Profile) : Text :=
  let port := (toString p.remotePort).toList
  if ':' ∈ p.host then '[' :: p.host ++ ']' :: ':' :: port else p.host ++ ':' :: port

/-- `formattedName`. -/
def formattedName (p : Profile) : Text :=
  match p.name with
  | none | some [] => p.formattedAddress
  | some name => name

/-- `copyFeatureSettingsTo`: the settings of `feature` in `profile`. -/
def copyFeatureSettingsTo (feature profile : Profile) : Profile :=
  { profile with
    route := feature.route
    ipv6 := feature.ipv6
    metered := feature.metered
    proxyApps := feature.proxyApps
    bypass := feature.bypass
    individual := feature.individual
    udpdns := feature.udpdns }

/-! ## The patterns -/

/-- `[-a-zA-Z0-9+&@#/%=.~*'()|\[\]]`, the class of the last character of a link. -/
def isLinkEnd (c : Char) : Bool :=
  JavaUri.isAlphanum c ||
    ['-', '+', '&', '@', '#', '/', '%', '=', '.', '~', '*', '\'', '(', ')', '|', '[',
      ']'].contains c

/-- `[-a-zA-Z0-9+&@#/%?=.~*'()|!:,;_\[\]]`, the class of the other characters after `ss://`. -/
def isLinkChar (c : Char) : Bool := isLinkEnd c || ['?', '!', ':', ',', ';', '_'].contains c

/-- One attempt of `pattern` at the start of `t`: `ss://` in any case, then as many link characters
    as there are, given back from the end up to the first one that may end a link. -/
def matchAt (t : Text) : Option Text :=
  match t with
  | a :: b :: ':' :: '/' :: '/' :: r =>
      if (a == 's' || a == 'S') && (b == 's' || b == 'S') then
        match ((r.takeWhile isLinkChar).reverse.dropWhile (!isLinkEnd ·)).reverse with
        | [] => none
        | body => some (a :: b :: ':' :: '/' :: '/' :: body)
      else none
  | _ => none

/-- `pattern.findAll`: successive matches, each search starting where the last match ended. The
    first argument counts the characters of the last match still to be passed over. -/
def findAll : Nat → Text → List Text
  | _, [] => []
  | k + 1, _ :: t => findAll k t
  | 0, c :: t =>
      match matchAt (c :: t) with
      | some value => value :: findAll (value.length - 1) t
      | none => findAll 0 t

/-- Line terminators, the characters `.` does not match. -/
def isLineTerminator (c : Char) : Bool :=
  ['\n', '\r', Char.ofNat 0x85, Char.ofNat 0x2028, Char.ofNat 0x2029].contains c

/-- `userInfoPattern`, `^(.+?):(.*)$`, on the whole of `t`. -/
def matchUserInfo (t : Text) : Option (Text × Text) :=
  if t.any isLineTerminator then none
  else
    match t with
    | [] => none
    | c :: r =>
        match r.dropWhile (· != ':') with
        | [] => none
        | _ :: password => some (c :: r.takeWhile (· != ':'), password)

/-- `(.+?):(\d+?)$` on the whole of `t`: the shortest host that leaves digits only. -/
def matchHostPort (t : Text) : Option (Text × Text) :=
  (List.range t.length).findSome? fun k =>
    if 1 ≤ k ∧ t[k]? = some ':' ∧ t.drop (k + 1) ≠ [] ∧ (t.drop (k + 1)).all JavaUri.isDigit then
      some (t.take k, t.drop (k + 1))
    else none

/-- `(.*)@(.+?):(\d+?)$` on the whole of `t`: the longest password. -/
def matchPassword (t : Text) : Option (Text × Text × Text) :=
  (List.range t.length).reverse.findSome? fun k =>
    if t[k]? = some '@' then
      (matchHostPort (t.drop (k + 1))).map fun hp => (t.take k, hp.1, hp.2)
    else none

/-- `legacyPattern`, `^(.+?):(.*)@(.+?):(\d+?)$`, on the whole of `t`: the shortest method. -/
def matchLegacy (t : Text) : Option (Text × Text × Text × Text) :=
  if t.any isLineTerminator then none
  else
    (List.range t.length).findSome? fun k =>
      if 1 ≤ k ∧ t[k]? = some ':' then
        (matchPassword (t.drop (k + 1))).map fun m => (t.take k, m.1, m.2.1, m.2.2)
      else none

/-! ## `findAllUrls` -/

/-- `String.toInt`, of the digits that `legacyPattern` lets through. -/
def toInt (ds : Text) : Option Int := JavaInteger.parseInt 10 JavaInteger.asciiDigit ds

/-- `Key.plugin`. -/
def pluginKey : Text := "plugin".toList

variable (P : Platform)

/-- The profile a link starts from. -/
def blank (feature : Option Profile) : Profile :=
  match feature with
  | some f => f.copyFeatureSettingsTo {}
  | none => {}

/-- The branch for links without user info: everything is in the base64 text. -/
def parseLegacy (feature : Option Profile) (link : Text) : Option Profile := do
  let bytes ← P.base64Decode Base64.standard ((P.host link).getD [])
  let (method, password, host, port) ← matchLegacy (Utf8.decode bytes)
  let remotePort ← toInt port
  some { blank feature with
    method := P.lowercase method
    password := password
    host := host
    remotePort := remotePort
    plugin := P.queryParameter link pluginKey
    name := P.fragment link }

/-- Strip the brackets of an IPv6 literal. -/
def unbracket (host : Text) : Text :=
  if host.head? = some '[' ∧ host.getLast? = some ']' then (host.drop 1).dropLast else host

/-- The SIP002 branch: method and password in the user info, host and port from `java.net.URI`. -/
def parseSip002 (feature : Option Profile) (link userInfo : Text) : Option Profile := do
  let bytes ← P.base64Decode Base64.urlSafe userInfo
  let (method, password) ← matchUserInfo (Utf8.decode bytes)
  let uri ← JavaUri.parse link
  some { blank feature with
    method := method
    password := password
    host := unbracket (uri.host.getD [])
    remotePort := uri.port
    plugin := P.queryParameter link pluginKey
    name := some ((P.fragment link).getD []) }

/-- One link. Every exception the source catches gives `none`. -/
def parseUrl (feature : Option Profile) (link : Text) : Option Profile :=
  match P.userInfo link with
  | none => parseLegacy P feature link
  | some userInfo => parseSip002 P feature link userInfo

/-- `Profile.findAllUrls(data, feature)`. -/
def findAllUrls (data : Option Text) (feature : Option Profile) : List Profile :=
  (findAll 0 (data.getD [])).filterMap (parseUrl P feature)

end Profile

end CypherConnect
