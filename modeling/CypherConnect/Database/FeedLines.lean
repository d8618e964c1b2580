/-
  `Profile.findAllUrls` with its exceptions.

  The lambda of `map` can end in an exception: what `try` and `catch` do with it is explicit here.
  The sequence is consumed to its end, and the first exception that leaves the lambda ends it.

  * `parseUrlOrThrow_eq`: no exception leaves the lambda, and a link it cannot use is `null`. So
    this model and `findAllUrls` agree.
  * `findAllUrls_lines`: each line of a text yields what it yields alone.
-/
import CypherConnect.Lib.Outcome
import CypherConnect.Database.Links

namespace CypherConnect.Profile

/-- The exceptions of the calls in the lambda. -/
inductive LinkException where
  /-- `Base64.decode`. -/
  | illegalArgument
  /-- `String.toInt`; an `IllegalArgumentException`. -/
  | numberFormat
  /-- The constructor of `java.net.URI`. -/
  | uriSyntax
  /-- `Base64.decode(null, …)`. -/
  | nullPointer
  deriving DecidableEq, Repr

/-- A call that throws `e` instead of returning `none`. -/
def orThrow {α : Type} (e : LinkException) : Option α → Except LinkException α
  | some a => .ok a
  | none => .error e

/-- `catch (e: IllegalArgumentException) { … null }`. -/
def catchIllegalArgument {α : Type} :
    Except LinkException (Option α) → Except LinkException (Option α)
  | .error .illegalArgument => .ok none
  | .error .numberFormat => .ok none
  | r => r

/-- `catch (e: URISyntaxException) { … null }`. -/
def catchUriSyntax {α : Type} : Except LinkException (Option α) → Except LinkException (Option α)
  | .error .uriSyntax => .ok none
  | r => r

section

variable (P : Platform) (feature : Option Profile)

def legacyOrThrow (link : Text) : Except LinkException (Option Profile) := do
  let host ← orThrow .nullPointer (P.host link)
  let bytes ← orThrow .illegalArgument (P.base64Decode Base64.standard host)
  match matchLegacy (Utf8.decode bytes) with
  | none => .ok none
  | some (method, password, host, port) => do
      let remotePort ← orThrow .numberFormat (toInt port)
      .ok (some { blank feature with
        method := P.lowercase method
        password := password
        host := host
        remotePort := remotePort
        plugin := P.queryParameter link pluginKey
        name := P.fragment link })

def sip002OrThrow (link userInfo : Text) : Except LinkException (Option Profile) := do
  let bytes ← orThrow .illegalArgument (P.base64Decode Base64.urlSafe userInfo)
  match matchUserInfo (Utf8.decode bytes) with
  | none => .ok none
  | some (method, password) =>
      catchUriSyntax do
        let uri ← orThrow .uriSyntax (JavaUri.parse link)
        .ok (some { blank feature with
          method := method
          password := password
          host := unbracket (uri.host.getD [])
          remotePort := uri.port
          plugin := P.queryParameter link pluginKey
          name := some ((P.fragment link).getD []) })

/-- The lambda. -/
def parseUrlOrThrow (link : Text) : Except LinkException (Option Profile) :=
  catchIllegalArgument
    (match P.userInfo link with
    | none => legacyOrThrow P feature link
    | some userInfo => sip002OrThrow P feature link userInfo)

/-- `findAllUrls(data, feature).toList()`. -/
def findAllUrlsOrThrow (data : Option Text) : Except LinkException (List Profile) := do
  let profiles ← (findAll 0 (data.getD [])).mapM (parseUrlOrThrow P feature)
  .ok (profiles.filterMap fun profile => profile)

end

/-! ## No exception leaves the lambda -/

variable {P : Platform} {feature : Option Profile} {link : Text}

theorem catch_legacyOrThrow (hhost : P.host link ≠ none) :
    catchIllegalArgument (legacyOrThrow P feature link) = .ok (parseLegacy P feature link) := by
  obtain ⟨host, hsome⟩ := Option.ne_none_iff_exists'.mp hhost
  unfold legacyOrThrow parseLegacy
  rw [hsome]
  cases hbytes : P.base64Decode Base64.standard host with
  | none =>
      simp only [Option.getD_some, hbytes, orThrow, bind, Except.bind, Option.bind]
      rfl
  | some bytes =>
      simp only [Option.getD_some, hbytes, orThrow, bind, Except.bind, Option.bind]
      cases hmatch : matchLegacy (Utf8.decode bytes) with
      | none => rfl
      | some groups =>
          obtain ⟨method, password, host, port⟩ := groups
          cases hport : toInt port with
          | none =>
              simp only [hport]
              rfl
          | some remotePort =>
              simp only [hport]
              rfl

theorem sip002OrThrow_ok {userInfo : Text} :
    catchIllegalArgument (sip002OrThrow P feature link userInfo) =
      .ok (parseSip002 P feature link userInfo) := by
  unfold sip002OrThrow parseSip002
  cases hbytes : P.base64Decode Base64.urlSafe userInfo with
  | none => rfl
  | some bytes =>
      simp only [orThrow, bind, Except.bind, Option.bind]
      cases hmatch : matchUserInfo (Utf8.decode bytes) with
      | none => rfl
      | some groups =>
          obtain ⟨method, password⟩ := groups
          cases huri : JavaUri.parse link with
          | none => rfl
          | some uri => rfl

theorem parseUrlOrThrow_eq (hhost : P.host link ≠ none) :
    parseUrlOrThrow P feature link = .ok (parseUrl P feature link) := by
  unfold parseUrlOrThrow parseUrl
  cases P.userInfo link with
  | none => exact catch_legacyOrThrow hhost
  | some userInfo => exact sip002OrThrow_ok

/-- The host of every link that is found is present. -/
theorem host_of_mem_findAll (hP : P.HostPresent) {t : Text} {k : Nat} (h : link ∈ findAll k t) :
    P.host link ≠ none := by
  obtain ⟨u, hmatch⟩ := exists_matchAt h
  obtain ⟨⟨a, b, body, ha, hb, hne, rfl⟩, _⟩ := matchAt_some hmatch
  exact hP a b body ha hb hne

/-- No exception leaves `findAllUrls`. -/
theorem findAllUrlsOrThrow_eq (hP : P.HostPresent) (data : Option Text) :
    findAllUrlsOrThrow P feature data = .ok (findAllUrls P data feature) := by
  unfold findAllUrlsOrThrow findAllUrls
  rw [Outcome.mapM_ok fun link hlink => parseUrlOrThrow_eq (host_of_mem_findAll hP hlink)]
  show Except.ok (List.filterMap _ (List.map _ _)) = _
  rw [List.filterMap_map]
  rfl

/-- Whatever the lines of a text are, `findAllUrls` returns, and what it yields is what it yields on
each of them alone. -/
theorem findAllUrls_lines (P : Platform) (hP : P.HostPresent) (feature : Option Profile)
    (lines : List Text) : ∃ yields : List (List Profile),
      lines.mapM (fun line => findAllUrlsOrThrow P feature (some line)) = .ok yields ∧
      findAllUrlsOrThrow P feature (some (List.intercalate ['\n'] lines)) = .ok yields.flatten := by
  refine ⟨lines.map fun line => findAllUrls P (some line) feature, ?_, ?_⟩
  · exact Outcome.mapM_ok fun line _ => findAllUrlsOrThrow_eq hP (some line)
  · rw [findAllUrlsOrThrow_eq hP]
    unfold findAllUrls
    rw [Option.getD_some, findAll_join rfl, List.filterMap_flatMap, List.flatMap_def]
    rfl

/-- A line with a bad port, one that is no link and one with a link. -/
theorem findAllUrls_lines_bad_port : ∃ yields : List (List Profile),
    ["ss://YTpiQGg6OTk5OTk5OTk5OQ".toList, "nothing".toList, "ss://YTpi@h:1#x".toList].mapM
        (fun line => findAllUrlsOrThrow aosp none (some line)) = .ok yields ∧
      findAllUrlsOrThrow aosp none (some (List.intercalate ['\n']
        ["ss://YTpiQGg6OTk5OTk5OTk5OQ".toList, "nothing".toList, "ss://YTpi@h:1#x".toList])) =
          .ok yields.flatten :=
  findAllUrls_lines aosp aosp_hostPresent none _

end CypherConnect.Profile
