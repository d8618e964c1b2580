/-
  The endpoints of imported profiles: those of the links in a text, and those that `parseJson` hands
  to its callback.

  The three decoders check different things. A legacy link has a host and digits for a port, of any
  value up to the largest `Int`; the other links take what `java.net.URI` reports, which is no host
  and the port `-1` where it finds none; JSON has a host and a positive port.

  * `matchUserInfo_iff`, `matchLegacy_iff`, `matchLegacy_port`: what the patterns accept, as a text.
  * `parseUrl_usable_iff`: the links that give a usable profile only, by their text: the authority
    of a link with user info, the digits behind the last `:` of the base64 text of the others.
  * `handed_usable_iff`: the profiles handed over, for every callback, are those of the list and of
    the map.
  * `imported_endpoints_iff`: both together, on the links and the objects.
-/
import CypherConnect.Database.JsonParser
import CypherConnect.Database.Links
import CypherConnect.Platform.UriAuthority

namespace CypherConnect

/-- A host, and a port that TCP has. -/
def Usable (p : Profile) : Prop := p.host ≠ [] ∧ 1 ≤ p.remotePort ∧ p.remotePort ≤ 65535

instance (p : Profile) : Decidable (Usable p) := inferInstanceAs (Decidable (_ ∧ _ ∧ _))

/-! ## Links -/

namespace Profile

/-- `method:password` on one line. -/
def IsUserInfoText (t : Text) : Prop :=
  (∀ c ∈ t, isLineTerminator c = false) ∧
    ∃ method password, method ≠ [] ∧ t = method ++ ':' :: password

/-- `method:password@host:port` on one line, with digits for the port. -/
def IsLegacyText (t : Text) : Prop :=
  (∀ c ∈ t, isLineTerminator c = false) ∧
    ∃ method password host digits, method ≠ [] ∧ host ≠ [] ∧ digits ≠ [] ∧
      (∀ c ∈ digits, JavaUri.isDigit c = true) ∧
      t = method ++ ':' :: (password ++ '@' :: (host ++ ':' :: digits))

/-- The text behind the last `:`. -/
def portText (t : Text) : Text := t.rtakeWhile (· != ':')

/-- The text of a link names an endpoint that TCP has, or the link gives no profile. A link without
user info has everything in its base64 text, where a port beyond the largest `Int` is refused. A
link with user info has the endpoint in its authority, if `java.net.URI` accepts the link at all. -/
def LinkInRange (P : Platform) (link : Text) : Prop :=
  match P.userInfo link with
  | none => ∀ bytes, P.base64Decode Base64.standard ((P.host link).getD []) = some bytes →
      IsLegacyText (Utf8.decode bytes) →
      1 ≤ JavaUri.natOfDigits (portText (Utf8.decode bytes)) ∧
          JavaUri.natOfDigits (portText (Utf8.decode bytes)) ≤ 65535 ∨
        2 ^ 31 ≤ JavaUri.natOfDigits (portText (Utf8.decode bytes))
  | some userInfo => ∀ bytes, P.base64Decode Base64.urlSafe userInfo = some bytes →
      IsUserInfoText (Utf8.decode bytes) → (JavaUri.parse link).isSome = true →
      JavaUri.HasEndpoint (JavaUri.authorityOf (link.drop Platform.scheme.length))

/-! What the patterns accept, as a text. -/

theorem any_isLineTerminator {t : Text} :
    ¬ t.any isLineTerminator = true ↔ ∀ c ∈ t, isLineTerminator c = false := by
  simp only [List.any_eq_true, not_exists, not_and, Bool.not_eq_true]

theorem matchHostPort_host {t host port : Text} (h : matchHostPort t = some (host, port)) :
    host ≠ [] := by
  obtain ⟨k, hk, heq⟩ := List.exists_of_findSome?_eq_some h
  split at heq
  · next hcond =>
      cases heq
      intro hnil
      have hlength := congrArg List.length hnil
      rw [List.length_take, List.length_nil] at hlength
      have := List.mem_range.mp hk
      omega
  · cases heq

theorem matchLegacy_host {t method password host port : Text}
    (h : matchLegacy t = some (method, password, host, port)) : host ≠ [] := by
  unfold matchLegacy at h
  split at h
  · cases h
  · obtain ⟨k, -, hk⟩ := List.exists_of_findSome?_eq_some h
    split at hk
    · obtain ⟨⟨password', host', port'⟩, hpassword, heq⟩ := Option.map_eq_some_iff.mp hk
      cases heq
      obtain ⟨j, -, hj⟩ := List.exists_of_findSome?_eq_some hpassword
      split at hj
      · obtain ⟨⟨host'', port''⟩, hhost, heq⟩ := Option.map_eq_some_iff.mp hj
        cases heq
        exact matchHostPort_host hhost
      · cases hj
    · cases hk

theorem matchUserInfo_iff {t : Text} :
    (∃ method password, matchUserInfo t = some (method, password)) ↔ IsUserInfoText t := by
  constructor
  · rintro ⟨method, password, h⟩
    have htext := matchUserInfo_some h
    unfold matchUserInfo at h
    split at h
    · cases h
    · next hlines =>
        refine ⟨any_isLineTerminator.mp hlines, method, password, ?_, htext⟩
        split at h
        · cases h
        · split at h
          · cases h
          · cases h
            exact List.cons_ne_nil _ _
  · rintro ⟨hlines, method, password, hne, rfl⟩
    obtain ⟨c, rest, rfl⟩ := List.exists_cons_of_ne_nil hne
    unfold matchUserInfo
    rw [if_neg (any_isLineTerminator.mpr hlines)]
    simp only [List.cons_append]
    split
    · next hnil =>
        rw [List.dropWhile_eq_nil_iff] at hnil
        have hcolon := hnil ':' (List.mem_append_right _ List.mem_cons_self)
        rw [bne_self_eq_false] at hcolon
        cases hcolon
    · exact ⟨_, _, rfl⟩

/-- A search through the places of a character finds something if one of them is good. -/
theorem findSome_isSome {β : Type} {t : Text} {before after : Text} {c : Char} {f : Nat → Option β}
    (ht : t = before ++ c :: after)
    (hf : ∀ {k}, k = before.length → t[k]? = some c → t.drop (k + 1) = after →
    (f k).isSome = true) :
    ((List.range t.length).findSome? f).isSome = true := by
  rw [List.findSome?_isSome_iff]
  refine ⟨before.length, ?_, hf rfl ?_ ?_⟩
  · rw [ht, List.mem_range, List.length_append, List.length_cons]
    omega
  · rw [ht, List.getElem?_append_right (Nat.le_refl _), Nat.sub_self]
    rfl
  · rw [ht, List.drop_append, List.drop_eq_nil_of_le (Nat.le_succ _), List.nil_append,
      Nat.add_sub_cancel_left, List.drop_succ_cons, List.drop_zero]

theorem matchHostPort_isSome {host digits : Text} (hhost : host ≠ []) (hne : digits ≠ [])
    (hdigits : ∀ c ∈ digits, JavaUri.isDigit c = true) :
    (matchHostPort (host ++ ':' :: digits)).isSome = true := by
  refine findSome_isSome rfl fun hk hget hdrop => ?_
  rw [if_pos]
  · rfl
  · rw [hdrop, hk]
    exact ⟨List.length_pos_of_ne_nil hhost, hk ▸ hget, hne, List.all_eq_true.mpr hdigits⟩

theorem matchPassword_isSome {password host digits : Text} (hhost : host ≠ []) (hne : digits ≠ [])
    (hdigits : ∀ c ∈ digits, JavaUri.isDigit c = true) :
    (matchPassword (password ++ '@' :: (host ++ ':' :: digits))).isSome = true := by
  unfold matchPassword
  rw [List.findSome?_isSome_iff]
  simp only [List.mem_reverse]
  rw [← List.findSome?_isSome_iff]
  refine findSome_isSome rfl fun _ hget hdrop => ?_
  rw [if_pos hget, hdrop, Option.isSome_map]
  exact matchHostPort_isSome hhost hne hdigits

theorem matchLegacy_iff {t : Text} :
    (∃ method password host port, matchLegacy t = some (method, password, host, port)) ↔
      IsLegacyText t := by
  constructor
  · rintro ⟨method, password, host, port, h⟩
    obtain ⟨hmethod, hne, hdigits⟩ := matchLegacy_groups h
    have hlines : ¬ t.any isLineTerminator = true := by
      intro hany
      unfold matchLegacy at h
      rw [if_pos hany] at h
      cases h
    exact ⟨any_isLineTerminator.mp hlines, method, password, host, port, hmethod,
      matchLegacy_host h, hne, List.all_eq_true.mp hdigits, matchLegacy_some h⟩
  · rintro ⟨hlines, method, password, host, digits, hmethod, hhost, hne, hdigits, ht⟩
    have hsome : (matchLegacy t).isSome = true := by
      unfold matchLegacy
      rw [if_neg (any_isLineTerminator.mpr hlines)]
      refine findSome_isSome ht fun hk hget hdrop => ?_
      rw [if_pos ⟨hk ▸ List.length_pos_of_ne_nil hmethod, hget⟩, hdrop, Option.isSome_map]
      exact matchPassword_isSome hhost hne hdigits
    obtain ⟨⟨method', password', host', port'⟩, hmatch⟩ := Option.isSome_iff_exists.mp hsome
    exact ⟨method', password', host', port', hmatch⟩

/-- The port that the pattern takes is the text behind the last `:`. -/
theorem matchLegacy_port {t method password host port : Text}
    (h : matchLegacy t = some (method, password, host, port)) : port = portText t := by
  obtain ⟨-, -, hdigits⟩ := matchLegacy_groups h
  have hcolon : ':' ∉ port := by
    intro hm
    cases List.all_eq_true.mp hdigits ':' hm
  have htext : t = (method ++ ':' :: (password ++ '@' :: host)) ++ ':' :: port := by
    rw [matchLegacy_some h]
    simp only [List.append_assoc, List.cons_append]
  unfold portText List.rtakeWhile
  rw [htext, List.reverse_append, List.reverse_cons, List.append_assoc, List.singleton_append,
    Scan.takeWhile_span (Scan.bne_of_not_mem fun hm => hcolon (List.mem_reverse.mp hm))
      Scan.bne_head, List.reverse_reverse]

/-! ## From the text to the profile -/

section Usable

variable {P : Platform} {feature : Option Profile} {link userInfo : Text}

theorem parseLegacy_usable_iff :
    (∀ p, parseLegacy P feature link = some p → Usable p) ↔
      ∀ bytes, P.base64Decode Base64.standard ((P.host link).getD []) = some bytes →
        IsLegacyText (Utf8.decode bytes) →
        1 ≤ JavaUri.natOfDigits (portText (Utf8.decode bytes)) ∧
            JavaUri.natOfDigits (portText (Utf8.decode bytes)) ≤ 65535 ∨
          2 ^ 31 ≤ JavaUri.natOfDigits (portText (Utf8.decode bytes)) := by
  constructor
  · intro h bytes hbytes htext
    obtain ⟨method, password, host, port, hmatch⟩ := matchLegacy_iff.mpr htext
    rw [← matchLegacy_port hmatch]
    by_cases hsmall : JavaUri.natOfDigits port < 2 ^ 31
    · have hread : ∃ p, parseLegacy P feature link = some p ∧
          p.remotePort = JavaUri.natOfDigits port := by
        obtain ⟨-, hne, hdigits⟩ := matchLegacy_groups hmatch
        unfold parseLegacy
        simp only [hbytes, hmatch, toInt_digits hne hdigits, if_pos hsmall, Option.bind_eq_bind,
          Option.bind_some]
        exact ⟨_, rfl, rfl⟩
      obtain ⟨p, hp, hport⟩ := hread
      have husable := (h p hp).2
      rw [hport] at husable
      exact Or.inl (by omega)
    · exact Or.inr (Nat.le_of_not_lt hsmall)
  · intro h p hp
    obtain ⟨bytes, method, port, hbytes, hmatch, hport⟩ := parseLegacy_some hp
    have hrange := h bytes hbytes (matchLegacy_iff.mp ⟨_, _, _, _, hmatch⟩)
    rw [← matchLegacy_port hmatch] at hrange
    obtain ⟨-, hne, hdigits⟩ := matchLegacy_groups hmatch
    rw [toInt_digits hne hdigits] at hport
    split at hport
    · have hvalue := Option.some.inj hport
      exact ⟨matchLegacy_host hmatch, by omega, by omega⟩
    · cases hport

/-- A host of the grammar is not empty without its brackets. -/
theorem unbracket_ne_nil {host : Text} (h : JavaUri.IsUriHost host) : unbracket host ≠ [] := by
  rcases or_assoc.mpr h with hplain | ⟨address, -, hbracketed, rfl⟩
  · have hhead := JavaUri.plain_head hplain (c := '[') rfl (by decide) []
    rw [List.append_nil] at hhead
    rw [unbracket_of_head hhead]
    exact JavaUri.isName_ne_nil hplain
  · have hlast : ('[' :: (address ++ [']'])).getLast? = some ']' := by
      rw [← List.cons_append, List.getLast?_concat]
    unfold unbracket
    rw [if_pos ⟨rfl, hlast⟩, List.drop_one, List.tail_cons, List.dropLast_concat]
    rintro rfl
    cases hbracketed

/-- The endpoint that the link branch stores, on the authority of the link. -/
theorem parse_usable_iff {a b : Char} {body : Text} {uri : JavaUri.Uri} (ha : a = 's' ∨ a = 'S')
    (hb : b = 's' ∨ b = 'S') (h : JavaUri.parse (a :: b :: ':' :: '/' :: '/' :: body) = some uri) :
    unbracket (uri.host.getD []) ≠ [] ∧ 1 ≤ uri.port ∧ uri.port ≤ 65535 ↔
      JavaUri.HasEndpoint (JavaUri.authorityOf body) := by
  rw [← JavaUri.parse_endpoint_iff ha hb h]
  cases hname : uri.host with
  | none => exact iff_of_false (fun hu => hu.1 rfl) (fun hu => hu.1 rfl)
  | some name =>
      constructor
      · rintro ⟨-, hport⟩
        exact ⟨Option.some_ne_none name, hport⟩
      · rintro ⟨-, hport⟩
        exact ⟨unbracket_ne_nil (JavaUri.isUriHost_of_parse ha hb h hname hport), hport⟩

theorem parseSip002_usable_iff {t : Text} (hlink : matchAt t = some link) :
    (∀ p, parseSip002 P feature link userInfo = some p → Usable p) ↔
      ∀ bytes, P.base64Decode Base64.urlSafe userInfo = some bytes →
        IsUserInfoText (Utf8.decode bytes) → (JavaUri.parse link).isSome = true →
        JavaUri.HasEndpoint (JavaUri.authorityOf (link.drop Platform.scheme.length)) := by
  obtain ⟨⟨a, b, body, ha, hb, -, rfl⟩, -⟩ := matchAt_some hlink
  constructor
  · intro h bytes hbytes htext huri
    obtain ⟨method, password, hmatch⟩ := matchUserInfo_iff.mpr htext
    obtain ⟨uri, huri⟩ := Option.isSome_iff_exists.mp huri
    have hread : ∃ p, parseSip002 P feature (a :: b :: ':' :: '/' :: '/' :: body) userInfo =
        some p ∧
        p.host = unbracket (uri.host.getD []) ∧ p.remotePort = uri.port := by
      unfold parseSip002
      simp only [hbytes, hmatch, huri, Option.bind_eq_bind, Option.bind_some]
      exact ⟨_, rfl, rfl, rfl⟩
    obtain ⟨p, hp, hhost, hport⟩ := hread
    have husable : p.host ≠ [] ∧ 1 ≤ p.remotePort ∧ p.remotePort ≤ 65535 := h p hp
    rw [hhost, hport] at husable
    exact (parse_usable_iff ha hb huri).mp husable
  · intro h p hp
    unfold parseSip002 at hp
    simp only [Option.bind_eq_bind, Option.bind_eq_some_iff] at hp
    obtain ⟨bytes, hbytes, ⟨method, password⟩, hmatch, uri, huri, heq⟩ := hp
    cases heq
    have hend := h bytes hbytes (matchUserInfo_iff.mp ⟨_, _, hmatch⟩) (by rw [huri]; rfl)
    exact (parse_usable_iff ha hb huri).mpr hend

theorem parseUrl_usable_iff {t : Text} (hlink : matchAt t = some link) :
    (∀ p, parseUrl P feature link = some p → Usable p) ↔ LinkInRange P link := by
  unfold parseUrl LinkInRange
  cases P.userInfo link with
  | none => exact parseLegacy_usable_iff
  | some userInfo => exact parseSip002_usable_iff hlink

theorem findAllUrls_usable_iff (data : Option Text) :
    (∀ p ∈ findAllUrls P data feature, Usable p) ↔
      ∀ link ∈ findAll 0 (data.getD []), LinkInRange P link := by
  unfold findAllUrls
  constructor
  · intro h link hlink
    obtain ⟨t, ht⟩ := exists_matchAt hlink
    have husable : ∀ p, parseUrl P feature link = some p → Usable p :=
      fun p hp => h p (List.mem_filterMap.mpr ⟨link, hlink, hp⟩)
    exact (parseUrl_usable_iff ht).mp husable
  · intro h p hp
    obtain ⟨link, hlink, hread⟩ := List.mem_filterMap.mp hp
    obtain ⟨t, ht⟩ := exists_matchAt hlink
    exact (parseUrl_usable_iff ht).mpr (h link hlink) p hread

end Usable

end Profile

/-! ## Documents -/

namespace JsonParser

open Plugin

section Recording

variable {σ : Type}

/-- The callback, and a list of what it was given. -/
def recording (c : Callbacks σ) : Callbacks (σ × List Profile) where
  create s p := ((c.create s.1 p).1, (c.create s.1 p).2, s.2 ++ [p])
  getAllProfiles s := c.getAllProfiles s.1
  updateProfile s p := ((c.updateProfile s.1 p).1, (c.updateProfile s.1 p).2, s.2)

/-- The profiles that `parseJson` hands to the callback, also when it throws afterwards. -/
def handed (c : Callbacks σ) (G : Gson) (E : Enumeration) (feature : Option Profile) (doc : Json)
    (s : σ) :
    List Profile :=
  (parseJson (recording c) G E feature doc (s, [])).2.2

variable {c : Callbacks σ} {Q : Profile → Prop}

/-- The list grows by a profile at each call of `create`, whatever comes of it. -/
theorem keeps_recording (c : Callbacks σ) (Q : Profile → Prop) :
    Keeps (recording c) Q (fun _ _ => True) (fun s => ∀ p ∈ s.2, Q p) (fun _ _ => True)
      fun _ => True where
  create {s s' p r} hp hs hcall := by
    have hlist : s.2 ++ [p] = s'.2 := congrArg (fun x => x.2.2) hcall
    refine ⟨After.of_storage ?_ (fun _ _ => trivial) (fun _ _ => trivial),
      fun _ _ => ⟨trivial, trivial⟩⟩
    rw [← hlist]
    exact List.forall_mem_append.mpr ⟨hs, List.forall_mem_singleton.mpr hp⟩
  getAllProfiles _ _ := trivial
  update {s s' q id r} hs _ hcall := by
    have hlist : s.2 = s'.2 := congrArg (fun x => x.2.2) hcall
    exact After.of_storage (hlist ▸ hs) (fun _ _ => trivial) (fun _ _ => trivial)

/-- What holds of the list and the map that `process` leaves holds of every profile handed over. -/
theorem forall_handed {G : Gson} {E : Enumeration} {feature : Option Profile} {doc : Json}
    {st : State} (hprocess : process G E feature {} doc = .ok st)
    (hprofiles : ∀ p ∈ st.profiles, Q p) (hmap : ∀ e ∈ st.fallbackMap, Q e.2)
    (s : σ) : ∀ p ∈ handed c G E feature doc s, Q p := by
  have hentries : ∀ e ∈ st.fallbackMap, Q e.2 ∧ (e.1 ∈ st.profiles ∨ True) :=
    fun e he => ⟨hmap e he, Or.inr trivial⟩
  obtain ⟨hafter, -⟩ := (keeps_recording c Q).parseJson hprocess hprofiles hentries
    (List.forall_mem_nil Q) (s := (s, [])) rfl
  exact hafter.state

end Recording

/-! A callback that keeps nothing is handed everything. -/

/-- Nothing is stored, and nothing fails. -/
def keepNothing : Callbacks Unit where
  create _ p := (.ok p, ())
  getAllProfiles _ := .ok []
  updateProfile _ _ := (.ok (), ())

/-- An entry that moves to an equal profile stays. -/
theorem mem_moveEntry_self {map : FallbackMap} (hkeys : (map.map Prod.fst).Nodup) (p : Profile)
    {e : Profile × Profile} (he : e ∈ map) : e ∈ moveEntry map p p := by
  rw [mem_moveEntry hkeys]
  by_cases hp : e.1 = p
  · exact Or.inl ⟨hp, hp ▸ he⟩
  · exact Or.inr ⟨he, hp, fun _ => hp⟩

theorem createAll_keepNothing (profiles : List Profile) {map : FallbackMap}
    (hkeys : (map.map Prod.fst).Nodup) (log : List Profile) :
    ∃ map', createAll (recording keepNothing) profiles map ((), log) =
      (.ok (profiles, map'), ((), log ++ profiles)) ∧ ∀ e ∈ map, e ∈ map' := by
  induction profiles generalizing map log with
  | nil =>
      refine ⟨map, ?_, fun e he => he⟩
      rw [List.append_nil]
      rfl
  | cons p profiles ih =>
      obtain ⟨map', hrest, hsub⟩ := ih (nodup_moveEntry hkeys p p) (log ++ [p])
      refine ⟨map', ?_, fun e he => hsub e (mem_moveEntry_self hkeys p he)⟩
      have hcall : (recording keepNothing).create ((), log) p = (.ok p, ((), log ++ [p])) := rfl
      rw [createAll, hcall]
      dsimp only
      rw [hrest, List.append_assoc]
      rfl

theorem linkAll_keepNothing (map : FallbackMap) (log : List Profile) :
    linkAll (recording keepNothing) [] map ((), log) = (.ok (), ((), log ++ map.map Prod.snd)) := by
  induction map generalizing log with
  | nil =>
      rw [List.map_nil, List.append_nil]
      rfl
  | cons e map ih =>
      obtain ⟨p, f⟩ := e
      have hrest := ih (log ++ [f])
      rw [List.append_assoc] at hrest
      exact hrest

theorem mem_handed_keepNothing {G : Gson} {E : Enumeration} {feature : Option Profile} {doc : Json}
    {st : State} (hprocess : process G E feature {} doc = .ok st)
    (hkeys : (st.fallbackMap.map Prod.fst).Nodup) :
    (∀ p ∈ st.profiles, p ∈ handed keepNothing G E feature doc ()) ∧
      ∀ e ∈ st.fallbackMap, e.2 ∈ handed keepNothing G E feature doc () := by
  obtain ⟨map', hcreate, hsub⟩ := createAll_keepNothing st.profiles hkeys []
  have hhanded : handed keepNothing G E feature doc () = ([] ++ st.profiles) ++
      map'.map Prod.snd := by
    unfold handed parseJson
    rw [hprocess]
    dsimp only
    rw [hcreate]
    dsimp only
    have hfinal : finalize (recording keepNothing) map' ((), [] ++ st.profiles) =
        (.ok (), ((), ([] ++ st.profiles) ++ map'.map Prod.snd)) :=
      linkAll_keepNothing map' ([] ++ st.profiles)
    rw [hfinal]
  rw [hhanded]
  refine ⟨fun p hp => List.mem_append_left _ hp, fun e he => ?_⟩
  exact List.mem_append_right _ (List.mem_map_of_mem (hsub e he))

/-! ## Both -/

variable {G : Gson} {E : Enumeration} {feature : Option Profile}

/-- The profile an object is read as. -/
def profileOf (G : Gson) (E : Enumeration) (feature : Option Profile) (json : Members) :
    Option Profile :=
  match tryParse G E feature json with
  | .ok (some item) => some item.1
  | _ => none

/-- All objects of a document can be read. -/
def Readable (G : Gson) (E : Enumeration) (feature : Option Profile) (doc : Json) : Prop :=
  ∀ json ∈ objects G doc, ∀ f, tryParse G E feature json ≠ .error f

/-- The port of each recognised object is at most 65535, and that of its fallback, unless a later
object with a fallback is read as the same profile. -/
def PortsInRange (G : Gson) (E : Enumeration) (feature : Option Profile) (doc : Json) : Prop :=
  ∀ before json after, objects G doc = before ++ json :: after →
    (∀ s, server G json = some s → s.remotePort ≤ 65535) ∧
      ∀ s, fallbackServer G json = some s →
        (∀ later ∈ after, profileOf G E feature later = profileOf G E feature json →
          fallbackServer G later = none) → s.remotePort ≤ 65535

theorem Reads.profileOf {json : Members} {item : Item} (h : Reads G E feature json item) :
    JsonParser.profileOf G E feature json = some item.1 := by
  unfold JsonParser.profileOf
  rw [show tryParse G E feature json = .ok (some item) from h]

theorem usable_of_server {json : Members} {p : Profile} (h : server G json = some (serverOf p)) :
    Usable p ↔ p.remotePort ≤ 65535 := by
  obtain ⟨hhost, hport⟩ := server_some h
  exact ⟨fun hp => hp.2.2, fun hp => ⟨hhost, hport, hp⟩⟩

/-- The fallback of an item comes from an object with the four values. -/
theorem ItemSpec.exists_member {json : Members} {item : Item} (h : ItemSpec G E json item)
    {f : Profile} (hf : item.2 = some f) : fallbackServer G json = some (serverOf f) ∧
      ∃ member, JsonParser.server G member = some (serverOf f) := by
  have hserver : fallbackServer G json = some (serverOf f) := by
    rw [h.fallback, hf]
    rfl
  obtain ⟨member, -, hmember⟩ := Option.bind_eq_some_iff.mp hserver
  exact ⟨hserver, member, hmember⟩

/-- No later object has a fallback for the profile of `json`, on the objects and on the items. -/
theorem no_later_fallback_iff {json : Members} {p f : Profile} {after : List Members}
    {later : List Item} (hread : Reads G E feature json (p, some f))
    (hafter : List.Forall₂ (Reads G E feature) after later) :
    (∀ x ∈ after, profileOf G E feature x = profileOf G E feature json →
      fallbackServer G x = none) ↔
      ∀ item ∈ later, item.1 = p → item.2 = none := by
  constructor
  · intro h item hitem hp
    obtain ⟨x, hx, hreadx⟩ := Related.exists_left hafter hitem
    have hnone := h x hx (by rw [hreadx.profileOf, hread.profileOf, hp])
    rw [hreadx.spec.fallback] at hnone
    exact Option.map_eq_none_iff.mp hnone
  · intro h x hx hsame
    obtain ⟨item, hitem, hreadx⟩ := Related.exists_left (List.Forall₂.flip hafter) hx
    have hreadx : Reads G E feature x item := hreadx
    rw [hreadx.profileOf, hread.profileOf, Option.some.injEq] at hsame
    rw [hreadx.spec.fallback, h item hitem hsame]
    rfl

/-- The ports of the list and of the map. -/
theorem portsInRange_iff {doc : Json} {items : List Item}
    (hitems : List.Forall₂ (Reads G E feature) (objects G doc) items) :
    PortsInRange G E feature doc ↔ (∀ p ∈ items.map Prod.fst, Usable p) ∧
      ∀ e ∈ Keyed.putAll Prod.fst (entries items), Usable e.2 := by
  constructor
  · intro h
    refine ⟨fun p hp => ?_, fun e he => ?_⟩
    · obtain ⟨item, hitem, rfl⟩ := List.mem_map.mp hp
      obtain ⟨before, after, rfl⟩ := List.append_of_mem hitem
      obtain ⟨b, json, a, hsplit, -, hread, -⟩ := Related.split hitems
      have hserver := hread.spec.server
      exact (usable_of_server hserver).mpr ((h b json a hsplit).1 _ hserver)
    · obtain ⟨p, f⟩ := e
      obtain ⟨before, after, rfl, hafter⟩ := mem_fallbackMap_iff.mp he
      obtain ⟨b, json, a, hsplit, -, hread, hrest⟩ := Related.split hitems
      obtain ⟨hfallback, member, hmember⟩ := hread.spec.exists_member rfl
      refine (usable_of_server hmember).mpr ?_
      exact (h b json a hsplit).2 _ hfallback ((no_later_fallback_iff hread hrest).mpr hafter)
  · rintro ⟨hprofiles, hmap⟩ before json after hsplit
    rw [hsplit] at hitems
    obtain ⟨b, item, a, rfl, -, hread, hrest⟩ := Related.split_left hitems
    refine ⟨fun s hs => ?_, fun s hs hafter => ?_⟩
    · have husable :=
        hprofiles item.1 (List.mem_map_of_mem (List.mem_append_right _ List.mem_cons_self))
      rw [hread.spec.server] at hs
      cases hs
      exact husable.2.2
    · rw [hread.spec.fallback] at hs
      obtain ⟨f, hf, rfl⟩ := Option.map_eq_some_iff.mp hs
      obtain ⟨p, fallback⟩ := item
      have hf : fallback = some f := hf
      subst hf
      have hmem : (p, f) ∈ Keyed.putAll Prod.fst (entries (b ++ (p, some f) :: a)) :=
        mem_fallbackMap_iff.mpr ⟨b, a, rfl, (no_later_fallback_iff hread hrest).mp hafter⟩
      exact (hmap (p, f) hmem).2.2

/-- The profiles handed to the callback are usable, whatever the callback does, if and only if some
object cannot be read or the ports are in range. -/
theorem handed_usable_iff (doc : Json) :
    (∀ (σ : Type) (c : Callbacks σ) (s : σ), ∀ p ∈ handed c G E feature doc s, Usable p) ↔
      (Readable G E feature doc → PortsInRange G E feature doc) := by
  rcases process_cases G E feature doc with ⟨items, hitems, hprocess⟩ | ⟨json, hjson, f, hf,
    hprocess⟩
  · rw [portsInRange_iff hitems]
    constructor
    · intro h _
      obtain ⟨hprofiles, hmap⟩ := mem_handed_keepNothing hprocess (Keyed.nodup_putAll _)
      exact ⟨fun p hp => h Unit keepNothing () p (hprofiles p hp),
        fun e he => h Unit keepNothing () e.2 (hmap e he)⟩
    · intro h σ c s
      have hreadable : Readable G E feature doc := by
        intro json hjson f hf
        obtain ⟨item, -, hread⟩ := Related.exists_left (List.Forall₂.flip hitems) hjson
        have hread : Reads G E feature json item := hread
        unfold Reads at hread
        rw [hf] at hread
        cases hread
      obtain ⟨hprofiles, hmap⟩ := h hreadable
      exact forall_handed hprocess hprofiles hmap s
  · constructor
    · intro _ hreadable
      exact absurd hf (hreadable json hjson f)
    · intro _ σ c s p hp
      unfold handed parseJson at hp
      rw [hprocess] at hp
      exact absurd hp List.not_mem_nil

end JsonParser

/-- Only usable endpoints are imported if and only if the links of the text are usable, and if the
objects of the document have ports that TCP has. -/
theorem imported_endpoints_iff (P : Platform) (G : Gson) (E : Plugin.Enumeration)
    (feature : Option Profile) :
    (∀ data : Option Text, (∀ p ∈ Profile.findAllUrls P data feature, Usable p) ↔
      ∀ link ∈ Profile.findAll 0 (data.getD []), Profile.LinkInRange P link) ∧
    ∀ doc : Json, (∀ (σ : Type) (c : JsonParser.Callbacks σ) (s : σ),
        ∀ p ∈ JsonParser.handed c G E feature doc s, Usable p) ↔
      (JsonParser.Readable G E feature doc → JsonParser.PortsInRange G E feature doc) :=
  ⟨Profile.findAllUrls_usable_iff, JsonParser.handed_usable_iff⟩

/-- A link with user info and one that has everything in its base64 text. -/
def plainLinks : List Text :=
  ["ss://YWVzLTI1Ni1jZmI6cA@a:443".toList, "ss://YWVzLTI1Ni1jZmI6cEBiOjgzODg=".toList]

/-- The two links of `plainLinks` in one text. -/
def plainLinksText : Text := List.intercalate [' '] plainLinks

/-- A link without a port. -/
def portlessLink : Text := "ss://YWVzLTI1Ni1jZmI6cA@a".toList

/-- The text of both links names an endpoint that TCP has. -/
theorem plainLinks_inRange : ∀ link ∈ plainLinks, Profile.LinkInRange aosp link := by
  refine List.forall_mem_cons.mpr ⟨?_, List.forall_mem_singleton.mpr ?_⟩
  · have huser : aosp.userInfo "ss://YWVzLTI1Ni1jZmI6cA@a:443".toList =
        some "YWVzLTI1Ni1jZmI6cA".toList := by decide +kernel
    have hend : ∀ c ∈ some 'a', c ≠ '-' := by
      rintro c ⟨⟩
      decide
    have hlabel : JavaUri.IsLabel ['a'] := ⟨nofun, List.all_eq_true.mp (by decide), hend, hend⟩
    have hname : JavaUri.IsName ['a'] :=
      ⟨[], ['a'], [], List.forall_mem_nil _, hlabel, fun h => absurd rfl h, Or.inl rfl, rfl⟩
    have hport : JavaUri.IsTcpPort "443".toList :=
      ⟨List.all_eq_true.mp (by decide), by decide, by decide⟩
    have hinfo : JavaUri.checkChars JavaUri.isUserInfo "YWVzLTI1Ni1jZmI6cA".toList = true := by
      decide +kernel
    unfold Profile.LinkInRange
    rw [huser]
    intro _ _ _ _
    exact ⟨"YWVzLTI1Ni1jZmI6cA@".toList, ['a'], "443".toList, by decide +kernel,
      Or.inr ⟨_, hinfo, rfl⟩, Or.inl hname, hport⟩
  · have hnone : aosp.userInfo "ss://YWVzLTI1Ni1jZmI6cEBiOjgzODg=".toList = none := by
      decide +kernel
    have hvalue : (aosp.base64Decode Base64.standard
        ((aosp.host "ss://YWVzLTI1Ni1jZmI6cEBiOjgzODg=".toList).getD [])).map
          (fun bytes => JavaUri.natOfDigits (Profile.portText (Utf8.decode bytes))) =
            some 8388 := by
      decide +kernel
    unfold Profile.LinkInRange
    rw [hnone]
    intro bytes hbytes _
    rw [hbytes, Option.map_some, Option.some.injEq] at hvalue
    rw [hvalue]
    exact Or.inl (by decide)

theorem imported_endpoints_plain :
    ((Profile.findAllUrls aosp (some plainLinksText) none).map
        (fun p => (p.host, p.remotePort)) = [("a".toList, 443), ("b".toList, 8388)] ∧
      ∀ p ∈ Profile.findAllUrls aosp (some plainLinksText) none, Usable p) ∧
    (JsonParser.handed JsonParser.keepNothing plainGson .inserted none
      (.object (JsonParser.portObject "65535")) ()).length = 1 ∧
    ∀ (σ : Type) (c : JsonParser.Callbacks σ) (s : σ),
      ∀ p ∈ JsonParser.handed c plainGson .inserted none
        (.object (JsonParser.portObject "65535")) s, Usable p := by
  have hlinks : Profile.findAll 0 plainLinksText = plainLinks := by decide +kernel
  have hiff := imported_endpoints_iff aosp plainGson .inserted none
  refine ⟨⟨by decide +kernel, (hiff.1 (some plainLinksText)).mpr ?_⟩, by decide +kernel,
    (hiff.2 _).mpr fun _ => ?_⟩
  · intro link hlink
    rw [Option.getD_some, hlinks] at hlink
    exact plainLinks_inRange link hlink
  intro before json after hsplit
  have hobjects : JsonParser.objects plainGson (.object (JsonParser.portObject "65535")) =
      [JsonParser.portObject "65535"] := rfl
  have hmem : json ∈ [JsonParser.portObject "65535"] := by
    rw [← hobjects, hsplit]
    exact List.mem_append_right _ List.mem_cons_self
  have hserver : JsonParser.server plainGson (JsonParser.portObject "65535") =
      some ⟨"a".toList, 65535, "p".toList, "aes-256-gcm".toList⟩ := by decide +kernel
  have hfallback : JsonParser.fallbackServer plainGson (JsonParser.portObject "65535") = none := by
    decide +kernel
  rw [List.mem_singleton.mp hmem]
  refine ⟨fun s hs => ?_, fun s hs => ?_⟩
  · rw [hserver] at hs
    cases hs
    decide
  · rw [hfallback] at hs
    cases hs

/-- A link without a port is imported with the port -1, and a document with the port 65536. -/
theorem imported_endpoints_out_of_range :
    (∃ p ∈ Profile.findAllUrls aosp (some portlessLink) none, p.remotePort = -1 ∧ ¬ Usable p) ∧
      ∃ p ∈ JsonParser.handed JsonParser.keepNothing plainGson .inserted none
        (.object (JsonParser.portObject "65536")) (), p.remotePort = 65536 ∧ ¬ Usable p := by
  have hlink : (Profile.findAllUrls aosp (some portlessLink) none).map Profile.remotePort =
      [-1] := by
    decide +kernel
  have hdoc : (JsonParser.handed JsonParser.keepNothing plainGson .inserted none
      (.object (JsonParser.portObject "65536")) ()).map Profile.remotePort = [65536] := by
    decide +kernel
  constructor
  · obtain ⟨p, hp, hport⟩ := List.mem_map.mp (hlink ▸ List.mem_singleton_self (-1 : Int))
    refine ⟨p, hp, hport, fun husable => ?_⟩
    have := husable.2.1
    omega
  · obtain ⟨p, hp, hport⟩ := List.mem_map.mp (hdoc ▸ List.mem_singleton_self (65536 : Int))
    refine ⟨p, hp, hport, fun husable => ?_⟩
    have := husable.2.2
    omega

end CypherConnect
