/-
  The two formats of a link: everything in one standard base64 text, and SIP002.

  Both are found, and name and port are read alike. They differ where a part of the old link is cut
  off or kept as it is: a `/` in the base64 text ends the authority of the link, the brackets of an
  address stay in the host, and only the old format turns the method to lower case.

  * `matchLegacy_eq`: the pattern of the old format on the text it was written from.
  * `slash_disagrees`: what stands before a `/` never holds the whole server.
  * `link_formats_agree_iff`: the exact condition under which both links give one key.
-/
import CypherConnect.Database.ShareLink

namespace CypherConnect.Profile

open Plugin Scan

/-! ## Writing -/

/-- The text of a link of the old format, `method:password@host:port`. -/
def legacyText (p : Profile) : Text := p.method ++ ':' :: (p.password ++ '@' :: p.hostPort)

/-- Its base64 text, with or without padding. -/
def legacyBody (padded : Bool) (p : Profile) : Text :=
  if padded then Base64.encodePadded Base64.standard (Utf8.encode p.legacyText)
  else Base64.encode Base64.standard (Utf8.encode p.legacyText)

def legacyLink (padded : Bool) (p : Profile) : Text :=
  Platform.scheme ++ legacyBody padded p ++ '#' :: uriEncode (p.name.getD [])

/-- Two profiles with the same server and name; no name is read as an empty one. -/
structure SameServer (p q : Profile) : Prop where
  method : p.method = q.method
  password : p.password = q.password
  host : p.host = q.host
  remotePort : p.remotePort = q.remotePort
  name : p.name.getD [] = q.name.getD []

/-- Each of the links gives one profile, of the same server. -/
def LinksAgree (P : Platform) (feature : Option Profile) (link link' : Text) : Prop :=
  ∃ q q', findAllUrls P (some link) feature = [q] ∧ findAllUrls P (some link') feature = [q'] ∧
    SameServer q q'

/-- Both formats of the profile are read alike: nothing of the old link is cut off, the host needs
no brackets, and what stands before the first `:` that may end a method is a method in lower
case. -/
structure OneKey (P : Platform) (padded : Bool) (p : Profile) : Prop where
  slash : '/' ∉ legacyBody padded p
  host : ':' ∉ p.host
  lines : ∀ c ∈ p.method, isLineTerminator c = false
  method : p.method = [] → ∃ front rest, p.password = front ++ ':' :: rest ∧ ':' ∉ front ∧
    P.lowercase (':' :: front) = ':' :: front

/-! ## The patterns on the text of a link -/

variable {p : Profile} {P : Platform} {feature : Option Profile}

theorem matchUserInfo_lines {t method password : Text}
    (h : matchUserInfo t = some (method, password)) :
    ∀ c ∈ t, isLineTerminator c = false := by
  unfold matchUserInfo at h
  split at h
  · cases h
  · next hany =>
      intro c hc
      exact Bool.eq_false_iff.mpr fun hline => hany (List.any_eq_true.mpr ⟨c, hc, hline⟩)

/-- An empty method makes the first `:` part of the next one. -/
theorem matchUserInfo_colon {front rest : Text} (hcolon : ':' ∉ front)
    (hlines : ∀ c ∈ front ++ ':' :: rest, isLineTerminator c = false) :
    matchUserInfo (':' :: (front ++ ':' :: rest)) = some (':' :: front, rest) := by
  have hany : ¬ (':' :: (front ++ ':' :: rest)).any isLineTerminator = true := by
    rw [List.any_eq_true]
    rintro ⟨x, hx, hline⟩
    rcases List.mem_cons.mp hx with rfl | hx
    · cases hline
    · rw [hlines x hx] at hline
      cases hline
  unfold matchUserInfo
  rw [if_neg hany]
  simp only [dropWhile_span (bne_of_not_mem hcolon) bne_head,
    takeWhile_span (bne_of_not_mem hcolon) bne_head]

/-- The method that is matched is not empty, and a `:` in it is its first character. -/
theorem matchUserInfo_method {t method password : Text}
    (h : matchUserInfo t = some (method, password)) :
    ∃ c front, method = c :: front ∧ ':' ∉ front := by
  unfold matchUserInfo at h
  split at h
  · cases h
  · split at h
    · cases h
    · next c r _ =>
        split at h
        · cases h
        · cases h
          refine ⟨c, _, rfl, fun hm => ?_⟩
          have hbne := List.mem_takeWhile_imp hm
          cases hbne

/-- Where method and password are matched in lower case. -/
theorem matchUserInfo_lower_iff (hlower : P.lowercase p.method = p.method) (hcolon : ':' ∉ p.method)
    (hpassword : ∀ c ∈ p.password, isLineTerminator c = false) :
    (∃ m pw, matchUserInfo (p.method ++ ':' :: p.password) = some (m, pw) ∧ P.lowercase m = m) ↔
      (∀ c ∈ p.method, isLineTerminator c = false) ∧
        (p.method = [] → ∃ front rest, p.password = front ++ ':' :: rest ∧ ':' ∉ front ∧
          P.lowercase (':' :: front) = ':' :: front) := by
  constructor
  · rintro ⟨m, pw, hmatch, hm⟩
    refine ⟨fun c hc => matchUserInfo_lines hmatch c (List.mem_append_left _ hc), fun hnil => ?_⟩
    obtain ⟨c, front, rfl, hfront⟩ := matchUserInfo_method hmatch
    have hsplit := matchUserInfo_some hmatch
    rw [hnil, List.nil_append, List.cons_append, List.cons.injEq] at hsplit
    obtain ⟨rfl, hsplit⟩ := hsplit
    exact ⟨front, pw, hsplit, hfront, hm⟩
  · rintro ⟨hlines, hempty⟩
    by_cases hnil : p.method = []
    · obtain ⟨front, rest, hsplit, hfront, hm⟩ := hempty hnil
      rw [hsplit] at hpassword
      refine ⟨':' :: front, rest, ?_, hm⟩
      rw [hnil, hsplit]
      exact matchUserInfo_colon hfront hpassword
    · refine ⟨p.method, p.password, matchUserInfo_eq hnil hcolon fun c hc => ?_, hlower⟩
      rcases List.mem_append.mp hc with hc | hc
      · exact hlines c hc
      · rcases List.mem_cons.mp hc with rfl | hc
        · rfl
        · exact hpassword c hc

theorem accepted_ne_nil {host : Text} {port : Nat} (h : JavaUri.AcceptedHost host port) :
    host ≠ [] := by
  rintro rfl
  have hread := h.read
  have hnone : JavaUri.parseHostPort (':' :: JavaUri.decimal port) = none := rfl
  rw [JavaUri.wrappedHost_of_not_colon List.not_mem_nil, List.nil_append, hnone] at hread
  cases hread

/-- A host is split from its port at the last `:`. -/
theorem matchHostPort_accepted {host : Text} {port : Nat} (h : JavaUri.AcceptedHost host port) :
    matchHostPort (JavaUri.wrappedHost host ++ ':' :: JavaUri.decimal port) =
      some (JavaUri.wrappedHost host, JavaUri.decimal port) := by
  have hdigits : (JavaUri.decimal port).all JavaUri.isDigit = true :=
    List.all_eq_true.mpr fun c hc => JavaUri.isDigit_of_mem_decimal hc
  by_cases hcolon : ':' ∈ host
  · rw [JavaUri.wrappedHost_of_colon hcolon]
    refine matchHostPort_eq (List.cons_ne_nil _ _) (JavaUri.decimal_ne_nil port) hdigits ?_
    intro a b hsplit
    -- the `]` stands behind every other `:`
    have hlast : (a ++ ':' :: b).getLast? = some ']' := by
      rw [← hsplit]
      exact List.getLast?_concat
    cases b using List.reverseRecOn with
    | nil =>
        rw [List.getLast?_concat] at hlast
        cases hlast
    | append_singleton b c =>
        have hassoc : a ++ ':' :: (b ++ [c]) = (a ++ ':' :: b) ++ [c] := by
          rw [List.append_assoc]
          rfl
        rw [hassoc, List.getLast?_concat] at hlast
        cases hlast
        rw [List.all_append, Bool.and_eq_false_iff]
        exact Or.inr rfl
  · rw [JavaUri.wrappedHost_of_not_colon hcolon]
    refine matchHostPort_eq (accepted_ne_nil h) (JavaUri.decimal_ne_nil port) hdigits ?_
    rintro a b rfl
    exact absurd (List.mem_append_right _ List.mem_cons_self) hcolon

theorem at_not_mem_hostPort (hp : p.Reachable) : '@' ∉ p.hostPort :=
  (madeOf_hostPort hp).not_mem rfl (by decide)

theorem lines_hostPort (hp : p.Reachable) : ∀ c ∈ p.hostPort, isLineTerminator c = false := by
  have hterm : ∀ x ∈ ['\n', '\r', Char.ofNat 0x85, Char.ofNat 0x2028, Char.ofNat 0x2029],
      JavaUri.isAlphanum x = false := forall_eq_false (by decide)
  have halnum : ∀ c, JavaUri.isAlphanum c = true → (!isLineTerminator c) = true := by
    intro c hc
    rw [Bool.not_eq_true', Bool.eq_false_iff]
    intro hline
    rw [hterm c (List.contains_iff_mem.mp hline)] at hc
    cases hc
  intro c hc
  exact Bool.not_eq_true' _ ▸ (madeOf_hostPort hp).forall halnum (by decide) c hc

theorem lines_legacyText (hp : p.Reachable) {m pw : Text}
    (hmatch : matchUserInfo (p.method ++ ':' :: p.password) = some (m, pw)) :
    ∀ c ∈ p.legacyText, isLineTerminator c = false := by
  have htext : p.legacyText = (p.method ++ ':' :: p.password) ++ '@' :: p.hostPort := by
    rw [List.append_assoc]
    rfl
  rw [htext]
  refine List.forall_mem_append.mpr ⟨matchUserInfo_lines hmatch, ?_⟩
  exact List.forall_mem_cons.mpr ⟨rfl, lines_hostPort hp⟩

/-- The pattern of the old format splits the text at the `:` of the other pattern. -/
theorem matchLegacy_eq {m pw : Text} (hp : p.Reachable) {port : Nat} (hport : p.remotePort = port)
    (haccepted : JavaUri.AcceptedHost p.host port)
    (hmatch : matchUserInfo (p.method ++ ':' :: p.password) = some (m, pw)) :
    matchLegacy p.legacyText = some (m, pw, JavaUri.wrappedHost p.host, JavaUri.decimal port) := by
  have hsplit := matchUserInfo_some hmatch
  have htext : p.legacyText = m ++ ':' :: (pw ++ '@' :: p.hostPort) := by
    have hcongr := congrArg (· ++ '@' :: p.hostPort) hsplit
    simp only [List.append_assoc, List.cons_append] at hcongr
    exact hcongr
  obtain ⟨c, front, rfl, hfront⟩ := matchUserInfo_method hmatch
  have hlines : ¬ p.legacyText.any isLineTerminator = true := by
    rw [Bool.not_eq_true, List.any_eq_false]
    intro c hc
    rw [lines_legacyText hp hmatch c hc]
    exact Bool.false_ne_true
  have hpassword : matchPassword (pw ++ '@' :: p.hostPort) =
      some (pw, JavaUri.wrappedHost p.host, JavaUri.decimal port) := by
    refine matchPassword_eq (at_not_mem_hostPort hp) ?_
    rw [hostPort_eq hport]
    exact matchHostPort_accepted haccepted
  unfold matchLegacy
  rw [if_neg hlines, htext]
  have hlen : (c :: front).length < (c :: front ++ ':' :: (pw ++ '@' :: p.hostPort)).length := by
    rw [List.length_append, List.length_cons (a := ':')]
    omega
  refine findSome?_range hlen ?_ ?_
  · have hget : (c :: front ++ ':' :: (pw ++ '@' :: p.hostPort))[(c :: front).length]? =
        some ':' := by
      rw [List.getElem?_append_right (Nat.le_refl _), Nat.sub_self]
      rfl
    have hdrop : (c :: front ++ ':' :: (pw ++ '@' :: p.hostPort)).drop ((c :: front).length + 1) =
        pw ++ '@' :: p.hostPort := by
      rw [List.drop_append, List.drop_eq_nil_of_le (Nat.le_succ _), List.nil_append]
      simp only [Nat.add_sub_cancel_left, List.drop_succ_cons, List.drop_zero]
    rw [if_pos ⟨Nat.succ_pos _, hget⟩, hdrop, hpassword, List.take_left]
    rfl
  · intro j hj
    refine if_neg ?_
    rintro ⟨hone, hat⟩
    rw [List.getElem?_append_left hj] at hat
    obtain ⟨i, rfl⟩ : ∃ i, j = i + 1 := ⟨j - 1, by omega⟩
    rw [List.getElem?_cons_succ] at hat
    exact hfront (List.mem_of_getElem? hat)

/-! ## The old format -/

theorem legacyBody_eq (padded : Bool) (p : Profile) : ∃ pads, (∀ x ∈ pads, x = '=') ∧
    legacyBody padded p = Base64.encode Base64.standard (Utf8.encode p.legacyText) ++ pads := by
  cases padded with
  | true => exact ⟨_, fun x hx => List.eq_of_mem_replicate hx, rfl⟩
  | false => exact ⟨[], List.forall_mem_nil _, (List.append_nil _).symm⟩

theorem madeOf_legacyBody {padded : Bool} :
    JavaUri.MadeOf ['/', '+', '='] (legacyBody padded p) := by
  obtain ⟨pads, hpads, heq⟩ := legacyBody_eq padded p
  rw [heq]
  refine (JavaUri.madeOf_encode (by decide) _).append fun x hx => ?_
  rw [hpads x hx]
  exact Or.inr (by decide)

theorem base64Decode_legacyBody (hP : P.DocumentedLinks) (padded : Bool) (p : Profile) :
    P.base64Decode Base64.standard (legacyBody padded p) = some (Utf8.encode p.legacyText) := by
  cases padded with
  | true => exact hP.base64_padded _ (Or.inl rfl) _
  | false => exact hP.base64_encode _ (Or.inl rfl) _

variable (feature) in
/-- The link up to the end of its authority. -/
theorem parseUrl_cut (hP : P.DocumentedLinks) {padded : Bool} {u tail : Text}
    (hu : ∀ x ∈ u, x ∈ legacyBody padded p ∧ x ≠ '/') (htail : Platform.AfterAuthority tail) :
    parseUrl P feature (Platform.scheme ++ u ++ tail) =
        parseLegacy P feature (Platform.scheme ++ u ++ tail) ∧
      P.host (Platform.scheme ++ u ++ tail) = some u := by
  have hplain : JavaUri.MadeOf ['+', '='] u :=
    JavaUri.MadeOf.without (fun x hx => madeOf_legacyBody x (hu x hx).1) fun hx => (hu _ hx).2 rfl
  have hin := inAuthority_of_madeOf hplain (by decide)
  have hat : '@' ∉ u := hplain.not_mem rfl (by decide)
  refine ⟨parseUrl_of_no_userInfo (hP.userInfo_none _ _ hin hat htail), ?_⟩
  exact hP.host_authority _ _ hin hat (hplain.not_mem rfl (by decide))
    (hplain.not_mem rfl (by decide)) htail

theorem afterAuthority_hash (t : Text) : Platform.AfterAuthority ('#' :: t) := by
  intro x hx
  cases hx
  exact Or.inr (Or.inr rfl)

variable (feature) in
/-- Without a `/` the whole text is read. -/
theorem parseUrl_legacy (hP : P.DocumentedLinks) {padded : Bool}
    (hslash : '/' ∉ legacyBody padded p) (core : Text) {m pw host port : Text} {remotePort : Int}
    (hmatch : matchLegacy p.legacyText = some (m, pw, host, port))
    (hport : toInt port = some remotePort) :
    ∃ q, parseUrl P feature (Platform.scheme ++ legacyBody padded p ++ '#' :: uriEncode core) =
      some q ∧
      q.method = P.lowercase m ∧ q.password = pw ∧ q.host = host ∧ q.remotePort = remotePort ∧
      q.name.getD [] = core := by
  have hu : ∀ x ∈ legacyBody padded p, x ∈ legacyBody padded p ∧ x ≠ '/' :=
    fun x hx => ⟨hx, fun heq => hslash (heq ▸ hx)⟩
  obtain ⟨hparse, hhost⟩ := parseUrl_cut feature hP hu (afterAuthority_hash (uriEncode core))
  have hfragment : P.fragment (Platform.scheme ++ legacyBody padded p ++ '#' :: uriEncode core) =
      some core :=
    hP.fragment_some _ isUriSafe core (madeOf_legacyBody.not_mem (by decide) (by decide)) rfl
  rw [hparse]
  unfold parseLegacy
  simp only [hhost, hfragment, Option.getD_some, base64Decode_legacyBody hP, Option.bind_eq_bind,
    Option.bind_some, Utf8.decode_encode, hmatch, hport]
  exact ⟨_, rfl, rfl, rfl, rfl, rfl, rfl⟩

/-! ### A cut text -/

theorem natOfDigits_cut (a : Text) {b : Text} (hb : b ≠ []) :
    JavaUri.natOfDigits a * 10 ≤ JavaUri.natOfDigits (a ++ b) := by
  have hgrow (n : Nat) (t : Text) : n ≤ t.foldl (fun n c => n * 10 + (c.toNat - 48)) n := by
    induction t generalizing n with
    | nil => exact Nat.le_refl n
    | cons c t ih =>
        have hstep := ih (n * 10 + (c.toNat - 48))
        rw [List.foldl_cons]
        omega
  obtain ⟨c, b, rfl⟩ := List.exists_cons_of_ne_nil hb
  have hrest := hgrow (JavaUri.natOfDigits a * 10 + (c.toNat - 48)) b
  unfold JavaUri.natOfDigits at hrest ⊢
  rw [List.foldl_append, List.foldl_cons]
  omega

/-- Two texts of the pattern, one a beginning of the other, with the same password: the `:` is the
same one, since it cannot come earlier and a later one would put the `@` into host and port. -/
theorem groups_of_prefix {m m1 pw rest rest1 after : Text} {c : Char} {front : Text}
    (hm : m = c :: front) (hfront : ':' ∉ front) (hm1 : m1 ≠ []) (hat : '@' ∉ rest)
    (h : m ++ ':' :: (pw ++ '@' :: rest) = m1 ++ ':' :: (pw ++ '@' :: rest1) ++ after) :
    rest = rest1 ++ after := by
  have hget (k : Nat) : (m ++ ':' :: (pw ++ '@' :: rest))[k]? =
      (m1 ++ ':' :: (pw ++ '@' :: rest1) ++ after)[k]? := by rw [h]
  have hpos := List.length_pos_of_ne_nil hm1
  have hlength : m.length = m1.length := by
    rcases Nat.lt_trichotomy m1.length m.length with hlt | heq | hgt
    · -- the `:` of the shorter text stands in the method of the longer one
      have hcolon := hget m1.length
      rw [List.getElem?_append_left hlt, List.append_assoc,
        List.getElem?_append_right (Nat.le_refl _), Nat.sub_self, hm] at hcolon
      obtain ⟨i, hi⟩ : ∃ i, m1.length = i + 1 := ⟨m1.length - 1, by omega⟩
      rw [hi, List.getElem?_cons_succ] at hcolon
      exact absurd (List.mem_of_getElem? hcolon) hfront
    · exact heq.symm
    · have hmark := hget (m1.length + 1 + pw.length)
      have hright : (m1 ++ ':' :: (pw ++ '@' :: rest1) ++ after)[m1.length + 1 + pw.length]? =
          some '@' := by
        have hassoc : m1 ++ ':' :: (pw ++ '@' :: rest1) ++ after =
            (m1 ++ ':' :: pw) ++ '@' :: (rest1 ++ after) := by
          simp only [List.append_assoc, List.cons_append]
        have hindex : m1.length + 1 + pw.length = (m1 ++ ':' :: pw).length := by
          rw [List.length_append, List.length_cons]
          omega
        rw [hassoc, hindex, List.getElem?_append_right (Nat.le_refl _), Nat.sub_self]
        rfl
      have hassoc : m ++ ':' :: (pw ++ '@' :: rest) = (m ++ ':' :: (pw ++ ['@'])) ++ rest := by
        simp only [List.append_assoc, List.cons_append, List.nil_append]
      have hlen : (m ++ ':' :: (pw ++ ['@'])).length = m.length + pw.length + 2 := by
        simp only [List.length_append, List.length_cons, List.length_nil]
        omega
      rw [hright, hassoc, List.getElem?_append_right (by omega)] at hmark
      exact absurd (List.mem_of_getElem? hmark) hat
  rw [List.append_assoc] at h
  have hrest := (List.append_inj h hlength).2
  rw [List.cons_append, List.cons.injEq, List.append_assoc, List.append_cancel_left_eq,
    List.cons_append, List.cons.injEq] at hrest
  exact hrest.2.2

/-- Host and port of a text that was cut: the port has lost a digit. -/
theorem hostPort_not_cut {host port1 after : Text} {port : Nat}
    (haccepted : JavaUri.AcceptedHost host port) (hone : 1 ≤ port) (hafter : after ≠ [])
    (hvalue : JavaUri.natOfDigits port1 = port) :
    JavaUri.wrappedHost host ++ ':' :: JavaUri.decimal port ≠ (host ++ ':' :: port1) ++ after := by
  intro h
  by_cases hcolon : ':' ∈ host
  · have hhead := congrArg List.head? h
    rw [JavaUri.wrappedHost_of_colon hcolon] at hhead
    obtain ⟨c, rest, rfl⟩ := List.exists_cons_of_ne_nil (accepted_ne_nil haccepted)
    exact haccepted.bare hhead.symm
  · rw [JavaUri.wrappedHost_of_not_colon hcolon, List.append_assoc, List.append_cancel_left_eq,
      List.cons_append, List.cons.injEq] at h
    have hcut := natOfDigits_cut port1 hafter
    rw [← h.2, JavaUri.natOfDigits_decimal, hvalue] at hcut
    omega

/-- A digit at the end is no U+FFFD, and a text that is not whole is cut. -/
theorem take_of_cut {t d : Text} {bytes : List UInt8} (hbytes : bytes <+: Utf8.encode t)
    (hshort : bytes.length < (Utf8.encode t).length) (hd : Utf8.decode bytes = d)
    (hlast : ∃ x ∈ d.getLast?, x ≠ Utf8.replacement) : ∃ after, after ≠ [] ∧ t = d ++ after := by
  obtain ⟨k, ⟨hencode, htake⟩ | ⟨hreplaced, -⟩⟩ := Utf8.decode_of_prefix hbytes
  · refine ⟨t.drop k, fun hnil => ?_, ?_⟩
    · have hall : t.take k = t := List.take_of_length_le (List.drop_eq_nil_iff.mp hnil)
      rw [hencode, hall] at hshort
      exact Nat.lt_irrefl _ hshort
    · rw [← hd, htake, List.take_append_drop]
  · obtain ⟨x, hx, hne⟩ := hlast
    rw [← hd, hreplaced, List.getLast?_concat] at hx
    cases hx
    exact absurd rfl hne

theorem toInt_some {ds : Text} {n : Int} (hne : ds ≠ []) (hdigits : ds.all JavaUri.isDigit = true)
    (h : toInt ds = some n) : (JavaUri.natOfDigits ds : Int) = n := by
  rw [toInt_digits hne hdigits] at h
  split at h
  · exact Option.some.inj h
  · cases h

/-- The text that a legacy link is split from ends in a digit. -/
theorem getLast?_legacy {front port : Text} (hne : port ≠ [])
    (hdigits : port.all JavaUri.isDigit = true) :
    ∃ x ∈ (front ++ port).getLast?, x ≠ Utf8.replacement := by
  refine ⟨port.getLast hne, ?_, fun heq => ?_⟩
  · rw [List.getLast?_append_of_ne_nil _ hne, List.getLast?_eq_some_getLast hne]
    rfl
  · have hdigit := List.all_eq_true.mp hdigits _ (List.getLast_mem hne)
    rw [heq] at hdigit
    cases hdigit

/-- A `/` in the base64 text belongs to its digits, and the authority of the link ends there. -/
theorem cut_at_slash {padded : Bool} (hslash : '/' ∈ legacyBody padded p) : ∃ u v pads,
    Base64.encode Base64.standard (Utf8.encode p.legacyText) = u ++ '/' :: v ∧
      legacyBody padded p = u ++ '/' :: (v ++ pads) ∧ '=' ∉ u ∧
      ∀ x ∈ u, x ∈ legacyBody padded p ∧ x ≠ '/' := by
  obtain ⟨pads, hpads, hbody⟩ := legacyBody_eq padded p
  have hmem : '/' ∈ Base64.encode Base64.standard (Utf8.encode p.legacyText) := by
    rw [hbody] at hslash
    rcases List.mem_append.mp hslash with hm | hm
    · exact hm
    · cases hpads _ hm
  obtain ⟨u, v, hencode, hu⟩ := List.eq_append_cons_of_mem hmem
  rw [hencode, List.append_assoc, List.cons_append] at hbody
  refine ⟨u, v, pads, hencode, hbody, fun hm => ?_, fun x hx => ⟨?_, fun heq => hu (heq ▸ hx)⟩⟩
  · have hdigits : JavaUri.MadeOf ['+', '/'] (u ++ '/' :: v) := by
      rw [← hencode]
      exact JavaUri.madeOf_encode (by decide) _
    exact hdigits.not_mem rfl (by decide) (List.mem_append_left _ hm)
  · rw [hbody]
    exact List.mem_append_left _ hx

/-- What stands before a `/` in the base64 text never gives host, port and password of the
server. -/
theorem slash_disagrees (hP : P.DocumentedLinks) (hp : p.Reachable) (hone : 1 ≤ p.remotePort)
    {padded : Bool} (hslash : '/' ∈ legacyBody padded p) {m pw : Text}
    (hmatch : matchUserInfo (p.method ++ ':' :: p.password) = some (m, pw)) {core : Text}
    {q : Profile} (h : parseUrl P feature
    (Platform.scheme ++ legacyBody padded p ++ '#' :: uriEncode core) = some q)
    (hpassword : q.password = pw) (hhost : q.host = p.host) : q.remotePort ≠ p.remotePort := by
  intro hsame
  obtain ⟨port, hport, hrange, haccepted⟩ := hp
  have hp : p.Reachable := ⟨port, hport, hrange, haccepted⟩
  obtain ⟨u, v, pads, hencode, hbody, hpad, hin⟩ := cut_at_slash hslash
  have hlink : Platform.scheme ++ legacyBody padded p ++ '#' :: uriEncode core =
      Platform.scheme ++ u ++ '/' :: (v ++ pads ++ '#' :: uriEncode core) := by
    rw [hbody]
    simp only [List.append_assoc, List.cons_append]
  have hafter : Platform.AfterAuthority ('/' :: (v ++ pads ++ '#' :: uriEncode core)) := by
    intro x hx
    cases hx
    exact Or.inl rfl
  obtain ⟨hparse, hcut⟩ := parseUrl_cut feature hP hin hafter
  rw [hlink, hparse] at h
  obtain ⟨bytes, m1, port1, hbytes, hlegacy, hint⟩ := parseLegacy_some h
  rw [hcut, Option.getD_some] at hbytes
  have hdigits := hP.base64_bytes _ (Or.inl rfl) _ _ hpad hbytes
  obtain ⟨hm1, hport1, hall⟩ := matchLegacy_groups hlegacy
  have hsplit := matchLegacy_some hlegacy
  rw [hpassword, hhost] at hsplit
  have hlast := @getLast?_legacy (m1 ++ ':' :: (pw ++ '@' :: (p.host ++ [':']))) port1 hport1 hall
  simp only [List.append_assoc, List.cons_append, List.nil_append] at hlast
  obtain ⟨after, hne, htext⟩ := take_of_cut (hdigits ▸ Base64.prefix_of_cut hencode)
    (hdigits ▸ Base64.length_of_cut hencode (List.cons_ne_nil _ _)) hsplit hlast
  have hwhole : p.legacyText = m ++ ':' :: (pw ++ '@' :: p.hostPort) := by
    have hcongr := congrArg (· ++ '@' :: p.hostPort) (matchUserInfo_some hmatch)
    simp only [List.append_assoc, List.cons_append] at hcongr
    exact hcongr
  obtain ⟨c, front, hm, hfront⟩ := matchUserInfo_method hmatch
  have hrest := groups_of_prefix hm hfront hm1 (at_not_mem_hostPort hp) (hwhole.symm.trans htext)
  have hvalue : JavaUri.natOfDigits port1 = port := by
    have hread := toInt_some hport1 hall hint
    rw [hsame, hport] at hread
    exact Int.ofNat.inj hread
  rw [hostPort_eq hport] at hrest
  rw [hport] at hone
  exact hostPort_not_cut haccepted (by omega) hne hvalue hrest

/-! ## Both formats -/

theorem findAllUrls_found {link value : Text} (h : Found link value) (P : Platform)
    (feature : Option Profile) :
    findAllUrls P (some link) feature = (parseUrl P feature value).toList := by
  have hfind : findAll 0 (link ++ []) = value :: findAll 0 [] :=
    findAll_found h fun c hc => nomatch hc
  rw [List.append_nil] at hfind
  unfold findAllUrls
  rw [Option.getD_some, hfind]
  show (value :: findAll 0 []).filterMap (parseUrl P feature) = _
  cases hread : parseUrl P feature value with
  | none => rw [List.filterMap_cons_none hread]; rfl
  | some q => rw [List.filterMap_cons_some hread]; rfl

theorem toList_eq_singleton {α : Type} {o : Option α} {x : α} : o.toList = [x] ↔ o = some x := by
  cases o with
  | none => exact ⟨fun h => (List.cons_ne_nil _ _ h.symm).elim, fun h => nomatch h⟩
  | some y => exact ⟨fun h => congrArg some (List.cons.inj h).1, fun h => congrArg Option.toList h⟩

theorem found_legacy (padded : Bool) (p : Profile) {core junk : Text} (hcore : EndsPlain core)
    (hjunk : ∀ c ∈ junk, isMark c = true) (hname : p.name.getD [] = core ++ junk) :
    Found (legacyLink padded p)
      (Platform.scheme ++ legacyBody padded p ++ '#' :: uriEncode core) := by
  have hchars : ∀ c ∈ legacyBody padded p, isLinkChar c = true :=
    madeOf_legacyBody.forall isLinkChar_of_isAlphanum (by decide)
  have hfound := found_encoded hchars '#' rfl hcore hjunk
  unfold legacyLink
  rw [hname]
  simp only [List.append_assoc] at hfound ⊢
  exact hfound

theorem found_shared (hp : p.Reachable) {core junk : Text} (hcore : EndsPlain core)
    (hjunk : ∀ c ∈ junk, isMark c = true) (hname : p.name.getD [] = core ++ junk) :
    ∃ name, name.getD [] = core ∧
      Found (p.linkWith (shareTail none (sharedName (p.name.getD []))))
        (p.linkWith (shareTail none name)) := by
  by_cases hnil : p.name.getD [] = []
  · obtain ⟨rfl, -⟩ := List.append_eq_nil_iff.mp (hname.symm.trans hnil)
    refine ⟨none, rfl, ?_⟩
    rw [hnil]
    exact found_bare hp
  · refine ⟨some core, rfl, ?_⟩
    have hsome : sharedName (p.name.getD []) = some (core ++ junk) := by
      rw [← hname]
      exact if_neg hnil
    rw [hsome]
    exact found_name hp none hcore hjunk

/-- The SIP002 link of a profile without a plugin. -/
theorem toUri_of_no_plugin (E : Enumeration) (defaults : Text → Option Text) (h : p.plugin = none) :
    toUri E defaults p = some (p.linkWith (shareTail none (sharedName (p.name.getD [])))) := by
  have hlink : p.linkWith (shareTail none (sharedName (p.name.getD []))) =
      Platform.scheme ++ (p.auth ++ '@' :: p.hostPort) ++ ([] ++ fragmentOf (p.name.getD [])) := by
    rw [fragmentOf_eq]
    rfl
  unfold toUri
  rw [h, hlink]
  rfl

/-- A SIP002 link is read only where user info is matched. -/
theorem matched_of_read (hP : P.Documented) (hp : p.Reachable) {name : Option Text} {q : Profile}
    (h : parseUrl P feature (p.linkWith (shareTail none name)) = some q) :
    matchUserInfo (p.method ++ ':' :: p.password) = some (q.method, q.password) := by
  rw [parseUrl_of_userInfo
    (userInfo_linkWith hP hp fun c hc => Or.inr (shareTail_head none name c hc))] at h
  obtain ⟨bytes, uri, hbytes, hmatch, -⟩ := parseSip002_some h
  have hauth : P.base64Decode Base64.urlSafe p.auth =
      some (Utf8.encode (p.method ++ ':' :: p.password)) := hP.base64_encode _ (Or.inr rfl) _
  rw [hauth, Option.some.injEq] at hbytes
  rw [← hbytes, Utf8.decode_encode] at hmatch
  exact hmatch

variable (feature) in
/-- What the SIP002 link is read as, where user info is matched. -/
theorem read_sip002 (hP : P.DocumentedLinks) (hp : p.Reachable) (name : Option Text) {m pw : Text}
    (hmatch : matchUserInfo (p.method ++ ':' :: p.password) = some (m, pw)) :
    ∃ q, parseUrl P feature (p.linkWith (shareTail none name)) = some q ∧ q.method = m ∧
      q.password = pw ∧ q.host = p.host ∧ q.remotePort = p.remotePort ∧
      q.name.getD [] = name.getD [] := by
  obtain ⟨q, hq, hm, hpw, hh, hr, -, hn⟩ := parseUrl_linkWith hP.toDocumented feature hp hmatch
    (shareTail_head none name) (checkTail_shareTail none name)
  refine ⟨q, hq, hm, hpw, hh, hr, ?_⟩
  rw [hn, fragment_linkWith hP hp, Option.getD_some]

variable (feature) in
/-- What the old link is read as, if nothing of it is cut off. -/
theorem read_legacy (hP : P.DocumentedLinks) (hp : p.Reachable) {padded : Bool}
    (hslash : '/' ∉ legacyBody padded p) (core : Text) {m pw : Text}
    (hmatch : matchUserInfo (p.method ++ ':' :: p.password) = some (m, pw)) :
    ∃ q, parseUrl P feature (Platform.scheme ++ legacyBody padded p ++ '#' :: uriEncode core) =
      some q ∧
      q.method = P.lowercase m ∧ q.password = pw ∧ q.host = JavaUri.wrappedHost p.host ∧
      q.remotePort = p.remotePort ∧ q.name.getD [] = core := by
  obtain ⟨port, hport, hrange, haccepted⟩ := hp
  have hp : p.Reachable := ⟨port, hport, hrange, haccepted⟩
  have hint : toInt (JavaUri.decimal port) = some (port : Int) := by
    have hall : (JavaUri.decimal port).all JavaUri.isDigit = true :=
      List.all_eq_true.mpr fun c hc => JavaUri.isDigit_of_mem_decimal hc
    rw [toInt_digits (JavaUri.decimal_ne_nil port) hall, JavaUri.natOfDigits_decimal,
      if_pos (by omega)]
  rw [hport]
  exact parseUrl_legacy feature hP hslash core (matchLegacy_eq hp hport haccepted hmatch) hint

/-- The two profiles of a name without marks at its end. -/
theorem formats_read_iff (hP : P.DocumentedLinks) (hlower : P.lowercase p.method = p.method)
    (hcolon : ':' ∉ p.method) (hpassword : ∀ c ∈ p.password, isLineTerminator c = false)
    (hp : p.Reachable) (hone : 1 ≤ p.remotePort) (padded : Bool) (core : Text) {name : Option Text}
    (hname : name.getD [] = core) :
    (∃ q q', parseUrl P feature (Platform.scheme ++ legacyBody padded p ++ '#' :: uriEncode core) =
        some q ∧ parseUrl P feature (p.linkWith (shareTail none name)) = some q' ∧
          SameServer q q') ↔
      OneKey P padded p := by
  constructor
  · rintro ⟨q, q', hq, hq', hsame⟩
    have hmatch := matched_of_read hP.toDocumented hp hq'
    obtain ⟨q'', hq'', hm, hpw, hh, hr, -⟩ := read_sip002 feature hP hp name hmatch
    rw [hq', Option.some.injEq] at hq''
    subst hq''
    have hslash : '/' ∉ legacyBody padded p := by
      intro hslash
      exact slash_disagrees hP hp hone hslash hmatch hq hsame.password (hsame.host.trans hh)
        (hsame.remotePort.trans hr)
    obtain ⟨r, hread, hrm, -, hrh, -⟩ := read_legacy feature hP hp hslash core hmatch
    rw [hq, Option.some.injEq] at hread
    subst hread
    have hlow : P.lowercase q'.method = q'.method := hrm.symm.trans hsame.method
    have hwrapped : JavaUri.wrappedHost p.host = p.host := hrh.symm.trans (hsame.host.trans hh)
    obtain ⟨hlines, hempty⟩ := (matchUserInfo_lower_iff hlower hcolon hpassword).mp
      ⟨_, _, hmatch, hlow⟩
    exact ⟨hslash, JavaUri.wrappedHost_eq_self_iff.mp hwrapped, hlines, hempty⟩
  · intro h
    obtain ⟨m, pw, hmatch, hm⟩ := (matchUserInfo_lower_iff hlower hcolon hpassword).mpr
      ⟨h.lines, h.method⟩
    obtain ⟨q', hq', hm', hpw', hh', hr', hn'⟩ := read_sip002 feature hP hp name hmatch
    obtain ⟨q, hq, hqm, hqpw, hqh, hqr, hqn⟩ := read_legacy feature hP hp h.slash core hmatch
    refine ⟨q, q', hq, hq', ?_, ?_, ?_, ?_, ?_⟩
    · rw [hqm, hm, hm']
    · rw [hqpw, hpw']
    · rw [hqh, hh', JavaUri.wrappedHost_of_not_colon h.host]
    · rw [hqr, hr']
    · rw [hqn, hn', hname]

/-- The two formats of a server give one key exactly if nothing of the old link is cut off, the host
needs no brackets and the method is read in lower case. -/
theorem link_formats_agree_iff (P : Platform) (hP : P.DocumentedLinks) (feature : Option Profile)
    (E : Enumeration) (defaults : Text → Option Text) (padded : Bool) (p : Profile)
    (hlower : P.lowercase p.method = p.method) (hcolon : ':' ∉ p.method)
    (hpassword : ∀ c ∈ p.password, isLineTerminator c = false) (hp : p.Reachable)
    (hone : 1 ≤ p.remotePort) (hplugin : p.plugin = none) :
    ∃ link, toUri E defaults p = some link ∧
      (LinksAgree P feature (legacyLink padded p) link ↔ OneKey P padded p) := by
  refine ⟨_, toUri_of_no_plugin E defaults hplugin, ?_⟩
  obtain ⟨core, junk, hname, hjunk, hcore⟩ := exists_trailing_run isMark (p.name.getD [])
  obtain ⟨name, hread, hfound⟩ := found_shared hp hcore hjunk hname
  unfold LinksAgree
  simp only [findAllUrls_found (found_legacy padded p hcore hjunk hname), findAllUrls_found hfound,
    toList_eq_singleton]
  exact formats_read_iff hP hlower hcolon hpassword hp hone padded core hread

section Samples

def formatsSample (password : Text) : Profile where
  host := "a.example".toList
  remotePort := 443
  method := "aes-256-gcm".toList
  password := password

theorem formatsSample_reachable (password : Text) : (formatsSample password).Reachable := by
  have haccepted : JavaUri.AcceptedHost "a.example".toList 443 := ⟨by decide, by decide +kernel⟩
  exact ⟨443, rfl, by decide, haccepted⟩

/-- The links of a server whose old link has a `/`: only the SIP002 link is read. -/
theorem link_formats_slash :
    aosp.lowercase (formatsSample "ab?".toList).method = (formatsSample "ab?".toList).method ∧
      ':' ∉ (formatsSample "ab?".toList).method ∧
      (∀ c ∈ (formatsSample "ab?".toList).password, isLineTerminator c = false) ∧
      (formatsSample "ab?".toList).Reachable ∧
      ∃ link, toUri .inserted noDefaults (formatsSample "ab?".toList) = some link ∧
        (findAllUrls aosp (some link) none).map Profile.password = ["ab?".toList] ∧
        findAllUrls aosp (some (legacyLink true (formatsSample "ab?".toList))) none = [] :=
  ⟨by decide, by decide, forall_eq_false (by decide), formatsSample_reachable _, _, rfl,
    by decide +kernel, by decide +kernel⟩

theorem link_formats_agree_pass : ∃ link,
    toUri .inserted noDefaults (formatsSample "pass".toList) = some link ∧
      LinksAgree aosp none (legacyLink true (formatsSample "pass".toList)) link := by
  obtain ⟨link, hlink, hiff⟩ :=
    link_formats_agree_iff aosp aosp_documentedLinks none .inserted noDefaults
    true (formatsSample "pass".toList) (by decide) (by decide) (forall_eq_false (by decide))
    (formatsSample_reachable _) (by decide) rfl
  refine ⟨link, hlink, hiff.mpr ⟨by decide +kernel, by decide, forall_eq_false (by decide), ?_⟩⟩
  intro hnil
  cases hnil

end Samples

end CypherConnect.Profile
