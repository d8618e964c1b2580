/-
  What `java.net.URI` makes of a link `ss://userinfo@host:port…`.

  * `IsHostName`, `IsIPv4Literal` and `IsIPv6Literal` are the grammars of RFC 2396 and RFC 4291.
  * `parseHostPort_plainHost`: host names and IPv4 literals are read as they are.
  * `parse_link`: the whole link, given that host and port are read.
  * `host_of_parse`: without brackets no host with a `:` comes out, so no IPv6 literal.
-/
import CypherConnect.Lib.Base64
import CypherConnect.Lib.Percent
import CypherConnect.Platform.UriHosts

namespace CypherConnect.JavaUri

open Scan

/-! ## Grammars -/

/-- Decimal digits of a number. -/
def decimal (n : Nat) : List Char := Nat.toDigits 10 n

/-- `hostname = *( domainlabel "." ) toplabel [ "." ]`, where `toplabel` starts with a letter. -/
def IsHostName (t : List Char) : Prop :=
  ∃ (labels : List (List Char)) (top dot : List Char), (∀ l ∈ labels, IsLabel l) ∧ IsLabel top ∧
    (∀ c ∈ top.head?, isAlpha c = true) ∧ (dot = [] ∨ dot = ['.']) ∧
    t = labels.flatMap (· ++ ['.']) ++ (top ++ dot)

/-- Four numbers up to 255, separated by dots. -/
def IsIPv4Literal (t : List Char) : Prop :=
  ∃ a b c d, a ≤ 255 ∧ b ≤ 255 ∧ c ≤ 255 ∧ d ≤ 255 ∧
    t = decimal a ++ '.' :: (decimal b ++ '.' :: (decimal c ++ '.' :: decimal d))

/-- Up to four hexadecimal digits. -/
def IsGroup (g : List Char) : Prop := g ≠ [] ∧ g.length ≤ 4 ∧ ∀ c ∈ g, isHex c = true

/-- Groups, each followed by `:`, and a last group or an IPv4 literal; `n` counts 16-bit pieces. -/
inductive IsPieces : Nat → List Char → Prop where
  | group {g : List Char} (hg : IsGroup g) : IsPieces 1 g
  | ipv4 {t : List Char} (ht : IsIPv4Literal t) : IsPieces 2 t
  | cons {n : Nat} {g t : List Char} (hg : IsGroup g) (ht : IsPieces n t) :
      IsPieces (n + 1) (g ++ ':' :: t)

/-- The text forms of RFC 4291: eight pieces, or fewer with one `::` for the missing ones. An IPv4
literal stands at the end only. -/
def IsIPv6Literal (t : List Char) : Prop :=
  IsPieces 8 t ∨
    ∃ left right n m, t = left ++ ':' :: ':' :: right ∧ n + m ≤ 7 ∧
      (left = [] ∧ n = 0 ∨ IsPieces n left ∧ '.' ∉ left) ∧ (right = [] ∧ m = 0 ∨ IsPieces m right)

/-! ## Decimal digits -/

theorem isDigit_eq (c : Char) : isDigit c = c.isDigit := rfl

theorem isDigit_of_mem_decimal {n : Nat} {c : Char} (h : c ∈ decimal n) : isDigit c = true := by
  rw [isDigit_eq]
  exact Nat.isDigit_of_mem_toDigits (by decide) (by decide) h

theorem decimal_ne_nil (n : Nat) : decimal n ≠ [] := Nat.toDigits_ne_nil

theorem natOfDigits_decimal (n : Nat) : natOfDigits (decimal n) = n := by
  have h : Nat.ofDigitChars 10 (decimal n) 0 = n := Nat.ofDigitChars_ten_toDigits
  rw [Nat.ofDigitChars_eq_foldl] at h
  unfold natOfDigits
  simp only [Nat.mul_comm _ 10]
  exact h

theorem parsePort_decimal {port : Nat} (h : port < 2 ^ 31) :
    parsePort (':' :: decimal port) = some (port : Int) := by
  have hall : (decimal port).all isDigit = true :=
    List.all_eq_true.mpr fun c hc => isDigit_of_mem_decimal hc
  simp only [parsePort, if_neg (decimal_ne_nil port), natOfDigits_decimal, hall, decide_eq_true h]
  rfl

/-! ## Host names and IPv4 literals -/

theorem isByte_decimal {n : Nat} (h : n ≤ 255) : IsByte (decimal n) where
  ne_nil := decimal_ne_nil n
  digits _ hc := isDigit_of_mem_decimal hc
  le := by rwa [natOfDigits_decimal]

theorem IsIPv4Literal.isFourBytes {t : List Char} (h : IsIPv4Literal t) : IsFourBytes t := by
  obtain ⟨a, b, c, d, ha, hb, hc, hd, rfl⟩ := h
  exact ⟨_, _, _, _, isByte_decimal ha, isByte_decimal hb, isByte_decimal hc, isByte_decimal hd,
    rfl⟩

theorem IsHostName.isName {t : List Char} (h : IsHostName t) : IsName t := by
  obtain ⟨labels, top, dot, hlabels, htop, halpha, hdot, rfl⟩ := h
  exact ⟨labels, top, dot, hlabels, htop, fun _ => halpha, hdot, rfl⟩

/-- A host name or an IPv4 literal. -/
def IsPlainHost (t : List Char) : Prop := IsHostName t ∨ IsIPv4Literal t

theorem IsPlainHost.scanned {t : List Char} (h : IsPlainHost t) : IsName t ∨ IsFourBytes t :=
  h.imp IsHostName.isName IsIPv4Literal.isFourBytes

theorem plainHost_head {t : List Char} (h : IsPlainHost t) (r : List Char) :
    (t ++ ':' :: r).head? ≠ some '[' :=
  plain_head h.scanned rfl (by decide) (':' :: r)

theorem parseHostPort_of_head {t : List Char} (h : t.head? ≠ some '[') :
    parseHostPort t = ((parseIPv4Address t).or (parseHostname t)).bind fun x =>
      (parsePort x.2).map fun p => (x.1, p) := by
  unfold parseHostPort
  split
  · exact absurd rfl h
  · split
    · next heq => rw [heq]; rfl
    · next heq => rw [heq]; rfl

/-- Host names and IPv4 literals are read as they are. -/
theorem parseHostPort_plainHost {host : List Char} (h : IsPlainHost host) {port : Nat}
    (hport : port < 2 ^ 31) :
    parseHostPort (host ++ ':' :: decimal port) = some (host, (port : Int)) := by
  rw [parseHostPort_of_head (plainHost_head h _), parsePlain_eq h.scanned]
  simp only [Option.bind_some, parsePort_decimal hport]
  rfl

/-! ## IPv6 literals -/

theorem mem_pieces {n : Nat} {t : List Char} (h : IsPieces n t) {x : Char} (hx : x ∈ t) :
    isHex x = true ∨ x = '.' ∨ x = ':' := by
  induction h with
  | group hg => exact .inl (hg.2.2 x hx)
  | ipv4 ht =>
      rcases ht.isFourBytes.mem hx with hd | hd
      · left
        unfold isHex
        rw [hd]
        rfl
      · exact .inr (.inl hd)
  | cons hg _ ih =>
      rcases List.mem_append.mp hx with hx | hx
      · exact .inl (hg.2.2 x hx)
      · rcases List.mem_cons.mp hx with hx | hx
        · exact .inr (.inr hx)
        · exact ih hx

theorem mem_ipv6 {t : List Char} (h : IsIPv6Literal t) {x : Char} (hx : x ∈ t) :
    isHex x = true ∨ x = '.' ∨ x = ':' := by
  rcases h with h | ⟨left, right, n, m, rfl, -, hleft, hright⟩
  · exact mem_pieces h hx
  · rcases List.mem_append.mp hx with hx | hx
    · rcases hleft with ⟨rfl, -⟩ | ⟨hleft, -⟩
      · cases hx
      · exact mem_pieces hleft hx
    · rcases List.mem_cons.mp hx with hx | hx
      · exact .inr (.inr hx)
      · rcases List.mem_cons.mp hx with hx | hx
        · exact .inr (.inr hx)
        · rcases hright with ⟨rfl, -⟩ | hright
          · cases hx
          · exact mem_pieces hright hx

theorem colon_mem_ipv6 {t : List Char} (h : IsIPv6Literal t) : ':' ∈ t := by
  rcases h with h | ⟨left, right, n, m, rfl, -⟩
  · cases h with
    | cons => exact List.mem_append_right _ List.mem_cons_self
  · exact List.mem_append_right _ List.mem_cons_self

/-- A host name, an IPv4 or an IPv6 literal. -/
def IsHost (t : List Char) : Prop := IsHostName t ∨ IsIPv4Literal t ∨ IsIPv6Literal t

theorem IsHost.plain {t : List Char} (h : IsHost t) (hno : ¬ IsIPv6Literal t) : IsPlainHost t := by
  rcases h with h | h | h
  · exact .inl h
  · exact .inr h
  · exact absurd h hno

theorem IsHost.madeOf {t : List Char} (h : IsHost t) : MadeOf ['-', '.', ':'] t := by
  by_cases hsix : IsIPv6Literal t
  · intro x hx
    rcases mem_ipv6 hsix hx with hhex | rfl | rfl
    · exact .inl (isAlphanum_of_isHex hhex)
    · exact .inr (by decide)
    · exact .inr (by decide)
  · exact (plain_madeOf (h.plain hsix).scanned).mono (by decide)

/-! ## The hosts that come out -/

theorem parseHostPort_plain_some {t host : List Char} {port : Int} (hhead : t.head? ≠ some '[')
    (h : parseHostPort t = some (host, port)) :
    ∃ rest, t = host ++ rest ∧ (IsName host ∨ IsFourBytes host) ∧ parsePort rest = some port := by
  rw [parseHostPort_of_head hhead] at h
  obtain ⟨⟨name, rest⟩, hname, hport⟩ := Option.bind_eq_some_iff.mp h
  obtain ⟨p, hport, heq⟩ := Option.map_eq_some_iff.mp hport
  cases heq
  rcases Option.or_eq_some_iff.mp hname with hname | ⟨-, hname⟩
  · obtain ⟨hfour, rfl⟩ := parseIPv4Address_some hname
    exact ⟨rest, rfl, Or.inr hfour, hport⟩
  · obtain ⟨hlabels, rfl⟩ := parseHostname_some hname
    exact ⟨rest, rfl, Or.inl hlabels, hport⟩

/-- Outside brackets a host has no `:`. -/
theorem colon_not_mem_host {t host : List Char} {port : Int} (hhead : t.head? ≠ some '[')
    (h : parseHostPort t = some (host, port)) : ':' ∉ host := by
  obtain ⟨rest, -, hplain, -⟩ := parseHostPort_plain_some hhead h
  exact (plain_madeOf hplain).not_mem rfl (by decide)

/-! ## Authorities -/

/-- A base64 text, by the marks of its alphabet. -/
theorem madeOf_encode {alphabet : Base64.Alphabet} {marks : List Char}
    (h : ∀ n < 64, isAlphanum (alphabet.char n) = true ∨ alphabet.char n ∈ marks)
    (bytes : List UInt8) : MadeOf marks (Base64.encode alphabet bytes) := by
  intro x hx
  obtain ⟨n, hn, rfl⟩ := List.mem_map.mp hx
  exact h n (Base64.digitsOfBytes_lt _ n hn)

theorem isUserInfo_of_isAlphanum (c : Char) (h : isAlphanum c = true) : isUserInfo c = true := by
  simp only [isUserInfo, isUnreserved, h, Bool.true_or]

theorem isServer_of_isAlphanum (c : Char) (h : isAlphanum c = true) : isServer c = true := by
  simp only [isServer, isUserInfo_of_isAlphanum c h, Bool.true_or]

theorem scan_append {legal : Char → Bool} {a : List Char} (h : ∀ c ∈ a, legal c = true)
    (r : List Char) : scan legal (a ++ r) = scan legal r := by
  induction a with
  | nil => rfl
  | cons c a ih =>
      rw [List.cons_append, scan.eq_def]
      simp only [h c List.mem_cons_self, if_true]
      exact ih fun x hx => h x (List.mem_cons_of_mem _ hx)

theorem scan_of_all {legal : Char → Bool} {t : List Char} (h : ∀ c ∈ t, legal c = true) :
    scan legal t = some [] := by
  have hscan := scan_append h []
  rw [List.append_nil] at hscan
  exact hscan

theorem scan_isSome {t : List Char} (h : '%' ∉ t) (legal : Char → Bool) :
    ∃ rest, scan legal t = some rest := by
  induction t with
  | nil => exact ⟨[], rfl⟩
  | cons c t ih =>
      have hc : c ≠ '%' := fun heq => h (heq ▸ List.mem_cons_self)
      rw [scan.eq_def]
      simp only [if_neg hc]
      split
      · exact ih fun hm => h (List.mem_cons_of_mem _ hm)
      · exact ⟨_, rfl⟩

theorem parseAuthority_of_server {a host : List Char} {port : Int}
    (ha : ∀ c ∈ a, isServer c = true ∨ c = '%') (hhead : a.head? ≠ some ']')
    (hreg : ∃ rest, scan isRegName a = some rest) (h : parseServer a = some (host, port)) :
    parseAuthority a = some (some host, port) := by
  obtain ⟨rest, hrest⟩ := hreg
  have hscan : scan (fun c => isServer c || (a.head? != some ']' && c == '%')) a = some [] := by
    refine scan_of_all fun c hc => ?_
    rcases ha c hc with hserver | rfl
    · rw [hserver]
      rfl
    · rw [bne_iff_ne.mpr hhead]
      rfl
  unfold parseAuthority
  simp only [hscan, hrest, h]
  rfl

/-- Where a host comes from. -/
theorem host_of_parseAuthority {a host : List Char} {port : Int}
    (h : parseAuthority a = some (some host, port)) : parseServer a = some (host, port) := by
  unfold parseAuthority at h
  simp only at h
  repeat' split at h
  all_goals simp_all

theorem isRegName_of_isUserInfo {c : Char} (h : isUserInfo c = true) : isRegName c = true := by
  have hmarks : ∀ x ∈ [';', ':', '&', '=', '+', '$', ','], isRegName x = true :=
    List.all_eq_true.mp (by decide)
  simp only [isUserInfo, Bool.or_eq_true, List.contains_iff_mem] at h
  rcases h with h | h
  · unfold isRegName
    rw [h]
    rfl
  · exact hmarks c h

theorem parseServer_userInfo {u r : List Char} (hu : ∀ c ∈ u, isUserInfo c = true) :
    parseServer (u ++ '@' :: r) = parseHostPort r := by
  have hat : '@' ∉ u := fun hm => by cases hu '@' hm
  have hin := bne_of_not_mem hat
  have hcheck : checkChars isUserInfo u = true := by
    unfold checkChars
    rw [scan_of_all hu]
    rfl
  unfold parseServer
  rw [dropWhile_span hin bne_head, takeWhile_span hin bne_head]
  exact if_pos hcheck

/-! ## Links -/

/-- A character that does not end an authority. -/
def inAuthority (c : Char) : Bool := c != '/' && c != '?' && c != '#'

theorem parse_ss (a tail : List Char) (ha : ∀ c ∈ a, inAuthority c = true) (hne : a ≠ [])
    (htail : ∀ c ∈ tail.head?, inAuthority c = false) :
    parse ("ss://".toList ++ a ++ tail) =
      (parseAuthority a).bind fun x => if checkTail tail then some ⟨x.1, x.2⟩ else none := by
  have htake : (a ++ tail).takeWhile (fun c => c != '/' && c != '?' && c != '#') = a :=
    takeWhile_span ha htail
  have hdrop : (a ++ tail).dropWhile (fun c => c != '/' && c != '?' && c != '#') = tail :=
    dropWhile_span ha htail
  have hstart : parse ("ss://".toList ++ a ++ tail) =
      parseHierarchical ('/' :: '/' :: (a ++ tail)) := rfl
  rw [hstart]
  simp only [parseHierarchical, htake, hdrop, if_neg hne]
  cases parseAuthority a with
  | none => rfl
  | some x => rfl

/-- The whole link: host and port are what `parseHostPort` reads. A `%` may stand in the host where
the characters before it are none of a registry name. -/
theorem parse_link_escaped {u hostPort host tail : List Char} {port : Int}
    (hu : ∀ c ∈ u, isUserInfo c = true) (hserver : ∀ c ∈ hostPort, isServer c = true ∨ c = '%')
    (hreg : ∃ rest, scan isRegName hostPort = some rest)
    (hhost : parseHostPort hostPort = some (host, port))
    (htail : ∀ c ∈ tail.head?, inAuthority c = false) (hcheck : checkTail tail = true) :
    parse ("ss://".toList ++ (u ++ '@' :: hostPort) ++ tail) = some ⟨some host, port⟩ := by
  have hall : ∀ c ∈ u ++ '@' :: hostPort, isServer c = true ∨ c = '%' := by
    intro c hc
    rcases List.mem_append.mp hc with hc | hc
    · left
      unfold isServer
      rw [hu c hc]
      rfl
    · rcases List.mem_cons.mp hc with rfl | hc
      · exact Or.inl rfl
      · exact hserver c hc
  have hin : ∀ c ∈ u ++ '@' :: hostPort, inAuthority c = true := by
    intro c hc
    rcases hall c hc with hs | rfl
    · unfold inAuthority
      simp only [Bool.and_eq_true, bne_iff_ne]
      refine ⟨⟨?_, ?_⟩, ?_⟩ <;> rintro rfl <;> cases hs
    · rfl
  have hhead : (u ++ '@' :: hostPort).head? ≠ some ']' := by
    cases u with
    | nil =>
        show some '@' ≠ some ']'
        decide
    | cons c u =>
        intro heq
        cases heq
        cases hu ']' List.mem_cons_self
  have hname : ∀ c ∈ u ++ ['@'], isRegName c = true := by
    exact List.forall_mem_append.mpr
      ⟨fun c hc => isRegName_of_isUserInfo (hu c hc), List.forall_mem_singleton.mpr rfl⟩
  have hscan : ∃ rest, scan isRegName (u ++ '@' :: hostPort) = some rest := by
    rw [← List.singleton_append, ← List.append_assoc, scan_append hname]
    exact hreg
  have hparse := parseAuthority_of_server hall hhead hscan ((parseServer_userInfo hu).trans hhost)
  rw [parse_ss _ _ hin (by simp) htail, hparse]
  exact if_pos hcheck

theorem parse_link {u hostPort host tail : List Char} {port : Int}
    (hu : ∀ c ∈ u, isUserInfo c = true) (hserver : ∀ c ∈ hostPort, isServer c = true)
    (hhost : parseHostPort hostPort = some (host, port))
    (htail : ∀ c ∈ tail.head?, inAuthority c = false) (hcheck : checkTail tail = true) :
    parse ("ss://".toList ++ (u ++ '@' :: hostPort) ++ tail) = some ⟨some host, port⟩ := by
  have hpercent : '%' ∉ hostPort := fun hm => by cases hserver '%' hm
  exact parse_link_escaped hu (fun c hc => Or.inl (hserver c hc)) (scan_isSome hpercent isRegName)
    hhost htail hcheck

/-- The host of a link whose authority does not start its host part with a bracket has no `:`. -/
theorem host_of_parse {u hostPort tail : List Char} {uri : Uri} {host : List Char}
    (hu : ∀ c ∈ u, isUserInfo c = true) (hin : ∀ c ∈ u ++ '@' :: hostPort, inAuthority c = true)
    (hhead : hostPort.head? ≠ some '[') (htail : ∀ c ∈ tail.head?, inAuthority c = false)
    (h : parse ("ss://".toList ++ (u ++ '@' :: hostPort) ++ tail) = some uri)
    (hhost : uri.host = some host) : ':' ∉ host := by
  rw [parse_ss _ _ hin (by simp) htail] at h
  obtain ⟨⟨found, port⟩, hparse, huri⟩ := Option.bind_eq_some_iff.mp h
  split at huri
  · cases huri
    cases hhost
    have hserver := host_of_parseAuthority hparse
    rw [parseServer_userInfo hu] at hserver
    exact colon_not_mem_host hhead hserver
  · cases huri

/-! ## Queries and fragments -/

theorem isHex_hexDigit : ∀ n < 16, isHex (Percent.hexDigit n) = true := by decide

theorem scan_escapes {legal : Char → Bool} (hpercent : legal '%' = false) (bs : List UInt8)
    (r : List Char) : scan legal (bs.flatMap Percent.escapeByte ++ r) = scan legal r := by
  induction bs with
  | nil => rfl
  | cons b bs ih =>
      have hb := b.toNat_lt
      have hhi : isHex (Percent.hexDigit (b.toNat / 16)) = true := isHex_hexDigit _ (by omega)
      have hlo : isHex (Percent.hexDigit (b.toNat % 16)) = true := isHex_hexDigit _ (by omega)
      rw [List.flatMap_cons, List.append_assoc, ← ih]
      simp only [Percent.escapeByte, List.cons_append, List.nil_append]
      rw [scan.eq_def]
      simp only [hpercent, hhi, hlo, Bool.false_eq_true, if_false, if_true, Bool.and_self]

theorem scan_encode {legal safe : Char → Bool} (hpercent : legal '%' = false)
    (hsafe : ∀ c, safe c = true → legal c = true) (w r : List Char) :
    scan legal (Percent.encode safe w ++ r) = scan legal r := by
  induction w with
  | nil => rfl
  | cons c w ih =>
      unfold Percent.encode at ih ⊢
      rw [List.flatMap_cons, List.append_assoc, ← ih]
      unfold Percent.encodeChar
      split
      · next hc =>
          refine scan_append (fun x hx => ?_) _
          rw [List.mem_singleton.mp hx]
          exact hsafe c hc
      · exact scan_escapes hpercent _ _

/-- Legal characters and then a percent-encoded text. -/
theorem checkChars_encode {legal safe : Char → Bool} (hpercent : legal '%' = false)
    (hsafe : ∀ c, safe c = true → legal c = true) {a : List Char} (ha : ∀ c ∈ a, legal c = true)
    (w : List Char) : checkChars legal (a ++ Percent.encode safe w) = true := by
  have hscan := scan_encode hpercent hsafe w []
  rw [List.append_nil] at hscan
  unfold checkChars
  rw [scan_append ha, hscan]
  rfl

theorem checkTail_fragment {fragment : List Char} (h : checkChars isUric fragment = true) :
    checkTail ('#' :: fragment) = true := h

theorem checkTail_query {query fragment : List Char} (hquery : '#' ∉ query)
    (h1 : checkChars isUric query = true) (h2 : checkChars isUric fragment = true) :
    checkTail ('?' :: query ++ '#' :: fragment) = true := by
  have hin := bne_of_not_mem hquery
  show (true && (checkChars isUric ((query ++ '#' :: fragment).takeWhile (· != '#')) &&
    checkChars isUric ((query ++ '#' :: fragment).dropWhile (· != '#')).tail)) = true
  rw [takeWhile_span hin bne_head, dropWhile_span hin bne_head, h1]
  exact h2

theorem checkTail_query_only {query : List Char} (hquery : '#' ∉ query)
    (h : checkChars isUric query = true) : checkTail ('?' :: query) = true := by
  have hin := bne_of_not_mem hquery
  have htake := takeWhile_span (b := []) hin fun x hx => nomatch hx
  have hdrop : query.dropWhile (· != '#') = [] := List.dropWhile_eq_nil_iff.mpr hin
  rw [List.append_nil] at htake
  show (true && (checkChars isUric (query.takeWhile (· != '#')) &&
    checkChars isUric (query.dropWhile (· != '#')).tail)) = true
  rw [htake, hdrop, h]
  rfl

end CypherConnect.JavaUri
