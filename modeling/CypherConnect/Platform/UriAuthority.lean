/-
  The authorities in which `java.net.URI` finds a host and a port.

  The grammar is on the text alone: an optional user info with its `@`, a host (labels with dots
  between them, four bytes, or an address in brackets), a `:` and digits.

  * `parseHostPort_iff`: a host with a port of TCP is found exactly in a text `host:digits`.
  * `parse_endpoint_iff`: a link that is accepted has such a host and port exactly if its authority,
    the text up to the first `/`, `?` or `#`, is of this form.
-/
import CypherConnect.Platform.AcceptedHost

namespace CypherConnect.JavaUri

open Scan

/-! ## Grammar -/

/-- Digits of a port that TCP has. -/
structure IsTcpPort (ds : List Char) : Prop where
  digits : ∀ c ∈ ds, isDigit c = true
  pos : 1 ≤ natOfDigits ds
  le : natOfDigits ds ≤ 65535

/-- Nothing, or user info with its `@`. -/
def IsUserPart (t : List Char) : Prop :=
  t = [] ∨ ∃ u, checkChars isUserInfo u = true ∧ t = u ++ ['@']

/-- `[userinfo@]host:port` with a port from 1 to 65535. -/
def HasEndpoint (authority : List Char) : Prop :=
  ∃ user host digits, authority = user ++ (host ++ ':' :: digits) ∧ IsUserPart user ∧
    IsUriHost host ∧ IsTcpPort digits

/-! ## Host and port -/

/-- A port other than -1 is written out. -/
theorem parsePort_iff {t : List Char} {p : Int} (hp : 1 ≤ p ∧ p ≤ 65535) :
    parsePort t = some p ↔ ∃ ds, t = ':' :: ds ∧ IsTcpPort ds ∧ (natOfDigits ds : Int) = p := by
  constructor
  · intro h
    unfold parsePort at h
    split at h
    · cases h
      omega
    · next ds =>
        split at h
        · cases h
          omega
        · split at h
          · next hcond =>
              rw [Bool.and_eq_true, List.all_eq_true] at hcond
              have hvalue := Option.some.inj h
              exact ⟨ds, rfl, ⟨hcond.1, by omega, by omega⟩, hvalue⟩
          · cases h
    · cases h
  · rintro ⟨ds, rfl, hport, rfl⟩
    have hpos := hport.pos
    have hne : ds ≠ [] := by
      rintro rfl
      cases hpos
    have hall : ds.all isDigit = true := List.all_eq_true.mpr hport.digits
    have hsmall : natOfDigits ds < 2 ^ 31 := by omega
    simp only [parsePort, if_neg hne, hall, decide_eq_true hsmall]
    rfl

/-- A host with a port of TCP is found exactly in a text of that form. -/
theorem parseHostPort_iff {t host : List Char} {p : Int} (hp : 1 ≤ p ∧ p ≤ 65535) :
    parseHostPort t = some (host, p) ↔ ∃ ds, t = host ++ ':' :: ds ∧ IsUriHost host ∧
      IsTcpPort ds ∧ (natOfDigits ds : Int) = p := by
  constructor
  · intro h
    obtain ⟨rest, rfl, hhost, hport⟩ := parseHostPort_some h
    obtain ⟨ds, rfl, htcp, hvalue⟩ := (parsePort_iff hp).mp hport
    exact ⟨ds, rfl, hhost, htcp, hvalue⟩
  · rintro ⟨ds, rfl, hhost, htcp, hvalue⟩
    rw [parseHostPort_eq hhost, (parsePort_iff hp).mpr ⟨ds, rfl, htcp, hvalue⟩]
    rfl

/-! ## Authorities -/

/-- Legal characters, and what escapes are made of. -/
theorem mem_of_scan {legal : Char → Bool} {t : List Char} (h : scan legal t = some []) {x : Char}
    (hx : x ∈ t) : legal x = true ∨ x = '%' ∨ isHex x = true := by
  fun_induction scan legal t with
  | case1 => cases hx
  | case2 c cs hc ih =>
      rcases List.mem_cons.mp hx with rfl | hx
      · exact Or.inl hc
      · exact ih h hx
  | case3 hi lo r hhex _ ih =>
      rw [Bool.and_eq_true] at hhex
      rcases List.mem_cons.mp hx with rfl | hx
      · exact Or.inr (Or.inl rfl)
      · rcases List.mem_cons.mp hx with rfl | hx
        · exact Or.inr (Or.inr hhex.1)
        · rcases List.mem_cons.mp hx with rfl | hx
          · exact Or.inr (Or.inr hhex.2)
          · exact ih h hx
  | case4 => cases h
  | case5 => cases h
  | case6 => cases h

theorem mem_userInfo {u : List Char} (h : checkChars isUserInfo u = true) {x : Char} (hx : x ∈ u) :
    isUserInfo x = true ∨ x = '%' := by
  rcases mem_of_scan (beq_iff_eq.mp h) hx with hlegal | hpercent | hhex
  · exact Or.inl hlegal
  · exact Or.inr hpercent
  · exact Or.inl (isUserInfo_of_isAlphanum x (isAlphanum_of_isHex hhex))

theorem parseServer_iff {a host : List Char} {p : Int} (hp : 1 ≤ p ∧ p ≤ 65535) :
    parseServer a = some (host, p) ↔ ∃ user ds, a = user ++ (host ++ ':' :: ds) ∧ IsUserPart user ∧
      IsUriHost host ∧ IsTcpPort ds ∧ (natOfDigits ds : Int) = p := by
  constructor
  · intro h
    unfold parseServer at h
    split at h
    · obtain ⟨ds, rfl, hrest⟩ := (parseHostPort_iff hp).mp h
      exact ⟨[], ds, rfl, Or.inl rfl, hrest⟩
    · next c r hdrop =>
        split at h
        · next hcheck =>
            obtain ⟨ds, rfl, hrest⟩ := (parseHostPort_iff hp).mp h
            obtain ⟨-, -, hsplit⟩ := cut_of_dropWhile hdrop
            refine ⟨a.takeWhile (· != '@') ++ ['@'], ds, ?_, Or.inr ⟨_, hcheck, rfl⟩, hrest⟩
            rw [List.append_assoc, List.singleton_append, ← hsplit]
        · cases h
  · rintro ⟨user, ds, rfl, huser, hhost, htcp, hvalue⟩
    have hread : parseHostPort (host ++ ':' :: ds) = some (host, p) :=
      (parseHostPort_iff hp).mpr ⟨ds, rfl, hhost, htcp, hvalue⟩
    unfold parseServer
    rcases huser with rfl | ⟨u, hu, rfl⟩
    · have hat : '@' ∉ host ++ ':' :: ds :=
        (hhost.madeOf_hostPort htcp.digits).not_mem rfl (by decide)
      rw [List.nil_append, List.dropWhile_eq_nil_iff.mpr (bne_of_not_mem hat)]
      exact hread
    · have hat : '@' ∉ u := by
        intro hm
        rcases mem_userInfo hu hm with hm | hm <;> cases hm
      rw [List.append_assoc, List.singleton_append, dropWhile_span (bne_of_not_mem hat) bne_head,
        takeWhile_span (bne_of_not_mem hat) bne_head]
      simp only [hu, if_true]
      exact hread

/-- An authority of this form has only characters of a server. -/
theorem HasEndpoint.server {a : List Char} (h : HasEndpoint a) :
    (∀ c ∈ a, isServer c = true ∨ c = '%') ∧ a.head? ≠ some ']' := by
  obtain ⟨user, host, ds, rfl, huser, hhost, htcp⟩ := h
  have hserver := server_of_madeOf (hhost.madeOf_hostPort htcp.digits)
  rcases huser with rfl | ⟨u, hu, rfl⟩
  · refine ⟨hserver, ?_⟩
    rcases or_assoc.mpr hhost with hplain | ⟨address, -, -, rfl⟩
    · exact plain_head hplain rfl (by decide) _
    · exact fun heq => by cases heq
  · refine ⟨fun c hc => ?_, ?_⟩
    · rw [List.append_assoc, List.singleton_append] at hc
      rcases List.mem_append.mp hc with hc | hc
      · refine (mem_userInfo hu hc).imp_left fun hlegal => ?_
        unfold isServer
        rw [hlegal]
        rfl
      · rcases List.mem_cons.mp hc with rfl | hc
        · exact Or.inl rfl
        · exact hserver c hc
    · cases u with
      | nil => exact fun heq => by cases heq
      | cons c u =>
          intro heq
          cases heq
          rcases mem_userInfo hu List.mem_cons_self with hm | hm <;> cases hm

/-- An authority that is accepted has a host and a port of TCP exactly if it is of this form. -/
theorem parseAuthority_iff {a : List Char} {host : Option (List Char)} {p : Int}
    (h : parseAuthority a = some (host, p)) :
    (host ≠ none ∧ 1 ≤ p ∧ p ≤ 65535) ↔ HasEndpoint a := by
  constructor
  · rintro ⟨hsome, hp⟩
    obtain ⟨name, rfl⟩ := Option.ne_none_iff_exists'.mp hsome
    obtain ⟨user, ds, ha, huser, hhost, htcp, -⟩ :=
      (parseServer_iff hp).mp (host_of_parseAuthority h)
    exact ⟨user, name, ds, ha, huser, hhost, htcp⟩
  · intro hend
    obtain ⟨hserver, hhead⟩ := hend.server
    obtain ⟨user, name, ds, ha, huser, hname, htcp⟩ := hend
    have hle := htcp.le
    have hpos := htcp.pos
    have hread : parseServer a = some (name, (natOfDigits ds : Int)) :=
      (parseServer_iff (by omega)).mpr ⟨user, ds, ha, huser, hname, htcp, rfl⟩
    have hreg : ∃ rest, scan isRegName a = some rest := by
      cases hscan : scan isRegName a with
      | some rest => exact ⟨rest, rfl⟩
      | none =>
          unfold parseAuthority at h
          simp [hscan] at h
    rw [parseAuthority_of_server hserver hhead hreg hread] at h
    cases h
    exact ⟨Option.some_ne_none name, by omega, by omega⟩

/-! ## Links -/

/-- The authority of the text behind `ss://`. -/
def authorityOf (body : List Char) : List Char := body.takeWhile inAuthority

section Link

variable {a b : Char} {body : List Char} {uri : Uri}

/-- An accepted link has no authority, or its authority is accepted. -/
theorem parse_authority (ha : a = 's' ∨ a = 'S') (hb : b = 's' ∨ b = 'S')
    (h : parse (a :: b :: ':' :: '/' :: '/' :: body) = some uri) :
    authorityOf body = [] ∧ uri = ⟨none, -1⟩ ∨
      parseAuthority (authorityOf body) = some (uri.host, uri.port) := by
  have hstart : parse (a :: b :: ':' :: '/' :: '/' :: body) =
      parseHierarchical ('/' :: '/' :: body) := by
    rcases ha with rfl | rfl <;> rcases hb with rfl | rfl <;> rfl
  rw [hstart] at h
  simp only [parseHierarchical] at h
  split at h
  · next hnil =>
      split at h
      · exact Or.inl ⟨hnil, (Option.some.inj h).symm⟩
      · cases h
  · split at h
    · next host port hparse =>
        split at h
        · cases h
          exact Or.inr hparse
        · cases h
    · cases h

/-- A link that is accepted has a host and a port of TCP exactly if its authority is of this
form. -/
theorem parse_endpoint_iff (ha : a = 's' ∨ a = 'S') (hb : b = 's' ∨ b = 'S')
    (h : parse (a :: b :: ':' :: '/' :: '/' :: body) = some uri) :
    (uri.host ≠ none ∧ 1 ≤ uri.port ∧ uri.port ≤ 65535) ↔ HasEndpoint (authorityOf body) := by
  rcases parse_authority ha hb h with ⟨hnil, rfl⟩ | hparse
  · rw [hnil]
    refine iff_of_false (fun hu => hu.1 rfl) ?_
    rintro ⟨user, host, ds, htext, -⟩
    exact absurd htext (by simp)
  · exact parseAuthority_iff hparse

/-- The host of such a link is one of the grammar. -/
theorem isUriHost_of_parse {name : List Char} (ha : a = 's' ∨ a = 'S') (hb : b = 's' ∨ b = 'S')
    (h : parse (a :: b :: ':' :: '/' :: '/' :: body) = some uri) (hname : uri.host = some name)
    (hp : 1 ≤ uri.port ∧ uri.port ≤ 65535) : IsUriHost name := by
  rcases parse_authority ha hb h with ⟨-, rfl⟩ | hparse
  · cases hname
  · rw [hname] at hparse
    obtain ⟨-, -, -, -, hhost, -⟩ := (parseServer_iff hp).mp (host_of_parseAuthority hparse)
    exact hhost

end Link

end CypherConnect.JavaUri
