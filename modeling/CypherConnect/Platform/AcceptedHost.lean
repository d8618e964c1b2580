/-
  The hosts that `java.net.URI` accepts, in the form in which a link holds them: an address with a
  `:` in brackets.

  * `mem_of_isIPv6`, `madeOf_of_isBracketed`: an IPv6 address has only the characters of its
    grammar.
  * `parseHostPort_some`, `parseHostPort_eq`: what is read as a host is a name, four bytes or an
    address in brackets, and each of these is.
  * `AcceptedHost.parse`: a link with the host is parsed, and host and port come out.
-/
import CypherConnect.Platform.UriSyntax

namespace CypherConnect.JavaUri

open Scan

/-- The host of a link: an address with a `:` stands in brackets. -/
def wrappedHost (host : List Char) : List Char :=
  if host.contains ':' then '[' :: host ++ [']'] else host

/-- A host, not in brackets itself, that is read from a link with the port. -/
structure AcceptedHost (host : List Char) (port : Nat) : Prop where
  bare : host.head? ≠ some '['
  read : parseHostPort (wrappedHost host ++ ':' :: decimal port) = some (wrappedHost host,
    (port : Int))

/-! ## What the scanners consume -/

/-- A scanner leaves `r` of `t` and has consumed characters of a class. -/
def Consumes (p : Char → Prop) (t r : List Char) : Prop := ∃ u, t = u ++ r ∧ ∀ c ∈ u, p c

theorem Consumes.refl (p : Char → Prop) (t : List Char) : Consumes p t t :=
  ⟨[], rfl, List.forall_mem_nil _⟩

theorem Consumes.trans {p : Char → Prop} {t r s : List Char} (h1 : Consumes p t r)
    (h2 : Consumes p r s) : Consumes p t s := by
  obtain ⟨u, rfl, hu⟩ := h1
  obtain ⟨v, rfl, hv⟩ := h2
  refine ⟨u ++ v, (List.append_assoc _ _ _).symm, ?_⟩
  intro c hc
  exact (List.mem_append.mp hc).elim (hu c) (hv c)

theorem Consumes.mono {p q : Char → Prop} {t r : List Char} (hpq : ∀ c, p c → q c)
    (h : Consumes p t r) : Consumes q t r := by
  obtain ⟨u, ht, hu⟩ := h
  exact ⟨u, ht, fun c hc => hpq c (hu c hc)⟩

theorem Consumes.cons {p : Char → Prop} {c : Char} (hc : p c) (r : List Char) :
    Consumes p (c :: r) r :=
  ⟨[c], rfl, List.forall_mem_singleton.mpr hc⟩

theorem Consumes.all {p : Char → Prop} {t : List Char} (h : Consumes p t []) : ∀ c ∈ t, p c := by
  obtain ⟨u, rfl, hu⟩ := h
  rw [List.append_nil]
  exact hu

theorem consumes_dropWhile (p : Char → Bool) (t : List Char) :
    Consumes (p · = true) t (t.dropWhile p) :=
  ⟨t.takeWhile p, List.takeWhile_append_dropWhile.symm, fun _ hc => List.mem_takeWhile_imp hc⟩

/-- The characters of an IPv6 address. -/
def InIPv6 (c : Char) : Prop := isHex c = true ∨ c = ':' ∨ c = '.'

/-- The groups of a hexadecimal sequence behind the first. -/
theorem scanHexGroups_consumes {fuel : Nat} {t r : List Char} {n : Nat}
    (h : scanHexGroups fuel t = some (n, r)) : Consumes InIPv6 t r := by
  induction fuel generalizing t n r with
  | zero =>
      cases h
      exact Consumes.refl _ _
  | succ fuel ih =>
      rw [scanHexGroups.eq_def] at h
      simp only at h
      split at h
      · cases h
        exact Consumes.refl _ _
      · next rest hno =>
          split at h
          · cases h
          · split at h
            · cases h
              exact Consumes.refl _ _
            · split at h
              · cases h
              · obtain ⟨⟨m, s⟩, hmore, heq⟩ := Option.map_eq_some_iff.mp h
                cases heq
                have hgroup := (consumes_dropWhile isHex rest).mono
                  (q := InIPv6) fun c hc => Or.inl hc
                have hcolon : Consumes InIPv6 (':' :: rest) rest :=
                  Consumes.cons (Or.inr (Or.inl rfl)) _
                exact (hcolon.trans hgroup).trans (ih hmore)
      · cases h
        exact Consumes.refl _ _

theorem scanHexSeq_consumes {t r : List Char} {n : Nat} (h : scanHexSeq t = some (some (n, r))) :
    Consumes InIPv6 t r := by
  unfold scanHexSeq at h
  simp only at h
  split at h
  · cases h
  · split at h
    · cases h
    · obtain ⟨⟨m, s⟩, hmore, heq⟩ := Option.map_eq_some_iff.mp h
      cases heq
      have hfirst := (consumes_dropWhile isHex t).mono (q := InIPv6) fun c hc => Or.inl hc
      exact hfirst.trans (scanHexGroups_consumes hmore)

/-- An IPv4 address at the end of an IPv6 address. -/
theorem ipv4_consumes {t : List Char} (h : isIPv4 t = true) : Consumes InIPv6 t [] := by
  refine ⟨t, (List.append_nil _).symm, fun c hc => ?_⟩
  rcases (isIPv4_iff.mp h).mem hc with hdigit | hdot
  · left
    unfold isHex
    rw [hdigit]
    rfl
  · exact .inr (.inr hdot)

theorem colon_consumes (r : List Char) : Consumes InIPv6 (':' :: r) r :=
  Consumes.cons (Or.inr (Or.inl rfl)) r

theorem scanHexPost_consumes {t : List Char} {n : Nat} (h : scanHexPost t = some n) :
    Consumes InIPv6 t [] := by
  unfold scanHexPost at h
  split at h
  · next hnil =>
      rw [hnil]
      exact Consumes.refl _ _
  · split at h
    · cases h
    · next hseq => exact scanHexSeq_consumes hseq
    · next r hseq =>
        split at h
        · next hfour =>
            exact ((scanHexSeq_consumes hseq).trans (colon_consumes r)).trans (ipv4_consumes hfour)
        · cases h
    · cases h
    · split at h
      · next hfour => exact ipv4_consumes hfour
      · cases h

theorem mem_of_isIPv6 {t : List Char} (h : isIPv6 t = true) : ∀ c ∈ t, InIPv6 c := by
  refine Consumes.all ?_
  unfold isIPv6 at h
  split at h
  · cases h
  · next hseq => exact scanHexSeq_consumes hseq
  · next r hseq =>
      split at h
      · next hpost =>
          have hcolons := (colon_consumes (':' :: r)).trans (colon_consumes r)
          exact ((scanHexSeq_consumes hseq).trans hcolons).trans (scanHexPost_consumes hpost)
      · cases h
  · next r _ hseq =>
      rw [Bool.and_eq_true] at h
      exact ((scanHexSeq_consumes hseq).trans (colon_consumes r)).trans (ipv4_consumes h.1)
  · cases h
  · split at h
    · next r _ =>
        split at h
        · next hpost =>
            have hcolons := (colon_consumes (':' :: r)).trans (colon_consumes r)
            exact hcolons.trans (scanHexPost_consumes hpost)
        · cases h
    · cases h

/-- The characters between brackets: those of an address and of a scope id. -/
theorem madeOf_of_isBracketed {t : List Char} (h : isBracketed t = true) :
    MadeOf [':', '.', '%', '_'] t := by
  have hsix {u : List Char} (hu : isIPv6 u = true) : MadeOf [':', '.', '%', '_'] u := by
    intro x hx
    rcases mem_of_isIPv6 hu x hx with hhex | rfl | rfl
    · exact .inl (isAlphanum_of_isHex hhex)
    · exact .inr (by decide)
    · exact .inr (by decide)
  unfold isBracketed at h
  split at h
  · exact hsix h
  · next percent scope hdrop =>
      split at h
      · exact hsix h
      · simp only [Bool.and_eq_true, List.all_eq_true, Bool.or_eq_true, beq_iff_eq] at h
        obtain ⟨⟨haddress, _⟩, hscope⟩ := h
        obtain ⟨-, -, hsplit⟩ := cut_of_dropWhile hdrop
        rw [hsplit]
        refine (hsix haddress).append (.cons (by decide) fun x hx => ?_)
        rcases hscope x hx with (hscope | rfl) | rfl
        · exact .inl hscope
        · exact .inr (by decide)
        · exact .inr (by decide)

/-! ## Hosts -/

/-- An IPv6 address in brackets, perhaps with a scope id. -/
def IsReference (t : List Char) : Prop :=
  ∃ address, ']' ∉ address ∧ isBracketed address = true ∧ t = '[' :: (address ++ [']'])

def IsUriHost (t : List Char) : Prop := IsName t ∨ IsFourBytes t ∨ IsReference t

theorem IsUriHost.madeOf {t : List Char} (h : IsUriHost t) :
    MadeOf ['-', '.', ':', '%', '_', '[', ']'] t := by
  rcases or_assoc.mpr h with hplain | ⟨address, -, hbracketed, rfl⟩
  · exact (plain_madeOf hplain).mono (by decide)
  · have haddress : MadeOf ['-', '.', ':', '%', '_', '[', ']'] address :=
      (madeOf_of_isBracketed hbracketed).mono (by decide)
    exact .cons (by decide) (haddress.append (.cons (by decide) (List.forall_mem_nil _)))

/-- The characters of a host with its port. -/
theorem IsUriHost.madeOf_hostPort {host ds : List Char} (h : IsUriHost host)
    (hds : ∀ c ∈ ds, isDigit c = true) :
    MadeOf ['-', '.', ':', '%', '_', '[', ']'] (host ++ ':' :: ds) :=
  h.madeOf.append (.cons (by decide) (madeOf_digits hds))

theorem server_of_madeOf {t : List Char} (h : MadeOf ['-', '.', ':', '%', '_', '[', ']'] t) :
    ∀ c ∈ t, isServer c = true ∨ c = '%' := by
  have halnum : ∀ c, isAlphanum c = true → (isServer c || c == '%') = true := by
    intro c hc
    rw [isServer_of_isAlphanum c hc]
    rfl
  intro c hc
  have hserver := h.forall (p := fun c => isServer c || c == '%') halnum (by decide) c hc
  rw [Bool.or_eq_true, beq_iff_eq] at hserver
  exact hserver

/-- What is read as a host is one of the grammar. -/
theorem parseHostPort_some {t host : List Char} {port : Int}
    (h : parseHostPort t = some (host, port)) :
    ∃ rest, t = host ++ rest ∧ IsUriHost host ∧ parsePort rest = some port := by
  by_cases hhead : t.head? = some '['
  · obtain ⟨r, rfl⟩ := List.head?_eq_some_iff.mp hhead
    unfold parseHostPort at h
    simp only at h
    split at h
    · cases h
    · next c rest hdrop =>
        split at h
        · next hcond =>
            obtain ⟨p, hport, heq⟩ := Option.map_eq_some_iff.mp h
            cases heq
            rw [Bool.and_eq_true] at hcond
            obtain ⟨-, hno, hsplit⟩ := cut_of_dropWhile hdrop
            refine ⟨rest, ?_, Or.inr (Or.inr ⟨_, hno, hcond.2, rfl⟩), hport⟩
            rw [List.cons_append, List.cons_append, List.append_assoc, List.singleton_append,
              ← hsplit]
        · cases h
  · obtain ⟨rest, htext, hplain, hport⟩ := parseHostPort_plain_some hhead h
    exact ⟨rest, htext, or_assoc.mp (Or.inl hplain), hport⟩

/-- A host of the grammar is read up to the `:` of its port. -/
theorem parseHostPort_eq {host : List Char} (h : IsUriHost host) (r : List Char) :
    parseHostPort (host ++ ':' :: r) = (parsePort (':' :: r)).map fun p => (host, p) := by
  rcases or_assoc.mpr h with hplain | ⟨address, hno, hbracketed, rfl⟩
  · rw [parseHostPort_of_head (plain_head hplain rfl (by decide) _), parsePlain_eq hplain]
    rfl
  · have hin := bne_of_not_mem hno
    have hne : address ≠ [] := by
      rintro rfl
      cases hbracketed
    have htext : '[' :: (address ++ [']']) ++ ':' :: r = '[' :: (address ++ ']' :: ':' :: r) := by
      rw [List.cons_append, List.append_assoc]
      rfl
    rw [htext]
    unfold parseHostPort
    simp only [takeWhile_span hin bne_head, dropWhile_span hin bne_head, hbracketed,
      bne_iff_ne.mpr hne, Bool.and_self, if_true]
    rfl

/-! ## Accepted hosts -/

section Accepted

variable {host : List Char} {port : Nat}

theorem wrappedHost_of_colon (h : ':' ∈ host) : wrappedHost host = '[' :: host ++ [']'] :=
  if_pos (List.contains_iff_mem.mpr h)

theorem wrappedHost_of_not_colon (h : ':' ∉ host) : wrappedHost host = host :=
  if_neg fun hc => h (List.contains_iff_mem.mp hc)

theorem wrappedHost_eq_self_iff : wrappedHost host = host ↔ ':' ∉ host := by
  refine ⟨fun h hcolon => ?_, wrappedHost_of_not_colon⟩
  rw [wrappedHost_of_colon hcolon] at h
  have hlength := congrArg List.length h
  rw [List.length_append, List.length_cons, List.length_singleton] at hlength
  omega

theorem AcceptedHost.isUriHost (h : AcceptedHost host port) : IsUriHost (wrappedHost host) := by
  obtain ⟨rest, -, hhost, -⟩ := parseHostPort_some h.read
  exact hhost

/-- The characters of an accepted host with its port. -/
theorem AcceptedHost.madeOf_hostPort (h : AcceptedHost host port) :
    MadeOf ['-', '.', ':', '%', '_', '[', ']'] (wrappedHost host ++ ':' :: decimal port) :=
  h.isUriHost.madeOf_hostPort fun _ => isDigit_of_mem_decimal

/-- Without a `:` the host is a name or an IPv4 address. -/
theorem AcceptedHost.plain (h : AcceptedHost host port) (hcolon : ':' ∉ host) :
    IsName host ∨ IsFourBytes host := by
  have hhost := h.isUriHost
  rw [wrappedHost_of_not_colon hcolon] at hhost
  rcases or_assoc.mpr hhost with hplain | ⟨address, -, -, rfl⟩
  · exact hplain
  · exact absurd rfl h.bare

/-- Only the scope id of an address in brackets has a `%`. -/
theorem AcceptedHost.scan_isRegName (h : AcceptedHost host port) :
    ∃ rest, scan isRegName (wrappedHost host ++ ':' :: decimal port) = some rest := by
  by_cases hcolon : ':' ∈ host
  · rw [wrappedHost_of_colon hcolon]
    -- a bracket is no character of a registry name, so the scan stops there
    show ∃ rest, scan isRegName ('[' :: (host ++ [']'] ++ ':' :: decimal port)) = some rest
    rw [scan.eq_def]
    exact ⟨_, rfl⟩
  · rw [wrappedHost_of_not_colon hcolon]
    have hhost : MadeOf ['-', '.', ':'] (host ++ ':' :: decimal port) :=
      ((plain_madeOf (h.plain hcolon)).mono (by decide)).append
        (.cons (by decide) (madeOf_digits fun _ => isDigit_of_mem_decimal))
    exact scan_isSome (hhost.not_mem rfl (by decide)) _

/-- A link with an accepted host is parsed. -/
theorem AcceptedHost.parse (h : AcceptedHost host port) {u tail : List Char}
    (hu : ∀ c ∈ u, isUserInfo c = true) (htail : ∀ c ∈ tail.head?, inAuthority c = false)
    (hcheck : checkTail tail = true) :
    JavaUri.parse ("ss://".toList ++ (u ++ '@' :: (wrappedHost host ++ ':' :: decimal port)) ++
      tail) =
      some ⟨some (wrappedHost host), port⟩ := by
  exact parse_link_escaped hu (server_of_madeOf h.madeOf_hostPort) h.scan_isRegName h.read htail
    hcheck

end Accepted

end CypherConnect.JavaUri
