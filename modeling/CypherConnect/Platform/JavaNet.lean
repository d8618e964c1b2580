/-
  What the access control lists take from `java.net`, `android.system.Os` and the Unicode tables:
  numeric addresses, URLs and decimal digits. A `JavaNet` is a parameter of the model.

  * `JavaNet.Documented` states the documented behaviour the proofs rely on.
  * `plainNet` is a `JavaNet` that behaves so: it knows the dotted form of IPv4 addresses and
    `http` URLs without user info and port. The runs on concrete texts use it.
-/
import CypherConnect.Platform.JavaInteger
import CypherConnect.Platform.UriSyntax

namespace CypherConnect

/-- An `InetAddress`, by which two of them are compared: its bytes. -/
structure InetAddress where
  bytes : List UInt8
  size : bytes.length = 4 ∨ bytes.length = 16
  deriving DecidableEq, Repr

inductive AddressFamily where
  | inet
  | inet6
  deriving DecidableEq, Repr

structure JavaNet where
  /-- `Build.VERSION.SDK_INT`. -/
  sdk : Nat
  /-- `Os.inet_pton(family, text)`. -/
  inetPton : AddressFamily → List Char → Option InetAddress
  /-- The hidden `InetAddress.parseNumericAddress`, called on texts that `inet_pton` accepts. -/
  hiddenParse : List Char → InetAddress
  /-- `InetAddress.getHostAddress`. -/
  hostAddress : InetAddress → List Char
  /-- `Character.digit(c, 10)`. -/
  digit : Char → Option Nat
  /-- `java.net.URL`. -/
  Url : Type
  /-- `URL(text)`; `none` is a `MalformedURLException`. -/
  url : List Char → Option Url
  /-- `URL.toString`. -/
  urlText : Url → List Char
  host : Url → List Char
  port : Url → Int
  file : Url → List Char
  protocol : Url → List Char
  /-- `URL.equals`. -/
  equals : Url → Url → Bool

namespace JavaNet

/-- `String?.parseNumericAddress()` of `utils/Utils.kt`. -/
def parseNumericAddress (N : JavaNet) (t : List Char) : Option InetAddress :=
  match N.inetPton .inet t with
  | some address => some address
  | none => (N.inetPton .inet6 t).map fun address => if 29 ≤ N.sdk then address else N.hiddenParse t

/-- Characters of the text form of an address. -/
def isAddressChar (c : Char) : Bool := JavaUri.isHex c || c == '.' || c == ':'

structure Documented (N : JavaNet) : Prop where
  /-- The text form of an address is read as that address. -/
  parse_hostAddress : ∀ t a, N.parseNumericAddress t = some a →
    N.parseNumericAddress (N.hostAddress a) = some a
  hostAddress_ne_nil : ∀ t a, N.parseNumericAddress t = some a → N.hostAddress a ≠ []
  hostAddress_chars : ∀ t a, N.parseNumericAddress t = some a →
    ∀ c ∈ N.hostAddress a, isAddressChar c = true
  digit_ascii : ∀ c, JavaUri.isDigit c = true → N.digit c = some (c.toNat - 48)
  /-- The text of a URL is read as that URL. -/
  url_urlText : ∀ t u, N.url t = some u → N.url (N.urlText u) = some u
  urlText_ne_nil : ∀ t u, N.url t = some u → N.urlText u ≠ []
  /-- The text of a URL has no characters that the URL was not made from, apart from the printable
      ones of ASCII. -/
  urlText_chars : ∀ t u, N.url t = some u → ∀ c ∈ N.urlText u, c ∈ t ∨ 0x20 ≤ c.toNat ∧
    c.toNat ≤ 0x7E
  equals_refl : ∀ u, N.equals u u = true
  equals_symm : ∀ u v, N.equals u v = true → N.equals v u = true
  equals_trans : ∀ u v w, N.equals u v = true → N.equals v w = true → N.equals u w = true

end JavaNet

/-! ## A reference -/

namespace PlainNet

open JavaUri

/-- The number a decimal text without leading zeros stands for, if it is a byte. -/
def byte (t : List Char) : Option UInt8 :=
  if decimal (natOfDigits t) = t ∧ natOfDigits t < 256 then some (UInt8.ofNat (natOfDigits t))
  else none

def ipv4 (t : List Char) : Option InetAddress :=
  match (t.splitOn '.').map byte with
  | [some a, some b, some c, some d] => some ⟨[a, b, c, d], Or.inl rfl⟩
  | _ => none

def hostAddress (a : InetAddress) : List Char :=
  List.intercalate ['.'] (a.bytes.map fun b => decimal b.toNat)

theorem decimal_byte {t : List Char} {b : UInt8} (h : byte t = some b) : decimal b.toNat = t := by
  unfold byte at h
  split at h
  · next hcond =>
      have hmod : natOfDigits t % 2 ^ 8 = natOfDigits t := Nat.mod_eq_of_lt hcond.2
      rw [← Option.some.inj h, UInt8.toNat_ofNat', hmod]
      exact hcond.1
  · cases h

/-- Only the text form itself is read. -/
theorem hostAddress_of_ipv4 {t : List Char} {a : InetAddress} (h : ipv4 t = some a) :
    hostAddress a = t ∧
      ∃ b c d e, t.splitOn '.' = [decimal b, decimal c, decimal d, decimal e] := by
  unfold ipv4 at h
  split at h
  · next b c d e hmap =>
      cases h
      match hsplit : t.splitOn '.' with
      | [] | [_] | [_, _] | [_, _, _] | _ :: _ :: _ :: _ :: _ :: _ =>
          rw [hsplit] at hmap
          simp at hmap
      | [p, q, r, s] =>
          rw [hsplit] at hmap
          simp only [List.map_cons, List.map_nil, List.cons.injEq, and_true] at hmap
          obtain ⟨hp, hq, hr, hs⟩ := hmap
          have htext : List.intercalate ['.'] (t.splitOn '.') = t := List.intercalate_splitOn '.'
          have hparts : hostAddress ⟨[b, c, d, e], Or.inl rfl⟩ = List.intercalate ['.']
              [p, q, r, s] := by
            unfold hostAddress
            simp only [List.map_cons, List.map_nil, decimal_byte hp, decimal_byte hq,
              decimal_byte hr, decimal_byte hs]
          refine ⟨by rw [hparts, ← hsplit, htext], b.toNat, c.toNat, d.toNat, e.toNat, ?_⟩
          rw [decimal_byte hp, decimal_byte hq, decimal_byte hr, decimal_byte hs]
  · cases h

/-- `http://host/file#ref`. -/
def isHttp (t : List Char) : Bool :=
  "http://".toList.isPrefixOf t &&
    ((t.drop 7).takeWhile (· != '#')).all fun c => c != ':' && c != '@' && c != '?'

def host (t : List Char) : List Char := ((t.drop 7).takeWhile (· != '#')).takeWhile (· != '/')

def file (t : List Char) : List Char := ((t.drop 7).takeWhile (· != '#')).dropWhile (· != '/')

def ref (t : List Char) : List Char := (t.drop 7).dropWhile (· != '#')

end PlainNet

/-- Addresses in dotted form, and `http` URLs that are their own text. -/
def plainNet : JavaNet where
  sdk := 30
  inetPton family t := if family = .inet then PlainNet.ipv4 t else none
  hiddenParse _ := ⟨[0, 0, 0, 0], Or.inl rfl⟩
  hostAddress := PlainNet.hostAddress
  digit := JavaInteger.asciiDigit
  Url := List Char
  url t := if PlainNet.isHttp t then some t else none
  urlText t := t
  host := PlainNet.host
  port _ := -1
  file := PlainNet.file
  protocol _ := "http".toList
  equals t u := PlainNet.host t == PlainNet.host u && PlainNet.file t == PlainNet.file u &&
    PlainNet.ref t == PlainNet.ref u

namespace PlainNet

open JavaUri

theorem parse_some {t : List Char} {a : InetAddress} (h : plainNet.parseNumericAddress t = some a) :
    ipv4 t = some a := by
  unfold JavaNet.parseNumericAddress at h
  split at h
  · next address heq =>
      cases h
      exact heq
  · cases h

theorem url_some {t : List Char} {u : plainNet.Url} (h : plainNet.url t = some u) :
    isHttp t = true ∧ u = t := by
  have hurl : (if isHttp t then some t else none) = some u := h
  split at hurl
  · next hhttp => exact ⟨hhttp, (Option.some.inj hurl).symm⟩
  · cases hurl

theorem mem_hostAddress {t : List Char} {a : InetAddress} (h : ipv4 t = some a) {c : Char}
    (hc : c ∈ t) : c = '.' ∨ isDigit c = true := by
  obtain ⟨_, b, d, e, f, hsplit⟩ := hostAddress_of_ipv4 h
  have htext : List.intercalate ['.'] (t.splitOn '.') = t := List.intercalate_splitOn '.'
  rw [← htext, hsplit] at hc
  simp only [List.intercalate_cons_cons, List.intercalate_singleton, List.mem_append,
    List.mem_singleton] at hc
  rcases hc with (hc | hc) | (hc | hc) | (hc | hc) | hc
  · exact Or.inr (isDigit_of_mem_decimal hc)
  · exact Or.inl hc
  · exact Or.inr (isDigit_of_mem_decimal hc)
  · exact Or.inl hc
  · exact Or.inr (isDigit_of_mem_decimal hc)
  · exact Or.inl hc
  · exact Or.inr (isDigit_of_mem_decimal hc)

end PlainNet

/-- The reference behaves as documented. -/
theorem plainNet_documented : plainNet.Documented where
  parse_hostAddress := by
    intro t a h
    rw [show plainNet.hostAddress a =
      t from (PlainNet.hostAddress_of_ipv4 (PlainNet.parse_some h)).1]
    exact h
  hostAddress_ne_nil := by
    intro t a h hnil
    have hipv4 := PlainNet.parse_some h
    rw [show plainNet.hostAddress a = t from (PlainNet.hostAddress_of_ipv4 hipv4).1] at hnil
    rw [hnil] at hipv4
    cases hipv4
  hostAddress_chars := by
    intro t a h c hc
    have hipv4 := PlainNet.parse_some h
    rw [show plainNet.hostAddress a = t from (PlainNet.hostAddress_of_ipv4 hipv4).1] at hc
    unfold JavaNet.isAddressChar
    rcases PlainNet.mem_hostAddress hipv4 hc with rfl | hdigit
    · rfl
    · have hhex : JavaUri.isHex c = true := by
        unfold JavaUri.isHex
        rw [hdigit]
        rfl
      rw [hhex]
      rfl
  digit_ascii _ := JavaInteger.asciiDigit_eq
  url_urlText := by
    intro t u h
    obtain ⟨_, rfl⟩ := PlainNet.url_some h
    exact h
  urlText_ne_nil := by
    intro t u h hnil
    obtain ⟨hhttp, rfl⟩ := PlainNet.url_some h
    have hempty : u = [] := hnil
    rw [hempty] at hhttp
    cases hhttp
  urlText_chars := by
    intro t u h c hc
    obtain ⟨_, rfl⟩ := PlainNet.url_some h
    exact Or.inl hc
  equals_refl := by
    intro u
    simp only [plainNet, beq_self_eq_true, Bool.and_self]
  equals_symm := by
    intro u v h
    simp only [plainNet, Bool.and_eq_true, beq_iff_eq] at h ⊢
    exact ⟨⟨h.1.1.symm, h.1.2.symm⟩, h.2.symm⟩
  equals_trans := by
    intro u v w h h'
    simp only [plainNet, Bool.and_eq_true, beq_iff_eq] at h h' ⊢
    exact ⟨⟨h.1.1.trans h'.1.1, h.1.2.trans h'.1.2⟩, h.2.trans h'.2⟩

end CypherConnect
