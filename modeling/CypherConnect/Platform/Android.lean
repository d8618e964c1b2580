/-
  What the links code takes from the Android SDK (`android.util.Base64`, `android.net.Uri`) and
  from the Unicode tables behind `String.lowercase`. None of this is code of the repository, so a
  `Platform` is a parameter of the model.

  * `Platform.Documented` states the documented behaviour the proofs rely on.
  * `aosp` is a platform that behaves so (`aosp_documented`); the runs on concrete links use it.
-/
import CypherConnect.Lib.Base64
import CypherConnect.Lib.Percent
import CypherConnect.Lib.Scan

namespace CypherConnect

/-- SDK functions on links. An accessor of `Uri.parse(link)` takes the link itself. -/
structure Platform where
  /-- `Base64.decode(text, flags)`; `URL_SAFE` is the only flag that changes the result. `none` is
      an `IllegalArgumentException`. -/
  base64Decode : Base64.Alphabet → List Char → Option (List UInt8)
  /-- `Uri.getUserInfo`, decoded. -/
  userInfo : List Char → Option (List Char)
  /-- `Uri.getHost`, decoded. -/
  host : List Char → Option (List Char)
  /-- `Uri.getQueryParameter(key)`, decoded. -/
  queryParameter : List Char → List Char → Option (List Char)
  /-- `Uri.getFragment`, decoded. -/
  fragment : List Char → Option (List Char)
  /-- `String.lowercase(Locale.ENGLISH)`. -/
  lowercase : List Char → List Char

namespace Platform

/-- The start of every link the code writes. -/
def scheme : List Char := "ss://".toList

/-- A character that does not end the authority of a URI. -/
def InAuthority (c : Char) : Prop := c ≠ '/' ∧ c ≠ '\\' ∧ c ≠ '?' ∧ c ≠ '#'

/-- What follows an authority: nothing, a path, a query or a fragment. -/
def AfterAuthority (t : List Char) : Prop := ∀ c ∈ t.head?, c = '/' ∨ c = '?' ∨ c = '#'

/-- What follows a query: nothing or a fragment. -/
def AfterQuery (t : List Char) : Prop := ∀ c ∈ t.head?, c = '#'

/-- Documented behaviour of the SDK on links `ss://authority…`. -/
structure Documented (P : Platform) : Prop where
  /-- Decoding undoes the encoding of the same variant, padded or not. -/
  base64_encode : ∀ a, a = Base64.standard ∨ a = Base64.urlSafe → ∀ bs,
    P.base64Decode a (Base64.encode a bs) = some bs
  /-- A text without padding that is accepted stands for the bytes its alphabet characters spell. -/
  base64_bytes : ∀ a, a = Base64.standard ∨ a = Base64.urlSafe → ∀ t bs, '=' ∉ t →
    P.base64Decode a t = some bs → bs = Base64.bytesOfDigits (t.filterMap a.digit)
  /-- The user info is the part of the authority before the last `@`. -/
  userInfo_some : ∀ u h t, (∀ c ∈ u ++ h, InAuthority c) → '@' ∉ h → '%' ∉ u → AfterAuthority t →
    P.userInfo (scheme ++ (u ++ '@' :: h) ++ t) = some u
  userInfo_none : ∀ a t, (∀ c ∈ a, InAuthority c) → '@' ∉ a → AfterAuthority t →
    P.userInfo (scheme ++ a ++ t) = none
  /-- Without user info and port the host is the authority. -/
  host_authority : ∀ a t, (∀ c ∈ a, InAuthority c) → '@' ∉ a → ':' ∉ a → '%' ∉ a →
    AfterAuthority t → P.host (scheme ++ a ++ t) = some a
  /-- There is a parameter only in a query. -/
  queryParameter_none : ∀ a key t, '?' ∉ a → '#' ∉ a → AfterQuery t →
    P.queryParameter (scheme ++ a ++ t) key = none
  /-- The value of the first parameter with the key is percent-decoded. -/
  queryParameter_some : ∀ a key safe w t, '?' ∉ a → '#' ∉ a →
    (∀ c ∈ key, c.isAlphanum) → (∀ c ∈ ['%', '+', '&', '#'], safe c = false) → AfterQuery t →
    P.queryParameter (scheme ++ a ++ '?' :: key ++ '=' :: Percent.encode safe w ++ t) key = some w

/-- Further documented behaviour: the fragment of a link, and base64 texts with padding. -/
structure DocumentedLinks (P : Platform) : Prop extends Documented P where
  /-- The fragment is what stands behind the first `#`, percent-decoded. -/
  fragment_some : ∀ a safe w, '#' ∉ a → safe '%' = false →
    P.fragment (scheme ++ a ++ '#' :: Percent.encode safe w) = some w
  fragment_none : ∀ a, '#' ∉ a → P.fragment (scheme ++ a) = none
  base64_padded : ∀ a, a = Base64.standard ∨ a = Base64.urlSafe → ∀ bs,
    P.base64Decode a (Base64.encodePadded a bs) = some bs

/-- A link `ss://…`, in whatever case, has an authority, so it has a host, possibly an empty one. -/
def HostPresent (P : Platform) : Prop :=
  ∀ a b body, a = 's' ∨ a = 'S' → b = 's' ∨ b = 'S' → body ≠ [] →
    P.host (a :: b :: ':' :: '/' :: '/' :: body) ≠ none

end Platform

/-! ## A platform with this behaviour -/

namespace Aosp

/-- State of the Base64 decoder: output so far, digits of the quantum that is being read. -/
structure Decoder where
  out : List UInt8
  quantum : List Nat

/-- The decoder on the digits of a text: full quanta are written out as they come. Characters
    outside the alphabet are skipped. -/
def base64Step (a : Base64.Alphabet) (d : Decoder) (c : Char) : Decoder :=
  match a.digit c with
  | none => d
  | some n =>
      if d.quantum.length = 3 then ⟨d.out ++ Base64.bytesOfDigits (d.quantum ++ [n]), []⟩
      else ⟨d.out, d.quantum ++ [n]⟩

/-- A text ends after a full quantum, or one short of one or two digits; `=` signs may fill it
up. -/
def base64Decode (a : Base64.Alphabet) (t : List Char) : Option (List UInt8) :=
  let body := t.takeWhile (· != '=')
  let pads := (t.filter (· == '=')).length
  let d := body.foldl (base64Step a) ⟨[], []⟩
  if (t.dropWhile (· != '=')).any fun c => (a.digit c).isSome then none
  else if d.quantum.length = 1 then none
  else if pads = 0 ∨ (d.quantum.length + pads = 4 ∧ d.quantum ≠ []) then
    some (d.out ++ Base64.bytesOfDigits d.quantum)
  else none

/-- The part after the scheme separator. -/
def afterScheme (t : List Char) : List Char := (t.dropWhile (· != ':')).tail

def authority (t : List Char) : Option (List Char) :=
  match afterScheme t with
  | '/' :: '/' :: r => some (r.takeWhile fun c => c != '/' && c != '\\' && c != '?' && c != '#')
  | _ => none

/-- Split at the last `@`. -/
def splitUserInfo (a : List Char) : Option (List Char) × List Char :=
  let host := (a.reverse.takeWhile (· != '@')).reverse
  if '@' ∈ a then (some (a.take (a.length - host.length - 1)), host) else (none, a)

def userInfo (t : List Char) : Option (List Char) :=
  (authority t).bind fun a => (splitUserInfo a).1.map (Percent.decode false [])

/-- A final `:` with digits after it is the port. -/
def dropPort (h : List Char) : List Char :=
  match h.reverse.dropWhile fun c => '0' ≤ c && c ≤ '9' with
  | ':' :: r => r.reverse
  | _ => h

def host (t : List Char) : Option (List Char) :=
  (authority t).map fun a => Percent.decode false [] (dropPort (splitUserInfo a).2)

def query (t : List Char) : Option (List Char) :=
  match ((afterScheme t).takeWhile (· != '#')).dropWhile (· != '?') with
  | [] => none
  | _ :: q => some q

/-- The value of the first of the `&`-separated parameters with that name. -/
def findParameter (key : List Char) : List (List Char) → Option (List Char)
  | [] => none
  | p :: ps =>
      if p.takeWhile (· != '=') = key then
        some (Percent.decode true [] (p.dropWhile (· != '=')).tail)
      else findParameter key ps

def queryParameter (t key : List Char) : Option (List Char) :=
  (query t).bind fun q => findParameter key (q.splitOn '&')

def fragment (t : List Char) : Option (List Char) :=
  match (afterScheme t).dropWhile (· != '#') with
  | [] => none
  | _ :: f => some (Percent.decode false [] f)

/-! ### Base64 -/

/-- The decoder's state after the digits `ds`: full quanta written out, the others kept. -/
def Reads (d : Decoder) (ds : List Nat) : Prop :=
  ∃ full, ds = full ++ d.quantum ∧ full.length % 4 = 0 ∧ d.out = Base64.bytesOfDigits full ∧
    d.quantum.length < 4

theorem reads_step {a : Base64.Alphabet} {d : Decoder} {ds : List Nat} (h : Reads d ds) (c : Char) :
    Reads (base64Step a d c) (ds ++ (a.digit c).toList) := by
  obtain ⟨full, rfl, hfull, hout, hlt⟩ := h
  unfold base64Step
  cases a.digit c with
  | none =>
      rw [Option.toList_none, List.append_nil]
      exact ⟨full, rfl, hfull, hout, hlt⟩
  | some n =>
      rw [Option.toList_some]
      dsimp only
      split
      · next hthree =>
          refine ⟨full ++ (d.quantum ++ [n]), ?_, ?_, ?_, Nat.succ_pos 3⟩
          · simp only [List.append_assoc, List.append_nil]
          · simp only [List.length_append, List.length_singleton, hthree]
            omega
          · rw [Base64.bytesOfDigits_append _ _ hfull, hout]
      · next hthree =>
          refine ⟨full, List.append_assoc _ _ _, hfull, hout, ?_⟩
          rw [List.length_append, List.length_singleton]
          omega

theorem reads_foldl (a : Base64.Alphabet) (t : List Char) {d : Decoder} {ds : List Nat}
    (h : Reads d ds) : Reads (t.foldl (base64Step a) d) (ds ++ t.filterMap a.digit) := by
  induction t generalizing d ds with
  | nil =>
      rw [List.filterMap_nil, List.append_nil]
      exact h
  | cons c t ih =>
      have hstep := ih (reads_step (a := a) h c)
      rw [List.append_assoc] at hstep
      have hcons : (a.digit c).toList ++ t.filterMap a.digit = (c :: t).filterMap a.digit := by
        cases hc : a.digit c with
        | none => rw [List.filterMap_cons_none hc]; rfl
        | some n => rw [List.filterMap_cons_some hc]; rfl
      rw [hcons] at hstep
      exact hstep

/-- Without padding the result is what the alphabet characters spell, unless one digit is left
over. -/
theorem base64Decode_unpadded {a : Base64.Alphabet} {t : List Char} (h : '=' ∉ t) :
    base64Decode a t =
      if (t.filterMap a.digit).length % 4 = 1 then none
      else some (Base64.bytesOfDigits (t.filterMap a.digit)) := by
  have hin : ∀ c ∈ t, (c != '=') = true := Scan.bne_of_not_mem h
  have htake : t.takeWhile (· != '=') = t := by
    have hspan := Scan.takeWhile_span (b := []) hin (fun x hx => nomatch hx)
    rw [List.append_nil] at hspan
    exact hspan
  have hdrop : t.dropWhile (· != '=') = [] := List.dropWhile_eq_nil_iff.mpr hin
  have hpads : t.filter (· == '=') = [] := by
    rw [List.filter_eq_nil_iff]
    intro c hc
    have hne := hin c hc
    rw [bne_iff_ne] at hne
    rw [beq_iff_eq]
    exact hne
  have hstart : Reads ⟨[], []⟩ [] := ⟨[], rfl, rfl, rfl, Nat.succ_pos 3⟩
  obtain ⟨full, hds, hfull, hout, hlt⟩ := reads_foldl a t hstart
  rw [List.nil_append] at hds
  have hmod : (t.filterMap a.digit).length % 4 =
      (t.foldl (base64Step a) ⟨[], []⟩).quantum.length := by
    rw [hds, List.length_append]
    omega
  unfold base64Decode
  simp only [htake, hdrop, hpads, List.any_nil, Bool.false_eq_true, if_false, List.length_nil,
    true_or, if_true, hmod]
  split
  · rfl
  · rw [hout, hds, Base64.bytesOfDigits_append _ _ hfull]

theorem pad_not_mem_encode {a : Base64.Alphabet} (ha : a = Base64.standard ∨ a = Base64.urlSafe)
    (bs : List UInt8) : '=' ∉ Base64.encode a bs := by
  intro hm
  obtain ⟨n, hn, hchar⟩ := List.mem_map.mp hm
  have hlt := Base64.digitsOfBytes_lt bs n hn
  rcases ha with rfl | rfl
  · exact (Base64.char_ne_pad n hlt).1 hchar
  · exact (Base64.char_ne_pad n hlt).2 hchar

theorem digit_char {a : Base64.Alphabet} (ha : a = Base64.standard ∨ a = Base64.urlSafe) :
    ∀ n < 64, a.digit (a.char n) = some n := by
  rcases ha with rfl | rfl
  · exact Base64.digit_char_standard
  · exact Base64.digit_char_urlSafe

theorem base64Decode_encode {a : Base64.Alphabet} (ha : a = Base64.standard ∨ a = Base64.urlSafe)
    (bs : List UInt8) : base64Decode a (Base64.encode a bs) = some bs := by
  rw [base64Decode_unpadded (pad_not_mem_encode ha bs),
    Base64.filterMap_digit_encode (digit_char ha),
    Base64.length_digitsOfBytes, if_neg (by omega), Base64.bytesOfDigits_digitsOfBytes]

/-- The decoder after the digits of an encoding: it has written all whole groups of four. -/
theorem reads_encode {a : Base64.Alphabet} (ha : a = Base64.standard ∨ a = Base64.urlSafe)
    (bs : List UInt8) : ∃ full quantum,
      (Base64.encode a bs).foldl (base64Step a) ⟨[], []⟩ = ⟨Base64.bytesOfDigits full, quantum⟩ ∧
      Base64.digitsOfBytes bs = full ++ quantum ∧ full.length % 4 = 0 ∧
      quantum.length = (Base64.encode a bs).length % 4 := by
  have hstart : Reads ⟨[], []⟩ [] := ⟨[], rfl, rfl, rfl, Nat.succ_pos 3⟩
  obtain ⟨full, hds, hfull, hout, hlt⟩ := reads_foldl a (Base64.encode a bs) hstart
  rw [List.nil_append, Base64.filterMap_digit_encode (digit_char ha)] at hds
  have hlen : (Base64.encode a bs).length = (Base64.digitsOfBytes bs).length := List.length_map _
  refine ⟨full, _, ?_, hds, hfull, ?_⟩
  · rw [← hout]
  · rw [hlen, hds, List.length_append]
    omega

/-- Padding of some length behind an encoding, as the decoder counts it. -/
theorem count_pads {a : Base64.Alphabet} (ha : a = Base64.standard ∨ a = Base64.urlSafe)
    (bs : List UInt8) (k : Nat) :
    ((Base64.encode a bs ++ List.replicate k '=').filter (· == '=')).length = k := by
  have hfilter : (Base64.encode a bs).filter (· == '=') = [] := by
    rw [List.filter_eq_nil_iff]
    intro c hc heq
    exact pad_not_mem_encode ha bs (beq_iff_eq.mp heq ▸ hc)
  rw [List.filter_append, hfilter, List.nil_append, List.filter_replicate_of_pos rfl,
    List.length_replicate]

/-- Padding changes nothing. -/
theorem base64Decode_encodePadded {a : Base64.Alphabet}
    (ha : a = Base64.standard ∨ a = Base64.urlSafe) (bs : List UInt8) :
    base64Decode a (Base64.encodePadded a bs) = some bs := by
  have hpad : a.digit '=' = none := by
    rcases ha with rfl | rfl
    · decide
    · decide
  obtain ⟨k, hk⟩ : ∃ k, k = (4 - (Base64.encode a bs).length % 4) % 4 := ⟨_, rfl⟩
  have hbody := Scan.bne_of_not_mem (pad_not_mem_encode ha bs)
  have hpads : ∀ c ∈ (List.replicate k '=').head?, (c != '=') = false := by
    intro c hc
    rw [List.eq_of_mem_replicate (List.mem_of_mem_head? hc)]
    rfl
  have hnone : (List.replicate k '=').any (fun c => (a.digit c).isSome) = false := by
    rw [List.any_eq_false]
    intro c hc
    rw [List.eq_of_mem_replicate hc, hpad]
    exact Bool.false_ne_true
  obtain ⟨full, quantum, hstate, hds, hfull, hquantum⟩ := reads_encode ha bs
  have hnotone : (Base64.encode a bs).length % 4 ≠ 1 := by
    have hlen : (Base64.encode a bs).length = (Base64.digitsOfBytes bs).length := List.length_map _
    rw [hlen, Base64.length_digitsOfBytes]
    omega
  have hquanta : k = 0 ∨ quantum.length + k = 4 ∧ quantum ≠ [] := by
    by_cases hzero : k = 0
    · exact Or.inl hzero
    · refine Or.inr ⟨by omega, ?_⟩
      rintro rfl
      rw [List.length_nil] at hquantum
      omega
  unfold Base64.encodePadded base64Decode
  rw [← hk]
  simp only [Scan.takeWhile_span hbody hpads, Scan.dropWhile_span hbody hpads, hnone, count_pads ha,
    hstate]
  rw [if_neg Bool.false_ne_true, if_neg (by omega), if_pos hquanta,
    ← Base64.bytesOfDigits_append _ _ hfull, ← hds, Base64.bytesOfDigits_digitsOfBytes]

/-! ### Uri -/

theorem authority_eq {a t : List Char} (ha : ∀ c ∈ a, Platform.InAuthority c)
    (ht : Platform.AfterAuthority t) : authority (Platform.scheme ++ a ++ t) = some a := by
  have hin : ∀ c ∈ a, (c != '/' && c != '\\' && c != '?' && c != '#') = true := by
    intro c hc
    obtain ⟨h1, h2, h3, h4⟩ := ha c hc
    simp only [Bool.and_eq_true, bne_iff_ne]
    exact ⟨⟨⟨h1, h2⟩, h3⟩, h4⟩
  have hout : ∀ c ∈ t.head?, (c != '/' && c != '\\' && c != '?' && c != '#') = false := by
    intro c hc
    rcases ht c hc with rfl | rfl | rfl <;> rfl
  have hstart : authority (Platform.scheme ++ a ++ t) =
      some ((a ++ t).takeWhile fun c => c != '/' && c != '\\' && c != '?' && c != '#') := rfl
  rw [hstart, Scan.takeWhile_span hin hout]

theorem splitUserInfo_some {u h : List Char} (hh : '@' ∉ h) :
    splitUserInfo (u ++ '@' :: h) = (some u, h) := by
  have hhost : '@' ∉ h.reverse := fun hm => hh (List.mem_reverse.mp hm)
  have hrev : (u ++ '@' :: h).reverse = h.reverse ++ '@' :: u.reverse := by
    rw [List.reverse_append, List.reverse_cons, List.append_assoc]
    rfl
  have hmem : '@' ∈ u ++ '@' :: h := List.mem_append_right _ List.mem_cons_self
  have hlen : (u ++ '@' :: h).length - h.length - 1 = u.length := by
    rw [List.length_append, List.length_cons]
    omega
  unfold splitUserInfo
  rw [hrev, Scan.takeWhile_span (Scan.bne_of_not_mem hhost) Scan.bne_head, List.reverse_reverse,
    if_pos hmem, hlen, List.take_left]

theorem splitUserInfo_none {a : List Char} (ha : '@' ∉ a) : splitUserInfo a = (none, a) := by
  unfold splitUserInfo
  exact if_neg ha

theorem dropPort_of_not_mem {h : List Char} (hcolon : ':' ∉ h) : dropPort h = h := by
  unfold dropPort
  split
  · next r heq =>
      have hsub : h.reverse.dropWhile (fun c => '0' ≤ c && c ≤ '9') ⊆ h.reverse :=
        (List.dropWhile_sublist _).subset
      rw [heq] at hsub
      exact absurd (List.mem_reverse.mp (hsub List.mem_cons_self)) hcolon
  · rfl

/-- Outside queries `+` is an ordinary character. -/
theorem plain_of_not_mem {t : List Char} (h : '%' ∉ t) : Percent.decode false [] t = t := by
  refine Percent.decode_plain h ?_
  intro hplus
  cases hplus

theorem hash_head {t : List Char} (ht : Platform.AfterQuery t) :
    ∀ c ∈ t.head?, (c != '#') = false := by
  intro c hc
  rw [ht c hc]
  rfl

/-- The query of a link: what stands between `?` and `#`. -/
theorem query_eq {a q t : List Char} (ha1 : '?' ∉ a) (ha2 : '#' ∉ a) (hq : '#' ∉ q)
    (ht : Platform.AfterQuery t) : query (Platform.scheme ++ a ++ '?' :: q ++ t) = some q := by
  have hhash : '#' ∉ '/' :: '/' :: (a ++ '?' :: q) := by
    simp only [List.mem_cons, List.mem_append, not_or]
    exact ⟨by decide, by decide, ha2, by decide, hq⟩
  have hmark : '?' ∉ '/' :: '/' :: a := by
    simp only [List.mem_cons, not_or]
    exact ⟨by decide, by decide, ha1⟩
  have hafter : afterScheme (Platform.scheme ++ a ++ '?' :: q ++ t) =
      ('/' :: '/' :: (a ++ '?' :: q)) ++ t := rfl
  have hspan : ('/' :: '/' :: (a ++ '?' :: q)).dropWhile (· != '?') = '?' :: q :=
    Scan.dropWhile_span (a := '/' :: '/' :: a) (Scan.bne_of_not_mem hmark) Scan.bne_head
  unfold query
  rw [hafter, Scan.takeWhile_span (Scan.bne_of_not_mem hhash) (hash_head ht), hspan]

theorem query_none {a t : List Char} (ha1 : '?' ∉ a) (ha2 : '#' ∉ a) (ht : Platform.AfterQuery t) :
    query (Platform.scheme ++ a ++ t) = none := by
  have hhash : '#' ∉ '/' :: '/' :: a := by
    simp only [List.mem_cons, not_or]
    exact ⟨by decide, by decide, ha2⟩
  have hmark : '?' ∉ '/' :: '/' :: a := by
    simp only [List.mem_cons, not_or]
    exact ⟨by decide, by decide, ha1⟩
  have hspan : ('/' :: '/' :: a).dropWhile (· != '?') = [] :=
    List.dropWhile_eq_nil_iff.mpr (Scan.bne_of_not_mem hmark)
  have hafter : afterScheme (Platform.scheme ++ a ++ t) = ('/' :: '/' :: a) ++ t := rfl
  unfold query
  rw [hafter, Scan.takeWhile_span (Scan.bne_of_not_mem hhash) (hash_head ht), hspan]

/-- A character that is neither literal nor part of an escape does not occur in an encoding. -/
theorem not_mem_encode {safe : Char → Bool} {c : Char} (hsafe : safe c = false) (hpercent : c ≠ '%')
    (hhex : ∀ n < 16, c ≠ Percent.hexDigit n) (w : List Char) : c ∉ Percent.encode safe w := by
  intro hm
  rcases Percent.mem_encode hm with h | h | ⟨n, hn, h⟩
  · rw [hsafe] at h
    cases h
  · exact hpercent h
  · exact hhex n hn h

theorem queryParameter_eq {a key w t : List Char} {safe : Char → Bool} (ha1 : '?' ∉ a)
    (ha2 : '#' ∉ a) (hkey : ∀ c ∈ key, c.isAlphanum = true)
    (hsafe : ∀ c ∈ ['%', '+', '&', '#'], safe c = false) (ht : Platform.AfterQuery t) :
    queryParameter (Platform.scheme ++ a ++ '?' :: key ++ '=' :: Percent.encode safe w ++ t) key =
      some w := by
  have hnot {c : Char} (hc : c.isAlphanum = false) : c ∉ key := by
    intro hm
    rw [hkey c hm] at hc
    cases hc
  have hquery {c : Char} (hc : c.isAlphanum = false) (heq : c ≠ '=')
      (hencode : c ∉ Percent.encode safe w) : c ∉ key ++ '=' :: Percent.encode safe w := by
    rw [List.mem_append, List.mem_cons, not_or, not_or]
    exact ⟨hnot hc, heq, hencode⟩
  have hhash : '#' ∉ key ++ '=' :: Percent.encode safe w :=
    hquery rfl (by decide) (not_mem_encode (hsafe '#' (by decide)) (by decide) (by decide) w)
  have hamp : '&' ∉ key ++ '=' :: Percent.encode safe w :=
    hquery rfl (by decide) (not_mem_encode (hsafe '&' (by decide)) (by decide) (by decide) w)
  have hassoc : Platform.scheme ++ a ++ '?' :: key ++ '=' :: Percent.encode safe w ++ t =
      Platform.scheme ++ a ++ '?' :: (key ++ '=' :: Percent.encode safe w) ++ t := by
    simp only [List.append_assoc, List.cons_append]
  have heq := Scan.bne_of_not_mem (hnot (c := '=') rfl)
  unfold queryParameter
  rw [hassoc, query_eq ha1 ha2 hhash ht, Option.bind_some, List.splitOn_eq_singleton hamp]
  unfold findParameter
  rw [Scan.takeWhile_span heq Scan.bne_head, Scan.dropWhile_span heq Scan.bne_head, if_pos rfl,
    List.tail_cons,
    Percent.decode_encode (hsafe '%' (by decide)) (fun _ => hsafe '+' (by decide))]

end Aosp

/-- The SDK as a reference; `lowercase` is the one of the ASCII letters. -/
def aosp : Platform where
  base64Decode := Aosp.base64Decode
  userInfo := Aosp.userInfo
  host := Aosp.host
  queryParameter := Aosp.queryParameter
  fragment := Aosp.fragment
  lowercase := List.map Char.toLower

/-- The reference behaves as documented. -/
theorem aosp_documented : aosp.Documented where
  base64_encode := by
    intro a ha bs
    exact Aosp.base64Decode_encode ha bs
  base64_bytes := by
    intro a _ t bs ht h
    have hdecode : Aosp.base64Decode a t = some bs := h
    rw [Aosp.base64Decode_unpadded ht] at hdecode
    split at hdecode
    · cases hdecode
    · cases hdecode
      rfl
  userInfo_some := by
    intro u h t hin hh hu ht
    have ha : ∀ c ∈ u ++ '@' :: h, Platform.InAuthority c := by
      intro c hc
      rcases List.mem_append.mp hc with hc | hc
      · exact hin c (List.mem_append_left _ hc)
      · rcases List.mem_cons.mp hc with rfl | hc
        · unfold Platform.InAuthority
          decide
        · exact hin c (List.mem_append_right _ hc)
    show Aosp.userInfo (Platform.scheme ++ (u ++ '@' :: h) ++ t) = some u
    unfold Aosp.userInfo
    rw [Aosp.authority_eq ha ht, Option.bind_some, Aosp.splitUserInfo_some hh, Option.map_some,
      Aosp.plain_of_not_mem hu]
  userInfo_none := by
    intro a t ha hat ht
    show Aosp.userInfo (Platform.scheme ++ a ++ t) = none
    unfold Aosp.userInfo
    rw [Aosp.authority_eq ha ht, Option.bind_some, Aosp.splitUserInfo_none hat]
    rfl
  host_authority := by
    intro a t ha hat hcolon hpercent ht
    show Aosp.host (Platform.scheme ++ a ++ t) = some a
    unfold Aosp.host
    rw [Aosp.authority_eq ha ht, Option.map_some, Aosp.splitUserInfo_none hat,
      Aosp.dropPort_of_not_mem hcolon, Aosp.plain_of_not_mem hpercent]
  queryParameter_none := by
    intro a key t ha1 ha2 ht
    show Aosp.queryParameter (Platform.scheme ++ a ++ t) key = none
    unfold Aosp.queryParameter
    rw [Aosp.query_none ha1 ha2 ht]
    rfl
  queryParameter_some := by
    intro a key safe w t ha1 ha2 hkey hsafe ht
    exact Aosp.queryParameter_eq ha1 ha2 hkey hsafe ht

theorem aosp_documentedLinks : aosp.DocumentedLinks where
  toDocumented := aosp_documented
  fragment_some := by
    intro a safe w ha hsafe
    have hhash : '#' ∉ '/' :: '/' :: a := by
      simp only [List.mem_cons, not_or]
      exact ⟨by decide, by decide, ha⟩
    have hafter : Aosp.afterScheme (Platform.scheme ++ a ++ '#' :: Percent.encode safe w) =
        ('/' :: '/' :: a) ++ '#' :: Percent.encode safe w := rfl
    have hdecode : Percent.decode false [] (Percent.encode safe w) = w :=
      Percent.decode_encode hsafe (fun hplus => absurd hplus Bool.false_ne_true) w
    show Aosp.fragment _ = _
    unfold Aosp.fragment
    rw [hafter, Scan.dropWhile_span (Scan.bne_of_not_mem hhash) Scan.bne_head]
    exact congrArg some hdecode
  fragment_none := by
    intro a ha
    have hhash : '#' ∉ '/' :: '/' :: a := by
      simp only [List.mem_cons, not_or]
      exact ⟨by decide, by decide, ha⟩
    have hafter : Aosp.afterScheme (Platform.scheme ++ a) = '/' :: '/' :: a := rfl
    show Aosp.fragment _ = _
    unfold Aosp.fragment
    rw [hafter, List.dropWhile_eq_nil_iff.mpr (Scan.bne_of_not_mem hhash)]
  base64_padded := by
    intro a ha bs
    exact Aosp.base64Decode_encodePadded ha bs

theorem aosp_hostPresent : aosp.HostPresent := by
  intro a b body ha hb _ hnone
  have hauthority : Aosp.authority (a :: b :: ':' :: '/' :: '/' :: body) =
      some (body.takeWhile fun c => c != '/' && c != '\\' && c != '?' && c != '#') := by
    rcases ha with rfl | rfl <;> rcases hb with rfl | rfl <;> rfl
  have hhost : Aosp.host (a :: b :: ':' :: '/' :: '/' :: body) = none := hnone
  unfold Aosp.host at hhost
  rw [hauthority] at hhost
  cases hhost

end CypherConnect
