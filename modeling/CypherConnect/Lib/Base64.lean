/-
  Base64 (RFC 4648) over an arbitrary pair of characters for the values 62 and 63. Texts are
  written without padding; `encodePadded` adds the `=` signs.

  * `bytesOfDigits` reads digit values six bits at a time and drops the bits left over.
  * `filterMap_digit_encode` and `bytesOfDigits_digitsOfBytes`: reading the digits of an encoding
    gives the bytes back.
  * `length_bytesOfDigits`: `n` digits carry `n * 6 / 8` bytes, so a digit less is a byte less
    (`length_bytesOfDigits_lt`).
  * `prefix_of_cut`, `length_of_cut`: a cut text reads as a cut byte string.
-/
import Mathlib.Data.List.Basic

namespace CypherConnect.Base64

/-- The two characters in which the alphabets of RFC 4648 differ. -/
structure Alphabet where
  c62 : Char
  c63 : Char
  deriving DecidableEq, Repr

/-- The alphabet of RFC 4648, section 4. -/
def standard : Alphabet := ⟨'+', '/'⟩

/-- The "URL and filename safe" alphabet of RFC 4648, section 5. -/
def urlSafe : Alphabet := ⟨'-', '_'⟩

/-- The character of a digit value. -/
def Alphabet.char (a : Alphabet) (n : Nat) : Char :=
  if n < 26 then Char.ofNat (65 + n)
  else if n < 52 then Char.ofNat (71 + n)
  else if n < 62 then Char.ofNat (n - 4)
  else if n = 62 then a.c62 else a.c63

/-- The value of a character of the alphabet. -/
def Alphabet.digit (a : Alphabet) (c : Char) : Option Nat :=
  if 65 ≤ c.toNat ∧ c.toNat ≤ 90 then some (c.toNat - 65)
  else if 97 ≤ c.toNat ∧ c.toNat ≤ 122 then some (c.toNat - 71)
  else if 48 ≤ c.toNat ∧ c.toNat ≤ 57 then some (c.toNat + 4)
  else if c = a.c62 then some 62
  else if c = a.c63 then some 63 else none

/-- The digit values of a byte string, three bytes to four digits. -/
def digitsOfBytes : List UInt8 → List Nat
  | [] => []
  | [x] => [x.toNat / 4, x.toNat % 4 * 16]
  | [x, y] => [x.toNat / 4, x.toNat % 4 * 16 + y.toNat / 16, y.toNat % 16 * 4]
  | x :: y :: z :: r =>
      x.toNat / 4 :: (x.toNat % 4 * 16 + y.toNat / 16) :: (y.toNat % 16 * 4 + z.toNat / 64) ::
        z.toNat % 64 :: digitsOfBytes r

/-- Base64 text without padding. -/
def encode (a : Alphabet) (bs : List UInt8) : List Char := (digitsOfBytes bs).map a.char

/-- Base64 text padded with `=` to a multiple of four characters. -/
def encodePadded (a : Alphabet) (bs : List UInt8) : List Char :=
  encode a bs ++ List.replicate ((4 - (encode a bs).length % 4) % 4) '='

/-- The bytes that digit values spell; bits that fill no byte are dropped. -/
def bytesOfDigits : List Nat → List UInt8
  | a :: b :: c :: d :: r =>
      UInt8.ofNat (a * 4 + b / 16) :: UInt8.ofNat (b % 16 * 16 + c / 4) ::
        UInt8.ofNat (c % 4 * 64 + d) :: bytesOfDigits r
  | [a, b, c] => [UInt8.ofNat (a * 4 + b / 16), UInt8.ofNat (b % 16 * 16 + c / 4)]
  | [a, b] => [UInt8.ofNat (a * 4 + b / 16)]
  | _ => []

/-! ## Digits and characters -/

theorem digitsOfBytes_lt (bs : List UInt8) : ∀ d ∈ digitsOfBytes bs, d < 64 := by
  fun_induction digitsOfBytes bs with
  | case1 => simp
  | case2 x =>
      have hx := x.toNat_lt
      intro d hd
      simp only [List.mem_cons, List.not_mem_nil, or_false] at hd
      omega
  | case3 x y =>
      have hx := x.toNat_lt
      have hy := y.toNat_lt
      intro d hd
      simp only [List.mem_cons, List.not_mem_nil, or_false] at hd
      omega
  | case4 x y z r ih =>
      have hx := x.toNat_lt
      have hy := y.toNat_lt
      have hz := z.toNat_lt
      intro d hd
      simp only [List.mem_cons] at hd
      rcases hd with h | h | h | h | h
      · omega
      · omega
      · omega
      · omega
      · exact ih d h

/-- In both alphabets of RFC 4648 the digit value of a digit's character is the digit. -/
theorem digit_char_standard : ∀ n < 64, standard.digit (standard.char n) = some n := by decide

theorem digit_char_urlSafe : ∀ n < 64, urlSafe.digit (urlSafe.char n) = some n := by decide

theorem filterMap_digit_map_char {a : Alphabet} (ha : ∀ n < 64, a.digit (a.char n) = some n)
    (ds : List Nat) (hds : ∀ d ∈ ds, d < 64) : (ds.map a.char).filterMap a.digit = ds := by
  induction ds with
  | nil => rfl
  | cons d ds ih =>
      rw [List.map_cons, List.filterMap_cons_some (ha d (hds d List.mem_cons_self)),
        ih fun x hx => hds x (List.mem_cons_of_mem _ hx)]

theorem filterMap_digit_encode {a : Alphabet} (ha : ∀ n < 64, a.digit (a.char n) = some n)
    (bs : List UInt8) : (encode a bs).filterMap a.digit = digitsOfBytes bs :=
  filterMap_digit_map_char ha _ (digitsOfBytes_lt bs)

/-- The padding sign is in neither alphabet. -/
theorem char_ne_pad : ∀ n < 64, standard.char n ≠ '=' ∧ urlSafe.char n ≠ '=' := by decide

/-! ## Reading digits -/

theorem bytesOfDigits_digitsOfBytes (bs : List UInt8) : bytesOfDigits (digitsOfBytes bs) = bs := by
  have eta : ∀ (x : UInt8) (n : Nat), n = x.toNat → UInt8.ofNat n = x := by
    intro x n h
    rw [h, UInt8.ofNat_toNat]
  fun_induction digitsOfBytes bs with
  | case1 => rfl
  | case2 x =>
      have hx := x.toNat_lt
      simp only [bytesOfDigits]
      rw [eta x _ (by omega)]
  | case3 x y =>
      have hx := x.toNat_lt
      have hy := y.toNat_lt
      simp only [bytesOfDigits]
      rw [eta x _ (by omega), eta y _ (by omega)]
  | case4 x y z r ih =>
      have hx := x.toNat_lt
      have hy := y.toNat_lt
      have hz := z.toNat_lt
      simp only [bytesOfDigits]
      rw [eta x _ (by omega), eta y _ (by omega), eta z _ (by omega), ih]

theorem length_bytesOfDigits (ds : List Nat) : (bytesOfDigits ds).length = ds.length * 6 / 8 := by
  fun_induction bytesOfDigits ds with
  | case1 a b c d r ih => simp only [List.length_cons, ih]; omega
  | case2 => simp
  | case3 => simp
  | case4 ds h1 h2 h3 =>
      match ds with
      | [] => simp
      | [_] => simp
      | [a, b] => exact absurd rfl (h3 a b)
      | [a, b, c] => exact absurd rfl (h2 a b c)
      | a :: b :: c :: d :: r => exact absurd rfl (h1 a b c d r)

theorem length_digitsOfBytes (bs : List UInt8) :
    (digitsOfBytes bs).length = (bs.length * 8 + 5) / 6 := by
  fun_induction digitsOfBytes bs with
  | case1 => simp
  | case2 => simp
  | case3 => simp
  | case4 x y z r ih => simp only [List.length_cons, ih]; omega

/-- Full quanta are read on their own. -/
theorem bytesOfDigits_append (full rest : List Nat) (h : full.length % 4 = 0) :
    bytesOfDigits (full ++ rest) = bytesOfDigits full ++ bytesOfDigits rest := by
  fun_induction bytesOfDigits full with
  | case1 a b c d r ih =>
      have hr : r.length % 4 = 0 := by
        simp only [List.length_cons] at h
        omega
      simp only [List.cons_append, bytesOfDigits, ih hr]
  | case2 => simp at h
  | case3 => simp at h
  | case4 full h1 h2 h3 =>
      match full with
      | [] => rfl
      | [_] => simp at h
      | [a, b] => exact absurd rfl (h3 a b)
      | [a, b, c] => exact absurd rfl (h2 a b c)
      | a :: b :: c :: d :: r => exact absurd rfl (h1 a b c d r)

/-- Fewer digits than an encoding of `bs` has carry fewer bytes than `bs` has. -/
theorem length_bytesOfDigits_lt {bs : List UInt8} {ds : List Nat}
    (h : ds.length < (digitsOfBytes bs).length) : (bytesOfDigits ds).length < bs.length := by
  rw [length_digitsOfBytes] at h
  rw [length_bytesOfDigits]
  omega

/-- A cut digit list spells a cut byte string. -/
theorem bytesOfDigits_take_prefix (ds : List Nat) (j : Nat) (hj : j ≤ ds.length) :
    bytesOfDigits (ds.take j) <+: bytesOfDigits ds := by
  fun_induction bytesOfDigits ds generalizing j with
  | case1 a b c d r ih =>
      match j with
      | 0 => exact List.nil_prefix
      | 1 => exact List.nil_prefix
      | 2 => exact ⟨_, rfl⟩
      | 3 => exact ⟨_, rfl⟩
      | j + 4 =>
          obtain ⟨t, ht⟩ := ih j (by simpa using hj)
          refine ⟨t, ?_⟩
          simp only [List.take_succ_cons, bytesOfDigits, List.cons_append, ht]
  | case2 a b c =>
      match j with
      | 0 => exact List.nil_prefix
      | 1 => exact List.nil_prefix
      | 2 => exact ⟨_, rfl⟩
      | 3 => exact ⟨[], rfl⟩
      | j + 4 => simp at hj
  | case3 a b =>
      match j with
      | 0 => exact List.nil_prefix
      | 1 => exact List.nil_prefix
      | 2 => exact ⟨[], rfl⟩
      | j + 3 => simp at hj
  | case4 ds h1 h2 h3 =>
      match ds with
      | [] => simp [bytesOfDigits]
      | [a] => match j with
        | 0 => exact List.nil_prefix
        | 1 => exact List.nil_prefix
        | j + 2 => simp at hj
      | [a, b] => exact absurd rfl (h3 a b)
      | [a, b, c] => exact absurd rfl (h2 a b c)
      | a :: b :: c :: d :: r => exact absurd rfl (h1 a b c d r)

/-- The digits of a text that was cut. -/
theorem digits_of_cut {bytes : List UInt8} {a b : List Char} (h : encode standard bytes = a ++ b) :
    a.filterMap standard.digit = (digitsOfBytes bytes).take a.length ∧
      (digitsOfBytes bytes).length = a.length + b.length := by
  have hlength := congrArg List.length h
  unfold encode at hlength
  rw [List.length_map, List.length_append] at hlength
  refine ⟨?_, hlength⟩
  have ha : a = ((digitsOfBytes bytes).take a.length).map standard.char := by
    have htake := congrArg (List.take a.length) h
    rw [List.take_left] at htake
    rw [List.map_take]
    exact htake.symm
  rw [ha, filterMap_digit_map_char digit_char_standard]
  · simp only [List.length_map, List.length_take]
    rw [Nat.min_eq_left (by omega)]
  · intro d hd
    exact digitsOfBytes_lt bytes d (List.mem_of_mem_take hd)

/-- The bytes of a text that was cut are a beginning of the bytes. -/
theorem prefix_of_cut {bytes : List UInt8} {a b : List Char} (h : encode standard bytes = a ++ b) :
    bytesOfDigits (a.filterMap standard.digit) <+: bytes := by
  obtain ⟨hdigits, hlength⟩ := digits_of_cut h
  have hprefix := bytesOfDigits_take_prefix (digitsOfBytes bytes) a.length (by omega)
  rw [bytesOfDigits_digitsOfBytes] at hprefix
  rw [hdigits]
  exact hprefix

/-- They are fewer if something was cut off. -/
theorem length_of_cut {bytes : List UInt8} {a b : List Char} (h : encode standard bytes = a ++ b)
    (hb : b ≠ []) : (bytesOfDigits (a.filterMap standard.digit)).length < bytes.length := by
  obtain ⟨hdigits, hlength⟩ := digits_of_cut h
  have hpos := List.length_pos_of_ne_nil hb
  refine length_bytesOfDigits_lt ?_
  rw [hdigits, List.length_take]
  omega

end CypherConnect.Base64
