/-
  Percent-encoding of texts, and the decoder that reads runs of escapes as UTF-8.

  `decode plus pending t` carries the bytes of the escapes read so far; they are decoded as
  UTF-8 when a literal character or the end comes. `decode_encode`: whatever set of characters
  an encoder leaves alone (not `%`, and not `+` when `+` means a blank), decoding undoes it.
-/
import CypherConnect.Lib.Utf8

namespace CypherConnect.Percent

/-- Upper-case hexadecimal digit. -/
def hexDigit (n : Nat) : Char := if n < 10 then Char.ofNat (48 + n) else Char.ofNat (55 + n)

def hexValue (c : Char) : Option Nat :=
  if 48 ≤ c.toNat ∧ c.toNat ≤ 57 then some (c.toNat - 48)
  else if 65 ≤ c.toNat ∧ c.toNat ≤ 70 then some (c.toNat - 55)
  else if 97 ≤ c.toNat ∧ c.toNat ≤ 102 then some (c.toNat - 87)
  else none

def escapeByte (b : UInt8) : List Char := ['%', hexDigit (b.toNat / 16), hexDigit (b.toNat % 16)]

/-- The characters in `safe` stand for themselves, the UTF-8 bytes of every other are escaped. -/
def encodeChar (safe : Char → Bool) (c : Char) : List Char :=
  if safe c then [c] else (String.utf8EncodeChar c).flatMap escapeByte

def encode (safe : Char → Bool) (s : List Char) : List Char := s.flatMap (encodeChar safe)

/-- Decoding with the escaped bytes read so far. A malformed escape gives U+FFFD; with `plus` a
    literal `+` is a blank. -/
def decode (plus : Bool) : List UInt8 → List Char → List Char
  | pending, [] => Utf8.decode pending
  | pending, c :: r =>
      if c = '%' then
        match r with
        | h :: l :: r' =>
            match hexValue h, hexValue l with
            | some a, some b => decode plus (pending ++ [UInt8.ofNat (a * 16 + b)]) r'
            | _, _ => Utf8.decode pending ++ Utf8.replacement :: decode plus [] r'
        | _ => Utf8.decode pending ++ [Utf8.replacement]
      else Utf8.decode pending ++ (if plus && c == '+' then ' ' else c) :: decode plus [] r

theorem hexValue_hexDigit : ∀ n < 16, hexValue (hexDigit n) = some n := by decide

theorem decode_escapeByte (plus : Bool) (pending : List UInt8) (b : UInt8) (r : List Char) :
    decode plus pending (escapeByte b ++ r) = decode plus (pending ++ [b]) r := by
  have hb := b.toNat_lt
  simp only [escapeByte, List.cons_append, List.nil_append, decode, if_true]
  rw [hexValue_hexDigit _ (by omega), hexValue_hexDigit _ (by omega)]
  dsimp only
  rw [show b.toNat / 16 * 16 + b.toNat % 16 = b.toNat by omega, UInt8.ofNat_toNat]

theorem decode_escapeBytes (plus : Bool) (bs pending : List UInt8) (r : List Char) :
    decode plus pending (bs.flatMap escapeByte ++ r) = decode plus (pending ++ bs) r := by
  induction bs generalizing pending with
  | nil => simp
  | cons b bs ih =>
      rw [List.flatMap_cons, List.append_assoc, decode_escapeByte, ih, List.append_assoc]
      rfl

theorem decode_literal {plus : Bool} {c : Char} (h1 : c ≠ '%') (h2 : plus = true → c ≠ '+')
    (pending : List UInt8) (r : List Char) :
    decode plus pending (c :: r) = Utf8.decode pending ++ c :: decode plus [] r := by
  rw [decode.eq_def]
  simp only [if_neg h1]
  cases plus with
  | false => simp
  | true => simp [h2 rfl]

/-- The escaped bytes of `s` and an encoding of `w` decode to `s ++ w`. -/
theorem decode_encode_pending {plus : Bool} {safe : Char → Bool} (h1 : safe '%' = false)
    (h2 : plus = true → safe '+' = false) (s w : List Char) :
    decode plus (Utf8.encode s) (encode safe w) = s ++ w := by
  induction w generalizing s with
  | nil => simp [encode, decode, Utf8.decode_encode]
  | cons c w ih =>
      simp only [encode, List.flatMap_cons, encodeChar] at ih ⊢
      by_cases hc : safe c
      · have hp : c ≠ '%' := by rintro rfl; simp [h1] at hc
        have hq : plus = true → c ≠ '+' := by rintro hplus rfl; simp [h2 hplus] at hc
        have h := ih []
        rw [if_pos hc, List.cons_append, List.nil_append, decode_literal hp hq, Utf8.decode_encode]
        simp only [Utf8.encode, List.flatMap_nil, List.nil_append] at h
        rw [h]
      · have h := ih (s ++ [c])
        rw [if_neg hc, decode_escapeBytes]
        simp only [Utf8.encode, List.flatMap_append, List.flatMap_cons, List.flatMap_nil,
          List.append_nil, List.append_assoc, List.cons_append, List.nil_append] at h ⊢
        exact h

/-- Decoding undoes every percent-encoding that escapes `%` (and `+`, where it is a blank). -/
theorem decode_encode {plus : Bool} {safe : Char → Bool} (h1 : safe '%' = false)
    (h2 : plus = true → safe '+' = false) (w : List Char) :
    decode plus [] (encode safe w) = w :=
  decode_encode_pending h1 h2 [] w

/-- A text without `%` (and without `+`, where it is a blank) decodes to itself. -/
theorem decode_plain {plus : Bool} {t : List Char} (h1 : '%' ∉ t) (h2 : plus = true → '+' ∉ t) :
    decode plus [] t = t := by
  induction t with
  | nil => rfl
  | cons c t ih =>
      have hp : c ≠ '%' := fun h => h1 (by simp [h])
      have hq : plus = true → c ≠ '+' := fun hplus h => h2 hplus (by simp [h])
      rw [decode_literal hp hq,
        ih (fun h => h1 (by simp [h])) fun hplus h => h2 hplus (by simp [h])]
      rfl

/-- Every character of an encoding is a literal one, `%`, or a hexadecimal digit. -/
theorem mem_encode {safe : Char → Bool} {w : List Char} {c : Char} (h : c ∈ encode safe w) :
    safe c = true ∨ c = '%' ∨ ∃ n < 16, c = hexDigit n := by
  simp only [encode, List.mem_flatMap] at h
  obtain ⟨x, _, hx⟩ := h
  unfold encodeChar at hx
  split at hx
  · next hs =>
      simp only [List.mem_singleton] at hx
      subst hx
      exact Or.inl hs
  · simp only [List.mem_flatMap, escapeByte, List.mem_cons, List.not_mem_nil, or_false] at hx
    obtain ⟨b, _, hb⟩ := hx
    have := b.toNat_lt
    rcases hb with rfl | rfl | rfl
    · exact Or.inr (Or.inl rfl)
    · exact Or.inr (Or.inr ⟨_, by omega, rfl⟩)
    · exact Or.inr (Or.inr ⟨_, by omega, rfl⟩)

end CypherConnect.Percent
