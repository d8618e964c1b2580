/-
  UTF-8 as `String(bytes)` reads it: well-formed sequences give their character, and every
  ill-formed one gives a single U+FFFD and is left at the first byte that cannot continue it.
  A three-byte surrogate is ill-formed as a whole.

  * `decode_encode`: decoding what was encoded gives the text back.
  * `encode_decode`: a decoding without U+FFFD came from the encoding of its result.
  * `decode_of_prefix`: a cut encoding decodes to a cut text, with at most one U+FFFD after it.
  * `encode_before_ascii`: an encoding is cut between characters where an ASCII byte follows.

  The encoder is `String.utf8EncodeChar`.
-/
import Mathlib.Data.List.Basic

namespace CypherConnect.Utf8

/-- U+FFFD, the replacement character. -/
def replacement : Char := Char.ofNat 0xFFFD

def encode (s : List Char) : List UInt8 := s.flatMap String.utf8EncodeChar

/-- What the first byte says: payload, number of continuation bytes, and the range of the first
    of them (it excludes overlong forms and values above U+10FFFF). `none` for a byte that starts
    no sequence. -/
def lead (b : Nat) : Option (Nat × Nat × Nat × Nat) :=
  if b < 0x80 then some (b, 0, 0x80, 0xBF)
  else if b < 0xC2 then none
  else if b < 0xE0 then some (b - 0xC0, 1, 0x80, 0xBF)
  else if b = 0xE0 then some (0, 2, 0xA0, 0xBF)
  else if b < 0xF0 then some (b - 0xE0, 2, 0x80, 0xBF)
  else if b = 0xF0 then some (0, 3, 0x90, 0xBF)
  else if b < 0xF4 then some (b - 0xF0, 3, 0x80, 0xBF)
  else if b = 0xF4 then some (4, 3, 0x80, 0x8F)
  else none

/-- Read `n` continuation bytes; the second component counts the bytes taken. -/
def follow : (n lo hi v taken : Nat) → List UInt8 → Option Nat × Nat
  | 0, _, _, v, taken, _ => (some v, taken)
  | _ + 1, _, _, _, taken, [] => (none, taken)
  | n + 1, lo, hi, v, taken, b :: bs =>
      if lo ≤ b.toNat ∧ b.toNat ≤ hi then
        follow n 0x80 0xBF (v * 64 + (b.toNat - 0x80)) (taken + 1) bs
      else (none, taken)

/-- The character that starts with byte `b`, and how many of the bytes after `b` belong to it. -/
def next (b : UInt8) (bs : List UInt8) : Char × Nat :=
  match lead b.toNat with
  | none => (replacement, 0)
  | some (v, n, lo, hi) =>
      match follow n lo hi v 0 bs with
      | (some w, k) => (if 0xD800 ≤ w ∧ w < 0xE000 then replacement else Char.ofNat w, k)
      | (none, k) => (replacement, k)

/-- The decoding loop; the first argument counts bytes that already belong to a character. -/
def decodeFrom : Nat → List UInt8 → List Char
  | _, [] => []
  | k + 1, _ :: bs => decodeFrom k bs
  | 0, b :: bs => (next b bs).1 :: decodeFrom (next b bs).2 bs

def decode (bs : List UInt8) : List Char := decodeFrom 0 bs

/-! ## Decoding an encoding -/

theorem toNat_ofNat (n : Nat) (h : n < 256) : (UInt8.ofNat n).toNat = n := by
  rw [UInt8.toNat_ofNat']
  exact Nat.mod_eq_of_lt h

theorem follow_cons {n lo hi v k : Nat} {b : UInt8} {bs : List UInt8} (h1 : lo ≤ b.toNat)
    (h2 : b.toNat ≤ hi) : follow (n + 1) lo hi v k (b :: bs) =
      follow n 0x80 0xBF (v * 64 + (b.toNat - 0x80)) (k + 1) bs := by
  simp only [follow, h1, h2, and_self, if_true]

theorem char_range (c : Char) : c.toNat < 0xD800 ∨ 0xDFFF < c.toNat ∧ c.toNat < 0x110000 :=
  c.valid

theorem next_of_lead {b : UInt8} {bs : List UInt8} {c : Char} (v n lo hi k : Nat)
    (hl : lead b.toNat = some (v, n, lo, hi)) (hf : follow n lo hi v 0 bs = (some c.toNat, k)) :
    next b bs = (c, k) := by
  have hc := char_range c
  simp only [next, hl, hf]
  rw [if_neg (by omega), Char.ofNat_toNat]

theorem next_one (c : Char) (h : c.toNat ≤ 0x7F) (r : List UInt8) :
    next (UInt8.ofNat c.toNat) r = (c, 0) := by
  refine next_of_lead c.toNat 0 0x80 0xBF 0 ?_ rfl
  rw [toNat_ofNat _ (by omega), lead, if_pos (by omega)]

theorem next_two (c : Char) (h1 : 0x7F < c.toNat) (h2 : c.toNat ≤ 0x7FF) (r : List UInt8) :
    next (UInt8.ofNat (c.toNat / 64 % 32 + 192)) (UInt8.ofNat (c.toNat % 64 + 128) :: r) =
      (c, 1) := by
  refine next_of_lead (c.toNat / 64) 1 0x80 0xBF 1 ?_ ?_
  · rw [toNat_ofNat _ (by omega)]
    unfold lead
    rw [if_neg (by omega), if_neg (by omega), if_pos (by omega)]
    simp only [Option.some.injEq, Prod.mk.injEq, and_true]
    omega
  · rw [follow_cons, toNat_ofNat _ (by omega)]
    · simp only [follow, Prod.mk.injEq, Option.some.injEq, and_true]
      omega
    all_goals rw [toNat_ofNat _ (by omega)]; omega

theorem next_three (c : Char) (h1 : 0x7FF < c.toNat) (h2 : c.toNat ≤ 0xFFFF) (r : List UInt8) :
    next (UInt8.ofNat (c.toNat / 4096 % 16 + 224))
        (UInt8.ofNat (c.toNat / 64 % 64 + 128) :: UInt8.ofNat (c.toNat % 64 + 128) :: r) =
      (c, 2) := by
  -- after E0 the second byte starts at A0
  have key : ∃ lo, lead (UInt8.ofNat (c.toNat / 4096 % 16 + 224)).toNat =
      some (c.toNat / 4096, 2, lo, 0xBF) ∧ lo ≤ c.toNat / 64 % 64 + 128 := by
    rw [toNat_ofNat _ (by omega)]
    rcases (by omega : c.toNat / 4096 = 0 ∨ 1 ≤ c.toNat / 4096) with h | h
    · exact ⟨0xA0, by rw [h]; rfl, by omega⟩
    · refine ⟨0x80, ?_, by omega⟩
      unfold lead
      rw [if_neg (by omega), if_neg (by omega), if_neg (by omega), if_neg (by omega),
        if_pos (by omega)]
      simp only [Option.some.injEq, Prod.mk.injEq, and_true]
      omega
  obtain ⟨lo, hlead, hlo⟩ := key
  refine next_of_lead _ _ _ _ _ hlead ?_
  rw [follow_cons, follow_cons, toNat_ofNat _ (by omega), toNat_ofNat _ (by omega)]
  · simp only [follow, Prod.mk.injEq, Option.some.injEq, and_true]
    omega
  all_goals rw [toNat_ofNat _ (by omega)]; omega

theorem next_four (c : Char) (h1 : 0xFFFF < c.toNat) (r : List UInt8) :
    next (UInt8.ofNat (c.toNat / 262144 % 8 + 240))
        (UInt8.ofNat (c.toNat / 4096 % 64 + 128) :: UInt8.ofNat (c.toNat / 64 % 64 + 128) ::
          UInt8.ofNat (c.toNat % 64 + 128) :: r) = (c, 3) := by
  have hc := char_range c
  -- F0 excludes overlong forms, F4 excludes values above U+10FFFF
  have key : ∃ lo hi, lead (UInt8.ofNat (c.toNat / 262144 % 8 + 240)).toNat =
      some (c.toNat / 262144, 3, lo, hi) ∧ lo ≤ c.toNat / 4096 % 64 + 128 ∧
      c.toNat / 4096 % 64 + 128 ≤ hi := by
    rw [toNat_ofNat _ (by omega)]
    rcases (by omega : c.toNat / 262144 = 0 ∨ (1 ≤ c.toNat / 262144 ∧ c.toNat / 262144 < 4) ∨
      c.toNat / 262144 = 4) with h | h | h
    · exact ⟨0x90, 0xBF, by rw [h]; rfl, by omega, by omega⟩
    · refine ⟨0x80, 0xBF, ?_, by omega, by omega⟩
      unfold lead
      rw [if_neg (by omega), if_neg (by omega), if_neg (by omega), if_neg (by omega),
        if_neg (by omega), if_neg (by omega), if_pos (by omega)]
      simp only [Option.some.injEq, Prod.mk.injEq, and_true]
      omega
    · exact ⟨0x80, 0x8F, by rw [h]; rfl, by omega, by omega⟩
  obtain ⟨lo, hi, hlead, hlo, hhi⟩ := key
  refine next_of_lead _ _ _ _ _ hlead ?_
  rw [follow_cons, follow_cons, follow_cons, toNat_ofNat _ (by omega), toNat_ofNat _ (by omega),
    toNat_ofNat _ (by omega)]
  · simp only [follow, Prod.mk.injEq, Option.some.injEq, and_true]
    omega
  all_goals rw [toNat_ofNat _ (by omega)]; omega

/-- The encoding of `c` is a first byte and the continuation bytes `next` takes. -/
theorem next_encodeChar (c : Char) (r : List UInt8) :
    ∃ b bs, String.utf8EncodeChar c = b :: bs ∧ next b (bs ++ r) = (c, bs.length) := by
  unfold String.utf8EncodeChar
  simp only [show c.val.toNat = c.toNat from rfl]
  split
  · next h => exact ⟨_, [], rfl, next_one c h r⟩
  · split
    · next h1 h2 => exact ⟨_, [_], rfl, next_two c (by omega) h2 r⟩
    · split
      · next h1 h2 h3 => exact ⟨_, [_, _], rfl, next_three c (by omega) h3 r⟩
      · next h1 h2 h3 => exact ⟨_, [_, _, _], rfl, next_four c (by omega) r⟩

theorem decodeFrom_append (bs r : List UInt8) :
    decodeFrom bs.length (bs ++ r) = decodeFrom 0 r := by
  induction bs with
  | nil => rfl
  | cons b bs ih => simpa [decodeFrom] using ih

theorem decode_encodeChar_append (c : Char) (r : List UInt8) :
    decode (String.utf8EncodeChar c ++ r) = c :: decode r := by
  obtain ⟨b, bs, hb, hn⟩ := next_encodeChar c r
  rw [hb]
  simp only [decode, List.cons_append, decodeFrom, hn, decodeFrom_append]

theorem decode_encode_append (s : List Char) (r : List UInt8) :
    decode (encode s ++ r) = s ++ decode r := by
  induction s with
  | nil => rfl
  | cons c s ih =>
      simp only [encode, List.flatMap_cons, List.append_assoc, List.cons_append] at ih ⊢
      rw [decode_encodeChar_append, ih]

/-- Decoding what was encoded gives the text back. -/
theorem decode_encode (s : List Char) : decode (encode s) = s := by
  have h := decode_encode_append s []
  simpa [decode, decodeFrom] using h

/-! ## A decoding without replacements -/

theorem follow_some {n lo hi v taken w k : Nat} {bs : List UInt8}
    (h : follow (n + 1) lo hi v taken bs = (some w, k)) : ∃ b r, bs = b :: r ∧ lo ≤ b.toNat ∧
      b.toNat ≤ hi ∧ follow n 0x80 0xBF (v * 64 + (b.toNat - 0x80))
        (taken + 1) r = (some w, k) := by
  cases bs with
  | nil => simp [follow] at h
  | cons b r =>
      unfold follow at h
      split at h
      · next hb => exact ⟨b, r, rfl, hb.1, hb.2, h⟩
      · simp at h

/-- The bytes of a character, from its code point. -/
theorem utf8EncodeChar_ofNat {w : Nat} (hw : w < 0xD800 ∨ 0xE000 ≤ w ∧ w < 0x110000) :
    String.utf8EncodeChar (Char.ofNat w) =
      if w ≤ 0x7F then [UInt8.ofNat w]
      else if w ≤ 0x7FF then [UInt8.ofNat (w / 64 % 32 + 192), UInt8.ofNat (w % 64 + 128)]
      else if w ≤ 0xFFFF then
        [UInt8.ofNat (w / 4096 % 16 + 224), UInt8.ofNat (w / 64 % 64 + 128),
          UInt8.ofNat (w % 64 + 128)]
      else
        [UInt8.ofNat (w / 262144 % 8 + 240), UInt8.ofNat (w / 4096 % 64 + 128),
          UInt8.ofNat (w / 64 % 64 + 128), UInt8.ofNat (w % 64 + 128)] := by
  have hvalid : w.isValidChar := by
    unfold Nat.isValidChar
    omega
  have hval : (Char.ofNat w).val.toNat = w := by
    show (Char.ofNat w).toNat = w
    rw [Char.ofNat, dif_pos hvalid]
    rfl
  unfold String.utf8EncodeChar
  simp only [hval]

theorem byte_eq {b : UInt8} {n : Nat} (h : n = b.toNat) : UInt8.ofNat n = b := by
  rw [h, UInt8.ofNat_toNat]

theorem fields_eq {v n lo hi v' n' lo' hi' : Nat}
    (h : some (v', n', lo', hi') = some (v, n, lo, hi)) :
    v' = v ∧ n' = n ∧ lo' = lo ∧ hi' = hi := by
  simpa only [Option.some.injEq, Prod.mk.injEq] using h

/-- The first bytes of the sequences of each length. -/
theorem lead_some {b v n lo hi : Nat} (h : lead b = some (v, n, lo, hi)) :
    (n = 0 ∧ b < 0x80 ∧ v = b) ∨
    (n = 1 ∧ 0xC2 ≤ b ∧ b < 0xE0 ∧ v = b - 0xC0 ∧ lo = 0x80 ∧ hi = 0xBF) ∨
    (n = 2 ∧ 0xE0 ≤ b ∧ b < 0xF0 ∧ v = b - 0xE0 ∧ 0x80 ≤ lo ∧ (v = 0 → lo = 0xA0) ∧ hi = 0xBF) ∨
    (n = 3 ∧ 0xF0 ≤ b ∧ b ≤ 0xF4 ∧ v = b - 0xF0 ∧ 0x80 ≤ lo ∧ (v = 0 → lo = 0x90) ∧ hi ≤ 0xBF ∧
      (v = 4 → hi = 0x8F)) := by
  unfold lead at h
  -- the branches in the order of the table; those with a bound of their own go with their length
  split at h
  · next hone =>
      obtain ⟨rfl, rfl, rfl, rfl⟩ := fields_eq h
      exact Or.inl ⟨rfl, hone, rfl⟩
  refine Or.inr ?_
  split at h
  · cases h
  split at h
  · next hlow htwo =>
      obtain ⟨rfl, rfl, rfl, rfl⟩ := fields_eq h
      exact Or.inl ⟨rfl, Nat.le_of_not_lt hlow, htwo, rfl, rfl, rfl⟩
  refine Or.inr ?_
  split at h
  · next heq =>
      obtain ⟨rfl, rfl, rfl, rfl⟩ := fields_eq h
      subst heq
      exact Or.inl (by decide)
  split at h
  · next htwo hne hthree =>
      obtain ⟨rfl, rfl, rfl, rfl⟩ := fields_eq h
      exact Or.inl ⟨rfl, Nat.le_of_not_lt htwo, hthree, rfl, Nat.le_refl _, by omega, rfl⟩
  refine Or.inr ?_
  split at h
  · next heq =>
      obtain ⟨rfl, rfl, rfl, rfl⟩ := fields_eq h
      subst heq
      decide
  split at h
  · next hthree hne hfour =>
      obtain ⟨rfl, rfl, rfl, rfl⟩ := fields_eq h
      exact ⟨rfl, Nat.le_of_not_lt hthree, Nat.le_of_lt hfour, rfl, Nat.le_refl _, by omega,
        Nat.le_refl _, by omega⟩
  split at h
  · next heq =>
      obtain ⟨rfl, rfl, rfl, rfl⟩ := fields_eq h
      subst heq
      decide
  · cases h

theorem next_some {b : UInt8} {bs : List UInt8} (h : (next b bs).1 ≠ replacement) :
    ∃ v n lo hi w k, lead b.toNat = some (v, n, lo, hi) ∧ follow n lo hi v 0 bs = (some w, k) ∧
      ¬ (0xD800 ≤ w ∧ w < 0xE000) ∧ next b bs = (Char.ofNat w, k) := by
  unfold next at h ⊢
  split at h
  · exact absurd rfl h
  · next v n lo hi hlead =>
      split at h
      · next w k hfollow =>
          split at h
          · exact absurd rfl h
          · next hw =>
              refine ⟨v, n, lo, hi, w, k, hlead, hfollow, hw, ?_⟩
              rw [if_neg hw]
      · exact absurd rfl h

/-- A character that is not the replacement was read from its own encoding. -/
theorem next_sound {b : UInt8} {bs : List UInt8} (h : (next b bs).1 ≠ replacement) :
    ∃ c more r, bs = more ++ r ∧ next b bs = (c, more.length) ∧
      String.utf8EncodeChar c = b :: more := by
  obtain ⟨v, n, lo, hi, w, k, hlead, hfollow, hw, hnext⟩ := next_some h
  rw [hnext]
  have hshape := lead_some hlead
  clear hlead
  rcases hshape with ⟨rfl, hb, hv⟩ | ⟨rfl, hb1, hb2, hv, hlo, hhi⟩ |
    ⟨rfl, hb1, hb2, hv, hlo, hlo', hhi⟩ | ⟨rfl, hb1, hb2, hv, hlo, hlo', hhi, hhi'⟩
  · simp only [follow, Prod.mk.injEq, Option.some.injEq] at hfollow
    obtain ⟨rfl, rfl⟩ := hfollow
    refine ⟨_, [], bs, rfl, rfl, ?_⟩
    rw [utf8EncodeChar_ofNat (by omega), if_pos (by omega), byte_eq (b := b) (by omega)]
  · obtain ⟨b1, r, rfl, h1, h1', hfollow⟩ := follow_some hfollow
    simp only [follow, Prod.mk.injEq, Option.some.injEq] at hfollow
    obtain ⟨rfl, rfl⟩ := hfollow
    refine ⟨_, [b1], r, rfl, rfl, ?_⟩
    rw [utf8EncodeChar_ofNat (by omega), if_neg (by omega), if_pos (by omega),
      byte_eq (b := b) (by omega), byte_eq (b := b1) (by omega)]
  · obtain ⟨b1, r1, rfl, h1, h1', hfollow⟩ := follow_some hfollow
    obtain ⟨b2, r, rfl, h2, h2', hfollow⟩ := follow_some hfollow
    simp only [follow, Prod.mk.injEq, Option.some.injEq] at hfollow
    obtain ⟨rfl, rfl⟩ := hfollow
    refine ⟨_, [b1, b2], r, rfl, rfl, ?_⟩
    rw [utf8EncodeChar_ofNat (by omega), if_neg (by omega), if_neg (by omega), if_pos (by omega),
      byte_eq (b := b) (by omega), byte_eq (b := b1) (by omega), byte_eq (b := b2) (by omega)]
  · obtain ⟨b1, r1, rfl, h1, h1', hfollow⟩ := follow_some hfollow
    obtain ⟨b2, r2, rfl, h2, h2', hfollow⟩ := follow_some hfollow
    obtain ⟨b3, r, rfl, h3, h3', hfollow⟩ := follow_some hfollow
    simp only [follow, Prod.mk.injEq, Option.some.injEq] at hfollow
    obtain ⟨rfl, rfl⟩ := hfollow
    refine ⟨_, [b1, b2, b3], r, rfl, rfl, ?_⟩
    rw [utf8EncodeChar_ofNat (by omega), if_neg (by omega), if_neg (by omega), if_neg (by omega),
      byte_eq (b := b) (by omega), byte_eq (b := b1) (by omega), byte_eq (b := b2) (by omega),
      byte_eq (b := b3) (by omega)]

/-- A decoding without U+FFFD came from the encoding of its result. -/
theorem encode_decode (bs : List UInt8) (h : replacement ∉ decode bs) :
    encode (decode bs) = bs := by
  -- by length: a step of the decoder takes a whole character
  induction hlen : bs.length using Nat.strongRecOn generalizing bs with
  | ind len ih =>
      cases bs with
      | nil => rfl
      | cons b bs =>
          have hcons : decode (b :: bs) = (next b bs).1 :: decodeFrom (next b bs).2 bs := rfl
          rw [hcons, List.mem_cons, not_or] at h
          obtain ⟨c, more, r, rfl, hnext, hencode⟩ := next_sound (Ne.symm h.1)
          rw [hnext, decodeFrom_append] at hcons h
          have hr : encode (decode r) = r := by
            refine ih r.length ?_ r h.2 rfl
            rw [← hlen, List.length_cons, List.length_append]
            omega
          rw [hcons]
          show String.utf8EncodeChar c ++ encode (decode r) = b :: (more ++ r)
          rw [hencode, hr]
          rfl

/-! ## Decoding a cut encoding -/

theorem follow_cut {n lo hi v taken w : Nat} {xs ys : List UInt8} (hys : ys ≠ [])
    (h : follow n lo hi v taken (xs ++ ys) = (some w, taken + (xs ++ ys).length)) :
    follow n lo hi v taken xs = (none, taken + xs.length) := by
  have hpos := List.length_pos_of_ne_nil hys
  induction xs generalizing n lo hi v taken with
  | nil =>
      cases n with
      | zero =>
          simp only [follow, Prod.mk.injEq, List.nil_append] at h
          omega
      | succ n => rfl
  | cons x xs ih =>
      cases n with
      | zero =>
          simp only [follow, Prod.mk.injEq, List.cons_append, List.length_cons] at h
          omega
      | succ n =>
          obtain ⟨b, r, hbr, h1, h2, hfollow⟩ := follow_some h
          obtain ⟨rfl, rfl⟩ := List.cons.inj hbr
          have hlen : taken + (x :: xs ++ ys).length = taken + 1 + (xs ++ ys).length := by
            rw [List.cons_append, List.length_cons]
            omega
          rw [hlen] at hfollow
          rw [follow_cons h1 h2, ih hfollow, List.length_cons]
          congr 1
          omega

theorem next_cut {b : UInt8} {xs ys : List UInt8} {c : Char} (hc : c ≠ replacement) (hys : ys ≠ [])
    (h : next b (xs ++ ys) = (c, (xs ++ ys).length)) : next b xs = (replacement, xs.length) := by
  have hsound : (next b (xs ++ ys)).1 ≠ replacement := by
    rw [h]
    exact hc
  obtain ⟨v, n, lo, hi, w, k, hlead, hfollow, _, hnext⟩ := next_some hsound
  have hk : k = 0 + (xs ++ ys).length := by
    rw [h] at hnext
    rw [Nat.zero_add]
    exact (Prod.mk.inj hnext).2.symm
  rw [hk] at hfollow
  have hcut := follow_cut hys hfollow
  unfold next
  simp only [hlead, hcut, Nat.zero_add]

/-- The encoding of U+FFFD itself, cut. -/
theorem next_cut_replacement {b : UInt8} {xs ys : List UInt8} (hys : ys ≠ [])
    (h : String.utf8EncodeChar replacement = b :: (xs ++ ys)) :
    next b xs = (replacement, xs.length) := by
  have hbytes : String.utf8EncodeChar replacement = [0xEF, 0xBF, 0xBD] := by decide
  rw [hbytes] at h
  obtain ⟨rfl, hrest⟩ := List.cons.inj h
  match xs with
  | [] => decide
  | [x] =>
      obtain ⟨rfl, -⟩ := List.cons.inj hrest
      decide
  | x :: y :: xs =>
      have hlen := congrArg List.length hrest
      have hpos := List.length_pos_of_ne_nil hys
      simp only [List.length_cons, List.length_append, List.length_nil] at hlen
      omega

/-- A cut encoding decodes to a cut text, with at most one U+FFFD in place of the next character. -/
theorem decode_of_prefix {s : List Char} {pre : List UInt8} (h : pre <+: encode s) : ∃ k,
    pre = encode (s.take k) ∧ decode pre = s.take k ∨
      decode pre = s.take k ++ [replacement] ∧ k < s.length := by
  induction s generalizing pre with
  | nil =>
      have hnil : pre = [] := List.prefix_nil.mp h
      exact ⟨0, .inl ⟨hnil, by rw [hnil]; rfl⟩⟩
  | cons c s ih =>
      obtain ⟨b, bs, hencode, hnext⟩ := next_encodeChar c []
      have hsplit : encode (c :: s) = (b :: bs) ++ encode s := by
        rw [← hencode]
        rfl
      rw [List.append_nil] at hnext
      obtain ⟨t, ht⟩ := h
      rw [hsplit] at ht
      rcases List.append_eq_append_iff.mp ht with ⟨cut, hcut, _⟩ | ⟨more, rfl, hmore⟩
      · -- the bytes end within those of `c`, or with them
        cases pre with
        | nil => exact ⟨0, .inl ⟨rfl, rfl⟩⟩
        | cons b' pre =>
            rw [List.cons_append] at hcut
            obtain ⟨rfl, rfl⟩ := List.cons.inj hcut
            have hdecode : decode (b :: pre) = (next b pre).1 :: decodeFrom (next b pre).2 pre :=
              rfl
            have hrest : decodeFrom pre.length pre = [] := by
              have hnil := decodeFrom_append pre []
              rw [List.append_nil] at hnil
              exact hnil
            by_cases hnone : cut = []
            · rw [hnone, List.append_nil] at hnext hencode
              rw [hnext, hrest] at hdecode
              refine ⟨1, .inl ⟨?_, hdecode⟩⟩
              rw [← hencode]
              exact (List.append_nil _).symm
            · have hcutNext : next b pre = (replacement, pre.length) := by
                by_cases hc : c = replacement
                · exact next_cut_replacement hnone (hc ▸ hencode)
                · exact next_cut hc hnone hnext
              rw [hcutNext, hrest] at hdecode
              exact ⟨0, .inr ⟨hdecode, Nat.succ_pos _⟩⟩
      · have hdecode : decode (b :: bs ++ more) = c :: decode more := by
          rw [← hencode]
          exact decode_encodeChar_append c more
        obtain ⟨k, hk⟩ := ih ⟨t, hmore.symm⟩
        refine ⟨k + 1, ?_⟩
        rw [hdecode]
        rcases hk with ⟨hpre, hk⟩ | ⟨hk, hlt⟩
        · refine .inl ⟨?_, by rw [hk]; rfl⟩
          rw [← hencode, hpre]
          rfl
        · exact .inr ⟨by rw [hk]; rfl, Nat.succ_lt_succ hlt⟩

/-! ## ASCII characters -/

/-- A character that is written as one byte, its code. -/
def isAscii (c : Char) : Bool := decide (c.toNat < 128)

theorem encodeChar_ascii {c : Char} (h : isAscii c = true) :
    String.utf8EncodeChar c = [UInt8.ofNat c.toNat] := by
  have hle : c.val.toNat ≤ 127 := Nat.le_of_lt_succ (of_decide_eq_true h)
  unfold String.utf8EncodeChar
  exact if_pos hle

/-- The bytes of every other character are from 128 on. -/
theorem encodeChar_high {c : Char} (h : isAscii c = false) :
    ∀ b ∈ String.utf8EncodeChar c, 128 ≤ b.toNat := by
  have hge : ¬ c.toNat < 128 := of_decide_eq_false h
  have hval : ¬ c.val.toNat ≤ 127 := fun hle => hge (Nat.lt_succ_of_le hle)
  intro b hb
  unfold String.utf8EncodeChar at hb
  simp only [if_neg hval] at hb
  split at hb
  · simp only [List.mem_cons, List.not_mem_nil, or_false] at hb
    rcases hb with rfl | rfl <;> rw [toNat_ofNat _ (by omega)] <;> omega
  · split at hb
    · simp only [List.mem_cons, List.not_mem_nil, or_false] at hb
      rcases hb with rfl | rfl | rfl <;> rw [toNat_ofNat _ (by omega)] <;> omega
    · simp only [List.mem_cons, List.not_mem_nil, or_false] at hb
      rcases hb with rfl | rfl | rfl | rfl <;> rw [toNat_ofNat _ (by omega)] <;> omega

/-- Before an ASCII byte stand the bytes of whole characters. -/
theorem encode_before_ascii {s : List Char} {a r : List UInt8} {b : UInt8}
    (h : encode s = a ++ b :: r) (hb : b.toNat < 128) : ∃ k, a = encode (s.take k) := by
  induction s generalizing a with
  | nil => exact absurd h.symm (List.append_ne_nil_of_right_ne_nil a (List.cons_ne_nil b r))
  | cons c s ih =>
      have hcons : encode (c :: s) = String.utf8EncodeChar c ++ encode s := rfl
      rw [hcons] at h
      rcases List.append_eq_append_iff.mp h with ⟨a', ha, hrest⟩ | ⟨mid, hchar, hrest⟩
      · -- the character ends before the byte
        obtain ⟨k, hk⟩ := ih hrest
        refine ⟨k + 1, ?_⟩
        rw [ha, hk]
        rfl
      · cases mid with
        | nil =>
            rw [List.append_nil] at hchar
            refine ⟨1, ?_⟩
            rw [← hchar, List.take_succ_cons, List.take_zero]
            exact (List.append_nil _).symm
        | cons x mid =>
            -- the byte belongs to the character, so it is the whole of it
            obtain ⟨rfl, -⟩ := List.cons.inj hrest
            have hmem : b ∈ String.utf8EncodeChar c :=
              hchar ▸ List.mem_append_right _ List.mem_cons_self
            cases hascii : isAscii c with
            | false =>
                have hge := encodeChar_high hascii b hmem
                omega
            | true =>
                rw [encodeChar_ascii hascii] at hchar
                have hlen := congrArg List.length hchar
                simp only [List.length_append, List.length_cons, List.length_nil] at hlen
                exact ⟨0, List.length_eq_zero_iff.mp (by omega)⟩

end CypherConnect.Utf8
