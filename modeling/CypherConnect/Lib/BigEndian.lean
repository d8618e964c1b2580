/-
  Numbers as bytes, most significant byte first, and the fixed-width fields of a byte buffer.

  * `value_bytes`: the bytes of a number stand for it, modulo the width.
  * `bytes_value`: bytes are the bytes of their number.
  * `field_bytes`: a field that was written is read, with whatever stands behind it.
  * `signed_of_head`: a field that starts with a byte from 128 on is negative.
-/
import Mathlib.Data.Int.ModEq
import Mathlib.Data.List.Basic

namespace CypherConnect.BigEndian

/-- The last `w` bytes of a number. -/
def bytes : Nat → Nat → List UInt8
  | 0, _ => []
  | w + 1, n => UInt8.ofNat (n / 256 ^ w) :: bytes w n

def value (bs : List UInt8) : Nat := bs.foldl (fun n b => n * 256 + b.toNat) 0

/-- A number of `w` bytes as a two's complement. -/
def signed (w n : Nat) : Int := if 2 * n < 256 ^ w then n else n - (256 ^ w : Nat)

/-- The first `w` bytes and the rest; `none` if there are fewer. -/
def split (w : Nat) (bs : List UInt8) : Option (List UInt8 × List UInt8) :=
  if w ≤ bs.length then some (bs.take w, bs.drop w) else none

/-- An unsigned field of `w` bytes. -/
def field (w : Nat) (bs : List UInt8) : Option (Nat × List UInt8) :=
  (split w bs).map fun x => (value x.1, x.2)

@[simp] theorem length_bytes (w n : Nat) : (bytes w n).length = w := by
  induction w with
  | zero => rfl
  | succ w ih => exact congrArg (· + 1) ih

theorem foldl_value (bs : List UInt8) (n : Nat) :
    bs.foldl (fun n b => n * 256 + b.toNat) n = n * 256 ^ bs.length + value bs := by
  unfold value
  induction bs generalizing n with
  | nil => simp only [List.foldl_nil, List.length_nil, Nat.pow_zero, Nat.mul_one, Nat.add_zero]
  | cons b bs ih =>
      rw [List.foldl_cons, List.foldl_cons, ih, ih (0 * 256 + b.toNat), List.length_cons,
        Nat.pow_succ,
        Nat.zero_mul, Nat.zero_add, Nat.add_mul, Nat.mul_assoc, Nat.mul_comm 256, Nat.add_assoc]

theorem value_cons (b : UInt8) (bs : List UInt8) :
    value (b :: bs) = b.toNat * 256 ^ bs.length + value bs := by
  show bs.foldl _ (0 * 256 + b.toNat) = _
  rw [foldl_value, Nat.zero_mul, Nat.zero_add]

theorem value_lt (bs : List UInt8) : value bs < 256 ^ bs.length := by
  induction bs with
  | nil => exact Nat.one_pos
  | cons b bs ih =>
      have hb : (b.toNat + 1) * 256 ^ bs.length ≤ 256 * 256 ^ bs.length :=
        Nat.mul_le_mul_right _ b.toNat_lt
      rw [value_cons, List.length_cons, Nat.pow_succ']
      rw [Nat.add_mul, Nat.one_mul] at hb
      omega

theorem value_bytes (w n : Nat) : value (bytes w n) = n % 256 ^ w := by
  induction w with
  | zero => exact (Nat.mod_one n).symm
  | succ w ih =>
      have hbyte : (UInt8.ofNat (n / 256 ^ w)).toNat = n / 256 ^ w % 256 := UInt8.toNat_ofNat'
      show value (UInt8.ofNat (n / 256 ^ w) :: bytes w n) = _
      rw [value_cons, hbyte, length_bytes, ih, Nat.mod_pow_succ, Nat.add_comm, Nat.mul_comm]

/-- A number of two bytes. -/
theorem bytes_two (n : Nat) : bytes 2 n = [UInt8.ofNat (n / 256), UInt8.ofNat n] := by
  show [UInt8.ofNat (n / 256 ^ 1), UInt8.ofNat (n / 256 ^ 0)] = _
  rw [Nat.pow_one, Nat.pow_zero, Nat.div_one]

theorem value_two {n : Nat} (h : n < 65536) : value [UInt8.ofNat (n / 256), UInt8.ofNat n] = n := by
  rw [← bytes_two, value_bytes]
  exact Nat.mod_eq_of_lt h

theorem bytes_add_mul (w n k : Nat) : bytes w (k * 256 ^ w + n) = bytes w n := by
  induction w generalizing k with
  | zero => rfl
  | succ w ih =>
      have hsplit : k * 256 ^ (w + 1) + n = k * 256 * 256 ^ w + n := by
        rw [Nat.pow_succ', ← Nat.mul_assoc]
      have hdiv : (k * 256 * 256 ^ w + n) / 256 ^ w = 256 * k + n / 256 ^ w := by
        rw [Nat.mul_comm (k * 256), Nat.mul_add_div (Nat.pow_pos (by omega)), Nat.mul_comm k]
      show UInt8.ofNat ((k * 256 ^ (w + 1) + n) / 256 ^ w) :: bytes w (k * 256 ^ (w + 1) + n) = _
      rw [hsplit, ih, hdiv]
      refine congrArg (· :: bytes w n) ?_
      apply UInt8.toNat_inj.mp
      rw [UInt8.toNat_ofNat', UInt8.toNat_ofNat']
      omega

theorem bytes_value (bs : List UInt8) : bytes bs.length (value bs) = bs := by
  induction bs with
  | nil => rfl
  | cons b bs ih =>
      have hdiv : (b.toNat * 256 ^ bs.length + value bs) / 256 ^ bs.length = b.toNat := by
        rw [Nat.mul_comm, Nat.mul_add_div (Nat.pow_pos (by omega)), Nat.div_eq_of_lt (value_lt bs),
          Nat.add_zero]
      show UInt8.ofNat (value (b :: bs) / 256 ^ bs.length) :: bytes bs.length (value (b :: bs)) = _
      rw [value_cons, hdiv, bytes_add_mul, ih, UInt8.ofNat_toNat]

theorem split_append (a r : List UInt8) : split a.length (a ++ r) = some (a, r) := by
  have hle : a.length ≤ (a ++ r).length := by
    rw [List.length_append]
    omega
  unfold split
  rw [if_pos hle, List.take_left, List.drop_left]

theorem split_some {w : Nat} {bs a r : List UInt8} (h : split w bs = some (a, r)) :
    bs = a ++ r ∧ a.length = w := by
  unfold split at h
  split at h
  · next hle =>
      cases h
      exact ⟨(List.take_append_drop w bs).symm, List.length_take_of_le hle⟩
  · cases h

theorem field_bytes {w n : Nat} (h : n < 256 ^ w) (r : List UInt8) :
    field w (bytes w n ++ r) = some (n, r) := by
  have hsplit := split_append (bytes w n) r
  rw [length_bytes] at hsplit
  unfold field
  rw [hsplit, Option.map_some, value_bytes, Nat.mod_eq_of_lt h]

theorem signed_of_head {b : UInt8} {bs : List UInt8} (h : 128 ≤ b.toNat) :
    signed (bs.length + 1) (value (b :: bs)) < 0 := by
  have hlow : 128 * 256 ^ bs.length ≤ b.toNat * 256 ^ bs.length := Nat.mul_le_mul_right _ h
  have hlt := value_lt (b :: bs)
  rw [List.length_cons] at hlt
  have hbig : ¬ 2 * value (b :: bs) < 256 ^ (bs.length + 1) := by
    rw [value_cons, Nat.pow_succ]
    omega
  unfold signed
  rw [if_neg hbig]
  have hcast : ((value (b :: bs) : Nat) : Int) < ((256 ^ (bs.length + 1) : Nat) : Int) :=
    Int.ofNat_lt.mpr hlt
  omega

end CypherConnect.BigEndian
