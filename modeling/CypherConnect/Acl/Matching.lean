/-
  Matching an address against a subnet: `Subnet.toImmutable` and `Subnet.Immutable.matches`.

  Both mask a byte, one once and for all, the other on the address that is matched, with a mask that
  is a negative `Int`. Reads and writes outside of an array are `none`.

  * `bit_immutableOf`: the bits of the prefix are kept, the others are cleared.
  * `matchesFrom_eq`: the loop invariant, that the bytes before the current one are the same.
  * `subnet_matching`: matching is equality of the prefix, and matching a subnet is inclusion.
-/
import CypherConnect.Acl.Subnet

namespace CypherConnect.Subnet

/-- `(x.toInt() and -(1 shl shift)).toByte()`; `toInt` keeps the sign of the byte. -/
def maskByte (x : UInt8) (shift : Nat) : UInt8 :=
  UInt8.ofBitVec ((x.toBitVec.signExtend 32 &&& -(1#32 <<< shift)).truncate 8)

/-- `Subnet.Immutable`. -/
structure Immutable where
  a : List UInt8
  prefixSize : Nat
  deriving DecidableEq, Repr

/-- `while (i < it.size) it[i++] = 0`. -/
def clearFrom (it : List UInt8) (i : Nat) : List UInt8 :=
  if i < it.length then clearFrom (it.set i 0) (i + 1) else it
termination_by it.length - i
decreasing_by
  rw [List.length_set]
  omega

/-- `Subnet.toImmutable`, on the bytes of the address. -/
def immutableOf (address : List UInt8) (prefixSize : Nat) : Option Immutable :=
  let i := prefixSize / 8
  if 0 < prefixSize % 8 then
    address[i]?.map fun x =>
      ⟨clearFrom (address.set i (maskByte x (i * 8 + 8 - prefixSize))) (i + 1), prefixSize⟩
  else some ⟨clearFrom address i, prefixSize⟩

namespace Immutable

/-- The loop of `matches` and the comparison behind it. -/
def matchesFrom (this : Immutable) (b : List UInt8) (i : Nat) : Option Bool :=
  if i * 8 < this.prefixSize ∧ i * 8 + 8 ≤ this.prefixSize then do
    let x ← this.a[i]?
    let y ← b[i]?
    if x != y then some false else matchesFrom this b (i + 1)
  else if i * 8 = this.prefixSize then some true
  else do
    let x ← this.a[i]?
    let y ← b[i]?
    some (x == maskByte y (i * 8 + 8 - this.prefixSize))
termination_by this.prefixSize - i * 8

/-- `matches(b: ByteArray)`. -/
def matchesBytes (this : Immutable) (b : List UInt8) : Option Bool :=
  if this.a.length ≠ b.length then some false else this.matchesFrom b 0

/-- `matches(b: Immutable)`. -/
def matchesSubnet (this b : Immutable) : Option Bool := this.matchesBytes b.a

end Immutable

/-! ## Bits -/

/-- The bits of an address, the most significant bit of the first byte first. -/
def bit (a : List UInt8) (j : Nat) : Bool := (a[j / 8]?.getD 0).toBitVec.getMsbD (j % 8)

/-- The first `p` bits coincide. -/
def SamePrefix (p : Nat) (a b : List UInt8) : Prop := ∀ j < p, bit a j = bit b j

instance (p : Nat) (a b : List UInt8) : Decidable (SamePrefix p a b) := Nat.decidableBallLT p _

theorem getMsbD_maskByte (x : UInt8) {shift j : Nat} (hshift : shift < 8) (hj : j < 8) :
    (maskByte x shift).toBitVec.getMsbD j = (decide (j + shift < 8) && x.toBitVec.getMsbD j) := by
  have hmask : ∀ k < 8, ∀ i < 8, (-(1#32 <<< k)).getLsbD i = decide (k ≤ i) := by decide
  have hside : decide (shift ≤ 7 - j) = decide (j + shift < 8) := decide_eq_decide.mpr (by omega)
  have hbit : (x.toBitVec.signExtend 32).getLsbD (7 - j) = x.toBitVec.getLsbD (7 - j) := by
    rw [BitVec.getLsbD_signExtend, if_pos (by omega), decide_eq_true (by omega), Bool.true_and]
  show (UInt8.ofBitVec _).toBitVec.getMsbD j = _
  rw [UInt8.toBitVec_ofBitVec, BitVec.getMsbD, BitVec.getMsbD, BitVec.truncate_eq_setWidth,
    BitVec.getLsbD_setWidth, BitVec.getLsbD_and, hmask shift hshift (8 - 1 - j) (by omega),
    decide_eq_true hj, decide_eq_true (show 8 - 1 - j < 8 by omega), Bool.true_and, Bool.true_and,
    hbit, hside, Bool.true_and, Bool.and_comm]

theorem eq_iff_bits {x y : UInt8} :
    x = y ↔ ∀ j < 8, x.toBitVec.getMsbD j = y.toBitVec.getMsbD j := by
  constructor
  · rintro rfl j _
    rfl
  · intro h
    exact UInt8.toBitVec_inj.mp (BitVec.eq_of_getMsbD_eq h)

variable {a b c : List UInt8} {p q i : Nat}

/-- The bits of the byte at `i`. -/
theorem bit_of_getElem? {x : UInt8} (h : a[i]? = some x) {j : Nat} (hj : j < 8) :
    bit a (8 * i + j) = x.toBitVec.getMsbD j := by
  have hdiv : (8 * i + j) / 8 = i := by omega
  have hmod : (8 * i + j) % 8 = j := by omega
  unfold bit
  rw [hdiv, hmod, h]
  rfl

theorem samePrefix_succ {x y : UInt8} (ha : a[i]? = some x) (hb : b[i]? = some y)
    (h : SamePrefix (8 * i) a b) {k : Nat} (hk : k ≤ 8) :
    SamePrefix (8 * i + k) a b ↔ ∀ j < k, x.toBitVec.getMsbD j = y.toBitVec.getMsbD j := by
  constructor
  · intro hsame j hj
    have hbit := hsame (8 * i + j) (by omega)
    rw [bit_of_getElem? ha (by omega), bit_of_getElem? hb (by omega)] at hbit
    exact hbit
  · intro hbits j hj
    by_cases hbefore : j < 8 * i
    · exact h j hbefore
    · obtain ⟨d, rfl⟩ : ∃ d, j = 8 * i + d := ⟨j - 8 * i, by omega⟩
      rw [bit_of_getElem? ha (by omega), bit_of_getElem? hb (by omega)]
      exact hbits d (by omega)

/-! ## Masking an address -/

theorem length_clearFrom (it : List UInt8) (i : Nat) : (clearFrom it i).length = it.length := by
  fun_induction clearFrom it i with
  | case1 it i h ih => rw [ih, List.length_set]
  | case2 it i h => rfl

theorem getElem?_clearFrom (it : List UInt8) (i j : Nat) :
    (clearFrom it i)[j]? = if j < i then it[j]? else it[j]?.map fun _ => 0 := by
  fun_induction clearFrom it i with
  | case1 it i h ih =>
      rw [ih, List.getElem?_set]
      rcases Nat.lt_trichotomy j i with hlt | rfl | hgt
      · rw [if_pos (by omega), if_neg (by omega), if_pos hlt]
      · rw [if_pos (by omega), if_pos rfl, if_pos h, if_neg (Nat.lt_irrefl _),
          List.getElem?_eq_getElem h]
        rfl
      · rw [if_neg (by omega), if_neg (by omega), if_neg (by omega)]
  | case2 it i h =>
      split
      · rfl
      · rw [List.getElem?_eq_none (by omega)]
        rfl

/-- The bits of a cleared address. -/
theorem bit_clearFrom (it : List UInt8) (i j : Nat) :
    bit (clearFrom it i) j = (decide (j < 8 * i) && bit it j) := by
  have hzero : (0 : UInt8).toBitVec.getMsbD (j % 8) = false := BitVec.getMsbD_zero
  unfold bit
  rw [getElem?_clearFrom]
  by_cases h : j < 8 * i
  · rw [if_pos (by omega), decide_eq_true h, Bool.true_and]
  · rw [if_neg (by omega), decide_eq_false h, Bool.false_and]
    cases it[j / 8]? with
    | none => exact hzero
    | some x => exact hzero

theorem bit_set {x : UInt8} (hi : i < a.length) (j : Nat) :
    bit (a.set i x) j = if j / 8 = i then x.toBitVec.getMsbD (j % 8) else bit a j := by
  unfold bit
  rw [List.getElem?_set]
  by_cases h : i = j / 8
  · rw [if_pos h, if_pos h.symm, if_pos hi]
    rfl
  · rw [if_neg h, if_neg fun heq => h heq.symm]

/-- The bits of the prefix are kept and the others are cleared. -/
theorem bit_immutableOf (hp : p ≤ 8 * a.length) : ∃ im, immutableOf a p = some im ∧
    im.prefixSize = p ∧ im.a.length = a.length ∧ ∀ j, bit im.a j = (decide (j < p) && bit a j) := by
  unfold immutableOf
  dsimp only
  split
  · next hrem =>
      have hi : p / 8 < a.length := by omega
      rw [List.getElem?_eq_getElem hi]
      refine ⟨_, rfl, rfl, ?_, fun j => ?_⟩
      · show (clearFrom _ _).length = _
        rw [length_clearFrom, List.length_set]
      · show bit (clearFrom _ _) j = _
        rw [bit_clearFrom, bit_set hi]
        split
        · next hbyte =>
            -- the byte that the prefix ends in
            have hj : j = 8 * (p / 8) + j % 8 := by omega
            have hbit : bit a j = a[p / 8].toBitVec.getMsbD (j % 8) := by
              conv_lhs => rw [hj]
              exact bit_of_getElem? (List.getElem?_eq_getElem hi) (by omega)
            rw [getMsbD_maskByte _ (by omega) (by omega), hbit, decide_eq_true (by omega),
              Bool.true_and]
            congr 1
            exact decide_eq_decide.mpr (by omega)
        · congr 1
          exact decide_eq_decide.mpr (by omega)
  · refine ⟨_, rfl, rfl, length_clearFrom _ _, fun j => ?_⟩
    show bit (clearFrom _ _) j = _
    rw [bit_clearFrom]
    congr 1
    exact decide_eq_decide.mpr (by omega)

/-! ## Matching -/

/-- A byte that is cleared behind its first bits is a masked byte exactly if it has the same first
bits. -/
theorem eq_maskByte_iff {x y : UInt8} {k : Nat} (hpos : 0 < k) (hk : k < 8)
    (hcleared : ∀ j, k ≤ j → j < 8 → x.toBitVec.getMsbD j = false) :
    x = maskByte y (8 - k) ↔ ∀ j < k, x.toBitVec.getMsbD j = y.toBitVec.getMsbD j := by
  rw [eq_iff_bits]
  constructor
  · intro h j hj
    have hbit := h j (by omega)
    rw [getMsbD_maskByte _ (by omega) (by omega), decide_eq_true (by omega), Bool.true_and] at hbit
    exact hbit
  · intro h j hj
    rw [getMsbD_maskByte _ (by omega) hj]
    by_cases hjk : j < k
    · rw [decide_eq_true (by omega), Bool.true_and]
      exact h j hjk
    · rw [decide_eq_false (by omega), Bool.false_and]
      exact hcleared j (by omega) hj

/-- The last byte, of which fewer than eight bits count and the others are cleared. -/
theorem eq_maskByte_last_iff {im : Immutable} {x y : UInt8}
    (hclear : ∀ j, im.prefixSize ≤ j → bit im.a j = false) (ha : im.a[i]? = some x)
    (hb : b[i]? = some y) (hlow : 8 * i < im.prefixSize) (hhigh : im.prefixSize < 8 * (i + 1))
    (hsame : SamePrefix (8 * i) im.a b) :
    x = maskByte y (i * 8 + 8 - im.prefixSize) ↔ SamePrefix im.prefixSize im.a b := by
  obtain ⟨k, hk, hsplit⟩ : ∃ k, k < 8 ∧ im.prefixSize = 8 * i + k :=
    ⟨im.prefixSize - 8 * i, by omega, by omega⟩
  have hcleared : ∀ j, k ≤ j → j < 8 → x.toBitVec.getMsbD j = false := by
    intro j hkj hj
    have hbit := hclear (8 * i + j) (by omega)
    rwa [bit_of_getElem? ha hj] at hbit
  rw [show i * 8 + 8 - im.prefixSize =
    8 - k by omega, eq_maskByte_iff (by omega) hk hcleared, hsplit]
  exact (samePrefix_succ ha hb hsame (k := k) (by omega)).symm

/-- The loop, from a byte before which the addresses are the same. -/
theorem matchesFrom_eq {im : Immutable} (hsize : im.prefixSize ≤ 8 * im.a.length)
    (hlen : im.a.length = b.length) (hclear : ∀ j, im.prefixSize ≤ j → bit im.a j = false)
    (hi : 8 * i ≤ im.prefixSize) (hsame : SamePrefix (8 * i) im.a b) :
    im.matchesFrom b i = some (decide (SamePrefix im.prefixSize im.a b)) := by
  induction hn : im.prefixSize - 8 * i using Nat.strong_induction_on generalizing i with
  | _ n ih =>
      rw [Immutable.matchesFrom.eq_def]
      split
      · next hfull =>
          have ha : im.a[i]? = some im.a[i] := List.getElem?_eq_getElem (by omega)
          have hb : b[i]? = some b[i] := List.getElem?_eq_getElem (by omega)
          have hnext := samePrefix_succ ha hb hsame (k := 8) (Nat.le_refl 8)
          rw [← eq_iff_bits] at hnext
          rw [ha, hb]
          simp only [Option.bind_eq_bind, Option.bind_some]
          split
          · next hne =>
              have hdiffer : ¬ SamePrefix im.prefixSize im.a b := by
                intro hall
                refine bne_iff_ne.mp hne (hnext.mp fun j hj => hall j ?_)
                omega
              rw [decide_eq_false hdiffer]
          · next heq =>
              have hbyte : im.a[i] = b[i] := by
                rw [bne_iff_ne, not_not] at heq
                exact heq
              exact ih (im.prefixSize - 8 * (i + 1)) (by omega) (by omega) (hnext.mpr hbyte) rfl
      · next hpart =>
          split
          · next hend =>
              have hall : SamePrefix im.prefixSize im.a b := by
                rw [← hend, Nat.mul_comm]
                exact hsame
              rw [decide_eq_true hall]
          · next hrest =>
              have hin : i < im.a.length := by omega
              have ha : im.a[i]? = some im.a[i] := List.getElem?_eq_getElem hin
              have hb : b[i]? = some b[i] := List.getElem?_eq_getElem (by omega)
              have hlast := eq_maskByte_last_iff hclear ha hb (by omega) (by omega) hsame
              rw [ha, hb]
              simp only [Option.bind_eq_bind, Option.bind_some, Option.some.injEq]
              rw [Bool.eq_iff_iff, beq_iff_eq, decide_eq_true_iff, hlast]

/-- Matching is equality of the prefix. -/
theorem matchesBytes_eq {im : Immutable} (hp : p ≤ 8 * a.length) (hsize : im.prefixSize = p)
    (hlen : im.a.length = a.length) (hbits : ∀ j, bit im.a j = (decide (j < p) && bit a j))
    (b : List UInt8) :
    im.matchesBytes b = some (decide (b.length = a.length ∧ SamePrefix p a b)) := by
  unfold Immutable.matchesBytes
  split
  · next hne =>
      rw [decide_eq_false fun h => hne (hlen.trans h.1.symm)]
  · next heq =>
      rw [not_not] at heq
      have hclear : ∀ j, im.prefixSize ≤ j → bit im.a j = false := by
        intro j hj
        rw [hbits, decide_eq_false (by omega), Bool.false_and]
      have hsame : SamePrefix p im.a b ↔ SamePrefix p a b := by
        refine forall₂_congr fun j hj => ?_
        rw [hbits, decide_eq_true hj, Bool.true_and]
      rw [matchesFrom_eq (by omega) heq hclear (by omega) (fun j hj => by omega), hsize,
        Option.some.injEq, decide_eq_decide, hsame]
      exact ⟨fun h => ⟨heq.symm.trans hlen, h⟩, And.right⟩

/-- A subnet matches an address of its length with the same prefix and no other array, and it
matches a smaller subnet exactly if it matches all its addresses; no index is out of range. -/
theorem subnet_matching (a : List UInt8) (p : Nat) (hp : p ≤ 8 * a.length) :
    ∃ first, immutableOf a p = some first ∧
      (∀ b, ∃ r, first.matchesBytes b = some r ∧
        (r = true ↔ b.length = a.length ∧ SamePrefix p a b)) ∧
      ∀ c q, c.length = a.length → p ≤ q → q ≤ 8 * c.length → ∃ second r,
        immutableOf c q = some second ∧ first.matchesSubnet second = some r ∧
          (r = true ↔ ∀ b, second.matchesBytes b = some true →
            first.matchesBytes b = some true) := by
  obtain ⟨first, hfirst, hsize, hlen, hbits⟩ := bit_immutableOf hp
  have hmatch := matchesBytes_eq hp hsize hlen hbits
  refine ⟨first, hfirst, fun b => ⟨_, hmatch b, decide_eq_true_iff⟩, ?_⟩
  intro c q hc hpq hq
  obtain ⟨second, hsecond, hsize', hlen', hbits'⟩ := bit_immutableOf hq
  have hmatch' := matchesBytes_eq hq hsize' hlen' hbits'
  refine ⟨second, _, hsecond, hmatch second.a, ?_⟩
  rw [decide_eq_true_iff]
  constructor
  · rintro ⟨-, hsame⟩ b hb
    rw [hmatch', Option.some.injEq, decide_eq_true_iff] at hb
    rw [hmatch, Option.some.injEq, decide_eq_true_iff]
    refine ⟨hb.1.trans hc, fun j hj => ?_⟩
    rw [hsame j hj, hbits', decide_eq_true (by omega), Bool.true_and, hb.2 j (by omega)]
  · -- the masked address of the second subnet is one of its addresses
    intro h
    have hself : second.matchesBytes second.a = some true := by
      rw [hmatch', Option.some.injEq, decide_eq_true_iff]
      refine ⟨hlen', fun j hj => ?_⟩
      rw [hbits', decide_eq_true hj, Bool.true_and]
    have hfirst' := h _ hself
    rw [hmatch, Option.some.injEq, decide_eq_true_iff] at hfirst'
    exact hfirst'

theorem subnet_matching_25 : ∃ first, immutableOf [1, 10, 11, 12] 25 = some first ∧
    first.matchesBytes [1, 10, 11, 13] = some true ∧
      first.matchesBytes [1, 10, 11, 212] = some false := by
  obtain ⟨first, hfirst, hbytes, -⟩ := subnet_matching [1, 10, 11, 12] 25 (by decide)
  refine ⟨first, hfirst, ?_, ?_⟩
  · obtain ⟨r, hr, hiff⟩ := hbytes [1, 10, 11, 13]
    rw [hr, hiff.mpr (by decide)]
  · obtain ⟨r, hr, hiff⟩ := hbytes [1, 10, 11, 212]
    have hfalse : r = false := Bool.eq_false_iff.mpr fun h => absurd (hiff.mp h) (by decide)
    rw [hr, hfalse]

end CypherConnect.Subnet
