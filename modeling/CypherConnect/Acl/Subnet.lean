/-
  `net/Subnet.kt`, and the comparators of `utils/Sorters.kt` and `acl/Acl.kt`.

  * `compareTo_eq`: the order of subnets is the lexicographic order of their length, bytes and
    prefix size, so it is total and only equal subnets tie.
  * `fromString_toString`: the text of a subnet that was read is read as that subnet.
-/
import CypherConnect.Lib.Sorted
import CypherConnect.Lib.Utf16
import CypherConnect.Platform.JavaNet
import CypherConnect.Database.Profile

namespace CypherConnect

open Sorted

/-- `Subnet`; the constructor requires that the prefix is not longer than the address. -/
structure Subnet where
  address : InetAddress
  prefixSize : Nat
  prefixSize_le : prefixSize ≤ 8 * address.bytes.length
  deriving DecidableEq, Repr

namespace Subnet

variable (N : JavaNet)

/-- `String.toInt`; `none` is a `NumberFormatException`. -/
def toInt (t : Text) : Option Int := JavaInteger.parseInt 10 N.digit t

/-- `addressLength`. -/
def addressLength (address : InetAddress) : Nat := 8 * address.bytes.length

/-- `Subnet.fromString`, as it is called: without a `lengthCheck`. -/
def fromString (value : Text) : Option Subnet :=
  match N.parseNumericAddress (value.takeWhile (· != '/')) with
  | none => none
  | some addr =>
      match value.dropWhile (· != '/') with
      | [] => some ⟨addr, 8 * addr.bytes.length, Nat.le_refl _⟩
      | _ :: part =>
          match toInt N part with
          | none => none
          | some prefixSize =>
              if h : 0 ≤ prefixSize ∧ prefixSize ≤ 8 * addr.bytes.length then
                some ⟨addr, prefixSize.toNat, by omega⟩
              else none

def toString (s : Subnet) : Text :=
  if s.prefixSize = addressLength s.address then N.hostAddress s.address
  else N.hostAddress s.address ++ '/' :: JavaUri.decimal s.prefixSize

/-- The loop of `compareTo`, on addresses of one length; bytes are compared without sign. -/
def compareBytes : List UInt8 → List UInt8 → Ordering
  | a :: this, b :: that => (compare a.toNat b.toNat).then (compareBytes this that)
  | _, _ => .eq

def compareTo (this other : Subnet) : Ordering :=
  ((compare this.address.bytes.length other.address.bytes.length).then
    (compareBytes this.address.bytes other.address.bytes)).then
    (compare this.prefixSize other.prefixSize)

def equals (this other : Subnet) : Bool :=
  this.address == other.address && this.prefixSize == other.prefixSize

/-! ## The order -/

/-- What a subnet is compared by. -/
def sortKey (s : Subnet) : List Nat :=
  s.address.bytes.length :: (s.address.bytes.map UInt8.toNat ++ [s.prefixSize])

theorem compareLex_bytes {this that : List UInt8} (hlen : this.length = that.length) (p q : Nat) :
    List.compareLex compare (this.map UInt8.toNat ++ [p]) (that.map UInt8.toNat ++ [q]) =
      (compareBytes this that).then (compare p q) := by
  induction this generalizing that with
  | nil =>
      obtain rfl : that = [] := List.length_eq_zero_iff.mp hlen.symm
      show List.compareLex compare [p] [q] = compare p q
      rw [List.compareLex_cons_cons, List.compareLex_nil_nil, Ordering.then_eq]
  | cons a this ih =>
      match that, hlen with
      | b :: that, hlen =>
          have htail := ih (Nat.succ.inj hlen)
          rw [List.map_cons, List.map_cons, List.cons_append, List.cons_append,
            List.compareLex_cons_cons, htail]
          exact (Ordering.then_assoc _ _ _).symm

theorem compareTo_eq (a b : Subnet) :
    compareTo a b = List.compareLex compare (sortKey a) (sortKey b) := by
  unfold compareTo sortKey
  rw [Ordering.then_assoc, List.compareLex_cons_cons]
  cases hlen : compare a.address.bytes.length b.address.bytes.length with
  | lt => rfl
  | gt => rfl
  | eq =>
      rw [compareLex_bytes (Nat.compare_eq_eq.mp hlen)]

theorem sortKey_injective {a b : Subnet} (h : sortKey a = sortKey b) : a = b := by
  obtain ⟨⟨bytes, hsize⟩, p, hp⟩ := a
  obtain ⟨⟨bytes', hsize'⟩, p', hp'⟩ := b
  have htail : bytes.map UInt8.toNat ++ [p] = bytes'.map UInt8.toNat ++ [p'] := (List.cons.inj h).2
  obtain ⟨hbytes, hprefix⟩ := List.append_inj' htail rfl
  obtain rfl : bytes = bytes' := List.map_injective_iff.mpr (fun _ _ => UInt8.toNat_inj.mp) hbytes
  obtain rfl : p = p' := (List.cons.inj hprefix).1
  rfl

instance : Std.TransCmp compareTo := by
  have heq : compareTo = fun a b => List.compareLex compare (sortKey a) (sortKey b) := by
    funext a b
    exact compareTo_eq a b
  rw [heq]
  exact transCmp_on (List.compareLex compare) sortKey

theorem compareTo_eq_iff {a b : Subnet} : compareTo a b = .eq ↔ a = b := by
  constructor
  · intro h
    rw [compareTo_eq] at h
    exact sortKey_injective (Std.LawfulEqCmp.eq_of_compare h)
  · rintro rfl
    exact Std.ReflCmp.compare_self

theorem equals_iff {a b : Subnet} : equals a b = true ↔ a = b := by
  obtain ⟨address, p, hp⟩ := a
  obtain ⟨address', p', hp'⟩ := b
  unfold equals
  simp only [Bool.and_eq_true, beq_iff_eq, mk.injEq]

/-! ## The text of a subnet -/

variable {N}

theorem toInt_decimal (hN : N.Documented) {n : Nat} (hn : n < 2 ^ 31) :
    toInt N (JavaUri.decimal n) = some (n : Int) := by
  unfold toInt
  rw [JavaInteger.parseInt_digits hN.digit_ascii (JavaUri.decimal_ne_nil n)
    fun c hc => JavaUri.isDigit_of_mem_decimal hc, JavaUri.natOfDigits_decimal, if_pos hn]

/-- The address of a subnet that was read has been read. -/
theorem fromString_address {value : Text} {s : Subnet} (h : fromString N value = some s) :
    ∃ t, N.parseNumericAddress t = some s.address := by
  refine ⟨value.takeWhile (· != '/'), ?_⟩
  unfold fromString at h
  split at h
  · cases h
  · next addr haddr =>
      rw [haddr]
      split at h
      · cases h
        rfl
      · split at h
        · cases h
        · split at h
          · cases h
            rfl
          · cases h

theorem prefixSize_lt (s : Subnet) : s.prefixSize < 2 ^ 31 := by
  have hle := s.prefixSize_le
  have hsize := s.address.size
  omega

/-- The text of an address has none of the characters around it. -/
theorem slash_not_mem (hN : N.Documented) {t : Text} {a : InetAddress}
    (h : N.parseNumericAddress t = some a) : '/' ∉ N.hostAddress a := by
  intro hm
  have hchar := hN.hostAddress_chars t a h '/' hm
  cases hchar

/-- A subnet that was read is read from its text. -/
theorem fromString_toString (hN : N.Documented) {value : Text} {s : Subnet}
    (h : fromString N value = some s) : fromString N (toString N s) = some s := by
  obtain ⟨t, ht⟩ := fromString_address h
  have hslash := slash_not_mem hN ht
  have hparse := hN.parse_hostAddress t s.address ht
  have hin := Scan.bne_of_not_mem hslash
  obtain ⟨address, p, hp⟩ := s
  unfold toString addressLength
  dsimp only at hslash hparse hin ⊢
  split
  · next hfull =>
      have htake : (N.hostAddress address).takeWhile (· != '/') = N.hostAddress address :=
        List.takeWhile_eq_self_iff.mpr hin
      have hdrop : (N.hostAddress address).dropWhile (· != '/') = [] :=
        List.dropWhile_eq_nil_iff.mpr hin
      unfold fromString
      simp only [htake, hdrop, hparse, hfull]
  · have hbound : (0 : Int) ≤ (p : Int) ∧ (p : Int) ≤ 8 * (address.bytes.length : Int) := by omega
    have hint := toInt_decimal hN (prefixSize_lt ⟨address, p, hp⟩)
    unfold fromString
    simp only [Scan.takeWhile_span hin Scan.bne_head, Scan.dropWhile_span hin Scan.bne_head,
      hparse, hint, dif_pos hbound, Int.toNat_natCast]

end Subnet

/-! ## Comparators -/

/-- `BaseSorter.compare`. -/
def baseCompare {α : Type} (compareNonNull : α → α → Ordering) : Option α → Option α → Ordering
  | none, none => .eq
  | none, some _ => .gt
  | some _, none => .lt
  | some o1, some o2 => compareNonNull o1 o2

/-- A `BaseSorter`, on items that are not `null`. -/
def baseSorter {α : Type} (compareNonNull : α → α → Ordering) (equals : α → α → Bool)
    (trans : Std.TransCmp compareNonNull) : Callback α where
  compare o1 o2 := baseCompare compareNonNull (some o1) (some o2)
  same := equals
  trans := trans

/-- `StringSorter`. -/
def stringSorter : Callback Text := baseSorter Utf16.compareTo (fun a b => a == b) inferInstance

/-- `SubnetSorter`. -/
def subnetSorter : Callback Subnet := baseSorter Subnet.compareTo Subnet.equals inferInstance

/-- `URLSorter.ordering`. -/
def urlOrdering (N : JavaNet) : N.Url → N.Url → Ordering :=
  compareLex (fun a b => Utf16.compareTo (N.host a) (N.host b))
    (compareLex (fun a b => compare (N.port a) (N.port b))
      (compareLex (fun a b => Utf16.compareTo (N.file a) (N.file b))
        fun a b => Utf16.compareTo (N.protocol a) (N.protocol b)))

instance (N : JavaNet) : Std.TransCmp (urlOrdering N) := by
  have hhost := transCmp_on Utf16.compareTo N.host
  have hport := transCmp_on (compare : Int → Int → Ordering) N.port
  have hfile := transCmp_on Utf16.compareTo N.file
  have hprotocol := transCmp_on Utf16.compareTo N.protocol
  unfold urlOrdering
  infer_instance

/-- `URLSorter`. -/
def urlSorter (N : JavaNet) : Callback N.Url := baseSorter (urlOrdering N) N.equals inferInstance

theorem stringSorter_exact : Exact stringSorter where
  tie := Utf16.compareTo_eq_iff
  same := beq_iff_eq

theorem subnetSorter_exact : Exact subnetSorter where
  tie := Subnet.compareTo_eq_iff
  same := Subnet.equals_iff

end CypherConnect
