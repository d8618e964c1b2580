/-
  `Integer.parseInt(text, radix)`, which Kotlin's `String.toInt(radix)` calls.

  `Character.digit` is an argument: which characters besides the ASCII digits are digits depends on
  the Unicode tables. `parseInt_digits`: on ASCII digits that does not matter.
-/
import CypherConnect.Platform.JavaUri

namespace CypherConnect.JavaInteger

/-- The value of a sequence of digits. -/
def ofDigits (radix : Nat) (ds : List Nat) : Nat := ds.foldl (fun n d => n * radix + d) 0

/-- The digits behind the sign. -/
def parseDigits (radix : Nat) (digit : Char → Option Nat) (t : List Char) : Option Nat :=
  if t.isEmpty then none else (t.mapM digit).map (ofDigits radix)

/-- `none` is a `NumberFormatException`. -/
def parseInt (radix : Nat) (digit : Char → Option Nat) (t : List Char) : Option Int :=
  match t with
  | '-' :: ds =>
      (parseDigits radix digit ds).bind fun n => if n ≤ 2 ^ 31 then some (-n : Int) else none
  | '+' :: ds =>
      (parseDigits radix digit ds).bind fun n => if n < 2 ^ 31 then some (n : Int) else none
  | ds => (parseDigits radix digit ds).bind fun n => if n < 2 ^ 31 then some (n : Int) else none

/-- `Character.digit(c, 10)` where only ASCII characters occur. -/
def asciiDigit (c : Char) : Option Nat :=
  if JavaUri.isDigit c then some (c.toNat - 48) else none

section Digits

variable {digit : Char → Option Nat}
  (hdigit : ∀ c, JavaUri.isDigit c = true → digit c = some (c.toNat - 48)) {ds : List Char}

include hdigit

theorem mapM_digit (h : ∀ c ∈ ds, JavaUri.isDigit c = true) :
    ds.mapM digit = some (ds.map fun c => c.toNat - 48) := by
  induction ds with
  | nil => rfl
  | cons c ds ih =>
      have htail := ih fun x hx => h x (List.mem_cons_of_mem _ hx)
      rw [List.mapM_cons, hdigit c (h c List.mem_cons_self), htail]
      rfl

/-- ASCII digits are read as their number, if it is an `Int`. -/
theorem parseInt_digits (hne : ds ≠ []) (h : ∀ c ∈ ds, JavaUri.isDigit c = true) :
    parseInt 10 digit ds =
      if JavaUri.natOfDigits ds < 2 ^ 31 then some (JavaUri.natOfDigits ds : Int) else none := by
  have hempty : ¬ ds.isEmpty = true := fun hnil => hne (List.isEmpty_iff.mp hnil)
  have hvalue : parseDigits 10 digit ds = some (JavaUri.natOfDigits ds) := by
    unfold parseDigits ofDigits JavaUri.natOfDigits
    rw [if_neg hempty, mapM_digit hdigit h, Option.map_some, List.foldl_map]
  unfold parseInt
  split
  · -- a digit is no sign
    cases h '-' List.mem_cons_self
  · cases h '+' List.mem_cons_self
  · rw [hvalue, Option.bind_some]

end Digits

theorem asciiDigit_eq {c : Char} (h : JavaUri.isDigit c = true) :
    asciiDigit c = some (c.toNat - 48) := if_pos h

end CypherConnect.JavaInteger
