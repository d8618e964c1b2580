/-
  Gson's `JsonElement`, as far as the import of profiles reads it.

  A number is kept as the text it was written with (`LazilyParsedNumber`); what `asInt` makes of it
  is a parameter, `Gson`, together with `Integer.parseInt`. `Gson.Documented` is what the import
  relies on, and `plainGson` a reference that meets it.
-/
import CypherConnect.Platform.JavaInteger
import CypherConnect.Platform.UriSyntax

namespace CypherConnect

/-- `JsonElement`. The members of an object stand in their order. -/
inductive Json where
  | null
  | bool (b : Bool)
  | number (text : List Char)
  | string (text : List Char)
  | array (elements : List Json)
  | object (members : List (List Char × Json))

structure Gson where
  /-- `LazilyParsedNumber.intValue`; `none` is a `NumberFormatException`. -/
  intValue : List Char → Option Int
  /-- `Integer.parseInt`. -/
  parseInt : List Char → Option Int

namespace Json

/-- `JsonObject.get`. -/
def get (members : List (List Char × Json)) (key : List Char) : Option Json :=
  (members.find? (·.1 == key)).map Prod.snd

/-- `(this as? JsonPrimitive)?.asString`. -/
def asString : Json → Option (List Char)
  | .bool b => some (if b then "true".toList else "false".toList)
  | .number text => some text
  | .string text => some text
  | _ => none

/-- `(this as? JsonPrimitive)?.run { if (isBoolean) asBoolean else null }`. -/
def asBoolean : Json → Option Bool
  | .bool b => some b
  | _ => none

/-- `(this as? JsonPrimitive)?.asInt`, and `null` after a `NumberFormatException`. -/
def asInt (G : Gson) : Json → Option Int
  | .number text => G.intValue text
  | .bool b => G.parseInt (if b then "true".toList else "false".toList)
  | .string text => G.parseInt text
  | _ => none

end Json

/-- The decimal text of an `Int` is read as that number. -/
structure Gson.Documented (G : Gson) : Prop where
  intValue_decimal : ∀ n : Nat, n < 2 ^ 31 → G.intValue (JavaUri.decimal n) = some (n : Int)

/-! ## A reference -/

namespace PlainGson

open JavaUri

/-- Behind a sign: digits, a fraction and an exponent. The fraction is cut off. -/
def magnitude (t : List Char) : Nat :=
  let whole := t.takeWhile isDigit
  let rest := t.dropWhile isDigit
  let fraction :=
    match rest with
    | '.' :: r => r.takeWhile isDigit
    | _ => []
  let exponent :=
    match rest.dropWhile fun c => c == '.' || isDigit c with
    | _ :: '-' :: ds => -(natOfDigits ds : Int)
    | _ :: '+' :: ds => natOfDigits ds
    | _ :: ds => natOfDigits ds
    | [] => 0
  let scale : Int := exponent - fraction.length
  if 0 ≤ scale then natOfDigits (whole ++ fraction) * 10 ^ scale.toNat
  else natOfDigits (whole ++ fraction) / 10 ^ (-scale).toNat

/-- The low 32 bits, with their sign. -/
def toInt32 (n : Int) : Int := n.bmod (2 ^ 32)

def intValue (t : List Char) : Option Int :=
  match t with
  | '-' :: r => some (toInt32 (-(magnitude r : Int)))
  | r => some (toInt32 (magnitude r))

theorem magnitude_decimal (n : Nat) : magnitude (decimal n) = n := by
  have htake : (decimal n).takeWhile isDigit = decimal n :=
    List.takeWhile_eq_self_iff.mpr fun c hc => isDigit_of_mem_decimal hc
  have hdrop : (decimal n).dropWhile isDigit = [] :=
    List.dropWhile_eq_nil_iff.mpr fun c hc => isDigit_of_mem_decimal hc
  unfold magnitude
  simp [htake, hdrop, natOfDigits_decimal]

end PlainGson

/-- Numbers and texts in ASCII digits. -/
def plainGson : Gson :=
  ⟨PlainGson.intValue, JavaInteger.parseInt 10 JavaInteger.asciiDigit⟩

theorem plainGson_documented : plainGson.Documented where
  intValue_decimal := by
    intro n hn
    have hsigned : PlainGson.toInt32 n = n := Int.bmod_eq_of_le (by omega) (by omega)
    show PlainGson.intValue (JavaUri.decimal n) = _
    unfold PlainGson.intValue
    split
    · next r heq =>
        -- a digit is no sign
        have hdigit := JavaUri.isDigit_of_mem_decimal (heq ▸ List.mem_cons_self)
        exact absurd hdigit (by decide)
    · rw [PlainGson.magnitude_decimal, hsigned]

end CypherConnect
