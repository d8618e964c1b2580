/-
  The order of `String.compareTo`: strings are compared by their UTF-16 code units, and a string
  that is the beginning of another comes first.

  * `encode_injective`: a text is determined by its code units, so only equal texts tie.
-/
import CypherConnect.Lib.Sorted

namespace CypherConnect.Utf16

/-- The code units of a character: one, or a surrogate pair. -/
def units (c : Char) : List Nat :=
  if c.toNat < 0x10000 then [c.toNat]
  else [0xD800 + (c.toNat - 0x10000) / 0x400, 0xDC00 + (c.toNat - 0x10000) % 0x400]

def encode (t : List Char) : List Nat := t.flatMap units

/-- `String.compareTo`. -/
def compareTo (a b : List Char) : Ordering := List.compareLex compare (encode a) (encode b)

/-- No character is a surrogate. -/
theorem not_surrogate (c : Char) : c.toNat < 0xD800 ∨ 0xDFFF < c.toNat := by
  have hvalid : c.val.toNat < 0xD800 ∨ 0xDFFF < c.val.toNat ∧ c.val.toNat < 0x110000 := c.valid
  have hnat : c.toNat = c.val.toNat := rfl
  omega

theorem toNat_lt (c : Char) : c.toNat < 0x110000 := by
  have hvalid : c.val.toNat < 0xD800 ∨ 0xDFFF < c.val.toNat ∧ c.val.toNat < 0x110000 := c.valid
  have hnat : c.toNat = c.val.toNat := rfl
  omega

/-- The units of a first character can be told from what follows. -/
theorem units_append_inj {c d : Char} {s t : List Nat} (h : units c ++ s = units d ++ t) :
    c = d ∧ s = t := by
  have hc := not_surrogate c
  have hd := not_surrogate d
  have hc' := toNat_lt c
  have hd' := toNat_lt d
  have hchar : c.toNat = d.toNat → c = d := fun heq => Char.toNat_inj.mp heq
  unfold units at h
  split at h
  · split at h
    · obtain ⟨heq, hrest⟩ := List.cons.inj h
      exact ⟨hchar heq, hrest⟩
    · -- the first unit of `d` is a surrogate
      have heq := (List.cons.inj h).1
      omega
  · split at h
    · have heq := (List.cons.inj h).1
      omega
    · obtain ⟨hhigh, hlow⟩ := List.cons.inj h
      obtain ⟨hlow, hrest⟩ := List.cons.inj hlow
      exact ⟨hchar (by omega), hrest⟩

theorem units_ne_nil (c : Char) : units c ≠ [] := by
  unfold units
  split
  · exact List.cons_ne_nil _ _
  · exact List.cons_ne_nil _ _

theorem encode_injective {a b : List Char} (h : encode a = encode b) : a = b := by
  induction a generalizing b with
  | nil =>
      cases b with
      | nil => rfl
      | cons d b => exact absurd (List.append_eq_nil_iff.mp h.symm).1 (units_ne_nil d)
  | cons c a ih =>
      cases b with
      | nil => exact absurd (List.append_eq_nil_iff.mp h).1 (units_ne_nil c)
      | cons d b =>
          obtain ⟨rfl, hrest⟩ := units_append_inj h
          rw [ih hrest]

instance : Std.TransCmp compareTo := Sorted.transCmp_on (List.compareLex compare) encode

theorem compareTo_eq_iff {a b : List Char} : compareTo a b = .eq ↔ a = b := by
  constructor
  · intro h
    exact encode_injective (Std.LawfulEqCmp.eq_of_compare h)
  · rintro rfl
    exact Std.ReflCmp.compare_self

end CypherConnect.Utf16
