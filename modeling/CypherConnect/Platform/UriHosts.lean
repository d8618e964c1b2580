/-
  Hosts outside brackets, as `java.net.URI` scans them: labels with dots between them, or four
  bytes.

  * `MadeOf`: letters, digits and given marks; hosts, ports and base64 texts are made of them.
  * `isIPv4_iff`, `parseIPv4Address_some`, `parseIPv4Address_fourBytes`: what is read as an IPv4
    address are four bytes, and four bytes are.
  * `parseHostname_some`, `parseHostname_name`: the same for names.
  * `parsePlain_eq`: a host before a `:` is read up to there.
-/
import CypherConnect.Lib.Scan
import CypherConnect.Platform.JavaUri

namespace CypherConnect.JavaUri

open Scan

/-! ## Grammar -/

/-- `domainlabel = alphanum | alphanum *( alphanum | "-" ) alphanum`. -/
structure IsLabel (label : List Char) : Prop where
  ne_nil : label ≠ []
  chars : ∀ c ∈ label, (isAlphanum c || c == '-') = true
  head : ∀ c ∈ label.head?, c ≠ '-'
  last : ∀ c ∈ label.getLast?, c ≠ '-'

/-- Labels with dots between them, and perhaps a dot at the end. The last of several labels starts
with a letter. -/
def IsName (t : List Char) : Prop :=
  ∃ (labels : List (List Char)) (top dot : List Char), (∀ l ∈ labels, IsLabel l) ∧ IsLabel top ∧
    (labels ≠ [] → ∀ c ∈ top.head?, isAlpha c = true) ∧ (dot = [] ∨ dot = ['.']) ∧
    t = labels.flatMap (· ++ ['.']) ++ (top ++ dot)

/-- Digits of a value of at most 255. Zeros may stand in front. -/
structure IsByte (ds : List Char) : Prop where
  ne_nil : ds ≠ []
  digits : ∀ c ∈ ds, isDigit c = true
  le : natOfDigits ds ≤ 255

/-- Four bytes separated by dots. -/
def IsFourBytes (t : List Char) : Prop :=
  ∃ a b c d, IsByte a ∧ IsByte b ∧ IsByte c ∧ IsByte d ∧
    t = a ++ '.' :: (b ++ '.' :: (c ++ '.' :: d))

/-! ## Digits and letters -/

theorem isDigit_iff {c : Char} : isDigit c = true ↔ 48 ≤ c.toNat ∧ c.toNat ≤ 57 := by
  simp only [isDigit, Bool.and_eq_true, decide_eq_true_eq, Char.le_def, UInt32.le_iff_toNat_le]
  exact Iff.rfl

theorem isAlpha_iff {c : Char} : isAlpha c = true ↔
    (97 ≤ c.toNat ∧ c.toNat ≤ 122) ∨ (65 ≤ c.toNat ∧ c.toNat ≤ 90) := by
  simp only [isAlpha, Bool.or_eq_true, Bool.and_eq_true, decide_eq_true_eq, Char.le_def,
    UInt32.le_iff_toNat_le]
  exact Iff.rfl

theorem isAlphanum_iff {c : Char} : isAlphanum c = true ↔ isAlpha c = true ∨ isDigit c = true :=
  Bool.or_eq_true _ _ ▸ Iff.rfl

theorem isAlphanum_of_isHex {c : Char} (h : isHex c = true) : isAlphanum c = true := by
  rw [isAlphanum_iff, isAlpha_iff, isDigit_iff]
  simp only [isHex, Bool.or_eq_true, isDigit_iff, Bool.and_eq_true, decide_eq_true_eq, Char.le_def,
    UInt32.le_iff_toNat_le] at h
  rcases h with (h | h) | h
  · exact .inr h
  · exact .inl (.inl ⟨h.1, Nat.le_trans h.2 (by decide)⟩)
  · exact .inl (.inr ⟨h.1, Nat.le_trans h.2 (by decide)⟩)

/-- Letters, digits and the given marks are the only characters of the text. -/
def MadeOf (marks t : List Char) : Prop := ∀ x ∈ t, isAlphanum x = true ∨ x ∈ marks

section MadeOf

variable {marks more t u : List Char} {x : Char}

theorem MadeOf.mono (h : MadeOf marks t) (hsub : marks ⊆ more) : MadeOf more t := by
  intro x hx
  exact (h x hx).imp_right fun hmark => hsub hmark

theorem MadeOf.append (ht : MadeOf marks t) (hu : MadeOf marks u) : MadeOf marks (t ++ u) := by
  intro x hx
  rcases List.mem_append.mp hx with hx | hx
  · exact ht x hx
  · exact hu x hx

theorem MadeOf.cons (hx : x ∈ marks) (ht : MadeOf marks t) : MadeOf marks (x :: t) := by
  intro y hy
  rcases List.mem_cons.mp hy with rfl | hy
  · exact .inr hx
  · exact ht y hy

/-- A mark that does not occur need not be given. -/
theorem MadeOf.without (h : MadeOf (x :: marks) t) (hx : x ∉ t) : MadeOf marks t := by
  intro y hy
  rcases h y hy with h | h
  · exact .inl h
  · rcases List.mem_cons.mp h with rfl | h
    · exact absurd hy hx
    · exact .inr h

theorem MadeOf.not_mem (h : MadeOf marks t) (halnum : isAlphanum x = false) (hx : x ∉ marks) :
    x ∉ t := by
  intro hm
  rcases h x hm with h | h
  · rw [halnum] at h
    cases h
  · exact hx h

/-- What letters and digits and the marks have in common holds of the whole text. -/
theorem MadeOf.forall {p : Char → Bool} (h : MadeOf marks t)
    (halnum : ∀ c, isAlphanum c = true → p c = true) (hmarks : marks.all p = true) :
    ∀ x ∈ t, p x = true := by
  intro x hx
  rcases h x hx with h | h
  · exact halnum x h
  · exact List.all_eq_true.mp hmarks x h

theorem madeOf_digits (h : ∀ c ∈ t, isDigit c = true) : MadeOf marks t :=
  fun c hc => .inl (isAlphanum_iff.mpr (.inr (h c hc)))

end MadeOf

/-! ## Four bytes -/

theorem scanByte_some {t r : List Char} (h : scanByte t = some r) :
    ∃ ds, IsByte ds ∧ t = ds ++ r := by
  unfold scanByte at h
  simp only at h
  split at h
  · cases h
  · next hcond =>
      cases h
      rw [not_or, Nat.not_lt] at hcond
      exact ⟨t.takeWhile isDigit, ⟨hcond.1, fun c hc => List.mem_takeWhile_imp hc, hcond.2⟩,
        List.takeWhile_append_dropWhile.symm⟩

theorem scanByte_byte {ds r : List Char} (h : IsByte ds) (hr : ∀ c ∈ r.head?, isDigit c = false) :
    scanByte (ds ++ r) = some r := by
  have hbyte : ¬ (ds = [] ∨ 255 < natOfDigits ds) :=
    not_or.mpr ⟨h.ne_nil, Nat.not_lt.mpr h.le⟩
  unfold scanByte
  simp only [takeWhile_span h.digits hr, dropWhile_span h.digits hr, if_neg hbyte]

theorem scanDot_some {t r : List Char} (h : scanDot t = some r) : t = '.' :: r := by
  unfold scanDot at h
  split at h
  · cases h
    rfl
  · cases h

theorem isIPv4_iff {t : List Char} : isIPv4 t = true ↔ IsFourBytes t := by
  constructor
  · intro h
    have hscan := beq_iff_eq.mp h
    simp only [Option.bind_eq_bind, Option.bind_eq_some_iff] at hscan
    obtain ⟨t1, h1, t2, h2, t3, h3, t4, h4, t5, h5, t6, h6, h7⟩ := hscan
    obtain ⟨a, ha, rfl⟩ := scanByte_some h1
    obtain rfl := scanDot_some h2
    obtain ⟨b, hb, rfl⟩ := scanByte_some h3
    obtain rfl := scanDot_some h4
    obtain ⟨c, hc, rfl⟩ := scanByte_some h5
    obtain rfl := scanDot_some h6
    obtain ⟨d, hd, rfl⟩ := scanByte_some h7
    exact ⟨a, b, c, d, ha, hb, hc, hd, by rw [List.append_nil]⟩
  · rintro ⟨a, b, c, d, ha, hb, hc, hd, rfl⟩
    have hdot (r : List Char) : ∀ x ∈ ('.' :: r).head?, isDigit x = false := head_eq_false rfl
    have hlast : scanByte d = some [] := by
      have hbyte := scanByte_byte hd (r := []) (fun x hx => nomatch hx)
      rw [List.append_nil] at hbyte
      exact hbyte
    unfold isIPv4
    simp only [scanByte_byte ha (hdot _), scanByte_byte hb (hdot _), scanByte_byte hc (hdot _),
      hlast, scanDot, Option.bind_eq_bind, Option.bind_some]
    rfl

theorem IsFourBytes.mem {t : List Char} (h : IsFourBytes t) {x : Char} (hx : x ∈ t) :
    isDigit x = true ∨ x = '.' := by
  obtain ⟨a, b, c, d, ha, hb, hc, hd, rfl⟩ := h
  simp only [List.mem_append, List.mem_cons] at hx
  rcases hx with hx | hx | hx | hx | hx | hx | hx
  · exact .inl (ha.digits x hx)
  · exact .inr hx
  · exact .inl (hb.digits x hx)
  · exact .inr hx
  · exact .inl (hc.digits x hx)
  · exact .inr hx
  · exact .inl (hd.digits x hx)

theorem parseIPv4Address_some {t address rest : List Char}
    (h : parseIPv4Address t = some (address, rest)) :
    IsFourBytes address ∧ t = address ++ rest := by
  unfold parseIPv4Address at h
  simp only at h
  split at h
  · next hcond =>
      cases h
      rw [Bool.and_eq_true] at hcond
      exact ⟨isIPv4_iff.mp hcond.1, List.takeWhile_append_dropWhile.symm⟩
  · cases h

theorem parseIPv4Address_fourBytes {address : List Char} (h : IsFourBytes address) (r : List Char) :
    parseIPv4Address (address ++ ':' :: r) = some (address, ':' :: r) := by
  have hin : ∀ x ∈ address, (isDigit x || x == '.') = true := by
    intro x hx
    rw [Bool.or_eq_true, beq_iff_eq]
    exact h.mem hx
  have hout : ∀ x ∈ (':' :: r).head?, (isDigit x || x == '.') = false := head_eq_false rfl
  unfold parseIPv4Address
  simp only [takeWhile_span hin hout, dropWhile_span hin hout, isIPv4_iff.mpr h]
  rfl

/-! ## Labels -/

theorem IsLabel.alnum_head {label : List Char} (h : IsLabel label) :
    ∃ c rest, label = c :: rest ∧ isAlphanum c = true := by
  obtain ⟨c, rest, rfl⟩ := List.exists_cons_of_ne_nil h.ne_nil
  have hc := h.chars c List.mem_cons_self
  have hne : c ≠ '-' := h.head c rfl
  rw [Bool.or_eq_true, beq_iff_eq] at hc
  exact ⟨c, rest, rfl, hc.resolve_right hne⟩

/-- What ends a label. -/
def EndsLabel (r : List Char) : Prop := ∀ c ∈ r.head?, (isAlphanum c || c == '-') = false

theorem scanLabel_label {label r : List Char} (h : IsLabel label) (hr : EndsLabel r) :
    scanLabel (label ++ r) = some (label, r) := by
  obtain ⟨c, rest, rfl, hc⟩ := h.alnum_head
  have hne : ((c :: rest) ++ r).takeWhile isAlphanum ≠ [] := by
    rw [List.cons_append, List.takeWhile_cons_of_pos hc]
    exact List.cons_ne_nil _ _
  have hlast : ¬ (c :: rest).getLast? = some '-' := fun heq => h.last '-' heq rfl
  unfold scanLabel
  simp only [if_neg hne, takeWhile_span h.chars hr, dropWhile_span h.chars hr, if_neg hlast]

theorem scanLabel_none {r : List Char} (hr : EndsLabel r) : scanLabel r = some ([], r) := by
  have hnil : r.takeWhile isAlphanum = [] := by
    cases r with
    | nil => rfl
    | cons c r =>
        have hc := hr c rfl
        rw [Bool.or_eq_false_iff] at hc
        exact List.takeWhile_cons_of_neg (by rw [hc.1]; exact Bool.false_ne_true)
  unfold scanLabel
  rw [if_pos hnil]

theorem endsLabel_colon (r : List Char) : EndsLabel (':' :: r) := head_eq_false rfl

theorem endsLabel_dot (r : List Char) : EndsLabel ('.' :: r) := head_eq_false rfl

theorem scanLabels_dot {label r : List Char} (h : IsLabel label) (fuel : Nat) :
    scanLabels (fuel + 1) (label ++ '.' :: r) =
      (scanLabels fuel r).map fun x => (label ++ '.' :: x.1, x.2.1.or label.head?, x.2.2) := by
  have hlabel := scanLabel_label h (endsLabel_dot r)
  obtain ⟨c, rest, rfl⟩ := List.exists_cons_of_ne_nil h.ne_nil
  rw [scanLabels.eq_def]
  simp only [hlabel]
  cases scanLabels fuel r with
  | none => rfl
  | some x => rfl

/-- The last label, with or without a final dot. -/
theorem scanLabels_top {top dot : List Char} (h : IsLabel top) (hdot : dot = [] ∨ dot = ['.'])
    (fuel : Nat) (r : List Char) :
    scanLabels (fuel + 2) (top ++ dot ++ ':' :: r) = some (top ++ dot, top.head?, ':' :: r) := by
  have hnone := scanLabel_none (endsLabel_colon r)
  rcases hdot with rfl | rfl
  · have hlabel := scanLabel_label h (endsLabel_colon r)
    obtain ⟨c, rest, rfl⟩ := List.exists_cons_of_ne_nil h.ne_nil
    rw [List.append_nil, scanLabels.eq_def]
    simp only [hlabel]
    rfl
  · have hrest : scanLabels (fuel + 1) (':' :: r) = some ([], none, ':' :: r) := by
      rw [scanLabels.eq_def]
      simp only [hnone]
    rw [List.append_assoc]
    show scanLabels (fuel + 1 + 1) (top ++ '.' :: ':' :: r) = _
    rw [scanLabels_dot h, hrest]
    rfl

theorem scanLabels_labels {labels : List (List Char)} {top dot : List Char}
    (hlabels : ∀ l ∈ labels, IsLabel l) (h : IsLabel top) (hdot : dot = [] ∨ dot = ['.'])
    {fuel : Nat} (hfuel : labels.length + 2 ≤ fuel) (r : List Char) :
    scanLabels fuel (labels.flatMap (· ++ ['.']) ++ (top ++ dot) ++ ':' :: r) =
      some (labels.flatMap (· ++ ['.']) ++ (top ++ dot), top.head?, ':' :: r) := by
  obtain ⟨extra, rfl⟩ := Nat.exists_eq_add_of_le hfuel
  induction labels with
  | nil =>
      have heq : ([] : List (List Char)).length + 2 + extra = extra + 2 := by
        rw [List.length_nil]
        omega
      rw [heq]
      exact scanLabels_top h hdot extra r
  | cons label labels ih =>
      have hrest := ih (fun l hl => hlabels l (List.mem_cons_of_mem _ hl)) (by omega)
      obtain ⟨c, more, hmore⟩ := List.exists_cons_of_ne_nil h.ne_nil
      have heq : (label :: labels).length + 2 + extra = labels.length + 2 + extra + 1 := by
        rw [List.length_cons]
        omega
      have htext : ((label :: labels).flatMap (· ++ ['.']) ++ (top ++ dot) ++ ':' :: r) =
          label ++ '.' :: (labels.flatMap (· ++ ['.']) ++ (top ++ dot) ++ ':' :: r) := by
        simp only [List.flatMap_cons, List.append_assoc, List.cons_append, List.nil_append]
      rw [heq, htext, scanLabels_dot (hlabels label List.mem_cons_self), hrest, hmore]
      simp only [Option.map_some, List.flatMap_cons, List.append_assoc, List.cons_append,
        List.nil_append, List.head?_cons, Option.some_or]

theorem length_labels (labels : List (List Char)) :
    labels.length ≤ (labels.flatMap (· ++ ['.'])).length := by
  induction labels with
  | nil => exact Nat.zero_le _
  | cons label labels ih =>
      rw [List.flatMap_cons, List.length_append, List.length_append, List.length_cons,
        List.length_singleton]
      omega

theorem mem_label {t label r : List Char} (h : scanLabel t = some (label, r)) {x : Char}
    (hx : x ∈ label) : (isAlphanum x || x == '-') = true := by
  unfold scanLabel at h
  split at h
  · cases h
    cases hx
  · simp only at h
    split at h
    · cases h
    · cases h
      exact List.mem_takeWhile_imp (p := fun c => isAlphanum c || c == '-') hx

theorem scanLabel_some {t r : List Char} {c : Char} {label : List Char}
    (h : scanLabel t = some (c :: label, r)) : IsLabel (c :: label) ∧ t = c :: label ++ r := by
  have hchars : ∀ x ∈ c :: label, (isAlphanum x || x == '-') = true := fun x hx => mem_label h hx
  unfold scanLabel at h
  split at h
  · cases h
  · next hfirst =>
      simp only at h
      split at h
      · cases h
      · next hlast =>
          obtain ⟨hlabel, hrest⟩ := Prod.mk.inj (Option.some.inj h)
          have hsplit := List.takeWhile_append_dropWhile (p := fun x => isAlphanum x || x == '-')
            (l := t)
          rw [hlabel, hrest] at hsplit
          refine ⟨⟨List.cons_ne_nil _ _, hchars, ?_, ?_⟩, hsplit.symm⟩
          · rintro x hx rfl
            cases hx
            -- a text that starts with `-` has no alphanumeric run at its start
            rw [← hsplit, List.cons_append] at hfirst
            exact hfirst (List.takeWhile_cons_of_neg (by decide))
          · rintro x hx rfl
            rw [hlabel] at hlast
            exact hlast hx

/-! ## Names -/

/-- What the label loop takes is nothing, or labels of which it remembers the last. -/
theorem scanLabels_some {fuel : Nat} {t name rest : List Char} {last : Option Char}
    (h : scanLabels fuel t = some (name, last, rest)) :
    t = name ++ rest ∧ (name = [] ∧ last = none ∨
      ∃ (labels : List (List Char)) (top dot : List Char), (∀ l ∈ labels, IsLabel l) ∧ IsLabel top ∧
        last = top.head? ∧ (dot = [] ∨ dot = ['.']) ∧
        name = labels.flatMap (· ++ ['.']) ++ (top ++ dot)) := by
  induction fuel generalizing t name last rest with
  | zero =>
      cases h
      exact ⟨rfl, Or.inl ⟨rfl, rfl⟩⟩
  | succ fuel ih =>
      rw [scanLabels.eq_def] at h
      simp only at h
      split at h
      · cases h
      · cases h
        exact ⟨rfl, Or.inl ⟨rfl, rfl⟩⟩
      · next c label r hscan =>
          obtain ⟨hlabel, rfl⟩ := scanLabel_some hscan
          split at h
          · cases h
          · next more last' rest' hmore =>
              cases h
              obtain ⟨rfl, hname⟩ := ih hmore
              refine ⟨by rw [List.append_assoc]; rfl, Or.inr ?_⟩
              rcases hname with ⟨rfl, rfl⟩ | ⟨labels, top, dot, hlabels, htop, rfl, hdot, rfl⟩
              · exact ⟨[], c :: label, ['.'], List.forall_mem_nil _, hlabel, rfl, Or.inr rfl, rfl⟩
              · obtain ⟨d, tail, rfl⟩ := List.exists_cons_of_ne_nil htop.ne_nil
                refine ⟨(c :: label) :: labels, d :: tail, dot, ?_, htop, rfl, hdot, ?_⟩
                · exact List.forall_mem_cons.mpr ⟨hlabel, hlabels⟩
                · rw [List.flatMap_cons, List.append_assoc, List.append_assoc]
                  rfl
      · next c label r _ hscan =>
          cases h
          obtain ⟨hlabel, rfl⟩ := scanLabel_some hscan
          exact ⟨rfl, Or.inr ⟨[], c :: label, [], List.forall_mem_nil _, hlabel, rfl, Or.inl rfl,
            (List.append_nil _).symm⟩⟩

theorem IsLabel.dot_not_mem {label : List Char} (h : IsLabel label) : '.' ∉ label := by
  intro hm
  cases h.chars '.' hm

/-- There is something behind the first dot exactly if there is more than one label. -/
theorem several_iff {labels : List (List Char)} {top dot : List Char}
    (hlabels : ∀ l ∈ labels, IsLabel l) (htop : IsLabel top) (hdot : dot = [] ∨ dot = ['.'])
    {name : List Char} (hname : name = labels.flatMap (· ++ ['.']) ++ (top ++ dot)) :
    (name.drop ((name.takeWhile (· != '.')).length + 1) != []) = true ↔ labels ≠ [] := by
  subst hname
  rw [bne_iff_ne]
  cases labels with
  | nil =>
      have hin := bne_of_not_mem htop.dot_not_mem
      have hfirst : (top ++ dot).takeWhile (· != '.') = top := by
        refine takeWhile_span hin ?_
        rcases hdot with rfl | rfl
        · exact fun x hx => nomatch hx
        · exact bne_head
      have hlength : (top ++ dot).length ≤ top.length + 1 := by
        rcases hdot with rfl | rfl <;> simp
      rw [List.flatMap_nil, List.nil_append, hfirst, List.drop_eq_nil_of_le hlength]
      exact iff_of_false (fun h => h rfl) (fun h => h rfl)
  | cons label labels =>
      have hin := bne_of_not_mem (hlabels label List.mem_cons_self).dot_not_mem
      have htext : (label :: labels).flatMap (· ++ ['.']) ++ (top ++ dot) =
          label ++ '.' :: (labels.flatMap (· ++ ['.']) ++ (top ++ dot)) := by
        rw [List.flatMap_cons, List.append_assoc, List.append_assoc]
        rfl
      rw [htext, takeWhile_span hin bne_head, List.drop_append,
        List.drop_eq_nil_of_le (Nat.le_succ _),
        List.nil_append, Nat.add_sub_cancel_left, List.drop_succ_cons, List.drop_zero]
      refine iff_of_true ?_ (List.cons_ne_nil _ _)
      exact List.append_ne_nil_of_right_ne_nil _ (List.append_ne_nil_of_left_ne_nil htop.ne_nil _)

theorem parseHostname_some {t name rest : List Char} (h : parseHostname t = some (name, rest)) :
    IsName name ∧ t = name ++ rest := by
  unfold parseHostname at h
  split at h
  · next found last rest' hscan =>
      simp only at h
      split at h
      · next hcond =>
          cases h
          obtain ⟨ht, hname⟩ := scanLabels_some hscan
          rcases hname with ⟨-, hnone⟩ | ⟨labels, top, dot, hlabels, htop, hlast, hdot, hname⟩
          · cases hnone
          · refine ⟨⟨labels, top, dot, hlabels, htop, fun hne c hc => ?_, hdot, hname⟩, ht⟩
            have hseveral := (several_iff hlabels htop hdot hname).mpr hne
            rw [Bool.and_eq_true, hseveral] at hcond
            rw [← hlast] at hc
            cases hc
            exact hcond.2
      · cases h
  · cases h

theorem parseHostname_name {name : List Char} (h : IsName name) (r : List Char) :
    parseHostname (name ++ ':' :: r) = some (name, ':' :: r) := by
  obtain ⟨labels, top, dot, hlabels, htop, halpha, hdot, hname⟩ := h
  have hseveral := several_iff hlabels htop hdot hname
  have hlen := length_labels labels
  have hfuel : labels.length + 2 ≤ (name ++ ':' :: r).length + 1 := by
    rw [hname]
    simp only [List.length_append, List.length_cons]
    omega
  have hscan := scanLabels_labels hlabels htop hdot hfuel r
  rw [← hname] at hscan
  obtain ⟨c, rest, rfl⟩ := List.exists_cons_of_ne_nil htop.ne_nil
  have hcond : (!(name.drop ((name.takeWhile (· != '.')).length + 1) != []) || isAlpha c) =
      true := by
    rw [Bool.or_eq_true, Bool.not_eq_true']
    by_cases hne : labels = []
    · exact Or.inl (Bool.eq_false_iff.mpr fun hs => hseveral.mp hs hne)
    · exact Or.inr (halpha hne c rfl)
  unfold parseHostname
  simp only [hscan, List.head?_cons, hcond, Bool.and_true]
  rfl

theorem IsName.madeOf {t : List Char} (h : IsName t) : MadeOf ['-', '.'] t := by
  obtain ⟨labels, top, dot, hlabels, htop, -, hdot, rfl⟩ := h
  have hlabel {l : List Char} (hl : IsLabel l) : MadeOf ['-', '.'] l := by
    intro x hx
    have hchar := hl.chars x hx
    rw [Bool.or_eq_true, beq_iff_eq] at hchar
    rcases hchar with hchar | rfl
    · exact .inl hchar
    · exact .inr (by decide)
  have hpoint : MadeOf ['-', '.'] ['.'] := .cons (by decide) (List.forall_mem_nil _)
  have hfront : MadeOf ['-', '.'] (labels.flatMap (· ++ ['.'])) := by
    intro x hx
    obtain ⟨l, hl, hxl⟩ := List.mem_flatMap.mp hx
    exact (hlabel (hlabels l hl)).append hpoint x hxl
  refine hfront.append ((hlabel htop).append ?_)
  rcases hdot with rfl | rfl
  · exact List.forall_mem_nil _
  · exact hpoint

/-! ## Both -/

/-- The characters of a host, outside brackets. -/
theorem plain_madeOf {t : List Char} (h : IsName t ∨ IsFourBytes t) : MadeOf ['-', '.'] t := by
  rcases h with h | h
  · exact h.madeOf
  · intro x hx
    rcases h.mem hx with hdigit | rfl
    · exact .inl (isAlphanum_iff.mpr (.inr hdigit))
    · exact .inr (by decide)

theorem isName_ne_nil {t : List Char} (h : IsName t ∨ IsFourBytes t) : t ≠ [] := by
  rcases h with ⟨labels, top, dot, -, htop, -, -, rfl⟩ | ⟨a, b, c, d, ha, -, -, -, rfl⟩
  · exact List.append_ne_nil_of_right_ne_nil _ (List.append_ne_nil_of_left_ne_nil htop.ne_nil _)
  · exact List.append_ne_nil_of_left_ne_nil ha.ne_nil _

/-- Outside brackets a host is read up to the `:`. -/
theorem parsePlain_eq {host : List Char} (h : IsName host ∨ IsFourBytes host) (r : List Char) :
    (parseIPv4Address (host ++ ':' :: r)).or (parseHostname (host ++ ':' :: r)) =
      some (host, ':' :: r) := by
  rcases h with hname | hfour
  · rw [parseHostname_name hname]
    cases hparse : parseIPv4Address (host ++ ':' :: r) with
    | none => rfl
    | some x =>
        -- the digits and dots at the start of a name end where the name ends
        obtain ⟨address, rest⟩ := x
        obtain ⟨hfour, htext⟩ := parseIPv4Address_some hparse
        have hcolon {t : List Char} (ht : IsName t ∨ IsFourBytes t) : ':' ∉ t :=
          (plain_madeOf ht).not_mem rfl (by decide)
        have hrest : rest.head? = some ':' := by
          unfold parseIPv4Address at hparse
          simp only at hparse
          split at hparse
          · next hcond =>
              cases hparse
              simp only [Bool.and_eq_true, Bool.or_eq_true, beq_iff_eq] at hcond
              rcases hcond.2 with hnil | hhead
              · rw [hnil, List.append_nil] at htext
                refine absurd ?_ (hcolon (Or.inr hfour))
                rw [← htext]
                exact List.mem_append_right _ List.mem_cons_self
              · exact hhead
          · cases hparse
        obtain ⟨rest', rfl⟩ := List.head?_eq_some_iff.mp hrest
        obtain ⟨rfl, rfl⟩ := cut_inj (hcolon (Or.inl hname)) (hcolon (Or.inr hfour)) htext
        rfl
  · rw [parseIPv4Address_fourBytes hfour]
    rfl

theorem plain_head {host : List Char} (h : IsName host ∨ IsFourBytes host) {c : Char}
    (halnum : isAlphanum c = false) (hc : c ∉ ['-', '.']) (r : List Char) :
    (host ++ r).head? ≠ some c := by
  obtain ⟨d, rest, rfl⟩ := List.exists_cons_of_ne_nil (isName_ne_nil h)
  intro heq
  cases heq
  exact (plain_madeOf h).not_mem halnum hc List.mem_cons_self

end CypherConnect.JavaUri
