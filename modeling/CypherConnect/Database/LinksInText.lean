/-
  Links in a text: what `pattern.findAll` finds where links stand between other texts.

  * `Found link value`: the pattern finds `value` of a link; `_` and `!` at the end are left over.
  * `Embeds seps links text`: the links stand in the text, each with a character that is none of a
    link behind it, or at the end. The text before a link has no `ss://`, or it ends in such a
    character.
  * `findAll_embeds`: the matches are those of the links, and between them those of the texts in
    between.
-/
import Mathlib.Data.List.Forall2
import CypherConnect.Database.Links

namespace CypherConnect.Profile

/-- The characters that a link may have and may not end in, as far as `Uri.encode` leaves them. -/
def isMark (c : Char) : Bool := c == '_' || c == '!'

theorem isMark_iff {c : Char} : isMark c = true ↔ c = '_' ∨ c = '!' := by
  unfold isMark
  rw [Bool.or_eq_true, beq_iff_eq, beq_iff_eq]

structure Found (link value : Text) : Prop where
  marks : ∃ junk, link = value ++ junk ∧ ∀ c ∈ junk, isMark c = true
  body : ∃ init last, value = Platform.scheme ++ (init ++ [last]) ∧
    (∀ c ∈ init, isLinkChar c = true) ∧ isLinkEnd last = true

/-- `ss://`, in whatever case. -/
def startsLink : Text → Bool
  | a :: b :: ':' :: '/' :: '/' :: _ => (a == 's' || a == 'S') && (b == 's' || b == 'S')
  | _ => false

/-- A text without `ss://`. -/
def NoLink (t : Text) : Prop := ∀ rest, rest <:+ t → startsLink rest = false

inductive Embeds : List Text → List Text → Text → Prop where
  | last (t : Text) : Embeds [t] [] t
  | link {seps links : List Text} {rest : Text} (t l : Text)
      (before : NoLink t ∨ ∃ t' c, t = t' ++ [c] ∧ isLinkChar c = false)
      (after : ∀ c ∈ rest.head?, isLinkChar c = false) (h : Embeds seps links rest) :
      Embeds (t :: seps) (l :: links) (t ++ (l ++ rest))

/-- Values between the lists of values of the texts around them. -/
def weave {α : Type} : List (List α) → List α → List α
  | between :: rest, x :: xs => between ++ x :: weave rest xs
  | rest, _ => rest.flatten

/-! ## Matches -/

theorem matchAt_of_not_startsLink {t : Text} (h : startsLink t = false) : matchAt t = none := by
  unfold matchAt
  split
  · next a b r =>
      have hcase : ((a == 's' || a == 'S') && (b == 's' || b == 'S')) = false := h
      rw [hcase]
      rfl
  · rfl

theorem findAll_cons_of_not_startsLink {c : Char} {t : Text} (h : startsLink (c :: t) = false) :
    findAll 0 (c :: t) = findAll 0 t := by
  rw [findAll.eq_def]
  simp only [matchAt_of_not_startsLink h]

theorem startsLink_of_isMark {c : Char} (hc : isMark c = true) (t : Text) :
    startsLink (c :: t) = false := by
  unfold startsLink
  split
  · next a b r heq =>
      have hhead : c = a := (List.cons.inj heq).1
      rw [← hhead]
      rcases isMark_iff.mp hc with rfl | rfl
      · rfl
      · rfl
  · rfl

theorem findAll_marks {junk : Text} (h : ∀ c ∈ junk, isMark c = true) (after : Text) :
    findAll 0 (junk ++ after) = findAll 0 after := by
  induction junk with
  | nil => rfl
  | cons c junk ih =>
      have hstart := startsLink_of_isMark (h c List.mem_cons_self) (junk ++ after)
      rw [List.cons_append, findAll_cons_of_not_startsLink hstart]
      exact ih fun x hx => h x (List.mem_cons_of_mem _ hx)

theorem findAll_found {link value : Text} (h : Found link value) {after : Text}
    (hafter : ∀ c ∈ after.head?, isLinkChar c = false) :
    findAll 0 (link ++ after) = value :: findAll 0 after := by
  obtain ⟨⟨junk, rfl, hjunk⟩, init, last, rfl, hinit, hlast⟩ := h
  have hmarks : ∀ c ∈ junk, isLinkChar c = true ∧ isLinkEnd c = false := by
    intro c hc
    rcases isMark_iff.mp (hjunk c hc) with rfl | rfl
    · decide
    · decide
  rw [List.append_assoc, findAll_link hinit hlast hmarks hafter, findAll_marks hjunk]

/-- No match begins in a text without `ss://` and ends in a link behind it. -/
theorem startsLink_append {t link : Text} (ht : startsLink t = false) (hne : t ≠ [])
    (hlink : Platform.scheme <+: link) : startsLink (t ++ link) = false := by
  obtain ⟨body, rfl⟩ := hlink
  match t with
  | [] => exact absurd rfl hne
  | [a] => rfl
  | [a, b] => rfl
  | [a, b, c] =>
      unfold startsLink
      split
      · next heq =>
          have hfourth : some 's' = some '/' := congrArg (·[3]?) heq
          exact absurd hfourth (by decide)
      · rfl
  | [a, b, c, d] =>
      unfold startsLink
      split
      · next heq =>
          have hfifth : some 's' = some '/' := congrArg (·[4]?) heq
          exact absurd hfifth (by decide)
      · rfl
  | a :: b :: c :: d :: e :: t =>
      unfold startsLink at ht ⊢
      split
      · next heq =>
          simp only [List.cons_append, List.cons.injEq] at heq
          obtain ⟨rfl, rfl, rfl, rfl, rfl, -⟩ := heq
          exact ht
      · rfl

theorem findAll_noLink {t link : Text} (ht : NoLink t) (hlink : Platform.scheme <+: link) :
    findAll 0 (t ++ link) = findAll 0 link := by
  induction t with
  | nil => rfl
  | cons c t ih =>
      have hstart : startsLink (c :: (t ++ link)) = false :=
        startsLink_append (ht (c :: t) List.suffix_rfl) (List.cons_ne_nil _ _) hlink
      rw [List.cons_append, findAll_cons_of_not_startsLink hstart]
      exact ih fun rest hrest => ht rest (hrest.trans (List.suffix_cons _ _))

theorem findAll_of_noLink {t : Text} (ht : NoLink t) : findAll 0 t = [] := by
  induction t with
  | nil => rfl
  | cons c t ih =>
      rw [findAll_cons_of_not_startsLink (ht (c :: t) List.suffix_rfl)]
      exact ih fun rest hrest => ht rest (hrest.trans (List.suffix_cons _ _))

/-- The text before a link adds its own matches. -/
theorem findAll_before {t link : Text}
    (ht : NoLink t ∨ ∃ t' c, t = t' ++ [c] ∧ isLinkChar c = false)
    (hlink : Platform.scheme <+: link) :
    findAll 0 (t ++ link) = findAll 0 t ++ findAll 0 link := by
  rcases ht with ht | ⟨t', c, rfl, hc⟩
  · rw [findAll_noLink ht hlink, findAll_of_noLink ht, List.nil_append]
  · have hself := findAll_separator hc t' [] (Nat.zero_le _)
    rw [List.append_assoc, List.singleton_append,
      findAll_separator hc t' link (Nat.zero_le _), hself]
    rw [show findAll 0 [] = [] from rfl, List.append_nil]

/-- The matches in a text with links. -/
theorem findAll_embeds {seps links values : List Text} {text : Text} (h : Embeds seps links text)
    (hfound : List.Forall₂ Found links values) :
    findAll 0 text = weave (seps.map (findAll 0)) values := by
  induction h generalizing values with
  | last t =>
      cases hfound
      exact (List.append_nil _).symm
  | link t l before after h ih =>
      cases hfound with
      | cons hl hlinks =>
          have hscheme : Platform.scheme <+: l := by
            obtain ⟨⟨junk, rfl, -⟩, init, last, rfl, -⟩ := hl
            exact ⟨_, (List.append_assoc _ _ _).symm⟩
          rw [findAll_before before (hscheme.trans (List.prefix_append _ _)),
            findAll_found hl after, ih hlinks]
          rfl

/-! ## Values between other values -/

section Weave

variable {α β : Type}

theorem weave_filterMap (f : α → Option β) {between : List (List α)} {xs : List α} {ys : List β}
    (h : List.Forall₂ (fun x y => f x = some y) xs ys) :
    (weave between xs).filterMap f = weave (between.map (List.filterMap f)) ys := by
  induction between generalizing xs ys with
  | nil =>
      cases h with
      | nil => rfl
      | cons hx hxs => rfl
  | cons first rest ih =>
      cases h with
      | nil =>
          show (first :: rest).flatten.filterMap f =
              ((first :: rest).map (List.filterMap f)).flatten
          rw [List.filterMap_flatten]
      | cons hx hxs =>
          show (first ++ _ :: weave rest _).filterMap f = _
          rw [List.filterMap_append, List.filterMap_cons_some hx, ih hxs]
          rfl

theorem length_weave {between : List (List α)} {xs : List α} (h : xs.length ≤ between.length) :
    (weave between xs).length = (between.map List.length).sum + xs.length := by
  induction between generalizing xs with
  | nil =>
      rw [List.length_eq_zero_iff.mp (Nat.le_zero.mp h)]
      rfl
  | cons first rest ih =>
      cases xs with
      | nil => exact List.length_flatten
      | cons x xs =>
          show (first ++ x :: weave rest xs).length = _
          rw [List.length_append, List.length_cons, ih (Nat.le_of_succ_le_succ h), List.map_cons,
            List.sum_cons, List.length_cons]
          omega

theorem weave_nil {between : List (List α)} {xs : List α} (hlen : xs.length ≤ between.length)
    (h : ∀ l ∈ between, l = []) : weave between xs = xs := by
  induction between generalizing xs with
  | nil => exact (List.length_eq_zero_iff.mp (Nat.le_zero.mp hlen)) ▸ rfl
  | cons first rest ih =>
      have hrest : ∀ l ∈ rest, l = [] := fun l hl => h l (List.mem_cons_of_mem _ hl)
      cases xs with
      | nil => exact List.flatten_eq_nil_iff.mpr h
      | cons x xs =>
          show first ++ x :: weave rest xs = x :: xs
          rw [h first List.mem_cons_self, ih (Nat.le_of_succ_le_succ hlen) hrest]
          rfl

/-- As many values as there are in between only fit if nothing else is there. -/
theorem forall₂_weave_iff {R : β → α → Prop} {bs : List β} {between : List (List α)} {xs : List α}
    (hlen : xs.length ≤ between.length) (hbs : bs.length = xs.length) :
    List.Forall₂ R bs (weave between xs) ↔ (∀ l ∈ between, l = []) ∧ List.Forall₂ R bs xs := by
  constructor
  · intro h
    have htotal := h.length_eq
    rw [length_weave hlen, hbs] at htotal
    have hsum : (between.map List.length).sum = 0 := by omega
    have hnil : ∀ l ∈ between, l = [] := by
      intro l hl
      have hzero := List.sum_eq_zero_iff_forall_eq_nat.mp hsum l.length (List.mem_map_of_mem hl)
      exact List.length_eq_zero_iff.mp hzero
    rw [weave_nil hlen hnil] at h
    exact ⟨hnil, h⟩
  · rintro ⟨hnil, h⟩
    rw [weave_nil hlen hnil]
    exact h

end Weave

end CypherConnect.Profile
