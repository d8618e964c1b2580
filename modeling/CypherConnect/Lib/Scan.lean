/-
  Scanning texts: spans of a character class, and tokens between delimiters.

  * `takeWhile_span`, `dropWhile_span`: a span ends where the first character outside the class is.
  * `trim p t` is `t` without the characters of a class at its two ends.
  * `findSome?_range`, `findSome?_range_reverse`: a search over indices finds the first, or the
    last, one that fits.
  * `not_mem_of_mem_splitOn`: the pieces between separators have no separator.
  * `tokens delim t` is the token sequence of a tokenizer that returns its delimiters: every
    delimiter is a token, and so is every run of other characters between two of them.
    `flatten_tokens`: the tokens make up the text; `count_tokens`: each delimiter occurs as a token
    as often as in the text.
  * `escape delim esc t` puts `esc` before every delimiter. `Unescapes.read_escape`: a reader of
    tokens that takes the token after `esc` as it is collects the text itself.
-/
import Mathlib.Data.List.Induction
import Mathlib.Data.List.DropRight
import Mathlib.Data.List.TakeWhile
import Mathlib.Data.List.Count

namespace CypherConnect.Scan

universe u

variable {α : Type u}

/-! ## Spans -/

/-- The class of a span ends at the first character after it. -/
theorem head_eq_false {p : α → Bool} {x : α} (h : p x = false) {r : List α} :
    ∀ y ∈ (x :: r).head?, p y = false := by
  intro y hy
  cases hy
  exact h

theorem takeWhile_span {p : α → Bool} {a b : List α} (ha : ∀ x ∈ a, p x = true)
    (hb : ∀ x ∈ b.head?, p x = false) : (a ++ b).takeWhile p = a := by
  rw [List.takeWhile_append_of_pos ha]
  cases b with
  | nil => rw [List.takeWhile_nil, List.append_nil]
  | cons x b =>
      have hx : ¬ p x = true := by
        rw [hb x rfl]
        exact Bool.false_ne_true
      rw [List.takeWhile_cons_of_neg hx, List.append_nil]

theorem dropWhile_span {p : α → Bool} {a b : List α} (ha : ∀ x ∈ a, p x = true)
    (hb : ∀ x ∈ b.head?, p x = false) : (a ++ b).dropWhile p = b := by
  rw [List.dropWhile_append_of_pos ha]
  cases b with
  | nil => rfl
  | cons x b =>
      have hx : ¬ p x = true := by
        rw [hb x rfl]
        exact Bool.false_ne_true
      rw [List.dropWhile_cons_of_neg hx]

/-- A class that no character of a text is in, as a computation. -/
theorem forall_eq_false {p : α → Bool} {t : List α} (h : (t.all fun x => !p x) = true) :
    ∀ x ∈ t, p x = false := by
  intro x hx
  exact Bool.not_eq_true' _ ▸ List.all_eq_true.mp h x hx

/-- Every text ends in a run of a class, possibly an empty one. -/
theorem exists_trailing_run (p : α → Bool) (t : List α) : ∃ core junk,
    t = core ++ junk ∧ (∀ x ∈ junk, p x = true) ∧ ∀ x ∈ core.getLast?, p x = false := by
  induction t using List.reverseRecOn with
  | nil => exact ⟨[], [], rfl, List.forall_mem_nil _, fun x hx => nomatch hx⟩
  | append_singleton t y ih =>
      cases hy : p y with
      | true =>
          obtain ⟨core, junk, rfl, hjunk, hcore⟩ := ih
          refine ⟨core, junk ++ [y], List.append_assoc _ _ _, ?_, hcore⟩
          exact List.forall_mem_append.mpr ⟨hjunk, List.forall_mem_singleton.mpr hy⟩
      | false =>
          refine ⟨t ++ [y], [], (List.append_nil _).symm, List.forall_mem_nil _, ?_⟩
          intro x hx
          rw [List.getLast?_concat] at hx
          cases hx
          exact hy

/-- Every text ends in a run of `x`, possibly an empty one. -/
theorem exists_trailing [DecidableEq α] (x : α) (t : List α) :
    ∃ core k, t = core ++ List.replicate k x ∧ core.getLast? ≠ some x := by
  obtain ⟨core, junk, rfl, hjunk, hcore⟩ := exists_trailing_run (· == x) t
  have hsame : ∀ y ∈ junk, y = x := fun y hy => beq_iff_eq.mp (hjunk y hy)
  refine ⟨core, junk.length, ?_, ?_⟩
  · rw [← List.eq_replicate_of_mem hsame]
  · intro hlast
    exact beq_eq_false_iff_ne.mp (hcore x hlast) rfl

/-- Of a text that ends in `back` and has an `x` that `back` has not, the part after the `x` ends in
`back`. -/
theorem append_cons_eq_append {a b front back : List α} {x : α} (hx : x ∉ back)
    (h : a ++ x :: b = front ++ back) : ∃ b', b = b' ++ back ∧ front = a ++ x :: b' := by
  rcases List.append_eq_append_iff.mp h with ⟨c, hfront, hb⟩ | ⟨c, _, hback⟩
  · cases c with
    | nil =>
        rw [List.nil_append] at hb
        exact absurd (hb ▸ List.mem_cons_self) hx
    | cons y c =>
        obtain ⟨rfl, rfl⟩ := List.cons.inj hb
        exact ⟨c, rfl, hfront⟩
  · rw [hback] at hx
    exact absurd (List.mem_append_right _ List.mem_cons_self) hx

section Single

variable [BEq α] [LawfulBEq α]

/-- A text without `x` is a span of the other characters. -/
theorem bne_of_not_mem {x : α} {a : List α} (h : x ∉ a) : ∀ y ∈ a, (y != x) = true := by
  intro y hy
  rw [bne_iff_ne]
  intro heq
  exact h (heq ▸ hy)

/-- A text that starts with `x` ends such a span. -/
theorem bne_head {x : α} {r : List α} : ∀ y ∈ (x :: r).head?, (y != x) = false :=
  head_eq_false (p := (· != x)) (bne_self_eq_false x)

/-- What stops such a span is the separator, and the text is cut there. -/
theorem cut_of_dropWhile {x y : α} {t r : List α} (h : t.dropWhile (· != x) = y :: r) :
    y = x ∧ x ∉ t.takeWhile (· != x) ∧ t = t.takeWhile (· != x) ++ x :: r := by
  have hy : y = x := by
    have hhead := List.head?_dropWhile_not (· != x) t
    rw [h] at hhead
    simpa using hhead
  refine ⟨hy, ?_, ?_⟩
  · intro hm
    have hbne := List.mem_takeWhile_imp hm
    rw [bne_self_eq_false] at hbne
    cases hbne
  · have hsplit := List.takeWhile_append_dropWhile (p := (· != x)) (l := t)
    rw [h, hy] at hsplit
    exact hsplit.symm

/-- A text has one first separator. -/
theorem cut_inj {x : α} {a a' b b' : List α} (ha : x ∉ a) (ha' : x ∉ a')
    (h : a ++ x :: b = a' ++ x :: b') : a = a' ∧ b = b' := by
  have hfirst : a = a' := by
    rw [← takeWhile_span (bne_of_not_mem ha) (bne_head (r := b)), h,
      takeWhile_span (bne_of_not_mem ha') bne_head]
  subst hfirst
  exact ⟨rfl, (List.cons.inj (List.append_cancel_left h)).2⟩

/-- What stands between two separators has none. -/
theorem not_mem_of_mem_splitOn {x : α} {t piece : List α} (h : piece ∈ t.splitOn x) :
    x ∉ piece := by
  induction t generalizing piece with
  | nil =>
      rw [List.splitOn_nil, List.mem_singleton] at h
      rw [h]
      exact List.not_mem_nil
  | cons y t ih =>
      rw [List.splitOn_cons_eq_if_modifyHead] at h
      split at h
      · rcases List.mem_cons.mp h with rfl | h
        · exact List.not_mem_nil
        · exact ih h
      · next hy =>
          obtain ⟨first, rest, hsplit⟩ := List.exists_cons_of_ne_nil (List.splitOn_ne_nil x t)
          rw [hsplit] at h ih
          rcases List.mem_cons.mp h with rfl | h
          · intro hmem
            rcases List.mem_cons.mp hmem with rfl | hmem
            · exact hy (beq_self_eq_true _)
            · exact ih List.mem_cons_self hmem
          · exact ih (List.mem_cons_of_mem _ h)

end Single

/-! ## Trimmed texts -/

/-- Drop the characters of a class at both ends. -/
def trim (p : α → Bool) (t : List α) : List α := ((t.dropWhile p).reverse.dropWhile p).reverse

theorem trim_eq (p : α → Bool) (t : List α) : trim p t = (t.dropWhile p).rdropWhile p := rfl

theorem trim_of_forall {p : α → Bool} {t : List α} (h : ∀ x ∈ t, p x = false) : trim p t = t := by
  have hnot {x : α} (hx : x ∈ t) : ¬ p x = true := by
    rw [h x hx]
    exact Bool.false_ne_true
  have hdrop : t.dropWhile p = t :=
    List.dropWhile_eq_self_iff.mpr fun hl => hnot (List.getElem_mem hl)
  rw [trim_eq, hdrop]
  exact List.rdropWhile_eq_self_iff.mpr fun hl => hnot (List.getLast_mem hl)

theorem trim_trim (p : α → Bool) (t : List α) : trim p (trim p t) = trim p t := by
  have hfront := List.rdropWhile_prefix p (t.dropWhile p)
  have hhead : (trim p t).dropWhile p = trim p t := by
    refine List.dropWhile_eq_self_iff.mpr fun hl => ?_
    have hlen : 0 < (t.dropWhile p).length := Nat.lt_of_lt_of_le hl hfront.length_le
    have hfirst : (trim p t)[0] = (t.dropWhile p)[0] := hfront.getElem hl
    rw [hfirst]
    exact List.dropWhile_get_zero_not p t hlen
  rw [trim_eq p (trim p t), hhead]
  exact List.rdropWhile_idempotent p _

theorem trim_sublist (p : α → Bool) (t : List α) : (trim p t).Sublist t :=
  (List.rdropWhile_prefix p _).sublist.trans (List.dropWhile_sublist p)

/-! ## First and last index -/

section Index

variable {β : Type u} {f : Nat → Option β} {n k : Nat} {b : β}

/-- The indices around one of them. -/
theorem range_split (hk : k < n) : ∃ before after, List.range n = before ++ k :: after ∧
    (∀ j ∈ before, j < k) ∧ ∀ j ∈ after, k < j ∧ j < n := by
  obtain ⟨before, after, hsplit⟩ := List.append_of_mem (List.mem_range.mpr hk)
  have hsorted : (before ++ k :: after).Pairwise (· < ·) := by
    rw [← hsplit]
    exact List.pairwise_lt_range
  obtain ⟨-, hcons, hcross⟩ := List.pairwise_append.mp hsorted
  refine ⟨before, after, hsplit, fun j hj => hcross j hj k List.mem_cons_self, fun j hj => ?_⟩
  refine ⟨(List.pairwise_cons.mp hcons).1 j hj, ?_⟩
  rw [← List.mem_range, hsplit]
  exact List.mem_append_right _ (List.mem_cons_of_mem _ hj)

/-- The first index with a result. -/
theorem findSome?_range (hk : k < n) (hat : f k = some b) (hbefore : ∀ j < k, f j = none) :
    (List.range n).findSome? f = some b := by
  obtain ⟨before, after, hsplit, hlt, -⟩ := range_split hk
  rw [List.findSome?_eq_some_iff]
  exact ⟨before, k, after, hsplit, hat, fun j hj => hbefore j (hlt j hj)⟩

/-- The last index with a result. -/
theorem findSome?_range_reverse (hk : k < n) (hat : f k = some b)
    (hafter : ∀ j, k < j → j < n → f j = none) : (List.range n).reverse.findSome? f = some b := by
  obtain ⟨before, after, hsplit, -, hgt⟩ := range_split hk
  rw [List.findSome?_eq_some_iff]
  refine ⟨after.reverse, k, before.reverse, ?_, hat, fun j hj => ?_⟩
  · rw [hsplit, List.reverse_append, List.reverse_cons, List.append_assoc]
    rfl
  · obtain ⟨h1, h2⟩ := hgt j (List.mem_reverse.mp hj)
    exact hafter j h1 h2

end Index

/-! ## Tokens -/

/-- The token of a run; an empty run gives none. -/
def flush (run : List α) : List (List α) := if run.isEmpty then [] else [run]

/-- The tokens of a text that follows the run `run`. -/
def tokensFrom (delim : α → Bool) (run : List α) : List α → List (List α)
  | [] => flush run
  | x :: t =>
      if delim x then flush run ++ [x] :: tokensFrom delim [] t else tokensFrom delim (run ++ [x]) t

def tokens (delim : α → Bool) (t : List α) : List (List α) := tokensFrom delim [] t

variable {delim : α → Bool}

theorem tokensFrom_delim {x : α} (h : delim x = true) (run t : List α) :
    tokensFrom delim run (x :: t) = flush run ++ [x] :: tokens delim t := if_pos h

theorem tokensFrom_other {x : α} (h : delim x = false) (run t : List α) :
    tokensFrom delim run (x :: t) = tokensFrom delim (run ++ [x]) t := by
  have hx : ¬ delim x = true := by
    rw [h]
    exact Bool.false_ne_true
  exact if_neg hx

theorem flatten_flush (run : List α) : (flush run).flatten = run := by
  cases run with
  | nil => rfl
  | cons x run => exact List.append_nil _

theorem flatten_tokensFrom (run t : List α) : (tokensFrom delim run t).flatten = run ++ t := by
  induction t generalizing run with
  | nil =>
      rw [List.append_nil]
      exact flatten_flush run
  | cons x t ih =>
      cases hx : delim x with
      | true =>
          have htail : (tokens delim t).flatten = t := ih []
          rw [tokensFrom_delim hx, List.flatten_append, flatten_flush, List.flatten_cons, htail]
          rfl
      | false =>
          rw [tokensFrom_other hx, ih, List.append_assoc]
          rfl

/-- The tokens make up the text. -/
theorem flatten_tokens (t : List α) : (tokens delim t).flatten = t := flatten_tokensFrom [] t

theorem mem_of_mem_tokens {t token : List α} (h : token ∈ tokens delim t) {x : α} (hx : x ∈ token) :
    x ∈ t := by
  rw [← flatten_tokens t]
  exact List.mem_flatten_of_mem h hx

section Count

variable [DecidableEq α]

theorem count_flush {x : α} {run : List α} (hx : x ∉ run) : (flush run).count [x] = 0 := by
  rw [List.count_eq_zero]
  intro hm
  cases run with
  | nil => cases hm
  | cons y run =>
      rw [← List.mem_singleton.mp hm] at hx
      exact hx List.mem_cons_self

theorem count_tokensFrom {x : α} (hx : delim x = true) {run : List α}
    (hrun : ∀ y ∈ run, delim y = false) (t : List α) :
    (tokensFrom delim run t).count [x] = t.count x := by
  have hnot {run : List α} (hrun : ∀ y ∈ run, delim y = false) : x ∉ run := by
    intro hm
    rw [hrun x hm] at hx
    cases hx
  induction t generalizing run with
  | nil => exact count_flush (hnot hrun)
  | cons y t ih =>
      cases hy : delim y with
      | true =>
          have htail : (tokens delim t).count [x] = t.count x := ih (List.forall_mem_nil _)
          rw [tokensFrom_delim hy, List.count_append, count_flush (hnot hrun), List.count_cons,
            List.count_cons, htail, Nat.zero_add]
          congr 1
          simp only [beq_iff_eq, List.cons.injEq, and_true]
      | false =>
          have hne : y ≠ x := by
            intro heq
            rw [heq, hx] at hy
            cases hy
          have hrun' : ∀ z ∈ run ++ [y], delim z = false := by
            exact List.forall_mem_append.mpr ⟨hrun, List.forall_mem_singleton.mpr hy⟩
          rw [tokensFrom_other hy, ih hrun', List.count_cons_of_ne hne]

/-- A delimiter is a token as often as it occurs. -/
theorem count_tokens {x : α} (hx : delim x = true) (t : List α) :
    (tokens delim t).count [x] = t.count x :=
  count_tokensFrom hx (List.forall_mem_nil _) t

end Count

/-! ## Escaped texts -/

/-- Put `esc` before every delimiter. -/
def escape (delim : α → Bool) (esc : α) (t : List α) : List α :=
  t.flatMap fun x => if delim x then [esc, x] else [x]

theorem escape_delim {x : α} (h : delim x = true) (esc : α) (t : List α) :
    escape delim esc (x :: t) = esc :: x :: escape delim esc t := by
  unfold escape
  rw [List.flatMap_cons, if_pos h]
  rfl

theorem escape_other {x : α} (h : delim x = false) (esc : α) (t : List α) :
    escape delim esc (x :: t) = x :: escape delim esc t := by
  have hx : ¬ delim x = true := by
    rw [h]
    exact Bool.false_ne_true
  unfold escape
  rw [List.flatMap_cons, if_neg hx]
  rfl

theorem escape_ne_nil {t : List α} (h : t ≠ []) (esc : α) : escape delim esc t ≠ [] := by
  obtain ⟨x, rest, rfl⟩ := List.exists_cons_of_ne_nil h
  cases hx : delim x with
  | true =>
      rw [escape_delim hx]
      exact List.cons_ne_nil _ _
  | false =>
      rw [escape_other hx]
      exact List.cons_ne_nil _ _

/-- The run before a delimiter, or before the end, is a token of its own. -/
theorem tokensFrom_eq_flush_append {r : List α} (hr : ∀ x ∈ r.head?, delim x = true)
    (run : List α) :
    tokensFrom delim run r = flush run ++ tokens delim r := by
  cases r with
  | nil => exact (List.append_nil _).symm
  | cons x r =>
      have hx : delim x = true := hr x rfl
      have htokens : tokens delim (x :: r) = [x] :: tokens delim r := tokensFrom_delim hx [] r
      rw [tokensFrom_delim hx, htokens]

/-- A reader of tokens that collects runs of plain characters, and what stands after `esc`. -/
structure Unescapes {σ β : Type u} (delim : α → Bool) (esc : α) (push : σ → List α → σ)
    (read : σ → List (List α) → β) : Prop where
  push_nil : ∀ s, push s [] = s
  push_push : ∀ s a b, push (push s a) b = push s (a ++ b)
  run : ∀ s {run : List α} (rest : List (List α)), run ≠ [] → (∀ x ∈ run, delim x = false) →
    read s (run :: rest) = read (push s run) rest
  escaped : ∀ s {x : α} (rest : List (List α)), delim x = true →
    read s ([esc] :: [x] :: rest) = read (push s [x]) rest

namespace Unescapes

variable {σ β : Type u} {esc : α} {push : σ → List α → σ} {read : σ → List (List α) → β}

theorem read_flush (h : Unescapes delim esc push read) (s : σ) {run : List α}
    (hrun : ∀ x ∈ run, delim x = false) (rest : List (List α)) :
    read s (flush run ++ rest) = read (push s run) rest := by
  cases run with
  | nil =>
      rw [h.push_nil]
      rfl
  | cons x run => exact h.run s rest (List.cons_ne_nil _ _) hrun

/-- The induction is over the text, with the run of plain characters before it. -/
theorem read_escapeFrom (h : Unescapes delim esc push read) (hesc : delim esc = true) (s : σ)
    {run : List α} (hrun : ∀ x ∈ run, delim x = false) (t : List α) {r : List α}
    (hr : ∀ x ∈ r.head?, delim x = true) :
    read s (tokensFrom delim run (escape delim esc t ++ r)) =
      read (push s (run ++ t)) (tokens delim r) := by
  induction t generalizing s run with
  | nil =>
      show read s (tokensFrom delim run r) = _
      rw [tokensFrom_eq_flush_append hr, h.read_flush s hrun, List.append_nil]
  | cons x t ih =>
      cases hx : delim x with
      | true =>
          have htoken : tokens delim (x :: (escape delim esc t ++ r)) =
              [x] :: tokens delim (escape delim esc t ++ r) := tokensFrom_delim hx [] _
          have htail : read (push (push s run) [x]) (tokens delim (escape delim esc t ++ r)) =
              read (push (push (push s run) [x]) ([] ++ t)) (tokens delim r) :=
            ih _ (List.forall_mem_nil _)
          rw [escape_delim hx]
          show read s (tokensFrom delim run (esc :: x :: (escape delim esc t ++ r))) = _
          rw [tokensFrom_delim hesc, h.read_flush s hrun, htoken, h.escaped _ _ hx, htail,
            h.push_push, h.push_push]
          simp
      | false =>
          have hrun' : ∀ y ∈ run ++ [x], delim y = false :=
            List.forall_mem_append.mpr ⟨hrun, List.forall_mem_singleton.mpr hx⟩
          rw [escape_other hx, List.cons_append, tokensFrom_other hx, ih s hrun', List.append_assoc]
          rfl

/-- The reader collects a text from its escaped form. -/
theorem read_escape (h : Unescapes delim esc push read) (hesc : delim esc = true) (s : σ)
    (t : List α) {r : List α} (hr : ∀ x ∈ r.head?, delim x = true) :
    read s (tokens delim (escape delim esc t ++ r)) = read (push s t) (tokens delim r) :=
  h.read_escapeFrom hesc s (List.forall_mem_nil _) t hr

end Unescapes

end CypherConnect.Scan
