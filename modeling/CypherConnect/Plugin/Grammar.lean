/-
  The grammar of option strings, character by character, and that the parser of `PluginOptions`
  reads it.

  `reference` is the reading the format asks for: characters with a mark for those behind a
  backslash, cut into segments at each `;` without the mark. The parser works on tokens instead.

  * `read_tokens`: reading tokens is reading marked characters; a backslash in front of a run of
    other characters changes nothing.
  * `readChars_segment`: what the parser does from one `;` to the next.
  * `option_grammar`: the parser never fails on a string without control characters, and it gives
    the reference unless the string ends in a backslash that escapes nothing.
-/
import CypherConnect.Plugin.Printing

namespace CypherConnect.Plugin

open Scan

/-! ## The reference -/

/-- The characters of a string, each with a mark if it stands behind a backslash. -/
def charactersFrom (escaped : Bool) : Text → List (Char × Bool)
  | [] => []
  | c :: t =>
      if escaped then (c, true) :: charactersFrom false t
      else if c = '\\' then charactersFrom true t
      else (c, false) :: charactersFrom false t

def characters (t : Text) : List (Char × Bool) := charactersFrom false t

/-- A backslash is left that has nothing to escape. -/
def openEscapeFrom (escaped : Bool) : Text → Bool
  | [] => escaped
  | c :: t => openEscapeFrom (!escaped && c == '\\') t

def openEscape (t : Text) : Bool := openEscapeFrom false t

/-- The segments between the `;` without a mark. -/
def segments (t : Text) : List (List (Char × Bool)) := (characters t).splitOn (';', false)

/-- The unescaped text of marked characters. -/
def plainText (cs : List (Char × Bool)) : Text := cs.map Prod.fst

/-- One segment. -/
def readSegment (parseId : Bool) (o : PluginOptions) (segment : List (Char × Bool)) :
    PluginOptions :=
  if ('=', false) ∈ segment then
    o.put (plainText (segment.takeWhile (· != ('=', false))))
      (some (plainText (segment.dropWhile (· != ('=', false))).tail))
  else if plainText segment = [] then o
  else if parseId then o.setId (plainText segment)
  else o.put (plainText segment) none

/-- All segments in order; only the first can be the id. -/
def reference (parseId : Bool) (t : Text) : PluginOptions :=
  match segments t with
  | [] => {}
  | first :: rest => rest.foldl (readSegment false) (readSegment parseId {} first)

/-! ## Tokens -/

namespace Reader

variable {s : Reader}

/-- The parser on one marked character. -/
def readChar (s : Reader) (c : Char × Bool) : Reader := if c.2 then s.push [c.1] else s.next [c.1]

def readChars (s : Reader) (cs : List (Char × Bool)) : Reader := cs.foldl readChar s

/-- A run of characters that are no delimiters is the first token, with what follows it directly. -/
theorem tokensFrom_run {run : Text} (hrun : ∀ c ∈ run, isDelim c = false) (hne : run ≠ [])
    (t : Text) :
    ∃ token rest, tokensFrom isDelim run t = token :: rest ∧ ∀ c ∈ token, isDelim c = false := by
  induction t generalizing run with
  | nil =>
      obtain ⟨c, run, rfl⟩ := List.exists_cons_of_ne_nil hne
      exact ⟨c :: run, [], rfl, hrun⟩
  | cons c t ih =>
      cases hc : isDelim c with
      | true =>
          obtain ⟨d, run, rfl⟩ := List.exists_cons_of_ne_nil hne
          refine ⟨d :: run, [c] :: tokens isDelim t, ?_, hrun⟩
          rw [tokensFrom_delim hc]
          rfl
      | false =>
          rw [tokensFrom_other hc]
          refine ih ?_ (List.append_ne_nil_of_right_ne_nil _ (List.cons_ne_nil _ _))
          exact List.forall_mem_append.mpr ⟨hrun, List.forall_mem_singleton.mpr hc⟩

/-- A backslash in front of such a run changes nothing. -/
theorem read_escaped_run {run : Text} (hrun : ∀ c ∈ run, isDelim c = false) (hne : run ≠ [])
    (t : Text) :
    s.read (['\\'] :: tokensFrom isDelim run t) = s.read (tokensFrom isDelim run t) := by
  obtain ⟨token, rest, htokens, htoken⟩ := tokensFrom_run hrun hne t
  have hback : token ≠ ['\\'] := by
    intro heq
    have hdelim := htoken '\\' (heq ▸ List.mem_cons_self)
    cases hdelim
  rw [htokens, read_escape, read_of_ne hback, next_run htoken]

/-- Reading tokens is reading marked characters: for a text behind a run, and for one behind a
backslash. -/
theorem read_tokens (t : Text) :
    (∀ (s : Reader) (run : Text), (∀ c ∈ run, isDelim c = false) → openEscapeFrom false t = false →
      s.read (tokensFrom isDelim run t) = some ((s.push run).readChars (charactersFrom false t))) ∧
    ∀ s : Reader, openEscapeFrom true t = false →
      s.read (['\\'] :: tokens isDelim t) = some (s.readChars (charactersFrom true t)) := by
  induction t with
  | nil =>
      constructor
      · intro s run hrun _
        have hflush := unescapes.read_flush s hrun []
        rw [List.append_nil] at hflush
        exact hflush
      · intro s hopen
        cases hopen
  | cons c t ih =>
      obtain ⟨ihplain, ihescaped⟩ := ih
      constructor
      · intro s run hrun hopen
        by_cases hback : c = '\\'
        · subst hback
          rw [tokensFrom_delim (by rfl), unescapes.read_flush s hrun]
          exact ihescaped (s.push run) hopen
        · have hcs : charactersFrom false (c :: t) = (c, false) :: charactersFrom false t :=
            if_neg hback
          have hopen' : openEscapeFrom false t = false := by
            rw [openEscapeFrom.eq_def] at hopen
            simp only [Bool.not_false, Bool.true_and, beq_eq_false_iff_ne.mpr hback] at hopen
            exact hopen
          rw [hcs]
          show _ = some (((s.push run).next [c]).readChars (charactersFrom false t))
          cases hc : isDelim c with
          | true =>
              have htail := ihplain ((s.push run).next [c]) [] (List.forall_mem_nil _) hopen'
              rw [push_nil] at htail
              rw [tokensFrom_delim hc, unescapes.read_flush s hrun,
                read_of_ne fun heq => hback (List.cons.inj heq).1]
              exact htail
          | false =>
              have hrun' : ∀ x ∈ run ++ [c], isDelim x = false := by
                exact List.forall_mem_append.mpr ⟨hrun, List.forall_mem_singleton.mpr hc⟩
              rw [tokensFrom_other hc, ihplain s (run ++ [c]) hrun' hopen',
                next_run (List.forall_mem_singleton.mpr hc), push_push]
      · intro s hopen
        show _ = some ((s.push [c]).readChars (charactersFrom false t))
        cases hc : isDelim c with
        | true =>
            have htoken : tokens isDelim (c :: t) = [c] :: tokens isDelim t :=
              tokensFrom_delim hc [] t
            have htail := ihplain (s.push [c]) [] (List.forall_mem_nil _) hopen
            rw [push_nil] at htail
            rw [htoken, read_escape]
            exact htail
        | false =>
            have hrun : ∀ x ∈ [c], isDelim x = false := List.forall_mem_singleton.mpr hc
            have htoken : tokens isDelim (c :: t) = tokensFrom isDelim [c] t :=
              tokensFrom_other hc [] t
            rw [htoken, read_escaped_run hrun (List.cons_ne_nil _ _)]
            exact ihplain s [c] hrun hopen

/-! ## Segments -/

theorem readChars_append (cs ds : List (Char × Bool)) :
    s.readChars (cs ++ ds) = (s.readChars cs).readChars ds := List.foldl_append

/-- A character that is no separator here is collected. -/
theorem readChar_push {c : Char × Bool} (hsemi : c ≠ (';', false))
    (heq : c = ('=', false) → s.key ≠ none) : s.readChar c = s.push [c.1] := by
  obtain ⟨c, escaped⟩ := c
  unfold readChar
  cases escaped with
  | true => rfl
  | false =>
      show s.next [c] = _
      unfold next
      by_cases hc : c = '='
      · subst hc
        obtain ⟨key, hkey⟩ := Option.ne_none_iff_exists'.mp (heq rfl)
        simp only [if_true, hkey]
      · have hsemi' : [c] ≠ [';'] := fun h => hsemi (by rw [(List.cons.inj h).1])
        rw [if_neg fun h => hc (List.cons.inj h).1, if_neg hsemi']

theorem readChars_push {cs : List (Char × Bool)} (hsemi : (';', false) ∉ cs)
    (heq : ('=', false) ∈ cs → s.key ≠ none) : s.readChars cs = s.push (plainText cs) := by
  induction cs generalizing s with
  | nil => exact push_nil.symm
  | cons c cs ih =>
      have hchar : s.readChar c = s.push [c.1] :=
        readChar_push (fun h => hsemi (h ▸ List.mem_cons_self)) fun h => heq
          (h ▸ List.mem_cons_self)
      have htail : (s.push [c.1]).readChars cs = (s.push [c.1]).push (plainText cs) :=
        ih (fun h => hsemi (List.mem_cons_of_mem _ h)) fun h => heq (List.mem_cons_of_mem _ h)
      show (s.readChar c).readChars cs = _
      rw [hchar, htail, push_push]
      rfl

/-- From one `;` to the next. -/
theorem readChars_segment (o : PluginOptions) (parseId : Bool) {segment : List (Char × Bool)}
    (hsemi : (';', false) ∉ segment) :
    Reader.readChars ⟨o, parseId, [], none⟩ (segment ++ [(';', false)]) =
      ⟨readSegment parseId o segment, false, [], none⟩ := by
  have hclose (r : Reader) : r.readChars [(';', false)] = r.close := next_semicolon
  rw [readChars_append, hclose]
  unfold readSegment
  by_cases heq : ('=', false) ∈ segment
  · obtain ⟨before, after, rfl, hbefore⟩ := List.eq_append_cons_of_mem heq
    have hfirst : (';', false) ∉ before := fun h => hsemi (List.mem_append_left _ h)
    have hlast : (';', false) ∉ after :=
      fun h => hsemi (List.mem_append_right _ (List.mem_cons_of_mem _ h))
    have hkey : Reader.readChars ⟨o, parseId, [], none⟩ before = ⟨o, parseId, plainText before,
        none⟩ :=
      readChars_push hfirst fun h => absurd h hbefore
    have hvalue : Reader.readChars ⟨o, parseId, [], some (plainText before)⟩ after =
        ⟨o, parseId, plainText after, some (plainText before)⟩ :=
      readChars_push hlast fun _ => Option.some_ne_none _
    rw [if_pos heq, readChars_append, hkey, takeWhile_span (bne_of_not_mem hbefore) bne_head,
      dropWhile_span (bne_of_not_mem hbefore) bne_head]
    show (Reader.readChars ⟨o, parseId, [], some (plainText before)⟩ after).close = _
    rw [hvalue]
    rfl
  · have htext : Reader.readChars ⟨o, parseId, [], none⟩ segment =
        ⟨o, parseId, plainText segment, none⟩ := readChars_push hsemi fun h => absurd h heq
    rw [if_neg heq, htext]
    unfold close
    simp only [List.isEmpty_iff]

/-- All segments, each followed by a `;`. -/
theorem readChars_segments (o : PluginOptions) {rest : List (List (Char × Bool))}
    (hrest : ∀ segment ∈ rest, (';', false) ∉ segment) :
    Reader.readChars ⟨o, false, [], none⟩ (rest.flatMap (· ++ [(';', false)])) =
      ⟨rest.foldl (readSegment false) o, false, [], none⟩ := by
  induction rest generalizing o with
  | nil => rfl
  | cons segment rest ih =>
      rw [List.flatMap_cons, readChars_append,
        readChars_segment o false (hrest _ List.mem_cons_self),
        ih _ fun x hx => hrest x (List.mem_cons_of_mem _ hx)]
      rfl

end Reader

theorem intercalate_snoc {α : Type} (x : α) (first : List α) (rest : List (List α)) :
    List.intercalate [x] (first :: rest) ++ [x] = (first :: rest).flatMap (· ++ [x]) := by
  induction rest generalizing first with
  | nil =>
      simp only [List.intercalate_singleton, List.flatMap_cons, List.flatMap_nil, List.append_nil]
  | cons second rest ih =>
      rw [List.intercalate_cons_of_ne_nil (List.cons_ne_nil _ _), List.append_assoc, ih]
      rfl

/-- The parser's state behind the whole string and the `;` it adds. -/
theorem readChars_characters (parseId : Bool) (t : Text) :
    Reader.readChars { parseId := parseId } (characters t ++ [(';', false)]) =
      ⟨reference parseId t, false, [], none⟩ := by
  obtain ⟨first, rest, hsegments⟩ :=
    List.exists_cons_of_ne_nil (List.splitOn_ne_nil (';', false) (characters t))
  have htext : List.intercalate [(';', false)] (first :: rest) = characters t := by
    rw [← hsegments]
    exact List.intercalate_splitOn _
  have hpieces : ∀ segment ∈ first :: rest, (';', false) ∉ segment := by
    intro segment hs
    rw [← hsegments] at hs
    exact not_mem_of_mem_splitOn hs
  have href : reference parseId t = rest.foldl (readSegment false)
      (readSegment parseId {} first) := by
    unfold reference segments
    rw [hsegments]
  rw [← htext, intercalate_snoc, List.flatMap_cons, Reader.readChars_append, href,
    Reader.readChars_segment {} parseId (hpieces _ List.mem_cons_self),
    Reader.readChars_segments _ fun x hx => hpieces x (List.mem_cons_of_mem _ hx)]

/-! ## The parser -/

/-- A backslash at the very end is the last character. -/
theorem openEscape_snoc (escaped : Bool) (t : Text) {c : Char} (hc : c ≠ '\\') :
    openEscapeFrom escaped (t ++ [c]) = false := by
  induction t generalizing escaped with
  | nil =>
      show (!escaped && c == '\\') = false
      rw [beq_eq_false_iff_ne.mpr hc, Bool.and_false]
  | cons d t ih => exact ih _

theorem charactersFrom_snoc {escaped : Bool} {t : Text} (h : openEscapeFrom escaped t = false) :
    charactersFrom escaped (t ++ [';']) = charactersFrom escaped t ++ [(';', false)] := by
  induction t generalizing escaped with
  | nil =>
      cases h
      rfl
  | cons c t ih =>
      rw [openEscapeFrom.eq_def] at h
      simp only [List.cons_append, charactersFrom]
      cases escaped with
      | true => exact congrArg ((c, true) :: ·) (ih h)
      | false =>
          by_cases hback : c = '\\'
          · subst hback
            exact ih h
          · simp only [Bool.not_false, Bool.true_and, beq_eq_false_iff_ne.mpr hback] at h
            simp only [if_neg hback, Bool.false_eq_true, if_false, ih h, List.cons_append]

/-- The parser on a string without control characters. -/
theorem parse_eq {t : Text} (hnil : t ≠ []) (parseId : Bool) (h : ∀ c ∈ t, isISOControl c = false) :
    PluginOptions.parse (some t) parseId =
      some (Reader.readChars { parseId := parseId } (characters (t ++ [';']))).options := by
  have hcontrol : ¬ t.any isISOControl = true := by
    rw [List.any_eq_true]
    rintro ⟨c, hc, hiso⟩
    rw [h c hc] at hiso
    cases hiso
  have hread :=
    (Reader.read_tokens (t ++ [';'])).1 { parseId := parseId } [] (List.forall_mem_nil _)
    (openEscape_snoc false t (by decide))
  rw [Reader.push_nil] at hread
  rw [PluginOptions.parse_of_ne_nil hnil, if_neg hcontrol]
  exact congrArg (Option.map Reader.options) hread

/-- A string without control characters is parsed, and unless it ends in a backslash that escapes
nothing the result is the one of the reference. -/
theorem option_grammar (t : Text) (parseId : Bool) (h : ∀ c ∈ t, isISOControl c = false) :
    ∃ o, PluginOptions.parse (some t) parseId = some o ∧
      (openEscape t = false → o = reference parseId t) := by
  by_cases hnil : t = []
  · subst hnil
    exact ⟨{}, rfl, fun _ => rfl⟩
  · refine ⟨_, parse_eq hnil parseId h, fun hopen => ?_⟩
    have hsnoc : characters (t ++ [';']) = characters t ++ [(';', false)] :=
      charactersFrom_snoc hopen
    rw [hsnoc, readChars_characters]

/-- An id, a value with a `;` and an `=` in it, a key without a value. -/
theorem option_grammar_sample : ∃ o,
    PluginOptions.parse (some "id;key=a\\;b=c;flag".toList) true = some o ∧ o.id = "id".toList ∧
      o.entries = [("key".toList, some "a;b=c".toList), ("flag".toList, none)] := by
  obtain ⟨o, ho, href⟩ :=
    option_grammar "id;key=a\\;b=c;flag".toList true (forall_eq_false (by decide))
  have hvalue : (reference true "id;key=a\\;b=c;flag".toList).id = "id".toList ∧
      (reference true "id;key=a\\;b=c;flag".toList).entries =
        [("key".toList, some "a;b=c".toList), ("flag".toList, none)] := by decide +kernel
  rw [← href rfl] at hvalue
  exact ⟨o, ho, hvalue⟩

end CypherConnect.Plugin
