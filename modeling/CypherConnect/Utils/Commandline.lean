/-
  `Commandline`: quoting arguments into a command line, and cracking a line into its words.

  `toString` puts a backslash before every space, backslash and quote, and a space between two
  arguments. The cracker is a state machine over the tokens of a `StringTokenizer` that returns its
  delimiters. Both kinds of quotes group; a backslash takes the next token as it is, inside double
  quotes only a double quote and another backslash.

  * `translateCommandline_free`: the words of a line have only characters of the line.
  * `translateCommandline_toString`: cracking the line of some arguments returns them. On such a
    line the cracker never leaves its normal state; only the spaces between arguments reach it
    unescaped.
-/
import CypherConnect.Lib.Scan
import CypherConnect.Database.Profile

namespace CypherConnect.Utils

open Scan

/-- The delimiters of the tokenizer. -/
def isSpecial (c : Char) : Bool := c == '\\' || c == '"' || c == '\'' || c == ' '

inductive QuoteState where
  | normal
  | inQuote
  | inDoubleQuote
  deriving DecidableEq, Repr

/-- The locals of the loop. -/
structure Cracker where
  state : QuoteState := .normal
  result : List Text := []
  current : Text := []
  lastTokenHasBeenQuoted : Bool := false
  lastTokenIsSlash : Bool := false

namespace Cracker

def append (s : Cracker) (text : Text) : Cracker := { s with current := s.current ++ text }

/-- Append a token that a backslash has taken. -/
def appendEscaped (s : Cracker) (text : Text) : Cracker :=
  { s.append text with lastTokenIsSlash := false }

/-- The end of a word: a quoted one may be empty. -/
def addWord (s : Cracker) : Cracker :=
  if s.lastTokenHasBeenQuoted || !s.current.isEmpty then
    { s with result := s.result ++ [s.current], current := [] }
  else s

def stepInQuote (s : Cracker) (nextTok : Text) : Cracker :=
  if nextTok = ['\''] then { s with lastTokenHasBeenQuoted := true, state := .normal }
  else s.append nextTok

def stepInDoubleQuote (s : Cracker) (nextTok : Text) : Cracker :=
  if nextTok = ['"'] then
    if s.lastTokenIsSlash then s.appendEscaped nextTok
    else { s with lastTokenHasBeenQuoted := true, state := .normal }
  else if nextTok = ['\\'] then
    if s.lastTokenIsSlash then s.appendEscaped nextTok else { s with lastTokenIsSlash := true }
  -- a backslash that escapes nothing stands for itself
  else if s.lastTokenIsSlash then (s.append ['\\']).appendEscaped nextTok
  else s.append nextTok

def stepNormal (s : Cracker) (nextTok : Text) : Cracker :=
  let next :=
    if s.lastTokenIsSlash then s.appendEscaped nextTok
    else if nextTok = ['\\'] then { s with lastTokenIsSlash := true }
    else if nextTok = ['\''] then { s with state := .inQuote }
    else if nextTok = ['"'] then { s with state := .inDoubleQuote }
    else if nextTok = [' '] then s.addWord
    else s.append nextTok
  { next with lastTokenHasBeenQuoted := false }

/-- The body of the loop. -/
def step (s : Cracker) (nextTok : Text) : Cracker :=
  match s.state with
  | .inQuote => s.stepInQuote nextTok
  | .inDoubleQuote => s.stepInDoubleQuote nextTok
  | .normal => s.stepNormal nextTok

end Cracker

/-- An error is the message of the `IllegalArgumentException`. -/
def translateCommandline (toProcess : Option Text) : Except Text (List Text) :=
  match toProcess with
  | none | some [] => .ok []
  | some text =>
      let s := ((tokens isSpecial text).foldl Cracker.step {}).addWord
      if s.state = .inQuote ∨ s.state = .inDoubleQuote then
        .error ("unbalanced quotes in ".toList ++ text)
      else if s.lastTokenIsSlash then
        .error ("escape character following nothing in ".toList ++ text)
      else .ok s.result

namespace Commandline

/-- The body of the inner loop of `toString`. -/
def appendChar (result : Text) (c : Char) : Text :=
  match c with
  | ' ' | '\\' | '"' | '\'' => result ++ ['\\'] ++ [c]
  | _ => result ++ [c]

/-- The body of the outer loop. -/
def appendArg (result arg : Text) : Text :=
  arg.foldl appendChar (if result.isEmpty then result else result ++ [' '])

def toString (args : Option (List Text)) : Text :=
  match args with
  | none => []
  | some args => args.foldl appendArg []

end Commandline

/-! ## The characters of the words -/

namespace Cracker

variable {p : Char → Bool} {s : Cracker}

/-- A class of characters that the cracker has not met. -/
structure Free (p : Char → Bool) (s : Cracker) : Prop where
  result : ∀ word ∈ s.result, ∀ c ∈ word, p c = false
  current : ∀ c ∈ s.current, p c = false
  slash : s.lastTokenIsSlash = true → p '\\' = false

theorem Free.append (h : s.Free p) {text : Text} (htext : ∀ c ∈ text, p c = false) :
    (s.append text).Free p := by
  refine ⟨h.result, ?_, h.slash⟩
  intro c hc
  rcases List.mem_append.mp hc with hc | hc
  · exact h.current c hc
  · exact htext c hc

theorem Free.appendEscaped (h : s.Free p) {text : Text} (htext : ∀ c ∈ text, p c = false) :
    (s.appendEscaped text).Free p :=
  ⟨h.result, (h.append htext).current, fun hslash => nomatch hslash⟩

theorem Free.addWord (h : s.Free p) : s.addWord.Free p := by
  unfold Cracker.addWord
  split
  · refine ⟨?_, List.forall_mem_nil _, h.slash⟩
    exact List.forall_mem_append.mpr ⟨h.result, List.forall_mem_singleton.mpr h.current⟩
  · exact h

/-- Setting the state and the quote flag does not touch the characters. -/
theorem Free.set (h : s.Free p) (state : QuoteState) (quoted : Bool) :
    Free p { s with state := state, lastTokenHasBeenQuoted := quoted } :=
  ⟨h.result, h.current, h.slash⟩

theorem Free.setSlash (h : s.Free p) (hback : p '\\' = false) :
    Free p { s with lastTokenIsSlash := true } :=
  ⟨h.result, h.current, fun _ => hback⟩

theorem free_backslash {token : Text} (htoken : ∀ c ∈ token, p c = false) (h : token = ['\\']) :
    p '\\' = false :=
  htoken _ (h ▸ List.mem_cons_self)

theorem Free.step (h : s.Free p) {token : Text} (htoken : ∀ c ∈ token, p c = false) :
    (s.step token).Free p := by
  unfold Cracker.step
  split
  · unfold stepInQuote
    split
    · exact h.set _ _
    · exact h.append htoken
  · unfold stepInDoubleQuote
    split
    · split
      · exact h.appendEscaped htoken
      · exact h.set _ _
    · split
      · next hback =>
          split
          · exact h.appendEscaped htoken
          · exact h.setSlash (free_backslash htoken hback)
      · split
        · next hslash =>
            have hback : ∀ c ∈ ['\\'], p c = false := by
              intro c hc
              rw [List.mem_singleton.mp hc]
              exact h.slash hslash
            exact (h.append hback).appendEscaped htoken
        · exact h.append htoken
  · refine Free.set (s := if s.lastTokenIsSlash then _ else _) ?_ _ false
    split
    · exact h.appendEscaped htoken
    · split
      · next hback => exact h.setSlash (free_backslash htoken hback)
      · split
        · exact h.set _ _
        · split
          · exact h.set _ _
          · split
            · exact h.addWord
            · exact h.append htoken

theorem Free.steps (h : s.Free p) {ts : List Text} (hts : ∀ token ∈ ts, ∀ c ∈ token, p c = false) :
    (ts.foldl Cracker.step s).Free p := by
  induction ts generalizing s with
  | nil => exact h
  | cons token ts ih =>
      exact ih (h.step (hts token List.mem_cons_self)) fun t ht => hts t (List.mem_cons_of_mem _ ht)

end Cracker

/-- The words of a line have only characters of the line. -/
theorem translateCommandline_free {p : Char → Bool} {text : Text} (htext : ∀ c ∈ text, p c = false)
    {words : List Text} (h : translateCommandline (some text) = .ok words) :
    ∀ word ∈ words, ∀ c ∈ word, p c = false := by
  cases text with
  | nil =>
      cases h
      exact List.forall_mem_nil _
  | cons x text =>
      have hts : ∀ token ∈ tokens isSpecial (x :: text), ∀ c ∈ token, p c = false := by
        intro token htoken c hc
        exact htext c (mem_of_mem_tokens htoken hc)
      have hstart : Cracker.Free p {} :=
        ⟨List.forall_mem_nil _, List.forall_mem_nil _, fun hslash => nomatch hslash⟩
      have hfree := (hstart.steps hts).addWord
      simp only [translateCommandline] at h
      split at h
      · cases h
      · split at h
        · cases h
        · cases h
          exact hfree.result

/-! ## The line of some arguments -/

/-- An argument as it stands in a line. -/
def quoted (arg : Text) : Text := escape isSpecial '\\' arg

namespace Commandline

theorem appendChar_eq (result : Text) (c : Char) :
    appendChar result c = result ++ if isSpecial c then ['\\', c] else [c] := by
  unfold appendChar
  split
  iterate 4 exact List.append_assoc _ _ _
  next hspace hback hdouble hsingle =>
    have hplain : isSpecial c = false := by
      simp only [isSpecial, Bool.or_eq_false_iff, beq_eq_false_iff_ne]
      exact ⟨⟨⟨hback, hdouble⟩, hsingle⟩, hspace⟩
    rw [hplain]
    rfl

theorem foldl_appendChar (result arg : Text) :
    arg.foldl appendChar result = result ++ quoted arg := by
  unfold quoted escape
  induction arg generalizing result with
  | nil => exact (List.append_nil _).symm
  | cons c arg ih => rw [List.foldl_cons, ih, appendChar_eq, List.flatMap_cons, List.append_assoc]

theorem appendArg_of_ne_nil {result : Text} (hne : result ≠ []) (arg : Text) :
    appendArg result arg = result ++ ' ' :: quoted arg := by
  unfold appendArg
  rw [foldl_appendChar, if_neg (mt List.isEmpty_iff.mp hne), List.append_assoc]
  rfl

theorem foldl_appendArg {result : Text} (hne : result ≠ []) (args : List Text) :
    args.foldl appendArg result = result ++ args.flatMap fun arg => ' ' :: quoted arg := by
  induction args generalizing result with
  | nil => exact (List.append_nil _).symm
  | cons arg args ih =>
      have hnext : result ++ ' ' :: quoted arg ≠ [] := List.append_ne_nil_of_left_ne_nil hne _
      rw [List.foldl_cons, appendArg_of_ne_nil hne, ih hnext, List.flatMap_cons, List.append_assoc]

/-- The line is the quoted arguments with a space before each but the first. -/
theorem toString_cons {arg : Text} (hne : arg ≠ []) (args : List Text) :
    toString (some (arg :: args)) = quoted arg ++ args.flatMap fun arg => ' ' :: quoted arg := by
  have hfirst : appendArg [] arg = quoted arg := foldl_appendChar [] arg
  have hquoted : quoted arg ≠ [] := escape_ne_nil hne _
  show args.foldl appendArg (appendArg [] arg) = _
  rw [hfirst, foldl_appendArg hquoted]

end Commandline

/-! ## Cracking it -/

namespace Cracker

/-- Outside quotes, with no flag set: the words so far, and the characters of the next one. -/
def reading (result : List Text) (current : Text) : Cracker :=
  { result := result, current := current }

theorem step_run {result : List Text} {current run : Text} (hrun : ∀ c ∈ run, isSpecial c = false) :
    (reading result current).step run = reading result (current ++ run) := by
  have hne {c : Char} (hc : isSpecial c = true) : run ≠ [c] := by
    rintro rfl
    rw [hrun c List.mem_cons_self] at hc
    cases hc
  have hback : run ≠ ['\\'] := hne rfl
  have hsingle : run ≠ ['\''] := hne rfl
  have hdouble : run ≠ ['"'] := hne rfl
  have hspace : run ≠ [' '] := hne rfl
  simp [reading, step, stepNormal, append, hback, hsingle, hdouble, hspace]

/-- The backslash sets the flag, the token after it is taken as it is and clears the flag. -/
theorem step_escaped (result : List Text) (current token : Text) :
    ((reading result current).step ['\\']).step token = reading result (current ++ token) := by
  simp [reading, step, stepNormal, appendEscaped, append]

theorem addWord_reading {word : Text} (hne : word ≠ []) (result : List Text) :
    (reading result word).addWord = reading (result ++ [word]) [] := by
  simp [reading, addWord, hne]

theorem step_space {word : Text} (hne : word ≠ []) (result : List Text) :
    (reading result word).step [' '] = reading (result ++ [word]) [] := by
  have hword := addWord_reading hne result
  show { (reading result word).addWord with lastTokenHasBeenQuoted := false } = _
  rw [hword]
  rfl

theorem unescapes (result : List Text) :
    Unescapes isSpecial '\\' (fun current text => current ++ text)
    fun current ts => ts.foldl Cracker.step (reading result current) where
  push_nil := List.append_nil
  push_push := List.append_assoc
  run current run rest _ hrun := by rw [List.foldl_cons, step_run hrun]
  escaped current c rest _ := by rw [List.foldl_cons, List.foldl_cons, step_escaped]

theorem crack_arg (result : List Text) (arg : Text) {rest : Text}
    (hrest : ∀ c ∈ rest.head?, isSpecial c = true) :
    (tokens isSpecial (quoted arg ++ rest)).foldl Cracker.step (reading result []) =
      (tokens isSpecial rest).foldl Cracker.step (reading result arg) :=
  (unescapes result).read_escape rfl [] arg hrest

/-- The induction is over the arguments after the first one. -/
theorem crack_line {arg : Text} (hne : arg ≠ []) {args : List Text} (hargs : ∀ arg ∈ args, arg ≠ [])
    (result : List Text) :
    ((tokens isSpecial (quoted arg ++ args.flatMap fun arg => ' ' :: quoted arg)).foldl Cracker.step
      (reading result [])).addWord = reading (result ++ arg :: args) [] := by
  induction args generalizing arg result with
  | nil =>
      have hend : ∀ c ∈ ([] : Text).head?, isSpecial c = true := fun c hc => nomatch hc
      rw [List.flatMap_nil, crack_arg result arg hend]
      exact addWord_reading hne result
  | cons next args ih =>
      obtain ⟨hnext, htail⟩ := List.forall_mem_cons.mp hargs
      have hspace : ∀ c ∈ (' ' :: (quoted next ++ args.flatMap fun arg => ' ' :: quoted arg)).head?,
          isSpecial c = true := by
        intro c hc
        cases hc
        rfl
      rw [List.flatMap_cons, List.cons_append, crack_arg result arg hspace]
      -- the space ends the word, and the next argument is read from an empty one
      show ((tokens isSpecial _).foldl Cracker.step ((reading result arg).step [' '])).addWord = _
      rw [step_space hne, ih hnext htail, List.append_assoc]
      rfl

end Cracker

theorem translateCommandline_of_reading {text : Text} (hne : text ≠ []) {words : List Text}
    (h : ((tokens isSpecial text).foldl Cracker.step {}).addWord = Cracker.reading words []) :
    translateCommandline (some text) = .ok words := by
  obtain ⟨c, rest, rfl⟩ := List.exists_cons_of_ne_nil hne
  simp [translateCommandline, h, Cracker.reading]

/-- Cracking the line of some arguments returns them. -/
theorem translateCommandline_toString (args : List Text) (hargs : ∀ arg ∈ args, arg ≠ []) :
    translateCommandline (some (Commandline.toString (some args))) = .ok args := by
  cases args with
  | nil => rfl
  | cons arg args =>
      obtain ⟨hne, htail⟩ := List.forall_mem_cons.mp hargs
      have hquoted : quoted arg ≠ [] := escape_ne_nil hne _
      rw [Commandline.toString_cons hne]
      apply translateCommandline_of_reading (List.append_ne_nil_of_left_ne_nil hquoted _)
      exact Cracker.crack_line hne htail []

/-- Arguments with a space, a backslash and both quotes; the last one is a lone backslash. -/
theorem translateCommandline_toString_quotes :
    Commandline.toString (some ["a b\\".toList, "\"it's\"".toList, "\\".toList]) =
        "a\\ b\\\\ \\\"it\\'s\\\" \\\\".toList ∧
      translateCommandline (some (Commandline.toString
        (some ["a b\\".toList, "\"it's\"".toList, "\\".toList]))) =
        .ok ["a b\\".toList, "\"it's\"".toList, "\\".toList] :=
  ⟨by decide, translateCommandline_toString _ (by simp)⟩

end CypherConnect.Utils
