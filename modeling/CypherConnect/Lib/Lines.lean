/-
  Lines of a text, as `BufferedReader.readLine` returns them: a line ends at a line feed, at a
  carriage return, or at the two together; what follows the last end of line is a line if it is not
  empty.

  * `readLines_unlines`: lines that are written with a line feed after each are read back.
  * `isLine_of_mem`: a line has no end of line in it.
-/
import Mathlib.Data.List.Basic

namespace CypherConnect.Lines

/-- The lines of a text that follows `run`. After a carriage return a line feed is skipped. -/
def readFrom (run : List Char) (skipLF : Bool) : List Char → List (List Char)
  | [] => if run.isEmpty then [] else [run]
  | c :: t =>
      if c = '\n' then if skipLF then readFrom run false t else run :: readFrom [] false t
      else if c = '\r' then run :: readFrom [] true t
      else readFrom (run ++ [c]) false t

def readLines (t : List Char) : List (List Char) := readFrom [] false t

/-- Every line with a line feed after it. -/
def unlines (lines : List (List Char)) : List Char := lines.flatMap (· ++ ['\n'])

/-- A text without ends of lines. -/
def IsLine (t : List Char) : Prop := '\n' ∉ t ∧ '\r' ∉ t

theorem IsLine.tail {c : Char} {t : List Char} (h : IsLine (c :: t)) : IsLine t :=
  ⟨fun hm => h.1 (List.mem_cons_of_mem _ hm), fun hm => h.2 (List.mem_cons_of_mem _ hm)⟩

theorem readFrom_line {line : List Char} (h : IsLine line) (run rest : List Char) :
    readFrom run false (line ++ '\n' :: rest) = (run ++ line) :: readLines rest := by
  induction line generalizing run with
  | nil =>
      rw [List.append_nil]
      rfl
  | cons c line ih =>
      have hn : c ≠ '\n' := fun heq => h.1 (heq ▸ List.mem_cons_self)
      have hr : c ≠ '\r' := fun heq => h.2 (heq ▸ List.mem_cons_self)
      rw [List.cons_append, readFrom, if_neg hn, if_neg hr, ih h.tail, List.append_assoc]
      rfl

/-- Lines are read back. -/
theorem readLines_unlines {lines : List (List Char)} (h : ∀ line ∈ lines, IsLine line) :
    readLines (unlines lines) = lines := by
  induction lines with
  | nil => rfl
  | cons line lines ih =>
      have htail := ih fun x hx => h x (List.mem_cons_of_mem _ hx)
      show readFrom [] false ((line ++ ['\n']) ++ unlines lines) = _
      rw [List.append_assoc, List.singleton_append,
        readFrom_line (h line List.mem_cons_self), htail]
      rfl

theorem isLine_readFrom {run t line : List Char} {skipLF : Bool} (hrun : IsLine run)
    (hline : line ∈ readFrom run skipLF t) : IsLine line := by
  have hnil : IsLine [] := ⟨List.not_mem_nil, List.not_mem_nil⟩
  induction t generalizing run skipLF with
  | nil =>
      unfold readFrom at hline
      split at hline
      · cases hline
      · rw [List.mem_singleton.mp hline]
        exact hrun
  | cons c t ih =>
      unfold readFrom at hline
      split at hline
      · split at hline
        · exact ih hrun hline
        · rcases List.mem_cons.mp hline with rfl | hline
          · exact hrun
          · exact ih hnil hline
      · next hn =>
          split at hline
          · rcases List.mem_cons.mp hline with rfl | hline
            · exact hrun
            · exact ih hnil hline
          · next hr =>
              refine ih ⟨?_, ?_⟩ hline
              · rw [List.mem_append, List.mem_singleton]
                rintro (hm | hm)
                · exact hrun.1 hm
                · exact hn hm.symm
              · rw [List.mem_append, List.mem_singleton]
                rintro (hm | hm)
                · exact hrun.2 hm
                · exact hr hm.symm

/-- A line has no end of line in it. -/
theorem isLine_of_mem {t line : List Char} (h : line ∈ readLines t) : IsLine line :=
  isLine_readFrom ⟨List.not_mem_nil, List.not_mem_nil⟩ h

end CypherConnect.Lines
