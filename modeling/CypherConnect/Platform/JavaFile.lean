/-
  `java.io.File` on Android: path names as texts.

  A `File` holds a normalised text, without repeated slashes and without one at the end. `.` and
  `..` are kept: they mean something only to the file system.

  * `child_eq`: the text of `File(parent, child)`.
  * `segments_child`: the file system reads it as the names of the parent, then the steps of the
    child.
  * `startsWith_child_iff`: that text starts with the parent's and a slash unless the child has no
    step at all, whatever its steps are.
-/
import CypherConnect.Lib.FileTree
import CypherConnect.Lib.Scan

namespace CypherConnect

namespace JavaFile

open FileTree

/-- The parts of a path between slashes. -/
def segments (path : List Char) : List (List Char) := (path.splitOn '/').filter fun s => !s.isEmpty

/-- `UnixFileSystem.normalize`. -/
def normalize (path : List Char) : List Char :=
  (if path.head? = some '/' then ['/'] else []) ++ List.intercalate ['/'] (segments path)

/-- `UnixFileSystem.resolve`. -/
def resolve (parent child : List Char) : List Char :=
  if child = [] ∨ child = ['/'] then parent
  else if child.head? = some '/' then (if parent = ['/'] then child else parent ++ child)
  else if parent = ['/'] then parent ++ child
  else parent ++ '/' :: child

/-- The text of `File(parent, child)`. -/
def child (parent path : List Char) : List Char := resolve parent (normalize path)

/-- What the file system makes of a part of a path. -/
def step (s : List Char) : Segment (List Char) :=
  if s = ['.'] then .here else if s = ['.', '.'] then .up else .name s

/-- The steps of an absolute path. -/
def steps (path : List Char) : List (Segment (List Char)) := (segments path).map step

def IsName (n : List Char) : Prop := n ≠ [] ∧ '/' ∉ n ∧ n ≠ ['.'] ∧ n ≠ ['.', '.']

/-- An absolute path of names, other than that of the root. -/
structure Directory where
  names : List (List Char)
  names_ne : names ≠ []
  isName : ∀ n ∈ names, IsName n

namespace Directory

def text (d : Directory) : List Char := d.names.flatMap ('/' :: ·)

def location (d : Directory) : Location (List Char) := d.names.reverse

/-- `File(d, n)` for a name `n`. -/
def sub (d : Directory) (n : List Char) (hn : IsName n) : Directory where
  names := d.names ++ [n]
  names_ne := List.append_ne_nil_of_right_ne_nil _ (List.cons_ne_nil n [])
  isName := by
    exact List.forall_mem_append.mpr ⟨d.isName, List.forall_mem_singleton.mpr hn⟩

end Directory

/-! ## Parts -/

@[simp] theorem segments_nil : segments [] = [] := rfl

theorem segments_append (a b : List Char) :
    segments (a ++ '/' :: b) = segments a ++ segments b := by
  unfold segments
  rw [List.splitOn_append_cons_self, List.filter_append]

theorem segments_cons (b : List Char) : segments ('/' :: b) = segments b := segments_append [] b

theorem segments_name {n : List Char} (hne : n ≠ []) (hslash : '/' ∉ n) : segments n = [n] := by
  unfold segments
  rw [List.splitOn_eq_singleton hslash]
  simp [hne]

theorem mem_segments {path s : List Char} (h : s ∈ segments path) : s ≠ [] ∧ '/' ∉ s := by
  unfold segments at h
  obtain ⟨hmem, hne⟩ := List.mem_filter.mp h
  exact ⟨by simpa using hne, Scan.not_mem_of_mem_splitOn hmem⟩

theorem segments_intercalate {parts : List (List Char)} (h : ∀ s ∈ parts, s ≠ [] ∧ '/' ∉ s) :
    segments (List.intercalate ['/'] parts) = parts := by
  by_cases hparts : parts = []
  · rw [hparts]
    rfl
  · unfold segments
    rw [List.splitOn_intercalate '/' (fun s hs => (h s hs).2) hparts]
    refine List.filter_eq_self.mpr fun s hs => ?_
    simpa using (h s hs).1

theorem segments_names {names : List (List Char)} (h : ∀ s ∈ names, s ≠ [] ∧ '/' ∉ s) :
    segments (names.flatMap ('/' :: ·)) = names := by
  induction names with
  | nil => rfl
  | cons n names ih =>
      obtain ⟨hne, hslash⟩ := h n List.mem_cons_self
      have htail : segments (names.flatMap ('/' :: ·)) = names :=
        ih fun s hs => h s (List.mem_cons_of_mem n hs)
      rw [List.flatMap_cons, List.cons_append, segments_cons]
      cases names with
      | nil =>
          rw [List.flatMap_nil, List.append_nil]
          exact segments_name hne hslash
      | cons m names =>
          rw [List.flatMap_cons, List.cons_append, segments_cons] at htail
          rw [List.flatMap_cons, List.cons_append, segments_append, segments_name hne hslash, htail]
          rfl

/-! ## Children -/

namespace Directory

variable (d : Directory) (path : List Char)

theorem segments_text : segments d.text = d.names :=
  segments_names fun n hn => ⟨(d.isName n hn).1, (d.isName n hn).2.1⟩

theorem text_ne_slash : d.text ≠ ['/'] := by
  intro h
  have hsegments := d.segments_text
  rw [h] at hsegments
  exact d.names_ne hsegments.symm

theorem steps_text : steps d.text = d.names.map .name := by
  unfold steps
  rw [segments_text]
  refine List.map_congr_left fun n hn => ?_
  obtain ⟨-, -, hdot, hdots⟩ := d.isName n hn
  unfold step
  rw [if_neg hdot, if_neg hdots]

theorem head_intercalate {parts : List (List Char)} (h : ∀ s ∈ parts, s ≠ [] ∧ '/' ∉ s) :
    (List.intercalate ['/'] parts).head? ≠ some '/' := by
  cases parts with
  | nil => exact fun h => nomatch h
  | cons s parts =>
      obtain ⟨hne, hslash⟩ := h s List.mem_cons_self
      obtain ⟨c, s, rfl⟩ := List.exists_cons_of_ne_nil hne
      have hc : c ≠ '/' := fun heq => hslash (heq ▸ List.mem_cons_self)
      cases parts with
      | nil => simpa [List.intercalate] using hc
      | cons s' parts => simpa [List.intercalate] using hc

theorem intercalate_eq_nil {parts : List (List Char)} (h : ∀ s ∈ parts, s ≠ [] ∧ '/' ∉ s)
    (hnil : List.intercalate ['/'] parts = []) : parts = [] := by
  rw [← segments_intercalate h, hnil, segments_nil]

/-- The text of `File(d, path)`. -/
theorem child_eq : child d.text path =
    if segments path = [] then d.text
    else d.text ++ '/' :: List.intercalate ['/'] (segments path) := by
  have hparts : ∀ s ∈ segments path, s ≠ [] ∧ '/' ∉ s := fun s hs => mem_segments hs
  have hhead := head_intercalate hparts
  unfold child normalize resolve
  by_cases hempty : segments path = []
  · rw [if_pos hempty, hempty]
    split <;> simp [List.intercalate]
  · have hne : List.intercalate ['/'] (segments path) ≠ [] :=
      fun hnil => hempty (intercalate_eq_nil hparts hnil)
    rw [if_neg hempty]
    split
    · simp [hne, d.text_ne_slash]
    · have hslash : List.intercalate ['/'] (segments path) ≠ ['/'] := by
        intro heq
        rw [heq] at hhead
        exact hhead rfl
      simp [hne, hslash, hhead, d.text_ne_slash]

theorem segments_child : segments (child d.text path) = d.names ++ segments path := by
  rw [child_eq]
  split
  · next hempty => rw [hempty, List.append_nil, segments_text]
  · rw [segments_append, segments_text, segments_intercalate fun s hs => mem_segments hs]

theorem steps_child : steps (child d.text path) = d.names.map .name ++ steps path := by
  unfold steps
  rw [segments_child, List.map_append, ← steps_text]
  unfold steps
  rw [segments_text]

/-- A prefix test on the text sees only whether the child has any step. -/
theorem startsWith_child_iff :
    (d.text ++ ['/']).isPrefixOf (child d.text path) = true ↔ segments path ≠ [] := by
  rw [List.isPrefixOf_iff_prefix, child_eq]
  split
  · next hempty =>
      refine ⟨fun h => ?_, fun h => absurd hempty h⟩
      have hlength := h.length_le
      rw [List.length_append, List.length_singleton] at hlength
      omega
  · next hne =>
      refine ⟨fun _ => hne, fun _ => ?_⟩
      rw [List.prefix_append_right_inj]
      exact ⟨_, rfl⟩

end Directory

end JavaFile

end CypherConnect
