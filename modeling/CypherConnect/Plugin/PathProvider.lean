/-
  `PathProvider`: the rows of a plugin's content provider, one for each file offered to the query.

  `addTo` walks a file tree. It goes on only where the destination is a beginning of the base path
  of the query, and `addPath` adds a row only where the base path is a beginning of the destination.
  A file passes both tests exactly if its destination is the base path itself.

  * `addTo_eq`, `addAt_eq`: the rows that are added.
  * `addTo_offers_iff`: they are the files in scope exactly if no file lies below the base path.
-/
import Mathlib.Data.List.Perm.Basic
import CypherConnect.Lib.Scan
import CypherConnect.Database.Profile

namespace CypherConnect.Plugin

open Scan

/-- A file with its `name`; of a directory also what `listFiles` returns. -/
inductive FileEntry where
  | file (name : Text)
  | directory (name : Text) (listFiles : List FileEntry)

def FileEntry.name : FileEntry → Text
  | .file name => name
  | .directory name _ => name

/-- A row of the `MatrixCursor`. -/
structure PathRow where
  path : Text
  mode : Int
  deriving DecidableEq, Repr

/-- `trim('/')`. -/
def trimSlashes (path : Text) : Text := trim (· == '/') path

structure PathProvider where
  basePath : Text
  cursor : List PathRow
  trimmed : trimSlashes basePath = basePath

namespace PathProvider

/-- The constructor, with the path of the `Uri`. -/
def ofUri (path : Option Text) (cursor : List PathRow) : PathProvider where
  basePath := (path.map trimSlashes).getD []
  cursor := cursor
  trimmed := by
    cases path with
    | none => rfl
    | some path => exact trim_trim _ path

/-- The mode of a file that is not given one. -/
def defaultMode : Int := 0b110100100

def addPath (p : PathProvider) (path : Text) (mode : Int := defaultMode) : PathProvider :=
  let trimmed := trimSlashes path
  if p.basePath.isPrefixOf trimmed then { p with cursor := p.cursor ++ [⟨trimmed, mode⟩] } else p

mutual

/-- `into` is the parameter `to`. -/
def addTo (p : PathProvider) (file : FileEntry) (into : Text := []) (mode : Int := defaultMode) :
    PathProvider :=
  let sub := into ++ file.name
  if sub.isPrefixOf p.basePath then
    match file with
    | .directory _ listFiles => addAllTo p listFiles (sub ++ ['/']) mode
    | .file _ => p.addPath sub mode
  else p

/-- The `forEach` over the files of a directory. -/
def addAllTo (p : PathProvider) (files : List FileEntry) (into : Text) (mode : Int) :
    PathProvider :=
  match files with
  | [] => p
  | file :: files => addAllTo (addTo p file into mode) files into mode

end

/-- `place` is the parameter `at`. -/
def addAt (p : PathProvider) (file : FileEntry) (place : Text := []) (mode : Int := defaultMode) :
    PathProvider :=
  if place.isPrefixOf p.basePath then
    match file with
    | .directory _ listFiles => addAllTo p listFiles place mode
    | .file _ => p.addPath place mode
  else p

end PathProvider

/-! ## The destinations of a tree -/

mutual

/-- The destinations of the regular files, for the destination of the tree. -/
def FileEntry.destinationsAt (place : Text) : FileEntry → List Text
  | .file _ => [place]
  | .directory _ listFiles => destinationsIn (place ++ ['/']) listFiles

/-- The destinations of the regular files of some trees in one directory. -/
def destinationsIn (into : Text) : List FileEntry → List Text
  | [] => []
  | file :: files => file.destinationsAt (into ++ file.name) ++ destinationsIn into files

end

mutual

theorem FileEntry.prefix_of_mem_destinationsAt {place d : Text} (file : FileEntry)
    (h : d ∈ file.destinationsAt place) : place <+: d := by
  match file with
  | .file _ =>
      obtain rfl := List.mem_singleton.mp h
      exact List.prefix_rfl
  | .directory _ listFiles =>
      exact (List.prefix_append place ['/']).trans (prefix_of_mem_destinationsIn listFiles h)

theorem prefix_of_mem_destinationsIn {into d : Text} (files : List FileEntry)
    (h : d ∈ destinationsIn into files) : into <+: d := by
  match files with
  | [] => cases h
  | file :: files =>
      rcases List.mem_append.mp h with h | h
      · exact (List.prefix_append into file.name).trans (file.prefix_of_mem_destinationsAt h)
      · exact prefix_of_mem_destinationsIn files h

end

namespace PathProvider

/-- The rows of the files whose destination is the base path. -/
def found (basePath : Text) (mode : Int) (destinations : List Text) : List PathRow :=
  (destinations.filter (· == basePath)).map (⟨·, mode⟩)

theorem found_append (basePath : Text) (mode : Int) (a b : List Text) :
    found basePath mode (a ++ b) = found basePath mode a ++ found basePath mode b := by
  simp [found]

/-- Nothing is found below a place that the base path does not begin with. -/
theorem found_eq_nil {basePath place : Text} (mode : Int) {destinations : List Text}
    (h : ∀ d ∈ destinations, place <+: d) (hplace : ¬ place <+: basePath) :
    found basePath mode destinations = [] := by
  simp only [found, List.map_eq_nil_iff, List.filter_eq_nil_iff, beq_iff_eq]
  intro d hd heq
  exact hplace (heq ▸ h d hd)

def extend (p : PathProvider) (rows : List PathRow) : PathProvider :=
  { p with cursor := p.cursor ++ rows }

@[simp] theorem extend_basePath (p : PathProvider) (rows : List PathRow) :
    (p.extend rows).basePath = p.basePath := rfl

@[simp] theorem extend_nil (p : PathProvider) : p.extend [] = p := by
  simp [extend]

@[simp] theorem extend_extend (p : PathProvider) (a b : List PathRow) :
    (p.extend a).extend b = p.extend (a ++ b) := by
  simp [extend]

/-- What passes both tests is the base path: it is not longer than what is trimmed, and that is not
longer than the base path. -/
theorem addPath_eq {p : PathProvider} {path : Text} (h : path <+: p.basePath) (mode : Int) :
    p.addPath path mode = p.extend (found p.basePath mode [path]) := by
  by_cases heq : path = p.basePath
  · have hself : p.basePath.isPrefixOf p.basePath = true :=
      List.isPrefixOf_iff_prefix.mpr (List.prefix_refl _)
    simp [addPath, found, extend, heq, p.trimmed, hself]
  · have hshort : ¬ p.basePath.isPrefixOf (trimSlashes path) = true := by
      intro htest
      have hle := (List.isPrefixOf_iff_prefix.mp htest).length_le
      have htrim := (trim_sublist (· == '/') path).length_le
      exact heq (h.eq_of_length_le (Nat.le_trans hle htrim))
    simp [addPath, found, heq, hshort]

mutual

/-- The rows that `addTo` adds. -/
theorem addTo_eq (p : PathProvider) (file : FileEntry) (into : Text) (mode : Int) :
    p.addTo file into mode =
      p.extend (found p.basePath mode (file.destinationsAt (into ++ file.name))) := by
  by_cases h : into ++ file.name <+: p.basePath
  · have htest := List.isPrefixOf_iff_prefix.mpr h
    match file with
    | .file name =>
        rw [addTo]
        simp only [htest, if_true]
        exact addPath_eq h mode
    | .directory name listFiles =>
        rw [addTo]
        simp only [htest, if_true]
        exact addAllTo_eq p listFiles _ mode
  · have htest := mt List.isPrefixOf_iff_prefix.mp h
    have hnone := found_eq_nil mode (fun d hd => file.prefix_of_mem_destinationsAt hd) h
    rw [addTo.eq_def, hnone, extend_nil]
    exact if_neg htest

theorem addAllTo_eq (p : PathProvider) (files : List FileEntry) (into : Text) (mode : Int) :
    p.addAllTo files into mode = p.extend (found p.basePath mode (destinationsIn into files)) := by
  match files with
  | [] => exact (extend_nil p).symm
  | file :: files =>
      have hfirst := addTo_eq p file into mode
      have hrest := addAllTo_eq (p.addTo file into mode) files into mode
      rw [addAllTo, hrest, hfirst, extend_extend, extend_basePath, ← found_append]
      rfl

end

/-- What `addAt` offers: a file at the place itself, and the files of a directory right below it. -/
theorem addAt_eq (p : PathProvider) (file : FileEntry) (place : Text) (mode : Int) :
    p.addAt file place mode = p.extend (found p.basePath mode
      (match file with
        | .file _ => [place]
        | .directory _ listFiles => destinationsIn place listFiles)) := by
  by_cases h : place <+: p.basePath
  · have htest := List.isPrefixOf_iff_prefix.mpr h
    unfold addAt
    rw [if_pos htest]
    cases file with
    | file name => exact addPath_eq h mode
    | directory name listFiles => exact addAllTo_eq p listFiles place mode
  · have htest := mt List.isPrefixOf_iff_prefix.mp h
    unfold addAt
    rw [if_neg htest, found_eq_nil mode _ h, extend_nil]
    cases file with
    | file name => exact List.forall_mem_singleton.mpr List.prefix_rfl
    | directory name listFiles => exact fun d hd => prefix_of_mem_destinationsIn listFiles hd

/-! ## The files in scope -/

/-- The rows that offer the files in scope: those whose destination begins with the base path. -/
def inScope (basePath : Text) (mode : Int) (destinations : List Text) : List PathRow :=
  (destinations.filter (basePath.isPrefixOf ·)).map (⟨·, mode⟩)

theorem mem_inScope {basePath d : Text} {mode : Int} {destinations : List Text} :
    ⟨d, mode⟩ ∈ inScope basePath mode destinations ↔ d ∈ destinations ∧ basePath <+: d := by
  simp [inScope]

theorem mem_found {basePath d : Text} {mode : Int} {destinations : List Text} :
    ⟨d, mode⟩ ∈ found basePath mode destinations ↔ d ∈ destinations ∧ d = basePath := by
  simp [found]

theorem found_perm_inScope_iff {basePath : Text} {mode : Int} {destinations : List Text} :
    (found basePath mode destinations).Perm (inScope basePath mode destinations) ↔
      ∀ d ∈ destinations, basePath <+: d → d = basePath := by
  constructor
  · intro h d hd hbase
    have hrow : ⟨d, mode⟩ ∈ found basePath mode destinations :=
      h.mem_iff.mpr (mem_inScope.mpr ⟨hd, hbase⟩)
    exact (mem_found.mp hrow).2
  · intro h
    have hsame : destinations.filter (· == basePath) = destinations.filter
        (basePath.isPrefixOf ·) := by
      apply List.filter_congr
      intro d hd
      rw [Bool.eq_iff_iff, beq_iff_eq, List.isPrefixOf_iff_prefix]
      refine ⟨?_, h d hd⟩
      rintro rfl
      exact List.prefix_rfl
    rw [found, inScope, hsame]

/-- `addTo` offers the files in scope exactly if no file lies below the base path. -/
theorem addTo_offers_iff (p : PathProvider) (file : FileEntry) (into : Text) (mode : Int) :
    (p.addTo file into mode).cursor.Perm
        (p.cursor ++ inScope p.basePath mode (file.destinationsAt (into ++ file.name))) ↔
      ∀ d ∈ file.destinationsAt (into ++ file.name), p.basePath <+: d → d = p.basePath := by
  rw [addTo_eq]
  show (p.cursor ++ found _ _ _).Perm _ ↔ _
  rw [List.perm_append_left_iff, found_perm_inScope_iff]

/-- A query without a path gets no row for the only file there is. -/
theorem addTo_offers_nothing :
    ((ofUri none []).addTo (.file "v2ray".toList)).cursor = [] ∧
      inScope (ofUri none []).basePath defaultMode
        ((FileEntry.file "v2ray".toList).destinationsAt "v2ray".toList) =
          [⟨"v2ray".toList, defaultMode⟩] := by
  decide

/-- A query for the path of a file in a directory gets its row. -/
theorem addTo_offers_file :
    ((ofUri (some "/bin/v2ray".toList) []).addTo
      (.directory "bin".toList [.file "geoip".toList, .file "v2ray".toList])).cursor.Perm
        [⟨"bin/v2ray".toList, defaultMode⟩] :=
  (addTo_offers_iff (ofUri (some "/bin/v2ray".toList) [])
    (.directory "bin".toList [.file "geoip".toList, .file "v2ray".toList]) [] defaultMode).mpr
      (by decide)

end PathProvider

end CypherConnect.Plugin
