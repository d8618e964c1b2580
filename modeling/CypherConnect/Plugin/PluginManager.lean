/-
  `PluginManager.initNativeSlow`: the files of a plugin, copied from its content provider.

  The provider names each file by a path, and the path goes into `File(pluginDir, path)` unchanged.
  The check behind it is a prefix test on the absolute path, which keeps `..` as it is: it refuses
  only a path without any step. Where the file goes is then up to the file system.

  * `check_iff`: what the check refuses.
  * `extractRow_spec`: what happens to one row.
  * `extraction_confined_iff`: the files stay in the plugin directory exactly if no row that is
    reached opens a location outside.
  * `not_escapes_of_no_up`: a path without `..` opens none.
-/
import CypherConnect.Platform.JavaFile
import CypherConnect.Database.Profile

namespace CypherConnect

namespace PluginManager

open FileTree JavaFile

/-- What the file system keeps of a file. -/
structure StoredFile where
  content : List UInt8
  mode : Int
  deriving DecidableEq, Repr

abbrev Files := FileTree Text StoredFile

/-- Column 1 of a row. -/
inductive Mode where
  | integer (n : Int)
  | string (t : Text)
  | other
  deriving DecidableEq, Repr

/-- What `copyTo` gets out of the stream of a row: these bytes, then the end of the stream or an
exception. -/
structure Input where
  bytes : List UInt8
  ends : Bool := true
  deriving DecidableEq, Repr

/-- A row of the provider's answer, and the stream it opens for that row; `none` is `null` or an
exception. -/
structure Row where
  path : Option Text
  mode : Mode
  input : Option Input
  deriving DecidableEq, Repr

inductive Failure where
  /-- `entryNotFound()`. -/
  | entryNotFound
  /-- "Unable to create plugin directory". -/
  | pluginDirectory
  | nullPointer
  /-- The `check`. -/
  | illegalState
  | noInput
  /-- `FileOutputStream` could not open the file. -/
  | fileNotFound
  | io
  | numberFormat
  /-- "File mode should be of type int". -/
  | illegalArgument
  | errno
  deriving DecidableEq, Repr

/-- The parts of the system that are not modelled: whether it lets the app delete and make the
plugin directory, open a file for writing (permissions, lengths of names) and change its mode; and
`Character.digit(c, 8)`. -/
structure System where
  removes : Bool
  makes : Bool
  permits : Text → Location Text → Bool
  chmods : Location Text → Bool
  octalDigit : Char → Option Nat

/-- `noBackupFilesDir/plugin`. -/
def pluginDir (noBackupFilesDir : Directory) : Directory :=
  noBackupFilesDir.sub "plugin".toList ⟨by decide, by decide, by decide, by decide⟩

namespace System

variable (sys : System)

/-- `FileOutputStream(file)`: the location it opens. -/
def openOutput (files : Files) (file : Text) : Option (Location Text) :=
  if '\x00' ∈ file then none
  else
    match files.denotes [] (steps file) with
    | none => none
    | some loc => if files.isDirectory loc || !sys.permits file loc then none else some loc

/-- The mode a file keeps when it is opened; a new one is its owner's. -/
def modeOf (files : Files) (loc : Location Text) : Int :=
  match files.node loc with
  | some (.file f) => f.mode
  | _ => 0o600

/-- `String.toInt(8)`. -/
def toInt8 (t : Text) : Option Int := JavaInteger.parseInt 8 sys.octalDigit t

def modeValue : Mode → Except Failure Int
  | .integer n => .ok n
  | .string t =>
      match sys.toInt8 t with
      | some n => .ok n
      | none => .error .numberFormat
  | .other => .error .illegalArgument

/-- `Os.chmod`. -/
def chmod (files : Files) (loc : Location Text) (content : List UInt8) (mode : Int) :
    Option Files :=
  if sys.chmods loc then files.put loc ⟨content, mode⟩ else none

end System

/-- What a row leaves behind. -/
structure RowResult where
  files : Files
  /-- The file created or overwritten. -/
  written : Option (Location Text) := none
  failure : Option Failure := none

section Extraction

variable (sys : System) (dir : Directory)

/-- The body of the loop, up to `initialized`. -/
def extractRow (files : Files) (row : Row) : RowResult :=
  match row.path with
  | none => { files, failure := some .nullPointer }
  | some path =>
      let file := child dir.text path
      if !(dir.text ++ ['/']).isPrefixOf file then { files, failure := some .illegalState }
      else
        match row.input with
        | none => { files, failure := some .noInput }
        | some input =>
            match sys.openOutput files file with
            | none => { files, failure := some .fileNotFound }
            | some loc =>
                match files.put loc ⟨input.bytes, System.modeOf files loc⟩ with
                | none => { files, failure := some .fileNotFound }
                | some files =>
                    if !input.ends then { files, written := some loc, failure := some .io }
                    else
                      match sys.modeValue row.mode with
                      | .error f => { files, written := some loc, failure := some f }
                      | .ok mode =>
                          match sys.chmod files loc input.bytes mode with
                          | none => { files, written := some loc, failure := some .errno }
                          | some files => { files, written := some loc }

structure Extraction where
  files : Files
  /-- The files created or overwritten so far. -/
  written : List (Location Text) := []
  initialized : Bool := false

variable (id : Text)

/-- The loop over the cursor. It ends at the first failure. -/
def extractRows (s : Extraction) : List Row → Extraction × Option Failure
  | [] => (s, none)
  | row :: rows =>
      let r := extractRow sys dir s.files row
      let written := s.written ++ r.written.toList
      match r.failure with
      | some f => ({ s with files := r.files, written }, some f)
      | none =>
          extractRows ⟨r.files, written, s.initialized || row.path == some id⟩ rows

/-- `deleteRecursively` and `mkdirs`. Where not everything can be deleted, the directory is still
there and cannot be made. -/
def prepare (noBackupFilesDir : Directory) (files : Files) : Option Files :=
  let files := if sys.removes then files.remove "plugin".toList noBackupFilesDir.location else files
  if sys.makes then files.mkdirs (pluginDir noBackupFilesDir).location else none

/-- `initNativeSlow`; `query` is what the content resolver answers. -/
def initNativeSlow (noBackupFilesDir : Directory) (files : Files) (query : Option (List Row)) :
    Extraction × Except Failure (Option Text) :=
  match query with
  | none => ({ files }, .ok none)
  | some [] => ({ files }, .error .entryNotFound)
  | some (row :: rows) =>
      match prepare sys noBackupFilesDir files with
      | none => ({ files }, .error .pluginDirectory)
      | some files =>
          match extractRows sys (pluginDir noBackupFilesDir) id { files } (row :: rows) with
          | (s, some f) => (s, .error f)
          | (s, none) =>
              if s.initialized then (s, .ok (some (child (pluginDir noBackupFilesDir).text id)))
              else (s, .error .entryNotFound)

end Extraction

/-! ## One row -/

section Rows

variable {sys : System} {dir : Directory} {files : Files} {row : Row}

/-- The `check` refuses only a path that consists of slashes. -/
theorem check_iff (dir : Directory) (path : Text) :
    (dir.text ++ ['/']).isPrefixOf (child dir.text path) = true ↔ segments path ≠ [] :=
  dir.startsWith_child_iff path

/-- A row whose file is opened outside the plugin directory: the provider opens its stream, and the
path, resolved from the plugin directory, leads to a location that is not below that directory, is
no directory itself, and may be opened for writing. -/
def Escapes (sys : System) (dir : Directory) (files : Files) (row : Row) : Prop :=
  ∃ path loc, row.path = some path ∧ row.input ≠ none ∧ '\x00' ∉ child dir.text path ∧
    files.denotes dir.location (steps path) = some loc ∧ ¬ Below dir.location loc ∧
    files.isDirectory loc = false ∧ sys.permits (child dir.text path) loc = true

theorem denotes_child (hdir : files.isDirectory dir.location = true) (path : Text) :
    files.denotes [] (steps (child dir.text path)) = files.denotes dir.location (steps path) := by
  have hreverse : files.isDirectory (dir.names.reverse ++ []) = true := by
    rw [List.append_nil]
    exact hdir
  rw [dir.steps_child, denotes_names dir.names hreverse, List.append_nil]
  rfl

theorem openOutput_iff (hdir : files.isDirectory dir.location = true) {path : Text}
    {loc : Location Text} : sys.openOutput files (child dir.text path) = some loc ↔
      '\x00' ∉ child dir.text path ∧ files.denotes dir.location (steps path) = some loc ∧
        files.isDirectory loc = false ∧ sys.permits (child dir.text path) loc = true := by
  unfold System.openOutput
  rw [denotes_child hdir]
  constructor
  · intro h
    split at h
    · cases h
    · next hnul =>
        split at h
        · cases h
        · next l hden =>
            split at h
            · cases h
            · next hopen =>
                cases h
                simp only [Bool.or_eq_true, Bool.not_eq_true', not_or, Bool.not_eq_true,
                  Bool.not_eq_false] at hopen
                exact ⟨hnul, hden, hopen.1, hopen.2⟩
  · rintro ⟨hnul, hden, hisdir, hperm⟩
    rw [if_neg hnul, hden]
    simp [hisdir, hperm]

/-- What happens to a row: it fails and nothing is written, or its file is opened and written. -/
theorem extractRow_spec (sys : System) (dir : Directory) (files : Files) (row : Row) :
    (∀ l, (extractRow sys dir files row).files.isDirectory l = files.isDirectory l) ∧
      ((extractRow sys dir files row).written = none ∧
        (extractRow sys dir files row).failure ≠ none ∨
        ∃ path loc, row.path = some path ∧ row.input ≠ none ∧
          sys.openOutput files (child dir.text path) = some loc ∧
          (extractRow sys dir files row).written = some loc) := by
  unfold extractRow
  cases hpath : row.path with
  | none => exact ⟨fun _ => rfl, Or.inl ⟨rfl, Option.some_ne_none _⟩⟩
  | some path =>
      dsimp only
      split
      · exact ⟨fun _ => rfl, Or.inl ⟨rfl, Option.some_ne_none _⟩⟩
      · split
        · exact ⟨fun _ => rfl, Or.inl ⟨rfl, Option.some_ne_none _⟩⟩
        · next input hinput =>
            have hsome : row.input ≠ none := by
              rw [hinput]
              exact Option.some_ne_none _
            split
            · exact ⟨fun _ => rfl, Or.inl ⟨rfl, Option.some_ne_none _⟩⟩
            · next loc hopen =>
                split
                · exact ⟨fun _ => rfl, Or.inl ⟨rfl, Option.some_ne_none _⟩⟩
                · next files1 hput =>
                    have hdirs := put_isDirectory hput
                    split
                    · exact ⟨hdirs, Or.inr ⟨path, loc, rfl, hsome, hopen, rfl⟩⟩
                    · split
                      · exact ⟨hdirs, Or.inr ⟨path, loc, rfl, hsome, hopen, rfl⟩⟩
                      · split
                        · exact ⟨hdirs, Or.inr ⟨path, loc, rfl, hsome, hopen, rfl⟩⟩
                        · next files2 hchmod =>
                            unfold System.chmod at hchmod
                            split at hchmod
                            · refine ⟨fun l => ?_, Or.inr ⟨path, loc, rfl, hsome, hopen, rfl⟩⟩
                              exact (put_isDirectory hchmod l).trans (hdirs l)
                            · cases hchmod

theorem extractRow_dirs (l : Location Text) :
    (extractRow sys dir files row).files.isDirectory l = files.isDirectory l :=
  (extractRow_spec sys dir files row).1 l

/-- A row whose file can be opened is written, whatever becomes of it then. -/
theorem extractRow_written (hdir : files.isDirectory dir.location = true) {path : Text}
    {loc : Location Text} (hpath : row.path = some path) (hinput : row.input ≠ none)
    (hopen : sys.openOutput files (child dir.text path) = some loc) :
    (extractRow sys dir files row).written = some loc := by
  obtain ⟨-, hden, hisdir, -⟩ := (openOutput_iff hdir).mp hopen
  -- a path without steps denotes the plugin directory
  have hcheck : (dir.text ++ ['/']).isPrefixOf (child dir.text path) = true := by
    refine (check_iff dir path).mpr fun hempty => ?_
    unfold steps at hden
    rw [hempty, List.map_nil, denotes] at hden
    cases hden
    exact absurd (hdir.symm.trans hisdir) Bool.noConfusion
  obtain ⟨input, hinput⟩ := Option.ne_none_iff_exists'.mp hinput
  obtain ⟨files1, hput⟩ := put_isSome hdir hden hisdir ⟨input.bytes, System.modeOf files loc⟩
  unfold extractRow
  rw [hpath, hinput]
  dsimp only
  rw [hcheck, hopen]
  dsimp only
  rw [hput, Bool.not_true, if_neg Bool.false_ne_true]
  dsimp only
  split
  · rfl
  · split
    · rfl
    · split
      · rfl
      · rfl

/-- What a row writes is below the plugin directory, unless the row escapes. -/
theorem below_of_written (hdir : files.isDirectory dir.location = true)
    (hrow : ¬ Escapes sys dir files row) {loc : Location Text}
    (h : (extractRow sys dir files row).written = some loc) :
    ∃ path, row.path = some path ∧ files.denotes dir.location (steps path) = some loc ∧
      Below dir.location loc := by
  rcases (extractRow_spec sys dir files row).2 with ⟨hnone, -⟩ | ⟨path, l, hpath, hinput, hopen, hl⟩
  · rw [hnone] at h
    cases h
  · rw [hl] at h
    cases h
    obtain ⟨hnul, hden, hisdir, hperm⟩ := (openOutput_iff hdir).mp hopen
    refine ⟨path, hpath, hden, ?_⟩
    by_contra hout
    exact hrow ⟨path, loc, hpath, hinput, hnul, hden, hout, hisdir, hperm⟩

/-- A path without `..` does not escape. -/
theorem not_escapes_of_no_up (hdir : files.isDirectory dir.location = true) {path : Text}
    (hpath : row.path = some path) (hup : ['.', '.'] ∉ segments path) :
    ¬ Escapes sys dir files row := by
  rintro ⟨path', loc, hpath', -, -, hden, hout, hisdir, -⟩
  obtain rfl := Option.some.inj (hpath.symm.trans hpath')
  have hsteps : Segment.up ∉ steps path := by
    intro hmem
    obtain ⟨s, hs, hstep⟩ := List.mem_map.mp hmem
    unfold step at hstep
    split at hstep
    · cases hstep
    · split at hstep
      · next hdots => exact hup (hdots ▸ hs)
      · cases hstep
  have hsuffix : dir.location <:+ loc := denotes_of_no_up hsteps List.suffix_rfl hden
  refine hout ⟨hsuffix, fun heq => ?_⟩
  rw [← heq, hdir] at hisdir
  cases hisdir

end Rows

/-! ## The loop -/

section Loop

variable {sys : System} {dir : Directory} {id : Text} {s s' : Extraction} {rows : List Row}

theorem extractRows_append {before : List Row} (h : extractRows sys dir id s before = (s', none)) :
    extractRows sys dir id s (before ++ rows) = extractRows sys dir id s' rows := by
  induction before generalizing s with
  | nil =>
      cases h
      rfl
  | cons row before ih =>
      rw [List.cons_append, extractRows]
      rw [extractRows] at h
      split at h
      · cases h
      · exact ih h

/-- Nothing is taken off the list of written files. -/
theorem extractRows_written (s : Extraction) (rows : List Row) :
    s.written <+: (extractRows sys dir id s rows).1.written := by
  induction rows generalizing s with
  | nil => exact List.prefix_rfl
  | cons row rows ih =>
      rw [extractRows]
      split
      · exact List.prefix_append _ _
      · exact (List.prefix_append s.written _).trans (ih ⟨_, _, _⟩)

theorem extractRows_dirs (s : Extraction) (rows : List Row) (l : Location Text) :
    (extractRows sys dir id s rows).1.files.isDirectory l = s.files.isDirectory l := by
  induction rows generalizing s with
  | nil => rfl
  | cons row rows ih =>
      rw [extractRows]
      split
      · exact extractRow_dirs l
      · exact (ih _).trans (extractRow_dirs l)

/-- The files so far, and the entry once it is among them, are below the plugin directory. -/
structure Safe (dir : Directory) (id : Text) (s : Extraction) : Prop where
  directory : s.files.isDirectory dir.location = true
  written : ∀ loc ∈ s.written, Below dir.location loc
  entry : s.initialized = true → ∃ loc,
    s.files.denotes dir.location (steps id) = some loc ∧ Below dir.location loc

/-- One row keeps that, whether it fails or not. -/
theorem safe_row {row : Row} (hs : Safe dir id s) (hrow : ¬ Escapes sys dir s.files row) :
    Safe dir id { s with
        files := (extractRow sys dir s.files row).files
        written := s.written ++ (extractRow sys dir s.files row).written.toList } ∧
      ((extractRow sys dir s.files row).failure = none →
        Safe dir id ⟨(extractRow sys dir s.files row).files,
          s.written ++ (extractRow sys dir s.files row).written.toList,
          s.initialized || row.path == some id⟩) := by
  have hdirs : ∀ l, (extractRow sys dir s.files row).files.isDirectory l = s.files.isDirectory l :=
    extractRow_dirs
  have hdirectory := (hdirs dir.location).trans hs.directory
  have hwritten : ∀ loc ∈ s.written ++ (extractRow sys dir s.files row).written.toList,
      Below dir.location loc := by
    intro loc hloc
    rcases List.mem_append.mp hloc with hloc | hloc
    · exact hs.written loc hloc
    · obtain ⟨-, -, -, hbelow⟩ := below_of_written hs.directory hrow (Option.mem_toList.mp hloc)
      exact hbelow
  have hentry : s.initialized = true → ∃ loc,
      (extractRow sys dir s.files row).files.denotes dir.location (steps id) = some loc ∧
        Below dir.location loc := by
    intro hinit
    rw [denotes_congr hdirs]
    exact hs.entry hinit
  refine ⟨⟨hdirectory, hwritten, hentry⟩, fun hok => ⟨hdirectory, hwritten, fun hinit => ?_⟩⟩
  rcases Bool.or_eq_true_iff.mp hinit with hinit | hid
  · exact hentry hinit
  · -- the row of the entry has been written
    rcases (extractRow_spec sys dir s.files row).2 with ⟨-, hfail⟩ | ⟨-, loc, -, -, -, hloc⟩
    · exact absurd hok hfail
    · obtain ⟨path, hpath, hden, hbelow⟩ := below_of_written hs.directory hrow hloc
      have hsame : path = id := Option.some.inj (hpath.symm.trans (eq_of_beq hid))
      rw [hsame] at hden
      exact ⟨loc, (denotes_congr hdirs).trans hden, hbelow⟩

/-- The loop keeps it, if no row that it reaches escapes. -/
theorem safe_rows (hs : Safe dir id s)
    (hrows : ∀ before row after s', rows = before ++ row :: after →
      extractRows sys dir id s before = (s', none) → ¬ Escapes sys dir s'.files row) :
    Safe dir id (extractRows sys dir id s rows).1 := by
  induction rows generalizing s with
  | nil => exact hs
  | cons row rows ih =>
      obtain ⟨hfailed, hdone⟩ := safe_row hs (hrows [] row rows s rfl rfl)
      rw [extractRows]
      split
      · exact hfailed
      · next hok =>
          refine ih (hdone hok) fun before r after s' heq hrun => ?_
          refine hrows (row :: before) r after s' (congrArg (row :: ·) heq) ?_
          rw [extractRows, hok]
          exact hrun

end Loop

/-! ## The whole call -/

section Call

variable (sys : System) (noBackupFilesDir : Directory) (files : Files) (query : Option (List Row))
  (id : Text)

/-- The loop comes to `row` in state `s`. -/
def Reached (s : Extraction) (row : Row) : Prop :=
  ∃ start before after, query = some (before ++ row :: after) ∧
    prepare sys noBackupFilesDir files = some start ∧
    extractRows sys (pluginDir noBackupFilesDir) id { files := start } before = (s, none)

/-- The files that are written and the entry are strictly inside the plugin directory, and a row
whose path does not denote a location there makes the call fail before anything is written for
it. -/
structure Confined : Prop where
  written : ∀ loc ∈ (initNativeSlow sys id noBackupFilesDir files query).1.written,
    Below (pluginDir noBackupFilesDir).location loc
  entry : ∀ path, (initNativeSlow sys id noBackupFilesDir files query).2 = .ok (some path) →
    ∃ loc, (initNativeSlow sys id noBackupFilesDir files query).1.files.denotes [] (steps path) =
        some loc ∧ Below (pluginDir noBackupFilesDir).location loc
  rows : ∀ s row path, Reached sys noBackupFilesDir files query id s row → row.path = some path →
    (∀ loc, s.files.denotes [] (steps (child (pluginDir noBackupFilesDir).text path)) = some loc →
      ¬ Below (pluginDir noBackupFilesDir).location loc) →
    (∃ f, (initNativeSlow sys id noBackupFilesDir files query).2 = .error f) ∧
      (initNativeSlow sys id noBackupFilesDir files query).1.written = s.written

end Call

variable {sys : System} {noBackupFilesDir : Directory} {files : Files} {query : Option (List Row)}
  {id : Text}

/-- The call once the plugin directory is made. -/
theorem initNativeSlow_prepared {start : Files} {rows : List Row} (hne : rows ≠ [])
    (hstart : prepare sys noBackupFilesDir files = some start) :
    initNativeSlow sys id noBackupFilesDir files (some rows) =
      match extractRows sys (pluginDir noBackupFilesDir) id { files := start } rows with
      | (s, some f) => (s, .error f)
      | (s, none) =>
          if s.initialized then (s, .ok (some (child (pluginDir noBackupFilesDir).text id)))
          else (s, .error .entryNotFound) := by
  obtain ⟨row, rows, rfl⟩ := List.exists_cons_of_ne_nil hne
  rw [initNativeSlow, hstart]

theorem initNativeSlow_fst {start : Files} {rows : List Row} (hne : rows ≠ [])
    (hstart : prepare sys noBackupFilesDir files = some start) :
    (initNativeSlow sys id noBackupFilesDir files (some rows)).1 =
      (extractRows sys (pluginDir noBackupFilesDir) id { files := start } rows).1 := by
  rw [initNativeSlow_prepared hne hstart]
  split
  · next h => rw [h]
  · next h =>
      rw [h]
      split
      · rfl
      · rfl

theorem prepare_directory {start : Files} (h : prepare sys noBackupFilesDir files = some start) :
    start.isDirectory (pluginDir noBackupFilesDir).location = true := by
  unfold prepare at h
  dsimp only at h
  split at h
  · exact mkdirs_isDirectory h
  · cases h

/-- Where the loop is when it reaches a row. -/
theorem reached_spec {s : Extraction} {row : Row}
    (h : Reached sys noBackupFilesDir files query id s row) :
    s.files.isDirectory (pluginDir noBackupFilesDir).location = true ∧ ∃ start before after,
      query = some (before ++ row :: after) ∧ prepare sys noBackupFilesDir files = some start ∧
      extractRows sys (pluginDir noBackupFilesDir) id { files := start } (before ++ row :: after) =
        extractRows sys (pluginDir noBackupFilesDir) id s (row :: after) := by
  obtain ⟨start, before, after, hquery, hstart, hbefore⟩ := h
  refine ⟨?_, start, before, after, hquery, hstart, extractRows_append hbefore⟩
  have hdirs : (extractRows sys (pluginDir noBackupFilesDir) id
      { files := start } before).1.files.isDirectory
      (pluginDir noBackupFilesDir).location = start.isDirectory
        (pluginDir noBackupFilesDir).location :=
    extractRows_dirs _ _ _
  rw [hbefore] at hdirs
  exact hdirs.trans (prepare_directory hstart)

/-- A row that fails without writing anything. -/
theorem rows_fail {s : Extraction} {row : Row}
    (h : Reached sys noBackupFilesDir files query id s row)
    (hrow : ¬ Escapes sys (pluginDir noBackupFilesDir) s.files row) {path : Text}
    (hpath : row.path = some path)
    (hout : ∀ loc, s.files.denotes []
    (steps (child (pluginDir noBackupFilesDir).text path)) = some loc →
      ¬ Below (pluginDir noBackupFilesDir).location loc) :
    (∃ f, (initNativeSlow sys id noBackupFilesDir files query).2 = .error f) ∧
      (initNativeSlow sys id noBackupFilesDir files query).1.written = s.written := by
  obtain ⟨hdir, start, before, after, rfl, hstart, hrun⟩ := reached_spec h
  have hfail : (extractRow sys (pluginDir noBackupFilesDir) s.files row).written = none ∧
      (extractRow sys (pluginDir noBackupFilesDir) s.files row).failure ≠ none := by
    rcases (extractRow_spec sys (pluginDir noBackupFilesDir) s.files row).2 with
      hfail | ⟨-, loc, -, -, -, hloc⟩
    · exact hfail
    · obtain ⟨path', hpath', hden, hbelow⟩ := below_of_written hdir hrow hloc
      obtain rfl := Option.some.inj (hpath.symm.trans hpath')
      exact absurd hbelow (hout loc ((denotes_child hdir path).trans hden))
  obtain ⟨hwritten, hfailure⟩ := hfail
  obtain ⟨f, hf⟩ := Option.ne_none_iff_exists'.mp hfailure
  have hne : before ++ row :: after ≠ [] :=
    List.append_ne_nil_of_right_ne_nil _ (List.cons_ne_nil _ _)
  rw [initNativeSlow_prepared hne hstart, hrun, extractRows, hf]
  refine ⟨⟨f, rfl⟩, ?_⟩
  rw [hwritten]
  exact List.append_nil _

/-- Where no row escapes, the files and the entry are below the plugin directory. -/
theorem call_below (hrows : ∀ s row, Reached sys noBackupFilesDir files query id s row →
      ¬ Escapes sys (pluginDir noBackupFilesDir) s.files row) :
    (∀ loc ∈ (initNativeSlow sys id noBackupFilesDir files query).1.written,
        Below (pluginDir noBackupFilesDir).location loc) ∧
      ∀ path, (initNativeSlow sys id noBackupFilesDir files query).2 = .ok (some path) →
        ∃ loc, (initNativeSlow sys id noBackupFilesDir files query).1.files.denotes []
          (steps path) =
          some loc ∧ Below (pluginDir noBackupFilesDir).location loc := by
  match query, hrows with
  | none, _ => exact ⟨fun loc hloc => absurd hloc List.not_mem_nil, fun path h => nomatch h⟩
  | some [], _ => exact ⟨fun loc hloc => absurd hloc List.not_mem_nil, fun path h => nomatch h⟩
  | some (row :: rows), hrows =>
      cases hstart : prepare sys noBackupFilesDir files with
      | none =>
          rw [initNativeSlow, hstart]
          exact ⟨fun loc hloc => absurd hloc List.not_mem_nil, fun path h => nomatch h⟩
      | some start =>
          have hsafe : Safe (pluginDir noBackupFilesDir) id
              (extractRows sys (pluginDir noBackupFilesDir) id { files := start }
                (row :: rows)).1 := by
            refine safe_rows ⟨prepare_directory hstart,
              fun loc hloc => absurd hloc List.not_mem_nil, fun h => nomatch h⟩ ?_
            intro before r after s' heq hbefore
            exact hrows s' r ⟨start, before, after, congrArg some heq, hstart, hbefore⟩
          rw [initNativeSlow_fst (List.cons_ne_nil _ _) hstart]
          refine ⟨hsafe.written, fun path h => ?_⟩
          rw [initNativeSlow_prepared (List.cons_ne_nil _ _) hstart] at h
          split at h
          · cases h
          · next s hs =>
              rw [hs] at hsafe ⊢
              split at h
              · next hinit =>
                  cases h
                  rw [denotes_child hsafe.directory]
                  exact hsafe.entry hinit
              · cases h

/-- The extracted files stay in the plugin directory if and only if no row that the loop reaches
escapes from it. -/
theorem extraction_confined_iff (sys : System) (noBackupFilesDir : Directory) (files : Files)
    (query : Option (List Row)) (id : Text) :
    Confined sys noBackupFilesDir files query id ↔
      ∀ s row, Reached sys noBackupFilesDir files query id s row →
        ¬ Escapes sys (pluginDir noBackupFilesDir) s.files row := by
  constructor
  · rintro hconfined s row hreached ⟨path, loc, hpath, hinput, hnul, hden, hout, hisdir, hperm⟩
    obtain ⟨hdir, start, before, after, rfl, hstart, hrun⟩ := reached_spec hreached
    have hleaves : ∀ l, s.files.denotes [] (steps (child (pluginDir noBackupFilesDir).text path)) =
        some l →
        ¬ Below (pluginDir noBackupFilesDir).location l := by
      intro l hl
      rw [denotes_child hdir, hden] at hl
      cases hl
      exact hout
    have hsame := (hconfined.rows s row path hreached hpath hleaves).2
    -- but the file of the row is on the list
    have hwritten := extractRow_written hdir hpath hinput
      ((openOutput_iff hdir).mpr ⟨hnul, hden, hisdir, hperm⟩)
    have hne : before ++ row :: after ≠ [] :=
      List.append_ne_nil_of_right_ne_nil _ (List.cons_ne_nil _ _)
    have hmore : s.written ++ [loc] <+:
        (initNativeSlow sys id noBackupFilesDir files
          (some (before ++ row :: after))).1.written := by
      rw [initNativeSlow_fst hne hstart, hrun, extractRows, hwritten]
      split
      · exact List.prefix_rfl
      · exact extractRows_written ⟨_, s.written ++ [loc], _⟩ after
    have hlength := hmore.length_le
    rw [hsame, List.length_append, List.length_singleton] at hlength
    omega
  · intro hrows
    obtain ⟨hwritten, hentry⟩ := call_below hrows
    exact ⟨hwritten, hentry,
      fun s row path hreached hpath hout => rows_fail hreached (hrows s row hreached) hpath hout⟩

/-- A system that refuses nothing. -/
def permissive : System where
  removes := true
  makes := true
  permits _ _ := true
  chmods _ := true
  octalDigit c := if '0' ≤ c ∧ c ≤ '7' then some (c.toNat - 48) else none

/-- A file system in which there is only the root. -/
def bare : Files where
  node l := if l = [] then some .directory else none
  root := rfl
  parent := by
    intro n loc h
    exact absurd (if_neg (List.cons_ne_nil n loc)) h

/-- `/data/no_backup`. -/
def noBackup : Directory where
  names := ["data".toList, "no_backup".toList]
  names_ne := List.cons_ne_nil _ _
  isName := by
    intro n hn
    rcases List.mem_cons.mp hn with rfl | hn
    · exact ⟨by decide, by decide, by decide, by decide⟩
    · rw [List.mem_singleton.mp hn]
      exact ⟨by decide, by decide, by decide, by decide⟩

/-- A plugin with one file. -/
def pluginRow (path : Text) : Row := ⟨some path, .string "700".toList, some ⟨[1], true⟩⟩

/-- A plugin whose one file has a plain name. -/
theorem extraction_confined_plain :
    Confined permissive noBackup bare (some [pluginRow "obfs-local".toList]) "obfs-local".toList ∧
      (initNativeSlow permissive "obfs-local".toList noBackup bare
        (some [pluginRow "obfs-local".toList])).1.written =
          [["obfs-local".toList, "plugin".toList, "no_backup".toList, "data".toList]] := by
  refine ⟨(extraction_confined_iff permissive noBackup bare _ _).mpr fun s row hreached => ?_,
    by decide +kernel⟩
  obtain ⟨hdir, -, before, after, hquery, -, -⟩ := reached_spec hreached
  have hmem : row ∈ [pluginRow "obfs-local".toList] := by
    rw [Option.some.inj hquery]
    exact List.mem_append_right _ List.mem_cons_self
  rw [List.mem_singleton.mp hmem]
  exact not_escapes_of_no_up hdir rfl (by decide +kernel)

/-- The file `../x` passes the check and is written next to the plugin directory, and its path is
returned as that of the entry. -/
theorem extraction_leaves :
    (initNativeSlow permissive "../x".toList noBackup bare
      (some [pluginRow "../x".toList])).1.written =
        [["x".toList, "no_backup".toList, "data".toList]] ∧
      (initNativeSlow permissive "../x".toList noBackup bare
        (some [pluginRow "../x".toList])).2.toOption =
        some (some "/data/no_backup/plugin/../x".toList) ∧
      ¬ Confined permissive noBackup bare (some [pluginRow "../x".toList]) "../x".toList := by
  have hwritten : (initNativeSlow permissive "../x".toList noBackup bare
      (some [pluginRow "../x".toList])).1.written =
        [["x".toList, "no_backup".toList, "data".toList]] := by
    decide +kernel
  refine ⟨hwritten, by decide +kernel, fun hconfined => ?_⟩
  have hbelow := hconfined.written ["x".toList, "no_backup".toList, "data".toList] (by
    rw [hwritten]
    exact List.mem_cons_self)
  exact absurd hbelow (by decide +kernel)

end PluginManager

end CypherConnect
