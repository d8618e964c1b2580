/-
  `PluginConfiguration`: the plugin string of a profile. Each line holds the options of one plugin,
  the first line those of the selected one; a line that starts with `kcptun ` is a command line of
  an old release.

  * `ofLine_proper`: the options of a line are made of the characters of the line, and no entry of
    them has an empty key and no value.
  * `getOptions_selected`: the options of the selected plugin are those of a line; the default
    options of an installed plugin are never asked for.
  * `selectedOptions_line`: what is read from a plugin string of one line.
-/
import CypherConnect.Lib.Keyed
import CypherConnect.Lib.Related
import CypherConnect.Plugin.Printing
import CypherConnect.Utils.Commandline

namespace CypherConnect.Plugin

open Scan Utils

def kcptunMark : Text := "kcptun ".toList

/-- The loop over the words of a `kcptun` command line. An exception ends it, and what has been read
stays. -/
def kcptunOptions (opt : PluginOptions) : List Text → PluginOptions
  | [] => opt
  | option :: rest =>
      if option = "--nocomp".toList then kcptunOptions (opt.put "nocomp".toList none) rest
      else if "--".toList.isPrefixOf option then
        match rest with
        | [] => opt
        | value :: rest => kcptunOptions (opt.put (option.drop 2) (some value)) rest
      else opt

/-- The options of a line; `none` is an exception. -/
def ofLine (line : Text) : Option PluginOptions :=
  if kcptunMark.isPrefixOf line then
    let opt : PluginOptions := { id := "kcptun".toList }
    match translateCommandline (some line) with
    | .ok words => some (kcptunOptions opt (words.drop 1))
    | .error _ => some opt
  else PluginOptions.ofOptions (some line)

/-- `pluginsOptions` is a `LinkedHashMap`: the options of each id, in the order of the first line of
the id. -/
structure PluginConfiguration where
  pluginsOptions : List PluginOptions
  ids_nodup : (pluginsOptions.map PluginOptions.id).Nodup
  selected : Text

namespace PluginConfiguration

/-- The private constructor. -/
def ofPlugins (plugins : List PluginOptions) : PluginConfiguration where
  pluginsOptions := Keyed.putAll PluginOptions.id (plugins.filter fun o => !o.id.isEmpty)
  ids_nodup := Keyed.nodup_putAll _
  selected :=
    match plugins with
    | [] => []
    | o :: _ => o.id

/-- `PluginConfiguration(plugin)`; `none` is an exception. -/
def ofPlugin (plugin : Text) : Option PluginConfiguration :=
  ((plugin.splitOn '\n').mapM ofLine).map ofPlugins

def lookup (c : PluginConfiguration) (id : Text) : Option PluginOptions :=
  c.pluginsOptions.find? (·.id == id)

/-- `getOptions(id)`, with the default configuration of the installed plugin. -/
def getOptions (c : PluginConfiguration) (id : Text) (defaultConfig : Option Text) :
    Option PluginOptions :=
  if id.isEmpty then some {}
  else
    match c.lookup id with
    | some o => some o
    | none => PluginOptions.ofIdOptions id defaultConfig

end PluginConfiguration

/-- `PluginConfiguration(plugin ?: "").getOptions()`, where `defaults` are the default
configurations of the installed plugins. -/
def selectedOptions (defaults : Text → Option Text) (plugin : Option Text) : Option PluginOptions :=
  (PluginConfiguration.ofPlugin (plugin.getD [])).bind fun c =>
    c.getOptions c.selected (defaults c.selected)

/-! ## The characters of the options -/

namespace PluginOptions

variable {p : Char → Bool} {o : PluginOptions}

/-- Options without characters of a class, that can be printed entry by entry. -/
structure Proper (p : Char → Bool) (o : PluginOptions) : Prop where
  id : ∀ c ∈ o.id, p c = false
  entries : ∀ e ∈ o.entries, (∀ c ∈ e.1, p c = false) ∧ ∀ value ∈ e.2, ∀ c ∈ value, p c = false
  printable : ([], none) ∉ o.entries

theorem proper_empty : Proper p {} :=
  ⟨List.forall_mem_nil _, List.forall_mem_nil _, List.not_mem_nil⟩

theorem Proper.setId (h : o.Proper p) {id : Text} (hid : ∀ c ∈ id, p c = false) :
    (o.setId id).Proper p :=
  ⟨hid, h.entries, h.printable⟩

theorem Proper.put (h : o.Proper p) {key : Text} {value : Option Text}
    (hkey : ∀ c ∈ key, p c = false) (hvalue : ∀ v ∈ value, ∀ c ∈ v, p c = false)
    (hne : (key, value) ≠ ([], none)) : (o.put key value).Proper p := by
  refine ⟨h.id, ?_, ?_⟩
  · intro e he
    rcases List.mem_append.mp he with he | he
    · exact h.entries e (List.mem_of_mem_filter he)
    · rw [List.mem_singleton.mp he]
      exact ⟨hkey, hvalue⟩
  · intro he
    rcases List.mem_append.mp he with he | he
    · exact h.printable (List.mem_of_mem_filter he)
    · exact hne (List.mem_singleton.mp he).symm

end PluginOptions

namespace Reader

variable {p : Char → Bool} {s s' : Reader}

structure Proper (p : Char → Bool) (s : Reader) : Prop where
  options : s.options.Proper p
  current : ∀ c ∈ s.current, p c = false
  key : ∀ key ∈ s.key, ∀ c ∈ key, p c = false

theorem Proper.push (h : s.Proper p) {text : Text} (htext : ∀ c ∈ text, p c = false) :
    (s.push text).Proper p := by
  refine ⟨h.options, ?_, h.key⟩
  intro c hc
  rcases List.mem_append.mp hc with hc | hc
  · exact h.current c hc
  · exact htext c hc

theorem Proper.close (h : s.Proper p) : s.close.Proper p := by
  refine ⟨?_, List.forall_mem_nil _, ?_⟩
  · unfold Reader.close
    dsimp only
    split
    · next key hkey =>
        refine h.options.put (h.key key hkey) ?_ ?_
        · intro v hv
          cases hv
          exact h.current
        · intro heq
          cases (Prod.ext_iff.mp heq).2
    · split
      · exact h.options
      · next hempty =>
          split
          · exact h.options.setId h.current
          · refine h.options.put h.current ?_ ?_
            · intro v hv
              cases hv
            · intro heq
              exact hempty (List.isEmpty_iff.mpr (Prod.ext_iff.mp heq).1)
  · intro key hkey
    cases hkey

theorem Proper.next (h : s.Proper p) {token : Text} (htoken : ∀ c ∈ token, p c = false) :
    (s.next token).Proper p := by
  unfold Reader.next
  split
  · split
    · refine ⟨h.options, List.forall_mem_nil _, ?_⟩
      intro key hkey
      cases hkey
      exact h.current
    · exact h.push htoken
  · split
    · exact h.close
    · exact h.push htoken

theorem Proper.read {ts : List Text} (h : s.Proper p) (hts : ∀ token ∈ ts, ∀ c ∈ token, p c = false)
    (hread : s.read ts = some s') : s'.Proper p := by
  induction ts using List.twoStepInduction generalizing s with
  | nil =>
      cases hread
      exact h
  | singleton token =>
      have htoken := hts token List.mem_cons_self
      rw [read.eq_def] at hread
      dsimp only at hread
      split at hread
      · cases hread
      · cases hread
        exact h.next htoken
  | cons_cons token second ts ih1 ih2 =>
      have htoken := hts token List.mem_cons_self
      have hsecond := hts second (List.mem_cons_of_mem _ List.mem_cons_self)
      rw [read.eq_def] at hread
      dsimp only at hread
      split at hread
      · exact ih1 (h.push hsecond)
          (fun t ht => hts t (List.mem_cons_of_mem _ (List.mem_cons_of_mem _ ht))) hread
      · exact ih2 second (h.next htoken) (fun t ht => hts t (List.mem_cons_of_mem _ ht)) hread

end Reader

open PluginOptions in
/-- Parsed options have only characters of the text and the semicolon that is put behind it. -/
theorem parse_proper {p : Char → Bool} (hsemi : p ';' = false) {text : Text}
    (htext : ∀ c ∈ text, p c = false) {parseId : Bool} {o : PluginOptions}
    (h : parse (some text) parseId = some o) : o.Proper p := by
  cases text with
  | nil =>
      cases h
      exact proper_empty
  | cons x text =>
      rw [parse_of_ne_nil (List.cons_ne_nil _ _)] at h
      split at h
      · cases h
      · obtain ⟨s', hread, rfl⟩ := Option.map_eq_some_iff.mp h
        have hts : ∀ token ∈ tokens isDelim (x :: text ++ [';']), ∀ c ∈ token, p c = false := by
          intro token htoken c hc
          rcases List.mem_append.mp (mem_of_mem_tokens htoken hc) with hmem | hmem
          · exact htext c hmem
          · rw [List.mem_singleton.mp hmem]
            exact hsemi
        have hstart : Reader.Proper p { parseId := parseId } := by
          refine ⟨proper_empty, List.forall_mem_nil _, ?_⟩
          intro key hkey
          cases hkey
        exact (hstart.read hts hread).options

theorem kcptunOptions_proper {p : Char → Bool} (hnocomp : ∀ c ∈ "nocomp".toList, p c = false)
    {opt : PluginOptions} (h : opt.Proper p) {words : List Text}
    (hwords : ∀ word ∈ words, ∀ c ∈ word, p c = false) : (kcptunOptions opt words).Proper p := by
  have hflag (opt : PluginOptions) (h : opt.Proper p) : (opt.put "nocomp".toList none).Proper p :=
    h.put hnocomp (fun v hv => nomatch hv) (by decide)
  induction words using List.twoStepInduction generalizing opt with
  | nil => exact h
  | singleton option =>
      rw [kcptunOptions]
      split
      · exact hflag opt h
      · split
        · exact h
        · exact h
  | cons_cons option value words ih1 ih2 =>
      have hoption := hwords option List.mem_cons_self
      have hvalue := hwords value (List.mem_cons_of_mem _ List.mem_cons_self)
      rw [kcptunOptions]
      split
      · exact ih2 value (hflag opt h) fun w hw => hwords w (List.mem_cons_of_mem _ hw)
      · split
        · refine ih1 (h.put (fun c hc => hoption c (List.mem_of_mem_drop hc)) ?_ ?_) ?_
          · intro v hv
            cases hv
            exact hvalue
          · exact fun heq => nomatch (Prod.ext_iff.mp heq).2
          · exact fun w hw => hwords w (List.mem_cons_of_mem _ (List.mem_cons_of_mem _ hw))
        · exact h

/-- The options of a line have only characters of the line, of the mark of a command line and of its
flag, and the semicolon. -/
theorem ofLine_proper {p : Char → Bool} (hsemi : p ';' = false)
    (hkcptun : ∀ c ∈ "kcptun".toList, p c = false) (hnocomp : ∀ c ∈ "nocomp".toList, p c = false)
    {line : Text} (hline : ∀ c ∈ line, p c = false) {o : PluginOptions} (h : ofLine line = some o) :
    o.Proper p := by
  have hopt : PluginOptions.Proper p { id := "kcptun".toList } :=
    PluginOptions.proper_empty.setId hkcptun
  unfold ofLine at h
  split at h
  · dsimp only at h
    split at h
    · next words hwords =>
        cases h
        refine kcptunOptions_proper hnocomp hopt fun w hw => ?_
        exact translateCommandline_free hline hwords w (List.mem_of_mem_drop hw)
    · cases h
      exact hopt
  · exact parse_proper hsemi hline h

/-! ## The selected plugin -/

namespace PluginConfiguration

theorem lookup_some {c : PluginConfiguration} {id : Text} {o : PluginOptions}
    (h : c.lookup id = some o) : o ∈ c.pluginsOptions ∧ o.id = id :=
  Keyed.find?_some h

theorem lookup_of_mem {c : PluginConfiguration} {o : PluginOptions} (h : o ∈ c.pluginsOptions) :
    c.lookup o.id = some o :=
  Keyed.find?_of_mem c.ids_nodup h

/-- The options of an id that occurs are found, and they are those of a plugin of the list. -/
theorem lookup_ofPlugins {plugins : List PluginOptions} {id : Text} (hne : id ≠ [])
    (hid : id ∈ plugins.map PluginOptions.id) :
    ∃ o ∈ plugins, o.id = id ∧ (ofPlugins plugins).lookup id = some o := by
  have hfilter : id ∈ (plugins.filter fun o => !o.id.isEmpty).map PluginOptions.id := by
    obtain ⟨o, ho, rfl⟩ := List.mem_map.mp hid
    refine List.mem_map_of_mem (List.mem_filter.mpr ⟨ho, ?_⟩)
    rw [Bool.not_eq_true', List.isEmpty_eq_false_iff]
    exact hne
  obtain ⟨o, hassoc⟩ :=
    Option.isSome_iff_exists.mp ((Keyed.associateBy_isSome_iff _ id).mpr hfilter)
  obtain ⟨ho, hoid⟩ := Keyed.associateBy_mem hassoc
  have hmem : o ∈ (ofPlugins plugins).pluginsOptions := Keyed.mem_putAll.mpr (hoid ▸ hassoc)
  refine ⟨o, List.mem_of_mem_filter ho, hoid, ?_⟩
  rw [← hoid]
  exact lookup_of_mem hmem

theorem proper_of_mem_lines {plugin : Text} {plugins : List PluginOptions}
    (h : (plugin.splitOn '\n').mapM ofLine = some plugins) {o : PluginOptions} (ho : o ∈ plugins) :
    o.Proper (· == '\n') := by
  obtain ⟨line, hline, hofLine⟩ := Related.exists_of_mem_mapM h ho
  refine ofLine_proper rfl (forall_eq_false (by decide)) (forall_eq_false (by decide)) ?_ hofLine
  intro c hc
  rw [beq_eq_false_iff_ne]
  intro heq
  exact not_mem_of_mem_splitOn hline (heq ▸ hc)

/-- The options of the selected plugin are those of a line, whatever is installed. -/
theorem getOptions_selected {plugin : Text} {c : PluginConfiguration}
    (h : ofPlugin plugin = some c) :
    ∃ o, (∀ defaultConfig, c.getOptions c.selected defaultConfig = some o) ∧ o.id = c.selected ∧
      (c.selected = [] → o = {}) ∧ o.Proper (· == '\n') := by
  obtain ⟨plugins, hlines, rfl⟩ := Option.map_eq_some_iff.mp h
  by_cases hne : (ofPlugins plugins).selected = []
  · refine ⟨{}, ?_, hne.symm, fun _ => rfl, PluginOptions.proper_empty⟩
    intro defaultConfig
    rw [getOptions, hne]
    rfl
  · have hid : (ofPlugins plugins).selected ∈ plugins.map PluginOptions.id := by
      cases plugins with
      | nil => exact absurd rfl hne
      | cons o rest => exact List.mem_cons_self
    obtain ⟨o, ho, hoid, hlookup⟩ := lookup_ofPlugins hne hid
    refine ⟨o, ?_, hoid, fun hnil => absurd hnil hne, proper_of_mem_lines hlines ho⟩
    intro defaultConfig
    rw [getOptions, if_neg (fun hempty => hne (List.isEmpty_iff.mp hempty)), hlookup]

end PluginConfiguration

/-- What is read from a plugin string of one line. -/
theorem selectedOptions_line (defaults : Text → Option Text) {line : Text} (hline : '\n' ∉ line) :
    selectedOptions defaults (some line) =
      (ofLine line).map fun o => if o.id = [] then {} else o := by
  have hsplit : line.splitOn '\n' = [line] := List.splitOn_eq_singleton hline
  unfold selectedOptions PluginConfiguration.ofPlugin
  rw [Option.getD_some, hsplit]
  cases hofLine : ofLine line with
  | none => rw [List.mapM_cons, hofLine]; rfl
  | some o =>
      have hmapM : [line].mapM ofLine = some [o] := by
        rw [List.mapM_cons, hofLine]
        rfl
      rw [hmapM]
      show (PluginConfiguration.ofPlugins [o]).getOptions o.id (defaults o.id) = _
      rw [Option.map_some]
      by_cases hid : o.id = []
      · rw [if_pos hid, PluginConfiguration.getOptions, hid]
        rfl
      · have hmem : o.id ∈ [o].map PluginOptions.id := List.mem_cons_self
        obtain ⟨o', ho', _, hlookup⟩ := PluginConfiguration.lookup_ofPlugins hid hmem
        rw [List.mem_singleton.mp ho'] at hlookup
        rw [if_neg hid, PluginConfiguration.getOptions,
          if_neg fun hempty => hid (List.isEmpty_iff.mp hempty), hlookup]

end CypherConnect.Plugin
