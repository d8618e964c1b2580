/-
  `PluginConfiguration.toString`, and that a plugin string that was printed is read as what it was
  printed from.

  The selected plugin is printed first, and nothing else says that it is selected; without one the
  first line is empty.

  * `ofPlugin_isSome`: a string without control characters in its lines is always read.
  * `printed_eq`: the plugins in the order of their lines.
  * `ofPlugin_printed`: the configuration that is read from the lines.
  * `normalisation_stable`: the selected plugin and the options of every id are the same.
-/
import CypherConnect.Plugin.Grammar
import CypherConnect.Plugin.Selected

namespace CypherConnect.Plugin

open Scan

namespace PluginConfiguration

/-- The options that `toString` prints, in a `LinkedList`. -/
def printed (c : PluginConfiguration) (defaults : Text → Option Text) :
    Option (List PluginOptions) :=
  let result := c.pluginsOptions.foldl
    (fun result o => if o.id == c.selected then o :: result else result ++ [o]) []
  if (c.lookup c.selected).isNone then
    (c.getOptions c.selected (defaults c.selected)).map fun o => o :: result
  else some result

/-- `toString()`, where `defaults` are the default configurations of the installed plugins; `none`
is an exception. -/
def toString (E : Enumeration) (c : PluginConfiguration) (defaults : Text → Option Text) :
    Option Text :=
  (c.printed defaults).map fun result =>
    List.intercalate ['\n'] (result.map fun o => o.toString E false)

/-- `getOptions(id)` calls `defaultConfig`. -/
def Consults (c : PluginConfiguration) (id : Text) : Prop := id ≠ [] ∧ c.lookup id = none

/-- The same selected plugin, and the same map from ids to options. -/
structure Same (c c' : PluginConfiguration) : Prop where
  selected : c'.selected = c.selected
  options : ∀ id, (c.lookup id = none ∧ c'.lookup id = none) ∨
    ∃ o o', c.lookup id = some o ∧ c'.lookup id = some o' ∧ o'.equals o = true

/-! ## Reading -/

/-- A line without control characters is read: a command line with what could be read of it. -/
theorem ofLine_isSome {line : Text} (h : ∀ c ∈ line, isISOControl c = false) :
    ∃ o, ofLine line = some o := by
  unfold ofLine
  split
  · dsimp only
    split
    · exact ⟨_, rfl⟩
    · exact ⟨_, rfl⟩
  · by_cases hnil : line = []
    · subst hnil
      exact ⟨{}, rfl⟩
    · exact ⟨_, parse_eq hnil true h⟩

theorem ofPlugin_isSome {s : Text}
    (h : ∀ line ∈ s.splitOn '\n', ∀ c ∈ line, isISOControl c = false) :
    ∃ plugins, (s.splitOn '\n').mapM ofLine = some plugins ∧ plugins ≠ [] := by
  obtain ⟨plugins, hplugins⟩ := Related.mapM_isSome fun line hline => ofLine_isSome (h line hline)
  refine ⟨plugins, hplugins, ?_⟩
  rintro rfl
  obtain ⟨first, rest, hsplit⟩ := List.exists_cons_of_ne_nil (List.splitOn_ne_nil '\n' s)
  rw [hsplit, List.mapM_cons] at hplugins
  obtain ⟨o, -, hplugins⟩ := Option.bind_eq_some_iff.mp hplugins
  obtain ⟨os, -, hplugins⟩ := Option.bind_eq_some_iff.mp hplugins
  cases hplugins

/-! ## The order of the lines -/

theorem foldl_printed (selected : Text) (l r : List PluginOptions) :
    l.foldl (fun result o => if o.id == selected then o :: result else result ++ [o]) r =
      (l.filter (·.id == selected)).reverse ++ r ++ l.filter (!·.id == selected) := by
  induction l generalizing r with
  | nil =>
      simp only [List.foldl_nil, List.filter_nil, List.reverse_nil, List.nil_append,
        List.append_nil]
  | cons o l ih =>
      rw [List.foldl_cons, ih]
      cases hid : o.id == selected with
      | true =>
          simp only [List.filter_cons, hid, if_true, Bool.not_true, Bool.false_eq_true, if_false,
            List.reverse_cons, List.append_assoc, List.cons_append, List.nil_append]
      | false =>
          simp only [List.filter_cons, hid, if_true, Bool.not_false, Bool.false_eq_true, if_false,
            List.append_assoc, List.cons_append, List.nil_append]

variable {c : PluginConfiguration}

theorem filter_of_lookup {id : Text} {o : PluginOptions} (h : c.lookup id = some o) :
    c.pluginsOptions.filter (·.id == id) = [o] := by
  obtain ⟨hmem, hid⟩ := lookup_some h
  have hall : ∀ x ∈ c.pluginsOptions.filter (·.id == id), x = o := by
    intro x hx
    obtain ⟨hx, hxid⟩ := List.mem_filter.mp hx
    exact List.inj_on_of_nodup_map c.ids_nodup hx hmem ((beq_iff_eq.mp hxid).trans hid.symm)
  have hin : o ∈ c.pluginsOptions.filter (·.id == id) :=
    List.mem_filter.mpr ⟨hmem, beq_iff_eq.mpr hid⟩
  have hnodup : (c.pluginsOptions.filter (·.id == id)).Nodup :=
    (List.Nodup.of_map _ c.ids_nodup).filter _
  generalize c.pluginsOptions.filter (·.id == id) = l at *
  cases l with
  | nil => cases hin
  | cons x l =>
      have hx := hall x List.mem_cons_self
      subst hx
      cases l with
      | nil => rfl
      | cons y l =>
          have hy := hall y (List.mem_cons_of_mem _ List.mem_cons_self)
          rw [hy] at hnodup
          exact absurd List.mem_cons_self (List.nodup_cons.mp hnodup).1

theorem filter_of_lookup_none {id : Text} (h : c.lookup id = none) :
    c.pluginsOptions.filter (·.id == id) = [] := by
  rw [List.filter_eq_nil_iff]
  intro o ho hid
  have hnone := List.find?_eq_none.mp h o ho
  exact hnone hid

/-- The selected options come first, empty ones where no plugin is selected; the defaults of an
installed plugin are not used. -/
theorem printed_eq {first : PluginOptions} (hselected : c.selected = first.id)
    (hfirst : c.lookup c.selected = some first ∨ (c.lookup c.selected = none ∧ first = {}))
    (defaults : Text → Option Text) :
    c.printed defaults = some (first :: c.pluginsOptions.filter (!·.id == c.selected)) := by
  unfold printed
  rw [foldl_printed]
  rcases hfirst with hlookup | ⟨hnone, rfl⟩
  · rw [hlookup, filter_of_lookup hlookup]
    rfl
  · have hempty : c.selected = [] := hselected
    rw [filter_of_lookup_none hnone, hnone, getOptions, hempty]
    rfl

/-- The plugins of a list of lines that are all in the configuration. -/
theorem lookup_ofPlugins_iff {plugins : List PluginOptions}
    (hnodup : (plugins.map PluginOptions.id).Nodup) {id : Text} {o : PluginOptions} :
    (ofPlugins plugins).lookup id = some o ↔ o ∈ plugins ∧ o.id = id ∧ id ≠ [] := by
  have hmem {x : PluginOptions} : x ∈ (ofPlugins plugins).pluginsOptions ↔
      x ∈ plugins ∧ x.id ≠ [] := by
    have hfilter : ((plugins.filter fun o => !o.id.isEmpty).map PluginOptions.id).Nodup :=
      hnodup.sublist (List.filter_sublist.map _)
    have hin : x ∈ plugins.filter (fun o => !o.id.isEmpty) ↔ x ∈ plugins ∧ x.id ≠ [] := by
      rw [List.mem_filter, Bool.not_eq_true', List.isEmpty_eq_false_iff]
    rw [← hin]
    show x ∈ Keyed.putAll PluginOptions.id _ ↔ _
    rw [Keyed.mem_putAll]
    exact ⟨fun h => (Keyed.associateBy_mem h).1, fun h => Keyed.associateBy_of_nodup hfilter h⟩
  constructor
  · intro h
    obtain ⟨ho, hid⟩ := lookup_some h
    obtain ⟨ho, hne⟩ := hmem.mp ho
    exact ⟨ho, hid, hid ▸ hne⟩
  · rintro ⟨ho, rfl, hne⟩
    exact lookup_of_mem (hmem.mpr ⟨ho, hne⟩)

/-! ## Reading what was printed -/

/-- Options that a line can hold: none at all, or those of a plugin that are not taken for a command
line. -/
def Printable (o : PluginOptions) : Prop :=
  o = {} ∨ (o.id ≠ [] ∧ o.Proper isISOControl ∧ ¬ kcptunMark <+: o.id)

theorem enumerated_empty (E : Enumeration) : PluginOptions.enumerated E {} = {} := by
  refine PluginOptions.ext_entries rfl ?_
  exact List.perm_nil.mp (E.perm {})

theorem ofLine_printed (E : Enumeration) {o : PluginOptions} (h : Printable o) :
    ofLine (o.toString E false) = some (o.enumerated E) ∧ '\n' ∉ o.toString E false := by
  rcases h with rfl | ⟨hid, hproper, hmark⟩
  · rw [enumerated_empty]
    exact ⟨rfl, List.not_mem_nil⟩
  · constructor
    · rw [ofLine_of_not_mark fun h => hmark ((mark_prefix_toString_iff hid).mp h)]
      exact PluginOptions.parse_toString_false hid ⟨hproper.id, hproper.entries⟩ hproper.printable
    · intro hm
      have hfree := PluginOptions.printed_free (E := E) rfl rfl rfl hid hproper '\n' hm
      cases hfree

/-- The configuration of the printed lines. -/
theorem ofPlugin_printed (E : Enumeration) {first : PluginOptions} {rest : List PluginOptions}
    (h : ∀ o ∈ first :: rest, Printable o) :
    ofPlugin (List.intercalate ['\n'] ((first :: rest).map fun o => o.toString E false)) =
      some (ofPlugins ((first :: rest).map (PluginOptions.enumerated E))) := by
  have hlines : ∀ line ∈ (first :: rest).map fun o => o.toString E false, '\n' ∉ line := by
    intro line hline
    obtain ⟨o, ho, rfl⟩ := List.mem_map.mp hline
    exact (ofLine_printed E (h o ho)).2
  unfold ofPlugin
  rw [List.splitOn_intercalate '\n' hlines (List.cons_ne_nil _ _),
    Related.mapM_map fun o ho => (ofLine_printed E (h o ho)).1]
  rfl

/-- What the plugins of lines without control characters and without a mark in an id are. -/
theorem printable_of_line {line : Text} {o : PluginOptions} (ho : ofLine line = some o)
    (hcontrol : ∀ c ∈ line, isISOControl c = false) (hmark : ¬ kcptunMark <+: o.id)
    (hid : o.id ≠ []) :
    Printable o :=
  Or.inr ⟨hid, ofLine_proper rfl (forall_eq_false (by decide))
    (forall_eq_false (by decide)) hcontrol ho, hmark⟩

theorem mem_of_mem_pluginsOptions {plugins : List PluginOptions} {o : PluginOptions}
    (h : o ∈ (ofPlugins plugins).pluginsOptions) : o ∈ plugins ∧ o.id ≠ [] := by
  obtain ⟨ho, -⟩ := Keyed.associateBy_mem (Keyed.mem_putAll.mp h)
  rw [List.mem_filter, Bool.not_eq_true', List.isEmpty_eq_false_iff] at ho
  exact ho

/-- The options of the selected plugin, where there is one. -/
theorem exists_first {plugins : List PluginOptions} (hne : plugins ≠ []) : ∃ first : PluginOptions,
    (ofPlugins plugins).selected = first.id ∧
      ((ofPlugins plugins).lookup (ofPlugins plugins).selected = some first ∨
        ((ofPlugins plugins).lookup (ofPlugins plugins).selected = none ∧ first = {})) := by
  by_cases hempty : (ofPlugins plugins).selected = []
  · refine ⟨{}, hempty, Or.inr ⟨?_, rfl⟩⟩
    refine List.find?_eq_none.mpr fun o ho hid => ?_
    exact (mem_of_mem_pluginsOptions ho).2 ((beq_iff_eq.mp hid).trans hempty)
  · have hid : (ofPlugins plugins).selected ∈ plugins.map PluginOptions.id := by
      obtain ⟨o, rest, rfl⟩ := List.exists_cons_of_ne_nil hne
      exact List.mem_cons_self
    obtain ⟨o, -, hoid, hlookup⟩ := lookup_ofPlugins hempty hid
    exact ⟨o, hoid.symm, Or.inl hlookup⟩

/-- The lines hold every plugin of the configuration, and only one more for an empty id. -/
theorem mem_printed_iff {first : PluginOptions} (hselected : c.selected = first.id)
    (hfirst : c.lookup c.selected = some first ∨ (c.lookup c.selected = none ∧ first = {}))
    {o : PluginOptions} (hid : o.id ≠ []) :
    o ∈ first :: c.pluginsOptions.filter (!·.id == c.selected) ↔ o ∈ c.pluginsOptions := by
  constructor
  · intro ho
    rcases List.mem_cons.mp ho with rfl | ho
    · rcases hfirst with hlookup | ⟨-, rfl⟩
      · exact (lookup_some hlookup).1
      · exact absurd rfl hid
    · exact List.mem_of_mem_filter ho
  · intro ho
    by_cases hsame : o.id = c.selected
    · rcases hfirst with hlookup | ⟨hnone, rfl⟩
      · have hfound := lookup_of_mem ho
        rw [hsame, hlookup] at hfound
        cases hfound
        exact List.mem_cons_self
      · exact absurd (hsame.trans hselected) hid
    · refine List.mem_cons_of_mem _ (List.mem_filter.mpr ⟨ho, ?_⟩)
      rw [beq_eq_false_iff_ne.mpr hsame]
      rfl

theorem nodup_printed {first : PluginOptions} (hselected : c.selected = first.id) :
    ((first :: c.pluginsOptions.filter (!·.id == c.selected)).map PluginOptions.id).Nodup := by
  rw [List.map_cons, List.nodup_cons]
  refine ⟨?_, c.ids_nodup.sublist (List.filter_sublist.map _)⟩
  intro hin
  obtain ⟨o, ho, hid⟩ := List.mem_map.mp hin
  have hother := (List.mem_filter.mp ho).2
  rw [hid, ← hselected, beq_self_eq_true] at hother
  cases hother

/-- What is read from the lines is the configuration. -/
theorem same_printed (E : Enumeration) {first : PluginOptions} (hselected : c.selected = first.id)
    (hfirst : c.lookup c.selected = some first ∨ (c.lookup c.selected = none ∧ first = {}))
    (hids : ∀ o ∈ c.pluginsOptions, o.id ≠ []) :
    c.Same (ofPlugins ((first :: c.pluginsOptions.filter (!·.id == c.selected)).map
      (PluginOptions.enumerated E))) := by
  have hnodup : (((first :: c.pluginsOptions.filter (!·.id == c.selected)).map
      (PluginOptions.enumerated E)).map PluginOptions.id).Nodup := by
    rw [List.map_map]
    exact nodup_printed hselected
  refine ⟨hselected.symm, fun id => ?_⟩
  cases hlookup : c.lookup id with
  | some o =>
      obtain ⟨ho, hid⟩ := lookup_some hlookup
      have hprinted := (mem_printed_iff hselected hfirst (hids o ho)).mpr ho
      refine Or.inr ⟨o, o.enumerated E, rfl, ?_, PluginOptions.enumerated_equals E o⟩
      rw [lookup_ofPlugins_iff hnodup]
      exact ⟨List.mem_map_of_mem hprinted, hid, hid ▸ hids o ho⟩
  | none =>
      refine Or.inl ⟨rfl, ?_⟩
      rw [Option.eq_none_iff_forall_ne_some]
      intro x hx
      obtain ⟨hin, hid, hne⟩ := (lookup_ofPlugins_iff hnodup).mp hx
      obtain ⟨o, ho, rfl⟩ := List.mem_map.mp hin
      have hoid : o.id = id := hid
      have hfound := lookup_of_mem ((mem_printed_iff hselected hfirst (hoid ▸ hne)).mp ho)
      rw [hoid, hlookup] at hfound
      cases hfound

/-- A plugin string without control characters in its lines is read; it is printed without a look at
the installed plugins, and what was printed is read as the same configuration. -/
theorem normalisation_stable (E : Enumeration) (s : Text)
    (hcontrol : ∀ line ∈ s.splitOn '\n', ∀ c ∈ line, isISOControl c = false)
    (hmark : ∀ line ∈ s.splitOn '\n', ∀ o, ofLine line = some o → ¬ kcptunMark <+: o.id) :
    ∃ c, ofPlugin s = some c ∧ ¬ c.Consults c.selected ∧
      ∃ text, (∀ defaults, c.toString E defaults = some text) ∧
        ∃ c', ofPlugin text = some c' ∧ c.Same c' := by
  obtain ⟨plugins, hplugins, hne⟩ := ofPlugin_isSome hcontrol
  have hconfig : ofPlugin s = some (ofPlugins plugins) := congrArg (Option.map ofPlugins) hplugins
  obtain ⟨first, hselected, hfirst⟩ := exists_first hne
  have hprintable : ∀ o ∈ (ofPlugins plugins).pluginsOptions, Printable o := by
    intro o ho
    obtain ⟨hin, hid⟩ := mem_of_mem_pluginsOptions ho
    obtain ⟨line, hline, hofLine⟩ := Related.exists_of_mem_mapM hplugins hin
    exact printable_of_line hofLine (hcontrol line hline) (hmark line hline o hofLine) hid
  have hlines : ∀ o ∈ first :: (ofPlugins plugins).pluginsOptions.filter
      (!·.id == (ofPlugins plugins).selected), Printable o := by
    intro o ho
    rcases List.mem_cons.mp ho with rfl | ho
    · rcases hfirst with hlookup | ⟨-, rfl⟩
      · exact hprintable o (lookup_some hlookup).1
      · exact Or.inl rfl
    · exact hprintable o (List.mem_of_mem_filter ho)
  refine ⟨_, hconfig, ?_, _, ?_, _, ofPlugin_printed E hlines,
    same_printed E hselected hfirst fun o ho => (mem_of_mem_pluginsOptions ho).2⟩
  · rintro ⟨hempty, hnone⟩
    rcases hfirst with hlookup | ⟨-, rfl⟩
    · rw [hnone] at hlookup
      cases hlookup
    · exact hempty hselected
  · intro defaults
    unfold toString
    rw [printed_eq hselected hfirst]
    rfl

/-- A command line of an old release with a word it cannot use, and a plugin that is not
selected. -/
theorem normalisation_stable_kcptun : ∃ c,
    ofPlugin "kcptun --nocomp --key a word\nobfs;obfs=http".toList = some c ∧
      ¬ c.Consults c.selected ∧ ∃ text, (∀ defaults, c.toString .inserted defaults = some text) ∧
        ∃ c', ofPlugin text = some c' ∧ c.Same c' := by
  have hsplit : "kcptun --nocomp --key a word\nobfs;obfs=http".toList.splitOn '\n' =
      ["kcptun --nocomp --key a word".toList, "obfs;obfs=http".toList] := by decide +kernel
  refine normalisation_stable .inserted _ ?_ ?_
  · rw [hsplit]
    intro line hline
    rcases List.mem_cons.mp hline with rfl | hline
    · exact forall_eq_false (by decide)
    · rw [List.mem_singleton.mp hline]
      exact forall_eq_false (by decide)
  · have hids : ["kcptun --nocomp --key a word".toList, "obfs;obfs=http".toList].all (fun line =>
        (ofLine line).all fun o => !kcptunMark.isPrefixOf o.id) = true := by decide +kernel
    rw [hsplit]
    intro line hline o ho hmark
    have hall := List.all_eq_true.mp hids line hline
    rw [ho, Option.all_some, List.isPrefixOf_iff_prefix.mpr hmark] at hall
    cases hall

end PluginConfiguration

end CypherConnect.Plugin
