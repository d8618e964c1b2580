/-
  The options of the selected plugin, printed and read as a plugin string of their own: that is how
  they travel in a link and in a settings file.

  A link that ends in `_` or `!` is found without those marks, and so the string may lose them.

  * `toString_cut`: what is left of a printed string that loses its end is the print of other
    options.
  * `selectedOptions_cut_iff`: the options come back exactly if nothing is lost, no text has a
    control character, and the id does not start like an old `kcptun` command line.
-/
import CypherConnect.Plugin.PluginConfiguration

namespace CypherConnect.Plugin

open Scan

/-! ## Escaped texts -/

theorem escape_append (a b : Text) : escape (a ++ b) = escape a ++ escape b := List.flatMap_append

theorem escape_plain {text : Text} (h : ∀ c ∈ text, isDelim c = false) : escape text = text := by
  induction text with
  | nil => rfl
  | cons c text ih =>
      have hchar : escapeChar c = [c] := by
        unfold escapeChar
        rw [h c List.mem_cons_self]
        rfl
      show escapeChar c ++ escape text = c :: text
      rw [hchar, ih fun x hx => h x (List.mem_cons_of_mem _ hx)]
      rfl

theorem mem_escape_of_mem {c : Char} {text : Text} (h : c ∈ text) : c ∈ escape text := by
  refine List.mem_flatMap.mpr ⟨c, h, ?_⟩
  unfold escapeChar
  split
  · exact List.mem_cons_of_mem _ List.mem_cons_self
  · exact List.mem_cons_self

/-- The plain end of an escaped text is the end of the text. -/
theorem escape_eq_append {str core junk : Text} (hjunk : ∀ c ∈ junk, isDelim c = false)
    (h : escape str = core ++ junk) : ∃ str', str = str' ++ junk ∧ core = escape str' := by
  induction junk using List.reverseRecOn generalizing str with
  | nil =>
      rw [List.append_nil] at h
      exact ⟨str, (List.append_nil _).symm, h.symm⟩
  | append_singleton junk c ih =>
      have hc : isDelim c = false := hjunk c (List.mem_append_right _ List.mem_cons_self)
      have hrest : ∀ x ∈ junk, isDelim x = false := fun x hx => hjunk x (List.mem_append_left _ hx)
      rw [← List.append_assoc] at h
      rcases List.eq_nil_or_concat str with rfl | ⟨front, d, rfl⟩
      · exact absurd h.symm (List.append_ne_nil_of_right_ne_nil _ (List.cons_ne_nil _ _))
      · have hd : escape [d] = escapeChar d := List.append_nil _
        rw [List.concat_eq_append, escape_append, hd] at h
        unfold escapeChar at h
        split at h
        · next hdelim =>
            -- the last character of an escaped delimiter is the delimiter
            have hassoc : (escape front ++ ['\\']) ++ [d] = (core ++ junk) ++ [c] := by
              rw [List.append_assoc]
              exact h
            obtain ⟨_, hlast⟩ := List.append_inj' hassoc rfl
            rw [(List.cons.inj hlast).1, hc] at hdelim
            cases hdelim
        · obtain ⟨hfront, hlast⟩ := List.append_inj' h rfl
          obtain ⟨str', rfl, hcore⟩ := ih hrest hfront
          refine ⟨str', ?_, hcore⟩
          rw [List.concat_eq_append, (List.cons.inj hlast).1, List.append_assoc]

/-- A plain text at the start of an escaped text is at the start of the text. -/
theorem prefix_of_prefix_escape {mark id rest : Text} (hmark : ∀ c ∈ mark, isDelim c = false)
    (hrest : ∀ c ∈ rest.head?, isDelim c = true) (h : mark <+: escape id ++ rest) :
    mark <+: id := by
  induction mark generalizing id with
  | nil => exact List.nil_prefix
  | cons c mark ih =>
      have hc := hmark c List.mem_cons_self
      obtain ⟨after, hafter⟩ := h
      cases id with
      | nil =>
          have hhead : c ∈ rest.head? := by
            rw [show rest = c :: (mark ++ after) from hafter.symm]
            rfl
          rw [hrest c hhead] at hc
          cases hc
      | cons d id =>
          have hsplit : c :: (mark ++ after) = escapeChar d ++ (escape id ++ rest) := by
            rw [← List.append_assoc]
            exact hafter
          unfold escapeChar at hsplit
          split at hsplit
          · rw [(List.cons.inj hsplit).1] at hc
            cases hc
          · obtain ⟨rfl, htail⟩ := List.cons.inj hsplit
            exact List.cons_prefix_cons.mpr
              ⟨rfl, ih (fun x hx => hmark x (List.mem_cons_of_mem _ hx)) ⟨after, htail⟩⟩

/-! ## A string that has lost its end -/

namespace PluginOptions

variable {E : Enumeration} {o o' : PluginOptions} {core junk : Text}

theorem printEntry_cut {e : Text × Option Text} (hjunk : ∀ c ∈ junk, isDelim c = false)
    (hne : junk ≠ []) (h : printEntry e = core ++ junk) : ∃ e', core = printEntry e' ∧ e' ≠ e := by
  have hlonger (t : Text) : t ≠ t ++ junk := fun heq => hne (List.self_eq_append_right.mp heq)
  obtain ⟨key, value⟩ := e
  cases value with
  | none =>
      have hkey : escape key = core ++ junk := (List.append_nil _).symm.trans h
      obtain ⟨key', rfl, hcore⟩ := escape_eq_append hjunk hkey
      refine ⟨(key', none), hcore.trans (List.append_nil _).symm, ?_⟩
      exact fun heq => hlonger key' (Prod.ext_iff.mp heq).1
  | some value =>
      have heq : '=' ∉ junk := fun hm => nomatch hjunk _ hm
      obtain ⟨rest, hvalue, hcore⟩ := append_cons_eq_append heq h
      obtain ⟨value', rfl, hrest⟩ := escape_eq_append hjunk hvalue
      rw [hrest] at hcore
      refine ⟨(key, some value'), hcore, ?_⟩
      exact fun heq => hlonger value' (Option.some.inj (Prod.ext_iff.mp heq).2)

/-- What is left of a printed string is the print of another id or without one of the entries. -/
theorem toString_cut (hid : o.id ≠ []) (hjunk : ∀ c ∈ junk, isDelim c = false) (hne : junk ≠ [])
    (h : o.toString E false = core ++ junk) : ∃ id es,
      core = escape id ++ (es.flatMap fun e => ';' :: printEntry e) ∧ (es ≠ [] → id = o.id) ∧
        (id ≠ o.id ∨ ∃ e ∈ o.entries, e ∉ es) := by
  rw [toString_false_eq hid] at h
  rcases List.eq_nil_or_concat (E.entries o) with hes | ⟨es, e, hes⟩
  · rw [hes, List.flatMap_nil, List.append_nil] at h
    obtain ⟨id, heq, hcore⟩ := escape_eq_append hjunk h
    refine ⟨id, [], ?_, fun hnil => absurd rfl hnil, Or.inl ?_⟩
    · rw [List.flatMap_nil, List.append_nil]
      exact hcore
    · intro hsame
      rw [← hsame] at heq
      exact hne (List.self_eq_append_right.mp heq)
  · rw [List.concat_eq_append] at hes
    have hsemi : ';' ∉ junk := fun hm => nomatch hjunk _ hm
    have hlast : (escape o.id ++ es.flatMap fun e => ';' :: printEntry e) ++ ';' :: printEntry e =
        core ++ junk := by
      rw [← h, hes, List.flatMap_append, List.flatMap_singleton, List.append_assoc]
    obtain ⟨rest, hentry, hcore⟩ := append_cons_eq_append hsemi hlast
    obtain ⟨e', hrest, hdiff⟩ := printEntry_cut hjunk hne hentry
    have hmem : e ∈ E.entries o := by
      rw [hes]
      exact List.mem_append_right _ List.mem_cons_self
    have hnodup : (es ++ [e]).Nodup := by
      rw [← hes, (E.perm o).nodup_iff]
      exact nodup_entries o
    refine ⟨o.id, es ++ [e'], ?_, fun _ => rfl, Or.inr ⟨e, (E.perm o).subset hmem, ?_⟩⟩
    · rw [hcore, hrest, List.flatMap_append, List.flatMap_singleton, List.append_assoc]
    · intro hin
      rcases List.mem_append.mp hin with hin | hin
      · exact (List.nodup_append.mp hnodup).2.2 e hin e List.mem_cons_self rfl
      · exact hdiff (List.mem_singleton.mp hin).symm

end PluginOptions

/-- Reading items puts no other entries into the map than these. -/
theorem Reader.read_items_subset (es : List (Text × Option Text)) (o : PluginOptions) : ∃ o',
    Reader.read ⟨o, false, [], none⟩
        (tokens isDelim (es.flatMap fun e => PluginOptions.printEntry e ++ [';'])) =
      some ⟨o', false, [], none⟩ ∧ o'.id = o.id ∧ ∀ e ∈ o'.entries, e ∈ o.entries ∨ e ∈ es := by
  induction es generalizing o with
  | nil => exact ⟨o, rfl, rfl, fun e he => Or.inl he⟩
  | cons e es ih =>
      rw [List.flatMap_cons, List.append_assoc, List.singleton_append]
      by_cases he : e = ([], none)
      · -- an item of nothing leaves the map as it is
        obtain ⟨o', hread, hid, hsub⟩ := ih o
        refine ⟨o', ?_, hid, fun x hx => (hsub x hx).imp_right (List.mem_cons_of_mem _)⟩
        rw [he]
        show Reader.read _ (tokens isDelim (escape [] ++ ';' :: _)) = _
        rw [read_escaped [] rfl (by decide), push_nil, next_semicolon]
        exact hread
      · obtain ⟨o', hread, hid, hsub⟩ := ih (o.put e.1 e.2)
        refine ⟨o', (read_printEntry he o _).trans hread, hid, ?_⟩
        intro x hx
        rcases hsub x hx with hx | hx
        · rcases List.mem_append.mp hx with hx | hx
          · exact Or.inl (List.mem_of_mem_filter hx)
          · exact Or.inr (List.mem_singleton.mp hx ▸ List.mem_cons_self)
        · exact Or.inr (List.mem_cons_of_mem _ hx)

namespace PluginOptions

variable {E : Enumeration} {o o' : PluginOptions} {core junk : Text}

theorem parse_printed {id : Text} (hid : id ≠ []) {es : List (Text × Option Text)}
    (h : parse (some (escape id ++ es.flatMap fun e => ';' :: printEntry e)) true = some o) :
    o.id = id ∧ ∀ e ∈ o.entries, e ∈ es := by
  rw [parse_of_ne_nil (List.append_ne_nil_of_left_ne_nil (escape_ne_nil hid) _)] at h
  split at h
  · cases h
  · rw [List.append_assoc, separators, Reader.read_escapedId hid] at h
    obtain ⟨o', hread, hid', hsub⟩ := Reader.read_items_subset es (setId {} id)
    rw [hread] at h
    cases h
    refine ⟨hid', fun e he => ?_⟩
    exact (hsub e he).resolve_left List.not_mem_nil

/-- Options that have lost the end of their string are other options. -/
theorem parse_cut (hid : o.id ≠ []) (hjunk : ∀ c ∈ junk, isDelim c = false) (hne : junk ≠ [])
    (h : o.toString E false = core ++ junk) (hparse : parse (some core) true = some o') :
    o'.equals o = false := by
  obtain ⟨id, es, rfl, hid', hdiff⟩ := toString_cut hid hjunk hne h
  rw [← Bool.not_eq_true, equals_iff]
  rintro ⟨hsame, hperm⟩
  by_cases hnil : id = []
  · -- nothing is left
    have hes : es = [] := by
      by_contra hes
      exact hid (hid' hes ▸ hnil)
    rw [hnil, hes] at hparse
    cases hparse
    exact hid hsame.symm
  · obtain ⟨hread, hsub⟩ := parse_printed hnil hparse
    rcases hdiff with hdiff | ⟨e, he, hnot⟩
    · exact hdiff (hread.symm.trans hsame)
    · exact hnot (hsub e (hperm.symm.subset he))

/-- A class of characters that the printed string has not, no text of the options has. -/
theorem free_of_printed {p : Char → Bool} (hid : o.id ≠ [])
    (h : ∀ c ∈ o.toString E false, p c = false) : (∀ c ∈ o.id, p c = false) ∧
      ∀ e ∈ o.entries, (∀ c ∈ e.1, p c = false) ∧ ∀ value ∈ e.2, ∀ c ∈ value, p c = false := by
  rw [toString_false_eq hid] at h
  refine ⟨fun c hc => h c (List.mem_append_left _ (mem_escape_of_mem hc)), fun e he => ?_⟩
  have hentry : ∀ c ∈ printEntry e, p c = false := by
    intro c hc
    refine h c (List.mem_append_right _ (List.mem_flatMap.mpr ⟨e, (E.perm o).mem_iff.mpr he, ?_⟩))
    exact List.mem_cons_of_mem _ hc
  refine ⟨fun c hc => hentry c (List.mem_append_left _ (mem_escape_of_mem hc)), ?_⟩
  intro value hvalue c hc
  refine hentry c (List.mem_append_right _ ?_)
  rw [show e.2 = some value from hvalue]
  exact List.mem_cons_of_mem _ (mem_escape_of_mem hc)

/-- A printed string has the characters of the options and the three special ones. -/
theorem printed_free {p : Char → Bool} (hback : p '\\' = false) (heq : p '=' = false)
    (hsemi : p ';' = false) (hid : o.id ≠ []) (hproper : o.Proper p) :
    ∀ c ∈ o.toString E false, p c = false := by
  intro c hc
  have hmem : c ∈ o.toString E false ++ [';'] := List.mem_append_left _ hc
  rw [(toString_false hid).2] at hmem
  rcases List.mem_append.mp hmem with hc | hc
  · exact escape_free hback hproper.id c hc
  · rcases List.mem_cons.mp hc with rfl | hc
    · exact hsemi
    · exact items_free hback heq hsemi
        (fun e he => hproper.entries e ((E.perm o).subset he)) c hc

end PluginOptions

/-! ## Reading the printed string as a plugin string -/

section Selected

variable {E : Enumeration} {o o' : PluginOptions} {core junk : Text}

theorem kcptunMark_plain : ∀ c ∈ kcptunMark, isDelim c = false := forall_eq_false (by decide)

/-- The printed string starts with the mark of a command line exactly if the id does. -/
theorem mark_prefix_toString_iff (hid : o.id ≠ []) :
    kcptunMark <+: o.toString E false ↔ kcptunMark <+: o.id := by
  rw [PluginOptions.toString_false_eq hid]
  constructor
  · refine prefix_of_prefix_escape kcptunMark_plain ?_
    intro c hc
    cases hes : E.entries o with
    | nil =>
        rw [hes] at hc
        cases hc
    | cons e es =>
        rw [hes] at hc
        cases hc
        rfl
  · rintro ⟨rest, hrest⟩
    rw [← hrest, escape_append, escape_plain kcptunMark_plain, List.append_assoc]
    exact List.prefix_append _ _

theorem kcptunOptions_id (words : List Text) (opt : PluginOptions) :
    (kcptunOptions opt words).id = opt.id := by
  induction words using List.twoStepInduction generalizing opt with
  | nil => rfl
  | singleton option =>
      rw [kcptunOptions]
      split
      · rfl
      · split
        · rfl
        · rfl
  | cons_cons option value words ih1 ih2 =>
      rw [kcptunOptions]
      split
      · exact ih2 value _
      · split
        · exact ih1 _
        · rfl

theorem ofLine_mark {line : Text} (h : kcptunMark <+: line) (ho : ofLine line = some o) :
    o.id = "kcptun".toList := by
  unfold ofLine at ho
  rw [if_pos (List.isPrefixOf_iff_prefix.mpr h)] at ho
  dsimp only at ho
  split at ho
  · cases ho
    exact kcptunOptions_id _ _
  · cases ho
    rfl

theorem ofLine_of_not_mark {line : Text} (h : ¬ kcptunMark <+: line) :
    ofLine line = PluginOptions.parse (some line) true :=
  if_neg fun hmark => h (List.isPrefixOf_iff_prefix.mp hmark)

/-- A mark is not made of the characters that a string has lost. -/
theorem mark_prefix_core (hjunk : ∀ c ∈ junk, c ∉ kcptunMark) (h : kcptunMark <+: core ++ junk) :
    kcptunMark <+: core := by
  rcases List.prefix_or_prefix_of_prefix h (List.prefix_append core junk) with hcore | ⟨rest, hrest⟩
  · exact hcore
  · rw [← hrest, List.prefix_append_right_inj] at h
    cases rest with
    | nil =>
        have hsame : kcptunMark = core := hrest.symm.trans (List.append_nil core)
        exact hsame ▸ List.prefix_rfl
    | cons c rest =>
        obtain ⟨after, rfl⟩ := h
        refine absurd ?_ (hjunk c List.mem_cons_self)
        rw [← hrest]
        exact List.mem_append_right _ List.mem_cons_self

/-- What is read without an exception has no control character. -/
theorem noControl_of_parse (hid : o.id ≠ []) {o' : PluginOptions}
    {parseId : Bool}
    (h : PluginOptions.parse (some (o.toString E false)) parseId = some o') : o.NoControl := by
  obtain ⟨hcontrol, -⟩ := PluginOptions.parse_weight (PluginOptions.toString_false hid).1 h
  refine PluginOptions.free_of_printed (E := E) hid fun c hc => ?_
  exact Bool.eq_false_iff.mpr (List.any_eq_false.mp hcontrol c hc)

/-- The printed options, without the end they have lost, are read as they were exactly if they have
lost nothing, have no control characters, and are not taken for a command line. -/
theorem selectedOptions_cut_iff (defaults : Text → Option Text) (hid : o.id ≠ [])
    (hproper : o.Proper (· == '\n')) (hjunk : ∀ c ∈ junk, isDelim c = false ∧ c ∉ kcptunMark)
    (h : o.toString E false = core ++ junk) :
    (∃ o', selectedOptions defaults (some core) = some o' ∧ o'.equals o = true) ↔
      junk = [] ∧ o.NoControl ∧ ¬ kcptunMark <+: o.id := by
  have hline : '\n' ∉ core := by
    intro hm
    have hfree := PluginOptions.printed_free (E := E) rfl rfl rfl hid hproper '\n'
    rw [h] at hfree
    cases hfree (List.mem_append_left _ hm)
  have hmark (hcore : kcptunMark <+: core) : kcptunMark <+: o.id := by
    rw [← mark_prefix_toString_iff (E := E) hid, h]
    exact hcore.trans (List.prefix_append _ _)
  rw [selectedOptions_line defaults hline]
  constructor
  · rintro ⟨o', hselected, hequals⟩
    obtain ⟨read, hread, hsome⟩ := Option.map_eq_some_iff.mp hselected
    have hsame : o'.id = o.id := (PluginOptions.equals_iff.mp hequals).1
    have hne : read.id ≠ [] := by
      intro hnil
      rw [if_pos hnil] at hsome
      rw [← hsome] at hsame
      exact hid hsame.symm
    rw [if_neg hne] at hsome
    rw [hsome] at hread
    have hplain : ¬ kcptunMark <+: o.id := by
      intro hstart
      have hprinted := (mark_prefix_toString_iff (E := E) hid).mpr hstart
      rw [h] at hprinted
      have hkcptun := ofLine_mark (mark_prefix_core (fun c hc => (hjunk c hc).2) hprinted) hread
      rw [← hsame, hkcptun] at hstart
      exact absurd hstart.length_le (by decide)
    rw [ofLine_of_not_mark fun hcore => hplain (hmark hcore)] at hread
    have hnil : junk = [] := by
      by_contra hjunk'
      have hdiff := PluginOptions.parse_cut hid (fun c hc => (hjunk c hc).1) hjunk' h hread
      rw [hequals] at hdiff
      cases hdiff
    rw [hnil, List.append_nil] at h
    rw [← h] at hread
    exact ⟨hnil, noControl_of_parse hid hread, hplain⟩
  · rintro ⟨rfl, hcontrol, hplain⟩
    rw [List.append_nil] at h
    rw [ofLine_of_not_mark fun hcore => hplain (hmark hcore), ← h,
      PluginOptions.parse_toString_false hid hcontrol hproper.printable]
    exact ⟨o.enumerated E, congrArg some (if_neg hid), PluginOptions.enumerated_equals E o⟩

end Selected

end CypherConnect.Plugin
