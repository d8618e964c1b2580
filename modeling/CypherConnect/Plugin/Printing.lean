/-
  Printing plugin options, and reading the printed string again.

  The printer walks over the entries of the hash map in an order that nothing fixes: an
  `Enumeration` stands for it. A backslash is put before every delimiter of a text.

  * `read_escaped`: the parser collects the text itself from an escaped text.
  * `read_items`: the printed entries are put into the map one by one.
  * `parse_toString_false`, `parse_toString_true`: the parser returns the options that were printed,
    with the entries in the order of the enumeration.
-/
import Mathlib.Data.List.Perm.Basic
import CypherConnect.Lib.Keyed
import CypherConnect.Plugin.PluginOptions

namespace CypherConnect.Plugin

open Scan

/-- The order in which a hash map enumerates its entries. -/
structure Enumeration where
  entries : PluginOptions → List (Text × Option Text)
  perm : ∀ o, (entries o).Perm o.entries

/-- The order in which the entries were put. -/
def Enumeration.inserted : Enumeration := ⟨PluginOptions.entries, fun _ => List.Perm.refl _⟩

def escapeChar (c : Char) : Text := if isDelim c then ['\\', c] else [c]

/-- What `append` adds. -/
def escape (str : Text) : Text := str.flatMap escapeChar

namespace PluginOptions

/-- `append`. -/
def append (result str : Text) : Text := str.foldl (fun result c => result ++ escapeChar c) result

/-- The body of the loop of `toString`. -/
def appendEntry (result : Text) (e : Text × Option Text) : Text :=
  let separated := if result.isEmpty then result else result ++ [';']
  match e.2 with
  | none => append separated e.1
  | some value => append (append separated e.1 ++ ['=']) value

def toString (E : Enumeration) (o : PluginOptions) (trimId : Bool) : Text :=
  if trimId then (E.entries o).foldl appendEntry []
  else if o.id.isEmpty then []
  else (E.entries o).foldl appendEntry (append [] o.id)

/-- `HashMap.get`, with the difference between a key without value and no key. -/
def lookup (o : PluginOptions) (key : Text) : Option (Option Text) :=
  (o.entries.find? (·.1 == key)).map Prod.snd

/-- `equals`: that of `AbstractMap`, and the ids. -/
def equals (o other : PluginOptions) : Bool :=
  (o.entries.length == other.entries.length &&
    o.entries.all fun e => other.lookup e.1 == some e.2) && o.id == other.id

/-! ## Equality -/

theorem lookup_eq_some {o : PluginOptions} {e : Text × Option Text} :
    o.lookup e.1 = some e.2 ↔ e ∈ o.entries := by
  constructor
  · intro h
    obtain ⟨e', hfind, hsnd⟩ := Option.map_eq_some_iff.mp h
    obtain ⟨hmem, hfst⟩ := Keyed.find?_some hfind
    rw [← Prod.ext hfst hsnd]
    exact hmem
  · intro h
    unfold lookup
    rw [Keyed.find?_of_mem o.keys_nodup h]
    rfl

theorem nodup_entries (o : PluginOptions) : o.entries.Nodup := List.Nodup.of_map _ o.keys_nodup

/-- Two options are equal when they have the same id and the same entries, in whatever order. -/
theorem equals_iff {o other : PluginOptions} :
    o.equals other = true ↔ o.id = other.id ∧ o.entries.Perm other.entries := by
  unfold equals
  simp only [Bool.and_eq_true, beq_iff_eq, List.all_eq_true, lookup_eq_some]
  constructor
  · rintro ⟨⟨hlen, hsub⟩, hid⟩
    have hperm := List.subperm_of_subset (nodup_entries o) hsub
    exact ⟨hid, hperm.perm_of_length_le hlen.ge⟩
  · rintro ⟨hid, hperm⟩
    exact ⟨⟨hperm.length_eq, fun e he => hperm.subset he⟩, hid⟩

/-! ## The printed string -/

theorem append_eq (result str : Text) : append result str = result ++ escape str := by
  unfold append escape
  induction str generalizing result with
  | nil => exact (List.append_nil _).symm
  | cons c str ih => rw [List.foldl_cons, ih, List.flatMap_cons, List.append_assoc]

/-- An entry as it is printed. -/
def printEntry (e : Text × Option Text) : Text :=
  escape e.1 ++ e.2.elim [] fun value => '=' :: escape value

theorem appendEntry_eq (result : Text) (e : Text × Option Text) : appendEntry result e =
    (if result.isEmpty then result else result ++ [';']) ++ printEntry e := by
  unfold appendEntry printEntry
  cases e.2 with
  | none => simp only [append_eq, Option.elim, List.append_nil]
  | some value => simp only [append_eq, Option.elim, List.append_assoc, List.singleton_append]

theorem foldl_appendEntry {es : List (Text × Option Text)} {result : Text} (hne : result ≠ []) :
    es.foldl appendEntry result = result ++ es.flatMap fun e => ';' :: printEntry e := by
  induction es generalizing result with
  | nil => exact (List.append_nil _).symm
  | cons e es ih =>
      have hempty : ¬ result.isEmpty = true := fun h => hne (List.isEmpty_iff.mp h)
      have hstep : appendEntry result e = result ++ ';' :: printEntry e := by
        rw [appendEntry_eq, if_neg hempty, List.append_assoc, List.singleton_append]
      have hnext : result ++ ';' :: printEntry e ≠ [] := List.append_ne_nil_of_left_ne_nil hne _
      rw [List.foldl_cons, hstep, ih hnext, List.flatMap_cons, List.append_assoc]

/-- The separators before the entries are the separators after them. -/
theorem separators (es : List (Text × Option Text)) :
    (es.flatMap fun e => ';' :: printEntry e) ++ [';'] =
      ';' :: es.flatMap fun e => printEntry e ++ [';'] := by
  induction es with
  | nil => rfl
  | cons e es ih =>
      rw [List.flatMap_cons, List.flatMap_cons, List.append_assoc, ih, List.append_assoc]
      rfl

theorem toString_true_cons {E : Enumeration} {o : PluginOptions} {e : Text × Option Text}
    {es : List (Text × Option Text)} (hcons : E.entries o = e :: es) (he : printEntry e ≠ []) :
    o.toString E true = printEntry e ++ es.flatMap fun e => ';' :: printEntry e := by
  have hfirst : appendEntry [] e = printEntry e := appendEntry_eq [] e
  show (E.entries o).foldl appendEntry [] = _
  rw [hcons, List.foldl_cons, hfirst, foldl_appendEntry he]

/-- With its final `;` the string without id is a sequence of entries that each end in one. -/
theorem toString_true {E : Enumeration} {o : PluginOptions}
    (hes : ∀ e ∈ E.entries o, printEntry e ≠ []) (hne : E.entries o ≠ []) : o.toString E true ≠ [] ∧
      o.toString E true ++ [';'] = (E.entries o).flatMap fun e => printEntry e ++ [';'] := by
  obtain ⟨e, es, hcons⟩ := List.exists_cons_of_ne_nil hne
  have he : printEntry e ≠ [] := hes e (hcons ▸ List.mem_cons_self)
  rw [toString_true_cons hcons he]
  refine ⟨List.append_ne_nil_of_left_ne_nil he _, ?_⟩
  rw [hcons, List.append_assoc, separators, List.flatMap_cons, List.append_assoc]
  rfl

theorem escape_ne_nil {str : Text} (h : str ≠ []) : escape str ≠ [] := Scan.escape_ne_nil h '\\'

theorem toString_false_eq {E : Enumeration} {o : PluginOptions} (hid : o.id ≠ []) :
    o.toString E false = escape o.id ++ (E.entries o).flatMap fun e => ';' :: printEntry e := by
  have hempty : ¬ o.id.isEmpty = true := fun h => hid (List.isEmpty_iff.mp h)
  have happend : append [] o.id = escape o.id := append_eq [] o.id
  show (if o.id.isEmpty then [] else (E.entries o).foldl appendEntry (append [] o.id)) = _
  rw [if_neg hempty, happend, foldl_appendEntry (escape_ne_nil hid)]

/-- The string with the id has it as a first item. -/
theorem toString_false {E : Enumeration} {o : PluginOptions} (hid : o.id ≠ []) :
    o.toString E false ≠ [] ∧ o.toString E false ++ [';'] =
      escape o.id ++ ';' :: (E.entries o).flatMap fun e => printEntry e ++ [';'] := by
  rw [toString_false_eq hid]
  refine ⟨List.append_ne_nil_of_left_ne_nil (escape_ne_nil hid) _, ?_⟩
  rw [List.append_assoc, separators]

end PluginOptions

/-! ## Reading it again -/

namespace Reader

variable {s : Reader}

theorem read_escaped (text : Text) {d : Char} (hd : isDelim d = true) (hback : d ≠ '\\')
    (rest : Text) : s.read (tokens isDelim (escape text ++ d :: rest)) =
      ((s.push text).next [d]).read (tokens isDelim rest) := by
  have hne : [d] ≠ ['\\'] := fun heq => hback (List.cons.inj heq).1
  have hhead : ∀ c ∈ (d :: rest).head?, isDelim c = true := by
    intro c hc
    cases hc
    exact hd
  have htokens : tokens isDelim (d :: rest) = [d] :: tokens isDelim rest :=
    tokensFrom_delim hd [] rest
  show s.read (tokens isDelim (Scan.escape isDelim '\\' text ++ d :: rest)) = _
  rw [unescapes.read_escape rfl s text hhead, htokens, read_of_ne hne]

/-- The first item, where the id is read. -/
theorem read_escapedId {id : Text} (hne : id ≠ []) (rest : Text) :
    Reader.read { parseId := true } (tokens isDelim (escape id ++ ';' :: rest)) =
      Reader.read ⟨PluginOptions.setId {} id, false, [], none⟩ (tokens isDelim rest) := by
  have hempty : ¬ id.isEmpty = true := fun h => hne (List.isEmpty_iff.mp h)
  have hclose : (Reader.push { parseId := true } id).close =
      ⟨PluginOptions.setId {} id, false, [], none⟩ := by
    unfold close push
    simp only [List.nil_append, if_neg hempty, if_true]
  rw [read_escaped id rfl (by decide), next_semicolon, hclose]

/-- An entry, once the id has been read. -/
theorem read_printEntry {e : Text × Option Text} (he : e ≠ ([], none)) (o : PluginOptions)
    (rest : Text) :
    Reader.read ⟨o, false, [], none⟩ (tokens isDelim (PluginOptions.printEntry e ++ ';' :: rest)) =
      Reader.read ⟨o.put e.1 e.2, false, [], none⟩ (tokens isDelim rest) := by
  obtain ⟨key, value⟩ := e
  cases value with
  | none =>
      have hempty : ¬ key.isEmpty = true := by
        intro h
        rw [List.isEmpty_iff.mp h] at he
        exact he rfl
      have hclose : (Reader.push ⟨o, false, [], none⟩ key).close = ⟨o.put key none, false, [],
          none⟩ := by
        unfold close push
        simp only [List.nil_append, if_neg hempty, Bool.false_eq_true, if_false]
      show Reader.read _ (tokens isDelim ((escape key ++ []) ++ ';' :: rest)) = _
      rw [List.append_nil, read_escaped key rfl (by decide), next_semicolon, hclose]
  | some value =>
      show Reader.read _ (tokens isDelim ((escape key ++ '=' :: escape value) ++ ';' :: rest)) = _
      rw [List.append_assoc, List.cons_append, read_escaped key rfl (by decide)]
      show Reader.read ⟨o, false, [], some key⟩ _ = _
      rw [read_escaped value rfl (by decide), next_semicolon]
      rfl

/-- The entries are put into the map one by one. -/
theorem read_items {es : List (Text × Option Text)} (hes : ([], none) ∉ es) (o : PluginOptions) :
    Reader.read ⟨o, false, [], none⟩
        (tokens isDelim (es.flatMap fun e => PluginOptions.printEntry e ++ [';'])) =
      some ⟨es.foldl (fun o e => o.put e.1 e.2) o, false, [], none⟩ := by
  induction es generalizing o with
  | nil => rfl
  | cons e es ih =>
      have he : e ≠ ([], none) := by
        rintro rfl
        exact hes List.mem_cons_self
      have htail : ([], none) ∉ es := fun h => hes (List.mem_cons_of_mem _ h)
      rw [List.flatMap_cons, List.append_assoc, List.singleton_append, read_printEntry he, ih htail]
      rfl

end Reader

namespace PluginOptions

theorem foldl_put_id (es : List (Text × Option Text)) (o : PluginOptions) :
    (es.foldl (fun o e => o.put e.1 e.2) o).id = o.id := by
  induction es generalizing o with
  | nil => rfl
  | cons e es ih => exact ih (o.put e.1 e.2)

/-- Entries with new keys are added at the end. -/
theorem foldl_put_entries {es : List (Text × Option Text)} {o : PluginOptions}
    (h : ((o.entries ++ es).map Prod.fst).Nodup) :
    (es.foldl (fun o e => o.put e.1 e.2) o).entries = o.entries ++ es := by
  induction es generalizing o with
  | nil => exact (List.append_nil _).symm
  | cons e es ih =>
      have hnew : o.entries.filter (·.1 != e.1) = o.entries := by
        rw [List.filter_eq_self]
        intro x hx
        rw [List.map_append, List.map_cons] at h
        have hdisj := (List.nodup_append.mp h).2.2
        rw [bne_iff_ne]
        exact hdisj x.1 (List.mem_map_of_mem hx) e.1 List.mem_cons_self
      have hput : (o.put e.1 e.2).entries = o.entries ++ [e] := by
        show o.entries.filter (·.1 != e.1) ++ [(e.1, e.2)] = _
        rw [hnew]
      have hnext : (((o.put e.1 e.2).entries ++ es).map Prod.fst).Nodup := by
        rw [hput, List.append_assoc]
        exact h
      rw [List.foldl_cons, ih hnext, hput, List.append_assoc]
      rfl

theorem ext_entries {o other : PluginOptions} (hid : o.id = other.id)
    (hentries : o.entries = other.entries) : o = other := by
  obtain ⟨id, entries, hnodup⟩ := o
  subst hid
  subst hentries
  rfl

/-- The options, with the entries as they are enumerated. -/
def enumerated (E : Enumeration) (o : PluginOptions) : PluginOptions where
  id := o.id
  entries := E.entries o
  keys_nodup := ((E.perm o).map Prod.fst).nodup_iff.mpr o.keys_nodup

theorem enumerated_equals (E : Enumeration) (o : PluginOptions) :
    (o.enumerated E).equals o = true :=
  equals_iff.mpr ⟨rfl, E.perm o⟩

/-- Putting the enumerated entries into a map that has only the id. -/
theorem foldl_put_enumerated (E : Enumeration) (o : PluginOptions) :
    (E.entries o).foldl (fun o e => o.put e.1 e.2) (setId {} o.id) = o.enumerated E := by
  have hnodup : (((setId {} o.id).entries ++ E.entries o).map Prod.fst).Nodup :=
    (o.enumerated E).keys_nodup
  exact ext_entries (foldl_put_id _ _) (foldl_put_entries hnodup)

/-- No ISO control character in the id, the keys and the values. -/
def NoControl (o : PluginOptions) : Prop :=
  (∀ c ∈ o.id, isISOControl c = false) ∧
    ∀ e ∈ o.entries, (∀ c ∈ e.1, isISOControl c = false) ∧
      ∀ value ∈ e.2, ∀ c ∈ value, isISOControl c = false

theorem mem_escape {c : Char} {str : Text} (h : c ∈ escape str) : c = '\\' ∨ c ∈ str := by
  obtain ⟨x, hx, hc⟩ := List.mem_flatMap.mp h
  unfold escapeChar at hc
  split at hc
  · rcases List.mem_cons.mp hc with hc | hc
    · exact Or.inl hc
    · exact Or.inr (List.mem_singleton.mp hc ▸ hx)
  · exact Or.inr (List.mem_singleton.mp hc ▸ hx)

/-- A class that has none of the three special characters has none of an escaped text if it has none
of the text. -/
theorem escape_free {p : Char → Bool} (hback : p '\\' = false) {str : Text}
    (h : ∀ c ∈ str, p c = false) : ∀ c ∈ escape str, p c = false := by
  intro c hc
  rcases mem_escape hc with rfl | hc
  · exact hback
  · exact h c hc

theorem printEntry_free {p : Char → Bool} (hback : p '\\' = false) (heq : p '=' = false)
    {e : Text × Option Text} (hkey : ∀ c ∈ e.1, p c = false)
    (hvalue : ∀ value ∈ e.2, ∀ c ∈ value, p c = false) : ∀ c ∈ printEntry e, p c = false := by
  intro c hc
  rcases List.mem_append.mp hc with hc | hc
  · exact escape_free hback hkey c hc
  · cases hsnd : e.2 with
    | none =>
        rw [hsnd] at hc
        cases hc
    | some value =>
        rw [hsnd] at hc
        rcases List.mem_cons.mp hc with rfl | hc
        · exact heq
        · exact escape_free hback (hvalue value hsnd) c hc

/-- A class without special characters that has none of the id and the entries has none of the items
of the printed string. -/
theorem items_free {p : Char → Bool} (hback : p '\\' = false) (heq : p '=' = false)
    (hsemi : p ';' = false) {es : List (Text × Option Text)}
    (hes : ∀ e ∈ es, (∀ c ∈ e.1, p c = false) ∧ ∀ value ∈ e.2, ∀ c ∈ value, p c = false) :
    ∀ c ∈ es.flatMap (fun e => printEntry e ++ [';']), p c = false := by
  intro c hc
  obtain ⟨e, he, hc⟩ := List.mem_flatMap.mp hc
  rcases List.mem_append.mp hc with hc | hc
  · exact printEntry_free hback heq (hes e he).1 (hes e he).2 c hc
  · rw [List.mem_singleton.mp hc, hsemi]

variable {E : Enumeration} {o : PluginOptions}

theorem NoControl.enumerated (h : o.NoControl) : ∀ e ∈ E.entries o,
    (∀ c ∈ e.1, isISOControl c = false) ∧ ∀ value ∈ e.2, ∀ c ∈ value, isISOControl c = false :=
  fun e he => h.2 e ((E.perm o).subset he)

theorem any_isISOControl {text : Text} (h : ∀ c ∈ text ++ [';'], isISOControl c = false) :
    text.any isISOControl = false := by
  rw [List.any_eq_false]
  intro c hc
  rw [h c (List.mem_append_left _ hc)]
  exact Bool.false_ne_true

theorem printEntry_ne_nil {e : Text × Option Text} (he : e ≠ ([], none)) : printEntry e ≠ [] := by
  obtain ⟨key, value⟩ := e
  cases value with
  | none =>
      have hkey : key ≠ [] := by
        rintro rfl
        exact he rfl
      exact List.append_ne_nil_of_left_ne_nil (escape_ne_nil hkey) _
  | some value => exact List.append_ne_nil_of_right_ne_nil _ (List.cons_ne_nil _ _)

/-- The string with the id, read with the id. -/
theorem parse_toString_false (hid : o.id ≠ []) (hcontrol : o.NoControl)
    (hkey : ([], none) ∉ o.entries) :
    parse (some (o.toString E false)) true = some (o.enumerated E) := by
  obtain ⟨hne, hprinted⟩ := toString_false (E := E) hid
  have hfree : ∀ c ∈ o.toString E false ++ [';'], isISOControl c = false := by
    rw [hprinted]
    intro c hc
    rcases List.mem_append.mp hc with hc | hc
    · exact escape_free rfl hcontrol.1 c hc
    · rcases List.mem_cons.mp hc with rfl | hc
      · rfl
      · exact items_free rfl rfl rfl hcontrol.enumerated c hc
  have hentries : ([], none) ∉ E.entries o := fun h => hkey ((E.perm o).subset h)
  rw [parse_of_ne_nil hne, any_isISOControl hfree, hprinted, Reader.read_escapedId hid,
    Reader.read_items hentries, foldl_put_enumerated]
  rfl

/-- The string without the id, read without an id. -/
theorem parse_toString_true (hcontrol : o.NoControl) (hkey : ([], none) ∉ o.entries) :
    (parse (some (o.toString E true)) false).map (fun read => read.setId o.id) =
      some (o.enumerated E) := by
  have hentries : ([], none) ∉ E.entries o := fun h => hkey ((E.perm o).subset h)
  by_cases hnil : E.entries o = []
  · have htext : o.toString E true = [] := by
      show (E.entries o).foldl appendEntry [] = []
      rw [hnil]
      rfl
    rw [htext]
    exact congrArg some (ext_entries rfl hnil.symm)
  · obtain ⟨hne, hprinted⟩ :=
      toString_true (fun e he => printEntry_ne_nil fun h => hentries (h ▸ he)) hnil
    have hfree : ∀ c ∈ o.toString E true ++ [';'], isISOControl c = false := by
      rw [hprinted]
      exact items_free rfl rfl rfl hcontrol.enumerated
    have hread := Reader.read_items hentries {}
    rw [parse_of_ne_nil hne, any_isISOControl hfree, hprinted]
    show ((Reader.read ⟨{}, false, [], none⟩ _).map Reader.options).map _ = _
    rw [hread]
    have hnodup : ((({} : PluginOptions).entries ++ E.entries o).map Prod.fst).Nodup :=
      (o.enumerated E).keys_nodup
    exact congrArg some (ext_entries rfl (foldl_put_entries hnodup))

/-- Options survive printing and parsing, with the id and without it, in whatever order their
entries are printed. -/
theorem printing_round_trip (E : Enumeration) (o : PluginOptions) (hid : o.id ≠ [])
    (hcontrol : o.NoControl) (hkey : ([], none) ∉ o.entries) :
    (∃ read, ofOptions (some (o.toString E false)) = some read ∧ read.equals o = true) ∧
      ∃ read, ofIdOptions o.id (some (o.toString E true)) = some read ∧ read.equals o = true :=
  ⟨⟨o.enumerated E, parse_toString_false hid hcontrol hkey, enumerated_equals E o⟩,
    o.enumerated E, parse_toString_true hcontrol hkey, enumerated_equals E o⟩

/-- An id and entries with all three special characters, an empty value, a key without value and an
empty key. -/
def sampleOptions : PluginOptions where
  id := "a;b\\".toList
  entries := [("=k".toList, some "v;\\=".toList), ([], some []), ("flag".toList, none)]
  keys_nodup := by decide

theorem printing_round_trip_sample :
    (∃ read, ofOptions (some (sampleOptions.toString .inserted false)) = some read ∧
      read.equals sampleOptions = true) ∧
      ∃ read, ofIdOptions sampleOptions.id (some (sampleOptions.toString .inserted true)) =
        some read ∧
        read.equals sampleOptions = true := by
  refine printing_round_trip .inserted sampleOptions (by decide) ⟨?_, ?_⟩ (by decide)
  · exact Scan.forall_eq_false (by decide)
  · intro e he
    simp only [sampleOptions, List.mem_cons, List.not_mem_nil, or_false] at he
    rcases he with rfl | rfl | rfl
    · refine ⟨Scan.forall_eq_false (by decide), ?_⟩
      rintro value ⟨⟩
      exact Scan.forall_eq_false (by decide)
    · refine ⟨Scan.forall_eq_false (by decide), ?_⟩
      rintro value ⟨⟩
      exact Scan.forall_eq_false (by decide)
    · refine ⟨Scan.forall_eq_false (by decide), ?_⟩
      rintro value ⟨⟩

end PluginOptions

end CypherConnect.Plugin
