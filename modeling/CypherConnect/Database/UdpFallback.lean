/-
  The UDP fallbacks of imported profiles: whether each profile gets that of its own object.

  Of objects that are read as equal profiles the first one takes the entry of the map, with the
  fallback of the last. A fallback with a plugin is stored with it, unless the table has its server
  without one.

  * `Imported.row_linked`: what is stored for a profile with an entry.
  * `Imported.noRepeats`, `Imported.fallbacksMatch`, `Imported.ownFallback`: the parts of the main
    result.
  * `own_fallback_iff`: each profile gets its own fallback exactly if no object after one that is
    read as the same profile has a fallback, and every fallback with a plugin has a match without.
-/
import CypherConnect.Database.ImportedEndpoints
import CypherConnect.Database.JsonImport

namespace CypherConnect.JsonParser

open Plugin ProfileManager ProfileTable

section Import

variable {G : Gson} {E : Enumeration} {feature : Option Profile} {doc : Json} {s s1 s' : Storage}
  {items : List Item} {created : List Profile} {map : FallbackMap}

/-! ## Whose fallback -/

/-- The object names no plugin. -/
def PluginFree (json : Members) : Prop := nonEmpty (optString json "plugin") = none

theorem pluginFree_iff {json : Members} {plugin : Option Text} (h : pluginOf E json = .ok plugin) :
    plugin.getD [] = [] ↔ PluginFree json := by
  unfold pluginOf at h
  unfold PluginFree
  split at h
  · next hnone =>
      cases h
      exact ⟨fun _ => hnone, fun _ => rfl⟩
  · next id hid =>
      split at h
      · cases h
      · next o ho =>
          cases h
          have hne : id ≠ [] := by
            obtain ⟨-, hfilter⟩ := Option.filter_eq_some_iff.mp hid
            rintro rfl
            cases hfilter
          have hoid : o.id = id := by
            obtain ⟨o', -, rfl⟩ := Option.map_eq_some_iff.mp ho
            rfl
          have htext : o.toString E false ≠ [] := (PluginOptions.toString_false (hoid ▸ hne)).1
          rw [hid]
          exact iff_of_false htext (Option.some_ne_none id)

/-- The plugin of a fallback, in the object and in the profile. -/
theorem fallback_pluginFree_iff {json member : Members} {item : Item} {f : Profile}
    (hread : Reads G E feature json item) (hf : item.2 = some f)
    (hmember : optObject json "udp_fallback" = some member) :
    f.plugin.getD [] = [] ↔ PluginFree member := by
  obtain ⟨member', plugin, hmember', hpluginOf, hsame⟩ := hread.spec.fallbackPlugin f hf
  obtain rfl := Option.some.inj (hmember.symm.trans hmember')
  rw [hsame]
  exact pluginFree_iff hpluginOf

/-- The stored profile made from `json` has a fallback if and only if `json` has one, and then it is
the id of a stored profile without plugin for the same server. -/
def OwnFallback (G : Gson) (t : ProfileTable) (json : Members) (q : Profile) : Prop :=
  ∃ row, t.get q.id = some row ∧ server G json = some (serverOf row) ∧
    (row.udpFallback ≠ none ↔ fallbackServer G json ≠ none) ∧
    ∀ id, row.udpFallback = some id → ∃ target, t.get id = some target ∧
      target.plugin.getD [] = [] ∧ fallbackServer G json = some (serverOf target)

/-- No object has a fallback that comes after one that is read as the same profile. -/
def NoRepeats (G : Gson) (E : Enumeration) (feature : Option Profile) (doc : Json) : Prop :=
  ∀ (i j : Nat) (json json' : Members), i < j → (objects G doc)[i]? = some json →
    (objects G doc)[j]? = some json' → profileOf G E feature json = profileOf G E feature json' →
    fallbackServer G json' = none

/-- A fallback names no plugin, or its server is there without one: in the table, or in the
document. -/
def FallbacksMatch (G : Gson) (doc : Json) (t : ProfileTable) : Prop :=
  ∀ json ∈ objects G doc, ∀ member sv, optObject json "udp_fallback" = some member →
    server G member = some sv → PluginFree member ∨
      (∃ row ∈ t.rows, row.plugin.getD [] = [] ∧ serverOf row = sv) ∨
      ∃ other ∈ objects G doc, PluginFree other ∧ server G other = some sv

namespace Imported

variable (h : Imported G E feature doc s items created map s1 s')

include h

/-- Without such repetitions the entry of each profile is its own. -/
theorem mem_map_of_noRepeats (hno : NoRepeats G E feature doc) {i : Nat} {json : Members}
    {q f : Profile} {item : Item} (hjson : (objects G doc)[i]? = some json)
    (hq : created[i]? = some q) (hitem : items[i]? = some item)
    (hp : (items.map Prod.fst)[i]? = some item.1) :
    (q, f) ∈ map ↔ item.2 = some f := by
  have hobject {k : Nat} {other : Item} (hk : items[k]? = some other) :
      ∃ json', (objects G doc)[k]? = some json' ∧ Reads G E feature json' other := by
    obtain ⟨json', hjson', hread'⟩ := Related.exists_getElem? (List.Forall₂.flip h.reads) hk
    exact ⟨json', hjson', hread'⟩
  -- of two places with the same profile the later one has no fallback
  have hlater {j k : Nat} {a b : Item} (hjk : j < k) (ha : items[j]? = some a)
      (hb : items[k]? = some b) (hab : b.1 = a.1) : b.2 = none := by
    obtain ⟨ja, hja, hra⟩ := hobject ha
    obtain ⟨jb, hjb, hrb⟩ := hobject hb
    have hnone := hno j k ja jb hjk hja hjb (by rw [hra.profileOf, hrb.profileOf, hab])
    rw [hrb.spec.fallback] at hnone
    exact Option.map_eq_none_iff.mp hnone
  rw [h.mem_map_iff hp hq, mem_fallbackMap_getElem?]
  constructor
  · rintro ⟨hfirst, j, hj, -⟩
    rcases Nat.lt_trichotomy j i with hlt | rfl | hgt
    · refine absurd (List.mem_iff_getElem?.mpr ⟨j, ?_⟩) hfirst
      rw [List.getElem?_take_of_lt hlt, List.getElem?_map, hj]
      rfl
    · rw [Option.some.inj (hitem.symm.trans hj)]
    · cases hlater hgt hitem hj rfl
  · intro hf
    refine ⟨fun hin => ?_, i, ?_, fun k other hk hother hsame => hlater hk hitem hother hsame⟩
    · obtain ⟨j, hj⟩ := List.mem_iff_getElem?.mp hin
      have hlt : j < i := by
        have := (List.getElem?_eq_some_iff.mp hj).1
        rw [List.length_take] at this
        omega
      rw [List.getElem?_take_of_lt hlt, List.getElem?_map] at hj
      obtain ⟨a, ha, hsame⟩ := Option.map_eq_some_iff.mp hj
      rw [hlater hlt ha hitem hsame.symm] at hf
      cases hf
    · rw [hitem, ← hf]

/-- A match for a fallback among the rows of the loop, in the table or in the document. -/
theorem exists_match_iff {f : Profile} : (∃ row ∈ s1.table.rows, isMatch f row = true) ↔
    (∃ row ∈ s.table.rows, row.plugin.getD [] = [] ∧ serverOf row = serverOf f) ∨
      ∃ other ∈ objects G doc, PluginFree other ∧ server G other = some (serverOf f) := by
  have hcreated (q : Profile) {i : Nat} (hq : created[i]? = some q) : ∃ json,
      (objects G doc)[i]? = some json ∧ server G json = some (serverOf q) ∧
        (q.plugin.getD [] = [] ↔ PluginFree json) := by
    have hlt : i < (objects G doc).length := by
      have := (List.getElem?_eq_some_iff.mp hq).1
      rw [h.all.length, List.length_map, ← h.reads.length_eq] at this
      exact this
    obtain ⟨item, -, hread, -, id, order, rfl⟩ := h.item (List.getElem?_eq_getElem hlt) hq
    exact ⟨_, List.getElem?_eq_getElem hlt, hread.spec.server, pluginFree_iff hread.spec.plugin⟩
  constructor
  · rintro ⟨row, hrow, hmatch⟩
    obtain ⟨hserver, hplugin⟩ := isMatch_iff.mp hmatch
    rw [h.all.rows] at hrow
    rcases List.mem_append.mp hrow with hrow | hrow
    · exact Or.inl ⟨row, hrow, hplugin, hserver⟩
    · obtain ⟨q, hq, rfl⟩ := List.mem_map.mp hrow
      obtain ⟨i, hi⟩ := List.mem_iff_getElem?.mp hq
      obtain ⟨json, hjson, hsame, hfree⟩ := hcreated q hi
      refine Or.inr ⟨json, List.mem_of_getElem? hjson, hfree.mp hplugin, ?_⟩
      rw [hsame, ← hserver]
      rfl
  · rintro (⟨row, hrow, hplugin, hserver⟩ | ⟨json, hjson, hfree, hserver⟩)
    · refine ⟨row, ?_, isMatch_iff.mpr ⟨hserver, hplugin⟩⟩
      rw [h.all.rows]
      exact List.mem_append_left _ hrow
    · obtain ⟨i, hi⟩ := List.mem_iff_getElem?.mp hjson
      have hlt : i < created.length := by
        have := (List.getElem?_eq_some_iff.mp hi).1
        rw [h.all.length, List.length_map, ← h.reads.length_eq]
        exact this
      obtain ⟨json', hjson', hsame, hfree'⟩ := hcreated _ (List.getElem?_eq_getElem hlt)
      obtain rfl := Option.some.inj (hi.symm.trans hjson')
      refine ⟨stored created[i], ?_, isMatch_iff.mpr ⟨?_, hfree'.mpr hfree⟩⟩
      · rw [h.all.rows]
        exact List.mem_append_right _ (List.mem_map_of_mem (List.getElem_mem hlt))
      · rw [hserver] at hsame
        exact (Option.some.inj hsame).symm

/-- What is stored for an object that has an entry. -/
theorem row_linked {q f : Profile} (hmem : (q, f) ∈ map) : ∃ id target,
    s'.table.get q.id = some (stored { q with udpFallback := some id }) ∧
      s'.table.get id = some target ∧ serverOf target = serverOf f ∧
      (target.plugin.getD [] = [] ↔ f.plugin.getD [] = [] ∨
        (∃ row ∈ s.table.rows, row.plugin.getD [] = [] ∧ serverOf row = serverOf f) ∨
        ∃ other ∈ objects G doc, PluginFree other ∧ server G other = some (serverOf f)) := by
  obtain ⟨id, hrow, htarget⟩ := h.links.2 (q, f) hmem
  obtain ⟨target, hget, hserver, hplugin⟩ := h.target_row htarget
  rw [h.exists_match_iff] at hplugin
  exact ⟨id, target, hrow, hget, hserver, hplugin⟩

theorem exists_created {i : Nat} {json : Members} (hjson : (objects G doc)[i]? = some json) :
    ∃ q, created[i]? = some q := by
  have hlt : i < created.length := by
    rw [h.all.length, List.length_map, ← h.reads.length_eq]
    exact (List.getElem?_eq_some_iff.mp hjson).1
  exact ⟨_, List.getElem?_eq_getElem hlt⟩

/-- The later one of two objects that are read as the same profile is stored without a fallback. -/
theorem noRepeats (hown : ∀ (i : Nat) (json : Members)
    (q : Profile), (objects G doc)[i]? = some json →
    created[i]? = some q → OwnFallback G s'.table json q) : NoRepeats G E feature doc := by
  intro i j json json' hij hjson hjson' hsame
  obtain ⟨qi, hqi⟩ := h.exists_created hjson
  obtain ⟨qj, hqj⟩ := h.exists_created hjson'
  obtain ⟨a, ha, hra, hpa, -⟩ := h.item hjson hqi
  obtain ⟨b, hb, hrb, hpb, id, order, hcreated⟩ := h.item hjson' hqj
  have hnot : ∀ f, (qj, f) ∉ map := by
    intro f hf
    refine ((h.mem_map_iff hpb hqj).mp hf).1 (List.mem_iff_getElem?.mpr ⟨i, ?_⟩)
    rw [hra.profileOf, hrb.profileOf, Option.some.injEq] at hsame
    rw [List.getElem?_take_of_lt hij, hpa, hsame]
  obtain ⟨row, hrow, -, hiff, -⟩ := hown j json' qj hjson' hqj
  rw [h.row_of_not_mem (List.mem_of_getElem? hqj) hnot] at hrow
  cases hrow
  by_contra hsome
  refine hiff.mpr hsome ?_
  rw [hcreated]
  exact hrb.spec.udpFallback

theorem fallbacksMatch (hno : NoRepeats G E feature doc)
    (hown : ∀ (i : Nat) (json : Members) (q : Profile), (objects G doc)[i]? = some json →
      created[i]? = some q → OwnFallback G s'.table json q) : FallbacksMatch G doc s.table := by
  intro json hjson member sv hmember hsv
  obtain ⟨i, hi⟩ := List.mem_iff_getElem?.mp hjson
  obtain ⟨q, hq⟩ := h.exists_created hi
  obtain ⟨item, hitem, hread, hp, -⟩ := h.item hi hq
  have hfallback : fallbackServer G json = some sv := by
    unfold fallbackServer
    rw [hmember]
    exact hsv
  obtain ⟨f, hf, hserver⟩ := Option.map_eq_some_iff.mp (hread.spec.fallback.symm.trans hfallback)
  obtain ⟨id, target, hrow, htarget, -, hplugin⟩ :=
    h.row_linked ((h.mem_map_of_noRepeats hno hi hq hitem hp).mpr hf)
  obtain ⟨row, hrow', -, -, htargets⟩ := hown i json q hi hq
  obtain rfl := Option.some.inj (hrow'.symm.trans hrow)
  obtain ⟨target', htarget', hfree, -⟩ := htargets id rfl
  obtain rfl := Option.some.inj (htarget'.symm.trans htarget)
  rw [← hserver, ← fallback_pluginFree_iff hread hf hmember]
  exact hplugin.mp hfree

theorem ownFallback (hno : NoRepeats G E feature doc) (hmatch : FallbacksMatch G doc s.table)
    {i : Nat} {json : Members} {q : Profile} (hjson : (objects G doc)[i]? = some json)
    (hq : created[i]? = some q) :
    OwnFallback G s'.table json q := by
  obtain ⟨item, hitem, hread, hp, id, order, hcreated⟩ := h.item hjson hq
  have hserver : server G json = some (serverOf q) := by
    rw [hread.spec.server, hcreated]
    rfl
  have hentry {f : Profile} := h.mem_map_of_noRepeats (f := f) hno hjson hq hitem hp
  cases hf : item.2 with
  | none =>
      have hnot : ∀ f, (q, f) ∉ map := by
        intro f hmem
        rw [hentry, hf] at hmem
        cases hmem
      have hnone : fallbackServer G json = none := by
        rw [hread.spec.fallback, hf]
        rfl
      have hudp : (stored q).udpFallback = none := by
        rw [hcreated]
        exact hread.spec.udpFallback
      refine ⟨_, h.row_of_not_mem (List.mem_of_getElem? hq) hnot, hserver, ?_, fun id hid => ?_⟩
      · rw [hnone, hudp]
        exact iff_of_false (fun hne => hne rfl) (fun hne => hne rfl)
      · rw [hudp] at hid
        cases hid
  | some f =>
      obtain ⟨fid, target, hrow, htarget, hsame, hplugin⟩ := h.row_linked (hentry.mpr hf)
      have hfallback : fallbackServer G json = some (serverOf f) := by
        rw [hread.spec.fallback, hf]
        rfl
      obtain ⟨member, hmember, hsv⟩ := Option.bind_eq_some_iff.mp hfallback
      refine ⟨_, hrow, hserver, ?_, fun id hid => ?_⟩
      · rw [hfallback]
        exact iff_of_true (Option.some_ne_none _) (Option.some_ne_none _)
      · cases hid
        refine ⟨target, htarget, hplugin.mpr ?_, ?_⟩
        · rw [fallback_pluginFree_iff hread hf hmember]
          exact hmatch json (List.mem_of_getElem? hjson) member _ hmember hsv
        · rw [hfallback, hsame]

end Imported

/-- Each stored profile has the fallback of its own object if and only if no object repeats a
profile with another fallback, and fallbacks with a plugin have a match without. -/
theorem own_fallback_iff (G : Gson) (E : Enumeration) (feature : Option Profile) (doc : Json)
    (s s' : Storage) (hseq : 0 ≤ s.table.seq) (created : List Profile)
    (h : parseJson storage G E feature doc s = (.ok created, s')) :
    (created.length = (objects G doc).length ∧ ∀ (i : Nat) (json : Members) (q : Profile),
        (objects G doc)[i]? = some json → created[i]? = some q → OwnFallback G s'.table json q) ↔
      NoRepeats G E feature doc ∧ FallbacksMatch G doc s.table := by
  obtain ⟨items, map, s1, h⟩ := parseJson_storage hseq h
  have hlength : created.length = (objects G doc).length := by
    rw [h.all.length, List.length_map, h.reads.length_eq]
  constructor
  · rintro ⟨-, hown⟩
    have hno := h.noRepeats hown
    exact ⟨hno, h.fallbacksMatch hno hown⟩
  · rintro ⟨hno, hmatch⟩
    exact ⟨hlength, fun i json q hjson hq => h.ownFallback hno hmatch hjson hq⟩

end Import

/-- An object with a fallback, which has `extra` as well. -/
def withFallback (extra : Members) : Members :=
  portObject "8388" ++ [("udp_fallback".toList, .object (portObject "8389" ++ extra))]

/-- The fallbacks of the created profiles as they are stored. -/
def storedFallbacks (r : Except ImportFailure (List Profile) × Storage) :
    Option (List (Option (Option Int))) :=
  r.1.toOption.map fun created => created.map fun q => (r.2.table.get q.id).map Profile.udpFallback

theorem storedFallbacks_eq {r : Except ImportFailure (List Profile) × Storage}
    {l : List (Option (Option Int))} (h : storedFallbacks r = some l) :
    ∃ created s', r = (.ok created, s') ∧
      created.map (fun q => (s'.table.get q.id).map Profile.udpFallback) = l := by
  obtain ⟨r, s'⟩ := r
  cases r with
  | error f => cases h
  | ok created => exact ⟨created, s', rfl, Option.some.inj h⟩

theorem own_fallback_single : ∃ created s',
    parseJson storage plainGson .inserted none (.object (withFallback [])) .empty =
      (.ok created, s') ∧
      ∀ (i : Nat) (json : Members) (q : Profile),
        (objects plainGson (.object (withFallback [])))[i]? = some json → created[i]? = some q →
        OwnFallback plainGson s'.table json q := by
  have hrun : storedFallbacks
      (parseJson storage plainGson .inserted none (.object (withFallback [])) .empty) =
      some [some (some 2)] := by decide +kernel
  obtain ⟨created, s', h, -⟩ := storedFallbacks_eq hrun
  have hobjects : objects plainGson (.object (withFallback [])) = [withFallback []] := rfl
  refine ⟨created, s', h,
    ((own_fallback_iff plainGson .inserted none _ .empty s' (Int.le_refl 0) created h).mpr
    ⟨?_, ?_⟩).2⟩
  · intro i j json json' hij _ hj
    have hlt := (List.getElem?_eq_some_iff.mp hj).1
    rw [hobjects] at hlt
    have : j < 1 := hlt
    omega
  · intro json hjson member sv hmember _
    rw [hobjects] at hjson
    rw [List.mem_singleton.mp hjson] at hmember
    obtain rfl := Option.some.inj hmember
    refine Or.inl ?_
    show nonEmpty _ = none
    decide +kernel

/-- The second of two equal objects is stored without its fallback, and a fallback with a plugin is
stored with it. -/
theorem own_fallback_fails :
    (∃ created s', parseJson storage plainGson .inserted none
        (.array [.object (withFallback []), .object (withFallback [])]) .empty = (.ok created, s') ∧
      ∃ q, created[1]? = some q ∧ ¬ OwnFallback plainGson s'.table (withFallback []) q) ∧
    ∃ created s', parseJson storage plainGson .inserted none
        (.object (withFallback [("plugin".toList, .string "x".toList)])) .empty =
          (.ok created, s') ∧
      ∃ q, created[0]? = some q ∧
        ¬ OwnFallback plainGson s'.table
          (withFallback [("plugin".toList, .string "x".toList)]) q := by
  constructor
  · have hrun : storedFallbacks (parseJson storage plainGson .inserted none
        (.array [.object (withFallback []), .object (withFallback [])]) .empty) =
        some [some (some 3), some none] := by decide +kernel
    obtain ⟨created, s', h, hrows⟩ := storedFallbacks_eq hrun
    have hsecond : (created.map fun q => (s'.table.get q.id).map Profile.udpFallback)[1]? =
        some (some none) := by
      rw [hrows]
      rfl
    rw [List.getElem?_map] at hsecond
    obtain ⟨q, hq, hrow⟩ := Option.map_eq_some_iff.mp hsecond
    obtain ⟨row, hget, hnone⟩ := Option.map_eq_some_iff.mp hrow
    refine ⟨created, s', h, q, hq, fun ⟨row', hget', _, hiff, _⟩ => ?_⟩
    obtain rfl := Option.some.inj (hget'.symm.trans hget)
    have hfallback : fallbackServer plainGson (withFallback []) ≠ none := by decide +kernel
    exact hiff.mpr hfallback hnone
  · have hrun : (storedFallbacks (parseJson storage plainGson .inserted none
        (.object (withFallback [("plugin".toList, .string "x".toList)])) .empty) =
          some [some (some 2)]) ∧
        ((parseJson storage plainGson .inserted none
          (.object (withFallback [("plugin".toList, .string "x".toList)])) .empty).2.table.get
            2).map
            Profile.plugin = some (some "x".toList) := by decide +kernel
    obtain ⟨hstored, hplugin⟩ := hrun
    obtain ⟨created, s', h, hrows⟩ := storedFallbacks_eq hstored
    rw [h] at hplugin
    obtain ⟨target, htarget, hx⟩ := Option.map_eq_some_iff.mp hplugin
    have hfirst : (created.map fun q => (s'.table.get q.id).map Profile.udpFallback)[0]? =
        some (some (some 2)) := by
      rw [hrows]
      rfl
    rw [List.getElem?_map] at hfirst
    obtain ⟨q, hq, hrow⟩ := Option.map_eq_some_iff.mp hfirst
    obtain ⟨row, hget, hid⟩ := Option.map_eq_some_iff.mp hrow
    refine ⟨created, s', h, q, hq, fun ⟨row', hget', _, _, hlinked⟩ => ?_⟩
    obtain rfl := Option.some.inj (hget'.symm.trans hget)
    obtain ⟨target', htarget', hfree, -⟩ := hlinked 2 hid
    obtain rfl := Option.some.inj (htarget'.symm.trans htarget)
    rw [hx] at hfree
    cases hfree

end CypherConnect.JsonParser
