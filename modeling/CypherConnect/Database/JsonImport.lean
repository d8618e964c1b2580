/-
  `parseJson` with `createProfile` as callback: what an import leaves in the table.

  The entries of `fallbackMap` are found by the content of their profile. Of objects that are read
  as equal profiles the first one takes the entry, with the fallback of the last, and the others
  find none.

  * `createAll_storage`, `createAll_returns`: what the loop leaves in the table and in the map, and
    when it ends without an exception.
  * `linkAll_storage`, `linkAll_returns`: the same for `finalize`; if every fallback has a match, no
    row is added.
  * `parseJson_storage`: a whole import, as the structure `Imported`.
  * `Imported.row_kept`, `Imported.row_of_not_mem`, `Imported.links`: the rows after it.
-/
import CypherConnect.Database.JsonParser

namespace CypherConnect.JsonParser

open Plugin ProfileManager ProfileTable

/-- A call that throws leaves the storage as it was. -/
def settle {α : Type} (s : Storage) : Except Failure (Storage × α) → Except Failure α × Storage
  | .ok (s', a) => (.ok a, s')
  | .error f => (.error f, s)

/-- `createProfile` as callback, and `ProfileManager`. -/
def storage : Callbacks Storage where
  create s p := settle s (createProfile s p)
  getAllProfiles := getAllProfiles
  updateProfile s p := settle s ((updateProfile s p).map fun s' => (s', ()))

theorem settle_ok {α : Type} {s s' : Storage} {a : α} {r : Except Failure (Storage × α)}
    (h : settle s r = (.ok a, s')) : r = .ok (s', a) := by
  cases r with
  | error f => cases h
  | ok x =>
      cases h
      rfl

section Calls

variable {s s' : Storage} {p q : Profile}

theorem storage_create (ho : s.openable = true) (p : Profile) :
    (s.table.seq < maxLong ∧ ∃ q s', storage.create s p = (.ok q, s') ∧ SameSettings s s' ∧
      q = { p with id := s.table.seq + 1, userOrder := s.table.nextOrder.getD 0 } ∧
      s'.table.rows = s.table.rows ++ [stored q] ∧ s'.table.seq = s.table.seq + 1) ∨
    (¬ s.table.seq < maxLong ∧ storage.create s p = (.error .databaseFull, s)) := by
  have hcall : storage.create s p = settle s (insertProfile s p (s.table.nextOrder.getD 0)) :=
    congrArg (settle s) (createProfile_eq_insertProfile ho p)
  rw [hcall]
  rcases insertProfile_eq ho p (s.table.nextOrder.getD 0) with ⟨hlt, t, ht, hsame, hrows,
    hseq⟩ | ⟨hlt, ht⟩
  · rw [ht]
    exact Or.inl ⟨hlt, _, t, rfl, hsame, rfl, hrows, hseq⟩
  · rw [ht]
    exact Or.inr ⟨hlt, rfl⟩

theorem storage_create_ok (h : storage.create s p = (.ok q, s')) : SameSettings s s' ∧
    q = { p with id := s.table.seq + 1, userOrder := s.table.nextOrder.getD 0 } ∧
      s'.table.rows = s.table.rows ++ [stored q] ∧ s'.table.seq = s.table.seq + 1 := by
  by_cases ho : s.openable = true
  · rcases storage_create ho p with ⟨-, q', t, ht, hsame, hq, hrows, hseq⟩ | ⟨-, ht⟩
    · rw [ht] at h
      cases h
      exact ⟨hsame, hq, hrows, hseq⟩
    · rw [ht] at h
      cases h
  · have hcall : createProfile s p = .ok (s', q) := settle_ok h
    unfold createProfile at hcall
    rw [if_neg ho] at hcall
    cases hcall

theorem storage_update (ho : s.openable = true) (hid : p.id ∈ s.table.rows.map Profile.id) :
    ∃ s', storage.updateProfile s p = (.ok (), s') ∧ SameSettings s s' ∧
      s'.table.rows.map Profile.id = s.table.rows.map Profile.id := by
  obtain ⟨s', hupdate, hsame, hrows, -⟩ := updateProfile_eq ho hid
  refine ⟨s', ?_, hsame, ?_⟩
  · show settle s ((updateProfile s p).map _) = _
    rw [hupdate]
    rfl
  · rw [hrows, Keyed.map_key_replaceBy]

theorem storage_update_ok (h : storage.updateProfile s p = (.ok (), s')) :
    s'.table = (s.table.update p).1 := by
  have hcall : (updateProfile s p).map (fun s' => (s', ())) = .ok (s', ()) := settle_ok h
  cases hupdate : updateProfile s p with
  | error f =>
      rw [hupdate] at hcall
      cases hcall
  | ok s1 =>
      rw [hupdate] at hcall
      cases hcall
      exact updateProfile_ok hupdate

theorem storage_all_ok {profiles : List Profile} (h : storage.getAllProfiles s = .ok profiles) :
    profiles = s.table.rows := by
  change getAllProfiles s = _ at h
  unfold getAllProfiles at h
  split at h
  · cases h
    rfl
  · cases h

end Calls

/-! ## The loop of `parseJson` -/

/-- `q` is `p` with an id and a place. -/
def CreatedAs (p q : Profile) : Prop := ∃ id order, q = { p with id := id, userOrder := order }

/-- An entry after the loop: that of another profile, or that of the first profile with a key. -/
def Taken (map : FallbackMap) (profiles created : List Profile) (e : Profile × Profile) : Prop :=
  (e ∈ map ∧ e.1 ∉ profiles) ∨ ∃ (i : Nat) (p : Profile),
    profiles[i]? = some p ∧ created[i]? = some e.1 ∧ p ∉ profiles.take i ∧ (p, e.2) ∈ map

/-- What the loop leaves. -/
structure CreatedAll (profiles : List Profile) (map : FallbackMap) (s : Storage)
    (created : List Profile) (map' : FallbackMap) (s' : Storage) : Prop where
  same : SameSettings s s'
  rows : s'.table.rows = s.table.rows ++ created.map stored
  length : created.length = profiles.length
  createdAs : ∀ (i : Nat) (p q : Profile), profiles[i]? = some p → created[i]? = some q →
    CreatedAs p q
  entries : ∀ e, e ∈ map' ↔ Taken map profiles created e
  keys : (map'.map Prod.fst).Nodup

theorem taken_nil {map : FallbackMap} {e : Profile × Profile} : Taken map [] [] e ↔ e ∈ map := by
  constructor
  · rintro (⟨he, -⟩ | ⟨i, p, hp, -⟩)
    · exact he
    · cases hp
  · intro he
    exact Or.inl ⟨he, List.not_mem_nil⟩

/-- One round of the loop, before the others: the entry of `p` has moved to `q`. -/
theorem taken_cons {map moved : FallbackMap} {p q : Profile} {profiles created : List Profile}
    {e : Profile × Profile}
    (hmoved : ∀ e, e ∈ moved ↔ (e.1 = q ∧ (p, e.2) ∈ map) ∨ (e ∈ map ∧ e.1 ≠ p))
    (hq : q ∉ profiles) :
    Taken moved profiles created e ↔ Taken map (p :: profiles) (q :: created) e := by
  constructor
  · rintro (⟨he, hout⟩ | ⟨i, p', hp', hq', hfirst, he⟩)
    · rcases (hmoved e).mp he with ⟨heq, hmem⟩ | ⟨hmem, hne⟩
      · exact Or.inr ⟨0, p, rfl, congrArg some heq.symm, List.not_mem_nil, hmem⟩
      · exact Or.inl ⟨hmem, List.not_mem_cons_of_ne_of_not_mem hne hout⟩
    · rcases (hmoved (p', e.2)).mp he with ⟨heq, -⟩ | ⟨hmem, hne⟩
      · have heq : p' = q := heq
        exact absurd (List.mem_of_getElem? hp') (heq ▸ hq)
      · exact Or.inr ⟨i + 1, p', hp', hq', List.not_mem_cons_of_ne_of_not_mem hne hfirst, hmem⟩
  · rintro (⟨he, hout⟩ | ⟨i, p', hp', hq', hfirst, he⟩)
    · obtain ⟨hne, hout⟩ := List.ne_and_not_mem_of_not_mem_cons hout
      exact Or.inl ⟨(hmoved e).mpr (Or.inr ⟨he, hne⟩), hout⟩
    · cases i with
      | zero =>
          cases hp'
          have heq : e.1 = q := (Option.some.inj hq').symm
          exact Or.inl ⟨(hmoved e).mpr (Or.inl ⟨heq, he⟩), heq ▸ hq⟩
      | succ i =>
          obtain ⟨hne, hfirst⟩ := List.ne_and_not_mem_of_not_mem_cons hfirst
          exact Or.inr ⟨i, p', hp', hq', hfirst, (hmoved (p', e.2)).mpr (Or.inr ⟨he, hne⟩)⟩

theorem createAll_storage {profiles created : List Profile} {map map' : FallbackMap}
    {s s' : Storage} (hseq : 0 ≤ s.table.seq) (hids : ∀ p ∈ profiles, p.id = 0)
    (hkeys : (map.map Prod.fst).Nodup) (hmap : ∀ e ∈ map, e.1.id ≤ s.table.seq)
    (h : createAll storage profiles map s = (.ok (created, map'), s')) :
    CreatedAll profiles map s created map' s' := by
  induction profiles generalizing map s created with
  | nil =>
      cases h
      exact ⟨SameSettings.refl _, (List.append_nil _).symm, rfl, (fun i p q hp => nomatch hp),
        fun e => taken_nil.symm, hkeys⟩
  | cons p profiles ih =>
      obtain ⟨q, s1, rest, hcall, hrest, rfl⟩ := createAll_cons_ok h
      obtain ⟨hsame, hq, hrows, hseq1⟩ := storage_create_ok hcall
      have hqid : q.id = s.table.seq + 1 := by rw [hq]
      -- the new profile is no key and is equal to none that is still to come
      have hfresh : ∀ e ∈ map, e.1 ≠ q := by
        intro e he heq
        have := hmap e he
        rw [heq, hqid] at this
        omega
      have hraw : q ∉ profiles := by
        intro hin
        have := hids q (List.mem_cons_of_mem p hin)
        omega
      have hmoved : ∀ e, e ∈ moveEntry map p q ↔
          (e.1 = q ∧ (p, e.2) ∈ map) ∨ (e ∈ map ∧ e.1 ≠ p) := by
        intro e
        rw [mem_moveEntry hkeys]
        refine or_congr_right ⟨fun he => ⟨he.1, he.2.1⟩, fun he => ⟨he.1, he.2, fun _ => ?_⟩⟩
        exact hfresh e he.1
      have hmap1 : ∀ e ∈ moveEntry map p q, e.1.id ≤ s1.table.seq := by
        intro e he
        rcases (hmoved e).mp he with ⟨heq, -⟩ | ⟨he, -⟩
        · rw [heq, hqid, hseq1]
        · have := hmap e he
          omega
      have hall := ih (by omega) (fun x hx => hids x (List.mem_cons_of_mem p hx))
        (nodup_moveEntry hkeys p q) hmap1 hrest
      refine ⟨hsame.trans hall.same, ?_, ?_, ?_, fun e => ?_, hall.keys⟩
      · rw [hall.rows, hrows, List.append_assoc]
        rfl
      · rw [List.length_cons, List.length_cons, hall.length]
      · intro i p' q' hp' hq'
        cases i with
        | zero =>
            cases hp'
            cases hq'
            exact ⟨_, _, hq⟩
        | succ i => exact hall.createdAs i p' q' hp' hq'
      · rw [hall.entries, taken_cons hmoved hraw]

/-- There are ids for `n` more rows. -/
def Room (t : ProfileTable) (n : Nat) : Prop := n = 0 ∨ t.seq + n ≤ maxLong

theorem not_returns_error {α β ε : Type} (f : ε) (t : β) :
    ¬ ∃ (r : α) (s' : β), ((Except.error f : Except ε α), t) = (.ok r, s') := by
  rintro ⟨r, s', h⟩
  cases h

/-- The loop ends without an exception exactly if there are ids for all profiles. -/
theorem createAll_returns {profiles : List Profile} {map : FallbackMap} {s : Storage}
    (ho : s.openable = true) :
    (∃ r s', createAll storage profiles map s = (.ok r, s')) ↔ Room s.table profiles.length := by
  induction profiles generalizing map s with
  | nil => exact iff_of_true ⟨_, _, rfl⟩ (Or.inl rfl)
  | cons p profiles ih =>
      rw [createAll]
      rcases storage_create ho p with ⟨hlt, q, s1, hcall, hsame, -, -, hseq⟩ | ⟨hlt, hcall⟩
      · have hroom : Room s1.table profiles.length ↔ Room s.table (p :: profiles).length := by
          unfold Room
          rw [hseq, List.length_cons]
          omega
        rw [hcall, ← hroom, ← @ih (moveEntry map p q) s1 (hsame.open ho)]
        dsimp only
        rcases createAll storage profiles (moveEntry map p q) s1 with ⟨r, s2⟩
        cases r with
        | error f => exact iff_of_false (not_returns_error f s2) (not_returns_error f s2)
        | ok x => exact iff_of_true ⟨_, _, rfl⟩ ⟨_, _, rfl⟩
      · have hroom : ¬ Room s.table (p :: profiles).length := by
          unfold Room
          rw [List.length_cons]
          omega
        rw [hcall]
        exact iff_of_false (not_returns_error _ _) hroom

/-! ## `finalize` -/

theorem isMatch_iff {fallback it : Profile} :
    isMatch fallback it = true ↔ serverOf it = serverOf fallback ∧ it.plugin.getD [] = [] := by
  unfold isMatch serverOf
  simp only [Bool.and_eq_true, beq_iff_eq, Server.mk.injEq]
  constructor
  · rintro ⟨⟨⟨⟨hhost, hport⟩, hpassword⟩, hmethod⟩, hplugin⟩
    exact ⟨⟨hhost.symm, hport.symm, hpassword.symm, hmethod.symm⟩, hplugin⟩
  · rintro ⟨⟨hhost, hport, hpassword, hmethod⟩, hplugin⟩
    exact ⟨⟨⟨⟨hhost.symm, hport.symm⟩, hpassword.symm⟩, hmethod.symm⟩, hplugin⟩

/-- What `fallback` is linked to: a match among `profiles`, or a row of its own. -/
def Target (profiles : List Profile) (fallback : Profile) (t : ProfileTable) (id : Int) : Prop :=
  (∃ found, profiles.find? (isMatch fallback) = some found ∧ id = found.id) ∨
    (profiles.find? (isMatch fallback) = none ∧ ∃ order,
      t.get id = some (stored { fallback with id := id, userOrder := order }))

/-- A call of `create` at most; a new row has an id of its own. -/
theorem targetOf_storage {profiles : List Profile} {fallback : Profile} {s s' : Storage} {id : Int}
    (h : targetOf storage profiles fallback s = (.ok id, s')) :
    (∀ i row, s.table.get i = some row → s'.table.get i = some row) ∧
      Target profiles fallback s'.table id ∧
      (profiles.find? (isMatch fallback) = none → s.table.get id = none) := by
  rcases targetOf_ok h with ⟨found, hfind, rfl, rfl⟩ | ⟨hnone, q, hcall, rfl⟩
  · refine ⟨fun _ _ hrow => hrow, Or.inl ⟨found, hfind, rfl⟩, fun hnone => ?_⟩
    rw [hfind] at hnone
    cases hnone
  · obtain ⟨-, hq, hrows, -⟩ := storage_create_ok hcall
    have hnew : s.table.get q.id = none := by
      rw [get_eq_none_iff, hq]
      intro row hrow heq
      have := s.table.ids_le row hrow
      dsimp only at heq
      omega
    refine ⟨fun i row hrow => ?_, Or.inr ⟨hnone, s.table.nextOrder.getD 0, ?_⟩, fun _ => hnew⟩
    · rw [get_append hrows, hrow]
      intro x hx heq
      rw [List.mem_singleton.mp hx] at heq
      have heq : q.id = i := heq
      rw [← heq, hnew] at hrow
      cases hrow
    · refine get_eq_some_iff.mpr ⟨?_, rfl⟩
      rw [hrows]
      refine List.mem_append_right _ (List.mem_singleton.mpr ?_)
      rw [hq]

theorem linkAll_storage {profiles : List Profile} {map : FallbackMap} {s s' : Storage}
    (hrows : ∀ e ∈ map, s.table.get e.1.id = some (stored e.1))
    (hids : (map.map fun e => e.1.id).Nodup) (h : linkAll storage profiles map s = (.ok (), s')) :
    (∀ i row, s.table.get i = some row → i ∉ map.map (fun e => e.1.id) →
      s'.table.get i = some row) ∧
      ∀ e ∈ map, ∃ id, s'.table.get e.1.id = some (stored { e.1 with udpFallback := some id }) ∧
        Target profiles e.2 s'.table id := by
  induction map generalizing s with
  | nil =>
      cases h
      exact ⟨fun i row hrow _ => hrow, fun e he => nomatch he⟩
  | cons e map ih =>
      obtain ⟨p, f⟩ := e
      rw [List.map_cons, List.nodup_cons] at hids
      obtain ⟨id, s1, s2, htarget, hupdate, hlink⟩ := linkAll_cons_ok h
      obtain ⟨hkeep, htarget1, hnew⟩ := targetOf_storage htarget
      have hp : s.table.get p.id = some (stored p) := hrows (p, f) List.mem_cons_self
      have htable := storage_update_ok hupdate
      have hother : ∀ i, i ≠ p.id → s2.table.get i = s1.table.get i := by
        intro i hi
        rw [htable]
        exact get_update_of_ne hi
      have hself : s2.table.get p.id = some (stored { p with udpFallback := some id }) := by
        rw [htable]
        refine get_update s1.table ?_
        exact List.mem_map.mpr ⟨_, (get_some (hkeep _ _ hp)).1, rfl⟩
      have hrest : ∀ e ∈ map, s2.table.get e.1.id = some (stored e.1) := by
        intro e he
        have hne : e.1.id ≠ p.id := fun heq => hids.1 (heq ▸ List.mem_map.mpr ⟨e, he, rfl⟩)
        rw [hother _ hne]
        exact hkeep _ _ (hrows e (List.mem_cons_of_mem _ he))
      obtain ⟨hkept, hlinked⟩ := ih hrest hids.2 hlink
      refine ⟨fun i row hrow hi => ?_, fun e he => ?_⟩
      · rw [List.map_cons, List.mem_cons, not_or] at hi
        refine hkept i row ?_ hi.2
        rw [hother i hi.1]
        exact hkeep i row hrow
      · rcases List.mem_cons.mp he with rfl | he
        · refine ⟨id, hkept _ _ hself hids.1, ?_⟩
          rcases htarget1 with hfound | ⟨hnone, order, hrow⟩
          · exact Or.inl hfound
          · -- the new row has an id of its own
            have hid := hnew hnone
            have hnot : ∀ i row, s.table.get i = some row → id ≠ i := by
              intro i row hrow heq
              rw [← heq, hid] at hrow
              cases hrow
            refine Or.inr ⟨hnone, order, hkept id _ ?_ fun hin => ?_⟩
            · rw [hother id (hnot _ _ hp)]
              exact hrow
            · obtain ⟨e, he, heq⟩ := List.mem_map.mp hin
              exact hnot _ _ (hrows e (List.mem_cons_of_mem _ he)) heq.symm
        · exact hlinked e he

/-- If every fallback has a match, the links are set and no row is added. -/
theorem linkAll_returns {profiles : List Profile} {map : FallbackMap} {s : Storage}
    (ho : s.openable = true) (hids : ∀ e ∈ map, e.1.id ∈ s.table.rows.map Profile.id)
    (hmatch : ∀ e ∈ map, ∃ row ∈ profiles, isMatch e.2 row = true) :
    ∃ s', linkAll storage profiles map s = (.ok (), s') ∧
      s'.table.rows.map Profile.id = s.table.rows.map Profile.id := by
  induction map generalizing s with
  | nil => exact ⟨s, rfl, rfl⟩
  | cons e map ih =>
      obtain ⟨p, f⟩ := e
      have hsome : (profiles.find? (isMatch f)).isSome :=
        List.find?_isSome.mpr (hmatch (p, f) List.mem_cons_self)
      obtain ⟨found, hfound⟩ := Option.isSome_iff_exists.mp hsome
      have htarget : targetOf storage profiles f s = (.ok found.id, s) := by
        unfold targetOf
        rw [hfound]
      obtain ⟨s1, hupdate, hsame, hrows⟩ :=
        @storage_update s { p with udpFallback := some found.id } ho
          (hids (p, f) List.mem_cons_self)
      obtain ⟨s', hlink, hrows'⟩ := @ih s1 (hsame.open ho)
        (fun e he => hrows ▸ hids e (List.mem_cons_of_mem _ he))
        (fun e he => hmatch e (List.mem_cons_of_mem _ he))
      refine ⟨s', ?_, hrows'.trans hrows⟩
      rw [linkAll, htarget]
      dsimp only
      rw [hupdate]
      exact hlink

/-! ## A whole import -/

section Import

variable {G : Gson} {E : Enumeration} {feature : Option Profile} {doc : Json} {s s1 s' : Storage}
  {items : List Item} {created : List Profile} {map : FallbackMap}

/-- An import after the loop of `parseJson`. -/
structure Created (G : Gson) (E : Enumeration) (feature : Option Profile) (doc : Json) (s : Storage)
    (items : List Item) (created : List Profile) (map : FallbackMap) (s1 : Storage) : Prop where
  reads : List.Forall₂ (Reads G E feature) (objects G doc) items
  all : CreatedAll (items.map Prod.fst) (Keyed.putAll Prod.fst (entries items)) s created map s1

/-- An import that has returned. -/
structure Imported (G : Gson) (E : Enumeration) (feature : Option Profile) (doc : Json)
    (s : Storage) (items : List Item) (created : List Profile) (map : FallbackMap)
    (s1 s' : Storage) : Prop extends
    Created G E feature doc s items created map s1 where
  linked : linkAll storage s1.table.rows map s1 = (.ok (), s')

/-- The keys of the map are profiles of the list. -/
theorem mem_of_mem_fallbackMap {e : Profile × Profile}
    (h : e ∈ Keyed.putAll Prod.fst (entries items)) :
    e.1 ∈ items.map Prod.fst := by
  obtain ⟨before, after, hsplit, -⟩ := mem_fallbackMap_iff.mp h
  rw [hsplit]
  exact List.mem_map.mpr ⟨_, List.mem_append_right _ List.mem_cons_self, rfl⟩

theorem created_of_createAll (hseq : 0 ≤ s.table.seq)
    (hitems : List.Forall₂ (Reads G E feature) (objects G doc) items)
    (h : createAll storage (items.map Prod.fst) (Keyed.putAll Prod.fst (entries items)) s =
      (.ok (created, map), s1)) : Created G E feature doc s items created map s1 := by
  have hids : ∀ p ∈ items.map Prod.fst, p.id = 0 := by
    intro p hp
    obtain ⟨item, hitem, rfl⟩ := List.mem_map.mp hp
    obtain ⟨json, -, hread⟩ := Related.exists_left hitems hitem
    exact hread.spec.id
  refine ⟨hitems, createAll_storage hseq hids (Keyed.nodup_putAll _) (fun e he => ?_) h⟩
  rw [hids e.1 (mem_of_mem_fallbackMap he)]
  exact hseq

theorem parseJson_storage (hseq : 0 ≤ s.table.seq)
    (h : parseJson storage G E feature doc s = (.ok created, s')) :
    ∃ items map s1, Imported G E feature doc s items created map s1 s' := by
  obtain ⟨st, map, s1, all, hst, hcreate, hall, hlink⟩ := parseJson_ok h
  rcases process_cases G E feature doc with ⟨items, hitems, hprocess⟩ | ⟨json, -, f, -, hprocess⟩
  · cases hst.symm.trans hprocess
    rw [storage_all_ok hall] at hlink
    exact ⟨items, map, s1, created_of_createAll hseq hitems hcreate, hlink⟩
  · cases hst.symm.trans hprocess

/-- The map, by the places in the list. -/
theorem mem_fallbackMap_getElem? {p f : Profile} :
    (p, f) ∈ Keyed.putAll Prod.fst (entries items) ↔ ∃ j : Nat, items[j]? = some (p, some f) ∧
      ∀ (k : Nat) (item : Item), j < k → items[k]? = some item → item.1 = p → item.2 = none := by
  rw [mem_fallbackMap_iff]
  constructor
  · rintro ⟨before, after, rfl, hafter⟩
    refine ⟨before.length, ?_, fun k item hk hitem hp => ?_⟩
    · rw [List.getElem?_append_right (Nat.le_refl _), Nat.sub_self]
      rfl
    · rw [List.getElem?_append_right (Nat.le_of_lt hk)] at hitem
      obtain ⟨m, hm⟩ : ∃ m, k - before.length = m + 1 := ⟨k - before.length - 1, by omega⟩
      rw [hm] at hitem
      exact hafter item (List.mem_of_getElem? hitem) hp
  · rintro ⟨j, hj, hlater⟩
    obtain ⟨hlt, hget⟩ := List.getElem?_eq_some_iff.mp hj
    refine ⟨items.take j, items.drop (j + 1), ?_, fun item hitem hp => ?_⟩
    · rw [← hget, ← List.drop_eq_getElem_cons hlt, List.take_append_drop]
    · obtain ⟨m, hm⟩ := List.mem_iff_getElem?.mp hitem
      rw [List.getElem?_drop] at hm
      exact hlater (j + 1 + m) item (by omega) hm hp

namespace Created

variable (h : Created G E feature doc s items created map s1)

include h

theorem ids_nodup : (created.map Profile.id).Nodup := by
  have hrows := s1.table.ids_nodup
  rw [h.all.rows, List.map_append, List.map_map] at hrows
  exact (List.nodup_append.mp hrows).2.1

theorem row_of_created {q : Profile} (hq : q ∈ created) : s1.table.get q.id = some (stored q) := by
  refine get_eq_some_iff.mpr ⟨?_, rfl⟩
  rw [h.all.rows]
  exact List.mem_append_right _ (List.mem_map_of_mem hq)

/-- The object, the item and the created profile at a place. -/
theorem item {i : Nat} {json : Members} {q : Profile} (hjson : (objects G doc)[i]? = some json)
    (hq : created[i]? = some q) : ∃ item, items[i]? = some item ∧ Reads G E feature json item ∧
      (items.map Prod.fst)[i]? = some item.1 ∧ CreatedAs item.1 q := by
  obtain ⟨item, hitem, hread⟩ := Related.exists_getElem? h.reads hjson
  have hp : (items.map Prod.fst)[i]? = some item.1 := by
    rw [List.getElem?_map, hitem]
    rfl
  exact ⟨item, hitem, hread, hp, h.all.createdAs i item.1 q hp hq⟩

theorem mem_created {e : Profile × Profile} (he : e ∈ map) : e.1 ∈ created := by
  rcases (h.all.entries e).mp he with ⟨hmem, hout⟩ | ⟨i, p, -, hq, -⟩
  · exact absurd (mem_of_mem_fallbackMap hmem) hout
  · exact List.mem_of_getElem? hq

/-- The entry of a created profile. -/
theorem mem_map_iff {i : Nat} {p q f : Profile} (hp : (items.map Prod.fst)[i]? = some p)
    (hq : created[i]? = some q) : (q, f) ∈ map ↔
      p ∉ (items.map Prod.fst).take i ∧ (p, f) ∈ Keyed.putAll Prod.fst (entries items) := by
  rw [h.all.entries]
  constructor
  · rintro (⟨hmem, hout⟩ | ⟨j, p', hp', hq', hfirst, hmem⟩)
    · exact absurd (mem_of_mem_fallbackMap hmem) hout
    · have hnodup : created.Nodup := List.Nodup.of_map _ h.ids_nodup
      have hlt : i < created.length := (List.getElem?_eq_some_iff.mp hq).1
      have hij : i = j := (List.getElem?_inj hlt hnodup).mp (hq.trans hq'.symm)
      subst hij
      obtain rfl := Option.some.inj (hp.symm.trans hp')
      exact ⟨hfirst, hmem⟩
  · rintro ⟨hfirst, hmem⟩
    exact Or.inr ⟨i, p, hp, hq, hfirst, hmem⟩

theorem map_ids_nodup : (map.map fun e => e.1.id).Nodup := by
  have hkeys : (map.map fun e => e.1.id) = (map.map Prod.fst).map Profile.id := by
    rw [List.map_map]
    rfl
  rw [hkeys]
  refine h.all.keys.map_on fun q hq q' hq' heq => ?_
  obtain ⟨e, he, rfl⟩ := List.mem_map.mp hq
  obtain ⟨e', he', rfl⟩ := List.mem_map.mp hq'
  exact List.inj_on_of_nodup_map h.ids_nodup (h.mem_created he) (h.mem_created he') heq

/-- With a match for every fallback the links are set and no row is added. -/
theorem links_return (ho : s.openable = true)
    (hmatch : ∀ item ∈ items, ∀ f ∈ item.2, ∃ row ∈ s1.table.rows, isMatch f row = true) :
    ∃ s', linkAll storage s1.table.rows map s1 = (.ok (), s') ∧
      s'.table.rows.map Profile.id = s1.table.rows.map Profile.id := by
  refine linkAll_returns (h.all.same.open ho) (fun e he => ?_) (fun e he => ?_)
  · obtain ⟨hrow, -⟩ := get_some (h.row_of_created (h.mem_created he))
    exact List.mem_map.mpr ⟨_, hrow, rfl⟩
  · obtain ⟨i, hi⟩ := List.mem_iff_getElem?.mp (h.mem_created he)
    have hlt : i < (items.map Prod.fst).length := by
      rw [← h.all.length]
      exact (List.getElem?_eq_some_iff.mp hi).1
    obtain ⟨-, hmem⟩ := (h.mem_map_iff (List.getElem?_eq_getElem hlt) hi).mp he
    obtain ⟨j, hj, -⟩ := mem_fallbackMap_getElem?.mp hmem
    exact hmatch _ (List.mem_of_getElem? hj) e.2 rfl

end Created

namespace Imported

variable (h : Imported G E feature doc s items created map s1 s')

include h

theorem links : (∀ i row, s1.table.get i = some row → i ∉ map.map (fun e => e.1.id) →
      s'.table.get i = some row) ∧
    ∀ e ∈ map, ∃ id, s'.table.get e.1.id = some (stored { e.1 with udpFallback := some id }) ∧
      Target s1.table.rows e.2 s'.table id :=
  linkAll_storage (fun _ he => h.row_of_created (h.mem_created he)) h.map_ids_nodup h.linked

/-- A profile without an entry stays as it was created. -/
theorem row_of_not_mem {q : Profile} (hq : q ∈ created) (hnot : ∀ f, (q, f) ∉ map) :
    s'.table.get q.id = some (stored q) := by
  refine h.links.1 q.id _ (h.row_of_created hq) fun hin => ?_
  obtain ⟨e, he, heq⟩ := List.mem_map.mp hin
  have hsame : e.1 = q := List.inj_on_of_nodup_map h.ids_nodup (h.mem_created he) hq heq
  exact hnot e.2 (hsame ▸ he)

/-- In the rows of the loop only the fallback changes. -/
theorem row_kept {row : Profile} (hrow : row ∈ s1.table.rows) :
    ∃ fallback, s'.table.get row.id = some { row with udpFallback := fallback } := by
  have hget := s1.table.get_of_mem hrow
  by_cases hin : row.id ∈ map.map fun e => e.1.id
  · obtain ⟨e, he, heq⟩ := List.mem_map.mp hin
    obtain ⟨id, hlinked, -⟩ := h.links.2 e he
    have hsame : row = stored e.1 := by
      have hcreated := h.row_of_created (h.mem_created he)
      have heq : e.1.id = row.id := heq
      rw [heq, hget] at hcreated
      exact Option.some.inj hcreated
    rw [hsame]
    exact ⟨some id, hlinked⟩
  · exact ⟨row.udpFallback, h.links.1 row.id row hget hin⟩

/-- The row a fallback is linked to has its server, and has no plugin exactly if the fallback has
none or there is a match. -/
theorem target_row {f : Profile} {id : Int} (htarget : Target s1.table.rows f s'.table id) :
    ∃ target, s'.table.get id = some target ∧ serverOf target = serverOf f ∧
      (target.plugin.getD [] = [] ↔
        f.plugin.getD [] = [] ∨ ∃ row ∈ s1.table.rows, isMatch f row = true) := by
  rcases htarget with ⟨found, hfind, rfl⟩ | ⟨hnone, order, hrow⟩
  · have hmem := List.mem_of_find?_eq_some hfind
    have hmatch := List.find?_some hfind
    obtain ⟨hserver, hplugin⟩ := isMatch_iff.mp hmatch
    obtain ⟨fallback, hrow⟩ := h.row_kept hmem
    exact ⟨_, hrow, hserver, fun _ => Or.inr ⟨found, hmem, hmatch⟩, fun _ => hplugin⟩
  · refine ⟨_, hrow, rfl, fun hplugin => Or.inl hplugin, ?_⟩
    rintro (hplugin | ⟨row, hmem, hmatch⟩)
    · exact hplugin
    · exact absurd hmatch (List.find?_eq_none.mp hnone row hmem)

end Imported

/-- If every object can be read and every fallback has a match among the objects, an import returns
exactly if there are ids for all objects, and adds one row for each. -/
theorem parseJson_returns (hseq : 0 ≤ s.table.seq) (ho : s.openable = true)
    (hread : ∀ json ∈ objects G doc, ∃ item, Reads G E feature json item)
    (hmatch : ∀ json ∈ objects G doc, ∀ item, Reads G E feature json item → ∀ f ∈ item.2,
      ∃ other ∈ objects G doc, ∃ item', Reads G E feature other item' ∧ isMatch f item'.1 = true) :
    (Room s.table (objects G doc).length ∧ ∃ created s',
      parseJson storage G E feature doc s = (.ok created, s') ∧
        s'.table.rows.map Profile.id = s.table.rows.map Profile.id ++ created.map Profile.id) ∨
    (¬ Room s.table (objects G doc).length ∧ ∃ f s',
      parseJson storage G E feature doc s = (.error f, s')) := by
  rcases process_cases G E feature doc with ⟨items, hitems, hprocess⟩ | ⟨json, hjson, f, hf, -⟩
  · have hreturns :=
      @createAll_returns (items.map Prod.fst) (Keyed.putAll Prod.fst (entries items)) s ho
    rw [List.length_map, ← hitems.length_eq] at hreturns
    unfold parseJson
    rw [hprocess, ← hreturns]
    dsimp only
    rcases hcreate : createAll storage (items.map Prod.fst)
      (Keyed.putAll Prod.fst (entries items)) s with
      ⟨r, s1⟩
    cases r with
    | error f => exact Or.inr ⟨(fun ⟨_, _, h⟩ => nomatch h), f, s1, rfl⟩
    | ok x =>
        obtain ⟨created, map⟩ := x
        have h := created_of_createAll hseq hitems hcreate
        have hrows : ∀ item ∈ items, ∀ f ∈ item.2, ∃ row ∈ s1.table.rows, isMatch f row = true := by
          intro item hitem f hf
          obtain ⟨json, hjson, hreads⟩ := Related.exists_left hitems hitem
          obtain ⟨other, hother, item', hreads', hmatches⟩ := hmatch json hjson item hreads f hf
          obtain ⟨i, hi⟩ := List.mem_iff_getElem?.mp hother
          have hlt : i < created.length := by
            rw [h.all.length, List.length_map, ← hitems.length_eq]
            exact (List.getElem?_eq_some_iff.mp hi).1
          obtain ⟨item'', -, hreads'', -, id, order, hq⟩ := h.item hi (List.getElem?_eq_getElem hlt)
          cases hreads'.symm.trans hreads''
          refine ⟨stored created[i], ?_, ?_⟩
          · rw [h.all.rows]
            exact List.mem_append_right _ (List.mem_map_of_mem (List.getElem_mem hlt))
          · rw [hq]
            exact hmatches
        obtain ⟨s', hlink, hids⟩ := h.links_return ho hrows
        have hall : storage.getAllProfiles s1 = .ok s1.table.rows := if_pos (h.all.same.open ho)
        refine Or.inl ⟨⟨_, _, rfl⟩, created, s', ?_, ?_⟩
        · dsimp only
          unfold finalize
          rw [hall]
          dsimp only
          rw [hlink]
        · rw [hids, h.all.rows, List.map_append, List.map_map]
          rfl
  · obtain ⟨item, hitem⟩ := hread json hjson
    cases hf.symm.trans hitem

end Import

end CypherConnect.JsonParser
