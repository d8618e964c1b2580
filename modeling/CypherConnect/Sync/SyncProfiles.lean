/-
  `ProfileSyncService.syncProfiles`: make the profile table follow a feed of server links.

  The three passes work from one snapshot of the table. `syncWith remote s` is the function for an
  already parsed feed; `syncProfiles` parses the feed text with `Profile.findAllUrls` first.

  * `deleteLoop_eq`, `createLoop_eq`, `updateLoop_eq`: what one pass does to the rows.
  * `syncWith_eq`: the rows after a whole run. A row whose key is in the feed stays, with the
    columns of the last feed entry if it is the row the snapshot map holds (`refresh`); then come
    the rows of the feed entries whose key was absent, one per entry. The only failure is a full
    database.
  * `syncProfiles_converges`: the table agrees with the feed, and no internal check fails.
-/
import CypherConnect.Database.ProfileManager
import CypherConnect.Platform.Android

namespace CypherConnect.Sync

open Keyed ProfileManager ProfileTable

/-- `it.host to it.remotePort`, by which profiles are identified. -/
def key (p : Profile) : Text × Int := (p.host, p.remotePort)

/-- `toDelete`: the local profiles whose key is not in the feed. -/
def toDelete (localProfiles remoteProfiles : List Profile) : List Profile :=
  localProfiles.filter fun p => (associateBy key remoteProfiles (key p)).isNone

/-- `toCreate`: the feed entries whose key no local profile has. -/
def toCreate (localProfiles remoteProfiles : List Profile) : List Profile :=
  remoteProfiles.filter fun p => (associateBy key localProfiles (key p)).isNone

/-- The pass that deletes. -/
def deleteLoop (s : Storage) (profiles : List Profile) : Except Failure Storage :=
  profiles.foldlM (fun s p => delProfile s p.id) s

/-- The pass that creates. -/
def createLoop (s : Storage) (profiles : List Profile) : Except Failure Storage :=
  profiles.foldlM (fun s p => (createProfile s p).map Prod.fst) s

/-- The pass that updates: a feed entry takes the id of the local profile with its key. -/
def updateLoop (localProfilesMap : Text × Int → Option Profile) (s : Storage)
    (remoteProfiles : List Profile) : Except Failure Storage :=
  remoteProfiles.foldlM (fun s p =>
    match localProfilesMap (key p) with
    | some localProfile => updateProfile s { p with id := localProfile.id }
    | none => pure s) s

/-- `syncProfiles` behind the parsing of the feed. -/
def syncWith (remoteProfiles : List Profile) (s : Storage) : Except Failure Storage := do
  let localProfiles ← getAllProfiles s
  let s ← deleteLoop s (toDelete localProfiles remoteProfiles)
  let s ← createLoop s (toCreate localProfiles remoteProfiles)
  updateLoop (associateBy key localProfiles) s remoteProfiles

/-- `remoteProfiles`: the profiles of a feed text. -/
def feed (P : Platform) (text : Text) : List Profile := Profile.findAllUrls P (some text) none

/-- `ProfileSyncService.syncProfiles` on a feed that was fetched. -/
def syncProfiles (P : Platform) (s : Storage) (text : Text) : Except Failure Storage :=
  syncWith (feed P text) s

/-! ## One pass -/

theorem deleteLoop_eq {l : List Profile} {s : Storage} (ho : s.openable = true)
    (hnd : (l.map Profile.id).Nodup) (hl : ∀ p ∈ l, p.id ∈ s.table.rows.map Profile.id) :
    ∃ s', deleteLoop s l = .ok s' ∧ SameSettings s s' ∧
      s'.table.rows = s.table.rows.filter (fun p => decide (p.id ∉ l.map Profile.id)) ∧
      s'.table.seq = s.table.seq := by
  induction l generalizing s with
  | nil => exact ⟨s, rfl, .refl s, by simp, rfl⟩
  | cons p l ih =>
      obtain ⟨s1, h1, hset, ht⟩ := delProfile_eq ho (hl p List.mem_cons_self)
      have hrows : s1.table.rows = s.table.rows.filter fun q => q.id != p.id := by rw [ht]; rfl
      rw [List.map_cons, List.nodup_cons] at hnd
      have hl1 : ∀ q ∈ l, q.id ∈ s1.table.rows.map Profile.id := by
        intro q hq
        obtain ⟨r, hr, hid⟩ := List.mem_map.mp (hl q (List.mem_cons_of_mem _ hq))
        have hne : r.id ≠ p.id := fun h => hnd.1 (h ▸ hid ▸ List.mem_map_of_mem hq)
        rw [hrows, ← hid]
        exact List.mem_map_of_mem (List.mem_filter.mpr ⟨hr, by simpa using hne⟩)
      obtain ⟨s2, h2, hset2, hrows2, hseq2⟩ := ih (hset.open ho) hnd.2 hl1
      refine ⟨s2, ?_, ?_, ?_, ?_⟩
      · unfold deleteLoop at h2 ⊢
        rw [List.foldlM_cons, h1]
        exact h2
      · exact hset.trans hset2
      · rw [hrows2, hrows, List.filter_filter]
        refine List.filter_congr fun q _ => ?_
        rw [List.map_cons, Bool.eq_iff_iff]
        simp only [Bool.and_eq_true, decide_eq_true_eq, bne_iff_ne, List.mem_cons, not_or]
        exact and_comm
      · rw [hseq2, ht]
        rfl

/-- `q` is the row made from the feed entry `p`. -/
def CreatedFrom (p q : Profile) : Prop := ∃ i o, q = stored { p with id := i, userOrder := o }

theorem createLoop_eq (l : List Profile) {s : Storage} (ho : s.openable = true) :
    (∃ s' new, createLoop s l = .ok s' ∧ SameSettings s s' ∧ s'.table.rows = s.table.rows ++ new ∧
      List.Forall₂ CreatedFrom l new ∧ (∀ q ∈ new, s.table.seq < q.id) ∧
      s'.table.seq = s.table.seq + l.length) ∨
    (maxLong < s.table.seq + l.length ∧ createLoop s l = .error .databaseFull) := by
  induction l generalizing s with
  | nil =>
      exact Or.inl ⟨s, [], rfl, .refl s, by simp, List.Forall₂.nil, by simp, by simp⟩
  | cons p l ih =>
      have hcons : createLoop s (p :: l) =
          ((createProfile s p).map Prod.fst >>= fun s => createLoop s l) := by
        unfold createLoop
        rw [List.foldlM_cons]
      rw [hcons, createProfile_eq_insertProfile ho]
      rcases insertProfile_eq ho p (s.table.nextOrder.getD 0) with
        ⟨hlt, s1, h1, hset, hrows, hseq⟩ | ⟨hge, h1⟩
      · rw [h1]
        rcases ih (hset.open ho) with
          ⟨s2, new, h2, hset2, hrows2, hnew, hids, hseq2⟩ | ⟨hfull, h2⟩
        · refine Or.inl ⟨s2, inserted s.table p (s.table.nextOrder.getD 0) :: new, h2, ?_, ?_, ?_,
            ?_, ?_⟩
          · exact hset.trans hset2
          · rw [hrows2, hrows, List.append_assoc]
            rfl
          · exact List.Forall₂.cons ⟨_, _, rfl⟩ hnew
          · intro q hq
            rcases List.mem_cons.mp hq with rfl | hq
            · exact Int.lt_succ _
            · have := hids q hq
              omega
          · rw [hseq2, hseq, List.length_cons]
            omega
        · refine Or.inr ⟨?_, h2⟩
          rw [hseq] at hfull
          rw [List.length_cons]
          omega
      · rw [h1]
        refine Or.inr ⟨?_, rfl⟩
        rw [List.length_cons]
        omega

/-- The updates of a feed: each entry with the id it is written under. -/
def updates (localProfilesMap : Text × Int → Option Profile) (remoteProfiles : List Profile) :
    List Profile :=
  remoteProfiles.filterMap fun p => (localProfilesMap (key p)).map fun l => { p with id := l.id }

theorem updateLoop_eq_updates (m : Text × Int → Option Profile) (l : List Profile) (s : Storage) :
    updateLoop m s l = (updates m l).foldlM updateProfile s := by
  induction l generalizing s with
  | nil => rfl
  | cons p l ih =>
      unfold updateLoop updates at ih ⊢
      rw [List.foldlM_cons]
      cases h : m (key p) with
      | none =>
          rw [List.filterMap_cons_none (by simp [h])]
          exact ih s
      | some q =>
          rw [List.filterMap_cons_some (by simp [h]; rfl), List.foldlM_cons]
          simp only [ih]

theorem updateLoop_eq (us : List Profile) {s : Storage} (ho : s.openable = true)
    (hus : ∀ u ∈ us, u.id ∈ s.table.rows.map Profile.id) :
    ∃ s', us.foldlM updateProfile s = .ok s' ∧ SameSettings s s' ∧
      s'.table.rows = s.table.rows.map
        (fun y => (associateBy Profile.id (us.map stored) y.id).getD y) ∧
      s'.table.seq = s.table.seq := by
  have key : ∃ s', us.foldlM updateProfile s = .ok s' ∧ SameSettings s s' ∧
      s'.table.rows = (us.map stored).foldl (fun l u => replaceBy Profile.id u l) s.table.rows ∧
      s'.table.seq = s.table.seq := by
    induction us generalizing s with
    | nil => exact ⟨s, rfl, .refl s, rfl, rfl⟩
    | cons u us ih =>
        obtain ⟨s1, h1, hset, hrows, hseq⟩ := updateProfile_eq ho (hus u List.mem_cons_self)
        have hus1 : ∀ v ∈ us, v.id ∈ s1.table.rows.map Profile.id := by
          intro v hv
          rw [hrows, map_key_replaceBy]
          exact hus v (List.mem_cons_of_mem _ hv)
        obtain ⟨s2, h2, hset2, hrows2, hseq2⟩ := ih (hset.open ho) hus1
        refine ⟨s2, ?_, ?_, ?_, hseq2.trans hseq⟩
        · rw [List.foldlM_cons, h1]
          exact h2
        · exact hset.trans hset2
        · rw [hrows2, hrows]
          rfl
  obtain ⟨s', h1, h2, h3, h4⟩ := key
  exact ⟨s', h1, h2, by rw [h3, foldl_replaceBy], h4⟩

/-! ## A whole run -/

/-- What a run makes of a row that stays: the columns of the last feed entry with its key, if the
row is the one the snapshot map holds. -/
def refresh (rows remoteProfiles : List Profile) (p : Profile) : Profile :=
  if associateBy key rows (key p) = some p then
    match associateBy key remoteProfiles (key p) with
    | some r => stored { r with id := p.id }
    | none => p
  else p

theorem refresh_id (rows remote : List Profile) (p : Profile) :
    (refresh rows remote p).id = p.id := by
  unfold refresh
  split
  · split <;> rfl
  · rfl

theorem refresh_key (rows remote : List Profile) (p : Profile) :
    key (refresh rows remote p) = key p := by
  unfold refresh
  split
  · split
    · next r hr => exact (associateBy_mem hr).2
    · rfl
  · rfl

theorem CreatedFrom.key_eq {p q : Profile} (h : CreatedFrom p q) : key q = key p := by
  obtain ⟨i, o, rfl⟩ := h
  rfl

theorem map_key_of_createdFrom {l new : List Profile} (h : List.Forall₂ CreatedFrom l new) :
    new.map key = l.map key := by
  induction h with
  | nil => rfl
  | cons h _ ih => rw [List.map_cons, List.map_cons, h.key_eq, ih]

theorem updates_snoc (m : Text × Int → Option Profile) (l : List Profile) (r : Profile) :
    updates m (l ++ [r]) = updates m l ++
      ((m (key r)).map fun q => { r with id := q.id }).toList := by
  unfold updates
  rw [List.filterMap_append]
  cases h : m (key r) with
  | none => rw [List.filterMap_cons_none (by rw [h]; rfl)]; rfl
  | some q => rw [List.filterMap_cons_some (by rw [h]; rfl)]; rfl

/-- The last update under the id of a row is the one `refresh` describes. -/
theorem getD_updates_eq_refresh {rows : List Profile} (hnd : (rows.map Profile.id).Nodup)
    {p : Profile} (hp : p ∈ rows) (remote : List Profile) :
    (associateBy Profile.id ((updates (associateBy key rows) remote).map stored) p.id).getD p =
      refresh rows remote p := by
  induction remote using List.reverseRecOn with
  | nil => unfold refresh updates; split <;> rfl
  | append_singleton remote r ih =>
      rw [updates_snoc]
      by_cases hr : key r = key p ∧ associateBy key rows (key p) = some p
      · -- the entry `r` is written over `p`
        have hm : associateBy key rows (key r) = some p := by rw [hr.1]; exact hr.2
        rw [hm, Option.map_some, Option.toList_some, List.map_append, List.map_singleton,
          associateBy_snoc, stored_id, if_pos rfl]
        unfold refresh
        rw [if_pos hr.2, associateBy_snoc, if_pos hr.1]
        rfl
      · -- no row, or another one: `p` keeps what it had
        have hold : refresh rows (remote ++ [r]) p = refresh rows remote p := by
          unfold refresh
          by_cases hpm : associateBy key rows (key p) = some p
          · rw [if_pos hpm, if_pos hpm, associateBy_snoc, if_neg fun h => hr ⟨h, hpm⟩]
          · rw [if_neg hpm, if_neg hpm]
        rw [hold, ← ih]
        cases hq : associateBy key rows (key r) with
        | none => simp
        | some q =>
            have hne : q.id ≠ p.id := by
              intro hid
              obtain ⟨hqm, hqk⟩ := associateBy_mem hq
              obtain rfl := List.inj_on_of_nodup_map hnd hqm hp hid
              exact hr ⟨hqk.symm, by rw [hqk]; exact hq⟩
            rw [Option.map_some, Option.toList_some, List.map_append, List.map_singleton,
              associateBy_snoc, stored_id, if_neg hne]

theorem mem_updates {rows remote : List Profile} {u : Profile}
    (hu : u ∈ updates (associateBy key rows) remote) :
    ∃ l ∈ rows, u.id = l.id ∧ key u = key l ∧ key l ∈ remote.map key := by
  obtain ⟨r, hr, h⟩ := List.mem_filterMap.mp hu
  obtain ⟨l, hl, rfl⟩ := Option.map_eq_some_iff.mp h
  obtain ⟨hlm, hlk⟩ := associateBy_mem hl
  exact ⟨l, hlm, rfl, hlk.symm, hlk ▸ List.mem_map_of_mem hr⟩

/-- The rows of `rows` whose key is in the feed. -/
def surviving (rows remote : List Profile) : List Profile :=
  rows.filter fun p => decide (key p ∈ remote.map key)

theorem mem_toDelete {rows remote : List Profile} {p : Profile} :
    p ∈ toDelete rows remote ↔ p ∈ rows ∧ key p ∉ remote.map key := by
  unfold toDelete
  rw [List.mem_filter, Option.isNone_iff_eq_none, associateBy_eq_none_iff]

theorem mem_toCreate {rows remote : List Profile} {p : Profile} :
    p ∈ toCreate rows remote ↔ p ∈ remote ∧ key p ∉ rows.map key := by
  unfold toCreate
  rw [List.mem_filter, Option.isNone_iff_eq_none, associateBy_eq_none_iff]

theorem count_toCreate (rows remote : List Profile) (k : Text × Int) :
    ((toCreate rows remote).map key).count k =
      if k ∈ rows.map key then 0 else (remote.map key).count k := by
  split
  · next hk =>
      refine List.count_eq_zero.mpr fun h => ?_
      obtain ⟨p, hp, rfl⟩ := List.mem_map.mp h
      exact (mem_toCreate.mp hp).2 hk
  · next hk =>
      unfold toCreate List.count
      rw [List.countP_map, List.countP_map, List.countP_filter]
      refine List.countP_congr fun p _ => ?_
      rw [Function.comp_apply, Bool.and_eq_true, Option.isNone_iff_eq_none,
        associateBy_eq_none_iff, beq_iff_eq]
      constructor
      · exact fun h => h.1
      · rintro rfl
        exact ⟨rfl, hk⟩

theorem mem_surviving {rows remote : List Profile} {p : Profile} :
    p ∈ surviving rows remote ↔ p ∈ rows ∧ key p ∈ remote.map key := by
  unfold surviving
  rw [List.mem_filter, decide_eq_true_eq]

/-- What a completed run on `remote` has made of `s`. -/
structure Synced (remote : List Profile) (s s' : Storage) (new : List Profile) : Prop where
  settings : SameSettings s s'
  rows : s'.table.rows =
    (surviving s.table.rows remote).map (refresh s.table.rows remote) ++ new
  created : List.Forall₂ CreatedFrom (toCreate s.table.rows remote) new
  fresh : ∀ q ∈ new, s.table.seq < q.id
  seq : s'.table.seq = s.table.seq + (toCreate s.table.rows remote).length

/-- What the ids of the deleted rows leave is what survives. -/
theorem filter_not_deleted {rows : List Profile} (hnd : (rows.map Profile.id).Nodup)
    (remote : List Profile) :
    (rows.filter fun p => decide (p.id ∉ (toDelete rows remote).map Profile.id)) =
      surviving rows remote := by
  refine List.filter_congr fun p hp => ?_
  rw [decide_eq_decide]
  constructor
  · intro h
    by_contra hk
    exact h (List.mem_map_of_mem (mem_toDelete.mpr ⟨hp, hk⟩))
  · intro hk h
    obtain ⟨q, hq, hid⟩ := List.mem_map.mp h
    obtain ⟨hqm, hqk⟩ := mem_toDelete.mp hq
    obtain rfl := List.inj_on_of_nodup_map hnd hqm hp hid
    exact hqk hk

/-- Updates change no new row: their ids are those of rows of the snapshot. -/
theorem getD_updates_of_fresh {t : ProfileTable} {remote : List Profile} {q : Profile}
    (hq : t.seq < q.id) :
    (associateBy Profile.id ((updates (associateBy key t.rows) remote).map stored) q.id).getD q =
      q := by
  cases h : associateBy Profile.id ((updates (associateBy key t.rows) remote).map stored) q.id with
  | none => rfl
  | some u =>
      obtain ⟨hu, hid⟩ := associateBy_mem h
      obtain ⟨v, hv, rfl⟩ := List.mem_map.mp hu
      obtain ⟨l, hl, hvl, _⟩ := mem_updates hv
      have := t.ids_le l hl
      rw [stored_id] at hid
      omega

/-- A run completes with the rows `Synced` describes, unless the ids run out. -/
theorem syncWith_eq (remote : List Profile) {s : Storage} (ho : s.openable = true) :
    (∃ s' new, syncWith remote s = .ok s' ∧ Synced remote s s' new) ∨
    (maxLong < s.table.seq + (toCreate s.table.rows remote).length ∧
      syncWith remote s = .error .databaseFull) := by
  have hall : getAllProfiles s = .ok s.table.rows := by
    unfold getAllProfiles
    rw [if_pos ho]
    rfl
  -- the first pass always succeeds
  obtain ⟨s1, h1, hset1, hrows1, hseq1⟩ := deleteLoop_eq ho
    (l := toDelete s.table.rows remote)
    (s.table.ids_nodup.sublist (List.filter_sublist.map _))
    (fun p hp => List.mem_map_of_mem (mem_toDelete.mp hp).1)
  rw [filter_not_deleted s.table.ids_nodup] at hrows1
  rcases createLoop_eq (toCreate s.table.rows remote) (hset1.open ho) with
    ⟨s2, new, h2, hset2, hrows2, hnew, hids, hseq2⟩ | ⟨hfull, h2⟩
  · -- the rows to update are still there
    have hus : ∀ u ∈ updates (associateBy key s.table.rows) remote,
        u.id ∈ s2.table.rows.map Profile.id := by
      intro u hu
      obtain ⟨l, hl, hid, _, hk⟩ := mem_updates hu
      rw [hrows2, hrows1, hid]
      exact List.mem_map_of_mem (List.mem_append_left _ (mem_surviving.mpr ⟨hl, hk⟩))
    obtain ⟨s3, h3, hset3, hrows3, hseq3⟩ := updateLoop_eq _ (hset2.open (hset1.open ho)) hus
    rw [← updateLoop_eq_updates] at h3
    refine Or.inl ⟨s3, new, ?_, (hset1.trans hset2).trans hset3, ?_, hnew, ?_, ?_⟩
    · unfold syncWith
      simp only [hall, h1, h2, bind, Except.bind]
      exact h3
    · rw [hrows3, hrows2, hrows1, List.map_append]
      congr 1
      · refine List.map_congr_left fun p hp => ?_
        exact getD_updates_eq_refresh s.table.ids_nodup (mem_surviving.mp hp).1 remote
      · conv_rhs => rw [← List.map_id new]
        refine List.map_congr_left fun q hq => ?_
        exact getD_updates_of_fresh (hseq1 ▸ hids q hq)
    · intro q hq
      rw [← hseq1]
      exact hids q hq
    · rw [hseq3, hseq2, hseq1]
  · refine Or.inr ⟨hseq1 ▸ hfull, ?_⟩
    unfold syncWith
    simp only [hall, h1, h2, bind, Except.bind]

/-- A run completes as long as the table can be opened and has ids left. -/
theorem syncWith_completes (remote : List Profile) {s : Storage} (ho : s.openable = true)
    (hids : s.table.seq + remote.length ≤ maxLong) : ∃ s', syncWith remote s = .ok s' := by
  rcases syncWith_eq remote ho with ⟨s', _, h, _⟩ | ⟨hfull, _⟩
  · exact ⟨s', h⟩
  · have : (toCreate s.table.rows remote).length ≤ remote.length := List.length_filter_le _ _
    omega

theorem syncWith_ok {remote : List Profile} {s s' : Storage} (h : syncWith remote s = .ok s') :
    s.openable = true ∧ ∃ new, Synced remote s s' new := by
  have ho : s.openable = true := by
    by_contra hc
    unfold syncWith getAllProfiles at h
    rw [if_neg hc] at h
    cases h
  refine ⟨ho, ?_⟩
  rcases syncWith_eq remote ho with ⟨t, new, ht, hsync⟩ | ⟨_, ht⟩
  · rw [ht] at h
    cases h
    exact ⟨new, hsync⟩
  · rw [ht] at h
    cases h

theorem syncWith_ne_illegalState (remote : List Profile) (s : Storage) :
    syncWith remote s ≠ .error .illegalState := by
  intro h
  by_cases ho : s.openable = true
  · rcases syncWith_eq remote ho with ⟨t, new, ht, _⟩ | ⟨_, ht⟩ <;>
    · rw [ht] at h
      cases h
  · unfold syncWith getAllProfiles at h
    rw [if_neg ho] at h
    cases h

namespace Synced

variable {remote : List Profile} {s s' : Storage} {new : List Profile}

theorem map_key (h : Synced remote s s' new) :
    s'.table.rows.map key =
      (surviving s.table.rows remote).map key ++ (toCreate s.table.rows remote).map key := by
  rw [h.rows, List.map_append, List.map_map, map_key_of_createdFrom h.created]
  congr 1
  exact List.map_congr_left fun p _ => refresh_key _ _ p

theorem mem_key (h : Synced remote s s' new) (k : Text × Int) :
    k ∈ s'.table.rows.map key ↔ k ∈ remote.map key := by
  rw [h.map_key, List.mem_append]
  constructor
  · rintro (hk | hk) <;> obtain ⟨p, hp, rfl⟩ := List.mem_map.mp hk
    · exact (mem_surviving.mp hp).2
    · exact List.mem_map_of_mem (mem_toCreate.mp hp).1
  · intro hk
    by_cases hl : k ∈ s.table.rows.map key
    · obtain ⟨p, hp, rfl⟩ := List.mem_map.mp hl
      exact Or.inl (List.mem_map_of_mem (mem_surviving.mpr ⟨hp, hk⟩))
    · obtain ⟨r, hr, rfl⟩ := List.mem_map.mp hk
      exact Or.inr (List.mem_map_of_mem (mem_toCreate.mpr ⟨hr, hl⟩))

/-- A row whose key is in the feed is refreshed in place. -/
theorem refresh_mem (h : Synced remote s s' new) {p : Profile} (hp : p ∈ s.table.rows)
    (hk : key p ∈ remote.map key) : refresh s.table.rows remote p ∈ s'.table.rows := by
  rw [h.rows]
  exact List.mem_append_left _ (List.mem_map_of_mem (mem_surviving.mpr ⟨hp, hk⟩))

/-- The id of a row whose key is not in the feed is not used again. -/
theorem id_gone (h : Synced remote s s' new) {p : Profile} (hp : p ∈ s.table.rows)
    (hk : key p ∉ remote.map key) : p.id ∉ s'.table.rows.map Profile.id := by
  rw [h.rows, List.map_append, List.mem_append, List.map_map]
  rintro (hm | hm)
  · obtain ⟨q, hq, hid⟩ := List.mem_map.mp hm
    obtain ⟨hqm, hqk⟩ := mem_surviving.mp hq
    rw [Function.comp_apply, refresh_id] at hid
    obtain rfl := List.inj_on_of_nodup_map s.table.ids_nodup hqm hp hid
    exact hk hqk
  · obtain ⟨q, hq, hid⟩ := List.mem_map.mp hm
    have h1 := h.fresh q hq
    have h2 := s.table.ids_le p hp
    omega

end Synced

/-- Where keys are unique every row that stays has the columns of the last feed entry. -/
theorem refresh_of_nodup {rows remote : List Profile} (hnd : (rows.map key).Nodup) {p : Profile}
    (hp : p ∈ rows) (hk : key p ∈ remote.map key) :
    ∃ before r after, remote = before ++ r :: after ∧ key r = key p ∧ key p ∉ after.map key ∧
      refresh rows remote p = stored { r with id := p.id } := by
  obtain ⟨r, hr⟩ := Option.isSome_iff_exists.mp ((associateBy_isSome_iff remote (key p)).mpr hk)
  obtain ⟨before, after, hl, hkey, hlast⟩ := (associateBy_eq_some_iff remote (key p) r).mp hr
  refine ⟨before, r, after, hl, hkey, hlast, ?_⟩
  unfold refresh
  rw [if_pos (associateBy_of_nodup hnd hp), hr]

/-! ## Convergence -/

/-- The table agrees with the feed after a completed run; the checks that a statement changed
exactly one row do not fail; and a run completes as long as the table can be opened and has ids
left. -/
theorem syncProfiles_converges (P : Platform) (s : Storage) (text : Text) :
    syncProfiles P s text ≠ .error .illegalState ∧
    (s.openable = true → s.table.seq + (feed P text).length ≤ maxLong →
      ∃ s', syncProfiles P s text = .ok s') ∧
    ∀ s', syncProfiles P s text = .ok s' →
      (∀ k, k ∈ s'.table.rows.map key ↔ k ∈ (feed P text).map key) ∧
      (∀ p ∈ s.table.rows, key p ∈ (feed P text).map key →
        ∃ q ∈ s'.table.rows, q.id = p.id ∧ key q = key p) ∧
      (∀ p ∈ s.table.rows, key p ∉ (feed P text).map key →
        p.id ∉ s'.table.rows.map Profile.id) ∧
      ((s.table.rows.map key).Nodup → ∀ p ∈ s.table.rows, key p ∈ (feed P text).map key →
        ∃ q ∈ s'.table.rows, q.id = p.id ∧
          ∃ before r after, feed P text = before ++ r :: after ∧ key r = key p ∧
            key p ∉ after.map key ∧ q.method = r.method ∧ q.password = r.password ∧
            q.plugin = r.plugin ∧ q.name = r.name) := by
  refine ⟨syncWith_ne_illegalState _ s, syncWith_completes (feed P text), ?_⟩
  · intro s' h
    obtain ⟨_, new, hs⟩ := syncWith_ok h
    refine ⟨hs.mem_key, ?_, fun p hp hk => hs.id_gone hp hk, ?_⟩
    · intro p hp hk
      exact ⟨_, hs.refresh_mem hp hk, refresh_id _ _ p, refresh_key _ _ p⟩
    · intro hnd p hp hk
      obtain ⟨before, r, after, hl, hkey, hlast, heq⟩ := refresh_of_nodup hnd hp hk
      refine ⟨_, hs.refresh_mem hp hk, refresh_id _ _ p, before, r, after, hl, hkey, hlast, ?_⟩
      rw [heq]
      exact ⟨rfl, rfl, rfl, rfl⟩

/-- A table with one server the feed below has and one it does not have. -/
def twoServers : Storage where
  table := ⟨[{ id := 1, host := "h".toList, remotePort := 1 },
    { id := 2, host := "old".toList }], 2, by decide, by decide⟩
  openable := true
  profileId := 1
  directBootAware := false
  deviceProfile := none

def oneLink : Text := "ss://YTpi@h:1#x".toList

theorem syncProfiles_converges_oneLink :
    ∃ s', syncProfiles aosp twoServers oneLink = .ok s' ∧
      (∃ q ∈ s'.table.rows, q.id = 1 ∧ q.password = "b".toList) ∧
      2 ∉ s'.table.rows.map Profile.id := by
  obtain ⟨_, hrun, hconv⟩ := syncProfiles_converges aosp twoServers oneLink
  obtain ⟨s', hs'⟩ := hrun rfl (by decide +kernel)
  obtain ⟨_, _, hgone, hlast⟩ := hconv s' hs'
  refine ⟨s', hs', ?_, hgone _ (List.mem_cons_of_mem _ List.mem_cons_self) (by decide +kernel)⟩
  obtain ⟨q, hq, hid, before, r, after, hfeed, _, _, _, hpw, _⟩ :=
    hlast (by decide +kernel) _ List.mem_cons_self (by decide +kernel)
  have hall : ∀ r ∈ feed aosp oneLink, r.password = "b".toList := by decide +kernel
  exact ⟨q, hq, hid, hpw.trans (hall r (by rw [hfeed]; simp))⟩

/-! ## What the feed does not carry -/

/-- The columns that belong to the user and to the app, not to a link. -/
structure LocalState where
  tx : Int
  rx : Int
  userOrder : Int
  subscription : SubscriptionStatus
  route : Text
  remoteDns : Text
  proxyApps : Bool
  bypass : Bool
  individual : Text
  udpdns : Bool
  ipv6 : Bool
  metered : Bool
  udpFallback : Option Int
  deriving DecidableEq, Repr

def localState (p : Profile) : LocalState :=
  ⟨p.tx, p.rx, p.userOrder, p.subscription, p.route, p.remoteDns, p.proxyApps, p.bypass,
    p.individual, p.udpdns, p.ipv6, p.metered, p.udpFallback⟩

theorem localState_parseLegacy {P : Platform} {link : Text} {r : Profile}
    (h : Profile.parseLegacy P none link = some r) : localState r = localState {} := by
  unfold Profile.parseLegacy at h
  simp only [bind, Option.bind_eq_some_iff] at h
  obtain ⟨_, _, _, _, _, _, heq⟩ := h
  rw [← Option.some.inj heq]
  rfl

theorem localState_parseSip002 {P : Platform} {link userInfo : Text} {r : Profile}
    (h : Profile.parseSip002 P none link userInfo = some r) : localState r = localState {} := by
  unfold Profile.parseSip002 at h
  simp only [bind, Option.bind_eq_some_iff] at h
  obtain ⟨_, _, _, _, _, _, heq⟩ := h
  rw [← Option.some.inj heq]
  rfl

/-- Without a feature profile every entry of a feed has the defaults of `Profile()` in them. -/
theorem localState_feed {P : Platform} {text : Text} {r : Profile} (hr : r ∈ feed P text) :
    localState r = localState {} := by
  obtain ⟨link, _, hlink⟩ := List.mem_filterMap.mp hr
  unfold Profile.parseUrl at hlink
  split at hlink
  · exact localState_parseLegacy hlink
  · exact localState_parseSip002 hlink

/-- A row whose key is in the feed has the defaults after a run, so it keeps what it had exactly if
it had the defaults before. -/
theorem syncProfiles_keeps_local_iff (P : Platform) (s : Storage) (text : Text)
    (hnd : (s.table.rows.map key).Nodup) :
    (s.openable = true → s.table.seq + (feed P text).length ≤ maxLong →
      ∃ s', syncProfiles P s text = .ok s') ∧
    ∀ s', syncProfiles P s text = .ok s' → ∀ p ∈ s.table.rows, key p ∈ (feed P text).map key →
      ∃ q ∈ s'.table.rows, q.id = p.id ∧ key q = key p ∧
        (localState q = localState p ↔ localState p = localState {}) := by
  refine ⟨syncWith_completes (feed P text), ?_⟩
  intro s' h p hp hk
  obtain ⟨_, new, hs⟩ := syncWith_ok h
  obtain ⟨before, r, after, hl, _, _, heq⟩ := refresh_of_nodup hnd hp hk
  have hr : r ∈ feed P text := by
    rw [hl]
    exact List.mem_append_right _ List.mem_cons_self
  have hdefault : localState (refresh s.table.rows (feed P text) p) = localState {} := by
    rw [heq]
    show localState r = _
    exact localState_feed hr
  refine ⟨_, hs.refresh_mem hp hk, refresh_id _ _ p, refresh_key _ _ p, ?_⟩
  rw [hdefault]
  exact eq_comm

/-- One server that has been used. -/
def usedServer : Storage where
  table := ⟨[{ id := 1, host := "h".toList, remotePort := 1, tx := 7 }], 1, by decide, by decide⟩
  openable := true
  profileId := 1
  directBootAware := false
  deviceProfile := none

/-- The traffic of a server that the feed still lists is set back to zero. -/
theorem syncProfiles_resets_traffic : ∃ s', syncProfiles aosp usedServer oneLink = .ok s' ∧
    ∃ p ∈ usedServer.table.rows, key p ∈ (feed aosp oneLink).map key ∧ p.tx = 7 ∧
      ∀ q ∈ s'.table.rows, q.id = p.id → q.tx = 0 := by
  obtain ⟨s', hs'⟩ :=
    syncWith_completes (feed aosp oneLink) (s := usedServer) rfl (by decide +kernel)
  obtain ⟨_, new, hs⟩ := syncWith_ok hs'
  refine ⟨s', hs', _, List.mem_cons_self, by decide +kernel, rfl, ?_⟩
  have hmem := hs.refresh_mem (p := usedServer.table.rows[0]) List.mem_cons_self (by decide +kernel)
  have htx : (refresh usedServer.table.rows (feed aosp oneLink) usedServer.table.rows[0]).tx =
      0 := by
    decide +kernel
  intro q hq hid
  have heq := List.inj_on_of_nodup_map s'.table.ids_nodup hq hmem
    (hid.trans (refresh_id _ _ usedServer.table.rows[0]).symm)
  rw [heq, htx]

/-- A server that has not been used keeps its columns. -/
theorem syncProfiles_keeps_local_iff_unused :
    ∃ s', syncProfiles aosp twoServers oneLink = .ok s' ∧
      ∃ q ∈ s'.table.rows, q.id = 1 ∧ localState q = localState {} := by
  obtain ⟨hrun, hkeep⟩ := syncProfiles_keeps_local_iff aosp twoServers oneLink (by decide +kernel)
  obtain ⟨s', hs'⟩ := hrun rfl (by decide +kernel)
  obtain ⟨q, hq, hid, _, hiff⟩ := hkeep s' hs' _ List.mem_cons_self (by decide +kernel)
  exact ⟨s', hs', q, hq, hid, hiff.mpr rfl⟩

end CypherConnect.Sync
