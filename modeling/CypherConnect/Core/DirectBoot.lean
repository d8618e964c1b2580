/-
  The copy of the selected profile that is kept for direct boot (`utils/DirectBoot.kt`), and the
  functions of `Core`, `DataStore` and `ProfileManager` that read and write it.

  Before the first unlock only the copy can be read, and while direct boot is enabled
  `currentProfile` prefers it at all times. Selecting a profile writes it anew, by the listener of
  `DataStore`, and clearing the table deletes it. Other operations leave it as it is, except that
  deleting the fallback of the selected profile deletes it too.

  * `fresh_of_same`: an operation that leaves the copy and, apart from the traffic, the two rows
    alone.
  * `syncLeaves_rows`: the table that a synchronisation leaves, also when it ends by an exception.
  * `snapshot_fresh`: in every run whose steps meet `Keeps`, `currentProfile` is the selected row
    with its fallback, apart from the traffic.
-/
import CypherConnect.Lib.Machine
import CypherConnect.Lib.Outcome
import CypherConnect.Bg.TrafficMonitor
import CypherConnect.Sync.SyncProfiles

namespace CypherConnect

open Keyed Machine ProfileManager ProfileTable Sync

/-! ## The functions -/

namespace ProfileManager

/-- `ProfileManager.clear`. -/
def clear (s : Storage) : Except Failure Storage :=
  if s.openable then
    .ok { s with
      table := ⟨[], s.table.seq, List.nodup_nil, fun _ h => absurd h List.not_mem_nil⟩
      deviceProfile := none }
  else .error .cantOpenDatabase

end ProfileManager

/-- `DirectBoot.update()`, on the selected profile. -/
def DirectBoot.update (s : Storage) : Except Failure Storage := do
  match ← getProfile s s.profileId with
  | none => .ok s.clean
  | some profile =>
      let expanded ← expand s profile
      .ok { s with deviceProfile := some expanded }

/-- The setter of `DataStore.profileId` with the listener `onPreferenceDataStoreChanged`. -/
def DataStore.setProfileId (s : Storage) (id : Int) : Except Failure Storage :=
  let s := { s with profileId := id }
  if s.directBootAware then DirectBoot.update s else .ok s

namespace Core

/-- `Core.switchProfile`. -/
def switchProfile (s : Storage) (id : Int) : Except Failure (Storage × Profile) := do
  let (s, result) ← match ← getProfile s id with
    | some profile => .ok (s, profile)
    | none => createProfile s {}
  let s ← DataStore.setProfileId s result.id
  .ok (s, result)

/-- `Core.currentProfile`. -/
def currentProfile (s : Storage) : Except Failure (Option ExpandedProfile) :=
  match if s.directBootAware then s.deviceProfile else none with
  | some profile => .ok (some profile)
  | none => do
      match ← getProfile s s.profileId with
      | none => .ok none
      | some profile =>
          let expanded ← expand s profile
          .ok (some expanded)

/-! ## The storage that a synchronisation leaves -/

/-- A database operation of `syncProfiles`. -/
inductive TableOp where
  | delete (p : Profile)
  | create (p : Profile)
  | update (p : Profile)

def TableOp.run (s : Storage) : TableOp → Except Failure Storage
  | .delete p => delProfile s p.id
  | .create p => (createProfile s p).map Prod.fst
  | .update p => updateProfile s p

/-- What `syncProfiles` does to the table, in its order. -/
def operations (rows remote : List Profile) : List TableOp :=
  (toDelete rows remote).map .delete ++
    ((toCreate rows remote).map .create ++ (updates (associateBy key rows) remote).map .update)

/-- The storage that operations leave; the first exception ends them. -/
def leave (s : Storage) : List TableOp → Storage
  | [] => s
  | op :: ops =>
      match op.run s with
      | .ok s' => leave s' ops
      | .error _ => s

/-- The storage that `syncProfiles` leaves, whether it returns or throws. -/
def syncLeaves (remote : List Profile) (s : Storage) : Storage :=
  match getAllProfiles s with
  | .ok rows => leave s (operations rows remote)
  | .error _ => s

theorem syncWith_eq_operations {remote : List Profile} {s : Storage} (ho : s.openable = true) :
    syncWith remote s = (operations s.table.rows remote).foldlM TableOp.run s := by
  have hall : getAllProfiles s = .ok s.table.rows := if_pos ho
  unfold syncWith operations
  rw [hall, List.foldlM_append, List.foldlM_map]
  simp only [List.foldlM_append, List.foldlM_map]
  show (deleteLoop s _ >>= fun s => createLoop s _ >>= fun s => updateLoop _ s remote) = _
  simp only [updateLoop_eq_updates]
  rfl

section Leave

variable {s s' : Storage} {ops ops' : List TableOp}

theorem leave_append_of_ok (h : ops.foldlM TableOp.run s = .ok s') :
    leave s (ops ++ ops') = leave s' ops' := by
  induction ops generalizing s with
  | nil =>
      cases h
      rfl
  | cons op ops ih =>
      rw [List.foldlM_cons] at h
      rw [List.cons_append, leave]
      cases hop : op.run s with
      | error f =>
          rw [hop] at h
          cases h
      | ok t =>
          rw [hop] at h
          exact ih h

theorem leave_of_ok (h : ops.foldlM TableOp.run s = .ok s') : leave s ops = s' := by
  rw [← List.append_nil ops, leave_append_of_ok h]
  rfl

theorem leave_append_of_error {f : Failure} (h : ops.foldlM TableOp.run s = .error f) :
    leave s (ops ++ ops') = leave s ops := by
  induction ops generalizing s with
  | nil => cases h
  | cons op ops ih =>
      rw [List.foldlM_cons] at h
      rw [List.cons_append, leave, leave]
      cases hop : op.run s with
      | error f => rfl
      | ok t =>
          rw [hop] at h
          exact ih h

end Leave

/-! ## What the operations do to the copy -/

section Device

variable {s s' : Storage} {id : Int}

theorem activeProfileIds_eq (ho : s.openable = true) : activeProfileIds s =
    .ok (match s.table.get s.profileId with
      | none => []
      | some p => p.id :: p.udpFallback.toList) := by
  unfold activeProfileIds getProfile
  rw [if_pos ho]
  cases s.table.get s.profileId with
  | none => rfl
  | some p => rfl

/-- The active ids that `delProfile` looks at, in the table without the row. -/
theorem delProfile_inv (h : delProfile s id = .ok s') : s.openable = true ∧
    ∃ active, activeProfileIds { s with table := (s.table.delete id).1 } = .ok active ∧
      s' = if active.contains id && s.directBootAware then
        { s with table := (s.table.delete id).1, deviceProfile := none }
      else { s with table := (s.table.delete id).1 } := by
  unfold delProfile at h
  split at h
  · next ho =>
      refine ⟨ho, ?_⟩
      split at h
      · cases hactive : activeProfileIds { s with table := (s.table.delete id).1 } with
        | error f =>
            simp only [hactive] at h
            cases h
        | ok active =>
            simp only [hactive] at h
            exact ⟨active, rfl, (Except.ok.inj h).symm⟩
      · cases h
  · cases h

theorem delProfile_settings (h : delProfile s id = .ok s') :
    SameSettings s s' ∧ (s'.deviceProfile = none ∨ s'.deviceProfile = s.deviceProfile) := by
  obtain ⟨_, active, _, rfl⟩ := delProfile_inv h
  split
  · exact ⟨⟨rfl, rfl, rfl⟩, Or.inl rfl⟩
  · exact ⟨⟨rfl, rfl, rfl⟩, Or.inr rfl⟩

/-- Deleting the fallback of the selected profile deletes the copy. -/
theorem delProfile_fallback (h : delProfile s id = .ok s') (haware : s.directBootAware = true)
    {m : Profile} (hm : s.table.get s.profileId = some m) (hne : s.profileId ≠ id)
    (hfallback : m.udpFallback = some id) : s'.deviceProfile = none := by
  obtain ⟨ho, active, hactive, rfl⟩ := delProfile_inv h
  rw [activeProfileIds_eq (s := { s with table := (s.table.delete id).1 }) ho] at hactive
  have hget : (s.table.delete id).1.get s.profileId = some m := (get_delete_of_ne hne).trans hm
  simp only [hget, hfallback] at hactive
  have hcontains : (active.contains id && s.directBootAware) = true := by
    rw [← Except.ok.inj hactive, haware, Bool.and_true]
    exact List.contains_iff_mem.mpr (List.mem_cons_of_mem _ List.mem_cons_self)
  rw [if_pos hcontains]

theorem insertProfile_settings {profile : Profile} {order : Int} {r : Storage × Profile}
    (h : insertProfile s profile order = .ok r) :
    SameSettings s r.1 ∧ r.1.deviceProfile = s.deviceProfile := by
  unfold insertProfile at h
  split at h
  · cases hcreate : s.table.create { profile with id := 0, userOrder := order } with
    | error f =>
        rw [hcreate] at h
        cases h
    | ok created =>
        rw [hcreate] at h
        cases h
        exact ⟨⟨rfl, rfl, rfl⟩, rfl⟩
  · cases h

theorem updateProfile_settings {profile : Profile} (h : updateProfile s profile = .ok s') :
    SameSettings s s' ∧ s'.deviceProfile = s.deviceProfile := by
  unfold updateProfile at h
  split at h
  · split at h
    · cases h
      exact ⟨⟨rfl, rfl, rfl⟩, rfl⟩
    · cases h
  · cases h

theorem createProfile_inv {profile : Profile} {r : Storage × Profile}
    (h : createProfile s profile = .ok r) : s.openable = true ∧
      insertProfile s profile (s.table.nextOrder.getD 0) = .ok r := by
  unfold createProfile at h
  split at h
  · next ho => exact ⟨ho, h⟩
  · cases h

theorem tableOp_settings {op : TableOp} (h : op.run s = .ok s') :
    SameSettings s s' ∧ (s'.deviceProfile = none ∨ s'.deviceProfile = s.deviceProfile) := by
  cases op with
  | delete p => exact delProfile_settings h
  | create p =>
      cases hcreate : createProfile s p with
      | error f =>
          rw [TableOp.run, hcreate] at h
          cases h
      | ok r =>
          rw [TableOp.run, hcreate] at h
          cases h
          obtain ⟨hset, hdevice⟩ := insertProfile_settings (createProfile_inv hcreate).2
          exact ⟨hset, Or.inr hdevice⟩
  | update p =>
      obtain ⟨hset, hdevice⟩ := updateProfile_settings h
      exact ⟨hset, Or.inr hdevice⟩

theorem leave_settings (s : Storage) (ops : List TableOp) : SameSettings s (leave s ops) ∧
    ((leave s ops).deviceProfile = none ∨ (leave s ops).deviceProfile = s.deviceProfile) := by
  induction ops generalizing s with
  | nil => exact ⟨.refl s, Or.inr rfl⟩
  | cons op ops ih =>
      rw [leave]
      cases hop : op.run s with
      | error f => exact ⟨.refl s, Or.inr rfl⟩
      | ok t =>
          obtain ⟨hset, hdevice⟩ := tableOp_settings hop
          obtain ⟨hset', hdevice'⟩ := ih t
          refine ⟨hset.trans hset', ?_⟩
          rcases hdevice' with hdevice' | hdevice'
          · exact Or.inl hdevice'
          · exact hdevice.imp hdevice'.trans hdevice'.trans

end Device

/-! ## The table that a synchronisation leaves -/

section Left

variable {s : Storage} {remote : List Profile}

theorem leave_creates (l : List Profile) (ho : s.openable = true) :
    ∃ new, (leave s (l.map .create)).table.rows = s.table.rows ++ new ∧
      (∀ q ∈ new, s.table.seq < q.id ∧ q.dirty = false) ∧
      (leave s (l.map .create)).table.seq ≤ s.table.seq + l.length := by
  induction l generalizing s with
  | nil => exact ⟨[], (List.append_nil _).symm, List.forall_mem_nil _, by simp [leave]⟩
  | cons p l ih =>
      rw [List.map_cons, leave]
      have hrun : (TableOp.create p).run s =
          (insertProfile s p (s.table.nextOrder.getD 0)).map Prod.fst := by
        rw [TableOp.run, createProfile_eq_insertProfile ho]
      rcases insertProfile_eq ho p (s.table.nextOrder.getD 0) with
        ⟨_, t, hinsert, hset, hrows, hseq⟩ | ⟨_, hinsert⟩
      · rw [hrun, hinsert]
        obtain ⟨new, hnew, hids, hbound⟩ := ih (hset.open ho)
        refine ⟨inserted s.table p (s.table.nextOrder.getD 0) :: new, ?_, ?_, ?_⟩
        · show (leave t _).table.rows = _
          rw [hnew, hrows, List.append_assoc]
          rfl
        · intro q hq
          rcases List.mem_cons.mp hq with rfl | hq
          · exact ⟨Int.lt_succ _, rfl⟩
          · obtain ⟨hlt, hdirty⟩ := hids q hq
            exact ⟨by omega, hdirty⟩
        · show (leave t _).table.seq ≤ _
          rw [List.length_cons]
          omega
      · rw [hrun, hinsert]
        refine ⟨[], (List.append_nil _).symm, List.forall_mem_nil _, ?_⟩
        show s.table.seq ≤ _
        omega

/-- What a synchronisation makes of the rows: `change` is what it does to those that stay. -/
structure Leaves (remote : List Profile) (s s' : Storage) (change : Profile → Profile)
    (new : List Profile) : Prop where
  rows : s'.table.rows = (surviving s.table.rows remote).map change ++ new
  change : ∀ p, change p = p ∨ change p = refresh s.table.rows remote p
  new : ∀ q ∈ new, s.table.seq < q.id ∧ q.dirty = false
  seq : s'.table.seq ≤ s.table.seq + (toCreate s.table.rows remote).length

theorem createdFrom_dirty {l new : List Profile} (h : List.Forall₂ CreatedFrom l new) :
    ∀ q ∈ new, q.dirty = false := by
  induction h with
  | nil => exact List.forall_mem_nil _
  | cons hfrom _ ih =>
      refine List.forall_mem_cons.mpr ⟨?_, ih⟩
      obtain ⟨i, o, rfl⟩ := hfrom
      rfl

/-- The deletions succeed, and leave what survives. -/
theorem deletes_run (ho : s.openable = true) (remote : List Profile) : ∃ s1,
    ((toDelete s.table.rows remote).map TableOp.delete).foldlM TableOp.run s = .ok s1 ∧
      SameSettings s s1 ∧ s1.table.rows = surviving s.table.rows remote ∧
        s1.table.seq = s.table.seq := by
  obtain ⟨s1, hdelete, hset, hrows, hseq⟩ := deleteLoop_eq ho (l := toDelete s.table.rows remote)
    (s.table.ids_nodup.sublist (List.filter_sublist.map _))
    (fun p hp => List.mem_map_of_mem (mem_toDelete.mp hp).1)
  rw [filter_not_deleted s.table.ids_nodup] at hrows
  refine ⟨s1, ?_, hset, hrows, hseq⟩
  rw [List.foldlM_map]
  exact hdelete

/-- The updates succeed in a table that has the rows that survive. -/
theorem updates_run {s2 : Storage} (ho : s2.openable = true) {remote new : List Profile}
    (hrows : s2.table.rows = surviving s.table.rows remote ++ new) : ∃ s3,
      ((updates (associateBy key s.table.rows) remote).map TableOp.update).foldlM TableOp.run s2 =
        .ok s3 := by
  have hids : ∀ u ∈ updates (associateBy key s.table.rows) remote,
      u.id ∈ s2.table.rows.map Profile.id := by
    intro u hu
    obtain ⟨l, hl, hid, _, hkey⟩ := mem_updates hu
    rw [hid, hrows]
    exact List.mem_map_of_mem (List.mem_append_left _ (mem_surviving.mpr ⟨hl, hkey⟩))
  obtain ⟨s3, hupdate, _⟩ := updateLoop_eq _ ho hids
  refine ⟨s3, ?_⟩
  rw [List.foldlM_map]
  exact hupdate

theorem syncLeaves_rows (ho : s.openable = true) (remote : List Profile) :
    ∃ change new, Leaves remote s (syncLeaves remote s) change new := by
  have hall : getAllProfiles s = .ok s.table.rows := if_pos ho
  unfold syncLeaves
  rw [hall]
  show ∃ change new, Leaves remote s (leave s (operations s.table.rows remote)) change new
  cases hsync : syncWith remote s with
  | ok s' =>
      obtain ⟨_, new, hsynced⟩ := syncWith_ok hsync
      rw [syncWith_eq_operations ho] at hsync
      rw [leave_of_ok hsync]
      exact ⟨refresh s.table.rows remote, new, hsynced.rows, fun p => Or.inr rfl,
        fun q hq => ⟨hsynced.fresh q hq, createdFrom_dirty hsynced.created q hq⟩,
        Int.le_of_eq hsynced.seq⟩
  | error f =>
      -- only the creations can fail
      obtain ⟨s1, hdeletes, hset1, hrows1, hseq1⟩ := deletes_run ho remote
      rw [syncWith_eq_operations ho, operations, List.foldlM_append, hdeletes] at hsync
      have hrest : ((toCreate s.table.rows remote).map TableOp.create ++
          (updates (associateBy key s.table.rows) remote).map TableOp.update).foldlM
            TableOp.run s1 =
          .error f := hsync
      rw [operations, leave_append_of_ok hdeletes]
      obtain ⟨new, hnew, hids, hbound⟩ :=
        leave_creates (toCreate s.table.rows remote) (hset1.open ho)
      rw [hrows1] at hnew
      rw [hseq1] at hids hbound
      cases hcreate : ((toCreate s.table.rows remote).map TableOp.create).foldlM TableOp.run s1 with
      | error f' =>
          rw [leave_append_of_error hcreate]
          refine ⟨id, new, ?_, fun p => Or.inl rfl, hids, hbound⟩
          rw [hnew, List.map_id]
      | ok s2 =>
          have hset2 := (leave_settings s1 ((toCreate s.table.rows remote).map .create)).1
          rw [leave_of_ok hcreate] at hnew hset2
          obtain ⟨s3, hupdates⟩ := updates_run (hset2.open (hset1.open ho)) hnew
          rw [List.foldlM_append, hcreate] at hrest
          cases hupdates.symm.trans hrest

end Left

/-! ## Agreement with the table -/

/-- A profile without the fields that count traffic. -/
def withoutTraffic (p : Profile) : Profile := { p with tx := 0, rx := 0 }

def expandedWithoutTraffic (e : ExpandedProfile) : ExpandedProfile :=
  ⟨withoutTraffic e.main, e.udpFallback.map withoutTraffic⟩

/-- The row of the selected profile together with the row of its fallback. -/
def selected (s : Storage) : Option ExpandedProfile :=
  (s.table.get s.profileId).map fun p => ⟨p, p.udpFallback.bind s.table.get⟩

/-- The copy, if there is one, agrees with the table apart from the traffic. -/
def Fresh (s : Storage) : Prop :=
  ∀ e ∈ s.deviceProfile, (selected s).map expandedWithoutTraffic = some (expandedWithoutTraffic e)

/-- Storage that is unlocked, with direct boot enabled. `dirty` is not a column. -/
structure Unlocked (s : Storage) : Prop where
  openable : s.openable = true
  aware : s.directBootAware = true
  columns : ∀ p ∈ s.table.rows, p.dirty = false

/-- Unlocked storage with a copy that is right, if there is one. -/
def Good (s : Storage) : Prop := Unlocked s ∧ Fresh s

section Agreement

variable {s t : Storage} {m : Profile}

theorem expand_selected (ho : s.openable = true) (p : Profile) :
    expand s p = .ok ⟨p, p.udpFallback.bind s.table.get⟩ := by
  unfold expand getProfile
  cases p.udpFallback with
  | none => rfl
  | some id =>
      dsimp only
      rw [if_pos ho]
      rfl

theorem currentProfile_of_fresh (hs : Unlocked s) (h : Fresh s) : ∃ current,
    currentProfile s = .ok current ∧
      current.map expandedWithoutTraffic = (selected s).map expandedWithoutTraffic := by
  unfold currentProfile
  rw [if_pos hs.aware]
  cases hdevice : s.deviceProfile with
  | some e => exact ⟨some e, rfl, (h e hdevice).symm⟩
  | none =>
      have hget : getProfile s s.profileId = .ok (s.table.get s.profileId) := if_pos hs.openable
      refine ⟨selected s, ?_, rfl⟩
      unfold selected
      simp only [hget]
      cases s.table.get s.profileId with
      | none => rfl
      | some p =>
          show (do let expanded ← expand s p; Except.ok (some expanded)) = _
          rw [expand_selected hs.openable]
          rfl

theorem fresh_of_absent (h : t.deviceProfile = none) : Fresh t := by
  intro e he
  rw [h] at he
  cases he

/-- The selected row and its fallback in two tables. -/
theorem selected_same (hid : t.profileId = s.profileId) (hm : s.table.get s.profileId = some m)
    {m' : Profile} (hm' : t.table.get s.profileId = some m')
    (hmain : withoutTraffic m' = withoutTraffic m) (hfallback : ∀ f, m.udpFallback = some f →
      (t.table.get f).map withoutTraffic = (s.table.get f).map withoutTraffic) :
    (selected t).map expandedWithoutTraffic = (selected s).map expandedWithoutTraffic := by
  have hudp : (withoutTraffic m').udpFallback = (withoutTraffic m).udpFallback := congrArg _ hmain
  change m'.udpFallback = m.udpFallback at hudp
  unfold selected
  rw [hid, hm, hm']
  show some (ExpandedProfile.mk (withoutTraffic m')
      ((m'.udpFallback.bind t.table.get).map withoutTraffic)) =
    some (ExpandedProfile.mk (withoutTraffic m)
      ((m.udpFallback.bind s.table.get).map withoutTraffic))
  rw [hmain, hudp]
  cases hf : m.udpFallback with
  | none => rfl
  | some f =>
      rw [Option.bind_some, Option.bind_some, hfallback f hf]

/-- An operation that keeps or deletes the copy, and keeps the two rows apart from the traffic. -/
theorem fresh_of_same (hs : Fresh s) (hid : t.profileId = s.profileId)
    (hdevice : t.deviceProfile = none ∨ t.deviceProfile = s.deviceProfile)
    (hrows : ∀ m, s.table.get s.profileId = some m → t.deviceProfile ≠ none →
      (∃ m', t.table.get s.profileId = some m' ∧ withoutTraffic m' = withoutTraffic m) ∧
      ∀ f, m.udpFallback = some f →
        (t.table.get f).map withoutTraffic = (s.table.get f).map withoutTraffic) : Fresh t := by
  rcases hdevice with hnone | hsame
  · exact fresh_of_absent hnone
  · intro e he
    have hcopy := hs e (hsame ▸ he)
    obtain ⟨_, hselected, _⟩ := Option.map_eq_some_iff.mp hcopy
    obtain ⟨m, hm, _⟩ := Option.map_eq_some_iff.mp hselected
    have hpresent : t.deviceProfile ≠ none := by
      rw [show t.deviceProfile = some e from he]
      exact Option.some_ne_none e
    obtain ⟨⟨m', hm', hmain⟩, hfallback⟩ := hrows m hm hpresent
    rw [selected_same hid hm hm' hmain hfallback]
    exact hcopy

end Agreement

/-! ## Runs of operations -/

/-- The operations that change the table or the selection. -/
inductive Operation where
  | switchProfile (id : Int)
  | createProfile (profile : Profile)
  | delProfile (id : Int)
  | clear
  | syncProfiles (text : Text)
  | persistStats (monitor : Bg.TrafficMonitor) (id : Int)

/-- An operation of one statement that throws has changed nothing. -/
def orUnchanged (s : Storage) : Except Failure Storage → Storage
  | .ok s' => s'
  | .error _ => s

/-- The storage that an operation leaves. -/
def perform (P : Platform) (s : Storage) : Operation → Storage
  | .switchProfile id => orUnchanged s ((switchProfile s id).map Prod.fst)
  | .createProfile profile => orUnchanged s ((ProfileManager.createProfile s profile).map Prod.fst)
  | .delProfile id => orUnchanged s (ProfileManager.delProfile s id)
  | .clear => orUnchanged s (ProfileManager.clear s)
  | .syncProfiles text => syncLeaves (feed P text) s
  | .persistStats monitor id => orUnchanged s ((monitor.persistStats s id).map Prod.snd)

def step (P : Platform) (s : Storage) (op : Operation) : Option Storage := some (perform P s op)

/-- The feed does not change the row `p` apart from the traffic: either another row is found under
its key, or the last entry with the key agrees with it. -/
def Unchanged (rows remote : List Profile) (p : Profile) : Prop :=
  associateBy key rows (key p) = some p → ∀ r, associateBy key remote (key p) = some r →
    withoutTraffic (stored { r with id := p.id }) = withoutTraffic p

/-- The feed keeps the selected row `m` and its fallback, and no new row becomes its fallback. -/
structure KeepsRows (s : Storage) (remote : List Profile) (m : Profile) : Prop where
  main : key m ∈ remote.map key ∧ Unchanged s.table.rows remote m
  fallback : ∀ f ∈ s.table.rows, m.udpFallback = some f.id →
    key f ∈ remote.map key ∧ Unchanged s.table.rows remote f
  created : ∀ id, m.udpFallback = some id →
    ¬ (s.table.seq < id ∧ id ≤ s.table.seq + (toCreate s.table.rows remote).length)

/-- The feed removes the fallback of the selected row `m` while `m` is there. -/
def DropsFallback (s : Storage) (remote : List Profile) (m : Profile) : Prop :=
  ∃ before f after, s.table.rows = before ++ f :: after ∧ m.udpFallback = some f.id ∧ f.id ≠ m.id ∧
    key f ∉ remote.map key ∧ (key m ∈ remote.map key ∨ m ∈ after)

/-- When an operation keeps a copy that is there right. -/
def Keeps (P : Platform) (s : Storage) (op : Operation) : Prop :=
  ∀ m, s.deviceProfile ≠ none → s.table.get s.profileId = some m →
    match op with
    | .createProfile _ => m.udpFallback ≠ some (s.table.seq + 1)
    | .delProfile id => id ≠ s.profileId
    | .syncProfiles text => KeepsRows s (feed P text) m ∨ DropsFallback s (feed P text) m
    | _ => True

/-! ## One operation -/

section Steps

variable {P : Platform} {s t : Storage} {m : Profile}

/-- The listener writes the selected profile. -/
theorem update_eq (ho : s.openable = true) :
    DirectBoot.update s = .ok { s with deviceProfile := selected s } := by
  have hget : getProfile s s.profileId = .ok (s.table.get s.profileId) := if_pos ho
  unfold DirectBoot.update selected
  simp only [hget]
  cases s.table.get s.profileId with
  | none => rfl
  | some p =>
      show (do let expanded ← expand s p; Except.ok { s with deviceProfile := some expanded }) = _
      rw [expand_selected ho]
      rfl

theorem setProfileId_good (hs : Unlocked s) {id : Int} (h : DataStore.setProfileId s id = .ok t) :
    Good t := by
  unfold DataStore.setProfileId at h
  rw [if_pos hs.aware, update_eq (s := { s with profileId := id }) hs.openable] at h
  obtain rfl := Except.ok.inj h
  refine ⟨⟨hs.openable, hs.aware, hs.columns⟩, fun e he => ?_⟩
  exact congrArg (Option.map expandedWithoutTraffic) he

theorem unlocked_of_settings (hs : Unlocked s) (hset : SameSettings s t)
    (hcolumns : ∀ p ∈ t.table.rows, p.dirty = false) : Unlocked t :=
  ⟨hset.open hs.openable, hset.2.2.trans hs.aware, hcolumns⟩

theorem createProfile_unlocked (hs : Unlocked s) {profile : Profile} {r : Storage × Profile}
    (h : createProfile s profile = .ok r) : Unlocked r.1 := by
  have hinsert := (createProfile_inv h).2
  refine unlocked_of_settings hs (insertProfile_settings hinsert).1 ?_
  rw [(insertProfile_ok hinsert).1]
  exact List.forall_mem_append.mpr ⟨hs.columns, List.forall_mem_singleton.mpr rfl⟩

/-- Selecting a profile writes the copy anew, whatever it was before. -/
theorem switchProfile_good (hs : Unlocked s) {id : Int} {r : Storage × Profile}
    (h : switchProfile s id = .ok r) : Good r.1 := by
  have hget : getProfile s id = .ok (s.table.get id) := if_pos hs.openable
  have hset {u : Storage × Profile} (hu : Unlocked u.1)
      (h : (do let t ← DataStore.setProfileId u.1 u.2.id; Except.ok (t, u.2)) = .ok r) :
      Good r.1 := by
    cases hid : DataStore.setProfileId u.1 u.2.id with
    | error f =>
        rw [hid] at h
        cases h
    | ok t =>
        rw [hid] at h
        cases h
        exact setProfileId_good hu hid
  unfold switchProfile at h
  simp only [hget] at h
  cases hrow : s.table.get id with
  | some profile =>
      rw [hrow] at h
      exact hset (u := (s, profile)) hs h
  | none =>
      rw [hrow] at h
      cases hcreate : createProfile s {} with
      | error f =>
          simp only [hcreate] at h
          cases h
      | ok u =>
          simp only [hcreate] at h
          exact hset (createProfile_unlocked hs hcreate) h

theorem createProfile_good (hs : Good s) {profile : Profile} {r : Storage × Profile}
    (hkeeps : Keeps P s (.createProfile profile)) (h : createProfile s profile = .ok r) :
    Good r.1 := by
  have hinsert := (createProfile_inv h).2
  obtain ⟨hset, hdevice⟩ := insertProfile_settings hinsert
  have hget {id : Int} (hid : id ≠ s.table.seq + 1) : r.1.table.get id = s.table.get id := by
    refine get_append (insertProfile_ok hinsert).1 fun q hq => ?_
    rw [List.mem_singleton.mp hq]
    exact fun heq => hid heq.symm
  refine ⟨createProfile_unlocked hs.1 h, fresh_of_same hs.2 hset.2.1 (Or.inr hdevice) ?_⟩
  intro m hm hpresent
  have hle : s.profileId ≤ s.table.seq := by
    obtain ⟨hmem, hid⟩ := get_some hm
    exact hid ▸ s.table.ids_le m hmem
  refine ⟨⟨m, (hget (by omega)).trans hm, rfl⟩, fun f hf => ?_⟩
  have hnew : m.udpFallback ≠ some (s.table.seq + 1) := hkeeps m (hdevice ▸ hpresent) hm
  have hne : f ≠ s.table.seq + 1 := fun heq => hnew (heq ▸ hf)
  rw [hget hne]

theorem delProfile_good (hs : Good s) {id : Int} (hkeeps : Keeps P s (.delProfile id))
    (h : delProfile s id = .ok t) : Good t := by
  obtain ⟨hset, hdevice⟩ := delProfile_settings h
  have htable := delProfile_ok h
  refine ⟨unlocked_of_settings hs.1 hset ?_, fresh_of_same hs.2 hset.2.1 hdevice ?_⟩
  · rw [htable]
    intro p hp
    exact hs.1.columns p (List.mem_of_mem_filter hp)
  · intro m hm hpresent
    have hcopy : s.deviceProfile ≠ none := by
      rw [← hdevice.resolve_left hpresent]
      exact hpresent
    have hne : s.profileId ≠ id := fun heq => hkeeps m hcopy hm heq.symm
    rw [htable]
    refine ⟨⟨m, (get_delete_of_ne hne).trans hm, rfl⟩, fun f hf => ?_⟩
    have hother : f ≠ id := by
      rintro rfl
      exact hpresent (delProfile_fallback h hs.1.aware hm hne hf)
    rw [get_delete_of_ne hother]

theorem clear_good (hs : Unlocked s) (h : clear s = .ok t) : Good t := by
  unfold clear at h
  rw [if_pos hs.openable] at h
  obtain rfl := Except.ok.inj h
  exact ⟨⟨hs.openable, hs.aware, List.forall_mem_nil _⟩, fresh_of_absent rfl⟩

/-- Writing over a row that differs in the traffic only. -/
theorem updateProfile_good (hs : Good s) {value p : Profile} (hp : p ∈ s.table.rows)
    (hid : value.id = p.id) (hsame : withoutTraffic (stored value) = withoutTraffic p)
    (h : updateProfile s value = .ok t) : Good t := by
  obtain ⟨hset, hdevice⟩ := updateProfile_settings h
  have htable := updateProfile_ok h
  have hrows (x : Int) : (t.table.get x).map withoutTraffic = (s.table.get x).map
      withoutTraffic := by
    rw [htable]
    by_cases hx : x = value.id
    · have hmem : value.id ∈ s.table.rows.map Profile.id := hid ▸ List.mem_map_of_mem hp
      rw [hx, s.table.get_update hmem, hid, s.table.get_of_mem hp, Option.map_some,
        Option.map_some, hsame]
    · rw [get_update_of_ne hx]
  refine ⟨unlocked_of_settings hs.1 hset ?_, fresh_of_same hs.2 hset.2.1 (Or.inr hdevice) ?_⟩
  · rw [htable]
    intro q hq
    obtain ⟨q', hq', heq⟩ := List.mem_map.mp hq
    split at heq
    · rw [← heq]
      rfl
    · exact heq ▸ hs.1.columns q' hq'
  · intro m hm _
    have hmain := hrows s.profileId
    rw [hm, Option.map_some] at hmain
    obtain ⟨m', hm', heq⟩ := Option.map_eq_some_iff.mp hmain
    exact ⟨⟨m', hm', heq⟩, fun f _ => hrows f⟩

theorem persistStats_good (hs : Good s) {monitor : Bg.TrafficMonitor} {id : Int}
    {r : Bg.TrafficMonitor × Storage} (h : monitor.persistStats s id = .ok r) : Good r.2 := by
  have hget : getProfile s id = .ok (s.table.get id) := if_pos hs.1.openable
  unfold Bg.TrafficMonitor.persistStats at h
  rw [if_pos monitor.check_holds, hget] at h
  cases hrow : s.table.get id with
  | none =>
      simp only [hrow] at h
      cases h
      exact hs
  | some p =>
      simp only [hrow] at h
      obtain ⟨hmem, rfl⟩ := get_some hrow
      have hsame : withoutTraffic (stored (monitor.addTotals p)) = withoutTraffic p := by
        show ({ p with tx := 0, rx := 0, dirty := false } : Profile) = { p with tx := 0, rx := 0 }
        rw [← hs.1.columns p hmem]
      have hr : (do let s ← updateProfile s (monitor.addTotals p); pure (_, s)) = Except.ok r := h
      cases hupdate : updateProfile s (monitor.addTotals p) with
      | error f =>
          rw [hupdate] at hr
          cases hr
      | ok u =>
          rw [hupdate] at hr
          cases hr
          refine updateProfile_good hs hmem ?_ hsame hupdate
          rfl

/-! ### Synchronisation -/

variable {remote : List Profile} {change : Profile → Profile} {new : List Profile}

theorem Leaves.change_id (h : Leaves remote s t change new) (p : Profile) :
    (change p).id = p.id := by
  rcases h.change p with heq | heq
  · rw [heq]
  · rw [heq, refresh_id]

theorem Leaves.get_surviving (h : Leaves remote s t change new) {p : Profile}
    (hp : p ∈ s.table.rows)
    (hkey : key p ∈ remote.map key) : t.table.get p.id = some (change p) := by
  rw [get_eq_some_iff, h.rows]
  exact ⟨List.mem_append_left _ (List.mem_map_of_mem (mem_surviving.mpr ⟨hp, hkey⟩)), h.change_id p⟩

theorem Leaves.get_none (h : Leaves remote s t change new) {id : Int} (hno : s.table.get id = none)
    (hcreated : ¬ (s.table.seq < id ∧ id ≤ s.table.seq + (toCreate s.table.rows remote).length)) :
    t.table.get id = none := by
  rw [get_eq_none_iff] at hno ⊢
  intro q hq hid
  have hle := t.table.ids_le q hq
  rw [h.rows] at hq
  rcases List.mem_append.mp hq with hq | hq
  · obtain ⟨p, hp, rfl⟩ := List.mem_map.mp hq
    exact hno p (mem_surviving.mp hp).1 ((h.change_id p).symm.trans hid)
  · have hlt := (h.new q hq).1
    have hseq := h.seq
    exact hcreated (by omega)

theorem Leaves.unchanged (h : Leaves remote s t change new) {p : Profile}
    (hp : Unchanged s.table.rows remote p) : withoutTraffic (change p) = withoutTraffic p := by
  rcases h.change p with heq | heq
  · rw [heq]
  · rw [heq]
    unfold refresh
    split
    · next hrow =>
        split
        · next r hr => exact hp hrow r hr
        · rfl
    · rfl

theorem Leaves.columns (h : Leaves remote s t change new)
    (hs : ∀ p ∈ s.table.rows, p.dirty = false) :
    ∀ p ∈ t.table.rows, p.dirty = false := by
  intro q hq
  rw [h.rows] at hq
  rcases List.mem_append.mp hq with hq | hq
  · obtain ⟨p, hp, rfl⟩ := List.mem_map.mp hq
    have hdirty := hs p (mem_surviving.mp hp).1
    rcases h.change p with heq | heq
    · rw [heq, hdirty]
    · rw [heq]
      unfold refresh
      split
      · split
        · rfl
        · exact hdirty
      · exact hdirty
  · exact (h.new q hq).2

theorem toDelete_split {before after : List Profile} {f : Profile} (hkey : key f ∉ remote.map key) :
    toDelete (before ++ f :: after) remote = toDelete before remote ++ f :: toDelete after
      remote := by
  have hpos : (associateBy key remote (key f)).isNone = true := by
    rw [Option.isNone_iff_eq_none, associateBy_eq_none_iff]
    exact hkey
  unfold toDelete
  rw [List.filter_append]
  exact congrArg _ (List.filter_cons_of_pos hpos)

/-- Rows that the deletions have not reached are there. -/
theorem deletes_before (remote : List Profile) (hs : Unlocked s) {before rest : List Profile}
    (hrows : s.table.rows = before ++ rest) : ∃ s1,
      ((toDelete before remote).map TableOp.delete).foldlM TableOp.run s = .ok s1 ∧
        SameSettings s s1 ∧
        ∀ p ∈ s.table.rows, (key p ∈ remote.map key ∨ p ∈ rest) → p ∈ s1.table.rows := by
  have hnodup := s.table.ids_nodup
  have hsplit : ((before ++ rest).map Profile.id).Nodup := hrows ▸ hnodup
  rw [List.map_append, List.nodup_append] at hsplit
  have hmem : ∀ p ∈ toDelete before remote, p ∈ s.table.rows := by
    intro p hp
    rw [hrows]
    exact List.mem_append_left _ (mem_toDelete.mp hp).1
  obtain ⟨s1, hloop, hset, hrows1, _⟩ := deleteLoop_eq hs.openable (l := toDelete before remote)
    (hsplit.1.sublist (List.filter_sublist.map _)) (fun p hp => List.mem_map_of_mem (hmem p hp))
  refine ⟨s1, ?_, hset, ?_⟩
  · rw [List.foldlM_map]
    exact hloop
  · intro p hp hlater
    rw [hrows1, List.mem_filter, decide_eq_true_eq]
    refine ⟨hp, fun hdeleted => ?_⟩
    obtain ⟨q, hq, heq⟩ := List.mem_map.mp hdeleted
    obtain ⟨hbefore, hqkey⟩ := mem_toDelete.mp hq
    rcases hlater with hkept | hrest
    · exact hqkey (List.inj_on_of_nodup_map hnodup (hmem q hq) hp heq ▸ hkept)
    · exact hsplit.2.2 q.id (List.mem_map_of_mem hbefore) p.id (List.mem_map_of_mem hrest) heq

/-- The deletions reach the fallback while the selected row is there, and so the copy is deleted. -/
theorem leave_dropsFallback (hs : Unlocked s) (hm : s.table.get s.profileId = some m)
    (hdrops : DropsFallback s remote m) :
    (leave s (operations s.table.rows remote)).deviceProfile = none := by
  obtain ⟨before, f, after, hrows, hfallback, hne, hkey, hlater⟩ := hdrops
  obtain ⟨hmem, hid⟩ := get_some hm
  obtain ⟨s1, hdeletes, hset, hkept⟩ := deletes_before remote hs hrows
  have hf : f ∈ s1.table.rows := by
    refine hkept f ?_ (Or.inr List.mem_cons_self)
    rw [hrows]
    exact List.mem_append_right _ List.mem_cons_self
  have hmain : s1.table.get s1.profileId = some m := by
    rw [get_eq_some_iff, hset.2.1]
    exact ⟨hkept m hmem (hlater.imp_right (List.mem_cons_of_mem _)), hid⟩
  obtain ⟨s2, hdelete, _, _⟩ := delProfile_eq (hset.open hs.openable) (List.mem_map_of_mem hf)
  have hnone : s2.deviceProfile = none := by
    refine delProfile_fallback hdelete (hset.2.2.trans hs.aware) hmain ?_ hfallback
    rw [hset.2.1, ← hid]
    exact fun heq => hne heq.symm
  have hrun : (TableOp.delete f).run s1 = .ok s2 := hdelete
  unfold operations
  rw [hrows, toDelete_split hkey, List.map_append, List.append_assoc, leave_append_of_ok hdeletes,
    List.map_cons, List.cons_append, leave, hrun]
  exact (leave_settings s2 _).2.elim id fun heq => heq.trans hnone

theorem syncProfiles_good (hs : Good s) {text : Text} (hkeeps : Keeps P s (.syncProfiles text)) :
    Good (syncLeaves (feed P text) s) := by
  have hleave : syncLeaves (feed P text) s = leave s (operations s.table.rows (feed P text)) := by
    have hall : getAllProfiles s = .ok s.table.rows := if_pos hs.1.openable
    unfold syncLeaves
    rw [hall]
  obtain ⟨change, new, hleaves⟩ := syncLeaves_rows hs.1.openable (feed P text)
  obtain ⟨hset, hdevice⟩ := leave_settings s (operations s.table.rows (feed P text))
  rw [← hleave] at hset hdevice
  refine ⟨unlocked_of_settings hs.1 hset (hleaves.columns hs.1.columns),
    fresh_of_same hs.2 hset.2.1 hdevice ?_⟩
  intro m hm hpresent
  have hcopy : s.deviceProfile ≠ none := by
    rw [← hdevice.resolve_left hpresent]
    exact hpresent
  rcases hkeeps m hcopy hm with hrows | hdrops
  · obtain ⟨hmem, hid⟩ := get_some hm
    refine ⟨⟨change m, ?_, hleaves.unchanged hrows.main.2⟩, fun f hf => ?_⟩
    · rw [← hid]
      exact hleaves.get_surviving hmem hrows.main.1
    · cases hrow : s.table.get f with
      | none => rw [hleaves.get_none hrow (hrows.created f hf)]
      | some p =>
          obtain ⟨hp, rfl⟩ := get_some hrow
          obtain ⟨hkey, hunchanged⟩ := hrows.fallback p hp hf
          rw [hleaves.get_surviving hp hkey, Option.map_some, Option.map_some,
            hleaves.unchanged hunchanged]
  · rw [hleave, leave_dropsFallback hs.1 hm hdrops] at hpresent
    exact absurd rfl hpresent

/-! ### Any operation -/

theorem good_orUnchanged (hs : Good s) {r : Except Failure Storage} (h : ∀ t, r = .ok t → Good t) :
    Good (orUnchanged s r) := by
  cases r with
  | ok t => exact h t rfl
  | error f => exact hs

theorem step_good (hs : Good s) {op : Operation} (hkeeps : Keeps P s op) :
    Good (perform P s op) := by
  cases op with
  | switchProfile id =>
      refine good_orUnchanged hs fun t ht => ?_
      obtain ⟨r, hr, rfl⟩ := Outcome.map_ok ht
      exact switchProfile_good hs.1 hr
  | createProfile profile =>
      refine good_orUnchanged hs fun t ht => ?_
      obtain ⟨r, hr, rfl⟩ := Outcome.map_ok ht
      exact createProfile_good hs hkeeps hr
  | delProfile id => exact good_orUnchanged hs fun t ht => delProfile_good hs hkeeps ht
  | clear => exact good_orUnchanged hs fun t ht => clear_good hs.1 ht
  | syncProfiles text => exact syncProfiles_good hs hkeeps
  | persistStats monitor id =>
      refine good_orUnchanged hs fun t ht => ?_
      obtain ⟨r, hr, rfl⟩ := Outcome.map_ok ht
      exact persistStats_good hs hr

end Steps

/-! ## Every run -/

/-- From a copy that is the selected row with its fallback, in every run whose steps meet the
condition: `currentProfile` agrees with the table apart from the traffic, and is `null` if the row
does not exist. -/
theorem snapshot_fresh (P : Platform) {s t : Storage} {ops : List Operation} (hs : Unlocked s)
    (hcopy : s.deviceProfile = selected s) (hkeeps : Meets (step P) (Keeps P) s ops)
    (hrun : run (step P) s ops = some t) : ∃ current, currentProfile t = .ok current ∧
      current.map expandedWithoutTraffic = (selected t).map expandedWithoutTraffic := by
  have hstart : Good s := by
    refine ⟨hs, fun e he => ?_⟩
    rw [← hcopy, show s.deviceProfile = some e from he]
    rfl
  have hend : Good t := by
    refine run_invariant_of_meets (fun s op s' hs hop hstep => ?_) hstart hkeeps hrun
    obtain rfl := Option.some.inj hstep
    exact step_good hs hop
  exact currentProfile_of_fresh hend.1 hend.2

/-- `a:b@h:1`. -/
def savedProfile : Profile :=
  { id := 1, host := "h".toList, remotePort := 1, method := "a".toList, password := "b".toList }

/-- One server, selected, with its copy. -/
def savedServer : Storage where
  table := ⟨[savedProfile], 1, by decide, by decide⟩
  openable := true
  profileId := 1
  directBootAware := true
  deviceProfile := some ⟨savedProfile, none⟩

/-- `a:c@h:1`. -/
def newPassword : Text := "ss://YTpj@h:1#x".toList

/-- A synchronisation that brings a new password leaves the copy with the old one. -/
theorem syncProfiles_leaves_copy : Unlocked savedServer ∧
    savedServer.deviceProfile = selected savedServer ∧
    ∃ t current, run (step aosp) savedServer [.syncProfiles newPassword] = some t ∧
      currentProfile t = .ok (some current) ∧ current.main.password = "b".toList ∧
      (selected t).map (fun e => e.main.password) = some "c".toList := by
  have hdevice : (perform aosp savedServer (.syncProfiles newPassword)).deviceProfile =
      savedServer.deviceProfile := by decide +kernel
  have haware : (perform aosp savedServer (.syncProfiles newPassword)).directBootAware = true := by
    decide +kernel
  refine ⟨⟨rfl, rfl, by decide⟩,
    by decide, _, ⟨savedProfile, none⟩, rfl, ?_, rfl, by decide +kernel⟩
  unfold currentProfile
  rw [if_pos haware, hdevice]
  rfl

/-- Two servers, the first of them selected. -/
def twoSaved : Storage where
  table :=
    ⟨[{ id := 1, host := "h".toList }, { id := 2, host := "i".toList }], 2, by decide, by decide⟩
  openable := true
  profileId := 1
  directBootAware := true
  deviceProfile := some ⟨{ id := 1, host := "h".toList }, none⟩

theorem snapshot_fresh_after_switch : ∃ t current,
    run (step aosp) twoSaved [.switchProfile 2, .delProfile 1, .persistStats {} 2] = some t ∧
      currentProfile t = .ok current ∧
      current.map expandedWithoutTraffic = (selected t).map expandedWithoutTraffic := by
  have hs : Unlocked twoSaved := ⟨rfl, rfl, by decide⟩
  have hcopy : twoSaved.deviceProfile = selected twoSaved := by decide
  have hother : 1 ≠ (perform aosp twoSaved (.switchProfile 2)).profileId := by decide +kernel
  have hkeeps : Meets (step aosp) (Keeps aosp) twoSaved
      [.switchProfile 2, .delProfile 1, .persistStats {} 2] :=
    ⟨fun _ _ _ => trivial, fun _ _ _ => hother, fun _ _ _ => trivial, trivial⟩
  obtain ⟨current, hcurrent, hagrees⟩ := snapshot_fresh aosp hs hcopy hkeeps rfl
  exact ⟨_, current, rfl, hcurrent, hagrees⟩

end Core

end CypherConnect
