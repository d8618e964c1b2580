/-
  The profile table (`Profile.Dao`) and `ProfileManager` over it, with the parts of `Core`,
  `DataStore` and `DirectBoot` that its operations touch.

  `ProfileTable` carries what SQLite guarantees of `id INTEGER PRIMARY KEY AUTOINCREMENT`: ids are
  distinct, and none is above the largest one ever handed out. A DAO call is one SQL statement, so
  one atomic step. `Storage` is the table with the settings that live beside it.

  Each operation has a specification lemma (`delProfile_eq`, `insertProfile_eq`,
  `updateProfile_eq`); the proofs about synchronisation use these and do not unfold the operations.
-/
import CypherConnect.Lib.Keyed
import CypherConnect.Lib.Long
import CypherConnect.Database.Profile

namespace CypherConnect

/-- Exceptions of the operations below. -/
inductive Failure where
  /-- `check(…)`: an `IllegalStateException`. -/
  | illegalState
  /-- `IOException`. -/
  | io
  /-- `SQLiteCantOpenDatabaseException`. -/
  | cantOpenDatabase
  /-- SQLite has no id left for a new row. -/
  | databaseFull
  /-- A row with that primary key exists. -/
  | constraint
  /-- `!!` on `null`. -/
  | nullPointer
  /-- `single { … }` found none, or several. -/
  | notSingle
  deriving DecidableEq, Repr

/-! ## The table -/

/-- The table `Profile` and its entry in `sqlite_sequence`. -/
structure ProfileTable where
  rows : List Profile
  seq : Int
  ids_nodup : (rows.map Profile.id).Nodup
  ids_le : ∀ p ∈ rows, p.id ≤ seq

namespace ProfileTable

def empty : ProfileTable := ⟨[], 0, List.nodup_nil, fun _ h => absurd h List.not_mem_nil⟩

/-- What is stored of a profile: its columns. -/
def stored (p : Profile) : Profile := { p with dirty := false }

@[simp] theorem stored_id (p : Profile) : (stored p).id = p.id := rfl

/-- `SELECT * FROM Profile WHERE id = :id`. -/
def get (t : ProfileTable) (id : Int) : Option Profile := t.rows.find? (·.id == id)

/-- `SELECT * FROM Profile`. -/
def listAll (t : ProfileTable) : List Profile := t.rows

/-- `SELECT MAX(userOrder) + 1 FROM Profile`. -/
def nextOrder (t : ProfileTable) : Option Int := (t.rows.map Profile.userOrder).max?.map (· + 1)

theorem seq_succ_fresh (t : ProfileTable) : t.seq + 1 ∉ t.rows.map Profile.id := by
  intro h
  obtain ⟨p, hp, hid⟩ := List.mem_map.mp h
  have := t.ids_le p hp
  omega

/-- The table with one more row, under an id no row has. -/
def append (t : ProfileTable) (p : Profile) (h : p.id ∉ t.rows.map Profile.id) : ProfileTable where
  rows := t.rows ++ [stored p]
  seq := max t.seq p.id
  ids_nodup := by
    rw [List.map_append, List.nodup_append]
    refine ⟨t.ids_nodup, List.nodup_singleton _, ?_⟩
    intro i hi j hj hij
    have hj' : j = p.id := by simpa [stored] using hj
    exact h (hj' ▸ hij ▸ hi)
  ids_le := by
    intro q hq
    rcases List.mem_append.mp hq with hq | hq
    · have := t.ids_le q hq
      omega
    · rw [List.mem_singleton.mp hq]
      exact Int.le_max_right t.seq p.id

/-- `@Insert`: a profile with id 0 gets the next id of the sequence. -/
def create (t : ProfileTable) (value : Profile) : Except Failure (ProfileTable × Int) :=
  if value.id = 0 then
    if t.seq < maxLong then
      .ok (t.append { value with id := t.seq + 1 } t.seq_succ_fresh, t.seq + 1)
    else .error .databaseFull
  else if h : value.id ∉ t.rows.map Profile.id then .ok (t.append value h, value.id)
  else .error .constraint

/-- `@Update`: the row with that id gets the columns of `value`; the number of rows changed. -/
def update (t : ProfileTable) (value : Profile) : ProfileTable × Nat :=
  (⟨Keyed.replaceBy Profile.id (stored value) t.rows, t.seq,
    by rw [Keyed.map_key_replaceBy]; exact t.ids_nodup,
    by
      intro q hq
      have h : q.id ∈ (Keyed.replaceBy Profile.id (stored value) t.rows).map Profile.id :=
        List.mem_map_of_mem hq
      rw [Keyed.map_key_replaceBy] at h
      obtain ⟨p, hp, hpq⟩ := List.mem_map.mp h
      rw [← hpq]
      exact t.ids_le p hp⟩,
    t.rows.countP fun p => p.id == value.id)

/-- `DELETE FROM Profile WHERE id = :id`; the number of rows deleted. -/
def delete (t : ProfileTable) (id : Int) : ProfileTable × Nat :=
  (⟨t.rows.filter fun p => p.id != id, t.seq,
    List.Nodup.sublist (List.filter_sublist.map _) t.ids_nodup,
    fun p hp => t.ids_le p (List.mem_of_mem_filter hp)⟩,
    t.rows.countP fun p => p.id == id)

theorem countP_id_eq_one (t : ProfileTable) {id : Int} (h : id ∈ t.rows.map Profile.id) :
    t.rows.countP (fun p => p.id == id) = 1 := by
  have h1 := List.count_eq_one_of_mem t.ids_nodup h
  rw [List.count, List.countP_map] at h1
  exact h1

/-- A row is found under its id. -/
theorem get_of_mem (t : ProfileTable) {p : Profile} (hp : p ∈ t.rows) : t.get p.id = some p := by
  unfold get
  exact Keyed.find?_of_mem t.ids_nodup hp

/-- After an update the new columns are found. -/
theorem get_update (t : ProfileTable) {value : Profile} (h : value.id ∈ t.rows.map Profile.id) :
    (t.update value).1.get value.id = some (stored value) := by
  have hmem : stored value ∈ (t.update value).1.rows := by
    obtain ⟨p, hp, hid⟩ := List.mem_map.mp h
    exact List.mem_map.mpr ⟨p, hp, if_pos hid⟩
  exact (t.update value).1.get_of_mem hmem

theorem get_some {t : ProfileTable} {id : Int} {p : Profile} (h : t.get id = some p) :
    p ∈ t.rows ∧ p.id = id :=
  Keyed.find?_some h

theorem get_eq_some_iff {t : ProfileTable} {id : Int} {p : Profile} :
    t.get id = some p ↔ p ∈ t.rows ∧ p.id = id :=
  Keyed.find?_eq_some_iff t.ids_nodup

theorem get_eq_none_iff {t : ProfileTable} {id : Int} :
    t.get id = none ↔ ∀ p ∈ t.rows, p.id ≠ id := by
  unfold get
  rw [List.find?_eq_none]
  simp only [beq_iff_eq, ne_eq]

/-- A lookup depends on the rows with that id only. -/
theorem get_congr {t t' : ProfileTable} {id : Int}
    (h : ∀ p, p.id = id → (p ∈ t'.rows ↔ p ∈ t.rows)) :
    t'.get id = t.get id := by
  refine Option.ext fun p => ?_
  rw [get_eq_some_iff, get_eq_some_iff]
  constructor
  · rintro ⟨hp, hid⟩
    exact ⟨(h p hid).mp hp, hid⟩
  · rintro ⟨hp, hid⟩
    exact ⟨(h p hid).mpr hp, hid⟩

theorem get_delete_of_ne {t : ProfileTable} {id other : Int} (hne : id ≠ other) :
    (t.delete other).1.get id = t.get id := by
  refine get_congr fun p hid => ?_
  have hkept : (p.id != other) = true := bne_iff_ne.mpr (hid ▸ hne)
  show p ∈ t.rows.filter _ ↔ _
  rw [List.mem_filter]
  exact and_iff_left hkept

/-- A new row is found under no id that was in use. -/
theorem get_append {t t' : ProfileTable} {new : List Profile} {id : Int}
    (h : t'.rows = t.rows ++ new) (hid : ∀ q ∈ new, q.id ≠ id) : t'.get id = t.get id := by
  refine get_congr fun p hp => ?_
  rw [h, List.mem_append]
  exact or_iff_left fun hm => hid p hm hp

theorem get_update_of_ne {t : ProfileTable} {value : Profile} {id : Int} (hne : id ≠ value.id) :
    (t.update value).1.get id = t.get id := by
  refine get_congr fun p hp => ?_
  have hother : p.id ≠ (stored value).id := hp ▸ hne
  show p ∈ Keyed.replaceBy Profile.id (stored value) t.rows ↔ _
  constructor
  · intro hm
    obtain ⟨q, hq, heq⟩ := List.mem_map.mp hm
    split at heq
    · exact absurd (congrArg Profile.id heq).symm hother
    · exact heq ▸ hq
  · intro hm
    exact List.mem_map.mpr ⟨p, hm, if_neg hother⟩

end ProfileTable

/-! ## Storage -/

/-- `ProfileManager.ExpandedProfile`. -/
structure ExpandedProfile where
  main : Profile
  udpFallback : Option Profile
  deriving DecidableEq, Repr

namespace ExpandedProfile

def toList (e : ExpandedProfile) : List Profile := e.main :: e.udpFallback.toList

end ExpandedProfile

/-- The profile table and what the operations read and write beside it. -/
structure Storage where
  table : ProfileTable
  /-- The database can be opened (it cannot before the first unlock). -/
  openable : Bool
  /-- `DataStore.profileId`. -/
  profileId : Int
  /-- `DataStore.directBootAware`. -/
  directBootAware : Bool
  /-- The file `directBootProfile`. -/
  deviceProfile : Option ExpandedProfile

namespace Storage

def empty : Storage := ⟨ProfileTable.empty, true, 0, false, none⟩

/-- `DirectBoot.clean`. -/
def clean (s : Storage) : Storage := { s with deviceProfile := none }

end Storage

namespace ProfileManager

/-- `ProfileManager.getProfile`. -/
def getProfile (s : Storage) (id : Int) : Except Failure (Option Profile) :=
  if s.openable then .ok (s.table.get id) else .error .io

/-- `ProfileManager.expand`. -/
def expand (s : Storage) (profile : Profile) : Except Failure ExpandedProfile :=
  match profile.udpFallback with
  | none => .ok ⟨profile, none⟩
  | some id => (getProfile s id).map (ExpandedProfile.mk profile)

/-- `ProfileManager.getAllProfiles`. -/
def getAllProfiles (s : Storage) : Except Failure (List Profile) :=
  if s.openable then .ok s.table.listAll else .error .io

/-- `Core.activeProfileIds`. -/
def activeProfileIds (s : Storage) : Except Failure (List Int) := do
  match ← getProfile s s.profileId with
  | none => pure []
  | some p => pure (p.id :: p.udpFallback.toList)

/-- `createProfile` once `order` has been read. -/
def insertProfile (s : Storage) (profile : Profile) (order : Int) :
    Except Failure (Storage × Profile) :=
  if s.openable then do
    let (table, id) ← s.table.create { profile with id := 0, userOrder := order }
    pure ({ s with table := table }, { profile with id := id, userOrder := order })
  else .error .cantOpenDatabase

/-- `ProfileManager.createProfile`. -/
def createProfile (s : Storage) (profile : Profile) : Except Failure (Storage × Profile) :=
  if s.openable then insertProfile s profile (s.table.nextOrder.getD 0)
  else .error .cantOpenDatabase

/-- `ProfileManager.updateProfile`. -/
def updateProfile (s : Storage) (profile : Profile) : Except Failure Storage :=
  if s.openable then
    if (s.table.update profile).2 = 1 then .ok { s with table := (s.table.update profile).1 }
    else .error .illegalState
  else .error .cantOpenDatabase

/-- `ProfileManager.delProfile`. The active ids are read after the row is gone. -/
def delProfile (s : Storage) (id : Int) : Except Failure Storage :=
  if s.openable then
    if (s.table.delete id).2 = 1 then do
      let s : Storage := { s with table := (s.table.delete id).1 }
      let active ← activeProfileIds s
      pure (if active.contains id && s.directBootAware then s.clean else s)
    else .error .illegalState
  else .error .cantOpenDatabase

/-! ## Specifications -/

/-- The parts of a storage that synchronisation leaves alone. -/
def SameSettings (s s' : Storage) : Prop :=
  s'.openable = s.openable ∧ s'.profileId = s.profileId ∧ s'.directBootAware = s.directBootAware

theorem SameSettings.refl (s : Storage) : SameSettings s s := ⟨rfl, rfl, rfl⟩

theorem SameSettings.trans {s t u : Storage} (h : SameSettings s t) (h' : SameSettings t u) :
    SameSettings s u :=
  ⟨h'.1.trans h.1, h'.2.1.trans h.2.1, h'.2.2.trans h.2.2⟩

theorem SameSettings.open {s s' : Storage} (h : SameSettings s s') (ho : s.openable = true) :
    s'.openable = true :=
  h.1.trans ho

/-- While the database is closed only a profile without fallback can be expanded. -/
theorem expand_closed {s : Storage} (ho : ¬ s.openable = true) {profile : Profile}
    {e : ExpandedProfile} (h : expand s profile = .ok e) : e = ⟨profile, none⟩ := by
  unfold expand getProfile at h
  split at h
  · cases h
    rfl
  · rw [if_neg ho] at h
    cases h

theorem delProfile_eq {s : Storage} (ho : s.openable = true) {id : Int}
    (hid : id ∈ s.table.rows.map Profile.id) :
    ∃ s', delProfile s id = .ok s' ∧ SameSettings s s' ∧ s'.table = (s.table.delete id).1 := by
  have hone : (s.table.delete id).2 = 1 := s.table.countP_id_eq_one hid
  have hact : ∃ l, activeProfileIds { s with table := (s.table.delete id).1 } = .ok l := by
    unfold activeProfileIds getProfile
    simp only [ho, if_true]
    cases (s.table.delete id).1.get s.profileId with
    | none => exact ⟨_, rfl⟩
    | some p => exact ⟨_, rfl⟩
  obtain ⟨l, hl⟩ := hact
  unfold delProfile
  rw [if_pos ho, if_pos hone]
  simp only [hl]
  refine ⟨_, rfl, ?_, ?_⟩
  · split <;> exact ⟨rfl, rfl, rfl⟩
  · split <;> rfl

theorem delProfile_missing {s : Storage} (ho : s.openable = true) {id : Int}
    (hid : id ∉ s.table.rows.map Profile.id) : delProfile s id = .error .illegalState := by
  have hzero : (s.table.delete id).2 = 0 := by
    refine List.countP_eq_zero.mpr fun p hp => ?_
    have : p.id ≠ id := fun h => hid (h ▸ List.mem_map_of_mem hp)
    simpa using this
  unfold delProfile
  rw [if_pos ho, if_neg (by omega)]

/-- The row `insertProfile` adds. -/
def inserted (t : ProfileTable) (profile : Profile) (order : Int) : Profile :=
  ProfileTable.stored { profile with id := t.seq + 1, userOrder := order }

theorem insertProfile_eq {s : Storage} (ho : s.openable = true) (profile : Profile) (order : Int) :
    (s.table.seq < maxLong ∧ ∃ s', insertProfile s profile order =
        .ok (s', { profile with id := s.table.seq + 1, userOrder := order }) ∧
      SameSettings s s' ∧ s'.table.rows = s.table.rows ++ [inserted s.table profile order] ∧
      s'.table.seq = s.table.seq + 1) ∨
    (¬ s.table.seq < maxLong ∧ insertProfile s profile order = .error .databaseFull) := by
  unfold insertProfile ProfileTable.create
  rw [if_pos ho]
  simp only [if_true]
  by_cases h : s.table.seq < maxLong
  · rw [if_pos h]
    refine Or.inl ⟨h, _, rfl, ⟨rfl, rfl, rfl⟩, rfl, ?_⟩
    exact Int.max_eq_right (Int.le_of_lt (Int.lt_succ _))
  · rw [if_neg h]
    exact Or.inr ⟨h, rfl⟩

theorem createProfile_eq_insertProfile {s : Storage} (ho : s.openable = true) (profile : Profile) :
    createProfile s profile = insertProfile s profile (s.table.nextOrder.getD 0) := by
  unfold createProfile
  rw [if_pos ho]

theorem updateProfile_eq {s : Storage} (ho : s.openable = true) {profile : Profile}
    (hid : profile.id ∈ s.table.rows.map Profile.id) :
    ∃ s', updateProfile s profile = .ok s' ∧ SameSettings s s' ∧
      s'.table.rows = Keyed.replaceBy Profile.id (ProfileTable.stored profile) s.table.rows ∧
      s'.table.seq = s.table.seq := by
  have hone : (s.table.update profile).2 = 1 := s.table.countP_id_eq_one hid
  unfold updateProfile
  rw [if_pos ho, if_pos hone]
  exact ⟨_, rfl, ⟨rfl, rfl, rfl⟩, rfl, rfl⟩

/-! What an operation that succeeds has done, whatever the storage was. -/

theorem delProfile_ok {s s' : Storage} {id : Int} (h : delProfile s id = .ok s') :
    s'.table = (s.table.delete id).1 := by
  by_cases ho : s.openable = true
  · by_cases hid : id ∈ s.table.rows.map Profile.id
    · obtain ⟨t, ht, _, htable⟩ := delProfile_eq ho hid
      rw [ht] at h
      cases h
      exact htable
    · rw [delProfile_missing ho hid] at h
      cases h
  · unfold delProfile at h
    rw [if_neg ho] at h
    cases h

theorem insertProfile_ok {s : Storage} {profile : Profile} {order : Int} {r : Storage × Profile}
    (h : insertProfile s profile order = .ok r) :
    r.1.table.rows = s.table.rows ++ [inserted s.table profile order] ∧
      r.1.table.seq = s.table.seq + 1 := by
  by_cases ho : s.openable = true
  · rcases insertProfile_eq ho profile order with ⟨_, t, ht, _, hrows, hseq⟩ | ⟨_, ht⟩
    · rw [ht] at h
      cases h
      exact ⟨hrows, hseq⟩
    · rw [ht] at h
      cases h
  · unfold insertProfile at h
    rw [if_neg ho] at h
    cases h

theorem updateProfile_ok {s s' : Storage} {profile : Profile}
    (h : updateProfile s profile = .ok s') :
    s'.table = (s.table.update profile).1 := by
  unfold updateProfile at h
  split at h
  · split at h
    · cases h
      rfl
    · cases h
  · cases h

end ProfileManager

end CypherConnect
