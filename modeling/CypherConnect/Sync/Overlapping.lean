/-
  Two synchronisations with the same feed at the same time. `ProfileSyncService.onStartCommand`
  starts a thread for every call, so their database operations interleave.

  A thread performs one database operation at a time (`SyncThread.step`): it lists the table, and
  from that snapshot alone follows what it deletes, creates and updates. Alone it does what
  `syncWith` does (`syncThread_alone`).

  The argument counts, for a key of the feed, the rows that have it and the creations of it still
  to come (`expected`). Only a listing changes that number: it adds one if the key has no row yet.
  So the second listing makes a second row for exactly the creations the first thread still has
  before it (`overlapping_syncs_iff`).
-/
import CypherConnect.Lib.Machine
import CypherConnect.Sync.SyncProfiles

namespace CypherConnect.Sync

open Keyed Machine ProfileManager ProfileTable

/-- Where a thread in `syncProfiles` stands. -/
inductive SyncThread where
  /-- The feed is fetched; `getAllProfiles` comes next. -/
  | start
  /-- What the three loops still have to do. `order` is set between `nextOrder` and `create`. -/
  | running (deletes creates : List Profile) (order : Option Int) (updates : List Profile)
  /-- An exception has left `syncProfiles`. -/
  | failed (f : Failure)
  deriving DecidableEq, Repr

namespace SyncThread

/-- `syncProfiles` has returned. -/
def finished : SyncThread := .running [] [] none []

/-- The profiles a thread has decided to create and has not created yet. -/
def creates : SyncThread → List Profile
  | .running _ cs _ _ => cs
  | _ => []

@[simp] theorem creates_running (ds cs : List Profile) (order : Option Int) (us : List Profile) :
    (SyncThread.running ds cs order us).creates = cs := rfl

/-- Go on with the result of an operation, or leave with its exception. -/
def resume (s : Storage) (next : SyncThread) : Except Failure Storage → Storage × SyncThread
  | .ok s' => (s', next)
  | .error f => (s, .failed f)

/-- One database operation of a thread. What `delProfile` does after its `DELETE` does not touch the
table and is part of that step. -/
def step (remote : List Profile) (s : Storage) : SyncThread → Option (Storage × SyncThread)
  | .start =>
      match getAllProfiles s with
      | .ok rows => some (s, .running (toDelete rows remote) (toCreate rows remote) none
          (Sync.updates (associateBy key rows) remote))
      | .error f => some (s, .failed f)
  | .running (p :: ds) cs _ us => some (resume s (.running ds cs none us) (delProfile s p.id))
  | .running [] (c :: cs) none us =>
      if s.openable then some (s, .running [] (c :: cs) (some (s.table.nextOrder.getD 0)) us)
      else some (s, .failed .cantOpenDatabase)
  | .running [] (c :: cs) (some order) us =>
      some (resume s (.running [] cs none us) ((insertProfile s c order).map Prod.fst))
  | .running [] [] _ (u :: us) => some (resume s (.running [] [] none us) (updateProfile s u))
  | .running [] [] _ [] => none
  | .failed _ => none

end SyncThread

/-! ## One thread alone -/

section Alone

variable (remote : List Profile)

/-- A thread with the storage to itself. -/
def aloneStep (w : Storage × SyncThread) (_ : Unit) : Option (Storage × SyncThread) :=
  w.2.step remote w.1

/-- The outcome of a thread, for the result of the function. -/
def outcome (s : Storage) : Except Failure Storage → Storage × SyncThread
  | .ok s' => (s', .finished)
  | .error f => (s, .failed f)

/-- The thread at `w` ends by itself, with the result `r`. -/
def EndsWith (w : Storage × SyncThread) (r : Except Failure Storage) : Prop :=
  ∃ n s, run (aloneStep remote) w (List.replicate n ()) = some (outcome s r)

variable {remote}

theorem EndsWith.of_step {w w' : Storage × SyncThread} {r : Except Failure Storage}
    (h : w.2.step remote w.1 = some w') (hw : EndsWith remote w' r) : EndsWith remote w r := by
  obtain ⟨n, s, hn⟩ := hw
  refine ⟨n + 1, s, ?_⟩
  rw [List.replicate_succ, run_cons_of_step (show aloneStep remote w () = some w' from h)]
  exact hn

theorem EndsWith.failed (s : Storage) (f : Failure) :
    EndsWith remote (s, .failed f) (.error f) := ⟨0, s, rfl⟩

theorem endsWith_updates (us : List Profile) (s : Storage) :
    EndsWith remote (s, .running [] [] none us) (us.foldlM updateProfile s) := by
  induction us generalizing s with
  | nil => exact ⟨0, s, rfl⟩
  | cons u us ih =>
      refine EndsWith.of_step rfl ?_
      rw [List.foldlM_cons]
      cases updateProfile s u with
      | error f => exact EndsWith.failed s f
      | ok s' => exact ih s'

theorem endsWith_creates (cs us : List Profile) (s : Storage) :
    EndsWith remote (s, .running [] cs none us)
      (createLoop s cs >>= fun s => us.foldlM updateProfile s) := by
  induction cs generalizing s with
  | nil => exact endsWith_updates us s
  | cons c cs ih =>
      have hloop : createLoop s (c :: cs) =
          ((createProfile s c).map Prod.fst >>= fun s => createLoop s cs) := by
        unfold createLoop
        rw [List.foldlM_cons]
      rw [hloop]
      by_cases ho : s.openable = true
      · refine EndsWith.of_step (if_pos ho) (EndsWith.of_step rfl ?_)
        rw [createProfile_eq_insertProfile ho]
        cases insertProfile s c (s.table.nextOrder.getD 0) with
        | error f => exact EndsWith.failed s f
        | ok r => exact ih r.1
      · have hfail : createProfile s c = .error .cantOpenDatabase := if_neg ho
        rw [hfail]
        exact EndsWith.of_step (if_neg ho) (EndsWith.failed s _)

theorem endsWith_deletes (ds cs us : List Profile) (s : Storage) :
    EndsWith remote (s, .running ds cs none us)
      (deleteLoop s ds >>= fun s => createLoop s cs >>= fun s => us.foldlM updateProfile s) := by
  induction ds generalizing s with
  | nil => exact endsWith_creates cs us s
  | cons p ds ih =>
      have hloop : deleteLoop s (p :: ds) =
          (delProfile s p.id >>= fun s => deleteLoop s ds) := by
        unfold deleteLoop
        rw [List.foldlM_cons]
      refine EndsWith.of_step rfl ?_
      rw [hloop]
      cases delProfile s p.id with
      | error f => exact EndsWith.failed s f
      | ok s' => exact ih s'

/-- A thread that no other disturbs computes `syncWith`. -/
theorem syncThread_alone (remote : List Profile) (s : Storage) :
    EndsWith remote (s, .start) (syncWith remote s) := by
  unfold syncWith
  cases hall : getAllProfiles s with
  | error f =>
      have hstep : SyncThread.start.step remote s = some (s, .failed f) := by
        unfold SyncThread.step
        rw [hall]
      exact EndsWith.of_step hstep (EndsWith.failed s f)
  | ok rows =>
      have hstep : SyncThread.start.step remote s = some (s, .running (toDelete rows remote)
          (toCreate rows remote) none (updates (associateBy key rows) remote)) := by
        unfold SyncThread.step
        rw [hall]
      refine EndsWith.of_step hstep ?_
      simp only [updateLoop_eq_updates]
      exact endsWith_deletes _ _ _ s

end Alone

/-! ## What a row and a profile held by a thread have to do with each other -/

/-- If the row that `x` was read from or is written to is still there, it has the key of `x`. -/
def Refers (t : ProfileTable) (x : Profile) : Prop :=
  x.id ≤ t.seq ∧ ∀ q ∈ t.rows, q.id = x.id → key q = key x

/-- Rows of `t'` are rows of `t` under the same id and key, or have an id that `t` never used. -/
def Evolves (t t' : ProfileTable) : Prop :=
  t.seq ≤ t'.seq ∧
    ∀ q' ∈ t'.rows, t.seq < q'.id ∨ ∃ q ∈ t.rows, q.id = q'.id ∧ key q = key q'

theorem Evolves.refl (t : ProfileTable) : Evolves t t :=
  ⟨Int.le_refl _, fun q hq => Or.inr ⟨q, hq, rfl, rfl⟩⟩

theorem Refers.evolves {t t' : ProfileTable} {x : Profile} (h : Refers t x) (he : Evolves t t') :
    Refers t' x := by
  refine ⟨Int.le_trans h.1 he.1, fun q' hq' hid => ?_⟩
  rcases he.2 q' hq' with hfresh | ⟨q, hq, hqid, hqk⟩
  · have := h.1
    omega
  · rw [← hqk]
    exact h.2 q hq (hqid.trans hid)

theorem refers_of_mem {t : ProfileTable} {l x : Profile} (hl : l ∈ t.rows) (hid : x.id = l.id)
    (hk : key x = key l) : Refers t x := by
  refine ⟨hid ▸ t.ids_le l hl, fun q hq hqid => ?_⟩
  rw [List.inj_on_of_nodup_map t.ids_nodup hq hl (hqid.trans hid), hk]

theorem map_key_replaceBy_of_refers {t : ProfileTable} {u : Profile} (h : Refers t u) :
    (replaceBy Profile.id (stored u) t.rows).map key = t.rows.map key := by
  unfold replaceBy
  rw [List.map_map]
  refine List.map_congr_left fun q hq => ?_
  rw [Function.comp_apply]
  split
  · next hid => exact (h.2 q hq hid).symm
  · rfl

theorem evolves_replaceBy {t t' : ProfileTable} {u : Profile} (h : Refers t u)
    (hrows : t'.rows = replaceBy Profile.id (stored u) t.rows) (hseq : t'.seq = t.seq) :
    Evolves t t' := by
  refine ⟨Int.le_of_eq hseq.symm, fun q' hq' => Or.inr ?_⟩
  rw [hrows] at hq'
  obtain ⟨q, hq, rfl⟩ := List.mem_map.mp hq'
  refine ⟨q, hq, ?_⟩
  split
  · next hid => exact ⟨hid, h.2 q hq hid⟩
  · exact ⟨rfl, rfl⟩

theorem evolves_delete (t : ProfileTable) (id : Int) : Evolves t (t.delete id).1 :=
  ⟨Int.le_refl _, fun q hq => Or.inr ⟨q, List.mem_of_mem_filter hq, rfl, rfl⟩⟩

/-- Deleting the row of a key leaves the number of rows of any other key. -/
theorem count_delete_of_refers {t : ProfileTable} {p : Profile} (h : Refers t p) {k : Text × Int}
    (hk : key p ≠ k) : ((t.delete p.id).1.rows.map key).count k = (t.rows.map key).count k := by
  change ((t.rows.filter fun q => q.id != p.id).map key).count k = _
  unfold List.count
  rw [List.countP_map, List.countP_map, List.countP_filter]
  refine List.countP_congr fun q hq => ?_
  rw [Bool.and_eq_true, bne_iff_ne, Function.comp_apply, beq_iff_eq]
  refine ⟨fun hq' => hq'.1, fun hqk => ⟨hqk, fun hid => hk ?_⟩⟩
  rw [← h.2 q hq hid, hqk]

theorem evolves_insert {t t' : ProfileTable} {c : Profile} {order : Int}
    (hrows : t'.rows = t.rows ++ [inserted t c order]) (hseq : t'.seq = t.seq + 1) :
    Evolves t t' := by
  refine ⟨by omega, fun q hq => ?_⟩
  rw [hrows] at hq
  rcases List.mem_append.mp hq with hq | hq
  · exact Or.inr ⟨q, hq, rfl, rfl⟩
  · rw [List.mem_singleton.mp hq]
    exact Or.inl (Int.lt_succ _)

/-! ## One operation of a thread -/

section Threads

variable {remote : List Profile} {s s' : Storage} {th th' : SyncThread}

/-- What the lists of a thread have to do with the feed and the table. -/
def ThreadInv (remote : List Profile) (t : ProfileTable) : SyncThread → Prop
  | .running ds cs _ us =>
      (∀ p ∈ ds, key p ∉ remote.map key ∧ Refers t p) ∧ (∀ c ∈ cs, key c ∈ remote.map key) ∧
        ∀ u ∈ us, Refers t u
  | _ => True

theorem ThreadInv.evolves {t t' : ProfileTable} (h : ThreadInv remote t th) (he : Evolves t t') :
    ThreadInv remote t' th := by
  cases th with
  | start => trivial
  | failed f => trivial
  | running ds cs order us =>
      obtain ⟨hds, hcs, hus⟩ := h
      exact ⟨fun p hp => ⟨(hds p hp).1, (hds p hp).2.evolves he⟩, hcs,
        fun u hu => (hus u hu).evolves he⟩

theorem threadInv_listed (t : ProfileTable) :
    ThreadInv remote t (.running (toDelete t.rows remote) (toCreate t.rows remote) none
      (updates (associateBy key t.rows) remote)) := by
  refine ⟨fun p hp => ?_, fun c hc => List.mem_map_of_mem (mem_toCreate.mp hc).1, fun u hu => ?_⟩
  · obtain ⟨hm, hk⟩ := mem_toDelete.mp hp
    exact ⟨hk, refers_of_mem hm rfl rfl⟩
  · obtain ⟨l, hl, hid, hk, _⟩ := mem_updates hu
    exact refers_of_mem hl hid hk

/-- Rows of a key and the thread's creations of it. -/
def held (k : Text × Int) (t : ProfileTable) (th : SyncThread) : Nat :=
  (t.rows.map key).count k + (th.creates.map key).count k

/-- The effect of one operation after the listing. An exception ends the thread; otherwise rows
evolve and a key of the feed has as many rows, made or to be made, as before. -/
structure Keeps (remote : List Profile) (s s' : Storage) (th th' : SyncThread) : Prop where
  evolves : Evolves s.table s'.table
  inv : ThreadInv remote s'.table th'
  listed : th' ≠ .start
  held_eq : (∃ f, th' = .failed f) ∨ ∀ k ∈ remote.map key, held k s'.table th' = held k s.table th

theorem Keeps.failed (remote : List Profile) (s : Storage) (th : SyncThread) (f : Failure) :
    Keeps remote s s th (.failed f) :=
  ⟨Evolves.refl _, trivial, SyncThread.noConfusion, Or.inl ⟨f, rfl⟩⟩

/-- An operation that can throw: only its result needs an argument. -/
theorem Keeps.of_resume {next : SyncThread} {r : Except Failure Storage}
    (hstep : SyncThread.resume s next r = (s', th'))
    (hok : r = .ok s' → Keeps remote s s' th next) : Keeps remote s s' th th' := by
  cases r with
  | error f =>
      cases hstep
      exact Keeps.failed _ _ _ f
  | ok t =>
      cases hstep
      exact hok rfl

theorem keeps_delete {p : Profile} {ds cs us : List Profile} {order : Option Int}
    (hinv : ThreadInv remote s.table (.running (p :: ds) cs order us))
    (hstep : SyncThread.resume s (.running ds cs none us) (delProfile s p.id) = (s', th')) :
    Keeps remote s s' (.running (p :: ds) cs order us) th' := by
  refine Keeps.of_resume hstep fun hop => ?_
  have htable := delProfile_ok hop
  obtain ⟨hds, hcs, hus⟩ := hinv
  obtain ⟨hpk, hpr⟩ := hds p List.mem_cons_self
  have hev : Evolves s.table s'.table := htable ▸ evolves_delete s.table p.id
  refine ⟨hev, ThreadInv.evolves ⟨fun q hq => hds q (List.mem_cons_of_mem _ hq), hcs, hus⟩ hev,
    SyncThread.noConfusion, Or.inr fun k hk => ?_⟩
  have hne : key p ≠ k := fun h => hpk (h ▸ hk)
  unfold held
  rw [htable, count_delete_of_refers hpr hne]
  rfl

theorem keeps_create {c : Profile} {cs us : List Profile} {order : Int}
    (hinv : ThreadInv remote s.table (.running [] (c :: cs) (some order) us))
    (hstep : SyncThread.resume s (.running [] cs none us) ((insertProfile s c order).map Prod.fst) =
      (s', th')) :
    Keeps remote s s' (.running [] (c :: cs) (some order) us) th' := by
  refine Keeps.of_resume hstep fun hop => ?_
  have hinsert : ∃ r, insertProfile s c order = .ok r ∧ r.1 = s' := by
    cases hr : insertProfile s c order with
    | error f =>
        rw [hr] at hop
        cases hop
    | ok r =>
        rw [hr] at hop
        cases hop
        exact ⟨r, rfl, rfl⟩
  obtain ⟨r, hr, rfl⟩ := hinsert
  obtain ⟨hrows, hseq⟩ := insertProfile_ok hr
  obtain ⟨hds, hcs, hus⟩ := hinv
  have hev := evolves_insert hrows hseq
  refine ⟨hev, ThreadInv.evolves ⟨hds, fun q hq => hcs q (List.mem_cons_of_mem _ hq), hus⟩ hev,
    SyncThread.noConfusion, Or.inr fun k _ => ?_⟩
  have hkey : key (inserted s.table c order) = key c := rfl
  have hone : ((c :: cs).map key).count k = [key c].count k + (cs.map key).count k := by
    rw [List.map_cons, ← List.count_append, List.singleton_append]
  unfold held
  rw [SyncThread.creates_running, SyncThread.creates_running, hrows, List.map_append,
    List.count_append, List.map_singleton, hkey, hone, Nat.add_assoc]

theorem keeps_update {u : Profile} {us : List Profile} {order : Option Int}
    (hinv : ThreadInv remote s.table (.running [] [] order (u :: us)))
    (hstep : SyncThread.resume s (.running [] [] none us) (updateProfile s u) = (s', th')) :
    Keeps remote s s' (.running [] [] order (u :: us)) th' := by
  refine Keeps.of_resume hstep fun hop => ?_
  have htable := updateProfile_ok hop
  obtain ⟨hds, hcs, hus⟩ := hinv
  have href := hus u List.mem_cons_self
  have hrows : s'.table.rows = replaceBy Profile.id (stored u) s.table.rows := by
    rw [htable]
    rfl
  have hev : Evolves s.table s'.table := evolves_replaceBy href hrows (by rw [htable]; rfl)
  refine ⟨hev, ThreadInv.evolves ⟨hds, hcs, fun v hv => hus v (List.mem_cons_of_mem _ hv)⟩ hev,
    SyncThread.noConfusion, Or.inr fun k _ => ?_⟩
  unfold held
  rw [hrows, map_key_replaceBy_of_refers href]
  rfl

/-- What a thread that has listed the table does next. -/
theorem keeps_of_step (hinv : ThreadInv remote s.table th) (hth : th ≠ .start)
    (hstep : th.step remote s = some (s', th')) : Keeps remote s s' th th' := by
  match th, hinv, hth, hstep with
  | .start, _, hth, _ => exact absurd rfl hth
  | .failed f, _, _, hstep => cases hstep
  | .running (p :: ds) cs order us, hinv, _, hstep =>
      exact keeps_delete hinv (Option.some.inj hstep)
  | .running [] (c :: cs) none us, hinv, _, hstep =>
      change (if s.openable then _ else _) = some (s', th') at hstep
      split at hstep
      · cases hstep
        exact ⟨Evolves.refl _, hinv, SyncThread.noConfusion, Or.inr fun k _ => rfl⟩
      · cases hstep
        exact Keeps.failed _ _ _ _
  | .running [] (c :: cs) (some order) us, hinv, _, hstep =>
      exact keeps_create hinv (Option.some.inj hstep)
  | .running [] [] order (u :: us), hinv, _, hstep =>
      exact keeps_update hinv (Option.some.inj hstep)
  | .running [] [] order [], _, _, hstep => cases hstep

/-- The listing changes nothing and fixes what the thread will do. -/
theorem listing_cases (hstep : SyncThread.start.step remote s = some (s', th')) :
    s' = s ∧ ((∃ f, th' = .failed f) ∨
      th' = .running (toDelete s.table.rows remote) (toCreate s.table.rows remote) none
        (updates (associateBy key s.table.rows) remote)) := by
  unfold SyncThread.step getAllProfiles at hstep
  by_cases ho : s.openable = true
  · rw [if_pos ho] at hstep
    cases hstep
    exact ⟨rfl, Or.inr rfl⟩
  · rw [if_neg ho] at hstep
    cases hstep
    exact ⟨rfl, Or.inl ⟨_, rfl⟩⟩

end Threads

/-! ## Two threads -/

/-- The storage and the two threads in `syncProfiles`. -/
structure Overlap where
  storage : Storage
  thread : Bool → SyncThread

namespace Overlap

/-- Both threads have the feed and neither has listed the table. -/
def init (s : Storage) : Overlap := ⟨s, fun _ => .start⟩

/-- The next operation of thread `i`. -/
def step (remote : List Profile) (w : Overlap) (i : Bool) : Option Overlap :=
  ((w.thread i).step remote w.storage).map fun r => ⟨r.1, Function.update w.thread i r.2⟩

/-- If thread `i` lists the table now, the other has not listed it or has nothing left to create. -/
def ListsApart (w : Overlap) (i : Bool) : Prop :=
  w.thread i = .start → w.thread (!i) = .start ∨ (w.thread (!i)).creates = []

instance (w : Overlap) (i : Bool) : Decidable (w.ListsApart i) :=
  inferInstanceAs (Decidable (_ → _))

/-- Rows of a key, and the creations of it that are to come. -/
def expected (k : Text × Int) (w : Overlap) : Nat :=
  (w.storage.table.rows.map key).count k + ((w.thread false).creates.map key).count k +
    ((w.thread true).creates.map key).count k

/-- A thread has failed. -/
def Dead (w : Overlap) : Prop := ∃ i f, w.thread i = .failed f

variable {remote : List Profile} {w w' : Overlap} {i : Bool}

theorem expected_eq_held (k : Text × Int) (w : Overlap) (i : Bool) :
    w.expected k =
      held k w.storage.table (w.thread i) + ((w.thread (!i)).creates.map key).count k := by
  unfold expected held
  cases i
  · rfl
  · exact Nat.add_right_comm _ _ _

theorem step_cases (h : w.step remote i = some w') :
    ∃ th', (w.thread i).step remote w.storage = some (w'.storage, th') ∧ w'.thread i = th' ∧
      w'.thread (!i) = w.thread (!i) := by
  obtain ⟨r, hr, rfl⟩ := Option.map_eq_some_iff.mp h
  exact ⟨r.2, hr, Function.update_self .., Function.update_of_ne (by cases i <;> decide) ..⟩

theorem forall_thread {p : SyncThread → Prop} (hself : p (w.thread i)) (hother : p (w.thread (!i)))
    (j : Bool) : p (w.thread j) := by
  by_cases hij : j = i
  · rw [hij]
    exact hself
  · rw [Bool.eq_not_of_ne hij]
    exact hother

theorem dead_step (hd : w.Dead) (h : w.step remote i = some w') : w'.Dead := by
  obtain ⟨j, f, hj⟩ := hd
  obtain ⟨th', hth, _, hother⟩ := step_cases h
  by_cases hij : j = i
  · subst hij
    rw [hj] at hth
    cases hth
  · have hji : j = !i := Bool.eq_not_of_ne hij
    exact ⟨j, f, by rw [hji, hother, ← hji, hj]⟩

/-- Both threads keep their lists in order. -/
def Inv (remote : List Profile) (w : Overlap) : Prop :=
  ∀ i, ThreadInv remote w.storage.table (w.thread i)

theorem inv_step (hinv : w.Inv remote) (h : w.step remote i = some w') : w'.Inv remote := by
  obtain ⟨th', hth, hself, hother⟩ := step_cases h
  have hboth : Evolves w.storage.table w'.storage.table ∧
      ThreadInv remote w'.storage.table th' := by
    by_cases hs : w.thread i = .start
    · rw [hs] at hth
      obtain ⟨hst, ⟨f, rfl⟩ | rfl⟩ := listing_cases hth
      · exact ⟨hst ▸ Evolves.refl _, trivial⟩
      · rw [hst]
        exact ⟨Evolves.refl _, threadInv_listed _⟩
    · have hk := keeps_of_step (hinv i) hs hth
      exact ⟨hk.evolves, hk.inv⟩
  refine forall_thread (i := i) ?_ ?_
  · rw [hself]
    exact hboth.2
  · rw [hother]
    exact (hinv (!i)).evolves hboth.1

/-- Every key of the feed has at most one row and, once a thread has listed the table, will have
exactly one. -/
def Good (remote : List Profile) (w : Overlap) : Prop :=
  w.Dead ∨ ∀ k ∈ remote.map key,
    w.expected k ≤ 1 ∧ ((∃ i, w.thread i ≠ .start) → w.expected k = 1)

/-- Both threads have listed the table, and a key of the feed will have several rows. -/
def Bad (remote : List Profile) (w : Overlap) : Prop :=
  w.Dead ∨ ((∀ i, w.thread i ≠ .start) ∧ ∃ k ∈ remote.map key, 1 < w.expected k)

/-- After the listing an operation leaves what is expected of a key. -/
theorem expected_step (hinv : w.Inv remote) (hi : w.thread i ≠ .start)
    (h : w.step remote i = some w') :
    w'.thread i ≠ .start ∧
      (w'.Dead ∨ ∀ k ∈ remote.map key, w'.expected k = w.expected k) := by
  obtain ⟨th', hth, hself, hother⟩ := step_cases h
  have hk := keeps_of_step (hinv i) hi hth
  refine ⟨hself ▸ hk.listed, ?_⟩
  rcases hk.held_eq with ⟨f, hf⟩ | hheld
  · exact Or.inl ⟨i, f, hself.trans hf⟩
  · refine Or.inr fun k hmem => ?_
    rw [expected_eq_held k w' i, expected_eq_held k w i, hself, hother, hheld k hmem]

/-- The listing adds a row to come for every key of the feed that has none. -/
theorem expected_listing (hnd : (remote.map key).Nodup) (hi : w.thread i = .start)
    (h : w.step remote i = some w') :
    w'.Dead ∨ (w'.thread i ≠ .start ∧ ∀ k ∈ remote.map key, w'.expected k =
      w.expected k + if k ∈ w.storage.table.rows.map key then 0 else 1) := by
  obtain ⟨th', hth, hself, hother⟩ := step_cases h
  rw [hi] at hth
  obtain ⟨hst, ⟨f, hf⟩ | hrun⟩ := listing_cases hth
  · exact Or.inl ⟨i, f, hself.trans hf⟩
  · refine Or.inr ⟨by rw [hself, hrun]; exact SyncThread.noConfusion, fun k hk => ?_⟩
    have hone : (remote.map key).count k = 1 := List.count_eq_one_of_mem hnd hk
    have hnone : SyncThread.start.creates = [] := rfl
    rw [expected_eq_held k w' i, expected_eq_held k w i, hself, hother, hst, hrun, hi]
    unfold held
    rw [SyncThread.creates_running, count_toCreate, hone, hnone, List.map_nil, List.count_nil]
    omega

theorem good_step (hnd : (remote.map key).Nodup) (hinv : w.Inv remote) (hg : w.Good remote)
    (hc : w.ListsApart i) (h : w.step remote i = some w') : w'.Good remote := by
  rcases hg with hd | hg
  · exact Or.inl (dead_step hd h)
  by_cases hi : w.thread i = .start
  · rcases expected_listing hnd hi h with hd | ⟨hlisted, hexp⟩
    · exact Or.inl hd
    refine Or.inr fun k hk => ?_
    obtain ⟨hle, hone⟩ := hg k hk
    have hrows : (w.storage.table.rows.map key).count k = w.expected k := by
      have hnil : (w.thread (!i)).creates = [] := by
        rcases hc hi with hs | hn
        · rw [hs]; rfl
        · exact hn
      rw [expected_eq_held k w i, hi, hnil]
      rfl
    have hiff : k ∈ w.storage.table.rows.map key ↔ 0 < w.expected k := by
      rw [← hrows, List.count_pos_iff]
    have heq : w'.expected k = 1 := by
      rw [hexp k hk]
      split
      · next hm =>
          have := hiff.mp hm
          omega
      · next hm =>
          have : ¬ 0 < w.expected k := fun hp => hm (hiff.mpr hp)
          omega
    exact ⟨by omega, fun _ => heq⟩
  · obtain ⟨_, hd | hexp⟩ := expected_step hinv hi h
    · exact Or.inl hd
    · refine Or.inr fun k hk => ?_
      have hone := (hg k hk).2 ⟨i, hi⟩
      rw [hexp k hk]
      exact ⟨by omega, fun _ => hone⟩

/-- Listing the table before the other thread has created a key makes a second row of it due. -/
theorem bad_of_overlap (hnd : (remote.map key).Nodup) (hinv : w.Inv remote) (hg : w.Good remote)
    (hc : ¬ w.ListsApart i) (h : w.step remote i = some w') : w'.Bad remote := by
  rcases hg with hd | hg
  · exact Or.inl (dead_step hd h)
  unfold ListsApart at hc
  push Not at hc
  obtain ⟨hi, hlisted, hcs⟩ := hc
  rcases expected_listing hnd hi h with hd | ⟨hself, hexp⟩
  · exact Or.inl hd
  obtain ⟨_, _, _, hother⟩ := step_cases h
  refine Or.inr ⟨forall_thread (p := (· ≠ .start)) hself (hother ▸ hlisted), ?_⟩
  · obtain ⟨c, hmem⟩ := List.exists_mem_of_ne_nil _ hcs
    have hk : key c ∈ remote.map key := by
      cases hth : w.thread (!i) with
      | start => exact absurd hth hlisted
      | failed f => rw [hth] at hmem; cases hmem
      | running ds cs order us =>
          have hinv' := hinv (!i)
          rw [hth] at hinv' hmem
          exact hinv'.2.1 c hmem
    refine ⟨key c, hk, ?_⟩
    have hpos : 0 < ((w.thread (!i)).creates.map key).count (key c) :=
      List.count_pos_iff.mpr (List.mem_map_of_mem hmem)
    have hone := (hg (key c) hk).2 ⟨!i, hlisted⟩
    have hsum := expected_eq_held (key c) w i
    unfold held at hsum
    have hzero : key c ∉ w.storage.table.rows.map key := List.count_eq_zero.mp (by omega)
    rw [hexp (key c) hk, if_neg hzero]
    omega

theorem bad_step (hinv : w.Inv remote) (hb : w.Bad remote) (h : w.step remote i = some w') :
    w'.Bad remote := by
  rcases hb with hd | ⟨hlisted, k, hk, hgt⟩
  · exact Or.inl (dead_step hd h)
  obtain ⟨_, _, _, hother⟩ := step_cases h
  obtain ⟨hself, hd | hexp⟩ := expected_step hinv (hlisted i) h
  · exact Or.inl hd
  refine Or.inr ⟨forall_thread (p := (· ≠ .start)) hself (hother ▸ hlisted _), k, hk, ?_⟩
  rw [hexp k hk]
  exact hgt

/-! ## Whole schedules -/

theorem good_init {s : Storage} (hs : (s.table.rows.map key).Nodup) : (init s).Good remote := by
  refine Or.inr fun k _ => ⟨?_, fun ⟨i, hi⟩ => absurd rfl hi⟩
  exact List.nodup_iff_count_le_one.mp hs k

theorem inv_init (s : Storage) : (init s).Inv remote := fun _ => trivial

/-- Both threads have returned, so the rows are all that is expected. -/
theorem expected_finished (hf : ∀ i, w.thread i = .finished) (k : Text × Int) :
    w.expected k = (w.storage.table.rows.map key).count k := by
  unfold expected
  rw [hf false, hf true]
  rfl

theorem not_dead_of_finished (hf : ∀ i, w.thread i = .finished) : ¬ w.Dead := by
  rintro ⟨i, f, hi⟩
  rw [hf i] at hi
  cases hi

/-- Runs whose listings are apart. -/
theorem good_of_meets (hnd : (remote.map key).Nodup) {s : Storage}
    (hs : (s.table.rows.map key).Nodup) {schedule : List Bool}
    (hm : Meets (step remote) ListsApart (init s) schedule)
    (hrun : run (step remote) (init s) schedule = some w) : w.Inv remote ∧ w.Good remote :=
  run_invariant_of_meets (P := fun v => v.Inv remote ∧ v.Good remote)
    (fun _ _ _ hv hc hj => ⟨inv_step hv.1 hj, good_step hnd hv.1 hv.2 hc hj⟩)
    ⟨inv_init s, good_init hs⟩ hm hrun

theorem bad_of_run {schedule : List Bool} (hinv : w.Inv remote) (hb : w.Bad remote)
    (hrun : run (step remote) w schedule = some w') : w'.Bad remote :=
  (run_invariant (P := fun v => v.Inv remote ∧ v.Bad remote)
    (fun _ _ _ hv hj => ⟨inv_step hv.1 hj, bad_step hv.1 hv.2 hj⟩) ⟨hinv, hb⟩ hrun).2

end Overlap

open Overlap in
/-- Two overlapping runs with one feed, each key once in table and feed. When both return, every key
of the feed has exactly one row if and only if neither listed the table while the other had listed
it and still had profiles to create. -/
theorem overlapping_syncs_iff (P : Platform) (text : Text) (s : Storage)
    (htable : (s.table.rows.map key).Nodup) (hfeed : ((feed P text).map key).Nodup)
    (schedule : List Bool) (w : Overlap)
    (hrun : run (Overlap.step (feed P text)) (init s) schedule = some w)
    (hdone : ∀ i, w.thread i = .finished) :
    (∀ k ∈ (feed P text).map key, (w.storage.table.rows.map key).count k = 1) ↔
      Meets (Overlap.step (feed P text)) ListsApart (init s) schedule := by
  constructor
  · intro hone
    by_contra hm
    obtain ⟨before, i, after, u, u', rfl, hu, hmu, hviol, hstep, hafter⟩ := first_violation hrun hm
    obtain ⟨hinv, hgood⟩ := good_of_meets hfeed htable hmu hu
    have hbad := bad_of_overlap hfeed hinv hgood hviol hstep
    rcases bad_of_run (inv_step hinv hstep) hbad hafter with hd | ⟨_, k, hk, hgt⟩
    · exact not_dead_of_finished hdone hd
    · rw [expected_finished hdone, hone k hk] at hgt
      omega
  · intro hm k hk
    rcases (good_of_meets hfeed htable hm hrun).2 with hd | hg
    · exact absurd hd (not_dead_of_finished hdone)
    · rw [← expected_finished hdone]
      refine (hg k hk).2 ⟨false, ?_⟩
      rw [hdone false]
      exact SyncThread.noConfusion

/-- One after the other is fine: the second run finds the server and updates it. -/
theorem overlapping_syncs_sequential :
    ∃ w, run (Overlap.step (feed aosp oneLink)) (Overlap.init Storage.empty)
        [false, false, false, true, true] = some w ∧
      ∀ k ∈ (feed aosp oneLink).map key, (w.storage.table.rows.map key).count k = 1 := by
  have hthreads : (run (Overlap.step (feed aosp oneLink)) (Overlap.init Storage.empty)
      [false, false, false, true, true]).map (fun w => (w.thread false, w.thread true)) =
        some (.finished, .finished) := by decide +kernel
  obtain ⟨w, hw, hthread⟩ := Option.map_eq_some_iff.mp hthreads
  have hdone : ∀ i, w.thread i = .finished := by
    intro i
    cases i
    · exact congrArg Prod.fst hthread
    · exact congrArg Prod.snd hthread
  exact ⟨w, hw, (overlapping_syncs_iff aosp oneLink Storage.empty List.nodup_nil
    (by decide +kernel) _ w hw hdone).mpr (by decide +kernel)⟩

/-- Two threads that both list the empty table create the one server of the feed twice. -/
theorem overlapping_syncs_duplicate :
    ∃ w, run (Overlap.step (feed aosp oneLink)) (Overlap.init Storage.empty)
        [false, true, false, false, true, true] = some w ∧
      (∀ i, w.thread i = .finished) ∧ ((feed aosp oneLink).map key).Nodup ∧
      w.storage.table.rows.map key = [("h".toList, 1), ("h".toList, 1)] := by
  have hend : (run (Overlap.step (feed aosp oneLink)) (Overlap.init Storage.empty)
      [false, true, false, false, true, true]).map
        (fun w => (w.thread false, w.thread true, w.storage.table.rows.map key)) =
      some (.finished, .finished, [("h".toList, 1), ("h".toList, 1)]) := by decide +kernel
  obtain ⟨w, hw, hall⟩ := Option.map_eq_some_iff.mp hend
  refine ⟨w, hw, fun i => ?_, by decide +kernel, congrArg (fun r => r.2.2) hall⟩
  cases i
  · exact congrArg Prod.fst hall
  · exact congrArg (fun r => r.2.1) hall

end CypherConnect.Sync
