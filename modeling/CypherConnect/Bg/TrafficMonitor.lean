/-
  `TrafficMonitor`: the traffic totals that ss-local reports, and how they get into the profile row.

  ss-local reports running totals since it started. The monitor keeps the last report in one mutable
  object, `current`, which a restarted ss-local overwrites from zero on. `persistStats` adds that
  object to the row each time it is called; what it remembers of a call is a reference to the same
  object, so its check for lost data compares `current` with itself.

  * `persistStats_ok`: what a call that returns has done.
  * `session_row`: over a whole session the row grows by the totals standing at each call.
  * `session_accounts_iff`: that is the traffic of the session exactly if what the calls before the
    last one added makes up for what restarts overwrote.
-/
import CypherConnect.Lib.Machine
import CypherConnect.Database.ProfileManager

namespace CypherConnect.Bg

open Machine ProfileManager

structure TrafficStats where
  txRate : Int := 0
  rxRate : Int := 0
  txTotal : Int := 0
  rxTotal : Int := 0
  deriving DecidableEq, Repr

/-- The values of `persisted` other than `null`: a reference to the object `current`. -/
inductive StatsRef where
  | current
  deriving DecidableEq, Repr

structure TrafficMonitor where
  current : TrafficStats := {}
  out : TrafficStats := {}
  timestampLast : Int := 0
  dirty : Bool := false
  persisted : Option StatsRef := none
  deriving DecidableEq, Repr

/-- `ByteBuffer.getLong(index)` in little-endian order. -/
def getLong (buffer : List UInt8) (index : Nat) : Int :=
  wrapLong (((buffer.drop index).take 8).foldr (fun b n => b.toNat + 256 * n) 0)

/-- The totals of a read: only one of 16 bytes carries any. -/
def statOf (read : List UInt8) : Option (Int × Int) :=
  if read.length = 16 then some (getLong read 0, getLong read 8) else none

namespace TrafficMonitor

/-- `thread.acceptInternal`. A read of another length returns or throws and changes nothing. -/
def acceptInternal (m : TrafficMonitor) (read : List UInt8) : TrafficMonitor :=
  match statOf read with
  | none => m
  | some (tx, rx) =>
      let m := if m.current.txTotal ≠ tx then
          { m with current := { m.current with txTotal := tx }, dirty := true }
        else m
      if m.current.rxTotal ≠ rx then
        { m with current := { m.current with rxTotal := rx }, dirty := true }
      else m

/-- `(total - last) * 1000 / delta` on `Long`s. -/
def rate (total last delta : Int) : Int :=
  wrapLong ((wrapLong (wrapLong (total - last) * 1000)).tdiv delta)

/-- `requestUpdate` at the time `now`; the flag says that `out` changed. -/
def requestUpdate (m : TrafficMonitor) (now : Int) : TrafficMonitor × Bool :=
  let delta := wrapLong (now - m.timestampLast)
  let m := { m with timestampLast := now }
  if delta ≠ 0 then
    if m.dirty then
      ({ m with
        out := { m.current with
          txRate := rate m.current.txTotal m.out.txTotal delta
          rxRate := rate m.current.rxTotal m.out.rxTotal delta }
        dirty := false }, true)
    else
      ({ m with out := { m.out with txRate := 0, rxRate := 0 } },
        decide (m.out.txRate ≠ 0 ∨ m.out.rxRate ≠ 0))
  else (m, false)

/-- The object a reference stands for. -/
def deref (m : TrafficMonitor) : StatsRef → TrafficStats
  | .current => m.current

/-- `profile.tx += current.txTotal; profile.rx += current.rxTotal`. -/
def addTotals (m : TrafficMonitor) (profile : Profile) : Profile :=
  { profile with
    tx := wrapLong (profile.tx + m.current.txTotal)
    rx := wrapLong (profile.rx + m.current.rxTotal) }

/-- `profile.dirty = true`. -/
def markDirty (profile : Profile) : Profile := { profile with dirty := true }

/-- `DirectBoot.getDeviceProfile()!!.toList().single { it.id == id }`. -/
def deviceProfile (s : Storage) (id : Int) : Except Failure Profile :=
  match s.deviceProfile with
  | none => .error .nullPointer
  | some e =>
      match e.toList.filter fun p => p.id == id with
      | [profile] => .ok profile
      | _ => .error .notSingle

/-- `persistStats`. -/
def persistStats (m : TrafficMonitor) (s : Storage) (id : Int) :
    Except Failure (TrafficMonitor × Storage) :=
  if m.persisted = none ∨ m.persisted.map m.deref = some m.current then
    let m := { m with persisted := some .current }
    match getProfile s id with
    | .ok none => .ok (m, s)
    | .ok (some profile) => do
        let s ← updateProfile s (m.addTotals profile)
        pure (m, s)
    | .error f =>
        if s.directBootAware then do
          let profile ← deviceProfile s id
          -- `DirectBoot.update` writes the profile with its fallback
          let expanded ← expand s (markDirty (m.addTotals profile))
          pure (m, { s with deviceProfile := some expanded })
        else .error f
  else .error .illegalState

/-- The check for lost data cannot fail: the reference is to `current` itself. -/
theorem check_holds (m : TrafficMonitor) :
    m.persisted = none ∨ m.persisted.map m.deref = some m.current := by
  cases h : m.persisted with
  | none => exact Or.inl rfl
  | some r =>
      cases r
      exact Or.inr rfl

end TrafficMonitor

/-! ## One call -/

/-- The two counters. -/
inductive Direction where
  | tx
  | rx
  deriving DecidableEq, Repr

namespace Direction

def ofReport : Direction → Int × Int → Int
  | .tx, r => r.1
  | .rx, r => r.2

def ofStats : Direction → TrafficStats → Int
  | .tx, s => s.txTotal
  | .rx, s => s.rxTotal

def ofProfile : Direction → Profile → Int
  | .tx, p => p.tx
  | .rx, p => p.rx

end Direction

/-- The profile row `persistStats` works on: in the database, or before the first unlock in the copy
for direct boot. -/
def storedProfile (s : Storage) (id : Int) : Option Profile :=
  if s.openable then s.table.get id else (TrafficMonitor.deviceProfile s id).toOption

namespace TrafficMonitor

variable {m m' : TrafficMonitor} {s s' : Storage} {id : Int} {p : Profile}

theorem ofProfile_addTotals (d : Direction) (m : TrafficMonitor) (p : Profile) :
    d.ofProfile (m.addTotals p) = wrapLong (d.ofProfile p + d.ofStats m.current) := by
  cases d <;> rfl

theorem ofStats_acceptInternal (d : Direction) (m : TrafficMonitor) (read : List UInt8) :
    d.ofStats (m.acceptInternal read).current =
      ((statOf read).map d.ofReport).getD (d.ofStats m.current) := by
  unfold acceptInternal
  cases statOf read with
  | none => rfl
  | some r =>
      by_cases htx : m.current.txTotal = r.1 <;> by_cases hrx : m.current.rxTotal = r.2 <;>
        cases d <;> simp [htx, hrx, Direction.ofStats, Direction.ofReport]

theorem requestUpdate_current (m : TrafficMonitor) (now : Int) :
    (m.requestUpdate now).1.current = m.current := by
  unfold requestUpdate
  dsimp only
  split
  · split <;> rfl
  · rfl

theorem deviceProfile_ok {q : Profile} (h : deviceProfile s id = .ok q) : q.id = id := by
  unfold deviceProfile at h
  split at h
  · cases h
  · split at h
    · next e he _ profile hf =>
        cases h
        have hmem : q ∈ e.toList.filter fun p => p.id == id := by
          rw [hf]
          exact List.mem_cons_self
        simpa using (List.mem_filter.mp hmem).2
    · cases h

theorem deviceProfile_alone {q : Profile} (h : s.deviceProfile = some ⟨q, none⟩) (hid : q.id = id) :
    deviceProfile s id = .ok q := by
  unfold deviceProfile ExpandedProfile.toList
  rw [h]
  simp [hid]

/-- Writing to the database. -/
theorem persistStats_open (ho : s.openable = true) (hp : s.table.get id = some p)
    (h : m.persistStats s id = .ok (m', s')) :
    m'.current = m.current ∧ s'.openable = s.openable ∧
      storedProfile s' id = some (ProfileTable.stored (m.addTotals p)) := by
  unfold persistStats getProfile at h
  rw [if_pos m.check_holds, if_pos ho, hp] at h
  obtain ⟨hmem, rfl⟩ := ProfileTable.get_some hp
  have hid : (m.addTotals p).id ∈ s.table.rows.map Profile.id := by
    change p.id ∈ _
    exact List.mem_map_of_mem hmem
  obtain ⟨t, ht, hset, _, _⟩ := updateProfile_eq ho hid
  change (updateProfile s (m.addTotals p) >>= _) = _ at h
  rw [ht] at h
  cases h
  refine ⟨rfl, hset.1, ?_⟩
  unfold storedProfile
  rw [if_pos (hset.open ho), updateProfile_ok ht]
  exact s.table.get_update hid

/-- Writing to the copy for direct boot. -/
theorem persistStats_directBoot (ho : ¬ s.openable = true) (hp : deviceProfile s id = .ok p)
    (h : m.persistStats s id = .ok (m', s')) :
    m'.current = m.current ∧ s'.openable = s.openable ∧
      storedProfile s' id = some (markDirty (m.addTotals p)) := by
  unfold persistStats getProfile at h
  rw [if_pos m.check_holds, if_neg ho] at h
  dsimp only at h
  split at h
  · rw [hp] at h
    change (expand s (markDirty (m.addTotals p)) >>= _) = _ at h
    cases he : expand s (markDirty (m.addTotals p)) with
    | error f => rw [he] at h; cases h
    | ok e =>
        obtain rfl := expand_closed ho he
        rw [he] at h
        cases h
        refine ⟨rfl, rfl, ?_⟩
        have hid : (markDirty (m.addTotals p)).id = id := by
          change p.id = id
          exact deviceProfile_ok hp
        unfold storedProfile
        rw [if_neg ho, deviceProfile_alone rfl hid]
        rfl
  · cases h

/-- A call that returns has added the totals to the row, once, and has changed no total. -/
theorem persistStats_ok (hp : storedProfile s id = some p)
    (h : m.persistStats s id = .ok (m', s')) :
    m'.current = m.current ∧ ∃ q, storedProfile s' id = some q ∧
      ∀ d : Direction, d.ofProfile q = wrapLong (d.ofProfile p + d.ofStats m.current) := by
  unfold storedProfile at hp
  split at hp
  · next ho =>
      obtain ⟨hm, _, hq⟩ := persistStats_open ho hp h
      refine ⟨hm, _, hq, fun d => ?_⟩
      rw [← ofProfile_addTotals]
      cases d <;> rfl
  · next ho =>
      have hdev : deviceProfile s id = .ok p := by
        cases hd : deviceProfile s id with
        | error f => rw [hd] at hp; cases hp
        | ok q => rw [hd] at hp; cases hp; rfl
      obtain ⟨hm, _, hq⟩ := persistStats_directBoot ho hdev h
      refine ⟨hm, _, hq, fun d => ?_⟩
      rw [← ofProfile_addTotals]
      cases d <;> rfl

end TrafficMonitor

/-! ## Sessions -/

/-- What happens to the monitor during a session. -/
inductive MonitorEvent where
  /-- A connection to the stat socket, with the bytes read. -/
  | accept (read : List UInt8)
  /-- The guard starts ss-local again. -/
  | restart
  | requestUpdate (now : Int)
  | persistStats
  deriving DecidableEq, Repr

structure Session where
  monitor : TrafficMonitor := {}
  storage : Storage

namespace Session

/-- One event of the session of profile `id`. A call of `persistStats` that throws is no step. -/
def step (id : Int) (s : Session) : MonitorEvent → Option Session
  | .accept read => some { s with monitor := s.monitor.acceptInternal read }
  | .restart => some s
  | .requestUpdate now => some { s with monitor := (s.monitor.requestUpdate now).1 }
  | .persistStats =>
      match s.monitor.persistStats s.storage id with
      | .ok (monitor, storage) => some ⟨monitor, storage⟩
      | .error _ => none

theorem step_persistStats {id : Int} {s s' : Session} (h : s.step id .persistStats = some s') :
    s.monitor.persistStats s.storage id = .ok (s'.monitor, s'.storage) := by
  cases hcall : s.monitor.persistStats s.storage id with
  | error f => simp [step, hcall] at h
  | ok r =>
      simp only [step, hcall, Option.some.injEq] at h
      rw [← h]

end Session

/-! The reports of a session, for one direction. `last` is the last total of the running ss-local
and `standing` the total the monitor shows, which a restart does not reset. -/

section Totals

variable (d : Direction)

/-- The total after a read: that of the report, if it is one. -/
def totalAfter (read : List UInt8) (before : Int) : Int :=
  ((statOf read).map d.ofReport).getD before

/-- The sum over the incarnations of ss-local of the last total each reported. -/
def sessionTotal : Int → List MonitorEvent → Int
  | last, [] => last
  | last, .restart :: es => last + sessionTotal 0 es
  | last, .accept read :: es => sessionTotal (totalAfter d read last) es
  | last, .requestUpdate _ :: es => sessionTotal last es
  | last, .persistStats :: es => sessionTotal last es

/-- Each incarnation reports totals that start from zero and do not decrease. -/
def Reported : Int → List MonitorEvent → Prop
  | _, [] => True
  | _, .restart :: es => Reported 0 es
  | last, .accept read :: es => last ≤ totalAfter d read last ∧ Reported (totalAfter d read last) es
  | last, .requestUpdate _ :: es => Reported last es
  | last, .persistStats :: es => Reported last es

/-- The total the monitor shows at the end. -/
def standingTotal : Int → List MonitorEvent → Int
  | standing, [] => standing
  | standing, .accept read :: es => standingTotal (totalAfter d read standing) es
  | standing, .restart :: es => standingTotal standing es
  | standing, .requestUpdate _ :: es => standingTotal standing es
  | standing, .persistStats :: es => standingTotal standing es

/-- The sum over the calls of `persistStats` of the total that stood at the call. -/
def persistedTotal : Int → List MonitorEvent → Int
  | _, [] => 0
  | standing, .accept read :: es => persistedTotal (totalAfter d read standing) es
  | standing, .restart :: es => persistedTotal standing es
  | standing, .requestUpdate _ :: es => persistedTotal standing es
  | standing, .persistStats :: es => standing + persistedTotal standing es

/-- The sum of the totals that the first report of a later incarnation overwrote. `fresh`: the
running incarnation has not reported yet. -/
def overwrittenTotal : Int → Bool → List MonitorEvent → Int
  | _, _, [] => 0
  | standing, fresh, .accept read :: es =>
      match statOf read with
      | none => overwrittenTotal standing fresh es
      | some r => (if fresh then standing else 0) + overwrittenTotal (d.ofReport r) false es
  | standing, _, .restart :: es => overwrittenTotal standing true es
  | standing, fresh, .requestUpdate _ :: es => overwrittenTotal standing fresh es
  | standing, fresh, .persistStats :: es => overwrittenTotal standing fresh es

/-- The traffic of a session is what was overwritten and what still stands. -/
theorem sessionTotal_eq (standing : Int) (fresh : Bool) (es : List MonitorEvent) :
    sessionTotal d (if fresh then 0 else standing) es + (if fresh then standing else 0) =
      overwrittenTotal d standing fresh es + standingTotal d standing es := by
  induction es generalizing standing fresh with
  | nil => cases fresh <;> simp [sessionTotal, overwrittenTotal, standingTotal]
  | cons e es ih =>
      cases e with
      | requestUpdate now => exact ih standing fresh
      | persistStats => exact ih standing fresh
      | restart =>
          have h := ih standing true
          simp only [if_true] at h
          unfold sessionTotal overwrittenTotal standingTotal
          cases fresh <;> simp <;> omega
      | accept read =>
          unfold sessionTotal overwrittenTotal standingTotal totalAfter
          cases statOf read with
          | none => exact ih standing fresh
          | some r =>
              have h := ih (d.ofReport r) false
              simp only [Bool.false_eq_true, if_false, Int.add_zero] at h
              simp only [Option.map_some, Option.getD_some, h]
              omega

theorem sessionTotal_snoc_persist (last : Int) (es : List MonitorEvent) :
    sessionTotal d last (es ++ [MonitorEvent.persistStats]) = sessionTotal d last es := by
  induction es generalizing last with
  | nil => rfl
  | cons e es ih => cases e <;> simp only [List.cons_append, sessionTotal, ih]

theorem persistedTotal_snoc_persist (standing : Int) (es : List MonitorEvent) :
    persistedTotal d standing (es ++ [MonitorEvent.persistStats]) =
      persistedTotal d standing es + standingTotal d standing es := by
  induction es generalizing standing with
  | nil =>
      change standing + 0 = 0 + standing
      omega
  | cons e es ih =>
      cases e with
      | persistStats =>
          simp only [List.cons_append, persistedTotal, standingTotal, ih]
          omega
      | accept read => exact ih _
      | restart => exact ih _
      | requestUpdate now => exact ih _

theorem sessionTotal_nonneg {last : Int} {es : List MonitorEvent} (h0 : 0 ≤ last)
    (h : Reported d last es) : 0 ≤ sessionTotal d last es := by
  induction es generalizing last with
  | nil => exact h0
  | cons e es ih =>
      cases e with
      | restart =>
          have := ih (Int.le_refl 0) h
          unfold sessionTotal
          omega
      | accept read => exact ih (Int.le_trans h0 h.1) h.2
      | requestUpdate now => exact ih h0 h
      | persistStats => exact ih h0 h

end Totals

/-- Over a session the row grows by the totals that stood at the calls of `persistStats`. -/
theorem session_row {id : Int} {es : List MonitorEvent} {s t : Session} {p : Profile}
    (hp : storedProfile s.storage id = some p) (hlong : ∀ d : Direction, IsLong (d.ofProfile p))
    (hrun : run (Session.step id) s es = some t) :
    ∃ q, storedProfile t.storage id = some q ∧ ∀ d : Direction, d.ofProfile q =
      wrapLong (d.ofProfile p + persistedTotal d (d.ofStats s.monitor.current) es) := by
  induction es generalizing s p with
  | nil =>
      cases hrun
      refine ⟨p, hp, fun d => ?_⟩
      unfold persistedTotal
      rw [Int.add_zero, wrapLong_of_isLong (hlong d)]
  | cons e es ih =>
      obtain ⟨s1, hstep, hrest⟩ := run_cons_some hrun
      cases e with
      | accept read =>
          cases hstep
          obtain ⟨q, hq, heq⟩ :=
            ih (s := { s with monitor := s.monitor.acceptInternal read }) hp hlong hrest
          refine ⟨q, hq, fun d => ?_⟩
          rw [heq d, TrafficMonitor.ofStats_acceptInternal]
          rfl
      | restart =>
          cases hstep
          exact ih hp hlong hrest
      | requestUpdate now =>
          cases hstep
          obtain ⟨q, hq, heq⟩ :=
            ih (s := { s with monitor := (s.monitor.requestUpdate now).1 }) hp hlong hrest
          refine ⟨q, hq, fun d => ?_⟩
          rw [heq d, TrafficMonitor.requestUpdate_current]
          rfl
      | persistStats =>
          obtain ⟨hcur, q1, hq1, hadd⟩ :=
            TrafficMonitor.persistStats_ok hp (Session.step_persistStats hstep)
          have hlong1 : ∀ d : Direction, IsLong (d.ofProfile q1) := by
            intro d
            rw [hadd d]
            exact isLong_wrapLong _
          obtain ⟨q, hq, heq⟩ := ih hq1 hlong1 hrest
          refine ⟨q, hq, fun d => ?_⟩
          rw [heq d, hadd d, wrapLong_wrapLong_add, hcur, Int.add_assoc]
          rfl

/-- A session that ends with a call of `persistStats`. The row has grown by exactly the traffic of
the session if and only if, for both counters, what the earlier calls found standing amounts to what
later incarnations of ss-local overwrote (up to overflow), and the new value fits. -/
theorem session_accounts_iff (id : Int) (s : Storage) (p : Profile)
    (hp : storedProfile s id = some p) (hlong : ∀ d : Direction, IsLong (d.ofProfile p))
    (events : List MonitorEvent) (hrep : ∀ d, Reported d 0 events) (t : Session)
    (hrun : run (Session.step id) ⟨{}, s⟩ (events ++ [.persistStats]) = some t) :
    (∃ q, storedProfile t.storage id = some q ∧ ∀ d : Direction,
        d.ofProfile q = d.ofProfile p + sessionTotal d 0 (events ++ [.persistStats])) ↔
      ∀ d : Direction, persistedTotal d 0 events ≡ overwrittenTotal d 0 false events [ZMOD 2 ^ 64] ∧
        d.ofProfile p + sessionTotal d 0 events ≤ maxLong := by
  obtain ⟨q, hq, hrow⟩ := session_row hp hlong hrun
  -- one direction of traffic
  have hdir : ∀ d : Direction,
      d.ofProfile q = d.ofProfile p + sessionTotal d 0 (events ++ [MonitorEvent.persistStats]) ↔
        persistedTotal d 0 events ≡ overwrittenTotal d 0 false events [ZMOD 2 ^ 64] ∧
          d.ofProfile p + sessionTotal d 0 events ≤ maxLong := by
    intro d
    have hzero : d.ofStats ({} : TrafficMonitor).current = 0 := by cases d <;> rfl
    have htotal := sessionTotal_eq d 0 false events
    simp only [Bool.false_eq_true, if_false, Int.add_zero] at htotal
    have hnonneg := sessionTotal_nonneg d (Int.le_refl 0) (hrep d)
    have hlo := (hlong d).1
    have hcancel : d.ofProfile p + (persistedTotal d 0 events + standingTotal d 0 events) ≡
          d.ofProfile p + sessionTotal d 0 events [ZMOD 2 ^ 64] ↔
        persistedTotal d 0 events ≡ overwrittenTotal d 0 false events [ZMOD 2 ^ 64] := by
      rw [htotal]
      exact ⟨fun h => (h.add_left_cancel' _).add_right_cancel' _,
        fun h => (h.add_right _).add_left _⟩
    rw [hrow d, hzero, wrapLong_eq_iff, sessionTotal_snoc_persist, persistedTotal_snoc_persist,
      hcancel, and_comm]
    refine and_congr_right fun _ => ⟨fun h => h.2, fun h => ⟨?_, h⟩⟩
    omega
  constructor
  · rintro ⟨q', hq', hall⟩ d
    obtain rfl := Option.some.inj (hq'.symm.trans hq)
    exact (hdir d).mp (hall d)
  · intro hall
    exact ⟨q, hq, fun d => (hdir d).mpr (hall d)⟩

/-- A database with one profile. -/
def oneProfile : Storage where
  table := ⟨[{ id := 1 }], 1, by decide, by decide⟩
  openable := true
  profileId := 1
  directBootAware := false
  deviceProfile := none

/-- A report of 5 bytes sent and 3 received. -/
def smallReport : List UInt8 := [5, 0, 0, 0, 0, 0, 0, 0, 3, 0, 0, 0, 0, 0, 0, 0]

/-- A call at the end of each incarnation accounts for both. -/
theorem session_accounts_each_incarnation :
    ∃ t, run (Session.step 1) ⟨{}, oneProfile⟩
        ([.accept smallReport, .persistStats, .restart, .accept smallReport] ++ [.persistStats]) =
          some t ∧
      ∃ q, storedProfile t.storage 1 = some q ∧ ∀ d : Direction, d.ofProfile q =
        d.ofProfile { id := 1 } + sessionTotal d 0
          ([.accept smallReport, .persistStats, .restart, .accept smallReport] ++
            [.persistStats]) := by
  have hsome : (run (Session.step 1) ⟨{}, oneProfile⟩
      ([MonitorEvent.accept smallReport, .persistStats, .restart, .accept smallReport] ++
        [MonitorEvent.persistStats])).isSome := by decide +kernel
  obtain ⟨t, ht⟩ := Option.isSome_iff_exists.mp hsome
  refine ⟨t, ht, (session_accounts_iff 1 oneProfile { id := 1 } rfl ?_ _ ?_ t ht).mpr ?_⟩ <;>
    intro d <;> cases d
  · decide
  · decide
  · exact ⟨by decide +kernel, by decide +kernel, trivial⟩
  · exact ⟨by decide +kernel, by decide +kernel, trivial⟩
  · exact ⟨by decide +kernel, by decide +kernel⟩
  · exact ⟨by decide +kernel, by decide +kernel⟩

/-- Two calls after one report, as when the device shuts down while connected: the row has twice the
traffic. -/
theorem persistStats_counts_twice :
    ∃ t q, run (Session.step 1) ⟨{}, oneProfile⟩
        ([.accept smallReport, .persistStats] ++ [.persistStats]) = some t ∧
      storedProfile oneProfile 1 = some { id := 1 } ∧ storedProfile t.storage 1 = some q ∧
      Direction.tx.ofProfile q = 10 ∧
      sessionTotal .tx 0 ([.accept smallReport, .persistStats] ++ [.persistStats]) = 5 := by
  have hrow : (run (Session.step 1) ⟨{}, oneProfile⟩
      ([MonitorEvent.accept smallReport, .persistStats] ++ [MonitorEvent.persistStats])).bind
        (fun t => storedProfile t.storage 1) = some { id := 1, tx := 10, rx := 6 } := by
    decide +kernel
  obtain ⟨t, ht, hq⟩ := Option.bind_eq_some_iff.mp hrow
  exact ⟨t, _, ht, rfl, hq, rfl, by decide +kernel⟩

end CypherConnect.Bg
