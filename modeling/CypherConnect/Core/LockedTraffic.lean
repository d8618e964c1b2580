/-
  Traffic that is counted before the first unlock, and how it gets into the database.

  While the database cannot be opened, `persistStats` adds the totals to a profile of the copy for
  direct boot, marks it dirty and writes the copy with `DirectBoot.update`. That function expands
  the profile it is given: it asks the database for the fallback, which throws, and a profile
  without a fallback is written alone. After the unlock `flushTrafficStats` writes the dirty
  profiles of the copy over their rows. A run ends at the first call that throws; by then the file
  is truncated.

  * `persist_locked`: the calls that return, and the copy they leave.
  * `flushTrafficStats_spec`: what the flush does to the rows of the copy.
  * `locked_traffic_iff`: the totals reach the two rows exactly if the copy is a profile without
    fallback (or nothing is persisted) and its counters are those of the row.
-/
import CypherConnect.Core.DirectBoot

namespace CypherConnect

open Machine ProfileManager ProfileTable

namespace DirectBoot

/-- `if (profile.dirty) ProfileManager.updateProfile(profile)`. -/
def flushProfile (s : Storage) (profile : Profile) : Except Failure Storage :=
  if profile.dirty then updateProfile s profile else .ok s

/-- `DirectBoot.flushTrafficStats`. -/
def flushTrafficStats (s : Storage) : Except Failure Storage := do
  let s ← match s.deviceProfile with
    | none => .ok s
    | some ⟨profile, fallback⟩ => do
        let s ← flushProfile s profile
        match fallback with
        | none => .ok s
        | some fallback => flushProfile s fallback
  update s

end DirectBoot

namespace Bg

/-- A call of `persistStats` at the end of a session, with the monitor of that session. -/
structure StatsCall where
  monitor : TrafficMonitor
  id : Int

/-- One call; a call that throws is no step. -/
def persist (s : Storage) (c : StatsCall) : Option Storage :=
  (c.monitor.persistStats s c.id).toOption.map Prod.snd

/-- `q` is `p`, where only the profile `id` may have other traffic. -/
def SameBut (id : Int) (p q : Profile) : Prop :=
  q = p ∨ p.id = id ∧ q = { p with tx := q.tx, rx := q.rx, dirty := q.dirty }

/-- The call leaves the profiles of the copy, apart from the traffic of the one it is for. -/
def KeepsCopy (s : Storage) (c : StatsCall) : Prop :=
  ∀ t, persist s c = some t → ∃ e e', s.deviceProfile = some e ∧ t.deviceProfile = some e' ∧
    List.Forall₂ (SameBut c.id) e.toList e'.toList

/-- The totals that are persisted for a profile. -/
def persistedFor (d : Direction) (id : Int) (calls : List StatsCall) : Int :=
  ((calls.filter (·.id == id)).map fun c => d.ofStats c.monitor.current).sum

/-- The unlock. -/
def unlock (s : Storage) : Storage := { s with openable := true }

/-- No call throws, each keeps the copy, and after the flush the rows of the profiles of the copy
have grown by what was persisted for them. -/
def ReachesDatabase (s : Storage) (e : ExpandedProfile) (calls : List StatsCall) : Prop :=
  ∃ t u, run persist s calls = some t ∧ Meets persist KeepsCopy s calls ∧
    DirectBoot.flushTrafficStats (unlock t) = .ok u ∧
    ∀ p ∈ e.toList, ∀ row, s.table.get p.id = some row → ∃ row', u.table.get p.id = some row' ∧
      ∀ d : Direction, d.ofProfile row' = d.ofProfile row + persistedFor d p.id calls

/-- When they do. The second part is about the profiles that the flush writes. -/
structure InStep (s : Storage) (e : ExpandedProfile) (calls : List StatsCall) : Prop where
  alone : calls ≠ [] → e.udpFallback = none ∧ e.main.udpFallback = none
  rows : ∀ p ∈ e.toList, p.dirty = true ∨ p.id ∈ calls.map StatsCall.id →
    ∀ row, s.table.get p.id = some row → ∀ d : Direction,
      d.ofProfile p = d.ofProfile row ∧ IsLong (d.ofProfile row + persistedFor d p.id calls)

/-! ## What the calls make of a profile -/

/-- The profile with the totals of a call. -/
def StatsCall.count (c : StatsCall) (p : Profile) : Profile :=
  TrafficMonitor.markDirty (c.monitor.addTotals p)

/-- The profile after all the calls that are for it. -/
def countAll (calls : List StatsCall) (p : Profile) : Profile :=
  calls.foldl (fun p c => if c.id = p.id then c.count p else p) p

section Counting

variable {c : StatsCall} {calls : List StatsCall} {p : Profile}

theorem countAll_cons_same (h : c.id = p.id) :
    countAll (c :: calls) p = countAll calls (c.count p) := by
  simp [countAll, h]

theorem countAll_cons_other (h : c.id ≠ p.id) : countAll (c :: calls) p = countAll calls p := by
  simp [countAll, h]

theorem persistedFor_cons_same {d : Direction} {id : Int} (h : c.id = id) :
    persistedFor d id (c :: calls) = d.ofStats c.monitor.current + persistedFor d id calls := by
  simp [persistedFor, h]

theorem persistedFor_cons_other {d : Direction} {id : Int} (h : c.id ≠ id) :
    persistedFor d id (c :: calls) = persistedFor d id calls := by
  simp [persistedFor, h]

theorem countAll_id (calls : List StatsCall) (p : Profile) : (countAll calls p).id = p.id := by
  induction calls generalizing p with
  | nil => rfl
  | cons c calls ih =>
      by_cases h : c.id = p.id
      · rw [countAll_cons_same h]
        exact ih (c.count p)
      · rw [countAll_cons_other h]
        exact ih p

theorem countAll_dirty (calls : List StatsCall) (p : Profile) :
    (countAll calls p).dirty = true ↔ p.dirty = true ∨ p.id ∈ calls.map StatsCall.id := by
  induction calls generalizing p with
  | nil => simp [countAll]
  | cons c calls ih =>
      by_cases h : c.id = p.id
      · have hmark : (c.count p).dirty = true := rfl
        rw [countAll_cons_same h, ih (c.count p)]
        simp [hmark, h]
      · rw [countAll_cons_other h, ih p]
        simp [Ne.symm h]

theorem ofProfile_countAll (d : Direction) (calls : List StatsCall) (hp : IsLong (d.ofProfile p)) :
    d.ofProfile (countAll calls p) = wrapLong (d.ofProfile p + persistedFor d p.id calls) := by
  induction calls generalizing p with
  | nil =>
      show d.ofProfile p = wrapLong (d.ofProfile p + 0)
      rw [Int.add_zero, wrapLong_of_isLong hp]
  | cons c calls ih =>
      by_cases h : c.id = p.id
      · have hcount : d.ofProfile (c.count p) = wrapLong
            (d.ofProfile p + d.ofStats c.monitor.current) := by
          rw [← TrafficMonitor.ofProfile_addTotals]
          cases d <;> rfl
        have hrest := ih (p := c.count p) (by rw [hcount]; exact isLong_wrapLong _)
        rw [countAll_cons_same h, hrest, hcount, wrapLong_wrapLong_add, persistedFor_cons_same h,
          Int.add_assoc]
        rfl
      · rw [countAll_cons_other h, ih hp, persistedFor_cons_other h]

theorem persistedFor_eq_zero (d : Direction) {id : Int} (h : id ∉ calls.map StatsCall.id) :
    persistedFor d id calls = 0 := by
  have hnone : calls.filter (·.id == id) = [] := by
    simp only [List.filter_eq_nil_iff, beq_iff_eq]
    intro c hc heq
    exact h (heq ▸ List.mem_map_of_mem hc)
  rw [persistedFor, hnone]
  rfl

end Counting

/-! ## The calls -/

section Calls

variable {s t : Storage} {e : ExpandedProfile} {c : StatsCall} {calls : List StatsCall}
  {p : Profile}

theorem deviceProfile_mem (hcopy : s.deviceProfile = some e) {id : Int}
    (h : TrafficMonitor.deviceProfile s id = .ok p) : p ∈ e.toList := by
  unfold TrafficMonitor.deviceProfile at h
  rw [hcopy] at h
  dsimp only at h
  split at h
  · next q hfilter =>
      cases h
      have hmem : p ∈ e.toList.filter fun q => q.id == id := by
        rw [hfilter]
        exact List.mem_cons_self
      exact List.mem_of_mem_filter hmem
  · cases h

/-- While the database is closed a call returns exactly if the profile is in the copy and names no
fallback. It leaves a copy that is this profile alone. -/
theorem persist_locked (hlocked : s.openable = false) (haware : s.directBootAware = true) :
    persist s c = some t ↔ ∃ p, TrafficMonitor.deviceProfile s c.id = .ok p ∧ p.udpFallback = none ∧
      t = { s with deviceProfile := some ⟨c.count p, none⟩ } := by
  have hclosed : ¬ s.openable = true := by simp [hlocked]
  unfold persist TrafficMonitor.persistStats getProfile
  rw [if_pos c.monitor.check_holds, if_neg hclosed]
  dsimp only
  rw [if_pos haware]
  cases hp : TrafficMonitor.deviceProfile s c.id with
  | error f => simp [Except.toOption, bind, Except.bind]
  | ok p =>
      have hfallback : (c.count p).udpFallback = p.udpFallback := rfl
      show ((expand s (c.count p) >>= fun expanded =>
        pure (_, { s with deviceProfile := some expanded })).toOption.map Prod.snd = some t) ↔ _
      cases hnone : p.udpFallback with
      | none =>
          have hexpand : expand s (c.count p) = .ok ⟨c.count p, none⟩ := by
            unfold expand
            rw [hfallback, hnone]
          rw [hexpand]
          constructor
          · intro h
            exact ⟨p, rfl, hnone, (Option.some.inj h).symm⟩
          · rintro ⟨q, hq, -, rfl⟩
            cases hq
            rfl
      | some id =>
          -- the fallback has to be read from the closed database
          have hexpand : expand s (c.count p) = .error .io := by
            unfold expand getProfile
            rw [hfallback, hnone]
            simp [hlocked, Except.map]
          rw [hexpand]
          constructor
          · intro h
            cases h
          · rintro ⟨q, hq, hq', -⟩
            cases hq
            rw [hnone] at hq'
            cases hq'

/-- A call that keeps the copy finds one profile in it, which names no fallback. -/
theorem alone_of_keepsCopy (hlocked : s.openable = false) (haware : s.directBootAware = true)
    (hcopy : s.deviceProfile = some e) (hstep : persist s c = some t) (hkeeps : KeepsCopy s c) :
    e.udpFallback = none ∧ e.main.udpFallback = none := by
  obtain ⟨p, hp, hnone, ht⟩ := (persist_locked hlocked haware).mp hstep
  obtain ⟨e1, e2, h1, h2, hsame⟩ := hkeeps t hstep
  rw [hcopy] at h1
  cases h1
  rw [ht] at h2
  cases h2
  -- what is written is one profile, so the copy had one
  have hlength : e.udpFallback.toList.length = 0 := by
    have := hsame.length_eq
    simpa [ExpandedProfile.toList] using this
  have hfallback : e.udpFallback = none := by
    cases he : e.udpFallback with
    | none => rfl
    | some f => rw [he] at hlength; cases hlength
  have hmem := deviceProfile_mem hcopy hp
  rw [ExpandedProfile.toList, hfallback] at hmem
  rw [List.mem_singleton.mp hmem] at hnone
  exact ⟨hfallback, hnone⟩

/-- A call for a profile that is alone in the copy. -/
theorem persist_alone (hlocked : s.openable = false) (haware : s.directBootAware = true)
    (hcopy : s.deviceProfile = some ⟨p, none⟩) (hnone : p.udpFallback = none) (hid : c.id = p.id) :
    persist s c = some { s with deviceProfile := some ⟨c.count p, none⟩ } := by
  rw [persist_locked hlocked haware]
  exact ⟨p, TrafficMonitor.deviceProfile_alone hcopy hid.symm, hnone, rfl⟩

theorem keepsCopy_alone (hlocked : s.openable = false) (haware : s.directBootAware = true)
    (hcopy : s.deviceProfile = some ⟨p, none⟩) (hnone : p.udpFallback = none) (hid : c.id = p.id) :
    KeepsCopy s c := by
  intro t ht
  rw [persist_alone hlocked haware hcopy hnone hid] at ht
  cases ht
  refine ⟨⟨p, none⟩, ⟨c.count p, none⟩, hcopy, rfl, ?_⟩
  exact List.Forall₂.cons (Or.inr ⟨hid.symm, rfl⟩) List.Forall₂.nil

/-- A whole run of calls for it. -/
theorem run_alone (hlocked : s.openable = false) (haware : s.directBootAware = true)
    (hcopy : s.deviceProfile = some ⟨p, none⟩) (hnone : p.udpFallback = none)
    (hcalls : ∀ c ∈ calls, c.id = p.id) :
    run persist s calls = some { s with deviceProfile := some ⟨countAll calls p, none⟩ } ∧
      Meets persist KeepsCopy s calls := by
  induction calls generalizing s p with
  | nil =>
      refine ⟨?_, trivial⟩
      show some s = some { s with deviceProfile := some ⟨p, none⟩ }
      rw [← hcopy]
  | cons c calls ih =>
      obtain ⟨hid, htail⟩ := List.forall_mem_cons.mp hcalls
      have hstep := persist_alone hlocked haware hcopy hnone hid
      have hkeeps := keepsCopy_alone hlocked haware hcopy hnone hid
      obtain ⟨hrun, hmeets⟩ := ih (s := { s with deviceProfile := some ⟨c.count p, none⟩ })
        (p := c.count p) hlocked haware rfl hnone htail
      refine ⟨?_, (meets_cons_of_step hstep).mpr ⟨hkeeps, hmeets⟩⟩
      rw [run_cons_of_step hstep, hrun, countAll_cons_same hid]

/-- The calls go through, and make of each profile of the copy what they should, if it is one
profile without fallback or there is no call. -/
theorem run_counts (hlocked : s.openable = false) (haware : s.directBootAware = true)
    (hcopy : s.deviceProfile = some e) (hcalls : ∀ c ∈ calls, c.id ∈ e.toList.map Profile.id)
    (halone : calls ≠ [] → e.udpFallback = none ∧ e.main.udpFallback = none) :
    ∃ e', run persist s calls = some { s with deviceProfile := some e' } ∧
      Meets persist KeepsCopy s calls ∧ e'.toList = e.toList.map (countAll calls) := by
  cases calls with
  | nil =>
      refine ⟨e, ?_, trivial, (List.map_id _).symm⟩
      rw [← hcopy]
      rfl
  | cons c calls =>
      obtain ⟨hfallback, hnone⟩ := halone (List.cons_ne_nil _ _)
      obtain ⟨main, fallback⟩ := e
      cases hfallback
      have hids : ∀ c' ∈ c :: calls, c'.id = main.id :=
        fun c' hc' => List.mem_singleton.mp (hcalls c' hc')
      obtain ⟨hrun, hmeets⟩ := run_alone hlocked haware hcopy hnone hids
      exact ⟨_, hrun, hmeets, rfl⟩

end Calls

end Bg

/-! ## What the flush writes -/

namespace DirectBoot

variable {s : Storage} {e : ExpandedProfile} {p : Profile}

/-- The row that the flush leaves under the id of a profile. -/
def flushedRow (s : Storage) (p : Profile) : Option Profile :=
  if p.dirty then some (stored p) else s.table.get p.id

theorem flushProfile_spec (ho : s.openable = true) (hp : p.id ∈ s.table.rows.map Profile.id) :
    ∃ t, flushProfile s p = .ok t ∧ t.openable = true ∧
      t.table.rows.map Profile.id = s.table.rows.map Profile.id ∧
      t.table.get p.id = flushedRow s p ∧ ∀ id, id ≠ p.id → t.table.get id = s.table.get id := by
  unfold flushProfile flushedRow
  cases p.dirty with
  | false => exact ⟨s, rfl, ho, rfl, rfl, fun _ _ => rfl⟩
  | true =>
      obtain ⟨t, ht, hset, hrows, -⟩ := updateProfile_eq ho hp
      have htable := updateProfile_ok ht
      refine ⟨t, ht, hset.open ho, ?_, ?_, fun id hne => ?_⟩
      · rw [hrows, Keyed.map_key_replaceBy]
      · rw [htable]
        exact s.table.get_update hp
      · rw [htable]
        exact get_update_of_ne hne

/-- The induction is over the profiles; those after the first one have other ids. -/
theorem flushAll_spec {ps : List Profile} (ho : s.openable = true)
    (hnodup : (ps.map Profile.id).Nodup) (hrows : ∀ p ∈ ps, p.id ∈ s.table.rows.map Profile.id) :
    ∃ t, ps.foldlM flushProfile s = .ok t ∧ t.openable = true ∧
      (∀ p ∈ ps, t.table.get p.id = flushedRow s p) ∧
      ∀ id, id ∉ ps.map Profile.id → t.table.get id = s.table.get id := by
  induction ps generalizing s with
  | nil => exact ⟨s, rfl, ho, List.forall_mem_nil _, fun _ _ => rfl⟩
  | cons p ps ih =>
      obtain ⟨hfresh, htail⟩ := List.nodup_cons.mp hnodup
      obtain ⟨hp, hps⟩ := List.forall_mem_cons.mp hrows
      obtain ⟨t, ht, hto, hids, hrow, hother⟩ := flushProfile_spec ho hp
      obtain ⟨u, hu, huo, hwritten, hkept⟩ := ih hto htail (by rw [hids]; exact hps)
      refine ⟨u, ?_, huo, ?_, ?_⟩
      · rw [List.foldlM_cons, ht]
        exact hu
      · refine List.forall_mem_cons.mpr ⟨?_, fun q hq => ?_⟩
        · rw [hkept p.id hfresh, hrow]
        · have hne : q.id ≠ p.id := by
            intro heq
            exact hfresh (heq ▸ List.mem_map_of_mem hq)
          rw [hwritten q hq, flushedRow, flushedRow, hother q.id hne]
      · intro id hid
        rw [hkept id (List.not_mem_of_not_mem_cons hid), hother id (List.ne_of_not_mem_cons hid)]

theorem flushTrafficStats_eq (hcopy : s.deviceProfile = some e) :
    flushTrafficStats s = e.toList.foldlM flushProfile s >>= update := by
  obtain ⟨main, fallback⟩ := e
  unfold flushTrafficStats
  rw [hcopy]
  cases fallback with
  | none =>
      show (flushProfile s main >>= fun s => Except.ok s >>= update) = _
      simp only [ExpandedProfile.toList, Option.toList_none, List.foldlM_cons, List.foldlM_nil,
        bind_assoc]
      rfl
  | some f => simp [ExpandedProfile.toList]

/-- The flush writes the dirty profiles of the copy over their rows. -/
theorem flushTrafficStats_spec (ho : s.openable = true) (hcopy : s.deviceProfile = some e)
    (hnodup : (e.toList.map Profile.id).Nodup)
    (hrows : ∀ p ∈ e.toList, p.id ∈ s.table.rows.map Profile.id) :
    ∃ u, flushTrafficStats s = .ok u ∧ ∀ p ∈ e.toList, u.table.get p.id = flushedRow s p := by
  obtain ⟨t, ht, hto, hwritten, -⟩ := flushAll_spec ho hnodup hrows
  refine ⟨{ t with deviceProfile := Core.selected t }, ?_, hwritten⟩
  rw [flushTrafficStats_eq hcopy, ht]
  exact Core.update_eq hto

end DirectBoot

/-! ## The traffic in the database -/

namespace Bg

section Rows

variable {s : Storage} {e : ExpandedProfile} {calls : List StatsCall} {p row : Profile}

variable (calls) in
/-- One row after the flush. -/
theorem flushed_exact_iff (hrow : s.table.get p.id = some row)
    (hp : ∀ d : Direction, IsLong (d.ofProfile p))
    (hr : ∀ d : Direction, IsLong (d.ofProfile row)) :
    (∃ row', DirectBoot.flushedRow s (countAll calls p) = some row' ∧
        ∀ d : Direction, d.ofProfile row' = d.ofProfile row + persistedFor d p.id calls) ↔
      (p.dirty = true ∨ p.id ∈ calls.map StatsCall.id → ∀ d : Direction,
        d.ofProfile p = d.ofProfile row ∧
          IsLong (d.ofProfile row + persistedFor d p.id calls)) := by
  unfold DirectBoot.flushedRow
  by_cases hdirty : (countAll calls p).dirty = true
  · have hcause := (countAll_dirty calls p).mp hdirty
    have hcount (d : Direction) : d.ofProfile (stored (countAll calls p)) =
        wrapLong (d.ofProfile p + persistedFor d p.id calls) := by
      rw [← ofProfile_countAll d calls (hp d)]
      cases d <;> rfl
    have hexact (d : Direction) : d.ofProfile (stored (countAll calls p)) =
          d.ofProfile row + persistedFor d p.id calls ↔
        d.ofProfile p = d.ofProfile row ∧ IsLong (d.ofProfile row + persistedFor d p.id calls) := by
      rw [hcount d]
      exact wrapLong_add_eq_add_iff (hp d) (hr d) _
    rw [if_pos hdirty]
    constructor
    · rintro ⟨row', heq, hall⟩ - d
      cases heq
      exact (hexact d).mp (hall d)
    · intro h
      exact ⟨_, rfl, fun d => (hexact d).mpr (h hcause d)⟩
  · have hclean := mt (countAll_dirty calls p).mpr hdirty
    obtain ⟨-, hnot⟩ := not_or.mp hclean
    rw [if_neg hdirty, countAll_id, hrow]
    constructor
    · intro _ hcause
      exact absurd hcause hclean
    · intro _
      refine ⟨row, rfl, fun d => ?_⟩
      rw [persistedFor_eq_zero d hnot, Int.add_zero]

/-- A run that keeps the copy starts with a call that asks for a profile that is alone. -/
theorem alone_of_run (haware : s.directBootAware = true) (hlocked : s.openable = false)
    (hcopy : s.deviceProfile = some e) {t : Storage} (hrun : run persist s calls = some t)
    (hmeets : Meets persist KeepsCopy s calls) (hne : calls ≠ []) :
    e.udpFallback = none ∧ e.main.udpFallback = none := by
  obtain ⟨c, rest, rfl⟩ := List.exists_cons_of_ne_nil hne
  obtain ⟨t1, hstep, -⟩ := run_cons_some hrun
  exact alone_of_keepsCopy hlocked haware hcopy hstep hmeets.1

/-- For such a profile the run and the flush go through, and the rows after them are known. -/
theorem rows_of_alone (haware : s.directBootAware = true) (hlocked : s.openable = false)
    (hcopy : s.deviceProfile = some e) (hids : (e.toList.map Profile.id).Nodup)
    (hrows : ∀ p ∈ e.toList, p.id ∈ s.table.rows.map Profile.id)
    (hcalls : ∀ c ∈ calls, c.id ∈ e.toList.map Profile.id)
    (halone : calls ≠ [] → e.udpFallback = none ∧ e.main.udpFallback = none) :
    ∃ t u, run persist s calls = some t ∧ Meets persist KeepsCopy s calls ∧
      DirectBoot.flushTrafficStats (unlock t) = .ok u ∧
      ∀ p ∈ e.toList, u.table.get p.id = DirectBoot.flushedRow s (countAll calls p) := by
  obtain ⟨e', hrun, hmeets, hlist⟩ := run_counts hlocked haware hcopy hcalls halone
  have hmap : e'.toList.map Profile.id = e.toList.map Profile.id := by
    rw [hlist, List.map_map]
    exact List.map_congr_left fun p _ => countAll_id calls p
  have hrows' : ∀ p ∈ e'.toList, p.id ∈ s.table.rows.map Profile.id := by
    intro p hp
    have hid : p.id ∈ e.toList.map Profile.id := hmap ▸ List.mem_map_of_mem hp
    obtain ⟨q, hq, heq⟩ := List.mem_map.mp hid
    exact heq ▸ hrows q hq
  obtain ⟨u, hu, hwritten⟩ := DirectBoot.flushTrafficStats_spec
    (s := unlock { s with deviceProfile := some e' }) rfl rfl (hmap ▸ hids) hrows'
  refine ⟨_, u, hrun, hmeets, hu, fun p hp => ?_⟩
  rw [← countAll_id calls p]
  exact hwritten _ (hlist ▸ List.mem_map_of_mem hp)

end Rows

/-- Traffic counted while the database is closed reaches it exactly if the copy is in step. -/
theorem locked_traffic_iff (s : Storage) (e : ExpandedProfile) (calls : List StatsCall)
    (haware : s.directBootAware = true) (hlocked : s.openable = false)
    (hcopy : s.deviceProfile = some e) (hids : (e.toList.map Profile.id).Nodup)
    (hrows : ∀ p ∈ e.toList, p.id ∈ s.table.rows.map Profile.id)
    (hlong : ∀ p ∈ e.toList ++ s.table.rows, ∀ d : Direction, IsLong (d.ofProfile p))
    (hcalls : ∀ c ∈ calls, c.id ∈ e.toList.map Profile.id) :
    ReachesDatabase s e calls ↔ InStep s e calls := by
  have hrow (p : Profile) (hp : p ∈ e.toList) {row : Profile}
      (hget : s.table.get p.id = some row) :=
    flushed_exact_iff calls hget (hlong p (List.mem_append_left _ hp))
      (hlong row (List.mem_append_right _ (get_some hget).1))
  constructor
  · rintro ⟨t, u, hrun, hmeets, hu, hexact⟩
    have halone := alone_of_run haware hlocked hcopy hrun hmeets
    refine ⟨halone, fun p hp hcause row hget => ?_⟩
    obtain ⟨t', u', hrun', -, hu', hwritten⟩ :=
      rows_of_alone haware hlocked hcopy hids hrows hcalls halone
    rw [hrun] at hrun'
    cases hrun'
    rw [hu] at hu'
    cases hu'
    obtain ⟨row', hget', hall⟩ := hexact p hp row hget
    rw [hwritten p hp] at hget'
    exact (hrow p hp hget).mp ⟨row', hget', hall⟩ hcause
  · intro h
    obtain ⟨t, u, hrun, hmeets, hu, hwritten⟩ :=
      rows_of_alone haware hlocked hcopy hids hrows hcalls h.alone
    refine ⟨t, u, hrun, hmeets, hu, fun p hp row hget => ?_⟩
    rw [hwritten p hp]
    exact (hrow p hp hget).mpr fun hcause => h.rows p hp hcause row hget

/-- A session that sent 5 bytes and received 7. -/
def sampleCall (id : Int) : StatsCall := ⟨{ current := { txTotal := 5, rxTotal := 7 } }, id⟩

/-- A locked device. -/
def lockedWith (table : ProfileTable) (e : ExpandedProfile) : Storage :=
  ⟨table, false, 1, true, some e⟩

def pairMain : Profile := { id := 1, host := "h".toList, udpFallback := some 2 }

def pairFallback : Profile := { id := 2, host := "i".toList }

def lockedPair : Storage :=
  lockedWith ⟨[pairMain, pairFallback], 2, by decide, by decide⟩ ⟨pairMain, some pairFallback⟩

/-- The row has 100 bytes that the copy has not. -/
def lockedStale : Storage :=
  lockedWith ⟨[{ id := 1, host := "h".toList, tx := 100 }], 1, by decide, by decide⟩
    ⟨{ id := 1, host := "h".toList }, none⟩

/-- With a fallback the call for the main profile throws, and the call for the fallback leaves a
copy without the main profile. From a copy that is behind its row, the flush takes traffic away. -/
theorem locked_traffic_lost :
    (sampleCall 1).monitor.persistStats lockedPair 1 = .error .io ∧
      (persist lockedPair (sampleCall 2)).map Storage.deviceProfile =
        some (some ⟨(sampleCall 2).count pairFallback, none⟩) ∧
      ((run persist lockedStale [sampleCall 1]).bind fun t =>
        (DirectBoot.flushTrafficStats (unlock t)).toOption.bind fun u =>
          (u.table.get 1).map Profile.tx) = some 5 :=
  ⟨rfl, by decide +kernel, by decide +kernel⟩

/-- A profile without fallback, with the traffic of its row. -/
def loneProfile : Profile := { id := 1, host := "h".toList, tx := 100, rx := 200 }

def lockedLone : Storage := lockedWith ⟨[loneProfile], 1, by decide, by decide⟩ ⟨loneProfile, none⟩

/-- Two sessions of it. -/
theorem locked_traffic_lone :
    ReachesDatabase lockedLone ⟨loneProfile, none⟩ [sampleCall 1, sampleCall 1] := by
  have hrow {row : Profile} (h : lockedLone.table.get 1 = some row) : row = loneProfile :=
    (Option.some.inj h).symm
  have hlong (d : Direction) : IsLong (d.ofProfile loneProfile) := by
    cases d <;> decide
  refine (locked_traffic_iff lockedLone ⟨loneProfile, none⟩ [sampleCall 1, sampleCall 1] rfl rfl rfl
    (by decide) (by decide) (List.forall_mem_cons.mpr ⟨hlong, List.forall_mem_singleton.mpr hlong⟩)
      ?_).mpr ⟨fun _ => ⟨rfl, rfl⟩, ?_⟩
  · simp [sampleCall, ExpandedProfile.toList, loneProfile]
  · intro p hp _ row hget d
    obtain rfl := List.mem_singleton.mp hp
    rw [hrow hget]
    cases d <;> decide

end Bg

end CypherConnect
