/-
  The rates that `TrafficMonitor.requestUpdate` reports, over any interleaving of reports and calls.

  Beside the monitor the model keeps what an observer remembers: the time and the result of the last
  call, and the totals of the last report. The monitor counts as asked at time zero when it is
  created.

  * `rate_eq`: a rate that does not overflow is the truncated quotient.
  * `Observed.step_keeps`: one report or one call keeps the link between the two.
  * `rates_lose_nothing`: what every call returns, after any run.
-/
import CypherConnect.Bg.TrafficMonitor

namespace CypherConnect.Bg

open Machine

def Direction.ofRate : Direction → TrafficStats → Int
  | .tx, s => s.txRate
  | .rx, s => s.rxRate

/-- A step of the monitor. -/
inductive RateEvent where
  /-- A connection to the stat socket, with the bytes read. -/
  | report (read : List UInt8)
  | requestUpdate (now : Int)
  deriving DecidableEq, Repr

/-- The monitor, and what its observer remembers. -/
structure Observed where
  monitor : TrafficMonitor := {}
  lastTime : Int := 0
  lastOut : TrafficStats := {}
  lastReport : Int × Int := (0, 0)
  deriving DecidableEq, Repr

namespace Observed

def step (s : Observed) : RateEvent → Option Observed
  | .report read =>
      some { s with
        monitor := s.monitor.acceptInternal read
        lastReport := (statOf read).getD s.lastReport }
  | .requestUpdate now =>
      some { s with
        monitor := (s.monitor.requestUpdate now).1
        lastTime := now
        lastOut := (s.monitor.requestUpdate now).1.out }

/-- Reports have 16 bytes, the clock does not go back, and the bytes since the last call, times
1000, are a `Long`. -/
def Regular (s : Observed) : RateEvent → Prop
  | .report read => read.length = 16
  | .requestUpdate now => s.lastTime ≤ now ∧ IsLong now ∧
      ∀ d : Direction, IsLong ((d.ofReport s.lastReport - d.ofStats s.lastOut) * 1000)

/-- What links the monitor to the last call and the last report. -/
structure Linked (s : Observed) : Prop where
  time : s.monitor.timestampLast = s.lastTime
  out : s.monitor.out = s.lastOut
  report : ∀ d : Direction, d.ofStats s.monitor.current = d.ofReport s.lastReport
  clock : 0 ≤ s.lastTime
  clean : s.monitor.dirty = false →
    ∀ d : Direction, d.ofStats s.monitor.out = d.ofStats s.monitor.current

end Observed

/-! ## Rates -/

theorem isLong_tdiv {x delta : Int} (hx : IsLong x) (hdelta : 0 < delta) :
    IsLong (x.tdiv delta) := by
  unfold IsLong minLong maxLong at *
  rcases Int.le_total 0 x with hpos | hneg
  · have hlow := Int.tdiv_nonneg hpos (Int.le_of_lt hdelta)
    have hhigh := Int.tdiv_le_self (a := x) (b := delta) hpos
    omega
  · have hlow := Int.tdiv_nonneg (Int.neg_nonneg_of_nonpos hneg) (Int.le_of_lt hdelta)
    have hhigh := Int.tdiv_le_self (a := -x) (b := delta) (Int.neg_nonneg_of_nonpos hneg)
    rw [Int.neg_tdiv] at hlow hhigh
    omega

/-- A rate that does not overflow. -/
theorem rate_eq {total last delta : Int} (h : IsLong ((total - last) * 1000)) (hdelta : 0 < delta) :
    TrafficMonitor.rate total last delta = ((total - last) * 1000).tdiv delta := by
  have hdiff : IsLong (total - last) := by
    unfold IsLong minLong maxLong at *
    omega
  unfold TrafficMonitor.rate
  rw [wrapLong_of_isLong hdiff, wrapLong_of_isLong h, wrapLong_of_isLong (isLong_tdiv h hdelta)]

/-! ## One step -/

theorem TrafficStats.eq_of_rates_zero {out : TrafficStats} (htx : out.txRate = 0)
    (hrx : out.rxRate = 0) : out = { out with txRate := 0, rxRate := 0 } := by
  cases out
  cases htx
  cases hrx
  rfl

namespace TrafficMonitor

variable {m : TrafficMonitor}

theorem acceptInternal_out (m : TrafficMonitor) (read : List UInt8) :
    (m.acceptInternal read).out = m.out ∧
      (m.acceptInternal read).timestampLast = m.timestampLast := by
  unfold acceptInternal
  split
  · exact ⟨rfl, rfl⟩
  · dsimp only
    split
    · split
      · exact ⟨rfl, rfl⟩
      · exact ⟨rfl, rfl⟩
    · split
      · exact ⟨rfl, rfl⟩
      · exact ⟨rfl, rfl⟩

/-- A report that leaves the flag as it is has changed no total. -/
theorem acceptInternal_clean {read : List UInt8} (h : (m.acceptInternal read).dirty = false) :
    m.acceptInternal read = m := by
  unfold acceptInternal at h ⊢
  split at h
  · rfl
  · next tx rx hstat =>
      dsimp only at h ⊢
      by_cases htx : m.current.txTotal = tx
      · by_cases hrx : m.current.rxTotal = rx
        · simp only [htx, hrx, ne_eq, not_true_eq_false, if_false]
        · simp only [htx, hrx, ne_eq, not_true_eq_false, not_false_eq_true, if_false, if_true] at h
          cases h
      · by_cases hrx : m.current.rxTotal = rx
        · simp only [htx, hrx, ne_eq, not_true_eq_false, not_false_eq_true, if_false, if_true] at h
          cases h
        · simp only [htx, hrx, ne_eq, not_false_eq_true, if_true] at h
          cases h

theorem requestUpdate_timestamp (m : TrafficMonitor) (now : Int) :
    (m.requestUpdate now).1.timestampLast = now := by
  unfold requestUpdate
  dsimp only
  split
  · split
    · rfl
    · rfl
  · rfl

/-- Within one tick of the clock nothing changes. -/
theorem requestUpdate_same {now : Int} (h : wrapLong (now - m.timestampLast) = 0) :
    m.requestUpdate now = ({ m with timestampLast := now }, false) := by
  unfold requestUpdate
  dsimp only
  rw [if_neg fun hne => hne h]

/-- A call that finds new totals. -/
theorem requestUpdate_dirty {now : Int} (h : wrapLong (now - m.timestampLast) ≠ 0)
    (hdirty : m.dirty = true) :
    (m.requestUpdate now).2 = true ∧ (m.requestUpdate now).1.dirty = false ∧ ∀ d : Direction,
      d.ofStats (m.requestUpdate now).1.out = d.ofStats m.current ∧
      d.ofRate (m.requestUpdate now).1.out =
        rate (d.ofStats m.current) (d.ofStats m.out) (wrapLong (now - m.timestampLast)) := by
  unfold requestUpdate
  dsimp only
  rw [if_pos h, if_pos hdirty]
  refine ⟨rfl, rfl, fun d => ?_⟩
  cases d
  · exact ⟨rfl, rfl⟩
  · exact ⟨rfl, rfl⟩

/-- A call that finds no new totals: the rates become zero. -/
theorem requestUpdate_clean {now : Int} (h : wrapLong (now - m.timestampLast) ≠ 0)
    (hdirty : m.dirty = false) :
    m.requestUpdate now =
      ({ m with timestampLast := now, out := { m.out with txRate := 0, rxRate := 0 } },
        decide (m.out.txRate ≠ 0 ∨ m.out.rxRate ≠ 0)) := by
  unfold requestUpdate
  dsimp only
  rw [if_pos h, if_neg (by rw [hdirty]; exact Bool.false_ne_true)]

end TrafficMonitor

/-! ## Runs -/

namespace Observed

variable {s s' : Observed} {now : Int}

/-- The time since the last call. -/
theorem wrapLong_elapsed (hs : s.Linked) (hnow : s.lastTime ≤ now) (hlong : IsLong now) :
    wrapLong (now - s.monitor.timestampLast) = now - s.lastTime := by
  have hclock := hs.clock
  rw [hs.time]
  refine wrapLong_of_isLong ?_
  unfold IsLong minLong maxLong at *
  omega

/-- What a call returns, from what the observer remembers. -/
structure Reports (s : Observed) (now : Int) (out : TrafficStats) (updated : Bool) : Prop where
  changed : now ≠ s.lastTime → ∀ d : Direction, d.ofStats out = d.ofReport s.lastReport ∧
    d.ofRate out = (1000 * (d.ofStats out - d.ofStats s.lastOut)).tdiv (now - s.lastTime)
  unchanged : updated = false → out = s.lastOut

theorem requestUpdate_reports (hs : s.Linked) (h : s.Regular (.requestUpdate now)) :
    s.Reports now (s.monitor.requestUpdate now).1.out (s.monitor.requestUpdate now).2 := by
  obtain ⟨hnow, hlong, hbytes⟩ := h
  have helapsed := wrapLong_elapsed hs hnow hlong
  by_cases hsame : now = s.lastTime
  · have hzero : wrapLong (now - s.monitor.timestampLast) = 0 := by
      rw [helapsed]
      omega
    rw [TrafficMonitor.requestUpdate_same hzero]
    exact ⟨fun hne => absurd hsame hne, fun _ => hs.out⟩
  · have hne : wrapLong (now - s.monitor.timestampLast) ≠ 0 := by
      rw [helapsed]
      omega
    cases hdirty : s.monitor.dirty with
    | true =>
        obtain ⟨hflag, -, hout⟩ := TrafficMonitor.requestUpdate_dirty hne hdirty
        refine ⟨fun _ d => ?_, fun hfalse => absurd (hflag.symm.trans hfalse) (by decide)⟩
        obtain ⟨htotal, hrate⟩ := hout d
        rw [hs.report d] at htotal
        refine ⟨htotal, ?_⟩
        rw [hrate, helapsed, htotal, hs.report d, hs.out, rate_eq (hbytes d) (by omega),
          Int.mul_comm]
    | false =>
        rw [TrafficMonitor.requestUpdate_clean hne hdirty]
        refine ⟨fun _ d => ?_, fun hfalse => ?_⟩
        · -- the totals are still those of the last call, so that the quotient is zero
          have htotal : d.ofStats s.lastOut = d.ofReport s.lastReport := by
            rw [← hs.out, hs.clean hdirty d, hs.report d]
          have hstats : d.ofStats { s.monitor.out with txRate := 0, rxRate := 0 } =
              d.ofReport s.lastReport := by
            rw [← htotal, ← hs.out]
            cases d
            · rfl
            · rfl
          refine ⟨hstats, ?_⟩
          rw [hstats, htotal, Int.sub_self, Int.mul_zero, Int.zero_tdiv]
          cases d
          · rfl
          · rfl
        · have hrates := of_decide_eq_false hfalse
          have hzero : s.monitor.out.txRate = 0 ∧ s.monitor.out.rxRate = 0 := by omega
          rw [← hs.out]
          exact (TrafficStats.eq_of_rates_zero hzero.1 hzero.2).symm

/-- One report or one call keeps the link. -/
theorem step_keeps {e : RateEvent} (hs : s.Linked) (h : s.Regular e) (hstep : s.step e = some s') :
    s'.Linked := by
  cases e with
  | report read =>
      cases hstep
      obtain ⟨hout, htime⟩ := TrafficMonitor.acceptInternal_out s.monitor read
      refine ⟨htime.trans hs.time, hout.trans hs.out, fun d => ?_, hs.clock, fun hclean => ?_⟩
      · show d.ofStats (s.monitor.acceptInternal read).current = _
        rw [TrafficMonitor.ofStats_acceptInternal]
        cases statOf read with
        | none => exact hs.report d
        | some r => rfl
      · have hsame : s.monitor.acceptInternal read = s.monitor :=
          TrafficMonitor.acceptInternal_clean hclean
        show ∀ d : Direction, d.ofStats (s.monitor.acceptInternal read).out = _
        rw [hsame]
        exact hs.clean (hsame ▸ hclean)
  | requestUpdate now =>
      cases hstep
      obtain ⟨hnow, hlong, -⟩ := h
      have helapsed := wrapLong_elapsed hs hnow hlong
      have hclock := hs.clock
      refine ⟨TrafficMonitor.requestUpdate_timestamp _ _, rfl, fun d => ?_,
        by show 0 ≤ now; omega, ?_⟩
      · show d.ofStats (s.monitor.requestUpdate now).1.current = _
        rw [TrafficMonitor.requestUpdate_current]
        exact hs.report d
      · show (s.monitor.requestUpdate now).1.dirty = false → ∀ d : Direction,
          d.ofStats (s.monitor.requestUpdate now).1.out = d.ofStats
            (s.monitor.requestUpdate now).1.current
        rw [TrafficMonitor.requestUpdate_current]
        by_cases hzero : wrapLong (now - s.monitor.timestampLast) = 0
        · rw [TrafficMonitor.requestUpdate_same hzero]
          exact hs.clean
        · cases hdirty : s.monitor.dirty with
          | true =>
              intro _ d
              exact ((TrafficMonitor.requestUpdate_dirty hzero hdirty).2.2 d).1
          | false =>
              rw [TrafficMonitor.requestUpdate_clean hzero hdirty]
              intro _ d
              rw [← hs.clean hdirty d]
              cases d
              · rfl
              · rfl

theorem linked_start : Linked {} where
  time := rfl
  out := rfl
  report := by
    intro d
    cases d
    · rfl
    · rfl
  clock := Int.le_refl 0
  clean := by
    intro _ d
    rfl

/-- After any run of reports and calls, a monitor without the flag shows the current totals, and the
next call returns the totals of the last report with the rates since the last call, or exactly the
last result. -/
theorem rates_lose_nothing (events : List RateEvent) (hregular : Meets step Regular {} events)
    (s : Observed) (hrun : run step {} events = some s) :
    (s.monitor.dirty = false → ∀ d : Direction,
        d.ofStats s.monitor.out = d.ofStats s.monitor.current) ∧
      ∀ now, s.Regular (.requestUpdate now) →
        s.Reports now (s.monitor.requestUpdate now).1.out (s.monitor.requestUpdate now).2 := by
  have hlinked : s.Linked := run_invariant_of_meets
    (fun s e s' hs h hstep => step_keeps hs h hstep) linked_start hregular hrun
  exact ⟨hlinked.clean, fun now h => requestUpdate_reports hlinked h⟩

/-- A report and a call after a second; the next call, half a second later, finds nothing new. -/
theorem rates_lose_nothing_second :
    ∃ s, run step {} [.report smallReport, .requestUpdate 1000] = some s ∧
      s.lastOut = ⟨5, 3, 5, 3⟩ ∧
      s.Reports 1500 (s.monitor.requestUpdate 1500).1.out (s.monitor.requestUpdate 1500).2 := by
  have hview : (run step {} [.report smallReport, .requestUpdate 1000]).map
      (fun s => (s.lastTime, s.lastOut, s.lastReport)) = some (1000, ⟨5, 3, 5, 3⟩, (5, 3)) := by
    decide +kernel
  obtain ⟨s, hrun, hs⟩ := Option.map_eq_some_iff.mp hview
  simp only [Prod.mk.injEq] at hs
  obtain ⟨htime, hout, hreport⟩ := hs
  have hfirst : ((statOf smallReport).getD (0, 0)) = (5, 3) := by decide +kernel
  have hregular : Meets step Regular {} [.report smallReport, .requestUpdate 1000] := by
    refine ⟨rfl, ⟨by decide, by decide, fun d => ?_⟩, trivial⟩
    show IsLong ((d.ofReport ((statOf smallReport).getD (0, 0)) - d.ofStats {}) * 1000)
    rw [hfirst]
    cases d
    · decide
    · decide
  refine ⟨s, hrun, hout, (rates_lose_nothing _ hregular s hrun).2 1500 ⟨?_, by decide, fun d => ?_⟩⟩
  · rw [htime]
    decide
  · rw [hreport, hout]
    cases d
    · decide
    · decide

end Observed

end CypherConnect.Bg
