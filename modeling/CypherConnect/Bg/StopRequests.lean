/-
  Whether a stop request is honoured: after a CLOSE broadcast or `onRevoke` was handled, may the
  service connect again by itself?

  It may. `stopRunner` returns at once while the instance is stopping, and the clean-up that is
  running then has its own `restart` flag: a stop that comes during a reload is dropped
  (`stop_during_reload_lost`). The same happens while a start command of `startRunner` is under way.
  Otherwise every stop counts: `stop_requests_kept` is about all runs in which no stop meets a
  restart that is pending.
-/
import CypherConnect.Bg.Lifecycle

namespace CypherConnect.Bg

open Machine

/-- A stop by the user or the system. -/
def ServiceEvent.isStop : ServiceEvent → Bool
  | .close | .onRevoke => true
  | _ => false

/-- A start command from outside, or a RELOAD broadcast. -/
def ServiceEvent.asksStart : ServiceEvent → Bool
  | .startCommand .. | .reload => true
  | _ => false

namespace Service

/-- The instance is about to start itself: a clean-up will restart it, or has. -/
def RestartPending (s : Service) : Prop :=
  s.pendingStarts ≠ 0 ∨ ∃ stop ∈ s.stops, stop.restart = true

instance (s : Service) : Decidable s.RestartPending := inferInstanceAs (Decidable (_ ∨ _))

/-- A stop does not meet a pending restart. -/
def StopHeard (s : Service) (e : ServiceEvent) : Prop := e.isStop = true → ¬ s.RestartPending

instance (s : Service) (e : ServiceEvent) : Decidable (s.StopHeard e) :=
  inferInstanceAs (Decidable (_ → _))

/-- Not connecting, and no restart pending. -/
structure Quiet (s : Service) : Prop where
  state : s.state ≠ .connecting
  starts : s.pendingStarts = 0
  stops : ∀ stop ∈ s.stops, stop.restart = false

variable {s s' : Service}

theorem stops_of_not_restartPending (h : ¬ s.RestartPending) :
    s.pendingStarts = 0 ∧ ∀ stop ∈ s.stops, stop.restart = false := by
  unfold RestartPending at h
  push Not at h
  exact ⟨h.1, fun stop hm => Bool.eq_false_iff.mpr (h.2 stop hm)⟩

theorem stops_snoc (h : ∀ stop ∈ s.stops, stop.restart = false) (point : StopPoint) :
    ∀ stop ∈ s.stops ++ [⟨false, point⟩], stop.restart = false :=
  List.forall_mem_append.mpr ⟨h, List.forall_mem_singleton.mpr rfl⟩

/-- A stop without restart leaves nothing pending, and the instance stopping. -/
theorem quiet_stopRunner (hstarts : s.pendingStarts = 0)
    (hstops : ∀ stop ∈ s.stops, stop.restart = false) : (s.stopRunner false).Quiet := by
  unfold stopRunner
  split
  · next hs =>
      refine ⟨?_, hstarts, hstops⟩
      rw [hs]
      exact State.noConfusion
  · split
    · exact ⟨State.noConfusion, hstarts, stops_snoc hstops _⟩
    · split
      · exact ⟨State.noConfusion, hstarts, stops_snoc hstops _⟩
      · exact ⟨State.noConfusion, hstarts, stops_snoc hstops _⟩

theorem quiet_jobStep (h : s.Quiet) {job : ConnectingJob} (hjob : JobStep s job s') : s'.Quiet := by
  cases hjob with
  | moved => exact ⟨h.state, h.starts, h.stops⟩
  | launched => exact ⟨h.state, h.starts, h.stops⟩
  | connected => exact ⟨State.noConfusion, h.starts, h.stops⟩
  | failed =>
      obtain ⟨h1, h2, h3⟩ := quiet_stopRunner h.starts h.stops
      exact ⟨h1, h2, h3⟩
  | dropped => exact ⟨h.state, h.starts, h.stops⟩
  | ended => exact ⟨h.state, h.starts, h.stops⟩

theorem quiet_resumeStop (h : s.Quiet) {stop : StopJob} (hstep : s.resumeStop stop = some s') :
    s'.Quiet := by
  obtain ⟨hmem, hcases⟩ := resumeStop_some hstep
  have hrestart := h.stops stop hmem
  have hrest : ∀ other ∈ (s.dropStop stop).stops, other.restart = false :=
    fun other ho => h.stops other (List.mem_of_mem_erase ho)
  rcases hcases with ⟨job, _, _, rfl⟩ | ⟨pool, _, _, rfl⟩ <;> rw [hrestart]
  · exact ⟨h.state, h.starts, stops_snoc (s := s.dropStop stop) hrest _⟩
  · exact ⟨State.noConfusion, h.starts, hrest⟩

/-- Only a request to start ends the quiet. -/
theorem quiet_step {P : Platform} (h : s.Quiet) {e : ServiceEvent} (he : e.asksStart = false)
    (hstep : s.step P e = some s') : s'.Quiet := by
  have hstop := quiet_stopRunner h.starts h.stops
  cases e with
  | startCommand prepared current => cases he
  | reload => cases he
  | ownStart prepared current =>
      simp only [step] at hstep
      split at hstep
      · next hpos =>
          rw [h.starts] at hpos
          cases hpos
      · cases hstep
  | close =>
      simp only [step] at hstep
      split at hstep <;> cases hstep
      exact hstop
  | shutdown =>
      simp only [step] at hstep
      split at hstep <;> cases hstep
      exact h
  | onRevoke =>
      cases hstep
      exact hstop
  | resumeJob job progress => exact quiet_jobStep h (resumeJob_some hstep).2
  | resumeStop stop => exact quiet_resumeStop h hstep
  | guardEnds pool fatal =>
      simp only [step, guardEnds] at hstep
      split at hstep <;> cases hstep
      exact ⟨h.state, h.starts, h.stops⟩
  | onFatal =>
      simp only [step] at hstep
      split at hstep <;> cases hstep
      exact quiet_stopRunner (s := { s with pendingFatals := _ }) h.starts h.stops
  | restartFails pool =>
      simp only [step] at hstep
      split at hstep <;> cases hstep
      exact hstop

theorem quiet_of_stop {P : Platform} {e : ServiceEvent} (he : e.isStop = true)
    (hheard : s.StopHeard e) (hstep : s.step P e = some s') : s'.Quiet := by
  obtain ⟨hstarts, hstops⟩ := stops_of_not_restartPending (hheard he)
  have hstop := quiet_stopRunner hstarts hstops
  cases e with
  | close =>
      simp only [step] at hstep
      split at hstep <;> cases hstep
      exact hstop
  | onRevoke =>
      cases hstep
      exact hstop
  | _ => cases he

end Service

open Service in
/-- In every run whose stops do not meet a pending restart: after a stop, and as long as no start is
asked for from outside, the instance is not connecting. -/
theorem stop_requests_kept (P : Platform) (before after : List ServiceEvent) (stop : ServiceEvent)
    (s : Service) (hrun : run (step P) {} (before ++ stop :: after) = some s)
    (hheard : Meets (step P) StopHeard {} (before ++ stop :: after)) (hstop : stop.isStop = true)
    (hafter : ∀ e ∈ after, e.asksStart = false) : s.state ≠ .connecting := by
  obtain ⟨s1, hbefore, hrest⟩ := run_append_some hrun
  obtain ⟨s2, hstep, hlast⟩ := run_cons_some hrest
  have hheard1 := ((meets_append hbefore).mp hheard).2
  rw [meets_cons_of_step hstep] at hheard1
  have hquiet : s2.Quiet := quiet_of_stop hstop hheard1.1 hstep
  have hlater : Meets (step P) (fun _ e => e.asksStart = false) s2 after := meets_of_forall hafter
  exact (run_invariant_of_meets (fun _ _ _ hq he hs => quiet_step hq he hs) hquiet hlater
    hlast).state

/-- A stop during the connection, carried through. -/
def stopRun : List ServiceEvent :=
  [.startCommand true startable, .resumeJob ⟨0, .created, false⟩ .preInit] ++
    .close :: [.resumeJob ⟨0, .preInit, true⟩ .cancelled, .resumeStop ⟨false, .joining 0⟩,
      .resumeStop ⟨false, .cleaning none⟩, .onRevoke]

open Service in
theorem stop_requests_kept_connecting :
    ∃ s, run (step aosp) {} stopRun = some s ∧ s.state ≠ .connecting := by
  have hsome : (run (step aosp) {} stopRun).isSome := by decide +kernel
  obtain ⟨s, hs⟩ := Option.isSome_iff_exists.mp hsome
  exact ⟨s, hs, stop_requests_kept aosp _ _ .close s hs (by decide +kernel) rfl (by decide +kernel)⟩

open Service in
/-- A reload while connecting, then a CLOSE broadcast: the instance ends up connecting again. -/
theorem stop_during_reload_lost :
    ∃ s, run (step aosp) {} ([.startCommand true startable, .reload] ++
        .close :: [.resumeJob ⟨0, .created, true⟩ .cancelled, .resumeStop ⟨true, .joining 0⟩,
          .resumeStop ⟨true, .cleaning none⟩, .ownStart true startable]) = some s ∧
      s.state = .connecting := by
  have hstate : (run (step aosp) {} ([ServiceEvent.startCommand true startable, .reload] ++
        ServiceEvent.close :: [.resumeJob ⟨0, .created, true⟩ .cancelled,
          .resumeStop ⟨true, .joining 0⟩, .resumeStop ⟨true, .cleaning none⟩,
          .ownStart true startable])).map
      (fun s => s.state) = some .connecting := by decide +kernel
  exact Option.map_eq_some_iff.mp hstate

end CypherConnect.Bg
