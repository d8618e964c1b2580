/-
  The life cycle of a service instance, over every order of events.

  A reachable state is in one of five phases (`Phase`): stopped, connecting, connected, or stopping
  in one of the two places where the clean-up waits. A phase says which coroutines are alive and
  which pool may still have guards. `phase_step` shows that every step goes from phase to phase, and
  `service_lifecycle` reads off what holds between steps: nothing is left over in `Stopped`,
  `Connected` has its proxy and its processes, pools do not overlap, and `Stopping` leads to
  `Stopped` only.
-/
import CypherConnect.Bg.BaseService

namespace CypherConnect.Bg

open Machine

namespace Service

/-- Nothing is held. -/
structure Released (s : Service) : Prop where
  processes : s.processes = none
  proxy : s.proxy = none
  udpFallback : s.udpFallback = none
  localDns : s.localDns = false
  notification : s.notification = none
  closeReceiver : s.closeReceiverRegistered = false

/-- Only the pool `owner` may have guards that have not ended. -/
def Settled (s : Service) (owner : Option Nat) : Prop :=
  ∀ p ∈ s.pools, 0 < p.guards → owner = some p.id

/-! ## Phases -/

structure IsStopped (s : Service) : Prop where
  state : s.state = .stopped
  released : s.Released
  jobs : s.jobs = []
  stops : s.stops = []
  settled : s.Settled none

structure IsConnecting (s : Service) (job : ConnectingJob) : Prop where
  state : s.state = .connecting
  jobs : s.jobs = [job]
  current : s.connectingJob = some job.id
  active : job.cancelled = false
  proxy : s.proxy.isSome
  stops : s.stops = []
  pool : s.processes.isSome ↔ job.point = .starting
  settled : s.Settled s.processes

structure IsConnected (s : Service) : Prop where
  state : s.state = .connected
  jobs : s.jobs = []
  proxy : s.proxy.isSome
  processes : s.processes.isSome
  stops : s.stops = []
  settled : s.Settled s.processes

/-- The clean-up waits for the connecting job, which it has cancelled. -/
structure IsJoining (s : Service) (restart : Bool) (job : Nat) : Prop where
  state : s.state = .stopping
  stops : s.stops = [⟨restart, .joining job⟩]
  jobs : ∀ j ∈ s.jobs, j.id = job ∧ j.cancelled = true
  settled : s.Settled s.processes

/-- The clean-up has released everything and waits for the pool. -/
structure IsCleaning (s : Service) (restart : Bool) (pool : Option Nat) : Prop where
  state : s.state = .stopping
  stops : s.stops = [⟨restart, .cleaning pool⟩]
  released : s.Released
  jobs : s.jobs = []
  settled : s.Settled pool

/-- The states an instance can be in between two steps. -/
inductive Phase (s : Service) : Prop where
  | stopped (h : s.IsStopped)
  | connecting (job : ConnectingJob) (h : s.IsConnecting job)
  | connected (h : s.IsConnected)
  | joining (restart : Bool) (job : Nat) (h : s.IsJoining restart job)
  | cleaning (restart : Bool) (pool : Option Nat) (h : s.IsCleaning restart pool)

theorem phase_init : Phase {} :=
  .stopped ⟨rfl, ⟨rfl, rfl, rfl, rfl, rfl, rfl⟩, rfl, rfl, fun _ h => absurd h List.not_mem_nil⟩

variable {s s' : Service}

/-- What the instance has sent to itself does not matter for the phase. -/
theorem Phase.with_pending (h : s.Phase) (starts fatals : Nat) :
    (s.withPending starts fatals).Phase := by
  cases h with
  | stopped h =>
      obtain ⟨h1, h2, h3, h4, h5, h6⟩ := h.released
      exact .stopped ⟨h.state, ⟨h1, h2, h3, h4, h5, h6⟩, h.jobs, h.stops, h.settled⟩
  | connecting job h =>
      exact .connecting job ⟨h.state, h.jobs, h.current, h.active, h.proxy, h.stops, h.pool,
        h.settled⟩
  | connected h => exact .connected ⟨h.state, h.jobs, h.proxy, h.processes, h.stops, h.settled⟩
  | joining restart job h => exact .joining restart job ⟨h.state, h.stops, h.jobs, h.settled⟩
  | cleaning restart pool h =>
      obtain ⟨h1, h2, h3, h4, h5, h6⟩ := h.released
      exact .cleaning restart pool
        ⟨h.state, h.stops, ⟨h1, h2, h3, h4, h5, h6⟩, h.jobs, h.settled⟩

theorem Phase.of_stopped (h : s.Phase) (hs : s.state = .stopped) : s.IsStopped := by
  cases h with
  | stopped h => exact h
  | connecting job h => rw [h.state] at hs; cases hs
  | connected h => rw [h.state] at hs; cases hs
  | joining r job h => rw [h.state] at hs; cases hs
  | cleaning r pool h => rw [h.state] at hs; cases hs

/-- A connecting job that has not completed is the job of a connecting instance, or the cancelled
one a clean-up waits for. -/
theorem Phase.of_job_mem (h : s.Phase) {job : ConnectingJob} (hmem : job ∈ s.jobs) :
    s.IsConnecting job ∨ ∃ restart id, s.IsJoining restart id ∧ job.cancelled = true := by
  cases h with
  | stopped h => rw [h.jobs] at hmem; cases hmem
  | connected h => rw [h.jobs] at hmem; cases hmem
  | cleaning restart pool h => rw [h.jobs] at hmem; cases hmem
  | connecting current h =>
      rw [h.jobs] at hmem
      obtain rfl := List.mem_singleton.mp hmem
      exact Or.inl h
  | joining restart id h => exact Or.inr ⟨restart, id, h, (h.jobs job hmem).2⟩

/-! ## stopRunner -/

theorem settled_close {owner : Option Nat} (h : s.Settled owner) (pool : Option Nat) :
    ∀ p ∈ s.pools.map (fun p => if some p.id = pool then { p with closed := true } else p),
      0 < p.guards → owner = some p.id := by
  intro p hp hg
  obtain ⟨q, hq, rfl⟩ := List.mem_map.mp hp
  by_cases hpool : some q.id = pool
  · rw [if_pos hpool] at hg ⊢
    exact h q hq hg
  · rw [if_neg hpool] at hg ⊢
    exact h q hq hg

theorem isCleaning_cleanUp (hstate : s.state = .stopping) (hjobs : s.jobs = [])
    (hstops : s.stops = []) (hset : s.Settled s.processes) (restart : Bool) :
    (s.cleanUp restart).IsCleaning restart s.processes where
  state := hstate
  stops := by
    unfold cleanUp
    rw [hstops]
    rfl
  released := ⟨rfl, rfl, rfl, rfl, rfl, rfl⟩
  jobs := hjobs
  settled := settled_close hset _

/-- Without a live connecting job the clean-up runs to its end. -/
theorem phase_stopRunner_alone (hne : s.state ≠ .stopping) (hjobs : s.jobs = [])
    (hstops : s.stops = []) (hset : s.Settled s.processes)
    (restart : Bool) : Phase (s.stopRunner restart) := by
  have hdead : ∀ job, s.connectingJob = some job → ¬ s.IsLive job := by
    intro job _
    unfold IsLive
    rw [hjobs]
    exact List.not_mem_nil
  rw [stopRunner_of_not_live hne hdead]
  exact .cleaning _ _
    (isCleaning_cleanUp (s := s.changeState .stopping) rfl hjobs hstops hset restart)

/-- A live connecting job is cancelled and waited for. -/
theorem isJoining_stopRunner {job : ConnectingJob} (h : s.IsConnecting job) (restart : Bool) :
    (s.stopRunner restart).IsJoining restart job.id := by
  have hne : s.state ≠ .stopping := by
    rw [h.state]
    exact State.noConfusion
  have hlive : s.IsLive job.id := by
    unfold IsLive
    rw [h.jobs]
    exact List.mem_cons_self
  have hcancel : (s.jobs.map fun j => if j.id = job.id then { j with cancelled := true } else j) =
      [{ job with cancelled := true }] := by
    rw [h.jobs, List.map_singleton, if_pos rfl]
  have hstops : s.stops ++ [⟨restart, .joining job.id⟩] = [⟨restart, .joining job.id⟩] := by
    rw [h.stops, List.nil_append]
  rw [stopRunner_of_live hne h.current hlive]
  refine ⟨rfl, hstops, fun j hj => ?_, h.settled⟩
  have hj' : j ∈ [{ job with cancelled := true }] := hcancel ▸ hj
  rw [List.mem_singleton.mp hj']
  exact ⟨rfl, rfl⟩

theorem phase_stopRunner (h : s.Phase) (restart : Bool) : Phase (s.stopRunner restart) := by
  cases h with
  | stopped h =>
      refine phase_stopRunner_alone ?_ h.jobs h.stops ?_ restart
      · rw [h.state]
        exact State.noConfusion
      · rw [h.released.processes]
        exact h.settled
  | connecting job h => exact .joining restart job.id (isJoining_stopRunner h restart)
  | connected h =>
      refine phase_stopRunner_alone ?_ h.jobs h.stops h.settled restart
      rw [h.state]
      exact State.noConfusion
  | joining r job h =>
      rw [stopRunner_of_stopping h.state]
      exact .joining r job h
  | cleaning r pool h =>
      rw [stopRunner_of_stopping h.state]
      exact .cleaning r pool h

theorem dropStop_stops {stop : StopJob} (h : s.stops = [stop]) : (s.dropStop stop).stops = [] := by
  unfold dropStop
  rw [h]
  exact List.erase_cons_head ..

/-- The job waited for was the only one. -/
theorem phase_resume_joining {restart : Bool} {job : Nat} (h : s.IsJoining restart job)
    (hdead : ¬ s.IsLive job) : Phase ((s.dropStop ⟨restart, .joining job⟩).cleanUp restart) := by
  have hjobs : s.jobs = [] := by
    by_contra hne
    obtain ⟨j, hj⟩ := List.exists_mem_of_ne_nil _ hne
    exact hdead ((h.jobs j hj).1 ▸ List.mem_map_of_mem hj)
  exact .cleaning _ _ (isCleaning_cleanUp (s := s.dropStop _) h.state hjobs (dropStop_stops h.stops)
    h.settled restart)

/-- The pool waited for is complete now, and the others were. -/
theorem phase_resume_cleaning {restart : Bool} {pool : Option Nat} (h : s.IsCleaning restart pool)
    (hdone : s.PoolDone pool) :
    Phase ((s.dropStop ⟨restart, .cleaning pool⟩).finishStop restart) := by
  have hset : s.Settled none := by
    intro p hp hg
    have howner := h.settled p hp hg
    have := hdone p hp howner.symm
    omega
  have hstopped : IsStopped ((s.dropStop ⟨restart, .cleaning pool⟩).changeState .stopped) := by
    obtain ⟨h1, h2, h3, h4, h5, h6⟩ := h.released
    exact ⟨rfl, ⟨h1, h2, h3, h4, h5, h6⟩, h.jobs, dropStop_stops h.stops, hset⟩
  unfold finishStop
  cases restart
  · exact .stopped hstopped
  · exact (Phase.stopped hstopped).with_pending _ _

/-! ## onStartCommand -/

theorem isConnecting_launch (h : s.IsStopped) (main : ProxyInstance) (udp : Option ProxyInstance) :
    (s.launchConnecting main udp).IsConnecting ⟨s.nextJob, .created, false⟩ where
  state := rfl
  jobs := by
    unfold launchConnecting
    rw [h.jobs]
    rfl
  current := rfl
  active := rfl
  proxy := rfl
  stops := h.stops
  pool := by
    change s.processes.isSome ↔ _
    rw [h.released.processes]
    exact ⟨fun he => absurd he Bool.false_ne_true, fun he => ConnectPoint.noConfusion he⟩
  settled := by
    change s.Settled s.processes
    rw [h.released.processes]
    exact h.settled

theorem phase_onStartCommand (P : Platform) (h : s.Phase) (current : Option ExpandedProfile) :
    Phase (s.onStartCommand P current) := by
  by_cases hst : s.state = .stopped
  · have hs : s.IsStopped := h.of_stopped hst
    have hne : s.state ≠ .stopping := by
      rw [hst]
      exact State.noConfusion
    have hset : s.Settled s.processes := by
      rw [hs.released.processes]
      exact hs.settled
    unfold onStartCommand
    rw [if_neg (not_not_intro hst)]
    -- a start that is refused has set the notification, and perhaps the proxy, before it stops
    split
    · exact phase_stopRunner_alone (s := { s with notification := some [] }) hne hs.jobs hs.stops
        hset false
    · split
      · exact phase_stopRunner_alone (s := { s with notification := some [] }) hne hs.jobs hs.stops
          hset false
      · next main _ =>
          split
          · exact .connecting _ (isConnecting_launch hs main none)
          · split
            · exact phase_stopRunner_alone
                (s := { s with proxy := some main, notification := some [] }) hne hs.jobs hs.stops
                hset false
            · next udp _ => exact .connecting _ (isConnecting_launch hs main (some udp))
  · have heq : s.onStartCommand P current = s := if_pos hst
    rw [heq]
    exact h

theorem phase_handleStart (P : Platform) (h : s.Phase) (prepared : Bool)
    (current : Option ExpandedProfile) : Phase (s.handleStart P prepared current) := by
  unfold handleStart
  split
  · exact phase_onStartCommand P h current
  · exact phase_stopRunner h false

theorem phase_forceLoad (h : s.Phase) : Phase s.forceLoad := by
  unfold forceLoad
  split
  · exact h.with_pending _ _
  · split
    · exact phase_stopRunner h true
    · exact h

/-! ## The connecting job -/

theorem map_move_singleton (job : ConnectingJob) (point : ConnectPoint) :
    ([job].map fun j => if j.id = job.id then { j with point } else j) = [{ job with point }] := by
  rw [List.map_singleton, if_pos rfl]

theorem filter_drop_singleton (job : ConnectingJob) :
    ([job].filter fun j => j.id != job.id) = [] := by
  simp

/-- The job moves on before the pool is made. -/
theorem isConnecting_moveJob {job : ConnectingJob} (h : s.IsConnecting job) {point : ConnectPoint}
    (hbefore : job.point ≠ .starting) (hafter : point ≠ .starting) :
    (s.moveJob job point).IsConnecting { job with point } where
  state := h.state
  jobs := by
    unfold moveJob
    rw [h.jobs]
    exact map_move_singleton job point
  current := h.current
  active := h.active
  proxy := h.proxy
  stops := h.stops
  pool := by
    have hnone : ¬ s.processes.isSome := fun hp => hbefore (h.pool.mp hp)
    exact ⟨fun hp => absurd hp hnone, fun hp => absurd hp hafter⟩
  settled := h.settled

/-- Before the pool is made there is none, and no guard of an earlier one is left. -/
theorem no_pool_before_start {job : ConnectingJob} (h : s.IsConnecting job)
    (hbefore : job.point ≠ .starting) : s.processes = none ∧ ∀ p ∈ s.pools, p.guards = 0 := by
  have hnone : s.processes = none := by
    cases hp : s.processes with
    | none => rfl
    | some pool => exact absurd (h.pool.mp (by rw [hp]; rfl)) hbefore
  refine ⟨hnone, fun p hp => ?_⟩
  by_contra hg
  have howner := h.settled p hp (by omega)
  rw [hnone] at howner
  cases howner

theorem isConnecting_launched {job : ConnectingJob} (h : s.IsConnecting job)
    (hbefore : job.point = .flattening) (guards : Nat) (localDns : Bool) :
    ((s.startProcesses guards localDns).moveJob job .starting).IsConnecting
      { job with point := .starting } where
  state := h.state
  jobs := by
    change (s.jobs.map _) = _
    rw [h.jobs]
    exact map_move_singleton job .starting
  current := h.current
  active := h.active
  proxy := h.proxy
  stops := h.stops
  pool := ⟨fun _ => rfl, fun _ => rfl⟩
  settled := by
    have hne : job.point ≠ .starting := by
      rw [hbefore]
      exact ConnectPoint.noConfusion
    obtain ⟨_, hdone⟩ := no_pool_before_start h hne
    intro p hp hg
    rcases List.mem_append.mp hp with hp | hp
    · have := hdone p hp
      omega
    · rw [List.mem_singleton.mp hp]
      rfl

theorem isConnected_of_connecting {job : ConnectingJob} (h : s.IsConnecting job)
    (hbefore : job.point = .starting) :
    ((s.changeState .connected).endJob job).IsConnected where
  state := rfl
  jobs := by
    change (s.jobs.filter _) = []
    rw [h.jobs]
    exact filter_drop_singleton job
  proxy := h.proxy
  processes := h.pool.mpr hbefore
  stops := h.stops
  settled := h.settled

/-- A job that ends leaves the clean-up waiting for it, or for nothing. -/
theorem isJoining_dropJob {restart : Bool} {id : Nat} (h : s.IsJoining restart id)
    (job : ConnectingJob) : (s.dropJob job).IsJoining restart id :=
  ⟨h.state, h.stops, fun j hj => h.jobs j (List.mem_of_mem_filter hj), h.settled⟩

theorem isJoining_endJob {restart : Bool} {id : Nat} (h : s.IsJoining restart id)
    (job : ConnectingJob) : (s.endJob job).IsJoining restart id :=
  ⟨h.state, h.stops, fun j hj => h.jobs j (List.mem_of_mem_filter hj), h.settled⟩

theorem phase_jobStep (h : s.Phase) {job : ConnectingJob} (hmem : job ∈ s.jobs)
    (hjob : JobStep s job s') : s'.Phase := by
  rcases h.of_job_mem hmem with h | ⟨restart, id, h, hcancelled⟩
  · cases hjob with
    | moved point _ hbefore hafter => exact .connecting _ (isConnecting_moveJob h hbefore hafter)
    | launched guards dns _ hbefore =>
        exact .connecting _ (isConnecting_launched h hbefore guards dns)
    | connected _ hbefore => exact .connected (isConnected_of_connecting h hbefore)
    | failed => exact .joining _ _ (isJoining_endJob (isJoining_stopRunner h false) job)
    | dropped hc => rw [h.active] at hc; cases hc
    | ended hc => rw [h.active] at hc; cases hc
  · cases hjob with
    | moved point hc => rw [hcancelled] at hc; cases hc
    | launched guards dns hc => rw [hcancelled] at hc; cases hc
    | connected hc => rw [hcancelled] at hc; cases hc
    | failed =>
        rw [stopRunner_of_stopping h.state]
        exact .joining _ _ (isJoining_endJob h job)
    | dropped _ => exact .joining _ _ (isJoining_dropJob h job)
    | ended _ => exact .joining _ _ (isJoining_endJob h job)

/-! ## Every step -/

theorem settled_guardEnds {owner : Option Nat} (h : s.Settled owner) (pool : Nat) :
    ∀ p ∈ s.pools.map (fun p => if p.id = pool then { p with guards := p.guards - 1 } else p),
      0 < p.guards → owner = some p.id := by
  intro p hp hg
  obtain ⟨q, hq, rfl⟩ := List.mem_map.mp hp
  by_cases hpool : q.id = pool
  · rw [if_pos hpool] at hg ⊢
    dsimp only at hg
    exact h q hq (by omega)
  · rw [if_neg hpool] at hg ⊢
    exact h q hq hg

theorem phase_guard (h : s.Phase) (pool fatals : Nat) : Phase { s with
    pools := s.pools.map fun p => if p.id = pool then { p with guards := p.guards - 1 } else p
    pendingFatals := fatals } := by
  cases h with
  | stopped h =>
      obtain ⟨h1, h2, h3, h4, h5, h6⟩ := h.released
      exact .stopped ⟨h.state, ⟨h1, h2, h3, h4, h5, h6⟩, h.jobs, h.stops,
        settled_guardEnds h.settled pool⟩
  | connecting job h =>
      exact .connecting job ⟨h.state, h.jobs, h.current, h.active, h.proxy, h.stops, h.pool,
        settled_guardEnds h.settled pool⟩
  | connected h =>
      exact .connected ⟨h.state, h.jobs, h.proxy, h.processes, h.stops,
        settled_guardEnds h.settled pool⟩
  | joining restart job h =>
      exact .joining restart job ⟨h.state, h.stops, h.jobs, settled_guardEnds h.settled pool⟩
  | cleaning restart waited h =>
      obtain ⟨h1, h2, h3, h4, h5, h6⟩ := h.released
      exact .cleaning restart waited ⟨h.state, h.stops, ⟨h1, h2, h3, h4, h5, h6⟩, h.jobs,
        settled_guardEnds h.settled pool⟩

/-- A waiting clean-up is the one of the phase. -/
theorem phase_of_stop_mem (h : s.Phase) {stop : StopJob} (hmem : stop ∈ s.stops) :
    (∃ restart job, stop = ⟨restart, .joining job⟩ ∧ s.IsJoining restart job) ∨
      ∃ restart pool, stop = ⟨restart, .cleaning pool⟩ ∧ s.IsCleaning restart pool := by
  cases h with
  | stopped h => rw [h.stops] at hmem; cases hmem
  | connecting job h => rw [h.stops] at hmem; cases hmem
  | connected h => rw [h.stops] at hmem; cases hmem
  | joining restart job h =>
      rw [h.stops] at hmem
      exact Or.inl ⟨restart, job, List.mem_singleton.mp hmem, h⟩
  | cleaning restart pool h =>
      rw [h.stops] at hmem
      exact Or.inr ⟨restart, pool, List.mem_singleton.mp hmem, h⟩

/-- Every step goes from phase to phase. -/
theorem phase_step {P : Platform} (h : s.Phase) {e : ServiceEvent} (hstep : s.step P e = some s') :
    s'.Phase := by
  cases step_cases hstep with
  | start starts fatals prepared current =>
      exact phase_handleStart P (h.with_pending starts fatals) prepared current
  | stop starts fatals => exact phase_stopRunner (h.with_pending starts fatals) false
  | load => exact phase_forceLoad h
  | quiet => exact h
  | job job hmem hjob => exact phase_jobStep h hmem hjob
  | joined restart job hmem hdead =>
      rcases phase_of_stop_mem h hmem with ⟨r, j, heq, hj⟩ | ⟨r, p, heq, _⟩ <;> cases heq
      exact phase_resume_joining hj hdead
  | cleaned restart pool hmem hdone =>
      rcases phase_of_stop_mem h hmem with ⟨r, j, heq, _⟩ | ⟨r, p, heq, hp⟩ <;> cases heq
      exact phase_resume_cleaning hp hdone
  | guard pool fatals => exact phase_guard h pool fatals

/-! ## What the phases say -/

theorem length_pools_cleanUp (s : Service) (restart : Bool) :
    (s.cleanUp restart).pools.length = s.pools.length := List.length_map ..

theorem length_pools_stopRunner (s : Service) (restart : Bool) :
    (s.stopRunner restart).pools.length = s.pools.length := by
  unfold stopRunner
  split
  · rfl
  · split
    · exact length_pools_cleanUp _ _
    · split
      · rfl
      · exact length_pools_cleanUp _ _

theorem length_pools_handleStart (P : Platform) (s : Service) (prepared : Bool)
    (current : Option ExpandedProfile) :
    (s.handleStart P prepared current).pools.length = s.pools.length := by
  unfold handleStart onStartCommand
  split
  · split
    · rfl
    · split
      · exact length_pools_stopRunner _ _
      · split
        · exact length_pools_stopRunner _ _
        · split
          · rfl
          · split
            · exact length_pools_stopRunner _ _
            · rfl
  · exact length_pools_stopRunner _ _

theorem length_pools_forceLoad (s : Service) : s.forceLoad.pools.length = s.pools.length := by
  unfold forceLoad
  split
  · rfl
  · split
    · exact length_pools_stopRunner _ _
    · rfl

/-- A step that makes a pool finds no other pool at work. -/
theorem pool_made_alone {P : Platform} (h : s.Phase) {e : ServiceEvent}
    (hstep : s.step P e = some s') (hmade : s'.pools.length ≠ s.pools.length) :
    s.processes = none ∧ ∀ p ∈ s.pools, p.guards = 0 := by
  cases step_cases hstep with
  | start starts fatals prepared current =>
      exact absurd (length_pools_handleStart P _ prepared current) hmade
  | stop starts fatals => exact absurd (length_pools_stopRunner _ false) hmade
  | load => exact absurd (length_pools_forceLoad s) hmade
  | quiet => exact absurd rfl hmade
  | joined restart job => exact absurd (length_pools_cleanUp _ restart) hmade
  | cleaned restart pool =>
      refine absurd ?_ hmade
      unfold finishStop
      cases restart <;> rfl
  | guard pool fatals => exact absurd (List.length_map ..) hmade
  | job job hmem hjob =>
      cases hjob with
      | moved => exact absurd rfl hmade
      | connected => exact absurd rfl hmade
      | failed => exact absurd (length_pools_stopRunner s false) hmade
      | dropped => exact absurd rfl hmade
      | ended => exact absurd rfl hmade
      | launched guards dns hactive hbefore =>
          -- the job is not cancelled, so the instance is connecting
          have hne : job.point ≠ .starting := by
            rw [hbefore]
            exact ConnectPoint.noConfusion
          rcases h.of_job_mem hmem with h | ⟨restart, id, _, hcancelled⟩
          · exact no_pool_before_start h hne
          · rw [hcancelled] at hactive
            cases hactive

theorem handleStart_of_stopping (P : Platform) (h : s.state = .stopping) (prepared : Bool)
    (current : Option ExpandedProfile) : s.handleStart P prepared current = s := by
  have hne : s.state ≠ .stopped := by
    rw [h]
    exact State.noConfusion
  have hignored : s.onStartCommand P current = s := if_pos hne
  unfold handleStart
  split
  · exact hignored
  · exact stopRunner_of_stopping h false

/-- A stopping instance goes on stopping until it is stopped. -/
theorem stopping_step {P : Platform} (h : s.Phase) (hs : s.state = .stopping) {e : ServiceEvent}
    (hstep : s.step P e = some s') : s'.state = .stopping ∨ s'.state = .stopped := by
  cases step_cases hstep with
  | start starts fatals prepared current =>
      rw [handleStart_of_stopping P (s := s.withPending starts fatals) hs]
      exact Or.inl hs
  | stop starts fatals =>
      rw [stopRunner_of_stopping (s := s.withPending starts fatals) hs]
      exact Or.inl hs
  | load =>
      unfold forceLoad
      rw [hs]
      exact Or.inl hs
  | quiet => exact Or.inl hs
  | joined restart job => exact Or.inl hs
  | cleaned restart pool =>
      unfold finishStop
      cases restart <;> exact Or.inr rfl
  | guard pool fatals => exact Or.inl hs
  | job job hmem hjob =>
      have hcancelled : job.cancelled = true := by
        rcases h.of_job_mem hmem with h | ⟨restart, id, _, hcancelled⟩
        · rw [h.state] at hs
          cases hs
        · exact hcancelled
      cases hjob with
      | moved => exact Or.inl hs
      | launched => exact Or.inl hs
      | connected hactive => rw [hcancelled] at hactive; cases hactive
      | failed =>
          rw [stopRunner_of_stopping hs]
          exact Or.inl hs
      | dropped => exact Or.inl hs
      | ended => exact Or.inl hs

theorem holds_of_connected (h : s.Phase) (hs : s.state = .connected) :
    s.proxy.isSome ∧ s.processes.isSome := by
  cases h with
  | stopped h => rw [h.state] at hs; cases hs
  | connecting job h => rw [h.state] at hs; cases hs
  | connected h => exact ⟨h.proxy, h.processes⟩
  | joining r job h => rw [h.state] at hs; cases hs
  | cleaning r pool h => rw [h.state] at hs; cases hs

end Service

open Service in
/-- After any events: a stopped instance holds nothing, a connected one has its proxy and its
processes, a step that makes a pool finds `processes` null and all earlier pools complete, and no
step leads from `Stopping` to `Connecting` or `Connected`. -/
theorem service_lifecycle (P : Platform) (events : List ServiceEvent) (s : Service)
    (hrun : run (step P) {} events = some s) :
    (s.state = .stopped → s.processes = none ∧ s.proxy = none ∧ s.udpFallback = none ∧
      s.localDns = false ∧ s.notification = none ∧ s.closeReceiverRegistered = false) ∧
    (s.state = .connected → s.proxy.isSome ∧ s.processes.isSome) ∧
    ∀ e s', s.step P e = some s' →
      (s'.pools.length ≠ s.pools.length → s.processes = none ∧ ∀ p ∈ s.pools, p.guards = 0) ∧
      (s.state = .stopping → s'.state ≠ .connecting ∧ s'.state ≠ .connected) := by
  have h : s.Phase := run_invariant (fun _ _ _ hp hstep => phase_step hp hstep) phase_init hrun
  refine ⟨fun hs => ?_, holds_of_connected h,
    fun e s' hstep => ⟨pool_made_alone h hstep, fun hs => ?_⟩⟩
  · obtain ⟨h1, h2, h3, h4, h5, h6⟩ := (h.of_stopped hs).released
    exact ⟨h1, h2, h3, h4, h5, h6⟩
  · rcases stopping_step h hs hstep with hs' | hs' <;> rw [hs'] <;>
      exact ⟨State.noConfusion, State.noConfusion⟩

/-- A profile that can be started. -/
def startable : Option ExpandedProfile :=
  some ⟨{ id := 1, host := "h".toList, password := "p".toList }, none⟩

/-- From a start to the connected state and, over a reload, to the next start. -/
def reloadRun : List ServiceEvent :=
  [.startCommand true startable, .resumeJob ⟨0, .created, false⟩ .preInit,
    .resumeJob ⟨0, .preInit, false⟩ .flattening,
    .resumeJob ⟨0, .flattening, false⟩ (.starting 1 true),
    .resumeJob ⟨0, .starting, false⟩ .connected, .reload, .guardEnds 0 false,
    .resumeStop ⟨true, .cleaning (some 0)⟩]

open Service in
theorem service_lifecycle_reload :
    ∃ s, run (step aosp) {} reloadRun = some s ∧ s.state = .stopped ∧ s.proxy = none ∧
      ∀ e s', s.step aosp e = some s' → s'.pools.length ≠ s.pools.length →
        ∀ p ∈ s.pools, p.guards = 0 := by
  have hend : (run (step aosp) {} reloadRun).map (fun s => s.state) = some .stopped := by
    decide +kernel
  obtain ⟨s, hs, hstate⟩ := Option.map_eq_some_iff.mp hend
  obtain ⟨hstopped, _, hstep⟩ := service_lifecycle aosp reloadRun s hs
  exact ⟨s, hs, hstate, (hstopped hstate).2.1, fun e s' he hmade => ((hstep e s' he).1 hmade).2⟩

end CypherConnect.Bg
