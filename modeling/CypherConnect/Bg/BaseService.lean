/-
  `BaseService.Interface` with its `Data`: starting, stopping and restarting one service instance.

  Everything here happens on the main thread, one step at a time. Two kinds of coroutines run on it:
  the connecting job of `onStartCommand` and the clean-up that `stopRunner` launches. A step is what
  one of them does up to its next suspension point, or the handling of one event. Where the source
  may or may not suspend (`preInit`, the rules of a custom route, `sendFd`), the model stops;
  running through is two steps in a row.

  A cancelled coroutine ends at its next resumption: with the cancellation, or with an exception
  that was already on its way. The job of a pool is complete when its guards have ended.
-/
import CypherConnect.Lib.Machine
import CypherConnect.Database.ProfileManager
import CypherConnect.Platform.Android

namespace CypherConnect.Bg

inductive State where
  | idle
  | connecting
  | connected
  | stopping
  | stopped
  deriving DecidableEq, Repr

/-- `State.canStop`. -/
def State.canStop : State → Bool
  | .connecting | .connected => true
  | _ => false

/-! ## ProxyInstance -/

structure ProxyInstance where
  profile : Profile
  route : Text
  deriving DecidableEq, Repr

namespace ProxyInstance

/-- A key of an AEAD-2022 cipher is 16 or 32 bytes in Base64. -/
def keyValid (P : Platform) (pwd : Text) : Bool :=
  match P.base64Decode Base64.standard pwd with
  | some bytes => bytes.length == 16 || bytes.length == 32
  | none => false

/-- The constructor; `none` is its `IllegalArgumentException`. -/
def create (P : Platform) (profile : Profile) (route : Text) : Option ProxyInstance :=
  if profile.host.isEmpty || (profile.method != "none".toList && profile.password.isEmpty) then none
  else if profile.method ∈ ["aes-192-gcm".toList, "chacha20".toList, "salsa20".toList] then none
  else if profile.method ∈ ["2022-blake3-aes-128-gcm".toList, "2022-blake3-aes-256-gcm".toList,
      "2022-blake3-chacha20-poly1305".toList] && !(profile.password.splitOn ':').all
        (keyValid P) then
    none
  else some ⟨profile, route⟩

end ProxyInstance

/-! ## Coroutines and pools -/

/-- Where a connecting job is suspended. -/
inductive ConnectPoint where
  /-- Launched on `Dispatchers.Main`, not yet run. -/
  | created
  | preInit
  /-- `withContext(Dispatchers.IO)` around the custom rules. -/
  | flattening
  /-- In `startProcesses`, after the pool was made. -/
  | starting
  deriving DecidableEq, Repr

structure ConnectingJob where
  id : Nat
  point : ConnectPoint
  cancelled : Bool := false
  deriving DecidableEq, Repr

/-- Where the coroutine of `stopRunner` is suspended. -/
inductive StopPoint where
  /-- `connectingJob?.cancelAndJoin()`. -/
  | joining (job : Nat)
  /-- The end of `coroutineScope`, which waits for the pool that was closed. -/
  | cleaning (pool : Option Nat)
  deriving DecidableEq, Repr

structure StopJob where
  restart : Bool
  point : StopPoint
  deriving DecidableEq, Repr

/-- A `GuardedProcessPool` and the number of its guards that have not ended. -/
structure Pool where
  id : Nat
  guards : Nat
  closed : Bool := false
  deriving DecidableEq, Repr

/-- `Data`, the coroutines of the instance, and what it has sent to itself. -/
structure Service where
  state : State := .stopped
  processes : Option Nat := none
  proxy : Option ProxyInstance := none
  udpFallback : Option ProxyInstance := none
  localDns : Bool := false
  /-- The profile name in the notification. -/
  notification : Option Text := none
  closeReceiverRegistered : Bool := false
  connectingJob : Option Nat := none
  jobs : List ConnectingJob := []
  nextJob : Nat := 0
  stops : List StopJob := []
  /-- Every pool made so far. -/
  pools : List Pool := []
  /-- Start commands of `startRunner` that have not been delivered. -/
  pendingStarts : Nat := 0
  /-- Launched calls of `onFatal` that have not run. -/
  pendingFatals : Nat := 0
  deriving DecidableEq, Repr

namespace Service

/-- The job has not completed. -/
def IsLive (s : Service) (id : Nat) : Prop := id ∈ s.jobs.map ConnectingJob.id

instance (s : Service) (id : Nat) : Decidable (s.IsLive id) :=
  inferInstanceAs (Decidable (_ ∈ _))

/-- The pool's jobs have completed. -/
def PoolDone (s : Service) (pool : Option Nat) : Prop :=
  ∀ p ∈ s.pools, some p.id = pool → p.guards = 0

instance (s : Service) (pool : Option Nat) : Decidable (s.PoolDone pool) :=
  inferInstanceAs (Decidable (∀ p ∈ s.pools, some p.id = pool → p.guards = 0))

/-! ## stopRunner -/

/-- The block of `coroutineScope`: `killProcesses`, then receiver, notification and proxies. -/
def cleanUp (s : Service) (restart : Bool) : Service :=
  { s with
    pools := s.pools.map fun p => if some p.id = s.processes then { p with closed := true } else p
    processes := none
    localDns := false
    closeReceiverRegistered := false
    notification := none
    proxy := none
    udpFallback := none
    stops := s.stops ++ [⟨restart, .cleaning s.processes⟩] }

/-- `connectingJob.cancelAndJoin()`, up to where it suspends. -/
def cancelAndJoin (s : Service) (job : Nat) (restart : Bool) : Service :=
  { s with
    jobs := s.jobs.map fun j => if j.id = job then { j with cancelled := true } else j
    stops := s.stops ++ [⟨restart, .joining job⟩] }

/-- `Data.changeState`; the message only goes to the binder. -/
def changeState (s : Service) (state : State) : Service := { s with state }

/-- `stopRunner(restart, msg)`. Its coroutine runs at once as far as it can. -/
def stopRunner (s : Service) (restart : Bool) : Service :=
  if s.state = .stopping then s
  else match s.connectingJob with
    | none => (s.changeState .stopping).cleanUp restart
    | some job =>
        if s.IsLive job then (s.changeState .stopping).cancelAndJoin job restart
        else (s.changeState .stopping).cleanUp restart

/-- The coroutine of `stopRunner` leaves its suspension point. -/
def dropStop (s : Service) (stop : StopJob) : Service := { s with stops := s.stops.erase stop }

/-- `startRunner`: a start command to the service itself. -/
def startRunner (s : Service) : Service := { s with pendingStarts := s.pendingStarts + 1 }

/-- The end of the coroutine of `stopRunner`. -/
def finishStop (s : Service) (restart : Bool) : Service :=
  let s := s.changeState .stopped
  if restart then s.startRunner else s

/-- The coroutine of `stopRunner` goes on, if what it waits for has completed. -/
def resumeStop (s : Service) (stop : StopJob) : Option Service :=
  if stop ∈ s.stops then
    match stop.point with
    | .joining job => if s.IsLive job then none else some ((s.dropStop stop).cleanUp stop.restart)
    | .cleaning pool =>
        if s.PoolDone pool then some ((s.dropStop stop).finishStop stop.restart) else none
  else none

/-- `forceLoad`. -/
def forceLoad (s : Service) : Service :=
  if s.state = .stopped then s.startRunner
  else if s.state.canStop then s.stopRunner true
  else s

/-! ## onStartCommand -/

/-- The start of `onStartCommand` with a profile that both constructors accept. -/
def launchConnecting (s : Service) (main : ProxyInstance) (fallback : Option ProxyInstance) :
    Service :=
  { s with
    proxy := some main
    udpFallback := fallback
    closeReceiverRegistered := true
    notification := some main.profile.formattedName
    state := .connecting
    connectingJob := some s.nextJob
    jobs := s.jobs ++ [⟨s.nextJob, .created, false⟩]
    nextJob := s.nextJob + 1 }

/-- `BaseService.Interface.onStartCommand`, with `Core.currentProfile`. -/
def onStartCommand (P : Platform) (s : Service) (currentProfile : Option ExpandedProfile) :
    Service :=
  if s.state ≠ .stopped then s
  else match currentProfile with
    | none => { s with notification := some [] }.stopRunner false
    | some ⟨profile, fallback⟩ =>
        match ProxyInstance.create P profile profile.route with
        | none => { s with notification := some [] }.stopRunner false
        | some main =>
            match fallback with
            | none => s.launchConnecting main none
            | some fallback =>
                match ProxyInstance.create P fallback profile.route with
                | none => { s with proxy := some main, notification := some [] }.stopRunner false
                | some udp => s.launchConnecting main (some udp)

/-- `VpnService.onStartCommand`: without the VPN mode or its permission the service stops.
`prepared` is always true for the other services. -/
def handleStart (P : Platform) (s : Service) (prepared : Bool)
    (currentProfile : Option ExpandedProfile) : Service :=
  if prepared then s.onStartCommand P currentProfile else s.stopRunner false

/-! ## The connecting job -/

/-- How a connecting job gets to its next suspension point or ends. -/
inductive Progress where
  | preInit
  | flattening
  /-- The pool is made and `startProcesses` has started some guards, and the DNS worker or not
  yet. -/
  | starting (guards : Nat) (localDns : Bool)
  | connected
  /-- An exception other than the cancellation. -/
  | failed
  /-- The cancellation. -/
  | cancelled
  deriving DecidableEq, Repr

/-- The job moves to a suspension point. -/
def moveJob (s : Service) (job : ConnectingJob) (point : ConnectPoint) : Service :=
  { s with jobs := s.jobs.map fun j => if j.id = job.id then { j with point } else j }

/-- The job completes. -/
def dropJob (s : Service) (job : ConnectingJob) : Service :=
  { s with jobs := s.jobs.filter fun j => j.id != job.id }

/-- The `finally` block, after which the job completes. -/
def endJob (s : Service) (job : ConnectingJob) : Service :=
  { s with connectingJob := none }.dropJob job

/-- `data.processes = GuardedProcessPool { … }` and `startProcesses()`. -/
def startProcesses (s : Service) (guards : Nat) (localDns : Bool) : Service :=
  { s with
    processes := some s.pools.length
    pools := s.pools ++ [⟨s.pools.length, guards, false⟩]
    localDns }

/-- One resumption of the connecting job. -/
def resumeJob (s : Service) (job : ConnectingJob) (progress : Progress) : Option Service :=
  if job ∈ s.jobs then
    match job.cancelled, job.point, progress with
    | false, .created, .preInit => some (s.moveJob job .preInit)
    | false, .preInit, .flattening => some (s.moveJob job .flattening)
    | false, .flattening, .starting guards localDns =>
        some ((s.startProcesses guards localDns).moveJob job .starting)
    | false, .starting, .connected => some ((s.changeState .connected).endJob job)
    | false, _, .failed => some ((s.stopRunner false).endJob job)
    -- cancelled before its first run it completes without running `finally`
    | true, .created, .cancelled => some (s.dropJob job)
    | true, .created, .failed => none
    | true, _, .cancelled => some (s.endJob job)
    | true, _, .failed => some ((s.stopRunner false).endJob job)
    | _, _, _ => none
  else none

end Service

/-! ## Steps -/

/-- What can happen next on the main thread. -/
inductive ServiceEvent where
  /-- A start command from outside the service. -/
  | startCommand (prepared : Bool) (currentProfile : Option ExpandedProfile)
  /-- The delivery of a start command of `startRunner`. -/
  | ownStart (prepared : Bool) (currentProfile : Option ExpandedProfile)
  /-- `Action.CLOSE` at `closeReceiver`. -/
  | close
  /-- `Action.RELOAD` at `closeReceiver`. -/
  | reload
  /-- `Intent.ACTION_SHUTDOWN` at `closeReceiver`. -/
  | shutdown
  | onRevoke
  | resumeJob (job : ConnectingJob) (progress : Service.Progress)
  | resumeStop (stop : StopJob)
  /-- A guard ends: cancelled with its pool, or after an `IOException`. -/
  | guardEnds (pool : Nat) (fatal : Bool)
  | onFatal
  /-- The restart callback of a guard catches an `ErrnoException`. -/
  | restartFails (pool : Nat)
  deriving DecidableEq, Repr

namespace Service

def guardEnds (s : Service) (pool : Nat) (fatal : Bool) : Option Service :=
  if ∃ p ∈ s.pools, p.id = pool ∧ 0 < p.guards ∧ (fatal || p.closed) then
    some { s with
      pools := s.pools.map fun p => if p.id = pool then { p with guards := p.guards - 1 } else p
      pendingFatals := if fatal then s.pendingFatals + 1 else s.pendingFatals }
  else none

/-- One main-thread step; `none` if the event cannot happen now. -/
def step (P : Platform) (s : Service) : ServiceEvent → Option Service
  | .startCommand prepared currentProfile => some (s.handleStart P prepared currentProfile)
  | .ownStart prepared currentProfile =>
      if 0 < s.pendingStarts then
        some ({ s with pendingStarts := s.pendingStarts - 1 }.handleStart P prepared currentProfile)
      else none
  | .close => if s.closeReceiverRegistered then some (s.stopRunner false) else none
  | .reload => if s.closeReceiverRegistered then some s.forceLoad else none
  -- `persistStats` touches the database only
  | .shutdown => if s.closeReceiverRegistered then some s else none
  | .onRevoke => some (s.stopRunner false)
  | .resumeJob job progress => s.resumeJob job progress
  | .resumeStop stop => s.resumeStop stop
  | .guardEnds pool fatal => s.guardEnds pool fatal
  | .onFatal =>
      if 0 < s.pendingFatals then
        some ({ s with pendingFatals := s.pendingFatals - 1 }.stopRunner false)
      else none
  | .restartFails pool =>
      if ∃ p ∈ s.pools, p.id = pool ∧ 0 < p.guards then some (s.stopRunner false) else none

/-! ## What the functions can do -/

variable {s : Service}

/-- What a resumption of the connecting job can do. -/
inductive JobStep (s : Service) (job : ConnectingJob) : Service → Prop where
  | moved (point : ConnectPoint) (active : job.cancelled = false) (before : job.point ≠ .starting)
      (after : point ≠ .starting) : JobStep s job (s.moveJob job point)
  | launched (guards : Nat) (localDns : Bool) (active : job.cancelled = false)
      (before : job.point = .flattening) :
      JobStep s job ((s.startProcesses guards localDns).moveJob job .starting)
  | connected (active : job.cancelled = false) (before : job.point = .starting) :
      JobStep s job ((s.changeState .connected).endJob job)
  | failed : JobStep s job ((s.stopRunner false).endJob job)
  | dropped (cancelled : job.cancelled = true) : JobStep s job (s.dropJob job)
  | ended (cancelled : job.cancelled = true) : JobStep s job (s.endJob job)

theorem resumeJob_some {s' : Service} {job : ConnectingJob} {progress : Progress}
    (h : s.resumeJob job progress = some s') : job ∈ s.jobs ∧ JobStep s job s' := by
  unfold resumeJob at h
  split at h
  · next hmem =>
      refine ⟨hmem, ?_⟩
      obtain ⟨id, point, cancelled⟩ := job
      -- of the branches only those of the source give a state
      cases cancelled <;> cases point <;> cases progress <;> cases h
      · exact .moved .preInit rfl ConnectPoint.noConfusion ConnectPoint.noConfusion
      · exact .failed
      · exact .moved .flattening rfl ConnectPoint.noConfusion ConnectPoint.noConfusion
      · exact .failed
      · exact .launched _ _ rfl rfl
      · exact .failed
      · exact .connected rfl rfl
      · exact .failed
      · exact .dropped rfl
      · exact .failed
      · exact .ended rfl
      · exact .failed
      · exact .ended rfl
      · exact .failed
      · exact .ended rfl
  · cases h

theorem resumeStop_some {s' : Service} {stop : StopJob} (h : s.resumeStop stop = some s') :
    stop ∈ s.stops ∧
      ((∃ job, stop.point = .joining job ∧ ¬ s.IsLive job ∧
          s' = (s.dropStop stop).cleanUp stop.restart) ∨
        ∃ pool, stop.point = .cleaning pool ∧ s.PoolDone pool ∧
          s' = (s.dropStop stop).finishStop stop.restart) := by
  unfold resumeStop at h
  split at h
  · next hmem =>
      refine ⟨hmem, ?_⟩
      split at h
      · next job hpoint =>
          split at h
          · cases h
          · next hdead =>
              cases h
              exact Or.inl ⟨job, hpoint, hdead, rfl⟩
      · next pool hpoint =>
          split at h
          · next hdone =>
              cases h
              exact Or.inr ⟨pool, hpoint, hdone, rfl⟩
          · cases h
  · cases h

/-- The same instance up to what it has sent to itself. -/
def withPending (s : Service) (starts fatals : Nat) : Service :=
  { s with pendingStarts := starts, pendingFatals := fatals }

/-- What a step can do. -/
inductive StepCase (P : Platform) (s : Service) : Service → Prop where
  | start (starts fatals : Nat) (prepared : Bool) (current : Option ExpandedProfile) :
      StepCase P s ((s.withPending starts fatals).handleStart P prepared current)
  | stop (starts fatals : Nat) : StepCase P s ((s.withPending starts fatals).stopRunner false)
  | load : StepCase P s s.forceLoad
  | quiet : StepCase P s s
  | job (job : ConnectingJob) (mem : job ∈ s.jobs) {s' : Service} (h : JobStep s job s') :
      StepCase P s s'
  | joined (restart : Bool) (job : Nat) (mem : ⟨restart, .joining job⟩ ∈ s.stops)
      (dead : ¬ s.IsLive job) :
      StepCase P s ((s.dropStop ⟨restart, .joining job⟩).cleanUp restart)
  | cleaned (restart : Bool) (pool : Option Nat) (mem : ⟨restart, .cleaning pool⟩ ∈ s.stops)
      (done : s.PoolDone pool) :
      StepCase P s ((s.dropStop ⟨restart, .cleaning pool⟩).finishStop restart)
  | guard (pool fatals : Nat) : StepCase P s
      { s with
        pools := s.pools.map fun p => if p.id = pool then { p with guards := p.guards - 1 } else p
        pendingFatals := fatals }

theorem step_cases {P : Platform} {s' : Service} {e : ServiceEvent} (h : s.step P e = some s') :
    StepCase P s s' := by
  cases e with
  | startCommand prepared current =>
      cases h
      exact .start s.pendingStarts s.pendingFatals prepared current
  | ownStart prepared current =>
      simp only [step] at h
      split at h <;> cases h
      exact .start _ _ prepared current
  | close =>
      simp only [step] at h
      split at h <;> cases h
      exact .stop s.pendingStarts s.pendingFatals
  | reload =>
      simp only [step] at h
      split at h <;> cases h
      exact .load
  | shutdown =>
      simp only [step] at h
      split at h <;> cases h
      exact .quiet
  | onRevoke =>
      cases h
      exact .stop s.pendingStarts s.pendingFatals
  | resumeJob job progress =>
      obtain ⟨hmem, hjob⟩ := resumeJob_some h
      exact .job job hmem hjob
  | resumeStop stop =>
      obtain ⟨hmem, hcases⟩ := resumeStop_some h
      obtain ⟨restart, point⟩ := stop
      rcases hcases with ⟨job, hpoint, hdead, rfl⟩ | ⟨pool, hpoint, hdone, rfl⟩ <;> cases hpoint
      · exact .joined restart job hmem hdead
      · exact .cleaned restart pool hmem hdone
  | guardEnds pool fatal =>
      simp only [step, guardEnds] at h
      split at h <;> cases h
      exact .guard pool _
  | onFatal =>
      simp only [step] at h
      split at h <;> cases h
      exact .stop _ _
  | restartFails pool =>
      simp only [step] at h
      split at h <;> cases h
      exact .stop s.pendingStarts s.pendingFatals

theorem stopRunner_of_stopping (h : s.state = .stopping) (restart : Bool) :
    s.stopRunner restart = s := if_pos h

theorem stopRunner_of_live (hne : s.state ≠ .stopping) {job : Nat}
    (hjob : s.connectingJob = some job) (hlive : s.IsLive job) (restart : Bool) :
    s.stopRunner restart = (s.changeState .stopping).cancelAndJoin job restart := by
  unfold stopRunner
  rw [if_neg hne, hjob]
  exact if_pos hlive

theorem stopRunner_of_not_live (hne : s.state ≠ .stopping)
    (hdead : ∀ job, s.connectingJob = some job → ¬ s.IsLive job) (restart : Bool) :
    s.stopRunner restart = (s.changeState .stopping).cleanUp restart := by
  unfold stopRunner
  rw [if_neg hne]
  cases hjob : s.connectingJob with
  | none => rfl
  | some job => exact if_neg (hdead job hjob)

end Service

end CypherConnect.Bg
