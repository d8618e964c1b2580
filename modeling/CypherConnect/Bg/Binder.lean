/-
  `BaseService.Binder`: the clients' callbacks, and the loop that reports the traffic to those of
  them that listen.

  Calls of clients come in on binder threads. They change the list of callbacks at once and post the
  rest to the main thread, which runs what was posted in order. The loop runs on the main thread
  whenever its delay is over; a loop that was cancelled does not run again. What the service and
  ss-local do in between is any change of `Data`.

  * `Effect`: everything that an event can do; `run_tied`: what the main thread has run are the
    calls made while the binder was open, in their order.
  * `Posted`, `subscribed`: who listens, as said by the calls that the main thread has run.
  * `traffic_follows_subscriptions`: in every interleaving the map holds exactly these, one loop
    runs exactly while somebody listens, neither `check` nor `!!` fails, and traffic is only ever
    sent to who listens.
-/
import CypherConnect.Lib.Keyed
import CypherConnect.Bg.BaseService
import CypherConnect.Bg.TrafficMonitor

namespace CypherConnect.Bg

open Machine

/-- `TrafficStats.plus`. -/
def TrafficStats.plus (a b : TrafficStats) : TrafficStats :=
  ⟨wrapLong (a.txRate + b.txRate), wrapLong (a.rxRate + b.rxRate), wrapLong (a.txTotal + b.txTotal),
    wrapLong (a.rxTotal + b.rxTotal)⟩

namespace Binder

/-- What the binder reads of a `ProxyInstance`. -/
structure Proxy where
  profileId : Int
  profileName : Option Text
  trafficMonitor : Option TrafficMonitor
  deriving DecidableEq, Repr

/-- What the binder reads of `Data`. -/
structure Data where
  state : State
  proxy : Option Proxy
  udpFallback : Option Proxy
  deriving DecidableEq, Repr

/-- A call of a callback. -/
inductive Call where
  | stateChanged (state : State) (profileName : Text) (msg : Option Text)
  | trafficUpdated (profileId : Int) (stats : TrafficStats)
  | trafficPersisted (profileId : Int)
  deriving DecidableEq, Repr

/-- The calls for listeners. -/
def Call.isTraffic : Call → Bool
  | .stateChanged _ _ _ => false
  | .trafficUpdated _ _ => true
  | .trafficPersisted _ => true

/-- What is posted to the main thread. -/
inductive Posted (β : Type) where
  | startListeningForBandwidth (cb : β) (timeout : Int)
  | stopListeningForBandwidth (cb : β)
  deriving DecidableEq, Repr

/-- The exceptions that nothing on the main thread catches. -/
inductive Crash where
  /-- `check(looper == null)` -/
  | illegalState
  /-- `looper!!` -/
  | nullPointer
  /-- a callback whose process is gone -/
  | deadObject
  deriving DecidableEq, Repr

/-- A loop in its `delay`. -/
structure Loop where
  id : Nat
  delay : Int
  deriving DecidableEq, Repr

/-- A call as it went out, with the number of tasks that had run. -/
structure Sent (β : Type) where
  after : Nat
  cb : β
  call : Call
  deriving DecidableEq, Repr

end Binder

open Binder

/-- The binder, with the loops that were not cancelled. `executed` and `sent` are its history. -/
structure Binder (β : Type) where
  /-- `null` once it is closed -/
  data : Option Data
  /-- the callbacks of the `RemoteCallbackList` -/
  callbacks : List β := []
  bandwidthListeners : List (β × Int) := []
  looper : Option Nat := none
  loops : List Loop := []
  launched : Nat := 0
  /-- posted, not yet run -/
  queue : List (Posted β) := []
  /-- threads in `unregisterCallback`, before they take the callback from the list -/
  unregistering : List β := []
  /-- threads in `onCallbackDied`, after the callback was taken from the list -/
  dying : List β := []
  /-- callbacks whose process is gone -/
  dead : List β := []
  crash : Option Crash := none
  executed : List (Posted β) := []
  sent : List (Sent β) := []

namespace Binder

variable {β : Type} [DecidableEq β]

def IsListening (s : Binder β) (cb : β) : Prop := cb ∈ s.bandwidthListeners.map Prod.fst

instance (s : Binder β) (cb : β) : Decidable (s.IsListening cb) :=
  inferInstanceAs (Decidable (cb ∈ s.bandwidthListeners.map Prod.fst))

/-- The callback is called; a dead one throws. -/
def send (s : Binder β) (cb : β) (calls : List Call) : Binder β :=
  { s with sent := s.sent ++ calls.map fun call => ⟨s.executed.length, cb, call⟩ }

/-- `broadcast`: what a dead callback throws is caught. -/
def broadcast (s : Binder β) (work : β → List Call) : Binder β :=
  (s.callbacks.filter (· ∉ s.dead)).foldl (fun s cb => s.send cb (work cb)) s

/-! ## The loop -/

/-- `bandwidthListeners.values.minOrNull()`. -/
def timeout (s : Binder β) : Option Int := (s.bandwidthListeners.map Prod.snd).min?

/-- A loop comes to its `delay`, or returns. -/
def enterDelay (s : Binder β) (id : Nat) : Binder β :=
  match s.timeout with
  | none => s
  | some delay => { s with loops := s.loops ++ [⟨id, delay⟩] }

/-- `trafficMonitor?.requestUpdate()`. -/
def requestUpdate (now : Int) (proxy : Proxy) : Proxy × Option (Int × TrafficStats × Bool) :=
  match proxy.trafficMonitor with
  | none => (proxy, none)
  | some monitor =>
      let (monitor, updated) := monitor.requestUpdate now
      ({ proxy with trafficMonitor := some monitor }, some (proxy.profileId, monitor.out, updated))

/-- The reports of the proxies there are, and the proxies after them. -/
def requestUpdates (data : Data) (now : Int) : Data × List (Int × TrafficStats × Bool) :=
  let proxy := data.proxy.map (requestUpdate now)
  let udpFallback := data.udpFallback.map (requestUpdate now)
  ({ data with proxy := proxy.map Prod.fst, udpFallback := udpFallback.map Prod.fst },
    (proxy.bind Prod.snd).toList ++ (udpFallback.bind Prod.snd).toList)

/-- What a listener is sent. -/
def report (stats : List (Int × TrafficStats × Bool)) : List Call :=
  stats.map (fun (id, stats, _) => .trafficUpdated id stats) ++
    [.trafficUpdated 0 (stats.foldl (fun a b => a.plus b.2.1) {})]

/-- A turn of the loop after its `delay`, to the next one. -/
def turn (s : Binder β) (loop : Loop) (data : Data) (now : Int) : Binder β :=
  let (data, stats) := requestUpdates data now
  let s := { s with data := some data, loops := s.loops.erase loop }
  let s :=
    if stats.any (·.2.2) && data.state == .connected && !s.bandwidthListeners.isEmpty then
      s.broadcast fun cb => if s.IsListening cb then report stats else []
    else s
  s.enterDelay loop.id

/-! ## What runs on the main thread -/

/-- The stats of a proxy without a monitor are zero. -/
def outOf (proxy : Proxy) : TrafficStats := (proxy.trafficMonitor.map TrafficMonitor.out).getD {}

/-- What a new listener is sent. -/
def firstReport (data : Data) (proxy : Proxy) : List Call :=
  let sum := TrafficStats.plus {} (outOf proxy)
  let sum := if proxy.trafficMonitor = none then {} else sum
  match data.udpFallback with
  | none => [.trafficUpdated proxy.profileId (outOf proxy), .trafficUpdated 0 sum]
  | some udpFallback =>
      [.trafficUpdated proxy.profileId (outOf proxy),
        .trafficUpdated udpFallback.profileId (outOf udpFallback),
        .trafficUpdated 0 (if udpFallback.trafficMonitor = none then sum
          else sum.plus (outOf udpFallback))]

/-- `if (bandwidthListeners.isEmpty() and (bandwidthListeners.put(..) == null))` and its body: both
sides of `and` are evaluated. -/
def addListener (s : Binder β) (cb : β) (timeout : Int) : Binder β :=
  let added :=
    { s with bandwidthListeners := Keyed.put Prod.fst (cb, timeout) s.bandwidthListeners }
  if s.bandwidthListeners.isEmpty && !(cb ∈ s.bandwidthListeners.map Prod.fst) then
    if s.looper = none then
      ({ added with looper := some s.launched, launched := s.launched + 1 } : Binder β).enterDelay
        s.launched
    else { added with crash := some .illegalState }
  else added

/-- The rest of `startListeningForBandwidth`. -/
def greet (s : Binder β) (cb : β) (data : Data) : Binder β :=
  if s.crash ≠ none then s
  else if data.state ≠ .connected then s
  else
    match data.proxy with
    | none => s
    | some proxy =>
        if cb ∈ s.dead then { s with crash := some .deadObject }
        else s.send cb (firstReport data proxy)

/-- `if (bandwidthListeners.remove(..) != null && bandwidthListeners.isEmpty())` and its body. -/
def removeListener (s : Binder β) (cb : β) : Binder β :=
  let removed := { s with bandwidthListeners := s.bandwidthListeners.filter (·.1 ≠ cb) }
  if cb ∈ s.bandwidthListeners.map Prod.fst ∧ removed.bandwidthListeners = [] then
    match s.looper with
    | none => { removed with crash := some .nullPointer }
    | some id => { removed with looper := none, loops := s.loops.filter (·.id ≠ id) }
  else removed

/-- A task is taken up. -/
def begin (s : Binder β) (task : Posted β) : Binder β := { s with executed := s.executed ++ [task] }

/-- A task runs. -/
def runTask (s : Binder β) (data : Data) (task : Posted β) : Binder β :=
  match task with
  | .startListeningForBandwidth cb timeout => ((s.begin task).addListener cb timeout).greet cb data
  | .stopListeningForBandwidth cb => (s.begin task).removeListener cb

/-- `profileName`. -/
def profileName (data : Data) : Text := (data.proxy.bind Proxy.profileName).getD "Idle".toList

/-! ## Events -/

inductive Event (β : Type) where
  /-- calls of clients -/
  | registerCallback (cb : β)
  | startListeningForBandwidth (cb : β) (timeout : Int)
  | stopListeningForBandwidth (cb : β)
  | unregisterCallback (cb : β)
  /-- the second statement of `unregisterCallback` -/
  | unregistered (cb : β)
  /-- the process of a callback is gone; the list is told of it; `onCallbackDied` goes on -/
  | dies (cb : β)
  | callbackDied (cb : β)
  | onCallbackDied (cb : β)
  /-- the service or ss-local change what the binder reads -/
  | dataChanges (data : Data)
  /-- the main thread runs the next task -/
  | runs
  /-- the `delay` of a loop is over -/
  | elapsed (loop : Loop) (now : Int)
  /-- calls of the service -/
  | stateChanged (state : State) (msg : Option Text)
  | trafficPersisted (ids : List Int)
  | close
  deriving DecidableEq, Repr

def step (s : Binder β) (event : Event β) : Option (Binder β) :=
  if s.crash ≠ none then none
  else
    match event with
    | .registerCallback cb =>
        -- a killed list and a dead callback are refused
        if s.data = none ∨ cb ∈ s.dead ∨ cb ∈ s.callbacks then some s
        else some { s with callbacks := s.callbacks ++ [cb] }
    | .startListeningForBandwidth cb timeout =>
        some { s with queue := s.queue ++ [.startListeningForBandwidth cb timeout] }
    | .stopListeningForBandwidth cb =>
        some { s with queue := s.queue ++ [.stopListeningForBandwidth cb] }
    | .unregisterCallback cb =>
        some { s with
          queue := s.queue ++ [.stopListeningForBandwidth cb]
          unregistering := s.unregistering ++ [cb] }
    | .unregistered cb =>
        if cb ∈ s.unregistering then
          some { s with
            unregistering := s.unregistering.erase cb
            callbacks := s.callbacks.filter (· ≠ cb) }
        else none
    | .dies cb => some { s with dead := s.dead ++ [cb] }
    | .callbackDied cb =>
        if cb ∈ s.dead ∧ cb ∈ s.callbacks then
          some { s with callbacks := s.callbacks.filter (· ≠ cb), dying := s.dying ++ [cb] }
        else none
    | .onCallbackDied cb =>
        if cb ∈ s.dying then
          some { s with
            dying := s.dying.erase cb
            queue := s.queue ++ [.stopListeningForBandwidth cb] }
        else none
    | .dataChanges data => if s.data = none then none else some { s with data := some data }
    | .runs =>
        match s.queue with
        | [] => none
        | task :: queue =>
            -- in a cancelled scope nothing that was launched runs
            match s.data with
            | none => some { s with queue }
            | some data => some ({ s with queue }.runTask data task)
    | .elapsed loop now =>
        match s.data with
        | none => none
        | some data => if loop ∈ s.loops then some (s.turn loop data now) else none
    | .stateChanged state msg =>
        match s.data with
        | none => some s
        | some data => some (s.broadcast fun _ => [.stateChanged state (profileName data) msg])
    | .trafficPersisted ids =>
        if s.data = none ∨ s.bandwidthListeners = [] ∨ ids = [] then some s
        else some (s.broadcast fun cb => if s.IsListening cb then ids.map .trafficPersisted else [])
    | .close => some { s with data := none, callbacks := [], loops := [] }

/-! ## What an event does -/

/-- The tasks that an event posts. -/
def posted : Event β → List (Posted β)
  | .startListeningForBandwidth cb timeout => [.startListeningForBandwidth cb timeout]
  | .stopListeningForBandwidth cb => [.stopListeningForBandwidth cb]
  | .unregisterCallback cb => [.stopListeningForBandwidth cb]
  | .onCallbackDied cb => [.stopListeningForBandwidth cb]
  | _ => []

/-- Everything that an event can do to the binder, by what it touches. -/
inductive Effect (s : Binder β) : Event β → Binder β → Prop where
  /-- calls of clients and their deaths: tasks are posted, and the lists of callbacks and of the
  threads that work on them change -/
  | posts {event : Event β} {callbacks unregistering dying dead : List β}
      {queue : List (Posted β)} (hclose : event ≠ .close)
      (hqueue : queue = s.queue ++ posted event) :
      Effect s event { s with callbacks, unregistering, dying, dead, queue }
  | changes {data : Data} (hopen : s.data ≠ none) :
      Effect s (.dataChanges data) { s with data := some data }
  | drops {task : Posted β} {queue : List (Posted β)} (hqueue : s.queue = task :: queue)
      (hclosed : s.data = none) : Effect s .runs { s with queue }
  | runs {task : Posted β} {queue : List (Posted β)} {data : Data}
      (hqueue : s.queue = task :: queue) (hdata : s.data = some data) :
      Effect s .runs ({ s with queue }.runTask data task)
  | turns {loop : Loop} {now : Int} {data : Data} (hdata : s.data = some data)
      (hloop : loop ∈ s.loops) : Effect s (.elapsed loop now) (s.turn loop data now)
  | tells {event : Event β} {work : β → List Call} (hclose : event ≠ .close)
      (hposted : posted event = [])
      (hwork : ∀ cb, ∀ call ∈ work cb, call.isTraffic = true → s.IsListening cb) :
      Effect s event (s.broadcast work)
  | closes : Effect s .close { s with data := none, callbacks := [], loops := [] }

section Effect

variable {s t : Binder β} {event : Event β}

/-- Calls that only who listens gets. -/
theorem toListeners (work : β → List Call) (cb : β) :
    ∀ call ∈ (if s.IsListening cb then work cb else []), call.isTraffic = true →
      s.IsListening cb := by
  intro call hcall _
  split at hcall
  case isTrue hlistening => exact hlistening
  case isFalse => exact absurd hcall List.not_mem_nil

theorem effect_of_step (hstep : s.step event = some t) : s.crash = none ∧ Effect s event t := by
  unfold step at hstep
  split at hstep
  case isTrue => cases hstep
  case isFalse hcrash =>
    refine ⟨not_not.mp hcrash, ?_⟩
    cases event with
    | registerCallback cb =>
        dsimp only at hstep
        split at hstep <;> cases hstep <;> exact .posts nofun (List.append_nil _).symm
    | startListeningForBandwidth cb timeout =>
        cases hstep
        exact .posts nofun rfl
    | stopListeningForBandwidth cb =>
        cases hstep
        exact .posts nofun rfl
    | unregisterCallback cb =>
        cases hstep
        exact .posts nofun rfl
    | unregistered cb =>
        dsimp only at hstep
        split at hstep <;> cases hstep
        exact .posts nofun (List.append_nil _).symm
    | dies cb =>
        cases hstep
        exact .posts nofun (List.append_nil _).symm
    | callbackDied cb =>
        dsimp only at hstep
        split at hstep <;> cases hstep
        exact .posts nofun (List.append_nil _).symm
    | onCallbackDied cb =>
        dsimp only at hstep
        split at hstep <;> cases hstep
        exact .posts nofun rfl
    | dataChanges data =>
        dsimp only at hstep
        split at hstep
        case isTrue => cases hstep
        case isFalse hdata =>
          cases hstep
          exact .changes hdata
    | runs =>
        dsimp only at hstep
        split at hstep
        case h_1 => cases hstep
        case h_2 task queue hqueue =>
          split at hstep
          case h_1 hdata =>
            cases hstep
            exact .drops hqueue hdata
          case h_2 data hdata =>
            cases hstep
            exact .runs hqueue hdata
    | elapsed loop now =>
        dsimp only at hstep
        split at hstep
        case h_1 => cases hstep
        case h_2 data hdata =>
          split at hstep
          case isTrue hloop =>
            cases hstep
            exact .turns hdata hloop
          case isFalse => cases hstep
    | stateChanged state msg =>
        dsimp only at hstep
        split at hstep
        case h_1 =>
          cases hstep
          exact .posts nofun (List.append_nil _).symm
        case h_2 data hdata =>
          cases hstep
          refine .tells nofun rfl fun cb call hcall htraffic => ?_
          rw [List.mem_singleton.mp hcall] at htraffic
          cases htraffic
    | trafficPersisted ids =>
        dsimp only at hstep
        split at hstep
        case isTrue =>
          cases hstep
          exact .posts nofun (List.append_nil _).symm
        case isFalse =>
          cases hstep
          exact .tells nofun rfl (toListeners fun _ => ids.map .trafficPersisted)
    | close =>
        cases hstep
        exact .closes

/-- A broadcast changes what was sent and nothing else. -/
theorem broadcast_eq (s : Binder β) (work : β → List Call) :
    ∃ sent, s.broadcast work = { s with sent } := by
  unfold broadcast
  generalize s.callbacks.filter (· ∉ s.dead) = items
  induction items generalizing s with
  | nil => exact ⟨s.sent, rfl⟩
  | cons cb items ih =>
      obtain ⟨sent, hsent⟩ := ih (s.send cb (work cb))
      exact ⟨sent, hsent⟩

/-! ### Tasks -/

omit [DecidableEq β] in
theorem enterDelay_eq (s : Binder β) (id : Nat) : ∃ loops, s.enterDelay id = { s with loops } := by
  unfold enterDelay
  split
  · exact ⟨s.loops, rfl⟩
  · exact ⟨_, rfl⟩

theorem turn_eq (s : Binder β) (loop : Loop) (data : Data) (now : Int) :
    ∃ data' loops sent, s.turn loop data now = { s with data := some data', loops, sent } := by
  unfold turn
  dsimp only
  generalize (requestUpdates data now).1 = data', (requestUpdates data now).2 = stats
  split
  · obtain ⟨sent, hsent⟩ := broadcast_eq { s with data := some data', loops := s.loops.erase loop }
      fun cb => if s.IsListening cb then report stats else []
    obtain ⟨loops, hloops⟩ := enterDelay_eq
      { s with data := some data', loops := s.loops.erase loop, sent } loop.id
    exact ⟨data', loops, sent, (congrArg (enterDelay · loop.id) hsent).trans hloops⟩
  · obtain ⟨loops, hloops⟩ := enterDelay_eq
      { s with data := some data', loops := s.loops.erase loop } loop.id
    exact ⟨data', loops, s.sent, hloops⟩

/-- A task that runs is written down, and posts nothing. -/
theorem runTask_eq (s : Binder β) (data : Data) (task : Posted β) :
    (s.runTask data task).executed = s.executed ++ [task] ∧
      (s.runTask data task).queue = s.queue ∧ (s.runTask data task).data = s.data := by
  cases task with
  | startListeningForBandwidth cb timeout =>
      have hadded (s : Binder β) : (s.addListener cb timeout).executed = s.executed ∧
          (s.addListener cb timeout).queue = s.queue ∧
            (s.addListener cb timeout).data = s.data := by
        unfold addListener
        dsimp only
        split
        · split
          · obtain ⟨loops, hloops⟩ := enterDelay_eq { s with
              bandwidthListeners := Keyed.put Prod.fst (cb, timeout) s.bandwidthListeners
              looper := some s.launched
              launched := s.launched + 1 } s.launched
            rw [hloops]
            exact ⟨rfl, rfl, rfl⟩
          · exact ⟨rfl, rfl, rfl⟩
        · exact ⟨rfl, rfl, rfl⟩
      have hgreet (s : Binder β) : (s.greet cb data).executed = s.executed ∧
          (s.greet cb data).queue = s.queue ∧ (s.greet cb data).data = s.data := by
        unfold greet
        repeat' split
        all_goals exact ⟨rfl, rfl, rfl⟩
      obtain ⟨h1, h2, h3⟩ := hadded (s.begin (.startListeningForBandwidth cb timeout))
      obtain ⟨g1, g2, g3⟩ := hgreet
        ((s.begin (.startListeningForBandwidth cb timeout)).addListener cb timeout)
      exact ⟨g1.trans h1, g2.trans h2, g3.trans h3⟩
  | stopListeningForBandwidth cb =>
      unfold runTask removeListener
      dsimp only
      repeat' split
      all_goals exact ⟨rfl, rfl, rfl⟩

/-- While the binder is open, what was run and what waits is what was posted. -/
theorem Effect.opened (h : Effect s event t) (hopen : t.data ≠ none) :
    s.data ≠ none ∧ event ≠ .close ∧
      t.executed ++ t.queue = s.executed ++ s.queue ++ posted event := by
  cases h with
  | posts hclose hqueue =>
      refine ⟨hopen, hclose, ?_⟩
      rw [hqueue, List.append_assoc]
  | changes hdata => exact ⟨hdata, nofun, (List.append_nil _).symm⟩
  | drops hqueue hclosed => exact absurd hclosed hopen
  | @runs task queue data hqueue hdata =>
      obtain ⟨hexecuted, hrest, hsame⟩ := runTask_eq { s with queue } data task
      refine ⟨hsame ▸ hopen, nofun, ?_⟩
      rw [hexecuted, hrest, hqueue, List.append_assoc]
      exact (List.append_nil _).symm
  | @turns loop now data hdata hloop =>
      obtain ⟨data', loops, sent, heq⟩ := s.turn_eq loop data now
      refine ⟨by rw [hdata]; nofun, nofun, ?_⟩
      rw [heq]
      exact (List.append_nil _).symm
  | @tells _ work hclose hposted _ =>
      obtain ⟨sent, heq⟩ := s.broadcast_eq work
      rw [heq] at hopen ⊢
      rw [hposted, List.append_nil]
      exact ⟨hopen, hclose, rfl⟩
  | closes => exact absurd rfl hopen

/-- Once it is closed nothing runs. -/
theorem Effect.closed (h : Effect s event t) (hclosed : t.data = none) :
    t.executed = s.executed := by
  cases h with
  | posts hclose hqueue => rfl
  | changes hdata => rfl
  | drops hqueue hdata => rfl
  | @runs task queue data hqueue hdata =>
      obtain ⟨-, -, hsame⟩ := runTask_eq { s with queue } data task
      rw [hsame, hdata] at hclosed
      cases hclosed
  | @turns loop now data hdata hloop =>
      obtain ⟨data', loops, sent, heq⟩ := s.turn_eq loop data now
      rw [heq]
  | @tells _ work hclose hposted _ =>
      obtain ⟨sent, heq⟩ := s.broadcast_eq work
      rw [heq]
  | closes => rfl

end Effect

/-- `executed` is what the events say: of the tasks posted while the binder was open those at the
beginning, and all but the ones in the queue as long as it is open. -/
structure Tied (past : List (Event β)) (s : Binder β) : Prop where
  opened : s.data ≠ none → .close ∉ past ∧ s.executed ++ s.queue = past.flatMap posted
  executed : s.executed <+: (past.takeWhile (· ≠ .close)).flatMap posted

theorem tied_step {past : List (Event β)} {s t : Binder β} {event : Event β} (h : Tied past s)
    (hstep : s.step event = some t) : Tied (past ++ [event]) t := by
  obtain ⟨-, heffect⟩ := effect_of_step hstep
  have hopened : t.data ≠ none →
      .close ∉ past ++ [event] ∧ t.executed ++ t.queue = (past ++ [event]).flatMap posted := by
    intro hopen
    obtain ⟨hbefore, hclose, heq⟩ := heffect.opened hopen
    obtain ⟨hnot, hall⟩ := h.opened hbefore
    refine ⟨?_, ?_⟩
    · rw [List.mem_append, List.mem_singleton]
      exact not_or.mpr ⟨hnot, hclose.symm⟩
    · rw [heq, hall, List.flatMap_append, List.flatMap_singleton]
  refine ⟨hopened, ?_⟩
  by_cases hopen : t.data = none
  · -- nothing ran, and the events before the first `close` are at least those of before
    rw [heffect.closed hopen]
    refine h.executed.trans ?_
    rw [List.takeWhile_append]
    split
    case isTrue hlength =>
      rw [(List.takeWhile_prefix _).eq_of_length hlength, List.flatMap_append]
      exact List.prefix_append _ _
    case isFalse => exact List.prefix_rfl
  · obtain ⟨hnot, heq⟩ := hopened hopen
    have hself : (past ++ [event]).takeWhile (· ≠ .close) = past ++ [event] := by
      refine List.takeWhile_eq_self_iff.mpr fun e he => ?_
      exact decide_eq_true fun hclose => hnot (hclose ▸ he)
    rw [hself, ← heq]
    exact List.prefix_append _ _

/-- After every run of the binder. -/
theorem run_tied {data : Data} {events : List (Event β)} {t : Binder β}
    (hrun : run step ({ data := some data } : Binder β) events = some t) : Tied events t :=
  run_history (fun _ _ _ _ htied hstep => tied_step htied hstep)
    ⟨fun _ => ⟨List.not_mem_nil, rfl⟩, List.prefix_rfl⟩ hrun

/-! ## Who listens -/

/-- What a call says of a listener. -/
def subscribes (cb : β) (before : Option Int) : Posted β → Option Int
  | .startListeningForBandwidth cb' timeout => if cb' = cb then some timeout else before
  | .stopListeningForBandwidth cb' => if cb' = cb then none else before

/-- The timeout that a callback listens with, as the calls that were run say. -/
def subscribed (cb : β) (log : List (Posted β)) : Option Int := log.foldl (subscribes cb) none

theorem subscribed_snoc (cb : β) (log : List (Posted β)) (task : Posted β) :
    subscribed cb (log ++ [task]) = subscribes cb (subscribed cb log) task := by
  unfold subscribed
  rw [List.foldl_append]
  rfl

/-- The map is what the calls say, and traffic went to who listened. -/
structure Heard (s : Binder β) : Prop where
  nodup : (s.bandwidthListeners.map Prod.fst).Nodup
  listeners : ∀ cb timeout, (cb, timeout) ∈ s.bandwidthListeners ↔
    subscribed cb s.executed = some timeout
  sent : ∀ e ∈ s.sent, e.call.isTraffic = true →
    e.after ≤ s.executed.length ∧ subscribed e.cb (s.executed.take e.after) ≠ none

/-- The loop that `looper` names is the only one, and there is one while somebody listens. -/
structure Inv (s : Binder β) : Prop where
  heard : s.Heard
  looper : s.bandwidthListeners = [] ↔ s.looper = none
  loops : s.loops.map Loop.id = if s.data = none then [] else s.looper.toList
  crash : s.crash = none ∨ s.crash = some .deadObject ∧
    ∃ cb timeout, s.executed.getLast? = some (.startListeningForBandwidth cb timeout) ∧ cb ∈ s.dead

variable {s : Binder β} {cb : β}

theorem Heard.isListening_iff (h : s.Heard) :
    s.IsListening cb ↔ subscribed cb s.executed ≠ none := by
  unfold IsListening
  rw [List.mem_map, Option.ne_none_iff_exists']
  constructor
  · rintro ⟨⟨cb', timeout⟩, hmem, rfl⟩
    exact ⟨timeout, (h.listeners _ _).mp hmem⟩
  · rintro ⟨timeout, hsome⟩
    exact ⟨(cb, timeout), (h.listeners _ _).mpr hsome, rfl⟩

/-- A call to who listens, or one that is not about traffic. -/
theorem heard_send {calls : List Call} (h : s.Heard)
    (hcalls : ∀ call ∈ calls, call.isTraffic = true → s.IsListening cb) :
    (s.send cb calls).Heard := by
  refine ⟨h.nodup, h.listeners, ?_⟩
  intro e he htraffic
  dsimp only [send] at he ⊢
  rw [List.mem_append, List.mem_map] at he
  rcases he with he | ⟨call, hcall, rfl⟩
  · exact h.sent e he htraffic
  · refine ⟨Nat.le_refl _, ?_⟩
    rw [List.take_length]
    exact h.isListening_iff.mp (hcalls call hcall htraffic)

theorem heard_broadcast {work : β → List Call} (h : s.Heard)
    (hwork : ∀ cb, ∀ call ∈ work cb, call.isTraffic = true → s.IsListening cb) :
    (s.broadcast work).Heard := by
  unfold broadcast
  generalize s.callbacks.filter (· ∉ s.dead) = items
  induction items generalizing s with
  | nil => exact h
  | cons cb items ih => exact ih (heard_send h (hwork cb)) hwork

/-- A call that the main thread has run since does not change what was true of the calls before. -/
theorem Heard.sent_mono (h : s.Heard) (task : Posted β) : ∀ e ∈ s.sent, e.call.isTraffic = true →
    e.after ≤ (s.executed ++ [task]).length ∧
      subscribed e.cb ((s.executed ++ [task]).take e.after) ≠ none := by
  intro e he htraffic
  obtain ⟨hle, hsome⟩ := h.sent e he htraffic
  rw [List.length_append, List.take_append_of_le_length hle]
  exact ⟨by omega, hsome⟩

theorem listeners_put (h : s.Heard) (timeout : Int) (cb' : β) (timeout' : Int) :
    (cb', timeout') ∈ Keyed.put Prod.fst (cb, timeout) s.bandwidthListeners ↔
      subscribed cb' (s.executed ++ [Posted.startListeningForBandwidth cb timeout]) =
        some timeout' := by
  rw [Keyed.mem_put, subscribed_snoc, h.listeners]
  unfold subscribes
  by_cases hcb : cb = cb'
  · subst hcb
    simp [eq_comm]
  · simp [hcb, Ne.symm hcb]

theorem listeners_filter (h : s.Heard) (cb' : β) (timeout' : Int) :
    (cb', timeout') ∈ s.bandwidthListeners.filter (·.1 ≠ cb) ↔
      subscribed cb' (s.executed ++ [Posted.stopListeningForBandwidth cb]) = some timeout' := by
  rw [List.mem_filter, subscribed_snoc, h.listeners]
  unfold subscribes
  by_cases hcb : cb = cb'
  · subst hcb
    simp
  · simp [hcb, Ne.symm hcb]

omit [DecidableEq β] in
/-- With a listener the loop comes to its delay. -/
theorem enterDelay_of_ne_nil (h : s.bandwidthListeners ≠ []) (id : Nat) :
    ∃ delay, s.enterDelay id = { s with loops := s.loops ++ [⟨id, delay⟩] } := by
  cases htimeout : s.timeout with
  | none =>
      unfold timeout at htimeout
      rw [List.min?_eq_none_iff, List.map_eq_nil_iff] at htimeout
      exact absurd htimeout h
  | some delay =>
      refine ⟨delay, ?_⟩
      unfold enterDelay
      rw [htimeout]

theorem put_ne_nil (x : β × Int) (l : List (β × Int)) : Keyed.put Prod.fst x l ≠ [] :=
  List.ne_nil_of_mem (Keyed.mem_put_self x l)

/-- The first part of `startListeningForBandwidth`. -/
theorem inv_addListener (cb : β) (h : s.Inv) (hdata : s.data ≠ none) (hcrash : s.crash = none)
    (timeout : Int) :
    let added := (s.begin (.startListeningForBandwidth cb timeout)).addListener cb timeout
    added.Inv ∧ added.IsListening cb ∧
      added.executed.getLast? = some (.startListeningForBandwidth cb timeout) := by
  intro added
  have hheard := h.heard
  have hadded (looper : Option Nat) (loops : List Loop) (launched : Nat) :
      Heard { s with
        executed := s.executed ++ [.startListeningForBandwidth cb timeout]
        bandwidthListeners := Keyed.put Prod.fst (cb, timeout) s.bandwidthListeners
        looper, loops, launched } :=
    ⟨Keyed.nodup_put _ hheard.nodup, listeners_put hheard timeout, hheard.sent_mono _⟩
  have hlistening : cb ∈ (Keyed.put Prod.fst (cb, timeout) s.bandwidthListeners).map Prod.fst :=
    List.mem_map.mpr ⟨(cb, timeout), Keyed.mem_put_self _ _, rfl⟩
  by_cases hempty : s.bandwidthListeners = []
  · have hnone : s.looper = none := h.looper.mp hempty
    have hloops : s.loops = [] := by
      have hmap := h.loops
      rw [if_neg hdata, hnone] at hmap
      exact List.map_eq_nil_iff.mp hmap
    obtain ⟨delay, hdelay⟩ := enterDelay_of_ne_nil (s := { s with
        executed := s.executed ++ [.startListeningForBandwidth cb timeout]
        bandwidthListeners := Keyed.put Prod.fst (cb, timeout) s.bandwidthListeners
        looper := some s.launched
        launched := s.launched + 1 }) (put_ne_nil _ _) s.launched
    have hcond : (s.bandwidthListeners.isEmpty &&
        !(cb ∈ s.bandwidthListeners.map Prod.fst : Bool)) = true := by
      rw [hempty]
      rfl
    have hresult : added = { s with
        executed := s.executed ++ [.startListeningForBandwidth cb timeout]
        bandwidthListeners := Keyed.put Prod.fst (cb, timeout) s.bandwidthListeners
        looper := some s.launched
        launched := s.launched + 1
        loops := s.loops ++ [⟨s.launched, delay⟩] } := by
      dsimp only [added, addListener, begin]
      rw [if_pos hcond, if_pos hnone]
      exact hdelay
    rw [hresult]
    refine ⟨⟨hadded _ _ _, ?_, ?_, .inl hcrash⟩, hlistening, List.getLast?_concat⟩
    · exact ⟨fun hnil => absurd hnil (put_ne_nil _ _), nofun⟩
    · dsimp only
      rw [if_neg hdata, hloops]
      rfl
  · have hcond : ¬ (s.bandwidthListeners.isEmpty &&
        !(cb ∈ s.bandwidthListeners.map Prod.fst : Bool)) = true := by
      simp [hempty]
    have hresult : added = { s with
        executed := s.executed ++ [.startListeningForBandwidth cb timeout]
        bandwidthListeners := Keyed.put Prod.fst (cb, timeout) s.bandwidthListeners } := by
      dsimp only [added, addListener, begin]
      rw [if_neg hcond]
    rw [hresult]
    refine ⟨⟨hadded _ _ _, ?_, h.loops, .inl hcrash⟩, hlistening, List.getLast?_concat⟩
    exact ⟨fun hnil => absurd hnil (put_ne_nil _ _),
      fun hnone => absurd (h.looper.mpr hnone) hempty⟩

/-- The rest of it. -/
theorem inv_greet {data : Data} {timeout : Int} (h : s.Inv) (hlistening : s.IsListening cb)
    (hlast : s.executed.getLast? = some (.startListeningForBandwidth cb timeout)) :
    (s.greet cb data).Inv := by
  unfold greet
  split
  · exact h
  · split
    · exact h
    · split
      · exact h
      · split
        case isTrue hdead =>
          exact ⟨⟨h.heard.nodup, h.heard.listeners, h.heard.sent⟩, h.looper, h.loops,
            .inr ⟨rfl, cb, timeout, hlast, hdead⟩⟩
        case isFalse =>
          exact ⟨heard_send h.heard fun _ _ _ => hlistening, h.looper, h.loops, h.crash⟩

theorem inv_removeListener (h : s.Inv) (hdata : s.data ≠ none) (hcrash : s.crash = none) :
    ((s.begin (.stopListeningForBandwidth cb)).removeListener cb).Inv := by
  have hheard := h.heard
  have hremoved (looper : Option Nat) (loops : List Loop) :
      Heard { s with
        executed := s.executed ++ [.stopListeningForBandwidth cb]
        bandwidthListeners := s.bandwidthListeners.filter (·.1 ≠ cb)
        looper, loops } :=
    ⟨hheard.nodup.sublist (List.filter_sublist.map _), listeners_filter hheard, hheard.sent_mono _⟩
  unfold removeListener begin
  dsimp only
  split
  case isTrue hlast =>
    -- the last listener goes: it was there, so that there is a loop
    have hsome : s.looper ≠ none := by
      intro hnone
      have hmem := hlast.1
      rw [h.looper.mpr hnone] at hmem
      exact absurd hmem List.not_mem_nil
    obtain ⟨id, hid⟩ := Option.ne_none_iff_exists'.mp hsome
    rw [hid]
    refine ⟨hremoved _ _, iff_of_true hlast.2 rfl, ?_, .inl hcrash⟩
    have hmap := h.loops
    rw [if_neg hdata, hid] at hmap
    dsimp only
    rw [if_neg hdata]
    have hall : ∀ loop ∈ s.loops, loop.id = id := by
      intro loop hloop
      have hmem : loop.id ∈ s.loops.map Loop.id := List.mem_map_of_mem hloop
      rw [hmap] at hmem
      exact List.mem_singleton.mp hmem
    rw [List.filter_eq_nil_iff.mpr (by intro loop hloop; simp [hall loop hloop])]
    rfl
  case isFalse hmore =>
    refine ⟨hremoved _ _, ?_, h.loops, .inl hcrash⟩
    rw [← h.looper]
    constructor
    · intro hnil
      by_contra hne
      by_cases hmem : cb ∈ s.bandwidthListeners.map Prod.fst
      · exact hmore ⟨hmem, hnil⟩
      · have hsame : s.bandwidthListeners.filter (·.1 ≠ cb) = s.bandwidthListeners := by
          refine List.filter_eq_self.mpr ?_
          intro x hx
          have hx' : x.1 ≠ cb := fun heq => hmem (heq ▸ List.mem_map_of_mem hx)
          simp [hx']
        exact hne (hsame ▸ hnil)
    · intro hnil
      dsimp only
      rw [hnil]
      rfl

/-- A turn of the loop. -/
theorem inv_turn {loop : Loop} {data : Data} {now : Int} (h : s.Inv) (hdata : s.data ≠ none)
    (hcrash : s.crash = none) (hloop : loop ∈ s.loops) : (s.turn loop data now).Inv := by
  have hmap := h.loops
  rw [if_neg hdata] at hmap
  have hid : s.looper = some loop.id := by
    have hmem : loop.id ∈ s.loops.map Loop.id := List.mem_map_of_mem hloop
    rw [hmap, Option.mem_toList] at hmem
    exact hmem
  have hsingle : s.loops = [loop] := by
    rw [hid] at hmap
    obtain ⟨loop', hloops, -⟩ := List.map_eq_singleton_iff.mp hmap
    rw [hloops, List.mem_singleton] at hloop
    rw [hloops, hloop]
  have hne : s.bandwidthListeners ≠ [] := by
    intro hnil
    rw [h.looper.mp hnil] at hid
    cases hid
  unfold turn
  dsimp only
  generalize (requestUpdates data now).1 = data', (requestUpdates data now).2 = stats
  have hbefore : Heard { s with data := some data', loops := s.loops.erase loop } :=
    ⟨h.heard.nodup, h.heard.listeners, h.heard.sent⟩
  -- whether anything is sent or not, the loop is back at its delay
  have hafter (sent : List (Sent β))
      (hsent : Heard { s with data := some data', loops := s.loops.erase loop, sent }) :
      Inv (({ s with data := some data', loops := s.loops.erase loop, sent } : Binder β).enterDelay
        loop.id) := by
    obtain ⟨delay, hdelay⟩ :=
      enterDelay_of_ne_nil (s := { s with data := some data', loops := s.loops.erase loop, sent })
        hne loop.id
    rw [hdelay]
    refine ⟨⟨hsent.nodup, hsent.listeners, hsent.sent⟩, h.looper, ?_, .inl hcrash⟩
    dsimp only
    rw [hsingle, List.erase_cons_head, hid, if_neg nofun]
    rfl
  split
  case isTrue =>
    have hheard := heard_broadcast hbefore (toListeners fun _ => report stats)
    obtain ⟨sent, hsent⟩ := broadcast_eq { s with data := some data', loops := s.loops.erase loop }
      fun cb => if s.IsListening cb then report stats else []
    exact hsent ▸ hafter sent (hsent ▸ hheard)
  case isFalse => exact hafter s.sent hbefore

theorem inv_runTask {data : Data} (h : s.Inv) (hdata : s.data ≠ none) (hcrash : s.crash = none)
    (task : Posted β) :
    (s.runTask data task).Inv := by
  cases task with
  | startListeningForBandwidth cb timeout =>
      obtain ⟨hinv, hlistening, hlast⟩ := inv_addListener cb h hdata hcrash timeout
      exact inv_greet hinv hlistening hlast
  | stopListeningForBandwidth cb => exact inv_removeListener h hdata hcrash

/-- The invariant speaks of the listeners, the loop and the history only. -/
theorem Inv.frame (h : s.Inv) (hcrash : s.crash = none)
    {callbacks unregistering dying dead : List β}
    {queue : List (Posted β)} : Inv { s with callbacks, unregistering, dying, dead, queue } :=
  ⟨⟨h.heard.nodup, h.heard.listeners, h.heard.sent⟩, h.looper, h.loops, .inl hcrash⟩

/-- Every event keeps the invariant. -/
theorem inv_step {t : Binder β} {event : Event β} (h : s.Inv) (hstep : s.step event = some t) :
    t.Inv := by
  obtain ⟨hcrash, heffect⟩ := effect_of_step hstep
  have hheard : ∀ {data : Option Data} {callbacks : List β} {loops : List Loop},
      Heard { s with data, callbacks, loops } :=
    ⟨h.heard.nodup, h.heard.listeners, h.heard.sent⟩
  cases heffect with
  | posts => exact h.frame hcrash
  | changes hopen =>
      have hloops := h.loops
      rw [if_neg hopen] at hloops
      exact ⟨hheard, h.looper, hloops, .inl hcrash⟩
  | drops => exact h.frame hcrash
  | @runs task queue data hqueue hdata =>
      have hpopped : Inv { s with queue } := h.frame hcrash
      have hopen : s.data ≠ none := by
        rw [hdata]
        nofun
      exact inv_runTask hpopped hopen hcrash task
  | turns hdata hloop =>
      have hopen : s.data ≠ none := by
        rw [hdata]
        nofun
      exact inv_turn h hopen hcrash hloop
  | @tells _ work _ _ hwork =>
      have hsent := heard_broadcast h.heard hwork
      obtain ⟨sent, heq⟩ := s.broadcast_eq work
      rw [heq] at hsent ⊢
      exact ⟨hsent, h.looper, h.loops, .inl hcrash⟩
  | closes => exact ⟨hheard, h.looper, rfl, .inl hcrash⟩

theorem inv_start (data : Data) : Inv ({ data := some data } : Binder β) where
  heard := ⟨List.nodup_nil, fun _ _ => iff_of_false List.not_mem_nil nofun,
    fun _ he => absurd he List.not_mem_nil⟩
  looper := iff_of_true rfl rfl
  loops := rfl
  crash := .inl rfl

/-- However the calls of clients, their deaths, the main thread and the loop interleave: the map
holds who listens by the calls that were run; at most one loop runs, and it does exactly while
somebody listens and the binder is open; `check` and `!!` do not fail, and the service only crashes
over a client that died before its call to listen was run; and traffic was only sent to who listened
then. -/
theorem traffic_follows_subscriptions (data : Data) (events : List (Event β)) (t : Binder β)
    (hrun : run step ({ data := some data } : Binder β) events = some t) :
    (∀ cb timeout, (cb, timeout) ∈ t.bandwidthListeners ↔ subscribed cb t.executed = some timeout) ∧
      t.loops.length ≤ 1 ∧ (t.loops ≠ [] ↔ t.data ≠ none ∧ ∃ cb, subscribed cb t.executed ≠ none) ∧
      (t.crash ≠ none → t.crash = some .deadObject ∧
        ∃ cb timeout, t.executed.getLast? = some (.startListeningForBandwidth cb timeout) ∧
          cb ∈ t.dead) ∧
      ∀ e ∈ t.sent, e.call.isTraffic = true → subscribed e.cb (t.executed.take e.after) ≠ none := by
  have hinv : t.Inv := run_invariant (fun _ _ _ hs hstep => inv_step hs hstep) (inv_start data) hrun
  have hsomebody : t.bandwidthListeners ≠ [] ↔ ∃ cb, subscribed cb t.executed ≠ none := by
    constructor
    · intro hne
      obtain ⟨⟨cb, timeout⟩, hmem⟩ := List.exists_mem_of_ne_nil _ hne
      exact ⟨cb, hinv.heard.isListening_iff.mp (List.mem_map_of_mem hmem)⟩
    · rintro ⟨cb, hcb⟩ hnil
      have hlistening := hinv.heard.isListening_iff.mpr hcb
      unfold IsListening at hlistening
      rw [hnil] at hlistening
      exact absurd hlistening List.not_mem_nil
  have hlength := congrArg List.length hinv.loops
  rw [List.length_map] at hlength
  refine ⟨hinv.heard.listeners, ?_, ?_, ?_, fun e he htraffic => (hinv.heard.sent e he htraffic).2⟩
  · rw [hlength]
    split
    · exact Nat.zero_le _
    · exact Option.length_toList_le
  · rw [← hsomebody, ne_eq, ← List.length_eq_zero_iff, hlength, ne_eq t.bandwidthListeners,
      hinv.looper]
    cases hdata : t.data with
    | none => simp
    | some data => cases t.looper <;> simp
  · intro hcrash
    exact hinv.crash.resolve_left hcrash

/-- A client listens, a loop reports to it, it stops; then one dies before its call is run. -/
def sampleEvents : List (Event Nat) :=
  [.registerCallback 1, .startListeningForBandwidth 1 500, .runs, .elapsed ⟨0, 500⟩ 1000,
    .stopListeningForBandwidth 1, .runs, .startListeningForBandwidth 2 500, .dies 2, .runs]

def sampleData : Data :=
  ⟨.connected, some ⟨7, none, some { current := { txTotal := 3 }, dirty := true }⟩, none⟩

theorem traffic_follows_subscriptions_sample :
    ∃ t, run step ({ data := some sampleData } : Binder Nat) sampleEvents = some t ∧
      t.sent.length = 4 ∧
      t.crash = some .deadObject ∧
      ∀ e ∈ t.sent, e.call.isTraffic = true → subscribed e.cb (t.executed.take e.after) ≠ none :=
  ⟨_, rfl, rfl, rfl, (traffic_follows_subscriptions sampleData sampleEvents _ rfl).2.2.2.2⟩

end Binder

end CypherConnect.Bg
