/-
  `GuardedProcessPool.Guard.looper`: the coroutine that guards one native process.

  The looper runs on the main thread. Each turn of its loop starts a thread that logs the output of
  the process, waits for its exit code and sends it over `exitChannel`, a rendezvous channel from
  which the looper receives. A send and a receive meet first, and the receive returns when the main
  thread resumes the looper; a receive that is cancelled or timed out in between loses the exit
  code.

  `cleanUp_served`: as long as no step drops an exit code or leaves a restarted process without its
  thread, a clean-up that waits for an exit code waits for a thread that will send it.
  `never_finished_of_drops`: the first step that does so leaves the looper in its clean-up for ever.
-/
import CypherConnect.Lib.Machine
import CypherConnect.Database.Profile

namespace CypherConnect.Bg

open Machine

/-! ## The threads -/

/-- Where a "stdout" thread is; `process` is read anew for the stream and for `waitFor`. -/
inductive Watch where
  | starting
  | logging (process : Nat)
  | awaiting (process : Nat)
  | sending (exitCode : Int)
  | handedOver (exitCode : Int)
  deriving DecidableEq, Repr

/-- A "stdout" thread, with the process that was current when it was started. -/
structure Monitor where
  process : Nat
  watch : Watch
  deriving DecidableEq, Repr

namespace Monitor

def handed (m : Monitor) : Option Int :=
  match m.watch with
  | .handedOver exitCode => some exitCode
  | _ => none

def offer (m : Monitor) : Option Int :=
  match m.watch with
  | .sending exitCode => some exitCode
  | _ => none

/-- The thread never reads another process than the one it was started for. -/
def ReadsOwn (m : Monitor) : Prop :=
  match m.watch with
  | .logging process | .awaiting process => process = m.process
  | _ => True

/-- One step of the thread up to its send; `current` is the process it finds in the field. -/
def move (m : Monitor) (current : Nat) (exits : List (Nat × Int)) : Option Monitor :=
  match m.watch with
  | .starting => some { m with watch := .logging current }
  | .logging _ => some { m with watch := .awaiting current }
  | .awaiting process => (exits.lookup process).map fun code => { m with watch := .sending code }
  | .sending _ | .handedOver _ => none

end Monitor

/-! ## The looper -/

/-- The four calls of `exitChannel.receive()`: in the loop, after SIGTERM, after `destroy`, and the
last one of the clean-up. -/
inductive Site where
  | loop
  | term
  | destroyed
  | last
  deriving DecidableEq, Repr

/-- Where the looper is: `launched` before its first turn, `looping` at the top of the loop. -/
inductive LooperPhase where
  | launched
  | looping
  | calling (site : Site)
  | waiting (site : Site)
  | matched (site : Site) (exitCode : Int)
  | exited (exitCode : Int)
  | inCallback (tries : Nat)
  | finished
  deriving DecidableEq, Repr

namespace LooperPhase

/-- The exit code that met a receive which has not returned. -/
def inTransit : LooperPhase → Option Int
  | .matched _ exitCode => some exitCode
  | _ => none

def inReceive : LooperPhase → Bool
  | .calling _ | .waiting _ | .matched _ _ => true
  | _ => false

end LooperPhase

inductive Signal where
  | sigterm
  | destroy
  | destroyForcibly
  deriving DecidableEq, Repr

/-- The `IOException` that `onFatal` gets. -/
inductive Fatal where
  | exitsTooFast (message : Text)
  | startFails
  | callbackFails
  deriving DecidableEq, Repr

/-- What does not change while the looper runs. -/
structure GuardConfig where
  sdk : Nat
  cmdName : Text
  hasCallback : Bool
  deriving DecidableEq, Repr

/-- `monitors` and `received` have the newest first; processes are numbered from 0. -/
structure Looper where
  phase : LooperPhase := .launched
  running : Bool := true
  cancelled : Bool := false
  started : Nat := 1
  monitors : List Monitor := []
  exits : List (Nat × Int) := []
  startTime : Int := 0
  received : List Int := []
  signals : List Signal := []
  fatals : List Fatal := []
  stopRequests : Nat := 0
  deriving DecidableEq, Repr

/-- How an attempt of `sendFd` ends. -/
inductive SendResult where
  | sent
  | ioException
  | errnoException
  deriving DecidableEq, Repr

inductive LooperEvent where
  | cancel
  | begin
  | spawn (now : Int)
  | monitorMoves (i : Nat)
  | processExits (process : Nat) (exitCode : Int)
  | callReceive (sender : Option Nat)
  | meet (i : Nat)
  | resume
  | timeout
  | handleExit (now : Int) (starts : Bool)
  | attempt (result : SendResult)
  deriving DecidableEq, Repr

namespace Looper

/-- The process in the field `process`. -/
def current (g : Looper) : Nat := g.started - 1

/-- From `process.destroy()` on. -/
def destroy (c : GuardConfig) (g : Looper) : Looper :=
  { g with
    signals := .destroy :: g.signals
    phase := .calling (if 26 ≤ c.sdk then .destroyed else .last) }

/-- The `finally` block. -/
def cleanUp (c : GuardConfig) (g : Looper) : Looper :=
  if g.running then
    if c.sdk < 24 then { g with signals := .sigterm :: g.signals, phase := .calling .term }
    else g.destroy c
  else { g with phase := .finished }

/-- The `catch` block. -/
def fail (c : GuardConfig) (g : Looper) (e : Fatal) : Looper :=
  cleanUp c { g with fatals := e :: g.fatals }

/-- `withTimeoutOrNull` gives null. -/
def timedOut (c : GuardConfig) (g : Looper) : Site → Option Looper
  | .term => some (g.destroy c)
  | .destroyed =>
      some { g with signals := .destroyForcibly :: g.signals, phase := .calling .last }
  | _ => none

/-- The receive at `site` returns. -/
def receive (g : Looper) (site : Site) (exitCode : Int) : Looper :=
  match site with
  | .loop =>
      { g with received := exitCode :: g.received, running := false, phase := .exited exitCode }
  | _ => { g with received := exitCode :: g.received, phase := .finished }

/-- The channel takes the exit code from a thread. -/
def handOver (g : Looper) (i : Nat) (m : Monitor) (exitCode : Int) : Looper :=
  { g with monitors := g.monitors.set i { m with watch := .handedOver exitCode } }

/-- A thread that sends already when `receive` is called is served without suspending. -/
def callReceive (g : Looper) (site : Site) : Option Nat → Option Looper
  | none =>
      if g.monitors.all fun m => m.offer.isNone then some { g with phase := .waiting site }
      else none
  | some i =>
      match g.monitors[i]? with
      | some m => m.offer.map fun exitCode => (g.handOver i m exitCode).receive site exitCode
      | none => none

/-- A waiting receive meets a sender; a cancelled one is off the channel. -/
def meet (g : Looper) (site : Site) (i : Nat) : Option Looper :=
  if site = .loop ∧ g.cancelled then none
  else
    match g.monitors[i]? with
    | some m => m.offer.map fun exitCode =>
        { g.handOver i m exitCode with phase := .matched site exitCode }
    | none => none

/-- The main thread resumes the looper. Only the clean-up is `NonCancellable`. -/
def resume (c : GuardConfig) (g : Looper) : Option Looper :=
  match g.phase with
  | .waiting .loop | .inCallback _ => if g.cancelled then some (g.cleanUp c) else none
  | .matched site exitCode =>
      if site = .loop ∧ g.cancelled then some (g.cleanUp c) else some (g.receive site exitCode)
  | _ => none

def tooFast (c : GuardConfig) (exitCode : Int) : Fatal :=
  .exitsTooFast (c.cmdName ++ " exits too fast (exit code: ".toList ++ (toString exitCode).toList ++
    ")".toList)

/-- The rest of the turn after the receive, up to the callback. -/
def handleExit (c : GuardConfig) (g : Looper) (exitCode now : Int) (starts : Bool) : Looper :=
  if now - g.startTime < 1000 then g.fail c (tooFast c exitCode)
  else if starts then
    { g with
      started := g.started + 1
      running := true
      phase := if c.hasCallback then .inCallback 0 else .looping }
  else g.fail c .startFails

/-- The restart callback of `startVpn`, in `sendFd` after its delay. -/
def attempt (c : GuardConfig) (g : Looper) (tries : Nat) : SendResult → Looper
  | .sent => { g with phase := .looping }
  | .errnoException => { g with stopRequests := g.stopRequests + 1, phase := .looping }
  | .ioException =>
      if 5 < tries then g.fail c .callbackFails else { g with phase := .inCallback (tries + 1) }

def step (c : GuardConfig) (g : Looper) : LooperEvent → Option Looper
  | .cancel => some { g with cancelled := true }
  | .begin =>
      if g.phase = .launched then
        some { g with phase := if g.cancelled then .finished else .looping }
      else none
  | .spawn now =>
      if g.phase = .looping then
        some { g with
          monitors := ⟨g.current, .starting⟩ :: g.monitors
          startTime := now
          phase := .calling .loop }
      else none
  | .monitorMoves i =>
      match g.monitors[i]? with
      | some m => (m.move g.current g.exits).map fun m' =>
          { g with monitors := g.monitors.set i m' }
      | none => none
  | .processExits process exitCode =>
      if process < g.started ∧ g.exits.lookup process = none then
        some { g with exits := (process, exitCode) :: g.exits }
      else none
  | .callReceive sender =>
      match g.phase with
      | .calling site => g.callReceive site sender
      | _ => none
  | .meet i =>
      match g.phase with
      | .waiting site => g.meet site i
      | _ => none
  | .resume => g.resume c
  | .timeout =>
      match g.phase with
      | .waiting site | .matched site _ => g.timedOut c site
      | _ => none
  | .handleExit now starts =>
      match g.phase with
      | .exited exitCode => some (g.handleExit c exitCode now starts)
      | _ => none
  | .attempt result =>
      match g.phase with
      | .inCallback tries => if g.cancelled then none else some (g.attempt c tries result)
      | _ => none

/-! ## What a step can do -/

/-- The steps that lose an exit code or leave a restarted process without its thread: a receive of
the loop is cancelled or a receive of the clean-up times out after it met its sender, and the
restart callback is cancelled or throws. -/
def drops (g : Looper) : LooperEvent → Bool
  | .resume =>
      match g.phase with
      | .matched .loop _ => g.cancelled
      | .inCallback _ => true
      | _ => false
  | .timeout =>
      match g.phase with
      | .matched _ _ => true
      | _ => false
  | .attempt .ioException =>
      match g.phase with
      | .inCallback tries => 5 < tries
      | _ => false
  | _ => false

/-- The looper's steps by the phase they start in; those that drop something are in `Dropped`. -/
inductive Moves (c : GuardConfig) (g : Looper) : Looper → Prop where
  | cancel : Moves c g { g with cancelled := true }
  | exits (exits : List (Nat × Int)) : Moves c g { g with exits := exits }
  | monitor (i : Nat) (m m' : Monitor) (hm : g.monitors[i]? = some m)
      (hmove : m.move g.current g.exits = some m') :
      Moves c g { g with monitors := g.monitors.set i m' }
  | begin (hphase : g.phase = .launched) :
      Moves c g { g with phase := if g.cancelled then .finished else .looping }
  | spawn (now : Int) (hphase : g.phase = .looping) :
      Moves c g { g with
        monitors := ⟨g.current, .starting⟩ :: g.monitors
        startTime := now
        phase := .calling .loop }
  | wait (site : Site) (hphase : g.phase = .calling site) :
      Moves c g { g with phase := .waiting site }
  | take (site : Site) (i : Nat) (m : Monitor) (exitCode : Int) (hphase : g.phase = .calling site)
      (hm : g.monitors[i]? = some m) (hoffer : m.offer = some exitCode) :
      Moves c g ((g.handOver i m exitCode).receive site exitCode)
  | meet (site : Site) (i : Nat) (m : Monitor) (exitCode : Int) (hphase : g.phase = .waiting site)
      (hm : g.monitors[i]? = some m) (hoffer : m.offer = some exitCode) :
      Moves c g { g.handOver i m exitCode with phase := .matched site exitCode }
  | cancelled (hphase : g.phase = .waiting .loop) : Moves c g (g.cleanUp c)
  | returned (site : Site) (exitCode : Int) (hphase : g.phase = .matched site exitCode) :
      Moves c g (g.receive site exitCode)
  | timedOut (site : Site) (g' : Looper) (hphase : g.phase = .waiting site)
      (htimed : g.timedOut c site = some g') : Moves c g g'
  | handleExit (exitCode now : Int) (starts : Bool) (hphase : g.phase = .exited exitCode) :
      Moves c g (g.handleExit c exitCode now starts)
  | attempt (tries : Nat) (stopRequests : Nat) (phase : LooperPhase)
      (hphase : g.phase = .inCallback tries)
      (hnext : phase = .looping ∨ ∃ n, phase = .inCallback n) :
      Moves c g { g with stopRequests := stopRequests, phase := phase }

/-- How a step that drops something ends: in the clean-up, or further on in it. -/
inductive Dropped (c : GuardConfig) (g : Looper) : Looper → Prop where
  | cancelled (exitCode : Int) (hphase : g.phase = .matched .loop exitCode) :
      Dropped c g (g.cleanUp c)
  | timedOut (site : Site) (exitCode : Int) (g' : Looper)
      (hphase : g.phase = .matched site exitCode)
      (htimed : g.timedOut c site = some g') : Dropped c g g'
  | callback (tries : Nat) (fatals : List Fatal) (hphase : g.phase = .inCallback tries) :
      Dropped c g (cleanUp c { g with fatals := fatals })

variable {c : GuardConfig} {g g' : Looper}

theorem callReceive_some {site : Site} {sender : Option Nat} (hphase : g.phase = .calling site)
    (h : g.callReceive site sender = some g') : Moves c g g' := by
  cases sender with
  | none =>
      simp only [callReceive] at h
      split at h <;> cases h
      exact .wait site hphase
  | some i =>
      simp only [callReceive] at h
      split at h
      · next m hm =>
          obtain ⟨exitCode, hoffer, rfl⟩ := Option.map_eq_some_iff.mp h
          exact .take site i m exitCode hphase hm hoffer
      · cases h

theorem meet_some {site : Site} {i : Nat} (hphase : g.phase = .waiting site)
    (h : g.meet site i = some g') : Moves c g g' := by
  unfold meet at h
  split at h
  · cases h
  · split at h
    · next m hm =>
        obtain ⟨exitCode, hoffer, rfl⟩ := Option.map_eq_some_iff.mp h
        exact .meet site i m exitCode hphase hm hoffer
    · cases h

theorem resume_some (h : g.resume c = some g') :
    (g.drops .resume = false ∧ Moves c g g') ∨ (g.drops .resume = true ∧ Dropped c g g') := by
  unfold resume at h
  unfold drops
  split at h
  · next hphase =>
      split at h <;> cases h
      rw [hphase]
      exact .inl ⟨rfl, .cancelled hphase⟩
  · next tries hphase =>
      split at h <;> cases h
      rw [hphase]
      exact .inr ⟨rfl, .callback tries g.fatals hphase⟩
  · next site exitCode hphase =>
      rw [hphase]
      split at h <;> cases h
      · next hc =>
          obtain ⟨rfl, hcancelled⟩ := hc
          exact .inr ⟨hcancelled, .cancelled exitCode hphase⟩
      · next hc =>
          refine .inl ⟨?_, .returned site exitCode hphase⟩
          cases site with
          | loop => exact Bool.eq_false_iff.mpr fun hcancelled => hc ⟨rfl, hcancelled⟩
          | _ => rfl
  · cases h

theorem attempt_cases {tries : Nat} {result : SendResult} (hphase : g.phase = .inCallback tries) :
    (g.drops (.attempt result) = false ∧ Moves c g (g.attempt c tries result)) ∨
      (g.drops (.attempt result) = true ∧ Dropped c g (g.attempt c tries result)) := by
  cases result with
  | sent => exact .inl ⟨rfl, .attempt tries g.stopRequests _ hphase (.inl rfl)⟩
  | errnoException => exact .inl ⟨rfl, .attempt tries _ _ hphase (.inl rfl)⟩
  | ioException =>
      unfold drops attempt
      rw [hphase]
      by_cases htries : 5 < tries
      · rw [if_pos htries]
        exact .inr ⟨decide_eq_true htries, .callback tries _ hphase⟩
      · rw [if_neg htries]
        exact .inl ⟨decide_eq_false htries, .attempt tries g.stopRequests _ hphase (.inr ⟨_, rfl⟩)⟩

/-- Every step drops something and is one of `Dropped`, or it drops nothing and is one of
`Moves`. -/
theorem step_cases {e : LooperEvent} (h : g.step c e = some g') :
    (g.drops e = false ∧ Moves c g g') ∨ (g.drops e = true ∧ Dropped c g g') := by
  cases e with
  | cancel =>
      cases h
      exact .inl ⟨rfl, .cancel⟩
  | begin =>
      simp only [step] at h
      split at h <;> cases h
      exact .inl ⟨rfl, .begin ‹_›⟩
  | spawn now =>
      simp only [step] at h
      split at h <;> cases h
      exact .inl ⟨rfl, .spawn now ‹_›⟩
  | monitorMoves i =>
      simp only [step] at h
      split at h
      · next m hm =>
          obtain ⟨m', hmove, rfl⟩ := Option.map_eq_some_iff.mp h
          exact .inl ⟨rfl, .monitor i m m' hm hmove⟩
      · cases h
  | processExits process exitCode =>
      simp only [step] at h
      split at h <;> cases h
      exact .inl ⟨rfl, .exits _⟩
  | callReceive sender =>
      simp only [step] at h
      split at h
      · next hphase => exact .inl ⟨rfl, callReceive_some hphase h⟩
      · cases h
  | meet i =>
      simp only [step] at h
      split at h
      · next hphase => exact .inl ⟨rfl, meet_some hphase h⟩
      · cases h
  | resume => exact resume_some h
  | timeout =>
      simp only [step] at h
      unfold drops
      split at h
      · next site hphase =>
          rw [hphase]
          exact .inl ⟨rfl, .timedOut site g' hphase h⟩
      · next site exitCode hphase =>
          rw [hphase]
          exact .inr ⟨rfl, .timedOut site exitCode g' hphase h⟩
      · cases h
  | handleExit now starts =>
      simp only [step] at h
      split at h <;> cases h
      exact .inl ⟨rfl, .handleExit _ now starts ‹_›⟩
  | attempt result =>
      simp only [step] at h
      split at h
      · next hphase =>
          split at h <;> cases h
          exact attempt_cases hphase
      · cases h

end Looper

/-! ## The threads' ledger -/

/-- At most the newest thread has not handed over its exit code; `pending` says whether. -/
def PendingOnly (pending : Bool) : List Monitor → Prop
  | [] => pending = false
  | m :: rest => m.handed.isNone = pending ∧ ∀ n ∈ rest, n.handed.isSome = true

/-- The threads against the exit codes received; `transit` is a code that met a receive which has
not returned. -/
structure Ledger (monitors : List Monitor) (received : List Int) (pending : Bool)
    (transit : Option Int) : Prop where
  processes : monitors.map Monitor.process = (List.range monitors.length).reverse
  reads : ∀ m ∈ monitors, m.ReadsOwn
  newest : PendingOnly pending monitors
  codes : monitors.filterMap Monitor.handed = transit.toList ++ received

namespace Ledger

variable {monitors : List Monitor} {received : List Int} {pending : Bool} {transit : Option Int}

theorem all_handed (h : PendingOnly false monitors) : ∀ m ∈ monitors, m.handed.isSome = true := by
  intro m hm
  cases monitors with
  | nil => cases hm
  | cons n rest =>
      rcases List.mem_cons.mp hm with rfl | hm
      · rw [← Option.not_isNone, h.1]
        rfl
      · exact h.2 m hm

/-- Only the newest thread can still do something. -/
theorem newest_of_not_handed (h : PendingOnly pending monitors) {i : Nat} {m : Monitor}
    (hm : monitors[i]? = some m) (hhanded : m.handed = none) :
    i = 0 ∧ pending = true ∧ ∃ rest, monitors = m :: rest := by
  have hnot : ¬ m.handed.isSome = true := by
    rw [hhanded]
    exact Bool.false_ne_true
  cases monitors with
  | nil => cases hm
  | cons n rest =>
      cases i with
      | zero =>
          cases hm
          refine ⟨rfl, ?_, rest, rfl⟩
          rw [← h.1, hhanded]
          rfl
      | succ i => exact absurd (h.2 m (List.mem_of_getElem? hm)) hnot

theorem exists_pending (h : PendingOnly true monitors) :
    ∃ m rest, monitors = m :: rest ∧ m.handed = none := by
  cases monitors with
  | nil => cases h
  | cons m rest => exact ⟨m, rest, rfl, Option.isNone_iff_eq_none.mp h.1⟩

theorem empty : Ledger [] [] false none := by
  refine ⟨rfl, ?_, rfl, rfl⟩
  intro m hm
  cases hm

theorem process_newest {m : Monitor} {rest : List Monitor}
    (h : Ledger (m :: rest) received pending transit) : m.process = rest.length := by
  have hp := h.processes
  rw [List.length_cons, List.range_succ, List.reverse_append, List.map_cons] at hp
  exact (List.cons.inj hp).1

theorem spawn (h : Ledger monitors received false transit) :
    Ledger (⟨monitors.length, .starting⟩ :: monitors) received true transit := by
  refine ⟨?_, ?_, ⟨rfl, all_handed h.newest⟩, h.codes⟩
  · rw [List.length_cons, List.range_succ, List.reverse_append, List.map_cons, h.processes]
    rfl
  · intro m hm
    rcases List.mem_cons.mp hm with rfl | hm
    · exact trivial
    · exact h.reads m hm

/-- Replacing the newest thread by one of the same process. -/
theorem replace {m m' : Monitor} {rest : List Monitor} {pending' : Bool} {transit' : Option Int}
    (h : Ledger (m :: rest) received pending none) (hhanded : m.handed = none)
    (hprocess : m'.process = m.process) (hreads : m'.ReadsOwn)
    (hpending : m'.handed.isNone = pending') (htransit : m'.handed = transit') :
    Ledger (m' :: rest) received pending' transit' := by
  refine ⟨?_, ?_, ⟨hpending, h.newest.2⟩, ?_⟩
  · have hp := h.processes
    rw [List.map_cons] at hp ⊢
    rw [hprocess]
    exact hp
  · intro n hn
    rcases List.mem_cons.mp hn with rfl | hn
    · exact hreads
    · exact h.reads n (List.mem_cons_of_mem _ hn)
  · have hc := h.codes
    rw [List.filterMap_cons_none hhanded] at hc
    rw [← htransit, List.filterMap_cons, hc]
    cases m'.handed <;> rfl

theorem move_spec {m m' : Monitor} {current : Nat} {exits : List (Nat × Int)}
    (hmove : m.move current exits = some m') :
    m.handed = none ∧ m'.handed = none ∧ m'.process = m.process ∧
      (current = m.process → m'.ReadsOwn) := by
  unfold Monitor.move at hmove
  unfold Monitor.handed
  split at hmove
  · next hw =>
      cases hmove
      rw [hw]
      exact ⟨rfl, rfl, rfl, id⟩
  · next hw =>
      cases hmove
      rw [hw]
      exact ⟨rfl, rfl, rfl, id⟩
  · next hw =>
      obtain ⟨code, _, rfl⟩ := Option.map_eq_some_iff.mp hmove
      rw [hw]
      exact ⟨rfl, rfl, rfl, fun _ => trivial⟩
  · cases hmove
  · cases hmove

theorem not_handed_of_offer {m : Monitor} {exitCode : Int} (h : m.offer = some exitCode) :
    m.handed = none := by
  unfold Monitor.offer at h
  unfold Monitor.handed
  split at h
  · next hw => rw [hw]
  · cases h

/-- A thread moves: it is the newest, and finds its own process. -/
theorem move {i current : Nat} {m m' : Monitor} {exits : List (Nat × Int)}
    (h : Ledger monitors received pending none)
    (hcurrent : pending = true → current + 1 = monitors.length)
    (hm : monitors[i]? = some m) (hmove : m.move current exits = some m') :
    Ledger (monitors.set i m') received pending none := by
  obtain ⟨hhanded, hhanded', hprocess, hreads⟩ := move_spec hmove
  obtain ⟨rfl, hp, rest, rfl⟩ := newest_of_not_handed h.newest hm hhanded
  have hown : current = m.process := by
    rw [process_newest h]
    exact Nat.succ.inj (hcurrent hp)
  refine replace h hhanded hprocess (hreads hown) ?_ hhanded'
  rw [hhanded', hp]
  rfl

/-- A thread hands over: afterwards none is pending. -/
theorem handOver {i : Nat} {m : Monitor} {exitCode : Int}
    (h : Ledger monitors received pending none) (hm : monitors[i]? = some m)
    (hoffer : m.offer = some exitCode) :
    Ledger (monitors.set i { m with watch := .handedOver exitCode }) received false
      (some exitCode) := by
  obtain ⟨rfl, hp, rest, rfl⟩ := newest_of_not_handed h.newest hm (not_handed_of_offer hoffer)
  exact replace h (not_handed_of_offer hoffer) rfl trivial rfl rfl

theorem receive {exitCode : Int} (h : Ledger monitors received pending (some exitCode)) :
    Ledger monitors (exitCode :: received) pending none :=
  ⟨h.processes, h.reads, h.newest, h.codes⟩

end Ledger

/-! ## Runs that drop nothing -/

namespace Looper

/-- The ledger of every phase. -/
inductive Balanced (g : Looper) : Prop where
  | outside (hphase : g.phase = .launched ∨ g.phase = .looping ∨
      ∃ tries, g.phase = .inCallback tries)
      (hrunning : g.running = true) (hstarted : g.started = g.monitors.length + 1)
      (hledger : Ledger g.monitors g.received false none)
  | receiving (site : Site) (hphase : g.phase = .calling site ∨ g.phase = .waiting site)
      (hrunning : g.running = true) (hstarted : g.started = g.monitors.length)
      (hledger : Ledger g.monitors g.received true none)
  | matched (site : Site) (exitCode : Int) (hphase : g.phase = .matched site exitCode)
      (hrunning : g.running = true) (hstarted : g.started = g.monitors.length)
      (hledger : Ledger g.monitors g.received false (some exitCode))
  | exited (exitCode : Int) (hphase : g.phase = .exited exitCode) (hrunning : g.running = false)
      (hstarted : g.started = g.monitors.length) (hledger : Ledger g.monitors g.received false none)
  | finished (hphase : g.phase = .finished) (hstarted : g.started ≤ g.monitors.length + 1)
      (hledger : Ledger g.monitors g.received false none)

variable {c : GuardConfig} {g g' : Looper}

theorem balanced_init : Balanced {} := .outside (.inl rfl) rfl rfl .empty

/-- A process that runs is waited for in the clean-up. -/
theorem cleanUp_of_running (h : g.running = true) : ∃ signals site, site ≠ .loop ∧
    g.cleanUp c = { g with signals := signals, phase := .calling site } := by
  unfold cleanUp
  rw [if_pos h]
  split
  · exact ⟨_, .term, Site.noConfusion, rfl⟩
  · refine ⟨_, _, ?_, rfl⟩
    split <;> exact Site.noConfusion

theorem timedOut_some {site : Site} (h : g.timedOut c site = some g') : ∃ signals next,
    next ≠ .loop ∧ g' = { g with signals := signals, phase := .calling next } := by
  cases site with
  | term =>
      cases h
      refine ⟨_, _, ?_, rfl⟩
      split <;> exact Site.noConfusion
  | destroyed =>
      cases h
      exact ⟨_, .last, Site.noConfusion, rfl⟩
  | _ => cases h

/-- A receive returns: in the loop the process is taken as ended, in the clean-up the looper is
done. -/
theorem balanced_receive {site : Site} {exitCode : Int} (hstarted : g.started = g.monitors.length)
    (hledger : Ledger g.monitors g.received false (some exitCode)) :
    (g.receive site exitCode).Balanced := by
  cases site with
  | loop => exact .exited exitCode rfl rfl hstarted hledger.receive
  | _ => exact .finished rfl (Nat.le_succ_of_le (Nat.le_of_eq hstarted)) hledger.receive

theorem balanced_fail {e : Fatal} (hrunning : g.running = false)
    (hstarted : g.started = g.monitors.length) (hledger : Ledger g.monitors g.received false none) :
    (g.fail c e).Balanced := by
  unfold fail cleanUp
  rw [if_neg (by rw [hrunning]; exact Bool.false_ne_true)]
  exact .finished rfl (Nat.le_succ_of_le (Nat.le_of_eq hstarted)) hledger

theorem balanced_handleExit {exitCode now : Int} {starts : Bool} (hrunning : g.running = false)
    (hstarted : g.started = g.monitors.length) (hledger : Ledger g.monitors g.received false none) :
    (g.handleExit c exitCode now starts).Balanced := by
  have hstarted' : g.started + 1 = g.monitors.length + 1 := congrArg (· + 1) hstarted
  unfold handleExit
  split
  · exact balanced_fail hrunning hstarted hledger
  · split
    · refine .outside ?_ rfl hstarted' hledger
      cases c.hasCallback
      · exact .inr (.inl rfl)
      · exact .inr (.inr ⟨0, rfl⟩)
    · exact balanced_fail hrunning hstarted hledger

theorem current_add_one (h : g.started = g.monitors.length) (hpos : g.monitors ≠ []) :
    g.current + 1 = g.monitors.length := by
  have hlen := List.length_pos_of_ne_nil hpos
  unfold current
  omega

/-- In the phases outside a receive only the looper itself moves. -/
theorem Balanced.of_outside
    (hphase : g.phase = .launched ∨ g.phase = .looping ∨ ∃ tries, g.phase = .inCallback tries)
    (hrunning : g.running = true) (hstarted : g.started = g.monitors.length + 1)
    (hledger : Ledger g.monitors g.received false none) (hmove : Moves c g g') : g'.Balanced := by
  cases hmove with
  | cancel => exact .outside hphase hrunning hstarted hledger
  | exits => exact .outside hphase hrunning hstarted hledger
  | monitor i m m' hm hmove =>
      refine .outside hphase hrunning ?_ (hledger.move (fun h => nomatch h) hm hmove)
      show g.started = (g.monitors.set i m').length + 1
      rw [List.length_set, hstarted]
  | begin =>
      by_cases hc : g.cancelled = true
      · rw [if_pos hc]
        exact .finished rfl (Nat.le_of_eq hstarted) hledger
      · rw [if_neg hc]
        exact .outside (.inr (.inl rfl)) hrunning hstarted hledger
  | spawn now =>
      have hcurrent : g.current = g.monitors.length := by
        unfold current
        rw [hstarted]
        rfl
      rw [hcurrent]
      exact .receiving .loop (.inl rfl) hrunning hstarted hledger.spawn
  | attempt tries stopRequests phase _ hnext =>
      exact .outside (.inr hnext) hrunning hstarted hledger
  | _ => simp_all

theorem Balanced.of_receiving {site : Site}
    (hphase : g.phase = .calling site ∨ g.phase = .waiting site)
    (hrunning : g.running = true) (hstarted : g.started = g.monitors.length)
    (hledger : Ledger g.monitors g.received true none) (hmove : Moves c g g') : g'.Balanced := by
  have hlength (i : Nat) (m' : Monitor) : g.started = (g.monitors.set i m').length := by
    rw [List.length_set, hstarted]
  cases hmove with
  | cancel => exact .receiving site hphase hrunning hstarted hledger
  | exits => exact .receiving site hphase hrunning hstarted hledger
  | monitor i m m' hm hmove =>
      have hpos : g.monitors ≠ [] := List.ne_nil_of_mem (List.mem_of_getElem? hm)
      exact .receiving site hphase hrunning (hlength i m')
        (hledger.move (fun _ => current_add_one hstarted hpos) hm hmove)
  | wait site => exact .receiving site (.inr rfl) hrunning hstarted hledger
  | take site i m exitCode _ hm hoffer =>
      exact balanced_receive (hlength i _) (hledger.handOver hm hoffer)
  | meet site i m exitCode _ hm hoffer =>
      exact .matched site exitCode rfl hrunning (hlength i _) (hledger.handOver hm hoffer)
  | cancelled =>
      obtain ⟨signals, next, _, heq⟩ := cleanUp_of_running (c := c) hrunning
      rw [heq]
      exact .receiving next (.inl rfl) hrunning hstarted hledger
  | timedOut site g' _ htimed =>
      obtain ⟨signals, next, _, rfl⟩ := timedOut_some htimed
      exact .receiving next (.inl rfl) hrunning hstarted hledger
  | _ => simp_all

/-- Where every thread has handed over, no thread moves. -/
theorem not_move_of_handed {i : Nat} {m m' : Monitor} {current : Nat} {exits : List (Nat × Int)}
    (hledger : PendingOnly false g.monitors) (hm : g.monitors[i]? = some m) :
    m.move current exits ≠ some m' := by
  intro hmove
  exact Bool.false_ne_true (Ledger.newest_of_not_handed hledger hm (Ledger.move_spec hmove).1).2.1

theorem Balanced.of_matched {site : Site} {exitCode : Int} (h : g.Balanced)
    (hphase : g.phase = .matched site exitCode) :
    g.running = true ∧ PendingOnly false g.monitors := by
  cases h with
  | matched _ _ _ hrunning _ hledger => exact ⟨hrunning, hledger.newest⟩
  | _ => simp_all

theorem Balanced.of_inCallback {tries : Nat} (h : g.Balanced)
    (hphase : g.phase = .inCallback tries) :
    g.running = true ∧ PendingOnly false g.monitors := by
  cases h with
  | outside _ hrunning _ hledger => exact ⟨hrunning, hledger.newest⟩
  | _ => simp_all

theorem balanced_step (h : g.Balanced) (hmove : Moves c g g') : g'.Balanced := by
  cases h with
  | outside hphase hrunning hstarted hledger =>
      exact .of_outside hphase hrunning hstarted hledger hmove
  | receiving site hphase hrunning hstarted hledger =>
      exact .of_receiving hphase hrunning hstarted hledger hmove
  | matched site exitCode hphase hrunning hstarted hledger =>
      cases hmove with
      | cancel => exact .matched site exitCode hphase hrunning hstarted hledger
      | exits => exact .matched site exitCode hphase hrunning hstarted hledger
      | monitor i m m' hm hmove => exact absurd hmove (not_move_of_handed hledger.newest hm)
      | returned site' exitCode' hphase' =>
          cases hphase.symm.trans hphase'
          exact balanced_receive hstarted hledger
      | _ => simp_all
  | exited exitCode hphase hrunning hstarted hledger =>
      cases hmove with
      | cancel => exact .exited exitCode hphase hrunning hstarted hledger
      | exits => exact .exited exitCode hphase hrunning hstarted hledger
      | monitor i m m' hm hmove => exact absurd hmove (not_move_of_handed hledger.newest hm)
      | handleExit => exact balanced_handleExit hrunning hstarted hledger
      | _ => simp_all
  | finished hphase hstarted hledger =>
      cases hmove with
      | cancel => exact .finished hphase hstarted hledger
      | exits => exact .finished hphase hstarted hledger
      | monitor i m m' hm hmove => exact absurd hmove (not_move_of_handed hledger.newest hm)
      | _ => simp_all

/-- Along a run that drops nothing the ledger is kept. -/
theorem balanced_run {es : List LooperEvent} (hrun : run (step c) {} es = some g)
    (hkept : Meets (step c) (fun g e => g.drops e = false) {} es) : g.Balanced := by
  refine run_invariant_of_meets (P := Balanced) ?_ balanced_init hkept hrun
  intro g e g' hg he hs
  rcases step_cases hs with ⟨_, hmove⟩ | ⟨hdrops, _⟩
  · exact balanced_step hg hmove
  · rw [he] at hdrops
    cases hdrops

/-- What the clean-up relies on: where it waits, a thread of the current process has not handed over
its exit code; and what this rests on: one thread for each process in turn (newest first), which
reads no other process and whose one exit code is received once. -/
structure Served (g : Looper) : Prop where
  awaited : ∀ site, site ≠ .loop → g.phase = .waiting site →
    ∃ m ∈ g.monitors, m.process = g.current ∧ m.handed = none
  processes : g.monitors.map Monitor.process = (List.range g.monitors.length).reverse
  started : g.started ≤ g.monitors.length + 1
  spawned : g.phase.inReceive = true → g.started = g.monitors.length
  reads : ∀ m ∈ g.monitors, m.ReadsOwn
  received : g.monitors.filterMap Monitor.handed = g.phase.inTransit.toList ++ g.received

theorem served_of_ledger {pending : Bool} {transit : Option Int}
    (hledger : Ledger g.monitors g.received pending transit)
    (htransit : g.phase.inTransit = transit) (hstarted : g.started ≤ g.monitors.length + 1)
    (hspawned : g.phase.inReceive = true → g.started = g.monitors.length)
    (hpending : ∀ site, g.phase = .waiting site → pending = true) : g.Served := by
  refine ⟨?_, hledger.processes, hstarted, hspawned, hledger.reads, ?_⟩
  · intro site _ hwaiting
    have hnewest := hledger.newest
    rw [hpending site hwaiting] at hnewest
    obtain ⟨m, rest, hmonitors, hhanded⟩ := Ledger.exists_pending hnewest
    have hlength : g.started = g.monitors.length := hspawned (by rw [hwaiting]; rfl)
    rw [hmonitors] at hledger hlength ⊢
    refine ⟨m, List.mem_cons_self, ?_, hhanded⟩
    rw [Ledger.process_newest hledger]
    unfold current
    rw [hlength]
    rfl
  · rw [htransit]
    exact hledger.codes

theorem served_of_balanced (h : g.Balanced) : g.Served := by
  cases h with
  | outside hphase hrunning hstarted hledger =>
      have hplain : g.phase.inTransit = none ∧ g.phase.inReceive = false := by
        rcases hphase with hphase | hphase | ⟨tries, hphase⟩ <;> rw [hphase] <;> exact ⟨rfl, rfl⟩
      refine served_of_ledger hledger hplain.1 (Nat.le_of_eq hstarted) ?_ ?_
      · intro hin
        rw [hplain.2] at hin
        cases hin
      · intro site hwaiting
        rw [hwaiting] at hplain
        cases hplain.2
  | receiving site hphase hrunning hstarted hledger =>
      refine served_of_ledger hledger ?_ (Nat.le_succ_of_le (Nat.le_of_eq hstarted))
        (fun _ => hstarted) (fun _ _ => rfl)
      rcases hphase with hphase | hphase <;> rw [hphase] <;> rfl
  | matched site exitCode hphase hrunning hstarted hledger =>
      refine served_of_ledger hledger ?_ (Nat.le_succ_of_le (Nat.le_of_eq hstarted))
        (fun _ => hstarted) ?_
      · rw [hphase]
        rfl
      · intro other hwaiting
        cases hphase.symm.trans hwaiting
  | exited exitCode hphase hrunning hstarted hledger =>
      refine served_of_ledger hledger ?_ (Nat.le_succ_of_le (Nat.le_of_eq hstarted))
        (fun _ => hstarted) ?_
      · rw [hphase]
        rfl
      · intro other hwaiting
        cases hphase.symm.trans hwaiting
  | finished hphase hstarted hledger =>
      refine served_of_ledger hledger ?_ hstarted ?_ ?_
      · rw [hphase]
        rfl
      · intro hin
        rw [hphase] at hin
        cases hin
      · intro other hwaiting
        cases hphase.symm.trans hwaiting

/-! ## The clean-up that never ends -/

/-- In a clean-up with no exit code to come. -/
structure Orphaned (g : Looper) : Prop where
  phase : ∃ site, site ≠ .loop ∧ (g.phase = .calling site ∨ g.phase = .waiting site)
  handed : PendingOnly false g.monitors

theorem orphaned_step (h : g.Orphaned) {e : LooperEvent} (hstep : g.step c e = some g') :
    g'.Orphaned := by
  obtain ⟨⟨site, hsite, hphase⟩, hhanded⟩ := h
  have hno {i : Nat} {m : Monitor} {exitCode : Int} (hm : g.monitors[i]? = some m) :
      m.offer ≠ some exitCode := by
    intro hoffer
    exact Bool.false_ne_true
      (Ledger.newest_of_not_handed hhanded hm (Ledger.not_handed_of_offer hoffer)).2.1
  rcases step_cases hstep with ⟨_, hmove⟩ | ⟨_, hdrop⟩
  · cases hmove with
    | cancel => exact ⟨⟨site, hsite, hphase⟩, hhanded⟩
    | exits => exact ⟨⟨site, hsite, hphase⟩, hhanded⟩
    | monitor i m m' hm hmove => exact absurd hmove (not_move_of_handed hhanded hm)
    | wait other hother =>
        refine ⟨⟨other, ?_, .inr rfl⟩, hhanded⟩
        rcases hphase with hphase | hphase <;> cases hphase.symm.trans hother
        exact hsite
    | take other i m exitCode _ hm hoffer => exact absurd hoffer (hno hm)
    | meet other i m exitCode _ hm hoffer => exact absurd hoffer (hno hm)
    | timedOut other g' _ htimed =>
        obtain ⟨signals, next, hnext, rfl⟩ := timedOut_some htimed
        exact ⟨⟨next, hnext, .inl rfl⟩, hhanded⟩
    | _ => simp_all
  · cases hdrop <;> simp_all

/-- A step that drops something leaves a clean-up with no exit code to come. -/
theorem orphaned_of_drops (h : g.Balanced) {e : LooperEvent} (hdrops : g.drops e = true)
    (hstep : g.step c e = some g') : g'.Orphaned := by
  rcases step_cases hstep with ⟨hkept, _⟩ | ⟨_, hdrop⟩
  · rw [hkept] at hdrops
    cases hdrops
  · cases hdrop with
    | cancelled exitCode hphase =>
        obtain ⟨hrunning, hhanded⟩ := h.of_matched hphase
        obtain ⟨signals, site, hsite, heq⟩ := cleanUp_of_running (c := c) hrunning
        rw [heq]
        exact ⟨⟨site, hsite, .inl rfl⟩, hhanded⟩
    | timedOut site exitCode g' hphase htimed =>
        obtain ⟨hrunning, hhanded⟩ := h.of_matched hphase
        obtain ⟨signals, next, hnext, rfl⟩ := timedOut_some htimed
        exact ⟨⟨next, hnext, .inl rfl⟩, hhanded⟩
    | callback tries fatals hphase =>
        obtain ⟨hrunning, hhanded⟩ := h.of_inCallback hphase
        obtain ⟨signals, site, hsite, heq⟩ :=
          cleanUp_of_running (c := c) (g := { g with fatals := fatals }) hrunning
        rw [heq]
        exact ⟨⟨site, hsite, .inl rfl⟩, hhanded⟩

end Looper

open Looper in
/-- The first step that drops something is the last that matters: from then on the looper stays in
its clean-up, whatever happens. -/
theorem never_finished_of_drops (c : GuardConfig) {before after : List LooperEvent}
    {e : LooperEvent} {g g' : Looper} (hbefore : run (step c) {} before = some g)
    (hkept : Meets (step c) (fun g e => g.drops e = false) {} before) (hdrops : g.drops e = true)
    (hrun : run (step c) g (e :: after) = some g') : g'.phase ≠ .finished := by
  obtain ⟨g1, hstep, hafter⟩ := run_cons_some hrun
  have hfirst : g1.Orphaned := orphaned_of_drops (balanced_run hbefore hkept) hdrops hstep
  have hlast : g'.Orphaned :=
    run_invariant (P := Orphaned) (fun _ _ _ h hs => orphaned_step h hs) hfirst hafter
  obtain ⟨site, _, hphase⟩ := hlast.phase
  intro hfinished
  rw [hfinished] at hphase
  rcases hphase with hphase | hphase <;> cases hphase

open Looper in
/-- In every run that drops nothing: whenever the clean-up waits for an exit code, a thread of the
current process has yet to hand it over, and every exit code sent is received exactly once. -/
theorem cleanUp_served (c : GuardConfig) (es : List LooperEvent) (g : Looper)
    (hrun : run (step c) {} es = some g)
    (hkept : Meets (step c) (fun g e => g.drops e = false) {} es) : g.Served :=
  served_of_balanced (balanced_run hrun hkept)

/-- tun2socks on Android 11. -/
def tun2socks : GuardConfig := ⟨30, "libtun2socks".toList, true⟩

/-- The process ends after two seconds and is started again; the callback is under way. -/
def restartRun : List LooperEvent :=
  [.begin, .spawn 0, .callReceive none, .monitorMoves 0, .monitorMoves 0, .processExits 0 137,
    .monitorMoves 0, .meet 0, .resume, .handleExit 2000 true]

open Looper in
/-- The callback succeeds at its third try; then the pool is cancelled, and the clean-up waits for
the second process. -/
theorem cleanUp_served_after_restart : ∃ g,
    run (step tun2socks) {} (restartRun ++ [.attempt .ioException, .attempt .ioException,
      .attempt .sent, .spawn 2350, .callReceive none, .cancel, .resume, .callReceive none]) =
        some g ∧
    g.phase = .waiting .destroyed ∧ g.Served := by
  have hphase : (run (step tun2socks) {}
      (restartRun ++ [LooperEvent.attempt .ioException, .attempt .ioException,
      .attempt .sent, .spawn 2350, .callReceive none, .cancel, .resume, .callReceive none])).map
      (fun g => g.phase) = some (.waiting .destroyed) := by decide +kernel
  obtain ⟨g, hg, hwaiting⟩ := Option.map_eq_some_iff.mp hphase
  exact ⟨g, hg, hwaiting, cleanUp_served tun2socks _ g hg (by decide +kernel)⟩

open Looper in
/-- The callback gives up after seven tries: the clean-up waits for a process without a thread. -/
theorem failed_callback_not_served : ∃ g,
    run (step tun2socks) {} (restartRun ++ List.replicate 7 (.attempt .ioException) ++
      [.callReceive none]) = some g ∧ g.phase = .waiting .destroyed ∧ ¬ g.Served := by
  have hphase : (run (step tun2socks) {} (restartRun ++
      List.replicate 7 (LooperEvent.attempt .ioException) ++
        [LooperEvent.callReceive none])).map (fun g => (g.phase, g.monitors)) =
      some (.waiting .destroyed, [⟨0, .handedOver 137⟩]) := by decide +kernel
  obtain ⟨g, hg, hwaiting⟩ := Option.map_eq_some_iff.mp hphase
  obtain ⟨hwaiting, hmonitors⟩ := Prod.mk.inj hwaiting
  refine ⟨g, hg, hwaiting, ?_⟩
  intro hserved
  obtain ⟨m, hm, _, hpending⟩ := hserved.awaited .destroyed Site.noConfusion hwaiting
  rw [hmonitors, List.mem_singleton] at hm
  rw [hm] at hpending
  cases hpending

end CypherConnect.Bg
