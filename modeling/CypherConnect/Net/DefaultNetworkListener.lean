/-
  `DefaultNetworkListener`: the actor that tells the listeners of the app which network is the
  default one.

  The actor handles one message after the other, so a run is a list of messages. Its three variables
  are modelled as they are; beside them stand the state of the platform callback and a log of what
  the actor did to the world (a listener set, called, a request completed), in the order it did it.

  `networkActor_agreement`: after any messages the callback is registered exactly if there are
  listeners, requests wait only while there is no network, every listener was last told the current
  network, and every request waits or was completed once, with the network of that moment. The
  variables are those of the messages (`Reflects`): as many requests as `Get` messages, the
  listeners that were started and not stopped, a network that was put. The message types are
  arbitrary: keys, listeners and networks are type variables.
-/
import CypherConnect.Lib.Machine
import CypherConnect.Lib.Keyed

namespace CypherConnect.Net

open Machine Keyed

variable {κ ℓ ν : Type}

/-- `NetworkMessage`. A `Get` is a new object each time; the actor's model numbers them. -/
inductive NetworkMessage (κ ℓ ν : Type) where
  | start (key : κ) (listener : ℓ)
  | get
  | stop (key : κ)
  | put (network : ν)
  | update (network : ν)
  | lost (network : ν)
  deriving DecidableEq, Repr

/-- What the actor does outside its variables. -/
inductive Event (κ ℓ ν : Type) where
  /-- The entry of `key` was set. -/
  | listenerSet (key : κ)
  | delivered (listener : ℓ) (value : Option ν)
  /-- `response.complete(value)`, while `network` was `current`. -/
  | completed (request : Nat) (value : ν) (current : Option ν)
  deriving DecidableEq, Repr

/-- The state of `networkActor`, of the platform callback, and the log. -/
structure NetworkActor (κ ℓ ν : Type) where
  listeners : List (κ × ℓ) := []
  network : Option ν := none
  pendingRequests : List Nat := []
  /-- `Callback` is registered. -/
  registered : Bool := false
  /-- `Get` objects handled so far. -/
  requests : Nat := 0
  log : List (Event κ ℓ ν) := []
  deriving DecidableEq, Repr

namespace NetworkActor

/-- `listeners.values.forEach { it(value) }`. -/
def deliverAll (a : NetworkActor κ ℓ ν) (value : Option ν) : NetworkActor κ ℓ ν :=
  { a with log := a.log ++ a.listeners.map fun e => .delivered e.2 value }

/-- `pendingRequests.forEach { it.response.complete(value) }`, then `clear()`. -/
def completeAll (a : NetworkActor κ ℓ ν) (value : ν) : NetworkActor κ ℓ ν :=
  { a with
    log := a.log ++ a.pendingRequests.map fun r => .completed r value a.network
    pendingRequests := [] }

section Handlers

variable [DecidableEq κ]

def onStart (a : NetworkActor κ ℓ ν) (key : κ) (listener : ℓ) : NetworkActor κ ℓ ν :=
  let a := if a.listeners.isEmpty then { a with registered := true } else a
  let a := { a with
    listeners := put Prod.fst (key, listener) a.listeners
    log := a.log ++ [Event.listenerSet key] }
  if a.network.isSome then { a with log := a.log ++ [Event.delivered listener a.network] } else a

/-- `none`: the `check` fails, which ends the actor. -/
def onGet (a : NetworkActor κ ℓ ν) : Option (NetworkActor κ ℓ ν) :=
  if a.listeners.isEmpty then none
  else match a.network with
    | none => some { a with
        requests := a.requests + 1
        pendingRequests := a.pendingRequests ++ [a.requests] }
    | some n => some { a with
        requests := a.requests + 1
        log := a.log ++ [.completed a.requests n a.network] }

def onStop (a : NetworkActor κ ℓ ν) (key : κ) : NetworkActor κ ℓ ν :=
  if key ∈ a.listeners.map Prod.fst then
    let a := { a with listeners := a.listeners.filter fun e => e.1 != key }
    if a.listeners.isEmpty then { a with network := none, registered := false } else a
  else a

def onPut (a : NetworkActor κ ℓ ν) (network : ν) : NetworkActor κ ℓ ν :=
  let a := { a with network := some network }
  let a := a.completeAll network
  a.deliverAll a.network

variable [DecidableEq ν]

def onUpdate (a : NetworkActor κ ℓ ν) (network : ν) : NetworkActor κ ℓ ν :=
  if a.network = some network then a.deliverAll a.network else a

def onLost (a : NetworkActor κ ℓ ν) (network : ν) : NetworkActor κ ℓ ν :=
  if a.network = some network then
    let a := { a with network := none }
    a.deliverAll none
  else a

/-- One turn of the loop `for (message in channel)`. -/
def receive (a : NetworkActor κ ℓ ν) : NetworkMessage κ ℓ ν → Option (NetworkActor κ ℓ ν)
  | .start key listener => some (a.onStart key listener)
  | .get => a.onGet
  | .stop key => some (a.onStop key)
  | .put network => some (a.onPut network)
  | .update network => some (a.onUpdate network)
  | .lost network => some (a.onLost network)

/-! What the handlers do to the map. -/

omit [DecidableEq ν] in
theorem onStart_listeners (a : NetworkActor κ ℓ ν) (key : κ) (listener : ℓ) :
    (a.onStart key listener).listeners = put Prod.fst (key, listener) a.listeners := by
  unfold onStart
  dsimp only
  split <;> split <;> rfl

omit [DecidableEq κ] [DecidableEq ν] in
theorem onGet_listeners {a a' : NetworkActor κ ℓ ν} (h : a.onGet = some a') :
    a'.listeners = a.listeners := by
  unfold onGet at h
  split at h
  · cases h
  · split at h <;> cases h <;> rfl

omit [DecidableEq κ] in
theorem onUpdate_listeners (a : NetworkActor κ ℓ ν) (network : ν) :
    (a.onUpdate network).listeners = a.listeners := by
  unfold onUpdate
  split <;> rfl

omit [DecidableEq κ] in
theorem onLost_listeners (a : NetworkActor κ ℓ ν) (network : ν) :
    (a.onLost network).listeners = a.listeners := by
  unfold onLost
  split <;> rfl

end Handlers

/-! ## Reading the log -/

/-- The last value delivered to `listener` since the entry of `key` was set. -/
def lastDelivered [DecidableEq κ] [DecidableEq ℓ] (key : κ) (listener : ℓ)
    (log : List (Event κ ℓ ν)) : Option ν :=
  log.foldl (fun last e =>
    match e with
    | .listenerSet k => if k = key then none else last
    | .delivered l value => if l = listener then value else last
    | .completed .. => last) none

/-- How often `request` was completed. -/
def completions (request : Nat) (log : List (Event κ ℓ ν)) : Nat :=
  log.countP fun e =>
    match e with
    | .completed r _ _ => r == request
    | _ => false

section Log

variable (log : List (Event κ ℓ ν))

theorem completions_append (request : Nat) (log' : List (Event κ ℓ ν)) :
    completions request (log ++ log') = completions request log + completions request log' :=
  List.countP_append

theorem completions_deliveredAll (request : Nat) (es : List (κ × ℓ)) (v : Option ν) :
    completions (κ := κ) request (es.map fun e => .delivered e.2 v) = 0 := by
  refine List.countP_eq_zero.mpr fun e he => ?_
  obtain ⟨_, _, rfl⟩ := List.mem_map.mp he
  exact Bool.false_ne_true

theorem completions_completedAll (request : Nat) (rs : List Nat) (v : ν) (c : Option ν) :
    completions (κ := κ) (ℓ := ℓ) request (rs.map fun r => .completed r v c) =
      rs.count request := by
  unfold completions List.count
  rw [List.countP_map]
  rfl

variable [DecidableEq κ] [DecidableEq ℓ] (key : κ) (listener : ℓ)

theorem lastDelivered_set (k : κ) :
    lastDelivered key listener (log ++ [Event.listenerSet k]) =
      if k = key then none else lastDelivered key listener log := by
  unfold lastDelivered
  rw [List.foldl_append]
  rfl

theorem lastDelivered_delivered (l : ℓ) (v : Option ν) :
    lastDelivered key listener (log ++ [Event.delivered l v]) =
      if l = listener then v else lastDelivered key listener log := by
  unfold lastDelivered
  rw [List.foldl_append]
  rfl

theorem lastDelivered_completed (r : Nat) (v : ν) (c : Option ν) :
    lastDelivered key listener (log ++ [Event.completed r v c]) =
      lastDelivered key listener log := by
  unfold lastDelivered
  rw [List.foldl_append]
  rfl

/-- A value delivered to all listeners is the last for each of them. -/
theorem lastDelivered_deliveredAll (es : List (κ × ℓ)) (v : Option ν)
    (h : listener ∈ es.map Prod.snd ∨ lastDelivered key listener log = v) :
    lastDelivered key listener (log ++ es.map fun e => .delivered e.2 v) = v := by
  induction es generalizing log with
  | nil =>
      rw [List.map_nil, List.append_nil]
      exact h.resolve_left List.not_mem_nil
  | cons e es ih =>
      rw [List.map_cons, ← List.singleton_append, ← List.append_assoc]
      refine ih _ ?_
      rw [lastDelivered_delivered]
      by_cases he : e.2 = listener
      · exact Or.inr (if_pos he)
      · rw [if_neg he]
        refine h.imp_left fun hm => ?_
        exact (List.mem_cons.mp hm).resolve_left (Ne.symm he)

end Log

/-! ## Agreement -/

section Agreement

variable [DecidableEq κ] [DecidableEq ℓ]

/-- Actor, platform and listeners agree. -/
structure Agreement (a : NetworkActor κ ℓ ν) : Prop where
  registered_iff : a.registered = true ↔ a.listeners ≠ []
  pending_none : a.pendingRequests ≠ [] → a.network = none
  /-- Every listener in the map was last told the current network. -/
  delivered : ∀ e ∈ a.listeners, lastDelivered e.1 e.2 a.log = a.network
  /-- Every request waits, or was completed once. -/
  answered : ∀ r < a.requests, (r ∈ a.pendingRequests ∧ completions r a.log = 0) ∨
    (r ∉ a.pendingRequests ∧ completions r a.log = 1)
  /-- Requests are completed with the current network. -/
  current : ∀ r v c, Event.completed r v c ∈ a.log → c = some v

/-- `Agreement` in the form that every message keeps: a request is counted where it waits and where
it was completed, and requests that were not made are in neither place. -/
structure Inv (a : NetworkActor κ ℓ ν) : Prop where
  registered_iff : a.registered = true ↔ a.listeners ≠ []
  pending_none : a.pendingRequests ≠ [] → a.network = none
  delivered : ∀ e ∈ a.listeners, lastDelivered e.1 e.2 a.log = a.network
  counted : ∀ r, a.pendingRequests.count r + completions r a.log = if r < a.requests then 1 else 0
  current : ∀ r v c, Event.completed r v c ∈ a.log → c = some v

theorem Inv.agreement {a : NetworkActor κ ℓ ν} (h : Inv a) : Agreement a := by
  refine ⟨h.registered_iff, h.pending_none, h.delivered, fun r hr => ?_, h.current⟩
  have hc := h.counted r
  rw [if_pos hr] at hc
  by_cases hm : r ∈ a.pendingRequests
  · have := List.count_pos_iff.mpr hm
    exact Or.inl ⟨hm, by omega⟩
  · have := List.count_eq_zero.mpr hm
    exact Or.inr ⟨hm, by omega⟩

theorem inv_init : Inv ({} : NetworkActor κ ℓ ν) where
  registered_iff := by simp
  pending_none h := absurd rfl h
  delivered e he := absurd he List.not_mem_nil
  counted r := by simp [completions]
  current r v c h := absurd h List.not_mem_nil

variable {a a' : NetworkActor κ ℓ ν}

/-- Calling every listener with the value `network` was just given. -/
theorem inv_deliverAll (hreg : a.registered = true ↔ a.listeners ≠ [])
    (hpend : a.pendingRequests ≠ [] → a.network = none)
    (hcount : ∀ r, a.pendingRequests.count r + completions r a.log = if r < a.requests then 1
    else 0)
    (hcur : ∀ r v c, Event.completed r v c ∈ a.log → c = some v) :
    Inv (a.deliverAll a.network) where
  registered_iff := hreg
  pending_none := hpend
  delivered e he := lastDelivered_deliveredAll _ _ _ _ _ (Or.inl (List.mem_map_of_mem he))
  counted r := by
    have h0 := completions_deliveredAll r a.listeners a.network
    change a.pendingRequests.count r + completions r (a.log ++ _) = _
    rw [completions_append, h0, Nat.add_zero]
    exact hcount r
  current r v c hm := by
    rcases List.mem_append.mp hm with hm | hm
    · exact hcur r v c hm
    · obtain ⟨_, _, he⟩ := List.mem_map.mp hm
      cases he

/-- The map and the log after `listeners[key] = listener` and the call that may follow. -/
theorem onStart_eq (h : Inv a) (key : κ) (listener : ℓ) :
    ∃ tail : List (Event κ ℓ ν),
      (tail = [] ∧ a.network = none ∨ tail = [.delivered listener a.network]) ∧
      a.onStart key listener = { a with
        registered := true
        listeners := put Prod.fst (key, listener) a.listeners
        log := (a.log ++ [.listenerSet key]) ++ tail } := by
  have hbase : (if a.listeners.isEmpty then { a with registered := true } else a) =
      { a with registered := true } := by
    split
    · rfl
    · next hne =>
        have hreg : a.registered = true :=
          h.registered_iff.mpr fun he => hne (by rw [he]; rfl)
        rw [← hreg]
  unfold onStart
  rw [hbase]
  cases hn : a.network with
  | none => exact ⟨[], Or.inl ⟨rfl, rfl⟩, by simp⟩
  | some n => exact ⟨[.delivered listener (some n)], Or.inr rfl, by simp⟩

theorem inv_onStart (h : Inv a) (key : κ) (listener : ℓ) : Inv (a.onStart key listener) := by
  have hput : put Prod.fst (key, listener) a.listeners ≠ [] :=
    List.ne_nil_of_mem (mem_put_self _ _)
  obtain ⟨tail, htail, heq⟩ := onStart_eq h key listener
  rw [heq]
  refine ⟨by simpa using hput, h.pending_none, fun e he => ?_, fun r => ?_, fun r v c hm => ?_⟩
  · have hset : lastDelivered e.1 e.2 (a.log ++ [Event.listenerSet key]) =
        if key = e.1 then none else a.network := by
      rw [lastDelivered_set]
      rcases mem_put.mp he with rfl | ⟨hmem, _⟩
      · rw [if_pos rfl, if_pos rfl]
      · rw [h.delivered e hmem]
    rcases htail with ⟨rfl, hn⟩ | rfl
    · rw [List.append_nil, hset, hn]
      exact ite_self none
    · rw [lastDelivered_delivered, hset]
      split
      · rfl
      · next hl =>
          rcases mem_put.mp he with rfl | ⟨_, hne⟩
          · exact absurd rfl hl
          · exact if_neg (Ne.symm hne)
  · have htail0 : completions r tail = 0 := by
      rcases htail with ⟨rfl, _⟩ | rfl <;> rfl
    have hset0 : completions r [(.listenerSet key : Event κ ℓ ν)] = 0 := rfl
    change a.pendingRequests.count r + completions r ((a.log ++ _) ++ tail) = _
    rw [completions_append, completions_append, htail0, hset0]
    exact h.counted r
  · rcases List.mem_append.mp hm with hm | hm
    · rcases List.mem_append.mp hm with hm | hm
      · exact h.current r v c hm
      · cases List.mem_singleton.mp hm
    · rcases htail with ⟨rfl, _⟩ | rfl
      · exact absurd hm List.not_mem_nil
      · cases List.mem_singleton.mp hm

theorem inv_onGet (h : Inv a) (hr : a.onGet = some a') : Inv a' := by
  unfold onGet at hr
  split at hr
  · cases hr
  split at hr
  · next hn =>
      cases hr
      refine ⟨h.registered_iff, fun _ => hn, h.delivered, fun r => ?_, h.current⟩
      have hc := h.counted r
      change (a.pendingRequests ++ [a.requests]).count r + completions r a.log = _
      rw [List.count_append, List.count_singleton]
      simp only [beq_iff_eq]
      split_ifs at hc ⊢ <;> omega
  · next n hn =>
      cases hr
      have hpend : a.pendingRequests = [] := by
        by_contra hne
        rw [h.pending_none hne] at hn
        cases hn
      refine ⟨h.registered_iff, h.pending_none, fun e he => ?_, fun r => ?_, fun r v c hm => ?_⟩
      · rw [lastDelivered_completed]
        exact h.delivered e he
      · have hc := h.counted r
        have hone : completions (κ := κ) (ℓ := ℓ) r [.completed a.requests n a.network] =
            if a.requests = r then 1 else 0 := by
          unfold completions
          rw [List.countP_singleton]
          simp only [beq_iff_eq]
        change a.pendingRequests.count r + completions r (a.log ++ _) =
          if r < a.requests + 1 then 1 else 0
        rw [completions_append, hone]
        split_ifs at hc ⊢ <;> omega
      · rcases List.mem_append.mp hm with hm | hm
        · exact h.current r v c hm
        · cases List.mem_singleton.mp hm
          exact hn

theorem inv_onStop (h : Inv a) (key : κ) : Inv (a.onStop key) := by
  unfold onStop
  split
  · dsimp only
    split
    · next he =>
        have hnil : a.listeners.filter (fun e => e.1 != key) = [] := List.isEmpty_iff.mp he
        rw [hnil]
        exact ⟨by simp, fun _ => rfl, fun e hm => absurd hm List.not_mem_nil, h.counted, h.current⟩
    · next he =>
        have hne : a.listeners.filter (fun e => e.1 != key) ≠ [] := fun hn => he (by rw [hn]; rfl)
        have hreg : a.registered = true := h.registered_iff.mpr fun hn => hne (by rw [hn]; rfl)
        exact ⟨iff_of_true hreg hne, h.pending_none,
          fun e hm => h.delivered e (List.mem_of_mem_filter hm), h.counted, h.current⟩
  · exact h

theorem inv_onPut (h : Inv a) (network : ν) : Inv (a.onPut network) := by
  refine inv_deliverAll h.registered_iff (fun hne => absurd rfl hne) (fun r => ?_)
    fun r v c hm => ?_
  · have hc := completions_completedAll (κ := κ) (ℓ := ℓ) r a.pendingRequests network (some network)
    change List.count r [] + completions r (a.log ++ _) = _
    rw [completions_append, hc, List.count_nil, Nat.zero_add, Nat.add_comm]
    exact h.counted r
  · rcases List.mem_append.mp hm with hm | hm
    · exact h.current r v c hm
    · obtain ⟨_, _, he⟩ := List.mem_map.mp hm
      cases he
      rfl

variable [DecidableEq ν]

theorem inv_onUpdate (h : Inv a) (network : ν) : Inv (a.onUpdate network) := by
  unfold onUpdate
  split
  · exact inv_deliverAll h.registered_iff h.pending_none h.counted h.current
  · exact h

theorem inv_onLost (h : Inv a) (network : ν) : Inv (a.onLost network) := by
  unfold onLost
  split
  · exact inv_deliverAll (a := { a with network := none }) h.registered_iff (fun _ => rfl)
      h.counted h.current
  · exact h

/-- Every message keeps the invariant. -/
theorem inv_receive (h : Inv a) (m : NetworkMessage κ ℓ ν) (hr : a.receive m = some a') :
    Inv a' := by
  cases m with
  | start key listener => exact Option.some.inj hr ▸ inv_onStart h key listener
  | get => exact inv_onGet h hr
  | stop key => exact Option.some.inj hr ▸ inv_onStop h key
  | put network => exact Option.some.inj hr ▸ inv_onPut h network
  | update network => exact Option.some.inj hr ▸ inv_onUpdate h network
  | lost network => exact Option.some.inj hr ▸ inv_onLost h network

/-- The message is not a `Get` that finds no listener. -/
def Served (a : NetworkActor κ ℓ ν) (m : NetworkMessage κ ℓ ν) : Prop :=
  m = .get → a.listeners ≠ []

instance (a : NetworkActor κ ℓ ν) (m : NetworkMessage κ ℓ ν) : Decidable (Served a m) :=
  inferInstanceAs (Decidable (_ → _))

omit [DecidableEq ℓ] in
/-- Only such a `Get` stops the actor. -/
theorem receive_isSome {m : NetworkMessage κ ℓ ν} (h : Served a m) :
    ∃ a', a.receive m = some a' := by
  cases m with
  | get =>
      have hne : ¬ a.listeners.isEmpty = true := fun he => h rfl (List.isEmpty_iff.mp he)
      unfold receive onGet
      rw [if_neg hne]
      cases a.network with
      | none => exact ⟨_, rfl⟩
      | some n => exact ⟨_, rfl⟩
  | start key listener => exact ⟨_, rfl⟩
  | stop key => exact ⟨_, rfl⟩
  | put network => exact ⟨_, rfl⟩
  | update network => exact ⟨_, rfl⟩
  | lost network => exact ⟨_, rfl⟩

end Agreement

/-! ## The variables and the messages -/

section Reflects

variable [DecidableEq κ] [DecidableEq ν]

/-- The listener of the last `Start` of `key`, unless a `Stop` of `key` came after it. -/
def listenerOf (key : κ) (messages : List (NetworkMessage κ ℓ ν)) : Option ℓ :=
  messages.foldl (fun last m =>
    match m with
    | .start k listener => if k = key then some listener else last
    | .stop k => if k = key then none else last
    | _ => last) none

/-- The network of the last `Put`. -/
def lastPut (messages : List (NetworkMessage κ ℓ ν)) : Option ν :=
  messages.foldl (fun last m =>
    match m with
    | .put network => some network
    | _ => last) none

/-- The network of the last `Put`, unless it was lost or a `Stop` came after it. -/
def heard (messages : List (NetworkMessage κ ℓ ν)) : Option ν :=
  messages.foldl (fun last m =>
    match m with
    | .put network => some network
    | .lost network => if last = some network then none else last
    | .stop _ => none
    | _ => last) none

/-- The variables hold what the messages so far gave them. -/
structure Reflects [DecidableEq ℓ] (messages : List (NetworkMessage κ ℓ ν))
    (a : NetworkActor κ ℓ ν) : Prop where
  requests : a.requests = messages.count .get
  listeners : ∀ key listener,
    (key, listener) ∈ a.listeners ↔ listenerOf key messages = some listener
  network_put : ∀ n, a.network = some n → lastPut messages = some n
  network_heard : ∀ n, heard messages = some n → a.network = some n

variable {a a' : NetworkActor κ ℓ ν} {past : List (NetworkMessage κ ℓ ν)}

omit [DecidableEq ν] in
theorem onStart_same (a : NetworkActor κ ℓ ν) (key : κ) (listener : ℓ) :
    (a.onStart key listener).requests = a.requests ∧
      (a.onStart key listener).network = a.network := by
  unfold onStart
  dsimp only
  split <;> split <;> exact ⟨rfl, rfl⟩

omit [DecidableEq κ] [DecidableEq ν] in
theorem onGet_same (h : a.onGet = some a') :
    a'.requests = a.requests + 1 ∧ a'.network = a.network := by
  unfold onGet at h
  split at h
  · cases h
  · split at h <;> cases h <;> exact ⟨rfl, rfl⟩

omit [DecidableEq ν] in
theorem onStop_same (a : NetworkActor κ ℓ ν) (key : κ) :
    (a.onStop key).requests = a.requests ∧
      ((a.onStop key).network = a.network ∨ (a.onStop key).network = none) := by
  unfold onStop
  split
  · dsimp only
    split
    · exact ⟨rfl, Or.inr rfl⟩
    · exact ⟨rfl, Or.inl rfl⟩
  · exact ⟨rfl, Or.inl rfl⟩

omit [DecidableEq ν] in
theorem mem_onStop (a : NetworkActor κ ℓ ν) (key k : κ) (l : ℓ) :
    (k, l) ∈ (a.onStop key).listeners ↔ key ≠ k ∧ (k, l) ∈ a.listeners := by
  have hfilter : (k, l) ∈ a.listeners.filter (fun e => e.1 != key) ↔
      key ≠ k ∧ (k, l) ∈ a.listeners := by
    rw [List.mem_filter, bne_iff_ne, and_comm, ne_comm]
  unfold onStop
  split
  · dsimp only
    split <;> exact hfilter
  · next hnot =>
      refine ⟨fun hm => ⟨?_, hm⟩, And.right⟩
      rintro rfl
      exact hnot (List.mem_map_of_mem hm)

omit [DecidableEq κ] in
theorem onUpdate_same (a : NetworkActor κ ℓ ν) (network : ν) :
    (a.onUpdate network).requests = a.requests ∧ (a.onUpdate network).network = a.network := by
  unfold onUpdate
  split <;> exact ⟨rfl, rfl⟩

omit [DecidableEq κ] in
theorem onLost_same (a : NetworkActor κ ℓ ν) (network : ν) :
    (a.onLost network).requests = a.requests ∧
      (a.onLost network).network = if a.network = some network then none else a.network := by
  unfold onLost
  split <;> exact ⟨rfl, rfl⟩

omit [DecidableEq ν] in
theorem listenerOf_concat (key : κ) (m : NetworkMessage κ ℓ ν) :
    listenerOf key (past ++ [m]) =
      match m with
      | .start k listener => if k = key then some listener else listenerOf key past
      | .stop k => if k = key then none else listenerOf key past
      | _ => listenerOf key past := by
  unfold listenerOf
  rw [List.foldl_concat]

/-- Only a `Get` makes a request. -/
theorem receive_requests [DecidableEq ℓ] (m : NetworkMessage κ ℓ ν) (hr : a.receive m = some a') :
    a'.requests = a.requests + [m].count .get := by
  cases m with
  | start key listener => exact Option.some.inj hr ▸ (onStart_same a key listener).1
  | get => exact (onGet_same hr).1
  | stop key => exact Option.some.inj hr ▸ (onStop_same a key).1
  | put network => exact Option.some.inj hr ▸ rfl
  | update network => exact Option.some.inj hr ▸ (onUpdate_same a network).1
  | lost network => exact Option.some.inj hr ▸ (onLost_same a network).1

/-- Only `Start` and `Stop` change the map. -/
theorem receive_listeners (h : ∀ k l, (k, l) ∈ a.listeners ↔ listenerOf k past = some l)
    (m : NetworkMessage κ ℓ ν) (hr : a.receive m = some a') (k : κ) (l : ℓ) :
    (k, l) ∈ a'.listeners ↔ listenerOf k (past ++ [m]) = some l := by
  rw [listenerOf_concat]
  cases m with
  | start key listener =>
      rw [← Option.some.inj hr, onStart_listeners, mem_put]
      dsimp only
      by_cases hkey : key = k
      · rw [if_pos hkey, hkey]
        simp [eq_comm]
      · rw [if_neg hkey, ← h k l]
        simp [Ne.symm hkey]
  | get => rw [onGet_listeners hr, h k l]
  | stop key =>
      rw [← Option.some.inj hr, mem_onStop, h k l]
      by_cases hkey : key = k
      · simp [hkey]
      · simp [hkey]
  | put network => rw [← Option.some.inj hr, ← h k l]; rfl
  | update network => rw [← Option.some.inj hr, onUpdate_listeners, h k l]
  | lost network => rw [← Option.some.inj hr, onLost_listeners, h k l]

/-- A network comes from a `Put`. -/
theorem receive_network_put (h : ∀ n, a.network = some n → lastPut past = some n)
    (m : NetworkMessage κ ℓ ν) (hr : a.receive m = some a') (n : ν) (hn : a'.network = some n) :
    lastPut (past ++ [m]) = some n := by
  unfold lastPut at h ⊢
  rw [List.foldl_concat]
  cases m with
  | start key listener =>
      rw [← Option.some.inj hr, (onStart_same a key listener).2] at hn
      exact h n hn
  | get =>
      rw [(onGet_same hr).2] at hn
      exact h n hn
  | stop key =>
      rw [← Option.some.inj hr] at hn
      rcases (onStop_same a key).2 with hs | hs
      · exact h n (hs ▸ hn)
      · rw [hs] at hn
        cases hn
  | put network =>
      rw [← Option.some.inj hr] at hn
      exact hn
  | update network =>
      rw [← Option.some.inj hr, (onUpdate_same a network).2] at hn
      exact h n hn
  | lost network =>
      rw [← Option.some.inj hr, (onLost_same a network).2] at hn
      split at hn
      · cases hn
      · exact h n hn

/-- A network that was put stays until it is lost, replaced, or a listener stops. -/
theorem receive_network_heard (h : ∀ n, heard past = some n → a.network = some n)
    (m : NetworkMessage κ ℓ ν) (hr : a.receive m = some a') (n : ν)
    (hn : heard (past ++ [m]) = some n) : a'.network = some n := by
  unfold heard at h hn
  rw [List.foldl_concat] at hn
  cases m with
  | start key listener => exact Option.some.inj hr ▸ (onStart_same a key listener).2.trans (h n hn)
  | get => exact (onGet_same hr).2.trans (h n hn)
  | stop key => cases hn
  | put network => exact Option.some.inj hr ▸ hn
  | update network => exact Option.some.inj hr ▸ (onUpdate_same a network).2.trans (h n hn)
  | lost network =>
      dsimp only at hn
      split at hn
      · cases hn
      · next hne =>
          have ha := h n hn
          rw [hn] at hne
          rw [← Option.some.inj hr, (onLost_same a network).2, ha, if_neg hne]

theorem reflects_init [DecidableEq ℓ] : Reflects [] ({} : NetworkActor κ ℓ ν) where
  requests := rfl
  listeners key listener := by simp [listenerOf]
  network_put n h := h
  network_heard n h := h

theorem reflects_receive [DecidableEq ℓ] (h : Reflects past a) (m : NetworkMessage κ ℓ ν)
    (hr : a.receive m = some a') : Reflects (past ++ [m]) a' where
  requests := by rw [receive_requests m hr, h.requests, List.count_append]
  listeners := receive_listeners h.listeners m hr
  network_put := receive_network_put h.network_put m hr
  network_heard := receive_network_heard h.network_heard m hr

end Reflects

end NetworkActor

open NetworkActor in
/-- After any messages, none of them a `Get` without listeners, the actor is alive, agrees with the
platform, the listeners and the requests, and its variables are those of the messages. -/
theorem networkActor_agreement [DecidableEq κ] [DecidableEq ℓ] [DecidableEq ν]
    (messages : List (NetworkMessage κ ℓ ν)) (h : Meets receive Served {} messages) :
    ∃ a, run receive {} messages = some a ∧ Agreement a ∧ Reflects messages a := by
  obtain ⟨a, ha⟩ := run_of_meets (fun _ _ => receive_isSome) h
  refine ⟨a, ha, ?_, ?_⟩
  · exact (run_invariant (fun _ m _ hi hr => inv_receive hi m hr) inv_init ha).agreement
  · exact run_history (fun _ _ m _ hi hr => reflects_receive hi m hr) reflects_init ha

/-- A request that waits, a listener that is replaced, and a late `Put` after the last `Stop`. -/
def latePut : List (NetworkMessage Nat Nat Nat) :=
  [.start 1 10, .get, .start 1 11, .put 7, .stop 1, .put 8, .start 2 12]

open NetworkActor in
/-- The request is completed once, with the first network; the replaced listener hears nothing, the
one that came last is told the late network. -/
theorem networkActor_agreement_late_put :
    (∃ a, run receive {} latePut = some a ∧ Agreement a ∧ Reflects latePut a) ∧
      run receive {} latePut = some {
        listeners := [(2, 12)]
        network := some 8
        pendingRequests := []
        registered := true
        requests := 1
        log := [.listenerSet 1, .listenerSet 1, .completed 0 7 (some 7), .delivered 11 (some 7),
          .listenerSet 2, .delivered 12 (some 8)] } :=
  ⟨networkActor_agreement latePut (by decide), by decide⟩

end CypherConnect.Net
