/-
  How the sessions of `VpnService` use `DefaultNetworkListener`.

  `preInit` registers under the service: there `this` is the `VpnService`. `killProcesses` removes
  in `scope.launch { DefaultNetworkListener.stop(this) }`, where `this` is the scope of the launched
  coroutine, a new object each time. The actor compares keys, so the two never meet: an entry, once
  set, stays (`entry_run`), and no stop undoes a registration (`session_stop_leaves_listener`).
-/
import CypherConnect.Net.DefaultNetworkListener

namespace CypherConnect.Net

open Machine Keyed

variable {σ ν : Type} [DecidableEq σ] [DecidableEq ν]

/-- The objects that serve as keys. -/
inductive ListenerKey (σ : Type) where
  | service (v : σ)
  /-- The receiver of the block of the `n`-th `scope.launch`. -/
  | coroutine (n : Nat)
  deriving DecidableEq, Repr

/-- What reaches the actor. -/
inductive SessionEvent (σ ν : Type) where
  | preInit (v : σ)
  | killProcesses (v : σ)
  | openConnection (v : σ)
  | onAvailable (network : ν)
  | onCapabilitiesChanged (network : ν)
  | onLost (network : ν)
  deriving DecidableEq, Repr

/-- The actor, with the services as listeners (`underlyingNetwork = it`), and the number of
coroutines launched. -/
structure Sessions (σ ν : Type) where
  actor : NetworkActor (ListenerKey σ) σ ν := {}
  coroutines : Nat := 0
  deriving DecidableEq, Repr

namespace Sessions

/-- The message an event sends to the actor. -/
def message (s : Sessions σ ν) : SessionEvent σ ν → NetworkMessage (ListenerKey σ) σ ν
  | .preInit v => .start (.service v) v
  | .killProcesses _ => .stop (.coroutine s.coroutines)
  | .openConnection _ => .get
  | .onAvailable network => .put network
  | .onCapabilitiesChanged network => .update network
  | .onLost network => .lost network

def step (s : Sessions σ ν) (e : SessionEvent σ ν) : Option (Sessions σ ν) :=
  (s.actor.receive (s.message e)).map fun actor =>
    { actor
      coroutines := match e with
        | .killProcesses _ => s.coroutines + 1
        | _ => s.coroutines }

/-- What stopping the session of `v` is meant to leave: no listener of `v`, and with no other key in
the map no callback and no network. -/
def Undone (v : σ) (s : Sessions σ ν) : Prop :=
  (∀ e ∈ s.actor.listeners, e.2 ≠ v) ∧
    ((∀ e ∈ s.actor.listeners, e.1 = .service v) →
      s.actor.registered = false ∧ s.actor.network = none)

/-! ## The map only grows -/

/-- Every listener is in the map under its service. -/
def KeyedByService (s : Sessions σ ν) : Prop := ∀ e ∈ s.actor.listeners, e.1 = .service e.2

/-- An event leaves the map as it is or sets the entry of a service. -/
theorem step_listeners {s s' : Sessions σ ν} {e : SessionEvent σ ν} (hk : s.KeyedByService)
    (h : s.step e = some s') :
    s'.actor.listeners = s.actor.listeners ∨
      ∃ v, e = .preInit v ∧
        s'.actor.listeners = put Prod.fst (.service v, v) s.actor.listeners := by
  obtain ⟨a, ha, rfl⟩ := Option.map_eq_some_iff.mp h
  cases e with
  | preInit v =>
      obtain rfl := Option.some.inj ha
      exact Or.inr ⟨v, rfl, NetworkActor.onStart_listeners _ _ _⟩
  | killProcesses v =>
      -- no entry has the key of a coroutine
      have hnone : ListenerKey.coroutine s.coroutines ∉ s.actor.listeners.map Prod.fst := by
        intro hmem
        obtain ⟨e, he, hek⟩ := List.mem_map.mp hmem
        rw [hk e he] at hek
        cases hek
      obtain rfl := Option.some.inj ha
      refine Or.inl ?_
      change (s.actor.onStop _).listeners = _
      unfold NetworkActor.onStop
      rw [if_neg hnone]
  | openConnection v => exact Or.inl (NetworkActor.onGet_listeners ha)
  | onAvailable network =>
      obtain rfl := Option.some.inj ha
      exact Or.inl rfl
  | onCapabilitiesChanged network =>
      obtain rfl := Option.some.inj ha
      exact Or.inl (NetworkActor.onUpdate_listeners _ network)
  | onLost network =>
      obtain rfl := Option.some.inj ha
      exact Or.inl (NetworkActor.onLost_listeners _ network)

theorem keyedByService_step {s s' : Sessions σ ν} {e : SessionEvent σ ν} (hk : s.KeyedByService)
    (h : s.step e = some s') : s'.KeyedByService := by
  unfold KeyedByService
  rcases step_listeners hk h with heq | ⟨v, _, heq⟩ <;> rw [heq]
  · exact hk
  · intro x hx
    rcases mem_put.mp hx with rfl | ⟨hx, _⟩
    · rfl
    · exact hk x hx

/-- The entry of a service stays through every event. -/
theorem entry_step {s s' : Sessions σ ν} {e : SessionEvent σ ν} (hk : s.KeyedByService) {v : σ}
    (hv : (.service v, v) ∈ s.actor.listeners) (h : s.step e = some s') :
    (.service v, v) ∈ s'.actor.listeners := by
  rcases step_listeners hk h with heq | ⟨u, _, heq⟩ <;> rw [heq]
  · exact hv
  · by_cases hu : u = v
    · rw [hu]
      exact mem_put_self _ _
    · refine mem_put_of_ne hv fun he => hu ?_
      cases he
      rfl

theorem entry_run {s s' : Sessions σ ν} {es : List (SessionEvent σ ν)} (hk : s.KeyedByService)
    {v : σ} (hv : (.service v, v) ∈ s.actor.listeners) (h : run step s es = some s') :
    (.service v, v) ∈ s'.actor.listeners :=
  (run_invariant (P := fun t => t.KeyedByService ∧ (.service v, v) ∈ t.actor.listeners)
    (fun _ _ _ ht hstep => ⟨keyedByService_step ht.1 hstep, entry_step ht.1 ht.2 hstep⟩)
    ⟨hk, hv⟩ h).2

end Sessions

open Sessions in
/-- Whatever happened before, between and after: once a session of `v` was started, stopping it does
not undo its registration. -/
theorem session_stop_leaves_listener (v : σ) (before between after : List (SessionEvent σ ν))
    (s : Sessions σ ν)
    (h : run step {} (before ++ .preInit v :: (between ++ .killProcesses v :: after)) = some s) :
    ¬ Undone v s := by
  obtain ⟨s1, h1, h2⟩ := run_append_some h
  obtain ⟨s2, hstart, h3⟩ := run_cons_some h2
  have hk1 : s1.KeyedByService :=
    run_invariant (P := KeyedByService) (fun _ _ _ => keyedByService_step)
      (fun _ he => absurd he List.not_mem_nil) h1
  have hv2 : (.service v, v) ∈ s2.actor.listeners := by
    obtain ⟨a, ha, rfl⟩ := Option.map_eq_some_iff.mp hstart
    obtain rfl := Option.some.inj ha
    rw [NetworkActor.onStart_listeners]
    exact mem_put_self _ _
  have hv := entry_run (keyedByService_step hk1 hstart) hv2 h3
  exact fun hu => hu.1 _ hv rfl

open Sessions in
/-- Two services, both stopped: both are still told about networks. -/
theorem session_stop_leaves_listener_two :
    ∃ s, run (step (σ := Nat) (ν := Nat)) {} [.preInit 1, .onAvailable 7, .preInit 2,
        .killProcesses 2, .killProcesses 1] = some s ∧ ¬ Undone 1 s := by
  have hsome : (run (step (σ := Nat) (ν := Nat)) {} [.preInit 1, .onAvailable 7, .preInit 2,
      .killProcesses 2, .killProcesses 1]).isSome := by decide
  obtain ⟨s, hs⟩ := Option.isSome_iff_exists.mp hsome
  exact ⟨s, hs, session_stop_leaves_listener 1 [] [.onAvailable 7, .preInit 2, .killProcesses 2] []
    s hs⟩

open Sessions in
/-- One session, started and stopped: its listener and the callback remain. -/
theorem killProcesses_keeps_registration :
    ∃ s, run (step (σ := Nat) (ν := Nat)) {} [.preInit 1, .killProcesses 1] = some s ∧
      s.actor.listeners = [(.service 1, 1)] ∧ s.actor.registered = true ∧ ¬ Undone 1 s := by
  have hsome : (run (step (σ := Nat) (ν := Nat)) {} [.preInit 1, .killProcesses 1]).map
      (fun s => (s.actor.listeners, s.actor.registered)) = some ([(.service 1, 1)], true) := by
    decide
  obtain ⟨s, hs, heq⟩ := Option.map_eq_some_iff.mp hsome
  obtain ⟨hl, hr⟩ := Prod.mk.inj heq
  refine ⟨s, hs, hl, hr, fun hu => ?_⟩
  rw [Undone, hl] at hu
  exact hu.1 _ List.mem_cons_self rfl

end CypherConnect.Net
