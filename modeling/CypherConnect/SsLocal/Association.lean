/-
  A UDP association of `ss-local`, `local/net/udp/association.rs`: the packets of one client port,
  sent to the server or past it, and the packets that come back. A packet to the server carries the
  id of the session and a counter; a packet from the server carries the id of the server's session
  and its counter.

  * `step`: one turn of the loop of `dispatch_packet`. The choices of the outside are in the events:
    whether a target is bypassed, whether a socket connects or sends, the random session id, what
    arrives, and when the cache of sessions drops one.
  * `client_packets_distinct`: no two packets are sent to the server with the same session and
    counter, as long as a renewed session id is a new one.
  * `replies_forwarded_iff`: which replies reach the client, over any run.
-/
import Mathlib.Data.List.Nodup
import Mathlib.Logic.Function.Basic
import CypherConnect.Lib.Machine
import CypherConnect.SsLocal.PacketWindow
import CypherConnect.SsLocal.Socks5

namespace CypherConnect.SsLocal

open Machine

/-- A packet to the server, with its `UdpSocketControlData`. -/
structure ProxiedPacket where
  clientSessionId : UInt64
  packetId : UInt64
  target : Address
  data : List UInt8
  deriving DecidableEq, Repr

/-- The control data of a packet from the server, as far as it is looked at. -/
structure ReplyControl where
  serverSessionId : UInt64
  packetId : UInt64
  deriving DecidableEq, Repr

/-- What happens to replies. -/
inductive ReplyLog where
  | forwarded (addr : Address) (data : List UInt8) (control : Option ReplyControl)
  | expired (serverSessionId : UInt64)
  deriving DecidableEq, Repr

/-- `UdpAssociationContext`. Of the sockets it matters whether they are there. -/
structure UdpAssociationContext where
  bypassedIpv6Socket : Bool := false
  proxiedSocket : Bool := false
  keepaliveFlag : Bool := false
  clientSessionId : UInt64
  clientPacketId : UInt64 := 0
  /-- `server_session`: the filters of the sessions, once there was one. -/
  serverSession : Option (UInt64 → Option PacketWindowFilter) := none
  /-- What was sent past the server. -/
  bypassed : List (Address × List UInt8) := []
  proxied : List ProxiedPacket := []
  replies : List ReplyLog := []

namespace UdpAssociationContext

/-- What the outside decides when a packet of the client is dispatched. -/
structure Choice where
  bypassed : Bool
  /-- A socket is opened. -/
  connects : Bool
  sends : Bool
  /-- `generate_client_session_id()`, if it is called. -/
  newSessionId : UInt64
  deriving DecidableEq, Repr

inductive Event where
  | received (target : Address) (data : List UInt8) (choice : Choice)
  | bypassedReply (reply : Option (Address × List UInt8))
  | proxiedReply (reply : Option (Address × List UInt8 × Option ReplyControl))
  | keepaliveTick (sent : Bool)
  | sessionExpires (serverSessionId : UInt64)
  deriving DecidableEq, Repr

/-! ## The loop -/

/-- `dispatch_received_bypassed_packet`. -/
def dispatchBypassed (this : UdpAssociationContext) (target : Address) (data : List UInt8)
    (c : Choice) :
    UdpAssociationContext :=
  if !this.bypassedIpv6Socket && !c.connects then this
  else
    { this with
      bypassedIpv6Socket := true
      bypassed := if c.sends then this.bypassed ++ [(target, data)] else this.bypassed }

/-- The packet id is increased before it is known whether the packet can be sent. The counter does
not overflow: a new session is begun instead. -/
def nextPacketId (this : UdpAssociationContext) (newSessionId : UInt64) : UdpAssociationContext :=
  if this.clientPacketId.toNat + 1 < UInt64.size then
    { this with clientPacketId := this.clientPacketId + 1 }
  else { this with proxiedSocket := false, clientPacketId := 1, clientSessionId := newSessionId }

/-- The end of `dispatch_received_proxied_packet`. A packet that could not be sent was sealed with
its id before, so it counts as sent here. -/
def sendProxied (this : UdpAssociationContext) (target : Address) (data : List UInt8) (c : Choice) :
    UdpAssociationContext :=
  if !this.proxiedSocket && !c.connects then this
  else
    { this with
      proxiedSocket := c.sends
      proxied := this.proxied ++ [⟨this.clientSessionId, this.clientPacketId, target, data⟩] }

/-- `dispatch_received_packet`. -/
def dispatchReceived (this : UdpAssociationContext) (target : Address) (data : List UInt8)
    (c : Choice) :
    UdpAssociationContext :=
  if c.bypassed then this.dispatchBypassed target data c
  else (this.nextPacketId c.newSessionId).sendProxied target data c

/-- `send_received_respond_packet`. -/
def sendRespond (this : UdpAssociationContext) (addr : Address) (data : List UInt8)
    (control : Option ReplyControl) : UdpAssociationContext :=
  { this with keepaliveFlag := true, replies := this.replies ++ [.forwarded addr data control] }

/-- The filter of a session; a session that is not in the cache starts with a new one. -/
def filterOf (this : UdpAssociationContext) (serverSessionId : UInt64) : PacketWindowFilter :=
  ((this.serverSession.bind fun sessions => sessions serverSessionId)).getD PacketWindowFilter.new

/-- The session is in the cache from now on. -/
def setFilter (this : UdpAssociationContext) (serverSessionId : UInt64)
    (filter : PacketWindowFilter) :
    UdpAssociationContext :=
  { this with
    serverSession := some (Function.update (this.serverSession.getD fun _ => none) serverSessionId
      (some filter)) }

/-- The cache drops a session that was not used for long. -/
def expire (this : UdpAssociationContext) (serverSessionId : UInt64) : UdpAssociationContext :=
  { this with
    serverSession :=
      this.serverSession.map fun sessions => Function.update sessions serverSessionId none
    replies := this.replies ++ [.expired serverSessionId] }

/-- A packet from the server. -/
def receiveProxied (this : UdpAssociationContext) (addr : Address) (data : List UInt8) :
    Option ReplyControl → UdpAssociationContext
  | none => this.sendRespond addr data none
  | some control =>
      let validated :=
        (this.filterOf control.serverSessionId).validatePacketId control.packetId 0xFFFFFFFFFFFFFFFF
      let this := this.setFilter control.serverSessionId validated.1
      if validated.2 then this.sendRespond addr data (some control) else this

/-- One turn of `dispatch_packet`. -/
def step (this : UdpAssociationContext) : Event → Option UdpAssociationContext
  | .received target data c => some (this.dispatchReceived target data c)
  | .bypassedReply none =>
      if this.bypassedIpv6Socket then some { this with bypassedIpv6Socket := false } else none
  | .bypassedReply (some (addr, data)) =>
      if this.bypassedIpv6Socket then some (this.sendRespond addr data none) else none
  | .proxiedReply none =>
      if this.proxiedSocket then some { this with proxiedSocket := false } else none
  | .proxiedReply (some (addr, data, control)) =>
      if this.proxiedSocket then some (this.receiveProxied addr data control) else none
  | .keepaliveTick sent =>
      some { this with keepaliveFlag := this.keepaliveFlag && !sent }
  | .sessionExpires id => some (this.expire id)

/-! ## Packets to the server -/

/-- What marks a packet to the server. -/
def mark (p : ProxiedPacket) : UInt64 × UInt64 := (p.clientSessionId, p.packetId)

/-- The marks are distinct, and the counter is not behind any of the current session. -/
structure Distinct (s : UdpAssociationContext) : Prop where
  nodup : (s.proxied.map mark).Nodup
  le_counter : ∀ p ∈ s.proxied, p.clientSessionId = s.clientSessionId →
    p.packetId.toNat ≤ s.clientPacketId.toNat

/-- A session id that is drawn because the counter ran out is one that no packet carries. -/
def FreshSession (s : UdpAssociationContext) : Event → Prop
  | .received _ _ c => c.bypassed = false → s.clientPacketId.toNat + 1 = UInt64.size →
      ∀ p ∈ s.proxied, p.clientSessionId ≠ c.newSessionId
  | _ => True

instance (s : UdpAssociationContext) : (e : Event) → Decidable (s.FreshSession e)
  | .received _ _ c =>
      inferInstanceAs (Decidable (c.bypassed = false → s.clientPacketId.toNat + 1 = UInt64.size →
      ∀ p ∈ s.proxied, p.clientSessionId ≠ c.newSessionId))
  | .bypassedReply _ | .proxiedReply _ | .keepaliveTick _ | .sessionExpires _ => isTrue trivial

variable {s s' : UdpAssociationContext}

/-- Only a packet that is not bypassed touches what packets to the server are made of. -/
theorem step_proxied {e : Event} (h : s.step e = some s') :
    (s'.proxied = s.proxied ∧ s'.clientSessionId = s.clientSessionId ∧
      s'.clientPacketId = s.clientPacketId) ∨
      ∃ target data c, e = .received target data c ∧ c.bypassed = false ∧
        s' = (s.nextPacketId c.newSessionId).sendProxied target data c := by
  cases e with
  | received target data c =>
      cases h
      unfold dispatchReceived
      cases hbypassed : c.bypassed with
      | false => exact Or.inr ⟨target, data, c, rfl, hbypassed, by simp⟩
      | true =>
          left
          rw [if_pos rfl, dispatchBypassed]
          split
          · exact ⟨rfl, rfl, rfl⟩
          · exact ⟨rfl, rfl, rfl⟩
  | bypassedReply reply =>
      left
      cases reply with
      | none =>
          simp only [step] at h
          split at h <;> cases h
          exact ⟨rfl, rfl, rfl⟩
      | some x =>
          simp only [step] at h
          split at h <;> cases h
          exact ⟨rfl, rfl, rfl⟩
  | proxiedReply reply =>
      left
      cases reply with
      | none =>
          simp only [step] at h
          split at h <;> cases h
          exact ⟨rfl, rfl, rfl⟩
      | some x =>
          obtain ⟨addr, data, control⟩ := x
          simp only [step] at h
          split at h
          · cases h
            cases control with
            | none => exact ⟨rfl, rfl, rfl⟩
            | some control =>
                unfold receiveProxied
                dsimp only
                split
                · exact ⟨rfl, rfl, rfl⟩
                · exact ⟨rfl, rfl, rfl⟩
          · cases h
  | keepaliveTick sent =>
      cases h
      exact Or.inl ⟨rfl, rfl, rfl⟩
  | sessionExpires id =>
      cases h
      exact Or.inl ⟨rfl, rfl, rfl⟩

/-- The next mark is new. -/
theorem nextPacketId_fresh (h : s.Distinct) {newSessionId : UInt64}
    (hfresh : s.clientPacketId.toNat + 1 = UInt64.size →
    ∀ p ∈ s.proxied, p.clientSessionId ≠ newSessionId) :
    (s.nextPacketId newSessionId).proxied = s.proxied ∧
      ∀ p ∈ s.proxied, p.clientSessionId = (s.nextPacketId newSessionId).clientSessionId →
        p.packetId.toNat < (s.nextPacketId newSessionId).clientPacketId.toNat := by
  unfold nextPacketId
  split
  · next hlt =>
      refine ⟨rfl, ?_⟩
      intro p hp hsession
      have hle := h.le_counter p hp hsession
      have hadd : (s.clientPacketId + 1).toNat = s.clientPacketId.toNat + 1 := by
        rw [UInt64.toNat_add]
        exact Nat.mod_eq_of_lt hlt
      show p.packetId.toNat < (s.clientPacketId + 1).toNat
      omega
  · next hmax =>
      refine ⟨rfl, ?_⟩
      intro p hp hsession
      have hlt : s.clientPacketId.toNat < UInt64.size := s.clientPacketId.toNat_lt
      exact absurd hsession (hfresh (by omega) p hp)

theorem distinct_step {e : Event} (h : s.Distinct) (hfresh : s.FreshSession e)
    (hstep : s.step e = some s') :
    s'.Distinct := by
  rcases step_proxied hstep with ⟨hproxied, hsession, hcounter⟩ | ⟨target, data, c, rfl,
    hbypassed, rfl⟩
  · constructor
    · rw [hproxied]
      exact h.nodup
    · rw [hproxied, hsession, hcounter]
      exact h.le_counter
  · obtain ⟨hsame, hlt⟩ := nextPacketId_fresh h (hfresh hbypassed)
    generalize s.nextPacketId c.newSessionId = n at hsame hlt ⊢
    unfold sendProxied
    split
    · constructor
      · rw [hsame]
        exact h.nodup
      · intro p hp heq
        rw [hsame] at hp
        exact Nat.le_of_lt (hlt p hp heq)
    · constructor
      · dsimp only
        rw [hsame, List.map_append, List.nodup_append]
        refine ⟨h.nodup, List.nodup_singleton _, ?_⟩
        intro a ha b hb heq
        obtain ⟨p, hp, rfl⟩ := List.mem_map.mp ha
        rw [List.map_singleton, List.mem_singleton] at hb
        rw [hb] at heq
        obtain ⟨hsession, hid⟩ := Prod.mk.inj heq
        have := hlt p hp hsession
        rw [hid] at this
        exact Nat.lt_irrefl _ this
      · intro p hp heq
        dsimp only at hp heq ⊢
        rw [hsame] at hp
        rcases List.mem_append.mp hp with hp | hp
        · exact Nat.le_of_lt (hlt p hp heq)
        · rw [List.mem_singleton.mp hp]

/-- No two packets go to the server with the same session and counter. -/
theorem client_packets_distinct (clientSessionId : UInt64) (events : List Event)
    (t : UdpAssociationContext) (hfresh : Meets step FreshSession { clientSessionId } events)
    (hrun : run step { clientSessionId } events = some t) : (t.proxied.map mark).Nodup := by
  have hstart : Distinct { clientSessionId } :=
    ⟨List.nodup_nil, fun p hp => absurd hp List.not_mem_nil⟩
  exact (run_invariant_of_meets (P := Distinct) (fun s e s' h hC hstep => distinct_step h hC hstep)
    hstart hfresh
    hrun).nodup

/-- Two packets to the server and one past it. -/
def sampleRun : List Event :=
  [.received (.domainNameAddress ['a'] 53) [1] ⟨false, true, true, 0⟩,
    .received (.domainNameAddress ['b'] 53) [2] ⟨true, true, true, 0⟩,
    .received (.domainNameAddress ['a'] 53) [3] ⟨false, true, false, 0⟩]

theorem client_packets_distinct_sample : ∃ t, run step { clientSessionId := 7 } sampleRun = some t ∧
    t.proxied.length = 2 ∧ (t.proxied.map mark).Nodup :=
  ⟨_, rfl, rfl, client_packets_distinct 7 sampleRun _ (by decide) rfl⟩

/-! ## Packets from the server -/

/-- The counters of a session that were forwarded, before an entry and after it. -/
def acceptedAfter (serverSessionId : UInt64) (accepted : List UInt64) : ReplyLog → List UInt64
  | .forwarded _ _ (some control) =>
      if control.serverSessionId = serverSessionId then control.packetId :: accepted else accepted
  | .forwarded _ _ none => accepted
  | .expired id => if id = serverSessionId then [] else accepted

/-- The counters of a session that were forwarded since the cache last dropped it. -/
def acceptedSince (serverSessionId : UInt64) (log : List ReplyLog) : List UInt64 :=
  log.foldl (acceptedAfter serverSessionId) []

theorem acceptedSince_snoc (id : UInt64) (log : List ReplyLog) (entry : ReplyLog) :
    acceptedSince id (log ++ [entry]) = acceptedAfter id (acceptedSince id log) entry := by
  unfold acceptedSince
  rw [List.foldl_append]
  rfl

/-- The filters of all sessions remember what was forwarded. -/
def Remembers (s : UdpAssociationContext) : Prop :=
  ∀ id, PacketWindowFilter.Represents (s.filterOf id) (acceptedSince id s.replies)

theorem filterOf_setFilter (s : UdpAssociationContext) (id id' : UInt64)
    (filter : PacketWindowFilter) :
    (s.setFilter id filter).filterOf id' = if id' = id then filter else s.filterOf id' := by
  unfold filterOf setFilter
  by_cases heq : id' = id
  · simp [heq]
  · cases s.serverSession <;> simp [heq]

theorem filterOf_expire (s : UdpAssociationContext) (id id' : UInt64) :
    (s.expire id).filterOf id' = if id' = id then PacketWindowFilter.new else s.filterOf id' := by
  unfold filterOf expire
  by_cases heq : id' = id
  · cases s.serverSession <;> simp [heq]
  · cases s.serverSession <;> simp [heq]

theorem remembers_receiveProxied (h : s.Remembers) (addr : Address) (data : List UInt8)
    (control : Option ReplyControl) : (s.receiveProxied addr data control).Remembers := by
  intro id
  cases control with
  | none =>
      show PacketWindowFilter.Represents (s.filterOf id) (acceptedSince id (s.replies ++ [_]))
      rw [acceptedSince_snoc]
      exact h id
  | some control =>
      obtain ⟨-, hrep⟩ := PacketWindowFilter.represents_validatePacketId (h control.serverSessionId)
        control.packetId 0xFFFFFFFFFFFFFFFF
      unfold receiveProxied
      dsimp only
      split
      · next hvalid =>
          rw [if_pos hvalid] at hrep
          show PacketWindowFilter.Represents ((s.setFilter _ _).filterOf id)
              (acceptedSince id (s.replies ++ [_]))
          rw [filterOf_setFilter, acceptedSince_snoc, acceptedAfter]
          by_cases heq : id = control.serverSessionId
          · rw [if_pos heq, if_pos heq.symm, heq]
            exact hrep
          · rw [if_neg heq, if_neg (Ne.symm heq)]
            exact h id
      · next hvalid =>
          rw [if_neg hvalid] at hrep
          show PacketWindowFilter.Represents ((s.setFilter _ _).filterOf id)
              (acceptedSince id s.replies)
          rw [filterOf_setFilter]
          by_cases heq : id = control.serverSessionId
          · rw [if_pos heq, heq]
            exact hrep
          · rw [if_neg heq]
            exact h id

theorem remembers_of_eq (h : s.Remembers) (hsession : s'.serverSession = s.serverSession)
    (hreplies : s'.replies = s.replies) : s'.Remembers := by
  intro id
  unfold filterOf
  rw [hsession, hreplies]
  exact h id

/-- Packets of the client do not touch the sessions of the server. -/
theorem dispatchReceived_sessions (s : UdpAssociationContext) (target : Address) (data : List UInt8)
    (c : Choice) : (s.dispatchReceived target data c).serverSession = s.serverSession ∧
      (s.dispatchReceived target data c).replies = s.replies := by
  have hsend (n : UdpAssociationContext) : (n.sendProxied target data c).serverSession =
      n.serverSession ∧
      (n.sendProxied target data c).replies = n.replies := by
    unfold sendProxied
    split
    · exact ⟨rfl, rfl⟩
    · exact ⟨rfl, rfl⟩
  unfold dispatchReceived
  split
  · unfold dispatchBypassed
    split
    · exact ⟨rfl, rfl⟩
    · exact ⟨rfl, rfl⟩
  · rw [(hsend _).1, (hsend _).2]
    unfold nextPacketId
    split
    · exact ⟨rfl, rfl⟩
    · exact ⟨rfl, rfl⟩

theorem remembers_step {e : Event} (h : s.Remembers) (hstep : s.step e = some s') :
    s'.Remembers := by
  cases e with
  | received target data c =>
      cases hstep
      obtain ⟨hsession, hreplies⟩ := dispatchReceived_sessions s target data c
      exact remembers_of_eq h hsession hreplies
  | bypassedReply reply =>
      cases reply with
      | none =>
          simp only [step] at hstep
          split at hstep <;> cases hstep
          exact remembers_of_eq h rfl rfl
      | some x =>
          simp only [step] at hstep
          split at hstep <;> cases hstep
          exact remembers_receiveProxied h x.1 x.2 none
  | proxiedReply reply =>
      cases reply with
      | none =>
          simp only [step] at hstep
          split at hstep <;> cases hstep
          exact remembers_of_eq h rfl rfl
      | some x =>
          obtain ⟨addr, data, control⟩ := x
          simp only [step] at hstep
          split at hstep <;> cases hstep
          exact remembers_receiveProxied h addr data control
  | keepaliveTick sent =>
      cases hstep
      exact remembers_of_eq h rfl rfl
  | sessionExpires id =>
      cases hstep
      intro id'
      show PacketWindowFilter.Represents ((s.expire id).filterOf id')
          (acceptedSince id' (s.replies ++ [_]))
      rw [filterOf_expire, acceptedSince_snoc, acceptedAfter]
      by_cases heq : id' = id
      · rw [if_pos heq, if_pos heq.symm]
        exact PacketWindowFilter.represents_new
      · rw [if_neg heq, if_neg (Ne.symm heq)]
        exact h id'

/-- After any run, a packet from the server with control data reaches the client exactly if its
counter is not the largest there is, was not forwarded since the cache last dropped the session, and
is at most 8128 behind every counter that was. -/
theorem replies_forwarded_iff (clientSessionId : UInt64) (events : List Event)
    (t t' : UdpAssociationContext) (addr : Address) (data : List UInt8) (control : ReplyControl)
    (hrun : run step { clientSessionId } events = some t)
    (hstep : t.step (.proxiedReply (some (addr, data, some control))) = some t') :
    let accepted := acceptedSince control.serverSessionId t.replies
    let fresh := control.packetId < 0xFFFFFFFFFFFFFFFF ∧ control.packetId ∉ accepted ∧
      ∀ x ∈ accepted, x.toNat ≤ control.packetId.toNat + 8128
    (fresh → t'.replies = t.replies ++ [.forwarded addr data (some control)]) ∧
      (¬ fresh → t'.replies = t.replies) := by
  have hstart : Remembers { clientSessionId } := fun _ => PacketWindowFilter.represents_new
  have hinv : t.Remembers := run_invariant (fun s e s' h hs => remembers_step h hs) hstart hrun
  obtain ⟨hvalid, -⟩ :=
    PacketWindowFilter.represents_validatePacketId (hinv control.serverSessionId)
    control.packetId 0xFFFFFFFFFFFFFFFF
  dsimp only
  rw [← hvalid]
  simp only [step] at hstep
  split at hstep
  · cases hstep
    unfold receiveProxied
    dsimp only
    constructor
    · intro hok
      rw [if_pos hok]
      rfl
    · intro hno
      rw [if_neg hno]
      rfl
  · cases hstep

/-- A packet to the server, and a reply to it. -/
def answeredRun : List Event :=
  [.received (.domainNameAddress ['a'] 53) [1] ⟨false, true, true, 0⟩,
    .proxiedReply (some (.domainNameAddress ['a'] 53, [2], some ⟨9, 1⟩))]

/-- The reply is not forwarded again. -/
theorem replies_forwarded_iff_again :
    ∃ t t', run step { clientSessionId := 7 } answeredRun = some t ∧
    t.step (.proxiedReply (some (.domainNameAddress ['a'] 53, [2], some ⟨9, 1⟩))) = some t' ∧
    t'.replies = t.replies ∧ t.replies.length = 1 :=
  ⟨_, _, rfl, rfl, (replies_forwarded_iff 7 answeredRun _ _ _ _ _ rfl rfl).2 (by decide), rfl⟩

end UdpAssociationContext

end CypherConnect.SsLocal
