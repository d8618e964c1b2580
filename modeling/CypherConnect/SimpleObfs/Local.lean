/-
  `local.c`: the callbacks that bring a server's answers to the client of `obfs-local`, with the
  watchers that are active between them, sockets that take less than they are given and reads that
  end anywhere.

  * `Download.step_good`, `Download.run_good`: what was handed over and what waits in the buffer are
    what the bytes read so far carry.
  * `tls_download_exact`: every answer arrives once and in order, unless the first read ends within
    the handshake.
-/
import CypherConnect.Lib.Machine
import CypherConnect.SimpleObfs.Tls

namespace CypherConnect.SimpleObfs

open Transducer

/-- `BUF_SIZE` of `local.c`. -/
def bufSize : Nat := 2048

/-- `buffer_t`. -/
structure Buffer where
  data : List UInt8
  len : Nat
  idx : Nat
  deriving DecidableEq, Repr

/-- What `recv` returns. -/
inductive Recv where
  | bytes (chunk : List UInt8)
  | closed
  | again
  | error
  deriving DecidableEq, Repr

/-- What `send` returns. -/
inductive Sent where
  | bytes (s : Nat)
  | again
  | error
  deriving DecidableEq, Repr

/-- A socket that takes so many bytes, or none any more. -/
inductive Socket where
  | room (n : Nat)
  | broken
  deriving DecidableEq, Repr

def Socket.send (len : Nat) : Socket → Sent
  | room n => if n = 0 ∧ 0 < len then .again else .bytes (min n len)
  | broken => .error

/-- Where a connection was closed. -/
inductive Closed where
  | connectionClosed
  | remoteRecvCbRecv
  | remoteRecvCbSend
  | serverSendCbSend
  | invalidObfuscating
  | nothingToSend
  | timeout
  | crashed
  deriving DecidableEq, Repr

/-- A connection, as far as it carries answers: `server->obfs`, `server->buf`, the watchers
`remote->recv_ctx->io` and `server->send_ctx->io`, and what was read from the one socket and written
to the other. -/
structure Download where
  obfs : Obfs := {}
  buf : Buffer
  receiving : Bool := true
  sending : Bool := false
  closed : Option Closed := none
  reads : List (List UInt8) := []
  delivered : List UInt8 := []
  deriving DecidableEq, Repr

inductive Event where
  | remoteReadable (r : Recv) (socket : Socket)
  | serverWritable (socket : Socket)
  | timeout
  deriving DecidableEq, Repr

/-- What an event brings from the server. -/
def Event.chunk : Event → Option (List UInt8)
  | remoteReadable (.bytes chunk) _ => some chunk
  | _ => none

/-- What a run of events brings from the server, read by read. -/
def received (es : List Event) : List (List UInt8) := es.filterMap Event.chunk

namespace Download

/-- `close_and_free_remote` and `close_and_free_server`. -/
def close (d : Download) (why : Closed) : Download :=
  { d with closed := some why, receiving := false, sending := false }

/-- What waits in the buffer. -/
def pending (d : Download) : List UInt8 :=
  if d.sending then (d.buf.data.drop d.buf.idx).take d.buf.len else []

/-- The second half of `remote_recv_cb`: `send`. -/
def forward (d : Download) (data : List UInt8) (len : Nat) (socket : Socket) : Download :=
  match socket.send len with
  | .error => d.close .remoteRecvCbSend
  | .again => { d with buf := ⟨data, len, 0⟩, receiving := false, sending := true }
  | .bytes s =>
      if s < len then
        { d with
          buf := ⟨data, len - s, s⟩
          receiving := false
          sending := true
          delivered := d.delivered ++ data.take s }
      else { d with buf := ⟨data, len, d.buf.idx⟩, delivered := d.delivered ++ data.take s }

/-- `remote_recv_cb`. -/
def remoteRecvCb (d : Download) (r : Recv) (socket : Socket) : Download :=
  match r with
  | .closed => d.close .connectionClosed
  | .again => d
  | .error => d.close .remoteRecvCbRecv
  | .bytes chunk =>
      let d := { d with reads := d.reads ++ [chunk] }
      match deobfsTlsResponse (chunk ++ d.buf.data.drop chunk.length) chunk.length d.obfs with
      | .error .overrun => d.close .crashed
      | .error _ => d.close .invalidObfuscating
      | .ok (obfs, data, len) => forward { d with obfs } data len socket

/-- `server_send_cb`. -/
def serverSendCb (d : Download) (socket : Socket) : Download :=
  if d.buf.len = 0 then d.close .nothingToSend
  else
    match socket.send d.buf.len with
    | .error => d.close .serverSendCbSend
    | .again => d
    | .bytes s =>
        if s < d.buf.len then
          { d with
            buf := ⟨d.buf.data, d.buf.len - s, d.buf.idx + s⟩
            delivered := d.delivered ++ (d.buf.data.drop d.buf.idx).take s }
        else
          { d with
            buf := ⟨d.buf.data, 0, 0⟩, sending := false, receiving := true
            delivered := d.delivered ++ (d.buf.data.drop d.buf.idx).take s }

/-- A read gives at least one byte and no more than asked for. -/
def readable : Recv → Bool
  | .bytes chunk => 0 < chunk.length && chunk.length ≤ bufSize
  | _ => true

/-- One event of the loop; none if nobody watches for it. -/
def step (d : Download) : Event → Option Download
  | .remoteReadable r socket =>
      if d.receiving && readable r then some (d.remoteRecvCb r socket) else none
  | .serverWritable socket => if d.sending then some (d.serverSendCb socket) else none
  | .timeout => if d.closed.isNone then some (d.close .timeout) else none

/-- A connection to the server: the buffer has been used for the client's first bytes. -/
def start (data : List UInt8) (len : Nat) : Download := { buf := ⟨data, len, 0⟩ }

end Download

/-! ## What every step keeps -/

theorem take_append_drop_take {α : Type} (l : List α) {s n : Nat} (h : s ≤ n) :
    l.take s ++ (l.drop s).take (n - s) = l.take n := by
  rw [← List.drop_take]
  have hs := List.take_append_drop s (l.take n)
  rw [List.take_take, Nat.min_eq_left h] at hs
  exact hs

theorem Socket.send_bytes {socket : Socket} {len s : Nat} (h : socket.send len = .bytes s) :
    s ≤ len := by
  unfold Socket.send at h
  split at h
  · split at h
    · cases h
    · cases h
      exact Nat.min_le_right _ _
  · cases h

theorem Socket.send_again {socket : Socket} {len : Nat} (h : socket.send len = .again) :
    0 < len := by
  unfold Socket.send at h
  split at h
  · split at h
    · rename_i hfull
      exact hfull.2
    · cases h
  · cases h

namespace Download

section Run

-- the handshake a server sends, and the length of its first message
variable (head : List UInt8) (n : Nat)

/-- Nothing was read yet, or the reads carry `out`. -/
def Read (reads : List (List UInt8)) (obfs : Obfs) (out : List UInt8) : Prop :=
  (reads = [] ∧ obfs.deobfsStage = 0 ∧ obfs.extra = none ∧ out = []) ∨
    ∃ c rest part frame, reads = c :: rest ∧ 107 < c.length ∧ reads.flatten = head ++ part ∧
      obfs.deobfsStage = 1 ∧ obfs.extra = some frame ∧
        feed Frame.step (missing n) part = .ok (frame, out)

/-- An open connection. -/
structure Open (d : Download) : Prop where
  closed : d.closed = none
  memory : d.buf.data.length = bufSize
  watched : d.receiving = !d.sending
  waiting : d.sending = true → 0 < d.buf.len
  read : Read head n d.reads d.obfs (d.delivered ++ d.pending)

/-- What bytes carry, if anything was read. -/
def Carries (word out : List UInt8) : Prop :=
  (word = [] ∧ out = []) ∨ ∃ part frame, word = head ++ part ∧
    feed Frame.step (missing n) part = .ok (frame, out)

/-- Nobody watches the sockets any more. -/
def Stopped (d : Download) : Prop := d.closed.isSome ∧ d.receiving = false ∧ d.sending = false

/-- A connection after any run. -/
inductive Good (d : Download) : Prop where
  | opened (h : Open head n d)
  | short (hstopped : d.Stopped) (hclosed : d.closed = some .invalidObfuscating) (c : List UInt8)
      (hread : d.reads = [c]) (hlen : c.length ≤ 107) (hdelivered : d.delivered = [])
  | ended (hstopped : d.Stopped) (why : Closed) (hclosed : d.closed = some why)
      (hwhy : why ≠ .invalidObfuscating ∧ why ≠ .nothingToSend ∧ why ≠ .crashed)
      (hfirst : ∀ c, d.reads.head? = some c → 107 < c.length) (lost : List UInt8)
      (hcarries : Carries head n d.reads.flatten (d.delivered ++ lost))
      (hall : why = .connectionClosed → lost = [])

variable {head n} {d : Download}

theorem Read.carries {reads : List (List UInt8)} {obfs : Obfs} {out : List UInt8}
    (h : Read head n reads obfs out) :
    Carries head n reads.flatten out := by
  obtain ⟨hnone, -, -, hout⟩ | ⟨c, rest, part, frame, -, -, hword, -, -, hfeed⟩ := h
  · exact Or.inl ⟨by rw [hnone]; rfl, hout⟩
  · exact Or.inr ⟨part, frame, hword, hfeed⟩

theorem Read.first {reads : List (List UInt8)} {obfs : Obfs} {out : List UInt8}
    (h : Read head n reads obfs out) (c : List UInt8)
    (hc : reads.head? = some c) : 107 < c.length := by
  obtain ⟨hnone, -⟩ | ⟨first, rest, part, frame, hreads, hlong, -⟩ := h
  · rw [hnone] at hc
    cases hc
  · rw [hreads] at hc
    cases hc
    exact hlong

theorem step_cases {e : Event} {d' : Download} (h : d.step e = some d') :
    (∃ r socket, e = .remoteReadable r socket ∧ d.receiving = true ∧ readable r = true ∧
      d' = d.remoteRecvCb r socket) ∨
    (∃ socket, e = .serverWritable socket ∧ d.sending = true ∧ d' = d.serverSendCb socket) ∨
    (e = .timeout ∧ d.closed = none ∧ d' = d.close .timeout) := by
  cases e with
  | remoteReadable r socket =>
      have h : (if d.receiving && readable r then some (d.remoteRecvCb r socket)
          else none) = some d' := h
      obtain ⟨henabled, hnext⟩ := Option.ite_none_right_eq_some.1 h
      obtain ⟨hreceiving, hread⟩ := Bool.and_eq_true_iff.1 henabled
      exact Or.inl ⟨r, socket, rfl, hreceiving, hread, (Option.some.inj hnext).symm⟩
  | serverWritable socket =>
      have h : (if d.sending then some (d.serverSendCb socket) else none) = some d' := h
      obtain ⟨hsending, hnext⟩ := Option.ite_none_right_eq_some.1 h
      exact Or.inr (Or.inl ⟨socket, rfl, hsending, (Option.some.inj hnext).symm⟩)
  | timeout =>
      have h : (if d.closed.isNone then some (d.close .timeout) else none) = some d' := h
      obtain ⟨hopen, hnext⟩ := Option.ite_none_right_eq_some.1 h
      exact Or.inr (Or.inr ⟨rfl, Option.isNone_iff_eq_none.1 hopen, (Option.some.inj hnext).symm⟩)

theorem Stopped.step (h : d.Stopped) {e : Event} {d' : Download} (hstep : d.step e = some d') :
    False := by
  obtain ⟨hclosed, hreceiving, hsending⟩ := h
  obtain ⟨r, socket, -, hr, -⟩ | ⟨socket, -, hs, -⟩ | ⟨-, hopen, -⟩ := step_cases hstep
  · rw [hreceiving] at hr
    cases hr
  · rw [hsending] at hs
    cases hs
  · rw [hopen] at hclosed
    cases hclosed

theorem Open.not_sending (h : Open head n d) (hreceiving : d.receiving = true) :
    d.sending = false := by
  have hwatched := h.watched
  rw [hreceiving] at hwatched
  cases hs : d.sending with
  | false => rfl
  | true =>
      rw [hs] at hwatched
      cases hwatched

theorem pending_of_not_sending (h : d.sending = false) : d.pending = [] := by
  unfold pending
  rw [h]
  rfl

theorem Open.close (h : Open head n d) {why : Closed}
    (hwhy : why ≠ .invalidObfuscating ∧ why ≠ .nothingToSend ∧ why ≠ .crashed)
    (hall : why = .connectionClosed → d.receiving = true) : Good head n (d.close why) := by
  refine Good.ended ⟨rfl, rfl, rfl⟩ why rfl hwhy h.read.first d.pending h.read.carries ?_
  exact fun heof => pending_of_not_sending (h.not_sending (hall heof))

/-- What was read goes to the client, or waits. -/
theorem forward_good (hclosed : d.closed = none) (hreceiving : d.receiving = true)
    (hsending : d.sending = false) {data : List UInt8} {len : Nat} (hmemory : data.length = bufSize)
    (hread : Read head n d.reads d.obfs (d.delivered ++ data.take len)) (socket : Socket) :
    Good head n (d.forward data len socket) := by
  unfold forward
  cases hsend : socket.send len with
  | error =>
      exact Good.ended ⟨rfl, rfl, rfl⟩ .remoteRecvCbSend rfl
        ⟨nofun, nofun, nofun⟩ hread.first _ hread.carries nofun
  | again =>
      refine Good.opened ⟨hclosed, hmemory, rfl, fun _ => Socket.send_again hsend, ?_⟩
      show Read head n d.reads d.obfs (d.delivered ++ (data.drop 0).take len)
      rw [List.drop_zero]
      exact hread
  | bytes s =>
      have hs := Socket.send_bytes hsend
      by_cases hpart : s < len
      · dsimp only
        rw [if_pos hpart]
        refine Good.opened ⟨hclosed, hmemory, rfl, fun _ => Nat.sub_pos_of_lt hpart, ?_⟩
        show Read head n d.reads d.obfs
            ((d.delivered ++ data.take s) ++ (data.drop s).take (len - s))
        rw [List.append_assoc, take_append_drop_take data hs]
        exact hread
      · dsimp only
        rw [if_neg hpart]
        have hall : s = len := by omega
        refine Good.opened ⟨hclosed, hmemory, ?_, ?_, ?_⟩
        · show d.receiving = !d.sending
          rw [hreceiving, hsending]
          rfl
        · intro h
          rw [show d.sending = true from h] at hsending
          cases hsending
        · rw [pending_of_not_sending (by exact hsending), List.append_nil, hall]
          exact hread

/-- What waits goes to the client. -/
theorem serverSendCb_good (h : Open head n d) (hsending : d.sending = true) (socket : Socket) :
    Good head n (d.serverSendCb socket) := by
  have hlen := h.waiting hsending
  have hpending : d.pending = (d.buf.data.drop d.buf.idx).take d.buf.len := by
    unfold pending
    rw [hsending]
    rfl
  unfold serverSendCb
  rw [if_neg (by omega)]
  cases hsend : socket.send d.buf.len with
  | error => exact h.close ⟨nofun, nofun, nofun⟩ nofun
  | again => exact Good.opened h
  | bytes s =>
      have hs := Socket.send_bytes hsend
      by_cases hpart : s < d.buf.len
      · dsimp only
        rw [if_pos hpart]
        refine Good.opened ⟨h.closed, h.memory, h.watched, fun _ => Nat.sub_pos_of_lt hpart, ?_⟩
        have hsame : pending { d with
            buf := ⟨d.buf.data, d.buf.len - s, d.buf.idx + s⟩
            delivered := d.delivered ++ (d.buf.data.drop d.buf.idx).take s } =
            ((d.buf.data.drop d.buf.idx).drop s).take (d.buf.len - s) := by
          unfold pending
          rw [List.drop_drop, hsending]
          rfl
        rw [hsame, List.append_assoc, take_append_drop_take _ hs, ← hpending]
        exact h.read
      · dsimp only
        rw [if_neg hpart]
        have hall : s = d.buf.len := by omega
        refine Good.opened ⟨h.closed, h.memory, rfl, nofun, ?_⟩
        rw [hall, ← hpending]
        show Read head n d.reads d.obfs ((d.delivered ++ d.pending) ++ [])
        rw [List.append_nil]
        exact h.read

/-- The memory after a read begins with what was read. -/
theorem take_received (chunk data : List UInt8) :
    (chunk ++ data.drop chunk.length).take chunk.length = chunk :=
  List.take_left' rfl

theorem length_received {chunk data : List UInt8} (hdata : data.length = bufSize)
    (hchunk : chunk.length ≤ bufSize) :
    (chunk ++ data.drop chunk.length).length = bufSize := by
  rw [List.length_append, List.length_drop]
  omega

/-- The bytes that were read are kept in every case. -/
theorem forward_reads (data : List UInt8) (len : Nat) (socket : Socket) :
    (d.forward data len socket).reads = d.reads := by
  unfold forward
  split
  · rfl
  · rfl
  · split <;> rfl

theorem remoteRecvCb_reads (chunk : List UInt8) (socket : Socket) :
    (d.remoteRecvCb (.bytes chunk) socket).reads = d.reads ++ [chunk] := by
  unfold remoteRecvCb
  dsimp only
  split
  · rfl
  · rfl
  · exact forward_reads _ _ _

theorem serverSendCb_reads (socket : Socket) : (d.serverSendCb socket).reads = d.reads := by
  unfold serverSendCb
  split
  · rfl
  · split
    · rfl
    · rfl
    · split <;> rfl

/-- A step adds what it received. -/
theorem step_reads {e : Event} {d' : Download} (h : d.step e = some d') :
    d'.reads = d.reads ++ e.chunk.toList := by
  obtain ⟨r, socket, rfl, -, -, rfl⟩ | ⟨socket, rfl, -, rfl⟩ | ⟨rfl, -, rfl⟩ := step_cases h
  · cases r with
    | bytes chunk => exact remoteRecvCb_reads chunk socket
    | closed => exact (List.append_nil _).symm
    | again => exact (List.append_nil _).symm
    | error => exact (List.append_nil _).symm
  · exact (serverSendCb_reads socket).trans (List.append_nil _).symm
  · exact (List.append_nil _).symm

/-- The reads of a connection are the chunks that the events brought. -/
theorem run_reads {data : List UInt8} {len : Nat} {es : List Event}
    (h : Machine.run step (start data len) es = some d) : d.reads = received es := by
  refine Machine.run_history (P := fun es d => d.reads = received es) ?_ rfl h
  intro past d e d' hpast hstep
  have hsingle : received [e] = e.chunk.toList := by
    unfold received
    rw [List.filterMap_cons]
    cases e.chunk <;> rfl
  rw [step_reads hstep, hpast, ← hsingle]
  exact List.filterMap_append.symm

theorem remoteRecvCb_ok {chunk data : List UInt8} {obfs : Obfs} {len : Nat} {socket : Socket}
    (h : deobfsTlsResponse (chunk ++ d.buf.data.drop chunk.length) chunk.length d.obfs = .ok (obfs,
    data, len)) :
    d.remoteRecvCb (.bytes chunk) socket = forward { d with reads := d.reads ++ [chunk], obfs } data
      len socket := by
  unfold remoteRecvCb
  dsimp only
  rw [h]

section Honest

variable {random : Random} {sessionId : Vector UInt8 32} {body out : List UInt8} {last : Frame}
  (hn : n ≤ 16384) (hbody : feed Frame.step (missing n) body = .ok (last, out))
include hn hbody

/-- The first read. -/
theorem remoteRecvCb_first (h : Open (handshake random sessionId n) n d)
    (hreceiving : d.receiving = true) (hsending : d.sending = false) (hnone : d.reads = [])
    (hstage : d.obfs.deobfsStage = 0) (hextra : d.obfs.extra = none) (hdelivered : d.delivered = [])
    {chunk : List UInt8} (hpos : 0 < chunk.length) (hmax : chunk.length ≤ bufSize)
    (hwire : chunk <+: handshake random sessionId n ++ body) (socket : Socket) :
    Good (handshake random sessionId n) n (d.remoteRecvCb (.bytes chunk) socket) := by
  have hlength := length_received h.memory hmax
  have hle : chunk.length ≤ (chunk ++ d.buf.data.drop chunk.length).length := by omega
  have hreads : d.reads ++ [chunk] = [chunk] := by rw [hnone, List.nil_append]
  rcases Nat.lt_or_ge 107 chunk.length with hlong | hshort
  · -- the handshake and the beginning of what follows it
    have hhead : handshake random sessionId n <+: chunk := by
      refine List.prefix_of_prefix_length_le (List.prefix_append _ _) hwire ?_
      rw [length_handshake]
      omega
    obtain ⟨part, hpart⟩ := hhead
    obtain ⟨rest, hrest⟩ : part <+: body := by
      rw [← hpart] at hwire
      exact (List.prefix_append_right_inj _).1 hwire
    rw [← hrest] at hbody
    obtain ⟨frame, first, later, hfeed, -, -⟩ := feed_split hbody
    have hne : part ≠ [] := by
      intro hnil
      have hlen := congrArg List.length hpart
      rw [hnil, List.append_nil, length_handshake] at hlen
      omega
    obtain ⟨r, hcall, hends⟩ := deobfsTlsResponse_first hstage hextra hn hne hle
      ((take_received chunk d.buf.data).trans hpart.symm)
    rw [hfeed] at hends
    obtain ⟨data, hr, hdata, htake⟩ := hends
    rw [hr] at hcall
    rw [remoteRecvCb_ok hcall]
    refine forward_good ?_ ?_ ?_ (hdata.trans hlength) (Or.inr ?_) socket
    · exact h.closed
    · exact hreceiving
    · exact hsending
    refine ⟨chunk, [], part, frame, hreads, hlong, ?_, rfl, rfl, ?_⟩
    · show (d.reads ++ [chunk]).flatten = _
      rw [hreads, hpart, List.flatten_cons, List.flatten_nil, List.append_nil]
    · show _ = Except.ok (frame, d.delivered ++ _)
      rw [hdelivered, htake]
      exact hfeed
  · -- too little
    have hbyte : (chunk ++ d.buf.data.drop chunk.length).getD 0 0 = 0x16 := by
      obtain ⟨rest, hrest⟩ := hwire
      have hhead := handshake_head random sessionId n body
      rw [← hrest] at hhead
      cases chunk with
      | nil => exact absurd hpos (Nat.lt_irrefl 0)
      | cons b chunk => exact hhead
    unfold remoteRecvCb
    dsimp only
    rw [deobfsTlsResponse_short hstage hbyte hshort]
    exact Good.short ⟨rfl, rfl, rfl⟩ rfl chunk hreads hshort hdelivered

/-- A later read. -/
theorem remoteRecvCb_next (h : Open (handshake random sessionId n) n d)
    (hreceiving : d.receiving = true) (hsending : d.sending = false) {c part : List UInt8}
    {rest : List (List UInt8)} {frame : Frame} (hreads : d.reads = c :: rest)
    (hlong : 107 < c.length) (hword : d.reads.flatten = handshake random sessionId n ++ part)
    (hstage : d.obfs.deobfsStage = 1) (hextra : d.obfs.extra = some frame)
    (hfeed : feed Frame.step (missing n) part = .ok (frame, d.delivered)) {chunk : List UInt8}
    (hmax : chunk.length ≤ bufSize) (hwire : part ++ chunk <+: body) (socket : Socket) :
    Good (handshake random sessionId n) n (d.remoteRecvCb (.bytes chunk) socket) := by
  have hlength := length_received h.memory hmax
  have hle : chunk.length ≤ (chunk ++ d.buf.data.drop chunk.length).length := by omega
  obtain ⟨later, hlater⟩ := hwire
  rw [← hlater, List.append_assoc, feed_append hfeed] at hbody
  obtain ⟨next, more, hmore⟩ : ∃ next more, feed Frame.step frame chunk = .ok (next, more) := by
    cases hchunk : feed Frame.step frame chunk with
    | ok x => exact ⟨x.1, x.2, rfl⟩
    | error e =>
        rw [feed_append_error hchunk] at hbody
        cases hbody
  have hframe : frame.InRange :=
    feed_invariant (fun _ _ _ _ hs hstep => step_inRange hs hstep) (missing_inRange hn) hfeed
  obtain ⟨r, hcall, hends⟩ := deobfsTlsResponse_next hstage hextra hframe hle
  rw [take_received, hmore] at hends
  obtain ⟨data, hr, hdata, htake⟩ := hends
  rw [hr] at hcall
  rw [remoteRecvCb_ok hcall]
  refine forward_good ?_ ?_ ?_ (hdata.trans hlength) (Or.inr ?_) socket
  · exact h.closed
  · exact hreceiving
  · exact hsending
  refine ⟨c, rest ++ [chunk], part ++ chunk, next, ?_, hlong, ?_, hstage, rfl, ?_⟩
  · show d.reads ++ [chunk] = _
    rw [hreads]
    rfl
  · show (d.reads ++ [chunk]).flatten = handshake random sessionId n ++ (part ++ chunk)
    rw [List.flatten_append, hword, List.append_assoc, List.flatten_cons, List.flatten_nil,
      List.append_nil]
  · rw [feed_append hfeed, hmore, htake]
    rfl

theorem remoteRecvCb_bytes (h : Open (handshake random sessionId n) n d)
    (hreceiving : d.receiving = true) {chunk : List UInt8} (hread : readable (.bytes chunk) = true)
    {socket : Socket}
    (hwire : (d.remoteRecvCb (.bytes chunk) socket).reads.flatten <+: handshake random sessionId
    n ++ body) :
    Good (handshake random sessionId n) n (d.remoteRecvCb (.bytes chunk) socket) := by
  have hsending := h.not_sending hreceiving
  obtain ⟨hpos, hmax⟩ : 0 < chunk.length ∧ chunk.length ≤ bufSize := by
    obtain ⟨hpos, hmax⟩ := Bool.and_eq_true_iff.1 hread
    exact ⟨of_decide_eq_true hpos, of_decide_eq_true hmax⟩
  rw [remoteRecvCb_reads] at hwire
  have hstate := h.read
  rw [pending_of_not_sending hsending, List.append_nil] at hstate
  obtain ⟨hnone, hstage, hextra, hdelivered⟩ | ⟨c, rest, part, frame, hreads, hlong, hword, hstage,
      hextra, hfeed⟩ := hstate
  · rw [hnone] at hwire
    have hwire : chunk <+: handshake random sessionId n ++ body := by
      rw [List.nil_append, List.flatten_cons, List.flatten_nil, List.append_nil] at hwire
      exact hwire
    exact remoteRecvCb_first hn hbody h hreceiving hsending hnone hstage hextra hdelivered hpos hmax
      hwire socket
  · have hmore : part ++ chunk <+: body := by
      rw [List.flatten_append, hword, List.append_assoc, List.flatten_cons, List.flatten_nil,
        List.append_nil] at hwire
      exact (List.prefix_append_right_inj _).1 hwire
    exact remoteRecvCb_next hn hbody h hreceiving hsending hreads hlong hword hstage hextra hfeed
      hmax hmore socket

theorem step_good (h : Good (handshake random sessionId n) n d) {e : Event} {d' : Download}
    (hstep : d.step e = some d')
    (hwire : d'.reads.flatten <+: handshake random sessionId n ++ body) :
    Good (handshake random sessionId n) n d' := by
  obtain hopen | hstopped : Open (handshake random sessionId n) n d ∨ d.Stopped := by
    cases h with
    | opened h => exact Or.inl h
    | short hstopped => exact Or.inr hstopped
    | ended hstopped => exact Or.inr hstopped
  · obtain ⟨r, socket, -, hreceiving, hread, rfl⟩ | ⟨socket, -, hsending, rfl⟩ | ⟨-, -, rfl⟩ :=
      step_cases hstep
    · cases r with
      | closed => exact hopen.close ⟨nofun, nofun, nofun⟩ fun _ => hreceiving
      | again => exact Good.opened hopen
      | error => exact hopen.close ⟨nofun, nofun, nofun⟩ nofun
      | bytes chunk => exact remoteRecvCb_bytes hn hbody hopen hreceiving hread hwire
    · exact serverSendCb_good hopen hsending socket
    · exact hopen.close ⟨nofun, nofun, nofun⟩ nofun
  · exact (hstopped.step hstep).elim

theorem run_good {data : List UInt8} (hdata : data.length = bufSize) {len : Nat} {es : List Event}
    (hrun : Machine.run step (start data len) es = some d)
    (hwire : d.reads.flatten <+: handshake random sessionId n ++ body) :
    Good (handshake random sessionId n) n d := by
  refine Machine.run_invariant
    (P := fun d => d.reads.flatten <+: handshake random sessionId n ++ body →
    Good (handshake random sessionId n) n d) ?_ ?_ hrun hwire
  · intro d e d' h hstep hwire
    refine step_good hn hbody (h ?_) hstep hwire
    rw [step_reads hstep, List.flatten_append] at hwire
    exact (List.prefix_append _ _).trans hwire
  · exact fun _ => Good.opened ⟨rfl, hdata, rfl, nofun, Or.inl ⟨rfl, rfl, rfl, rfl⟩⟩

end Honest

/-! ## What arrives -/

theorem Good.closed_iff (h : Good head n d) :
    d.closed = some .invalidObfuscating ↔ ∃ c, d.reads.head? = some c ∧ c.length ≤ 107 := by
  cases h with
  | opened h =>
      rw [h.closed]
      refine ⟨nofun, ?_⟩
      intro ⟨c, hc, hlen⟩
      exact absurd (h.read.first c hc) (Nat.not_lt.2 hlen)
  | short _ hclosed c hread hlen _ =>
      refine ⟨fun _ => ⟨c, ?_, hlen⟩, fun _ => hclosed⟩
      rw [hread]
      rfl
  | ended _ why hclosed hwhy hfirst =>
      rw [hclosed]
      refine ⟨fun heq => absurd (Option.some.inj heq) hwhy.1, ?_⟩
      intro ⟨c, hc, hlen⟩
      exact absurd (hfirst c hc) (Nat.not_lt.2 hlen)

theorem Good.not_broken (h : Good head n d) :
    d.closed ≠ some .nothingToSend ∧ d.closed ≠ some .crashed := by
  cases h with
  | opened h =>
      rw [h.closed]
      exact ⟨nofun, nofun⟩
  | short _ hclosed =>
      rw [hclosed]
      exact ⟨nofun, nofun⟩
  | ended _ why hclosed hwhy =>
      rw [hclosed]
      exact ⟨fun heq => hwhy.2.1 (Option.some.inj heq), fun heq => hwhy.2.2 (Option.some.inj heq)⟩

/-- A connection that was not closed at its first read has handed over what it read, but for what a
broken socket or a timeout took with it. -/
theorem Good.carries (h : Good head n d) :
    (d.closed = some .invalidObfuscating ∧ d.delivered ++ d.pending = []) ∨
    ∃ lost, Carries head n d.reads.flatten (d.delivered ++ d.pending ++ lost) ∧
      (d.closed = none ∨ d.closed = some .connectionClosed → lost = []) := by
  cases h with
  | opened h =>
      refine Or.inr ⟨[], ?_, fun _ => rfl⟩
      rw [List.append_nil]
      exact h.read.carries
  | short hstopped hclosed c hread hlen hdelivered =>
      refine Or.inl ⟨hclosed, ?_⟩
      rw [hdelivered, pending_of_not_sending hstopped.2.2, List.append_nil]
  | ended hstopped why hclosed hwhy hfirst lost hcarries hall =>
      refine Or.inr ⟨lost, ?_, ?_⟩
      · rw [pending_of_not_sending hstopped.2.2, List.append_nil]
        exact hcarries
      · rw [hclosed]
        rintro (hnone | heof)
        · cases hnone
        · exact hall (Option.some.inj heof)

/-- What was handed over comes from the stream. -/
theorem Carries.le {word out total body : List UInt8} {last : Frame} (h : Carries head n word out)
    (hbody : feed Frame.step (missing n) body = .ok (last, total)) (hword : word <+: head ++ body) :
    out <+: total := by
  obtain ⟨-, hout⟩ | ⟨part, frame, hpart, hfeed⟩ := h
  · rw [hout]
    exact List.nil_prefix
  · rw [hpart] at hword
    obtain ⟨rest, hrest⟩ := (List.prefix_append_right_inj _).1 hword
    rw [← hrest] at hbody
    exact feed_out_le hfeed hbody

/-- What is complete in the bytes that were read was handed over. -/
theorem Carries.ge {word out first done : List UInt8} {frame : Frame} (h : Carries head n word out)
    (hhead : head ≠ []) (hdone : feed Frame.step (missing n) done = .ok (frame, first))
    (hword : head ++ done <+: word) : first <+: out := by
  obtain ⟨hnil, -⟩ | ⟨part, next, hpart, hfeed⟩ := h
  · rw [hnil] at hword
    exact absurd (List.append_eq_nil_iff.1 (List.prefix_nil.1 hword)).1 hhead
  · rw [hpart] at hword
    obtain ⟨rest, hrest⟩ := (List.prefix_append_right_inj _).1 hword
    rw [← hrest] at hfeed
    exact feed_out_le hdone hfeed

end Run

end Download

/-- A run of the callbacks on what a server sent: the handshake, its rest, and the beginning of both
that each number of answers takes. -/
theorem run_wire {obfs : Obfs} (hserver : obfs.obfsStage = 0) {answers : List (List UInt8 × Random)}
    (hsize : ∀ payload ∈ payloads answers, payload.length ≤ 16384) {data : List UInt8}
    (hdata : data.length = bufSize) {len : Nat} {es : List Event} {d : Download}
    (hrun : Machine.run Download.step (Download.start data len) es = some d)
    (htcp : d.reads.flatten <+: tlsResponses obfs answers) :
    ∃ head n body last, Download.Good head n d ∧ head ≠ [] ∧
      feed Frame.step (missing n) body = .ok (last, (payloads answers).flatten) ∧
        d.reads.flatten <+: head ++ body ∧
      ∀ k, payloads (answers.take k) = [] ∨
        ∃ done frame, tlsResponses obfs (answers.take k) = head ++ done ∧
        feed Frame.step (missing n) done = .ok (frame, (payloads (answers.take k)).flatten) := by
  have hne (random : Random) (sessionId : Vector UInt8 32)
      (n : Nat) : handshake random sessionId n ≠ [] := by
    intro hnil
    have hlength := length_handshake random sessionId n
    rw [hnil] at hlength
    cases hlength
  cases answers with
  | nil =>
      let random : Random := ⟨Vector.replicate 4 0, Vector.replicate 28 0, Vector.replicate 32 0⟩
      have hwire : d.reads.flatten <+: handshake random random.sessionId 0 ++ [] :=
        htcp.trans List.nil_prefix
      refine ⟨_, 0, [], missing 0, Download.run_good (Nat.zero_le _) rfl hdata hrun hwire,
        hne _ _ _, rfl, hwire, ?_⟩
      intro k
      rw [List.take_nil]
      exact Or.inl rfl
  | cons answer answers =>
      obtain ⟨first, random⟩ := answer
      have hfirst : first.length ≤ 16384 := hsize first List.mem_cons_self
      have hrest : ∀ payload ∈ payloads answers, payload.length ≤ 16384 :=
        fun payload hp => hsize payload (List.mem_cons_of_mem _ hp)
      obtain ⟨buf, hbody⟩ := feed_responses hfirst hrest
      rw [tlsResponses_first hserver] at htcp
      refine ⟨_, first.length, _, _, Download.run_good hfirst hbody hdata hrun htcp, hne _ _ _,
        hbody, htcp, ?_⟩
      intro k
      cases k with
      | zero => exact Or.inl rfl
      | succ k =>
          have htaken : ∀ payload ∈ payloads (answers.take k), payload.length ≤ 16384 := by
            intro payload hp
            unfold payloads at hp hrest
            rw [List.map_take] at hp
            exact hrest payload (List.mem_of_mem_take hp)
          obtain ⟨frame, hdone⟩ := feed_responses hfirst htaken
          exact Or.inr ⟨_, _, tlsResponses_first hserver _ _ _, hdone⟩

/-- A server disguises answers of at most 16384 bytes each, and the bytes it sends come to the
client in reads that end anywhere, in any order with the room in the socket of the client. The
connection is closed as badly disguised exactly when the first read ends within the handshake. What
is handed over and what waits is a part of what the answers carry, from its beginning; while the
connection is open, or when the server has closed it, every answer that was read completely is in
it. -/
theorem tls_download_exact {obfs : Obfs} (hserver : obfs.obfsStage = 0)
    {answers : List (List UInt8 × Random)}
    (hsize : ∀ payload ∈ payloads answers, payload.length ≤ 16384) {data : List UInt8}
    (hdata : data.length = bufSize) {len : Nat} {es : List Event} {d : Download}
    (hrun : Machine.run Download.step (Download.start data len) es = some d)
    (htcp : (received es).flatten <+: tlsResponses obfs answers) :
    (d.closed = some .invalidObfuscating ↔ ∃ c, (received es).head? = some c ∧ c.length ≤ 107) ∧
    d.closed ≠ some .nothingToSend ∧ d.closed ≠ some .crashed ∧
    d.delivered ++ d.pending <+: (payloads answers).flatten ∧
    (d.closed = none ∨ d.closed = some .connectionClosed →
      ∀ k, tlsResponses obfs (answers.take k) <+: (received es).flatten →
        (payloads (answers.take k)).flatten <+: d.delivered ++ d.pending) := by
  rw [← Download.run_reads hrun] at htcp ⊢
  obtain ⟨head, n, body, last, hgood, hhead, hbody, hword, htake⟩ :=
    run_wire hserver hsize hdata hrun htcp
  obtain ⟨hnothing, hcrashed⟩ := hgood.not_broken
  refine ⟨hgood.closed_iff, hnothing, hcrashed, ?_, ?_⟩
  · obtain ⟨-, hnone⟩ | ⟨lost, hcarries, -⟩ := hgood.carries
    · rw [hnone]
      exact List.nil_prefix
    · exact (List.prefix_append _ lost).trans (hcarries.le hbody hword)
  · intro hopen k hread
    obtain ⟨hclosed, -⟩ | ⟨lost, hcarries, hlost⟩ := hgood.carries
    · rw [hclosed] at hopen
      rcases hopen with h | h <;> cases h
    · rw [hlost hopen, List.append_nil] at hcarries
      obtain hnil | ⟨done, frame, hwire, hdone⟩ := htake k
      · rw [hnil]
        exact List.nil_prefix
      · rw [hwire] at hread
        exact hcarries.ge hhead hdone hread

/-- Two answers. -/
def sampleAnswers : List (List UInt8 × Random) :=
  let random : Random := ⟨Vector.replicate 4 0, Vector.replicate 28 0, Vector.replicate 32 0⟩
  [([1, 2, 3], random), ([4, 5], random)]

/-- The first read ends within the first answer, and the client takes one byte of it. -/
def sampleEvents : List Event :=
  [.remoteReadable (.bytes ((tlsResponses {} sampleAnswers).take 109)) (.room 1),
    .serverWritable (.room 5),
    .remoteReadable (.bytes ((tlsResponses {} sampleAnswers).drop 109)) (.room 1)]

theorem tls_download_exact_sample :
    ∃ d, Machine.run Download.step (Download.start (List.replicate bufSize 0) 0) sampleEvents =
      some d ∧
      d.closed = none ∧ d.delivered ++ d.pending <+: [1, 2, 3, 4, 5] ∧
      [1, 2, 3, 4, 5] <+: d.delivered ++ d.pending := by
  have hvalue : ((Machine.run Download.step (Download.start (List.replicate bufSize 0) 0)
      sampleEvents).map fun d => d.closed) = some none := by decide +kernel
  have hreceived : (received sampleEvents).flatten = tlsResponses {} sampleAnswers := by
    decide +kernel
  obtain ⟨d, hrun, hclosed⟩ := Option.map_eq_some_iff.1 hvalue
  have hwire : (received sampleEvents).flatten <+: tlsResponses {} sampleAnswers :=
    ⟨[], by rw [List.append_nil, hreceived]⟩
  have hall : tlsResponses {} (sampleAnswers.take 2) <+: (received sampleEvents).flatten :=
    ⟨[], by rw [List.append_nil, hreceived]; rfl⟩
  obtain ⟨-, -, -, hle, hge⟩ :=
    tls_download_exact rfl (by decide) List.length_replicate hrun hwire
  exact ⟨d, hrun, hclosed, hle, hge (Or.inl hclosed) 2 hall⟩

end CypherConnect.SimpleObfs
