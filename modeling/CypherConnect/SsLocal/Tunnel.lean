/-
  The client's half of a proxied TCP tunnel: `establish_tcp_tunnel` (`local/utils.rs`) with the copy
  loop (`tcprelay/utils.rs`) over the client's stream (`proxy_stream/client.rs`) and its encrypting
  writer. A transition is one poll of the plain stream or of the socket, or the end of the wait for
  a first packet.

  * `run_taken`: what the tunnel read are the bytes of the reads, in order.
  * `inv_step`: what is framed is always the target address and the bytes that were read, in order,
    each once.
  * `tunnel_delivers`: with a decrypting reader at the other end, in any interleaving, the reader
    hands out the beginning of the address and of what was read, and all of it if both ends came to
    their end.
-/
import CypherConnect.SsLocal.AeadWriter

namespace CypherConnect.SsLocal

open SealedFrames Machine

inductive ProxyClientStreamWriteState where
  | connect (addr : Address)
  | connecting (buffer : List UInt8)
  | connected
  deriving DecidableEq, Repr

/-- The writing half. -/
structure ProxyClientStream where
  enc : EncryptedWriter
  writerState : ProxyClientStreamWriteState
  deriving DecidableEq, Repr

namespace ProxyClientStream

/-- `make_first_packet_buffer`; `none` is the panic over a name that is too long. -/
def makeFirstPacketBuffer (addr : Address) (buf : List UInt8) : Option (List UInt8) :=
  addr.writeToBuf.map (· ++ buf)

/-- A turn in the `Connecting` state. -/
def connectingTurn (S : Sealing) (this : ProxyClientStream) (buffer buf : List UInt8)
    (outcome : PollWrite) :
    ProxyClientStream × WriteResult :=
  match this.enc.pollWriteEncrypted S buffer outcome with
  | (enc, .done _) => (⟨enc, .connected⟩, .done buf.length)
  | (enc, result) => (⟨enc, .connecting buffer⟩, result)

/-- A turn of `poll_write`. -/
def pollWrite (S : Sealing) (this : ProxyClientStream) (buf : List UInt8) (outcome : PollWrite) :
    ProxyClientStream × WriteResult :=
  match this.writerState with
  | .connect addr =>
      match makeFirstPacketBuffer addr buf with
      | none => (this, .panic)
      | some buffer => this.connectingTurn S buffer buf outcome
  | .connecting buffer => this.connectingTurn S buffer buf outcome
  | .connected =>
      let (enc, result) := this.enc.pollWriteEncrypted S buf outcome
      (⟨enc, .connected⟩, result)

/-- What the encrypting writer is called with, if it is called. -/
def packet (this : ProxyClientStream) (buf : List UInt8) : Option (List UInt8) :=
  match this.writerState with
  | .connect addr => makeFirstPacketBuffer addr buf
  | .connecting buffer => some buffer
  | .connected => some buf

/-- What the socket is offered in a turn. -/
def offered (S : Sealing) (this : ProxyClientStream) (buf : List UInt8) : List UInt8 :=
  match this.packet buf with
  | none => []
  | some packet => (this.enc.assembled S (packet.take maxPacketSize)).unsent

end ProxyClientStream

/-- `CopyBuffer`; `buf` is its filled part, so that `cap` is its length. -/
structure CopyBuffer where
  readDone : Bool
  pos : Nat
  amt : Nat
  buf : List UInt8
  deriving DecidableEq, Repr

def CopyBuffer.new : CopyBuffer := ⟨false, 0, 0, []⟩

/-- `plain_read_buffer_size` for these ciphers. -/
def plainReadBufferSize : Nat := maxPacketSize

/-- Where `establish_tcp_tunnel` stands. -/
inductive TunnelPhase where
  /-- `plain.read(&mut buffer)` for at most 500 ms -/
  | first
  /-- `shadow.write_all` -/
  | writeAll (buf : List UInt8)
  /-- `shadow.write(&[])` -/
  | handshake
  /-- `TransferState::Running` -/
  | running (buf : CopyBuffer)
  | shuttingDown (count : Nat)
  | done (count : Nat)
  /-- the client closed before it sent a byte -/
  | closed
  | failed (kind : ErrorKind)
  | panicked
  deriving DecidableEq, Repr

/-- The tunnel with what it read from the client and what the socket took. -/
structure Upload where
  phase : TunnelPhase
  stream : ProxyClientStream
  taken : List UInt8
  wire : List UInt8
  deriving DecidableEq, Repr

/-- One poll of an operation without a result. -/
inductive PollUnit where
  | pending
  | failed (kind : ErrorKind)
  | ready
  deriving DecidableEq, Repr

inductive UploadEvent where
  | read (outcome : PollRead)
  | timeout
  | write (outcome : PollWrite)
  | flush (outcome : PollUnit)
  | shutdown (outcome : PollUnit)
  /-- the other direction fails -/
  | aborted (kind : ErrorKind)
  deriving DecidableEq, Repr

namespace Upload

def start (salt : List UInt8) (addr : Address) : Upload :=
  ⟨.first, ⟨.new salt, .connect addr⟩, [], []⟩

/-- The first read of `establish_tcp_tunnel`. -/
def firstRead (s : Upload) : PollRead → Upload
  | .pending => s
  | .failed kind => { s with phase := .failed kind }
  | .ready [] => { s with phase := .closed }
  | .ready (b :: bs) => { s with phase := .writeAll (b :: bs), taken := s.taken ++ b :: bs }

/-- A read of the copy loop. -/
def copyRead (s : Upload) (copy : CopyBuffer) : PollRead → Upload
  | .pending => s
  | .failed kind => { s with phase := .failed kind }
  | .ready [] => { s with phase := .running { copy with readDone := true } }
  | .ready (b :: bs) =>
      { s with
        phase := .running { copy with pos := 0, buf := b :: bs }
        taken := s.taken ++ b :: bs }

/-- The phase after a write of `n` bytes returned. -/
def afterWrite (n : Nat) : TunnelPhase → TunnelPhase
  | .writeAll buf =>
      if n = 0 then .failed .writeZero
      else if buf.drop n = [] then .running .new else .writeAll (buf.drop n)
  | .handshake => .running .new
  | .running copy =>
      if n = 0 then .failed .writeZero
      else .running { copy with pos := copy.pos + n, amt := copy.amt + n }
  | phase => phase

/-- The slice that a write is called with. -/
def slice : TunnelPhase → Option (List UInt8)
  | .writeAll buf => some buf
  | .handshake => some []
  | .running copy => if copy.pos < copy.buf.length then some (copy.buf.drop copy.pos) else none
  | _ => none

/-- The phase after a turn of the write. -/
def afterTurn (phase : TunnelPhase) : WriteResult → TunnelPhase
  | .pending => phase
  | .again => phase
  | .failed kind => .failed kind
  | .panic => .panicked
  | .done n => afterWrite n phase

def step (S : Sealing) (s : Upload) : UploadEvent → Option Upload
  | .read outcome =>
      match s.phase with
      | .first => if outcome.bytes.length ≤ 8192 then some (s.firstRead outcome) else none
      | .running copy =>
          if copy.pos = copy.buf.length ∧ copy.readDone = false ∧
            outcome.bytes.length ≤ plainReadBufferSize then
            some (s.copyRead copy outcome)
          else none
      | _ => none
  | .timeout => if s.phase = .first then some { s with phase := .handshake } else none
  | .write outcome =>
      match slice s.phase with
      | none => none
      | some buf =>
          if outcome.taken ≤ (s.stream.offered S buf).length then
            let (stream, result) := s.stream.pollWrite S buf outcome
            some { s with
              stream
              phase := afterTurn s.phase result
              wire := s.wire ++ (s.stream.offered S buf).take outcome.taken }
          else none
  | .flush outcome =>
      match s.phase with
      | .running copy =>
          if copy.pos = copy.buf.length ∧ copy.readDone = true then
            match outcome with
            | .pending => some s
            | .failed kind => some { s with phase := .failed kind }
            | .ready => some { s with phase := .shuttingDown copy.amt }
          else none
      | _ => none
  | .shutdown outcome =>
      match s.phase with
      | .shuttingDown count =>
          match outcome with
          | .pending => some s
          | .failed kind => some { s with phase := .failed kind }
          | .ready => some { s with phase := .done count }
      | _ => none
  | .aborted kind =>
      match s.phase with
      | .running _ => some { s with phase := .failed kind }
      | .shuttingDown _ => some { s with phase := .failed kind }
      | _ => none

/-! ## What was read -/

/-- The bytes that an event brings from the client. -/
def broughtBy : UploadEvent → List UInt8
  | .read outcome => outcome.bytes
  | _ => []

theorem firstRead_taken (s : Upload) (outcome : PollRead) :
    (s.firstRead outcome).taken = s.taken ++ outcome.bytes := by
  cases outcome with
  | pending => exact (List.append_nil _).symm
  | failed kind => exact (List.append_nil _).symm
  | ready bs =>
      cases bs with
      | nil => exact (List.append_nil _).symm
      | cons b bs => rfl

theorem copyRead_taken (s : Upload) (copy : CopyBuffer) (outcome : PollRead) :
    (s.copyRead copy outcome).taken = s.taken ++ outcome.bytes := by
  cases outcome with
  | pending => exact (List.append_nil _).symm
  | failed kind => exact (List.append_nil _).symm
  | ready bs =>
      cases bs with
      | nil => exact (List.append_nil _).symm
      | cons b bs => rfl

theorem step_taken {S : Sealing} {s t : Upload} {event : UploadEvent}
    (h : step S s event = some t) : t.taken = s.taken ++ broughtBy event := by
  cases event with
  | read outcome =>
      simp only [step] at h
      split at h
      · split at h <;> cases h
        exact s.firstRead_taken outcome
      · split at h <;> cases h
        exact s.copyRead_taken _ outcome
      · cases h
  | timeout =>
      simp only [step] at h
      split at h <;> cases h
      exact (List.append_nil _).symm
  | write outcome =>
      simp only [step] at h
      split at h
      · cases h
      · split at h <;> cases h
        exact (List.append_nil _).symm
  | flush outcome =>
      simp only [step] at h
      split at h
      · split at h
        · cases outcome <;> cases h <;> exact (List.append_nil _).symm
        · cases h
      · cases h
  | shutdown outcome =>
      simp only [step] at h
      split at h
      · cases outcome <;> cases h <;> exact (List.append_nil _).symm
      · cases h
  | aborted kind =>
      simp only [step] at h
      split at h <;> cases h <;> exact (List.append_nil _).symm

/-- `taken` is what the reads brought, in their order. -/
theorem run_taken {S : Sealing} {salt : List UInt8} {address : Address}
    {events : List UploadEvent} {t : Upload}
    (hrun : run (step S) (start salt address) events = some t) :
    t.taken = events.flatMap broughtBy := by
  refine run_history (P := fun past s => s.taken = past.flatMap broughtBy) ?_ rfl hrun
  intro past s event s' hpast hstep
  rw [step_taken hstep, hpast, List.flatMap_append, List.flatMap_singleton]

/-! ## One transition -/

/-- A phase whose write opens the stream with the bytes `buf`. -/
def Opening (phase : TunnelPhase) (buf : List UInt8) : Prop :=
  (phase = .writeAll buf ∧ buf ≠ [] ∧ buf.length ≤ 8192) ∨ (phase = .handshake ∧ buf = [])

/-- Where a tunnel stands, with the packets that were framed: `bytes` is the target address. -/
inductive Stands (address : Address) (bytes : List UInt8) : List (List UInt8) → TunnelPhase →
    ProxyClientStreamWriteState → EncryptWriteState → List UInt8 → Prop
  | first : Stands address bytes [] .first (.connect address) .assemblePacket []
  | opening {phase : TunnelPhase} {buf : List UInt8} (hopen : Opening phase buf) :
      Stands address bytes [] phase (.connect address) .assemblePacket buf
  | connecting {phase : TunnelPhase} {buf : List UInt8} {pos : Nat} (hopen : Opening phase buf) :
      Stands address bytes [bytes ++ buf] phase (.connecting (bytes ++ buf)) (.writing pos) buf
  | copied {payloads : List (List UInt8)} {copy : CopyBuffer} {taken : List UInt8}
      (hpos : copy.pos = copy.buf.length) (hne : payloads ≠ [])
      (hflat : payloads.flatten = bytes ++ taken) :
      Stands address bytes payloads (.running copy) .connected .assemblePacket taken
  | copying {payloads : List (List UInt8)} {copy : CopyBuffer} {taken : List UInt8}
      (hpos : copy.pos = 0) (hbuf : copy.buf ≠ []) (hmax : copy.buf.length ≤ maxPacketSize)
      (hflat : payloads.flatten ++ copy.buf = bytes ++ taken) :
      Stands address bytes payloads (.running copy) .connected .assemblePacket taken
  | sending {payloads : List (List UInt8)} {copy : CopyBuffer} {taken : List UInt8} {pos : Nat}
      (hpos : copy.pos = 0) (hbuf : copy.buf ≠ []) (hmax : copy.buf.length ≤ maxPacketSize)
      (hne : payloads ≠ []) (hflat : payloads.flatten = bytes ++ taken) :
      Stands address bytes payloads (.running copy) .connected (.writing pos) taken
  | sent {payloads : List (List UInt8)} {phase : TunnelPhase} {taken : List UInt8} {count : Nat}
      (hphase : phase = .shuttingDown count ∨ phase = .done count) (hne : payloads ≠ [])
      (hflat : payloads.flatten = bytes ++ taken) :
      Stands address bytes payloads phase .connected .assemblePacket taken
  | stopped {payloads : List (List UInt8)} {phase : TunnelPhase} {taken : List UInt8}
      {writerState : ProxyClientStreamWriteState} {state : EncryptWriteState}
      (hphase : phase = .closed ∨ ∃ kind, phase = .failed kind)
      (hpre : payloads.flatten <+: bytes ++ taken) :
      Stands address bytes payloads phase writerState state taken

/-- The packets that were framed account for the wire and for what was read. -/
def Inv (S : Sealing) (salt : List UInt8) (address : Address) (bytes : List UInt8) (s : Upload) :
    Prop :=
  ∃ payloads, s.stream.enc.Sends S salt s.wire payloads ∧
    Stands address bytes payloads s.phase s.stream.writerState s.stream.enc.state s.taken

section

variable {S : Sealing} {salt bytes buf taken : List UInt8} {address : Address}
  {payloads : List (List UInt8)}

theorem Opening.slice {phase : TunnelPhase} (h : Opening phase buf) :
    Upload.slice phase = some buf := by
  rcases h with ⟨rfl, -, -⟩ | ⟨rfl, rfl⟩ <;> rfl

theorem Opening.length_le {phase : TunnelPhase} (h : Opening phase buf) : buf.length ≤ 8192 := by
  rcases h with ⟨-, -, h⟩ | ⟨-, rfl⟩
  · exact h
  · exact Nat.zero_le _

theorem Opening.afterWrite {phase : TunnelPhase} (h : Opening phase buf) :
    Upload.afterWrite buf.length phase = .running .new := by
  rcases h with ⟨rfl, hne, -⟩ | ⟨rfl, rfl⟩
  · have hlen : buf.length ≠ 0 := fun h => hne (List.eq_nil_of_length_eq_zero h)
    simp only [Upload.afterWrite, if_neg hlen, List.drop_length, if_true]
  · rfl

theorem length_le_of_writeToBuf (h : address.writeToBuf = some bytes) : bytes.length ≤ 259 := by
  rw [Address.length_writeToBuf h]
  match address with
  | .socketAddress (.v4 ip port) => exact Nat.le_of_ble_eq_true rfl
  | .socketAddress (.v6 ip port flowinfo scopeId) => exact Nat.le_of_ble_eq_true rfl
  | .domainNameAddress name port =>
      change Address.writeDomainNameAddress (Utf8.encode name) port = some bytes at h
      unfold Address.writeDomainNameAddress at h
      split at h
      case isTrue hle =>
        simp only [Address.serializedLen]
        omega
      case isFalse => cases h

theorem Stands.flatten_prefix {phase : TunnelPhase} {writerState : ProxyClientStreamWriteState}
    {state : EncryptWriteState} (h : Stands address bytes payloads phase writerState state taken) :
    payloads.flatten <+: bytes ++ taken := by
  cases h with
  | first => exact List.nil_prefix
  | opening => exact List.nil_prefix
  | connecting =>
      show [bytes ++ taken].flatten <+: bytes ++ taken
      exact ⟨[], by simp⟩
  | copied _ _ hflat => exact hflat ▸ List.prefix_rfl
  | copying _ _ _ hflat =>
      rw [← hflat]
      exact List.prefix_append _ _
  | sending _ _ _ _ hflat => exact hflat ▸ List.prefix_rfl
  | sent _ _ hflat => exact hflat ▸ List.prefix_rfl
  | stopped _ hpre => exact hpre

/-- The phase after a turn that does not finish the write. -/
theorem stands_unfinished {phase : TunnelPhase} {writerState : ProxyClientStreamWriteState}
    {pos : Nat} {result : WriteResult}
    (hstands : Stands address bytes payloads phase writerState (.writing pos) taken)
    (hpanic : result ≠ .panic) (hdone : ∀ n, result ≠ .done n) :
    Stands address bytes payloads (afterTurn phase result) writerState (.writing pos) taken := by
  cases result with
  | pending => exact hstands
  | again => exact hstands
  | failed kind => exact .stopped (.inr ⟨kind, rfl⟩) hstands.flatten_prefix
  | panic => exact absurd rfl hpanic
  | done n => exact absurd rfl (hdone n)

variable {wire : List UInt8} {phase : TunnelPhase} {outcome : PollWrite}
  {this next : ProxyClientStream} {result : WriteResult}

/-- The write that opens the stream, at its first turn or at a later one. -/
theorem connectingTurn_stands (hsends : this.enc.Sends S salt wire payloads)
    (hpackets : this.enc.packets payloads (bytes ++ buf) = [bytes ++ buf])
    (hlen : (bytes ++ buf).length ≤ maxPacketSize) (hopen : Opening phase buf)
    (hfits : outcome.taken ≤
    (this.enc.assembled S ((bytes ++ buf).take maxPacketSize)).unsent.length)
    (hturn : this.connectingTurn S (bytes ++ buf) buf outcome = (next, result)) :
    next.enc.Sends S salt
        (wire ++ (this.enc.assembled S ((bytes ++ buf).take maxPacketSize)).unsent.take
          outcome.taken)
        [bytes ++ buf] ∧
      Stands address bytes [bytes ++ buf] (afterTurn phase result) next.writerState next.enc.state
        buf := by
  cases hpoll : this.enc.pollWriteEncrypted S (bytes ++ buf) outcome with
  | mk enc r =>
      obtain ⟨hnext, hpanic, hdone, hwriting⟩ :=
        EncryptedWriter.pollWriteEncrypted_sends hsends hfits hpoll
      rw [List.take_of_length_le hlen, hpackets] at hnext
      rw [List.take_of_length_le hlen]
      by_cases hfinished : ∃ n, r = .done n
      · obtain ⟨n, rfl⟩ := hfinished
        simp only [ProxyClientStream.connectingTurn, hpoll] at hturn
        obtain ⟨rfl, rfl⟩ := Prod.mk.inj hturn
        obtain ⟨-, hstate, -⟩ := hdone n rfl
        refine ⟨hnext, ?_⟩
        simp only [afterTurn, hopen.afterWrite, hstate]
        exact .copied rfl (List.cons_ne_nil _ _) List.flatten_singleton
      · have hno : ∀ n, r ≠ .done n := fun n hn => hfinished ⟨n, hn⟩
        obtain ⟨pos, hpos⟩ := hwriting hno
        have hsame : this.connectingTurn S (bytes ++ buf) buf outcome =
            (⟨enc, .connecting (bytes ++ buf)⟩, r) := by
          unfold ProxyClientStream.connectingTurn
          rw [hpoll]
          cases r with
          | done n => exact absurd rfl (hno n)
          | pending => rfl
          | again => rfl
          | failed kind => rfl
          | panic => rfl
        rw [hsame] at hturn
        obtain ⟨rfl, rfl⟩ := Prod.mk.inj hturn
        refine ⟨hnext, ?_⟩
        rw [hpos]
        exact stands_unfinished (.connecting hopen) hpanic hno

/-- The copy loop writes its whole buffer. -/
theorem slice_running {copy : CopyBuffer} (hpos : copy.pos = 0) (hbuf : copy.buf ≠ []) :
    slice (.running copy) = some copy.buf := by
  have hlen : 0 < copy.buf.length := List.length_pos_iff.mpr hbuf
  simp only [slice, hpos, if_pos hlen, List.drop_zero]

/-- A write of the copy loop, at its first turn or at a later one. -/
theorem copyTurn_stands {copy : CopyBuffer} (hconnected : this.writerState = .connected)
    (hsends : this.enc.Sends S salt wire payloads) (hpos : copy.pos = 0) (hbuf : copy.buf ≠ [])
    (hmax : copy.buf.length ≤ maxPacketSize) (hne : this.enc.packets payloads copy.buf ≠ [])
    (hflat : (this.enc.packets payloads copy.buf).flatten = bytes ++ taken)
    (hfits : outcome.taken ≤ (this.enc.assembled S (copy.buf.take maxPacketSize)).unsent.length)
    (hturn : this.pollWrite S copy.buf outcome = (next, result)) :
    next.enc.Sends S salt
      (wire ++ (this.enc.assembled S (copy.buf.take maxPacketSize)).unsent.take outcome.taken)
        (this.enc.packets payloads copy.buf) ∧
      Stands address bytes (this.enc.packets payloads copy.buf) (afterTurn (.running copy) result)
        next.writerState next.enc.state taken := by
  cases hpoll : this.enc.pollWriteEncrypted S copy.buf outcome with
  | mk enc r =>
      obtain ⟨hnext, hpanic, hdone, hwriting⟩ :=
        EncryptedWriter.pollWriteEncrypted_sends hsends hfits hpoll
      simp only [ProxyClientStream.pollWrite, hconnected, hpoll] at hturn
      obtain ⟨rfl, rfl⟩ := Prod.mk.inj hturn
      rw [List.take_of_length_le hmax] at hnext hdone ⊢
      refine ⟨hnext, ?_⟩
      by_cases hfinished : ∃ n, r = .done n
      · obtain ⟨n, rfl⟩ := hfinished
        obtain ⟨rfl, hstate, -⟩ := hdone n rfl
        have hlen : copy.buf.length ≠ 0 := fun h => hbuf (List.eq_nil_of_length_eq_zero h)
        simp only [afterTurn, afterWrite, if_neg hlen, hstate]
        exact .copied (by rw [hpos, Nat.zero_add]) hne hflat
      · have hno : ∀ n, r ≠ .done n := fun n hn => hfinished ⟨n, hn⟩
        obtain ⟨pos, hpos'⟩ := hwriting hno
        rw [hpos']
        exact stands_unfinished (.sending hpos hbuf hmax hne hflat) hpanic hno

/-- A poll of the socket keeps the invariant. -/
theorem write_inv {s t : Upload} (hbytes : address.writeToBuf = some bytes)
    (hs : Inv S salt address bytes s)
    (h : step S s (.write outcome) = some t) : Inv S salt address bytes t := by
  obtain ⟨phase, ⟨enc, writerState⟩, taken, wire⟩ := s
  obtain ⟨payloads, hsends, hstands⟩ := hs
  dsimp only at hsends hstands
  simp only [step] at h
  split at h
  case h_1 => cases h
  case h_2 buf hslice =>
    split at h
    case isFalse => cases h
    case isTrue hfits =>
      cases h
      have hshort {buf : List UInt8} {phase : TunnelPhase} (hopen : Opening phase buf) :
          (bytes ++ buf).length ≤ maxPacketSize := by
        have hle := hopen.length_le
        have haddress := length_le_of_writeToBuf hbytes
        rw [List.length_append]
        unfold maxPacketSize
        omega
      generalize hstate : enc.state = state at hstands
      cases hstands with
      | first => cases hslice
      | opening hopen =>
          obtain rfl := Option.some.inj (hopen.slice.symm.trans hslice)
          have hpacket : ProxyClientStream.makeFirstPacketBuffer address taken =
              some (bytes ++ taken) := by
            unfold ProxyClientStream.makeFirstPacketBuffer
            rw [hbytes]
            rfl
          have hoffered : ProxyClientStream.offered S ⟨enc, .connect address⟩ taken =
              (enc.assembled S ((bytes ++ taken).take maxPacketSize)).unsent := by
            simp only [ProxyClientStream.offered, ProxyClientStream.packet, hpacket]
          rw [hoffered] at hfits
          refine ⟨[bytes ++ taken], ?_⟩
          rw [hoffered]
          have hpackets : enc.packets [] (bytes ++ taken) = [bytes ++ taken] := by
            simp only [EncryptedWriter.packets, hstate, List.nil_append]
          have hturn : ProxyClientStream.connectingTurn S ⟨enc, .connect address⟩
              (bytes ++ taken) taken outcome =
              ProxyClientStream.pollWrite S ⟨enc, .connect address⟩ taken outcome := by
            simp only [ProxyClientStream.pollWrite, hpacket]
          exact connectingTurn_stands hsends hpackets (hshort hopen) hopen hfits
            (hturn.trans Prod.mk.eta.symm)
      | connecting hopen =>
          obtain rfl := Option.some.inj (hopen.slice.symm.trans hslice)
          refine ⟨[bytes ++ taken], ?_⟩
          refine connectingTurn_stands hsends ?_ (hshort hopen) hopen hfits rfl
          simp only [EncryptedWriter.packets, hstate]
      | @copied payloads copy taken hpos =>
          simp only [slice, if_neg (show ¬ copy.pos < copy.buf.length by omega)] at hslice
          cases hslice
      | @copying payloads copy taken hpos hbuf hmax hflat =>
          obtain rfl := Option.some.inj ((slice_running hpos hbuf).symm.trans hslice)
          have hpackets : enc.packets payloads copy.buf = payloads ++ [copy.buf] := by
            simp only [EncryptedWriter.packets, hstate]
          refine ⟨enc.packets payloads copy.buf, ?_⟩
          refine copyTurn_stands rfl hsends hpos hbuf hmax ?_ ?_ hfits rfl
          · rw [hpackets]
            exact List.append_ne_nil_of_right_ne_nil _ (List.cons_ne_nil _ _)
          · rw [hpackets, List.flatten_append, List.flatten_singleton, hflat]
      | @sending payloads copy taken pos hpos hbuf hmax hne hflat =>
          obtain rfl := Option.some.inj ((slice_running hpos hbuf).symm.trans hslice)
          have hpackets : enc.packets payloads copy.buf = payloads := by
            simp only [EncryptedWriter.packets, hstate]
          refine ⟨enc.packets payloads copy.buf, ?_⟩
          refine copyTurn_stands rfl hsends hpos hbuf hmax ?_ ?_ hfits rfl
          · rw [hpackets]
            exact hne
          · rw [hpackets]
            exact hflat
      | sent hphase =>
          rcases hphase with rfl | rfl <;> cases hslice
      | stopped hphase =>
          rcases hphase with rfl | ⟨kind, rfl⟩ <;> cases hslice

/-! Where a tunnel stands in the phases that do not write. -/

theorem Stands.of_first {writerState : ProxyClientStreamWriteState} {state : EncryptWriteState}
    (h : Stands address bytes payloads .first writerState state taken) :
    payloads = [] ∧ writerState = .connect address ∧ state = .assemblePacket ∧ taken = [] := by
  generalize hphase : TunnelPhase.first = phase at h
  cases h with
  | first => exact ⟨rfl, rfl, rfl, rfl⟩
  | opening hopen => rcases hopen with ⟨rfl, -⟩ | ⟨rfl, -⟩ <;> cases hphase
  | connecting hopen => rcases hopen with ⟨rfl, -⟩ | ⟨rfl, -⟩ <;> cases hphase
  | copied => cases hphase
  | copying => cases hphase
  | sending => cases hphase
  | sent h => rcases h with rfl | rfl <;> cases hphase
  | stopped h => rcases h with rfl | ⟨kind, rfl⟩ <;> cases hphase

/-- All that was read is framed, and nothing is being written. -/
structure Settled (bytes : List UInt8) (payloads : List (List UInt8))
    (writerState : ProxyClientStreamWriteState) (state : EncryptWriteState)
    (taken : List UInt8) : Prop where
  connected : writerState = .connected
  idle : state = .assemblePacket
  some_packet : payloads ≠ []
  framed : payloads.flatten = bytes ++ taken

theorem Stands.of_copied {copy : CopyBuffer} {writerState : ProxyClientStreamWriteState}
    {state : EncryptWriteState}
    (h : Stands address bytes payloads (.running copy) writerState state taken)
    (hpos : copy.pos = copy.buf.length) : Settled bytes payloads writerState state taken := by
  generalize hphase : TunnelPhase.running copy = phase at h
  have hempty {copy' : CopyBuffer} (hrunning : TunnelPhase.running copy = .running copy')
      (hzero : copy'.pos = 0) :
      copy'.buf = [] := by
    cases hrunning
    exact List.eq_nil_of_length_eq_zero (hpos.symm.trans hzero)
  cases h with
  | first => cases hphase
  | opening hopen => rcases hopen with ⟨rfl, -⟩ | ⟨rfl, -⟩ <;> cases hphase
  | connecting hopen => rcases hopen with ⟨rfl, -⟩ | ⟨rfl, -⟩ <;> cases hphase
  | copied _ hne hflat => exact ⟨rfl, rfl, hne, hflat⟩
  | copying hzero hbuf => exact absurd (hempty hphase hzero) hbuf
  | sending hzero hbuf => exact absurd (hempty hphase hzero) hbuf
  | sent h => rcases h with rfl | rfl <;> cases hphase
  | stopped h => rcases h with rfl | ⟨kind, rfl⟩ <;> cases hphase

theorem Stands.of_sent {phase : TunnelPhase} {count : Nat}
    {writerState : ProxyClientStreamWriteState} {state : EncryptWriteState}
    (h : Stands address bytes payloads phase writerState state taken)
    (hphase : phase = .shuttingDown count ∨ phase = .done count) :
    Settled bytes payloads writerState state taken := by
  cases h with
  | first => rcases hphase with h | h <;> cases h
  | opening hopen => rcases hopen with ⟨rfl, -⟩ | ⟨rfl, -⟩ <;> rcases hphase with h | h <;> cases h
  | connecting hopen =>
      rcases hopen with ⟨rfl, -⟩ | ⟨rfl, -⟩ <;> rcases hphase with h | h <;> cases h
  | copied => rcases hphase with h | h <;> cases h
  | copying => rcases hphase with h | h <;> cases h
  | sending => rcases hphase with h | h <;> cases h
  | sent _ hne hflat => exact ⟨rfl, rfl, hne, hflat⟩
  | stopped h => rcases h with rfl | ⟨kind, rfl⟩ <;> rcases hphase with h | h <;> cases h

theorem Settled.stands {phase : TunnelPhase} {count : Nat}
    {writerState : ProxyClientStreamWriteState} {state : EncryptWriteState}
    (h : Settled bytes payloads writerState state taken)
    (hphase : phase = .shuttingDown count ∨ phase = .done count) :
    Stands address bytes payloads phase writerState state taken := by
  obtain ⟨rfl, rfl, hne, hflat⟩ := h
  exact .sent hphase hne hflat

/-- A read, in the first phase or in the copy loop, keeps the invariant. -/
theorem read_inv {s t : Upload} {outcome : PollRead} (hs : Inv S salt address bytes s)
    (h : step S s (.read outcome) = some t) : Inv S salt address bytes t := by
  obtain ⟨phase, ⟨enc, writerState⟩, taken, wire⟩ := s
  obtain ⟨payloads, hsends, hstands⟩ := hs
  dsimp only at hsends hstands
  have hstopped {phase' : TunnelPhase} (hphase : phase' = .closed ∨ ∃ kind, phase' = .failed kind) :
      Inv S salt address bytes ⟨phase', ⟨enc, writerState⟩, taken, wire⟩ :=
    ⟨payloads, hsends, .stopped hphase hstands.flatten_prefix⟩
  simp only [step] at h
  split at h
  case h_1 =>
    split at h
    case isFalse => cases h
    case isTrue hle =>
      cases h
      obtain ⟨rfl, rfl, hstate, rfl⟩ := hstands.of_first
      match outcome with
      | .pending => exact ⟨[], hsends, hstands⟩
      | .failed kind => exact hstopped (.inr ⟨kind, rfl⟩)
      | .ready [] => exact hstopped (.inl rfl)
      | .ready (b :: bs) =>
          refine ⟨[], hsends, ?_⟩
          dsimp only [firstRead]
          rw [hstate]
          exact .opening (.inl ⟨rfl, List.cons_ne_nil _ _, hle⟩)
  case h_2 copy =>
    split at h
    case isFalse => cases h
    case isTrue hguard =>
      cases h
      obtain ⟨hpos, -, hle⟩ := hguard
      obtain ⟨rfl, hstate, hne, hflat⟩ := hstands.of_copied hpos
      match outcome with
      | .pending => exact ⟨payloads, hsends, hstands⟩
      | .failed kind => exact hstopped (.inr ⟨kind, rfl⟩)
      | .ready [] =>
          refine ⟨payloads, hsends, ?_⟩
          dsimp only [copyRead]
          rw [hstate]
          exact .copied hpos hne hflat
      | .ready (b :: bs) =>
          refine ⟨payloads, hsends, ?_⟩
          dsimp only [copyRead]
          rw [hstate]
          refine .copying rfl (List.cons_ne_nil _ _) hle ?_
          rw [hflat, List.append_assoc]
  case h_3 => cases h

/-- Every transition keeps the invariant. -/
theorem inv_step {s t : Upload} {event : UploadEvent} (hbytes : address.writeToBuf = some bytes)
    (hs : Inv S salt address bytes s) (h : step S s event = some t) :
    Inv S salt address bytes t := by
  have hfailed (kind : ErrorKind) : Inv S salt address bytes { s with phase := .failed kind } := by
    obtain ⟨payloads, hsends, hstands⟩ := hs
    exact ⟨payloads, hsends, .stopped (.inr ⟨kind, rfl⟩) hstands.flatten_prefix⟩
  cases event with
  | read outcome => exact read_inv hs h
  | write outcome => exact write_inv hbytes hs h
  | timeout =>
      simp only [step] at h
      split at h
      case isFalse => cases h
      case isTrue hfirst =>
        obtain ⟨payloads, hsends, hstands⟩ := hs
        rw [hfirst] at hstands
        obtain ⟨rfl, hconnect, hstate, htaken⟩ := hstands.of_first
        cases h
        refine ⟨[], hsends, ?_⟩
        dsimp only
        rw [hconnect, hstate, htaken]
        exact .opening (.inr ⟨rfl, rfl⟩)
  | flush outcome =>
      simp only [step] at h
      split at h
      case h_2 => cases h
      case h_1 copy hphase =>
        split at h
        case isFalse => cases h
        case isTrue hguard =>
          cases outcome with
          | pending => exact Option.some.inj h ▸ hs
          | failed kind => exact Option.some.inj h ▸ hfailed kind
          | ready =>
              cases h
              obtain ⟨payloads, hsends, hstands⟩ := hs
              rw [hphase] at hstands
              exact ⟨payloads, hsends, (hstands.of_copied hguard.1).stands (.inl rfl)⟩
  | shutdown outcome =>
      simp only [step] at h
      split at h
      case h_2 => cases h
      case h_1 count hphase =>
        cases outcome with
        | pending => exact Option.some.inj h ▸ hs
        | failed kind => exact Option.some.inj h ▸ hfailed kind
        | ready =>
            cases h
            obtain ⟨payloads, hsends, hstands⟩ := hs
            exact ⟨payloads, hsends, (hstands.of_sent (.inl hphase)).stands (.inr rfl)⟩
  | aborted kind =>
      simp only [step] at h
      split at h
      case h_1 => exact Option.some.inj h ▸ hfailed kind
      case h_2 => exact Option.some.inj h ▸ hfailed kind
      case h_3 => cases h

theorem inv_run {events : List UploadEvent} {t : Upload} (hsalt : salt.length = S.saltLen)
    (hbytes : address.writeToBuf = some bytes)
    (hrun : run (step S) (start salt address) events = some t) :
    Inv S salt address bytes t :=
  run_invariant (fun _ _ _ hs hstep => inv_step hbytes hs hstep)
    ⟨[], EncryptedWriter.sends_new hsalt, .first⟩ hrun

/-- Once the tunnel has shut its side down, the socket took all of the frames. -/
theorem wire_of_settled {s : Upload} (hsends : s.stream.enc.Sends S salt s.wire payloads)
    (hsettled : Settled bytes payloads s.stream.writerState s.stream.enc.state s.taken) :
    s.wire = S.stream salt payloads := by
  have hstream := hsends.stream
  unfold EncryptedWriter.unsent at hstream
  rw [hsettled.idle] at hstream
  dsimp only at hstream
  rw [hsends.idle hsettled.idle hsettled.some_packet, List.append_nil] at hstream
  exact hstream

theorem not_panicked {s : Upload} (h : Inv S salt address bytes s) : s.phase ≠ .panicked := by
  obtain ⟨payloads, -, hstands⟩ := h
  generalize s.phase = phase, s.stream.writerState = writerState, s.stream.enc.state = state,
      s.taken = taken
    at hstands
  intro hphase
  cases hstands with
  | first => cases hphase
  | opening hopen => rcases hopen with ⟨rfl, -⟩ | ⟨rfl, -⟩ <;> cases hphase
  | connecting hopen => rcases hopen with ⟨rfl, -⟩ | ⟨rfl, -⟩ <;> cases hphase
  | copied => cases hphase
  | copying => cases hphase
  | sending => cases hphase
  | sent h => rcases h with rfl | rfl <;> cases hphase
  | stopped h => rcases h with rfl | ⟨kind, rfl⟩ <;> cases hphase

end

end Upload

/-! ## Both ends -/

section

variable {S : Sealing} {salt bytes : List UInt8} {address : Address} {t : Upload} {u : Reading}

/-- What a reader hands out of a stream that was written begins the payloads. -/
theorem output_begins {payloads : List (List UInt8)} (hw : Reading.Written S salt payloads)
    (hread : Reading.Inv S u)
    (hpre : u.consumed <+: S.stream salt payloads) : u.output <+: payloads.flatten := by
  rcases hread.authentic with hnil | ⟨salt', ps, hps, hstream, houtput⟩
  · rw [hnil]
    exact List.nil_prefix
  · obtain ⟨rest, rfl⟩ := hps.payloads_prefix hw (hstream.trans hpre)
    rw [List.flatten_append]
    exact houtput.trans (List.prefix_append _ _)

/-- A reader at the end of a stream that was written has handed out all of it. -/
theorem output_whole {payloads : List (List UInt8)} (hw : Reading.Written S salt payloads)
    (hread : Reading.Inv S u) (hall : u.consumed = S.stream salt payloads)
    (heof : u.ended = some .eof) : u.output = payloads.flatten := by
  obtain ⟨salt', ps, hps, hconsumed, houtput⟩ := hread.finished heof
  have hsame : S.stream salt' ps = S.stream salt payloads := hconsumed.symm.trans hall
  have hfirst := hps.payloads_prefix hw (hsame ▸ List.prefix_rfl)
  have hback := hw.payloads_prefix hps (hsame ▸ List.prefix_rfl)
  rw [houtput, hfirst.eq_of_length_le hback.length_le]

/-- The target is an address that can be written: a name has at most 255 bytes (`hbytes`). The other
end has received some of what the socket took, in order. However the polls of the two ends
interleave and however the bytes are cut, the client's end does not panic, nothing is refused, and
the reader has handed out the beginning of the target address and of what the client's end read. If
both came to their end, the reader has handed out all of it, and it parses as that address and those
bytes. -/
theorem tunnel_delivers (S : Sealing) (salt bytes : List UInt8) (address : Address)
    (uploads : List UploadEvent) (reads : List ReadEvent) (t : Upload) (u : Reading)
    (hsalt : salt.length = S.saltLen) (hbytes : address.writeToBuf = some bytes)
    (hup : run (Upload.step S) (.start salt address) uploads = some t)
    (hdown : run (Reading.step S) (.start S) reads = some u) (hnet : u.consumed <+: t.wire) :
    t.phase ≠ .panicked ∧ u.output <+: bytes ++ t.taken ∧
      (∀ e, u.ended = some (.error e) → e.refuses = false) ∧
      ∀ count, t.phase = .done count → u.consumed = t.wire → u.ended = some .eof →
        u.output = bytes ++ t.taken ∧
          Address.readFrom (AsyncRead.takeExact eof) u.output = .ok (address.received,
            t.taken) := by
  have hsend : Upload.Inv S salt address bytes t := Upload.inv_run hsalt hbytes hup
  have hread : Reading.Inv S u := Reading.inv_run hdown
  have hsound := Upload.not_panicked hsend
  obtain ⟨payloads, hsends, hstands⟩ := hsend
  have hwire : t.wire <+: S.stream salt payloads := ⟨_, hsends.stream⟩
  refine ⟨hsound, ?_, ?_, ?_⟩
  · exact (output_begins hsends.written hread (hnet.trans hwire)).trans hstands.flatten_prefix
  · intro e herror
    by_contra hrefuses
    have hforged := (hread.finished herror).2 (Bool.eq_true_of_not_eq_false hrefuses)
    exact hforged salt payloads hsends.written (hnet.trans hwire)
  · intro count hphase hall heof
    have hsettled := hstands.of_sent (.inr hphase)
    have hconsumed := hall.trans (Upload.wire_of_settled hsends hsettled)
    have houtput : u.output = bytes ++ t.taken := by
      rw [output_whole hsends.written hread hconsumed heof, hsettled.framed]
    refine ⟨houtput, ?_⟩
    rw [houtput]
    exact Address.readFrom_written hbytes t.taken

/-- The client sends one byte; the socket takes the first packet in two parts. -/
def sampleUploads : List UploadEvent :=
  [.read (.ready [7]), .write .pending, .write (.ready 5), .write (.ready 8), .read (.ready []),
    .flush .ready, .shutdown .ready]

/-- The other end reads it frame by frame. -/
def sampleDownloads : List ReadEvent :=
  [.poll (.ready [9]), .poll (.ready [0, 8, 0]), .poll (.ready [1, 10, 0, 0, 1]),
    .poll (.ready [0, 80, 7, 1]), .deliver 100, .drained, .poll (.ready [])]

theorem tunnel_delivers_sample : ∃ t u,
    run (Upload.step Reading.numbered) (.start [9] (.socketAddress (.v4 #v[10, 0, 0, 1] 80)))
      sampleUploads = some t ∧
    run (Reading.step Reading.numbered) (.start Reading.numbered) sampleDownloads = some u ∧
    u.output = [1, 10, 0, 0, 1, 0, 80] ++ t.taken ∧ t.taken = [7] := by
  have hup : run (Upload.step Reading.numbered)
      (.start [9] (.socketAddress (.v4 #v[10, 0, 0, 1] 80))) sampleUploads =
      some ⟨.done 0, ⟨⟨⟨[9], 2⟩, [], .assemblePacket⟩, .connected⟩, [7],
        [9, 0, 8, 0, 1, 10, 0, 0, 1, 0, 80, 7, 1]⟩ := by decide +kernel
  have hdown : run (Reading.step Reading.numbered) (.start Reading.numbered) sampleDownloads =
      some ⟨⟨.readLength, some ⟨[9], 2⟩, [], true⟩, [9, 0, 8, 0, 1, 10, 0, 0, 1, 0, 80, 7, 1],
        [1, 10, 0, 0, 1, 0, 80, 7], some .eof⟩ := by decide +kernel
  have hends :=
    (tunnel_delivers _ _ [1, 10, 0, 0, 1, 0, 80] _ _ _ _ _ rfl rfl hup hdown List.prefix_rfl).2.2.2
  exact ⟨_, _, hup, hdown, (hends 0 rfl rfl rfl).1, rfl⟩

end

end CypherConnect.SsLocal
