/-
  The encrypting writer of an AEAD stream (`aead.rs`) and the client's stream over it
  (`proxy_stream/client.rs`), whose first packet carries the target address. A transition is one
  poll of the socket.

  * `Sends`: what was sent and what still is to be sent together are the salt and the frames of the
    packets.
  * `pollWriteEncrypted_sends`: a poll keeps this; a packet is framed once, however often the call
    is repeated.
-/
import CypherConnect.SsLocal.AeadReader

namespace CypherConnect.SsLocal

open SealedFrames

inductive EncryptWriteState where
  | assemblePacket
  | writing (pos : Nat)
  deriving DecidableEq, Repr

structure EncryptedWriter where
  cipher : Cipher
  buffer : List UInt8
  state : EncryptWriteState
  deriving DecidableEq, Repr

/-- One poll of the socket, with the number of bytes it took. -/
inductive PollWrite where
  | pending
  | failed (kind : ErrorKind)
  | ready (n : Nat)
  deriving DecidableEq, Repr

/-- What a turn of a write comes to. -/
inductive WriteResult where
  | pending
  | again
  | failed (kind : ErrorKind)
  | panic
  | done (n : Nat)
  deriving DecidableEq, Repr

def PollWrite.taken : PollWrite → Nat
  | .ready n => n
  | .pending => 0
  | .failed _ => 0

namespace EncryptedWriter

def new (nonce : List UInt8) : EncryptedWriter := ⟨⟨nonce, 0⟩, nonce, .assemblePacket⟩

/-- The packet is put behind what the buffer holds, the salt if it is the first one. -/
def assemblePacket (S : Sealing) (this : EncryptedWriter) (buf : List UInt8) : EncryptedWriter :=
  let (length, cipher) := this.cipher.encryptPacket S (BigEndian.bytes 2 buf.length)
  let (data, cipher) := cipher.encryptPacket S buf
  ⟨cipher, this.buffer ++ length ++ data, .writing 0⟩

/-- The loop reaches the socket in this state. -/
def assembled (S : Sealing) (this : EncryptedWriter) (buf : List UInt8) : EncryptedWriter :=
  match this.state with
  | .assemblePacket => this.assemblePacket S buf
  | .writing _ => this

/-- What is left to be sent. -/
def unsent (this : EncryptedWriter) : List UInt8 :=
  match this.state with
  | .assemblePacket => this.buffer
  | .writing pos => this.buffer.drop pos

/-- A turn of the loop of the `Writing` state. -/
def writeTurn (this : EncryptedWriter) (pos : Nat) (len : Nat) :
    PollWrite → EncryptedWriter × WriteResult
  | .pending => (this, .pending)
  | .failed kind => (this, .failed kind)
  | .ready n =>
      if n = 0 then (this, .failed .unexpectedEof)
      else if pos + n < this.buffer.length then ({ this with state := .writing (pos + n) }, .again)
      else ({ this with state := .assemblePacket, buffer := [] }, .done len)

/-- A turn of `poll_write_encrypted`. -/
def pollWriteEncrypted (S : Sealing) (this : EncryptedWriter) (buf : List UInt8)
    (outcome : PollWrite) :
    EncryptedWriter × WriteResult :=
  let buf := buf.take maxPacketSize
  let this := this.assembled S buf
  match this.state with
  | .writing pos => this.writeTurn pos buf.length outcome
  | .assemblePacket => (this, .again)

/-- What was sent and what is left are the salt and the frames of the packets. -/
structure Sends (S : Sealing) (salt : List UInt8) (this : EncryptedWriter) (wire : List UInt8)
    (payloads : List (List UInt8)) : Prop where
  written : Reading.Written S salt payloads
  cipher : this.cipher = ⟨salt, 2 * payloads.length⟩
  stream : wire ++ this.unsent = S.stream salt payloads
  inside : ∀ pos, this.state = .writing pos → pos < this.buffer.length
  idle : this.state = .assemblePacket → payloads ≠ [] → this.buffer = []

section

variable {S : Sealing} {salt wire buf : List UInt8} {payloads : List (List UInt8)}
  {this : EncryptedWriter}

theorem sends_new (h : salt.length = S.saltLen) : Sends S salt (new salt) [] [] where
  written := ⟨h, fun p hp => absurd hp List.not_mem_nil⟩
  cipher := rfl
  stream := by simp [new, unsent, Sealing.stream, Sealing.framesFrom]
  inside := nofun
  idle := fun _ hne => absurd rfl hne

theorem sends_assemblePacket (h : Sends S salt this wire payloads)
    (hstate : this.state = .assemblePacket) (hbuf : buf.length ≤ maxPacketSize) :
    Sends S salt (this.assemblePacket S buf) wire (payloads ++ [buf]) := by
  have hunsent : this.unsent = this.buffer := by
    unfold unsent
    rw [hstate]
  have hcipher := h.cipher
  refine ⟨h.written.snoc hbuf, ?_, ?_, ?_, nofun⟩
  · simp only [assemblePacket, Cipher.encryptPacket, hcipher, List.length_append,
      List.length_singleton]
    rw [Nat.mul_add]
  · have hbefore := h.stream
    rw [hunsent] at hbefore
    simp only [assemblePacket, Cipher.encryptPacket, hcipher, unsent, List.drop_zero]
    rw [Reading.stream_snoc, ← hbefore]
    simp only [List.append_assoc]
  · intro pos hpos
    cases hpos
    have htag := S.tagLen_pos
    simp only [assemblePacket, Cipher.encryptPacket, List.length_append, S.length_encrypt]
    omega

/-- The packets after a poll with `buf`: it is one more if none was being written. -/
def packets (this : EncryptedWriter) (payloads : List (List UInt8)) (buf : List UInt8) :
    List (List UInt8) :=
  match this.state with
  | .assemblePacket => payloads ++ [buf]
  | .writing _ => payloads

theorem sends_assembled (h : Sends S salt this wire payloads) (hbuf : buf.length ≤ maxPacketSize) :
    Sends S salt (this.assembled S buf) wire (this.packets payloads buf) ∧
      ∃ pos, (this.assembled S buf).state = .writing pos := by
  cases hstate : this.state with
  | assemblePacket =>
      simp only [assembled, packets, hstate]
      exact ⟨sends_assemblePacket h hstate hbuf, 0, rfl⟩
  | writing pos =>
      simp only [assembled, packets, hstate]
      exact ⟨h, pos, rfl⟩

theorem writeTurn_sends {pos len : Nat} {outcome : PollWrite} {next : EncryptedWriter}
    {result : WriteResult} (h : Sends S salt this wire payloads)
    (hstate : this.state = .writing pos) (hfits : outcome.taken ≤ this.unsent.length)
    (hturn : this.writeTurn pos len outcome = (next, result)) :
    Sends S salt next (wire ++ this.unsent.take outcome.taken) payloads ∧ result ≠ .panic ∧
      (∀ n, result = .done n → n = len ∧ next.state = .assemblePacket ∧ next.buffer = []) ∧
      ((∀ n, result ≠ .done n) → ∃ pos, next.state = .writing pos) := by
  have hunsent : this.unsent = this.buffer.drop pos := by
    unfold unsent
    rw [hstate]
  cases outcome with
  | pending =>
      obtain ⟨rfl, rfl⟩ := Prod.mk.inj hturn
      simp only [PollWrite.taken, List.take_zero, List.append_nil]
      exact ⟨h, nofun, nofun, fun _ => ⟨pos, hstate⟩⟩
  | failed kind =>
      obtain ⟨rfl, rfl⟩ := Prod.mk.inj hturn
      simp only [PollWrite.taken, List.take_zero, List.append_nil]
      exact ⟨h, nofun, nofun, fun _ => ⟨pos, hstate⟩⟩
  | ready n =>
      simp only [writeTurn] at hturn
      simp only [PollWrite.taken] at hfits ⊢
      split at hturn
      case isTrue hzero =>
        obtain ⟨rfl, rfl⟩ := Prod.mk.inj hturn
        rw [hzero, List.take_zero, List.append_nil]
        exact ⟨h, nofun, nofun, fun _ => ⟨pos, hstate⟩⟩
      case isFalse hpos =>
        have hsplit := h.stream
        rw [← List.take_append_drop n this.unsent, ← List.append_assoc] at hsplit
        split at hturn
        case isTrue hmore =>
          obtain ⟨rfl, rfl⟩ := Prod.mk.inj hturn
          refine ⟨⟨h.written, h.cipher, ?_, ?_, nofun⟩, nofun, nofun, fun _ => ⟨pos + n, rfl⟩⟩
          · rw [← hsplit, hunsent, List.drop_drop]
            rfl
          · intro pos' hpos'
            cases hpos'
            exact hmore
        case isFalse hall =>
          obtain ⟨rfl, rfl⟩ := Prod.mk.inj hturn
          have hrest : this.unsent.drop n = [] := by
            rw [hunsent, List.drop_drop]
            exact List.drop_of_length_le (by omega)
          refine ⟨⟨h.written, h.cipher, ?_, nofun, fun _ _ => rfl⟩, nofun, ?_, ?_⟩
          · rw [← hsplit, hrest]
            rfl
          · intro n' hn
            cases hn
            exact ⟨rfl, rfl, rfl⟩
          · intro hno
            exact absurd rfl (hno _)

/-- A turn of `poll_write_encrypted`. Of a packet that is being written nothing is framed again,
whatever the call is repeated with. -/
theorem pollWriteEncrypted_sends {outcome : PollWrite} {next : EncryptedWriter}
    {result : WriteResult} (h : Sends S salt this wire payloads)
    (hfits : outcome.taken ≤ (this.assembled S (buf.take maxPacketSize)).unsent.length)
    (hturn : this.pollWriteEncrypted S buf outcome = (next, result)) :
    Sends S salt next (wire ++ (this.assembled S (buf.take maxPacketSize)).unsent.take
      outcome.taken)
        (this.packets payloads (buf.take maxPacketSize)) ∧ result ≠ .panic ∧
      (∀ n, result = .done n →
        n = (buf.take maxPacketSize).length ∧ next.state = .assemblePacket ∧ next.buffer = []) ∧
      ((∀ n, result ≠ .done n) → ∃ pos, next.state = .writing pos) := by
  have hbuf : (buf.take maxPacketSize).length ≤ maxPacketSize := by
    rw [List.length_take]
    omega
  obtain ⟨hsends, pos, hpos⟩ := sends_assembled h hbuf
  simp only [pollWriteEncrypted, hpos] at hturn
  exact writeTurn_sends hsends hpos hfits hturn

end

end EncryptedWriter

end CypherConnect.SsLocal
