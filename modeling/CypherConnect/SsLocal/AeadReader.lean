/-
  The decrypting reader of an AEAD stream (`aead.rs`). A transition is one turn of the loops of
  `poll_read_decrypted` and `poll_read_exact`: one poll of the socket with what follows from it, or
  one copy of buffered bytes to the caller.

  * `reader_output_authentic`: however the bytes arrive, what the reader hands out is the beginning
    of payloads whose frames it has read, all of them at the end of the stream, and no `expect`
    fails. A stream that is refused for what it decrypts to was not written by the other side.
-/
import CypherConnect.Lib.Machine
import CypherConnect.Lib.SealedFrames
import CypherConnect.SsLocal.Socks5

namespace CypherConnect.SsLocal

open SealedFrames Machine

/-- `MAX_PACKET_SIZE`. -/
def maxPacketSize : Nat := 0x3FFF

/-- `ProtocolError`; nothing here returns `HeaderTooShort`. -/
inductive ProtocolError where
  | ioError (kind : ErrorKind)
  | decryptDataError
  | decryptLengthError
  | dataTooLong (length : Nat)
  deriving DecidableEq, Repr

/-- A cipher under one salt. The nonce counts the packets. -/
structure Cipher where
  salt : List UInt8
  nonce : Nat
  deriving DecidableEq, Repr

namespace Cipher

def encryptPacket (S : Sealing) (this : Cipher) (m : List UInt8) : List UInt8 × Cipher :=
  (S.encrypt this.salt this.nonce m, { this with nonce := this.nonce + 1 })

def decryptPacket (S : Sealing) (this : Cipher) (m : List UInt8) : Option (List UInt8 × Cipher) :=
  (S.decrypt this.salt this.nonce m).map fun p => (p, { this with nonce := this.nonce + 1 })

theorem decryptPacket_eq_some_iff {S : Sealing} {this next : Cipher} {m p : List UInt8} :
    this.decryptPacket S m = some (p, next) ↔
      m = S.encrypt this.salt this.nonce p ∧ next = ⟨this.salt, this.nonce + 1⟩ := by
  unfold decryptPacket
  rw [Option.map_eq_some_iff]
  constructor
  · rintro ⟨q, hq, hpair⟩
    obtain ⟨rfl, rfl⟩ := Prod.mk.inj hpair
    exact ⟨(S.decrypt_eq_some_iff _ _ _ _).mp hq, rfl⟩
  · rintro ⟨hm, rfl⟩
    exact ⟨p, (S.decrypt_eq_some_iff _ _ _ _).mpr hm, rfl⟩

theorem decryptPacket_eq_none_iff {S : Sealing} {this : Cipher} {m : List UInt8} :
    this.decryptPacket S m = none ↔ ∀ p, m ≠ S.encrypt this.salt this.nonce p := by
  unfold decryptPacket
  rw [Option.map_eq_none_iff, Option.eq_none_iff_forall_not_mem]
  exact forall_congr' fun p => not_congr (S.decrypt_eq_some_iff _ _ _ _)

end Cipher

inductive DecryptReadState where
  | waitSalt
  | readLength
  | readData (length : Nat)
  | bufferedData (pos : Nat)
  deriving DecidableEq, Repr

/-- The key is the `Sealing`'s. The salt that is kept for `check_nonce_replay` is left out: under
the default policy the check accepts every salt of these ciphers. -/
structure DecryptedReader where
  state : DecryptReadState
  cipher : Option Cipher
  buffer : List UInt8
  hasHandshaked : Bool
  deriving DecidableEq, Repr

/-- One poll of the socket; no bytes at all are its end. -/
inductive PollRead where
  | pending
  | failed (kind : ErrorKind)
  | ready (bytes : List UInt8)
  deriving DecidableEq, Repr

/-- How a reader ends. -/
inductive ReadEnd where
  | eof
  | error (e : ProtocolError)
  | panic
  deriving DecidableEq, Repr

/-- What a turn of `poll_read_exact` comes to. -/
inductive Exact where
  | pending
  | failed (kind : ErrorKind)
  | more (buffer : List UInt8)
  | done (n : Nat) (buffer : List UInt8)
  deriving DecidableEq, Repr

/-- A turn of the loop of `poll_read_exact`, entered with fewer than `size` bytes. -/
def pollReadExact (buffer : List UInt8) (size : Nat) : PollRead → Exact
  | .pending => .pending
  | .failed kind => .failed kind
  | .ready [] => if buffer ≠ [] then .failed .unexpectedEof else .done 0 []
  | .ready (b :: bs) =>
      if (buffer ++ b :: bs).length < size then .more (buffer ++ b :: bs)
      else .done size (buffer ++ b :: bs)

namespace DecryptedReader

def new (S : Sealing) : DecryptedReader :=
  if 0 < S.saltLen then ⟨.waitSalt, none, [], false⟩ else ⟨.readLength, some ⟨[], 0⟩, [], false⟩

def decryptLength (S : Sealing) (cipher : Cipher) (m : List UInt8) :
    Except ProtocolError (Nat × Cipher) :=
  match cipher.decryptPacket S m with
  | none => .error .decryptLengthError
  | some (plain, next) =>
      let plen := BigEndian.value (plain.take 2)
      if plen > maxPacketSize then .error (.dataTooLong plen) else .ok (plen, next)

/-- What the reader waits for. -/
def wanted (S : Sealing) (this : DecryptedReader) : Nat :=
  match this.state with
  | .waitSalt => S.saltLen
  | .readLength => 2 + S.tagLen
  | .readData length => length + S.tagLen
  | .bufferedData _ => 0

/-- `poll_read_salt` and the state after it. -/
def saltRead (S : Sealing) (this : DecryptedReader) (n : Nat) (buffer : List UInt8) :
    DecryptedReader × Option ReadEnd :=
  if n < S.saltLen then ({ this with buffer }, some (.error (.ioError .unexpectedEof)))
  else (⟨.readLength, some ⟨buffer.take S.saltLen, 0⟩, [], true⟩, none)

/-- `poll_read_length` and the state after it. -/
def lengthRead (S : Sealing) (this : DecryptedReader) (n : Nat) (buffer : List UInt8) :
    DecryptedReader × Option ReadEnd :=
  if n = 0 then ({ this with buffer }, some .eof)
  else
    match this.cipher with
    | none => ({ this with buffer }, some .panic)
    | some cipher =>
        match decryptLength S cipher buffer with
        | .error e => ({ this with buffer }, some (.error e))
        | .ok (length, next) =>
            ({ this with state := .readData length, cipher := some next, buffer := [] }, none)

/-- `poll_read_data` and the state after it. -/
def dataRead (S : Sealing) (this : DecryptedReader) (size n : Nat) (buffer : List UInt8) :
    DecryptedReader × Option ReadEnd :=
  if n = 0 then ({ this with buffer }, some (.error (.ioError .unexpectedEof)))
  else
    match this.cipher with
    | none => ({ this with buffer }, some .panic)
    | some cipher =>
        match cipher.decryptPacket S buffer with
        | none => ({ this with buffer }, some (.error .decryptDataError))
        | some (plain, next) =>
            ({ this with state := .bufferedData 0, cipher := some next, buffer := plain.take size },
              none)

/-- The state that a finished `poll_read_exact` leads to. -/
def exactRead (S : Sealing) (this : DecryptedReader) (n : Nat) (buffer : List UInt8) :
    DecryptedReader × Option ReadEnd :=
  match this.state with
  | .waitSalt => this.saltRead S n buffer
  | .readLength => this.lengthRead S n buffer
  | .readData size => this.dataRead S size n buffer
  | .bufferedData _ => (this, none)

/-- A turn of `poll_read_decrypted` that polls the socket. -/
def pollReadDecrypted (S : Sealing) (this : DecryptedReader) (outcome : PollRead) :
    DecryptedReader × Option ReadEnd :=
  match pollReadExact this.buffer (this.wanted S) outcome with
  | .pending => (this, none)
  | .failed kind => (this, some (.error (.ioError kind)))
  | .more buffer => ({ this with buffer }, none)
  | .done n buffer => this.exactRead S n buffer

end DecryptedReader

/-- A reader with what it took from the socket and what it handed to its callers. -/
structure Reading where
  reader : DecryptedReader
  consumed : List UInt8
  output : List UInt8
  ended : Option ReadEnd
  deriving DecidableEq, Repr

inductive ReadEvent where
  /-- The reader waits for bytes and polls the socket. -/
  | poll (outcome : PollRead)
  /-- Buffered bytes are copied to a caller with so much room. -/
  | deliver (remaining : Nat)
  /-- All buffered bytes are handed out: the next length is waited for. -/
  | drained
  deriving DecidableEq, Repr

namespace PollRead

def bytes : PollRead → List UInt8
  | .ready bytes => bytes
  | .pending => []
  | .failed _ => []

end PollRead

namespace Reading

def start (S : Sealing) : Reading := ⟨.new S, [], [], none⟩

/-- One transition. The socket never fills in more than it was asked for. -/
def step (S : Sealing) (s : Reading) : ReadEvent → Option Reading
  | .poll outcome =>
      if s.ended = none ∧ s.reader.buffer.length + outcome.bytes.length ≤ s.reader.wanted S ∧
          s.reader.buffer.length < s.reader.wanted S then
        let (reader, ended) := s.reader.pollReadDecrypted S outcome
        some { s with reader, ended, consumed := s.consumed ++ outcome.bytes }
      else none
  | .deliver remaining =>
      match s.ended, s.reader.state with
      | none, .bufferedData pos =>
          if pos < s.reader.buffer.length then
            let buffered := s.reader.buffer.drop pos
            let consumed := min buffered.length remaining
            some { s with
              reader := { s.reader with state := .bufferedData (pos + consumed) }
              output := s.output ++ buffered.take consumed }
          else none
      | _, _ => none
  | .drained =>
      match s.ended, s.reader.state with
      | none, .bufferedData pos =>
          if pos < s.reader.buffer.length then none
          else some { s with reader := { s.reader with state := .readLength, buffer := [] } }
      | _, _ => none

/-! ## What a stream can be -/

/-- A salt and payloads as a writer sends them. -/
structure Written (S : Sealing) (salt : List UInt8) (payloads : List (List UInt8)) : Prop where
  salt_length : salt.length = S.saltLen
  payload_length : ∀ p ∈ payloads, p.length ≤ maxPacketSize

/-- The bytes begin no stream that was written. -/
def Forged (S : Sealing) (bytes : List UInt8) : Prop :=
  ∀ salt payloads, Written S salt payloads → ¬ bytes <+: S.stream salt payloads

/-- The output begins payloads whose frames are in the bytes. -/
def Authentic (S : Sealing) (bytes output : List UInt8) : Prop :=
  output = [] ∨ ∃ salt payloads, Written S salt payloads ∧ S.stream salt payloads <+: bytes ∧
    output <+: payloads.flatten

section

variable {S : Sealing} {salt : List UInt8} {payloads : List (List UInt8)} {buffer : List UInt8}

theorem Written.snoc (h : Written S salt payloads) {p : List UInt8}
    (hp : p.length ≤ maxPacketSize) :
    Written S salt (payloads ++ [p]) := by
  refine ⟨h.salt_length, ?_⟩
  intro q hq
  rw [List.mem_append, List.mem_singleton] at hq
  rcases hq with hq | rfl
  · exact h.payload_length q hq
  · exact hp

theorem Written.payload_lt (h : Written S salt payloads) (p : List UInt8) (hp : p ∈ payloads) :
    p.length < 65536 := by
  have := h.payload_length p hp
  unfold maxPacketSize at this
  omega

/-- What follows frames that were read is the beginning of the frames behind them, if the stream was
written. -/
theorem Written.behind (h : Written S salt payloads) {salt' : List UInt8} {ps : List (List UInt8)}
    {a : List UInt8} (hw : Written S salt' ps)
    (hpre : S.stream salt payloads ++ a <+: S.stream salt' ps) :
    ∃ rest, ps = payloads ++ rest ∧ Written S salt rest ∧
      a <+: S.framesFrom salt payloads.length rest := by
  unfold Sealing.stream at hpre
  obtain ⟨b, hb⟩ := hpre
  rw [List.append_assoc, List.append_assoc] at hb
  obtain ⟨rfl, hframes⟩ := List.append_inj hb (h.salt_length.trans hw.salt_length.symm)
  obtain ⟨rest, rfl, ha⟩ :=
    Sealing.framesFrom_prefix (i := 0) ⟨b, by rw [List.append_assoc]; exact hframes⟩
    h.payload_lt hw.payload_lt
  rw [Nat.zero_add] at ha
  exact ⟨rest, rfl, ⟨h.salt_length, fun p hp => hw.payload_length p (List.mem_append_right _ hp)⟩,
    ha⟩

/-- A written stream at the beginning of another one has its first payloads. -/
theorem Written.payloads_prefix (h : Written S salt payloads) {salt' : List UInt8}
    {ps : List (List UInt8)} (hw : Written S salt' ps)
    (hpre : S.stream salt payloads <+: S.stream salt' ps) : payloads <+: ps := by
  rw [← List.append_nil (S.stream salt payloads)] at hpre
  obtain ⟨rest, rfl, -⟩ := h.behind hw hpre
  exact List.prefix_append _ _

/-- The first bytes of frames are the sealed length of the first payload. -/
theorem length_at_front {k : Nat} {rest : List (List UInt8)} {a : List UInt8}
    (h : a <+: S.framesFrom salt k rest) (ha : a.length = 2 + S.tagLen) :
    ∃ p ∈ rest, a = S.encrypt salt (2 * k) (BigEndian.bytes 2 p.length) := by
  obtain ⟨b, hb⟩ := h
  cases rest with
  | nil =>
      have hlen := congrArg List.length hb
      simp only [Sealing.framesFrom, List.length_append, List.length_nil] at hlen
      omega
  | cons p rest =>
      refine ⟨p, List.mem_cons_self, ?_⟩
      simp only [Sealing.framesFrom, Sealing.frame, List.append_assoc] at hb
      refine (List.append_inj hb ?_).1
      rw [S.length_encrypt, BigEndian.length_bytes, ha]

/-- Behind a sealed length are the sealed bytes of a payload that long. -/
theorem data_at_front {k n : Nat} {rest : List (List UInt8)} {a : List UInt8}
    (hw : Written S salt rest)
    (h : S.encrypt salt (2 * k) (BigEndian.bytes 2 n) ++ a <+: S.framesFrom salt k rest)
    (hn : n < 65536)
    (ha : a.length = n + S.tagLen) : ∃ p ∈ rest, a = S.encrypt salt (2 * k + 1) p := by
  obtain ⟨b, hb⟩ := h
  cases rest with
  | nil =>
      have hlen := congrArg List.length hb
      have htag := S.tagLen_pos
      simp only [Sealing.framesFrom, List.length_append, List.length_nil] at hlen
      omega
  | cons p rest =>
      refine ⟨p, List.mem_cons_self, ?_⟩
      simp only [Sealing.framesFrom, List.append_assoc] at hb
      obtain ⟨hlength, hrest⟩ := Sealing.length_of_prefix hb hn (hw.payload_lt p List.mem_cons_self)
      refine (List.append_inj hrest ?_).1
      rw [S.length_encrypt, ha, hlength]

end

end Reading

/-! ## The functions of the reader -/

/-- An error about what was decrypted, not about the socket. -/
def ProtocolError.refuses : ProtocolError → Bool
  | .ioError _ => false
  | _ => true

section

variable {S : Sealing} {salt buffer : List UInt8} {k : Nat}

open DecryptedReader

theorem pollReadExact_more {size : Nat} {outcome : PollRead} {b : List UInt8}
    (h : pollReadExact buffer size outcome = .more b) :
    b = buffer ++ outcome.bytes ∧ b.length < size := by
  unfold pollReadExact at h
  split at h
  · cases h
  · cases h
  · split at h <;> cases h
  · split at h
    case isTrue hlt =>
      cases h
      exact ⟨rfl, hlt⟩
    case isFalse => cases h

/-- A finished read has found the end before any byte, or has all of its bytes. -/
theorem pollReadExact_done {size n : Nat} {outcome : PollRead} {b : List UInt8}
    (hfits : buffer.length + outcome.bytes.length ≤ size)
    (h : pollReadExact buffer size outcome = .done n b) :
    (n = 0 ∧ b = [] ∧ buffer = [] ∧ outcome.bytes = []) ∨
      (n = size ∧ b = buffer ++ outcome.bytes ∧ b.length = size) := by
  unfold pollReadExact at h
  split at h
  · cases h
  · cases h
  · split at h
    case isTrue => cases h
    case isFalse hnil =>
      cases h
      exact .inl ⟨rfl, rfl, not_not.mp hnil, rfl⟩
  · split at h
    case isTrue => cases h
    case isFalse hge =>
      cases h
      refine .inr ⟨rfl, rfl, ?_⟩
      simp only [PollRead.bytes] at hfits
      simp only [List.length_append] at hge ⊢
      omega

theorem pollReadExact_failed {size : Nat} {outcome : PollRead} {kind : ErrorKind}
    (h : pollReadExact buffer size outcome = .failed kind) : outcome.bytes = [] := by
  cases outcome with
  | pending => cases h
  | failed => rfl
  | ready bytes =>
      cases bytes with
      | nil => rfl
      | cons b bs =>
          simp only [pollReadExact] at h
          split at h <;> cases h

theorem pollReadExact_pending {size : Nat} {outcome : PollRead}
    (h : pollReadExact buffer size outcome = .pending) : outcome.bytes = [] := by
  cases outcome with
  | pending => rfl
  | failed => cases h
  | ready bytes =>
      cases bytes with
      | nil =>
          simp only [pollReadExact] at h
          split at h <;> cases h
      | cons b bs =>
          simp only [pollReadExact] at h
          split at h <;> cases h

/-- The two bytes of a length that is accepted are those that were sealed. -/
theorem decryptLength_ok {length : Nat} {next : Cipher} (hlen : buffer.length = 2 + S.tagLen)
    (h : decryptLength S ⟨salt, 2 * k⟩ buffer = .ok (length, next)) :
    length ≤ maxPacketSize ∧ buffer = S.encrypt salt (2 * k) (BigEndian.bytes 2 length) ∧
      next = ⟨salt, 2 * k + 1⟩ := by
  unfold decryptLength at h
  split at h
  case h_1 => cases h
  case h_2 plain next' hplain =>
    obtain ⟨hbuffer, rfl⟩ := Cipher.decryptPacket_eq_some_iff.mp hplain
    have hplen : plain.length = 2 := by
      rw [hbuffer, S.length_encrypt] at hlen
      omega
    have htake : plain.take 2 = plain := List.take_of_length_le (by omega)
    dsimp only at h
    rw [htake] at h
    split at h
    case isTrue => cases h
    case isFalse hle =>
      cases h
      refine ⟨by omega, ?_, rfl⟩
      have hbytes := BigEndian.bytes_value plain
      rw [hplen] at hbytes
      rw [hbytes]
      exact hbuffer

theorem decryptLength_error {e : ProtocolError}
    (h : decryptLength S ⟨salt, 2 * k⟩ buffer = .error e) (p : List UInt8)
    (hp : p.length ≤ maxPacketSize) :
    buffer ≠ S.encrypt salt (2 * k) (BigEndian.bytes 2 p.length) := by
  intro hbuffer
  have hplain : Cipher.decryptPacket S ⟨salt, 2 * k⟩ buffer =
      some (BigEndian.bytes 2 p.length, ⟨salt, 2 * k + 1⟩) :=
    Cipher.decryptPacket_eq_some_iff.mpr ⟨hbuffer, rfl⟩
  have htake : (BigEndian.bytes 2 p.length).take 2 = BigEndian.bytes 2 p.length :=
    List.take_of_length_le (by rw [BigEndian.length_bytes])
  have hvalue : BigEndian.value (BigEndian.bytes 2 p.length) = p.length := by
    rw [BigEndian.value_bytes]
    exact Nat.mod_eq_of_lt (by unfold maxPacketSize at hp; omega)
  simp only [decryptLength, hplain, htake, hvalue] at h
  rw [if_neg (by omega)] at h
  cases h

end

/-! ## Runs -/

namespace Reading

/-- Where a reader that has not ended stands: the frames it has read, what it has of the next one,
and what it handed out. -/
inductive Progress (S : Sealing) : Reading → Prop
  | waitSalt {buffer : List UInt8} {b : Bool} (hlen : buffer.length < S.saltLen) :
      Progress S ⟨⟨.waitSalt, none, buffer, b⟩, buffer, [], none⟩
  | readLength {salt buffer : List UInt8} {payloads : List (List UInt8)} {b : Bool}
      (hw : Written S salt payloads) (hlen : buffer.length < 2 + S.tagLen) :
      Progress S ⟨⟨.readLength, some ⟨salt, 2 * payloads.length⟩, buffer, b⟩,
        S.stream salt payloads ++ buffer, payloads.flatten, none⟩
  | readData {salt buffer : List UInt8} {payloads : List (List UInt8)} {b : Bool} {length : Nat}
      (hw : Written S salt payloads) (hmax : length ≤ maxPacketSize)
      (hlen : buffer.length < length + S.tagLen) :
      Progress S ⟨⟨.readData length, some ⟨salt, 2 * payloads.length + 1⟩, buffer, b⟩,
        S.stream salt payloads ++
          (S.encrypt salt (2 * payloads.length) (BigEndian.bytes 2 length) ++ buffer),
        payloads.flatten, none⟩
  | bufferedData {salt p : List UInt8} {payloads : List (List UInt8)} {b : Bool} {pos : Nat}
      (hw : Written S salt payloads) (hp : p.length ≤ maxPacketSize) (hpos : pos ≤ p.length) :
      Progress S ⟨⟨.bufferedData pos, some ⟨salt, 2 * (payloads.length + 1)⟩, p, b⟩,
        S.stream salt (payloads ++ [p]), payloads.flatten ++ p.take pos, none⟩

/-- What is known of a reader that has ended. -/
def Finished (S : Sealing) (consumed output : List UInt8) : ReadEnd → Prop
  | .eof => ∃ salt payloads, Written S salt payloads ∧ consumed = S.stream salt payloads ∧
      output = payloads.flatten
  | .error e => Authentic S consumed output ∧ (e.refuses = true → Forged S consumed)
  | .panic => False

def Inv (S : Sealing) (s : Reading) : Prop :=
  match s.ended with
  | none => Progress S s
  | some e => Finished S s.consumed s.output e

section

variable {S : Sealing} {salt buffer : List UInt8} {payloads : List (List UInt8)}

theorem stream_snoc (p : List UInt8) :
    S.stream salt (payloads ++ [p]) = S.stream salt payloads ++
      (S.encrypt salt (2 * payloads.length) (BigEndian.bytes 2 p.length) ++
        S.encrypt salt (2 * payloads.length + 1) p) := by
  unfold Sealing.stream
  rw [Sealing.framesFrom_snoc, Nat.zero_add, ← List.append_assoc]
  rfl

theorem authentic_of_written (hw : Written S salt payloads) (rest : List UInt8) :
    Authentic S (S.stream salt payloads ++ rest) payloads.flatten :=
  .inr ⟨salt, payloads, hw, List.prefix_append _ _, List.prefix_rfl⟩

theorem Progress.authentic {s : Reading} (h : Progress S s) : Authentic S s.consumed s.output := by
  cases h with
  | waitSalt => exact .inl rfl
  | readLength hw => exact authentic_of_written hw _
  | readData hw => exact authentic_of_written hw _
  | @bufferedData salt p payloads b pos hw hp =>
      refine .inr ⟨salt, payloads ++ [p], hw.snoc hp, List.prefix_rfl, ?_⟩
      rw [List.flatten_append, List.flatten_singleton]
      exact (List.prefix_append_right_inj _).mpr (List.take_prefix _ _)

theorem forged_length (hw : Written S salt payloads) (hlen : buffer.length = 2 + S.tagLen)
    (hno : ∀ p : List UInt8, p.length ≤ maxPacketSize →
      buffer ≠ S.encrypt salt (2 * payloads.length) (BigEndian.bytes 2 p.length)) :
    Forged S (S.stream salt payloads ++ buffer) := by
  intro salt' ps hw' hpre
  obtain ⟨rest, -, hrest, hfront⟩ := hw.behind hw' hpre
  obtain ⟨p, hp, hbuffer⟩ := length_at_front hfront hlen
  exact hno p (hrest.payload_length p hp) hbuffer

theorem forged_data {length : Nat} (hw : Written S salt payloads) (hmax : length ≤ maxPacketSize)
    (hlen : buffer.length = length + S.tagLen)
    (hno : ∀ p, buffer ≠ S.encrypt salt (2 * payloads.length + 1) p) :
    Forged S (S.stream salt payloads ++
      (S.encrypt salt (2 * payloads.length) (BigEndian.bytes 2 length) ++ buffer)) := by
  intro salt' ps hw' hpre
  obtain ⟨rest, -, hrest, hfront⟩ := hw.behind hw' hpre
  obtain ⟨p, -, hbuffer⟩ := data_at_front hrest hfront (by unfold maxPacketSize at hmax; omega) hlen
  exact hno p hbuffer

variable {bytes b : List UInt8} {n : Nat} {flag : Bool}

/-- A finished read of `size` bytes, `buffer` of which were there before the last poll. -/
def Done (buffer bytes : List UInt8) (size n : Nat) (b : List UInt8) : Prop :=
  (n = 0 ∧ b = [] ∧ buffer = [] ∧ bytes = []) ∨ (n = size ∧ b = buffer ++ bytes ∧ b.length = size)

theorem saltRead_inv {r : DecryptedReader} {e : Option ReadEnd}
    (hdone : Done buffer bytes S.saltLen n b) (hlt : buffer.length < S.saltLen)
    (h : DecryptedReader.saltRead S ⟨.waitSalt, none, buffer, flag⟩ n b = (r, e)) :
    Inv S ⟨r, buffer ++ bytes, [], e⟩ := by
  unfold DecryptedReader.saltRead at h
  rcases hdone with ⟨rfl, -, -, -⟩ | ⟨rfl, rfl, hlen⟩
  · rw [if_pos (by omega)] at h
    obtain ⟨-, rfl⟩ := Prod.mk.inj h
    exact ⟨.inl rfl, nofun⟩
  · rw [if_neg (by omega), List.take_of_length_le hlen.le] at h
    obtain ⟨rfl, rfl⟩ := Prod.mk.inj h
    have hw : Written S (buffer ++ bytes) [] := ⟨hlen, fun p hp => absurd hp List.not_mem_nil⟩
    have hnil : ([] : List UInt8).length < 2 + S.tagLen := by rw [List.length_nil]; omega
    have hprogress := Progress.readLength (b := true) hw hnil
    rw [Sealing.stream, Sealing.framesFrom, List.append_nil, List.append_nil] at hprogress
    exact hprogress

theorem lengthRead_inv {r : DecryptedReader} {e : Option ReadEnd} (hw : Written S salt payloads)
    (hdone : Done buffer bytes (2 + S.tagLen) n b)
    (h : DecryptedReader.lengthRead S ⟨.readLength, some ⟨salt, 2 * payloads.length⟩, buffer,
    flag⟩ n b = (r, e)) :
    Inv S ⟨r, S.stream salt payloads ++ (buffer ++ bytes), payloads.flatten, e⟩ := by
  unfold DecryptedReader.lengthRead at h
  rcases hdone with ⟨rfl, -, rfl, rfl⟩ | ⟨rfl, rfl, hlen⟩
  · -- the end of the socket between two frames
    rw [if_pos rfl] at h
    obtain ⟨-, rfl⟩ := Prod.mk.inj h
    exact ⟨salt, payloads, hw, List.append_nil _, rfl⟩
  · rw [if_neg (by omega)] at h
    cases hcase : DecryptedReader.decryptLength S ⟨salt, 2 * payloads.length⟩ (buffer ++ bytes) with
    | error error =>
        simp only [hcase] at h
        obtain ⟨-, rfl⟩ := Prod.mk.inj h
        exact ⟨authentic_of_written hw _,
          fun _ => forged_length hw hlen (decryptLength_error hcase)⟩
    | ok out =>
        obtain ⟨length, next⟩ := out
        simp only [hcase] at h
        obtain ⟨rfl, rfl⟩ := Prod.mk.inj h
        obtain ⟨hmax, hbuffer, rfl⟩ := decryptLength_ok hlen hcase
        have hpos := S.tagLen_pos
        have hnil : ([] : List UInt8).length < length + S.tagLen := by rw [List.length_nil]; omega
        have hprogress := Progress.readData (b := flag) hw hmax hnil
        rw [List.append_nil, ← hbuffer] at hprogress
        exact hprogress

theorem dataRead_inv {r : DecryptedReader} {e : Option ReadEnd} {length : Nat}
    (hw : Written S salt payloads) (hmax : length ≤ maxPacketSize)
    (hdone : Done buffer bytes (length + S.tagLen) n b)
    (h : DecryptedReader.dataRead S ⟨.readData length, some ⟨salt, 2 * payloads.length + 1⟩, buffer,
    flag⟩ length n b =
      (r, e)) :
    Inv S ⟨r, S.stream salt payloads ++
      (S.encrypt salt (2 * payloads.length) (BigEndian.bytes 2 length) ++ (buffer ++ bytes)),
      payloads.flatten, e⟩ := by
  have hpos := S.tagLen_pos
  unfold DecryptedReader.dataRead at h
  rcases hdone with ⟨rfl, -, -, -⟩ | ⟨rfl, rfl, hlen⟩
  · rw [if_pos rfl] at h
    obtain ⟨-, rfl⟩ := Prod.mk.inj h
    exact ⟨authentic_of_written hw _, nofun⟩
  · rw [if_neg (by omega)] at h
    cases hcase : Cipher.decryptPacket S ⟨salt, 2 * payloads.length + 1⟩ (buffer ++ bytes) with
    | none =>
        simp only [hcase] at h
        obtain ⟨-, rfl⟩ := Prod.mk.inj h
        exact ⟨authentic_of_written hw _,
          fun _ => forged_data hw hmax hlen (Cipher.decryptPacket_eq_none_iff.mp hcase)⟩
    | some out =>
        obtain ⟨plain, next⟩ := out
        simp only [hcase] at h
        obtain ⟨rfl, rfl⟩ := Prod.mk.inj h
        obtain ⟨hbuffer, rfl⟩ := Cipher.decryptPacket_eq_some_iff.mp hcase
        have hplain : plain.length = length := by
          rw [hbuffer, S.length_encrypt] at hlen
          omega
        have hprogress :=
          Progress.bufferedData (b := flag) hw (hplain.le.trans hmax) (Nat.zero_le _)
        rw [stream_snoc, List.take_zero, List.append_nil, hplain] at hprogress
        rw [hbuffer, List.take_of_length_le hplain.le]
        exact hprogress

/-- A poll of the socket keeps the invariant. -/
theorem poll_inv {s : Reading} {outcome : PollRead} {r : DecryptedReader} {e : Option ReadEnd}
    (hs : Progress S s) (hfits : s.reader.buffer.length + outcome.bytes.length ≤ s.reader.wanted S)
    (h : s.reader.pollReadDecrypted S outcome = (r, e)) :
    Inv S ⟨r, s.consumed ++ outcome.bytes, s.output, e⟩ := by
  unfold DecryptedReader.pollReadDecrypted at h
  cases hexact : pollReadExact s.reader.buffer (s.reader.wanted S) outcome with
  | pending =>
      simp only [hexact] at h
      obtain ⟨rfl, rfl⟩ := Prod.mk.inj h
      rw [pollReadExact_pending hexact, List.append_nil]
      cases hs <;> constructor <;> assumption
  | failed kind =>
      simp only [hexact] at h
      obtain ⟨-, rfl⟩ := Prod.mk.inj h
      rw [pollReadExact_failed hexact, List.append_nil]
      exact ⟨hs.authentic, nofun⟩
  | more buffer =>
      obtain ⟨rfl, hlt⟩ := pollReadExact_more hexact
      simp only [hexact] at h
      obtain ⟨rfl, rfl⟩ := Prod.mk.inj h
      cases hs with
      | waitSalt => exact .waitSalt hlt
      | readLength hw =>
          rw [List.append_assoc]
          exact .readLength hw hlt
      | readData hw hmax =>
          rw [List.append_assoc, List.append_assoc]
          exact .readData hw hmax hlt
      | bufferedData => exact absurd hlt (Nat.not_lt_zero _)
  | done n buffer =>
      have hdone : Done _ _ _ _ _ := pollReadExact_done hfits hexact
      simp only [hexact, DecryptedReader.exactRead] at h
      cases hs with
      | waitSalt hlen => exact saltRead_inv hdone hlen h
      | readLength hw =>
          rw [List.append_assoc]
          exact lengthRead_inv hw hdone h
      | readData hw hmax =>
          rw [List.append_assoc, List.append_assoc]
          exact dataRead_inv hw hmax hdone h
      | @bufferedData salt p payloads b pos hw hp hpos =>
          obtain ⟨rfl, rfl⟩ := Prod.mk.inj h
          have hnil : outcome.bytes = [] := by
            apply List.eq_nil_of_length_eq_zero
            simp only [DecryptedReader.wanted] at hfits
            omega
          rw [hnil, List.append_nil]
          exact .bufferedData hw hp hpos

theorem inv_start (S : Sealing) : Inv S (start S) := by
  unfold start DecryptedReader.new
  by_cases hsalt : 0 < S.saltLen
  · rw [if_pos hsalt]
    exact .waitSalt hsalt
  · rw [if_neg hsalt]
    have hw : Written S [] [] :=
      ⟨by rw [List.length_nil]; omega, fun p hp => absurd hp List.not_mem_nil⟩
    have hnil : ([] : List UInt8).length < 2 + S.tagLen := by rw [List.length_nil]; omega
    exact Progress.readLength hw hnil

/-- Every transition keeps the invariant. -/
theorem inv_step {s t : Reading} {event : ReadEvent} (hs : Inv S s) (h : step S s event = some t) :
    Inv S t := by
  obtain ⟨reader, consumed, output, ended⟩ := s
  cases event with
  | poll outcome =>
      simp only [step] at h
      split at h
      case isTrue hguard =>
        obtain ⟨rfl, hfits, -⟩ := hguard
        cases h
        exact poll_inv (s := ⟨reader, consumed, output, none⟩) hs hfits rfl
      case isFalse => cases h
  | deliver remaining =>
      simp only [step] at h
      split at h
      case h_1 pos hstate =>
        split at h
        case isTrue hlt =>
          cases h
          cases hs with
          | waitSalt => cases hstate
          | readLength => cases hstate
          | readData => cases hstate
          | @bufferedData salt p payloads b pos' hw hp hpos =>
              cases hstate
              have hprogress := Progress.bufferedData (b := b) hw hp
                (show pos + min (p.drop pos).length remaining ≤
                  p.length by rw [List.length_drop]; omega)
              rw [List.take_add, ← List.append_assoc] at hprogress
              exact hprogress
        case isFalse => cases h
      case h_2 => cases h
  | drained =>
      simp only [step] at h
      split at h
      case h_1 pos hstate =>
        split at h
        case isTrue => cases h
        case isFalse hge =>
          cases h
          cases hs with
          | waitSalt => cases hstate
          | readLength => cases hstate
          | readData => cases hstate
          | @bufferedData salt p payloads b pos' hw hp hpos =>
              cases hstate
              have hnil : ([] : List UInt8).length < 2 + S.tagLen := by rw [List.length_nil]; omega
              have hprogress := Progress.readLength (b := b) (hw.snoc hp) hnil
              rw [List.flatten_append, List.flatten_singleton, List.append_nil, List.length_append,
                List.length_singleton] at hprogress
              rw [List.take_of_length_le (Nat.le_of_not_lt hge)]
              exact hprogress
      case h_2 => cases h

theorem inv_run {events : List ReadEvent} {t : Reading}
    (hrun : run (step S) (start S) events = some t) : Inv S t :=
  run_invariant (fun _ _ _ hs hstep => inv_step hs hstep) (inv_start S) hrun

/-- What is known of a reader whatever it came to. -/
theorem Inv.authentic {t : Reading} (h : Inv S t) : Authentic S t.consumed t.output := by
  obtain ⟨reader, consumed, output, ended⟩ := t
  cases ended with
  | none => exact Progress.authentic h
  | some ended =>
      cases ended with
      | eof =>
          obtain ⟨salt, payloads, hw, hconsumed, houtput⟩ := h
          exact .inr ⟨salt, payloads, hw, hconsumed ▸ List.prefix_rfl, houtput ▸ List.prefix_rfl⟩
      | error e => exact h.1
      | panic => exact h.elim

theorem Inv.finished {t : Reading} {e : ReadEnd} (h : Inv S t) (hend : t.ended = some e) :
    Finished S t.consumed t.output e := by
  unfold Inv at h
  rw [hend] at h
  exact h

end

/-- However the bytes arrive and however much room the callers have: no `expect` fails; what was
handed out begins payloads whose frames were read; at the end of the stream all of it was frames,
and all of their payloads were handed out; and a stream that is refused is not the beginning of one
that was written. -/
theorem reader_output_authentic (S : Sealing) (events : List ReadEvent) (t : Reading)
    (hrun : run (step S) (start S) events = some t) :
    t.ended ≠ some .panic ∧ Authentic S t.consumed t.output ∧
      (t.ended = some .eof → ∃ salt payloads, Written S salt payloads ∧
        t.consumed = S.stream salt payloads ∧
        t.output = payloads.flatten) ∧
      ∀ e, t.ended = some (.error e) → e.refuses = true → Forged S t.consumed := by
  have hinv : Inv S t := inv_run hrun
  refine ⟨?_, hinv.authentic, ?_, ?_⟩
  · intro hpanic
    exact hinv.finished hpanic
  · intro heof
    exact hinv.finished heof
  · intro e herror
    exact (hinv.finished herror).2

/-- A sealing that shows its number: salt and tag have one byte. -/
def numbered : Sealing where
  saltLen := 1
  tagLen := 1
  tagLen_pos := Nat.one_pos
  encrypt := fun _ n p => p ++ [UInt8.ofNat n]
  decrypt := fun _ n c => if c.getLast? = some (UInt8.ofNat n) then some c.dropLast else none
  length_encrypt := fun _ _ _ => List.length_append
  decrypt_eq_some_iff := by
    intro _ n c p
    constructor
    · intro h
      split at h
      case isTrue hlast =>
        cases h
        exact (List.dropLast_append_getLast? _ hlast).symm
      case isFalse => cases h
    · rintro rfl
      rw [List.getLast?_concat, if_pos rfl, List.dropLast_concat]

/-- A salt and one frame in four pieces, read by callers with little room. -/
def sampleReads : List ReadEvent :=
  [.poll (.ready [9]), .poll (.ready [0]), .poll .pending, .poll (.ready [2, 0]),
    .poll (.ready [1, 2, 1]), .deliver 1, .deliver 5, .drained, .poll (.ready [])]

theorem reader_output_authentic_sample :
    ∃ t, run (step numbered) (start numbered) sampleReads = some t ∧
    t.output = [1, 2] ∧ ∃ salt payloads, Written numbered salt payloads ∧
      t.consumed = numbered.stream salt payloads ∧ t.output = payloads.flatten := by
  have hrun : run (step numbered) (start numbered) sampleReads =
      some ⟨⟨.readLength, some ⟨[9], 2⟩, [], true⟩, [9, 0, 2, 0, 1, 2, 1], [1, 2], some .eof⟩ := by
        decide +kernel
  exact ⟨_, hrun, rfl, (reader_output_authentic numbered sampleReads _ hrun).2.2.1 rfl⟩

end Reading

end CypherConnect.SsLocal
