/-
  The SOCKS5 server of `ss-local`, `local/socks/server/socks5/tcprelay.rs`, with the messages of
  `relay/socks5.rs` it reads and writes. A client sends a handshake, an authentication if the server
  chose it, and a request; what it sends may arrive in any pieces.

  * `follows_readHandshake`, `follows_readPasswdAuth`, `follows_readTcpRequest`: the readers do not
    depend on the pieces, and `handleSocks5Client_pieces` says so of the whole session.
  * `Opens`: the bytes with which a client asks for a connection, and what it is answered.
  * `socks5_connects_iff`: a connection is attempted for exactly the streams that start so.
-/
import CypherConnect.SsLocal.Socks5

namespace CypherConnect.SsLocal

open AsyncRead

inductive Command where
  | tcpConnect
  | tcpBind
  | udpAssociate
  deriving DecidableEq, Repr

namespace Command

def asU8 : Command → UInt8
  | .tcpConnect => 0x01
  | .tcpBind => 0x02
  | .udpAssociate => 0x03

def fromU8 (code : UInt8) : Option Command :=
  if code = 0x01 then some .tcpConnect
  else if code = 0x02 then some .tcpBind
  else if code = 0x03 then some .udpAssociate
  else none

end Command

def Reply.asU8 : Reply → UInt8
  | .succeeded => 0x00
  | .generalFailure => 0x01
  | .connectionNotAllowed => 0x02
  | .networkUnreachable => 0x03
  | .hostUnreachable => 0x04
  | .connectionRefused => 0x05
  | .ttlExpired => 0x06
  | .commandNotSupported => 0x07
  | .addressTypeNotSupported => 0x08
  | .otherReply c => c

/-- `as_reply`. -/
def Socks5Error.asReply : Socks5Error → Reply
  | .ioError .connectionRefused => .connectionRefused
  | .ioError _ => .generalFailure
  | .addressTypeNotSupported _ => .addressTypeNotSupported
  | .addressDomainInvalidEncoding => .generalFailure
  | .unsupportedSocksVersion _ => .generalFailure
  | .unsupportedCommand _ => .commandNotSupported
  | .unsupportedPasswdAuthVersion _ => .generalFailure
  | .passwdAuthInvalidRequest => .generalFailure
  | .reply r => r

/-! ## The messages -/

structure PasswdAuthRequest where
  uname : List UInt8
  passwd : List UInt8
  deriving DecidableEq, Repr

structure TcpRequestHeader where
  command : Command
  address : Address
  deriving DecidableEq, Repr

section Reading

variable {σ : Type} (readExact : Nat → Reader Socks5Error σ (List UInt8))

/-- `HandshakeRequest::read_from`: the methods. -/
def readHandshake : Reader Socks5Error σ (List UInt8) := do
  let buf ← readExact 2
  let ver := buf.getD 0 0
  if ver ≠ 0x05 then throw (.unsupportedSocksVersion ver) else readExact (buf.getD 1 0).toNat

/-- A length that must not be zero, and as many bytes. -/
def readField : Reader Socks5Error σ (List UInt8) := do
  let lenBuf ← readExact 1
  if (lenBuf.getD 0 0).toNat = 0 then throw .passwdAuthInvalidRequest
  else readExact (lenBuf.getD 0 0).toNat

/-- `PasswdAuthRequest::read_from`. -/
def readPasswdAuth : Reader Socks5Error σ PasswdAuthRequest := do
  let verBuf ← readExact 1
  if verBuf.getD 0 0 ≠ 0x01 then throw (.unsupportedPasswdAuthVersion (verBuf.getD 0 0))
  else do
    let uname ← readField readExact
    let passwd ← readField readExact
    pure ⟨uname, passwd⟩

/-- The end of `TcpRequestHeader::read_from`, from the command on. -/
def readCommand (cmd : UInt8) : Reader Socks5Error σ TcpRequestHeader :=
  match Command.fromU8 cmd with
  | none => throw (.unsupportedCommand cmd)
  | some command => do
      let address ← Address.readFrom readExact
      pure ⟨command, address⟩

/-- `TcpRequestHeader::read_from`. The reserved byte is not looked at. -/
def readTcpRequest : Reader Socks5Error σ TcpRequestHeader := do
  let buf ← readExact 3
  let ver := buf.getD 0 0
  if ver ≠ 0x05 then throw (.unsupportedSocksVersion ver) else readCommand readExact (buf.getD 1 0)

end Reading

/-- `TcpResponseHeader::write_to_buf`. -/
def writeTcpResponse (reply : Reply) (address : Address) : Option (List UInt8) :=
  address.writeToBuf.map fun bytes => 0x05 :: reply.asU8 :: 0x00 :: bytes

/-! ## The session -/

/-- What a `Socks5TcpHandler` knows. -/
structure Socks5TcpHandler where
  /-- The users of `Socks5AuthConfig`, with their passwords. -/
  passwd : List (List Char × List Char)
  /-- `mode.enable_tcp()`. -/
  enableTcp : Bool
  udpBindAddr : Option Address
  peerAddr : SocketAddr
  /-- How the connection to a target ends: its local address, or an error. -/
  connect : Address → Except ErrorKind SocketAddr

/-- How a session goes on, or why it ends. -/
inductive Action (σ : Type) where
  /-- The session ended. -/
  | closed
  | failed
  /-- A connection to the target was attempted and failed. -/
  | refused (target : Address)
  /-- A tunnel to the target; what the client has sent behind its request. -/
  | tunnel (target : Address) (rest : σ)
  /-- The connection is held for UDP. -/
  | associate
  deriving DecidableEq, Repr

/-- What the client is sent, `none` for a panic, and how the session goes on. -/
structure Session (σ : Type) where
  output : Option (List UInt8)
  action : Action σ
  deriving DecidableEq, Repr

/-- A session behind output that was sent before. -/
def Session.after {σ : Type} (output : List UInt8) (s : Session σ) : Session σ :=
  ⟨s.output.map (output ++ ·), s.action⟩

namespace Socks5TcpHandler

variable (this : Socks5TcpHandler)

def authRequired : Bool := 0 < this.passwd.length

def checkUser (userName password : List Char) : Bool :=
  match this.passwd.lookup userName with
  | some pwd => pwd == password
  | none => false

/-- The loop of `check_auth`: the first method that the server takes. -/
def chosenMethod (methods : List UInt8) : Option UInt8 :=
  methods.find? fun method => method == 0x02 || (method == 0x00 && !this.authRequired)

/-- The result of `check_auth` is the rest of the stream, if the client may go on, and what it is
sent. -/
@[ext] structure Checked (σ : Type) where
  output : List UInt8
  rest : Option σ
  deriving DecidableEq, Repr

/-- `check_auth_password`. -/
def checkAuthPassword {σ : Type} (readExact : Nat → Reader Socks5Error σ (List UInt8))
    (stream : σ) :
    Checked σ :=
  match readPasswdAuth readExact stream with
  | .error err => ⟨[0x01, err.asReply.asU8], none⟩
  | .ok (req, stream) =>
      match fromUtf8 req.uname, fromUtf8 req.passwd with
      | some userName, some password =>
          if this.checkUser userName password then ⟨[0x01, 0], some stream⟩ else ⟨[0x01, 255], none⟩
      | _, _ => ⟨[0x01, 255], none⟩

/-- `check_auth`. -/
def checkAuth {σ : Type} (readExact : Nat → Reader Socks5Error σ (List UInt8))
    (methods : List UInt8) (stream : σ) : Checked σ :=
  match this.chosenMethod methods with
  | none => ⟨[0x05, 0xff], none⟩
  | some method =>
      if method = 0x02 then
        let checked := this.checkAuthPassword readExact stream
        ⟨[0x05, 0x02] ++ checked.output, checked.rest⟩
      else ⟨[0x05, 0x00], some stream⟩

/-- `handle_tcp_connect`. -/
def handleTcpConnect {σ : Type} (target : Address) (stream : σ) : Session σ :=
  if !this.enableTcp then ⟨writeTcpResponse .commandNotSupported target, .closed⟩
  else
    match this.connect target with
    | .ok localAddr =>
        ⟨writeTcpResponse .succeeded (.socketAddress localAddr), .tunnel target stream⟩
    | .error kind =>
        let reply : Reply :=
          match kind with
          | .connectionRefused => .connectionRefused
          | .connectionAborted => .hostUnreachable
          | _ => .networkUnreachable
        ⟨writeTcpResponse reply (.socketAddress (.v4 (Vector.replicate 4 0) 0)), .refused target⟩

/-- `handle_udp_associate`. -/
def handleUdpAssociate {σ : Type} (clientAddr : Address) : Session σ :=
  match this.udpBindAddr with
  | none => ⟨writeTcpResponse .commandNotSupported clientAddr, .closed⟩
  | some bindAddr => ⟨writeTcpResponse .succeeded bindAddr, .associate⟩

/-- The end of `handle_socks5_client`, from the request on. -/
def handleRequest {σ : Type} (readExact : Nat → Reader Socks5Error σ (List UInt8)) (stream : σ) :
    Session σ :=
  match readTcpRequest readExact stream with
  | .error err => ⟨writeTcpResponse err.asReply (.socketAddress this.peerAddr), .failed⟩
  | .ok (header, stream) =>
      match header.command with
      | .tcpConnect => this.handleTcpConnect header.address stream
      | .udpAssociate => this.handleUdpAssociate header.address
      | .tcpBind => ⟨writeTcpResponse .commandNotSupported header.address, .closed⟩

/-- `handle_socks5_client`. Writes to the client do not fail here. `local_addr` of the connected
stream is folded into `connect`: it does not fail either, a connection comes with its local
address. -/
def handleSocks5Client {σ : Type} (readExact : Nat → Reader Socks5Error σ (List UInt8))
    (stream : σ) :
    Session σ :=
  match readHandshake readExact stream with
  | .error e => ⟨some [], if e = eof then .closed else .failed⟩
  | .ok (methods, stream) =>
      let checked := this.checkAuth readExact methods stream
      match checked.rest with
      | none => ⟨some checked.output, .failed⟩
      | some stream => (this.handleRequest readExact stream).after checked.output

end Socks5TcpHandler

/-! ## The messages that are read -/

/-- A field with its length in front. -/
def lengthPrefixed (bytes : List UInt8) : List UInt8 := UInt8.ofNat bytes.length :: bytes

theorem ofNat_length {bytes : List UInt8} {n : UInt8} (h : bytes.length = n.toNat) :
    n = UInt8.ofNat bytes.length := by
  rw [h, UInt8.ofNat_toNat]

theorem toNat_ofNat_length {bytes : List UInt8} (h : bytes.length ≤ 255) :
    (UInt8.ofNat bytes.length).toNat = bytes.length := by
  rw [UInt8.toNat_ofNat']
  omega

theorem readHandshake_ok_iff {s methods rest : List UInt8} :
    readHandshake (takeExact eof) s = .ok (methods, rest) ↔
      methods.length ≤ 255 ∧ s = 0x05 :: (lengthPrefixed methods ++ rest) := by
  constructor
  · intro h
    obtain ⟨buf, s', hbuf, hmethods⟩ := bind_ok h
    obtain ⟨rfl, hlen⟩ := takeExact_ok hbuf
    obtain ⟨ver, n, rfl⟩ := List.length_eq_two.mp hlen
    change (if ver ≠ 0x05 then _ else takeExact eof n.toNat : Reader _ _ _) s' = _ at hmethods
    split at hmethods
    · cases hmethods
    · next hver =>
        obtain ⟨rfl, hn⟩ := takeExact_ok hmethods
        have hlt := n.toNat_lt
        refine ⟨by omega, ?_⟩
        rw [not_not.mp hver, ofNat_length hn]
        rfl
  · intro h
    obtain ⟨hle, rfl⟩ := h
    refine (bind_of_ok (takeExact_append eof (a := [0x05, UInt8.ofNat methods.length]) rfl _)).trans
      ?_
    show takeExact eof (UInt8.ofNat methods.length).toNat (methods ++ rest) = _
    rw [toNat_ofNat_length hle]
    exact takeExact_append eof rfl rest

theorem readField_ok_iff {s bytes rest : List UInt8} :
    readField (takeExact eof) s = .ok (bytes, rest) ↔
    0 < bytes.length ∧ bytes.length ≤ 255 ∧ s = lengthPrefixed bytes ++ rest := by
  constructor
  · intro h
    obtain ⟨buf, s', hbuf, hbytes⟩ := bind_ok h
    obtain ⟨rfl, hlen⟩ := takeExact_ok hbuf
    obtain ⟨n, rfl⟩ := List.length_eq_one_iff.mp hlen
    change (if n.toNat = 0 then _ else takeExact eof n.toNat : Reader _ _ _) s' = _ at hbytes
    split at hbytes
    · cases hbytes
    · next hzero =>
        obtain ⟨rfl, hn⟩ := takeExact_ok hbytes
        have hlt := n.toNat_lt
        refine ⟨by omega, by omega, ?_⟩
        rw [ofNat_length hn]
        rfl
  · intro h
    obtain ⟨hpos, hle, rfl⟩ := h
    refine (bind_of_ok (takeExact_append eof (a := [UInt8.ofNat bytes.length]) rfl _)).trans ?_
    show (if (UInt8.ofNat bytes.length).toNat = 0 then _
      else takeExact eof (UInt8.ofNat bytes.length).toNat : Reader _ _ _) (bytes ++ rest) = _
    rw [toNat_ofNat_length hle, if_neg (by omega)]
    exact takeExact_append eof rfl rest

/-- What a client sends to be authenticated. -/
def passwdAuth (req : PasswdAuthRequest) : List UInt8 :=
  0x01 :: (lengthPrefixed req.uname ++ lengthPrefixed req.passwd)

/-- The fields of a request have a length that fits, and are not empty. -/
def PasswdAuthRequest.Sendable (req : PasswdAuthRequest) : Prop :=
  (0 < req.uname.length ∧ req.uname.length ≤ 255) ∧ 0 < req.passwd.length ∧ req.passwd.length ≤ 255

theorem readPasswdAuth_ok_iff {s rest : List UInt8} {req : PasswdAuthRequest} :
    readPasswdAuth (takeExact eof) s = .ok (req, rest) ↔
      req.Sendable ∧ s = passwdAuth req ++ rest := by
  constructor
  · intro h
    obtain ⟨buf, s', hbuf, hfields⟩ := bind_ok h
    obtain ⟨rfl, hlen⟩ := takeExact_ok hbuf
    obtain ⟨ver, rfl⟩ := List.length_eq_one_iff.mp hlen
    change (if ver ≠ 0x01 then _ else readField (takeExact eof) >>= _ : Reader _ _ _) s' =
      _ at hfields
    split at hfields
    · cases hfields
    · next hver =>
        obtain ⟨uname, s'', huname, hfields⟩ := bind_ok hfields
        obtain ⟨passwd, s''', hpasswd, hpure⟩ := bind_ok hfields
        cases hpure
        obtain ⟨hu1, hu2, rfl⟩ := readField_ok_iff.mp huname
        obtain ⟨hp1, hp2, rfl⟩ := readField_ok_iff.mp hpasswd
        refine ⟨⟨⟨hu1, hu2⟩, hp1, hp2⟩, ?_⟩
        rw [not_not.mp hver]
        simp [passwdAuth]
  · intro h
    obtain ⟨⟨⟨hu1, hu2⟩, hp1, hp2⟩, rfl⟩ := h
    have huname :=
      readField_ok_iff.mpr ⟨hu1, hu2, List.append_assoc _ (lengthPrefixed req.passwd) rest⟩
    have hpasswd : readField (takeExact eof) (lengthPrefixed req.passwd ++ rest) = .ok (req.passwd,
        rest) :=
      readField_ok_iff.mpr ⟨hp1, hp2, rfl⟩
    refine (bind_of_ok (takeExact_append eof (a := [0x01]) rfl _)).trans ?_
    exact (bind_of_ok huname).trans (bind_of_ok hpasswd)

theorem fromU8_eq_some_iff {code : UInt8} {command : Command} :
    Command.fromU8 code = some command ↔ code = command.asU8 := by
  constructor
  · intro h
    unfold Command.fromU8 at h
    split at h
    · next heq => cases h; exact heq
    · split at h
      · next heq => cases h; exact heq
      · split at h
        · next heq => cases h; exact heq
        · cases h
  · intro h
    rw [h]
    cases command <;> rfl

theorem readCommand_ok_iff {cmd : UInt8} {s rest : List UInt8} {header : TcpRequestHeader} :
    readCommand (takeExact eof) cmd s = .ok (header, rest) ↔ cmd = header.command.asU8 ∧ ∃ bytes,
      header.address.writeToBuf = some bytes ∧ header.address.received = header.address ∧
        s = bytes ++ rest := by
  unfold readCommand
  constructor
  · intro h
    cases hcommand : Command.fromU8 cmd with
    | none =>
        rw [hcommand] at h
        cases h
    | some command =>
        rw [hcommand] at h
        obtain ⟨address, s', haddress, hpure⟩ := bind_ok h
        cases hpure
        exact ⟨fromU8_eq_some_iff.mp hcommand, Address.readFrom_ok haddress⟩
  · intro h
    obtain ⟨hcmd, bytes, hwrite, hreceived, rfl⟩ := h
    rw [fromU8_eq_some_iff.mpr hcmd]
    refine (bind_of_ok (Address.readFrom_written hwrite rest)).trans ?_
    rw [hreceived]
    rfl

theorem readTcpRequest_ok_iff {s rest : List UInt8} {header : TcpRequestHeader} :
    readTcpRequest (takeExact eof) s = .ok (header, rest) ↔ ∃ rsv bytes,
      header.address.writeToBuf = some bytes ∧ header.address.received = header.address ∧
        s = [0x05, header.command.asU8, rsv] ++ (bytes ++ rest) := by
  constructor
  · intro h
    obtain ⟨buf, s', hbuf, hheader⟩ := bind_ok h
    obtain ⟨rfl, hlen⟩ := takeExact_ok hbuf
    obtain ⟨ver, cmd, rsv, rfl⟩ := List.length_eq_three.mp hlen
    change (if ver ≠ 0x05 then _ else readCommand (takeExact eof) cmd : Reader _ _ _) s' =
      _ at hheader
    split at hheader
    · cases hheader
    · next hver =>
        obtain ⟨rfl, bytes, hwrite, hreceived, rfl⟩ := readCommand_ok_iff.mp hheader
        refine ⟨rsv, bytes, hwrite, hreceived, ?_⟩
        rw [not_not.mp hver]
  · intro h
    obtain ⟨rsv, bytes, hwrite, hreceived, rfl⟩ := h
    have hlen : [0x05, header.command.asU8, rsv].length = 3 := rfl
    refine (bind_of_ok (takeExact_append eof hlen _)).trans ?_
    exact readCommand_ok_iff.mpr ⟨rfl, bytes, hwrite, hreceived, rfl⟩

/-! ## Pieces -/

section Pieces

/-! `read_exact` reads from the pieces what stands in the whole stream. -/

variable {read : Nat → Reader Socks5Error (List (List UInt8)) (List UInt8)}
  (hread : ∀ n, Follows (read n) (takeExact eof n))

include hread

theorem follows_readHandshake : Follows (readHandshake read) (readHandshake (takeExact eof)) := by
  refine follows_bind (hread 2) ?_
  intro buf
  dsimp only
  split
  · exact follows_throw _
  · exact hread _

theorem follows_readField : Follows (readField read) (readField (takeExact eof)) := by
  refine follows_bind (hread 1) ?_
  intro buf
  split
  · exact follows_throw _
  · exact hread _

theorem follows_readPasswdAuth :
    Follows (readPasswdAuth read) (readPasswdAuth (takeExact eof)) := by
  refine follows_bind (hread 1) ?_
  intro buf
  split
  · exact follows_throw _
  · refine follows_bind (follows_readField hread) ?_
    intro uname
    exact follows_bind (follows_readField hread) fun passwd => follows_pure _

theorem follows_readTcpRequest :
    Follows (readTcpRequest read) (readTcpRequest (takeExact eof)) := by
  refine follows_bind (hread 3) ?_
  intro buf
  dsimp only
  split
  · exact follows_throw _
  · unfold readCommand
    split
    · exact follows_throw _
    · exact follows_bind (Address.follows_readFrom hread) fun address => follows_pure _

end Pieces

/-- The session of the whole stream, when that of its pieces is known. -/
def Action.whole : Action (List (List UInt8)) → Action (List UInt8)
  | .closed => .closed
  | .failed => .failed
  | .refused target => .refused target
  | .tunnel target rest => .tunnel target rest.flatten
  | .associate => .associate

def Session.whole (s : Session (List (List UInt8))) : Session (List UInt8) :=
  ⟨s.output, s.action.whole⟩

namespace Socks5TcpHandler

variable {this : Socks5TcpHandler} {pieces : List (List UInt8)}

section Pieces

variable {read : Nat → Reader Socks5Error (List (List UInt8)) (List UInt8)}
  (hread : ∀ n, Follows (read n) (takeExact eof n))

include hread

theorem whole_handleRequest (h : InputStream.Arrived pieces) :
    (this.handleRequest read pieces).whole = this.handleRequest (takeExact eof) pieces.flatten := by
  unfold handleRequest
  generalize readTcpRequest read pieces = x, readTcpRequest (takeExact eof) pieces.flatten = y,
    follows_readTcpRequest hread pieces h = hagree
  cases hagree with
  | error e => rfl
  | ok header hrest =>
      dsimp only
      cases header.command with
      | tcpBind => rfl
      | udpAssociate =>
          dsimp only
          unfold handleUdpAssociate
          split
          · rfl
          · rfl
      | tcpConnect =>
          dsimp only
          unfold handleTcpConnect
          split
          · rfl
          · split
            · rfl
            · rfl

variable (this) in
theorem whole_checkAuth (h : InputStream.Arrived pieces) (methods : List UInt8) :
    (this.checkAuth (takeExact eof) methods pieces.flatten).output =
        (this.checkAuth read methods pieces).output ∧
      (this.checkAuth (takeExact eof) methods pieces.flatten).rest =
        (this.checkAuth read methods pieces).rest.map List.flatten ∧
      ∀ rest ∈ (this.checkAuth read methods pieces).rest, InputStream.Arrived rest := by
  unfold checkAuth
  split
  · simp
  · split
    · unfold checkAuthPassword
      generalize readPasswdAuth read pieces = x, readPasswdAuth (takeExact eof) pieces.flatten = y,
        follows_readPasswdAuth hread pieces h = hagree
      cases hagree with
      | error e => simp
      | ok req hrest =>
          dsimp only
          split
          · split
            · simp [hrest]
            · simp
          · simp
    · simp [h]

omit hread in
theorem whole_after (output : List UInt8) (s : Session (List (List UInt8))) :
    (s.after output).whole = s.whole.after output := rfl

/-- How what the client sends is cut does not matter. -/
theorem handleSocks5Client_pieces (h : InputStream.Arrived pieces) :
    (this.handleSocks5Client read pieces).whole =
      this.handleSocks5Client (takeExact eof) pieces.flatten := by
  unfold handleSocks5Client
  generalize readHandshake read pieces = x, readHandshake (takeExact eof) pieces.flatten = y,
    follows_readHandshake hread pieces h = hagree
  cases hagree with
  | error e =>
      dsimp only
      split
      · rfl
      · rfl
  | ok methods hrest =>
      obtain ⟨houtput, hstream, hleft⟩ := whole_checkAuth this hread hrest methods
      dsimp only
      rw [houtput, hstream]
      cases hcut : (this.checkAuth read methods _).rest with
      | none => rfl
      | some stream =>
          show ((this.handleRequest read stream).after _).whole = _
          rw [whole_after, whole_handleRequest hread (hleft stream hcut)]
          rfl

end Pieces

/-! ## Clients that are connected -/

/-- What a client sends to authenticate with a method, and what it is answered. -/
inductive Authenticates (this : Socks5TcpHandler) : UInt8 → List UInt8 → List UInt8 → Prop
  | none : Authenticates this 0x00 [] []
  | password {userName password : List Char}
      (h : (PasswdAuthRequest.mk (Utf8.encode userName) (Utf8.encode password)).Sendable)
      (huser : this.checkUser userName password = true) :
      Authenticates this 0x02 (passwdAuth ⟨Utf8.encode userName, Utf8.encode password⟩) [0x01, 0]

/-- The bytes of a client that asks for a connection to `target`, with `rest` behind them, and what
the client is sent before its request is served. -/
def Opens (this : Socks5TcpHandler) (stream : List UInt8) (target : Address)
    (rest output : List UInt8) : Prop :=
  ∃ methods method auth answer rsv bytes, methods.length ≤ 255 ∧
    this.chosenMethod methods = some method ∧
    this.Authenticates method auth answer ∧ target.writeToBuf = some bytes ∧
      target.received = target ∧
    stream = 0x05 :: (lengthPrefixed methods ++ (auth ++ ([0x05, 0x01, rsv] ++ (bytes ++ rest)))) ∧
    output = [0x05, method] ++ answer

theorem chosenMethod_some {methods : List UInt8} {method : UInt8}
    (h : this.chosenMethod methods = some method) :
    method = 0x02 ∨ method = 0x00 := by
  have hfound := List.find?_some h
  simp only [Bool.or_eq_true, Bool.and_eq_true, beq_iff_eq] at hfound
  exact hfound.imp_right And.left

theorem checkAuthPassword_iff {s output rest : List UInt8} :
    this.checkAuthPassword (takeExact eof) s = ⟨output, some rest⟩ ↔
      ∃ auth, this.Authenticates 0x02 auth output ∧ s = auth ++ rest := by
  unfold checkAuthPassword
  constructor
  · intro h
    cases hread : readPasswdAuth (takeExact eof) s with
    | error e =>
        rw [hread] at h
        cases h
    | ok x =>
        obtain ⟨req, s'⟩ := x
        rw [hread] at h
        obtain ⟨hsendable, rfl⟩ := readPasswdAuth_ok_iff.mp hread
        dsimp only at h
        split at h
        · next userName password huname hpasswd =>
            obtain ⟨uname, passwd⟩ := req
            obtain rfl := Address.fromUtf8_eq_some_iff.mp huname
            obtain rfl := Address.fromUtf8_eq_some_iff.mp hpasswd
            split at h
            · next huser =>
                cases h
                exact ⟨_, .password hsendable huser, rfl⟩
            · cases h
        · cases h
  · intro h
    obtain ⟨auth, hauth, rfl⟩ := h
    cases hauth with
    | password hsendable huser =>
        rw [readPasswdAuth_ok_iff.mpr ⟨hsendable, rfl⟩]
        dsimp only
        rw [Address.fromUtf8_eq_some_iff.mpr rfl, Address.fromUtf8_eq_some_iff.mpr rfl]
        dsimp only
        rw [if_pos huser]

theorem checkAuth_iff {methods s output rest : List UInt8} :
    this.checkAuth (takeExact eof) methods s = ⟨output, some rest⟩ ↔
      ∃ method auth answer, this.chosenMethod methods = some method ∧
        this.Authenticates method auth answer ∧
        s = auth ++ rest ∧ output = [0x05, method] ++ answer := by
  unfold checkAuth
  cases hmethod : this.chosenMethod methods with
  | none => simp
  | some method =>
      dsimp only
      rcases chosenMethod_some hmethod with rfl | rfl
      · rw [if_pos rfl]
        constructor
        · intro h
          obtain ⟨houtput, hrest⟩ := Checked.mk.inj h
          obtain ⟨auth, hauth, hs⟩ := checkAuthPassword_iff.mp (Checked.ext rfl hrest)
          exact ⟨0x02, auth, _, rfl, hauth, hs, houtput.symm⟩
        · intro h
          obtain ⟨method, auth, answer, heq, hauth, hs, rfl⟩ := h
          obtain rfl := Option.some.inj heq
          rw [checkAuthPassword_iff.mpr ⟨auth, hauth, hs⟩]
      · rw [if_neg (by decide)]
        constructor
        · intro h
          cases h
          exact ⟨0x00, [], [], rfl, .none, rfl, rfl⟩
        · intro h
          obtain ⟨method, auth, answer, heq, hauth, rfl, rfl⟩ := h
          obtain rfl := Option.some.inj heq
          cases hauth
          rfl

/-- The streams of which the server serves the request. -/
theorem handleSocks5Client_iff {stream : List UInt8} {session : Session (List UInt8)}
    (hopen : session.action ≠ .failed) (hopen' : session.action ≠ .closed) :
    this.handleSocks5Client (takeExact eof) stream = session ↔ ∃ methods opening rest,
      methods.length ≤ 255 ∧ (∃ s, this.checkAuth (takeExact eof) methods s = ⟨opening, some rest⟩ ∧
        stream = 0x05 :: (lengthPrefixed methods ++ s)) ∧
      (this.handleRequest (takeExact eof) rest).after opening = session := by
  unfold handleSocks5Client
  constructor
  · intro h
    cases hread : readHandshake (takeExact eof) stream with
    | error e =>
        rw [hread] at h
        dsimp only at h
        split at h
        · exact absurd (congrArg Session.action h).symm hopen'
        · exact absurd (congrArg Session.action h).symm hopen
    | ok x =>
        obtain ⟨methods, s⟩ := x
        rw [hread] at h
        obtain ⟨hlen, rfl⟩ := readHandshake_ok_iff.mp hread
        dsimp only at h
        cases hrest : (this.checkAuth (takeExact eof) methods s).rest with
        | none =>
            rw [hrest] at h
            exact absurd (congrArg Session.action h).symm hopen
        | some rest =>
            rw [hrest] at h
            exact ⟨methods, _, rest, hlen, ⟨s, Checked.ext rfl hrest, rfl⟩, h⟩
  · intro h
    obtain ⟨methods, opening, rest, hlen, ⟨s, hauth, rfl⟩, hsession⟩ := h
    rw [readHandshake_ok_iff.mpr ⟨hlen, rfl⟩]
    dsimp only
    rw [hauth]
    exact hsession

theorem handleTcpConnect_tunnel_iff {s rest output : List UInt8} {address target : Address} :
    this.handleTcpConnect address s = ⟨some output, .tunnel target rest⟩ ↔
      this.enableTcp = true ∧ address = target ∧ s = rest ∧
        ∃ localAddr, this.connect target = .ok localAddr ∧
        writeTcpResponse .succeeded (.socketAddress localAddr) = some output := by
  unfold handleTcpConnect
  cases this.enableTcp with
  | false => simp
  | true =>
      cases hconnect : this.connect address with
      | error kind =>
          dsimp only
          refine iff_of_false (by simp) ?_
          intro h
          obtain ⟨-, rfl, -, localAddr, hlocal, -⟩ := h
          rw [hconnect] at hlocal
          cases hlocal
      | ok localAddr =>
          simp only [Bool.not_true, Bool.false_eq_true, if_false, Session.mk.injEq,
            Action.tunnel.injEq, true_and]
          constructor
          · intro h
            obtain ⟨houtput, rfl, rfl⟩ := h
            exact ⟨rfl, rfl, localAddr, hconnect, houtput⟩
          · intro h
            obtain ⟨rfl, rfl, localAddr', hlocal, houtput⟩ := h
            rw [hconnect] at hlocal
            cases hlocal
            exact ⟨houtput, rfl, rfl⟩

theorem handleRequest_tunnel_iff {s rest output : List UInt8} {target : Address} :
    this.handleRequest (takeExact eof) s = ⟨some output, .tunnel target rest⟩ ↔
      this.enableTcp = true ∧
      ∃ rsv bytes localAddr, target.writeToBuf = some bytes ∧ target.received = target ∧
        s = [0x05, 0x01, rsv] ++ (bytes ++ rest) ∧ this.connect target = .ok localAddr ∧
        writeTcpResponse .succeeded (.socketAddress localAddr) = some output := by
  unfold handleRequest
  constructor
  · intro h
    cases hread : readTcpRequest (takeExact eof) s with
    | error e =>
        rw [hread] at h
        exact absurd (congrArg Session.action h) (by simp)
    | ok x =>
        obtain ⟨⟨command, address⟩, s'⟩ := x
        rw [hread] at h
        obtain ⟨rsv, bytes, hwrite, hreceived, rfl⟩ := readTcpRequest_ok_iff.mp hread
        cases command with
        | tcpBind => exact absurd (congrArg Session.action h) (by simp)
        | udpAssociate =>
            change this.handleUdpAssociate address = _ at h
            unfold handleUdpAssociate at h
            split at h
            · exact absurd (congrArg Session.action h) (by simp)
            · exact absurd (congrArg Session.action h) (by simp)
        | tcpConnect =>
            obtain ⟨henable, rfl, rfl, localAddr, hconnect, houtput⟩ :=
              handleTcpConnect_tunnel_iff.mp h
            exact ⟨henable, rsv, bytes, localAddr, hwrite, hreceived, rfl, hconnect, houtput⟩
  · intro h
    obtain ⟨henable, rsv, bytes, localAddr, hwrite, hreceived, rfl, hconnect, houtput⟩ := h
    have hread : readTcpRequest (takeExact eof) ([0x05, 0x01, rsv] ++ (bytes ++ rest)) =
        .ok (⟨.tcpConnect, target⟩, rest) :=
          readTcpRequest_ok_iff.mpr ⟨rsv, bytes, hwrite, hreceived, rfl⟩
    rw [hread]
    exact handleTcpConnect_tunnel_iff.mpr ⟨henable, rfl, rfl, localAddr, hconnect, houtput⟩

theorem after_eq_tunnel_iff {opening output rest : List UInt8} {target : Address}
    {s : Session (List UInt8)} :
    s.after opening = ⟨some output, .tunnel target rest⟩ ↔
      ∃ response, s = ⟨some response, .tunnel target rest⟩ ∧ output = opening ++ response := by
  obtain ⟨sent, action⟩ := s
  cases sent with
  | none => simp [Session.after]
  | some response => simp [Session.after, eq_comm, and_comm]

/-- A tunnel is opened for exactly the clients that ask for it. They are sent the chosen method, the
answer to their password if they sent one, and the response with the local address of the tunnel. -/
theorem tunnel_iff {stream rest output : List UInt8} {target : Address} :
    this.handleSocks5Client (takeExact eof) stream = ⟨some output, .tunnel target rest⟩ ↔
      this.enableTcp = true ∧ ∃ opening localAddr response, this.Opens stream target rest opening ∧
        this.connect target = .ok localAddr ∧
        writeTcpResponse .succeeded (.socketAddress localAddr) = some response ∧
        output = opening ++ response := by
  rw [handleSocks5Client_iff (by simp) (by simp)]
  constructor
  · intro h
    obtain ⟨methods, opening, s, hlen, ⟨s', hauth, rfl⟩, hsession⟩ := h
    obtain ⟨response, hrequest, rfl⟩ := after_eq_tunnel_iff.mp hsession
    obtain ⟨henable, rsv, bytes, localAddr, hwrite, hreceived, rfl, hconnect, hresponse⟩ :=
      handleRequest_tunnel_iff.mp hrequest
    obtain ⟨method, auth, answer, hmethod, hsent, rfl, rfl⟩ := checkAuth_iff.mp hauth
    exact ⟨henable, _, localAddr, response,
      ⟨methods, method, auth, answer, rsv, bytes, hlen, hmethod, hsent, hwrite, hreceived,
        rfl, rfl⟩,
      hconnect, hresponse, rfl⟩
  · intro h
    obtain ⟨henable, opening, localAddr, response, hopens, hconnect, hresponse, rfl⟩ := h
    obtain ⟨methods, method, auth, answer, rsv, bytes, hlen, hmethod, hauth, hwrite, hreceived, rfl,
        rfl⟩ := hopens
    refine ⟨methods, _, _, hlen,
      ⟨_, checkAuth_iff.mpr ⟨method, auth, answer, hmethod, hauth, rfl, rfl⟩, rfl⟩, ?_⟩
    refine after_eq_tunnel_iff.mpr ⟨response, handleRequest_tunnel_iff.mpr ?_, rfl⟩
    exact ⟨henable, rsv, bytes, localAddr, hwrite, hreceived, rfl, hconnect, hresponse⟩

/-- Whatever pieces its bytes arrive in, a client gets a tunnel exactly if it opens the session as
the protocol says, with a method the server takes. Of `read_exact` it needs that it reads from the
pieces what stands in the whole stream, as `AsyncRead.readExact` does. -/
theorem socks5_connects_iff (this : Socks5TcpHandler)
    (read : Nat → Reader Socks5Error (List (List UInt8)) (List UInt8))
    (hread : ∀ n, Follows (read n) (takeExact eof n)) (pieces : List (List UInt8))
    (harrived : InputStream.Arrived pieces) (target : Address) (rest output : List UInt8) :
    (∃ left, this.handleSocks5Client read pieces = ⟨some output, .tunnel target left⟩ ∧
        left.flatten = rest) ↔
      this.enableTcp = true ∧ ∃ opening localAddr response,
        this.Opens pieces.flatten target rest opening ∧ this.connect target = .ok localAddr ∧
        writeTcpResponse .succeeded (.socketAddress localAddr) = some response ∧
        output = opening ++ response := by
  rw [← tunnel_iff, ← handleSocks5Client_pieces hread harrived]
  generalize this.handleSocks5Client read pieces = session
  obtain ⟨sent, action⟩ := session
  cases action <;> simp [Session.whole, Action.whole, and_assoc]

/-- A handler as the app configures it, with a connection that always succeeds. -/
def sampleHandler : Socks5TcpHandler where
  passwd := []
  enableTcp := true
  udpBindAddr := none
  peerAddr := .v4 #v[127, 0, 0, 1] 40000
  connect := fun _ => .ok (.v4 #v[10, 0, 0, 2] 50000)

theorem socks5_connects_iff_sample : ∃ left,
    sampleHandler.handleSocks5Client (readExact eof)
        [[0x05, 0x02, 0x01], [0x00, 0x05], [0x01, 0x00, 0x03, 0x01, 0x61, 0x00],
          [0x50, 0x47, 0x45]] =
      ⟨some [0x05, 0x00, 0x05, 0x00, 0x00, 0x01, 10, 0, 0, 2, 0xC3, 0x50],
        .tunnel (.domainNameAddress ['a'] 80) left⟩ ∧ left.flatten = [0x47, 0x45] := by
  have harrived : InputStream.Arrived
      [[0x05, 0x02, 0x01], [0x00, 0x05], [0x01, 0x00, 0x03, 0x01, 0x61, 0x00],
        [(0x50 : UInt8), 0x47, 0x45]] := by
    intro piece hpiece hnil
    rw [hnil] at hpiece
    simp at hpiece
  refine (socks5_connects_iff sampleHandler _ (follows_readExact eof) _ harrived _ _ _).mpr
    ⟨rfl, [0x05, 0x00], _, _, ?_, rfl, rfl, by decide⟩
  exact ⟨[0x01, 0x00], 0x00, [], [], 0x00, [0x03, 0x01, 0x61, 0x00, 0x50],
    by decide, by decide, .none, by decide, rfl, by decide, rfl⟩

/-- Without users a client that offers a password before it offers to go without is asked for the
password, and none is right: who gets a tunnel was asked for none. -/
theorem opening_without_users {stream rest output : List UInt8} {target : Address}
    (h : this.passwd = [])
    (hopens : this.Opens stream target rest output) : output = [0x05, 0x00] := by
  obtain ⟨methods, method, auth, answer, rsv, bytes, -, -, hauth, -, -, -, rfl⟩ := hopens
  cases hauth with
  | none => rfl
  | password hsendable huser =>
      unfold checkUser at huser
      rw [h] at huser
      cases huser

end Socks5TcpHandler

end CypherConnect.SsLocal
