/-
  The SOCKS5 addresses of `ss-local`, `relay/socks5.rs`. An address is read in two ways: `read_from`
  reads from a stream, whose end is an error, and `read_cursor` reads from a packet and checks by
  hand what is left of it. For a domain name it does not check that the port is there, and `get_u16`
  panics.

  * `follows_readFrom`: how the stream is cut into pieces does not matter.
  * `address_read_iff_written`: `read_from` accepts what `write_to_buf` writes, and nothing else.
  * `cursor_panics_iff`: `read_cursor` accepts the same, and panics exactly at a name without its
    port.
-/
import CypherConnect.Lib.AsyncRead
import CypherConnect.Lib.BigEndian
import CypherConnect.Lib.Utf8

namespace CypherConnect.SsLocal

open AsyncRead

/-- `SocketAddr`. An IPv6 address is taken by its octets, of which the segments are pairs. -/
inductive SocketAddr where
  | v4 (ip : Vector UInt8 4) (port : UInt16)
  | v6 (ip : Vector UInt8 16) (port : UInt16) (flowinfo scopeId : UInt32)
  deriving DecidableEq, Repr

inductive Address where
  | socketAddress (addr : SocketAddr)
  | domainNameAddress (name : List Char) (port : UInt16)
  deriving DecidableEq, Repr

inductive Reply where
  | succeeded
  | generalFailure
  | connectionNotAllowed
  | networkUnreachable
  | hostUnreachable
  | connectionRefused
  | ttlExpired
  | commandNotSupported
  | addressTypeNotSupported
  | otherReply (code : UInt8)
  deriving DecidableEq, Repr

/-- `io::ErrorKind`, as far as it is asked for. -/
inductive ErrorKind where
  | unexpectedEof
  | connectionRefused
  | connectionAborted
  | writeZero
  | other
  deriving DecidableEq, Repr

/-- `Error` of `socks5.rs`. -/
inductive Socks5Error where
  | ioError (kind : ErrorKind)
  | addressTypeNotSupported (code : UInt8)
  | addressDomainInvalidEncoding
  | unsupportedSocksVersion (code : UInt8)
  | unsupportedCommand (code : UInt8)
  | unsupportedPasswdAuthVersion (code : UInt8)
  | passwdAuthInvalidRequest
  | reply (reply : Reply)
  deriving DecidableEq, Repr

/-- The error of `read_exact` at the end of a stream. -/
def eof : Socks5Error := .ioError .unexpectedEof

/-- `String::from_utf8`. -/
def fromUtf8 (bytes : List UInt8) : Option (List Char) :=
  if Utf8.encode (Utf8.decode bytes) = bytes then some (Utf8.decode bytes) else none

/-- The first `n` octets of a buffer. -/
def octets (n : Nat) (buf : List UInt8) : Vector UInt8 n := Vector.ofFn fun i => buf.getD i 0

/-- `u16::from_be` and `get_u16`. -/
def u16 (buf : List UInt8) : UInt16 := UInt16.ofNat (BigEndian.value buf)

/-- `put_u16`. -/
def putU16 (n : UInt16) : List UInt8 := BigEndian.bytes 2 n.toNat

namespace Address

/-! ## Writing and reading -/

/-- `write_domain_name_address`, with the bytes of the name; `none` is the panic of the
assertion. -/
def writeDomainNameAddress (dnaddr : List UInt8) (port : UInt16) : Option (List UInt8) :=
  if dnaddr.length ≤ 255 then some (0x03 :: UInt8.ofNat dnaddr.length :: (dnaddr ++ putU16 port))
  else none

/-- `write_to_buf`. -/
def writeToBuf : Address → Option (List UInt8)
  | .socketAddress (.v4 ip port) => some (0x01 :: (ip.toList ++ putU16 port))
  | .socketAddress (.v6 ip port _ _) => some (0x04 :: (ip.toList ++ putU16 port))
  | .domainNameAddress name port => writeDomainNameAddress (Utf8.encode name) port

def serializedLen : Address → Nat
  | .socketAddress (.v4 _ _) => 1 + 4 + 2
  | .socketAddress (.v6 _ _ _ _) => 1 + 8 * 2 + 2
  | .domainNameAddress name _ => 1 + 1 + (Utf8.encode name).length + 2

section Reading

variable {σ : Type} (readExact : Nat → Reader Socks5Error σ (List UInt8))

/-- The branches of `read_from`, behind the type of the address. -/
def readIpv4 : Reader Socks5Error σ Address := do
  let buf ← readExact 6
  pure (.socketAddress (.v4 (octets 4 buf) (u16 (buf.drop 4))))

def readIpv6 : Reader Socks5Error σ Address := do
  let buf ← readExact 18
  pure (.socketAddress (.v6 (octets 16 buf) (u16 (buf.drop 16)) 0 0))

/-- A name of `length` bytes, and the port. -/
def readName (length : Nat) : Reader Socks5Error σ Address := do
  let rawAddr ← readExact (length + 2)
  match fromUtf8 (rawAddr.take length) with
  | some addr => pure (.domainNameAddress addr (u16 (rawAddr.drop length)))
  | none => throw .addressDomainInvalidEncoding

def readDomainName : Reader Socks5Error σ Address := do
  let lengthBuf ← readExact 1
  readName readExact (lengthBuf.headD 0).toNat

def readBody (addrType : UInt8) : Reader Socks5Error σ Address :=
  if addrType = 0x01 then readIpv4 readExact
  else if addrType = 0x04 then readIpv6 readExact
  else if addrType = 0x03 then readDomainName readExact
  else throw (.addressTypeNotSupported addrType)

/-- `read_from`, on a stream that `readExact` reads from. -/
def readFrom : Reader Socks5Error σ Address := do
  let addrTypeBuf ← readExact 1
  readBody readExact (addrTypeBuf.headD 0)

end Reading

/-- How a call of `read_cursor` ends. -/
inductive CursorResult where
  | ok (address : Address) (rest : List UInt8)
  | error (e : Socks5Error)
  | panic
  deriving DecidableEq, Repr

/-- The branch of `read_cursor` for a name, behind its length. `get_u16` panics if less than two
bytes are left. -/
def readCursorName (domainLen : Nat) (cur : List UInt8) : CursorResult :=
  if cur.length < domainLen then .error .addressDomainInvalidEncoding
  else if (cur.drop domainLen).length < 2 then .panic
  else
    match fromUtf8 (cur.take domainLen) with
    | some addr =>
        .ok (.domainNameAddress addr (u16 ((cur.drop domainLen).take 2))) (cur.drop (domainLen + 2))
    | none => .error .addressDomainInvalidEncoding

/-- `read_cursor`, on what is left of the buffer. -/
def readCursor : List UInt8 → CursorResult
  | atyp :: first :: cur =>
      if atyp = 0x01 then
        if (first :: cur).length < 4 + 2 then .error (.ioError .other)
        else .ok (.socketAddress
          (.v4 (octets 4 (first :: cur)) (u16 (((first :: cur).drop 4).take 2))))
          ((first :: cur).drop 6)
      else if atyp = 0x04 then
        if (first :: cur).length < 16 + 2 then .error (.ioError .other)
        else .ok (.socketAddress
          (.v6 (octets 16 (first :: cur)) (u16 (((first :: cur).drop 16).take 2)) 0 0))
          ((first :: cur).drop 18)
      else if atyp = 0x03 then readCursorName first.toNat cur
      else .error (.addressTypeNotSupported atyp)
  | _ => .error (.ioError .other)

/-! ## What is written is read -/

/-- The address without what is not written. -/
def received : Address → Address
  | .socketAddress (.v6 ip port _ _) => .socketAddress (.v6 ip port 0 0)
  | a => a

theorem fromUtf8_eq_some_iff {bytes : List UInt8} {s : List Char} :
    fromUtf8 bytes = some s ↔ Utf8.encode s = bytes := by
  unfold fromUtf8
  constructor
  · intro h
    split at h
    · next heq =>
        rw [← Option.some.inj h]
        exact heq
    · cases h
  · intro h
    rw [← h, Utf8.decode_encode, if_pos rfl]

theorem toList_octets {n : Nat} {buf : List UInt8} (h : n ≤ buf.length) :
    (octets n buf).toList = buf.take n := by
  apply List.ext_getElem
  · simp [h]
  · intro i h1 h2
    have hi : i < n := by simpa using h1
    simp [octets, List.getElem?_eq_getElem (show i < buf.length by omega)]

theorem octets_append {n : Nat} (ip : Vector UInt8 n) (r : List UInt8) :
    octets n (ip.toList ++ r) = ip := by
  apply Vector.toList_inj.mp
  rw [toList_octets (by simp), List.take_left' (by simp)]

theorem length_putU16 (n : UInt16) : (putU16 n).length = 2 := BigEndian.length_bytes 2 n.toNat

theorem u16_putU16 (n : UInt16) : u16 (putU16 n) = n := by
  unfold u16 putU16
  have hlt : n.toNat < 256 ^ 2 := n.toNat_lt
  rw [BigEndian.value_bytes, Nat.mod_eq_of_lt hlt, UInt16.ofNat_toNat]

theorem putU16_u16 {buf : List UInt8} (h : buf.length = 2) : putU16 (u16 buf) = buf := by
  have hlt : BigEndian.value buf < 2 ^ 16 := by
    have := BigEndian.value_lt buf
    rw [h] at this
    exact this
  unfold u16 putU16
  rw [UInt16.toNat_ofNat', Nat.mod_eq_of_lt hlt, ← h, BigEndian.bytes_value]

/-- `serialized_len` is the length of what is written. -/
theorem length_writeToBuf {address : Address} {bytes : List UInt8}
    (h : address.writeToBuf = some bytes) :
    bytes.length = address.serializedLen := by
  match address with
  | .socketAddress (.v4 ip port) =>
      cases h
      simp [serializedLen, length_putU16]
  | .socketAddress (.v6 ip port flowinfo scopeId) =>
      cases h
      simp [serializedLen, length_putU16]
  | .domainNameAddress name port =>
      change writeDomainNameAddress (Utf8.encode name) port = some bytes at h
      unfold writeDomainNameAddress at h
      split at h
      · cases h
        simp [serializedLen, length_putU16]
        omega
      · cases h

theorem four_le_serializedLen (address : Address) : 4 ≤ address.serializedLen := by
  unfold serializedLen
  split <;> omega

/-- How the stream arrives does not matter. -/
theorem follows_readFrom {read : Nat → Reader Socks5Error (List (List UInt8)) (List UInt8)}
    (hread : ∀ n, Follows (read n) (takeExact eof n)) :
    Follows (readFrom read) (readFrom (takeExact eof)) := by
  have hname (length : Nat) : Follows (readName read length) (readName (takeExact eof) length) := by
    refine follows_bind (hread _) ?_
    intro rawAddr
    split
    · exact follows_pure _
    · exact follows_throw _
  refine follows_bind (hread 1) ?_
  intro addrTypeBuf
  unfold readBody
  split
  · exact follows_bind (hread 6) fun buf => follows_pure _
  · split
    · exact follows_bind (hread 18) fun buf => follows_pure _
    · split
      · exact follows_bind (hread 1) fun lengthBuf => hname _
      · exact follows_throw _

theorem readFrom_cons (addrType : UInt8) (s : List UInt8) :
    readFrom (takeExact eof) (addrType :: s) = readBody (takeExact eof) addrType s :=
  bind_of_ok (takeExact_append eof (a := [addrType]) rfl s)

theorem readDomainName_cons (length : UInt8) (s : List UInt8) :
    readDomainName (takeExact eof) (length :: s) = readName (takeExact eof) length.toNat s :=
  bind_of_ok (takeExact_append eof (a := [length]) rfl s)

theorem readIpv4_append {buf : List UInt8} (h : buf.length = 6) (rest : List UInt8) :
    readIpv4 (takeExact eof) (buf ++ rest) =
      .ok (.socketAddress (.v4 (octets 4 buf) (u16 (buf.drop 4))), rest) :=
  bind_of_ok (takeExact_append eof h rest)

theorem readIpv6_append {buf : List UInt8} (h : buf.length = 18) (rest : List UInt8) :
    readIpv6 (takeExact eof) (buf ++ rest) =
      .ok (.socketAddress (.v6 (octets 16 buf) (u16 (buf.drop 16)) 0 0), rest) :=
  bind_of_ok (takeExact_append eof h rest)

theorem readName_append (name : List Char) (port : UInt16) (rest : List UInt8) :
    readName (takeExact eof) (Utf8.encode name).length (Utf8.encode name ++ putU16 port ++ rest) =
      .ok (.domainNameAddress name port, rest) := by
  have hlen : (Utf8.encode name ++ putU16 port).length = (Utf8.encode name).length + 2 := by
    rw [List.length_append, length_putU16]
  unfold readName
  rw [bind_of_ok (takeExact_append eof hlen rest), List.take_left, List.drop_left,
    fromUtf8_eq_some_iff.mpr rfl, u16_putU16]
  rfl

/-- What is written is read. -/
theorem readFrom_written {address : Address} {bytes : List UInt8}
    (h : address.writeToBuf = some bytes) (rest : List UInt8) :
    readFrom (takeExact eof) (bytes ++ rest) = .ok (address.received, rest) := by
  match address with
  | .socketAddress (.v4 ip port) =>
      cases h
      have hlen : (ip.toList ++ putU16 port).length = 6 := by simp [length_putU16]
      rw [List.cons_append, readFrom_cons]
      show readIpv4 _ _ = _
      rw [readIpv4_append hlen, octets_append, List.drop_left' (by simp), u16_putU16]
      rfl
  | .socketAddress (.v6 ip port flowinfo scopeId) =>
      cases h
      have hlen : (ip.toList ++ putU16 port).length = 18 := by simp [length_putU16]
      rw [List.cons_append, readFrom_cons]
      show readIpv6 _ _ = _
      rw [readIpv6_append hlen, octets_append, List.drop_left' (by simp), u16_putU16]
      rfl
  | .domainNameAddress name port =>
      change writeDomainNameAddress (Utf8.encode name) port = some bytes at h
      unfold writeDomainNameAddress at h
      split at h
      · next hle =>
          cases h
          have hlen : (UInt8.ofNat (Utf8.encode name).length).toNat =
              (Utf8.encode name).length := by
            rw [UInt8.toNat_ofNat']
            omega
          rw [List.cons_append, readFrom_cons]
          show readDomainName _ _ = _
          rw [List.cons_append, readDomainName_cons, hlen, readName_append]
          rfl
      · cases h

theorem readIpv4_ok {address : Address} {s rest : List UInt8}
    (h : readIpv4 (takeExact eof) s = .ok (address, rest)) :
    ∃ bytes, address.writeToBuf = some (0x01 :: bytes) ∧ address.received = address ∧
      s = bytes ++ rest := by
  obtain ⟨buf, s', hbuf, hpure⟩ := bind_ok h
  obtain ⟨rfl, hlen⟩ := takeExact_ok hbuf
  cases hpure
  refine ⟨buf, ?_, rfl, rfl⟩
  show some (_ :: ((octets _ buf).toList ++ putU16 (u16 _))) = _
  rw [toList_octets (by omega), putU16_u16 (by rw [List.length_drop]; omega), List.take_append_drop]

theorem readIpv6_ok {address : Address} {s rest : List UInt8}
    (h : readIpv6 (takeExact eof) s = .ok (address, rest)) :
    ∃ bytes, address.writeToBuf = some (0x04 :: bytes) ∧ address.received = address ∧
      s = bytes ++ rest := by
  obtain ⟨buf, s', hbuf, hpure⟩ := bind_ok h
  obtain ⟨rfl, hlen⟩ := takeExact_ok hbuf
  cases hpure
  refine ⟨buf, ?_, rfl, rfl⟩
  show some (_ :: ((octets _ buf).toList ++ putU16 (u16 _))) = _
  rw [toList_octets (by omega), putU16_u16 (by rw [List.length_drop]; omega), List.take_append_drop]

theorem readDomainName_ok {address : Address} {s rest : List UInt8}
    (h : readDomainName (takeExact eof) s = .ok (address, rest)) :
    ∃ bytes, address.writeToBuf = some (0x03 :: bytes) ∧ address.received = address ∧
      s = bytes ++ rest := by
  obtain ⟨lengthBuf, s', hlength, hread⟩ := bind_ok h
  obtain ⟨rfl, hone⟩ := takeExact_ok hlength
  obtain ⟨length, rfl⟩ := List.length_eq_one_iff.mp hone
  obtain ⟨rawAddr, s'', hraw, hmatch⟩ := bind_ok hread
  obtain ⟨rfl, hlen⟩ := takeExact_ok hraw
  rw [List.headD_cons] at hlen hmatch
  cases hname : fromUtf8 (rawAddr.take length.toNat) with
  | some name =>
      rw [hname] at hmatch
      cases hmatch
      have hencode := fromUtf8_eq_some_iff.mp hname
      have hbytes : (Utf8.encode name).length = length.toNat := by
        rw [hencode, List.length_take_of_le (by omega)]
      refine ⟨length :: rawAddr, ?_, rfl, rfl⟩
      have hlt := length.toNat_lt
      show writeDomainNameAddress (Utf8.encode name) _ = _
      unfold writeDomainNameAddress
      rw [hbytes, if_pos (by omega), UInt8.ofNat_toNat, hencode,
        putU16_u16 (by rw [List.length_drop]; omega), List.take_append_drop]
  | none =>
      rw [hname] at hmatch
      cases hmatch

/-- What is read was written so. -/
theorem readFrom_ok {address : Address} {s rest : List UInt8}
    (h : readFrom (takeExact eof) s = .ok (address, rest)) :
    ∃ bytes, address.writeToBuf = some bytes ∧ address.received = address ∧ s = bytes ++ rest := by
  obtain ⟨head, s', hhead, hbody⟩ := bind_ok h
  obtain ⟨rfl, hlen⟩ := takeExact_ok hhead
  obtain ⟨addrType, rfl⟩ := List.length_eq_one_iff.mp hlen
  rw [List.headD_cons, readBody] at hbody
  split at hbody
  · next htype =>
      obtain ⟨bytes, hwrite, hreceived, rfl⟩ := readIpv4_ok hbody
      exact ⟨_, hwrite, hreceived, by rw [htype]; rfl⟩
  · split at hbody
    · next htype =>
        obtain ⟨bytes, hwrite, hreceived, rfl⟩ := readIpv6_ok hbody
        exact ⟨_, hwrite, hreceived, by rw [htype]; rfl⟩
    · split at hbody
      · next htype =>
          obtain ⟨bytes, hwrite, hreceived, rfl⟩ := readDomainName_ok hbody
          exact ⟨_, hwrite, hreceived, by rw [htype]; rfl⟩
      · cases hbody

/-- A stream starts with an address exactly if it starts with the bytes that are written for it. -/
theorem readFrom_whole_iff {address : Address} {s rest : List UInt8} :
    readFrom (takeExact eof) s = .ok (address, rest) ↔
      ∃ bytes, address.writeToBuf = some bytes ∧ address.received = address ∧
        s = bytes ++ rest := by
  constructor
  · exact readFrom_ok
  · intro h
    obtain ⟨bytes, hwrite, hreceived, rfl⟩ := h
    rw [readFrom_written hwrite, hreceived]

/-! ## Packets -/

/-- A name whose port is not there. -/
def LacksPort (cur : List UInt8) : Prop :=
  ∃ length name port, cur = 0x03 :: length :: (name ++ port) ∧ name.length = length.toNat ∧
    port.length < 2

theorem octets_take {n k : Nat} (h : n ≤ k) (buf : List UInt8) :
    octets n (buf.take k) = octets n buf := by
  unfold octets
  congr 1
  funext i
  simp [show i.val < k by omega]

theorem readIpv4_eq (s : List UInt8) : readIpv4 (takeExact eof) s =
    if 6 ≤ s.length then
      .ok (.socketAddress (.v4 (octets 4 s) (u16 ((s.drop 4).take 2))), s.drop 6)
    else .error eof := by
  unfold readIpv4
  rw [bind_takeExact, octets_take (by omega), List.drop_take]
  rfl

theorem readIpv6_eq (s : List UInt8) : readIpv6 (takeExact eof) s =
    if 18 ≤ s.length then
      .ok (.socketAddress (.v6 (octets 16 s) (u16 ((s.drop 16).take 2)) 0 0), s.drop 18)
    else .error eof := by
  unfold readIpv6
  rw [bind_takeExact, octets_take (by omega), List.drop_take]
  rfl

theorem readName_eq (length : Nat) (s : List UInt8) : readName (takeExact eof) length s =
    if length + 2 ≤ s.length then
      match fromUtf8 (s.take length) with
      | some addr =>
          .ok (.domainNameAddress addr (u16 ((s.drop length).take 2)), s.drop (length + 2))
      | none => .error .addressDomainInvalidEncoding
    else .error eof := by
  unfold readName
  rw [bind_takeExact, List.take_take, List.drop_take, Nat.min_eq_left (by omega),
    Nat.add_sub_cancel_left]
  cases fromUtf8 (s.take length) with
  | some addr => rfl
  | none => rfl

theorem readCursorName_ok_iff {length : Nat} {cur rest : List UInt8} {address : Address} :
    readCursorName length cur = .ok address rest ↔
      readName (takeExact eof) length cur = .ok (address, rest) := by
  rw [readName_eq, readCursorName, List.length_drop]
  by_cases hlen : length + 2 ≤ cur.length
  · rw [if_neg (by omega), if_neg (by omega), if_pos hlen]
    cases fromUtf8 (cur.take length) with
    | some addr => simp
    | none => simp
  · rw [if_neg hlen]
    refine iff_of_false ?_ (by simp)
    split
    · simp
    · rw [if_pos (by omega)]
      simp

/-- Only the port can be missing. -/
theorem readCursorName_panic_iff {length : Nat} {cur : List UInt8} :
    readCursorName length cur = .panic ↔ length ≤ cur.length ∧ cur.length < length + 2 := by
  rw [readCursorName, List.length_drop]
  by_cases hname : cur.length < length
  · rw [if_pos hname]
    exact iff_of_false (by simp) (by omega)
  · rw [if_neg hname]
    by_cases hport : cur.length - length < 2
    · rw [if_pos hport]
      exact iff_of_true rfl (by omega)
    · rw [if_neg hport]
      refine iff_of_false ?_ (by omega)
      cases fromUtf8 (cur.take length) with
      | some addr => simp
      | none => simp

theorem readFrom_short {cur rest : List UInt8} {address : Address} (h : cur.length < 4) :
    readFrom (takeExact eof) cur ≠ .ok (address, rest) := by
  intro hread
  obtain ⟨bytes, hwrite, -, rfl⟩ := readFrom_ok hread
  have hlen := length_writeToBuf hwrite
  have hmin := four_le_serializedLen address
  rw [List.length_append] at h
  omega

/-- On packets the two readers accept the same. -/
theorem readCursor_ok_iff {cur rest : List UInt8} {address : Address} :
    readCursor cur = .ok address rest ↔ readFrom (takeExact eof) cur = .ok (address, rest) := by
  match cur with
  | [] => exact iff_of_false (by simp [readCursor]) (readFrom_short (by simp))
  | [atyp] => exact iff_of_false (by simp [readCursor]) (readFrom_short (by simp))
  | atyp :: first :: cur =>
      rw [readFrom_cons, readCursor, readBody]
      by_cases h4 : atyp = 0x01
      · rw [if_pos h4, if_pos h4, readIpv4_eq]
        by_cases hlen : 6 ≤ (first :: cur).length
        · rw [if_neg (by omega), if_pos hlen]
          simp
        · rw [if_pos (by omega), if_neg hlen]
          simp
      · rw [if_neg h4, if_neg h4]
        by_cases h6 : atyp = 0x04
        · rw [if_pos h6, if_pos h6, readIpv6_eq]
          by_cases hlen : 18 ≤ (first :: cur).length
          · rw [if_neg (by omega), if_pos hlen]
            simp
          · rw [if_pos (by omega), if_neg hlen]
            simp
        · rw [if_neg h6, if_neg h6]
          by_cases hname : atyp = 0x03
          · rw [if_pos hname, if_pos hname, readDomainName_cons]
            exact readCursorName_ok_iff
          · rw [if_neg hname, if_neg hname]
            exact iff_of_false (by simp)
              (by simp [throw, throwThe, MonadExceptOf.throw, StateT.lift])

theorem readCursor_panic_iff {cur : List UInt8} : readCursor cur = .panic ↔ LacksPort cur := by
  constructor
  · intro h
    match cur with
    | atyp :: first :: cur =>
        rw [readCursor] at h
        split at h
        · split at h <;> cases h
        · split at h
          · split at h <;> cases h
          · split at h
            · next hname =>
                obtain ⟨hle, hlt⟩ := readCursorName_panic_iff.mp h
                refine ⟨first, cur.take first.toNat, cur.drop first.toNat, ?_,
                  List.length_take_of_le hle, ?_⟩
                · rw [hname, List.take_append_drop]
                · rw [List.length_drop]
                  omega
            · cases h
  · intro h
    obtain ⟨length, name, port, rfl, hname, hport⟩ := h
    show readCursorName length.toNat (name ++ port) = .panic
    rw [readCursorName_panic_iff, List.length_append]
    omega

/-! ## Results -/

/-- `read_from` accepts what `write_to_buf` writes and nothing else, and leaves the rest of the
stream, however the stream is cut into pieces. Of `read_exact` it needs that it reads from the
pieces what stands in the whole stream, as `AsyncRead.readExact` does. -/
theorem address_read_iff_written (read : Nat → Reader Socks5Error (List (List UInt8)) (List UInt8))
    (hread : ∀ n, Follows (read n) (takeExact eof n)) (address : Address)
    (pieces : List (List UInt8)) (rest : List UInt8) (harrived : InputStream.Arrived pieces) :
    (∃ left, readFrom read pieces = .ok (address, left) ∧ left.flatten = rest) ↔
      ∃ bytes, address.writeToBuf = some bytes ∧ address.received = address ∧
        pieces.flatten = bytes ++ rest := by
  rw [← readFrom_whole_iff]
  generalize hcut : readFrom read pieces = x, hwhole : readFrom (takeExact eof) pieces.flatten = y
  have hagree := follows_readFrom hread pieces harrived
  rw [hcut, hwhole] at hagree
  cases hagree with
  | ok b hrest => simp
  | error e => simp

/-- Two addresses in five pieces, one byte alone. -/
theorem address_read_iff_written_pieces : ∃ left,
    readFrom (readExact eof) [[0x03, 0x02], [0x61], [0x62, 0x00], [0x50, 0x01], [0x7F, 0x00]] =
      .ok (.domainNameAddress ['a', 'b'] 80, left) ∧ left.flatten = [0x01, 0x7F, 0x00] := by
  refine (address_read_iff_written _ (follows_readExact eof) _ _ _ ?_).mpr
    ⟨[0x03, 0x02, 0x61, 0x62, 0x00, 0x50], by decide, rfl, rfl⟩
  intro piece hpiece hnil
  rw [hnil] at hpiece
  simp at hpiece

/-- `read_cursor` accepts the same packets. It panics exactly if the two bytes of the port are not
there behind a name that is. -/
theorem cursor_panics_iff (cur : List UInt8) : (readCursor cur = .panic ↔ LacksPort cur) ∧
    ∀ address rest, readCursor cur = .ok address rest ↔
      ∃ bytes, address.writeToBuf = some bytes ∧ address.received = address ∧
        cur = bytes ++ rest := by
  refine ⟨readCursor_panic_iff, ?_⟩
  intro address rest
  rw [readCursor_ok_iff, readFrom_whole_iff]

example : readCursor [0x03, 0x01, 0x61, 0x00] = .panic := by decide

end Address

end CypherConnect.SsLocal
