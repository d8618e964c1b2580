/-
  `obfs_tls.c`: the answers of a server, disguised as the end of a handshake and then as application
  data, and what the client takes out of them.

  * `deobfsTlsResponse_first`, `deobfsTlsResponse_next`: behind the handshake the client reads byte
    by byte what `Frame.step` reads, from a frame of which the whole first message is missing.
  * `feed_responses`: that gives what was disguised.
-/
import CypherConnect.SimpleObfs.AppData

namespace CypherConnect.SimpleObfs

open Transducer

/-- `obfs_t`. -/
structure Obfs where
  obfsStage : Int := 0
  deobfsStage : Int := 0
  buf : Option (Vector UInt8 32) := none
  extra : Option Frame := none
  deriving DecidableEq, Repr

/-- What `time` and `rand_bytes` give for one hello. -/
structure Random where
  unixTime : Vector UInt8 4
  bytes : Vector UInt8 28
  sessionId : Vector UInt8 32

/-- `sizeof(struct tls_server_hello)`. -/
def serverHelloLen : Nat := 96

/-- `sizeof(struct tls_change_cipher_spec)`. -/
def changeCipherSpecLen : Nat := 6

/-- `sizeof(struct tls_encrypted_handshake)`. -/
def encryptedHandshakeLen : Nat := 5

/-- `tls_server_hello_template` with its fields set. -/
def tlsServerHello (random : Random) (sessionId : Vector UInt8 32) : List UInt8 :=
  -- content_type, version, len
  [0x16] ++ BigEndian.bytes 2 0x0301 ++ BigEndian.bytes 2 91 ++
  -- handshake_type, handshake_len_1, handshake_len_2, handshake_version
  [2] ++ [0] ++ BigEndian.bytes 2 87 ++ BigEndian.bytes 2 0x0303 ++
  random.unixTime.toList ++ random.bytes.toList ++ [32] ++ sessionId.toList ++
  -- cipher_suite, comp_method, ext_len
  BigEndian.bytes 2 0xCCA8 ++ [0] ++ BigEndian.bytes 2 0 ++
  -- ext_renego_info, extended_master_secret, ec_point_formats
  BigEndian.bytes 2 0xFF01 ++ BigEndian.bytes 2 1 ++ [0] ++
  BigEndian.bytes 2 0x0017 ++ BigEndian.bytes 2 0 ++
  BigEndian.bytes 2 0x000B ++ BigEndian.bytes 2 2 ++ [1] ++ [0]

/-- `tls_change_cipher_spec_template`. -/
def tlsChangeCipherSpec : List UInt8 :=
  [0x14] ++ BigEndian.bytes 2 0x0303 ++ BigEndian.bytes 2 1 ++ [0x01]

/-- `tls_encrypted_handshake_template` with its length set. -/
def tlsEncryptedHandshake (len : Nat) : List UInt8 :=
  [0x16] ++ BigEndian.bytes 2 0x0303 ++ BigEndian.bytes 2 len

/-- `obfs_tls_response`. -/
def obfsTlsResponse (payload : List UInt8) (random : Random) (obfs : Obfs) : Obfs × List UInt8 :=
  if obfs.obfsStage < 0 then (obfs, payload)
  else if obfs.obfsStage = 0 then
    ({ obfs with obfsStage := obfs.obfsStage + 1 },
      tlsServerHello random (obfs.buf.getD random.sessionId) ++ tlsChangeCipherSpec ++
        tlsEncryptedHandshake payload.length ++ payload)
  else if obfs.obfsStage = 1 then (obfs, obfsAppData payload)
  else (obfs, payload)

/-- `deobfs_tls_response`, with the memory and the length of the buffer. -/
def deobfsTlsResponse (data : List UInt8) (len : Nat) (obfs : Obfs) :
    Except Fault (Obfs × List UInt8 × Nat) :=
  if obfs.deobfsStage < 0 then .ok (obfs, data, len)
  else
    let frame := obfs.extra.getD {}
    if obfs.deobfsStage = 0 then
      if len ≤ serverHelloLen then .error .needMore
      else if data.getD 0 0 ≠ 0x16 then .error .error
      else if len ≤ serverHelloLen +
        (changeCipherSpecLen + encryptedHandshakeLen) then .error .needMore
      else
        let tlsLen := serverHelloLen + changeCipherSpecLen + encryptedHandshakeLen
        let msgLen := BigEndian.value [data.getD (serverHelloLen + changeCipherSpecLen + 3) 0,
          data.getD (serverHelloLen + changeCipherSpecLen + 4) 0]
        let data := memmove data 0 tlsLen (len - tlsLen)
        let len := len - tlsLen
        let obfs := { obfs with deobfsStage := obfs.deobfsStage + 1 }
        if msgLen < len then
          (deobfsAppData data len msgLen frame).map fun x => ({ obfs with extra := some x.1 }, x.2)
        else .ok ({ obfs with extra := some { frame with idx := toShort ((len : Int) - msgLen) } },
          data, len)
    else if obfs.deobfsStage = 1 then
      (deobfsAppData data len 0 frame).map fun x => ({ obfs with extra := some x.1 }, x.2)
    else .ok ({ obfs with extra := some frame }, data, len)

/-! ## What is sent -/

/-- A server's answers, one after the other: what goes over the wire. -/
def tlsResponses (obfs : Obfs) : List (List UInt8 × Random) → List UInt8
  | [] => []
  | (payload, random) :: rest =>
      (obfsTlsResponse payload random obfs).2 ++ tlsResponses
        (obfsTlsResponse payload random obfs).1 rest

/-- What the answers carry. -/
def payloads (answers : List (List UInt8 × Random)) : List (List UInt8) := answers.map Prod.fst

theorem length_tlsServerHello (random : Random) (sessionId : Vector UInt8 32) :
    (tlsServerHello random sessionId).length = serverHelloLen := by
  unfold tlsServerHello serverHelloLen
  simp only [List.length_append, BigEndian.length_bytes, Vector.length_toList, List.length_cons,
    List.length_nil]

/-- The handshake before the first message. -/
def handshake (random : Random) (sessionId : Vector UInt8 32) (len : Nat) : List UInt8 :=
  tlsServerHello random sessionId ++ tlsChangeCipherSpec ++ tlsEncryptedHandshake len

section Sent

variable {obfs : Obfs}

theorem tlsResponses_next (h : obfs.obfsStage = 1) (answers : List (List UInt8 × Random)) :
    tlsResponses obfs answers = (payloads answers).flatMap obfsAppData := by
  induction answers with
  | nil => rfl
  | cons answer answers ih =>
      obtain ⟨payload, random⟩ := answer
      have hanswer : obfsTlsResponse payload random obfs = (obfs, obfsAppData payload) := by
        unfold obfsTlsResponse
        rw [if_neg (by omega), if_neg (by omega), if_pos h]
      unfold tlsResponses
      rw [hanswer, ih]
      rfl

theorem tlsResponses_first (h : obfs.obfsStage = 0) (payload : List UInt8) (random : Random)
    (answers : List (List UInt8 × Random)) :
    tlsResponses obfs ((payload, random) :: answers) = handshake random
      (obfs.buf.getD random.sessionId) payload.length ++
      (payload ++ (payloads answers).flatMap obfsAppData) := by
  have hanswer : obfsTlsResponse payload random obfs =
      ({ obfs with obfsStage := obfs.obfsStage + 1 },
      handshake random (obfs.buf.getD random.sessionId) payload.length ++ payload) := by
    unfold obfsTlsResponse
    rw [if_neg (by omega), if_pos h]
    rfl
  unfold tlsResponses
  rw [hanswer, tlsResponses_next (show obfs.obfsStage + 1 = 1 by omega), List.append_assoc]

end Sent

/-! ## What is read -/

/-- A frame of which the whole first message is missing. -/
def missing (n : Nat) : Frame := ⟨-(n : Int), 0, (0, 0)⟩

theorem missing_inRange {n : Nat} (hn : n ≤ 16384) : (missing n).InRange := by
  refine ⟨?_, ?_⟩
  · show -32768 ≤ -(n : Int)
    omega
  · show -(n : Int) < 5
    omega

/-- The first message and what follows it are read as they were given. -/
theorem feed_responses {first : List UInt8} (hfirst : first.length ≤ 16384)
    {rest : List (List UInt8)} (hrest : ∀ payload ∈ rest, payload.length ≤ 16384) :
    ∃ buf, feed Frame.step (missing first.length) (first ++ rest.flatMap obfsAppData) =
      .ok (⟨0, 0, buf⟩, first ++ rest.flatten) := by
  obtain ⟨buf, hframes⟩ := feed_frames (0, 0) hrest
  refine ⟨buf, ?_⟩
  have hread : feed Frame.step (missing first.length) first = .ok (⟨0, 0, (0, 0)⟩, first) := by
    have h := feed_missing (0, 0) (by omega) (Nat.le_refl first.length)
    rw [Int.sub_self] at h
    exact h
  rw [feed_append hread, hframes]
  rfl

section Handshake

variable (random : Random) (sessionId : Vector UInt8 32) (len : Nat)

theorem length_handshake : (handshake random sessionId len).length = 107 := by
  unfold handshake
  rw [List.length_append, List.length_append, length_tlsServerHello]
  rfl

theorem handshake_head (rest : List UInt8) :
    (handshake random sessionId len ++ rest).getD 0 0 = 0x16 := by
  unfold handshake tlsServerHello
  simp only [List.append_assoc, List.cons_append, List.getD_cons_zero]

theorem handshake_len (h : len < 65536) (rest : List UInt8) :
    BigEndian.value [(handshake random sessionId len ++ rest).getD 105 0,
      (handshake random sessionId len ++ rest).getD 106 0] = len := by
  have hspec : (tlsServerHello random sessionId ++ tlsChangeCipherSpec).length = 102 := by
    rw [List.length_append, length_tlsServerHello]
    rfl
  have hat (k : Nat) : (handshake random sessionId len ++ rest).getD (102 + k) 0 =
      (tlsEncryptedHandshake len ++ rest).getD k 0 := by
    unfold handshake
    rw [List.append_assoc, List.getD_eq_getElem?_getD, List.getElem?_append_right (by omega), hspec,
      Nat.add_sub_cancel_left, ← List.getD_eq_getElem?_getD]
  rw [hat 3, hat 4]
  unfold tlsEncryptedHandshake
  rw [BigEndian.bytes_two len]
  exact BigEndian.value_two h

end Handshake

section Read

variable {data : List UInt8} {len : Nat} {obfs : Obfs}

/-- Less than the handshake is not read. -/
theorem deobfsTlsResponse_short (hstage : obfs.deobfsStage = 0) (hhead : data.getD 0 0 = 0x16)
    (hlen : len ≤ 107) :
    deobfsTlsResponse data len obfs = .error .needMore := by
  unfold deobfsTlsResponse serverHelloLen changeCipherSpecLen encryptedHandshakeLen
  rw [if_neg (by omega)]
  dsimp only
  rw [if_pos hstage]
  by_cases hhello : len ≤ 96
  · rw [if_pos hhello]
  · rw [if_neg hhello, if_neg (by rw [hhead]; decide), if_pos hlen]

theorem deobfsTlsResponse_next (hstage : obfs.deobfsStage = 1) {frame : Frame}
    (hextra : obfs.extra = some frame) (hframe : frame.InRange) (hlen : len ≤ data.length) :
    ∃ r, deobfsTlsResponse data len obfs = r.map (fun x => ({ obfs with extra := some x.1 }, x.2)) ∧
      Ends data 0 r (feed Frame.step frame (data.take len)) := by
  refine ⟨deobfsAppData data len 0 frame, ?_, deobfsAppData_eq hframe (Nat.zero_le _) hlen⟩
  unfold deobfsTlsResponse
  rw [if_neg (by omega)]
  dsimp only
  rw [if_neg (by omega), if_pos hstage, hextra]
  rfl

/-- The handshake is cut off and the rest moved to the front of the buffer. -/
theorem deobfsTlsResponse_handshake (hstage : obfs.deobfsStage = 0) (hextra : obfs.extra = none)
    (hhead : data.getD 0 0 = 0x16) {n : Nat}
    (hn : BigEndian.value [data.getD 105 0, data.getD 106 0] = n) (hlen : 107 < len) :
    deobfsTlsResponse data len obfs =
      if n < len - 107 then
        (deobfsAppData (memmove data 0 107 (len - 107)) (len - 107) n {}).map
          fun x => ({ obfs with deobfsStage := 1, extra := some x.1 }, x.2)
      else
        let extra := some ⟨toShort ((len - 107 : Nat) - (n : Int)), 0, (0, 0)⟩
        .ok ({ obfs with deobfsStage := 1, extra }, memmove data 0 107 (len - 107),
          len - 107) := by
  have hnext : obfs.deobfsStage + 1 = 1 := by omega
  unfold deobfsTlsResponse serverHelloLen changeCipherSpecLen encryptedHandshakeLen
  dsimp only
  rw [if_neg (by omega), if_pos hstage, if_neg (by omega), if_neg (by rw [hhead]; decide),
    if_neg (by omega), hn, hextra, hnext]
  rfl

theorem deobfsTlsResponse_first (hstage : obfs.deobfsStage = 0) (hextra : obfs.extra = none)
    {random : Random} {sessionId : Vector UInt8 32} {n : Nat} (hn : n ≤ 16384) {body : List UInt8}
    (hbody : body ≠ []) (hlen : len ≤ data.length)
    (hword : data.take len = handshake random sessionId n ++ body) :
    ∃ r, deobfsTlsResponse data len obfs =
        r.map (fun x => ({ obfs with deobfsStage := 1, extra := some x.1 }, x.2)) ∧
      Ends data 0 r (feed Frame.step (missing n) body) := by
  have hpos := List.length_pos_iff.2 hbody
  have hlength : len = 107 + body.length := by
    have h := congrArg List.length hword
    rw [List.length_take, Nat.min_eq_left hlen, List.length_append, length_handshake] at h
    exact h
  have hdata : data = handshake random sessionId n ++ (body ++ data.drop len) := by
    rw [← List.append_assoc, ← hword, List.take_append_drop]
  have hmoved : (memmove data 0 107 (len - 107)).length = data.length :=
    length_memmove (Nat.zero_le _) (by omega)
  have hbehind : (memmove data 0 107 (len - 107)).take (len - 107) = body := by
    have hdrop := congrArg (List.drop 107) hdata
    rw [List.drop_left' (length_handshake _ _ _)] at hdrop
    have h :=
      take_memmove (n := len - 107) (Nat.zero_le 107) (by omega : 107 + (len - 107) ≤ data.length)
    rw [Nat.zero_add, List.take_zero, List.nil_append, hdrop] at h
    rw [h]
    exact List.take_left' (by omega)
  have hhead : data.getD 0 0 = 0x16 := by
    rw [hdata]
    exact handshake_head _ _ _ _
  have hvalue : BigEndian.value [data.getD 105 0, data.getD 106 0] = n := by
    rw [hdata]
    exact handshake_len _ _ _ (by omega) _
  rw [deobfsTlsResponse_handshake hstage hextra hhead hvalue (by omega)]
  by_cases hmore : n < len - 107
  · -- the first message stays in front, the loop starts behind it
    rw [if_pos hmore]
    have hfirst : (body.take n).length = n := by
      rw [List.length_take]
      omega
    have hfeed : feed Frame.step (missing n) (body.take n) = .ok ({}, body.take n) := by
      have h := feed_missing (0, 0) (by omega) (Nat.le_of_eq hfirst)
      rw [hfirst, Int.sub_self] at h
      exact h
    have hinit : Frame.InRange {} := ⟨by decide, by decide⟩
    have hloop := deobfsAppData_eq hinit (Nat.le_of_lt hmore)
      (by omega : len - 107 ≤ (memmove data 0 107 (len - 107)).length)
    rw [hbehind] at hloop
    have hsplit : feed Frame.step (missing n) (body.take n ++ body.drop n) = _ := feed_append hfeed
    rw [List.take_append_drop] at hsplit
    refine ⟨_, rfl, ?_⟩
    rw [hsplit]
    refine Ends.behind _ ?_ hmoved ?_
    · rw [Nat.zero_add, hfirst]
      exact hloop
    · have htake := congrArg (List.take n) hbehind
      rw [List.take_take, Nat.min_eq_left (Nat.le_of_lt hmore)] at htake
      rw [Nat.zero_add, hfirst, List.take_zero, List.nil_append, htake]
  · rw [if_neg hmore]
    have hidx : toShort ((len - 107 : Nat) - (n : Int)) = (body.length : Int) - n := by
      rw [toShort_of_lt (by omega) (by omega)]
      omega
    refine ⟨.ok (⟨(body.length : Int) - n, 0, (0, 0)⟩, memmove data 0 107 (len - 107), len - 107),
      ?_, ?_⟩
    · rw [hidx]
      rfl
    · unfold missing
      rw [feed_missing _ (by omega) (by omega)]
      refine ⟨memmove data 0 107 (len - 107), ?_, hmoved, ?_⟩
      · rw [Nat.zero_add, hlength, Nat.add_sub_cancel_left]
      · have hall : body.length = len - 107 := by omega
        show List.take (0 + body.length) _ = List.take 0 data ++ body
        rw [Nat.zero_add, List.take_zero, List.nil_append, hall, hbehind]

end Read

end CypherConnect.SimpleObfs
