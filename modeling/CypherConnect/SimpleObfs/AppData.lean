/-
  `obfs_tls.c`: frames of application data, and the loop that takes them out of a buffer in place.

  The loop moves blocks and keeps what it knows of the current frame between calls. `Frame.step` is
  the same for one byte.

  * `deobfsAppData_eq`: the loop does what the bytes do one by one, so that it does not matter how
    they were cut.
  * `feed_frames`: from the end of a frame, frames are taken apart.
-/
import CypherConnect.Lib.BigEndian
import CypherConnect.Lib.Transducer

namespace CypherConnect.SimpleObfs

open Transducer

/-- What is left of a number in a `short`. -/
def toShort (n : Int) : Int := Int.bmod n 65536

theorem toShort_of_lt {n : Int} (hlow : -32768 ≤ n) (hhigh : n < 32768) : toShort n = n := by
  unfold toShort Int.bmod
  dsimp only
  split <;> omega

/-- `frame_t`. -/
structure Frame where
  idx : Int := 0
  len : Int := 0
  buf : UInt8 × UInt8 := (0, 0)
  deriving DecidableEq, Repr

/-- What a call ends in: `OBFS_NEED_MORE`, `OBFS_ERROR`, or a move of a negative number of bytes. -/
inductive Fault where
  | needMore
  | error
  | overrun
  deriving DecidableEq, Repr

/-- `tls_data_header`. -/
def tlsDataHeader : List UInt8 := [0x17, 0x03, 0x03]

/-- `obfs_app_data`. -/
def obfsAppData (payload : List UInt8) : List UInt8 :=
  tlsDataHeader ++ BigEndian.bytes 2 payload.length ++ payload

namespace Frame

/-- A byte outside of a frame: one of the header or, before the first header, one of the first
message. -/
def header (frame : Frame) (b : UInt8) : Option Frame :=
  if 0 ≤ frame.idx ∧ frame.idx < 3 ∧ tlsDataHeader[frame.idx.toNat]? ≠ some b then none
  else
    let buf :=
      if frame.idx = 3 then (b, frame.buf.2) else if frame.idx = 4 then (frame.buf.1, b)
      else frame.buf
    let idx := toShort (frame.idx + 1)
    if idx = 5 then some ⟨0, toShort (BigEndian.value [buf.1, buf.2]), buf⟩
    else some { frame with idx, buf }

/-- One byte. -/
def step (frame : Frame) (b : UInt8) : Except Fault (Frame × List UInt8) :=
  if frame.len = 0 then
    match frame.header b with
    | none => .error .error
    | some next => .ok (next, if frame.idx < 0 then [b] else [])
  else if 16384 < frame.len then .error .error
  else if frame.len < 0 then .error .overrun
  else .ok ({ frame with len := frame.len - 1 }, [b])

end Frame

/-- The index of a frame counts up to the first header, or stands in a header. -/
def Frame.InRange (frame : Frame) : Prop := -32768 ≤ frame.idx ∧ frame.idx < 5

/-- `memmove(data + to, data + from, n)`. -/
def memmove (data : List UInt8) (dest src n : Nat) : List UInt8 :=
  data.take dest ++ (data.drop src).take n ++ data.drop (dest + n)

/-- The loop of `deobfs_app_data`, on the memory and the length of the buffer. A negative length of
the frame is less than what is left, and goes to `memmove` as it is. -/
def deobfsLoop (data : List UInt8) (len : Nat) (frame : Frame) (bidx bofst : Nat) :
    Except Fault (Frame × List UInt8 × Nat) :=
  if bidx < len then
    if frame.len = 0 then
      match frame.header (data.getD bidx 0) with
      | none => .error .error
      | some next =>
          deobfsLoop data len next (bidx + 1) (if frame.idx < 0 then bofst + 1 else bofst)
    else if 16384 < frame.len then .error .error
    else if frame.len < 0 then .error .overrun
    else if frame.len.toNat < len - bidx then
      deobfsLoop (memmove data bofst bidx frame.len.toNat) len { frame with len := 0 }
        (bidx + frame.len.toNat) (bofst + frame.len.toNat)
    else
      deobfsLoop (memmove data bofst bidx (len - bidx)) len
        { frame with len := frame.len - (len - bidx : Nat) } len
        (bofst + (len - bidx))
  else .ok (frame, data, bofst)
termination_by len - bidx

/-- `deobfs_app_data`, with the memory and the length of the buffer. -/
def deobfsAppData (data : List UInt8) (len idx : Nat) (frame : Frame) :
    Except Fault (Frame × List UInt8 × Nat) :=
  deobfsLoop data len frame idx idx

/-! ## The loop and the bytes -/

section Move

variable {data : List UInt8} {dest src n : Nat}

theorem length_memmove (hle : dest ≤ src) (hn : src + n ≤ data.length) :
    (memmove data dest src n).length = data.length := by
  unfold memmove
  simp only [List.length_append, List.length_take, List.length_drop]
  omega

/-- What stands before the end of the move. -/
theorem take_memmove (hle : dest ≤ src) (hn : src + n ≤ data.length) :
    (memmove data dest src n).take (dest + n) = data.take dest ++ (data.drop src).take n := by
  unfold memmove
  refine List.take_left' ?_
  simp only [List.length_append, List.length_take, List.length_drop]
  omega

/-- What stands behind the source has not moved. -/
theorem drop_memmove (hle : dest ≤ src) (hn : src + n ≤ data.length) :
    (memmove data dest src n).drop (src + n) = data.drop (src + n) := by
  have hlen : (data.take dest ++ (data.drop src).take n).length = dest + n := by
    simp only [List.length_append, List.length_take, List.length_drop]
    omega
  unfold memmove
  rw [List.drop_append, List.drop_eq_nil_of_le (by omega), hlen, List.nil_append, List.drop_drop]
  congr 1
  omega

end Move

/-- Bytes inside of a frame. -/
theorem feed_body (frame : Frame) (bytes : List UInt8) (hlen : bytes.length ≤ frame.len.toNat)
    (hmax : frame.len ≤ 16384) :
    feed Frame.step frame bytes = .ok ({ frame with len := frame.len - bytes.length }, bytes) := by
  induction bytes generalizing frame with
  | nil =>
      show Except.ok (frame, []) = _
      rw [List.length_nil, Int.natCast_zero, Int.sub_zero]
  | cons b bytes ih =>
      rw [List.length_cons] at hlen
      have hstep : frame.step b = .ok ({ frame with len := frame.len - 1 }, [b]) := by
        unfold Frame.step
        rw [if_neg (by omega), if_neg (by omega), if_neg (by omega)]
      have hbelow : bytes.length ≤ (frame.len - 1).toNat := by omega
      have hrest : feed Frame.step { frame with len := frame.len - 1 } bytes =
          .ok ({ frame with len := frame.len - 1 - bytes.length }, bytes) :=
            ih _ hbelow (by show frame.len - 1 ≤ _; omega)
      rw [feed_cons_ok hstep, hrest, List.length_cons, Int.natCast_succ, Int.add_comm,
        ← Int.sub_sub]
      rfl

/-- The loop ends as the bytes do, and what they put out stands behind what was there. -/
def Ends (data : List UInt8) (bofst : Nat) (r : Except Fault (Frame × List UInt8 × Nat)) :
    Except Fault (Frame × List UInt8) → Prop
  | .error e => r = .error e
  | .ok x => ∃ data', r = .ok (x.1, data', bofst + x.2.length) ∧ data'.length = data.length ∧
      data'.take (bofst + x.2.length) = data.take bofst ++ x.2

theorem Ends.behind {data out : List UInt8} (moved : List UInt8) {bofst : Nat}
    {r : Except Fault (Frame × List UInt8 × Nat)} {f : Except Fault (Frame × List UInt8)}
    (h : Ends moved (bofst + out.length) r f) (hlength : moved.length = data.length)
    (hkept : moved.take (bofst + out.length) = data.take bofst ++ out) :
    Ends data bofst r (f.map fun y => (y.1, out ++ y.2)) := by
  cases f with
  | error e => exact h
  | ok x =>
      obtain ⟨data', hr, hlength', htake⟩ := h
      rw [Nat.add_assoc, ← List.length_append] at hr htake
      refine ⟨data', hr, hlength'.trans hlength, ?_⟩
      rw [htake, hkept, List.append_assoc]

section Loop

variable {data : List UInt8} {len bidx bofst : Nat} {frame : Frame}

theorem drop_take_cons (hlt : bidx < len) (hlen : len ≤ data.length) :
    (data.take len).drop bidx = data.getD bidx 0 :: (data.take len).drop (bidx + 1) := by
  have hb : bidx < (data.take len).length := by
    rw [List.length_take]
    omega
  rw [List.drop_eq_getElem_cons hb, List.getElem_take, List.getD_eq_getElem?_getD,
    List.getElem?_eq_getElem (by omega)]
  rfl

/-- A block of the current frame is moved. -/
theorem Ends.move {n : Nat} {r : Except Fault (Frame × List UInt8 × Nat)} (hbofst : bofst ≤ bidx)
    (hn : bidx + n ≤ len) (hlen : len ≤ data.length) (hbody : n ≤ frame.len.toNat)
    (hmax : frame.len ≤ 16384)
    (h : Ends (memmove data bofst bidx n) (bofst + n) r
    (feed Frame.step { frame with len := frame.len - n }
      (((memmove data bofst bidx n).take len).drop (bidx + n)))) :
    Ends data bofst r (feed Frame.step frame ((data.take len).drop bidx)) := by
  have hblock : ((data.drop bidx).take n).length = n := by
    rw [List.length_take, List.length_drop]
    omega
  have hrest : ((memmove data bofst bidx n).take len).drop (bidx + n) = (data.take len).drop
      (bidx + n) := by
    rw [List.drop_take, List.drop_take, drop_memmove hbofst (by omega)]
  have hword : (data.take len).drop bidx = (data.drop bidx).take n ++ (data.take len).drop
      (bidx + n) := by
    have hsplit := (List.take_append_drop n ((data.take len).drop bidx)).symm
    rw [List.drop_drop, List.drop_take, List.take_take, Nat.min_eq_left (by omega)] at hsplit
    rw [List.drop_take]
    exact hsplit
  have hfeed := feed_body frame ((data.drop bidx).take n) (by omega) hmax
  rw [hblock] at hfeed
  rw [hword, feed_append hfeed]
  rw [hrest] at h
  refine Ends.behind (memmove data bofst bidx n) ?_ (length_memmove hbofst (by omega)) ?_
  · rw [hblock]
    exact h
  · rw [hblock]
    exact take_memmove hbofst (by omega)

theorem header_inRange (hframe : frame.InRange) {next : Frame} {b : UInt8}
    (h : frame.header b = some next) : next.InRange ∧ (next.idx < 0 → frame.idx < 0) := by
  obtain ⟨hlow, hhigh⟩ := hframe
  unfold Frame.header at h
  split at h
  · cases h
  · dsimp only at h
    rw [toShort_of_lt (by omega) (by omega)] at h
    split at h
    · cases h
      exact ⟨show -32768 ≤ (0 : Int) ∧ (0 : Int) < 5 by decide, nofun⟩
    · next hfive =>
        cases h
        have hne : frame.idx + 1 ≠ 5 := hfive
        refine ⟨⟨?_, ?_⟩, fun hneg => ?_⟩
        · show -32768 ≤ frame.idx + 1
          omega
        · show frame.idx + 1 < 5
          omega
        · have hneg : frame.idx + 1 < 0 := hneg
          omega

theorem step_inRange (hframe : frame.InRange) {next : Frame} {b : UInt8} {out : List UInt8}
    (h : frame.step b = .ok (next, out)) : next.InRange := by
  unfold Frame.step at h
  split at h
  · split at h
    · cases h
    · next hnext =>
        cases h
        exact (header_inRange hframe hnext).1
  · split at h
    · cases h
    · split at h
      · cases h
      · cases h
        exact hframe

/-- While the index is one of the first message or of the header, it does not overflow. -/
theorem deobfsLoop_eq (hframe : frame.InRange) (hbofst : bofst ≤ bidx) (hbidx : bidx ≤ len)
    (hlen : len ≤ data.length) (hplace : frame.idx < 0 → bofst = bidx) :
    Ends data bofst (deobfsLoop data len frame bidx bofst)
      (feed Frame.step frame ((data.take len).drop bidx)) := by
  fun_induction deobfsLoop data len frame bidx bofst with
  | case1 data frame bidx bofst hlt hzero hnone =>
      have hstep : frame.step (data.getD bidx 0) = .error .error := by
        unfold Frame.step
        rw [if_pos hzero, hnone]
      rw [drop_take_cons hlt hlen, feed_cons_error hstep]
      exact rfl
  | case2 data frame bidx bofst hlt hzero next hnext ih =>
      have hstep : frame.step (data.getD bidx 0) =
          .ok (next, if frame.idx < 0 then [data.getD bidx 0] else []) := by
        unfold Frame.step
        rw [if_pos hzero, hnext]
      obtain ⟨hnextRange, hback⟩ := header_inRange hframe hnext
      rw [drop_take_cons hlt hlen, feed_cons_ok hstep]
      by_cases hneg : frame.idx < 0
      · -- the byte stays where it is
        have hsame := hplace hneg
        rw [if_pos hneg, if_pos hneg]
        rw [dif_pos hneg] at ih
        refine Ends.behind data (ih hnextRange (by omega) (by omega) hlen fun _ => by omega) rfl ?_
        rw [List.length_singleton, hsame, List.take_add_one, List.getD_eq_getElem?_getD,
          List.getElem?_eq_getElem (by omega)]
        rfl
      · rw [if_neg hneg, if_neg hneg]
        rw [dif_neg hneg] at ih
        have hplace' : next.idx < 0 → bofst = bidx + 1 := fun h => absurd (hback h) hneg
        refine Ends.behind data (ih hnextRange (by omega) (by omega) hlen hplace') rfl ?_
        rw [List.length_nil, Nat.add_zero, List.append_nil]
  | case3 data frame bidx bofst hlt hzero hbig =>
      have hstep : frame.step (data.getD bidx 0) = .error .error := by
        unfold Frame.step
        rw [if_neg hzero, if_pos hbig]
      rw [drop_take_cons hlt hlen, feed_cons_error hstep]
      exact rfl
  | case4 data frame bidx bofst hlt hzero hbig hneg =>
      have hstep : frame.step (data.getD bidx 0) = .error .overrun := by
        unfold Frame.step
        rw [if_neg hzero, if_neg hbig, if_pos hneg]
      rw [drop_take_cons hlt hlen, feed_cons_error hstep]
      exact rfl
  | case5 data frame bidx bofst hlt hzero hbig hneg hleft ih =>
      have hsub : frame.len - (frame.len.toNat : Int) = 0 := by omega
      have hlength := length_memmove (n := frame.len.toNat) hbofst
        (by omega : bidx + frame.len.toNat ≤ data.length)
      refine Ends.move hbofst (by omega) hlen (Nat.le_refl _) (by omega) ?_
      rw [hsub]
      exact ih hframe (by omega) (by omega) (by omega) fun h => by rw [hplace h]
  | case6 data frame bidx bofst hlt hzero hbig hneg hleft ih =>
      have hend : bidx + (len - bidx) = len := by omega
      have hlength :=
        length_memmove (n := len - bidx) hbofst (by omega : bidx + (len - bidx) ≤ data.length)
      refine Ends.move (n := len - bidx) hbofst (by omega) hlen (by omega) (by omega) ?_
      rw [hend]
      exact ih hframe (by omega) (Nat.le_refl _) (by omega) fun h => by rw [hplace h, hend]
  | case7 data frame bidx bofst hlt =>
      have hempty : (data.take len).drop bidx = [] := by
        rw [List.drop_eq_nil_iff, List.length_take]
        omega
      rw [hempty]
      exact ⟨data, rfl, rfl, (List.append_nil _).symm⟩

/-- The bytes from `idx` on are read one after the other, and what they carry stands from there
on. -/
theorem deobfsAppData_eq (hframe : frame.InRange) (hidx : bidx ≤ len) (hlen : len ≤ data.length) :
    Ends data bidx (deobfsAppData data len bidx frame)
      (feed Frame.step frame ((data.take len).drop bidx)) :=
  deobfsLoop_eq hframe (Nat.le_refl _) hidx hlen fun _ => rfl

end Loop

/-! ## Frames -/

section Frames

variable (buf : UInt8 × UInt8)

/-- The header of a frame. -/
theorem feed_header {n : Nat} (hn : n ≤ 16384) :
    feed Frame.step ⟨0, 0, buf⟩ (tlsDataHeader ++ BigEndian.bytes 2 n) =
    .ok (⟨0, n, (UInt8.ofNat (n / 256), UInt8.ofNat n)⟩, []) := by
  have hlen : toShort (BigEndian.value [UInt8.ofNat (n / 256), UInt8.ofNat n]) = n := by
    rw [BigEndian.value_two (by omega), toShort_of_lt (by omega) (by omega)]
  have htype : Frame.step ⟨0, 0, buf⟩ 0x17 = .ok (⟨1, 0, buf⟩, []) := rfl
  have hmajor : Frame.step ⟨1, 0, buf⟩ 0x03 = .ok (⟨2, 0, buf⟩, []) := rfl
  have hminor : Frame.step ⟨2, 0, buf⟩ 0x03 = .ok (⟨3, 0, buf⟩, []) := rfl
  have hhigh (b : UInt8) : Frame.step ⟨3, 0, buf⟩ b = .ok (⟨4, 0, (b, buf.2)⟩, []) := rfl
  have hlow (b c : UInt8) : Frame.step ⟨4, 0, (b, buf.2)⟩ c =
      .ok (⟨0, toShort (BigEndian.value [b, c]), (b, c)⟩, []) := rfl
  rw [BigEndian.bytes_two]
  show feed Frame.step _ (0x17 :: 0x03 :: 0x03 :: UInt8.ofNat (n / 256) :: UInt8.ofNat n :: []) = _
  rw [feed_cons_ok htype, feed_cons_ok hmajor, feed_cons_ok hminor, feed_cons_ok (hhigh _),
    feed_cons_ok (hlow _ _), hlen]
  rfl

theorem feed_obfsAppData {payload : List UInt8} (h : payload.length ≤ 16384) :
    ∃ buf', feed Frame.step ⟨0, 0, buf⟩ (obfsAppData payload) = .ok (⟨0, 0, buf'⟩, payload) := by
  refine ⟨(UInt8.ofNat (payload.length / 256), UInt8.ofNat payload.length), ?_⟩
  have hbody : payload.length ≤ (payload.length : Int).toNat := by omega
  have hmax : (payload.length : Int) ≤ 16384 := by omega
  unfold obfsAppData
  rw [feed_append (feed_header buf h), feed_body _ payload hbody hmax]
  show Except.ok (Frame.mk 0 ((payload.length : Int) - payload.length) _, payload) = _
  rw [Int.sub_self]

theorem feed_frames {payloads : List (List UInt8)}
    (h : ∀ payload ∈ payloads, payload.length ≤ 16384) :
    ∃ buf', feed Frame.step ⟨0, 0, buf⟩ (payloads.flatMap obfsAppData) = .ok (⟨0, 0, buf'⟩,
      payloads.flatten) := by
  induction payloads generalizing buf with
  | nil => exact ⟨buf, rfl⟩
  | cons payload payloads ih =>
      obtain ⟨first, hfirst⟩ := feed_obfsAppData buf (h payload List.mem_cons_self)
      obtain ⟨last, hlast⟩ := ih first fun x hx => h x (List.mem_cons_of_mem _ hx)
      refine ⟨last, ?_⟩
      rw [List.flatMap_cons, feed_append hfirst, hlast]
      rfl

/-- Bytes of the first message, of which `n` are missing. -/
theorem feed_missing {n : Nat} (hn : n ≤ 32768) {word : List UInt8} (h : word.length ≤ n) :
    feed Frame.step ⟨-(n : Int), 0, buf⟩ word = .ok (⟨(word.length : Int) - n, 0, buf⟩, word) := by
  induction word generalizing n with
  | nil =>
      show Except.ok (Frame.mk (-(n : Int)) 0 buf, []) = _
      rw [List.length_nil, Int.natCast_zero, Int.zero_sub]
  | cons b word ih =>
      rw [List.length_cons] at h ⊢
      have hnext : Frame.header ⟨-(n : Int), 0, buf⟩ b = some ⟨-((n - 1 : Nat) : Int), 0, buf⟩ := by
        unfold Frame.header
        dsimp only
        rw [toShort_of_lt (by omega) (by omega), if_neg (by omega), if_neg (by omega),
          if_neg (by omega), if_neg (by omega)]
        congr 2
        omega
      have hstep : Frame.step ⟨-(n : Int), 0, buf⟩ b = .ok (⟨-((n - 1 : Nat) : Int), 0, buf⟩,
          [b]) := by
        unfold Frame.step
        rw [if_pos rfl, hnext]
        dsimp only
        rw [if_pos (by omega)]
      have hidx : (word.length : Int) - (n - 1 : Nat) = (word.length + 1 : Nat) - (n : Int) :=
        by omega
      rw [feed_cons_ok hstep, ih (by omega) (by omega), hidx]
      rfl

end Frames

end CypherConnect.SimpleObfs
