/-
  The replay filter of `ss-local`, `net/packet_window.rs`: a ring of 128 words of 64 bits remembers
  which packet ids were seen lately. `reset` clears one word of the ring only, and a packet far
  ahead clears the ring once and not once for every block it skips.

  * `Represents`: the filter remembers a list of accepted ids.
  * `represents_validatePacketId`, `represents_reset`: what one call does to it.
  * `packet_window_exact`: after any calls, a packet is accepted exactly if its id is below the
    limit, was not accepted since the last reset, and is at most 8128 behind every id accepted
    since.
-/
import Mathlib.Data.List.Induction
import Mathlib.Data.Nat.Bitwise
import CypherConnect.Lib.RingWindow

namespace CypherConnect.SsLocal

def blockBitLog : UInt64 := 6

def blockBits : UInt64 := 1 <<< blockBitLog

def ringBlocks : UInt64 := 1 <<< (7 : UInt64)

def windowSize : UInt64 := (ringBlocks - 1) * blockBits

def blockMask : UInt64 := ringBlocks - 1

def bitMask : UInt64 := blockBits - 1

structure PacketWindowFilter where
  lastPacketId : UInt64
  packetRing : Vector UInt64 128
  deriving DecidableEq

namespace PacketWindowFilter

/-! ## The filter -/

def new : PacketWindowFilter := ⟨0, Vector.replicate 128 0⟩

theorem slot_lt (i : UInt64) : (i &&& blockMask).toNat < 128 := by
  rw [UInt64.toNat_and]
  exact Nat.lt_succ_of_le Nat.and_le_right

/-- The index `(i & BLOCK_MASK) as usize`. -/
def slot (i : UInt64) : Fin 128 := ⟨(i &&& blockMask).toNat, slot_lt i⟩

def reset (this : PacketWindowFilter) : PacketWindowFilter :=
  ⟨0, this.packetRing.set 0 0⟩

/-- The blocks to clear: those between two blocks, and never more than the ring has. -/
def diff (indexBlock current : UInt64) : UInt64 :=
  if indexBlock - current > ringBlocks then ringBlocks else indexBlock - current

/-- The branch that moves the window forward, with the loop over `1..=diff`. -/
def moveForward (this : PacketWindowFilter) (packetId : UInt64) : PacketWindowFilter :=
  let current := this.lastPacketId >>> blockBitLog
  { lastPacketId := packetId
    packetRing := (List.range (diff (packetId >>> blockBitLog) current).toNat).foldl
      (fun ring d => ring.set (slot (current + UInt64.ofNat (d + 1))) 0) this.packetRing }

/-- The end of `validate_packet_id`, which checks and sets the bit. -/
def checkAndSet (this : PacketWindowFilter) (packetId : UInt64) : PacketWindowFilter × Bool :=
  let indexBlock := slot (packetId >>> blockBitLog)
  let indexBit := packetId &&& bitMask
  let old := this.packetRing.get indexBlock
  let new := old ||| (1 <<< indexBit)
  ({ this with packetRing := this.packetRing.set indexBlock new }, old != new)

def validatePacketId (this : PacketWindowFilter) (packetId limit : UInt64) :
    PacketWindowFilter × Bool :=
  if packetId ≥ limit then (this, false)
  else if packetId > this.lastPacketId then (this.moveForward packetId).checkAndSet packetId
  else if this.lastPacketId - packetId > windowSize then (this, false)
  else this.checkAndSet packetId

/-! ## The bits of the ring -/

/-- The bit `k` of the word in a slot. -/
def bit (ring : Vector UInt64 128) (slot k : Nat) : Bool := (ring[slot]?.getD 0).toNat.testBit k

theorem val_slot (i : UInt64) : (slot i).val = i.toNat % 128 := by
  show (i &&& blockMask).toNat = _
  rw [UInt64.toNat_and]
  exact Nat.and_two_pow_sub_one_eq_mod i.toNat 7

theorem toNat_block (i : UInt64) : (i >>> blockBitLog).toNat = i.toNat / 64 := by
  rw [UInt64.toNat_shiftRight]
  exact Nat.shiftRight_eq_div_pow i.toNat 6

theorem toNat_indexBit (i : UInt64) : (i &&& bitMask).toNat = i.toNat % 64 := by
  rw [UInt64.toNat_and]
  exact Nat.and_two_pow_sub_one_eq_mod i.toNat 6

theorem bit_set (ring : Vector UInt64 128) (i : Fin 128) (word : UInt64) (slot k : Nat) :
    bit (ring.set i word) slot k = if i.val = slot then word.toNat.testBit k
      else bit ring slot k := by
  unfold bit
  rw [Vector.getElem?_set]
  split
  · simp
  · rfl

theorem testBit_set {old index : UInt64} (hindex : index.toNat < 64) (k : Nat) :
    (old ||| (1 <<< index)).toNat.testBit k =
      (old.toNat.testBit k || decide (k = index.toNat)) := by
  have hone : (1 <<< index : UInt64).toNat = 2 ^ index.toNat := by
    rw [UInt64.toNat_shiftLeft, Nat.mod_eq_of_lt hindex]
    show 1 <<< index.toNat % 2 ^ 64 = _
    rw [Nat.one_shiftLeft]
    exact Nat.mod_eq_of_lt (Nat.pow_lt_pow_right (by omega) hindex)
  rw [UInt64.toNat_or, hone, Nat.testBit_or, Nat.testBit_two_pow]
  simp only [eq_comm]

theorem eq_set_iff {old index : UInt64} (hindex : index.toNat < 64) :
    old = old ||| (1 <<< index) ↔ old.toNat.testBit index.toNat = true := by
  constructor
  · intro heq
    rw [heq, testBit_set hindex]
    simp
  · intro hbit
    apply UInt64.toNat_inj.mp
    apply Nat.eq_of_testBit_eq
    intro k
    rw [testBit_set hindex]
    by_cases hk : k = index.toNat
    · rw [hk, hbit, Bool.true_or]
    · rw [decide_eq_false hk, Bool.or_false]

/-- The loop that clears the blocks behind `current`. -/
theorem bit_foldl_clear (current : UInt64) (ds : List Nat) (ring : Vector UInt64 128) (i k : Nat) :
    bit (ds.foldl (fun ring d => ring.set (slot (current + UInt64.ofNat (d + 1))) 0) ring) i
      k = true ↔
      bit ring i k = true ∧ ∀ d ∈ ds, (slot (current + UInt64.ofNat (d + 1))).val ≠ i := by
  induction ds generalizing ring with
  | nil => simp
  | cons d ds ih =>
      rw [List.foldl_cons, ih, bit_set, List.forall_mem_cons, ← and_assoc]
      refine and_congr_left' ?_
      split
      · next heq => exact iff_of_false (by simp) fun h => h.2 heq
      · next hne => exact (and_iff_left hne).symm

/-! ## What a filter remembers -/

/-- The filter remembers the ids of the list. -/
structure Represents (this : PacketWindowFilter) (accepted : List UInt64) : Prop where
  tracks : RingWindow.Tracks 128 64 (bit this.packetRing) this.lastPacketId.toNat
    {x | ∃ id ∈ accepted, id.toNat = x}
  largest : this.lastPacketId = 0 ∨ this.lastPacketId ∈ accepted
  nodup : accepted.Nodup

variable {this : PacketWindowFilter} {accepted : List UInt64} {packetId limit : UInt64}

theorem mem_toNat_iff :
    packetId.toNat ∈ {x | ∃ id ∈ accepted, id.toNat = x} ↔ packetId ∈ accepted := by
  constructor
  · intro h
    obtain ⟨id, hid, heq⟩ := h
    rw [← UInt64.toNat_inj.mp heq]
    exact hid
  · intro h
    exact ⟨packetId, h, rfl⟩

theorem represents_new : Represents new [] where
  tracks := by
    have hempty : {x | ∃ id ∈ ([] : List UInt64), id.toNat = x} = ∅ := by simp
    rw [hempty]
    apply RingWindow.tracks_restart
    intro k
    simp [bit, new]
  largest := Or.inl rfl
  nodup := List.nodup_nil

/-- The words that `reset` leaves in the ring do not count: they are cleared before they are
read. -/
theorem represents_reset : Represents this.reset [] where
  tracks := by
    have hempty : {x | ∃ id ∈ ([] : List UInt64), id.toNat = x} = ∅ := by simp
    rw [hempty]
    apply RingWindow.tracks_restart
    intro k
    have hset := bit_set this.packetRing 0 0 0 k
    exact hset.trans (Nat.zero_testBit k)
  largest := Or.inl rfl
  nodup := List.nodup_nil

/-- The number of turns of the loop. -/
theorem toNat_diff {last : UInt64} (hahead : last < packetId) :
    (diff (packetId >>> blockBitLog) (last >>> blockBitLog)).toNat =
      min (packetId.toNat / 64 - last.toNat / 64) 128 := by
  have hle : last.toNat / 64 ≤ packetId.toNat / 64 :=
    Nat.div_le_div_right (Nat.le_of_lt (UInt64.lt_iff_toNat_lt.mp hahead))
  have hsub : ((packetId >>> blockBitLog) - (last >>> blockBitLog)).toNat =
      packetId.toNat / 64 - last.toNat / 64 := by
    rw [UInt64.toNat_sub_of_le, toNat_block, toNat_block]
    rw [UInt64.le_iff_toNat_le, toNat_block, toNat_block]
    exact hle
  have hring : ringBlocks.toNat = 128 := rfl
  unfold diff
  split
  · next h =>
      rw [gt_iff_lt, UInt64.lt_iff_toNat_lt, hsub, hring] at h
      rw [hring]
      omega
  · next h =>
      rw [gt_iff_lt, UInt64.lt_iff_toNat_lt, hsub, hring] at h
      rw [hsub]
      omega

theorem val_slot_add (last : UInt64) (d : Nat) :
    (slot ((last >>> blockBitLog) + UInt64.ofNat (d + 1))).val =
      (last.toNat / 64 + (d + 1)) % 128 := by
  have hlast : last.toNat < 2 ^ 64 := last.toNat_lt
  rw [val_slot, UInt64.toNat_add, toNat_block, UInt64.toNat_ofNat']
  omega

/-- The blocks that the loop clears are those that become known. -/
theorem tracks_moveForward {seen : Set Nat}
    (h : RingWindow.Tracks 128 64 (bit this.packetRing) this.lastPacketId.toNat seen)
    (hahead : this.lastPacketId < packetId) :
    RingWindow.Tracks 128 64 (bit (this.moveForward packetId).packetRing) packetId.toNat seen := by
  have hle : this.lastPacketId.toNat ≤ packetId.toNat :=
    Nat.le_of_lt (UInt64.lt_iff_toNat_lt.mp hahead)
  refine h.advance (by omega) hle ?_
  intro i k
  show bit (List.foldl _ _ _) i k = true ↔ _
  rw [bit_foldl_clear, toNat_diff hahead]
  refine and_congr_right' ?_
  constructor
  · intro hnone hcleared
    obtain ⟨d, hd, hmin, heq⟩ := hcleared
    refine hnone (d - 1) (List.mem_range.mpr (by omega)) ?_
    rw [val_slot_add, heq]
    congr 1
    omega
  · intro hnot d hd heq
    have hmin := List.mem_range.mp hd
    rw [val_slot_add] at heq
    exact hnot ⟨d + 1, by omega, by omega, heq.symm⟩

/-- Checking and setting the bit of a number of the window. -/
theorem tracks_checkAndSet {seen : Set Nat}
    (h : RingWindow.Tracks 128 64 (bit this.packetRing) this.lastPacketId.toNat seen)
    (hle : packetId ≤ this.lastPacketId)
    (hwindow : this.lastPacketId.toNat ≤ packetId.toNat + 8128) :
    ((this.checkAndSet packetId).2 = true ↔ packetId.toNat ∉ seen) ∧
      RingWindow.Tracks 128 64 (bit (this.checkAndSet packetId).1.packetRing)
        this.lastPacketId.toNat
        (insert packetId.toNat seen) := by
  have hle' : packetId.toNat ≤ this.lastPacketId.toNat := UInt64.le_iff_toNat_le.mp hle
  have hknown : RingWindow.Known 128 64 this.lastPacketId.toNat packetId.toNat :=
    ⟨Nat.div_le_div_right hle', by omega⟩
  have hslot : (slot (packetId >>> blockBitLog)).val = packetId.toNat / 64 % 128 := by
    rw [val_slot, toNat_block]
  have hindex : (packetId &&& bitMask).toNat < 64 := by
    rw [toNat_indexBit]
    exact Nat.mod_lt _ (by omega)
  have hget : bit this.packetRing (packetId.toNat / 64 % 128) =
      (this.packetRing.get (slot (packetId >>> blockBitLog))).toNat.testBit := by
    funext k
    unfold bit
    rw [← hslot, Vector.getElem?_eq_getElem (slot _).isLt]
    rfl
  constructor
  · rw [← h.bit_iff _ hknown, hget]
    show (_ != _) = true ↔ _
    rw [bne_iff_ne, not_iff_not]
    rw [eq_set_iff hindex, toNat_indexBit]
  · refine h.insert hknown hle' ?_
    intro i k
    unfold checkAndSet
    dsimp only
    rw [bit_set, testBit_set hindex, toNat_indexBit, hslot]
    split
    · next heq => simp [← heq, hget]
    · next hne => simp [Ne.symm hne]

theorem insert_toNat (packetId : UInt64) (accepted : List UInt64) :
    insert packetId.toNat {x | ∃ id ∈ accepted, id.toNat = x} =
      {x | ∃ id ∈ packetId :: accepted, id.toNat = x} := by
  ext x
  simp [eq_comm]

theorem toNat_lastPacketId_le_iff (h : Represents this accepted) (n : Nat) :
    this.lastPacketId.toNat ≤ n ↔ ∀ x ∈ accepted, x.toNat ≤ n := by
  constructor
  · intro hle x hx
    exact le_trans (h.tracks.le_last _ ⟨x, hx, rfl⟩) hle
  · intro hall
    rcases h.largest with hzero | hmem
    · rw [hzero]
      exact Nat.zero_le n
    · exact hall _ hmem

/-- The answer for a packet, and what the filter remembers after it. -/
theorem represents_checkAndSet (h : Represents this accepted) (hle : packetId ≤ this.lastPacketId)
    (hwindow : this.lastPacketId.toNat ≤ packetId.toNat + 8128) :
    ((this.checkAndSet packetId).2 = true ↔ packetId ∉ accepted) ∧
      Represents (this.checkAndSet packetId).1
        (if (this.checkAndSet packetId).2 then packetId :: accepted else accepted) := by
  obtain ⟨hanswer, htracks⟩ := tracks_checkAndSet h.tracks hle hwindow
  rw [mem_toNat_iff] at hanswer
  refine ⟨hanswer, ?_⟩
  split
  · next hnew =>
      rw [insert_toNat] at htracks
      exact ⟨htracks, h.largest.imp_right (List.mem_cons_of_mem _),
        List.nodup_cons.mpr ⟨hanswer.mp hnew, h.nodup⟩⟩
  · next hold =>
      have hmem : packetId ∈ accepted := by
        by_contra hnot
        exact hold (hanswer.mpr hnot)
      rw [Set.insert_eq_of_mem (mem_toNat_iff.mpr hmem)] at htracks
      exact ⟨htracks, h.largest, h.nodup⟩

/-- A packet ahead of the window is accepted, whatever the ring held at its place. -/
theorem represents_ahead (h : Represents this accepted) (hahead : this.lastPacketId < packetId) :
    ((this.moveForward packetId).checkAndSet packetId).2 = true ∧
      Represents ((this.moveForward packetId).checkAndSet packetId).1 (packetId :: accepted) := by
  have hnew : packetId ∉ accepted := by
    intro hmem
    have hle := h.tracks.le_last _ (mem_toNat_iff.mpr hmem)
    exact absurd (UInt64.lt_iff_toNat_lt.mp hahead) (Nat.not_lt.mpr hle)
  obtain ⟨hanswer, htracks⟩ := tracks_checkAndSet (tracks_moveForward h.tracks hahead)
    (UInt64.le_refl packetId) (Nat.le_add_right _ _)
  rw [mem_toNat_iff] at hanswer
  rw [insert_toNat] at htracks
  exact ⟨hanswer.mpr hnew, htracks, Or.inr List.mem_cons_self, List.nodup_cons.mpr ⟨hnew, h.nodup⟩⟩

/-- One call: the answer, and what the filter remembers. -/
theorem represents_validatePacketId (h : Represents this accepted) (packetId limit : UInt64) :
    ((this.validatePacketId packetId limit).2 = true ↔
      packetId < limit ∧ packetId ∉ accepted ∧ ∀ x ∈ accepted, x.toNat ≤ packetId.toNat + 8128) ∧
      Represents (this.validatePacketId packetId limit).1
        (if (this.validatePacketId packetId limit).2 then packetId :: accepted else accepted) := by
  rw [← toNat_lastPacketId_le_iff h]
  unfold validatePacketId
  split
  · next hlimit =>
      refine ⟨iff_of_false Bool.false_ne_true ?_, h⟩
      intro hok
      exact absurd hok.1 (UInt64.not_lt.mpr hlimit)
  · next hlimit =>
      have hlt : packetId < limit := UInt64.not_le.mp hlimit
      split
      · next hahead =>
          obtain ⟨hanswer, hrep⟩ := represents_ahead h hahead
          have hahead' : this.lastPacketId.toNat < packetId.toNat :=
            UInt64.lt_iff_toNat_lt.mp hahead
          have hnew := (List.nodup_cons.mp hrep.nodup).1
          rw [if_pos hanswer]
          exact ⟨iff_of_true hanswer ⟨hlt, hnew, by omega⟩, hrep⟩
      · next hbehind =>
          have hle : packetId ≤ this.lastPacketId := UInt64.not_lt.mp hbehind
          have hdistance : windowSize < this.lastPacketId - packetId ↔
              packetId.toNat + 8128 < this.lastPacketId.toNat := by
            have hle' := UInt64.le_iff_toNat_le.mp hle
            rw [UInt64.lt_iff_toNat_lt, UInt64.toNat_sub_of_le _ _ hle]
            show 8128 < _ ↔ _
            omega
          split
          · next hfar =>
              refine ⟨iff_of_false Bool.false_ne_true ?_, h⟩
              intro hok
              exact absurd hok.2.2 (Nat.not_le.mpr (hdistance.mp hfar))
          · next hnear =>
              have hwindow : this.lastPacketId.toNat ≤ packetId.toNat + 8128 := by
                rw [gt_iff_lt, hdistance] at hnear
                omega
              obtain ⟨hanswer, hrep⟩ := represents_checkAndSet h hle hwindow
              refine ⟨?_, hrep⟩
              rw [hanswer]
              exact ⟨fun hnew => ⟨hlt, hnew, hwindow⟩, fun hok => hok.2.1⟩

/-! ## Runs -/

/-- A call of the filter. -/
inductive Call where
  | validatePacketId (packetId limit : UInt64)
  | reset
  deriving DecidableEq, Repr

/-- A filter with the ids it accepted since the last reset. -/
structure History where
  filter : PacketWindowFilter := new
  accepted : List UInt64 := []

def History.call (s : History) : Call → History
  | .validatePacketId packetId limit =>
      { filter := (s.filter.validatePacketId packetId limit).1
        accepted := if (s.filter.validatePacketId packetId limit).2 then packetId :: s.accepted
          else s.accepted }
  | .reset => { filter := s.filter.reset, accepted := [] }

def History.of (calls : List Call) : History := calls.foldl History.call {}

theorem represents_call {s : History} (h : Represents s.filter s.accepted) (call : Call) :
    Represents (s.call call).filter (s.call call).accepted := by
  cases call with
  | validatePacketId packetId limit => exact (represents_validatePacketId h packetId limit).2
  | reset => exact represents_reset

theorem represents_history (calls : List Call) :
    Represents (History.of calls).filter (History.of calls).accepted := by
  induction calls using List.reverseRecOn with
  | nil => exact represents_new
  | append_singleton calls call ih =>
      unfold History.of
      rw [List.foldl_append]
      exact represents_call ih call

/-- After any calls, a packet is accepted exactly if its id is below the limit, was not accepted
since the last reset, and is at most 8128 behind every id that was. -/
theorem packet_window_exact (calls : List Call) (packetId limit : UInt64) :
    ((History.of calls).filter.validatePacketId packetId limit).2 = true ↔
      packetId < limit ∧ packetId ∉ (History.of calls).accepted ∧
        ∀ x ∈ (History.of calls).accepted, x.toNat ≤ packetId.toNat + 8128 :=
  (represents_validatePacketId (represents_history calls) packetId limit).1

end PacketWindowFilter

end CypherConnect.SsLocal
