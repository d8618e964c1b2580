/-
  The values of the preference store, `database/KeyValuePair.kt`.

  Numbers and texts come back as they were put (`getters_put`). A set of strings is written as
  one record a string, its length and its bytes; but the length is that of the string and not that
  of the bytes. The records are found again only where both are the same.

  * `readSet_records`: records with the right lengths are read as they were written.
  * `first_record`: what is read of a first record with a length that is too small.
  * `string_sets_iff`: a set comes back, in whatever order it was written, exactly if its strings
    are ASCII.
-/
import Mathlib.Data.Finset.Max
import CypherConnect.Lib.BigEndian
import CypherConnect.Lib.Utf16
import CypherConnect.Lib.Utf8
import CypherConnect.Database.Profile

namespace CypherConnect

/-- `valueType`, without the type of floating point numbers. -/
inductive ValueType
  | uninitialized | boolean | int | long | string | stringSet
  deriving DecidableEq, Repr

structure KeyValuePair where
  key : Text := []
  valueType : ValueType := .uninitialized
  value : List UInt8 := []
  deriving DecidableEq, Repr

namespace KeyValuePair

/-- The exceptions of `ByteBuffer` and of an array of a negative size. -/
inductive Failure
  | bufferUnderflow | negativeArraySize
  deriving DecidableEq, Repr

/-- `String.length`. -/
def length (t : Text) : Nat := (Utf16.encode t).length

/-- A text that a `String` can hold: its length is an `Int`. -/
def IsString (t : Text) : Prop := length t < 2 ^ 31

/-- `ByteBuffer.putInt` and `putLong`, into a buffer of their size. -/
def putNumber (w : Nat) (n : Int) : List UInt8 := BigEndian.bytes w (n % (256 ^ w : Nat)).toNat

/-- `ByteBuffer.int` and `long`. -/
def getNumber (w : Nat) (buffer : List UInt8) : Except Failure (Int × List UInt8) :=
  match BigEndian.field w buffer with
  | some (n, rest) => .ok (BigEndian.signed w n, rest)
  | none => .error .bufferUnderflow

/-! ## Putting -/

def putBoolean (this : KeyValuePair) (value : Bool) : KeyValuePair :=
  { this with valueType := .boolean, value := putNumber 1 (if value then 1 else 0) }

def putInt (this : KeyValuePair) (value : Int) : KeyValuePair :=
  { this with valueType := .int, value := putNumber 4 value }

def putLong (this : KeyValuePair) (value : Int) : KeyValuePair :=
  { this with valueType := .long, value := putNumber 8 value }

def putString (this : KeyValuePair) (value : Text) : KeyValuePair :=
  { this with valueType := .string, value := Utf8.encode value }

/-- What `put(Set<String>)` writes for one string: the length counts UTF-16 units, and the bytes are
UTF-8. -/
def record (v : Text) : List UInt8 := putNumber 4 (length v) ++ Utf8.encode v

/-- `put(Set<String>)`, for a set in the order of its iterator. -/
def putStringSet (this : KeyValuePair) (value : List Text) : KeyValuePair :=
  { this with
    valueType := .stringSet
    value := value.foldl (fun stream v => stream ++ record v) [] }

/-! ## Getting -/

def boolean (this : KeyValuePair) : Except Failure (Option Bool) :=
  if this.valueType = .boolean then (getNumber 1 this.value).map fun x => some (x.1 != 0)
  else .ok none

def int (this : KeyValuePair) : Except Failure (Option Int) :=
  if this.valueType = .int then (getNumber 4 this.value).map fun x => some x.1 else .ok none

def long (this : KeyValuePair) : Except Failure (Option Int) :=
  match this.valueType with
  | .int => (getNumber 4 this.value).map fun x => some x.1
  | .long => (getNumber 8 this.value).map fun x => some x.1
  | _ => .ok none

def string (this : KeyValuePair) : Option Text :=
  if this.valueType = .string then some (Utf8.decode this.value) else none

/-- One turn of the loop of `stringSet`: a string and what is left. -/
def nextString (buffer : List UInt8) : Except Failure (Text × List UInt8) := do
  let (size, rest) ← getNumber 4 buffer
  if size < 0 then throw .negativeArraySize
  match BigEndian.split size.toNat rest with
  | some (chArr, rest) => pure (Utf8.decode chArr, rest)
  | none => throw .bufferUnderflow

/-- A string that was read, and where it was read from. -/
theorem nextString_ok {buffer rest : List UInt8} {s : Text}
    (h : nextString buffer = .ok (s, rest)) :
    ∃ size chArr, buffer = size ++ (chArr ++ rest) ∧ size.length = 4 ∧ s = Utf8.decode chArr ∧
      BigEndian.signed 4 (BigEndian.value size) = chArr.length := by
  unfold nextString getNumber BigEndian.field at h
  cases hsize : BigEndian.split 4 buffer with
  | none =>
      rw [hsize] at h
      cases h
  | some x =>
      obtain ⟨size, after⟩ := x
      obtain ⟨rfl, hlen⟩ := BigEndian.split_some hsize
      rw [hsize] at h
      by_cases hneg : BigEndian.signed 4 (BigEndian.value size) < 0
      · simp only [Option.map_some, bind, Except.bind, if_pos hneg] at h
        cases h
      · simp only [Option.map_some, bind, Except.bind, if_neg hneg, pure, Except.pure] at h
        cases hbody : BigEndian.split (BigEndian.signed 4 (BigEndian.value size)).toNat after with
        | none =>
            rw [hbody] at h
            cases h
        | some y =>
            obtain ⟨chArr, rest'⟩ := y
            obtain ⟨rfl, hbytes⟩ := BigEndian.split_some hbody
            rw [hbody] at h
            cases h
            exact ⟨size, chArr, rfl, hlen, rfl, by omega⟩

/-- Each turn takes at least the four bytes of the length, so the loop ends. -/
theorem nextString_length {buffer rest : List UInt8} {s : Text}
    (h : nextString buffer = .ok (s, rest)) : rest.length < buffer.length := by
  obtain ⟨size, chArr, rfl, hlen, -⟩ := nextString_ok h
  rw [List.length_append, List.length_append, hlen]
  omega

/-- The loop of `stringSet`. -/
def readSet (result : Finset Text) (buffer : List UInt8) : Except Failure (Finset Text) :=
  if buffer.isEmpty then .ok result
  else
    match _h : nextString buffer with
    | .ok (s, rest) => readSet (insert s result) rest
    | .error e => .error e
termination_by buffer.length
decreasing_by exact nextString_length _h

def stringSet (this : KeyValuePair) : Except Failure (Option (Finset Text)) :=
  if this.valueType = .stringSet then (readSet ∅ this.value).map some else .ok none

/-! ## Numbers and texts -/

theorem getNumber_putNumber {w : Nat} {n : Int} (hlow : -(256 ^ w : Nat) ≤ 2 * n)
    (hhigh : 2 * n < (256 ^ w : Nat)) (rest : List UInt8) :
    getNumber w (putNumber w n ++ rest) = .ok (n, rest) := by
  have hpos : (0 : Int) < (256 ^ w : Nat) := Int.natCast_pos.mpr (Nat.pow_pos (by decide))
  have hmod := Int.emod_nonneg n (ne_of_gt hpos)
  have hlt := Int.emod_lt_of_pos n hpos
  unfold getNumber putNumber
  rw [BigEndian.field_bytes (by omega)]
  show Except.ok (BigEndian.signed w _, rest) = _
  rw [Except.ok.injEq, Prod.mk.injEq]
  refine ⟨?_, rfl⟩
  unfold BigEndian.signed
  generalize (256 ^ w : Nat) = m at *
  rcases Int.lt_or_le n 0 with hneg | hnonneg
  · have hwrap : n % (m : Int) = n + m := by
      rw [← Int.add_emod_right, Int.emod_eq_of_lt (by omega) (by omega)]
    rw [hwrap, if_neg (by omega)]
    omega
  · rw [Int.emod_eq_of_lt hnonneg (by omega), if_pos (by omega)]
    omega

/-- Every value that is put is what its getter returns: an `Int` also as a `Long`. -/
theorem getters_put (this : KeyValuePair) (b : Bool) (i l : Int) (t : Text)
    (hi : -2 ^ 31 ≤ i ∧ i < 2 ^ 31) (hl : -2 ^ 63 ≤ l ∧ l < 2 ^ 63) :
    (this.putBoolean b).boolean = .ok (some b) ∧ (this.putInt i).int = .ok (some i) ∧
      (this.putInt i).long = .ok (some i) ∧ (this.putLong l).long = .ok (some l) ∧
      (this.putString t).string = some t := by
  have hint : getNumber 4 (putNumber 4 i) = .ok (i, []) := by
    have hread := getNumber_putNumber (w := 4) (n := i) (by omega) (by omega) []
    rw [List.append_nil] at hread
    exact hread
  have hlong : getNumber 8 (putNumber 8 l) = .ok (l, []) := by
    have hread := getNumber_putNumber (w := 8) (n := l) (by omega) (by omega) []
    rw [List.append_nil] at hread
    exact hread
  refine ⟨?_, ?_, ?_, ?_, ?_⟩
  · cases b <;> rfl
  · exact congrArg (Except.map fun x => some x.1) hint
  · exact congrArg (Except.map fun x => some x.1) hint
  · exact congrArg (Except.map fun x => some x.1) hlong
  · exact congrArg some (Utf8.decode_encode t)

/-! ## Lengths -/

/-- The characters of a string that is stored as one byte each. -/
def IsAscii (t : Text) : Prop := ∀ c ∈ t, Utf8.isAscii c = true

instance (t : Text) : Decidable (IsAscii t) := List.decidableBAll _ t

theorem length_cons (c : Char) (t : Text) : length (c :: t) = (Utf16.units c).length + length t :=
  List.length_append

theorem length_append (s t : Text) : length (s ++ t) = length s + length t := by
  unfold length Utf16.encode
  rw [List.flatMap_append, List.length_append]

/-- A character has as many units as bytes if it is an ASCII character, and fewer otherwise. -/
theorem length_units (c : Char) :
    (Utf16.units c).length ≤ (String.utf8EncodeChar c).length ∧
      ((Utf16.units c).length = (String.utf8EncodeChar c).length ↔ Utf8.isAscii c = true) := by
  have hascii : Utf8.isAscii c = true ↔ c.toNat < 128 := decide_eq_true_iff
  have hval : c.val.toNat = c.toNat := rfl
  rw [hascii]
  unfold Utf16.units String.utf8EncodeChar
  simp only [hval]
  by_cases hbmp : c.toNat < 0x10000
  · rw [if_pos hbmp]
    split
    · exact ⟨Nat.le_refl 1, iff_of_true rfl (by omega)⟩
    · split
      · simp only [List.length_cons, List.length_nil]
        omega
      · rw [if_pos (by omega)]
        simp only [List.length_cons, List.length_nil]
        omega
  · rw [if_neg hbmp, if_neg (by omega), if_neg (by omega), if_neg (by omega)]
    simp only [List.length_cons, List.length_nil]
    omega

/-- A string is at least as long in bytes, and as long exactly if it is ASCII. -/
theorem length_le (t : Text) : length t ≤ (Utf8.encode t).length ∧
    (length t = (Utf8.encode t).length ↔ IsAscii t) := by
  induction t with
  | nil => exact ⟨Nat.le_refl 0, iff_of_true rfl (List.forall_mem_nil _)⟩
  | cons c t ih =>
      obtain ⟨hle, hiff⟩ := length_units c
      have hbytes : (Utf8.encode (c :: t)).length =
          (String.utf8EncodeChar c).length + (Utf8.encode t).length := List.length_append
      have hcons : IsAscii (c :: t) ↔ Utf8.isAscii c = true ∧ IsAscii t := List.forall_mem_cons
      rw [length_cons, hbytes, hcons, ← hiff, ← ih.2]
      have hle' := ih.1
      omega

/-! ## Records -/

theorem length_number {v : Text} (hv : IsString v) (rest : List UInt8) :
    getNumber 4 (putNumber 4 (length v) ++ rest) = .ok ((length v : Int), rest) := by
  unfold IsString at hv
  exact getNumber_putNumber (by omega) (by omega) rest

/-- The first record: as many bytes as the string has units. -/
theorem first_record {v : Text} (hv : IsString v) (rest : List UInt8) :
    nextString (record v ++ rest) =
      .ok (Utf8.decode ((Utf8.encode v).take (length v)),
        (Utf8.encode v).drop (length v) ++ rest) := by
  have hle := (length_le v).1
  have hsplit : BigEndian.split (length v) (Utf8.encode v ++ rest) =
      some ((Utf8.encode v).take (length v), (Utf8.encode v).drop (length v) ++ rest) := by
    have happend := BigEndian.split_append ((Utf8.encode v).take (length v))
      ((Utf8.encode v).drop (length v) ++ rest)
    rw [List.length_take_of_le hle, ← List.append_assoc, List.take_append_drop] at happend
    exact happend
  unfold nextString record
  rw [List.append_assoc, length_number hv]
  simp only [bind, Except.bind, if_neg (Int.not_lt.mpr (Int.natCast_nonneg _)), Int.toNat_natCast,
    hsplit, pure, Except.pure]

theorem readSet_next {buffer rest : List UInt8} {s : Text} (h : nextString buffer = .ok (s, rest))
    (result : Finset Text) : readSet result buffer = readSet (insert s result) rest := by
  have hne : ¬ buffer.isEmpty = true := by
    intro hempty
    rw [List.isEmpty_iff.mp hempty] at h
    cases h
  rw [readSet.eq_def, if_neg hne]
  split
  · next heq =>
      rw [h] at heq
      cases heq
      rfl
  · next heq =>
      rw [h] at heq
      cases heq

theorem readSet_error {buffer : List UInt8} {e : Failure} (hne : buffer ≠ [])
    (h : nextString buffer = .error e) (result : Finset Text) :
    readSet result buffer = .error e := by
  rw [readSet.eq_def, if_neg fun hempty => hne (List.isEmpty_iff.mp hempty)]
  split
  · next heq =>
      rw [h] at heq
      cases heq
  · next heq =>
      rw [h] at heq
      cases heq
      rfl

theorem readSet_nil (result : Finset Text) : readSet result [] = .ok result := by
  rw [readSet.eq_def]
  rfl

/-- What has been read stays. -/
theorem subset_of_readSet {result final : Finset Text} {buffer : List UInt8}
    (h : readSet result buffer = .ok final) : result ⊆ final := by
  induction hn : buffer.length using Nat.strong_induction_on generalizing result buffer with
  | _ n ih =>
      by_cases hnil : buffer = []
      · rw [hnil, readSet_nil] at h
        cases h
        exact Finset.Subset.refl _
      · cases hnext : nextString buffer with
        | error e =>
            rw [readSet_error hnil hnext] at h
            cases h
        | ok x =>
            obtain ⟨s, rest⟩ := x
            rw [readSet_next hnext] at h
            have hlt := nextString_length hnext
            exact (Finset.subset_insert s result).trans (ih _ (hn ▸ hlt) h rfl)

theorem record_ascii {v : Text} (hv : IsString v) (hascii : IsAscii v) (rest : List UInt8) :
    nextString (record v ++ rest) = .ok (v, rest) := by
  have hlen := (length_le v).2.mpr hascii
  rw [first_record hv, hlen, List.take_length, List.drop_length, Utf8.decode_encode,
    List.nil_append]

/-- Records with the right lengths are read as they were written. -/
theorem readSet_records {order : List Text} (h : ∀ s ∈ order, IsString s ∧ IsAscii s)
    (result : Finset Text) :
    readSet result (order.flatMap record) = .ok (result ∪ order.toFinset) := by
  induction order generalizing result with
  | nil =>
      rw [List.toFinset_nil, Finset.union_empty]
      exact readSet_nil result
  | cons v order ih =>
      obtain ⟨hv, hascii⟩ := h v List.mem_cons_self
      rw [List.flatMap_cons, readSet_next (record_ascii hv hascii _),
        ih fun s hs => h s (List.mem_cons_of_mem _ hs), List.toFinset_cons, Finset.insert_union,
        Finset.union_insert]

theorem putStringSet_value (this : KeyValuePair) (order : List Text) :
    (this.putStringSet order).value = order.flatMap record := by
  have hfold (stream : List UInt8) :
      order.foldl (fun stream v => stream ++ record v) stream = stream ++ order.flatMap record := by
    induction order generalizing stream with
    | nil => exact (List.append_nil _).symm
    | cons v order ih => rw [List.foldl_cons, ih, List.flatMap_cons, List.append_assoc]
  exact hfold []

theorem stringSet_putStringSet (this : KeyValuePair) (order : List Text) :
    (this.putStringSet order).stringSet = (readSet ∅ (order.flatMap record)).map some := by
  rw [← putStringSet_value this order]
  rfl

/-! ## Sets -/

/-- A buffer whose first byte is from 128 on announces a negative size. -/
theorem nextString_high {b : UInt8} {rest : List UInt8} (hb : 128 ≤ b.toNat) :
    ∀ x, nextString (b :: rest) ≠ .ok x := by
  rintro ⟨s, after⟩ h
  obtain ⟨size, chArr, heq, hlen, -, hsigned⟩ := nextString_ok h
  obtain ⟨c, size, rfl⟩ := List.exists_cons_of_length_pos (l := size) (by omega)
  obtain ⟨rfl, -⟩ := List.cons.inj heq
  have hneg : BigEndian.signed (size.length + 1) (BigEndian.value (b :: size)) < 0 :=
    BigEndian.signed_of_head hb
  rw [List.length_cons] at hlen
  rw [hlen, hsigned] at hneg
  omega

/-- A string that is written first and not ASCII: the loop fails, or it has read a text that is as
many bytes long as the string has units. -/
theorem shorter_of_readSet {v : Text} (hv : IsString v) (hascii : ¬ IsAscii v) {rest : List UInt8}
    {final : Finset Text} (h : readSet ∅ (record v ++ rest) = .ok final) :
    ∃ k, (Utf8.encode (v.take k)).length = length v ∧ v.take k ∈ final := by
  rw [readSet_next (first_record hv rest)] at h
  have hlt : length v < (Utf8.encode v).length := by
    obtain ⟨hle, hiff⟩ := length_le v
    have hne : length v ≠ (Utf8.encode v).length := fun heq => hascii (hiff.mp heq)
    omega
  have hdrop : (Utf8.encode v).drop (length v) =
      (Utf8.encode v)[length v] :: (Utf8.encode v).drop (length v + 1) :=
        List.drop_eq_getElem_cons hlt
  have hlow : (Utf8.encode v)[length v].toNat < 128 := by
    by_contra hhigh
    rw [hdrop, List.cons_append] at h
    cases hnext : nextString ((Utf8.encode v)[length v] ::
        ((Utf8.encode v).drop (length v + 1) ++ rest)) with
    | ok x => exact nextString_high (Nat.le_of_not_lt hhigh) x hnext
    | error e =>
        rw [readSet_error (List.cons_ne_nil _ _) hnext] at h
        cases h
  have hsplit : Utf8.encode v = (Utf8.encode v).take (length v) ++
      (Utf8.encode v)[length v] :: (Utf8.encode v).drop (length v + 1) := by
    rw [← hdrop, List.take_append_drop]
  obtain ⟨k, hk⟩ := Utf8.encode_before_ascii hsplit hlow
  refine ⟨k, ?_, ?_⟩
  · rw [← hk, List.length_take_of_le (Nat.le_of_lt hlt)]
  · refine subset_of_readSet h (Finset.mem_insert.mpr (Or.inl ?_))
    rw [hk, Utf8.decode_encode]

/-- A beginning of a string with as many bytes as the string has units is not ASCII, if the string
is not. -/
theorem take_not_ascii {v : Text} {k : Nat} (hlen : (Utf8.encode (v.take k)).length = length v)
    (hascii : IsAscii (v.take k)) : IsAscii v := by
  have hunits := (length_le (v.take k)).2.mpr hascii
  have hsum : length v = length (v.take k) + length (v.drop k) := by
    rw [← length_append, List.take_append_drop]
  have hnil : v.drop k = [] := by
    cases hd : v.drop k with
    | nil => rfl
    | cons c t =>
        have hpos := List.length_pos_of_ne_nil (Utf16.units_ne_nil c)
        rw [hd, length_cons] at hsum
        omega
  rw [List.drop_eq_nil_iff] at hnil
  rw [List.take_of_length_le hnil] at hascii
  exact hascii

/-- A set of strings comes back, whatever the order it is written in, exactly if its strings are
ASCII. -/
theorem string_sets_iff (this : KeyValuePair) (set : Finset Text) (hset : ∀ s ∈ set, IsString s) :
    (∀ order : List Text, order.Nodup → order.toFinset = set →
        (this.putStringSet order).stringSet = .ok (some set)) ↔ ∀ s ∈ set, IsAscii s := by
  constructor
  · intro h
    by_contra hnot
    push Not at hnot
    -- of the strings that are not ASCII, the one with the fewest bytes is written first
    have hfilter : (set.filter (¬ IsAscii ·)).Nonempty := by
      obtain ⟨s, hs, hascii⟩ := hnot
      exact ⟨s, Finset.mem_filter.mpr ⟨hs, hascii⟩⟩
    obtain ⟨v, hmem, hmin⟩ := Finset.exists_min_image _ (fun s => (Utf8.encode s).length) hfilter
    obtain ⟨hv, hascii⟩ := Finset.mem_filter.mp hmem
    have horder : (v :: (set.erase v).toList).toFinset = set := by
      rw [List.toFinset_cons, Finset.toList_toFinset, Finset.insert_erase hv]
    have hnodup : (v :: (set.erase v).toList).Nodup := by
      rw [List.nodup_cons, Finset.mem_toList]
      exact ⟨Finset.notMem_erase v set, Finset.nodup_toList _⟩
    have hread := h _ hnodup horder
    rw [stringSet_putStringSet, List.flatMap_cons] at hread
    cases hset' : readSet ∅ (record v ++ (set.erase v).toList.flatMap record) with
    | error e =>
        rw [hset'] at hread
        cases hread
    | ok final =>
        rw [hset'] at hread
        cases hread
        obtain ⟨k, hlen, hin⟩ := shorter_of_readSet (hset v hv) hascii hset'
        have hshort : ¬ IsAscii (v.take k) := fun hk => hascii (take_not_ascii hlen hk)
        have hle := hmin _ (Finset.mem_filter.mpr ⟨hin, hshort⟩)
        obtain ⟨hunits, hiff⟩ := length_le v
        have hne : length v ≠ (Utf8.encode v).length := fun heq => hascii (hiff.mp heq)
        simp only [hlen] at hle
        omega
  · intro hascii order _ horder
    have hmem : ∀ s ∈ order, IsString s ∧ IsAscii s := by
      intro s hs
      have hin : s ∈ set := by
        rw [← horder]
        exact List.mem_toFinset.mpr hs
      exact ⟨hset s hin, hascii s hin⟩
    rw [stringSet_putStringSet, readSet_records hmem, horder, Finset.empty_union]
    rfl

/-- One accented letter is written with the length 1 and two bytes: reading it fails. -/
theorem string_set_accent : (∀ s ∈ ({['é']} : Finset Text), IsString s) ∧
    (({} : KeyValuePair).putStringSet [['é']]).stringSet = .error .bufferUnderflow := by
  have hbytes : [['é']].flatMap record = [0, 0, 0, 1, 0xC3, 0xA9] := by decide +kernel
  have hfirst : nextString [0, 0, 0, 1, 0xC3, 0xA9] = .ok ([Utf8.replacement], [0xA9]) := by
    decide +kernel
  refine ⟨?_, ?_⟩
  · intro s hs
    rw [Finset.mem_singleton.mp hs]
    exact Nat.lt_of_lt_of_le (show 1 < 2 by decide) (by decide)
  · rw [stringSet_putStringSet, hbytes, readSet_next hfirst,
      readSet_error (List.cons_ne_nil _ _)
        (show nextString [0xA9] = .error .bufferUnderflow from rfl)]
    rfl

theorem string_sets_ascii : (({} : KeyValuePair).putStringSet ["a".toList, "bc".toList]).stringSet =
    .ok (some {"a".toList, "bc".toList}) := by
  refine (string_sets_iff {} {"a".toList, "bc".toList} ?_).mpr ?_ _ (by decide) (by simp)
  · intro s hs
    rw [Finset.mem_insert, Finset.mem_singleton] at hs
    rcases hs with rfl | rfl
    · exact Nat.lt_of_lt_of_le (show 1 < 3 by decide) (by decide)
    · exact Nat.lt_of_lt_of_le (show 2 < 3 by decide) (by decide)
  · intro s hs
    rw [Finset.mem_insert, Finset.mem_singleton] at hs
    rcases hs with rfl | rfl
    · exact List.all_eq_true.mp (by decide)
    · exact List.all_eq_true.mp (by decide)

end KeyValuePair

end CypherConnect
