/-
  Streams of sealed frames. A stream starts with a salt; each frame is the sealed length of a
  payload and the sealed payload, and every sealing has its number. What a seal is made of is left
  open: it has a fixed overhead, and exactly the sealed texts are opened.

  * `framesFrom_append`: frames are written one behind the other.
  * `framesFrom_prefix`: frames at the beginning of a stream of frames are its first ones.
-/
import CypherConnect.Lib.BigEndian

namespace CypherConnect.SealedFrames

/-- A way to seal texts under a salt and a number. -/
structure Sealing where
  saltLen : Nat
  tagLen : Nat
  tagLen_pos : 0 < tagLen
  encrypt : List UInt8 → Nat → List UInt8 → List UInt8
  decrypt : List UInt8 → Nat → List UInt8 → Option (List UInt8)
  length_encrypt : ∀ salt n p, (encrypt salt n p).length = p.length + tagLen
  decrypt_eq_some_iff : ∀ salt n c p, decrypt salt n c = some p ↔ c = encrypt salt n p

namespace Sealing

variable (S : Sealing) (salt : List UInt8)

/-- The `i`-th frame. -/
def frame (i : Nat) (p : List UInt8) : List UInt8 :=
  S.encrypt salt (2 * i) (BigEndian.bytes 2 p.length) ++ S.encrypt salt (2 * i + 1) p

/-- The frames of payloads, the first of which is the `i`-th. -/
def framesFrom : Nat → List (List UInt8) → List UInt8
  | _, [] => []
  | i, p :: ps => S.frame salt i p ++ framesFrom (i + 1) ps

/-- A whole stream. -/
def stream (ps : List (List UInt8)) : List UInt8 := salt ++ S.framesFrom salt 0 ps

variable {S salt}

theorem decrypt_encrypt (n : Nat) (p : List UInt8) :
    S.decrypt salt n (S.encrypt salt n p) = some p :=
  (S.decrypt_eq_some_iff salt n _ p).mpr rfl

theorem encrypt_inj {n : Nat} {p q : List UInt8} (h : S.encrypt salt n p = S.encrypt salt n q) :
    p = q := by
  have hp : S.decrypt salt n (S.encrypt salt n p) = some p := decrypt_encrypt n p
  rw [h, decrypt_encrypt] at hp
  exact (Option.some.inj hp).symm

theorem framesFrom_append (i : Nat) (ps qs : List (List UInt8)) :
    S.framesFrom salt i (ps ++ qs) = S.framesFrom salt i ps ++ S.framesFrom salt
      (i + ps.length) qs := by
  induction ps generalizing i with
  | nil => rfl
  | cons p ps ih =>
      have hindex : i + 1 + ps.length = i + (p :: ps).length := by
        rw [List.length_cons]
        omega
      show S.frame salt i p ++ S.framesFrom salt (i + 1) (ps ++ qs) = _
      rw [ih, hindex, ← List.append_assoc]
      rfl

theorem framesFrom_snoc (i : Nat) (ps : List (List UInt8)) (p : List UInt8) :
    S.framesFrom salt i (ps ++ [p]) = S.framesFrom salt i ps ++ S.frame salt (i + ps.length) p := by
  rw [framesFrom_append]
  show _ ++ (S.frame salt (i + ps.length) p ++ []) = _
  rw [List.append_nil]

theorem length_frame (i : Nat) (p : List UInt8) :
    (S.frame salt i p).length = 2 + S.tagLen + (p.length + S.tagLen) := by
  unfold frame
  rw [List.length_append, S.length_encrypt, S.length_encrypt, BigEndian.length_bytes]

/-- The sealed length at the beginning of a frame is that of its payload. -/
theorem length_of_prefix {i : Nat} {p a b : List UInt8} {n : Nat}
    (h : S.encrypt salt (2 * i) (BigEndian.bytes 2 n) ++ a = S.frame salt i p ++ b)
    (hn : n < 65536) (hp : p.length < 65536) :
    n = p.length ∧ a = S.encrypt salt (2 * i + 1) p ++ b := by
  unfold frame at h
  rw [List.append_assoc] at h
  obtain ⟨hlength, hrest⟩ := List.append_inj h (by
    rw [S.length_encrypt, S.length_encrypt, BigEndian.length_bytes, BigEndian.length_bytes])
  have hvalue := congrArg BigEndian.value (encrypt_inj hlength)
  rw [BigEndian.value_bytes, BigEndian.value_bytes, show 256 ^ 2 = 65536 from rfl,
    Nat.mod_eq_of_lt hn, Nat.mod_eq_of_lt hp] at hvalue
  exact ⟨hvalue, hrest⟩

/-- A frame at the beginning of a stream of frames is the first of them. -/
theorem frame_inj {i : Nat} {p q a b : List UInt8}
    (h : S.frame salt i q ++ a = S.frame salt i p ++ b) (hq : q.length < 65536)
    (hp : p.length < 65536) : q = p ∧ a = b := by
  have hunfold : S.encrypt salt (2 * i) (BigEndian.bytes 2 q.length) ++
      (S.encrypt salt (2 * i + 1) q ++ a) =
      S.frame salt i p ++ b := by
    rw [← h, frame, List.append_assoc]
  obtain ⟨hlen, hrest⟩ := length_of_prefix hunfold hq hp
  obtain ⟨hpayload, hab⟩ := List.append_inj hrest (by rw [S.length_encrypt, S.length_encrypt, hlen])
  exact ⟨encrypt_inj hpayload, hab⟩

/-- Frames at the beginning of a stream of frames are its first ones, and what follows them begins
the others. -/
theorem framesFrom_prefix {i : Nat} {qs ps : List (List UInt8)} {a : List UInt8}
    (h : S.framesFrom salt i qs ++ a <+: S.framesFrom salt i ps) (hqs : ∀ q ∈ qs, q.length < 65536)
    (hps : ∀ p ∈ ps, p.length < 65536) :
    ∃ rest, ps = qs ++ rest ∧ a <+: S.framesFrom salt (i + qs.length) rest := by
  induction qs generalizing i ps with
  | nil => exact ⟨ps, rfl, h⟩
  | cons q qs ih =>
      obtain ⟨b, hb⟩ := h
      cases ps with
      | nil =>
          have hlen := congrArg List.length hb
          simp only [framesFrom, List.length_append, length_frame, List.length_nil] at hlen
          omega
      | cons p ps =>
          simp only [framesFrom, List.append_assoc] at hb
          obtain ⟨rfl, hrest⟩ := frame_inj hb (hqs q List.mem_cons_self) (hps p List.mem_cons_self)
          obtain ⟨rest, rfl, ha⟩ := ih ⟨b, by rw [List.append_assoc]; exact hrest⟩
            (fun x hx => hqs x (List.mem_cons_of_mem _ hx))
              (fun x hx => hps x (List.mem_cons_of_mem _ hx))
          refine ⟨rest, rfl, ?_⟩
          rw [List.length_cons, Nat.add_comm qs.length, ← Nat.add_assoc]
          exact ha

end Sealing

end CypherConnect.SealedFrames
