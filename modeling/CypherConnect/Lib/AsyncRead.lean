/-
  Readers of a byte stream that arrives in pieces. `readExact n` reads until it has `n` elements,
  however the stream is cut; `takeExact n` takes them from a stream that is there as a whole.

  * `Follows p q`: the reader `p` of pieces does what the reader `q` of the whole stream does.
  * `follows_bind`, `follows_pure`, `follows_throw`, `follows_readExact`: readers that are written
    the same way follow each other, so that what is proved of whole streams holds for every way to
    cut them.
-/
import CypherConnect.Lib.InputStream

namespace CypherConnect.AsyncRead

open InputStream

universe u

variable {ε α β γ : Type}

/-- A reader of a stream `σ`, which fails with `ε`. -/
abbrev Reader (ε σ α : Type) := StateT σ (Except ε) α

/-- `read_exact` with `acc` read so far: it reads again while something is missing. An empty read is
the end of the stream. -/
def readMore (eof : ε) (acc : List α) (n : Nat) :
    (pieces : List (List α)) → Except ε (List α × List (List α))
  | [] => if n = 0 then .ok (acc, []) else .error eof
  | piece :: pieces =>
      if n = 0 then .ok (acc, piece :: pieces)
      else if piece.length ≤ n then readMore eof (acc ++ piece) (n - piece.length) pieces
      else .ok (acc ++ piece.take n, piece.drop n :: pieces)

def readExact (eof : ε) (n : Nat) : Reader ε (List (List α)) (List α) := readMore eof [] n

def takeExact (eof : ε) (n : Nat) : Reader ε (List α) (List α) :=
  fun s => if n ≤ s.length then .ok (s.take n, s.drop n) else .error eof

/-- The result of reading pieces, and that of reading the whole of them. -/
inductive Agree : Except ε (β × List (List α)) → Except ε (β × List α) → Prop
  | ok (b : β) {rest : List (List α)} (h : Arrived rest) :
      Agree (.ok (b, rest)) (.ok (b, rest.flatten))
  | error (e : ε) : Agree (.error e) (.error e)

/-- `p` reads from the pieces of a stream what `q` reads from the whole. -/
def Follows (p : Reader ε (List (List α)) β) (q : Reader ε (List α) β) : Prop :=
  ∀ pieces, Arrived pieces → Agree (p pieces) (q pieces.flatten)

theorem follows_pure (b : β) :
    Follows (pure b : Reader ε (List (List α)) β) (pure b : Reader ε (List α) β) :=
  fun _ h => .ok b h

theorem follows_throw (e : ε) :
    Follows (throw e : Reader ε (List (List α)) β) (throw e : Reader ε (List α) β) :=
  fun _ _ => .error e

theorem follows_bind {p : Reader ε (List (List α)) β} {q : Reader ε (List α) β}
    {f : β → Reader ε (List (List α)) γ} {g : β → Reader ε (List α) γ} (h : Follows p q)
    (hf : ∀ b, Follows (f b) (g b)) : Follows (p >>= f) (q >>= g) := by
  intro pieces hpieces
  show Agree (p pieces >>= fun x => f x.1 x.2) (q pieces.flatten >>= fun x => g x.1 x.2)
  generalize p pieces = x, q pieces.flatten = y, h pieces hpieces = hagree
  cases hagree with
  | ok b hrest => exact hf b _ hrest
  | error e => exact .error e

/-- Enough elements are read wherever the pieces end. -/
theorem readMore_eq (eof : ε) (acc : List α) (n : Nat) {pieces : List (List α)}
    (h : Arrived pieces) :
    if n ≤ pieces.flatten.length then
      ∃ rest, readMore eof acc n pieces = .ok (acc ++ pieces.flatten.take n, rest) ∧
        rest.flatten = pieces.flatten.drop n ∧ Arrived rest
    else readMore eof acc n pieces = .error eof := by
  induction pieces generalizing acc n with
  | nil =>
      by_cases hn : n = 0
      · simp [hn, readMore, h]
      · simp [hn, readMore]
  | cons piece pieces ih =>
      have htail : Arrived pieces := fun x hx => h x (List.mem_cons_of_mem _ hx)
      by_cases hn : n = 0
      · simp [hn, readMore, h]
      · rw [List.flatten_cons, List.length_append]
        by_cases hle : piece.length ≤ n
        · have hih := ih (acc ++ piece) (n - piece.length) htail
          rw [readMore, if_neg hn, if_pos hle, List.take_append, List.take_of_length_le hle,
            List.drop_append, List.drop_of_length_le hle, List.nil_append, ← List.append_assoc]
          have hiff : n ≤ piece.length + pieces.flatten.length ↔
              n - piece.length ≤ pieces.flatten.length := by
            omega
          simpa only [hiff] using hih
        · have hlt : n < piece.length := Nat.lt_of_not_le hle
          rw [readMore, if_neg hn, if_neg hle, if_pos (by omega),
            List.take_append_of_le_length (Nat.le_of_lt hlt),
            List.drop_append_of_le_length (Nat.le_of_lt hlt)]
          refine ⟨piece.drop n :: pieces, rfl, List.flatten_cons, ?_⟩
          intro x hx
          rcases List.mem_cons.mp hx with rfl | hx
          · exact fun hnil => hle (List.drop_eq_nil_iff.mp hnil)
          · exact htail x hx

theorem follows_readExact (eof : ε) (n : Nat) :
    Follows (readExact eof n : Reader ε (List (List α)) (List α)) (takeExact eof n) := by
  intro pieces hpieces
  have h := readMore_eq eof [] n hpieces
  unfold takeExact readExact
  split at h
  · next hle =>
      obtain ⟨rest, hread, hflatten, hrest⟩ := h
      rw [if_pos hle, hread, ← hflatten]
      exact .ok _ hrest
  · next hlt =>
      rw [if_neg hlt, h]
      exact .error eof

/-! ## Reading from a whole stream -/

theorem takeExact_append (eof : ε) {n : Nat} {a : List α} (h : a.length = n) (r : List α) :
    takeExact eof n (a ++ r) = .ok (a, r) := by
  unfold takeExact
  rw [if_pos (by rw [List.length_append]; omega), List.take_left' h, List.drop_left' h]

theorem takeExact_ok {eof : ε} {n : Nat} {s a r : List α} (h : takeExact eof n s = .ok (a, r)) :
    s = a ++ r ∧ a.length = n := by
  unfold takeExact at h
  split at h
  · next hle =>
      cases h
      exact ⟨(List.take_append_drop n s).symm, List.length_take_of_le hle⟩
  · cases h

/-- A step of a reader that succeeds. -/
theorem bind_ok {σ : Type} {p : Reader ε σ β} {f : β → Reader ε σ γ} {s t : σ} {c : γ}
    (h : (p >>= f) s = .ok (c, t)) : ∃ b s', p s = .ok (b, s') ∧ f b s' = .ok (c, t) := by
  change (p s >>= fun x => f x.1 x.2) = _ at h
  cases hp : p s with
  | error e =>
      rw [hp] at h
      cases h
  | ok x =>
      rw [hp] at h
      exact ⟨x.1, x.2, rfl, h⟩

theorem bind_of_ok {σ : Type} {p : Reader ε σ β} {f : β → Reader ε σ γ} {s s' : σ} {b : β}
    (h : p s = .ok (b, s')) : (p >>= f) s = f b s' := by
  show (p s >>= fun x => f x.1 x.2) = _
  rw [h]
  rfl

theorem bind_takeExact (eof : ε) (n : Nat) (f : List α → Reader ε (List α) β) (s : List α) :
    (takeExact eof n >>= f) s = if n ≤ s.length then f (s.take n) (s.drop n) else .error eof := by
  show (takeExact eof n s >>= fun x => f x.1 x.2) = _
  unfold takeExact
  split
  · rfl
  · rfl

end CypherConnect.AsyncRead
