/-
  `LocalDnsWorker.accept`: a DNS request from a local socket, its answer, and the answer back.

  The length is read byte by byte, but the query with a single `read`, whose result is not looked
  at. What has not arrived by then stays zero in the array.

  * `readQuery_body`: the query that is read behind a length.
  * `accept_written`: an answer is written behind its length.
  * `dns_framing_iff`: when a delivery of a request, whole or cut, is handled as it should be.
-/
import CypherConnect.Lib.BigEndian
import CypherConnect.Lib.InputStream

namespace CypherConnect.LocalDnsWorker

open InputStream

/-- `ByteArray(input.readUnsignedShort()).also { input.read(it) }`; `none` is the `EOFException` of
the two bytes of the length. -/
def readQuery (input : List (List UInt8)) : Option (List UInt8) := do
  let (high, input) ← readOne input
  let (low, input) ← readOne input
  let size := BigEndian.value [high, low]
  let bytes := (read size input).1
  some (bytes ++ List.replicate (size - bytes.length) 0)

/-- What a connection leads to: the query that the resolver gets, and the bytes that go back. -/
structure Exchange where
  query : List UInt8
  written : List UInt8
  deriving DecidableEq, Repr

/-- `accept`. The resolver may throw, whatever exception; then a `SERVFAIL` for the query is sent,
or an empty answer if the query is no message. A connection that ends too early is only logged. -/
def accept {ε : Type} (resolver : List UInt8 → Except ε (List UInt8))
    (servfail : List UInt8 → Option (List UInt8)) (input : List (List UInt8)) : Option Exchange :=
  (readQuery input).map fun query =>
    let response :=
      match resolver query with
      | .ok response => response
      | .error _ => (servfail query).getD []
    ⟨query, BigEndian.bytes 2 response.length ++ response⟩

/-- A request as a client sends it. -/
def request (query : List UInt8) : List UInt8 := BigEndian.bytes 2 query.length ++ query

/-! ## Reading -/

variable {input : List (List UInt8)} {query body : List UInt8}

/-- Behind a length that has arrived: what one read returns, and zeros up to the length. -/
theorem readQuery_body (h : Arrived input) (hsize : query.length ≤ 65535)
    (hflatten : input.flatten = BigEndian.bytes 2 query.length ++ body) :
    (skip 2 input).flatten = body ∧ readQuery input =
      some ((read query.length (skip 2 input)).1 ++
        List.replicate (query.length - (read query.length (skip 2 input)).1.length) 0) := by
  have hvalue := BigEndian.value_two (Nat.lt_succ_of_le hsize)
  rw [BigEndian.bytes_two] at hflatten
  obtain ⟨hfirst, hflatten1, h1⟩ := readOne_cons h hflatten
  obtain ⟨hsecond, hflatten2, -⟩ := readOne_cons h1 hflatten1
  refine ⟨hflatten2, ?_⟩
  unfold readQuery
  simp only [hfirst, hsecond, Option.bind_eq_bind, Option.bind_some, hvalue]
  rfl

/-- Fewer than two bytes are no length. -/
theorem readQuery_short (h : Arrived input) (hshort : input.flatten.length < 2) :
    readQuery input = none := by
  unfold readQuery
  cases hflatten : input.flatten with
  | nil => rw [readOne_nil hflatten]; rfl
  | cons x t =>
      have hnil : t = [] := by
        rw [hflatten, List.length_cons] at hshort
        exact List.length_eq_zero_iff.mp (by omega)
      obtain ⟨hfirst, hflatten1, -⟩ := readOne_cons h hflatten
      rw [hnil] at hflatten1
      simp only [hfirst, Option.bind_eq_bind, Option.bind_some, readOne_nil hflatten1,
        Option.bind_none]

/-- What is passed to the resolver of a request that is delivered in full. -/
theorem readQuery_request_iff (h : Arrived input) (hsize : query.length ≤ 65535)
    (hflatten : input.flatten = request query) :
    readQuery input = some query ↔
      ∀ x ∈ query.drop ((skip 2 input).head?.getD []).length, x = 0 := by
  obtain ⟨hbody, hread⟩ := readQuery_body h hsize hflatten
  rw [hread, read_eq hbody, Option.some.injEq]
  -- the first piece is the beginning of the query
  obtain ⟨rest, hrest⟩ : ∃ rest, query = (skip 2 input).head?.getD [] ++ rest := by
    cases hpieces : skip 2 input with
    | nil => exact ⟨query, rfl⟩
    | cons piece pieces =>
        refine ⟨pieces.flatten, ?_⟩
        rw [← hbody, hpieces]
        rfl
  generalize (skip 2 input).head?.getD [] = piece at hrest
  subst hrest
  rw [List.drop_left, List.length_append, Nat.add_sub_cancel_left, List.append_cancel_left_eq,
    eq_comm, List.eq_replicate_iff]
  exact and_iff_right rfl

/-! ## Handling a connection -/

variable {ε : Type} {resolver : List UInt8 → Except ε (List UInt8)}
  {servfail : List UInt8 → Option (List UInt8)}

theorem accept_query : (accept resolver servfail input).map Exchange.query = readQuery input := by
  unfold accept
  rw [Option.map_map]
  exact Option.map_id'

/-- What goes back is read as one message by a client that reads as long as the length says. -/
theorem accept_written {exchange : Exchange} (h : accept resolver servfail input = some exchange) :
    ∃ response, (resolver exchange.query = .ok response ∨
        (∃ e, resolver exchange.query = .error e) ∧ response = (servfail exchange.query).getD []) ∧
      (response.length ≤ 65535 →
        BigEndian.field 2 exchange.written = some (response.length, response)) := by
  obtain ⟨query, -, rfl⟩ := Option.map_eq_some_iff.mp h
  cases resolver query with
  | ok response =>
      refine ⟨response, Or.inl rfl, fun hsize => ?_⟩
      exact BigEndian.field_bytes (Nat.lt_of_le_of_lt hsize (by decide)) response
  | error e =>
      refine ⟨(servfail query).getD [], Or.inr ⟨⟨e, rfl⟩, rfl⟩, fun hsize => ?_⟩
      exact BigEndian.field_bytes (Nat.lt_of_le_of_lt hsize (by decide)) _

/-- A delivery is handled as it should be: the whole request leads to its query, and a request that
was cut off to nothing. -/
def Framed (resolver : List UInt8 → Except ε (List UInt8))
    (servfail : List UInt8 → Option (List UInt8)) (query : List UInt8)
    (input : List (List UInt8)) : Prop :=
  (input.flatten = request query →
      (accept resolver servfail input).map Exchange.query = some query) ∧
    (input.flatten ≠ request query → accept resolver servfail input = none)

/-- A request is handled as it should be exactly if all of the query that is not zero arrives in the
first piece behind the length, or the connection ends within the length. -/
theorem dns_framing_iff (resolver : List UInt8 → Except ε (List UInt8))
    (servfail : List UInt8 → Option (List UInt8)) (query : List UInt8)
    (hsize : query.length ≤ 65535) (input : List (List UInt8)) (harrived : Arrived input)
    (hbegin : input.flatten <+: request query) :
    Framed resolver servfail query input ↔
      input.flatten.length < 2 ∨ (input.flatten = request query ∧
        ∀ x ∈ query.drop ((skip 2 input).head?.getD []).length, x = 0) := by
  have hlong : 2 ≤ (request query).length := by
    unfold request
    rw [List.length_append, BigEndian.length_bytes]
    omega
  have hnone {o : Option Exchange} (h : o.map Exchange.query = none) : o = none :=
    Option.map_eq_none_iff.mp h
  unfold Framed
  rw [accept_query]
  by_cases hwhole : input.flatten = request query
  · have hnot : ¬ input.flatten.length < 2 := by
      rw [hwhole]
      omega
    rw [← readQuery_request_iff harrived hsize hwhole]
    constructor
    · rintro ⟨hread, -⟩
      exact Or.inr ⟨hwhole, hread hwhole⟩
    · rintro (hshort | ⟨-, hread⟩)
      · exact absurd hshort hnot
      · exact ⟨fun _ => hread, fun hne => absurd hwhole hne⟩
  · constructor
    · rintro ⟨-, hread⟩
      refine Or.inl ?_
      by_contra hlength
      -- the length has arrived, so something is passed on
      obtain ⟨body, hbody⟩ : BigEndian.bytes 2 query.length <+: input.flatten := by
        refine List.prefix_of_prefix_length_le (List.prefix_append _ query) hbegin ?_
        rw [BigEndian.length_bytes]
        omega
      have hquery : (accept resolver servfail input).map Exchange.query = readQuery input :=
        accept_query
      rw [hread hwhole, (readQuery_body harrived hsize hbody.symm).2] at hquery
      cases hquery
    · rintro (hshort | ⟨hcontra, -⟩)
      · refine ⟨fun h => absurd h hwhole, fun _ => hnone ?_⟩
        rw [accept_query, readQuery_short harrived hshort]
      · exact absurd hcontra hwhole

/-- A query of two bytes that arrive one after the other: the resolver gets a zero for the
second. -/
theorem dns_framing_split :
    Arrived [[0, 2], [1], [7]] ∧ [[0, 2], [1], [7]].flatten = request [1, 7] ∧
    (accept (fun query => (.ok query : Except Unit (List UInt8))) (fun _ => none)
      [[0, 2], [1], [7]]).map Exchange.query = some [1, 0] := by
  refine ⟨?_, by decide, by decide⟩
  unfold Arrived
  decide

theorem dns_framing_whole :
    Framed (fun query => (.ok query : Except Unit (List UInt8))) (fun _ => none)
    [1, 7] [[0], [2], [1, 7]] := by
  refine (dns_framing_iff _ _ [1, 7] (by decide) [[0], [2], [1, 7]] ?_ (by decide)).mpr (Or.inr ?_)
  · unfold Arrived
    decide
  · have hrest : ([1, 7] : List UInt8).drop
        ((skip 2 ([[0], [2], [1, 7]] : List (List UInt8))).head?.getD []).length = [] := by decide
    refine ⟨by decide, ?_⟩
    rw [hrest]
    exact List.forall_mem_nil _

end CypherConnect.LocalDnsWorker
