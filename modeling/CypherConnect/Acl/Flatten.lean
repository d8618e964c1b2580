/-
  Flattening the imports of an access control list.

  A chain of imports leads from the root over documents each of which was read with the mode of its
  importer as the default. `flatten n` collects the documents at the end of chains of at most `n`
  imports: all their host names, and the subnets of those that are reached in the root's mode
  (`flatten_closure`). Imports may be cyclic; only the depth bounds the chains.
-/
import CypherConnect.Lib.Outcome
import CypherConnect.Acl.Acl
import CypherConnect.Platform.AndroidxSortedList

namespace CypherConnect.Acl

open Sorted

variable {N : JavaNet} (S : Implementation) (connect : N.Url → Option Text)

/-! ## Chains of imports -/

/-- `child` is the document behind one of the URLs of `parent`. -/
def Imports (parent child : Acl N) : Prop :=
  ∃ url ∈ parent.urls.items, ∃ text, connect url = some text ∧
    fromReader S text parent.bypass = .ok child

/-- Chains of imports of a given length, all of whose documents behind the root satisfy `P`. -/
inductive Chain (P : Acl N → Prop) : Nat → Acl N → Acl N → Prop
  | root (acl : Acl N) : Chain P 0 acl acl
  | cons {k : Nat} {acl child doc : Acl N} (himport : Imports S connect acl child)
      (hchild : P child) (hrest : Chain P k child doc) : Chain P (k + 1) acl doc

/-- `doc` is at the end of a chain of at most `n` imports. -/
def Reaches (P : Acl N → Prop) (n : Nat) (acl doc : Acl N) : Prop :=
  ∃ k ≤ n, Chain S connect P k acl doc

/-- All documents. -/
def Any (_ : Acl N) : Prop := True

/-- The documents in one mode. -/
def InMode (mode : Bool) (acl : Acl N) : Prop := acl.bypass = mode

/-- Every document within `n - 1` imports has imports that can be fetched and are accepted. -/
def Fetchable (n : Nat) (root : Acl N) : Prop :=
  ∀ k < n, ∀ doc, Chain S connect Any k root doc → ∀ url ∈ doc.urls.items,
    ∃ text, ∃ child : Acl N, connect url = some text ∧ fromReader S text doc.bypass = .ok child

/-- What the closure of the imports is. -/
structure IsClosure (n : Nat) (root result : Acl N) : Prop where
  bypass : result.bypass = root.bypass
  urls : result.urls.items = []
  bypassHostnames : ∀ host, host ∈ result.bypassHostnames.items ↔
    ∃ doc, Reaches S connect Any n root doc ∧ host ∈ doc.bypassHostnames.items
  proxyHostnames : ∀ host, host ∈ result.proxyHostnames.items ↔
    ∃ doc, Reaches S connect Any n root doc ∧ host ∈ doc.proxyHostnames.items
  subnets : ∀ subnet, subnet ∈ result.subnets.items ↔
    ∃ doc, Reaches S connect (InMode root.bypass) n root doc ∧ subnet ∈ doc.subnets.items

variable {S connect} {P : Acl N → Prop}

theorem reaches_zero {acl doc : Acl N} : Reaches S connect P 0 acl doc ↔ doc = acl := by
  constructor
  · rintro ⟨k, hk, hchain⟩
    cases hchain with
    | root => rfl
    | cons => cases hk
  · rintro rfl
    exact ⟨0, Nat.le_refl 0, .root doc⟩

theorem reaches_succ {n : Nat} {acl doc : Acl N} : Reaches S connect P (n + 1) acl doc ↔
    doc = acl ∨ ∃ child, Imports S connect acl child ∧ P child ∧
      Reaches S connect P n child doc := by
  constructor
  · rintro ⟨k, hk, hchain⟩
    cases hchain with
    | root => exact Or.inl rfl
    | @cons k _ child _ himport hchild hrest =>
        exact Or.inr ⟨child, himport, hchild, k, Nat.le_of_succ_le_succ hk, hrest⟩
  · rintro (rfl | ⟨child, himport, hchild, k, hk, hrest⟩)
    · exact ⟨0, Nat.zero_le _, .root doc⟩
    · exact ⟨k + 1, Nat.succ_le_succ hk, .cons himport hchild hrest⟩

theorem Fetchable.child {n : Nat} {root child : Acl N} (h : Fetchable S connect (n + 1) root)
    (himport : Imports S connect root child) : Fetchable S connect n child := by
  intro k hk doc hchain
  exact h (k + 1) (Nat.succ_lt_succ hk) doc (.cons himport trivial hchain)

/-! ## Merging documents -/

/-- What merging the lists that satisfy `merged` into `acl` gives. -/
structure Collects (acl : Acl N) (merged : Acl N → Prop) (result : Acl N) : Prop where
  bypass : result.bypass = acl.bypass
  bypassHostnames : ∀ host, host ∈ result.bypassHostnames.items ↔
    host ∈ acl.bypassHostnames.items ∨ ∃ child, merged child ∧ host ∈ child.bypassHostnames.items
  proxyHostnames : ∀ host, host ∈ result.proxyHostnames.items ↔
    host ∈ acl.proxyHostnames.items ∨ ∃ child, merged child ∧ host ∈ child.proxyHostnames.items
  subnets : ∀ subnet, subnet ∈ result.subnets.items ↔ subnet ∈ acl.subnets.items ∨
    ∃ child, merged child ∧ InMode acl.bypass child ∧ subnet ∈ child.subnets.items

theorem collects_none (acl : Acl N) : Collects acl (fun _ => False) acl := by
  refine ⟨rfl, fun host => ?_, fun host => ?_, fun subnet => ?_⟩
  all_goals simp only [false_and, exists_false, or_false]

/-- Subnets of a child in another mode are discarded. -/
theorem collects_merge (acl child : Acl N) : Collects acl (· = child) (merge S acl child) := by
  refine ⟨rfl, fun host => ?_, fun host => ?_, fun subnet => ?_⟩
  · have hchild : (if acl.bypass ≠ child.bypass then
        { child with subnets := .empty _, bypass := acl.bypass } else child).bypassHostnames =
          child.bypassHostnames := by
      split
      · rfl
      · rfl
    show host ∈ (S.addAll stringSorter _ _).items ↔ _
    rw [mem_addAll_iff stringSorter_exact, hchild]
    simp only [exists_eq_left]
  · have hchild : (if acl.bypass ≠ child.bypass then
        { child with subnets := .empty _, bypass := acl.bypass } else child).proxyHostnames =
          child.proxyHostnames := by
      split
      · rfl
      · rfl
    show host ∈ (S.addAll stringSorter _ _).items ↔ _
    rw [mem_addAll_iff stringSorter_exact, hchild]
    simp only [exists_eq_left]
  · show subnet ∈ (S.addAll subnetSorter _ _).items ↔ _
    rw [mem_addAll_iff subnetSorter_exact]
    simp only [exists_eq_left]
    unfold InMode
    by_cases hmode : acl.bypass = child.bypass
    · rw [if_neg (not_not_intro hmode)]
      simp only [hmode, true_and]
    · have hother : ¬ child.bypass = acl.bypass := fun heq => hmode heq.symm
      rw [if_pos hmode]
      simp only [hother, false_and, or_false]
      exact or_iff_left List.not_mem_nil

theorem Collects.trans {acl mid result : Acl N} {merged merged' : Acl N → Prop}
    (h : Collects acl merged mid) (h' : Collects mid merged' result) :
    Collects acl (fun child => merged child ∨ merged' child) result := by
  refine ⟨h'.bypass.trans h.bypass, fun host => ?_, fun host => ?_, fun subnet => ?_⟩
  · rw [h'.bypassHostnames, h.bypassHostnames]
    simp only [or_and_right, exists_or, or_assoc]
  · rw [h'.proxyHostnames, h.proxyHostnames]
    simp only [or_and_right, exists_or, or_assoc]
  · rw [h'.subnets, h.subnets, h.bypass]
    simp only [or_and_right, exists_or, or_assoc]

theorem Collects.congr {acl result : Acl N} {merged merged' : Acl N → Prop}
    (h : Collects acl merged result) (heq : ∀ child, merged child ↔ merged' child) :
    Collects acl merged' result := by
  have hpred : merged = merged' := funext fun child => propext (heq child)
  exact hpred ▸ h

/-! ## The loop -/

variable (S connect) in
/-- What the loop body merges: the flattened document behind a URL. -/
def Fetched (n : Nat) (mode : Bool) (url : N.Url) (result : Acl N) : Prop :=
  ∃ text child, connect url = some text ∧ fromReader S text mode = .ok child ∧
    flatten S connect n child = .ok result

/-- The loop body of `flatten`. -/
def body (S : Implementation) (connect : N.Url → Option Text) (n : Nat) (acl : Acl N)
    (url : N.Url) :
    Except AclFailure (Acl N) :=
  match connect url with
  | none => .error .io
  | some text => do
      let child ← fromReader S text acl.bypass
      let child ← flatten S connect n child
      .ok (merge S acl child)

theorem flatten_succ (n : Nat) (acl : Acl N) : flatten S connect (n + 1) acl = (do
    let merged ← acl.urls.items.foldlM (body S connect n) acl
    .ok { merged with urls := .empty _ }) := rfl

theorem body_ok {n : Nat} {acl result : Acl N} {url : N.Url}
    (h : Fetched S connect n acl.bypass url result) :
    body S connect n acl url = .ok (merge S acl result) := by
  obtain ⟨text, child, htext, hread, hflat⟩ := h
  unfold body
  rw [htext]
  show (do let child ← fromReader S text acl.bypass
           let child ← flatten S connect n child
           Except.ok (merge S acl child)) = _
  rw [hread]
  show (do let child ← flatten S connect n child
           Except.ok (merge S acl child)) = _
  rw [hflat]
  rfl

/-- The other way round: what the body returns comes from a document that was fetched. -/
theorem body_inv {n : Nat} {acl result : Acl N} {url : N.Url}
    (h : body S connect n acl url = .ok result) :
    ∃ sub, Fetched S connect n acl.bypass url sub ∧ result = merge S acl sub := by
  unfold body at h
  cases hconnect : connect url with
  | none =>
      simp only [hconnect] at h
      cases h
  | some text =>
      simp only [hconnect] at h
      obtain ⟨child, hread, h⟩ := Outcome.bind_ok h
      obtain ⟨sub, hflat, h⟩ := Outcome.bind_ok h
      exact ⟨sub, ⟨text, child, hconnect, hread, hflat⟩, (Except.ok.inj h).symm⟩

theorem fetched_unique {n : Nat} {mode : Bool} {url : N.Url} {a b : Acl N}
    (ha : Fetched S connect n mode url a) (hb : Fetched S connect n mode url b) : a = b := by
  obtain ⟨text, child, htext, hread, hflat⟩ := ha
  obtain ⟨text', child', htext', hread', hflat'⟩ := hb
  obtain rfl : text = text' := Option.some.inj (htext.symm.trans htext')
  obtain rfl : child = child' := Except.ok.inj (hread.symm.trans hread')
  exact Except.ok.inj (hflat.symm.trans hflat')

/-- The loop collects the documents behind the URLs; the induction is over the URLs, and the mode
that they are read with does not change. -/
theorem loop_collects {n : Nat} {urls : List N.Url} {acl : Acl N}
    (h : ∀ url ∈ urls, ∃ result, Fetched S connect n acl.bypass url result) :
    ∃ merged, urls.foldlM (body S connect n) acl = .ok merged ∧
      Collects acl (fun child => ∃ url ∈ urls, Fetched S connect n acl.bypass url child)
        merged := by
  induction urls generalizing acl with
  | nil =>
      refine ⟨acl, rfl, (collects_none acl).congr fun child => ?_⟩
      simp only [List.not_mem_nil, false_and, exists_false]
  | cons url urls ih =>
      obtain ⟨result, hresult⟩ := h url List.mem_cons_self
      have hmerge := collects_merge (S := S) acl result
      have hrest : ∀ u ∈ urls, ∃ r, Fetched S connect n (merge S acl result).bypass u r := by
        intro u hu
        rw [hmerge.bypass]
        exact h u (List.mem_cons_of_mem _ hu)
      obtain ⟨merged, hfold, hcollects⟩ := ih hrest
      refine ⟨merged, ?_, (hmerge.trans hcollects).congr fun child => ?_⟩
      · rw [List.foldlM_cons, body_ok hresult]
        exact hfold
      · rw [hmerge.bypass]
        simp only [List.mem_cons, or_and_right, exists_or, exists_eq_left]
        have hfirst : child = result ↔ Fetched S connect n acl.bypass url child :=
          ⟨fun heq => heq ▸ hresult, fun hchild => fetched_unique hchild hresult⟩
        rw [hfirst]

/-! ## The closure -/

theorem isClosure_zero (root : Acl N) :
    IsClosure S connect 0 root { root with urls := .empty _ } := by
  refine ⟨rfl, rfl, fun host => ?_, fun host => ?_, fun subnet => ?_⟩
  all_goals simp only [reaches_zero, exists_eq_left]

/-- The documents behind the URLs, each flattened, make up the closure. -/
theorem isClosure_succ {n : Nat} {root merged : Acl N}
    (hclosure : ∀ child, Imports S connect root child →
      ∃ result, flatten S connect n child = .ok result ∧ IsClosure S connect n child result)
    (h : Collects root
    (fun child => ∃ url ∈ root.urls.items, Fetched S connect n root.bypass url child)
      merged) : IsClosure S connect (n + 1) root { merged with urls := .empty _ } := by
  -- the documents that are merged are the flattened imports
  have hmerged {result : Acl N} :
      (∃ url ∈ root.urls.items, Fetched S connect n root.bypass url result) ↔
        ∃ child, Imports S connect root child ∧ flatten S connect n child = .ok result := by
    constructor
    · rintro ⟨url, hurl, text, child, htext, hread, hflat⟩
      exact ⟨child, ⟨url, hurl, text, htext, hread⟩, hflat⟩
    · rintro ⟨child, ⟨url, hurl, text, htext, hread⟩, hflat⟩
      exact ⟨url, hurl, text, child, htext, hread, hflat⟩
  have hof {child result : Acl N} (himport : Imports S connect root child)
      (hflat : flatten S connect n child = .ok result) : IsClosure S connect n child result := by
    obtain ⟨result', hflat', hresult⟩ := hclosure child himport
    rw [hflat'] at hflat
    exact Except.ok.inj hflat ▸ hresult
  have hhosts {pick : Acl N → List Text} (hpick : ∀ {child result : Acl N},
      IsClosure S connect n child result → ∀ host, host ∈ pick result ↔
        ∃ doc, Reaches S connect Any n child doc ∧ host ∈ pick doc) (host : Text) :
      (host ∈ pick root ∨
        ∃ result, (∃ url ∈ root.urls.items, Fetched S connect n root.bypass url result) ∧
        host ∈ pick result) ↔ ∃ doc, Reaches S connect Any (n + 1) root doc ∧ host ∈ pick doc := by
    simp only [reaches_succ, hmerged, or_and_right, exists_or, exists_eq_left]
    refine or_congr_right ⟨?_, ?_⟩
    · rintro ⟨result, ⟨child, himport, hflat⟩, hhost⟩
      obtain ⟨doc, hreach, hdoc⟩ := (hpick (hof himport hflat) host).mp hhost
      exact ⟨doc, ⟨child, himport, trivial, hreach⟩, hdoc⟩
    · rintro ⟨doc, ⟨child, himport, _, hreach⟩, hdoc⟩
      obtain ⟨result, hflat, hresult⟩ := hclosure child himport
      exact ⟨result, ⟨child, himport, hflat⟩, (hpick hresult host).mpr ⟨doc, hreach, hdoc⟩⟩
  refine ⟨h.bypass, rfl, fun host => ?_, fun host => ?_, fun subnet => ?_⟩
  · exact (h.bypassHostnames host).trans (hhosts (fun hresult => hresult.bypassHostnames) host)
  · exact (h.proxyHostnames host).trans (hhosts (fun hresult => hresult.proxyHostnames) host)
  · refine (h.subnets subnet).trans ?_
    simp only [reaches_succ, hmerged, or_and_right, exists_or, exists_eq_left]
    refine or_congr_right ⟨?_, ?_⟩
    · rintro ⟨result, ⟨child, himport, hflat⟩, hmode, hsubnet⟩
      have hresult := hof himport hflat
      have hchild : child.bypass = root.bypass := hresult.bypass.symm.trans hmode
      obtain ⟨doc, hreach, hdoc⟩ := (hresult.subnets subnet).mp hsubnet
      rw [hchild] at hreach
      exact ⟨doc, ⟨child, himport, hchild, hreach⟩, hdoc⟩
    · rintro ⟨doc, ⟨child, himport, hchild, hreach⟩, hdoc⟩
      obtain ⟨result, hflat, hresult⟩ := hclosure child himport
      have hmode : child.bypass = root.bypass := hchild
      rw [← hmode] at hreach
      exact ⟨result, ⟨child, himport, hflat⟩, hresult.bypass.trans hmode,
        (hresult.subnets subnet).mpr ⟨doc, hreach, hdoc⟩⟩

/-- Flattening returns the closure of the imports up to the depth; the induction is on the depth. -/
theorem flatten_closure (S : Implementation) (connect : N.Url → Option Text) (n : Nat)
    (root : Acl N) (hfetch : Fetchable S connect n root) :
    ∃ result, flatten S connect n root = .ok result ∧ IsClosure S connect n root result := by
  induction n generalizing root with
  | zero => exact ⟨_, rfl, isClosure_zero root⟩
  | succ n ih =>
      have hclosure : ∀ child, Imports S connect root child →
          ∃ result, flatten S connect n child = .ok result ∧ IsClosure S connect n child result :=
        fun child himport => ih child (hfetch.child himport)
      have hfetched : ∀ url ∈ root.urls.items, ∃ result,
          Fetched S connect n root.bypass url result := by
        intro url hurl
        obtain ⟨text, child, htext, hread⟩ := hfetch 0 (Nat.succ_pos n) root (.root root) url hurl
        obtain ⟨result, hflat, _⟩ := hclosure child ⟨url, hurl, text, htext, hread⟩
        exact ⟨result, text, child, htext, hread, hflat⟩
      obtain ⟨merged, hfold, hcollects⟩ := loop_collects hfetched
      refine ⟨_, ?_, isClosure_succ hclosure hcollects⟩
      rw [flatten_succ, hfold]
      rfl

/-- A document that imports itself. -/
def selfImport : Text := "a\n[proxy_list]\n1.0.0.0/8\n#IMPORT_URL <http://h/>".toList

/-- Its address. -/
def selfRoot : Acl plainNet := assemble androidx true [] ["http://h/".toList]

theorem flatten_closure_cycle : Fetchable androidx (fun _ => some selfImport) 3 selfRoot ∧
    ∃ result, flatten androidx (fun _ => some selfImport) 3 selfRoot = .ok result ∧
      IsClosure androidx (fun _ => some selfImport) 3 selfRoot result := by
  have haccepts : Accepts plainNet selfImport := by decide +kernel
  have hfetch : Fetchable androidx (fun _ => some selfImport) 3 selfRoot := by
    intro k _ doc _ url _
    exact ⟨selfImport, _, rfl, (fromReader_eq androidx selfImport doc.bypass).1 haccepts⟩
  exact ⟨hfetch, flatten_closure androidx _ 3 selfRoot hfetch⟩

end CypherConnect.Acl
