/-
  How `Profile.findAllUrls` reads a link: the scan for links, the patterns, and the SIP002 branch.

  * `findAll_link`: a link is found as a whole, up to the last character that may end it.
  * `findAll_separator`, `findAll_join`: a character that no link has keeps the links on its two
    sides apart.
  * `matchUserInfo_eq`, `matchUserInfo_some`, `matchLegacy_some`: the patterns split a text into
    their groups and nothing else.
  * `parseSip002_read`: the profile of a link whose parts can be read.
-/
import CypherConnect.Lib.Scan
import CypherConnect.Database.Profile
import CypherConnect.Platform.UriSyntax

namespace CypherConnect.Profile

open Scan

/-! ## Finding links -/

theorem isLinkChar_of_isLinkEnd {c : Char} (h : isLinkEnd c = true) : isLinkChar c = true := by
  unfold isLinkChar
  rw [h]
  rfl

theorem isLinkEnd_of_isAlphanum {c : Char} (h : JavaUri.isAlphanum c = true) :
    isLinkEnd c = true := by
  unfold isLinkEnd
  rw [h]
  rfl

theorem isLinkChar_of_isAlphanum (c : Char) (h : JavaUri.isAlphanum c = true) :
    isLinkChar c = true :=
  isLinkChar_of_isLinkEnd (isLinkEnd_of_isAlphanum h)

/-- A text without the marks that end an authority. -/
theorem inAuthority_of_madeOf {marks t : Text} (h : JavaUri.MadeOf marks t)
    (hmarks : (marks.all fun c => c != '/' && c != '\\' && c != '?' && c != '#') = true) :
    ∀ x ∈ t, Platform.InAuthority x := by
  have halnum : ∀ c, JavaUri.isAlphanum c = true →
      (c != '/' && c != '\\' && c != '?' && c != '#') = true := by
    intro c hc
    simp only [Bool.and_eq_true, bne_iff_ne]
    refine ⟨⟨⟨?_, ?_⟩, ?_⟩, ?_⟩ <;> rintro rfl <;> cases hc
  intro x hx
  have hin := h.forall halnum hmarks x hx
  simp only [Bool.and_eq_true, bne_iff_ne, and_assoc] at hin
  exact hin

/-- The encoding of a character ends in one that may end a link if the character may, as far as it
is left as it is. -/
theorem encodeChar_last {safe : Char → Bool} {x : Char} (h : safe x = true → isLinkEnd x = true) :
    ∃ front last, Percent.encodeChar safe x = front ++ [last] ∧ isLinkEnd last = true := by
  have hhex : ∀ n < 16, isLinkEnd (Percent.hexDigit n) = true := by decide
  unfold Percent.encodeChar
  split
  · next hsafe => exact ⟨[], x, rfl, h hsafe⟩
  · obtain ⟨b, bs, hbytes, -⟩ := Utf8.next_encodeChar x []
    obtain ⟨front, last, hlast⟩ : ∃ front last, b :: bs = front ++ [last] :=
      ⟨_, _, (List.dropLast_append_getLast (List.cons_ne_nil b bs)).symm⟩
    refine ⟨front.flatMap Percent.escapeByte ++ ['%', Percent.hexDigit (last.toNat / 16)],
      Percent.hexDigit (last.toNat % 16), ?_, hhex _ (Nat.mod_lt _ (by decide))⟩
    rw [hbytes, hlast, List.flatMap_append, List.flatMap_singleton, List.append_assoc]
    rfl

/-- A character that may end a link and an encoded text whose last character may. -/
theorem encode_last {safe : Char → Bool} {core : Text} {sep : Char} (hsep : isLinkEnd sep = true)
    (h : ∀ x ∈ core.getLast?, safe x = true → isLinkEnd x = true) :
    ∃ init last, sep :: Percent.encode safe core = init ++ [last] ∧ isLinkEnd last = true := by
  rcases List.eq_nil_or_concat core with rfl | ⟨front, x, rfl⟩
  · exact ⟨[], sep, rfl, hsep⟩
  · rw [List.concat_eq_append, List.getLast?_concat] at h
    obtain ⟨init, last, hencode, hlast⟩ := encodeChar_last (h x rfl)
    refine ⟨sep :: Percent.encode safe front ++ init, last, ?_, hlast⟩
    unfold Percent.encode
    rw [List.concat_eq_append, List.flatMap_append, List.flatMap_singleton, hencode]
    simp only [List.cons_append, List.append_assoc]

/-- The pattern takes `body` when only characters that cannot end a link separate it from the first
character that is none of a link. -/
theorem matchAt_link {init : Text} {last : Char} {junk after : Text}
    (hinit : ∀ c ∈ init, isLinkChar c = true) (hlast : isLinkEnd last = true)
    (hjunk : ∀ c ∈ junk, isLinkChar c = true ∧ isLinkEnd c = false)
    (hafter : ∀ c ∈ after.head?, isLinkChar c = false) :
    matchAt (Platform.scheme ++ (init ++ [last]) ++ (junk ++ after)) =
      some (Platform.scheme ++ (init ++ [last])) := by
  have hin : ∀ c ∈ init ++ [last] ++ junk, isLinkChar c = true := by
    intro c hc
    rw [List.mem_append, List.mem_append, List.mem_singleton] at hc
    rcases hc with (hc | rfl) | hc
    · exact hinit c hc
    · exact isLinkChar_of_isLinkEnd hlast
    · exact (hjunk c hc).1
  have htake : (init ++ [last] ++ (junk ++ after)).takeWhile isLinkChar = init ++ [last] ++
      junk := by
    rw [← List.append_assoc]
    exact takeWhile_span hin hafter
  have hback : ∀ c ∈ junk.reverse, (!isLinkEnd c) = true := by
    intro c hc
    rw [(hjunk c (List.mem_reverse.mp hc)).2]
    rfl
  have hstop : ∀ c ∈ (last :: init.reverse).head?, (!isLinkEnd c) = false :=
    head_eq_false (by rw [hlast]; rfl)
  have hrev : (init ++ [last] ++ junk).reverse = junk.reverse ++ last :: init.reverse := by
    simp only [List.reverse_append, List.reverse_cons, List.reverse_nil, List.nil_append,
      List.singleton_append]
  have hdrop : ((init ++ [last] ++ junk).reverse.dropWhile (!isLinkEnd ·)).reverse = init ++
      [last] := by
    rw [hrev, dropWhile_span hback hstop, List.reverse_cons, List.reverse_reverse]
  obtain ⟨c, rest, hcons⟩ := List.exists_cons_of_ne_nil (List.append_ne_nil_of_right_ne_nil init
    (List.cons_ne_nil last []))
  show matchAt ('s' :: 's' :: ':' :: '/' :: '/' :: (init ++ [last] ++ (junk ++ after))) = _
  simp only [matchAt, htake, hdrop]
  rw [hcons]
  rfl

theorem findAll_skip (a r : Text) : findAll a.length (a ++ r) = findAll 0 r := by
  induction a with
  | nil => rfl
  | cons c a ih => exact ih

theorem findAll_link {init : Text} {last : Char} {junk after : Text}
    (hinit : ∀ c ∈ init, isLinkChar c = true) (hlast : isLinkEnd last = true)
    (hjunk : ∀ c ∈ junk, isLinkChar c = true ∧ isLinkEnd c = false)
    (hafter : ∀ c ∈ after.head?, isLinkChar c = false) :
    findAll 0 (Platform.scheme ++ (init ++ [last]) ++ (junk ++ after)) =
      (Platform.scheme ++ (init ++ [last])) :: findAll 0 (junk ++ after) := by
  have hmatch := matchAt_link hinit hlast hjunk hafter
  have hcons : Platform.scheme ++ (init ++ [last]) ++ (junk ++ after) =
      's' :: ("s://".toList ++ (init ++ [last]) ++ (junk ++ after)) := rfl
  have hlen : (Platform.scheme ++ (init ++ [last])).length - 1 =
      ("s://".toList ++ (init ++ [last])).length := rfl
  rw [hcons] at hmatch ⊢
  rw [findAll.eq_def]
  simp only [hmatch]
  rw [hlen, findAll_skip]

/-- Without a colon there is no link. -/
theorem findAll_nil {t : Text} (h : ':' ∉ t) : findAll 0 t = [] := by
  induction t with
  | nil => rfl
  | cons c t ih =>
      have hnone : matchAt (c :: t) = none := by
        unfold matchAt
        split
        · next heq =>
            rw [heq] at h
            simp at h
        · rfl
      rw [findAll.eq_def]
      simp only [hnone]
      exact ih fun hm => h (List.mem_cons_of_mem _ hm)

/-! ## Separators

A character that no link has ends every attempt to match. -/

/-- What a match looks like. -/
theorem matchAt_some {t value : Text} (h : matchAt t = some value) :
    (∃ a b body, (a = 's' ∨ a = 'S') ∧ (b = 's' ∨ b = 'S') ∧ body ≠ [] ∧
      value = a :: b :: ':' :: '/' :: '/' :: body) ∧ value.length ≤ t.length := by
  unfold matchAt at h
  split at h
  · next a b r =>
      split at h
      · next hcase =>
          split at h
          · cases h
          · next body hne =>
              cases h
              simp only [Bool.and_eq_true, Bool.or_eq_true, beq_iff_eq] at hcase
              refine ⟨⟨a, b, _, hcase.1, hcase.2, hne, rfl⟩, ?_⟩
              have hdrop := (List.dropWhile_sublist (fun c => !isLinkEnd c)
                (l := (r.takeWhile isLinkChar).reverse)).length_le
              have htake := (List.takeWhile_sublist isLinkChar (l := r)).length_le
              simp only [List.length_cons, List.length_reverse] at hdrop ⊢
              omega
      · cases h
  · cases h

/-- What is found was matched somewhere. -/
theorem exists_matchAt {link : Text} {k : Nat} {t : Text} (h : link ∈ findAll k t) :
    ∃ u, matchAt u = some link := by
  fun_induction findAll k t with
  | case1 => cases h
  | case2 k c t ih => exact ih h
  | case3 c t value hmatch ih =>
      rcases List.mem_cons.mp h with rfl | h
      · exact ⟨_, hmatch⟩
      · exact ih h
  | case4 c t hmatch ih => exact ih h

theorem takeWhile_separator {c : Char} (hc : isLinkChar c = false) (r rest : Text) :
    (r ++ c :: rest).takeWhile isLinkChar = r.takeWhile isLinkChar := by
  have hstop : (c :: rest).takeWhile isLinkChar = [] := by
    rw [List.takeWhile_cons_of_neg]
    rw [hc]
    exact Bool.false_ne_true
  rw [List.takeWhile_append, hstop, List.append_nil]
  split
  · next hlen => exact ((List.takeWhile_sublist _).eq_of_length hlen).symm
  · rfl

theorem matchAt_separator {c : Char} (hc : isLinkChar c = false) (t rest : Text) :
    matchAt (t ++ c :: rest) = matchAt t := by
  have hne {d : Char} (hd : isLinkChar d = true) : c ≠ d := by
    rintro rfl
    rw [hc] at hd
    cases hd
  have hcolon := hne (d := ':') rfl
  have hslash := hne (d := '/') rfl
  have hs := hne (d := 's') rfl
  have hS := hne (d := 'S') rfl
  unfold matchAt
  split
  · next a b r heq =>
      match t, heq with
      | [], heq => grind
      | [_], heq => grind
      | [_, _], heq => grind
      | [_, _, _], heq => grind
      | [_, _, _, _], heq => grind
      | a :: b :: x :: y :: z :: t, heq =>
          simp only [List.cons_append, List.cons.injEq] at heq
          obtain ⟨rfl, rfl, rfl, rfl, rfl, rfl⟩ := heq
          simp only [takeWhile_separator hc]
  · next hno =>
      split
      · next a b r => exact absurd rfl (hno a b (r ++ c :: rest))
      · rfl

/-- Links are found on each side of a separator as if the other side were not there. -/
theorem findAll_separator {c : Char} (hc : isLinkChar c = false) (t rest : Text) {k : Nat}
    (hk : k ≤ t.length) : findAll k (t ++ c :: rest) = findAll k t ++ findAll 0 rest := by
  induction t generalizing k with
  | nil =>
      have hnone : matchAt (c :: rest) = none := (matchAt_separator hc [] rest).trans rfl
      rw [Nat.le_zero.mp hk]
      show findAll 0 (c :: rest) = findAll 0 rest
      rw [findAll.eq_def]
      simp only [hnone]
  | cons d t ih =>
      cases k with
      | succ k => exact ih (Nat.le_of_succ_le_succ hk)
      | zero =>
          have hmatch := matchAt_separator hc (d :: t) rest
          rw [List.cons_append] at hmatch
          rw [List.cons_append, findAll.eq_def, findAll.eq_def 0 (d :: t)]
          simp only [hmatch]
          cases hm : matchAt (d :: t) with
          | none => exact ih (Nat.zero_le _)
          | some value =>
              have hlen := (matchAt_some hm).2
              rw [List.length_cons] at hlen
              show value :: findAll (value.length - 1) (t ++ c :: rest) = _
              rw [ih (by omega)]
              rfl

theorem findAll_join {c : Char} (hc : isLinkChar c = false) (lines : List Text) :
    findAll 0 (List.intercalate [c] lines) = lines.flatMap (findAll 0) := by
  induction lines with
  | nil => rfl
  | cons line lines ih =>
      by_cases hnil : lines = []
      · rw [hnil, List.intercalate_singleton, List.flatMap_singleton]
      · rw [List.intercalate_cons_of_ne_nil hnil, List.append_assoc, List.singleton_append,
          findAll_separator hc _ _ (Nat.zero_le _), ih, List.flatMap_cons]

/-! ## The patterns -/

theorem matchUserInfo_eq {method password : Text} (hne : method ≠ []) (hcolon : ':' ∉ method)
    (hlines : ∀ c ∈ method ++ ':' :: password, isLineTerminator c = false) :
    matchUserInfo (method ++ ':' :: password) = some (method, password) := by
  obtain ⟨c, rest, rfl⟩ := List.exists_cons_of_ne_nil hne
  have hrest : ':' ∉ rest := fun hm => hcolon (List.mem_cons_of_mem _ hm)
  have hany : ¬ (c :: rest ++ ':' :: password).any isLineTerminator = true := by
    rw [List.any_eq_true]
    rintro ⟨x, hx, hline⟩
    rw [hlines x hx] at hline
    cases hline
  unfold matchUserInfo
  rw [if_neg hany]
  simp only [List.cons_append, dropWhile_span (bne_of_not_mem hrest) bne_head,
    takeWhile_span (bne_of_not_mem hrest) bne_head]

theorem matchUserInfo_some {t method password : Text}
    (h : matchUserInfo t = some (method, password)) :
    t = method ++ ':' :: password := by
  unfold matchUserInfo at h
  split at h
  · cases h
  · split at h
    · cases h
    · next c r _ =>
        split at h
        · cases h
        · next d rest hdrop =>
            cases h
            obtain ⟨-, -, hsplit⟩ := cut_of_dropWhile hdrop
            rw [List.cons_append, ← hsplit]

/-- A text around its character at `k`. -/
theorem split_at {t : Text} {k : Nat} {c : Char} (h : t[k]? = some c) :
    t = t.take k ++ c :: t.drop (k + 1) := by
  obtain ⟨hk, rfl⟩ := List.getElem?_eq_some_iff.mp h
  rw [← List.drop_eq_getElem_cons hk, List.take_append_drop]

theorem matchHostPort_some {t host port : Text} (h : matchHostPort t = some (host, port)) :
    t = host ++ ':' :: port := by
  obtain ⟨k, -, hk⟩ := List.exists_of_findSome?_eq_some h
  split at hk
  · next hcond =>
      cases hk
      exact split_at hcond.2.1
  · cases hk

theorem matchPassword_some {t password host port : Text}
    (h : matchPassword t = some (password, host, port)) :
    t = password ++ '@' :: (host ++ ':' :: port) := by
  obtain ⟨k, -, hk⟩ := List.exists_of_findSome?_eq_some h
  split at hk
  · next hat =>
      obtain ⟨⟨host', port'⟩, hmatch, heq⟩ := Option.map_eq_some_iff.mp hk
      cases heq
      rw [← matchHostPort_some hmatch]
      exact split_at hat
  · cases hk

theorem matchLegacy_some {t method password host port : Text}
    (h : matchLegacy t = some (method, password, host, port)) :
    t = method ++ ':' :: (password ++ '@' :: (host ++ ':' :: port)) := by
  unfold matchLegacy at h
  split at h
  · cases h
  · obtain ⟨k, -, hk⟩ := List.exists_of_findSome?_eq_some h
    split at hk
    · next hcond =>
        obtain ⟨⟨password', host', port'⟩, hmatch, heq⟩ := Option.map_eq_some_iff.mp hk
        cases heq
        rw [← matchPassword_some hmatch]
        exact split_at hcond.2
    · cases hk

/-! ## The SIP002 branch -/

/-- What the groups of `legacyPattern` are made of. -/
theorem matchLegacy_groups {t method password host port : Text}
    (h : matchLegacy t = some (method, password, host, port)) :
    method ≠ [] ∧ port ≠ [] ∧ port.all JavaUri.isDigit = true := by
  unfold matchLegacy at h
  split at h
  · cases h
  · obtain ⟨k, -, hk⟩ := List.exists_of_findSome?_eq_some h
    split at hk
    · next hcond =>
        obtain ⟨⟨password', host', port'⟩, hpassword, heq⟩ := Option.map_eq_some_iff.mp hk
        cases heq
        obtain ⟨j, -, hj⟩ := List.exists_of_findSome?_eq_some hpassword
        split at hj
        · obtain ⟨⟨host'', port''⟩, hhost, heq⟩ := Option.map_eq_some_iff.mp hj
          cases heq
          obtain ⟨i, -, hi⟩ := List.exists_of_findSome?_eq_some hhost
          split at hi
          · next hport =>
              cases hi
              refine ⟨?_, hport.2.2⟩
              intro hnil
              have hzero : k = 0 ∨ t = [] := by
                rw [List.take_eq_nil_iff] at hnil
                exact hnil
              rcases hzero with hzero | hnil
              · omega
              · rw [hnil] at hcond
                cases hcond.2
          · cases hi
        · cases hj
    · cases hk

/-- The port that `legacyPattern` takes is read as its number, if it is an `Int`. -/
theorem toInt_digits {ds : Text} (hne : ds ≠ []) (h : ds.all JavaUri.isDigit = true) :
    toInt ds =
      if JavaUri.natOfDigits ds < 2 ^ 31 then some (JavaUri.natOfDigits ds : Int) else none :=
  JavaInteger.parseInt_digits (fun _ => JavaInteger.asciiDigit_eq) hne (List.all_eq_true.mp h)

/-- The host and port pattern: no `:` within the host has only digits behind it. -/
theorem matchHostPort_eq {host port : Text} (hhost : host ≠ []) (hport : port ≠ [])
    (hdigits : port.all JavaUri.isDigit = true)
    (hcolon : ∀ a b, host = a ++ ':' :: b → b.all JavaUri.isDigit = false) :
    matchHostPort (host ++ ':' :: port) = some (host, port) := by
  have hlen : host.length < (host ++ ':' :: port).length := by
    rw [List.length_append, List.length_cons]
    omega
  have hdrop : (host ++ ':' :: port).drop (host.length + 1) = port := by
    rw [List.drop_append, List.drop_eq_nil_of_le (Nat.le_succ _), List.nil_append]
    simp only [Nat.add_sub_cancel_left, List.drop_succ_cons, List.drop_zero]
  have hget : (host ++ ':' :: port)[host.length]? = some ':' := by
    rw [List.getElem?_append_right (Nat.le_refl _), Nat.sub_self]
    rfl
  refine findSome?_range hlen ?_ ?_
  · rw [hdrop, List.take_left]
    exact if_pos ⟨List.length_pos_of_ne_nil hhost, hget, hport, hdigits⟩
  · intro j hj
    refine if_neg ?_
    rintro ⟨-, hat, -, hall⟩
    rw [List.getElem?_append_left hj] at hat
    have hsplit := split_at hat
    have hfalse := hcolon _ _ hsplit
    rw [List.drop_append_of_le_length (by omega), List.all_append, hfalse] at hall
    cases hall

theorem matchPassword_eq {password rest host port : Text} (hat : '@' ∉ rest)
    (h : matchHostPort rest = some (host, port)) :
    matchPassword (password ++ '@' :: rest) = some (password, host, port) := by
  have hlen : password.length < (password ++ '@' :: rest).length := by
    rw [List.length_append, List.length_cons]
    omega
  have hdrop : (password ++ '@' :: rest).drop (password.length + 1) = rest := by
    rw [List.drop_append, List.drop_eq_nil_of_le (Nat.le_succ _), List.nil_append]
    simp only [Nat.add_sub_cancel_left, List.drop_succ_cons, List.drop_zero]
  have hget : (password ++ '@' :: rest)[password.length]? = some '@' := by
    rw [List.getElem?_append_right (Nat.le_refl _), Nat.sub_self]
    rfl
  refine findSome?_range_reverse hlen ?_ ?_
  · rw [if_pos hget, hdrop, h, List.take_left]
    rfl
  · intro j hj _
    refine if_neg fun hmem => hat ?_
    obtain ⟨d, rfl⟩ : ∃ d, j = password.length + (d + 1) := ⟨j - password.length - 1, by omega⟩
    rw [List.getElem?_append_right (Nat.le_add_right _ _), Nat.add_sub_cancel_left,
      List.getElem?_cons_succ] at hmem
    exact List.mem_of_getElem? hmem

theorem unbracket_of_head {host : Text} (h : host.head? ≠ some '[') : unbracket host = host := by
  unfold unbracket
  exact if_neg fun hcond => h hcond.1

/-- Stripping brackets only removes characters. -/
theorem mem_of_mem_unbracket {host : Text} {c : Char} (h : c ∈ unbracket host) : c ∈ host := by
  unfold unbracket at h
  split at h
  · exact List.mem_of_mem_drop ((List.dropLast_sublist _).subset h)
  · exact h

variable {P : Platform} {feature : Option Profile} {link userInfo : Text}

theorem parseUrl_of_no_userInfo (h : P.userInfo link = none) :
    parseUrl P feature link = parseLegacy P feature link := by
  unfold parseUrl
  rw [h]

theorem parseUrl_of_userInfo (h : P.userInfo link = some userInfo) :
    parseUrl P feature link = parseSip002 P feature link userInfo := by
  unfold parseUrl
  rw [h]

/-- What a profile of the SIP002 branch comes from. -/
theorem parseSip002_some {profile : Profile}
    (h : parseSip002 P feature link userInfo = some profile) : ∃ bytes uri,
      P.base64Decode Base64.urlSafe userInfo = some bytes ∧
      matchUserInfo (Utf8.decode bytes) = some (profile.method, profile.password) ∧
      JavaUri.parse link = some uri ∧ profile.host = unbracket (uri.host.getD []) ∧
      profile.plugin = P.queryParameter link pluginKey := by
  unfold parseSip002 at h
  simp only [Option.bind_eq_bind, Option.bind_eq_some_iff] at h
  obtain ⟨bytes, hbytes, ⟨method, password⟩, hmatch, uri, huri, heq⟩ := h
  cases heq
  exact ⟨bytes, uri, hbytes, hmatch, huri, rfl, rfl⟩

/-- What a profile of the other branch comes from. -/
theorem parseLegacy_some {profile : Profile} (h : parseLegacy P feature link = some profile) :
    ∃ bytes method port, P.base64Decode Base64.standard ((P.host link).getD []) = some bytes ∧
      matchLegacy (Utf8.decode bytes) = some (method, profile.password, profile.host, port) ∧
      toInt port = some profile.remotePort := by
  unfold parseLegacy at h
  simp only [Option.bind_eq_bind, Option.bind_eq_some_iff] at h
  obtain ⟨bytes, hbytes, ⟨method, password, host, port⟩, hmatch, remotePort, hport, heq⟩ := h
  cases heq
  exact ⟨bytes, method, port, hbytes, hmatch, hport⟩

/-- A link of which every part can be read. -/
theorem parseSip002_read (feature : Option Profile) {method password host : Text} {port : Int}
    {text : Text} (hbytes : P.base64Decode Base64.urlSafe userInfo = some (Utf8.encode text))
    (hmatch : matchUserInfo text = some (method, password))
    (huri : JavaUri.parse link = some ⟨some host, port⟩) :
    ∃ profile, parseSip002 P feature link userInfo = some profile ∧ profile.method = method ∧
      profile.password = password ∧ profile.host = unbracket host ∧ profile.remotePort = port ∧
      profile.plugin = P.queryParameter link pluginKey ∧
      profile.name = some ((P.fragment link).getD []) := by
  unfold parseSip002
  simp only [hbytes, Option.bind_eq_bind, Option.bind_some, Utf8.decode_encode, hmatch, huri,
    Option.getD_some]
  exact ⟨_, rfl, rfl, rfl, rfl, rfl, rfl, rfl⟩

end CypherConnect.Profile
