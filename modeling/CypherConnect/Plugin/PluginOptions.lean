/-
  `PluginOptions`: the option string of a plugin, `id;key=value;key;…`, and its parser.

  The parser walks over the tokens of a `StringTokenizer` that returns its delimiters. A backslash
  takes the next token as it is.

  * `read_text`: a text without `;` and backslash is collected as it stands, `=` only behind a key;
    `read_id` and `read_entry` are the items of such texts.
  * `parse_weight`: what a parsed string holds never weighs more than the string, and if it weighs
    as much, the string has no backslash and a `;` for each item.
-/
import Mathlib.Data.List.Nodup
import CypherConnect.Lib.Scan
import CypherConnect.Database.Profile

namespace CypherConnect.Plugin

open Scan

/-- `Char.isISOControl`. -/
def isISOControl (c : Char) : Bool := c.toNat ≤ 0x1F || (0x7F ≤ c.toNat && c.toNat ≤ 0x9F)

/-- The delimiters of the tokenizer. -/
def isDelim (c : Char) : Bool := c == '\\' || c == '=' || c == ';'

/-- The options are a hash map, so their order means nothing; a key may have no value. -/
structure PluginOptions where
  id : Text := []
  entries : List (Text × Option Text) := []
  keys_nodup : (entries.map Prod.fst).Nodup := by exact List.nodup_nil
  deriving DecidableEq, Repr

namespace PluginOptions

theorem keys_nodup_put (o : PluginOptions) (key : Text) (value : Option Text) :
    ((o.entries.filter (·.1 != key) ++ [(key, value)]).map Prod.fst).Nodup := by
  rw [List.map_append, List.nodup_append]
  refine ⟨(o.keys_nodup.sublist (List.filter_sublist.map _)), List.nodup_singleton _, ?_⟩
  intro a ha b hb
  obtain ⟨e, he, rfl⟩ := List.mem_map.mp ha
  rw [List.mem_singleton.mp hb]
  exact bne_iff_ne.mp (List.mem_filter.mp he).2

/-- `HashMap.put`. -/
def put (o : PluginOptions) (key : Text) (value : Option Text) : PluginOptions :=
  ⟨o.id, o.entries.filter (·.1 != key) ++ [(key, value)], keys_nodup_put o key value⟩

def setId (o : PluginOptions) (id : Text) : PluginOptions := { o with id := id }

end PluginOptions

/-- The locals of the parser. -/
structure Reader where
  options : PluginOptions := {}
  parseId : Bool
  current : Text := []
  key : Option Text := none

namespace Reader

def push (s : Reader) (text : Text) : Reader := { s with current := s.current ++ text }

/-- At a `;`. -/
def close (s : Reader) : Reader :=
  let options :=
    match s.key with
    | some key => s.options.put key (some s.current)
    | none =>
        if s.current.isEmpty then s.options
        else if s.parseId then s.options.setId s.current
        else s.options.put s.current none
  ⟨options, false, [], none⟩

/-- A token that is not a backslash. -/
def next (s : Reader) (token : Text) : Reader :=
  if token = ['='] then
    match s.key with
    | none => { s with key := some s.current, current := [] }
    | some _ => s.push token
  else if token = [';'] then s.close
  else s.push token

/-- The loop; `none` is the `NoSuchElementException` of a backslash at the end. -/
def read (s : Reader) : List Text → Option Reader
  | [] => some s
  | token :: rest =>
      if token = ['\\'] then
        match rest with
        | [] => none
        | escaped :: rest => read (s.push escaped) rest
      else read (s.next token) rest

end Reader

namespace PluginOptions

/-- The private constructor; `none` is an exception. -/
def parse (options : Option Text) (parseId : Bool) : Option PluginOptions :=
  match options with
  | none | some [] => some {}
  | some text =>
      if text.any isISOControl then none
      else (({ parseId := parseId } : Reader).read (tokens isDelim (text ++ [';']))).map
        Reader.options

theorem parse_of_ne_nil {text : Text} (h : text ≠ []) (parseId : Bool) : parse (some text) parseId =
    if text.any isISOControl then none
    else (({ parseId := parseId } : Reader).read (tokens isDelim (text ++ [';']))).map
      Reader.options := by
  obtain ⟨c, rest, rfl⟩ := List.exists_cons_of_ne_nil h
  rfl

/-- `PluginOptions(options)`. -/
def ofOptions (options : Option Text) : Option PluginOptions := parse options true

/-- `PluginOptions(id, options)`. -/
def ofIdOptions (id : Text) (options : Option Text) : Option PluginOptions :=
  (parse options false).map fun o => o.setId id

end PluginOptions

/-! ## Plain texts -/

namespace Reader

variable {s : Reader}

theorem read_of_ne {token : Text} (h : token ≠ ['\\']) (rest : List Text) :
    s.read (token :: rest) = (s.next token).read rest := by
  rw [read.eq_def]
  exact if_neg h

@[simp] theorem push_nil : s.push [] = s := by
  unfold push
  rw [List.append_nil]

@[simp] theorem push_push (a b : Text) : (s.push a).push b = s.push (a ++ b) := by
  unfold push
  rw [List.append_assoc]

theorem next_run {run : Text} (hrun : ∀ c ∈ run, isDelim c = false) : s.next run = s.push run := by
  have hne {c : Char} (hc : isDelim c = true) : run ≠ [c] := by
    intro heq
    rw [heq] at hrun
    rw [hrun c List.mem_cons_self] at hc
    cases hc
  unfold next
  rw [if_neg (hne rfl), if_neg (hne rfl)]

theorem read_escape (escaped : Text) (rest : List Text) :
    s.read (['\\'] :: escaped :: rest) = (s.push escaped).read rest := by
  rw [read.eq_def]
  exact if_pos rfl

theorem unescapes : Unescapes isDelim '\\' push read where
  push_nil _ := push_nil
  push_push _ := push_push
  run s run rest hne hrun := by
    have hback : run ≠ ['\\'] := by
      rintro rfl
      exact absurd (hrun _ List.mem_cons_self) (by decide)
    rw [read_of_ne hback, next_run hrun]
  escaped s x rest _ := read_escape [x] rest

/-- A text without `;` and backslash goes into `current`, with its `=` when a key has been read. -/
theorem read_tokensFrom {text run : Text} (hrun : ∀ c ∈ run, isDelim c = false)
    (htext : ∀ c ∈ text, c ≠ ';' ∧ c ≠ '\\' ∧ (c = '=' → s.key ≠ none)) {d : Char}
    (hd : isDelim d = true) (rest : Text) :
    s.read (tokensFrom isDelim run (text ++ d :: rest)) =
      (s.push (run ++ text)).read ([d] :: tokens isDelim rest) := by
  induction text generalizing s run with
  | nil => rw [List.nil_append, List.append_nil, tokensFrom_delim hd, unescapes.read_flush s hrun]
  | cons c text ih =>
      obtain ⟨hsemi, hback, hkey⟩ := htext c List.mem_cons_self
      have htail : ∀ x ∈ text, x ≠ ';' ∧ x ≠ '\\' ∧ (x = '=' → s.key ≠ none) :=
        fun x hx => htext x (List.mem_cons_of_mem _ hx)
      cases hc : isDelim c with
      | true =>
          -- the only delimiter left is `=`, and a key has been read
          have heq : c = '=' := by
            simp only [isDelim, Bool.or_eq_true, beq_iff_eq] at hc
            rcases hc with (hc | hc) | hc
            · exact absurd hc hback
            · exact hc
            · exact absurd hc hsemi
          obtain ⟨key, hsome⟩ := Option.ne_none_iff_exists'.mp (hkey heq)
          have hnext : (s.push run).next ['='] = s.push (run ++ ['=']) := by
            unfold next
            rw [if_pos rfl]
            simp only [push, hsome, List.append_assoc]
          rw [List.cons_append, tokensFrom_delim hc, unescapes.read_flush s hrun, heq,
            read_of_ne (by decide), hnext]
          show Reader.read _ (tokensFrom isDelim [] (text ++ d :: rest)) = _
          rw [ih (s := s.push (run ++ ['='])) (List.forall_mem_nil _) htail, push_push,
            List.nil_append, List.append_assoc]
          rfl
      | false =>
          have hrun' : ∀ x ∈ run ++ [c], isDelim x = false := by
            exact List.forall_mem_append.mpr ⟨hrun, List.forall_mem_singleton.mpr hc⟩
          rw [List.cons_append, tokensFrom_other hc, ih hrun' htail, List.append_assoc]
          rfl

/-- A word without delimiters can stand everywhere. -/
theorem plain_of_word {c : Char} (h : isDelim c = false) :
    c ≠ ';' ∧ c ≠ '\\' ∧ (c = '=' → s.key ≠ none) := by
  refine ⟨?_, ?_, ?_⟩
  · rintro rfl
    cases h
  · rintro rfl
    cases h
  · rintro rfl
    cases h

theorem read_text {text : Text} (htext : ∀ c ∈ text, c ≠ ';' ∧ c ≠ '\\' ∧ (c = '=' → s.key ≠ none))
    {d : Char} (hd : isDelim d = true) (hback : d ≠ '\\') (rest : Text) :
    s.read (tokens isDelim (text ++ d :: rest)) =
      ((s.push text).next [d]).read (tokens isDelim rest) := by
  have hne : [d] ≠ ['\\'] := fun heq => hback (List.cons.inj heq).1
  show s.read (tokensFrom isDelim [] (text ++ d :: rest)) = _
  rw [read_tokensFrom (List.forall_mem_nil _) htext hd, List.nil_append, read_of_ne hne]

theorem next_semicolon : s.next [';'] = s.close := by
  unfold next
  rw [if_neg (by decide), if_pos rfl]

/-- The first item of a string, where ids are read. -/
theorem read_id {word : Text} (hword : ∀ c ∈ word, isDelim c = false) (hne : word ≠ [])
    (hkey : s.key = none) (hcurrent : s.current = []) (hparse : s.parseId = true) (rest : Text) :
    s.read (tokens isDelim (word ++ ';' :: rest)) =
      Reader.read ⟨s.options.setId word, false, [], none⟩ (tokens isDelim rest) := by
  have hempty : ¬ word.isEmpty = true := fun h => hne (List.isEmpty_iff.mp h)
  have hclose : (s.push word).close = ⟨s.options.setId word, false, [], none⟩ := by
    unfold close push
    simp only [hkey, hcurrent, hparse, List.nil_append, if_neg hempty, if_true]
  rw [read_text (fun c hc => plain_of_word (hword c hc)) rfl (by decide), next_semicolon, hclose]

/-- A key with its value. -/
theorem read_entry {key value : Text} (hword : ∀ c ∈ key, isDelim c = false)
    (hvalue : ∀ c ∈ value, c ≠ ';' ∧ c ≠ '\\') (hkey : s.key = none) (hcurrent : s.current = [])
    (rest : Text) :
    s.read (tokens isDelim (key ++ '=' :: (value ++ ';' :: rest))) =
      Reader.read ⟨s.options.put key (some value), false, [], none⟩ (tokens isDelim rest) := by
  have hnext : (s.push key).next ['='] = ⟨s.options, s.parseId, [], some key⟩ := by
    unfold next push
    simp only [hkey, hcurrent, List.nil_append, if_true]
  have hclose : (Reader.push ⟨s.options, s.parseId, [], some key⟩ value).close =
      ⟨s.options.put key (some value), false, [], none⟩ := rfl
  have htext : ∀ c ∈ value, c ≠ ';' ∧ c ≠ '\\' ∧ (c = '=' → some key ≠ none) := by
    intro c hc
    exact ⟨(hvalue c hc).1, (hvalue c hc).2, fun _ => Option.some_ne_none key⟩
  rw [read_text (fun c hc => plain_of_word (hword c hc)) rfl (by decide), hnext,
    read_text htext rfl (by decide), next_semicolon, hclose]

end Reader

/-! ## Weights

The items of a parsed string are its id and its entries. Each has a weight: the characters it takes
in the string when nothing in it is escaped, with its `=` and the `;` after it. -/

def entryWeight (e : Text × Option Text) : Nat :=
  e.1.length + e.2.elim 1 fun value => value.length + 2

theorem entryWeight_pos (e : Text × Option Text) : 0 < entryWeight e := by
  unfold entryWeight
  cases e.2 with
  | none => exact Nat.succ_pos _
  | some value => exact Nat.succ_pos _

namespace PluginOptions

def weight (o : PluginOptions) : Nat :=
  (if o.id.isEmpty then 0 else o.id.length + 1) + (o.entries.map entryWeight).sum

def items (o : PluginOptions) : Nat := (if o.id.isEmpty then 0 else 1) + o.entries.length

theorem sum_filter (p : Text × Option Text → Bool) (l : List (Text × Option Text)) :
    ((l.filter p).map entryWeight).sum ≤ (l.map entryWeight).sum ∧
      (((l.filter p).map entryWeight).sum = (l.map entryWeight).sum →
        (l.filter p).length = l.length) := by
  induction l with
  | nil => exact ⟨Nat.le_refl _, fun _ => rfl⟩
  | cons e l ih =>
      have hpos := entryWeight_pos e
      cases hp : p e with
      | true =>
          rw [List.filter_cons_of_pos hp]
          simp only [List.map_cons, List.sum_cons, List.length_cons]
          refine ⟨by omega, fun h => ?_⟩
          rw [ih.2 (by omega)]
      | false =>
          rw [List.filter_cons_of_neg (by rw [hp]; exact Bool.false_ne_true)]
          simp only [List.map_cons, List.sum_cons, List.length_cons]
          exact ⟨by omega, fun h => by omega⟩

/-- A new entry brings its weight; one that replaces another brings less. -/
theorem weight_put (o : PluginOptions) (key : Text) (value : Option Text) :
    (o.put key value).weight ≤ o.weight + entryWeight (key, value) ∧
      ((o.put key value).weight = o.weight + entryWeight (key, value) →
        (o.put key value).items = o.items + 1) := by
  obtain ⟨hle, heq⟩ := sum_filter (·.1 != key) o.entries
  unfold weight items put
  simp only [List.map_append, List.sum_append, List.map_cons, List.map_nil, List.sum_cons,
    List.sum_nil, List.length_append, List.length_cons, List.length_nil]
  refine ⟨by omega, fun h => ?_⟩
  rw [heq (by omega)]
  omega

theorem weight_setId {o : PluginOptions} (hid : o.id = []) {id : Text} (hne : id.isEmpty = false) :
    (o.setId id).weight = o.weight + (id.length + 1) ∧ (o.setId id).items = o.items + 1 := by
  unfold weight items setId
  simp only [hid, hne, List.isEmpty_nil, if_true, Bool.false_eq_true, if_false]
  omega

end PluginOptions

namespace Reader

variable {s s' : Reader}

/-- What has been read so far. -/
def weight (s : Reader) : Nat :=
  s.options.weight + (s.key.elim 0 fun key => key.length + 1) + s.current.length

/-- The id is set once, at the first `;`. -/
def IdOpen (s : Reader) : Prop := s.parseId = true → s.options.id = []

theorem weight_close (hid : s.IdOpen) : s.close.weight ≤ s.weight + 1 ∧
    (s.close.weight = s.weight + 1 → s.close.options.items = s.options.items + 1) := by
  unfold close weight
  cases hkey : s.key with
  | some key =>
      obtain ⟨hle, heq⟩ := PluginOptions.weight_put s.options key (some s.current)
      simp only [entryWeight, Option.elim, List.length_nil] at hle heq ⊢
      exact ⟨by omega, fun h => heq (by omega)⟩
  | none =>
      cases hempty : s.current.isEmpty with
      | true =>
          simp only [if_true, Option.elim, List.length_nil]
          exact ⟨by omega, fun h => by omega⟩
      | false =>
          simp only [Bool.false_eq_true, if_false, Option.elim, List.length_nil]
          split
          · next hparse =>
              obtain ⟨hweight, hitems⟩ := PluginOptions.weight_setId (hid hparse) hempty
              exact ⟨by omega, fun _ => hitems⟩
          · obtain ⟨hle, heq⟩ := PluginOptions.weight_put s.options s.current none
            simp only [entryWeight, Option.elim] at hle heq
            exact ⟨by omega, fun h => heq (by omega)⟩

theorem weight_push (text : Text) : (s.push text).weight = s.weight + text.length := by
  simp only [push, weight, List.length_append]
  omega

/-- A token adds at most its length, and a token that adds just that an item if it is a `;`. -/
theorem weight_next (hid : s.IdOpen) (token : Text) :
    (s.next token).IdOpen ∧ (s.next token).weight ≤ s.weight + token.length ∧
      ((s.next token).weight = s.weight + token.length →
        (s.next token).options.items = s.options.items + if token = [';'] then 1 else 0) := by
  unfold next
  split
  · next heq =>
      subst heq
      cases hkey : s.key with
      | none =>
          refine ⟨hid, ?_, fun _ => rfl⟩
          unfold weight
          simp only [hkey, Option.elim, List.length_nil, List.length_cons]
          omega
      | some key => exact ⟨hid, (weight_push _).le, fun _ => rfl⟩
  · split
    · next heq =>
        subst heq
        obtain ⟨hle, hitems⟩ := weight_close hid
        refine ⟨?_, hle, hitems⟩
        intro hparse
        cases hparse
    · exact ⟨hid, (weight_push token).le, fun _ => rfl⟩

/-- The loop adds at most the length of its tokens. If it adds just that, no token was a backslash
and every `;` added an item. -/
theorem weight_read {ts : List Text} (hid : s.IdOpen) (h : s.read ts = some s') :
    s'.weight ≤ s.weight + ts.flatten.length ∧
      (s'.weight = s.weight + ts.flatten.length →
        ['\\'] ∉ ts ∧ s'.options.items = s.options.items + ts.count [';']) := by
  induction hlen : ts.length using Nat.strongRecOn generalizing s ts with
  | ind len ih =>
      cases ts with
      | nil =>
          cases h
          exact ⟨Nat.le_refl _, fun _ => ⟨List.not_mem_nil, rfl⟩⟩
      | cons token rest =>
          by_cases hback : token = ['\\']
          · -- an escape drops its backslash
            rw [read.eq_def] at h
            simp only [if_pos hback] at h
            cases rest with
            | nil => cases h
            | cons escaped rest =>
                have hlt : rest.length < len := by
                  rw [← hlen, List.length_cons, List.length_cons]
                  omega
                obtain ⟨hle, _⟩ := ih rest.length hlt (s := s.push escaped) hid h rfl
                rw [weight_push] at hle
                subst hback
                simp only [List.flatten_cons, List.length_append, List.length_cons, List.length_nil]
                exact ⟨by omega, fun heq => by omega⟩
          · rw [read_of_ne hback] at h
            obtain ⟨hid', hstep, hitems⟩ := weight_next hid token
            have hlt : rest.length < len := by
              rw [← hlen, List.length_cons]
              omega
            obtain ⟨hle, hrest⟩ := ih rest.length hlt hid' h rfl
            rw [List.flatten_cons, List.length_append]
            refine ⟨by omega, fun heq => ?_⟩
            obtain ⟨hno, hcount⟩ := hrest (by omega)
            refine ⟨?_, ?_⟩
            · intro hm
              rcases List.mem_cons.mp hm with hm | hm
              · exact hback hm.symm
              · exact hno hm
            · rw [hcount, hitems (by omega), List.count_cons]
              simp only [beq_iff_eq]
              omega

end Reader

namespace PluginOptions

/-- A parsed string weighs no more than the string with its final `;`. If it weighs as much, the
string has no backslash and one `;` less than it has items. -/
theorem parse_weight {text : Text} {parseId : Bool} {o : PluginOptions} (htext : text ≠ [])
    (h : parse (some text) parseId = some o) : text.any isISOControl = false ∧
      o.weight ≤ text.length + 1 ∧
      (o.weight = text.length + 1 → '\\' ∉ text ∧ o.items = text.count ';' + 1) := by
  rw [parse_of_ne_nil htext] at h
  split at h
  · cases h
  · next hcontrol =>
      obtain ⟨s', hread, rfl⟩ := Option.map_eq_some_iff.mp h
      have hweight : s'.options.weight ≤ s'.weight := by
        unfold Reader.weight
        omega
      have hstart : ({ parseId := parseId } : Reader).weight = 0 := rfl
      obtain ⟨hle, heq⟩ := Reader.weight_read (fun _ => rfl) hread
      rw [flatten_tokens, hstart, List.length_append, List.length_singleton] at hle heq
      refine ⟨Bool.eq_false_iff.mpr hcontrol, by omega, fun hfull => ?_⟩
      obtain ⟨hback, hitems⟩ := heq (by omega)
      rw [← List.count_eq_zero, count_tokens rfl, List.count_append] at hback
      rw [count_tokens rfl, List.count_append] at hitems
      refine ⟨List.count_eq_zero.mp (by omega), ?_⟩
      rw [hitems]
      exact Nat.zero_add _

end PluginOptions

end CypherConnect.Plugin
