/-
  `Profile.parseJson` and its `JsonParser`: profiles out of a JSON document.

  `process` collects the profiles of all objects it recognises, and for those with a usable
  `udp_fallback` an entry of `fallbackMap`, a hash map with the order of insertion whose keys are
  compared by content. `parseJson` then hands each profile to its callback and moves the entry to
  the profile that comes back, and `finalize` links what is left in the map. The callback and the
  two calls of `ProfileManager` are `Callbacks` over a state; an exception keeps the state that it
  finds. Profiles are values here: none is changed while it is a key that is looked up.

  * `process_eq`: `process` reads the recognised objects (`objects`) one after the other.
  * `process_cases`: what it has collected, or why it has thrown.
  * `Reads.spec`: what is known of a profile that was read.
  * `mem_fallbackMap_iff`: the map has the last fallback of each profile.
  * `Keeps.parseJson`: what callbacks keep at each call (`Keeps`), a whole import keeps.
-/
import CypherConnect.Lib.Related
import CypherConnect.Platform.Gson
import CypherConnect.Plugin.Printing
import CypherConnect.Database.ProfileManager

namespace CypherConnect.JsonParser

open Plugin

abbrev Members := List (Text × Json)

/-- What ends an import. -/
inductive ImportFailure where
  /-- The options of a plugin cannot be read. -/
  | illegalArgument
  | storage (f : Failure)
  deriving DecidableEq, Repr

/-! ## One object -/

def optString (json : Members) (key : String) : Option Text :=
  (Json.get json key.toList).bind Json.asString

def optBoolean (json : Members) (key : String) : Option Bool :=
  (Json.get json key.toList).bind Json.asBoolean

def optInt (G : Gson) (json : Members) (key : String) : Option Int :=
  (Json.get json key.toList).bind (Json.asInt G)

/-- The member that is an object. -/
def optObject (json : Members) (key : String) : Option Members :=
  match Json.get json key.toList with
  | some (.object members) => some members
  | _ => none

/-- `isNullOrEmpty`, the other way round. -/
def nonEmpty (t : Option Text) : Option Text := t.filter fun t => !t.isEmpty

/-- The four values without which an object is no profile. -/
structure Server where
  host : Text
  remotePort : Int
  password : Text
  method : Text
  deriving DecidableEq, Repr

/-- Up to the last `return null` of `tryParse`. -/
def server (G : Gson) (json : Members) : Option Server := do
  let host ← nonEmpty (optString json "server")
  let remotePort ← (optInt G json "server_port").filter fun n => 0 < n
  let password ← nonEmpty (optString json "password")
  let method ← nonEmpty (optString json "method")
  some ⟨host, remotePort, password, method⟩

/-- An object with the four values, the port written as `port`. -/
def portObject (port : String) : Members :=
  [("server".toList, .string "a".toList), ("server_port".toList, .number port.toList),
    ("password".toList, .string "p".toList), ("method".toList, .string "aes-256-gcm".toList)]

section Parse

variable (G : Gson) (E : Enumeration) (feature : Option Profile)

/-- The string of the plugin. -/
def pluginOf (json : Members) : Except ImportFailure (Option Text) :=
  match nonEmpty (optString json "plugin") with
  | none => .ok none
  | some id =>
      match PluginOptions.ofIdOptions id (optString json "plugin_opts") with
      | none => .error .illegalArgument
      | some options => .ok (some (options.toString E false))

/-- What a profile and a fallback have in common: `tryParse` up to `if (fallback) return@apply`. -/
def commonOf (json : Members) (s : Server) (plugin : Option Text) : Profile :=
  { Profile.blank feature with
    host := s.host
    remotePort := s.remotePort
    password := s.password
    method := s.method
    plugin := plugin
    name := optString json "remarks"
    route := (optString json "route").getD (Profile.blank feature).route }

/-- The rest of `tryParse`, without the fallback. -/
def settingsOf (json : Members) (p : Profile) : Profile :=
  let p := { p with
    remoteDns := (optString json "remote_dns").getD p.remoteDns
    ipv6 := (optBoolean json "ipv6").getD p.ipv6
    metered := (optBoolean json "metered").getD p.metered }
  let p :=
    match optObject json "proxy_apps" with
    | some apps =>
        { p with
          proxyApps := (optBoolean apps "enabled").getD p.proxyApps
          bypass := (optBoolean apps "bypass").getD p.bypass
          individual :=
            match Json.get apps "android_list".toList with
            | some (.array list) => List.intercalate ['\n'] (list.filterMap Json.asString)
            | _ => p.individual }
    | none => p
  { p with udpdns := (optBoolean json "udpdns").getD p.udpdns }

/-- `tryParse(json, true)`. -/
def tryParseFallback (json : Members) : Except ImportFailure (Option Profile) :=
  match server G json with
  | none => .ok none
  | some s => (pluginOf E json).map fun plugin => some (commonOf feature json s plugin)

/-- The fallback of an object. -/
def fallbackOf (json : Members) : Except ImportFailure (Option Profile) :=
  match optObject json "udp_fallback" with
  | none => .ok none
  | some fallback => tryParseFallback G E feature fallback

/-- `tryParse(json)`: the profile, and the fallback that goes into the map with it. -/
def tryParse (json : Members) : Except ImportFailure (Option (Profile × Option Profile)) :=
  match server G json with
  | none => .ok none
  | some s => do
      let plugin ← pluginOf E json
      let fallback ← fallbackOf G E feature json
      .ok (some (settingsOf json (commonOf feature json s plugin), fallback))

/-! ## A document -/

/-- `fallbackMap`. -/
abbrev FallbackMap := List (Profile × Profile)

/-- The list and the map of the parser. -/
structure State where
  profiles : List Profile := []
  fallbackMap : FallbackMap := []

def State.add (st : State) (item : Profile × Option Profile) : State where
  profiles := st.profiles ++ [item.1]
  fallbackMap :=
    match item.2 with
    | some fallback => Keyed.put Prod.fst (item.1, fallback) st.fallbackMap
    | none => st.fallbackMap

mutual

def process (st : State) : Json → Except ImportFailure State
  | .object members =>
      match tryParse G E feature members with
      | .error f => .error f
      | .ok (some item) => .ok (st.add item)
      | .ok none => processMembers st members
  | .array elements => processElements st elements
  | _ => .ok st
termination_by structural json => json

def processElements (st : State) : List Json → Except ImportFailure State
  | [] => .ok st
  | e :: elements => (process st e).bind fun st => processElements st elements
termination_by structural elements => elements

def processMembers (st : State) : List (Text × Json) → Except ImportFailure State
  | [] => .ok st
  | m :: members => (processMember st m).bind fun st => processMembers st members
termination_by structural members => members

def processMember (st : State) : Text × Json → Except ImportFailure State
  | (_, value) => process st value
termination_by structural member => member

end

end Parse

/-! ## Import -/

/-- The callback `create`, and what the parser calls of `ProfileManager`. -/
structure Callbacks (σ : Type) where
  create : σ → Profile → Except Failure Profile × σ
  /-- `ProfileManager.getAllProfiles() ?: emptyList()`. -/
  getAllProfiles : σ → Except Failure (List Profile)
  updateProfile : σ → Profile → Except Failure Unit × σ

section Import

variable {σ : Type} (c : Callbacks σ)

def lookup (map : FallbackMap) (p : Profile) : Option Profile :=
  (map.find? (·.1 == p)).map Prod.snd

def remove (map : FallbackMap) (p : Profile) : FallbackMap := map.filter (·.1 != p)

/-- The entry of `p`, if it has one, is moved to `created`. -/
def moveEntry (map : FallbackMap) (p created : Profile) : FallbackMap :=
  match lookup map p with
  | some fallback => Keyed.put Prod.fst (created, fallback) (remove map p)
  | none => remove map p

/-- The loop of `parseJson`. -/
def createAll : List Profile → FallbackMap → σ →
    Except ImportFailure (List Profile × FallbackMap) × σ
  | [], map, s => (.ok ([], map), s)
  | p :: profiles, map, s =>
      match c.create s p with
      | (.error f, s) => (.error (.storage f), s)
      | (.ok created, s) =>
          match createAll profiles (moveEntry map p created) s with
          | (.error f, s) => (.error f, s)
          | (.ok (rest, map), s) => (.ok (created :: rest, map), s)

/-- `it` can serve as `fallback`. -/
def isMatch (fallback it : Profile) : Bool :=
  fallback.host == it.host && fallback.remotePort == it.remotePort &&
    fallback.password == it.password && fallback.method == it.method && it.plugin.getD [] == []

/-- `(match ?: create(fallback)).id`. -/
def targetOf (profiles : List Profile) (fallback : Profile) (s : σ) :
    Except ImportFailure Int × σ :=
  match profiles.find? (isMatch fallback) with
  | some found => (.ok found.id, s)
  | none =>
      match c.create s fallback with
      | (.error f, s) => (.error (.storage f), s)
      | (.ok created, s) => (.ok created.id, s)

/-- The loop of `finalize`. -/
def linkAll (profiles : List Profile) : FallbackMap → σ → Except ImportFailure Unit × σ
  | [], s => (.ok (), s)
  | (profile, fallback) :: rest, s =>
      match targetOf c profiles fallback s with
      | (.error f, s) => (.error f, s)
      | (.ok id, s) =>
          match c.updateProfile s { profile with udpFallback := some id } with
          | (.error f, s) => (.error (.storage f), s)
          | (.ok (), s) => linkAll profiles rest s

def finalize (map : FallbackMap) (s : σ) : Except ImportFailure Unit × σ :=
  match c.getAllProfiles s with
  | .error f => (.error (.storage f), s)
  | .ok profiles => linkAll c profiles map s

/-- `Profile.parseJson`. The result is the list of the parser, as the callback returned it. -/
def parseJson (G : Gson) (E : Enumeration) (feature : Option Profile) (json : Json) (s : σ) :
    Except ImportFailure (List Profile) × σ :=
  match process G E feature {} json with
  | .error f => (.error f, s)
  | .ok st =>
      match createAll c st.profiles st.fallbackMap s with
      | (.error f, s) => (.error f, s)
      | (.ok (created, map), s) =>
          match finalize c map s with
          | (.error f, s) => (.error f, s)
          | (.ok (), s) => (.ok created, s)

/-! What has happened in a call that returns. -/

variable {c} {s s' : σ} {profiles created : List Profile} {map map' : FallbackMap}

theorem createAll_cons_ok {p : Profile}
    (h : createAll c (p :: profiles) map s = (.ok (created, map'), s')) : ∃ q s1 rest,
      c.create s p = (.ok q, s1) ∧
      createAll c profiles (moveEntry map p q) s1 = (.ok (rest, map'), s') ∧
        created = q :: rest := by
  rw [createAll] at h
  rcases hcall : c.create s p with ⟨r, s1⟩
  rw [hcall] at h
  cases r with
  | error f => cases h
  | ok q =>
      dsimp only at h
      rcases hrest : createAll c profiles (moveEntry map p q) s1 with ⟨r, s2⟩
      rw [hrest] at h
      cases r with
      | error f => cases h
      | ok x =>
          cases h
          exact ⟨q, s1, x.1, rfl, hrest, rfl⟩

theorem targetOf_ok {fallback : Profile} {id : Int}
    (h : targetOf c profiles fallback s = (.ok id, s')) :
    (∃ found, profiles.find? (isMatch fallback) = some found ∧ id = found.id ∧ s' = s) ∨
      (profiles.find? (isMatch fallback) = none ∧ ∃ q, c.create s fallback = (.ok q, s') ∧
        id = q.id) := by
  unfold targetOf at h
  split at h
  · next found hfound =>
      cases h
      exact Or.inl ⟨found, hfound, rfl, rfl⟩
  · next hnone =>
      rcases hcall : c.create s fallback with ⟨r, s1⟩
      rw [hcall] at h
      cases r with
      | error f => cases h
      | ok q =>
          cases h
          exact Or.inr ⟨hnone, q, rfl, rfl⟩

theorem linkAll_cons_ok {p fallback : Profile}
    (h : linkAll c profiles ((p, fallback) :: map) s = (.ok (), s')) : ∃ id s1 s2,
      targetOf c profiles fallback s = (.ok id, s1) ∧
      c.updateProfile s1 { p with udpFallback := some id } = (.ok (), s2) ∧
      linkAll c profiles map s2 = (.ok (), s') := by
  rw [linkAll] at h
  rcases htarget : targetOf c profiles fallback s with ⟨r, s1⟩
  rw [htarget] at h
  cases r with
  | error f => cases h
  | ok id =>
      dsimp only at h
      rcases hupdate : c.updateProfile s1 { p with udpFallback := some id } with ⟨r, s2⟩
      rw [hupdate] at h
      cases r with
      | error f => cases h
      | ok u => exact ⟨id, s1, s2, rfl, hupdate, h⟩

theorem parseJson_ok {G : Gson} {E : Enumeration} {feature : Option Profile} {json : Json}
    (h : parseJson c G E feature json s = (.ok created, s')) : ∃ st map s1 all,
      process G E feature {} json = .ok st ∧
      createAll c st.profiles st.fallbackMap s = (.ok (created, map), s1) ∧
      c.getAllProfiles s1 = .ok all ∧ linkAll c all map s1 = (.ok (), s') := by
  unfold parseJson at h
  split at h
  · cases h
  · next st hprocess =>
      rcases hcreate : createAll c st.profiles st.fallbackMap s with ⟨r, s1⟩
      rw [hcreate] at h
      cases r with
      | error f => cases h
      | ok x =>
          dsimp only at h
          unfold finalize at h
          cases hall : c.getAllProfiles s1 with
          | error f =>
              rw [hall] at h
              cases h
          | ok all =>
              rw [hall] at h
              dsimp only at h
              rcases hlink : linkAll c all x.2 s1 with ⟨r, s2⟩
              rw [hlink] at h
              cases r with
              | error f => cases h
              | ok u =>
                  cases h
                  exact ⟨st, x.2, s1, all, hprocess, hcreate, hall, hlink⟩

end Import

/-! ## The map -/

section Map

variable {map : FallbackMap}

theorem lookup_mem {p f : Profile} (h : lookup map p = some f) : (p, f) ∈ map := by
  obtain ⟨e, he, rfl⟩ := Option.map_eq_some_iff.mp h
  obtain ⟨hmem, rfl⟩ := Keyed.find?_some he
  exact hmem

theorem lookup_of_mem (hkeys : (map.map Prod.fst).Nodup) {e : Profile × Profile}
    (he : e ∈ map) : lookup map e.1 = some e.2 := by
  unfold lookup
  rw [Keyed.find?_of_mem hkeys he]
  rfl

theorem nodup_remove (hkeys : (map.map Prod.fst).Nodup) (p : Profile) :
    ((remove map p).map Prod.fst).Nodup :=
  hkeys.sublist (List.filter_sublist.map Prod.fst)

theorem nodup_moveEntry (hkeys : (map.map Prod.fst).Nodup) (p q : Profile) :
    ((moveEntry map p q).map Prod.fst).Nodup := by
  unfold moveEntry
  split
  · exact Keyed.nodup_put _ (nodup_remove hkeys p)
  · exact nodup_remove hkeys p

theorem mem_remove {p : Profile} {e : Profile × Profile} :
    e ∈ remove map p ↔ e ∈ map ∧ e.1 ≠ p := by
  unfold remove
  rw [List.mem_filter, bne_iff_ne]

/-- The entries after a move: the moved one, and those of other profiles that it does not
replace. -/
theorem mem_moveEntry (hkeys : (map.map Prod.fst).Nodup) {p q : Profile} {e : Profile × Profile} :
    e ∈ moveEntry map p q ↔ (e.1 = q ∧ (p, e.2) ∈ map) ∨
      (e ∈ map ∧ e.1 ≠ p ∧ ((∃ f, (p, f) ∈ map) → e.1 ≠ q)) := by
  unfold moveEntry
  cases hlookup : lookup map p with
  | some f =>
      have hmem := lookup_mem hlookup
      have honly : ∀ g, (p, g) ∈ map → g = f := by
        intro g hg
        have hsome := (lookup_of_mem hkeys hg).symm.trans hlookup
        exact Option.some.inj hsome
      rw [Keyed.mem_put, mem_remove]
      constructor
      · rintro (rfl | ⟨⟨he, hp⟩, hq⟩)
        · exact Or.inl ⟨rfl, hmem⟩
        · exact Or.inr ⟨he, hp, fun _ => hq⟩
      · rintro (⟨hq, hp⟩ | ⟨he, hp, hq⟩)
        · exact Or.inl (Prod.ext hq (honly e.2 hp))
        · exact Or.inr ⟨⟨he, hp⟩, hq ⟨f, hmem⟩⟩
  | none =>
      have hnot : ∀ g, (p, g) ∉ map := by
        intro g hg
        have hsome := (lookup_of_mem hkeys hg).symm.trans hlookup
        cases hsome
      rw [mem_remove]
      constructor
      · rintro ⟨he, hp⟩
        exact Or.inr ⟨he, hp, fun ⟨g, hg⟩ => absurd hg (hnot g)⟩
      · rintro (⟨-, hp⟩ | ⟨he, hp, -⟩)
        · exact absurd hp (hnot e.2)
        · exact ⟨he, hp⟩

end Map

/-! ## What the callbacks keep -/

/-- An entry after a move comes from an entry of the map. -/
theorem of_mem_moveEntry {map : FallbackMap} {p q : Profile} {e : Profile × Profile}
    (h : e ∈ moveEntry map p q) : (e.1 = q ∧ (p, e.2) ∈ map) ∨ (e ∈ map ∧ e.1 ≠ p) := by
  unfold moveEntry at h
  split at h
  · next f hf =>
      rcases Keyed.mem_put.mp h with rfl | ⟨he, -⟩
      · exact Or.inl ⟨rfl, lookup_mem hf⟩
      · exact Or.inr (mem_remove.mp he)
  · exact Or.inr (mem_remove.mp h)

section Rule

variable {σ : Type}

/-- From `s` to `s'` with the result `r`: the state still has `I`, what was known of profiles is
known, and a failure is one of `F`. -/
structure After {α : Type} (I : σ → Prop) (V : σ → Profile → Prop) (F : Failure → Prop) (s s' : σ)
    (r : Except ImportFailure α) : Prop where
  state : I s'
  valid : ∀ q, V s q → V s' q
  failure : ∀ f, r = .error f → ∃ g, f = .storage g ∧ F g

/-- What the callbacks do for profiles with `P`. They keep `I` of the state; `V s q` says that `q`
may be updated in `s`, which `create` brings about; what it returns is related to what it was given
by `R`. -/
structure Keeps (c : Callbacks σ) (P : Profile → Prop) (R : Profile → Profile → Prop) (I : σ → Prop)
    (V : σ → Profile → Prop) (F : Failure → Prop) : Prop where
  create : ∀ {s s' p r}, P p → I s → c.create s p = (r, s') →
    After I V F s s' (r.mapError .storage) ∧ ∀ q, r = .ok q → R p q ∧ V s' q
  getAllProfiles : ∀ {s f}, I s → c.getAllProfiles s = .error f → F f
  update : ∀ {s s' q id r}, I s → V s q →
    c.updateProfile s { q with udpFallback := some id } = (r, s') →
    After I V F s s' (r.mapError .storage)

variable {c : Callbacks σ} {P : Profile → Prop} {R : Profile → Profile → Prop} {I : σ → Prop}
  {V : σ → Profile → Prop} {F : Failure → Prop} {s s' : σ}

theorem After.refl {α : Type} (hs : I s) (a : α) : After I V F s s (.ok a) :=
  ⟨hs, fun _ h => h, fun _ h => nomatch h⟩

theorem After.trans {α β : Type} {t : σ} {r : Except ImportFailure α} {r' : Except ImportFailure β}
    (h : After I V F s t r) (h' : After I V F t s' r') : After I V F s s' r' :=
  ⟨h'.state, fun q hq => h'.valid q (h.valid q hq), h'.failure⟩

/-- A failure that is passed on. -/
theorem After.rethrow {α β : Type} {f : ImportFailure}
    (h : After I V F s s' (.error f : Except _ α)) :
    After I V F s s' (.error f : Except _ β) := by
  refine ⟨h.state, h.valid, fun g hg => ?_⟩
  cases hg
  exact h.failure f rfl

/-- A call of the storage. -/
theorem After.of_storage {α : Type} {r : Except Failure α} (hs : I s')
    (hvalid : ∀ q, V s q → V s' q)
    (hF : ∀ g, r = .error g → F g) : After I V F s s' (r.mapError .storage) := by
  refine ⟨hs, hvalid, fun f hf => ?_⟩
  cases r with
  | error g =>
      cases hf
      exact ⟨g, rfl, hF g rfl⟩
  | ok a => cases hf

/-- The loop of `parseJson`. Every key of the map is still to come or has been created. -/
theorem Keeps.createAll (h : Keeps c P R I V F) {profiles : List Profile} {map : FallbackMap}
    {r : Except ImportFailure (List Profile × FallbackMap)} (hprofiles : ∀ p ∈ profiles, P p)
    (hmap : ∀ e ∈ map, P e.2 ∧ (e.1 ∈ profiles ∨ V s e.1)) (hs : I s)
    (hcall : JsonParser.createAll c profiles map s = (r, s')) :
    After I V F s s' r ∧ ∀ created map', r = .ok (created, map') →
      List.Forall₂ R profiles created ∧ (∀ q ∈ created, V s' q) ∧ ∀ e ∈ map', P e.2 ∧ V s' e.1 := by
  induction profiles generalizing map s s' r with
  | nil =>
      cases hcall
      refine ⟨After.refl hs _, fun created map' heq => ?_⟩
      cases heq
      refine ⟨List.Forall₂.nil, List.forall_mem_nil _, fun e he => ?_⟩
      obtain ⟨hP, hkey | hkey⟩ := hmap e he
      · cases hkey
      · exact ⟨hP, hkey⟩
  | cons p profiles ih =>
      obtain ⟨hp, htail⟩ := List.forall_mem_cons.mp hprofiles
      rw [JsonParser.createAll] at hcall
      rcases hcreate : c.create s p with ⟨r1, s1⟩
      rw [hcreate] at hcall
      obtain ⟨hafter, hvalid⟩ := h.create hp hs hcreate
      cases r1 with
      | error f =>
          cases hcall
          exact ⟨hafter.rethrow, fun created map' heq => nomatch heq⟩
      | ok q =>
          obtain ⟨hR, hq⟩ := hvalid q rfl
          have hmoved : ∀ e ∈ moveEntry map p q, P e.2 ∧ (e.1 ∈ profiles ∨ V s1 e.1) := by
            intro e he
            rcases of_mem_moveEntry he with ⟨heq, hmem⟩ | ⟨hmem, hne⟩
            · exact ⟨(hmap _ hmem).1, Or.inr (heq ▸ hq)⟩
            · obtain ⟨hP, hkey | hkey⟩ := hmap e hmem
              · exact ⟨hP, Or.inl (List.mem_of_ne_of_mem hne hkey)⟩
              · exact ⟨hP, Or.inr (hafter.valid _ hkey)⟩
          rcases hrest : JsonParser.createAll c profiles (moveEntry map p q) s1 with ⟨r2, s2⟩
          obtain ⟨hafter2, hleft⟩ := ih htail hmoved hafter.state hrest
          dsimp only at hcall
          rw [hrest] at hcall
          cases r2 with
          | error f =>
              cases hcall
              exact ⟨(hafter.trans hafter2).rethrow, fun created map' heq => nomatch heq⟩
          | ok x =>
              cases hcall
              refine ⟨⟨hafter2.state, (hafter.trans hafter2).valid, fun f hf => nomatch hf⟩, ?_⟩
              intro created map' heq
              cases heq
              obtain ⟨hrel, hcreated, hentries⟩ := hleft x.1 x.2 rfl
              exact ⟨hrel.cons hR,
                List.forall_mem_cons.mpr ⟨hafter2.valid q hq, hcreated⟩, hentries⟩

theorem Keeps.targetOf (h : Keeps c P R I V F) {profiles : List Profile} {fallback : Profile}
    {r : Except ImportFailure Int} (hP : P fallback) (hs : I s)
    (hcall : JsonParser.targetOf c profiles fallback s = (r, s')) : After I V F s s' r := by
  unfold JsonParser.targetOf at hcall
  split at hcall
  · cases hcall
    exact After.refl hs _
  · rcases hcreate : c.create s fallback with ⟨r1, s1⟩
    rw [hcreate] at hcall
    have hafter := (h.create hP hs hcreate).1
    cases r1 with
    | error f =>
        cases hcall
        exact hafter.rethrow
    | ok q =>
        cases hcall
        exact ⟨hafter.state, hafter.valid, fun f hf => nomatch hf⟩

theorem Keeps.linkAll (h : Keeps c P R I V F) {profiles : List Profile} {map : FallbackMap}
    {r : Except ImportFailure Unit} (hmap : ∀ e ∈ map, P e.2 ∧ V s e.1) (hs : I s)
    (hcall : JsonParser.linkAll c profiles map s = (r, s')) : After I V F s s' r := by
  induction map generalizing s with
  | nil =>
      cases hcall
      exact After.refl hs _
  | cons e map ih =>
      obtain ⟨p, fallback⟩ := e
      obtain ⟨⟨hP, hp⟩, htail⟩ := List.forall_mem_cons.mp hmap
      rw [JsonParser.linkAll] at hcall
      rcases htarget : JsonParser.targetOf c profiles fallback s with ⟨r1, s1⟩
      have hafter1 := h.targetOf hP hs htarget
      rw [htarget] at hcall
      cases r1 with
      | error f =>
          cases hcall
          exact hafter1.rethrow
      | ok id =>
          dsimp only at hcall
          rcases hupdate : c.updateProfile s1 { p with udpFallback := some id } with ⟨r2, s2⟩
          have hafter2 := hafter1.trans (h.update hafter1.state (hafter1.valid p hp) hupdate)
          rw [hupdate] at hcall
          cases r2 with
          | error f =>
              cases hcall
              exact hafter2.rethrow
          | ok u =>
              have hrest : ∀ e ∈ map, P e.2 ∧ V s2 e.1 :=
                fun e he => ⟨(htail e he).1, hafter2.valid _ (htail e he).2⟩
              exact hafter2.trans (ih hrest hafter2.state hcall)

/-- The rule for a whole import, once the document is processed. -/
theorem Keeps.parseJson (h : Keeps c P R I V F) {G : Gson} {E : Enumeration}
    {feature : Option Profile} {doc : Json} {st : State} {r : Except ImportFailure (List Profile)}
    (hprocess : process G E feature {} doc = .ok st) (hprofiles : ∀ p ∈ st.profiles, P p)
    (hmap : ∀ e ∈ st.fallbackMap, P e.2 ∧ (e.1 ∈ st.profiles ∨ V s e.1)) (hs : I s)
    (hcall : JsonParser.parseJson c G E feature doc s = (r, s')) :
    After I V F s s' r ∧
      ∀ created, r = .ok created → List.Forall₂ R st.profiles created ∧ ∀ q ∈ created, V s' q := by
  unfold JsonParser.parseJson at hcall
  rw [hprocess] at hcall
  dsimp only at hcall
  rcases hcreate : JsonParser.createAll c st.profiles st.fallbackMap s with ⟨r1, s1⟩
  obtain ⟨hafter1, hleft⟩ := h.createAll hprofiles hmap hs hcreate
  rw [hcreate] at hcall
  cases r1 with
  | error f =>
      cases hcall
      exact ⟨hafter1.rethrow, fun created heq => nomatch heq⟩
  | ok x =>
      obtain ⟨created, map⟩ := x
      obtain ⟨hrel, hcreated, hentries⟩ := hleft created map rfl
      dsimp only at hcall
      unfold finalize at hcall
      cases hall : c.getAllProfiles s1 with
      | error f =>
          rw [hall] at hcall
          cases hcall
          refine ⟨⟨hafter1.state, hafter1.valid, fun g hg => ?_⟩, fun created heq => nomatch heq⟩
          cases hg
          exact ⟨f, rfl, h.getAllProfiles hafter1.state hall⟩
      | ok profiles =>
          rw [hall] at hcall
          dsimp only at hcall
          rcases hlink : JsonParser.linkAll c profiles map s1 with ⟨r2, s2⟩
          have hafter2 := h.linkAll hentries hafter1.state hlink
          rw [hlink] at hcall
          cases r2 with
          | error f =>
              cases hcall
              exact ⟨(hafter1.trans hafter2).rethrow, fun created heq => nomatch heq⟩
          | ok u =>
              cases hcall
              refine ⟨⟨hafter2.state, (hafter1.trans hafter2).valid, fun f hf => nomatch hf⟩, ?_⟩
              intro created' heq
              cases heq
              exact ⟨hrel, fun q hq => hafter2.valid q (hcreated q hq)⟩

end Rule

/-! ## The recognised objects -/

section Objects

variable (G : Gson)

mutual

/-- The objects that are taken for profiles: none inside of another. -/
def objects : Json → List Members
  | .object members => if (server G members).isSome then [members] else objectsOfMembers members
  | .array elements => objectsOfElements elements
  | _ => []
termination_by structural json => json

def objectsOfElements : List Json → List Members
  | [] => []
  | e :: elements => objects e ++ objectsOfElements elements
termination_by structural elements => elements

def objectsOfMembers : List (Text × Json) → List Members
  | [] => []
  | m :: members => objectsOfMember m ++ objectsOfMembers members
termination_by structural members => members

def objectsOfMember : Text × Json → List Members
  | (_, value) => objects value
termination_by structural member => member

end

variable {G} {E : Enumeration} {feature : Option Profile}

theorem tryParse_none {json : Members} (h : server G json = none) :
    tryParse G E feature json = .ok none := by
  unfold tryParse
  rw [h]

/-- What an object with the four values is read as. -/
theorem tryParse_some {json : Members} {s : Server} (h : server G json = some s) :
    (∃ plugin fallback, pluginOf E json = .ok plugin ∧ fallbackOf G E feature json = .ok fallback ∧
      tryParse G E feature json =
        .ok (some (settingsOf json (commonOf feature json s plugin), fallback))) ∨
      ∃ f, tryParse G E feature json = .error f := by
  unfold tryParse
  rw [h]
  cases hplugin : pluginOf E json with
  | error f => exact Or.inr ⟨f, rfl⟩
  | ok plugin =>
      cases hfallback : fallbackOf G E feature json with
      | error f => exact Or.inr ⟨f, rfl⟩
      | ok fallback => exact Or.inl ⟨plugin, fallback, rfl, rfl, rfl⟩

/-- Reading one recognised object. -/
def read (G : Gson) (E : Enumeration) (feature : Option Profile) (st : State) (json : Members) :
    Except ImportFailure State :=
  match tryParse G E feature json with
  | .error f => .error f
  | .ok (some item) => .ok (st.add item)
  | .ok none => .ok st

mutual

theorem process_eq (st : State) : ∀ json : Json,
    process G E feature st json = (objects G json).foldlM (read G E feature) st
  | .object members => by
      rw [process, objects]
      cases hserver : server G members with
      | none =>
          rw [tryParse_none hserver]
          exact processMembers_eq st members
      | some s =>
          show _ = List.foldlM (read G E feature) st [members]
          rw [List.foldlM_cons]
          unfold read
          rcases @tryParse_some G E feature members s hserver with
            ⟨plugin, fallback, -, -, hparse⟩ | ⟨f, hparse⟩
          · rw [hparse]
            rfl
          · rw [hparse]
            rfl
  | .array elements => by
      rw [process, objects]
      exact processElements_eq st elements
  | .null => rfl
  | .bool _ => rfl
  | .number _ => rfl
  | .string _ => rfl

theorem processElements_eq (st : State) : ∀ elements : List Json,
    processElements G E feature st elements =
      (objectsOfElements G elements).foldlM (read G E feature) st
  | [] => rfl
  | e :: elements => by
      rw [processElements, objectsOfElements, List.foldlM_append, process_eq st e]
      exact bind_congr fun st => processElements_eq st elements

theorem processMembers_eq (st : State) : ∀ members : List (Text × Json),
    processMembers G E feature st members =
      (objectsOfMembers G members).foldlM (read G E feature) st
  | [] => rfl
  | m :: members => by
      rw [processMembers, objectsOfMembers, List.foldlM_append, processMember_eq st m]
      exact bind_congr fun st => processMembers_eq st members

theorem processMember_eq (st : State) : ∀ member : Text × Json,
    processMember G E feature st member = (objectsOfMember G member).foldlM (read G E feature) st
  | (_, value) => by
      rw [processMember, objectsOfMember]
      exact process_eq st value

end

mutual

/-- Every recognised object has the four values. -/
theorem server_of_mem_objects {json : Members} : ∀ doc : Json, json ∈ objects G doc →
    (server G json).isSome
  | .object members, h => by
      rw [objects] at h
      split at h
      · next hsome => rwa [List.mem_singleton.mp h]
      · exact server_of_mem_members members h
  | .array elements, h => by
      rw [objects] at h
      exact server_of_mem_elements elements h
  | .null, h => absurd h List.not_mem_nil
  | .bool _, h => absurd h List.not_mem_nil
  | .number _, h => absurd h List.not_mem_nil
  | .string _, h => absurd h List.not_mem_nil

theorem server_of_mem_elements {json : Members} : ∀ elements : List Json,
    json ∈ objectsOfElements G elements → (server G json).isSome
  | [], h => absurd h List.not_mem_nil
  | e :: elements, h => by
      rw [objectsOfElements] at h
      rcases List.mem_append.mp h with h | h
      · exact server_of_mem_objects e h
      · exact server_of_mem_elements elements h

theorem server_of_mem_members {json : Members} : ∀ members : List (Text × Json),
    json ∈ objectsOfMembers G members → (server G json).isSome
  | [], h => absurd h List.not_mem_nil
  | m :: members, h => by
      rw [objectsOfMembers] at h
      rcases List.mem_append.mp h with h | h
      · exact server_of_mem_member m h
      · exact server_of_mem_members members h

theorem server_of_mem_member {json : Members} : ∀ member : Text × Json,
    json ∈ objectsOfMember G member → (server G json).isSome
  | (_, value), h => by
      rw [objectsOfMember] at h
      exact server_of_mem_objects value h

end

/-! ## What is collected -/

/-- A profile with its fallback, if it has one. -/
abbrev Item := Profile × Option Profile

/-- `json` is read as `item`. -/
def Reads (G : Gson) (E : Enumeration) (feature : Option Profile) (json : Members) (item : Item) :
    Prop :=
  tryParse G E feature json = .ok (some item)

/-- The entries that go into the map, in this order. -/
def entries (items : List Item) : FallbackMap := items.filterMap fun item => item.2.map (item.1, ·)

theorem foldlM_read {objs : List Members} (hobjs : ∀ json ∈ objs, (server G json).isSome)
    (st : State) :
    (∃ items, List.Forall₂ (Reads G E feature) objs items ∧ objs.foldlM (read G E feature) st =
      .ok ⟨st.profiles ++ items.map Prod.fst,
        (entries items).foldl (fun map e => Keyed.put Prod.fst e map) st.fallbackMap⟩) ∨
      ∃ json ∈ objs, ∃ f, tryParse G E feature json = .error f ∧
        objs.foldlM (read G E feature) st = .error f := by
  induction objs generalizing st with
  | nil =>
      refine Or.inl ⟨[], List.Forall₂.nil, ?_⟩
      rw [List.map_nil, List.append_nil]
      rfl
  | cons json objs ih =>
      obtain ⟨s, hs⟩ := Option.isSome_iff_exists.mp (hobjs json List.mem_cons_self)
      rcases @tryParse_some G E feature json s hs with ⟨plugin, fallback, -, -,
        hparse⟩ | ⟨f, hparse⟩
      · have hread : read G E feature st json =
            .ok (st.add (settingsOf json (commonOf feature json s plugin), fallback)) := by
          unfold read
          rw [hparse]
        rw [List.foldlM_cons, hread]
        rcases ih (fun j hj => hobjs j (List.mem_cons_of_mem json hj))
          (st.add (settingsOf json (commonOf feature json s plugin), fallback)) with
            ⟨items, hitems, hfold⟩ | ⟨j, hj, f, hf, hfold⟩
        · refine Or.inl ⟨(settingsOf json (commonOf feature json s plugin), fallback) :: items,
            List.Forall₂.cons hparse hitems, hfold.trans ?_⟩
          cases fallback with
          | none => simp [State.add, entries]
          | some f => simp [State.add, entries]
        · exact Or.inr ⟨j, List.mem_cons_of_mem json hj, f, hf, hfold⟩
      · refine Or.inr ⟨json, List.mem_cons_self, f, hparse, ?_⟩
        have hread : read G E feature st json = .error f := by
          unfold read
          rw [hparse]
        rw [List.foldlM_cons, hread]
        rfl

/-- What `process` has collected, or why it has thrown. -/
theorem process_cases (G : Gson) (E : Enumeration) (feature : Option Profile) (doc : Json) :
    (∃ items, List.Forall₂ (Reads G E feature) (objects G doc) items ∧
      process G E feature {} doc = .ok ⟨items.map Prod.fst,
        Keyed.putAll Prod.fst (entries items)⟩) ∨
      ∃ json ∈ objects G doc, ∃ f, tryParse G E feature json = .error f ∧
        process G E feature {} doc = .error f := by
  rw [process_eq]
  exact foldlM_read (fun json hjson => server_of_mem_objects doc hjson) {}

/-- The four values of a profile. -/
def serverOf (p : Profile) : Server := ⟨p.host, p.remotePort, p.password, p.method⟩

/-- The four values of the member `udp_fallback`. -/
def fallbackServer (G : Gson) (json : Members) : Option Server :=
  (optObject json "udp_fallback").bind (server G)

theorem server_some {json : Members} {s : Server} (h : server G json = some s) :
    s.host ≠ [] ∧ 0 < s.remotePort := by
  unfold server at h
  simp only [bind, Option.bind_eq_some_iff, Option.some.injEq] at h
  obtain ⟨host, hhost, port, hport, password, -, method, -, rfl⟩ := h
  obtain ⟨-, hne⟩ := Option.filter_eq_some_iff.mp hhost
  obtain ⟨-, hpos⟩ := Option.filter_eq_some_iff.mp hport
  refine ⟨fun hnil => ?_, of_decide_eq_true hpos⟩
  rw [show host = [] from hnil] at hne
  cases hne

theorem blank_id (feature : Option Profile) :
    (Profile.blank feature).id = 0 ∧ (Profile.blank feature).udpFallback = none := by
  cases feature with
  | none => exact ⟨rfl, rfl⟩
  | some f => exact ⟨rfl, rfl⟩

theorem settingsOf_spec (json : Members) (p : Profile) :
    (settingsOf json p).id = p.id ∧ (settingsOf json p).udpFallback = p.udpFallback ∧
      serverOf (settingsOf json p) = serverOf p ∧ (settingsOf json p).plugin = p.plugin := by
  unfold settingsOf
  dsimp only
  split
  · exact ⟨rfl, rfl, rfl, rfl⟩
  · exact ⟨rfl, rfl, rfl, rfl⟩

/-- The fallback of an object, as it is read. -/
theorem fallbackOf_ok {json : Members} {fallback : Option Profile}
    (h : fallbackOf G E feature json = .ok fallback) :
    fallbackServer G json = fallback.map serverOf ∧ ∀ f ∈ fallback, ∃ member plugin,
      optObject json "udp_fallback" = some member ∧ pluginOf E member = .ok plugin ∧
        f.plugin = plugin := by
  unfold fallbackOf at h
  unfold fallbackServer
  split at h
  · next hnone =>
      cases h
      rw [hnone]
      exact ⟨rfl, fun f hf => nomatch hf⟩
  · next member hmember =>
      rw [hmember]
      unfold tryParseFallback at h
      split at h
      · next hserver =>
          cases h
          exact ⟨hserver, fun f hf => nomatch hf⟩
      · next s hserver =>
          cases hplugin : pluginOf E member with
          | error f =>
              rw [hplugin] at h
              cases h
          | ok plugin =>
              rw [hplugin] at h
              cases h
              refine ⟨hserver, fun f hf => ⟨member, plugin, rfl, hplugin, ?_⟩⟩
              cases hf
              rfl

/-- What is known of an item. -/
structure ItemSpec (G : Gson) (E : Enumeration) (json : Members) (item : Item) : Prop where
  id : item.1.id = 0
  udpFallback : item.1.udpFallback = none
  server : server G json = some (serverOf item.1)
  plugin : pluginOf E json = .ok item.1.plugin
  fallback : fallbackServer G json = item.2.map serverOf
  fallbackPlugin : ∀ f ∈ item.2, ∃ member plugin,
    optObject json "udp_fallback" = some member ∧ pluginOf E member = .ok plugin ∧ f.plugin = plugin

theorem Reads.spec {json : Members} {item : Item} (h : Reads G E feature json item) :
    ItemSpec G E json item := by
  unfold Reads at h
  cases hserver : JsonParser.server G json with
  | none =>
      rw [tryParse_none hserver] at h
      cases h
  | some s =>
      rcases @tryParse_some G E feature json s hserver with
        ⟨plugin, fallback, hplugin, hfallback, hparse⟩ | ⟨f, hparse⟩
      · rw [hparse] at h
        cases h
        obtain ⟨hid, hudp, hsame, hkeep⟩ := settingsOf_spec json (commonOf feature json s plugin)
        obtain ⟨hfb, hfbplugin⟩ := fallbackOf_ok hfallback
        refine ⟨hid.trans (blank_id feature).1, hudp.trans (blank_id feature).2, ?_, ?_, hfb,
          hfbplugin⟩
        · rw [hserver, hsame]
          rfl
        · rw [hplugin, hkeep]
          rfl
      · rw [hparse] at h
        cases h

/-- The map has the last fallback of each profile. -/
theorem mem_fallbackMap_iff {items : List Item} {p f : Profile} :
    (p, f) ∈ Keyed.putAll Prod.fst (entries items) ↔ ∃ before after,
      items = before ++ (p, some f) :: after ∧ ∀ item ∈ after, item.1 = p → item.2 = none := by
  have hkeys (l : List Item) : p ∉ (entries l).map Prod.fst ↔
      ∀ item ∈ l, item.1 = p → item.2 = none := by
    constructor
    · intro h item hitem hp
      by_contra hsome
      obtain ⟨g, hg⟩ := Option.ne_none_iff_exists'.mp hsome
      refine h (List.mem_map.mpr ⟨(item.1, g), List.mem_filterMap.mpr ⟨item, hitem, ?_⟩, hp⟩)
      rw [hg]
      rfl
    · intro h hmem
      obtain ⟨e, he, hp⟩ := List.mem_map.mp hmem
      obtain ⟨item, hitem, heq⟩ := List.mem_filterMap.mp he
      obtain ⟨g, hg, rfl⟩ := Option.map_eq_some_iff.mp heq
      rw [h item hitem hp] at hg
      cases hg
  rw [Keyed.mem_putAll, Keyed.associateBy_eq_some_iff]
  constructor
  · rintro ⟨before, after, hsplit, -, hlast⟩
    obtain ⟨l1, l2, rfl, hl1, hl2⟩ := List.filterMap_eq_append_iff.mp hsplit
    obtain ⟨l3, item, l4, rfl, hnone, hitem, hl4⟩ := List.filterMap_eq_cons_iff.mp hl2
    obtain ⟨g, hg, heq⟩ := Option.map_eq_some_iff.mp hitem
    obtain ⟨p', fb⟩ := item
    cases heq
    refine ⟨l1 ++ l3, l4, ?_, ?_⟩
    · rw [List.append_assoc]
      have hfb : fb = some f := hg
      rw [hfb]
    · rw [← hl4] at hlast
      exact (hkeys l4).mp hlast
  · rintro ⟨before, after, rfl, hlast⟩
    refine ⟨entries before, entries after, ?_, rfl, (hkeys after).mpr hlast⟩
    unfold entries
    rw [List.filterMap_append, List.filterMap_cons]
    rfl

end Objects

end CypherConnect.JsonParser
