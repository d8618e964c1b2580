/-
  `ProfileManager.createProfilesFromJson`: profiles out of several JSON streams.

  Each stream goes through `parseJson` on its own, and an exception of one does not end the loop.
  With `replace` the table is cleared before the first profile is created, by a value that is
  evaluated once for all the streams, and a profile takes over the traffic of an old one with the
  same address.

  * `importStream_failed`: a stream that cannot be read changes nothing.
  * `keeps_importing`: what every call of the callback keeps, from the first one on.
  * `importAll_spec`: the state after all the streams.
  * `replace_import`: the table is emptied exactly if a stream that can be read has a profile.
-/
import CypherConnect.Core.DirectBoot
import CypherConnect.Database.JsonImport

namespace CypherConnect.ProfileManager

open JsonParser Keyed Plugin ProfileTable

/-! ## The function -/

/-- What a `JsonStreamParser` makes of a stream: the values that it yields, and whether it throws
behind them. -/
structure JsonStream where
  values : List Json
  malformed : Bool := false

/-- What ends the import of one stream. -/
inductive StreamFailure where
  /-- `JsonParseException`. -/
  | malformed
  /-- `single()` of an empty sequence. -/
  | noSuchElement
  /-- `single()` of a sequence with more than one element. -/
  | illegalArgument
  | parseJson (f : ImportFailure)
  deriving DecidableEq, Repr

/-- `asSequence().single()`. -/
def JsonStream.single (json : JsonStream) : Except StreamFailure Json :=
  match json.values with
  | [] => .error (if json.malformed then .malformed else .noSuchElement)
  | [value] => if json.malformed then .error .malformed else .ok value
  | _ :: _ :: _ => .error .illegalArgument

/-- The storage, and whether `lazyClear` has been evaluated. -/
structure Importing where
  storage : Storage
  cleared : Bool := false

/-- `lazyClear.value`. -/
def lazyClear (s : Importing) : Except Failure Storage :=
  if s.cleared then .ok s.storage else clear s.storage

/-- `profiles?.get(it.formattedAddress)?.apply { it.tx = tx; it.rx = rx }`. -/
def copyStats (profiles : List Profile) (it : Profile) : Profile :=
  match associateBy Profile.formattedAddress profiles it.formattedAddress with
  | some old => { it with tx := old.tx, rx := old.rx }
  | none => it

/-- A call on the storage, with `lazyClear` as given. -/
def within {α : Type} (cleared : Bool) (call : Except Failure α × Storage) :
    Except Failure α × Importing :=
  (call.1, ⟨call.2, cleared⟩)

/-- The callback, and `ProfileManager`. -/
def importing (replace : Bool) (profiles : List Profile) : Callbacks Importing where
  create s it :=
    if replace then
      match lazyClear s with
      | .error f => (.error f, s)
      | .ok t => within true (storage.create t (copyStats profiles it))
    else within s.cleared (storage.create s.storage it)
  getAllProfiles s := getAllProfiles s.storage
  updateProfile s p := within s.cleared (storage.updateProfile s.storage p)

/-- `forEachTry`: the exceptions, of which the first is thrown with the others suppressed. -/
def forEachTry {α σ ε : Type} (action : σ → α → Except ε Unit × σ) : List α → σ → List ε × σ
  | [], s => ([], s)
  | element :: rest, s =>
      match action s element with
      | (.ok (), s) => forEachTry action rest s
      | (.error e, s) => (e :: (forEachTry action rest s).1, (forEachTry action rest s).2)

/-- The body of the loop. -/
def importStream (G : Gson) (E : Enumeration) (feature : Option Profile) (replace : Bool)
    (profiles : List Profile) (s : Importing) (json : JsonStream) :
    Except StreamFailure Unit × Importing :=
  match json.single with
  | .error e => (.error e, s)
  | .ok value =>
      match parseJson (importing replace profiles) G E feature value s with
      | (.error f, s) => (.error (.parseJson f), s)
      | (.ok _, s) => (.ok (), s)

/-- `profiles?.values?.singleOrNull { it.id == DataStore.profileId }`. -/
def selectedAmong (profiles : List Profile) (profileId : Int) : Option Profile :=
  match (putAll Profile.formattedAddress profiles).filter fun p => p.id == profileId with
  | [p] => some p
  | _ => none

/-- What `createProfilesFromJson` throws. -/
inductive JsonsFailure where
  | storage (f : Failure)
  | streams (first : StreamFailure) (suppressed : List StreamFailure)

/-- `createProfilesFromJson`. -/
def createProfilesFromJson (G : Gson) (E : Enumeration) (jsons : List JsonStream) (replace : Bool)
    (s : Storage) : Except JsonsFailure Unit × Storage :=
  match if replace then getAllProfiles s else .ok [] with
  | .error f => (.error (.storage f), s)
  | .ok profiles =>
      match if replace then .ok (selectedAmong profiles s.profileId)
          else (Core.currentProfile s).map fun current => current.map ExpandedProfile.main with
      | .error f => (.error (.storage f), s)
      | .ok feature =>
          match forEachTry (importStream G E feature replace profiles) jsons ⟨s, false⟩ with
          | ([], t) => (.ok (), t.storage)
          | (e :: es, t) => (.error (.streams e es), t.storage)

/-! ## One stream -/

section Stream

variable {G : Gson} {E : Enumeration} {feature : Option Profile} {replace : Bool}
  {profiles : List Profile} {s s' : Importing} {json : JsonStream}

/-- The profiles that are recognised in a stream, or why there are none to be had. -/
def JsonStream.recognised (G : Gson) (E : Enumeration) (feature : Option Profile)
    (json : JsonStream) :
    Except StreamFailure (List Profile) :=
  match json.single with
  | .error e => .error e
  | .ok value =>
      match process G E feature {} value with
      | .error f => .error (.parseJson f)
      | .ok st => .ok st.profiles

theorem JsonStream.recognised_ok {ps : List Profile} (h : json.recognised G E feature = .ok ps) :
    ∃ value st, json.single = .ok value ∧ process G E feature {} value = .ok st ∧
      st.profiles = ps := by
  unfold JsonStream.recognised at h
  cases hsingle : json.single with
  | error e =>
      rw [hsingle] at h
      cases h
  | ok value =>
      rw [hsingle] at h
      dsimp only at h
      cases hprocess : process G E feature {} value with
      | error f =>
          rw [hprocess] at h
          cases h
      | ok st =>
          rw [hprocess] at h
          cases h
          exact ⟨value, st, rfl, hprocess, rfl⟩

/-- A stream that cannot be read changes nothing. -/
theorem importStream_failed {e : StreamFailure} (h : json.recognised G E feature = .error e) :
    importStream G E feature replace profiles s json = (.error e, s) := by
  unfold JsonStream.recognised at h
  unfold importStream
  cases hsingle : json.single with
  | error e' =>
      rw [hsingle] at h
      cases h
      rfl
  | ok value =>
      rw [hsingle] at h
      dsimp only at h ⊢
      unfold parseJson
      cases hprocess : process G E feature {} value with
      | error f =>
          rw [hprocess] at h
          cases h
          rfl
      | ok st =>
          rw [hprocess] at h
          cases h

/-- Every key of the map is a profile of the list. -/
theorem key_mem_profiles {value : Json} {st : State} (h : process G E feature {} value = .ok st)
    {e : Profile × Profile} (he : e ∈ st.fallbackMap) : e.1 ∈ st.profiles := by
  rcases process_cases G E feature value with ⟨items, -, hprocess⟩ | ⟨_, -, f, -, hprocess⟩
  · rw [h] at hprocess
    cases hprocess
    obtain ⟨before, after, rfl, -⟩ := mem_fallbackMap_iff.mp he
    exact List.mem_map.mpr ⟨_, List.mem_append_right _ List.mem_cons_self, rfl⟩
  · rw [h] at hprocess
    cases hprocess

/-- A stream without profiles changes nothing. -/
theorem importStream_empty (ho : s.storage.openable = true)
    (h : json.recognised G E feature = .ok []) :
    importStream G E feature replace profiles s json = (.ok (), s) := by
  obtain ⟨value, st, hsingle, hprocess, hempty⟩ := JsonStream.recognised_ok h
  have hmap : st.fallbackMap = [] := by
    apply List.eq_nil_iff_forall_not_mem.mpr
    intro e he
    have hkey := key_mem_profiles hprocess he
    rw [hempty] at hkey
    cases hkey
  have hall : (importing replace profiles).getAllProfiles s = .ok s.storage.table.rows := if_pos ho
  have hparse : parseJson (importing replace profiles) G E feature value s = (.ok [], s) := by
    unfold parseJson
    rw [hprocess]
    dsimp only
    rw [hempty, hmap, createAll]
    dsimp only
    unfold finalize
    rw [hall]
    rfl
  unfold importStream
  rw [hsingle]
  dsimp only
  rw [hparse]

end Stream

/-! ## What the callback keeps -/

/-- The row has the traffic of the last old row with its address, if there is one. -/
def CarriesTraffic (old : List Profile) (row : Profile) : Prop :=
  ∀ before p after, old = before ++ p :: after → p.formattedAddress = row.formattedAddress →
    (∀ q ∈ after, q.formattedAddress ≠ row.formattedAddress) → row.tx = p.tx ∧ row.rx = p.rx

/-- A row that the import has created. -/
structure NewRow (old : ProfileTable) (row : Profile) : Prop where
  fresh : old.seq < row.id
  traffic : CarriesTraffic old.rows row

/-- The state of an import that replaces `old`. -/
structure Replaces (old : Storage) (s : Importing) : Prop where
  openable : s.storage.openable = true
  seq : old.table.seq ≤ s.storage.table.seq
  kept : s.cleared = false → s.storage = old
  rows : s.cleared = true → ∀ row ∈ s.storage.table.rows, NewRow old.table row

/-- `q` was created, and only its fallback may have changed in the table. -/
structure Stored (old : Storage) (s : Importing) (q : Profile) : Prop where
  cleared : s.cleared = true
  new : NewRow old.table q
  row : ∃ fallback, stored { q with udpFallback := fallback } ∈ s.storage.table.rows

/-- `q` is `p` with an id, a place and traffic. -/
def ImportedAs (p q : Profile) : Prop :=
  ∃ id order tx rx, q = { p with id := id, userOrder := order, tx := tx, rx := rx }

section Callback

variable {old : Storage} {s s' : Importing} {p q : Profile}

theorem copyStats_importedAs (rows : List Profile) (p : Profile) :
    ∃ tx rx, copyStats rows p = { p with tx := tx, rx := rx } := by
  unfold copyStats
  split
  · exact ⟨_, _, rfl⟩
  · exact ⟨p.tx, p.rx, rfl⟩

theorem copyStats_carriesTraffic (rows : List Profile) (p : Profile) :
    CarriesTraffic rows (copyStats rows p) := by
  have haddress : (copyStats rows p).formattedAddress = p.formattedAddress := by
    obtain ⟨tx, rx, heq⟩ := copyStats_importedAs rows p
    rw [heq]
    rfl
  intro before q after hsplit hq hafter
  rw [haddress] at hq hafter
  have hlast : associateBy Profile.formattedAddress rows p.formattedAddress = some q := by
    rw [associateBy_eq_some_iff]
    refine ⟨before, after, hsplit, hq, ?_⟩
    intro hmem
    obtain ⟨x, hx, heq⟩ := List.mem_map.mp hmem
    exact hafter x hx heq
  unfold copyStats
  rw [hlast]
  exact ⟨rfl, rfl⟩

/-- The state that `lazyClear` leaves. -/
theorem lazyClear_spec (hs : Replaces old s) : ∃ t, lazyClear s = .ok t ∧ t.openable = true ∧
    old.table.seq ≤ t.table.seq ∧ (∀ row ∈ t.table.rows, NewRow old.table row) ∧
    (s.cleared = true → t = s.storage) := by
  unfold lazyClear
  cases hcleared : s.cleared with
  | true => exact ⟨s.storage, rfl, hs.openable, hs.seq, hs.rows hcleared, fun _ => rfl⟩
  | false =>
      unfold clear
      rw [if_pos hs.openable]
      exact ⟨_, rfl, hs.openable, hs.seq, List.forall_mem_nil _, fun h => nomatch h⟩

/-- Storing a created profile with another fallback keeps what is stored of the others. -/
theorem mem_update {t : ProfileTable} {id : Option Int} {fallback fallback' : Option Int}
    (hp : stored { p with udpFallback := fallback } ∈ t.rows)
    (hq : stored { q with udpFallback := fallback' } ∈ t.rows) :
    ∃ fallback'', stored { q with udpFallback := fallback'' } ∈
      (t.update { p with udpFallback := id }).1.rows := by
  by_cases hid : q.id = p.id
  · have hsame := List.inj_on_of_nodup_map t.ids_nodup hp hq hid.symm
    have hnew : stored { q with udpFallback := id } = stored { p with udpFallback := id } :=
      congrArg (fun x : Profile => { x with udpFallback := id }) hsame.symm
    refine ⟨id, List.mem_map.mpr ⟨_, hp, ?_⟩⟩
    rw [hnew]
    exact if_pos rfl
  · exact ⟨fallback', List.mem_map.mpr ⟨_, hq, if_neg hid⟩⟩

/-- A new row stays one when its fallback is set. -/
theorem NewRow.stored {t : ProfileTable} (h : NewRow t q) (fallback : Option Int) :
    NewRow t (ProfileTable.stored { q with udpFallback := fallback }) :=
  ⟨h.fresh, h.traffic⟩

theorem importing_create (hs : Replaces old s) {r : Except Failure Profile}
    (hcall : (importing true old.table.rows).create s p = (r, s')) :
    After (Replaces old) (Stored old) (· = .databaseFull) s s' (r.mapError .storage) ∧
      ∀ q, r = .ok q → ImportedAs p q ∧ Stored old s' q := by
  obtain ⟨t, ht, ho, hseq, hrows, hsame⟩ := lazyClear_spec hs
  have hwithin : (importing true old.table.rows).create s p =
      within true (storage.create t (copyStats old.table.rows p)) := by
    simp [importing, ht]
  rw [hwithin] at hcall
  rcases storage_create ho (copyStats old.table.rows p) with
    ⟨-, q, t', hcreate, hset, hq, hrows', hseq'⟩ | ⟨-, hfull⟩
  · rw [hcreate] at hcall
    cases hcall
    have hnew : NewRow old.table q := by
      rw [hq]
      exact ⟨Int.lt_add_one_of_le hseq, copyStats_carriesTraffic old.table.rows p⟩
    have hall : ∀ row ∈ t'.table.rows, NewRow old.table row := by
      rw [hrows']
      exact List.forall_mem_append.mpr
        ⟨hrows, List.forall_mem_singleton.mpr (hnew.stored q.udpFallback)⟩
    refine ⟨After.of_storage ⟨hset.open ho, ?_, (fun h => nomatch h), fun _ => hall⟩ ?_
      (fun g hg => nomatch hg), fun q' hq' => ?_⟩
    · show old.table.seq ≤ t'.table.seq
      omega
    · intro x hx
      obtain ⟨fallback, hrow⟩ := hx.row
      rw [← hsame hx.cleared] at hrow
      refine ⟨rfl, hx.new, fallback, ?_⟩
      show _ ∈ t'.table.rows
      rw [hrows']
      exact List.mem_append_left _ hrow
    · cases hq'
      obtain ⟨tx, rx, hstats⟩ := copyStats_importedAs old.table.rows p
      refine ⟨⟨_, _, tx, rx, by rw [hq, hstats]⟩, rfl, hnew, q.udpFallback, ?_⟩
      show _ ∈ t'.table.rows
      rw [hrows']
      exact List.mem_append_right _ List.mem_cons_self
  · rw [hfull] at hcall
    cases hcall
    refine ⟨After.of_storage ⟨ho, hseq, (fun h => nomatch h), fun _ => hrows⟩ (fun x hx => ?_)
      (fun g hg => ?_), fun q hq => nomatch hq⟩
    · obtain ⟨fallback, hrow⟩ := hx.row
      rw [← hsame hx.cleared] at hrow
      exact ⟨rfl, hx.new, fallback, hrow⟩
    · cases hg
      rfl

theorem importing_update (hs : Replaces old s) (hq : Stored old s q) {id : Option Int}
    {r : Except Failure Unit}
    (hcall : (importing true old.table.rows).updateProfile s { q with udpFallback := id } =
    (r, s')) :
    After (Replaces old) (Stored old) (· = .databaseFull) s s' (r.mapError .storage) := by
  obtain ⟨fallback, hrow⟩ := hq.row
  have hmem : ({ q with udpFallback := id } : Profile).id ∈ s.storage.table.rows.map Profile.id :=
    List.mem_map.mpr ⟨_, hrow, rfl⟩
  obtain ⟨t, ht, hset, -⟩ := storage_update hs.openable hmem
  have htable := storage_update_ok ht
  have hwithin : within s.cleared (storage.updateProfile s.storage { q with udpFallback := id }) =
      (r, s') := hcall
  rw [ht] at hwithin
  cases hwithin
  refine After.of_storage ⟨hset.open hs.openable, ?_, ?_, ?_⟩ ?_ (fun g hg => nomatch hg)
  · show old.table.seq ≤ t.table.seq
    rw [htable]
    exact hs.seq
  · intro hfalse
    exact absurd (hq.cleared.symm.trans hfalse) (by decide)
  · intro hcleared row hin
    have hin : row ∈ (s.storage.table.update { q with udpFallback := id }).1.rows := htable ▸ hin
    rcases mem_replaceBy hin with rfl | ⟨hin, -⟩
    · exact hq.new.stored id
    · exact hs.rows hcleared row hin
  · intro x hx
    obtain ⟨fallback', hrow'⟩ := hx.row
    obtain ⟨fallback'', hrow''⟩ := mem_update hrow hrow'
    refine ⟨hx.cleared, hx.new, fallback'', ?_⟩
    show _ ∈ t.table.rows
    rw [htable]
    exact hrow''

/-- What every call keeps. The only failure is that there is no id left. -/
theorem keeps_importing (old : Storage) : Keeps (importing true old.table.rows) (fun _ => True)
    ImportedAs (Replaces old) (Stored old) (· = .databaseFull) where
  create _ hs hcall := importing_create hs hcall
  getAllProfiles hs hcall := by
    have hall : getAllProfiles _ = .ok _ := if_pos hs.openable
    rw [show (importing true old.table.rows).getAllProfiles _ = getAllProfiles _ from rfl,
      hall] at hcall
    cases hcall
  update hs hq hcall := importing_update hs hq hcall

end Callback

/-! ## All the streams -/

/-- The exception of a stream that cannot be read. -/
def JsonStream.failure (G : Gson) (E : Enumeration) (feature : Option Profile) (json : JsonStream) :
    Option StreamFailure :=
  match json.recognised G E feature with
  | .error e => some e
  | .ok _ => none

/-- The stream can be read. -/
def JsonStream.readable (G : Gson) (E : Enumeration) (feature : Option Profile)
    (json : JsonStream) :
    Bool :=
  (json.failure G E feature).isNone

/-- The stream can be read and has a profile. -/
def JsonStream.Profiled (G : Gson) (E : Enumeration) (feature : Option Profile)
    (json : JsonStream) :
    Prop :=
  ∃ ps, json.recognised G E feature = .ok ps ∧ ps ≠ []

/-- The exception of an insertion for which there is no id left. -/
def noIdLeft : StreamFailure := .parseJson (.storage .databaseFull)

section Streams

variable {G : Gson} {E : Enumeration} {feature : Option Profile} {old : Storage} {s s' : Importing}
  {json : JsonStream} {jsons : List JsonStream}

/-- A stream that can be read. -/
theorem importStream_read (hs : Replaces old s) {ps : List Profile}
    (h : json.recognised G E feature = .ok ps) {r : Except StreamFailure Unit}
    (hcall : importStream G E feature true old.table.rows s json = (r, s')) :
    Replaces old s' ∧ (∀ q, Stored old s q → Stored old s' q) ∧
      ((r = .ok () ∧ ∀ p ∈ ps, ∃ q, ImportedAs p q ∧ Stored old s' q) ∨ r = .error noIdLeft) := by
  obtain ⟨value, st, hsingle, hprocess, rfl⟩ := JsonStream.recognised_ok h
  unfold importStream at hcall
  rw [hsingle] at hcall
  dsimp only at hcall
  rcases hparse : parseJson (importing true old.table.rows) G E feature value s with ⟨r1, s1⟩
  obtain ⟨hafter, hcreated⟩ := (keeps_importing old).parseJson hprocess (fun _ _ => trivial)
    (fun e he => ⟨trivial, Or.inl (key_mem_profiles hprocess he)⟩) hs hparse
  rw [hparse] at hcall
  cases r1 with
  | error f =>
      cases hcall
      obtain ⟨g, rfl, rfl⟩ := hafter.failure f rfl
      exact ⟨hafter.state, hafter.valid, Or.inr rfl⟩
  | ok created =>
      cases hcall
      obtain ⟨hrel, hstored⟩ := hcreated created rfl
      refine ⟨hafter.state, hafter.valid, Or.inl ⟨rfl, fun p hp => ?_⟩⟩
      obtain ⟨q, hq, hpq⟩ := Related.exists_left hrel.flip hp
      exact ⟨q, hpq, hstored q hq⟩

/-- The state after all the streams. -/
structure ImportedAll (G : Gson) (E : Enumeration) (feature : Option Profile) (old : Storage)
    (jsons : List JsonStream) (s s' : Importing) (es : List StreamFailure) : Prop where
  state : Replaces old s'
  valid : ∀ q, Stored old s q → Stored old s' q
  failures : es = jsons.filterMap (JsonStream.failure G E feature)
  created : ∀ json ∈ jsons, ∀ ps, json.recognised G E feature = .ok ps →
    ∀ p ∈ ps, ∃ q, ImportedAs p q ∧ Stored old s' q
  cleared : s'.cleared = true → s.cleared = true ∨ ∃ json ∈ jsons, json.Profiled G E feature

/-- A first stream that cannot be read. -/
theorem ImportedAll.failed {e : StreamFailure} {es : List StreamFailure}
    (h : ImportedAll G E feature old jsons s s' es)
    (hread : json.recognised G E feature = .error e) :
    ImportedAll G E feature old (json :: jsons) s s' (e :: es) := by
  have hfailure : json.failure G E feature = some e := by
    unfold JsonStream.failure
    rw [hread]
  refine ⟨h.state, h.valid, ?_, ?_, fun hcleared => ?_⟩
  · rw [List.filterMap_cons_some hfailure, h.failures]
  · refine List.forall_mem_cons.mpr ⟨fun ps hps => ?_, h.created⟩
    rw [hread] at hps
    cases hps
  · exact (h.cleared hcleared).imp_right List.exists_mem_cons_of_exists

/-- A first stream that is imported. -/
theorem ImportedAll.read {s1 : Importing} {es : List StreamFailure} {ps : List Profile}
    (h : ImportedAll G E feature old jsons s1 s' es) (hread : json.recognised G E feature = .ok ps)
    (hvalid : ∀ q, Stored old s q → Stored old s1 q)
    (hcreated : ∀ p ∈ ps, ∃ q, ImportedAs p q ∧ Stored old s1 q) (hempty : ps = [] → s1 = s) :
    ImportedAll G E feature old (json :: jsons) s s' es := by
  have hfailure : json.failure G E feature = none := by
    unfold JsonStream.failure
    rw [hread]
  refine ⟨h.state, fun q hq => h.valid q (hvalid q hq), ?_, ?_, fun hcleared => ?_⟩
  · rw [List.filterMap_cons_none hfailure, h.failures]
  · refine List.forall_mem_cons.mpr ⟨fun ps' hps p hp => ?_, h.created⟩
    rw [hread] at hps
    cases hps
    obtain ⟨q, hpq, hq⟩ := hcreated p hp
    exact ⟨q, hpq, h.valid q hq⟩
  · by_cases hnone : ps = []
    · rw [hempty hnone] at h
      exact (h.cleared hcleared).imp_right List.exists_mem_cons_of_exists
    · exact Or.inr ⟨json, List.mem_cons_self, ps, hread, hnone⟩

/-- The induction is over the streams, with what is known of the profiles created so far. -/
theorem importAll_spec (hs : Replaces old s) {es : List StreamFailure}
    (hcall : forEachTry (importStream G E feature true old.table.rows) jsons s = (es, s'))
    (hwrites : noIdLeft ∉ es) : ImportedAll G E feature old jsons s s' es := by
  induction jsons generalizing s es with
  | nil =>
      cases hcall
      exact ⟨hs, fun _ h => h, rfl, List.forall_mem_nil _, Or.inl⟩
  | cons json jsons ih =>
      rw [forEachTry] at hcall
      cases hread : json.recognised G E feature with
      | error e =>
          rw [importStream_failed hread] at hcall
          cases hcall
          exact (ih hs rfl fun h => hwrites (List.mem_cons_of_mem _ h)).failed hread
      | ok ps =>
          rcases hstream : importStream G E feature true old.table.rows s json with ⟨r, s1⟩
          have hempty : ps = [] → s1 = s := by
            rintro rfl
            rw [importStream_empty hs.openable hread] at hstream
            cases hstream
            rfl
          obtain ⟨hs1, hvalid, ⟨rfl, hcreated⟩ | rfl⟩ := importStream_read hs hread hstream
          · rw [hstream] at hcall
            exact (ih hs1 hcall hwrites).read hread hvalid hcreated hempty
          · rw [hstream] at hcall
            cases hcall
            exact absurd List.mem_cons_self hwrites

/-- Streams that cannot be read may as well be left out. -/
theorem forEachTry_filter (replace : Bool) (profiles : List Profile) (jsons : List JsonStream)
    (s : Importing) :
    (forEachTry (importStream G E feature replace profiles)
        (jsons.filter (JsonStream.readable G E feature)) s).2 =
      (forEachTry (importStream G E feature replace profiles) jsons s).2 := by
  induction jsons generalizing s with
  | nil => rfl
  | cons json jsons ih =>
      cases hread : json.recognised G E feature with
      | error e =>
          have hreadable : ¬ json.readable G E feature = true := by
            simp [JsonStream.readable, JsonStream.failure, hread]
          rw [List.filter_cons_of_neg hreadable, ih, forEachTry, importStream_failed hread]
      | ok ps =>
          have hreadable : json.readable G E feature = true := by
            simp [JsonStream.readable, JsonStream.failure, hread]
          rw [List.filter_cons_of_pos hreadable, forEachTry, forEachTry]
          rcases importStream G E feature replace profiles s json with ⟨r, s1⟩
          cases r with
          | error e => exact ih s1
          | ok u => exact ih s1

end Streams

/-! ## The whole import -/

/-- The exceptions of the streams. -/
def thrown : Except JsonsFailure Unit → List StreamFailure
  | .error (.streams first suppressed) => first :: suppressed
  | _ => []

/-- The loop of an import that replaces: its exceptions, the storage it leaves, and whether the
table was cleared. -/
def replaceAll (G : Gson) (E : Enumeration) (jsons : List JsonStream) (s : Storage) :
    List StreamFailure × Importing :=
  forEachTry (importStream G E (selectedAmong s.table.rows s.profileId) true s.table.rows) jsons
    ⟨s, false⟩

theorem createProfilesFromJson_replace (G : Gson) (E : Enumeration) (jsons : List JsonStream)
    {s : Storage} (ho : s.openable = true) :
    thrown (createProfilesFromJson G E jsons true s).1 = (replaceAll G E jsons s).1 ∧
      (createProfilesFromJson G E jsons true s).2 = (replaceAll G E jsons s).2.storage := by
  have hall : getAllProfiles s = .ok s.table.rows := if_pos ho
  unfold createProfilesFromJson replaceAll
  simp only [if_true, hall]
  rcases forEachTry (importStream G E (selectedAmong s.table.rows s.profileId) true s.table.rows)
    jsons
    ⟨s, false⟩ with ⟨es, t⟩
  cases es with
  | nil => exact ⟨rfl, rfl⟩
  | cons e es => exact ⟨rfl, rfl⟩

/-- An import that replaces clears the table exactly if a stream that can be read has a profile.
Then every row is new and has the traffic of the last old row with its address; otherwise nothing is
changed. Streams that cannot be read are reported and change nothing, and the profiles of the others
are there. -/
theorem replace_import (G : Gson) (E : Enumeration) (jsons : List JsonStream) (s : Storage)
    (ho : s.openable = true)
    (hwrites : noIdLeft ∉ thrown (createProfilesFromJson G E jsons true s).1) :
    let feature := selectedAmong s.table.rows s.profileId
    let s' := (createProfilesFromJson G E jsons true s).2
    ((replaceAll G E jsons s).2.cleared = true ↔ ∃ json ∈ jsons, json.Profiled G E feature) ∧
    ((∃ json ∈ jsons, json.Profiled G E feature) → ∀ row ∈ s'.table.rows, NewRow s.table row) ∧
    ((¬ ∃ json ∈ jsons, json.Profiled G E feature) → s' = s) ∧
    thrown (createProfilesFromJson G E jsons true s).1 =
      jsons.filterMap (JsonStream.failure G E feature) ∧
    s' = (createProfilesFromJson G E (jsons.filter (JsonStream.readable G E feature)) true s).2 ∧
    ∀ json ∈ jsons, ∀ ps, json.recognised G E feature = .ok ps → ∀ p ∈ ps,
      ∃ q fallback, ImportedAs p q ∧ stored { q with udpFallback := fallback } ∈ s'.table.rows := by
  intro feature s'
  obtain ⟨hthrown, hs'⟩ := createProfilesFromJson_replace G E jsons ho
  have hfilter := (createProfilesFromJson_replace G E
    (jsons.filter (JsonStream.readable G E feature)) ho).2
  rw [hthrown] at hwrites
  have hstart : Replaces s ⟨s, false⟩ := ⟨ho, Int.le_refl _, (fun _ => rfl), fun h => nomatch h⟩
  have hall : ImportedAll G E feature s jsons ⟨s, false⟩ (replaceAll G E jsons s).2
      (replaceAll G E jsons s).1 := importAll_spec hstart rfl hwrites
  have hcleared : (replaceAll G E jsons s).2.cleared = true ↔
      ∃ json ∈ jsons, json.Profiled G E feature := by
    constructor
    · intro hcleared
      exact (hall.cleared hcleared).resolve_left Bool.false_ne_true
    · rintro ⟨json, hjson, ps, hread, hne⟩
      obtain ⟨p, rest, rfl⟩ := List.exists_cons_of_ne_nil hne
      obtain ⟨q, -, hq⟩ := hall.created json hjson _ hread p List.mem_cons_self
      exact hq.cleared
  refine ⟨hcleared, fun hprofiled => ?_, fun hnone => ?_, ?_, ?_, ?_⟩
  · show ∀ row ∈ (createProfilesFromJson G E jsons true s).2.table.rows, _
    rw [hs']
    exact hall.state.rows (hcleared.mpr hprofiled)
  · have hkept : (replaceAll G E jsons s).2.cleared = false := by
      rw [← Bool.not_eq_true]
      exact mt hcleared.mp hnone
    exact hs'.trans (hall.state.kept hkept)
  · rw [hthrown, hall.failures]
  · show (createProfilesFromJson G E jsons true s).2 = _
    rw [hs', hfilter]
    exact congrArg Importing.storage (forEachTry_filter true s.table.rows jsons ⟨s, false⟩).symm
  · intro json hjson ps hread p hp
    obtain ⟨q, hpq, hq⟩ := hall.created json hjson ps hread p hp
    obtain ⟨fallback, hrow⟩ := hq.row
    refine ⟨q, fallback, hpq, ?_⟩
    show _ ∈ (createProfilesFromJson G E jsons true s).2.table.rows
    rw [hs']
    exact hrow

/-- The table before the import: one profile with that address. -/
def sampleOld : Storage where
  table := ⟨[{ id := 1, host := "a".toList, remotePort := 1, tx := 100, rx := 7 }], 1,
    by decide, by decide⟩
  openable := true
  profileId := 1
  directBootAware := false
  deviceProfile := none

/-- A stream that is cut off, and one with the object. -/
def sampleStreams : List JsonStream := [⟨[], true⟩, ⟨[.object (portObject "1")], false⟩]

theorem replace_import_sample :
    (createProfilesFromJson plainGson .inserted sampleStreams true sampleOld).2.table.rows.length =
      1 ∧
      (∀ row ∈ (createProfilesFromJson plainGson .inserted sampleStreams true
        sampleOld).2.table.rows, NewRow sampleOld.table row) ∧
      thrown (createProfilesFromJson plainGson .inserted sampleStreams true sampleOld).1 =
        [.malformed] := by
  have hread : (JsonStream.recognised plainGson .inserted (selectedAmong sampleOld.table.rows 1)
      ⟨[.object (portObject "1")], false⟩).toOption.map List.length = some 1 := by
    decide +kernel
  have hwrites : noIdLeft ∉
      thrown (createProfilesFromJson plainGson .inserted sampleStreams true sampleOld).1 := by
    decide +kernel
  obtain ⟨-, hrows, -, hthrown, -, -⟩ :=
    replace_import plainGson .inserted sampleStreams sampleOld rfl hwrites
  refine ⟨by decide +kernel, hrows ⟨_, List.mem_cons_of_mem _ List.mem_cons_self, ?_⟩, ?_⟩
  · obtain ⟨ps, hps, hlength⟩ := Option.map_eq_some_iff.mp hread
    refine ⟨ps, ?_, fun hnil => ?_⟩
    · cases hrec : JsonStream.recognised plainGson .inserted (selectedAmong sampleOld.table.rows 1)
          ⟨[.object (portObject "1")], false⟩ with
      | error e =>
          rw [hrec] at hps
          cases hps
      | ok ps' =>
          rw [hrec] at hps
          cases hps
          exact hrec
    · rw [hnil] at hlength
      cases hlength
  · rw [hthrown]
    decide +kernel

end CypherConnect.ProfileManager
