/-
  Synchronisations that follow one another, and whether a server keeps one row.

  One run never merges rows: it keeps every row of a key it knows and adds one row for every feed
  entry of a key it does not know. So a key is on one row only as long as no feed brings a new key
  twice.

  * `Synced.nodup_iff`: one run from a table with unique keys.
  * `runs_keys_nodup_iff`: the same for whole sequences of runs from the empty table; the tables are
    free of duplicates exactly when a key that a feed repeats was in the feed before it.
-/
import CypherConnect.Lib.Machine
import CypherConnect.Sync.SyncProfiles

namespace CypherConnect.Sync

open Machine

/-- One synchronisation that succeeds. -/
def syncStep (P : Platform) (s : Storage) (text : Text) : Option Storage :=
  (syncProfiles P s text).toOption

/-- No two rows have the same `(host, remotePort)`. -/
def KeysUnique (s : Storage) : Prop := (s.table.rows.map key).Nodup

/-- A key that occurs more than once in a feed is one of `known`, the keys of the feed before. -/
def RepeatsKnown (P : Platform) : List (Text × Int) → List Text → Prop
  | _, [] => True
  | known, text :: texts =>
      (∀ k, 1 < ((feed P text).map key).count k → k ∈ known) ∧
        RepeatsKnown P ((feed P text).map key) texts

theorem syncStep_some {P : Platform} {s s' : Storage} {text : Text}
    (h : syncStep P s text = some s') : ∃ new, Synced (feed P text) s s' new := by
  unfold syncStep at h
  cases hs : syncProfiles P s text with
  | error f => rw [hs] at h; cases h
  | ok t =>
      rw [hs] at h
      cases h
      exact (syncWith_ok hs).2

/-! ## One run -/

theorem surviving_keys_nodup {rows : List Profile} (h : (rows.map key).Nodup)
    (remote : List Profile) : ((surviving rows remote).map key).Nodup :=
  h.sublist (List.filter_sublist.map _)

/-- From unique keys a run ends in unique keys exactly if the feed repeats no new key. -/
theorem Synced.nodup_iff {remote : List Profile} {s s' : Storage} {new : List Profile}
    (h : Synced remote s s' new) (hs : KeysUnique s) :
    KeysUnique s' ↔ ∀ k, 1 < (remote.map key).count k → k ∈ s.table.rows.map key := by
  have hdisj : ∀ k ∈ (surviving s.table.rows remote).map key,
      ∀ k' ∈ (toCreate s.table.rows remote).map key, k ≠ k' := by
    intro k hk k' hk'
    obtain ⟨p, hp, rfl⟩ := List.mem_map.mp hk
    obtain ⟨q, hq, rfl⟩ := List.mem_map.mp hk'
    exact fun he => (mem_toCreate.mp hq).2 (he ▸ List.mem_map_of_mem (mem_surviving.mp hp).1)
  unfold KeysUnique
  rw [h.map_key, List.nodup_append]
  constructor
  · rintro ⟨_, hnd, _⟩ k hk
    by_contra hmem
    have hle := List.nodup_iff_count_le_one.mp hnd k
    rw [count_toCreate, if_neg hmem] at hle
    omega
  · intro hrep
    refine ⟨surviving_keys_nodup hs remote, ?_, hdisj⟩
    refine List.nodup_iff_count_le_one.mpr fun k => ?_
    rw [count_toCreate]
    split
    · exact Nat.zero_le 1
    · next hmem =>
        by_contra hgt
        exact hmem (hrep k (by omega))

/-! ## Many runs -/

/-- The statement for runs from any table with unique keys, by induction on the feeds: the table
after a run has the keys of its feed, which are the known ones for the next. -/
theorem keysUnique_along_iff (P : Platform) {texts : List Text} {s t : Storage}
    {known : List (Text × Int)} (hs : KeysUnique s)
    (hknown : ∀ k, k ∈ s.table.rows.map key ↔ k ∈ known)
    (hrun : run (syncStep P) s texts = some t) :
    (∀ before after u, texts = before ++ after → run (syncStep P) s before = some u →
      KeysUnique u) ↔
      RepeatsKnown P known texts := by
  induction texts generalizing s known with
  | nil =>
      refine ⟨fun _ => trivial, fun _ before after u he hu => ?_⟩
      obtain ⟨rfl, _⟩ := List.append_eq_nil_iff.mp he.symm
      cases hu
      exact hs
  | cons text texts ih =>
      obtain ⟨s1, hstep, hrest⟩ := run_cons_some hrun
      obtain ⟨new, hsync⟩ := syncStep_some hstep
      have hone : KeysUnique s1 ↔ ∀ k, 1 < ((feed P text).map key).count k → k ∈ known := by
        rw [hsync.nodup_iff hs]
        exact forall_congr' fun k => imp_congr_right fun _ => hknown k
      constructor
      · intro hall
        have hs1 : KeysUnique s1 :=
          hall [text] texts s1 rfl (by rw [run_cons_of_step hstep, run_nil])
        refine ⟨hone.mp hs1, (ih hs1 hsync.mem_key hrest).mp ?_⟩
        intro before after u he hu
        refine hall (text :: before) after u (by rw [he]; rfl) ?_
        rw [run_cons_of_step hstep]
        exact hu
      · rintro ⟨hfirst, htail⟩ before after u he hu
        have hs1 := hone.mpr hfirst
        cases before with
        | nil => cases hu; exact hs
        | cons x before =>
            obtain ⟨rfl, he'⟩ := List.cons.inj he
            rw [run_cons_of_step hstep] at hu
            exact (ih hs1 hsync.mem_key hrest).mpr htail before after u he' hu

/-- Along successful runs from the empty table, every table has at most one row per key exactly if
every key that a feed repeats was in the feed before it. -/
theorem runs_keys_nodup_iff (P : Platform) (texts : List Text) (t : Storage)
    (hrun : run (syncStep P) Storage.empty texts = some t) :
    (∀ before after u, texts = before ++ after →
        run (syncStep P) Storage.empty before = some u → KeysUnique u) ↔
      RepeatsKnown P [] texts :=
  keysUnique_along_iff P List.nodup_nil (fun _ => Iff.rfl) hrun

/-- One server, listed under two names. -/
def sameServerTwice : Text := "ss://YTpi@h:1#x ss://YTpi@h:1#y".toList

/-- A server that is known may be repeated: the second feed adds no row. -/
theorem runs_keys_nodup_known_server :
    ∃ t, run (syncStep aosp) Storage.empty [oneLink, sameServerTwice] = some t ∧
      ∀ before after u, [oneLink, sameServerTwice] = before ++ after →
        run (syncStep aosp) Storage.empty before = some u → KeysUnique u := by
  have hsome : (run (syncStep aosp) Storage.empty [oneLink, sameServerTwice]).isSome := by
    decide +kernel
  obtain ⟨t, ht⟩ := Option.isSome_iff_exists.mp hsome
  have hrep : RepeatsKnown aosp [] [oneLink, sameServerTwice] := by
    have hfirst : ((feed aosp oneLink).map key).Nodup := by decide +kernel
    have hsame : ∀ k ∈ (feed aosp sameServerTwice).map key, k ∈ (feed aosp oneLink).map key := by
      decide +kernel
    refine ⟨fun k hk => ?_, fun k hk => hsame k (List.count_pos_iff.mp (by omega)), trivial⟩
    have := List.nodup_iff_count_le_one.mp hfirst k
    omega
  exact ⟨t, ht, (runs_keys_nodup_iff aosp _ t ht).mpr hrep⟩

/-- The first feed that lists a server twice gives it two rows. -/
theorem syncProfiles_duplicates_server :
    ∃ t, run (syncStep aosp) Storage.empty [sameServerTwice] = some t ∧ ¬ KeysUnique t := by
  have hkeys : (run (syncStep aosp) Storage.empty [sameServerTwice]).map
      (fun t => t.table.rows.map key) =
        some [("h".toList, 1), ("h".toList, 1)] := by
    decide +kernel
  obtain ⟨t, ht, hrows⟩ := Option.map_eq_some_iff.mp hkeys
  refine ⟨t, ht, ?_⟩
  unfold KeysUnique
  rw [hrows]
  decide

end CypherConnect.Sync
