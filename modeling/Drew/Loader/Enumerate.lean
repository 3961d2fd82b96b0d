import Drew.Loader.Failure

/-!
# Going through what a loader has

The lookups are used in a loop that goes on after the last id that was found. The numbers of the metadata of a
plugin and of the search paths are known beforehand.
-/

namespace Drew.Loader

variable {ldr ldr' l : DrewLoader}

/-! ## Entries of plugins that are loaded -/

/-- The name is there, and so are the metadata if there are any. -/
def Sound (p : Plugin) : Prop :=
  p.flags &&& FLAG_PLUGIN_OK = 0 ∨
    (∃ name, p.name.read = some name) ∧ 0 ≤ p.nmetadata ∧ (0 < p.nmetadata → ∃ md, p.metadata.read = some md)

def AllSound (ldr : DrewLoader) : Prop := ∀ p ∈ ldr.plugin, Sound p

theorem sound_loaded_entry (lib id : Int) (a : Answers) : Sound (loaded_entry lib id a) := by
  refine Or.inr ⟨⟨_, rfl⟩, ?_, ?_⟩
  · exact Int.ediv_nonneg (by split <;> omega) (by decide)
  · intro hpos
    have hne : (if a.mdsize < 0 then 0 else a.mdsize) ≠ 0 := by
      intro h0
      have hzero : (loaded_entry lib id a).nmetadata = 0 := by
        unfold loaded_entry
        dsimp only
        rw [h0, Int.zero_ediv]
      omega
    refine ⟨a.metadata.2, ?_⟩
    unfold loaded_entry
    dsimp only
    rw [if_pos hne]
    rfl

theorem sound_of_flags {p : Plugin} (h : p.flags = 0) : Sound p := by
  left
  rw [h]
  rfl

theorem load_entries_sound {lib : Int} {offset : Nat} {api : Api} {env : LoadEnv} (n i : Nat)
    (h : AllSound ldr) : AllSound (load_entries lib offset api env n i ldr).2 := by
  induction n generalizing i ldr with
  | zero => exact h
  | succ n ih =>
    have hset : ∀ q, Sound q → AllSound { ldr with plugin := ldr.plugin.set (offset + i) q } := by
      intro q hq p hp
      rcases List.mem_or_eq_of_mem_set hp with hmem | rfl
      · exact h p hmem
      · exact hq
    unfold load_entries
    dsimp only
    rcases load_entry_cases lib (offset + i : Nat) (api.plugin i) (env.mallocs i) with heq | ⟨hneg, hflags⟩
    · rw [heq, if_neg (by simp)]
      exact ih _ (hset _ (sound_loaded_entry _ _ _))
    · rw [if_pos hneg.ne]
      exact hset _ (sound_of_flags hflags)

/-- An empty entry, and that of a library without plugins. -/
theorem sound_empty : Sound emptyPlugin ∧ Sound { emptyPlugin with flags := FLAG_PLUGIN_DUMMY } :=
  ⟨Or.inl rfl, Or.inl rfl⟩

theorem load_library_info_sound {lib r : Int} {env : LoadEnv} (hldr : AllSound ldr)
    (h : load_library_info ldr lib env = some (r, ldr')) : AllSound ldr' := by
  rcases Option.bind_eq_some_iff.mp h with ⟨entry, -, h⟩
  rcases Option.bind_eq_some_iff.mp h with ⟨api, -, h⟩
  split at h
  · cases h
    exact hldr
  split at h
  · cases h
    exact hldr
  · have hnew : ∀ n, ∀ p ∈ ldr.plugin ++ List.replicate n emptyPlugin, Sound p := by
      intro n p hp
      rcases List.mem_append.mp hp with hold | hempty
      · exact hldr p hold
      · rw [List.eq_of_mem_replicate hempty]
        exact sound_empty.1
    cases h
    apply load_entries_sound
    split
    · intro p hp
      rcases List.mem_or_eq_of_mem_set hp with hmem | rfl
      · exact hnew _ p hmem
      · exact sound_empty.2
    · exact hnew _

theorem relocate_sound (h : AllSound ldr) (p : Int) : AllSound (relocate ldr p) := by
  intro q hq
  rw [relocate] at hq
  rcases List.mem_map.mp hq with ⟨q', hq', rfl⟩
  exact h q' hq'

theorem load_library_sound (h : AllSound ldr) (library path : Option String) (e : Attempt) :
    AllSound (load_library ldr library path e).2.2 := by
  rcases load_library_cases ldr library path e with ⟨-, -, p, hp⟩ | ⟨api, p, lib, -, -, heq⟩
  · rw [hp]
    exact relocate_sound h p
  · rw [heq]
    exact relocate_sound h p

theorem search_library_sound (h : AllSound ldr) (plugin : String) (env : LoadEnv) (paths : List String) :
    AllSound (search_library ldr plugin env paths 0).2 := by
  rcases search_library_cases plugin env paths 0 ldr with ⟨-, -, p, hp⟩ | ⟨api, p, lib, -, -, heq⟩
  · rw [hp]
    exact relocate_sound h p
  · rw [heq]
    exact relocate_sound h p

theorem load_plugin_sound {paths : List String} {plugin path : Option String} {env : LoadEnv} {r : Int}
    (hldr : AllSound ldr) (h : drew_loader_load_plugin paths ldr plugin path env = some (r, ldr')) :
    AllSound ldr' := by
  rcases Option.bind_eq_some_iff.mp h with ⟨l, hl, h⟩
  have hlsound : AllSound l := by
    rcases writer_lock_eq hl with ⟨-, rfl⟩
    exact hldr
  split at h
  · rename_i plugin hload
    have hsearch := search_library_sound hlsound plugin env paths
    dsimp only at h
    split at h
    · cases h
      exact hsearch
    · rcases Option.bind_eq_some_iff.mp h with ⟨ret, hret, h⟩
      cases h
      show AllSound ret.2
      exact load_library_info_sound hsearch hret
  · have hload := load_library_sound hlsound plugin path (env.attempt 0)
    dsimp only at h
    split at h
    · cases h
      exact hload
    · rcases Option.bind_eq_some_iff.mp h with ⟨ret, hret, h⟩
      cases h
      show AllSound ret.2
      exact load_library_info_sound hload hret

/-- Nobody waits for the lock for ever, and the names are there. -/
structure Readable (ldr : DrewLoader) : Prop where
  free : ldr.lock.writer = false
  sound : AllSound ldr
  wellFormed : WellFormed ldr

theorem step_free {paths : List String} {op : Op} {out : Int × Output} (hldr : ldr.lock.writer = false)
    (h : step paths ldr op = some (ldr', out)) : ldr'.lock.writer = false := by
  by_cases hleak : Leaks ldr op
  · cases op with
    | get_metadata id item files =>
      rcases Option.map_eq_some_iff.mp h with ⟨r, hr, heq⟩
      cases heq
      rw [get_metadata_loader hr]
      split <;> exact hldr
    | _ => exact hleak.elim
  · rw [(step_lock h).mpr hleak]
    exact hldr

theorem step_sound {paths : List String} {op : Op} {out : Int × Output} (hldr : AllSound ldr)
    (h : step paths ldr op = some (ldr', out)) : AllSound ldr' := by
  rcases Classical.em (∃ plugin path env, op = .load_plugin plugin path env) with
    ⟨plugin, path, env, rfl⟩ | hop
  · rcases Option.map_eq_some_iff.mp h with ⟨r, hr, heq⟩
    cases heq
    exact load_plugin_sound hldr hr
  · rw [step_tables h fun plugin path env heq => hop ⟨plugin, path, env, heq⟩]
    exact hldr

theorem readable_of_reachable {paths : List String} (h : Reachable paths ldr) : Readable ldr := by
  have hwell := wellFormed_of_reachable h
  rcases h with ⟨ops, hruns⟩
  refine ⟨?_, ?_, hwell⟩
  · exact hruns.keeps (I := fun ldr => ldr.lock.writer = false) (fun _ _ _ _ _ => step_free) rfl
  · exact hruns.keeps (I := AllSound) (fun _ _ _ _ _ => step_sound) (fun p hp => absurd hp List.not_mem_nil)

/-- The loader with the lock taken. -/
theorem Readable.reader_lock (h : Readable ldr) : ∃ l, Loader.reader_lock ldr = some l := by
  unfold Loader.reader_lock
  rw [h.free]
  exact ⟨_, rfl⟩

theorem Readable.entry (h : Readable ldr) {id : Int} (hid : is_valid_id ldr id false = true) :
    (∃ name, (pluginAt ldr id).name.read = some name) ∧ 0 ≤ (pluginAt ldr id).nmetadata ∧
      (0 < (pluginAt ldr id).nmetadata → ∃ md, (pluginAt ldr id).metadata.read = some md) := by
  rcases entry_of_valid hid with ⟨hentry, hflags⟩
  exact (h.sound _ (List.mem_of_getElem? hentry)).resolve_left hflags

/-! ## Lookups -/

/-- An id that a lookup is for. -/
def Hit (ldr : DrewLoader) (P : Plugin → Prop) (i : Int) : Prop :=
  is_valid_id ldr i false = true ∧ P (pluginAt ldr i)

/-- Where a lookup stops. -/
def endOf (ldr : DrewLoader) (stop : Int) : Int := if stop = -1 then ldr.plugin.length else stop

theorem Hit.bounds {P : Plugin → Prop} {i : Int} (h : Hit ldr P i) : 0 ≤ i ∧ i < ldr.plugin.length := by
  have hvalid := h.1
  simp only [is_valid_id] at hvalid
  split at hvalid
  · cases hvalid
  split at hvalid
  · cases hvalid
  · omega

/-- A lookup gives the first id that it is for, or an error. -/
structure FirstHit (ldr : DrewLoader) (P : Plugin → Prop) (start stop code : Int) : Prop where
  none : code < 0 → ∀ i, start ≤ i → i < stop → ¬ Hit ldr P i
  hit : 0 ≤ code → start ≤ code ∧ code < stop ∧ Hit ldr P code ∧ ∀ i, start ≤ i → i < code → ¬ Hit ldr P i

theorem lookup_spec {take : Plugin → Option Bool} {P : Plugin → Prop}
    (htake : ∀ i, is_valid_id ldr i false = true →
      ∃ b, take (pluginAt ldr i) = some b ∧ (b = true ↔ P (pluginAt ldr i))) (n : Nat) (i : Int) :
    ∃ found, lookup ldr take n i = some found ∧
      FirstHit ldr P i (i + n) (found.getD (-DREW_ERR_NONEXISTENT)) := by
  induction n generalizing i with
  | zero =>
    refine ⟨none, rfl, fun _ k hk hk' => by omega, fun hcode => ?_⟩
    exact absurd hcode (by decide)
  | succ n ih =>
    rcases ih (i + 1) with ⟨found, hfound, hrest⟩
    rw [add_right_comm, add_assoc] at hrest
    -- The rest of the loop, if it goes on because the first id is not one of them.
    have hon : ¬ Hit ldr P i → FirstHit ldr P i (i + (n + 1 : Nat)) (found.getD (-DREW_ERR_NONEXISTENT)) := by
      intro hnot
      refine ⟨fun hcode k hk hk' => ?_, fun hcode => ?_⟩
      · rcases eq_or_lt_of_le hk with rfl | hlt
        · exact hnot
        · exact hrest.none hcode k (by omega) hk'
      · rcases hrest.hit hcode with ⟨hle, hlt, hhit, hbefore⟩
        refine ⟨by omega, hlt, hhit, fun k hk hk' => ?_⟩
        rcases eq_or_lt_of_le hk with rfl | hlt
        · exact hnot
        · exact hbefore k (by omega) hk'
    unfold lookup
    by_cases hvalid : is_valid_id ldr i false = true
    · rcases htake i hvalid with ⟨b, hb, hP⟩
      rw [hvalid, hb]
      cases b with
      | true =>
        have hhit : Hit ldr P i := ⟨hvalid, hP.mp rfl⟩
        refine ⟨some i, rfl, fun hcode => ?_, fun _ => ⟨le_rfl, by rw [Option.getD_some]; omega, hhit, ?_⟩⟩
        · exact absurd hhit.bounds.1 (not_le.mpr hcode)
        · exact fun k hk hk' => absurd hk (not_le.mpr hk')
      | false =>
        refine ⟨found, hfound, hon fun hhit => ?_⟩
        exact absurd (hP.mpr hhit.2) (by decide)
    · rw [Bool.not_eq_true] at hvalid
      rw [hvalid]
      refine ⟨found, hfound, hon fun hhit => ?_⟩
      rw [hhit.1] at hvalid
      cases hvalid

theorem FirstHit.stop {P : Plugin → Prop} {start stop code : Int}
    (h : FirstHit ldr P start (start + (stop - start).toNat) code) : FirstHit ldr P start stop code where
  none hcode i hi hi' := h.none hcode i hi (by omega)
  hit hcode := by
    rcases h.hit hcode with ⟨hle, hlt, hrest⟩
    exact ⟨hle, by omega, hrest⟩

/-- The lookup under the lock, and its code. -/
theorem lookup_code (take : Plugin → Option Bool) (P : Plugin → Prop) (hl : reader_lock ldr = some l)
    (htake : ∀ i, is_valid_id ldr i false = true →
      ∃ b, take (pluginAt ldr i) = some b ∧ (b = true ↔ P (pluginAt ldr i))) (start stop : Int) :
    ∃ found, lookup l take (stop - start).toNat start = some found ∧
      FirstHit ldr P start stop (found.getD (-DREW_ERR_NONEXISTENT)) := by
  have hsame := eq_of_reader_lock hl
  subst hsame
  rcases @lookup_spec { ldr with lock := { ldr.lock with readers := ldr.lock.readers + 1 } } take P htake
    (stop - start).toNat start with ⟨found, hfound, hfirst⟩
  exact ⟨found, hfound, FirstHit.stop ⟨hfirst.none, hfirst.hit⟩⟩

theorem lookup_by_name_spec (h : Readable ldr) (name : List Char) (start stop : Int) :
    ∃ code, drew_loader_lookup_by_name ldr name start stop = some (code, ldr) ∧
      FirstHit ldr (fun p => p.name.read = some name) start (endOf ldr stop) code := by
  rcases h.reader_lock with ⟨l, hl⟩
  have htake : ∀ i, is_valid_id ldr i false = true → ∃ b, (pluginAt ldr i).name.read.map (· == name) = some b ∧
      (b = true ↔ (pluginAt ldr i).name.read = some name) := by
    intro i hi
    rcases (h.entry hi).1 with ⟨n, hn⟩
    refine ⟨n == name, by rw [hn]; rfl, ?_⟩
    rw [hn, beq_iff_eq, Option.some_inj]
  have hlen : l.plugin.length = ldr.plugin.length := by rw [eq_of_reader_lock hl]
  rcases lookup_code (fun p => p.name.read.map (· == name)) (fun p => p.name.read = some name) hl
    htake start (endOf ldr stop) with ⟨found, hfound, hfirst⟩
  refine ⟨_, ?_, hfirst⟩
  unfold drew_loader_lookup_by_name
  rw [endOf] at hfound
  simp only [hl, Option.bind_eq_bind, Option.bind_some, hlen, hfound, reader_unlock_of_lock hl]
  cases found <;> rfl

theorem lookup_by_type_spec (h : Readable ldr) (type start stop : Int) :
    ∃ code, drew_loader_lookup_by_type ldr type start stop = some (code, ldr) ∧
      FirstHit ldr (fun p => p.type = type) start (endOf ldr stop) code := by
  rcases h.reader_lock with ⟨l, hl⟩
  have htake : ∀ i, is_valid_id ldr i false = true → ∃ b, some ((pluginAt ldr i).type == type) = some b ∧
      (b = true ↔ (pluginAt ldr i).type = type) := fun i _ => ⟨_, rfl, beq_iff_eq⟩
  have hlen : l.plugin.length = ldr.plugin.length := by rw [eq_of_reader_lock hl]
  rcases lookup_code (fun p => some (p.type == type)) (fun p => p.type = type) hl
    htake start (endOf ldr stop) with ⟨found, hfound, hfirst⟩
  refine ⟨_, ?_, hfirst⟩
  unfold drew_loader_lookup_by_type
  rw [endOf] at hfound
  simp only [hl, Option.bind_eq_bind, Option.bind_some, hlen, hfound, reader_unlock_of_lock hl]
  cases found <;> rfl

/-! ## The loop over a lookup -/

/-- The ids that are found from `i` on. The loop does not end if it takes more rounds than there are. -/
def visits (next : Int → Option (Int × DrewLoader)) : Nat → Int → Option (List Int)
  | 0, _ => none
  | rounds + 1, i => do
      let r ← next i
      if r.1 < 0 then return []
      let ids ← visits next rounds (r.1 + 1)
      return r.1 :: ids

/-- The ids that a lookup is for, once each, in increasing order. -/
structure Exactly (ldr : DrewLoader) (P : Plugin → Prop) (start stop : Int) (ids : List Int) : Prop where
  increasing : ids.Pairwise (· < ·)
  mem : ∀ i, i ∈ ids ↔ start ≤ i ∧ i < stop ∧ Hit ldr P i

theorem Exactly.nil {P : Plugin → Prop} {start stop : Int}
    (h : ∀ i, start ≤ i → i < stop → ¬ Hit ldr P i) : Exactly ldr P start stop [] where
  increasing := List.Pairwise.nil
  mem i := ⟨fun hi => absurd hi List.not_mem_nil, fun ⟨hle, hlt, hhit⟩ => absurd hhit (h i hle hlt)⟩

theorem Exactly.cons {P : Plugin → Prop} {start stop code : Int} {ids : List Int} (hle : start ≤ code)
    (hlt : code < stop) (hhit : Hit ldr P code) (hbefore : ∀ i, start ≤ i → i < code → ¬ Hit ldr P i)
    (h : Exactly ldr P (code + 1) stop ids) : Exactly ldr P start stop (code :: ids) where
  increasing := List.pairwise_cons.mpr ⟨fun i hi => ((h.mem i).mp hi).1, h.increasing⟩
  mem i := by
    rw [List.mem_cons, h.mem]
    constructor
    · rintro (rfl | ⟨hi, hi', hP⟩)
      · exact ⟨hle, hlt, hhit⟩
      · exact ⟨by omega, hi', hP⟩
    · rintro ⟨hi, hi', hP⟩
      rcases lt_trichotomy i code with hless | heq | hmore
      · exact absurd hP (hbefore i hi hless)
      · exact Or.inl heq
      · exact Or.inr ⟨hmore, hi', hP⟩

/-- Each round but the last takes an id of the table. -/
theorem visits_spec {next : Int → Option (Int × DrewLoader)} {P : Plugin → Prop} {stop : Int}
    (hnext : ∀ i, ∃ code, next i = some (code, ldr) ∧ FirstHit ldr P i stop code) {rounds : Nat} {i : Int}
    (hrounds : (ldr.plugin.length : Int) - max i 0 < rounds ∧ 0 < rounds) :
    ∃ ids, visits next rounds i = some ids ∧ Exactly ldr P i stop ids := by
  induction rounds generalizing i with
  | zero => exact absurd hrounds.2 (lt_irrefl 0)
  | succ rounds ih =>
    rcases hnext i with ⟨code, hcode, hfirst⟩
    unfold visits
    rw [hcode]
    by_cases hneg : code < 0
    · refine ⟨[], ?_, Exactly.nil (hfirst.none hneg)⟩
      simp [hneg]
    · rcases hfirst.hit (not_lt.mp hneg) with ⟨hle, hlt, hhit, hbefore⟩
      have hbounds := hhit.bounds
      rcases ih (i := code + 1) (by omega) with ⟨ids, hids, hexact⟩
      refine ⟨code :: ids, ?_, Exactly.cons hle hlt hhit hbefore hexact⟩
      simp [hneg, hids]

/-! ## Metadata -/

theorem nonexistent_pos : 0 < DREW_ERR_NONEXISTENT := by decide

/-- Whether there is a special item does not depend on which one is asked for, if it is not one after the first. -/
theorem special_metadata_spec (h : Readable ldr) {id : Int} (hid : is_valid_id ldr id false = true)
    (files : String → Bool) : ∃ b : Bool, ∀ item,
      (item ≤ 0 ∧ b = true → ∃ md, special_metadata ldr id item files = some (0, some md)) ∧
      (0 < item ∨ b = false → special_metadata ldr id item files = some (-DREW_ERR_NONEXISTENT, none)) := by
  rcases entry_of_valid hid with ⟨hentry, hflags⟩
  rcases h.wellFormed _ _ hentry hflags with ⟨lib, hlib⟩
  cases hpath : lib.path with
  | none =>
    refine ⟨false, fun item => ⟨fun hb => absurd hb.2 (by decide), fun _ => ?_⟩⟩
    unfold special_metadata
    split
    · rfl
    · simp [hlib, hpath]
  | some path =>
    refine ⟨files (path ++ ".rdf"), fun item => ⟨fun ⟨hle, hb⟩ => ?_, fun hnot => ?_⟩⟩
    · unfold special_metadata
      rw [if_neg (not_lt.mpr hle)]
      simp [hlib, hpath, hb]
    · unfold special_metadata
      split
      · rfl
      · rename_i hle
        simp [hlib, hpath, hnot.resolve_left hle]

/-- The items below a number succeed, and the others fail. -/
def Counts (ldr : DrewLoader) (id : Int) (files : String → Bool) (n : Int) : Prop :=
  (∀ item, 0 ≤ item → item < n → ∃ md, drew_loader_get_metadata ldr id item files = some ((0, some md), ldr)) ∧
    ∀ item, n ≤ item → ∃ code, code < 0 ∧ drew_loader_get_metadata ldr id item files = some ((code, none), ldr)

/-- The number of items is the answer for the item `-1`. -/
theorem get_metadata_counts (h : Readable ldr) (id : Int) (files : String → Bool) :
    ∃ n, drew_loader_get_metadata ldr id (-1) files = some ((n, none), ldr) ∧ Counts ldr id files n := by
  rcases h.reader_lock with ⟨l, hl⟩
  have hback := reader_unlock_of_lock hl
  have hl' := eq_of_reader_lock hl
  have hplugin : pluginAt l id = pluginAt ldr id := by rw [hl']; rfl
  have hspecial : ∀ item, special_metadata l id item files = special_metadata ldr id item files := by
    intro item
    rw [hl']
    rfl
  by_cases hid : is_valid_id ldr id false = true
  · have hvalid : is_valid_id l id false = true := by rw [hl']; exact hid
    rcases special_metadata_spec h hid files with ⟨b, hb⟩
    rcases h.entry hid with ⟨-, hnonneg, hmd⟩
    refine ⟨(pluginAt ldr id).nmetadata + if b = true then 1 else 0, ?_, ?_, ?_⟩
    · unfold drew_loader_get_metadata
      cases b with
      | true =>
        rcases (hb (-1 - (pluginAt ldr id).nmetadata)).1 ⟨by omega, rfl⟩ with ⟨md, hret⟩
        simp [hl, hvalid, hplugin, hspecial, hret, hback]
      | false =>
        have hret := (hb (-1 - (pluginAt ldr id).nmetadata)).2 (Or.inr rfl)
        simp [hl, hvalid, hplugin, hspecial, hret, hback, nonexistent_pos.ne']
    · intro item h0 hlt
      have hne : item ≠ -1 := by omega
      unfold drew_loader_get_metadata
      by_cases hown : item < (pluginAt ldr id).nmetadata
      · rcases hmd (by omega) with ⟨md, hread⟩
        simp [hl, hvalid, hplugin, hback, hne, not_lt.mpr h0, hown, hread]
      · cases b with
        | false => exact absurd hlt (by simp; omega)
        | true =>
          rw [if_pos rfl] at hlt
          rcases (hb (item - (pluginAt ldr id).nmetadata)).1 ⟨by omega, rfl⟩ with ⟨md, hret⟩
          simp [hl, hvalid, hplugin, hspecial, hback, hne, not_lt.mpr h0, hown, hret]
    · intro item hle
      have hge : (pluginAt ldr id).nmetadata ≤ item := by
        split at hle <;> omega
      have hne : item ≠ -1 := by omega
      have hret : special_metadata ldr id (item - (pluginAt ldr id).nmetadata) files =
          some (-DREW_ERR_NONEXISTENT, none) := by
        apply (hb _).2
        cases b with
        | true =>
          rw [if_pos rfl] at hle
          exact Or.inl (by omega)
        | false => exact Or.inr rfl
      refine ⟨-DREW_ERR_NONEXISTENT, neg_lt_zero.mpr nonexistent_pos, ?_⟩
      unfold drew_loader_get_metadata
      simp [hl, hvalid, hplugin, hspecial, hback, hne, not_lt.mpr (hnonneg.trans hge), not_lt.mpr hge, hret,
        nonexistent_pos]
  · have hinvalid : is_valid_id l id false = false := by
      rw [hl']
      exact Bool.not_eq_true _ ▸ hid
    have hfail : ∀ item, drew_loader_get_metadata ldr id item files =
        some ((-DREW_ERR_NONEXISTENT, none), ldr) := by
      intro item
      unfold drew_loader_get_metadata
      simp [hl, hinvalid, hback]
    have hpos := nonexistent_pos
    exact ⟨_, hfail (-1), fun item h0 hlt => by omega, fun item _ => ⟨_, neg_lt_zero.mpr hpos, hfail item⟩⟩

/-! ## Search paths -/

/-- A path is stored for the numbers below the count that is returned, and for no other number. -/
def SearchRight (paths : List String) (num : Int) : Prop :=
  ∃ code p, drew_loader_get_search_path paths num = some (code, p) ∧
    (0 ≤ num ∧ num < paths.length → code = paths.length ∧ p = paths[num.toNat]? ∧ p.isSome = true) ∧
    (num < 0 ∨ paths.length ≤ num → code < 0 ∧ p = none)

/-- The bound lets the number after the last one through. -/
theorem searchRight_iff (paths : List String) (num : Int) : SearchRight paths num ↔ num ≠ paths.length := by
  constructor
  · rintro ⟨code, p, hcall, -, -⟩ heq
    subst heq
    unfold drew_loader_get_search_path at hcall
    rw [if_neg (by omega), if_neg (lt_irrefl _), Int.toNat_natCast, List.getElem?_length] at hcall
    cases hcall
  · intro hne
    unfold SearchRight drew_loader_get_search_path
    by_cases hneg : num < 0
    · rw [if_pos hneg]
      exact ⟨_, _, rfl, fun h => absurd h.1 (not_le.mpr hneg), fun _ => ⟨by decide, rfl⟩⟩
    · rw [if_neg hneg]
      by_cases hmore : num > paths.length
      · rw [if_pos hmore]
        exact ⟨_, _, rfl, fun h => absurd h.2 (by omega), fun _ => ⟨by decide, rfl⟩⟩
      · rw [if_neg hmore, List.getElem?_eq_getElem (by omega)]
        exact ⟨_, _, rfl, fun _ => ⟨rfl, rfl, rfl⟩, fun h => by omega⟩

/-! ## All of them -/

/-- The lookups and the numbers of metadata are exact in every state. The search paths are for every number but that
of the paths. -/
theorem enumeration_exact_iff (paths : List String) :
    (∀ ldr, Reachable paths ldr →
      (∀ start stop rounds, ldr.plugin.length < rounds →
        (∀ name, ∃ ids, visits (fun i => drew_loader_lookup_by_name ldr name i stop) rounds start = some ids ∧
          Exactly ldr (fun p => p.name.read = some name) start (endOf ldr stop) ids) ∧
        ∀ type, ∃ ids, visits (fun i => drew_loader_lookup_by_type ldr type i stop) rounds start = some ids ∧
          Exactly ldr (fun p => p.type = type) start (endOf ldr stop) ids) ∧
      ∀ id files, ∃ n, drew_loader_get_metadata ldr id (-1) files = some ((n, none), ldr) ∧
        Counts ldr id files n) ∧
    ∀ num, SearchRight paths num ↔ num ≠ paths.length := by
  refine ⟨fun ldr hreach => ⟨fun start stop rounds hrounds => ⟨fun name => ?_, fun type => ?_⟩, ?_⟩,
    searchRight_iff paths⟩
  · exact visits_spec (fun i => lookup_by_name_spec (readable_of_reachable hreach) name i stop) (by omega)
  · exact visits_spec (fun i => lookup_by_type_spec (readable_of_reachable hreach) type i stop) (by omega)
  · exact get_metadata_counts (readable_of_reachable hreach)

theorem enumeration_exact_one :
    (∃ ids, visits (fun i => drew_loader_lookup_by_name loaderOne ['a'] i (-1)) 2 0 = some ids ∧
      Exactly loaderOne (fun p => p.name.read = some ['a']) 0 (endOf loaderOne (-1)) ids) ∧
    SearchRight ["plugins"] 0 := by
  have hreach : Reachable [] loaderOne := ⟨_, .cons trivial step_loaderOne (.nil _)⟩
  exact ⟨(((enumeration_exact_iff []).1 loaderOne hreach).1 0 (-1) 2 (by decide)).1 ['a'],
    ((enumeration_exact_iff ["plugins"]).2 0).mpr (by decide)⟩

/-- With one path the number one is read past the end of the table. -/
theorem search_path_past_end :
    drew_loader_get_search_path ["plugins"] 1 = none ∧ ¬ SearchRight ["plugins"] 1 := by
  refine ⟨rfl, ?_⟩
  rintro ⟨code, p, hcall, -⟩
  cases hcall

end Drew.Loader
