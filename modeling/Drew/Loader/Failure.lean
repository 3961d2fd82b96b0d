import Drew.Loader.Ids

/-!
# Failed loads

A load that fails before the plugins are appended leaves nothing that can be seen: the table of libraries
may have moved, and may be longer. A load that fails at a plugin leaves the longer table of plugins, with
the plugins before the one that failed.
-/

namespace Drew.Loader

variable {ldr ldr' l l' : DrewLoader}

/-! ## Loaders that answer alike -/

/-- The entries are the same but for the addresses, and the addresses denote the same. -/
structure Alike (ldr ldr' : DrewLoader) : Prop where
  length : ldr'.plugin.length = ldr.plugin.length
  lock : ldr'.lock = ldr.lock
  entry : ∀ id, ∃ lib, pluginAt ldr' id = { pluginAt ldr id with lib := lib }
  library : ∀ id, is_valid_id ldr id false = true →
    libAt ldr' (pluginAt ldr' id).lib = libAt ldr (pluginAt ldr id).lib

theorem Alike.flags (h : Alike ldr ldr') (id : Int) : (pluginAt ldr' id).flags = (pluginAt ldr id).flags := by
  rcases h.entry id with ⟨lib, heq⟩
  rw [heq]

theorem Alike.valid (h : Alike ldr ldr') (id : Int) (dummyok : Bool) :
    is_valid_id ldr' id dummyok = is_valid_id ldr id dummyok := by
  unfold is_valid_id
  rw [h.length, h.flags]

/-- What is read under the lock is alike. -/
theorem Alike.read {β : Type} {F : DrewLoader → Option (β × DrewLoader)} (h : Alike ldr ldr')
    (hF : ∀ l l', Alike l l' → (F l').map Prod.fst = (F l).map Prod.fst) :
    ((reader_lock ldr').bind F).map Prod.fst = ((reader_lock ldr).bind F).map Prod.fst := by
  unfold reader_lock
  rw [h.lock]
  split
  · rfl
  · exact hF _ _ ⟨h.length, rfl, h.entry, h.library⟩

/-! ## The functions that read -/

theorem get_nplugins_alike (h : Alike ldr ldr') (id : Int) :
    (drew_loader_get_nplugins ldr' id).map Prod.fst = (drew_loader_get_nplugins ldr id).map Prod.fst := by
  apply h.read
  intro l l' h
  rw [h.length, h.valid, h.valid]
  split
  · rfl
  split
  · rfl
  · rename_i hvalid
    rw [Bool.not_eq_true', Bool.not_eq_false] at hvalid
    rw [h.library id hvalid]
    cases libAt l (pluginAt l id).lib <;> rfl

theorem get_type_alike (h : Alike ldr ldr') (id : Int) :
    (drew_loader_get_type ldr' id).map Prod.fst = (drew_loader_get_type ldr id).map Prod.fst := by
  apply h.read
  intro l l' h
  rcases h.entry id with ⟨lib, heq⟩
  rw [h.valid, heq]
  rfl

theorem get_functbl_alike (h : Alike ldr ldr') (id : Int) :
    (drew_loader_get_functbl ldr' id).map Prod.fst = (drew_loader_get_functbl ldr id).map Prod.fst := by
  apply h.read
  intro l l' h
  rcases h.entry id with ⟨lib, heq⟩
  rw [h.valid, heq]
  split <;> rfl

theorem get_algo_name_alike (h : Alike ldr ldr') (id : Int) :
    (drew_loader_get_algo_name ldr' id).map Prod.fst =
      (drew_loader_get_algo_name ldr id).map Prod.fst := by
  apply h.read
  intro l l' h
  rcases h.entry id with ⟨lib, heq⟩
  rw [h.valid, heq]
  split <;> rfl

theorem lookup_alike (h : Alike ldr ldr') {take : Plugin → Option Bool}
    (htake : ∀ p lib, take { p with lib := lib } = take p) (n : Nat) (i : Int) :
    lookup ldr' take n i = lookup ldr take n i := by
  induction n generalizing i with
  | zero => rfl
  | succ n ih =>
    rcases h.entry i with ⟨lib, heq⟩
    unfold lookup
    rw [h.valid, heq, htake, ih]

theorem lookup_by_name_alike (h : Alike ldr ldr') (name : List Char) (start stop : Int) :
    (drew_loader_lookup_by_name ldr' name start stop).map Prod.fst =
      (drew_loader_lookup_by_name ldr name start stop).map Prod.fst := by
  apply h.read
  intro l l' h
  rw [h.length]
  dsimp only
  rw [lookup_alike h (fun _ _ => rfl)]
  generalize lookup l _ _ _ = found
  cases found with
  | none => rfl
  | some found => cases found <;> rfl

theorem lookup_by_type_alike (h : Alike ldr ldr') (type start stop : Int) :
    (drew_loader_lookup_by_type ldr' type start stop).map Prod.fst =
      (drew_loader_lookup_by_type ldr type start stop).map Prod.fst := by
  apply h.read
  intro l l' h
  rw [h.length]
  dsimp only
  rw [lookup_alike h (fun _ _ => rfl)]
  generalize lookup l _ _ _ = found
  cases found with
  | none => rfl
  | some found => cases found <;> rfl

theorem special_metadata_alike (h : Alike ldr ldr') {id : Int} (hid : is_valid_id ldr id false = true)
    (item : Int) (files : String → Bool) :
    special_metadata ldr' id item files = special_metadata ldr id item files := by
  unfold special_metadata
  rw [h.library id hid]

theorem get_metadata_alike (h : Alike ldr ldr') (id item : Int) (files : String → Bool) :
    (drew_loader_get_metadata ldr' id item files).map Prod.fst =
      (drew_loader_get_metadata ldr id item files).map Prod.fst := by
  apply h.read
  intro l l' h
  rcases h.entry id with ⟨lib, heq⟩
  have hn : (pluginAt l' id).nmetadata = (pluginAt l id).nmetadata := by rw [heq]
  have hm : (pluginAt l' id).metadata = (pluginAt l id).metadata := by rw [heq]
  rw [h.valid]
  split
  · rfl
  rename_i hvalid
  rw [Bool.not_eq_true', Bool.not_eq_false] at hvalid
  rw [hn, hm, special_metadata_alike h hvalid]
  split
  · cases special_metadata l id (item - (pluginAt l id).nmetadata) files with
    | none => rfl
    | some ret =>
      have hunlock : (pluginAt (reader_unlock l') id).nmetadata =
        (pluginAt (reader_unlock l) id).nmetadata := hn
      simp only [Option.bind_eq_bind, Option.bind_some, Option.map_some, hunlock]
  split
  · rfl
  split
  · cases (pluginAt l id).metadata.read <;> rfl
  · cases special_metadata l id (item - (pluginAt l id).nmetadata) files with
    | none => rfl
    | some ret =>
      simp only [Option.bind_eq_bind, Option.bind_some]
      split <;> rfl

/-! ## What can be seen of a loader -/

/-- The call only reads. -/
def IsQuery : Op → Prop
  | .load_plugin _ _ _ => False
  | .ref => False
  | .unref => False
  | _ => True

/-- The same ids are valid, and every call that only reads returns the same and writes the same. -/
def SameLoader (paths : List String) (ldr ldr' : DrewLoader) : Prop :=
  (∀ id, is_valid_id ldr' id false = is_valid_id ldr id false) ∧
    ∀ op, IsQuery op → (step paths ldr' op).map Prod.snd = (step paths ldr op).map Prod.snd

theorem map_snd_of_map_fst {α β γ δ : Type} {x y : Option (α × δ)} {f : α × δ → δ × β × γ} {g : α → β × γ}
    (hf : ∀ r, (f r).2 = g r.1) (h : x.map Prod.fst = y.map Prod.fst) :
    (x.map f).map Prod.snd = (y.map f).map Prod.snd := by
  have hcomp : Prod.snd ∘ f = g ∘ Prod.fst := funext hf
  rw [Option.map_map, Option.map_map, hcomp, ← Option.map_map, ← Option.map_map, h]

theorem Alike.same (h : Alike ldr ldr') (paths : List String) : SameLoader paths ldr ldr' := by
  refine ⟨fun id => h.valid id false, ?_⟩
  intro op hop
  cases op with
  | get_nplugins id =>
    exact map_snd_of_map_fst (g := fun r => (r, .none)) (fun _ => rfl) (get_nplugins_alike h id)
  | get_type id =>
    exact map_snd_of_map_fst (g := fun r => (r, .none)) (fun _ => rfl) (get_type_alike h id)
  | get_functbl id =>
    exact map_snd_of_map_fst (g := fun r => (r.1, .functbl r.2)) (fun _ => rfl) (get_functbl_alike h id)
  | get_algo_name id =>
    exact map_snd_of_map_fst (g := fun r => (r.1, .name r.2)) (fun _ => rfl) (get_algo_name_alike h id)
  | lookup_by_name name start stop =>
    exact map_snd_of_map_fst (g := fun r => (r, .none)) (fun _ => rfl)
      (lookup_by_name_alike h name start stop)
  | lookup_by_type type start stop =>
    exact map_snd_of_map_fst (g := fun r => (r, .none)) (fun _ => rfl)
      (lookup_by_type_alike h type start stop)
  | get_metadata id item files =>
    exact map_snd_of_map_fst (g := fun r => (r.1, .metadata r.2)) (fun _ => rfl)
      (get_metadata_alike h id item files)
  | get_search_path num =>
    change Option.map Prod.snd (Option.map _ _) = Option.map Prod.snd (Option.map _ _)
    rw [Option.map_map, Option.map_map]
    rfl
  | load_plugin plugin path env => exact hop.elim
  | ref => exact hop.elim
  | unref => exact hop.elim

/-! ## Pointers that are good -/

/-- Every plugin that is loaded has the address of a library. -/
def WellFormed (ldr : DrewLoader) : Prop :=
  ∀ (id : Nat) p, ldr.plugin[id]? = some p → p.flags &&& FLAG_PLUGIN_OK ≠ 0 →
    ∃ library, libAt ldr p.lib = some library

theorem wellFormed_relocate (h : WellFormed ldr) (p : Int) : WellFormed (relocate ldr p) := by
  intro id q hq hflags
  rw [relocate, List.getElem?_map] at hq
  rcases Option.map_eq_some_iff.mp hq with ⟨q', hq', rfl⟩
  rw [libAt_relocate]
  exact h id q' hq' hflags

theorem Loads.wellFormed {array : Bool} {p ret : Int} {o : Option Api} (h : Loads ldr array p o ret ldr')
    (hldr : WellFormed ldr) : WellFormed ldr' := by
  have hmoved := wellFormed_relocate hldr p
  cases h with
  | closed => exact hmoved
  | refused =>
    intro id q hq hflags
    rcases hmoved id q hq hflags with ⟨library, hlib⟩
    exact ⟨library, libAt_append hlib⟩
  | appended hapi hn hle harray happ =>
    intro id q hq hflags
    by_cases hid : id < (relocate ldr p).plugin.length
    · rcases hmoved id q ((happ.before id hid).symm.trans hq) hflags with ⟨library, hlib⟩
      exact ⟨library, libAt_append hlib⟩
    · rcases happ.belongs id q (not_lt.mp hid) hq with hzero | hlib
      · exact absurd hzero hflags
      · rw [hlib]
        exact ⟨_, @libAt_last (withLibrary ldr p _ _) _ _ rfl⟩

theorem wellFormed_of_reachable {paths : List String} (h : Reachable paths ldr) : WellFormed ldr := by
  rcases h with ⟨ops, hruns⟩
  apply hruns.keeps (I := WellFormed)
  · intro ldr op ldr' out _ hldr hstep
    rcases Classical.em (∃ plugin path env, op = .load_plugin plugin path env) with
      ⟨plugin, path, env, rfl⟩ | hop
    · rcases Option.map_eq_some_iff.mp hstep with ⟨r, hr, heq⟩
      cases heq
      rcases load_plugin_loads hr with ⟨p, hloads⟩
      exact hloads.wellFormed hldr
    · rw [step_tables hstep fun plugin path env heq => hop ⟨plugin, path, env, heq⟩]
      exact hldr
  · intro id p hp
    cases hp

/-! ## When a failed load is not seen -/

theorem entry_of_valid {id : Int} (h : is_valid_id ldr id false = true) :
    ldr.plugin[id.toNat]? = some (pluginAt ldr id) ∧ (pluginAt ldr id).flags &&& FLAG_PLUGIN_OK ≠ 0 := by
  simp only [is_valid_id, Bool.false_eq_true, if_false, Nat.or_zero] at h
  split at h
  · cases h
  split at h
  · cases h
  split at h
  · cases h
  rename_i hneg hlen hflags
  refine ⟨?_, hflags⟩
  rw [pluginAt, List.getD_eq_getElem?_getD, List.getElem?_eq_getElem (by omega)]
  rfl

theorem pluginAt_relocate (ldr : DrewLoader) (p id : Int) :
    ∃ lib, pluginAt (relocate ldr p) id = { pluginAt ldr id with lib := lib } ∧
      (is_valid_id ldr id false = true → lib = p + ((pluginAt ldr id).lib - ldr.lib)) := by
  unfold pluginAt relocate
  dsimp only
  rw [List.getD_eq_getElem?_getD, List.getD_eq_getElem?_getD, List.getElem?_map]
  cases h : ldr.plugin[id.toNat]? with
  | none =>
    refine ⟨0, rfl, ?_⟩
    intro hvalid
    exact absurd ((entry_of_valid hvalid).1.symm.trans h) (Option.some_ne_none _)
  | some q => exact ⟨_, rfl, fun _ => rfl⟩

theorem alike_relocate (ldr : DrewLoader) (p : Int) : Alike ldr (relocate ldr p) where
  length := List.length_map _
  lock := rfl
  entry id := by
    rcases pluginAt_relocate ldr p id with ⟨lib, heq, -⟩
    exact ⟨lib, heq⟩
  library id hid := by
    rcases pluginAt_relocate ldr p id with ⟨lib, heq, hlib⟩
    rw [heq, hlib hid, libAt_relocate]

/-- A library without plugins is not seen. -/
theorem alike_withLibrary (hldr : WellFormed ldr) (p : Int) (library : Library) :
    Alike ldr (withLibrary ldr p library (relocate ldr p).plugin) where
  length := List.length_map _
  lock := rfl
  entry id := (alike_relocate ldr p).entry id
  library id hid := by
    have hmoved := (alike_relocate ldr p).library id hid
    rcases entry_of_valid hid with ⟨hentry, hflags⟩
    rcases hldr _ _ hentry hflags with ⟨lib, hlib⟩
    rw [hlib] at hmoved ⊢
    exact libAt_append hmoved

theorem get_nplugins_all (paths : List String) (hlock : ldr.lock = ⟨0, false⟩) :
    (step paths ldr (.get_nplugins (-1))).map Prod.snd = some ((ldr.plugin.length : Int), .none) := by
  have hreader : reader_lock ldr = some { ldr with lock := ⟨1, false⟩ } := by
    unfold reader_lock
    rw [hlock]
    rfl
  unfold step drew_loader_get_nplugins
  dsimp only
  rw [hreader]
  rfl

theorem load_free {paths : List String} {plugin path : Option String} {env : LoadEnv} {ret : Int}
    (h : drew_loader_load_plugin paths ldr plugin path env = some (ret, ldr')) :
    ldr.lock = ⟨0, false⟩ := by
  rcases Option.bind_eq_some_iff.mp h with ⟨l, hl, -⟩
  exact (writer_lock_eq hl).1

/-- A failed load is not seen unless a plugin of a library fails. -/
theorem failed_load_iff {paths : List String} {plugin path : Option String} {env : LoadEnv} {ret : Int}
    {out : Output} (hreach : Reachable paths ldr)
    (hload : step paths ldr (.load_plugin plugin path env) = some (ldr', ret, out)) (hret : ret < 0) :
    SameLoader paths ldr ldr' ↔
      ∀ api, opened paths plugin path env = some api → api.nplugins < 0 ∨ env.array = false := by
  rcases Option.map_eq_some_iff.mp hload with ⟨r, hr, heq⟩
  cases heq
  have hfree := load_free hr
  have hfree' := (load_plugin_lock hr).trans hfree
  rcases load_plugin_loads hr with ⟨p, hloads⟩
  generalize opened paths plugin path env = o at hloads ⊢
  generalize r.1 = ret at hloads hret
  generalize r.2 = ldr' at hloads hfree' ⊢
  generalize env.array = array at hloads ⊢
  cases hloads with
  | closed =>
    constructor
    · intro _ api hapi
      cases hapi
    · intro _
      exact (alike_relocate ldr p).same paths
  | refused hapi hn hneg hcond =>
    constructor
    · intro _ api' hapi'
      cases hapi'
      exact hcond
    · intro _
      exact (alike_withLibrary (wellFormed_of_reachable hreach) p _).same paths
  | @appended api library _ plugin hapi hn hle harray happ =>
    constructor
    · intro hsame
      exfalso
      have hnplugins := hsame.2 (.get_nplugins (-1)) trivial
      rw [get_nplugins_all paths hfree, get_nplugins_all paths hfree'] at hnplugins
      have hlen := happ.length
      have hmap : (relocate ldr p).plugin.length = ldr.plugin.length := List.length_map _
      have hcount : (plugin.length : Int) = ldr.plugin.length :=
        (Prod.ext_iff.mp (Option.some.inj hnplugins)).1
      rcases happ.code with ⟨-, hpos⟩ | ⟨hcode, -⟩
      · omega
      · omega
    · intro hcond
      rcases hcond _ rfl with hneg | hnone
      · omega
      · exact absurd (harray.symm.trans hnone) (by decide)

/-! ### A library whose second plugin has no type -/

/-- The library cannot be opened. -/
def envClosed : LoadEnv := { envOne with attempt := fun k => { envOne.attempt k with handle := none } }

theorem failed_load_closed : ∃ ldr,
    step [] loaderOne (.load_plugin none none envClosed) = some (ldr, -DREW_ERR_RESOLUTION, .none) ∧
      SameLoader [] loaderOne ldr := by
  have hload : step [] loaderOne (.load_plugin none none envClosed) =
    some (_, -DREW_ERR_RESOLUTION, .none) := rfl
  refine ⟨_, hload, ?_⟩
  apply (failed_load_iff ⟨_, .cons trivial step_loaderOne (.nil _)⟩ hload (by decide)).mpr
  intro api hapi
  cases hapi

/-- The first plugin is as that of `envOne`, the second has a type below zero. -/
def envHalf : LoadEnv where
  attempt _ := ⟨some 1, true, some 1, some ⟨2, fun k =>
    ⟨if k = 0 then 1 else -1, 8, 2, 0, (0, []), (0, ['a']), (0, emptyMetadata)⟩⟩⟩
  array := true
  mallocs _ := ⟨true, true, true⟩

/-- The first plugin is valid after the load has failed, and two plugins are reported. -/
theorem failed_load_seen : ∃ ldr,
    step [] drew_loader_new (.load_plugin none none envHalf) =
      some (ldr, -DREW_ERR_ENUMERATION, .none) ∧
    is_valid_id drew_loader_new 0 false = false ∧ is_valid_id ldr 0 false = true ∧
    (step [] drew_loader_new (.get_nplugins (-1))).map Prod.snd = some (0, .none) ∧
    (step [] ldr (.get_nplugins (-1))).map Prod.snd = some (2, .none) :=
  ⟨_, rfl, rfl, rfl, rfl, rfl⟩

end Drew.Loader
