import Drew.Loader.Load

/-!
# Ids are stable

What is known under an id stays so for ever: later loads append to both tables, and the back pointers
keep their distance from the table of libraries wherever it is put. The ids of a load begin where the
table of plugins ended.
-/

namespace Drew.Loader

/-! ## What is known under an id -/

/-- The contents of an entry, with the library that its pointer denotes. -/
structure Info where
  type : Int
  name : Cell (List Char)
  functbl : Cell FuncTbl
  functblsize : Int
  nmetadata : Int
  metadata : Cell (Nat → Metadata)
  library : Library

def infoOf (p : Plugin) (library : Library) : Info :=
  ⟨p.type, p.name, p.functbl, p.functblsize, p.nmetadata, p.metadata, library⟩

/-- What is known under the id, if it is valid. -/
def info (ldr : DrewLoader) (id : Nat) : Option Info :=
  match ldr.plugin[id]? with
  | none => none
  | some p => if p.flags &&& FLAG_PLUGIN_OK = 0 then none else (libAt ldr p.lib).map (infoOf p)

variable {ldr ldr' : DrewLoader} {id : Nat} {i : Info}

theorem info_eq_some_iff : info ldr id = some i ↔ ∃ p library, ldr.plugin[id]? = some p ∧
    p.flags &&& FLAG_PLUGIN_OK ≠ 0 ∧ libAt ldr p.lib = some library ∧ infoOf p library = i := by
  unfold info
  constructor
  · intro h
    split at h
    · cases h
    · rename_i p hp
      split at h
      · cases h
      · rename_i hflags
        rcases Option.map_eq_some_iff.mp h with ⟨library, hlib, heq⟩
        exact ⟨p, library, hp, hflags, hlib, heq⟩
  · rintro ⟨p, library, hp, hflags, hlib, rfl⟩
    rw [hp]
    dsimp only
    rw [if_neg hflags, hlib]
    rfl

theorem lt_length_of_info (h : info ldr id = some i) : id < ldr.plugin.length := by
  rcases info_eq_some_iff.mp h with ⟨p, library, hp, -⟩
  exact (List.getElem?_eq_some_iff.mp hp).1

/-! ## What stays -/

/-- Everything that is known stays known. -/
structure Keeps (ldr ldr' : DrewLoader) : Prop where
  length : ldr.plugin.length ≤ ldr'.plugin.length
  info : ∀ id i, info ldr id = some i → info ldr' id = some i

theorem Keeps.refl (ldr : DrewLoader) : Keeps ldr ldr := ⟨le_refl _, fun _ _ h => h⟩

theorem Keeps.trans {ldr'' : DrewLoader} (h : Keeps ldr ldr') (h' : Keeps ldr' ldr'') : Keeps ldr ldr'' :=
  ⟨h.length.trans h'.length, fun id i hi => h'.info id i (h.info id i hi)⟩

theorem libAt_relocate (ldr : DrewLoader) (p x : Int) :
    libAt (relocate ldr p) (p + (x - ldr.lib)) = libAt ldr x := by
  unfold libAt relocate
  dsimp only
  rw [add_sub_cancel_left]

theorem keeps_relocate (ldr : DrewLoader) (p : Int) : Keeps ldr (relocate ldr p) := by
  constructor
  · rw [relocate, List.length_map]
  · intro id i h
    rcases info_eq_some_iff.mp h with ⟨q, library, hq, hflags, hlib, rfl⟩
    apply info_eq_some_iff.mpr
    refine ⟨{ q with lib := p + (q.lib - ldr.lib) }, library, ?_, hflags, ?_, rfl⟩
    · rw [relocate, List.getElem?_map, hq]
      rfl
    · rw [libAt_relocate, hlib]

/-- A table that is longer has the same entries. -/
theorem libAt_append {lib : Int} {library : Library} {libs : List Library} (h : libAt ldr lib = some library) :
    libAt { ldr with libs := ldr.libs ++ libs } lib = some library := by
  unfold libAt at h ⊢
  split at h
  · rename_i hle
    dsimp only
    rw [if_pos hle, List.getElem?_append_left (List.getElem?_eq_some_iff.mp h).1, h]
  · cases h

theorem keeps_withLibrary {p : Int} {library : Library} {plugin : List Plugin}
    (hlen : ldr.plugin.length ≤ plugin.length)
    (hbefore : ∀ k, k < ldr.plugin.length → plugin[k]? = (relocate ldr p).plugin[k]?) :
    Keeps (relocate ldr p) (withLibrary ldr p library plugin) := by
  have hsame : (relocate ldr p).plugin.length = ldr.plugin.length := List.length_map _
  constructor
  · rw [hsame]
    exact hlen
  · intro id i h
    have hid := lt_length_of_info h
    rcases info_eq_some_iff.mp h with ⟨q, lib, hq, hflags, hlib, rfl⟩
    apply info_eq_some_iff.mpr
    refine ⟨q, lib, ?_, hflags, ?_, rfl⟩
    · rw [hsame] at hid
      exact (hbefore id hid).trans hq
    · exact libAt_append hlib

theorem Loads.keeps {array : Bool} {p ret : Int} {o : Option Api} (h : Loads ldr array p o ret ldr') :
    Keeps ldr ldr' := by
  have hsame : (relocate ldr p).plugin.length = ldr.plugin.length := List.length_map _
  apply (keeps_relocate ldr p).trans
  cases h with
  | closed => exact Keeps.refl _
  | refused => exact keeps_withLibrary hsame.ge (fun _ _ => rfl)
  | appended hapi hn hle harray happ =>
    have hlen := happ.length
    apply keeps_withLibrary
    · omega
    · intro k hk
      exact happ.before k (hsame ▸ hk)

theorem step_keeps {paths : List String} {op : Op} {out : Int × Output}
    (h : step paths ldr op = some (ldr', out)) : Keeps ldr ldr' := by
  rcases Classical.em (∃ plugin path env, op = .load_plugin plugin path env) with
    ⟨plugin, path, env, rfl⟩ | hop
  · rcases Option.map_eq_some_iff.mp h with ⟨r, hr, heq⟩
    cases heq
    rcases load_plugin_loads hr with ⟨p, hloads⟩
    exact hloads.keeps
  · rw [step_tables h fun plugin path env heq => hop ⟨plugin, path, env, heq⟩]
    exact ⟨le_refl _, fun _ _ h => h⟩

theorem Runs.keeps_info {paths : List String} {cond : DrewLoader → Op → Prop} {ops : List Op}
    (h : Runs paths cond ldr ops ldr') : Keeps ldr ldr' :=
  h.keeps (I := Keeps ldr) (fun _ _ _ _ _ hkeeps hstep => hkeeps.trans (step_keeps hstep)) (Keeps.refl ldr)

/-! ## What a load makes known -/

theorem ok_ne_zero : FLAG_PLUGIN_OK &&& FLAG_PLUGIN_OK ≠ 0 := by decide

/-- What the library says of the plugin. -/
def handed (a : Answers) (library : Library) : Info := infoOf (loaded_entry 0 0 a) library

theorem Loads.handed {array : Bool} {p ret : Int} {o : Option Api} (h : Loads ldr array p o ret ldr')
    (hret : 0 ≤ ret) : ∃ api library, o = some api ∧ library.api = some api ∧
      library.nplugins = api.nplugins ∧ ret = ldr.plugin.length ∧
      ldr.plugin.length + api.nplugins.toNat ≤ ldr'.plugin.length ∧
      ∀ j, j < api.nplugins.toNat →
        Loader.info ldr' (ldr.plugin.length + j) = some (Loader.handed (api.plugin j) library) := by
  have hsame : (relocate ldr p).plugin.length = ldr.plugin.length := List.length_map _
  cases h with
  | closed hneg => omega
  | refused _ _ hneg _ => omega
  | @appended api library ret plugin hapi hn hle harray happ =>
    have hlen := happ.length
    rcases happ.code with ⟨hneg, -⟩ | ⟨hcode, hloaded⟩
    · omega
    · rw [hsame] at hcode hloaded hlen
      refine ⟨api, library, rfl, hapi, hn, hcode, ?_, ?_⟩
      · rw [withLibrary]
        dsimp only
        omega
      · intro j hj
        apply info_eq_some_iff.mpr
        refine ⟨_, library, hloaded j hj, ok_ne_zero, ?_, rfl⟩
        exact @libAt_last (withLibrary ldr p library plugin) _ _ rfl

/-- The ids of a load keep their meaning in every run, and later loads get others. -/
theorem ids_stable {paths : List String} {ldr ldr' ldr'' : DrewLoader} {plugin path : Option String}
    {env : LoadEnv} {ret : Int} {out : Output} {ops : List Op}
    (hload : step paths ldr (.load_plugin plugin path env) = some (ldr', ret, out)) (hret : 0 ≤ ret)
    (hruns : Runs paths (fun _ _ => True) ldr' ops ldr'') :
    ∃ api library, opened paths plugin path env = some api ∧ library.api = some api ∧
      library.nplugins = api.nplugins ∧ ret = ldr.plugin.length ∧
      ldr.plugin.length + api.nplugins.toNat ≤ ldr'.plugin.length ∧
      (∀ j, j < api.nplugins.toNat →
        info ldr'' (ldr.plugin.length + j) = some (handed (api.plugin j) library)) ∧
      ∀ {plugin₂ path₂ env₂ ldr₂ ret₂ out₂},
        step paths ldr'' (.load_plugin plugin₂ path₂ env₂) = some (ldr₂, ret₂, out₂) → 0 ≤ ret₂ →
        ldr'.plugin.length ≤ ret₂ := by
  have hkeeps := hruns.keeps_info
  rcases Option.map_eq_some_iff.mp hload with ⟨r, hr, heq⟩
  cases heq
  rcases load_plugin_loads hr with ⟨p, hloads⟩
  rcases hloads.handed hret with ⟨api, library, hopened, hapi, hn, hcode, hlen, hinfo⟩
  refine ⟨api, library, hopened, hapi, hn, hcode, hlen, ?_, ?_⟩
  · intro j hj
    exact hkeeps.info _ _ (hinfo j hj)
  · intro plugin₂ path₂ env₂ ldr₂ ret₂ out₂ hlater hret₂
    rcases Option.map_eq_some_iff.mp hlater with ⟨r', hr', heq⟩
    cases heq
    rcases load_plugin_loads hr' with ⟨p', hloads'⟩
    rcases hloads'.handed hret₂ with ⟨-, -, -, -, -, hcode', -⟩
    rw [hcode']
    exact_mod_cast hkeeps.length

/-! ### A second load, for which the table of libraries is moved -/

def envMoved : LoadEnv := { envOne with attempt := fun k => { envOne.attempt k with lib := some 7 } }

theorem ids_stable_moved : ∃ ldr api library,
    Runs [] (fun _ _ => True) loaderOne [.load_plugin none none envMoved] ldr ∧
      opened [] none none envOne = some api ∧ ldr.lib = 7 ∧
      info ldr 0 = some (handed (api.plugin 0) library) := by
  have hruns : Runs [] (fun _ _ => True) loaderOne [.load_plugin none none envMoved] _ :=
    .cons trivial rfl (.nil _)
  rcases ids_stable step_loaderOne (by decide) hruns with ⟨api, library, hopened, -, -, -, -, hinfo, -⟩
  have hone : 0 < api.nplugins.toNat := by
    cases hopened
    decide
  exact ⟨_, api, library, hruns, hopened, rfl, hinfo 0 hone⟩

end Drew.Loader
