import Drew.Loader.Lock

/-!
# What a load does

A load moves the table of libraries, appends the new library and appends the plugins; the back pointers
of the plugins that were there keep their distance from the table. If a plugin fails the entries before
it stay, and so does the length of the table.
-/

namespace Drew.Loader

/-! ## Moving the table of libraries -/

/-- The table of libraries is at `p`. -/
def relocate (ldr : DrewLoader) (p : Int) : DrewLoader :=
  { ldr with lib := p, plugin := ldr.plugin.map (fun q => { q with lib := p + (q.lib - ldr.lib) }) }

@[simp] theorem relocate_libs (ldr : DrewLoader) (p : Int) : (relocate ldr p).libs = ldr.libs := rfl

theorem relocate_self (ldr : DrewLoader) : relocate ldr ldr.lib = ldr := by
  have hid : (fun q : Plugin => { q with lib := ldr.lib + (q.lib - ldr.lib) }) = id := by
    ext q
    rw [add_sub_cancel]
    rfl
  rw [relocate, hid, List.map_id]

theorem relocate_relocate (ldr : DrewLoader) (p p' : Int) :
    relocate (relocate ldr p) p' = relocate ldr p' := by
  unfold relocate
  dsimp only
  rw [List.map_map]
  congr 1
  apply List.map_congr_left
  intro q _
  dsimp only [Function.comp]
  rw [add_sub_cancel_left]

/-! ## The new library -/

/-- What the call finds, if the library is loaded. -/
def opens (library path : Option String) (e : Attempt) : Option Api :=
  match e.lib with
  | none => none
  | some _ => if (open_entry library path e).1 = 0 then (open_entry library path e).2.api else none

theorem open_entry_cases (library path : Option String) (e : Attempt) :
    (open_entry library path e).1 < 0 ∨
      (open_entry library path e).1 = 0 ∧ ∃ api, (open_entry library path e).2.api = some api := by
  unfold open_entry
  cases library with
  | none =>
    cases e.handle with
    | none => exact .inl neg_DREW_ERR_RESOLUTION_lt
    | some handle =>
      cases e.api with
      | none => exact .inl neg_DREW_ERR_ENUMERATION_lt
      | some api => exact .inr ⟨rfl, api, rfl⟩
  | some library =>
    dsimp only
    split
    · exact .inl neg_ENOMEM_lt
    · cases e.handle with
      | none => exact .inl neg_DREW_ERR_RESOLUTION_lt
      | some handle =>
        cases e.api with
        | none => exact .inl neg_DREW_ERR_ENUMERATION_lt
        | some api => exact .inr ⟨rfl, api, rfl⟩

/-- The table is moved, and the library appended if it is loaded. -/
theorem load_library_cases (ldr : DrewLoader) (library path : Option String) (e : Attempt) :
    (opens library path e = none ∧ (load_library ldr library path e).1 < 0 ∧
        ∃ p, (load_library ldr library path e).2.2 = relocate ldr p) ∨
      ∃ (api : Api) (p : Int) (lib : Library), opens library path e = some api ∧ lib.api = some api ∧
        load_library ldr library path e =
          (0, p + ldr.libs.length, { relocate ldr p with libs := ldr.libs ++ [lib] }) := by
  unfold opens load_library
  cases e.lib with
  | none => exact .inl ⟨rfl, neg_ENOMEM_lt, ldr.lib, (relocate_self ldr).symm⟩
  | some p =>
    have hmove : (if p ≠ ldr.lib then
        { ldr with plugin := ldr.plugin.map (fun q => { q with lib := p + (q.lib - ldr.lib) }) }
        else ldr) = { relocate ldr p with lib := ldr.lib } := by
      split
      · rfl
      · rename_i heq
        rw [not_not] at heq
        subst heq
        rw [relocate_self]
    dsimp only
    rw [hmove]
    rcases open_entry_cases library path e with hneg | ⟨hzero, api, hapi⟩
    · rw [if_neg hneg.ne, if_pos hneg.ne]
      exact .inl ⟨rfl, hneg, p, rfl⟩
    · rw [if_pos hzero, if_neg (not_not.mpr hzero)]
      exact .inr ⟨api, p, _, hapi, hapi, rfl⟩

/-- The first of the paths from `i` on where the library is loaded. -/
def searches (plugin : String) (env : LoadEnv) : List String → Nat → Option Api
  | [], _ => none
  | path :: paths, i =>
    match opens (some plugin) (some path) (env.attempt i) with
    | some api => some api
    | none => searches plugin env paths (i + 1)

theorem search_library_cases (plugin : String) (env : LoadEnv) (paths : List String) (i : Nat)
    (ldr : DrewLoader) :
    (searches plugin env paths i = none ∧ (search_library ldr plugin env paths i).1 = none ∧
        ∃ p, (search_library ldr plugin env paths i).2 = relocate ldr p) ∨
      ∃ (api : Api) (p : Int) (lib : Library), searches plugin env paths i = some api ∧ lib.api = some api ∧
        search_library ldr plugin env paths i =
          (some (p + ldr.libs.length), { relocate ldr p with libs := ldr.libs ++ [lib] }) := by
  induction paths generalizing i ldr with
  | nil => exact .inl ⟨rfl, rfl, ldr.lib, (relocate_self ldr).symm⟩
  | cons path paths ih =>
    unfold searches search_library
    rcases load_library_cases ldr (some plugin) (some path) (env.attempt i) with
      ⟨hnone, hneg, p, hp⟩ | ⟨api, p, lib, hsome, hapi, heq⟩
    · rw [hnone]
      dsimp only
      rw [if_neg hneg.ne, hp]
      have hrest := ih (i + 1) (relocate ldr p)
      simp only [relocate_relocate, relocate_libs] at hrest
      exact hrest
    · rw [hsome, heq]
      exact .inr ⟨api, p, lib, rfl, hapi, rfl⟩

/-! ## The plugins -/

/-- The entry of a plugin that is loaded. -/
def loaded_entry (lib : Int) (id : Int) (a : Answers) : Plugin where
  name := .live (a.name.2.take (a.namesize - 1).toNat)
  lib := lib
  functbl := .live a.functbl.2
  functblsize := a.functblsize
  id := id
  type := a.type
  flags := FLAG_PLUGIN_OK
  nmetadata := (if a.mdsize < 0 then 0 else a.mdsize) / sizeofMetadata
  metadata := if (if a.mdsize < 0 then 0 else a.mdsize) ≠ 0 then .live a.metadata.2 else .null

theorem load_entry_cases (lib id : Int) (a : Answers) (m : Mallocs) :
    load_entry lib id a m = (0, loaded_entry lib id a) ∨
      (load_entry lib id a m).1 < 0 ∧ (load_entry lib id a m).2.flags = 0 := by
  unfold load_entry loaded_entry
  split
  · exact .inr ⟨neg_DREW_ERR_ENUMERATION_lt, rfl⟩
  split
  · exact .inr ⟨neg_DREW_ERR_ENUMERATION_lt, rfl⟩
  split
  · exact .inr ⟨neg_DREW_ERR_ENUMERATION_lt, rfl⟩
  dsimp only
  generalize (if a.mdsize < 0 then 0 else a.mdsize) = mdsize
  split
  · exact .inr ⟨neg_ENOMEM_lt, rfl⟩
  split
  · exact .inr ⟨neg_ENOMEM_lt, rfl⟩
  split
  · exact .inr ⟨neg_ENOMEM_lt, rfl⟩
  split
  · exact .inr ⟨neg_DREW_ERR_FUNCTION_lt, rfl⟩
  split
  · exact .inr ⟨neg_DREW_ERR_ENUMERATION_lt, rfl⟩
  split
  · exact .inr ⟨neg_DREW_ERR_ENUMERATION_lt, rfl⟩
  · exact .inl rfl

section

variable {lib : Int} {offset : Nat} {api : Api} {env : LoadEnv}

/-- The loop changes the plugins only. -/
theorem load_entries_eq (n i : Nat) (ldr : DrewLoader) :
    (load_entries lib offset api env n i ldr).2 =
      { ldr with plugin := (load_entries lib offset api env n i ldr).2.plugin } := by
  induction n generalizing i ldr with
  | zero => rfl
  | succ n ih =>
    unfold load_entries
    dsimp only
    split
    · rfl
    · rw [ih]

theorem load_entries_length (n i : Nat) (ldr : DrewLoader) :
    (load_entries lib offset api env n i ldr).2.plugin.length = ldr.plugin.length := by
  induction n generalizing i ldr with
  | zero => rfl
  | succ n ih =>
    unfold load_entries
    dsimp only
    split
    · exact List.length_set
    · rw [ih]
      exact List.length_set

/-- The entries before stay. -/
theorem load_entries_before (n i : Nat) (ldr : DrewLoader) {k : Nat} (hk : k < offset + i) :
    (load_entries lib offset api env n i ldr).2.plugin[k]? = ldr.plugin[k]? := by
  induction n generalizing i ldr with
  | zero => rfl
  | succ n ih =>
    unfold load_entries
    dsimp only
    split
    · exact List.getElem?_set_ne (by omega)
    · rw [ih (i + 1) _ (by omega)]
      exact List.getElem?_set_ne (by omega)

theorem load_entries_code (n i : Nat) (ldr : DrewLoader) :
    (load_entries lib offset api env n i ldr).1 ≤ 0 := by
  induction n generalizing i ldr with
  | zero => exact le_refl _
  | succ n ih =>
    unfold load_entries
    dsimp only
    split
    · rename_i hne
      rcases load_entry_cases lib (offset + i : Nat) (api.plugin i) (env.mallocs i) with heq | ⟨hneg, -⟩
      · rw [heq] at hne
        exact absurd rfl hne
      · exact hneg.le
    · exact ih _ _

/-- Without an error every plugin is loaded. -/
theorem load_entries_loaded (n i : Nat) (ldr : DrewLoader) (hlen : offset + i + n ≤ ldr.plugin.length)
    (hzero : (load_entries lib offset api env n i ldr).1 = 0) {j : Nat} (hi : i ≤ j) (hj : j < i + n) :
    (load_entries lib offset api env n i ldr).2.plugin[offset + j]? =
      some (loaded_entry lib (offset + j : Nat) (api.plugin j)) := by
  induction n generalizing i ldr with
  | zero => omega
  | succ n ih =>
    unfold load_entries at hzero ⊢
    dsimp only at hzero ⊢
    rcases load_entry_cases lib (offset + i : Nat) (api.plugin i) (env.mallocs i) with heq | ⟨hneg, -⟩
    · rw [heq] at hzero ⊢
      rw [if_neg (by simp)] at hzero ⊢
      rcases Nat.eq_or_lt_of_le hi with rfl | hlt
      · rw [load_entries_before _ _ _ (by omega)]
        exact List.getElem?_set_self (by omega)
      · apply ih _ _ _ hzero hlt (by omega)
        rw [List.length_set]
        omega
    · rw [if_pos hneg.ne] at hzero
      exact absurd hzero hneg.ne

theorem free_entry_flags (p : Plugin) : (free_entry p).flags = p.flags := rfl

/-- The entry is that of no plugin that is loaded, or it belongs to the library. -/
def Belongs (lib : Int) (p : Plugin) : Prop := p.flags &&& FLAG_PLUGIN_OK = 0 ∨ p.lib = lib

theorem load_entries_belongs (n i : Nat) (ldr : DrewLoader)
    (h : ∀ k p, offset ≤ k → ldr.plugin[k]? = some p → Belongs lib p) :
    ∀ k p, offset ≤ k → (load_entries lib offset api env n i ldr).2.plugin[k]? = some p →
      Belongs lib p := by
  induction n generalizing i ldr with
  | zero => exact h
  | succ n ih =>
    have hset : ∀ q, Belongs lib q → ∀ k p, offset ≤ k →
        (ldr.plugin.set (offset + i) q)[k]? = some p → Belongs lib p := by
      intro q hq k p hk hp
      by_cases heq : offset + i = k
      · subst heq
        rw [List.getElem?_set_self'] at hp
        rcases Option.map_eq_some_iff.mp hp with ⟨x, -, hx⟩
        exact hx ▸ hq
      · rw [List.getElem?_set_ne heq] at hp
        exact h k p hk hp
    unfold load_entries
    dsimp only
    rcases load_entry_cases lib (offset + i : Nat) (api.plugin i) (env.mallocs i) with heq | ⟨hneg, hflags⟩
    · rw [heq, if_neg (by simp)]
      exact ih _ _ (hset _ (.inr rfl))
    · rw [if_pos hneg.ne]
      apply hset
      left
      rw [free_entry_flags, hflags]
      rfl

end

/-- The table after the plugins of a library have been appended to `old`. -/
structure Appended (old : List Plugin) (lib : Int) (api : Api) (ret : Int) (plugin : List Plugin) :
    Prop where
  length : plugin.length = old.length + (api.nplugins.toNat + if api.nplugins = 0 then 1 else 0)
  before : ∀ k, k < old.length → plugin[k]? = old[k]?
  belongs : ∀ k p, old.length ≤ k → plugin[k]? = some p → Belongs lib p
  code : ret < 0 ∧ 0 < api.nplugins ∨ ret = old.length ∧ ∀ j, j < api.nplugins.toNat →
    plugin[old.length + j]? = some (loaded_entry lib (old.length + j : Nat) (api.plugin j))

/-- The loop makes the table from one that is long enough and whose new entries are empty. -/
theorem appended_of_start {old start : List Plugin} {lib : Int} {api : Api} {env : LoadEnv}
    {ldr : DrewLoader} (hldr : ldr.plugin = start)
    (hlen : start.length = old.length + (api.nplugins.toNat + if api.nplugins = 0 then 1 else 0))
    (hbefore : ∀ k, k < old.length → start[k]? = old[k]?)
    (hbelongs : ∀ k p, old.length ≤ k → start[k]? = some p → Belongs lib p) :
    Appended old lib api
      (if (load_entries lib old.length api env api.nplugins.toNat 0 ldr).1 ≠ 0 then
        (load_entries lib old.length api env api.nplugins.toNat 0 ldr).1 else (old.length : Int))
      (load_entries lib old.length api env api.nplugins.toNat 0 ldr).2.plugin where
  length := by rw [load_entries_length, hldr, hlen]
  before k hk := by rw [load_entries_before _ _ _ (by omega), hldr, hbefore k hk]
  belongs := load_entries_belongs _ _ _ (by rw [hldr]; exact hbelongs)
  code := by
    by_cases hzero : (load_entries lib old.length api env api.nplugins.toNat 0 ldr).1 = 0
    · rw [if_neg (not_not.mpr hzero)]
      refine .inr ⟨rfl, ?_⟩
      intro j hj
      exact load_entries_loaded _ _ _ (by rw [hldr, hlen]; omega) hzero (Nat.zero_le j) (by omega)
    · rw [if_pos hzero]
      refine .inl ⟨lt_of_le_of_ne (load_entries_code _ _ _) hzero, ?_⟩
      -- Without plugins there is no turn of the loop that could fail.
      by_contra hn
      apply hzero
      rw [show api.nplugins.toNat = 0 by omega]
      rfl

theorem belongs_dummy (lib : Int) : Belongs lib { emptyPlugin with flags := FLAG_PLUGIN_DUMMY } := .inl rfl

theorem belongs_replicate (old : List Plugin) (lib : Int) (n k : Nat) (p : Plugin) (hk : old.length ≤ k)
    (hp : (old ++ List.replicate n emptyPlugin)[k]? = some p) : Belongs lib p := by
  rw [List.getElem?_append_right hk] at hp
  rw [List.eq_of_mem_replicate (List.mem_of_getElem? hp)]
  exact .inl rfl

section

variable {ldr : DrewLoader} {libs : List Library} {library : Library} {api : Api} {env : LoadEnv}
  (hlibs : ldr.libs = libs ++ [library]) (hapi : library.api = some api)

include hlibs in
theorem libAt_last : libAt ldr (ldr.lib + libs.length) = some library := by
  unfold libAt
  rw [add_sub_cancel_left, if_pos (Int.natCast_nonneg _), Int.toNat_natCast, hlibs]
  exact List.getElem?_concat_length

include hlibs hapi

theorem load_library_info_fails (h : api.nplugins < 0 ∨ env.array = false) :
    ∃ ret, ret < 0 ∧ load_library_info ldr (ldr.lib + libs.length) env =
      some (ret, { ldr with libs := libs ++ [{ library with nplugins := api.nplugins }] }) := by
  unfold load_library_info
  rw [libAt_last hlibs, Option.bind_eq_bind, Option.bind_some, hapi, Option.bind_eq_bind, Option.bind_some,
    add_sub_cancel_left, Int.toNat_natCast, hlibs, List.set_append_right _ _ (le_refl _), Nat.sub_self]
  dsimp only
  by_cases hneg : api.nplugins < 0
  · rw [if_pos hneg]
    exact ⟨_, neg_DREW_ERR_ENUMERATION_lt, rfl⟩
  · rw [if_neg hneg, if_pos (by rw [h.resolve_left hneg]; rfl)]
    exact ⟨_, neg_ENOMEM_lt, rfl⟩

theorem load_library_info_appends (hn : 0 ≤ api.nplugins) (harray : env.array = true) :
    ∃ ret plugin, Appended ldr.plugin (ldr.lib + libs.length) api ret plugin ∧
      load_library_info ldr (ldr.lib + libs.length) env = some (ret, { ldr with
        libs := libs ++ [{ library with nplugins := api.nplugins }], plugin := plugin }) := by
  unfold load_library_info
  rw [libAt_last hlibs, Option.bind_eq_bind, Option.bind_some, hapi, Option.bind_eq_bind, Option.bind_some,
    add_sub_cancel_left, Int.toNat_natCast, hlibs, List.set_append_right _ _ (le_refl _), Nat.sub_self]
  dsimp only
  rw [if_neg (not_lt.mpr hn), if_neg (by rw [harray]; simp)]
  by_cases hzero : api.nplugins = 0
  · rw [if_pos hzero]
    refine ⟨_, _, appended_of_start rfl ?_ ?_ ?_, congrArg some (Prod.ext rfl (load_entries_eq _ _ _))⟩
    · rw [List.length_set, List.length_append, List.length_replicate]
    · intro k hk
      rw [List.getElem?_set_ne (by simp [hzero]; omega), List.getElem?_append_left hk]
    · intro k p hk hp
      by_cases heq : (ldr.plugin ++ List.replicate (api.nplugins.toNat +
          if api.nplugins = 0 then 1 else 0) emptyPlugin).length - 1 = k
      · subst heq
        rw [List.getElem?_set_self'] at hp
        rcases Option.map_eq_some_iff.mp hp with ⟨x, -, hx⟩
        rw [← hx]
        exact belongs_dummy _
      · rw [List.getElem?_set_ne heq] at hp
        exact belongs_replicate _ _ _ _ _ hk hp
  · rw [if_neg hzero]
    refine ⟨_, _, appended_of_start rfl ?_ ?_ ?_, congrArg some (Prod.ext rfl (load_entries_eq _ _ _))⟩
    · rw [List.length_append, List.length_replicate]
    · intro k hk
      rw [List.getElem?_append_left hk]
    · intro k p hk hp
      exact belongs_replicate _ _ _ _ _ hk hp

end

/-! ## The whole load -/

/-- The library that is loaded, if one is. -/
def opened (paths : List String) (plugin path : Option String) (env : LoadEnv) : Option Api :=
  match plugin, path with
  | some plugin, none => searches plugin env paths 0
  | _, _ => opens plugin path (env.attempt 0)

theorem opened_eq {paths : List String} {plugin path : Option String} {env : LoadEnv}
    (h : ∀ name, plugin = some name → path = none → False) :
    opened paths plugin path env = opens plugin path (env.attempt 0) := by
  unfold opened
  split
  · exact absurd rfl (h _ rfl)
  · rfl

/-- The loader after a library has been appended to the table at `p`. -/
def withLibrary (ldr : DrewLoader) (p : Int) (library : Library) (plugin : List Plugin) : DrewLoader :=
  { ldr with lib := p, libs := ldr.libs ++ [library], plugin := plugin }

/-- No library is loaded, or its plugins are not, or they are appended. -/
inductive Loads (ldr : DrewLoader) (array : Bool) (p : Int) : Option Api → Int → DrewLoader → Prop
  | closed {ret} : ret < 0 → Loads ldr array p none ret (relocate ldr p)
  | refused {api library ret} : library.api = some api → library.nplugins = api.nplugins → ret < 0 →
      (api.nplugins < 0 ∨ array = false) →
      Loads ldr array p (some api) ret (withLibrary ldr p library (relocate ldr p).plugin)
  | appended {api library ret plugin} : library.api = some api → library.nplugins = api.nplugins →
      0 ≤ api.nplugins → array = true →
      Appended (relocate ldr p).plugin (p + ldr.libs.length) api ret plugin →
      Loads ldr array p (some api) ret (withLibrary ldr p library plugin)

theorem load_library_info_loads {ldr l ldr' : DrewLoader} {library : Library} {api : Api} {env : LoadEnv}
    {p ret : Int} (hl : writer_lock ldr = some l) (hapi : library.api = some api)
    (h : load_library_info { relocate l p with libs := l.libs ++ [library] } (p + l.libs.length) env =
      some (ret, ldr')) : Loads ldr env.array p (some api) ret (writer_unlock ldr') := by
  rcases writer_lock_eq hl with ⟨hfree, rfl⟩
  have hunlock : ∀ (library : Library) (plugin : List Plugin), withLibrary ldr p library plugin =
      writer_unlock { ldr with
        lib := p, libs := ldr.libs ++ [library], plugin := plugin, lock := ⟨0, true⟩ } := by
    intro library plugin
    unfold writer_unlock withLibrary
    rw [hfree]
  rcases Classical.em (api.nplugins < 0 ∨ env.array = false) with hfail | hok
  · rcases @load_library_info_fails { relocate { ldr with lock := ⟨0, true⟩ } p with
      libs := ldr.libs ++ [library] } _ _ _ _ rfl hapi hfail with ⟨ret', hneg, heq⟩
    cases h.symm.trans heq
    have hloads := @Loads.refused ldr env.array p api { library with nplugins := api.nplugins } ret hapi rfl hneg hfail
    rwa [hunlock] at hloads
  · rw [not_or, not_lt, Bool.not_eq_false] at hok
    rcases @load_library_info_appends { relocate { ldr with lock := ⟨0, true⟩ } p with
      libs := ldr.libs ++ [library] } _ _ _ _ rfl hapi hok.1 hok.2 with ⟨ret', plugin, happended, heq⟩
    cases h.symm.trans heq
    have hloads := @Loads.appended ldr env.array p api { library with nplugins := api.nplugins } ret plugin hapi rfl hok.1 hok.2 happended
    rwa [hunlock] at hloads

theorem load_plugin_loads {paths : List String} {ldr ldr' : DrewLoader} {plugin path : Option String}
    {env : LoadEnv} {ret : Int}
    (h : drew_loader_load_plugin paths ldr plugin path env = some (ret, ldr')) :
    ∃ p, Loads ldr env.array p (opened paths plugin path env) ret ldr' := by
  rcases Option.bind_eq_some_iff.mp h with ⟨l, hl, h⟩
  have hrelocate : ∀ p, writer_unlock (relocate l p) = relocate ldr p := by
    intro p
    rcases writer_lock_eq hl with ⟨hfree, rfl⟩
    unfold writer_unlock relocate
    rw [hfree]
  split at h
  · rename_i plugin hload
    rw [opened]
    dsimp only at h ⊢
    rcases search_library_cases plugin env paths 0 l with
      ⟨hnone, hret, p, hp⟩ | ⟨api, p, lib, hsome, hapi, heq⟩
    · rw [hret, hp] at h
      cases h
      rw [hnone, hrelocate]
      exact ⟨p, .closed neg_DREW_ERR_RESOLUTION_lt⟩
    · rw [heq] at h
      rcases Option.bind_eq_some_iff.mp h with ⟨r, hr, h⟩
      cases h
      rw [hsome]
      exact ⟨p, load_library_info_loads hl hapi hr⟩
  · rename_i hcase
    rw [opened_eq hcase]
    dsimp only at h
    rcases load_library_cases l plugin path (env.attempt 0) with
      ⟨hnone, hneg, p, hp⟩ | ⟨api, p, lib, hsome, hapi, heq⟩
    · rw [if_pos hneg.ne, hp] at h
      cases h
      rw [hnone, hrelocate]
      exact ⟨p, .closed hneg⟩
    · rw [heq, if_neg (by simp)] at h
      rcases Option.bind_eq_some_iff.mp h with ⟨r, hr, h⟩
      cases h
      rw [hsome]
      exact ⟨p, load_library_info_loads hl hapi hr⟩

end Drew.Loader
