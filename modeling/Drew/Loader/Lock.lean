import Mathlib.Tactic
import Drew.Loader.Model

/-!
# The lock of the loader

Every function gives back the lock that it takes, on every path but one: `drew_loader_get_metadata`
keeps the lock for an item below `-1` of a valid id. No load returns after that.
-/

namespace Drew.Loader

/-! ## The functions that read -/

variable {ldr l ldr' : DrewLoader}

theorem reader_unlock_of_lock (h : reader_lock ldr = some l) : reader_unlock l = ldr := by
  unfold reader_lock at h
  split at h
  · cases h
  · cases h
    rfl

/-- With the lock the same things are read. -/
theorem eq_of_reader_lock (h : reader_lock ldr = some l) :
    l = { ldr with lock := { ldr.lock with readers := ldr.lock.readers + 1 } } := by
  unfold reader_lock at h
  split at h
  · cases h
  · exact (Option.some.inj h).symm

theorem get_nplugins_loader {id r : Int} (h : drew_loader_get_nplugins ldr id = some (r, ldr')) :
    ldr' = ldr := by
  rcases Option.bind_eq_some_iff.mp h with ⟨l, hl, h⟩
  have hback := reader_unlock_of_lock hl
  split at h
  · cases h
    exact hback
  · split at h
    · cases h
      exact hback
    · rcases Option.bind_eq_some_iff.mp h with ⟨lib, -, h⟩
      cases h
      exact hback

theorem get_type_loader {id r : Int} (h : drew_loader_get_type ldr id = some (r, ldr')) : ldr' = ldr := by
  rcases Option.bind_eq_some_iff.mp h with ⟨l, hl, h⟩
  cases h
  exact reader_unlock_of_lock hl

theorem get_functbl_loader {id : Int} {r} (h : drew_loader_get_functbl ldr id = some (r, ldr')) :
    ldr' = ldr := by
  rcases Option.bind_eq_some_iff.mp h with ⟨l, hl, h⟩
  split at h
  all_goals
    cases h
    exact reader_unlock_of_lock hl

theorem get_algo_name_loader {id : Int} {r} (h : drew_loader_get_algo_name ldr id = some (r, ldr')) :
    ldr' = ldr := by
  rcases Option.bind_eq_some_iff.mp h with ⟨l, hl, h⟩
  split at h
  all_goals
    cases h
    exact reader_unlock_of_lock hl

theorem lookup_by_name_loader {name : List Char} {start stop r : Int}
    (h : drew_loader_lookup_by_name ldr name start stop = some (r, ldr')) : ldr' = ldr := by
  rcases Option.bind_eq_some_iff.mp h with ⟨l, hl, h⟩
  rcases Option.bind_eq_some_iff.mp h with ⟨found, -, h⟩
  cases found
  all_goals
    cases h
    exact reader_unlock_of_lock hl

theorem lookup_by_type_loader {type start stop r : Int}
    (h : drew_loader_lookup_by_type ldr type start stop = some (r, ldr')) : ldr' = ldr := by
  rcases Option.bind_eq_some_iff.mp h with ⟨l, hl, h⟩
  rcases Option.bind_eq_some_iff.mp h with ⟨found, -, h⟩
  cases found
  all_goals
    cases h
    exact reader_unlock_of_lock hl

/-- The lock is kept for an item below `-1`. -/
theorem get_metadata_loader {id item : Int} {files : String → Bool} {r}
    (h : drew_loader_get_metadata ldr id item files = some (r, ldr')) :
    ldr' = if is_valid_id ldr id false = true ∧ item < -1 then
      { ldr with lock := { ldr.lock with readers := ldr.lock.readers + 1 } } else ldr := by
  rcases Option.bind_eq_some_iff.mp h with ⟨l, hl, h⟩
  have hback := reader_unlock_of_lock hl
  have hlock := eq_of_reader_lock hl
  have hvalid : is_valid_id l id false = is_valid_id ldr id false := by
    rw [hlock]
    rfl
  rw [hvalid] at h
  by_cases hid : is_valid_id ldr id false = true
  · rw [if_neg (by simp [hid])] at h
    by_cases hone : item = -1
    · rw [if_pos hone] at h
      rcases Option.bind_eq_some_iff.mp h with ⟨ret, -, h⟩
      cases h
      rw [if_neg (by omega), hback]
    · rw [if_neg hone] at h
      by_cases hneg : item < 0
      · rw [if_pos hneg] at h
        cases h
        rw [if_pos ⟨hid, by omega⟩, hlock]
      · rw [if_neg hneg] at h
        rw [if_neg (by omega)]
        split at h
        · rcases Option.bind_eq_some_iff.mp h with ⟨metadata, -, h⟩
          cases h
          exact hback
        · rcases Option.bind_eq_some_iff.mp h with ⟨ret, -, h⟩
          split at h
          all_goals
            cases h
            exact hback
  · rw [if_pos (by simp [hid])] at h
    cases h
    rw [if_neg (fun hand => hid hand.1), hback]

/-! ## Loading -/

theorem load_library_lock (ldr : DrewLoader) (library path : Option String) (e : Attempt) :
    (load_library ldr library path e).2.2.lock = ldr.lock := by
  unfold load_library
  cases e.lib with
  | none => rfl
  | some p =>
    dsimp only
    split <;> split <;> rfl

theorem search_library_lock (plugin : String) (env : LoadEnv) (paths : List String) (i : Nat)
    (ldr : DrewLoader) : (search_library ldr plugin env paths i).2.lock = ldr.lock := by
  induction paths generalizing i ldr with
  | nil => rfl
  | cons path paths ih =>
    unfold search_library
    dsimp only
    split
    · exact load_library_lock _ _ _ _
    · rw [ih]
      exact load_library_lock _ _ _ _

theorem load_entries_lock (lib : Int) (offset : Nat) (api : Api) (env : LoadEnv) (n i : Nat)
    (ldr : DrewLoader) : (load_entries lib offset api env n i ldr).2.lock = ldr.lock := by
  induction n generalizing i ldr with
  | zero => rfl
  | succ n ih =>
    unfold load_entries
    dsimp only
    split
    · rfl
    · rw [ih]

theorem load_library_info_lock {lib r : Int} {env : LoadEnv}
    (h : load_library_info ldr lib env = some (r, ldr')) : ldr'.lock = ldr.lock := by
  rcases Option.bind_eq_some_iff.mp h with ⟨entry, -, h⟩
  rcases Option.bind_eq_some_iff.mp h with ⟨api, -, h⟩
  dsimp only at h
  split at h
  · cases h
    rfl
  · split at h
    · cases h
      rfl
    · cases h
      rw [load_entries_lock]
      split <;> rfl

theorem writer_lock_eq (h : writer_lock ldr = some l) :
    ldr.lock = ⟨0, false⟩ ∧ l = { ldr with lock := ⟨0, true⟩ } := by
  unfold writer_lock at h
  split at h
  · cases h
  · rename_i hfree
    rw [Bool.or_eq_true, not_or, Bool.not_eq_true, bne_iff_ne, not_not] at hfree
    have hlock : ldr.lock = ⟨0, false⟩ := by
      cases hl : ldr.lock
      rw [hl] at hfree
      cases hfree.1
      cases hfree.2
      rfl
    rw [hlock] at h
    exact ⟨hlock, (Option.some.inj h).symm⟩

theorem writer_unlock_lock (h : writer_lock ldr = some l) (hkeep : ldr'.lock = l.lock) :
    (writer_unlock ldr').lock = ldr.lock := by
  rcases writer_lock_eq h with ⟨hfree, hl⟩
  rw [writer_unlock, hkeep, hl, hfree]

theorem load_plugin_lock {paths : List String} {plugin path : Option String} {env : LoadEnv} {r : Int}
    (h : drew_loader_load_plugin paths ldr plugin path env = some (r, ldr')) : ldr'.lock = ldr.lock := by
  rcases Option.bind_eq_some_iff.mp h with ⟨l, hl, h⟩
  split at h
  · rename_i plugin hload
    dsimp only at h
    have hsearch := search_library_lock plugin env paths 0 l
    split at h
    · cases h
      exact writer_unlock_lock hl hsearch
    · rcases Option.bind_eq_some_iff.mp h with ⟨ret, hret, h⟩
      cases h
      exact writer_unlock_lock hl ((load_library_info_lock hret).trans hsearch)
  · have hload := load_library_lock l plugin path (env.attempt 0)
    dsimp only at h
    split at h
    · cases h
      exact writer_unlock_lock hl hload
    · rcases Option.bind_eq_some_iff.mp h with ⟨ret, hret, h⟩
      cases h
      exact writer_unlock_lock hl ((load_library_info_lock hret).trans hload)

/-! ## Every operation -/

/-- The call that keeps the lock. -/
def Leaks (ldr : DrewLoader) : Op → Prop
  | .get_metadata id item _ => is_valid_id ldr id false = true ∧ item < -1
  | _ => False

theorem step_lock {paths : List String} {op : Op} {out : Int × Output}
    (h : step paths ldr op = some (ldr', out)) : ldr'.lock = ldr.lock ↔ ¬ Leaks ldr op := by
  cases op with
  | get_metadata id item files =>
    rcases Option.map_eq_some_iff.mp h with ⟨r, hr, heq⟩
    cases heq
    rw [get_metadata_loader hr]
    by_cases hleak : is_valid_id ldr id false = true ∧ item < -1
    · rw [if_pos hleak]
      constructor
      · intro hlock
        have hreaders : ldr.lock.readers + 1 = ldr.lock.readers := congrArg RWLock.readers hlock
        omega
      · exact fun hnot => absurd hleak hnot
    · rw [if_neg hleak]
      exact ⟨fun _ => hleak, fun _ => rfl⟩
  | load_plugin plugin path env =>
    rcases Option.map_eq_some_iff.mp h with ⟨r, hr, heq⟩
    cases heq
    exact ⟨fun _ hfalse => hfalse, fun _ => load_plugin_lock hr⟩
  | get_nplugins id =>
    rcases Option.map_eq_some_iff.mp h with ⟨r, hr, heq⟩
    cases heq
    exact ⟨fun _ hfalse => hfalse, fun _ => congrArg DrewLoader.lock (get_nplugins_loader hr)⟩
  | get_type id =>
    rcases Option.map_eq_some_iff.mp h with ⟨r, hr, heq⟩
    cases heq
    exact ⟨fun _ hfalse => hfalse, fun _ => congrArg DrewLoader.lock (get_type_loader hr)⟩
  | get_functbl id =>
    rcases Option.map_eq_some_iff.mp h with ⟨r, hr, heq⟩
    cases heq
    exact ⟨fun _ hfalse => hfalse, fun _ => congrArg DrewLoader.lock (get_functbl_loader hr)⟩
  | get_algo_name id =>
    rcases Option.map_eq_some_iff.mp h with ⟨r, hr, heq⟩
    cases heq
    exact ⟨fun _ hfalse => hfalse, fun _ => congrArg DrewLoader.lock (get_algo_name_loader hr)⟩
  | lookup_by_name name start stop =>
    rcases Option.map_eq_some_iff.mp h with ⟨r, hr, heq⟩
    cases heq
    exact ⟨fun _ hfalse => hfalse, fun _ => congrArg DrewLoader.lock (lookup_by_name_loader hr)⟩
  | lookup_by_type type start stop =>
    rcases Option.map_eq_some_iff.mp h with ⟨r, hr, heq⟩
    cases heq
    exact ⟨fun _ hfalse => hfalse, fun _ => congrArg DrewLoader.lock (lookup_by_type_loader hr)⟩
  | get_search_path num =>
    rcases Option.map_eq_some_iff.mp h with ⟨r, hr, heq⟩
    cases heq
    exact ⟨fun _ hfalse => hfalse, fun _ => rfl⟩
  | ref =>
    cases h
    exact ⟨fun _ hfalse => hfalse, fun _ => rfl⟩
  | unref =>
    rcases Option.map_eq_some_iff.mp h with ⟨r, hr, heq⟩
    cases heq
    unfold drew_loader_unref at hr
    split at hr
    · cases hr
    · cases hr
      exact ⟨fun _ hfalse => hfalse, fun _ => rfl⟩

/-- Nothing but a load changes the tables. -/
theorem step_tables {paths : List String} {op : Op} {out : Int × Output}
    (h : step paths ldr op = some (ldr', out)) (hop : ∀ plugin path env, op ≠ .load_plugin plugin path env) :
    ldr' = { ldr with ref_count := ldr'.ref_count, lock := ldr'.lock } := by
  cases op with
  | load_plugin plugin path env => exact absurd rfl (hop plugin path env)
  | get_nplugins id =>
    rcases Option.map_eq_some_iff.mp h with ⟨r, hr, heq⟩
    cases heq
    rw [get_nplugins_loader hr]
  | get_type id =>
    rcases Option.map_eq_some_iff.mp h with ⟨r, hr, heq⟩
    cases heq
    rw [get_type_loader hr]
  | get_functbl id =>
    rcases Option.map_eq_some_iff.mp h with ⟨r, hr, heq⟩
    cases heq
    rw [get_functbl_loader hr]
  | get_algo_name id =>
    rcases Option.map_eq_some_iff.mp h with ⟨r, hr, heq⟩
    cases heq
    rw [get_algo_name_loader hr]
  | lookup_by_name name start stop =>
    rcases Option.map_eq_some_iff.mp h with ⟨r, hr, heq⟩
    cases heq
    rw [lookup_by_name_loader hr]
  | lookup_by_type type start stop =>
    rcases Option.map_eq_some_iff.mp h with ⟨r, hr, heq⟩
    cases heq
    rw [lookup_by_type_loader hr]
  | get_metadata id item files =>
    rcases Option.map_eq_some_iff.mp h with ⟨r, hr, heq⟩
    cases heq
    rw [get_metadata_loader hr]
    split <;> rfl
  | get_search_path num =>
    rcases Option.map_eq_some_iff.mp h with ⟨r, hr, heq⟩
    cases heq
    rfl
  | ref =>
    cases h
    rfl
  | unref =>
    rcases Option.map_eq_some_iff.mp h with ⟨r, hr, heq⟩
    cases heq
    unfold drew_loader_unref at hr
    split at hr
    · cases hr
    · cases hr
      rfl

theorem lock_balanced_iff (paths : List String) :
    (∀ {ldr ldr' : DrewLoader} {op : Op} {out : Int × Output}, step paths ldr op = some (ldr', out) →
      (ldr'.lock = ldr.lock ↔ ¬ Leaks ldr op)) ∧
    (∀ {ldr : DrewLoader} {ops : List Op},
      Runs paths (fun ldr op => ¬ Leaks ldr op) drew_loader_new ops ldr → ldr.lock = ⟨0, false⟩) := by
  refine ⟨step_lock, ?_⟩
  intro ldr ops hruns
  apply hruns.keeps (I := fun ldr => ldr.lock = ⟨0, false⟩)
  · intro ldr op ldr' out hcond hfree hstep
    exact ((step_lock hstep).mpr hcond).trans hfree
  · rfl

/-! ### A library with one plugin -/

/-- The library `<internal>` with one plugin of type one, under the name `a`. -/
def envOne : LoadEnv where
  attempt _ := ⟨some 1, true, some 1, some ⟨1, fun _ =>
    ⟨1, 8, 2, 0, (0, []), (0, ['a']), (0, fun _ => ⟨0, none, none, 0, none⟩)⟩⟩⟩
  array := true
  mallocs _ := ⟨true, true, true⟩

/-- The loader after the load. -/
def loaderOne : DrewLoader :=
  ⟨1, [⟨some "<internal>", none, ((envOne.attempt 0).api), some 1, 1⟩],
    [⟨.live ['a'], 1, .live [], 8, 0, 1, 1, 0, .null⟩], 1, ⟨0, false⟩⟩

theorem step_loaderOne :
    step [] drew_loader_new (.load_plugin none none envOne) = some (loaderOne, 0, .none) := rfl

theorem lock_balanced_load :
    loaderOne.lock = (drew_loader_new).lock ∧ loaderOne.lock = ⟨0, false⟩ := by
  constructor
  · exact ((lock_balanced_iff []).1 step_loaderOne).mpr (fun hfalse => hfalse)
  · exact (lock_balanced_iff []).2 (.cons (by exact fun hfalse => hfalse) step_loaderOne (.nil _))

/-- After the call for the item `-2` the lock is held, and no load returns. -/
theorem lock_balanced_fails :
    Reachable [] loaderOne ∧ ∃ ldr, step [] loaderOne (.get_metadata 0 (-2) (fun _ => false)) =
      some (ldr, -DREW_ERR_INVALID, .metadata none) ∧ ldr.lock = ⟨1, false⟩ ∧
      ∀ plugin path env, step [] ldr (.load_plugin plugin path env) = none := by
  refine ⟨⟨_, .cons trivial step_loaderOne (.nil _)⟩, _, rfl, rfl, ?_⟩
  intro plugin path env
  rfl

end Drew.Loader
