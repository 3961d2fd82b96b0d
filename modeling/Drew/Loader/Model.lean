import Drew.Error

/-!
# The loader

`drew.c`: a table of libraries and a table of the plugins in them, under a lock for readers and writers.

The table of libraries moves in memory when it grows, and a plugin has the address of its library, so
addresses are numbers here, in units of an entry of the table. What a library answers, where memory is
put and whether there is any is up to the surroundings of a call (`LoadEnv`). A loader is never null
here: the check for it is made before the lock is taken, and changes nothing.

A function has no result if it waits for a lock for ever, or reads where nothing is.
-/

namespace Drew.Loader

/-- Memory behind a pointer. -/
inductive Cell (α : Type)
  | null
  | live (v : α)
  | freed

/-- `g_free`. -/
def Cell.free {α : Type} : Cell α → Cell α
  | .null => .null
  | .live _ => .freed
  | .freed => .freed

/-- What a pointer is read as. -/
def Cell.read {α : Type} : Cell α → Option α
  | .null => none
  | .live v => some v
  | .freed => none

abbrev FuncTbl := List UInt8

/-- `drew_metadata_t`. -/
structure Metadata where
  version : Int
  subject : Option String
  predicate : Option String
  type : Int
  object : Option String

def DREW_LOADER_MD_URI : Int := 0

/-- What the library says of one plugin: numbers, and for the functions that write to memory the code
and what is written. -/
structure Answers where
  type : Int
  functblsize : Int
  namesize : Int
  mdsize : Int
  functbl : Int × FuncTbl
  name : Int × List Char
  metadata : Int × (Nat → Metadata)

/-- `drew_plugin_info` of a library. -/
structure Api where
  nplugins : Int
  plugin : Nat → Answers

/-- `library_t`. -/
structure Library where
  name : Option String
  path : Option String
  api : Option Api
  handle : Option Nat
  nplugins : Int

/-- Set if the plugin has been properly loaded. -/
def FLAG_PLUGIN_OK : Nat := 1

/-- Set if the plugin contains no implementations. -/
def FLAG_PLUGIN_DUMMY : Nat := 2

/-- `plugin_t`. -/
structure Plugin where
  name : Cell (List Char)
  lib : Int
  functbl : Cell FuncTbl
  functblsize : Int
  id : Int
  type : Int
  flags : Nat
  nmetadata : Int
  metadata : Cell (Nat → Metadata)

/-- `GRWLock`. -/
structure RWLock where
  readers : Nat
  writer : Bool
  deriving DecidableEq

/-- `struct _DrewLoader`. The address and the entries of the libraries, and the plugins; `nlibs` and
`nplugins` are the lengths. -/
structure DrewLoader where
  lib : Int
  libs : List Library
  plugin : List Plugin
  ref_count : Int
  lock : RWLock

/-! ## The lock -/

def reader_lock (ldr : DrewLoader) : Option DrewLoader :=
  if ldr.lock.writer then none
  else some { ldr with lock := { ldr.lock with readers := ldr.lock.readers + 1 } }

def reader_unlock (ldr : DrewLoader) : DrewLoader :=
  { ldr with lock := { ldr.lock with readers := ldr.lock.readers - 1 } }

def writer_lock (ldr : DrewLoader) : Option DrewLoader :=
  if ldr.lock.writer || ldr.lock.readers != 0 then none
  else some { ldr with lock := { ldr.lock with writer := true } }

def writer_unlock (ldr : DrewLoader) : DrewLoader :=
  { ldr with lock := { ldr.lock with writer := false } }

/-! ## Loading -/

/-- What happens in one call of `load_library`: where the table is put, if there is memory for it and
for the path, and what is found. -/
structure Attempt where
  lib : Option Int
  path : Bool
  handle : Option Nat
  api : Option Api

/-- Whether there is memory for the three parts of a plugin. -/
structure Mallocs where
  functbl : Bool
  metadata : Bool
  name : Bool

/-- What happens in one call of `drew_loader_load_plugin`. -/
structure LoadEnv where
  attempt : Nat → Attempt
  array : Bool
  mallocs : Nat → Mallocs

/-- The entry that the pointer is to. -/
def libAt (ldr : DrewLoader) (lib : Int) : Option Library :=
  if 0 ≤ lib - ldr.lib then ldr.libs[(lib - ldr.lib).toNat]? else none

/-- The new entry, and the code. -/
def open_entry (library path : Option String) (e : Attempt) : Int × Library :=
  let lib : Library := ⟨none, none, none, none, 0⟩
  match library with
  | none =>
    match e.handle with
    | none => (-DREW_ERR_RESOLUTION, lib)
    | some handle =>
      let lib := { lib with handle := some handle, name := some "<internal>", path := none }
      match e.api with
      | none => (-DREW_ERR_ENUMERATION, lib)
      | some api => (0, { lib with api := some api })
  | some library =>
    if !e.path then (-ENOMEM, lib)
    else
      let lib := { lib with path := some (path.getD "(null)" ++ "/" ++ library), name := some library }
      match e.handle with
      | none => (-DREW_ERR_RESOLUTION, lib)
      | some handle =>
        let lib := { lib with handle := some handle }
        match e.api with
        | none => (-DREW_ERR_ENUMERATION, lib)
        | some api => (0, { lib with api := some api })

/-- The code, the address of the entry and the loader. An entry that fails is taken from the table again,
and is not read any more. -/
def load_library (ldr : DrewLoader) (library path : Option String) (e : Attempt) :
    Int × Int × DrewLoader :=
  match e.lib with
  | none => (-ENOMEM, 0, ldr)
  | some p =>
    -- Fix up the lib pointers in the plugins.
    let ldr :=
      if p ≠ ldr.lib then
        { ldr with plugin := ldr.plugin.map (fun q => { q with lib := p + (q.lib - ldr.lib) }) }
      else ldr
    let ldr := { ldr with lib := p }
    let lib := p + ldr.libs.length
    let entry := open_entry library path e
    if entry.1 ≠ 0 then (entry.1, lib, ldr)
    else (0, lib, { ldr with libs := ldr.libs ++ [entry.2] })

/-- A cleared entry of the table of plugins. -/
def emptyPlugin : Plugin := ⟨.null, 0, .null, 0, 0, 0, 0, 0, .null⟩

/-- `sizeof(void *)`. -/
def sizeofPtr : Int := 8

/-- `sizeof(drew_metadata_t)`. -/
def sizeofMetadata : Int := 40

/-- An entry on the way, with the memory that it has. -/
def part_entry (a : Answers) (functbl : Cell FuncTbl) (metadata : Cell (Nat → Metadata))
    (name : Cell (List Char)) : Plugin :=
  { emptyPlugin with
    type := a.type, functblsize := a.functblsize, functbl := functbl, metadata := metadata, name := name }

/-- What a metadata table holds before it is written. -/
def emptyMetadata : Nat → Metadata := fun _ => ⟨0, none, none, 0, none⟩

/-- One turn of the loop of `load_library_info`: the code and the entry. -/
def load_entry (lib : Int) (id : Int) (a : Answers) (m : Mallocs) : Int × Plugin :=
  if a.type < 0 then (-DREW_ERR_ENUMERATION, { emptyPlugin with type := a.type })
  else if a.functblsize ≤ 0 ∨ a.functblsize % sizeofPtr ≠ 0 then
    (-DREW_ERR_ENUMERATION, part_entry a .null .null .null)
  else if a.namesize ≤ 0 then (-DREW_ERR_ENUMERATION, part_entry a .null .null .null)
  else
    -- Metadata are optional, so don't error out if they're not available.
    let mdsize := if a.mdsize < 0 then 0 else a.mdsize
    let metadata := fun v => if mdsize ≠ 0 then Cell.live v else .null
    if !m.functbl then (-ENOMEM, part_entry a .null .null .null)
    else if mdsize ≠ 0 ∧ !m.metadata then (-ENOMEM, part_entry a (.live []) .null .null)
    else if !m.name then (-ENOMEM, part_entry a (.live []) (metadata emptyMetadata) .null)
    else if a.functbl.1 ≠ 0 then
      (-DREW_ERR_FUNCTION, part_entry a (.live a.functbl.2) (metadata emptyMetadata) (.live []))
    else if a.name.1 ≠ 0 then
      (-DREW_ERR_ENUMERATION,
        part_entry a (.live a.functbl.2) (metadata emptyMetadata) (.live a.name.2))
    else
      -- The last byte of the name is cleared, just in case.
      let name := Cell.live (a.name.2.take (a.namesize - 1).toNat)
      let p := part_entry a (.live a.functbl.2) (metadata a.metadata.2) name
      if mdsize ≠ 0 ∧ a.metadata.1 ≠ 0 then (-DREW_ERR_ENUMERATION, p)
      else
        (0, { p with nmetadata := mdsize / sizeofMetadata, lib := lib, id := id, flags := FLAG_PLUGIN_OK })

def free_entry (p : Plugin) : Plugin :=
  { p with functbl := p.functbl.free, name := p.name.free, metadata := p.metadata.free }

/-- The loop for `n` plugins from `i` on. -/
def load_entries (lib : Int) (offset : Nat) (api : Api) (env : LoadEnv) :
    Nat → Nat → DrewLoader → Int × DrewLoader
  | 0, _, ldr => (0, ldr)
  | n + 1, i, ldr =>
    let entry := load_entry lib (offset + i : Nat) (api.plugin i) (env.mallocs i)
    if entry.1 ≠ 0 then
      (entry.1, { ldr with plugin := ldr.plugin.set (offset + i) (free_entry entry.2) })
    else
      load_entries lib offset api env n (i + 1)
        { ldr with plugin := ldr.plugin.set (offset + i) entry.2 }

def load_library_info (ldr : DrewLoader) (lib : Int) (env : LoadEnv) : Option (Int × DrewLoader) := do
  let entry ← libAt ldr lib
  let api ← entry.api
  let offset := ldr.plugin.length
  let ldr := { ldr with
    libs := ldr.libs.set (lib - ldr.lib).toNat { entry with nplugins := api.nplugins } }
  if api.nplugins < 0 then some (-DREW_ERR_ENUMERATION, ldr)
  else if !env.array then some (-ENOMEM, ldr)
  else
    let extra := if api.nplugins = 0 then 1 else 0
    let ldr := { ldr with
      plugin := ldr.plugin ++ List.replicate (api.nplugins.toNat + extra) emptyPlugin }
    let ldr :=
      if api.nplugins = 0 then
        { ldr with
          plugin := ldr.plugin.set (ldr.plugin.length - 1) { emptyPlugin with flags := FLAG_PLUGIN_DUMMY } }
      else ldr
    let ret := load_entries lib offset api env api.nplugins.toNat 0 ldr
    some (if ret.1 ≠ 0 then ret.1 else (offset : Int), ret.2)

/-- `drew_loader_new`. -/
def drew_loader_new : DrewLoader := ⟨0, [], [], 1, ⟨0, false⟩⟩

/-- The loop over the paths from `i` on: the address of the entry, unless every path fails. -/
def search_library (ldr : DrewLoader) (plugin : String) (env : LoadEnv) :
    List String → Nat → Option Int × DrewLoader
  | [], _ => (none, ldr)
  | path :: paths, i =>
    let ret := load_library ldr (some plugin) (some path) (env.attempt i)
    if ret.1 = 0 then (some ret.2.1, ret.2.2)
    else search_library ret.2.2 plugin env paths (i + 1)

def drew_loader_load_plugin (paths : List String) (ldr : DrewLoader) (plugin path : Option String)
    (env : LoadEnv) : Option (Int × DrewLoader) := do
  let ldr ← writer_lock ldr
  match plugin, path with
  | some plugin, none =>
    let ret := search_library ldr plugin env paths 0
    match ret.1 with
    | none => some (-DREW_ERR_RESOLUTION, writer_unlock ret.2)
    | some lib => do
      let ret ← load_library_info ret.2 lib env
      some (ret.1, writer_unlock ret.2)
  | _, _ =>
    let ret := load_library ldr plugin path (env.attempt 0)
    if ret.1 ≠ 0 then some (ret.1, writer_unlock ret.2.2)
    else do
      let ret ← load_library_info ret.2.2 ret.2.1 env
      some (ret.1, writer_unlock ret.2)

/-! ## Reading -/

/-- The entry of the table of plugins; `is_valid_id` is asked first. -/
def pluginAt (ldr : DrewLoader) (id : Int) : Plugin := ldr.plugin.getD id.toNat emptyPlugin

def is_valid_id (ldr : DrewLoader) (id : Int) (dummyok : Bool) : Bool :=
  let mask := FLAG_PLUGIN_OK ||| if dummyok then FLAG_PLUGIN_DUMMY else 0
  if id < 0 then false
  else if id ≥ ldr.plugin.length then false
  else if (pluginAt ldr id).flags &&& mask = 0 then false
  else true

def drew_loader_get_nplugins (ldr : DrewLoader) (id : Int) : Option (Int × DrewLoader) := do
  let ldr ← reader_lock ldr
  if id = -1 then some (ldr.plugin.length, reader_unlock ldr)
  else if !is_valid_id ldr id false then
    some (if is_valid_id ldr id true then 0 else -DREW_ERR_INVALID, reader_unlock ldr)
  else do
    let lib ← libAt ldr (pluginAt ldr id).lib
    some (lib.nplugins, reader_unlock ldr)

def drew_loader_get_type (ldr : DrewLoader) (id : Int) : Option (Int × DrewLoader) := do
  let ldr ← reader_lock ldr
  let retval := if is_valid_id ldr id false then (pluginAt ldr id).type else -DREW_ERR_INVALID
  some (retval, reader_unlock ldr)

/-- The code and the table that is written, if one is. -/
def drew_loader_get_functbl (ldr : DrewLoader) (id : Int) :
    Option ((Int × Option (Cell FuncTbl)) × DrewLoader) := do
  let ldr ← reader_lock ldr
  if !is_valid_id ldr id false then some ((-DREW_ERR_INVALID, none), reader_unlock ldr)
  else some (((pluginAt ldr id).functblsize, some (pluginAt ldr id).functbl), reader_unlock ldr)

def drew_loader_get_algo_name (ldr : DrewLoader) (id : Int) :
    Option ((Int × Option (Cell (List Char))) × DrewLoader) := do
  let ldr ← reader_lock ldr
  if !is_valid_id ldr id false then some ((-DREW_ERR_INVALID, none), reader_unlock ldr)
  else some ((0, some (pluginAt ldr id).name), reader_unlock ldr)

/-- The loop of a lookup for `n` ids from `i` on: the first one that is taken. -/
def lookup (ldr : DrewLoader) (take : Plugin → Option Bool) : Nat → Int → Option (Option Int)
  | 0, _ => some none
  | n + 1, i =>
    if !is_valid_id ldr i false then lookup ldr take n (i + 1)
    else do
      let found ← take (pluginAt ldr i)
      if found then some (some i) else lookup ldr take n (i + 1)

def drew_loader_lookup_by_name (ldr : DrewLoader) (name : List Char) (start stop : Int) :
    Option (Int × DrewLoader) := do
  let ldr ← reader_lock ldr
  let stop := if stop = -1 then (ldr.plugin.length : Int) else stop
  let found ← lookup ldr (fun p => p.name.read.map (· == name)) (stop - start).toNat start
  match found with
  | some i => some (i, reader_unlock ldr)
  | none => some (-DREW_ERR_NONEXISTENT, reader_unlock ldr)

def drew_loader_lookup_by_type (ldr : DrewLoader) (type : Int) (start stop : Int) :
    Option (Int × DrewLoader) := do
  let ldr ← reader_lock ldr
  let stop := if stop = -1 then (ldr.plugin.length : Int) else stop
  let found ← lookup ldr (fun p => some (p.type == type)) (stop - start).toNat start
  match found with
  | some i => some (i, reader_unlock ldr)
  | none => some (-DREW_ERR_NONEXISTENT, reader_unlock ldr)

/-- The code and the path that is written. The bound is one too high: the number of paths itself is let
through, and the read is past the end. -/
def drew_loader_get_search_path (paths : List String) (num : Int) : Option (Int × Option String) :=
  if num < 0 then some (-DREW_ERR_INVALID, none)
  else if num > paths.length then some (-DREW_ERR_NONEXISTENT, none)
  else (paths[num.toNat]?).map (fun p => ((paths.length : Int), some p))

/-- The code and what is written; `files` says which files there are. -/
def special_metadata (ldr : DrewLoader) (id : Int) (item : Int) (files : String → Bool) :
    Option (Int × Option Metadata) :=
  if item > 0 then some (-DREW_ERR_NONEXISTENT, none)
  else do
    let lib ← libAt ldr (pluginAt ldr id).lib
    match lib.path with
    | none => some (-DREW_ERR_NONEXISTENT, none)
    | some path =>
      let rdfpath := path ++ ".rdf"
      if files rdfpath then
        some (0, some ⟨1, none, some "http://www.w3.org/2000/01/rdf-schema#seeAlso", DREW_LOADER_MD_URI,
          some ("file://" ++ rdfpath)⟩)
      else some (-DREW_ERR_NONEXISTENT, none)

/-- The code and what is written to `meta`. -/
def drew_loader_get_metadata (ldr : DrewLoader) (id item : Int) (files : String → Bool) :
    Option ((Int × Option Metadata) × DrewLoader) := do
  let ldr ← reader_lock ldr
  if !is_valid_id ldr id false then some ((-DREW_ERR_NONEXISTENT, none), reader_unlock ldr)
  else if item = -1 then do
    let ret ← special_metadata ldr id (item - (pluginAt ldr id).nmetadata) files
    let ldr := reader_unlock ldr
    some (((pluginAt ldr id).nmetadata + if ret.1 = 0 then 1 else 0, none), ldr)
  -- The lock is not given back here.
  else if item < 0 then some ((-DREW_ERR_INVALID, none), ldr)
  else if item < (pluginAt ldr id).nmetadata then do
    let metadata ← (pluginAt ldr id).metadata.read
    some ((0, some (metadata item.toNat)), reader_unlock ldr)
  else do
    let ret ← special_metadata ldr id (item - (pluginAt ldr id).nmetadata) files
    if ret.1 < 0 then some ((-DREW_ERR_NONEXISTENT, none), reader_unlock ldr)
    else some ((0, ret.2), reader_unlock ldr)

def drew_loader_ref (ldr : DrewLoader) : DrewLoader := { ldr with ref_count := ldr.ref_count + 1 }

/-- The loader, unless that was the last reference. -/
def drew_loader_unref (ldr : DrewLoader) : Option DrewLoader :=
  if ldr.ref_count - 1 = 0 then none else some { ldr with ref_count := ldr.ref_count - 1 }

/-! ## Operations -/

/-- A call with its arguments. -/
inductive Op
  | load_plugin (plugin path : Option String) (env : LoadEnv)
  | get_nplugins (id : Int)
  | get_type (id : Int)
  | get_functbl (id : Int)
  | get_algo_name (id : Int)
  | lookup_by_name (name : List Char) (start stop : Int)
  | lookup_by_type (type : Int) (start stop : Int)
  | get_metadata (id item : Int) (files : String → Bool)
  | get_search_path (num : Int)
  | ref
  | unref

/-- What is written through a pointer argument. -/
inductive Output
  | none
  | functbl (t : Option (Cell FuncTbl))
  | name (n : Option (Cell (List Char)))
  | metadata (m : Option Metadata)
  | path (p : Option String)

/-- The loader, the code and what is written. -/
def step (paths : List String) (ldr : DrewLoader) : Op → Option (DrewLoader × Int × Output)
  | .load_plugin plugin path env =>
    (drew_loader_load_plugin paths ldr plugin path env).map (fun r => (r.2, r.1, .none))
  | .get_nplugins id => (drew_loader_get_nplugins ldr id).map (fun r => (r.2, r.1, .none))
  | .get_type id => (drew_loader_get_type ldr id).map (fun r => (r.2, r.1, .none))
  | .get_functbl id => (drew_loader_get_functbl ldr id).map (fun r => (r.2, r.1.1, .functbl r.1.2))
  | .get_algo_name id => (drew_loader_get_algo_name ldr id).map (fun r => (r.2, r.1.1, .name r.1.2))
  | .lookup_by_name name start stop =>
    (drew_loader_lookup_by_name ldr name start stop).map (fun r => (r.2, r.1, .none))
  | .lookup_by_type type start stop =>
    (drew_loader_lookup_by_type ldr type start stop).map (fun r => (r.2, r.1, .none))
  | .get_metadata id item files =>
    (drew_loader_get_metadata ldr id item files).map (fun r => (r.2, r.1.1, .metadata r.1.2))
  | .get_search_path num =>
    (drew_loader_get_search_path paths num).map (fun r => (ldr, r.1, .path r.2))
  | .ref => some (drew_loader_ref ldr, 0, .none)
  | .unref => (drew_loader_unref ldr).map (fun ldr => (ldr, 0, .none))

/-- A run of operations one after the other, each of which meets the condition in its state. -/
inductive Runs (paths : List String) (cond : DrewLoader → Op → Prop) :
    DrewLoader → List Op → DrewLoader → Prop
  | nil (ldr) : Runs paths cond ldr [] ldr
  | cons {ldr ldr' ldr'' op ops out} : cond ldr op → step paths ldr op = some (ldr', out) →
      Runs paths cond ldr' ops ldr'' → Runs paths cond ldr (op :: ops) ldr''

/-- What one step keeps, a run keeps. -/
theorem Runs.keeps {paths : List String} {cond : DrewLoader → Op → Prop} {I : DrewLoader → Prop}
    (hstep : ∀ ldr op ldr' out, cond ldr op → I ldr → step paths ldr op = some (ldr', out) → I ldr')
    {ldr ldr' : DrewLoader} {ops : List Op} (h : Runs paths cond ldr ops ldr') (hI : I ldr) : I ldr' := by
  induction h with
  | nil => exact hI
  | cons hcond hop _ ih => exact ih (hstep _ _ _ _ hcond hI hop)

/-- The states of a loader. -/
def Reachable (paths : List String) (ldr : DrewLoader) : Prop :=
  ∃ ops, Runs paths (fun _ _ => True) drew_loader_new ops ldr

end Drew.Loader
