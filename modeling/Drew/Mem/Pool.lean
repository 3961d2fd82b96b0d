import Mathlib.Tactic

/-!
# The memory allocator

Model of the secure functions of the allocator: a pool has a list with an entry for each block, and a
block that is freed is looked up there and overwritten with zeros. The system's allocator is an
input: for each request there are its answers (`Env`). An access outside the blocks of the system's
allocator, or through a pointer to a pool that is null, is undefined (`none`).
-/

namespace Drew.Mem

/-! ## Data -/

/-- What the build fixes: `ODD_MLOCK_OK`, `ALWAYS_ZERO` and the size of a page. -/
structure Config where
  oddMlockOk : Bool
  alwaysZero : Bool
  pgsize : Nat

/-- `struct allocation`. -/
structure Allocation where
  mem : Nat
  size : Nat
  block : Nat

/-- `struct pool`, with two of its flags and the list. -/
structure Pool where
  /-- `DREW_MEM_SECMEM_NO_LOCK`. -/
  noLock : Bool
  /-- `DREW_MEM_SECMEM_FAIL_OK`. -/
  failOk : Bool
  alloc : List Allocation

/-- A pointer to a pool. The null pointer means the default pool in most functions. -/
inductive Handle
  | null
  | given
  deriving DecidableEq

/-- The two pools and the blocks of the system's allocator by their addresses. -/
structure State where
  mempool : Pool
  pool : Pool
  heap : Nat → Option (List UInt8)

namespace State

def get (s : State) : Handle → Pool
  | .null => s.mempool
  | .given => s.pool

def setAlloc (s : State) (h : Handle) (l : List Allocation) : State :=
  match h with
  | .null => { s with mempool := { s.mempool with alloc := l } }
  | .given => { s with pool := { s.pool with alloc := l } }

/-- The block at an address is replaced. -/
def setBlock (s : State) (p : Nat) (b : Option (List UInt8)) : State :=
  { s with heap := Function.update s.heap p b }

@[simp] theorem get_setBlock (s : State) (p : Nat) (b : Option (List UInt8)) (h : Handle) :
    (s.setBlock p b).get h = s.get h := by
  cases h <;> rfl

@[simp] theorem heap_setAlloc (s : State) (h : Handle) (l : List Allocation) :
    (s.setAlloc h l).heap = s.heap := by
  cases h <;> rfl

@[simp] theorem get_setAlloc_self (s : State) (h : Handle) (l : List Allocation) :
    ((s.setAlloc h l).get h).alloc = l := by
  cases h <;> rfl

end State

/-- The answers of the system to one request: the address of the memory or that there is none, what
uncleared memory contains, whether there is memory for an entry, and whether `mlock` fails. -/
structure Env where
  mem : Option Nat
  contents : List UInt8
  node : Bool
  mlockFails : Bool

/-- Addresses of released blocks, with what they contained. -/
abbrev Released := List (Nat × List UInt8)

/-! ## Functions -/

/-- `free` of the system. -/
def free (s : State) (p : Nat) : Option (State × Released) :=
  if p = 0 then some (s, []) else
    (s.heap p).map fun bs => (s.setBlock p none, [(p, bs)])

def create_entry (cfg : Config) (p size : Nat) (secure : Bool) (env : Env) : Option Allocation :=
  if p = 0 ∨ env.node = false then none else
    some ⟨p, size, if secure then
      if cfg.oddMlockOk then size
      else ((size + (cfg.pgsize - 1)) % 2 ^ 64) &&& (2 ^ 64 - 1 - (cfg.pgsize - 1))
    else 0⟩

def do_allocate (cfg : Config) (s : State) (h : Handle) (size : Nat) (secure clear : Bool) (env : Env) :
    Option (State × Nat × Released) :=
  if size = 0 then some (s, 0, []) else
    match env.mem with
    | none => some (s, 0, [])
    | some p =>
        let s' := s.setBlock p (some (if clear then List.replicate size 0 else env.contents))
        if secure ∨ cfg.alwaysZero then
          match create_entry cfg p size secure env with
          | none => (free s' p).map fun r => (r.1, 0, r.2)
          | some new =>
              if secure ∧ (s.get h).noLock = false ∧ env.mlockFails ∧ (s.get h).failOk = false then
                (free s' p).map fun r => (r.1, 0, r.2)
              else some (s'.setAlloc h (new :: (s.get h).alloc), p, [])
        else some (s', p, [])

def drew_mem_psmalloc (cfg : Config) (s : State) (h : Handle) (size : Nat) (env : Env) :
    Option (State × Nat × Released) :=
  do_allocate cfg s h size true false env

def drew_mem_pcalloc (cfg : Config) (s : State) (h : Handle) (nmemb size : Nat) (env : Env) :
    Option (State × Nat × Released) :=
  do_allocate cfg s h (nmemb * size % 2 ^ 64) false true env

def drew_mem_pscalloc (cfg : Config) (s : State) (h : Handle) (nmemb size : Nat) (env : Env) :
    Option (State × Nat × Released) :=
  do_allocate cfg s h (nmemb * size % 2 ^ 64) true true env

def drew_mem_psmemdup (cfg : Config) (s : State) (h : Handle) (bs : List UInt8) (env : Env) :
    Option (State × Nat × Released) := do
  let (s, p, rel) ← do_allocate cfg s h bs.length true false env
  return (if p = 0 then s else s.setBlock p (some bs), p, rel)

/-- Zeros over the first bytes of a block. -/
def memset0 (s : State) (p size : Nat) : Option State := do
  let bs ← s.heap p
  if size ≤ bs.length then some (s.setBlock p (some (List.replicate size 0 ++ bs.drop size))) else none

def drew_mem_psfree (s : State) (h : Handle) (ptr : Nat) : Option (State × Released) :=
  if ptr = 0 then some (s, []) else
    match (s.get h).alloc.find? (fun e => e.mem == ptr) with
    | none => free s ptr
    | some p => do
        let s' ← memset0 s ptr p.size
        free (s'.setAlloc h ((s.get h).alloc.eraseP fun e => e.mem == ptr)) ptr

def drew_mem_pfree (cfg : Config) (s : State) (h : Handle) (ptr : Nat) : Option (State × Released) :=
  if cfg.alwaysZero then drew_mem_psfree s h ptr else free s ptr

/-- `do_realloc` for secure memory. It reads the list through the pointer that it gets, which may be
null, and it frees the old block with `drew_mem_free`, which has no entry removed unless
`ALWAYS_ZERO` is set, and which looks in the default pool then. -/
def do_realloc (cfg : Config) (s : State) (h : Handle) (ptr new size : Nat) :
    Option (State × Nat × Released) :=
  match h with
  | .null => none
  | .given =>
      let oldsize := ((s.pool.alloc.find? fun e => e.mem == ptr).map Allocation.size).getD 0
      if oldsize = 0 then (free s new).map fun r => (r.1, 0, r.2) else do
        let old ← s.heap ptr
        let fresh ← s.heap new
        let n := min size oldsize
        if n ≤ old.length ∧ size ≤ fresh.length then
          let s := s.setBlock new
            (some (old.take n ++ List.replicate (size - oldsize) 0 ++ fresh.drop size))
          let (s, rel) ← drew_mem_pfree cfg s .null ptr
          return (s, new, rel)
        else none

def drew_mem_psrealloc (cfg : Config) (s : State) (h : Handle) (ptr size : Nat) (env : Env) :
    Option (State × Nat × Released) :=
  if ptr = 0 then drew_mem_psmalloc cfg s h size env
  else if size = 0 then (drew_mem_psfree s h ptr).map fun r => (r.1, 0, r.2)
  else do
    let (s, new, rel) ← drew_mem_psmalloc cfg s h size env
    if new = 0 then some (s, 0, rel) else do
      let (s, p, rel') ← do_realloc cfg s h ptr new size
      return (s, p, rel ++ rel')

/-! ## Runs -/

/-- What a caller does with a pool. -/
inductive Op
  | psmalloc (size : Nat) (env : Env)
  | pscalloc (nmemb size : Nat) (env : Env)
  | psmemdup (bs : List UInt8) (env : Env)
  | psrealloc (ptr size : Nat) (env : Env)
  | psfree (ptr : Nat)
  /-- The caller writes to memory that it has. -/
  | store (p : Nat) (bs : List UInt8)

def step (cfg : Config) (h : Handle) (s : State) : Op → Option (State × Nat × Released)
  | .psmalloc size env => drew_mem_psmalloc cfg s h size env
  | .pscalloc nmemb size env => drew_mem_pscalloc cfg s h nmemb size env
  | .psmemdup bs env => drew_mem_psmemdup cfg s h bs env
  | .psrealloc ptr size env => drew_mem_psrealloc cfg s h ptr size env
  | .psfree ptr => (drew_mem_psfree s h ptr).map fun r => (r.1, 0, r.2)
  | .store p bs => some (s.setBlock p (some bs), 0, [])

/-- The answers are those of an allocator: a new block is not null, not in use and as large as was
asked for. -/
def Fits (s : State) (size : Nat) (env : Env) : Prop :=
  ∀ p, env.mem = some p → p ≠ 0 ∧ s.heap p = none ∧ env.contents.length = size

/-- The caller uses its own memory only. A pointer that is freed may come from the system's allocator. -/
def Allowed (s : State) : Op → Prop
  | .psmalloc size env => Fits s size env
  | .pscalloc nmemb size env => Fits s (nmemb * size % 2 ^ 64) env
  | .psmemdup bs env => Fits s bs.length env
  | .psrealloc ptr size env => (ptr = 0 ∨ ∃ bs, s.heap ptr = some bs) ∧ Fits s size env
  | .psfree ptr => ptr = 0 ∨ ∃ bs, s.heap ptr = some bs
  | .store p bs => ∃ old, s.heap p = some old ∧ old.length = bs.length

end Drew.Mem
