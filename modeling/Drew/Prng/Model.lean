import Drew.Memory.BigEndian

/-!
# Deterministic generators

The base class of the three generators of `sp800-90.cc`, and the device they get their seeds
from. A generator has a flag and a counter, and the members of its class. What the classes do
themselves is in a table of functions: `Initialize` and `Reseed` with data, and what `GetBytes`
does once the generator is seeded.
-/

namespace Drew.Prng

open Drew.Memory

variable {σ : Type} {m n : Nat}

/-! ## The surroundings of a call -/

/-- What a read from `/dev/urandom` comes to: it fails with an error number, or there are some
bytes to be had. -/
inductive Reading where
  | failed (errno : Nat) (pos : 0 < errno)
  | got (bytes : List UInt8)

/-- The bytes that arrive when `n` are asked for. -/
def Reading.arrived (n : Nat) : Reading → List UInt8
  | .failed _ _ => []
  | .got bytes => bytes.take n

/-- The read fails. -/
def Reading.Fails : Reading → Prop
  | .failed _ _ => True
  | .got _ => False

/-- All of the `n` bytes arrive. -/
def Reading.Fills (n : Nat) : Reading → Prop
  | .failed _ _ => False
  | .got bytes => n ≤ bytes.length

/-- `RandomDevice::GetBytes` to the array at `off`: the number of bytes, and the array. -/
def Reading.getBytes (r : Reading) (buf : Buf UInt8 m) (off n : Nat) :
    Option (Except Int (Nat × Buf UInt8 m)) :=
  match r with
  | .failed errno _ => some (.error (-(errno : Int)))
  | .got bytes => do
      let buf ← buf.write off (bytes.take n)
      return .ok ((bytes.take n).length, buf)

/-- What a call does not have from its arguments: the device, memory that was not initialised,
and what the personalization string is made of. -/
structure Env where
  reading : Reading
  memory : Nat → UInt8
  personalization : Buf UInt8 96

/-- An array that was not initialised. -/
def Env.array (env : Env) (m : Nat) : Buf UInt8 m := Vector.ofFn fun i => env.memory i

/-- `GeneratePersonalizationString` to the array at `off`, where there is room for `len` bytes;
the number of bytes is that of the structure, or what fits. -/
def Env.generatePersonalizationString (env : Env) (buf : Buf UInt8 m) (off len : Nat) :
    Option (Nat × Buf UInt8 m) := do
  let data := env.personalization.toList.take len
  let buf ← buf.write off data
  return (data.length, buf)

/-! ## The base class -/

/-- A generator with the members of its class. `HashDRBG` has a counter of its own, which hides
the one of the base class, so there is one that is used in every case. -/
structure Drbg (σ : Type) where
  inited : Bool
  rc : UInt64
  sub : σ

/-- `reseed_interval`. -/
def reseedInterval : UInt64 := 1024

/-- The functions of a class. `generate` is what `GetBytes` does after the check of the flag and
of the counter; the others return an error before they change anything. -/
structure Class (σ : Type) where
  initializeWith : Env → List UInt8 → Drbg σ → Option (Except Int (Drbg σ))
  reseed : Env → List UInt8 → Drbg σ → Option (Except Int (Drbg σ))
  generate : {n : Nat} → Env → Drbg σ → Buf UInt8 n → Option (Drbg σ × Buf UInt8 n)

/-- The object after a call whose result is not looked at. -/
def Drbg.ignoring (d : Drbg σ) : Except Int (Drbg σ) → Drbg σ
  | .error _ => d
  | .ok d' => d'

namespace Class

variable (v : Class σ)

/-- `DRBG::Stir`. -/
def stir (env : Env) (d : Drbg σ) : Option (Drbg σ) :=
  (v.reseed env [] d).map d.ignoring

/-- `DRBG::AddRandomData`. -/
def addRandomData (env : Env) (data : List UInt8) (d : Drbg σ) : Option (Int × Drbg σ) :=
  if d.inited = true then do
    let r ← v.reseed env data d
    return (0, d.ignoring r)
  else do
    let d := { d with inited := true }
    let r ← v.initializeWith env data d
    return (0, d.ignoring r)

/-- `DRBG::Initialize` without arguments. -/
def drbgInitialize (env : Env) (d : Drbg σ) : Option (Int × Drbg σ) := v.addRandomData env [] d

/-- What `GetBytes` begins with. -/
def ready (env : Env) (d : Drbg σ) : Option (Int × Drbg σ) :=
  if d.inited = false then v.drbgInitialize env d
  else if reseedInterval ≤ d.rc then do
    let d ← v.stir env d
    return (0, d)
  else some (0, d)

/-- `GetBytes`. -/
def getBytes (env : Env) (d : Drbg σ) (data : Buf UInt8 n) :
    Option (Except Int (Drbg σ × Buf UInt8 n)) := do
  let (res, d) ← v.ready env d
  if res < 0 then return .error res
  let (d, data) ← v.generate env d data
  return .ok (d, data)

end Class

end Drew.Prng

/-!
## The states of a generator

What a caller can do with a generator is to add data and to get bytes, with any answers of the system.
-/

namespace Drew.Prng

open Drew.Memory

namespace Class

variable {σ : Type} {v : Class σ}

/-- The states of a generator that was `d₀` at first. -/
inductive Reach (v : Class σ) (d₀ : Drbg σ) : Drbg σ → Prop
  | start : Reach v d₀ d₀
  | seed {d d' : Drbg σ} {env : Env} {data : List UInt8} {res : Int} :
      Reach v d₀ d → v.addRandomData env data d = some (res, d') → Reach v d₀ d'
  | bytes {d d' : Drbg σ} {env : Env} {n : Nat} {data out : Buf UInt8 n} :
      Reach v d₀ d → v.getBytes env d data = some (.ok (d', out)) → Reach v d₀ d'

/-- What the functions of the class keep of its members. -/
structure Preserves (v : Class σ) (P : σ → Prop) : Prop where
  initializeWith : ∀ {env : Env} {data : List UInt8} {d d' : Drbg σ},
    P d.sub → v.initializeWith env data d = some (.ok d') → P d'.sub
  reseed : ∀ {env : Env} {data : List UInt8} {d d' : Drbg σ},
    P d.sub → v.reseed env data d = some (.ok d') → P d'.sub
  generate : ∀ {env : Env} {n : Nat} {d d' : Drbg σ} {data out : Buf UInt8 n},
    P d.sub → v.generate env d data = some (d', out) → P d'.sub

variable {P : σ → Prop} {env : Env} {data : List UInt8} {d d' : Drbg σ}

/-- What the two functions that seed a generator keep. -/
structure SeedingKeeps (v : Class σ) (P : σ → Prop) : Prop where
  initializeWith : ∀ {env : Env} {data : List UInt8} {d d' : Drbg σ},
    P d.sub → v.initializeWith env data d = some (.ok d') → P d'.sub
  reseed : ∀ {env : Env} {data : List UInt8} {d d' : Drbg σ},
    P d.sub → v.reseed env data d = some (.ok d') → P d'.sub

theorem Preserves.seedingKeeps (hv : v.Preserves P) : v.SeedingKeeps P := ⟨hv.initializeWith, hv.reseed⟩

theorem SeedingKeeps.stir (hv : v.SeedingKeeps P) (hd : P d.sub) (h : v.stir env d = some d') : P d'.sub := by
  obtain ⟨r, hr, rfl⟩ := Option.map_eq_some_iff.mp h
  cases r with
  | error e => exact hd
  | ok d₁ => exact hv.reseed hd hr

theorem SeedingKeeps.addRandomData (hv : v.SeedingKeeps P) (hd : P d.sub) {res : Int}
    (h : v.addRandomData env data d = some (res, d')) : P d'.sub := by
  unfold Class.addRandomData at h
  split at h
  · obtain ⟨r, hr, hret⟩ := Option.bind_eq_some_iff.mp h
    cases hret
    cases r with
    | error e => exact hd
    | ok d₁ => exact hv.reseed hd hr
  · obtain ⟨r, hr, hret⟩ := Option.bind_eq_some_iff.mp h
    cases hret
    cases r with
    | error e => exact hd
    | ok d₁ => exact hv.initializeWith (d := { d with inited := true }) hd hr

theorem SeedingKeeps.ready (hv : v.SeedingKeeps P) (hd : P d.sub) {res : Int}
    (h : v.ready env d = some (res, d')) : P d'.sub := by
  unfold Class.ready at h
  split at h
  · exact hv.addRandomData hd h
  · split at h
    · obtain ⟨d₁, hd₁, hret⟩ := Option.bind_eq_some_iff.mp h
      cases hret
      exact hv.stir hd hd₁
    · cases h
      exact hd

/-- What the functions of the class keep holds in every state. -/
theorem Reach.preserved (hv : v.Preserves P) {d₀ : Drbg σ} (h₀ : P d₀.sub) (h : Reach v d₀ d) : P d.sub := by
  induction h with
  | start => exact h₀
  | seed _ hrun ih => exact hv.seedingKeeps.addRandomData ih hrun
  | @bytes d d' env n data out _ hrun ih =>
      obtain ⟨⟨res, d₁⟩, hready, hrest⟩ := Option.bind_eq_some_iff.mp hrun
      have hd₁ := hv.seedingKeeps.ready ih hready
      by_cases hres : res < 0
      · simp [hres] at hrest
      · simp only [hres, if_false] at hrest
        obtain ⟨⟨d₂, out'⟩, hgen, hret⟩ := Option.bind_eq_some_iff.mp hrest
        cases hret
        exact hv.generate hd₁ hgen

end Class

end Drew.Prng
