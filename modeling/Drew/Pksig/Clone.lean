import Mathlib.Tactic
import Drew.Ecc.Sec

/-!
# Clones of the contexts

The contexts of DSA, ECDSA and RSA are pointers to numbers, points and a curve. Memory has what the pointers
point at; an access through a null pointer is undefined (`none`).

The three functions that clone a context have one body: the new context is cleared, and then each member of
the old one is cloned to where the new one's member points, which is nowhere.
-/

namespace Drew.Pksig

open Drew.Ecc

/-! ## Memory -/

/-- What a member of a context points at. -/
inductive Component
  | bignum (v : Int)
  | point (pt : Point)
  | curve (c : Curve)

abbrev Memory := Nat → Option Component

/-- `clone` of the functions of a component. It writes to the new object. -/
def cloneComponent (m : Memory) (new old : Nat) : Option Memory :=
  if new = 0 then none else (m old).map fun v => Function.update m new (some v)

/-- `setbytes` and `setcoordbytes`. The code of the latter is not looked at. -/
def setComponent (m : Memory) (p : Nat) (buf : List UInt8) : Option Memory := do
  let v ← m p
  match v with
  | .bignum _ => return Function.update m p (some (.bignum (setbytes buf)))
  | .point pt => do
      let (_, pt) ← load_point pt buf
      return Function.update m p (some (.point pt))
  | .curve _ => none

/-! ## What the contexts have in common -/

section Contexts

variable {N : Type} [DecidableEq N]

/-- Members are allocated at the addresses and written to. -/
def initMembers (names : List N) (fresh : N → Component) (m : Memory) (ctx : N → Nat) : Option Memory :=
  names.foldlM (fun m x =>
    if ctx x = 0 then none else some (Function.update m (ctx x) (some (fresh x)))) m

/-- The macro `CLONE`. -/
def CLONE (old : N → Nat) (s : Memory × (N → Nat)) (x : N) : Option (Memory × (N → Nat)) :=
  if old x = 0 then some (s.1, Function.update s.2 x 0)
  else (cloneComponent s.1 (s.2 x) (old x)).map fun m => (m, s.2)

/-- The body of the functions: `newctx` is where the new context is, and it is cleared. -/
def cloneMembers (names : List N) (m : Memory) (old : N → Nat) (newctx : Nat) :
    Option (Memory × (N → Nat)) :=
  if newctx = 0 then none else names.foldlM (CLONE old) (m, fun _ => 0)

/-- A value is set by name. The code and the memory. -/
def setMember (named : String → Option N) (m : Memory) (ctx : N → Nat) (name : String)
    (buf : List UInt8) : Option (Int × Memory) :=
  match named name with
  | none => some (-DREW_ERR_INVALID, m)
  | some x => (setComponent m (ctx x) buf).map fun m => (0, m)

/-- Values are set one after the other. -/
def setvals (setval : Memory → (N → Nat) → String → List UInt8 → Option (Int × Memory)) (m : Memory)
    (ctx : N → Nat) (values : List (String × List UInt8)) : Option Memory :=
  values.foldlM (fun m v => (setval m ctx v.1 v.2).map Prod.snd) m

end Contexts

/-! ## DSA -/

/-- The members of `struct dsa`. -/
inductive DsaMember
  | p
  | q
  | g
  | x
  | y
  deriving DecidableEq

namespace DsaMember

def get_named_mpi : String → Option DsaMember
  | "p" => some p
  | "q" => some q
  | "g" => some g
  | "x" => some x
  | "y" => some y
  | _ => none

end DsaMember

def dsa_init : Memory → (DsaMember → Nat) → Option Memory :=
  initMembers [.p, .q, .g, .x, .y] fun _ => .bignum 0

def dsa_setval : Memory → (DsaMember → Nat) → String → List UInt8 → Option (Int × Memory) :=
  setMember DsaMember.get_named_mpi

def dsa_clone : Memory → (DsaMember → Nat) → Nat → Option (Memory × (DsaMember → Nat)) :=
  cloneMembers [.p, .q, .g, .x, .y]

/-! ## ECDSA -/

/-- The members of `struct ecdsa`. -/
inductive EcdsaMember
  | d
  | curve
  | q
  deriving DecidableEq

/-- The names of `ecdsa_setval`. -/
def EcdsaMember.named : String → Option EcdsaMember
  | "d" => some .d
  | "q" => some .q
  | _ => none

/-- The curve is a clone of that of the caller, and the point is infinity. -/
def ecdsa_init (c : Curve) : Memory → (EcdsaMember → Nat) → Option Memory :=
  initMembers [.d, .curve, .q] fun
    | .d => .bignum 0
    | .curve => .curve c
    | .q => .point ⟨true, some c.p, some c.p, c⟩

def ecdsa_setval : Memory → (EcdsaMember → Nat) → String → List UInt8 → Option (Int × Memory) :=
  setMember EcdsaMember.named

def ecdsa_clone : Memory → (EcdsaMember → Nat) → Nat → Option (Memory × (EcdsaMember → Nat)) :=
  cloneMembers [.d, .q, .curve]

/-! ## RSA -/

/-- The members of `struct rsa`. -/
inductive RsaMember
  | p
  | q
  | n
  | u
  | e
  | d
  deriving DecidableEq

namespace RsaMember

def get_named_mpi : String → Option RsaMember
  | "p" => some p
  | "q" => some q
  | "n" => some n
  | "u" => some u
  | "e" => some e
  | "d" => some d
  | _ => none

end RsaMember

def rsa_init : Memory → (RsaMember → Nat) → Option Memory :=
  initMembers [.p, .q, .e, .d, .n, .u] fun _ => .bignum 0

def rsa_setval : Memory → (RsaMember → Nat) → String → List UInt8 → Option (Int × Memory) :=
  setMember RsaMember.get_named_mpi

def rsa_clone : Memory → (RsaMember → Nat) → Nat → Option (Memory × (RsaMember → Nat)) :=
  cloneMembers [.p, .q, .u, .e, .d, .n]

/-! ## Clones -/

section Clones

variable {N : Type} [DecidableEq N]

omit [DecidableEq N] in
/-- Every member of a context that was initialised points at something. -/
theorem initMembers_ne_zero {fresh : N → Component} {ctx : N → Nat} {names : List N} {m m' : Memory}
    (h : initMembers names fresh m ctx = some m') : ∀ x ∈ names, ctx x ≠ 0 := by
  induction names generalizing m with
  | nil => simp
  | cons a names ih =>
      rcases Option.bind_eq_some_iff.mp h with ⟨m₁, hstep, hrest⟩
      intro x hx
      rcases List.mem_cons.mp hx with rfl | hx
      · intro hzero
        exact absurd ((if_pos hzero).symm.trans hstep) (Option.some_ne_none m₁).symm
      · exact ih hrest x hx

/-- The first member is cloned to where the new context points, which is nowhere. -/
theorem cloneMembers_eq_none {old : N → Nat} {a : N} (names : List N) (ha : old a ≠ 0) (m : Memory)
    (newctx : Nat) : cloneMembers (a :: names) m old newctx = none := by
  have hstep : CLONE old (m, fun _ => 0) a = none := by
    rw [CLONE, if_neg ha, cloneComponent, if_pos rfl, Option.map_none]
  rw [cloneMembers, List.foldlM_cons, hstep, Option.bind_eq_bind, Option.bind_none, ite_self]

end Clones

/-- For every context that was initialised, with any values set, `clone` goes through a null pointer: for DSA,
for ECDSA with any curve and for RSA. -/
theorem clone_undefined (m : Memory) (values : List (String × List UInt8)) (newctx : Nat)
    (m₀ m₁ : Memory) :
    (∀ ctx : DsaMember → Nat, dsa_init m ctx = some m₀ →
        setvals dsa_setval m₀ ctx values = some m₁ → dsa_clone m₁ ctx newctx = none) ∧
      (∀ (c : Curve) (ctx : EcdsaMember → Nat), ecdsa_init c m ctx = some m₀ →
        setvals ecdsa_setval m₀ ctx values = some m₁ → ecdsa_clone m₁ ctx newctx = none) ∧
      ∀ ctx : RsaMember → Nat, rsa_init m ctx = some m₀ →
        setvals rsa_setval m₀ ctx values = some m₁ → rsa_clone m₁ ctx newctx = none := by
  refine ⟨?_, ?_, ?_⟩
  · intro ctx hinit _
    exact cloneMembers_eq_none _ (initMembers_ne_zero hinit .p (by simp)) m₁ newctx
  · intro c ctx hinit _
    exact cloneMembers_eq_none _ (initMembers_ne_zero hinit .d (by simp)) m₁ newctx
  · intro ctx hinit _
    exact cloneMembers_eq_none _ (initMembers_ne_zero hinit .p (by simp)) m₁ newctx

/-- Addresses of the members of a DSA context. -/
def dsaAddress : DsaMember → Nat
  | .p => 1
  | .q => 2
  | .g => 3
  | .x => 4
  | .y => 5

/-- A DSA context with its values set. -/
theorem dsa_clone_null :
    ∃ m₀ m₁, dsa_init (fun _ => none) dsaAddress = some m₀ ∧
      setvals dsa_setval m₀ dsaAddress [("p", [23]), ("q", [11]), ("g", [4]), ("x", [3]), ("y", [18])] =
        some m₁ ∧
      m₁ 1 = some (.bignum 23) ∧ dsa_clone m₁ dsaAddress 6 = none :=
  ⟨_, _, rfl, rfl, rfl, rfl⟩

/-- The same context without values. -/
theorem clone_undefined_dsa :
    ∃ m₀, dsa_init (fun _ => none) dsaAddress = some m₀ ∧ dsa_clone m₀ dsaAddress 6 = none :=
  ⟨_, rfl, (clone_undefined (fun _ => none) [] 6 _ _).1 dsaAddress rfl rfl⟩

end Drew.Pksig
