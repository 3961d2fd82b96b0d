import Mathlib.Tactic
import Drew.Prng.Arc4.Objects

/-!
# The entropy of ARC4Stir and ARC4Interleave

A generator reports its entropy. A run begins with the constructor, and what was credited is summed up along
it: the amounts of the calls of `a4s_seed`, and eight bits for each byte that was read from the device.

The constructor does not set the entropy, and `Stir` credits eight times the smaller one of zero and the
number of bytes that were read. So a read that fails takes away eight bits, below zero if need be.
-/

namespace Drew.Prng.Arc4

/-! ## Runs -/

/-- What is reported, an `int`. -/
def a4s_entropy (g : Generator) : Int := (BitVec.ofNat 32 g.entropy.toNat).toInt

/-- The answers of the device that are used to make bytes, with a count to begin with. -/
def restirs : Int → Nat → (Nat → Device) → List Device
  | _, 0, _ => []
  | cnt, n + 1, env =>
      if cnt - 1 ≤ 0 then env 0 :: restirs NBYTES n fun i => env (i + 1)
      else restirs (cnt - 1) n fun i => env (i + 1)

/-- The number of bytes that were read. -/
def bytesRead (devices : List Device) : Nat := (devices.map fun d => d.nbytes.toNat).sum

/-- The calls that change a generator. -/
inductive Call
  | seed (key : List UInt8) (amount : UInt64)
  | bytes (len : Nat) (env : Nat → Device)

/-- The bits that a call is credited with. -/
def Call.credited (g : Generator) : Call → Nat
  | .seed _ amount => amount.toNat
  | .bytes len env => 8 * bytesRead (restirs g.cnt len env)

def Call.run (v : Kind) (s : Heap × Generator) : Call → Option (Heap × Generator)
  | .seed key amount => (v.addRandomData key amount s).map Prod.snd
  | .bytes len env => (v.getBytes len env s).map Prod.snd

/-- The states of a generator, whose calls meet a condition, with the sum of what was credited. The memory of
the entropy had some value to begin with. -/
inductive Run (v : Kind) (memory : UInt64) (cond : Generator → Call → Prop) : Heap × Generator → Nat → Prop
  | init {heap : Heap} {ks : List Nat} :
      ks.length = v.count → ks.Nodup → Run v memory cond (v.construct heap ks memory) 0
  | call {s s' : Heap × Generator} {sum : Nat} {c : Call} :
      Run v memory cond s sum → cond s.2 c → c.run v s = some s' →
        Run v memory cond s' (sum + c.credited s.2)

/-- No more is reported than was credited, and a call of `a4s_bytes` takes away eight bits a byte. -/
structure Accounted (v : Kind) (cond : Generator → Call → Prop) (s : Heap × Generator) (sum : Nat) : Prop where
  bound : a4s_entropy s.2 ≤ sum
  bytes : ∀ len env, cond s.2 (.bytes len env) → ∃ out s', v.getBytes len env s = some (out, s') ∧
    a4s_entropy s'.2 = max 0 (a4s_entropy s.2 - 8 * len)

/-- The sum of the entropy is an `int`, and no read fails. -/
def Call.Fits (g : Generator) : Call → Prop
  | .seed _ amount => g.entropy.toNat + amount.toNat < 2 ^ 31
  | .bytes len env => ∀ d ∈ restirs g.cnt len env, 0 ≤ d.nbytes

/-! ## What the functions do with the entropy -/

section Functions

variable {v : Kind} {ks : List Nat} {s : Heap × Generator}

theorem subEntropy_toNat (ent : UInt64) : (subEntropy ent 8).toNat = ent.toNat - 8 := by
  have h8 : (8 : UInt64).toNat = 8 := rfl
  unfold subEntropy
  split
  case isTrue h =>
    rw [UInt64.toNat_sub_of_le _ _ (UInt64.le_of_lt h), h8]
  case isFalse h =>
    have hle : ent.toNat ≤ 8 := UInt64.le_iff_toNat_le.mp (UInt64.not_lt.mp h)
    rw [Nat.sub_eq_zero_of_le hle]
    rfl

theorem a4s_entropy_eq {g : Generator} (h : g.entropy.toNat < 2 ^ 31) : a4s_entropy g = g.entropy.toNat := by
  have hlt : g.entropy.toNat < 2 ^ 32 := lt_trans h (by decide)
  rw [a4s_entropy, BitVec.toInt_eq_toNat_of_lt]
  · rw [BitVec.toNat_ofNat, Nat.mod_eq_of_lt hlt]
  · rw [BitVec.toNat_ofNat, Nat.mod_eq_of_lt hlt]
    omega

/-- What was read is not credited. -/
theorem credit_eq_zero {env : Device} (h : 0 ≤ env.nbytes) : credit env = 0 := by
  rw [credit, min_eq_right h]
  rfl

/-- Each byte takes away eight bits, where no read fails. -/
theorem getBytes_entropy (hks : ks.length = v.count) (n : Nat) (env : Nat → Device) (hs : Alive ks s)
    (hread : ∀ d ∈ restirs s.2.cnt n env, 0 ≤ d.nbytes) :
    ∃ out s', v.getBytes n env s = some (out, s') ∧ s'.2.entropy.toNat = s.2.entropy.toNat - 8 * n := by
  induction n generalizing env s with
  | zero => exact ⟨[], s, rfl, rfl⟩
  | succ n ih =>
      rcases getByte_spec hks hs (env 0) with ⟨b, s₁, hrun₁, hs₁, hcnt, hent⟩
      have hrest : ∀ d ∈ restirs s₁.2.cnt n (fun i => env (i + 1)), 0 ≤ d.nbytes := by
        intro d hd
        apply hread d
        rw [hcnt] at hd
        rw [restirs]
        split
        case isTrue h => exact List.mem_cons_of_mem _ (by rwa [if_pos h] at hd)
        case isFalse h => rwa [if_neg h] at hd
      have hbyte : s₁.2.entropy.toNat = s.2.entropy.toNat - 8 := by
        rw [hent, subEntropy_toNat]
        split
        case isTrue h =>
          have hmem : env 0 ∈ restirs s.2.cnt (n + 1) env := by
            rw [restirs, if_pos h]
            exact List.mem_cons_self
          rw [credit_eq_zero (hread _ hmem), addEntropy, UInt64.add_zero]
        case isFalse => rfl
      rcases ih (fun i => env (i + 1)) hs₁ hrest with ⟨out, s₂, hrun₂, hsum⟩
      refine ⟨b :: out, s₂, ?_, ?_⟩
      · rw [getBytes_succ, Drew.Memory.bind_run hrun₁, Drew.Memory.bind_run hrun₂]
        rfl
      · rw [hsum, hbyte]
        omega

end Functions

/-! ## Runs whose calls meet the condition -/

/-- What holds along them. -/
structure Balanced (v : Kind) (s : Heap × Generator) (sum : Nat) : Prop where
  count : s.2.ks.length = v.count
  alive : Alive s.2.ks s
  int : s.2.entropy.toNat < 2 ^ 31
  bound : s.2.entropy.toNat ≤ sum

theorem Balanced.call {v : Kind} {s s' : Heap × Generator} {sum : Nat} (h : Balanced v s sum) {c : Call}
    (hc : c.Fits s.2) (hrun : c.run v s = some s') : Balanced v s' (sum + c.credited s.2) := by
  cases c with
  | seed key amount =>
      rcases addRandomData_spec h.count h.alive key amount with ⟨s₁, hrun₁, hs₁, -, hent⟩
      rw [Call.run, hrun₁, Option.map_some, Option.some.injEq] at hrun
      subst hrun
      have hsum : s₁.2.entropy.toNat = s.2.entropy.toNat + amount.toNat := by
        rw [hent, addEntropy, UInt64.toNat_add, Nat.mod_eq_of_lt (lt_trans hc (by decide))]
      refine ⟨hs₁.1 ▸ h.count, hs₁.1.symm ▸ hs₁, hsum ▸ hc, ?_⟩
      rw [hsum]
      exact Nat.add_le_add_right h.bound _
  | bytes len env =>
      rcases getBytes_entropy h.count len env h.alive hc with ⟨out, s₁, hrun₁, hent⟩
      rcases getBytes_keeps h.count len env s h.alive with ⟨out', s₂, hrun₂, hs₂⟩
      cases hrun₁.symm.trans hrun₂
      rw [Call.run, hrun₁, Option.map_some, Option.some.injEq] at hrun
      subst hrun
      have hle : s₁.2.entropy.toNat ≤ s.2.entropy.toNat := hent ▸ Nat.sub_le _ _
      exact ⟨hs₂.1 ▸ h.count, hs₂.1.symm ▸ hs₂, lt_of_le_of_lt hle h.int,
        hle.trans (h.bound.trans (Nat.le_add_right _ _))⟩

theorem Run.balanced {v : Kind} {s : Heap × Generator} {sum : Nat} (h : Run v 0 Call.Fits s sum) :
    Balanced v s sum := by
  induction h with
  | init hlen hnd => exact ⟨hlen, construct_alive _ _ 0 hlen, Nat.two_pow_pos 31, le_refl 0⟩
  | call _ hc hrun ih => exact ih.call hc hrun

end Drew.Prng.Arc4
