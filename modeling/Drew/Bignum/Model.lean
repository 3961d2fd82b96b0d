import Mathlib.Data.Nat.Bitwise
import Mathlib.Data.Nat.Size
import Mathlib.Tactic
import Mathlib.Data.ZMod.Basic
import Mathlib.Algebra.Field.ZMod
import Drew.Memory.Sizes

/-!
# Loops over the bits of a number

Numbers by their bits: setting and clearing one bit, and loops whose steps change one bit each. What
such a loop leaves follows from what a step does to its own bit.
-/

namespace Drew.Bits

def setBit (t i : Nat) : Nat := t ||| 2 ^ i

def clearBit (t i : Nat) : Nat := t.ldiff (2 ^ i)

theorem testBit_setBit (t i j : Nat) :
    (setBit t i).testBit j = if i = j then true else t.testBit j := by
  rw [setBit, Nat.testBit_or, Nat.testBit_two_pow]
  by_cases hij : i = j
  · simp [hij]
  · simp [hij]

theorem testBit_clearBit (t i j : Nat) :
    (clearBit t i).testBit j = if i = j then false else t.testBit j := by
  rw [clearBit, Nat.testBit_ldiff, Nat.testBit_two_pow]
  by_cases hij : i = j
  · simp [hij]
  · simp [hij]

/-- A step changes the bit of its index only, by a rule. -/
def Changes (step : Nat → Nat → Nat) (rule : Nat → Bool → Bool) : Prop :=
  ∀ t i j, (step t i).testBit j = if i = j then rule i (t.testBit i) else t.testBit j

/-- The loop changes the bits below its bound, each by the rule. -/
theorem testBit_loop {step : Nat → Nat → Nat} {rule : Nat → Bool → Bool} (h : Changes step rule)
    (n t j : Nat) :
    ((List.range n).foldl step t).testBit j = if j < n then rule j (t.testBit j) else t.testBit j := by
  induction n with
  | zero => simp
  | succ n ih =>
      rw [List.range_succ, List.foldl_append, List.foldl_cons, List.foldl_nil, h]
      by_cases hnj : n = j
      · subst hnj
        have hnot : ((List.range n).foldl step t).testBit n = t.testBit n := by
          rw [ih, if_neg (Nat.lt_irrefl n)]
        rw [if_pos rfl, if_pos (Nat.lt_succ_self n), hnot]
      · have hlt : j < n ↔ j < n + 1 := by omega
        simp only [if_neg hnj, ih, hlt]

theorem testBit_of_size_le {b j : Nat} (h : b.size ≤ j) : b.testBit j = false :=
  Nat.testBit_lt_two_pow ((Nat.lt_size_self b).trans_le (Nat.pow_le_pow_right (by norm_num) h))

end Drew.Bits

/-!
## Numbers of any size

The functions of the bignum plugin on the integers that they are given, as OpenSSL documents them for
a positive modulus: a remainder is never negative, and a number without an inverse leaves zero.

The lemmas take them to residues.
-/

namespace Drew.Bignum

/-! ## The functions -/

/-- `bn_mod`. -/
def mod (a m : Int) : Int := a % m

/-- `bn_mulmod`. -/
def mulmod (a b m : Int) : Int := a * b % m

/-- `bn_squaremod`. -/
def squaremod (a m : Int) : Int := a * a % m

/-- `bn_invmod`. Without an inverse the result is zero. -/
def invmod (a m : Int) : Int := if Int.gcd a m = 1 then Int.gcdA a m % m else 0

/-- `bn_expmod`, for an exponent that is not negative. -/
def expmod (g x m : Int) : Int := g ^ x.toNat % m

/-- `bn_compare`. -/
def compare (a b : Int) : Int := if a < b then -1 else if a = b then 0 else 1

/-- `bn_nbits`. -/
def nbits (a : Int) : Nat := a.natAbs.size

/-- `bn_nbytes`. -/
def nbytes (a : Int) : Nat := (nbits a + 7) / 8

/-- `bn_getbit`. -/
def getbit (a : Int) (i : Nat) : Bool := a.natAbs.testBit i

theorem compare_eq_zero {a b : Int} : compare a b = 0 ↔ a = b := by
  unfold compare
  split
  · rename_i hlt
    exact ⟨fun h => absurd h (by decide), fun h => absurd h hlt.ne⟩
  split
  · rename_i heq
    exact ⟨fun _ => heq, fun _ => rfl⟩
  · rename_i hne
    exact ⟨fun h => absurd h (by decide), fun h => absurd h hne⟩

/-! ## Residues -/

section

variable {m : ℕ}

theorem cast_mod (a : Int) : ((mod a m : Int) : ZMod m) = a := ZMod.intCast_mod a m

theorem cast_mulmod (a b : Int) : ((mulmod a b m : Int) : ZMod m) = a * b := by
  rw [mulmod, ZMod.intCast_mod, Int.cast_mul]

theorem cast_squaremod (a : Int) : ((squaremod a m : Int) : ZMod m) = a * a := by
  rw [squaremod, ZMod.intCast_mod, Int.cast_mul]

theorem cast_expmod (g x : Int) : ((expmod g x m : Int) : ZMod m) = (g : ZMod m) ^ x.toNat := by
  rw [expmod, ZMod.intCast_mod, Int.cast_pow]

variable [NeZero m]

/-- A remainder is the number of its residue. -/
theorem mod_eq_val (a : Int) : mod a m = ((a : ZMod m).val : Int) := (ZMod.val_intCast a).symm

theorem val_mod (a : Int) : ((((mod a m : Int) : ZMod m).val : ℕ) : Int) = mod a m := by
  rw [cast_mod, mod_eq_val]

theorem mod_lt (a : Int) : 0 ≤ mod a m ∧ mod a m < m := by
  rw [mod_eq_val]
  exact ⟨Int.natCast_nonneg _, by exact_mod_cast ZMod.val_lt _⟩

end

section

variable {p : ℕ} [Fact p.Prime]

theorem invmod_of_dvd {a : Int} (h : (p : Int) ∣ a) : invmod a p = 0 := by
  have hgcd : Int.gcd a p = p := by
    exact Nat.gcd_eq_right (Int.natCast_dvd.mp h)
  rw [invmod, if_neg]
  rw [hgcd]
  exact (Fact.out : p.Prime).ne_one

/-- Zero has the inverse zero in both. -/
theorem cast_invmod (a : Int) : ((invmod a p : Int) : ZMod p) = (a : ZMod p)⁻¹ := by
  by_cases h : (p : Int) ∣ a
  · rw [invmod_of_dvd h, (ZMod.intCast_zmod_eq_zero_iff_dvd a p).mpr h, inv_zero, Int.cast_zero]
  · have hcoprime : Int.gcd a p = 1 := by
      have hp := (Nat.prime_iff_prime_int.mp (Fact.out : p.Prime)).irreducible
      rw [Int.gcd_comm]
      exact Int.isCoprime_iff_gcd_eq_one.mp ((hp.coprime_iff_not_dvd).mpr h)
    have hbezout := Int.gcd_eq_gcd_ab a p
    rw [hcoprime] at hbezout
    have hmul : (a : ZMod p) * (Int.gcdA a p : Int) = 1 := by
      have hcast := congrArg (Int.cast : Int → ZMod p) hbezout
      push_cast at hcast
      rw [ZMod.natCast_self, zero_mul, add_zero] at hcast
      exact hcast.symm
    rw [invmod, if_pos hcoprime, ZMod.intCast_mod]
    exact eq_inv_of_mul_eq_one_right hmul

theorem invmod_eq_val (a : Int) : invmod a p = ((a : ZMod p)⁻¹.val : Int) := by
  have hrange : mod (invmod a p) p = invmod a p := by
    unfold invmod
    split
    · exact Int.emod_emod_of_dvd _ dvd_rfl
    · exact Int.zero_emod _
  rw [← hrange, mod_eq_val, cast_invmod]

end

end Drew.Bignum
