import Mathlib.Data.ZMod.Basic
import Mathlib.Algebra.Field.ZMod
import Mathlib.GroupTheory.OrderOfElement
import Mathlib.Tactic.Ring
import Drew.Memory.Sizes
import Drew.Bignum.Model
import Drew.Error

/-!
# Powers with residues as exponents

A power of an element whose order divides `q` depends on the residue of the exponent only. The equations
of the signature schemes are equations between residues; these lemmas take them to the group.
-/

namespace Drew.Pksig

variable {q : ℕ}

theorem pow_congr {M : Type} [Monoid M] {x : M} (hx : x ^ q = 1) {m n : ℕ} (h : (m : ZMod q) = n) : x ^ m = x ^ n := by
  have hmod : m % q = n % q := (ZMod.natCast_eq_natCast_iff m n q).mp h
  rw [pow_eq_pow_mod m hx, pow_eq_pow_mod n hx, hmod]

/-- The power of `x` and that of its power `x ^ d` are one power of `x`. -/
theorem pow_val_mul_pow_val {M : Type} [Monoid M] {x : M} [NeZero q] (hx : x ^ q = 1) (d k : ℕ)
    (u v : ZMod q) (h : u + d * v = k) : x ^ u.val * (x ^ d) ^ v.val = x ^ k := by
  rw [← pow_mul, ← pow_add]
  apply pow_congr hx
  push_cast
  rw [ZMod.natCast_zmod_val, ZMod.natCast_zmod_val, h]

theorem val_nsmul_add_val_nsmul {A : Type} [AddMonoid A] {x : A} [NeZero q] (hx : q • x = 0) (d k : ℕ)
    (u v : ZMod q) (h : u + d * v = k) : u.val • x + v.val • d • x = k • x :=
  pow_val_mul_pow_val (M := Multiplicative A) hx d k u v h

/-- The second half of a signature: the inverse of `(e + x r) / k` takes the exponents back to `k`. -/
theorem scalars_eq_nonce {F : Type} [Field F] {k e r x s : F} (hk : k ≠ 0) (hs : s ≠ 0)
    (h : s = k⁻¹ * (x * r + e)) : e * s⁻¹ + x * (r * s⁻¹) = k := by
  have hks : k * s = x * r + e := by rw [h, mul_inv_cancel_left₀ hk]
  calc e * s⁻¹ + x * (r * s⁻¹) = (x * r + e) * s⁻¹ := by ring
    _ = k * s * s⁻¹ := by rw [hks]
    _ = k := mul_inv_cancel_right₀ hs k

end Drew.Pksig

/-!
## DSA

`dsa_sign` and `dsa_verify` of `dsa.c`. Both go on after an error, so that a result is always a code and
the numbers.

`dsa_verify` compares `r` and `s` with zero, but not `s` with `q`: for `s ≥ q` it takes the residue of
`s`, and for a multiple of `q` the inverse is zero and the value is one.
-/

namespace Drew.Pksig

open Drew.Bignum

/-- `struct dsa`. -/
structure Dsa where
  p : Int
  q : Int
  g : Int
  x : Int
  y : Int

/-- The code, `r` and `s`, for the hash `h` and the nonce `k`. -/
def dsa_sign (c : Dsa) (h k : Int) : Int × Int × Int :=
  let kinv := invmod k c.q
  let r := expmod c.g k c.p
  let r := mod r c.q
  let t := c.x * r
  let t := mod t c.q
  let t := t + h
  let s := kinv * t
  let s := mod s c.q
  -- Check whether either r or s is zero.
  (if Bignum.compare r 0 = 0 ∨ Bignum.compare s 0 = 0 then -DREW_ERR_INVALID else 0, r, s)

/-- The code and `v`. -/
def dsa_verify (c : Dsa) (r s h : Int) : Int × Int :=
  -- Check whether either r or s is zero.
  let res := if Bignum.compare r 0 = 0 ∨ Bignum.compare s 0 = 0 then -DREW_ERR_INVALID else 0
  let w := invmod s c.q
  let u1 := h * w
  let u1 := mod u1 c.q
  let u2 := r * w
  let u2 := mod u2 c.q
  let v := expmod c.g u1 c.p
  let t := expmod c.y u2 c.p
  let v := v * t
  let v := mod v c.p
  let v := mod v c.q
  (res, v)

/-! ## Valid signatures -/

variable {c : Dsa} {p q : ℕ} [Fact p.Prime] [Fact q.Prime] {r s h k : Int}

/-- `((g^(h s^-1 mod q) * y^(r s^-1 mod q)) mod p) mod q`. -/
def dsaValue (p q : ℕ) (g y : ZMod p) (h r s : ZMod q) : ℕ :=
  (g ^ (h * s⁻¹).val * y ^ (r * s⁻¹).val).val % q

/-- The signature is valid for the hash. -/
def ValidDsa (c : Dsa) (p q : ℕ) (r s h : Int) : Prop :=
  (0 < r ∧ r < q) ∧ (0 < s ∧ s < q) ∧ r = dsaValue p q c.g c.y h r s

omit [Fact p.Prime] in
theorem dsaValue_lt (g y : ZMod p) (h r s : ZMod q) : dsaValue p q g y h r s < q :=
  Nat.mod_lt _ (Fact.out : q.Prime).pos

/-- Without an inverse the value is that of two powers with exponent zero. -/
theorem dsaValue_zero (g y : ZMod p) (h r : ZMod q) : dsaValue p q g y h r 0 = 1 := by
  have hp : Fact (1 < p) := ⟨(Fact.out : p.Prime).one_lt⟩
  rw [dsaValue, inv_zero, mul_zero, mul_zero, ZMod.val_zero, pow_zero, pow_zero, mul_one, ZMod.val_one]
  exact Nat.mod_eq_of_lt (Fact.out : q.Prime).one_lt

/-- The exponents are the numbers of their residues. -/
theorem mod_mul_invmod_toNat (a s : Int) :
    (mod (a * invmod s q) q).toNat = ((a : ZMod q) * (s : ZMod q)⁻¹).val := by
  rw [mod_eq_val, Int.toNat_natCast, Int.cast_mul, cast_invmod]

theorem dsa_verify_value (hp : c.p = p) (hq : c.q = q) (r s h : Int) :
    (dsa_verify c r s h).2 = dsaValue p q c.g c.y h r s := by
  unfold dsa_verify
  dsimp only
  rw [hp, hq]
  have hcast : ((expmod c.g (mod (h * invmod s q) q) p *
        expmod c.y (mod (r * invmod s q) q) p : Int) : ZMod p) =
      (c.g : ZMod p) ^ ((h : ZMod q) * (s : ZMod q)⁻¹).val *
        (c.y : ZMod p) ^ ((r : ZMod q) * (s : ZMod q)⁻¹).val := by
    rw [Int.cast_mul, cast_expmod, cast_expmod, mod_mul_invmod_toNat, mod_mul_invmod_toNat]
  rw [mod_eq_val (m := p), hcast, mod, dsaValue, Int.natCast_mod]

/-- The check that all four functions make. -/
theorem code_eq_zero_iff (r s : Int) :
    (if Bignum.compare r 0 = 0 ∨ Bignum.compare s 0 = 0 then -DREW_ERR_INVALID else 0) = 0 ↔
      r ≠ 0 ∧ s ≠ 0 := by
  have hiff : Bignum.compare r 0 = 0 ∨ Bignum.compare s 0 = 0 ↔ r = 0 ∨ s = 0 :=
    or_congr compare_eq_zero compare_eq_zero
  rw [← not_or, ← hiff]
  split
  · rename_i hzero
    exact ⟨fun h => absurd h (by decide), fun h => absurd hzero h⟩
  · rename_i hzero
    exact ⟨fun _ => hzero, fun _ => rfl⟩

/-- The signature is accepted. -/
theorem dsa_verify_eq_iff (hp : c.p = p) (hq : c.q = q) :
    dsa_verify c r s h = (0, r) ↔ r ≠ 0 ∧ s ≠ 0 ∧ r = dsaValue p q c.g c.y h r s := by
  rw [Prod.ext_iff, dsa_verify_value hp hq, eq_comm (b := r), ← and_assoc]
  exact and_congr_left' (code_eq_zero_iff r s)

/-! ## What is accepted -/

omit [Fact p.Prime] in
theorem dsaValue_emod (g y : ZMod p) (h r : ZMod q) (s : Int) :
    dsaValue p q g y h r ((s % q : Int) : ZMod q) = dsaValue p q g y h r (s : ZMod q) := by
  rw [ZMod.intCast_mod]

omit [Fact p.Prime] in
/-- A number that is accepted is the value, and so in range. -/
theorem range_of_value {g y : ZMod p} {e : ZMod q} (hr : r ≠ 0) (hv : r = dsaValue p q g y e r s) :
    0 < r ∧ r < q := by
  have hlt : dsaValue p q g y e r s < q := dsaValue_lt _ _ _ _ _
  omega

/-- Up to `q` the signatures that are accepted are the valid ones. -/
theorem dsa_verify_iff_of_lt (hp : c.p = p) (hq : c.q = q) (hs : 0 ≤ s) (hlt : s < q) :
    dsa_verify c r s h = (0, r) ↔ ValidDsa c p q r s h := by
  rw [dsa_verify_eq_iff hp hq]
  constructor
  · rintro ⟨hr, hs0, hv⟩
    exact ⟨range_of_value hr hv, ⟨lt_of_le_of_ne hs hs0.symm, hlt⟩, hv⟩
  · rintro ⟨hr, hs0, hv⟩
    exact ⟨hr.1.ne', hs0.1.ne', hv⟩

/-- From `q` on the residue of `s` is taken, and for zero only `1` is accepted. -/
theorem dsa_verify_iff_of_le (hp : c.p = p) (hq : c.q = q) (hle : (q : Int) ≤ s) :
    dsa_verify c r s h = (0, r) ↔ ValidDsa c p q r (s % q) h ∨ (q : Int) ∣ s ∧ r = 1 := by
  have hpos : (0 : Int) < q := by exact_mod_cast (Fact.out : q.Prime).pos
  have hs0 : s ≠ 0 := (hpos.trans_le hle).ne'
  rw [dsa_verify_eq_iff hp hq]
  by_cases hdvd : (q : Int) ∣ s
  · have hzero : (s : ZMod q) = 0 := (ZMod.intCast_zmod_eq_zero_iff_dvd s q).mpr hdvd
    rw [hzero, dsaValue_zero]
    constructor
    · rintro ⟨-, -, hv⟩
      exact .inr ⟨hdvd, hv⟩
    · rintro (⟨-, hs, -⟩ | ⟨-, hr⟩)
      · rw [Int.emod_eq_zero_of_dvd hdvd] at hs
        exact absurd hs.1 (lt_irrefl 0)
      · exact ⟨by rw [hr]; exact one_ne_zero, hs0, hr⟩
  · have hne : s % q ≠ 0 := fun h => hdvd (Int.dvd_of_emod_eq_zero h)
    constructor
    · rintro ⟨hr, -, hv⟩
      refine .inl ⟨range_of_value hr hv, ⟨?_, Int.emod_lt_of_pos s hpos⟩, ?_⟩
      · exact lt_of_le_of_ne (Int.emod_nonneg s hpos.ne') hne.symm
      · rwa [dsaValue_emod]
    · rintro (⟨hr, -, hv⟩ | ⟨h, -⟩)
      · rw [dsaValue_emod] at hv
        exact ⟨hr.1.ne', hs0, hv⟩
      · exact absurd h hdvd

theorem dsa_verify_iff (hp : c.p = p) (hq : c.q = q) (hs : 0 ≤ s) :
    (dsa_verify c r s h = (0, r) ↔ ValidDsa c p q r s h) ↔
      s < q ∨ ¬ ValidDsa c p q r (s % q) h ∧ ¬ ((q : Int) ∣ s ∧ r = 1) := by
  rcases lt_or_ge s q with hlt | hle
  · exact ⟨fun _ => .inl hlt, fun _ => dsa_verify_iff_of_lt hp hq hs hlt⟩
  · have hinvalid : ¬ ValidDsa c p q r s h := fun hv => absurd hv.2.1.2 (not_lt.mpr hle)
    rw [dsa_verify_iff_of_le hp hq hle, iff_false_right hinvalid, not_or]
    constructor
    · exact .inr
    · rintro (hlt | hnot)
      · exact absurd hlt (not_lt.mpr hle)
      · exact hnot

/-! ### The group of order three modulo seven -/

instance fact_prime_seven : Fact (Nat.Prime 7) := ⟨by decide⟩

def dsaSeven : Dsa := ⟨7, 3, 2, 1, 2⟩

theorem dsa_verify_two_one :
    (dsa_verify dsaSeven 2 1 0 = (0, 2) ↔ ValidDsa dsaSeven 7 3 2 1 0) := by
  apply (dsa_verify_iff (p := 7) (q := 3) rfl rfl (by decide)).mpr
  exact .inl (by decide)

/-- With `s` the order itself, the pair `(1, 3)` is accepted. -/
theorem dsa_verify_fails :
    dsa_verify dsaSeven 1 3 1 = (0, 1) ∧ ¬ ValidDsa dsaSeven 7 3 1 3 1 := by
  constructor
  · apply (dsa_verify_iff_of_le (p := 7) (q := 3) rfl rfl (by decide)).mpr
    exact .inr ⟨by decide, rfl⟩
  · intro hv
    exact absurd hv.2.1.2 (by decide)

end Drew.Pksig
