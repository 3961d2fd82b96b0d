import Drew.Pksig.Ecdsa

/-!
# Signatures verify

With `s = (x r + h) / k` the exponents of the verification add up to the nonce, so that it computes the
same `r`. A signature is refused by the signer if one of the two numbers is zero, and by nobody else.
-/

namespace Drew.Pksig

open Drew.Bignum

/-! ## Nonces -/

section

variable {q : ℕ} [Fact q.Prime] {k : Int}

theorem nonce_ne_zero (h0 : 0 < k) (hk : k < q) : (k : ZMod q) ≠ 0 := by
  rw [Ne, ZMod.intCast_zmod_eq_zero_iff_dvd]
  exact fun hdvd => absurd (Int.le_of_dvd h0 hdvd) (not_le.mpr hk)

theorem toNat_cast {R : Type} [Ring R] {x : Int} (h : 0 ≤ x) : ((x.toNat : ℕ) : R) = (x : R) := by
  rw [← Int.cast_natCast, Int.toNat_of_nonneg h]

/-- A number that is reduced is zero if its residue is. -/
theorem mod_eq_zero_iff (a : Int) : mod a q = 0 ↔ (a : ZMod q) = 0 := by
  rw [mod_eq_val, Nat.cast_eq_zero, ZMod.val_eq_zero]

end

/-! ## DSA -/

section

variable {p q : ℕ} [Fact p.Prime] [Fact q.Prime] {c : Dsa} {h k : Int}

/-- The numbers of the key: `g` has order `q`, and `y = g^x`. -/
structure DsaKey (c : Dsa) (p q : ℕ) : Prop where
  p_eq : c.p = p
  q_eq : c.q = q
  order : orderOf (c.g : ZMod p) = q
  x_nonneg : 0 ≤ c.x
  y_eq : (c.y : ZMod p) = (c.g : ZMod p) ^ c.x.toNat

/-- `(g^k mod p) mod q`. -/
def dsaR (c : Dsa) (p q : ℕ) (k : Int) : ℕ := ((c.g : ZMod p) ^ k.toNat).val % q

/-- `k^-1 (x r + h) mod q`. -/
def dsaS (c : Dsa) (p q : ℕ) [Fact q.Prime] (h k : Int) : ZMod q :=
  (k : ZMod q)⁻¹ * ((c.x : ZMod q) * (dsaR c p q k : ZMod q) + (h : ZMod q))

omit [Fact q.Prime] in
theorem dsa_sign_r (hp : c.p = p) (hq : c.q = q) : (dsa_sign c h k).2.1 = dsaR c p q k := by
  unfold dsa_sign
  dsimp only
  have hexp : expmod c.g k p = (((c.g : ZMod p) ^ k.toNat).val : Int) := by
    rw [expmod, ← mod, mod_eq_val, Int.cast_pow]
  rw [hp, hq, hexp, mod, dsaR, Int.natCast_mod]

theorem dsa_sign_s (hp : c.p = p) (hq : c.q = q) :
    (dsa_sign c h k).2.2 = ((dsaS c p q h k).val : Int) := by
  have hr := dsa_sign_r (h := h) (k := k) hp hq
  unfold dsa_sign at hr ⊢
  dsimp only at hr ⊢
  rw [hr, hq, mod_eq_val, Int.cast_mul, Int.cast_add, cast_mod, Int.cast_mul, cast_invmod,
    Int.cast_natCast, dsaS]

theorem dsa_sign_code (hp : c.p = p) (hq : c.q = q) :
    (dsa_sign c h k).1 ≠ 0 ↔ dsaR c p q k = 0 ∨ dsaS c p q h k = 0 := by
  have hcode : (dsa_sign c h k).1 = 0 ↔ (dsa_sign c h k).2.1 ≠ 0 ∧ (dsa_sign c h k).2.2 ≠ 0 :=
    code_eq_zero_iff _ _
  rw [Ne, hcode, dsa_sign_r hp hq, dsa_sign_s hp hq, not_and_or, not_not, not_not, Nat.cast_eq_zero,
    Nat.cast_eq_zero, ZMod.val_eq_zero]

/-- The verification takes `g` to the nonce again. -/
theorem dsaValue_sign (hkey : DsaKey c p q) (h0 : 0 < k) (hk : k < q) (hs : dsaS c p q h k ≠ 0) :
    dsaValue p q c.g c.y h (dsaR c p q k) (dsaS c p q h k) = dsaR c p q k := by
  have hpow : (c.g : ZMod p) ^ q = 1 := by
    rw [← hkey.order]
    exact pow_orderOf_eq_one _
  have hscalar := scalars_eq_nonce (nonce_ne_zero h0 hk) hs rfl
  rw [← toNat_cast (R := ZMod q) hkey.x_nonneg, ← toNat_cast (R := ZMod q) h0.le] at hscalar
  rw [dsaValue, hkey.y_eq, pow_val_mul_pow_val hpow _ _ _ _ hscalar, dsaR]

theorem dsa_sign_verify (hkey : DsaKey c p q) (h0 : 0 < k) (hk : k < q)
    (hcode : (dsa_sign c h k).1 = 0) :
    dsa_verify c (dsa_sign c h k).2.1 (dsa_sign c h k).2.2 h = (0, (dsa_sign c h k).2.1) := by
  have hne : ¬ (dsaR c p q k = 0 ∨ dsaS c p q h k = 0) := by
    rw [← dsa_sign_code hkey.p_eq hkey.q_eq]
    exact not_not.mpr hcode
  rcases not_or.mp hne with ⟨hr, hs⟩
  rw [dsa_verify_eq_iff hkey.p_eq hkey.q_eq, dsa_sign_r hkey.p_eq hkey.q_eq,
    dsa_sign_s hkey.p_eq hkey.q_eq]
  refine ⟨Nat.cast_ne_zero.mpr hr, Nat.cast_ne_zero.mpr ((ZMod.val_eq_zero _).not.mpr hs), ?_⟩
  rw [Int.cast_natCast, Int.cast_natCast, ZMod.natCast_zmod_val, dsaValue_sign hkey h0 hk hs]

end

/-! ## ECDSA -/

section

variable {p n : ℕ} [Fact p.Prime] [Fact n.Prime] {W : WeierstrassCurve.Affine (ZMod p)} {Pt : Type}
  {ops : PointOps Pt} {c : Ecdsa Pt} {den : Pt → W.Point} {h k : Int}

/-- The group of the curve has the order `n`, and `Q = dG`. -/
structure EcdsaKey (c : Ecdsa Pt) (den : Pt → W.Point) (n : ℕ) : Prop where
  n_eq : c.n = n
  card : Nat.card W.Point = n
  g_ne : den c.g ≠ 0
  d_nonneg : 0 ≤ c.d
  q_eq : den c.q = c.d.toNat • den c.g

/-- `k^-1 (d r + h) mod n`. -/
def ecdsaS (c : Ecdsa Pt) (n : ℕ) [Fact n.Prime] (r : ℕ) (h k : Int) : ZMod n :=
  (k : ZMod n)⁻¹ * ((c.d : ZMod n) * (r : ZMod n) + (h : ZMod n))

omit [Fact n.Prime] in
theorem EcdsaKey.nsmul_g (hkey : EcdsaKey c den n) : n • den c.g = 0 := by
  rw [← hkey.card]
  exact card_nsmul_eq_zero'

/-- The point of the nonce is not infinity. -/
theorem EcdsaKey.nonce_point (hkey : EcdsaKey c den n) (h0 : 0 < k) (hk : k < n) :
    ∃ x y hxy, k.toNat • den c.g = .some x y hxy := by
  have horder : addOrderOf (den c.g) = n := addOrderOf_eq_prime hkey.nsmul_g hkey.g_ne
  have hne : k.toNat • den c.g ≠ 0 := by
    intro hzero
    have hdvd := addOrderOf_dvd_of_nsmul_eq_zero hzero
    rw [horder] at hdvd
    have hle := Nat.le_of_dvd (by omega) hdvd
    omega
  cases hpt : k.toNat • den c.g with
  | zero => exact absurd hpt hne
  | some x y hxy => exact ⟨x, y, hxy, rfl⟩

section

variable (hops : Implements ops den) (hkey : EcdsaKey c den n) (h0 : 0 < k) {x y : ZMod p}
  {hxy : W.Nonsingular x y} (hpt : k.toNat • den c.g = .some x y hxy)

include hops hkey h0 hpt

omit [Fact n.Prime] in
theorem ecdsa_sign_r : (ecdsa_sign ops c h k).2.1 = ((x.val % n : ℕ) : Int) := by
  have hden : den (ops.mul c.g k) = .some x y hxy := by
    have hmul := hops.mul c.g k.toNat
    rwa [Int.toNat_of_nonneg h0.le, hpt] at hmul
  unfold ecdsa_sign
  dsimp only
  rw [hops.coordX _ _ _ _ hden, hkey.n_eq, mod, Int.natCast_mod]

theorem ecdsa_sign_s :
    (ecdsa_sign ops c h k).2.2 = ((ecdsaS c n (x.val % n) h k).val : Int) := by
  have hr := ecdsa_sign_r (h := h) hops hkey h0 hpt
  unfold ecdsa_sign at hr ⊢
  dsimp only at hr ⊢
  rw [hr, hkey.n_eq, mulmod, ← mod, mod_eq_val, Int.cast_mul, Int.cast_add, cast_mulmod, cast_invmod,
    Int.cast_natCast, ecdsaS]

theorem ecdsa_sign_code :
    (ecdsa_sign ops c h k).1 ≠ 0 ↔ x.val % n = 0 ∨ ecdsaS c n (x.val % n) h k = 0 := by
  have hcode : (ecdsa_sign ops c h k).1 = 0 ↔
      (ecdsa_sign ops c h k).2.1 ≠ 0 ∧ (ecdsa_sign ops c h k).2.2 ≠ 0 := code_eq_zero_iff _ _
  rw [Ne, hcode, ecdsa_sign_r hops hkey h0 hpt, ecdsa_sign_s hops hkey h0 hpt, not_and_or, not_not,
    not_not, Nat.cast_eq_zero, Nat.cast_eq_zero, ZMod.val_eq_zero]

omit hops in
theorem ecdsaPoint_sign (hk : k < n) (hs : ecdsaS c n (x.val % n) h k ≠ 0) :
    ecdsaPoint (n := n) (den c.g) (den c.q) h ((x.val % n : ℕ) : ZMod n) (ecdsaS c n (x.val % n) h k) =
      .some x y hxy := by
  have hscalar := scalars_eq_nonce (nonce_ne_zero h0 hk) hs rfl
  rw [← toNat_cast (R := ZMod n) hkey.d_nonneg, ← toNat_cast (R := ZMod n) h0.le] at hscalar
  rw [ecdsaPoint, hkey.q_eq, val_nsmul_add_val_nsmul hkey.nsmul_g _ _ _ _ hscalar, hpt]

theorem ecdsa_sign_verify (hk : k < n) (hcode : (ecdsa_sign ops c h k).1 = 0) :
    ecdsa_verify ops c (ecdsa_sign ops c h k).2.1 (ecdsa_sign ops c h k).2.2 h =
      (0, (ecdsa_sign ops c h k).2.1) := by
  have hne : ¬ (x.val % n = 0 ∨ ecdsaS c n (x.val % n) h k = 0) := by
    rw [← ecdsa_sign_code hops hkey h0 hpt]
    exact not_not.mpr hcode
  rcases not_or.mp hne with ⟨hr, hs⟩
  rw [ecdsa_verify_eq_iff hops hkey.n_eq, ecdsa_sign_r hops hkey h0 hpt, ecdsa_sign_s hops hkey h0 hpt]
  refine ⟨Nat.cast_ne_zero.mpr hr, Nat.cast_ne_zero.mpr ((ZMod.val_eq_zero _).not.mpr hs), x, y, hxy, ?_,
    Int.natCast_mod _ _⟩
  rw [Int.cast_natCast, Int.cast_natCast, ZMod.natCast_zmod_val,
    ecdsaPoint_sign hkey h0 hpt hk hs]

end

end

/-! ## Both schemes -/

theorem dsaKey_seven : DsaKey dsaSeven 7 3 where
  p_eq := rfl
  q_eq := rfl
  order := orderOf_eq_prime (by decide) (by decide)
  x_nonneg := by decide
  y_eq := by decide

theorem ecdsaKey_seven : EcdsaKey ecdsaSeven id 7 where
  n_eq := rfl
  card := Ecc.card_curveSeven
  g_ne := Ecc.generator_ne_zero
  d_nonneg := by decide
  q_eq := (one_nsmul _).symm

end Drew.Pksig
