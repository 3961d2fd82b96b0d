import Drew.Ecc.Multiply
import Drew.Pksig.Dsa

/-!
# ECDSA

`ecdsa_sign` and `ecdsa_verify` of `ecdsa.c`, over the functions on points of another plugin, which are
taken to be those of the group of a curve.

`ecdsa_verify` compares `r` and `s` with zero, but not `s` with `n`: it takes the residue of `s`. A
multiple of `n` has the inverse zero, and the point is infinity.
-/

namespace Drew.Pksig

open Drew.Bignum

/-- The functions on points: `mul`, `mul2`, `isinf` and `coordbignum` for `x`. -/
structure PointOps (Pt : Type) where
  mul : Pt → Int → Pt
  mul2 : Pt → Int → Pt → Int → Pt
  isinf : Pt → Bool
  coordX : Pt → Int

/-- `struct ecdsa`, with the values `g` and `n` of its curve. -/
structure Ecdsa (Pt : Type) where
  g : Pt
  n : Int
  d : Int
  q : Pt

variable {Pt : Type}

/-- The code, `r` and `s`, for the hash `h` and the nonce `k`. -/
def ecdsa_sign (ops : PointOps Pt) (c : Ecdsa Pt) (h k : Int) : Int × Int × Int :=
  -- Compute the point corresponding to k (kG == K).
  let K := ops.mul c.g k
  let r := ops.coordX K
  let kinv := invmod k c.n
  let r := mod r c.n
  let t := mulmod c.d r c.n
  let t := t + h
  let s := mulmod kinv t c.n
  -- Check whether either r or s is zero.
  (if Bignum.compare r 0 = 0 ∨ Bignum.compare s 0 = 0 then -DREW_ERR_INVALID else 0, r, s)

/-- The code and `v`. -/
def ecdsa_verify (ops : PointOps Pt) (c : Ecdsa Pt) (r s h : Int) : Int × Int :=
  -- Check whether either r or s is zero.
  let res := if Bignum.compare r 0 = 0 ∨ Bignum.compare s 0 = 0 then -DREW_ERR_INVALID else 0
  let w := invmod s c.n
  let u1 := mulmod h w c.n
  let u2 := mulmod r w c.n
  let R := ops.mul2 c.g u1 c.q u2
  let res := if ops.isinf R then -DREW_ERR_INVALID else res
  let v := ops.coordX R
  let v := mod v c.n
  (res, v)

/-! ## The group -/

variable {p n : ℕ} [Fact p.Prime] [Fact n.Prime] {W : WeierstrassCurve.Affine (ZMod p)}

/-- The functions are those of the group of the curve. -/
structure Implements (ops : PointOps Pt) (den : Pt → W.Point) : Prop where
  mul : ∀ P (a : ℕ), den (ops.mul P a) = a • den P
  mul2 : ∀ P (a : ℕ) Q (b : ℕ), den (ops.mul2 P a Q b) = a • den P + b • den Q
  isinf : ∀ P, ops.isinf P = true ↔ den P = 0
  coordX : ∀ P x y h, den P = .some x y h → ops.coordX P = (x.val : Int)

/-- The point `(h s^-1 mod n)G + (r s^-1 mod n)Q`. -/
def ecdsaPoint (G Q : W.Point) (h r s : ZMod n) : W.Point :=
  (h * s⁻¹).val • G + (r * s⁻¹).val • Q

/-- The signature is valid for the hash. -/
def ValidEcdsa (G Q : W.Point) (n : ℕ) [Fact n.Prime] (r s h : Int) : Prop :=
  (0 < r ∧ r < n) ∧ (0 < s ∧ s < n) ∧
    ∃ x y hxy, ecdsaPoint (n := n) G Q h r s = .some x y hxy ∧ r = (x.val : Int) % n

/-! ## What is accepted -/

variable {ops : PointOps Pt} {c : Ecdsa Pt} {den : Pt → W.Point} {r s h k : Int}

theorem mulmod_invmod (a s : Int) :
    mulmod a (invmod s n) n = (((a : ZMod n) * (s : ZMod n)⁻¹).val : Int) := by
  rw [mulmod, ← mod, mod_eq_val, Int.cast_mul, cast_invmod]

theorem ecdsaPoint_zero (G Q : W.Point) (h r : ZMod n) : ecdsaPoint G Q h r 0 = 0 := by
  rw [ecdsaPoint, inv_zero, mul_zero, mul_zero, ZMod.val_zero, zero_nsmul, zero_nsmul, add_zero]

/-- The point whose coordinate is compared with `r`. -/
theorem den_mul2 (hops : Implements ops den) (hn : c.n = n) :
    den (ops.mul2 c.g (mulmod h (invmod s c.n) c.n) c.q (mulmod r (invmod s c.n) c.n)) =
      ecdsaPoint (n := n) (den c.g) (den c.q) h r s := by
  rw [hn, mulmod_invmod, mulmod_invmod, hops.mul2, ecdsaPoint]

/-- The signature is accepted. -/
theorem ecdsa_verify_eq_iff (hops : Implements ops den) (hn : c.n = n) :
    ecdsa_verify ops c r s h = (0, r) ↔ r ≠ 0 ∧ s ≠ 0 ∧ ∃ x y hxy,
      ecdsaPoint (n := n) (den c.g) (den c.q) h r s = .some x y hxy ∧ r = (x.val : Int) % n := by
  have hden := den_mul2 (r := r) (s := s) (h := h) hops hn
  unfold ecdsa_verify
  dsimp only
  generalize ops.mul2 c.g (mulmod h (invmod s c.n) c.n) c.q (mulmod r (invmod s c.n) c.n) = R at hden ⊢
  rw [← hden, hn]
  cases hR : den R with
  | zero =>
    rw [if_pos ((hops.isinf R).mpr hR)]
    constructor
    · intro heq
      have hcode : -DREW_ERR_INVALID = 0 := (Prod.ext_iff.mp heq).1
      exact absurd hcode (by decide)
    · rintro ⟨-, -, x, y, hxy, heq, -⟩
      exact absurd heq.symm (WeierstrassCurve.Affine.Point.some_ne_zero hxy)
  | some x y hxy =>
    have hinf : ¬ ops.isinf R = true := by
      rw [hops.isinf R, hR]
      exact WeierstrassCurve.Affine.Point.some_ne_zero hxy
    rw [if_neg hinf, hops.coordX R x y hxy hR, Prod.ext_iff, ← and_assoc]
    apply and_congr (code_eq_zero_iff r s)
    constructor
    · intro hv
      exact ⟨x, y, hxy, rfl, hv.symm⟩
    · rintro ⟨x', y', hxy', heq, hv⟩
      cases heq
      exact hv.symm

omit [Fact p.Prime] in
theorem range_of_coord {x : ZMod p} (hr : r ≠ 0) (hv : r = (x.val : Int) % n) : 0 < r ∧ r < n := by
  have hpos : (0 : Int) < n := by exact_mod_cast (Fact.out : n.Prime).pos
  have hlt := Int.emod_lt_of_pos (x.val : Int) hpos
  have hge := Int.emod_nonneg (x.val : Int) hpos.ne'
  omega

theorem ecdsa_verify_iff_of_lt (hops : Implements ops den) (hn : c.n = n) (hs : 0 ≤ s) (hlt : s < n) :
    ecdsa_verify ops c r s h = (0, r) ↔ ValidEcdsa (den c.g) (den c.q) n r s h := by
  rw [ecdsa_verify_eq_iff hops hn]
  constructor
  · rintro ⟨hr, hs0, x, y, hxy, heq, hv⟩
    exact ⟨range_of_coord hr hv, ⟨lt_of_le_of_ne hs hs0.symm, hlt⟩, x, y, hxy, heq, hv⟩
  · rintro ⟨hr, hs0, hx⟩
    exact ⟨hr.1.ne', hs0.1.ne', hx⟩

/-- From `n` on the residue of `s` is taken. -/
theorem ecdsa_verify_iff_of_le (hops : Implements ops den) (hn : c.n = n) (hle : (n : Int) ≤ s) :
    ecdsa_verify ops c r s h = (0, r) ↔ ValidEcdsa (den c.g) (den c.q) n r (s % n) h := by
  have hpos : (0 : Int) < n := by exact_mod_cast (Fact.out : n.Prime).pos
  have hs0 : s ≠ 0 := (hpos.trans_le hle).ne'
  have hcast : ((s % n : Int) : ZMod n) = (s : ZMod n) := ZMod.intCast_mod s n
  rw [ecdsa_verify_eq_iff hops hn, ValidEcdsa, hcast]
  constructor
  · rintro ⟨hr, -, x, y, hxy, heq, hv⟩
    refine ⟨range_of_coord hr hv, ⟨?_, Int.emod_lt_of_pos s hpos⟩, x, y, hxy, heq, hv⟩
    -- A multiple of `n` gives infinity.
    apply lt_of_le_of_ne (Int.emod_nonneg s hpos.ne')
    intro hzero
    rw [← hzero, Int.cast_zero] at hcast
    rw [← hcast, ecdsaPoint_zero] at heq
    exact WeierstrassCurve.Affine.Point.some_ne_zero hxy heq.symm
  · rintro ⟨hr, -, hx⟩
    exact ⟨hr.1.ne', hs0, hx⟩

theorem ecdsa_verify_iff (hops : Implements ops den) (hn : c.n = n) (hs : 0 ≤ s) :
    (ecdsa_verify ops c r s h = (0, r) ↔ ValidEcdsa (den c.g) (den c.q) n r s h) ↔
      s < n ∨ ¬ ValidEcdsa (den c.g) (den c.q) n r (s % n) h := by
  rcases lt_or_ge s n with hlt | hle
  · exact ⟨fun _ => .inl hlt, fun _ => ecdsa_verify_iff_of_lt hops hn hs hlt⟩
  · have hinvalid : ¬ ValidEcdsa (den c.g) (den c.q) n r s h :=
      fun hv => absurd hv.2.1.2 (not_lt.mpr hle)
    rw [ecdsa_verify_iff_of_le hops hn hle, iff_false_right hinvalid]
    constructor
    · exact .inr
    · rintro (hlt | hnot)
      · exact absurd hlt (not_lt.mpr hle)
      · exact hnot

/-! ### A group of order seven -/

/-- The functions on the points of the curve themselves. -/
noncomputable def groupOps (W : WeierstrassCurve.Affine (ZMod p)) : PointOps W.Point where
  mul P a := a.toNat • P
  mul2 P a Q b := a.toNat • P + b.toNat • Q
  isinf
    | .zero => true
    | .some _ _ _ => false
  coordX
    | .zero => 0
    | .some x _ _ => (x.val : Int)

theorem groupOps_implements (W : WeierstrassCurve.Affine (ZMod p)) : Implements (groupOps W) id where
  mul _ _ := rfl
  mul2 _ _ _ _ := rfl
  isinf P := by
    cases P with
    | zero => exact ⟨fun _ => rfl, fun _ => rfl⟩
    | some x y hxy =>
      constructor
      · intro h
        exact absurd h Bool.false_ne_true
      · intro h
        exact absurd h (WeierstrassCurve.Affine.Point.some_ne_zero hxy)
  coordX P x y hxy hP := by
    cases hP
    rfl

open Ecc

/-- The key with `d = 1`. -/
noncomputable def ecdsaSeven : Ecdsa (weierstrass 5 curveSeven).Point := ⟨generator, 7, 1, generator⟩

/-- The double of `(0, 1)` is `(1, 3)`. -/
theorem generator_add_self :
    generator + generator = .some 1 3 (nonsingular_seven.mpr (by decide)) := by
  have hne : (1 : ZMod 5) ≠ (weierstrass 5 curveSeven).negY 0 1 := by decide
  have hslope : (weierstrass 5 curveSeven).slope 0 0 1 1 = 1 := by
    rw [WeierstrassCurve.Affine.slope_of_Y_ne rfl hne, div_eq_one_iff_eq (by decide)]
    decide
  rw [generator, WeierstrassCurve.Affine.Point.add_self_of_Y_ne hne,
    WeierstrassCurve.Affine.Point.some.injEq, hslope]
  decide

/-- The signature `(1, 1)` for the hash `1`. -/
theorem validEcdsa_one_one : ValidEcdsa generator generator 7 1 1 1 := by
  refine ⟨by decide, by decide, 1, 3, nonsingular_seven.mpr (by decide), ?_, rfl⟩
  have hone : Fact (1 < 7) := ⟨by decide⟩
  rw [ecdsaPoint, Int.cast_one, inv_one, mul_one, ZMod.val_one, one_nsmul, generator_add_self]

theorem ecdsa_verify_one_one :
    (ecdsa_verify (groupOps _) ecdsaSeven 1 1 1 = (0, 1) ↔ ValidEcdsa generator generator 7 1 1 1) := by
  apply (ecdsa_verify_iff (n := 7) (groupOps_implements _) rfl (by decide)).mpr
  exact .inl (by decide)

/-- With `s` greater by the order the signature is accepted as well. -/
theorem ecdsa_verify_fails :
    ecdsa_verify (groupOps _) ecdsaSeven 1 8 1 = (0, 1) ∧
      ¬ ValidEcdsa generator generator 7 1 8 1 := by
  constructor
  · apply (ecdsa_verify_iff_of_le (n := 7) (groupOps_implements _) rfl (by decide)).mpr
    exact validEcdsa_one_one
  · intro hv
    exact absurd hv.2.1.2 (by decide)

end Drew.Pksig
