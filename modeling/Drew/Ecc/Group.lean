import Mathlib.AlgebraicGeometry.EllipticCurve.Affine.Point
import Drew.Ecc.Model

/-!
# The group of a prime curve

An object denotes a point of the Weierstrass curve over the residues modulo `p` if its coordinates are
the reduced numbers of the coordinates of the point. Addition and doubling give the sum but for two
cases: the double of a point of order two is infinity, which `ecpt_dbl` never makes; and a sum with
infinity is a copy of the other point, which is lost if that point is in the object of the result.
-/

namespace Drew.Ecc

open Drew.Bignum WeierstrassCurve.Affine

variable {p : ℕ} [Fact p.Prime]

/-- The curve `y^2 = x^3 + ax + b`. -/
abbrev weierstrass (p : ℕ) (c : Curve) : WeierstrassCurve.Affine (ZMod p) :=
  { a₁ := 0, a₂ := 0, a₃ := 0, a₄ := (c.a : ZMod p), a₆ := (c.b : ZMod p) }

variable {c : Curve}

/-- The object is the point, with reduced coordinates. -/
def Denotes (pt : Point) : (weierstrass p c).Point → Prop
  | .zero => pt.inf = true
  | .some x y _ => pt.inf = false ∧ pt.x = some (x.val : Int) ∧ pt.y = some (y.val : Int)

/-- The numbers of the object are there, so that it can be a result. -/
def Live (pt : Point) : Prop := (∃ x, pt.x = some x) ∧ ∃ y, pt.y = some y

/-! ## Coordinates -/

theorem negY_eq (x y : ZMod p) : (weierstrass p c).negY x y = -y := by
  simp [WeierstrassCurve.Affine.negY]

theorem two_ne_zero_of_lt (hp : 2 < p) : (2 : ZMod p) ≠ 0 := by
  have h : ((2 : ℕ) : ZMod p) ≠ 0 := by
    rw [Ne, ZMod.natCast_eq_zero_iff]
    exact fun hdvd => absurd (Nat.le_of_dvd (by decide) hdvd) (by omega)
  exact_mod_cast h

theorem eq_neg_self_iff_zero (hp : 2 < p) {y : ZMod p} : y = -y ↔ y = 0 := by
  constructor
  · intro h
    have hsum : 2 * y = 0 := by
      rw [two_mul]
      nth_rewrite 1 [h]
      exact neg_add_cancel y
    exact (mul_eq_zero.mp hsum).resolve_left (two_ne_zero_of_lt hp)
  · rintro rfl
    exact neg_zero.symm

theorem cast_val (x : ZMod p) : ((x.val : Int) : ZMod p) = x := by
  rw [Int.cast_natCast, ZMod.natCast_zmod_val]

/-- Reduced numbers are those of their residues. -/
theorem val_cast {z : Int} (h0 : 0 ≤ z) (hz : z < p) : (((z : ZMod p).val : ℕ) : Int) = z := by
  rw [ZMod.val_intCast, Int.emod_eq_of_lt h0 hz]

theorem dblCoords_spec (hp : 2 < p) (x y : ZMod p) (hy : y ≠ 0) :
    dblCoords p c.a x.val y.val =
      ((((weierstrass p c).addX x x ((weierstrass p c).slope x x y y)).val : Int),
        (((weierstrass p c).addY x x y ((weierstrass p c).slope x x y y)).val : Int)) := by
  have hne : y ≠ (weierstrass p c).negY x y := by
    rw [negY_eq]
    exact fun h => hy ((eq_neg_self_iff_zero hp).mp h)
  have hslope : (weierstrass p c).slope x x y y = (x * x * 3 + c.a) * (y * 2)⁻¹ := by
    rw [slope_of_Y_ne rfl hne, negY_eq]
    simp only [div_eq_mul_inv]
    ring
  have hcast : ((dblCoords p c.a x.val y.val).1 : ZMod p) =
        (weierstrass p c).addX x x ((weierstrass p c).slope x x y y) ∧
      ((dblCoords p c.a x.val y.val).2 : ZMod p) =
        (weierstrass p c).addY x x y ((weierstrass p c).slope x x y y) := by
    simp only [dblCoords, cast_mod, cast_mulmod, cast_squaremod, cast_invmod, Int.cast_add,
      Int.cast_sub, Int.cast_mul, Int.cast_ofNat, Int.cast_natCast, ZMod.natCast_zmod_val, hslope,
      addY, addX, negAddY, negY_eq]
    constructor
    · ring
    · ring
  apply Prod.ext
  · rw [← hcast.1]
    exact (val_mod _).symm
  · rw [← hcast.2]
    exact (val_mod _).symm

theorem abs_invmod (z : Int) : |invmod z p| = invmod z p := by
  rw [invmod_eq_val]
  exact abs_of_nonneg (Int.natCast_nonneg _)

theorem addCoords_spec (x₁ y₁ x₂ y₂ : ZMod p) (hx : x₁ ≠ x₂) :
    addCoords p x₁.val y₁.val x₂.val y₂.val =
      ((((weierstrass p c).addX x₁ x₂ ((weierstrass p c).slope x₁ x₂ y₁ y₂)).val : Int),
        (((weierstrass p c).addY x₁ x₂ y₁ ((weierstrass p c).slope x₁ x₂ y₁ y₂)).val : Int)) := by
  have hslope : (weierstrass p c).slope x₁ x₂ y₁ y₂ = (y₂ - y₁) * (x₂ - x₁)⁻¹ := by
    rw [slope_of_X_ne hx, div_eq_mul_inv, ← neg_sub y₂ y₁, ← neg_sub x₂ x₁, inv_neg, neg_mul_neg]
  have hcast : ((addCoords p x₁.val y₁.val x₂.val y₂.val).1 : ZMod p) =
        (weierstrass p c).addX x₁ x₂ ((weierstrass p c).slope x₁ x₂ y₁ y₂) ∧
      ((addCoords p x₁.val y₁.val x₂.val y₂.val).2 : ZMod p) =
        (weierstrass p c).addY x₁ x₂ y₁ ((weierstrass p c).slope x₁ x₂ y₁ y₂) := by
    simp only [addCoords, abs_invmod, cast_mod, cast_mulmod, cast_squaremod, cast_invmod,
      Int.cast_sub, Int.cast_mul, Int.cast_natCast, ZMod.natCast_zmod_val, hslope, addY, addX, negAddY,
      negY_eq]
    constructor
    · ring
    · ring
  apply Prod.ext
  · rw [← hcast.1]
    exact (val_mod _).symm
  · rw [← hcast.2]
    exact (val_mod _).symm

/-! ## Doubling -/

variable {Ref : Type} [DecidableEq Ref]

/-- The call makes the object `r` the point `R`, and changes no other object. -/
def Gives (σ : Ref → Point) (r : Ref) (R : (weierstrass p c).Point) (res : Option (Ref → Point)) :
    Prop :=
  ∃ v, res = some (Function.update σ r v) ∧ Denotes v R ∧ Live v ∧ v.curve = c

variable {σ : Ref → Point} {r a b : Ref} {P Q : (weierstrass p c).Point}

theorem add_self_eq_zero_iff (hp : 2 < p) {x y : ZMod p} (h : (weierstrass p c).Nonsingular x y) :
    Point.some x y h + Point.some x y h = 0 ↔ y = 0 := by
  rw [← eq_neg_self_iff_zero hp, ← negY_eq (c := c) x y]
  constructor
  · intro hsum
    by_contra hne
    rw [Point.add_self_of_Y_ne hne] at hsum
    exact Point.some_ne_zero _ hsum
  · exact Point.add_self_of_Y_eq

omit [Fact p.Prime] in
theorem gives_zero (hr : Live (σ r)) :
    Gives σ r (0 : (weierstrass p c).Point)
      (some (Function.update σ r { σ r with inf := true, curve := c })) :=
  ⟨_, rfl, rfl, hr, rfl⟩

omit [Fact p.Prime] in
theorem gives_some {x y : ZMod p} (h : (weierstrass p c).Nonsingular x y) :
    Gives σ r (Point.some x y h)
      (some (Function.update σ r ⟨false, some (x.val : Int), some (y.val : Int), c⟩)) :=
  ⟨_, rfl, ⟨rfl, rfl, rfl⟩, ⟨⟨_, rfl⟩, ⟨_, rfl⟩⟩, rfl⟩

section

variable (hp : 2 < p) (hcp : c.p = p) (hc : (σ a).curve = c) (hP : Denotes (σ a) P)
  (hr : Live (σ r))

include hp hcp hc hP hr

theorem ecpt_dbl_gives (h : P = 0 ∨ P + P ≠ 0) : Gives σ r (P + P) (ecpt_dbl σ r a) := by
  cases P with
  | zero =>
    rw [ecpt_dbl_inf hP, hc]
    exact gives_zero hr
  | some x y hxy =>
    rcases hP with ⟨hinf, hax, hay⟩
    rcases hr with ⟨⟨rx, hrx⟩, ⟨ry, hry⟩⟩
    have hy : y ≠ 0 := by
      intro hy
      exact (h.resolve_left (Point.some_ne_zero _)) ((add_self_eq_zero_iff hp hxy).mpr hy)
    have hne : y ≠ (weierstrass p c).negY x y := by
      rw [negY_eq]
      exact fun heq => hy ((eq_neg_self_iff_zero hp).mp heq)
    rw [ecpt_dbl_finite hrx hry hinf hax hay, hc, hcp, dblCoords_spec hp x y hy,
      Point.add_self_of_Y_ne hne]
    exact gives_some _

end

/-- The double of a point of order two is never infinity. -/
theorem not_ecpt_dbl_gives (hP : Denotes (σ a) P) (hr : Live (σ r)) (h0 : P ≠ 0) (h2 : P + P = 0) :
    ¬ Gives σ r (P + P) (ecpt_dbl σ r a) := by
  cases P with
  | zero => exact absurd rfl h0
  | some x y hxy =>
    rcases hP with ⟨hinf, hax, hay⟩
    rcases hr with ⟨⟨rx, hrx⟩, ⟨ry, hry⟩⟩
    rw [ecpt_dbl_finite hrx hry hinf hax hay, h2]
    rintro ⟨v, hv, hden, -, -⟩
    have hpt := congrFun (Option.some.inj hv) r
    rw [Function.update_self, Function.update_self] at hpt
    rw [← hpt] at hden
    exact Bool.false_ne_true hden

/-! ## Addition -/

theorem setCurve_live (hr : Live (σ r)) (c : Curve) : Live (setCurve σ r c r) := by
  rw [Live, setCurve_x, setCurve_y]
  exact hr

omit [Fact p.Prime] in
/-- A change of the curve before the call is none. -/
theorem gives_setCurve {R : (weierstrass p c).Point} {f : (Ref → Point) → Option (Ref → Point)}
    (c' : Curve) : Gives (setCurve σ r c') r R (f (setCurve σ r c')) ↔
      Gives σ r R (f (setCurve σ r c')) := by
  simp only [Gives, setCurve, Function.update_idem]

omit [Fact p.Prime] in
theorem Denotes.setCurve (hP : Denotes (σ a) P) (c' : Curve) : Denotes (Ecc.setCurve σ r c' a) P := by
  cases P with
  | zero => exact (setCurve_inf σ r a c').trans hP
  | some x y hxy =>
    rcases hP with ⟨hinf, hx, hy⟩
    exact ⟨(setCurve_inf σ r a c').trans hinf, (setCurve_x σ r a c').trans hx,
      (setCurve_y σ r a c').trans hy⟩

theorem setCurve_curve_of_eq (hc : (σ a).curve = c) : (setCurve σ r (σ a).curve a).curve = c := by
  by_cases h : a = r
  · subst h
    rw [setCurve_curve_self, hc]
  · rw [Ecc.setCurve, Function.update_of_ne h, hc]

section

variable (hp : 2 < p) (hcp : c.p = p) (hc : (σ a).curve = c) (hP : Denotes (σ a) P)
  (hQ : Denotes (σ b) Q) (hr : Live (σ r))

include hp hcp hc hP hQ hr

theorem ecpt_add_gives (hleft : ¬ (P = 0 ∧ Q ≠ 0 ∧ b = r)) (hright : ¬ (Q = 0 ∧ P ≠ 0 ∧ a = r))
    (hdbl : ¬ (P = Q ∧ P ≠ 0 ∧ P + P = 0)) : Gives σ r (P + Q) (ecpt_add σ r a b) := by
  cases P with
  | zero =>
    cases Q with
    | zero =>
      rw [ecpt_add_inf hP hQ, hc]
      exact gives_zero hr
    | some x₂ y₂ h₂ =>
      have hbr : b ≠ r := fun h => hleft ⟨rfl, Point.some_ne_zero _, h⟩
      rcases hQ with ⟨hbinf, hbx, hby⟩
      rw [ecpt_add_left_inf hP hbinf, if_neg hbr, if_neg hbr, hbx, hby, hc, ← Point.zero_def, zero_add]
      exact gives_some _
  | some x₁ y₁ h₁ =>
    rcases hP with ⟨hainf, hax, hay⟩
    cases Q with
    | zero =>
      have har : a ≠ r := fun h => hright ⟨rfl, Point.some_ne_zero _, h⟩
      rw [ecpt_add_right_inf hainf hQ, if_neg har, if_neg har, hax, hay, hc, ← Point.zero_def, add_zero]
      exact gives_some _
    | some x₂ y₂ h₂ =>
      rcases hQ with ⟨hbinf, hbx, hby⟩
      by_cases hx : x₁ = x₂
      · subst hx
        by_cases hy : y₁ = y₂
        · subst hy
          have htwo : Point.some x₁ y₁ h₁ + Point.some x₁ y₁ h₁ ≠ 0 :=
            fun h => hdbl ⟨rfl, Point.some_ne_zero _, h⟩
          rw [ecpt_add_same hainf hbinf hax hay hbx hby rfl rfl,
            ← gives_setCurve (f := fun σ => ecpt_dbl σ r a)]
          exact ecpt_dbl_gives hp hcp (setCurve_curve_of_eq hc)
            (Denotes.setCurve (P := Point.some x₁ y₁ h₁) ⟨hainf, hax, hay⟩ _) (setCurve_live hr _)
            (.inr htwo)
        · have hval : (y₁.val : Int) ≠ y₂.val := by
            exact_mod_cast fun h => hy (ZMod.val_injective p h)
          rw [ecpt_add_opposite hainf hbinf hax hay hbx hby rfl hval, hc,
            Point.add_of_Y_eq rfl ((Y_eq_of_X_eq h₁.1 h₂.1 rfl).resolve_left hy)]
          exact gives_zero hr
      · have hval : (x₁.val : Int) ≠ x₂.val := by
          exact_mod_cast fun h => hx (ZMod.val_injective p h)
        rcases hr with ⟨-, ry, hry⟩
        rw [ecpt_add_generic hainf hbinf hax hay hbx hby hry hval, hc, hcp, addCoords_spec _ _ _ _ hx,
          Point.add_of_X_ne hx]
        exact gives_some _

end

section

variable (hP : Denotes (σ a) P) (hQ : Denotes (σ b) Q)

include hP hQ

/-- The coordinates of the point are cleared before they are copied. -/
theorem not_ecpt_add_gives_left (hP0 : P = 0) (hQ0 : Q ≠ 0) (hbr : b = r) :
    ¬ Gives σ r (P + Q) (ecpt_add σ r a b) := by
  subst hP0
  cases Q with
  | zero => exact absurd rfl hQ0
  | some x y hxy =>
    rw [ecpt_add_left_inf hP hQ.1, if_pos hbr, zero_add]
    rintro ⟨v, hv, hden, -, -⟩
    have hpt := congrFun (Option.some.inj hv) r
    rw [Function.update_self, Function.update_self] at hpt
    rw [← hpt] at hden
    exact absurd hden.2.1 (Option.some_ne_none _).symm

theorem not_ecpt_add_gives_right (hQ0 : Q = 0) (hP0 : P ≠ 0) (har : a = r) :
    ¬ Gives σ r (P + Q) (ecpt_add σ r a b) := by
  subst hQ0
  cases P with
  | zero => exact absurd rfl hP0
  | some x y hxy =>
    rw [ecpt_add_right_inf hP.1 hQ, if_pos har, add_zero]
    rintro ⟨v, hv, hden, -, -⟩
    have hpt := congrFun (Option.some.inj hv) r
    rw [Function.update_self, Function.update_self] at hpt
    rw [← hpt] at hden
    exact absurd hden.2.1 (Option.some_ne_none _).symm

theorem not_ecpt_add_gives_double (hr : Live (σ r)) (hPQ : P = Q) (hP0 : P ≠ 0) (h2 : P + P = 0) :
    ¬ Gives σ r (P + Q) (ecpt_add σ r a b) := by
  subst hPQ
  have hsetP := hP.setCurve (r := r) (σ a).curve
  cases P with
  | zero => exact absurd rfl hP0
  | some x y hxy =>
    rw [ecpt_add_same hP.1 hQ.1 hP.2.1 hP.2.2 hQ.2.1 hQ.2.2 rfl rfl,
      ← gives_setCurve (f := fun σ => ecpt_dbl σ r a)]
    exact not_ecpt_dbl_gives hsetP (setCurve_live hr _) hP0 h2

end

/-! ## The group law -/

/-- On a curve without singular points, an object with reduced coordinates that satisfy the equation
is a point. -/
theorem exists_denotes {x y : Int} (hΔ : (weierstrass p c).Δ ≠ 0) (hx : 0 ≤ x ∧ x < p)
    (hy : 0 ≤ y ∧ y < p) (h : y ^ 2 ≡ x ^ 3 + c.a * x + c.b [ZMOD p]) :
    ∃ P : (weierstrass p c).Point, Denotes ⟨false, some x, some y, c⟩ P := by
  have hcast := (ZMod.intCast_eq_intCast_iff _ _ p).mpr h
  push_cast at hcast
  have hequation : (weierstrass p c).Equation (x : ZMod p) (y : ZMod p) := by
    rw [equation_iff]
    simpa using hcast
  exact ⟨Point.some _ _ ((equation_iff_nonsingular_of_Δ_ne_zero hΔ).mp hequation), rfl,
    congrArg some (val_cast hx.1 hx.2).symm, congrArg some (val_cast hy.1 hy.2).symm⟩

theorem group_law_iff (hp : 2 < p) (hcp : c.p = p) (hc : (σ a).curve = c) (hP : Denotes (σ a) P)
    (hQ : Denotes (σ b) Q) (hr : Live (σ r)) :
    (Gives σ r (P + Q) (ecpt_add σ r a b) ↔
      ¬ (P = 0 ∧ Q ≠ 0 ∧ b = r) ∧ ¬ (Q = 0 ∧ P ≠ 0 ∧ a = r) ∧ ¬ (P = Q ∧ P ≠ 0 ∧ P + P = 0)) ∧
    (Gives σ r (P + P) (ecpt_dbl σ r a) ↔ ¬ (P ≠ 0 ∧ P + P = 0)) := by
  constructor
  · constructor
    · intro h
      refine ⟨?_, ?_, ?_⟩
      · rintro ⟨hP0, hQ0, hbr⟩
        exact not_ecpt_add_gives_left hP hQ hP0 hQ0 hbr h
      · rintro ⟨hQ0, hP0, har⟩
        exact not_ecpt_add_gives_right hP hQ hQ0 hP0 har h
      · rintro ⟨hPQ, hP0, h2⟩
        exact not_ecpt_add_gives_double hP hQ hr hPQ hP0 h2 h
    · rintro ⟨hleft, hright, hdbl⟩
      exact ecpt_add_gives hp hcp hc hP hQ hr hleft hright hdbl
  · constructor
    · rintro h ⟨hP0, h2⟩
      exact not_ecpt_dbl_gives hP hr hP0 h2 h
    · intro h
      apply ecpt_dbl_gives hp hcp hc hP hr
      rcases Classical.em (P = 0) with hP0 | hP0
      · exact .inl hP0
      · exact .inr fun h2 => h ⟨hP0, h2⟩

/-! ### The curve `y^2 = x^3 + x` modulo 5, on which `(0, 0)` has order two -/

instance fact_prime_five : Fact (Nat.Prime 5) := ⟨by decide⟩

def curveFive : Curve := ⟨5, 1, 0, 2, 2⟩

theorem nonsingular_origin : (weierstrass 5 curveFive).Nonsingular 0 0 := by
  apply (equation_iff_nonsingular_of_Δ_ne_zero _).mp
  · rw [equation_iff]
    decide
  · decide

/-- Infinity and the point `(0, 0)`. -/
def storeFive : Bool → Point
  | false => ⟨true, some 0, some 0, curveFive⟩
  | true => ⟨false, some 0, some 0, curveFive⟩

theorem group_law_infinity_first :
    Gives storeFive false (0 + Point.some 0 0 nonsingular_origin)
      (ecpt_add storeFive false false true) := by
  have h0 : Denotes (storeFive false) (0 : (weierstrass 5 curveFive).Point) := rfl
  have hP : Denotes (storeFive true) (Point.some 0 0 nonsingular_origin) := ⟨rfl, rfl, rfl⟩
  have hlive : Live (storeFive false) := ⟨⟨_, rfl⟩, ⟨_, rfl⟩⟩
  apply (group_law_iff (by decide) rfl rfl h0 hP hlive).1.mpr
  refine ⟨?_, ?_, ?_⟩
  · rintro ⟨-, -, h⟩
    exact Bool.false_ne_true h.symm
  · rintro ⟨h, -, -⟩
    exact Point.some_ne_zero _ h
  · rintro ⟨-, h, -⟩
    exact h rfl

/-- A sum with infinity into the object of the other point, and the double of a point of order two. -/
theorem group_law_fails :
    (Denotes (storeFive true) (Point.some 0 0 nonsingular_origin) ∧ Live (storeFive true) ∧
      Denotes (storeFive false) (0 : (weierstrass 5 curveFive).Point)) ∧
    ¬ Gives storeFive true (0 + Point.some 0 0 nonsingular_origin)
      (ecpt_add storeFive true false true) ∧
    ¬ Gives storeFive true (Point.some 0 0 nonsingular_origin + Point.some 0 0 nonsingular_origin)
      (ecpt_dbl storeFive true true) := by
  have hP : Denotes (storeFive true) (Point.some 0 0 nonsingular_origin) := ⟨rfl, rfl, rfl⟩
  have hlive : Live (storeFive true) := ⟨⟨_, rfl⟩, ⟨_, rfl⟩⟩
  refine ⟨⟨hP, hlive, rfl⟩, ?_, ?_⟩
  · exact not_ecpt_add_gives_left (a := false) rfl hP rfl (Point.some_ne_zero _) rfl
  · exact not_ecpt_dbl_gives hP hlive (Point.some_ne_zero _)
      ((add_self_eq_zero_iff (by decide) nonsingular_origin).mpr rfl)

end Drew.Ecc
