import Drew.Ecc.Group

/-!
# The negation of a point

`ecpt_inv` puts the inverse of `y` in the place of its negation. The result is the negation of the
point only if the two are the same, which is to say `y^2 = -1`; else it is on the curve only if `y` is
its own inverse, and then the result is the point itself.
-/

namespace Drew.Ecc

open Drew.Bignum WeierstrassCurve.Affine

variable {p : ℕ} [Fact p.Prime] {c : Curve} {Ref : Type} [DecidableEq Ref] {σ : Ref → Point}
  {r a s t : Ref} {P : (weierstrass p c).Point}

/-- The negation of the point is put in `r`, the sum with it in `s` and its negation in `t`. -/
def NegationLaw (σ : Ref → Point) (r a s t : Ref) (P : (weierstrass p c).Point) : Prop :=
  ∃ σ', ecpt_inv σ r a = some σ' ∧ (∃ R : (weierstrass p c).Point, Denotes (σ' r) R) ∧
    Gives σ' s (0 : (weierstrass p c).Point) (ecpt_add σ' s a r) ∧ Gives σ' t P (ecpt_inv σ' t r)

omit [Fact p.Prime] in
/-- An object is one point at most. -/
theorem Denotes.unique {pt : Point} {P Q : (weierstrass p c).Point} (hP : Denotes pt P)
    (hQ : Denotes pt Q) [NeZero p] : P = Q := by
  cases P with
  | zero =>
    cases Q with
    | zero => rfl
    | some x y h => exact absurd (hQ.1.symm.trans hP) Bool.false_ne_true
  | some x y h =>
    cases Q with
    | zero => exact absurd (hP.1.symm.trans hQ) Bool.false_ne_true
    | some x' y' h' =>
      have hx : (x.val : Int) = x'.val := Option.some.inj (hP.2.1.symm.trans hQ.2.1)
      have hy : (y.val : Int) = y'.val := Option.some.inj (hP.2.2.symm.trans hQ.2.2)
      have hx' : x = x' := ZMod.val_injective p (by exact_mod_cast hx)
      have hy' : y = y' := ZMod.val_injective p (by exact_mod_cast hy)
      subst hx'
      subst hy'
      rfl

theorem Gives.unique {res : Option (Ref → Point)} {P Q : (weierstrass p c).Point}
    (hP : Gives σ r P res) (hQ : Gives σ r Q res) : P = Q := by
  rcases hP with ⟨v, hv, hden, -, -⟩
  rcases hQ with ⟨w, hw, hden', -, -⟩
  have hvw := congrFun (Option.some.inj (hv.symm.trans hw)) r
  rw [Function.update_self, Function.update_self] at hvw
  subst hvw
  exact hden.unique hden'

/-! ## The result of the call -/

omit [Fact p.Prime] in
theorem ecpt_inv_gives_zero (hc : (σ a).curve = c) (hP : Denotes (σ a) (0 : (weierstrass p c).Point))
    (hr : Live (σ r)) : Gives σ r (0 : (weierstrass p c).Point) (ecpt_inv σ r a) := by
  rw [ecpt_inv_inf hP, hc]
  exact gives_zero hr

theorem ecpt_inv_some {x y : ZMod p} {h : (weierstrass p c).Nonsingular x y} (hcp : c.p = p)
    (hc : (σ a).curve = c) (hP : Denotes (σ a) (Point.some x y h)) (hr : Live (σ r)) (hra : a ≠ r) :
    ecpt_inv σ r a =
      some (Function.update σ r ⟨false, some (x.val : Int), some (y⁻¹.val : Int), c⟩) := by
  rcases hP with ⟨hinf, hax, hay⟩
  rcases hr with ⟨-, ry, hry⟩
  rw [ecpt_inv_finite hra hry hinf hax hay, hc, hcp, invmod_eq_val, cast_val]

omit [Fact p.Prime] in
/-- The call on one object loses the point. -/
theorem not_ecpt_inv_self {x y : ZMod p} {h : (weierstrass p c).Nonsingular x y}
    (hP : Denotes (σ r) (Point.some x y h)) {σ' : Ref → Point} (hσ' : ecpt_inv σ r r = some σ')
    (R : (weierstrass p c).Point) : ¬ Denotes (σ' r) R := by
  rcases hP with ⟨hinf, -, hay⟩
  rw [ecpt_inv_self hinf hay] at hσ'
  rw [← Option.some.inj hσ', Function.update_self]
  intro hR
  cases R with
  | zero => exact Bool.false_ne_true hR
  | some x' y' h' => exact absurd hR.2.1 (Option.some_ne_none _).symm

/-! ## When the result is the negation -/

/-- The inverse on the curve is the coordinate or its negation. -/
theorem inv_eq_or_neg {x y : ZMod p} (h : (weierstrass p c).Nonsingular x y)
    (h' : (weierstrass p c).Nonsingular x y⁻¹) : y⁻¹ = y ∨ y⁻¹ = -y := by
  rw [← negY_eq (c := c) x y]
  exact Y_eq_of_X_eq h'.1 h.1 rfl

theorem mul_self_eq_neg_one {y : ZMod p} (hy : y ≠ 0) (h : y⁻¹ = -y) : y * y = -1 := by
  calc y * y = -(y * -y) := by ring
    _ = -(y * y⁻¹) := by rw [h]
    _ = -1 := by rw [mul_inv_cancel₀ hy]

theorem inv_eq_neg {y : ZMod p} (h : y * y = -1) : y⁻¹ = -y := by
  apply inv_eq_of_mul_eq_one_right
  rw [mul_neg, h, neg_neg]

omit [Fact p.Prime] in
theorem Live.update {v : Point} {o : Ref} (ho : Live (σ o)) (hv : Live v) :
    Live (Function.update σ r v o) := by
  by_cases hor : o = r
  · subst hor
    rwa [Function.update_self]
  · rwa [Function.update_of_ne hor]

section

variable (hp : 2 < p) (hcp : c.p = p) (hc : (σ a).curve = c) (hP : Denotes (σ a) P)
  (hr : Live (σ r)) (hs : Live (σ s)) (ht : Live (σ t))

include hp hcp hc hP hr hs ht

theorem negationLaw_zero (h : P = 0) : NegationLaw σ r a s t P := by
  subst h
  rcases ecpt_inv_gives_zero hc hP hr with ⟨v, hv, hden, hlive, hcurve⟩
  have hden_r : Denotes (Function.update σ r v r) (0 : (weierstrass p c).Point) := by
    rwa [Function.update_self]
  have hden_a : Denotes (Function.update σ r v a) (0 : (weierstrass p c).Point) ∧
      (Function.update σ r v a).curve = c := by
    by_cases har : a = r
    · subst har
      rw [Function.update_self]
      exact ⟨hden, hcurve⟩
    · rw [Function.update_of_ne har]
      exact ⟨hP, hc⟩
  refine ⟨_, hv, ⟨0, hden_r⟩, ?_, ?_⟩
  · have hsum := ecpt_add_gives hp hcp hden_a.2 hden_a.1 hden_r (hs.update hlive)
      (fun h => h.2.1 rfl) (fun h => h.2.1 rfl) (fun h => h.2.1 rfl)
    rwa [add_zero] at hsum
  · apply ecpt_inv_gives_zero _ hden_r (ht.update hlive)
    rw [Function.update_self, hcurve]

theorem negationLaw_some {x y : ZMod p} {h : (weierstrass p c).Nonsingular x y}
    (hxy : P = Point.some x y h) (har : a ≠ r) (hrt : r ≠ t) (hy : y * y = -1) :
    NegationLaw σ r a s t P := by
  subst hxy
  have hinv := inv_eq_neg hy
  have hy0 : y ≠ 0 := by
    rintro rfl
    exact one_ne_zero (neg_eq_zero.mp (hy.symm.trans (zero_mul 0)))
  have hv := ecpt_inv_some hcp hc hP hr har
  have hlive : Live ⟨false, some (x.val : Int), some (y⁻¹.val : Int), c⟩ := ⟨⟨_, rfl⟩, ⟨_, rfl⟩⟩
  have hden_r : Denotes (Function.update σ r ⟨false, some (x.val : Int), some (y⁻¹.val : Int), c⟩ r)
      (-Point.some x y h) := by
    rw [Function.update_self, Point.neg_some]
    exact ⟨rfl, rfl, by rw [negY_eq, hinv]⟩
  have hcurve_r : (Function.update σ r ⟨false, some (x.val : Int), some (y⁻¹.val : Int), c⟩ r).curve = c := by
    rw [Function.update_self]
  refine ⟨_, hv, ⟨_, hden_r⟩, ?_, ?_⟩
  · have hden_a : Denotes (Function.update σ r ⟨false, some (x.val : Int), some (y⁻¹.val : Int), c⟩ a)
        (Point.some x y h) := by
      rwa [Function.update_of_ne har]
    have hcurve_a : (Function.update σ r
        ⟨false, some (x.val : Int), some (y⁻¹.val : Int), c⟩ a).curve = c := by
      rw [Function.update_of_ne har, hc]
    have hsum := ecpt_add_gives hp hcp hcurve_a hden_a hden_r (hs.update hlive)
      (fun h => Point.some_ne_zero _ h.1) (fun h => Point.some_ne_zero _ (neg_eq_zero.mp h.1))
      (fun h => hy0 ((add_self_eq_zero_iff hp _).mp h.2.2))
    rwa [add_neg_cancel] at hsum
  · rw [Point.neg_some] at hden_r
    rw [ecpt_inv_some hcp hcurve_r hden_r (ht.update hlive) hrt, negY_eq, inv_neg, hinv, neg_neg]
    exact gives_some _

omit ht in
/-- A coordinate that is its own inverse gives the point again, and no sum with it is infinity. -/
theorem not_negationLaw_of_inv_eq {x y : ZMod p} {h : (weierstrass p c).Nonsingular x y}
    (hxy : P = Point.some x y h) (har : a ≠ r) (hy : y⁻¹ = y) : ¬ NegationLaw σ r a s t P := by
  subst hxy
  rintro ⟨σ', hσ', -, hsum, -⟩
  rw [ecpt_inv_some hcp hc hP hr har, hy] at hσ'
  have hσ' := Option.some.inj hσ'
  subst hσ'
  have hlive : Live ⟨false, some (x.val : Int), some (y.val : Int), c⟩ := ⟨⟨_, rfl⟩, ⟨_, rfl⟩⟩
  have hden_r : Denotes (Function.update σ r ⟨false, some (x.val : Int), some (y.val : Int), c⟩ r)
      (Point.some x y h) := by
    rw [Function.update_self]
    exact ⟨rfl, rfl, rfl⟩
  have hden_a : Denotes (Function.update σ r ⟨false, some (x.val : Int), some (y.val : Int), c⟩ a)
      (Point.some x y h) := by
    rwa [Function.update_of_ne har]
  have hcurve_a : (Function.update σ r
      ⟨false, some (x.val : Int), some (y.val : Int), c⟩ a).curve = c := by
    rw [Function.update_of_ne har, hc]
  by_cases htwo : Point.some x y h + Point.some x y h = 0
  · apply not_ecpt_add_gives_double hden_a hden_r (hs.update hlive) rfl (Point.some_ne_zero _) htwo
    rwa [htwo]
  · apply htwo
    apply Gives.unique _ hsum
    exact ecpt_add_gives hp hcp hcurve_a hden_a hden_r (hs.update hlive)
      (fun h => Point.some_ne_zero _ h.1) (fun h => Point.some_ne_zero _ h.1) (fun h => htwo h.2.2)

theorem negationLaw_iff : NegationLaw σ r a s t P ↔
    P = 0 ∨ r ≠ a ∧ t ≠ r ∧ ∃ x y h, P = Point.some x y h ∧ y * y = -1 := by
  constructor
  · intro hlaw
    cases P with
    | zero => exact .inl rfl
    | some x y h =>
      have har : a ≠ r := by
        rintro rfl
        rcases hlaw with ⟨σ', hσ', ⟨R, hR⟩, -, -⟩
        exact not_ecpt_inv_self hP hσ' R hR
      have hkeep := hlaw
      rcases hlaw with ⟨σ', hσ', ⟨R, hR⟩, -, hback⟩
      have hpt := (Option.some.inj ((ecpt_inv_some hcp hc hP hr har).symm.trans hσ')).symm
      have hcoords := hR
      rw [hpt, Function.update_self] at hcoords
      cases R with
      | zero => exact absurd hcoords Bool.false_ne_true
      | some x' y' h' =>
        have hx : x = x' := ZMod.val_injective p (by exact_mod_cast Option.some.inj hcoords.2.1)
        have hy : y⁻¹ = y' := ZMod.val_injective p (by exact_mod_cast Option.some.inj hcoords.2.2)
        subst hx
        subst hy
        have hne : y⁻¹ ≠ y :=
          fun hinv => not_negationLaw_of_inv_eq hp hcp hc hP hr hs rfl har hinv hkeep
        have hneg := (inv_eq_or_neg h h').resolve_left hne
        have hy0 : y ≠ 0 := by
          rintro rfl
          exact hne inv_zero
        refine .inr ⟨har.symm, ?_, x, y, h, rfl, mul_self_eq_neg_one hy0 hneg⟩
        rintro rfl
        rcases hback with ⟨v, hv, hden, -, -⟩
        apply not_ecpt_inv_self hR hv (Point.some x y h)
        rwa [Function.update_self]
  · rintro (h | ⟨hra, htr, x, y, h, hxy, hy⟩)
    · exact negationLaw_zero hp hcp hc hP hr hs ht h
    · exact negationLaw_some hp hcp hc hP hr hs ht hxy hra.symm htr.symm hy

end

/-! ### The curve `y^2 = x^3 + x + 1` modulo 5, of order nine -/

def curveNine : Curve := ⟨5, 1, 1, 9, 1⟩

theorem nonsingular_nine {x y : ZMod 5} (h : y ^ 2 = x ^ 3 + x + 1) :
    (weierstrass 5 curveNine).Nonsingular x y := by
  apply (equation_iff_nonsingular_of_Δ_ne_zero _).mp
  · rw [equation_iff]
    simpa [curveNine] using h
  · decide

/-- One object is the point, the other infinity. -/
def storeNine (x y : Int) : Bool → Point
  | false => ⟨false, some x, some y, curveNine⟩
  | true => ⟨true, some 0, some 0, curveNine⟩

theorem negationLaw_four_two :
    NegationLaw (storeNine 4 2) true false true false
      (Point.some 4 2 (nonsingular_nine (by decide))) := by
  have hP : Denotes (storeNine 4 2 false) (Point.some 4 2 (nonsingular_nine (by decide))) :=
    ⟨rfl, rfl, rfl⟩
  have hlive : ∀ o, Live (storeNine 4 2 o) := by
    intro o
    cases o <;> exact ⟨⟨_, rfl⟩, ⟨_, rfl⟩⟩
  apply (negationLaw_iff (by decide) rfl rfl hP (hlive _) (hlive _) (hlive _)).mpr
  exact .inr ⟨by decide, by decide, 4, 2, _, rfl, by decide⟩

/-- The negation of `(0, 1)` is `(0, 4)`. -/
theorem negationLaw_fails :
    Denotes (storeNine 0 1 false) (Point.some 0 1 (nonsingular_nine (by decide))) ∧
    ¬ NegationLaw (storeNine 0 1) true false true false
      (Point.some 0 1 (nonsingular_nine (by decide))) := by
  have hP : Denotes (storeNine 0 1 false) (Point.some 0 1 (nonsingular_nine (by decide))) :=
    ⟨rfl, rfl, rfl⟩
  refine ⟨hP, ?_⟩
  exact not_negationLaw_of_inv_eq (by decide) rfl rfl hP ⟨⟨_, rfl⟩, ⟨_, rfl⟩⟩ ⟨⟨_, rfl⟩, ⟨_, rfl⟩⟩ rfl
    (by decide) inv_one

end Drew.Ecc
