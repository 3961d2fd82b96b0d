import Drew.Bignum.Model

/-!
# Points of a prime curve

The functions on points of `prime.c`. A point is an object in memory, and the result of a function may
be the object of an argument, so that the functions change a store and read it as they go on.

A clone with `DREW_ECC_FIXED` first clears its destination: a number that is cloned to itself is gone
(`none`). A temporary number is the value that it has at the time. The return values of the functions
on numbers are not looked at.
-/

namespace Drew.Ecc

open Drew.Bignum

/-- `struct curve`, without its name and the base point. -/
structure Curve where
  p : Int
  a : Int
  b : Int
  n : Int
  h : Int

/-- `struct point`. -/
structure Point where
  inf : Bool
  x : Option Int
  y : Option Int
  curve : Curve

variable {Ref : Type} [DecidableEq Ref]

/-! ## Changes of an object -/

def setInf (σ : Ref → Point) (r : Ref) (v : Bool) : Ref → Point :=
  Function.update σ r { σ r with inf := v }

def setX (σ : Ref → Point) (r : Ref) (v : Option Int) : Ref → Point :=
  Function.update σ r { σ r with x := v }

def setY (σ : Ref → Point) (r : Ref) (v : Option Int) : Ref → Point :=
  Function.update σ r { σ r with y := v }

def setCurve (σ : Ref → Point) (r : Ref) (c : Curve) : Ref → Point :=
  Function.update σ r { σ r with curve := c }

/-- `ft->clone(&r->x, &a->x, DREW_ECC_FIXED)`. -/
def cloneX (σ : Ref → Point) (r a : Ref) : Ref → Point :=
  let σ := setX σ r none
  setX σ r (σ a).x

/-- The same for `y`. -/
def cloneY (σ : Ref → Point) (r a : Ref) : Ref → Point :=
  let σ := setY σ r none
  setY σ r (σ a).y

/-! ## The functions -/

/-- `ecpt_clone`, to a new object. -/
def ecpt_clone (σ : Ref → Point) (new old : Ref) : Ref → Point :=
  Function.update σ new (σ old)

def ecpt_setinf (σ : Ref → Point) (r : Ref) (v : Bool) : Ref → Point := setInf σ r v

def ecpt_compare (σ : Ref → Point) (a b : Ref) : Option Int :=
  if (σ a).inf && (σ b).inf then some 0
  else if (σ a).inf && !(σ b).inf then some (-1)
  else if !(σ a).inf && (σ b).inf then some 1
  else do
    let ax ← (σ a).x
    let bx ← (σ b).x
    if Bignum.compare ax bx ≠ 0 then return Bignum.compare ax bx
    else do
      let ay ← (σ a).y
      let by' ← (σ b).y
      return Bignum.compare ay by'

/-- The coordinates of the result, from those of the point. -/
def dblCoords (p a ax ay : Int) : Int × Int :=
  -- lambda = (3(x1^2) + a) / 2(y1)
  let lambda := squaremod ax p
  let lambda := mulmod lambda 3 p
  let lambda := lambda + a
  let t1 := ay * 2
  let t1 := invmod t1 p
  let lambda := mod (lambda * t1) p
  -- x = lambda^2 - 2(x1)
  let x := squaremod lambda p
  let x := mod (x - ax - ax) p
  -- y = lambda(x1 - x) - y1
  let y := mulmod (ax - x) lambda p
  (x, mod (y - ay) p)

def ecpt_dbl (σ : Ref → Point) (r a : Ref) : Option (Ref → Point) :=
  let σ := setCurve σ r (σ a).curve
  if (σ a).inf then some (setInf σ r true)
  else do
    -- `three` is a clone of `r->x`, and `r->y` is written to, so both must be there.
    let _ ← (σ r).x
    let _ ← (σ r).y
    let ax ← (σ a).x
    let ay ← (σ a).y
    let c := dblCoords (σ r).curve.p (σ r).curve.a ax ay
    let σ := setY σ r (some c.2)
    let σ := setX σ r (some c.1)
    return setInf σ r false

/-- The coordinates of the sum of points with different `x`. -/
def addCoords (p ax ay bx by' : Int) : Int × Int :=
  -- lambda = (y2 - y1) / (x2 - x1) mod p.
  let lambda := by' - ay
  let t1 := bx - ax
  let t1 := invmod t1 p
  let t1 : Int := |t1|
  let lambda := mod (lambda * t1) p
  -- x = lambda^2 - x1 - x2
  let x := squaremod lambda p
  let x := mod (x - ax - bx) p
  -- y = lambda(x1 - x) - y1
  let y := mulmod (ax - x) lambda p
  (x, mod (y - ay) p)

def ecpt_add (σ : Ref → Point) (r a b : Ref) : Option (Ref → Point) :=
  let σ := setCurve σ r (σ a).curve
  if (σ a).inf && (σ b).inf then some (setInf σ r true)
  else if (σ a).inf then
    let σ := setInf σ r false
    some (cloneY (cloneX σ r b) r b)
  else if (σ b).inf then
    let σ := setInf σ r false
    some (cloneY (cloneX σ r a) r a)
  else do
    let c ← ecpt_compare σ a b
    if c = 0 then ecpt_dbl σ r a
    else do
      let ax ← (σ a).x
      let bx ← (σ b).x
      if Bignum.compare ax bx = 0 then return setInf σ r true
      else do
        let σ := setInf σ r false
        let ay ← (σ a).y
        let by' ← (σ b).y
        let _ ← (σ r).y
        let c := addCoords (σ r).curve.p ax ay bx by'
        let σ := setY σ r (some c.2)
        return setX σ r (some c.1)

def ecpt_inv (σ : Ref → Point) (r a : Ref) : Option (Ref → Point) :=
  let σ := setInf σ r (σ a).inf
  let σ := setCurve σ r (σ a).curve
  if (σ a).inf then some σ
  else do
    let σ := cloneX σ r a
    let ay ← (σ a).y
    let _ ← (σ r).y
    return setY σ r (some (invmod ay (σ r).curve.p))

/-! ## What a change leaves alone -/

variable (σ : Ref → Point) (r o : Ref)

@[simp] theorem setInf_x (v : Bool) : (setInf σ r v o).x = (σ o).x := by
  unfold setInf
  by_cases h : o = r
  · subst h
    rw [Function.update_self]
  · rw [Function.update_of_ne h]

@[simp] theorem setInf_y (v : Bool) : (setInf σ r v o).y = (σ o).y := by
  unfold setInf
  by_cases h : o = r
  · subst h
    rw [Function.update_self]
  · rw [Function.update_of_ne h]

@[simp] theorem setCurve_inf (c : Curve) : (setCurve σ r c o).inf = (σ o).inf := by
  unfold setCurve
  by_cases h : o = r
  · subst h
    rw [Function.update_self]
  · rw [Function.update_of_ne h]

@[simp] theorem setCurve_x (c : Curve) : (setCurve σ r c o).x = (σ o).x := by
  unfold setCurve
  by_cases h : o = r
  · subst h
    rw [Function.update_self]
  · rw [Function.update_of_ne h]

@[simp] theorem setCurve_y (c : Curve) : (setCurve σ r c o).y = (σ o).y := by
  unfold setCurve
  by_cases h : o = r
  · subst h
    rw [Function.update_self]
  · rw [Function.update_of_ne h]

@[simp] theorem setX_y (v : Option Int) : (setX σ r v o).y = (σ o).y := by
  unfold setX
  by_cases h : o = r
  · subst h
    rw [Function.update_self]
  · rw [Function.update_of_ne h]

@[simp] theorem setCurve_curve_self (c : Curve) : (setCurve σ r c r).curve = c := by
  rw [setCurve, Function.update_self]

@[simp] theorem setInf_curve_self (v : Bool) : (setInf σ r v r).curve = (σ r).curve := by
  rw [setInf, Function.update_self]

@[simp] theorem setX_curve_self (v : Option Int) : (setX σ r v r).curve = (σ r).curve := by
  rw [setX, Function.update_self]

/-- A number that is cloned to itself is gone. -/
theorem cloneX_eq (a : Ref) : cloneX σ r a = setX σ r (if a = r then none else (σ a).x) := by
  unfold cloneX setX
  by_cases h : a = r
  · subst h
    rw [if_pos rfl, Function.update_idem, Function.update_self]
  · rw [if_neg h, Function.update_idem, Function.update_of_ne h, Function.update_self]

theorem cloneY_eq (a : Ref) : cloneY σ r a = setY σ r (if a = r then none else (σ a).y) := by
  unfold cloneY setY
  by_cases h : a = r
  · subst h
    rw [if_pos rfl, Function.update_idem, Function.update_self]
  · rw [if_neg h, Function.update_idem, Function.update_of_ne h, Function.update_self]

/-! ## The results -/

variable {σ r} {a b : Ref}

theorem ecpt_dbl_inf (h : (σ a).inf = true) :
    ecpt_dbl σ r a =
      some (Function.update σ r { σ r with inf := true, curve := (σ a).curve }) := by
  unfold ecpt_dbl
  dsimp only
  rw [setCurve_inf, if_pos h, setInf, setCurve, Function.update_idem, Function.update_self]

/-- The function stops at a number that is gone. -/
theorem ecpt_dbl_none (h : (σ a).inf = false) (hrx : (σ r).x = none) : ecpt_dbl σ r a = none := by
  unfold ecpt_dbl
  simp only [setCurve_inf, h, Bool.false_eq_true, if_false, setCurve_x, hrx, Option.bind_eq_bind,
    Option.bind_none]

theorem ecpt_dbl_finite {rx ry ax ay : Int} (hrx : (σ r).x = some rx) (hry : (σ r).y = some ry)
    (h : (σ a).inf = false) (hax : (σ a).x = some ax) (hay : (σ a).y = some ay) :
    ecpt_dbl σ r a = some (Function.update σ r
      ⟨false, some (dblCoords (σ a).curve.p (σ a).curve.a ax ay).1,
        some (dblCoords (σ a).curve.p (σ a).curve.a ax ay).2, (σ a).curve⟩) := by
  unfold ecpt_dbl
  simp only [setCurve_inf, h, Bool.false_eq_true, if_false, setCurve_x, setCurve_y, hrx, hry, hax, hay,
    Option.bind_eq_bind, Option.bind_some, pure, setCurve_curve_self]
  simp only [setInf, setX, setY, setCurve, Function.update_idem, Function.update_self]

theorem ecpt_add_inf (ha : (σ a).inf = true) (hb : (σ b).inf = true) :
    ecpt_add σ r a b =
      some (Function.update σ r { σ r with inf := true, curve := (σ a).curve }) := by
  unfold ecpt_add
  simp only [setCurve_inf, ha, hb, Bool.and_self, if_true]
  rw [setInf, setCurve, Function.update_idem, Function.update_self]

/-- The other point is copied, unless it is in the object of the result. -/
theorem ecpt_add_left_inf (ha : (σ a).inf = true) (hb : (σ b).inf = false) :
    ecpt_add σ r a b = some (Function.update σ r ⟨false, if b = r then none else (σ b).x,
      if b = r then none else (σ b).y, (σ a).curve⟩) := by
  unfold ecpt_add
  simp only [setCurve_inf, ha, hb, Bool.and_false, Bool.false_eq_true, if_false, if_true, cloneX_eq,
    cloneY_eq, setX_y, setInf_x, setInf_y, setCurve_x, setCurve_y]
  simp only [setInf, setX, setY, setCurve, Function.update_idem, Function.update_self]

theorem ecpt_add_right_inf (ha : (σ a).inf = false) (hb : (σ b).inf = true) :
    ecpt_add σ r a b = some (Function.update σ r ⟨false, if a = r then none else (σ a).x,
      if a = r then none else (σ a).y, (σ a).curve⟩) := by
  unfold ecpt_add
  simp only [setCurve_inf, ha, hb, Bool.and_true, Bool.false_eq_true, if_false, if_true, cloneX_eq,
    cloneY_eq, setX_y, setInf_x, setInf_y, setCurve_x, setCurve_y]
  simp only [setInf, setX, setY, setCurve, Function.update_idem, Function.update_self]

section

variable {ax ay bx by' : Int} (ha : (σ a).inf = false) (hb : (σ b).inf = false)
  (hax : (σ a).x = some ax) (hay : (σ a).y = some ay) (hbx : (σ b).x = some bx)
  (hby : (σ b).y = some by')

include ha hb hax hay hbx hby

omit [DecidableEq Ref] in
theorem ecpt_compare_finite :
    ecpt_compare σ a b =
      some (if Bignum.compare ax bx ≠ 0 then Bignum.compare ax bx else Bignum.compare ay by') := by
  unfold ecpt_compare
  simp only [ha, hb, Bool.and_self, Bool.not_false, Bool.and_true, Bool.true_and, Bool.false_eq_true,
    if_false, hax, hay, hbx, hby, Option.bind_eq_bind, Option.bind_some, pure]
  split <;> rfl

theorem ecpt_add_same (hx : ax = bx) (hy : ay = by') :
    ecpt_add σ r a b = ecpt_dbl (setCurve σ r (σ a).curve) r a := by
  unfold ecpt_add
  have hcompare := ecpt_compare_finite (σ := setCurve σ r (σ a).curve) (a := a) (b := b) (by simpa)
    (by simpa) (by simpa) (by simpa) (by simpa) (by simpa)
  simp only [setCurve_inf, ha, hb, Bool.and_self, Bool.false_eq_true, if_false, hcompare,
    Option.bind_eq_bind, Option.bind_some]
  rw [if_pos]
  rw [if_neg (not_not.mpr (compare_eq_zero.mpr hx)), compare_eq_zero]
  exact hy

theorem ecpt_add_opposite (hx : ax = bx) (hy : ay ≠ by') :
    ecpt_add σ r a b =
      some (Function.update σ r { σ r with inf := true, curve := (σ a).curve }) := by
  unfold ecpt_add
  have hcompare := ecpt_compare_finite (σ := setCurve σ r (σ a).curve) (a := a) (b := b) (by simpa)
    (by simpa) (by simpa) (by simpa) (by simpa) (by simpa)
  have hne : ¬ (if Bignum.compare ax bx ≠ 0 then Bignum.compare ax bx else Bignum.compare ay by') = 0 := by
    rw [if_neg (not_not.mpr (compare_eq_zero.mpr hx)), compare_eq_zero]
    exact hy
  simp only [setCurve_inf, ha, hb, Bool.and_self, Bool.false_eq_true, if_false, hcompare,
    Option.bind_eq_bind, Option.bind_some]
  rw [if_neg hne]
  simp only [setCurve_x, hax, hbx, Option.bind_some, compare_eq_zero.mpr hx, if_true, pure]
  rw [setInf, setCurve, Function.update_idem, Function.update_self]

theorem ecpt_add_generic {ry : Int} (hry : (σ r).y = some ry) (hx : ax ≠ bx) :
    ecpt_add σ r a b = some (Function.update σ r
      ⟨false, some (addCoords (σ a).curve.p ax ay bx by').1,
        some (addCoords (σ a).curve.p ax ay bx by').2, (σ a).curve⟩) := by
  unfold ecpt_add
  have hcompare := ecpt_compare_finite (σ := setCurve σ r (σ a).curve) (a := a) (b := b) (by simpa)
    (by simpa) (by simpa) (by simpa) (by simpa) (by simpa)
  have hnex : ¬ Bignum.compare ax bx = 0 := fun h => hx (compare_eq_zero.mp h)
  have hne : ¬ (if Bignum.compare ax bx ≠ 0 then Bignum.compare ax bx else Bignum.compare ay by') = 0 := by
    rwa [if_pos hnex]
  simp only [setCurve_inf, ha, hb, Bool.and_self, Bool.false_eq_true, if_false, hcompare,
    Option.bind_eq_bind, Option.bind_some, hne, setInf_y, setCurve_x, setCurve_y, hax, hay, hbx,
    hby, hry, hnex, pure, setInf_curve_self, setCurve_curve_self]
  simp only [setInf, setX, setY, setCurve, Function.update_idem, Function.update_self]

end

theorem ecpt_inv_inf (h : (σ a).inf = true) :
    ecpt_inv σ r a =
      some (Function.update σ r { σ r with inf := true, curve := (σ a).curve }) := by
  unfold ecpt_inv
  have hcurve : (setInf σ r (σ a).inf a).curve = (σ a).curve := by
    unfold setInf
    by_cases hra : a = r
    · subst hra
      rw [Function.update_self]
    · rw [Function.update_of_ne hra]
  have hinf : (setInf σ r (σ a).inf a).inf = true := by
    unfold setInf
    by_cases hra : a = r
    · subst hra
      rw [Function.update_self]
      exact h
    · rw [Function.update_of_ne hra]
      exact h
  simp only [setCurve_inf, hinf, hcurve, if_true]
  rw [setInf, setCurve, Function.update_idem, Function.update_self, h]

theorem ecpt_inv_finite {ry ax ay : Int} (hra : a ≠ r) (hry : (σ r).y = some ry)
    (h : (σ a).inf = false) (hax : (σ a).x = some ax) (hay : (σ a).y = some ay) :
    ecpt_inv σ r a =
      some (Function.update σ r ⟨false, some ax, some (invmod ay (σ a).curve.p), (σ a).curve⟩) := by
  unfold ecpt_inv
  have hsame : setInf σ r false a = σ a := by rw [setInf, Function.update_of_ne hra]
  rw [h]
  simp only [hsame, setCurve_inf, h, Bool.false_eq_true, if_false, cloneX_eq, hra, setX_y, setInf_y,
    setCurve_x, setCurve_y, hax, hay, hry, Option.bind_eq_bind, Option.bind_some, pure,
    setX_curve_self, setCurve_curve_self]
  simp only [setInf, setX, setY, setCurve, Function.update_idem, Function.update_self]

/-- The coordinate is cleared before it is copied. -/
theorem ecpt_inv_self {ay : Int} (h : (σ r).inf = false) (hay : (σ r).y = some ay) :
    ecpt_inv σ r r =
      some (Function.update σ r ⟨false, none, some (invmod ay (σ r).curve.p), (σ r).curve⟩) := by
  unfold ecpt_inv
  have hsame : setInf σ r false r = σ r := by
    rw [setInf, Function.update_self, ← h]
  rw [h]
  simp only [hsame, setCurve_inf, h, Bool.false_eq_true, if_false, cloneX_eq, if_true, setX_y,
    setCurve_y, hay, Option.bind_eq_bind, Option.bind_some, pure, setX_curve_self, setCurve_curve_self]
  simp only [setInf, setX, setY, setCurve, Function.update_idem, Function.update_self]

end Drew.Ecc
