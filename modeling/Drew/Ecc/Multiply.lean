import Mathlib.Data.Nat.Size
import Drew.Ecc.Group
import Drew.Error

/-!
# Multiplication of points

`ecpt_mul2` and `ecpt_mul` of `prime.c`. The bits of the two numbers are taken together from the
highest on: the accumulator is doubled, and a point is added to it that depends on the two bits.

On a curve of odd order no point has order two, so that doubling is right, and an addition to the
accumulator goes wrong only if infinity is added to another point: it is then a copy of the accumulator
to itself.
-/

namespace Drew.Ecc

open Drew.Bignum WeierstrassCurve.Affine

/-- The points that the function makes. -/
inductive Temp
  | z
  | tmp
  deriving DecidableEq

variable {Ref : Type} [DecidableEq Ref]

/-! ## The functions -/

/-- One turn of the loop. -/
def mul2Step (σ : Ref ⊕ Temp → Point) (ptp : Ref) (a : Int) (ptq : Option Ref) (b : Option Int)
    (i : Nat) : Option (Ref ⊕ Temp → Point) := do
  let r : Ref ⊕ Temp := .inr .tmp
  let σ ← ecpt_dbl σ r r
  if getbit a i then
    if b.any (getbit · i) then ecpt_add σ r r (.inr .z)
    else ecpt_add σ r r (.inl ptp)
  else if b.any (getbit · i) then do
    let q ← ptq
    ecpt_add σ r r (.inl q)
  else some σ

/-- `for (int i = nbits - 1; i >= 0; i--)`. -/
def mul2Loop (ptp : Ref) (a : Int) (ptq : Option Ref) (b : Option Int) :
    Nat → (Ref ⊕ Temp → Point) → Option (Ref ⊕ Temp → Point)
  | 0, σ => some σ
  | i + 1, σ => do
    let σ ← mul2Step σ ptp a ptq b i
    mul2Loop ptp a ptq b i σ

def ecpt_mul2 (σ : Ref → Point) (res ptp : Ref) (a : Int) (ptq : Option Ref) (b : Option Int) :
    Option (Int × (Ref → Point)) :=
  let abits := nbits a
  let bbits := b.elim 0 nbits
  let nbits := max abits bbits
  if ptq.isSome != b.isSome then some (-DREW_ERR_INVALID, σ)
  else do
    -- Both points are made by a clone; what their memory held before is not read.
    let σ' : Ref ⊕ Temp → Point := Sum.elim σ (fun _ => σ ptp)
    let σ' := ecpt_clone σ' (.inr .z) (.inl ptp)
    let σ' ← match ptq, b with
      | some q, some _ => ecpt_add σ' (.inr .z) (.inl ptp) (.inl q)
      | _, _ => some σ'
    let σ' := ecpt_clone σ' (.inr .tmp) (.inl ptp)
    let σ' := ecpt_setinf σ' (.inr .tmp) true
    let σ' ← mul2Loop ptp a ptq b nbits σ'
    let σ' := ecpt_clone σ' (.inl res) (.inr .tmp)
    return (0, fun o => σ' (.inl o))

def ecpt_mul (σ : Ref → Point) (ptr pta : Ref) (b : Int) : Option (Int × (Ref → Point)) :=
  ecpt_mul2 σ ptr pta b none none

/-! ## Multiples -/

section

variable {G : Type} [AddCommGroup G]

theorem eq_zero_of_add_self (h : Odd (Nat.card G)) {R : G} (hR : R + R = 0) : R = 0 := by
  have htwo : addOrderOf R ∣ 2 := addOrderOf_dvd_of_nsmul_eq_zero (by rw [two_nsmul, hR])
  have hdvd : addOrderOf R ∣ Nat.gcd 2 (Nat.card G) := Nat.dvd_gcd htwo (addOrderOf_dvd_natCard R)
  rw [Nat.coprime_two_left.mpr h] at hdvd
  exact AddMonoid.addOrderOf_eq_one_iff.mp (Nat.dvd_one.mp hdvd)

/-- The multiple from the bits above `i` is doubled for the bit `i`. -/
theorem div_two_pow_nsmul (a i : ℕ) (P : G) :
    (a / 2 ^ i) • P = (a / 2 ^ (i + 1)) • P + (a / 2 ^ (i + 1)) • P + if a.testBit i then P else 0 := by
  have hdiv : a / 2 ^ (i + 1) = a / 2 ^ i / 2 := by rw [pow_succ, Nat.div_div_eq_div_mul]
  have hbit : (if a.testBit i then P else 0) = (a / 2 ^ i % 2) • P := by
    rw [Nat.testBit_eq_decide_div_mod_eq]
    rcases Nat.mod_two_eq_zero_or_one (a / 2 ^ i) with h | h
    · rw [h, zero_nsmul]
      rfl
    · rw [h, one_nsmul]
      rfl
  rw [hbit, hdiv, ← add_nsmul, ← add_nsmul]
  congr 1
  omega

/-- The point that is added for the bit `i`. -/
def addend (a b i : ℕ) (P Q : G) : Option G :=
  if a.testBit i then if b.testBit i then some (P + Q) else some P
  else if b.testBit i then some Q else none

/-- Infinity is not added for the bit `i`, unless to infinity. -/
def CopyFree (a b : ℕ) (P Q : G) (i : ℕ) : Prop :=
  addend a b i P Q = some 0 → (a / 2 ^ (i + 1)) • P + (b / 2 ^ (i + 1)) • Q = 0

theorem addend_spec (a b i : ℕ) (P Q : G) :
    (a / 2 ^ i) • P + (b / 2 ^ i) • Q =
      ((a / 2 ^ (i + 1)) • P + (b / 2 ^ (i + 1)) • Q) +
        ((a / 2 ^ (i + 1)) • P + (b / 2 ^ (i + 1)) • Q) + (addend a b i P Q).getD 0 := by
  rw [div_two_pow_nsmul a, div_two_pow_nsmul b]
  unfold addend
  by_cases ha : a.testBit i <;> by_cases hb : b.testBit i <;>
    simp only [ha, hb, Bool.false_eq_true, if_true, if_false, Option.getD_some, Option.getD_none] <;>
    abel

end

/-! ## The loop -/

section

variable {p : ℕ} [Fact p.Prime] {c : Curve} {σ₀ : Ref → Point} {ptp : Ref} {ptq : Option Ref}
  {bo : Option Int} {a b i : ℕ} {P Q : (weierstrass p c).Point} {σ : Ref ⊕ Temp → Point}

/-- The arguments are the points; without a second point `b` is zero. -/
structure Operands (σ₀ : Ref → Point) (ptp : Ref) (ptq : Option Ref) (bo : Option Int) (b : ℕ)
    (P Q : (weierstrass p c).Point) : Prop where
  left : Denotes (σ₀ ptp) P
  bit : ∀ i, bo.any (getbit · i) = b.testBit i
  right : bo.isSome → ∃ q, ptq = some q ∧ Denotes (σ₀ q) Q

/-- The accumulator is the multiple from the bits from `i` on. -/
structure Accumulates (σ₀ : Ref → Point) (bo : Option Int) (a b i : ℕ)
    (P Q : (weierstrass p c).Point) (σ : Ref ⊕ Temp → Point) : Prop where
  frame : ∀ o, σ (.inl o) = σ₀ o
  sum : bo.isSome → Denotes (σ (.inr .z)) (P + Q)
  curve : (σ (.inr .tmp)).curve = c
  live : Live (σ (.inr .tmp))
  acc : Denotes (σ (.inr .tmp)) ((a / 2 ^ i) • P + (b / 2 ^ i) • Q)

omit [DecidableEq Ref] [Fact p.Prime] in
theorem Operands.isSome (h : Operands σ₀ ptp ptq bo b P Q) (hb : b.testBit i = true) :
    bo.isSome = true := by
  have hany := (h.bit i).trans hb
  cases bo with
  | none => exact absurd hany Bool.false_ne_true
  | some v => rfl

/-- A turn doubles the accumulator and adds the object of the addend, if there is one. -/
theorem mul2Step_cases (hop : Operands σ₀ ptp ptq bo b P Q)
    (hacc : Accumulates σ₀ bo a b (i + 1) P Q σ) :
    addend a b i P Q = none ∧
        mul2Step σ ptp a ptq bo i = ecpt_dbl σ (.inr .tmp) (.inr .tmp) ∨
      ∃ S o, addend a b i P Q = some S ∧ o ≠ .inr .tmp ∧ Denotes (σ o) S ∧
        mul2Step σ ptp a ptq bo i = (ecpt_dbl σ (.inr .tmp) (.inr .tmp)).bind
          (fun σ => ecpt_add σ (.inr .tmp) (.inr .tmp) o) := by
  unfold addend mul2Step
  have ha : getbit (a : Int) i = a.testBit i := by rw [getbit, Int.natAbs_natCast]
  rw [hop.bit i, ha]
  by_cases habit : a.testBit i
  · rw [habit]
    by_cases hbbit : b.testBit i
    · rw [hbbit]
      exact .inr ⟨_, .inr .z, rfl, Sum.inr_injective.ne (by decide),
        hacc.sum (hop.isSome hbbit), rfl⟩
    · rw [Bool.not_eq_true] at hbbit
      rw [hbbit]
      refine .inr ⟨_, .inl ptp, rfl, Sum.inl_ne_inr, ?_, rfl⟩
      rw [hacc.frame]
      exact hop.left
  · rw [Bool.not_eq_true] at habit
    rw [habit]
    by_cases hbbit : b.testBit i
    · rw [hbbit]
      rcases hop.right (hop.isSome hbbit) with ⟨q, hq, hQ⟩
      refine .inr ⟨_, .inl q, rfl, Sum.inl_ne_inr, ?_, ?_⟩
      · rw [hacc.frame]
        exact hQ
      · rw [hq]
        rfl
    · rw [Bool.not_eq_true] at hbbit
      rw [hbbit]
      refine .inl ⟨rfl, ?_⟩
      exact Option.bind_fun_some _

theorem Accumulates.update {v : Point} (hacc : Accumulates σ₀ bo a b (i + 1) P Q σ)
    (hden : Denotes v ((a / 2 ^ i) • P + (b / 2 ^ i) • Q)) (hlive : Live v) (hcurve : v.curve = c) :
    Accumulates σ₀ bo a b i P Q (Function.update σ (.inr .tmp) v) where
  frame o := (Function.update_of_ne Sum.inl_ne_inr _ _).trans (hacc.frame o)
  sum h := by
    rw [Function.update_of_ne (Sum.inr_injective.ne (by decide))]
    exact hacc.sum h
  curve := by rw [Function.update_self, hcurve]
  live := by rwa [Function.update_self]
  acc := by rwa [Function.update_self]

/-- The coordinates of the accumulator are gone. -/
def Broken (σ : Ref ⊕ Temp → Point) : Prop :=
  (σ (.inr .tmp)).inf = false ∧ (σ (.inr .tmp)).x = none

theorem Broken.mul2Loop {n : ℕ} (h : Broken σ) {σ' : Ref ⊕ Temp → Point}
    (hσ' : Ecc.mul2Loop ptp a ptq bo n σ = some σ') : Broken σ' := by
  cases n with
  | zero =>
    cases hσ'
    exact h
  | succ n =>
    rw [Ecc.mul2Loop, mul2Step, ecpt_dbl_none h.1 h.2] at hσ'
    cases hσ'

omit [Fact p.Prime] in
theorem Denotes.inf_eq_false {pt : Point} (hP : Denotes pt P) (h : P ≠ 0) : pt.inf = false := by
  cases P with
  | zero => exact absurd rfl h
  | some x y hxy => exact hP.1

section

variable (hp : 2 < p) (hcp : c.p = p) (hodd : Odd (Nat.card (weierstrass p c).Point))
  (hop : Operands σ₀ ptp ptq bo b P Q)

include hp hcp hodd hop

omit hop in
theorem double_gives (hacc : Accumulates σ₀ bo a b (i + 1) P Q σ) :
    Gives σ (.inr .tmp) (((a / 2 ^ (i + 1)) • P + (b / 2 ^ (i + 1)) • Q) +
      ((a / 2 ^ (i + 1)) • P + (b / 2 ^ (i + 1)) • Q)) (ecpt_dbl σ (.inr .tmp) (.inr .tmp)) := by
  apply ecpt_dbl_gives hp hcp hacc.curve hacc.acc hacc.live
  rcases Classical.em ((a / 2 ^ (i + 1)) • P + (b / 2 ^ (i + 1)) • Q = 0) with h | h
  · exact .inl h
  · exact .inr fun h2 => h (eq_zero_of_add_self hodd h2)

theorem mul2Step_accumulates (hacc : Accumulates σ₀ bo a b (i + 1) P Q σ) (hfree : CopyFree a b P Q i) :
    ∃ σ', mul2Step σ ptp a ptq bo i = some σ' ∧ Accumulates σ₀ bo a b i P Q σ' := by
  have hspec := addend_spec a b i P Q
  rcases double_gives hp hcp hodd hacc with ⟨v, hv, hden, hlive, hcurve⟩
  rcases mul2Step_cases hop hacc with ⟨hnone, hstep⟩ | ⟨S, o, hsome, ho, hS, hstep⟩
  · rw [hnone, Option.getD_none, add_zero] at hspec
    refine ⟨_, hstep.trans hv, hacc.update ?_ hlive hcurve⟩
    rwa [hspec]
  · rw [hsome, Option.getD_some] at hspec
    have hleft : Denotes (Function.update σ (.inr .tmp) v (.inr .tmp))
        (((a / 2 ^ (i + 1)) • P + (b / 2 ^ (i + 1)) • Q) +
          ((a / 2 ^ (i + 1)) • P + (b / 2 ^ (i + 1)) • Q)) := by
      rwa [Function.update_self]
    have hright : Denotes (Function.update σ (.inr .tmp) v o) S := by
      rwa [Function.update_of_ne ho]
    have hadd := ecpt_add_gives (r := .inr .tmp) hp hcp (by rw [Function.update_self, hcurve]) hleft hright
      (by rwa [Function.update_self]) (fun h => ho h.2.2)
      (fun h => h.2.1 (by rw [hfree (by rw [hsome, h.1]), add_zero]))
      (fun h => h.2.1 (eq_zero_of_add_self hodd h.2.2))
    rcases hadd with ⟨w, hw, hden', hlive', hcurve'⟩
    rw [Function.update_idem] at hw
    refine ⟨Function.update σ (.inr .tmp) w, ?_, hacc.update ?_ hlive' hcurve'⟩
    · rw [hstep, hv, Option.bind_some, hw]
    · rwa [hspec]

/-- Infinity is added: the accumulator is copied to itself. -/
theorem mul2Step_broken (hacc : Accumulates σ₀ bo a b (i + 1) P Q σ) (hfree : ¬ CopyFree a b P Q i) :
    ∃ σ', mul2Step σ ptp a ptq bo i = some σ' ∧ Broken σ' := by
  unfold CopyFree at hfree
  rw [Classical.not_imp] at hfree
  rcases hfree with ⟨haddend, hne⟩
  rcases double_gives hp hcp hodd hacc with ⟨v, hv, hden, hlive, hcurve⟩
  have hvinf : v.inf = false := hden.inf_eq_false (fun h2 => hne (eq_zero_of_add_self hodd h2))
  rcases mul2Step_cases hop hacc with ⟨hnone, -⟩ | ⟨S, o, hsome, ho, hS, hstep⟩
  · exact absurd (haddend.symm.trans hnone) (Option.some_ne_none _)
  · have hS0 : S = 0 := Option.some.inj (hsome.symm.trans haddend)
    subst hS0
    have hleft : (Function.update σ (.inr .tmp) v (.inr .tmp)).inf = false := by
      rwa [Function.update_self]
    have hright : (Function.update σ (.inr .tmp) v o).inf = true := by
      rw [Function.update_of_ne ho]
      exact hS
    have hstep' := hstep
    rw [hv, Option.bind_some, ecpt_add_right_inf hleft hright, if_pos rfl] at hstep'
    refine ⟨_, hstep', ?_⟩
    rw [Broken, Function.update_self]
    exact ⟨rfl, rfl⟩

/-- The accumulator is right at the end if infinity is never added to another point; else it is lost. -/
theorem mul2Loop_spec (hacc : Accumulates σ₀ bo a b i P Q σ) :
    ((∀ j < i, CopyFree a b P Q j) →
      ∃ σ', mul2Loop ptp a ptq bo i σ = some σ' ∧ Accumulates σ₀ bo a b 0 P Q σ') ∧
    ((∃ j < i, ¬ CopyFree a b P Q j) → ∀ σ', mul2Loop ptp a ptq bo i σ = some σ' → Broken σ') := by
  induction i generalizing σ with
  | zero =>
    refine ⟨fun _ => ⟨σ, rfl, hacc⟩, ?_⟩
    rintro ⟨j, hj, -⟩
    exact absurd hj (Nat.not_lt_zero j)
  | succ i ih =>
    rcases Classical.em (CopyFree a b P Q i) with hfree | hfree
    · rcases mul2Step_accumulates hp hcp hodd hop hacc hfree with ⟨τ, hτ, hnext⟩
      rw [mul2Loop, hτ]
      constructor
      · intro hall
        exact (ih hnext).1 fun j hj => hall j (Nat.lt_succ_of_lt hj)
      · rintro ⟨j, hj, hnot⟩
        apply (ih hnext).2
        rcases Nat.lt_succ_iff_lt_or_eq.mp hj with hlt | rfl
        · exact ⟨j, hlt, hnot⟩
        · exact absurd hfree hnot
    · rcases mul2Step_broken hp hcp hodd hop hacc hfree with ⟨τ, hτ, hbroken⟩
      rw [mul2Loop, hτ]
      constructor
      · intro hall
        exact absurd (hall i (Nat.lt_succ_self i)) hfree
      · intro _ σ' hσ'
        exact hbroken.mul2Loop hσ'

end

end

/-! ## The functions -/

section

variable {p : ℕ} [Fact p.Prime] {c : Curve} {σ : Ref → Point} {res ptp ptq : Ref} {a b : ℕ}
  {P Q : (weierstrass p c).Point}

theorem two_lt_of_Δ_ne_zero (h : (weierstrass p c).Δ ≠ 0) : 2 < p := by
  have hne : p ≠ 2 := by
    rintro rfl
    apply h
    have htwo : (2 : ZMod 2) = 0 := rfl
    simp only [WeierstrassCurve.Δ, WeierstrassCurve.b₂, WeierstrassCurve.b₄, WeierstrassCurve.b₆,
      WeierstrassCurve.b₈]
    linear_combination (-32 * (c.a : ZMod 2) ^ 3 - 216 * (c.b : ZMod 2) ^ 2) * htwo
  exact lt_of_le_of_ne (Fact.out : p.Prime).two_le hne.symm

theorem nbits_natCast (a : ℕ) : nbits (a : Int) = a.size := by
  rw [nbits, Int.natAbs_natCast]

theorem div_two_pow_eq_zero {a n : ℕ} (h : a.size ≤ n) : a / 2 ^ n = 0 :=
  Nat.div_eq_of_lt (Nat.size_le.mp h)

/-- The call makes `res` the point `R` and changes no other object. -/
def Sets (σ : Ref → Point) (res : Ref) (R : (weierstrass p c).Point) (ret : Option (Int × (Ref → Point))) :
    Prop :=
  ∃ σ', ret = some (0, σ') ∧ Denotes (σ' res) R ∧ ∀ o, o ≠ res → σ' o = σ o

theorem copyFree_of_size_le {i : ℕ} (h : max a.size b.size ≤ i) : CopyFree a b P Q i := by
  have ha : a.testBit i = false := Nat.testBit_lt_two_pow (Nat.size_le.mp ((le_max_left _ _).trans h))
  have hb : b.testBit i = false := Nat.testBit_lt_two_pow (Nat.size_le.mp ((le_max_right _ _).trans h))
  intro hadd
  rw [addend, ha, hb] at hadd
  exact absurd hadd.symm (Option.some_ne_none _)

/-- Every multiple of infinity is infinity. -/
theorem copyFree_zero (i : ℕ) : CopyFree a 0 P (0 : (weierstrass p c).Point) i := by
  intro hadd
  rw [nsmul_zero, add_zero]
  have hP : P = 0 := by
    unfold addend at hadd
    rw [Nat.zero_testBit] at hadd
    by_cases ha : a.testBit i
    · rw [if_pos ha] at hadd
      exact Option.some.inj hadd
    · rw [if_neg ha] at hadd
      exact absurd hadd.symm (Option.some_ne_none _)
  rw [hP, nsmul_zero]

omit [Fact p.Prime] in
theorem ecpt_mul2_some (x y : Int) :
    ecpt_mul2 σ res ptp x (some ptq) (some y) =
      (ecpt_add (ecpt_clone (Sum.elim σ (fun _ => σ ptp)) (.inr Temp.z) (.inl ptp)) (.inr .z) (.inl ptp)
        (.inl ptq)).bind fun τ =>
      (mul2Loop ptp x (some ptq) (some y) (max (nbits x) (nbits y))
        (ecpt_setinf (ecpt_clone τ (.inr .tmp) (.inl ptp)) (.inr .tmp) true)).bind fun τ =>
      some (0, fun o => ecpt_clone τ (.inl res) (.inr .tmp) (.inl o)) := rfl

omit [Fact p.Prime] in
theorem ecpt_mul2_none (x : Int) :
    ecpt_mul2 σ res ptp x none none =
      (mul2Loop ptp x none none (max (nbits x) 0)
        (ecpt_setinf (ecpt_clone (ecpt_clone (Sum.elim σ (fun _ => σ ptp)) (.inr .z) (.inl ptp))
          (.inr .tmp) (.inl ptp)) (.inr .tmp) true)).bind fun τ =>
      some (0, fun o => ecpt_clone τ (.inl res) (.inr .tmp) (.inl o)) := rfl

/-- The accumulator starts at infinity, above the highest bit. -/
theorem accumulates_start {bo : Option Int} {τ : Ref ⊕ Temp → Point}
    (hframe : ∀ o, τ (.inl o) = σ o) (hsum : bo.isSome → Denotes (τ (.inr .z)) (P + Q))
    (hcurve : (σ ptp).curve = c) (hlive : Live (σ ptp)) :
    Accumulates σ bo a b (max a.size b.size) P Q
      (ecpt_setinf (ecpt_clone τ (.inr .tmp) (.inl ptp)) (.inr .tmp) true) := by
  have htmp : ecpt_setinf (ecpt_clone τ (.inr .tmp) (.inl ptp)) (.inr .tmp) true =
      Function.update τ (.inr .tmp) { σ ptp with inf := true } := by
    rw [ecpt_setinf, setInf, ecpt_clone, Function.update_idem, Function.update_self, hframe]
  rw [htmp]
  constructor
  · intro o
    rw [Function.update_of_ne Sum.inl_ne_inr, hframe]
  · intro h
    rw [Function.update_of_ne (Sum.inr_injective.ne (by decide))]
    exact hsum h
  · rw [Function.update_self, hcurve]
  · rw [Function.update_self]
    exact hlive
  · rw [Function.update_self, div_two_pow_eq_zero (le_max_left _ _), div_two_pow_eq_zero (le_max_right _ _),
      zero_nsmul, zero_nsmul, add_zero]
    rfl

/-- The result from the accumulator. -/
theorem Accumulates.sets {bo : Option Int} {τ : Ref ⊕ Temp → Point}
    (h : Accumulates σ bo a b 0 P Q τ) :
    Sets σ res (a • P + b • Q)
      (some (0, fun o => ecpt_clone τ (.inl res) (.inr .tmp) (.inl o))) := by
  refine ⟨_, rfl, ?_, ?_⟩
  · have hacc := h.acc
    rw [pow_zero, Nat.div_one, Nat.div_one] at hacc
    rwa [ecpt_clone, Function.update_self]
  · intro o ho
    rw [ecpt_clone, Function.update_of_ne (Sum.inl_injective.ne ho), h.frame]

omit [Fact p.Prime] in
theorem Broken.not_sets {τ : Ref ⊕ Temp → Point} (h : Broken τ) {R : (weierstrass p c).Point} :
    ¬ Sets σ res R (some (0, fun o => ecpt_clone τ (.inl res) (.inr .tmp) (.inl o))) := by
  rintro ⟨σ', hσ', hR, -⟩
  have hpt : ecpt_clone τ (.inl res) (.inr .tmp) (.inl res) = σ' res :=
    congrFun (Prod.ext_iff.mp (Option.some.inj hσ')).2 res
  rw [ecpt_clone, Function.update_self] at hpt
  rw [← hpt] at hR
  cases R with
  | zero => exact absurd (h.1.symm.trans hR) Bool.false_ne_true
  | some x y hxy => exact absurd (h.2.symm.trans hR.2.1) (Option.some_ne_none _).symm

section

variable (hp : 2 < p) (hcp : c.p = p) (hodd : Odd (Nat.card (weierstrass p c).Point))
  (hcurve : (σ ptp).curve = c) (hlive : Live (σ ptp)) (hP : Denotes (σ ptp) P)

include hp hcp hodd hcurve hlive hP

/-- The sum that is added where both bits are set. -/
theorem sum_gives (hQ : Denotes (σ ptq) Q) :
    Gives (ecpt_clone (Sum.elim σ (fun _ => σ ptp)) (.inr .z) (.inl ptp)) (.inr Temp.z) (P + Q)
      (ecpt_add (ecpt_clone (Sum.elim σ (fun _ => σ ptp)) (.inr .z) (.inl ptp)) (.inr .z) (.inl ptp)
        (.inl ptq)) := by
  have hobj : ∀ o : Ref, ecpt_clone (Sum.elim σ (fun _ => σ ptp)) (.inr Temp.z) (.inl ptp) (.inl o) =
      σ o := fun o => Function.update_of_ne Sum.inl_ne_inr _ _
  apply ecpt_add_gives hp hcp
  · rw [hobj, hcurve]
  · rw [hobj]
    exact hP
  · rw [hobj]
    exact hQ
  · rw [ecpt_clone, Function.update_self]
    exact hlive
  · exact fun h => Sum.inl_ne_inr h.2.2
  · exact fun h => Sum.inl_ne_inr h.2.2
  · exact fun h => h.2.1 (eq_zero_of_add_self hodd h.2.2)

theorem ecpt_mul2_sets_iff (hQ : Denotes (σ ptq) Q) :
    Sets σ res (a • P + b • Q) (ecpt_mul2 σ res ptp a (some ptq) (some (b : Int))) ↔
      ∀ i, CopyFree a b P Q i := by
  rcases sum_gives hp hcp hodd hcurve hlive hP hQ with ⟨v, hv, hden, -, -⟩
  have hop : Operands σ ptp (some ptq) (some (b : Int)) b P Q := by
    refine ⟨hP, ?_, fun _ => ⟨ptq, rfl, hQ⟩⟩
    intro i
    rw [Option.any_some, getbit, Int.natAbs_natCast]
  rw [ecpt_mul2_some, hv, Option.bind_some, nbits_natCast, nbits_natCast]
  have hstart : Accumulates σ (some (b : Int)) a b (max a.size b.size) P Q _ := accumulates_start
    (τ := Function.update (ecpt_clone (Sum.elim σ (fun _ => σ ptp)) (.inr .z) (.inl ptp)) (.inr .z) v)
    (fun o => by rw [ecpt_clone, Function.update_idem, Function.update_of_ne Sum.inl_ne_inr, Sum.elim_inl])
    (fun _ => by rwa [Function.update_self]) hcurve hlive
  have hloop := mul2Loop_spec hp hcp hodd hop hstart
  constructor
  · intro hsets i
    by_contra hnot
    have hlt : i < max a.size b.size := by
      by_contra hge
      exact hnot (copyFree_of_size_le (not_lt.mp hge))
    rcases hsets with ⟨σ', hσ', hR⟩
    rcases Option.bind_eq_some_iff.mp hσ' with ⟨τ, hτ, hret⟩
    exact (hloop.2 ⟨i, hlt, hnot⟩ τ hτ).not_sets ⟨σ', hret, hR⟩
  · intro hall
    rcases hloop.1 (fun i _ => hall i) with ⟨τ, hτ, hacc⟩
    rw [hτ]
    exact hacc.sets

theorem ecpt_mul_sets : Sets σ res (a • P) (ecpt_mul σ res ptp a) := by
  have hop : Operands σ ptp none none 0 P (0 : (weierstrass p c).Point) := by
    refine ⟨hP, ?_, fun h => absurd h Bool.false_ne_true⟩
    intro i
    rw [Nat.zero_testBit]
    rfl
  have hstart : Accumulates σ none a 0 (max a.size (0 : Nat).size) P (0 : (weierstrass p c).Point) _ :=
    accumulates_start
    (τ := ecpt_clone (Sum.elim σ (fun _ => σ ptp)) (.inr .z) (.inl ptp))
    (fun o => by rw [ecpt_clone, Function.update_of_ne Sum.inl_ne_inr, Sum.elim_inl])
    (fun h => absurd h Bool.false_ne_true) hcurve hlive
  rcases (mul2Loop_spec hp hcp hodd hop hstart).1 (fun i _ => copyFree_zero i) with ⟨τ, hτ, hacc⟩
  have hsum : a • P + 0 • (0 : (weierstrass p c).Point) = a • P := by
    rw [nsmul_zero, add_zero]
  rw [ecpt_mul, ecpt_mul2_none, nbits_natCast, ← Nat.size_zero, hτ, ← hsum]
  exact hacc.sets

end

/-- Where infinity is not added to another point, the multiples are right; those of one point always. -/
theorem ecpt_mul2_iff (hΔ : (weierstrass p c).Δ ≠ 0) (hcp : c.p = p)
    (hodd : Odd (Nat.card (weierstrass p c).Point)) (hcurve : (σ ptp).curve = c) (hlive : Live (σ ptp))
    (hP : Denotes (σ ptp) P) (hQ : Denotes (σ ptq) Q) :
    (Sets σ res (a • P + b • Q) (ecpt_mul2 σ res ptp a (some ptq) (some (b : Int))) ↔
      ∀ i, CopyFree a b P Q i) ∧
    Sets σ res (a • P) (ecpt_mul σ res ptp a) := by
  have hp := two_lt_of_Δ_ne_zero hΔ
  constructor
  · exact ecpt_mul2_sets_iff hp hcp hodd hcurve hlive hP hQ
  · exact ecpt_mul_sets hp hcp hodd hcurve hlive hP

/-- The sum is right if neither point is infinity and the points are not opposite. -/
theorem copyFree_of_ne (hP : P ≠ 0) (hQ : Q ≠ 0) (hsum : P + Q ≠ 0) (i : ℕ) : CopyFree a b P Q i := by
  intro hadd
  unfold addend at hadd
  by_cases ha : a.testBit i
  · rw [if_pos ha] at hadd
    by_cases hb : b.testBit i
    · rw [if_pos hb] at hadd
      exact absurd (Option.some.inj hadd) hsum
    · rw [if_neg hb] at hadd
      exact absurd (Option.some.inj hadd) hP
  · rw [if_neg ha] at hadd
    by_cases hb : b.testBit i
    · rw [if_pos hb] at hadd
      exact absurd (Option.some.inj hadd) hQ
    · rw [if_neg hb] at hadd
      exact absurd hadd.symm (Option.some_ne_none _)

end

/-! ### The curve `y^2 = x^3 + 2x + 1` modulo 5, of order seven -/

def curveSeven : Curve := ⟨5, 2, 1, 7, 1⟩

theorem Δ_curveSeven : (weierstrass 5 curveSeven).Δ ≠ 0 := by decide

theorem nonsingular_seven {x y : ZMod 5} :
    (weierstrass 5 curveSeven).Nonsingular x y ↔ y ^ 2 = x ^ 3 + 2 * x + 1 := by
  rw [← equation_iff_nonsingular_of_Δ_ne_zero Δ_curveSeven, equation_iff]
  simp [curveSeven]

theorem card_curveSeven : Nat.card (weierstrass 5 curveSeven).Point = 7 := by
  have hpoints : Nat.card {xy : ZMod 5 × ZMod 5 // xy.2 ^ 2 = xy.1 ^ 3 + 2 * xy.1 + 1} = 6 := by
    rw [Nat.card_eq_fintype_card]
    decide
  have hcoords : Nat.card {xy : ZMod 5 × ZMod 5 //
      (weierstrass 5 curveSeven).Nonsingular xy.1 xy.2} = 6 := by
    rw [← hpoints]
    exact Nat.card_congr (Equiv.subtypeEquivRight fun xy => nonsingular_seven)
  have hoption : Nat.card (weierstrass 5 curveSeven).Point =
      Nat.card (Option {xy : ZMod 5 × ZMod 5 // (weierstrass 5 curveSeven).Nonsingular xy.1 xy.2}) :=
    Nat.card_congr (WeierstrassCurve.Affine.nonsingularPointEquiv _)
  rw [hoption, Finite.card_option, hcoords]

theorem odd_card_curveSeven : Odd (Nat.card (weierstrass 5 curveSeven).Point) := by
  rw [card_curveSeven]
  decide

/-- The points `(0, 1)` and `(0, y)`. -/
def storeSeven (y : Int) : Bool → Point
  | false => ⟨false, some 0, some 1, curveSeven⟩
  | true => ⟨false, some 0, some y, curveSeven⟩

/-- The point `(0, 1)`. -/
def generator : (weierstrass 5 curveSeven).Point := Point.some 0 1 (nonsingular_seven.mpr (by decide))

theorem generator_ne_zero : generator ≠ 0 := Point.some_ne_zero _

theorem generator_add_self_ne_zero : generator + generator ≠ 0 := by
  intro h
  exact one_ne_zero ((add_self_eq_zero_iff (by decide) _).mp h)

theorem neg_generator : -generator = Point.some 0 4 (nonsingular_seven.mpr (by decide)) := by
  rw [generator, Point.neg_some]
  congr 1

theorem ecpt_mul2_three_four :
    Sets (storeSeven 1) false (3 • generator + 4 • generator)
      (ecpt_mul2 (storeSeven 1) false false 3 (some true) (some 4)) := by
  have hP : Denotes (storeSeven 1 false) generator := ⟨rfl, rfl, rfl⟩
  have hQ : Denotes (storeSeven 1 true) generator := ⟨rfl, rfl, rfl⟩
  apply (ecpt_mul2_iff Δ_curveSeven rfl odd_card_curveSeven rfl ⟨⟨_, rfl⟩, ⟨_, rfl⟩⟩ hP hQ).1.mpr
  exact copyFree_of_ne generator_ne_zero generator_ne_zero generator_add_self_ne_zero

/-- The sum of opposite points is infinity; it is added to `2(0, 1)`. -/
theorem ecpt_mul2_fails :
    (Nat.card (weierstrass 5 curveSeven).Point = 7 ∧ Denotes (storeSeven 4 false) generator ∧
      Denotes (storeSeven 4 true) (-generator)) ∧
    ¬ Sets (storeSeven 4) false (3 • generator + 1 • -generator)
      (ecpt_mul2 (storeSeven 4) false false 3 (some true) (some 1)) := by
  have hP : Denotes (storeSeven 4 false) generator := ⟨rfl, rfl, rfl⟩
  have hQ : Denotes (storeSeven 4 true) (-generator) := by
    rw [neg_generator]
    exact ⟨rfl, rfl, rfl⟩
  refine ⟨⟨card_curveSeven, hP, hQ⟩, ?_⟩
  intro hsets
  have hfree := (ecpt_mul2_sets_iff (a := 3) (b := 1) (by decide) rfl odd_card_curveSeven rfl
    ⟨⟨_, rfl⟩, ⟨_, rfl⟩⟩ hP hQ).mp hsets 0
  apply generator_ne_zero
  calc generator = (3 / 2 ^ (0 + 1)) • generator + (1 / 2 ^ (0 + 1)) • -generator := by
        rw [show 3 / 2 ^ (0 + 1) = 1 from rfl, show 1 / 2 ^ (0 + 1) = 0 from rfl, one_nsmul, zero_nsmul,
          add_zero]
    _ = 0 := hfree (congrArg some (add_neg_cancel generator))

end Drew.Ecc
