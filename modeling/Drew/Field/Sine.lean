import Mathlib.Analysis.Complex.Exponential
import Mathlib.Analysis.Complex.Trigonometric
import Mathlib.Tactic

/-!
# Digits of sines

The power series of the exponential function at `x * i`, for a whole number `x`, is summed from its last term on with
whole numbers only (`horner`). With enough terms its imaginary part tells the first digits of the sine
(`floor_sin`).
-/

namespace Drew.Sine

open Complex Finset

/-- `n` terms of the series, where the factorials begin behind `m`: the denominator, and the real and the imaginary
part of the numerator. -/
def horner (x : Int) : Nat → Nat → Int × Int × Int
  | 0, _ => (1, 0, 0)
  | n + 1, m =>
      let (d, re, im) := horner x n (m + 1)
      ((m + 1) * d, (m + 1) * d - x * im, x * re)

/-- The number that `horner` tells. -/
noncomputable def value (r : Int × Int × Int) : ℂ := (r.2.1 + r.2.2 * I) / r.1

theorem horner_pos (x : Int) (n m : Nat) : 0 < (horner x n m).1 := by
  induction n generalizing m with
  | zero => exact Int.one_pos
  | succ n ih =>
    have hm : (0 : Int) < m + 1 := by omega
    exact Int.mul_pos hm (ih (m + 1))

theorem value_horner (x : Int) (n m : Nat) :
    value (horner x n m) = ∑ i ∈ range n, (x * I) ^ i / ((m + 1).ascFactorial i : ℂ) := by
  induction n generalizing m with
  | zero => simp [value, horner]
  | succ n ih =>
    have hd : ((horner x n (m + 1)).1 : ℂ) ≠ 0 := by exact_mod_cast (horner_pos x n (m + 1)).ne'
    have hm : (m : ℂ) + 1 ≠ 0 := by exact_mod_cast Nat.succ_ne_zero m
    have hstep : value (horner x (n + 1) m) = 1 + x * I / (m + 1) * value (horner x n (m + 1)) := by
      simp only [value, horner]
      push_cast
      field_simp
      linear_combination (-(x : ℂ) * (horner x n (m + 1)).2.2) * I_sq
    rw [hstep, ih, sum_range_succ', Finset.mul_sum, add_comm]
    congr 1
    · apply sum_congr rfl
      intro i _
      rw [Nat.ascFactorial_succ, ← Nat.succ_ascFactorial]
      push_cast
      rw [pow_succ', div_mul_div_comm]
    · simp

/-- The denominator of a sum from the beginning. -/
theorem horner_denominator (x : Int) (n m : Nat) : (horner x n m).1 = (m + 1).ascFactorial n := by
  induction n generalizing m with
  | zero => rfl
  | succ n ih =>
    rw [Nat.ascFactorial_succ, ← Nat.succ_ascFactorial]
    simp only [horner, ih]
    push_cast
    ring

/-- The sum tells the sine, up to the terms behind it. -/
theorem abs_sin_sub_le {x n : Nat} (hx : 2 * x ≤ n + 1) :
    |Real.sin x - (horner x n 0).2.2 / (horner x n 0).1| ≤ 2 * x ^ n / (horner x n 0).1 := by
  have hvalue := value_horner x n 0
  simp only [Nat.zero_add, Nat.one_ascFactorial, Int.cast_natCast] at hvalue
  have hnorm : ‖(x * I : ℂ)‖ = x := by simp
  have hbound := exp_bound' (x := x * I) (n := n) (by
    rw [hnorm, div_le_div_iff₀ (by positivity) (by norm_num)]
    exact_mod_cast (by rw [Nat.one_mul, Nat.mul_comm]; exact hx : x * 2 ≤ 1 * n.succ))
  rw [← hvalue, hnorm] at hbound
  have him : (value (horner x n 0)).im = (horner x n 0).2.2 / (horner x n 0).1 := by
    rw [value, div_intCast_im]
    simp
  have hsin : (exp (x * I)).im = Real.sin x := by
    rw [← ofReal_natCast, exp_ofReal_mul_I_im]
  have hfact : ((horner x n 0).1 : ℝ) = n.factorial := by
    rw [horner_denominator, Nat.zero_add, Nat.one_ascFactorial, Int.cast_natCast]
  calc |Real.sin x - (horner x n 0).2.2 / (horner x n 0).1|
      = |(exp (x * I) - value (horner x n 0)).im| := by rw [sub_im, hsin, him]
    _ ≤ ‖exp (x * I) - value (horner x n 0)‖ := abs_im_le_norm _
    _ ≤ x ^ n / n.factorial * 2 := hbound
    _ = 2 * x ^ n / (horner x n 0).1 := by rw [hfact]; ring

/-- The first digits of the sine, if the terms behind the sum cannot change them. -/
def Digits (k x n d : Nat) : Prop :=
  (d : Int) * (horner x n 0).1 + k * (2 * x ^ n) ≤ k * |(horner x n 0).2.2| ∧
    k * |(horner x n 0).2.2| + k * (2 * x ^ n) < (d + 1 : Int) * (horner x n 0).1

instance (k x n d : Nat) : Decidable (Digits k x n d) := inferInstanceAs (Decidable (_ ∧ _))

theorem floor_sin {k x n d : Nat} (hx : 2 * x ≤ n + 1) (h : Digits k x n d) : ⌊k * |Real.sin x|⌋₊ = d := by
  have hD : (0 : ℝ) < (horner x n 0).1 := by exact_mod_cast horner_pos x n 0
  have hclose := abs_sin_sub_le hx
  obtain ⟨hlo, hhi⟩ := h
  have hlo' : (d : ℝ) * (horner x n 0).1 + k * (2 * x ^ n) ≤ k * |((horner x n 0).2.2 : ℝ)| := by exact_mod_cast hlo
  have hhi' : k * |((horner x n 0).2.2 : ℝ)| + k * (2 * x ^ n) < (d + 1) * (horner x n 0).1 := by exact_mod_cast hhi
  have habs : |((horner x n 0).2.2 : ℝ) / (horner x n 0).1| = |((horner x n 0).2.2 : ℝ)| / (horner x n 0).1 := by
    rw [abs_div, abs_of_pos hD]
  have hk : (0 : ℝ) ≤ k := Nat.cast_nonneg k
  have hdiff := abs_abs_sub_abs_le_abs_sub (Real.sin x) ((horner x n 0).2.2 / (horner x n 0).1)
  rw [habs] at hdiff
  have hboth := abs_le.mp (hdiff.trans hclose)
  set s := |Real.sin x|
  set y := |((horner x n 0).2.2 : ℝ)|
  set D := ((horner x n 0).1 : ℝ)
  rw [Nat.floor_eq_iff (by positivity)]
  constructor
  · have hle : y / D - 2 * x ^ n / D ≤ s := by linarith [hboth.1]
    have hmul : (d : ℝ) ≤ k * (y / D - 2 * x ^ n / D) := by
      rw [← sub_div, mul_div_assoc', le_div_iff₀ hD]
      linarith
    exact hmul.trans (mul_le_mul_of_nonneg_left hle hk)
  · have hle : s ≤ y / D + 2 * x ^ n / D := by linarith [hboth.2]
    have hmul : k * (y / D + 2 * x ^ n / D) < d + 1 := by
      rw [← add_div, mul_div_assoc', div_lt_iff₀ hD]
      linarith
    exact (mul_le_mul_of_nonneg_left hle hk).trans_lt hmul

end Drew.Sine
