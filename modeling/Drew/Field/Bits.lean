import Mathlib.Algebra.CharP.Two
import Mathlib.FieldTheory.Finite.Extension
import Mathlib.RingTheory.AdjoinRoot
import Mathlib.Tactic

/-!
# Bit vectors as polynomials over the field of two elements

Exclusive or is addition, so a function of bit vectors that respects it is determined by
its values on single bits (`eq_of_bits`). With a ring of characteristic two and a weight
for each bit, a bit vector has a value (`bitSum`).

`residue f` is the value in the ring of polynomials modulo `f`, of degree `n`, where the
first bit is the constant term. It is injective (`residue_injective`), shifting to the
right is multiplication by the variable (`residue_timesRoot`), and so the usual loop over
the bits of one factor is the product (`residue_shiftMul`). When the degree is a power of
two, two powers of the variable decide that the ring is a field (`irreducible_of_pow`).
-/

namespace Drew.Field

open Polynomial

variable {n : Nat}

/-! ## Single bits -/

/-- What holds of zero and of single bits, and is preserved by exclusive or, holds always. -/
theorem xor_induction {P : BitVec n → Prop} (hzero : P 0)
    (hbit : ∀ k < n, P (BitVec.twoPow n k)) (hxor : ∀ a b, P a → P b → P (a ^^^ b))
    (v : BitVec n) : P v := by
  have hlow : ∀ m ≤ n, ∀ v : BitVec n, (∀ i, m ≤ i → v.getLsbD i = false) → P v := by
    intro m
    induction m with
    | zero =>
      intro _ v hv
      have hv0 : v = 0 := by
        apply BitVec.eq_of_getLsbD_eq
        intro i _
        simp [hv i (Nat.zero_le i)]
      rw [hv0]
      exact hzero
    | succ m ih =>
      intro hm v hv
      by_cases hbit' : v.getLsbD m
      · -- Take the highest bit away.
        have hrest : P (v ^^^ BitVec.twoPow n m) := by
          refine ih (by omega) _ fun i hi => ?_
          rw [BitVec.getLsbD_xor, BitVec.getLsbD_twoPow]
          by_cases him : i = m
          · simp [him, hbit', show m < n by omega]
          · rw [hv i (by omega)]
            simp
            omega
        have hsplit := hxor _ _ hrest (hbit m (by omega))
        rwa [BitVec.xor_assoc, BitVec.xor_self, BitVec.xor_zero] at hsplit
      · refine ih (by omega) v fun i hi => ?_
        by_cases him : i = m
        · rw [him]
          simpa using hbit'
        · exact hv i (by omega)
  exact hlow n le_rfl v fun i hi => BitVec.getLsbD_of_ge v i hi

/-- Two functions that turn exclusive or into addition are equal when they are on single
bits. -/
theorem eq_of_bits {M : Type*} [AddCommGroup M] {f g : BitVec n → M}
    (hf : ∀ a b, f (a ^^^ b) = f a + f b) (hg : ∀ a b, g (a ^^^ b) = g a + g b)
    (h : ∀ k < n, f (BitVec.twoPow n k) = g (BitVec.twoPow n k)) (v : BitVec n) : f v = g v := by
  have hzero : ∀ e : BitVec n → M, (∀ a b, e (a ^^^ b) = e a + e b) → e 0 = 0 := by
    intro e he
    have h0 := he 0 0
    rw [BitVec.xor_self] at h0
    exact left_eq_add.mp h0
  induction v using xor_induction with
  | hzero => rw [hzero f hf, hzero g hg]
  | hbit k hk => exact h k hk
  | hxor a b ha hb => rw [hf, hg, ha, hb]

/-! ## Weights -/

section Weights

variable {R : Type*} [CommRing R] [CharP R 2]

/-- The sum of the weights of the bits that are set. -/
def bitSum (w : Nat → R) (v : BitVec n) : R :=
  ∑ i ∈ Finset.range n, if v.getLsbD i then w i else 0

theorem bitSum_xor (w : Nat → R) (a b : BitVec n) :
    bitSum w (a ^^^ b) = bitSum w a + bitSum w b := by
  rw [bitSum, bitSum, bitSum, ← Finset.sum_add_distrib]
  refine Finset.sum_congr rfl fun i _ => ?_
  rw [BitVec.getLsbD_xor]
  cases a.getLsbD i <;> cases b.getLsbD i <;> simp [CharTwo.add_self_eq_zero]

omit [CharP R 2] in
theorem bitSum_twoPow (w : Nat → R) {k : Nat} (hk : k < n) : bitSum w (BitVec.twoPow n k) = w k := by
  rw [bitSum, Finset.sum_eq_single k]
  · simp [hk]
  · intro i _ hi
    simp [BitVec.getLsbD_twoPow, Ne.symm hi]
  · intro h
    exact absurd (Finset.mem_range.mpr hk) h

omit [CharP R 2] in
@[simp] theorem bitSum_zero (w : Nat → R) : bitSum w 0#n = 0 := by
  simp [bitSum]

end Weights

/-! ## Carry-less products -/

section CarryLess

variable {R : Type*} [CommRing R] [CharP R 2] {m : Nat}

/-- The product without carries: copies of `y` that are shifted by the positions of the bits
of `x`. -/
def clmul (x y : BitVec m) : BitVec (2 * m) :=
  (List.range m).foldl
    (fun acc i => if x.getLsbD i then acc ^^^ (y.setWidth (2 * m) <<< i) else acc) 0#(2 * m)

theorem bitSum_shifted {w u' : Nat → R} {i : Nat} {c : R} (hi : i < m)
    (h : ∀ j < m, w (i + j) = c * u' j) (y : BitVec m) :
    bitSum w (y.setWidth (2 * m) <<< i) = c * bitSum u' y := by
  refine eq_of_bits (f := fun y : BitVec m => bitSum w (y.setWidth (2 * m) <<< i))
    (g := fun y : BitVec m => c * bitSum u' y) ?_ ?_ ?_ y
  · intro a b
    rw [BitVec.setWidth_xor, BitVec.shiftLeft_xor_distrib, bitSum_xor]
  · intro a b
    rw [bitSum_xor, mul_add]
  · intro j hj
    have hshift : (BitVec.twoPow m j).setWidth (2 * m) <<< i = BitVec.twoPow (2 * m) (i + j) := by
      apply BitVec.eq_of_getLsbD_eq
      intro k hk
      rw [BitVec.getLsbD_shiftLeft, BitVec.getLsbD_setWidth, BitVec.getLsbD_twoPow,
        BitVec.getLsbD_twoPow]
      by_cases hik : k < i
      · simp [hik]
        omega
      · have hiff : j = k - i ↔ i + j = k := by omega
        simp [hik, hk, hj, hiff, show i + j < 2 * m by omega, show k - i < 2 * m by omega]
    rw [hshift, bitSum_twoPow _ (by omega), bitSum_twoPow _ hj, h j hj]

/-- Weights that multiply at the sum of two positions turn the product without carries into
the product. -/
theorem bitSum_clmul {w u u' : Nat → R} (h : ∀ i < m, ∀ j < m, w (i + j) = u i * u' j)
    (x y : BitVec m) : bitSum w (clmul x y) = bitSum u x * bitSum u' y := by
  have hrounds : ∀ k ≤ m, bitSum w ((List.range k).foldl
      (fun acc i => if x.getLsbD i then acc ^^^ (y.setWidth (2 * m) <<< i) else acc) 0#(2 * m)) =
      (∑ i ∈ Finset.range k, if x.getLsbD i then u i else 0) * bitSum u' y := by
    intro k hk
    induction k with
    | zero => simp
    | succ k ih =>
      rw [List.range_succ, List.foldl_append, List.foldl_cons, List.foldl_nil,
        Finset.sum_range_succ, add_mul, ← ih (by omega)]
      cases x.getLsbD k with
      | false => simp
      | true =>
        simp only [if_true]
        rw [bitSum_xor, bitSum_shifted (by omega) (h k (by omega))]
  exact hrounds m le_rfl

end CarryLess

/-! ## Residues -/

section Residue

variable (f : (ZMod 2)[X])

instance charP_adjoinRoot [Nontrivial (AdjoinRoot f)] : CharP (AdjoinRoot f) 2 :=
  charP_of_injective_algebraMap (algebraMap (ZMod 2) (AdjoinRoot f)).injective 2

/-- The polynomial of a bit vector, the first bit being the constant term. -/
noncomputable def poly (v : BitVec n) : (ZMod 2)[X] := bitSum (fun i => X ^ (n - 1 - i)) v

/-- Its residue modulo `f`. -/
noncomputable def residue (v : BitVec n) : AdjoinRoot f :=
  bitSum (fun i => AdjoinRoot.root f ^ (n - 1 - i)) v

theorem residue_eq_mk (v : BitVec n) : residue f v = AdjoinRoot.mk f (poly v) := by
  rw [residue, poly, bitSum, bitSum, map_sum]
  refine Finset.sum_congr rfl fun i _ => ?_
  split <;> simp

theorem coeff_poly (v : BitVec n) {k : Nat} (hk : k < n) :
    (poly v).coeff (n - 1 - k) = if v.getLsbD k then 1 else 0 := by
  rw [poly, bitSum, finsetSum_coeff, Finset.sum_eq_single k]
  · split <;> simp
  · intro i hi hne
    have hi' := Finset.mem_range.mp hi
    split
    · rw [coeff_X_pow, if_neg (by omega)]
    · simp
  · intro h
    exact absurd (Finset.mem_range.mpr hk) h

theorem degree_poly_lt (v : BitVec n) : (poly v).degree < n := by
  rw [poly, bitSum]
  refine lt_of_le_of_lt (degree_sum_le _ _) ?_
  rw [Finset.sup_lt_iff (by exact_mod_cast WithBot.bot_lt_coe n)]
  intro i hi
  have hi' := Finset.mem_range.mp hi
  split
  · rw [degree_X_pow]
    exact_mod_cast (by omega : n - 1 - i < n)
  · rw [degree_zero]
    exact_mod_cast WithBot.bot_lt_coe n

variable {f}

/-- Bit vectors are the residues of a polynomial of their length. -/
theorem residue_injective (hf : f.Monic) (hn : f.natDegree = n) :
    Function.Injective (residue (n := n) f) := by
  intro a b hab
  rw [residue_eq_mk, residue_eq_mk, AdjoinRoot.mk_eq_mk] at hab
  have hdeg : (poly a - poly b).degree < f.degree := by
    rw [degree_eq_natDegree hf.ne_zero, hn]
    exact lt_of_le_of_lt (degree_sub_le _ _) (max_lt (degree_poly_lt a) (degree_poly_lt b))
  have hpoly : poly a = poly b := sub_eq_zero.mp (eq_zero_of_dvd_of_degree_lt hab hdeg)
  apply BitVec.eq_of_getLsbD_eq
  intro i hi
  have ha := coeff_poly a hi
  have hb := coeff_poly b hi
  rw [hpoly, hb] at ha
  cases h₁ : a.getLsbD i <;> cases h₂ : b.getLsbD i <;> simp_all

/-! ## Multiplication -/

section Mul

variable [Nontrivial (AdjoinRoot f)]

theorem residue_xor (a b : BitVec n) : residue f (a ^^^ b) = residue f a + residue f b :=
  bitSum_xor _ a b

omit [Nontrivial (AdjoinRoot f)] in
@[simp] theorem residue_zero : residue f 0#n = 0 := bitSum_zero _

omit [Nontrivial (AdjoinRoot f)] in
theorem residue_twoPow {k : Nat} (hk : k < n) :
    residue f (BitVec.twoPow n k) = AdjoinRoot.root f ^ (n - 1 - k) := bitSum_twoPow _ hk

/-- Shift to the right, and reduce the bit that is shifted out by `r`. -/
def timesRoot (r v : BitVec n) : BitVec n := if v.getLsbD 0 then v >>> 1 ^^^ r else v >>> 1

theorem timesRoot_xor (r a b : BitVec n) :
    timesRoot r (a ^^^ b) = timesRoot r a ^^^ timesRoot r b := by
  have hcomm : ∀ a b : BitVec n, a >>> 1 ^^^ r ^^^ b >>> 1 = a >>> 1 ^^^ b >>> 1 ^^^ r := by
    intro a b
    rw [BitVec.xor_assoc, BitVec.xor_comm r, BitVec.xor_assoc]
  have hcancel : ∀ a b : BitVec n, a >>> 1 ^^^ r ^^^ (b >>> 1 ^^^ r) = a >>> 1 ^^^ b >>> 1 := by
    intro a b
    rw [← BitVec.xor_assoc, hcomm, BitVec.xor_assoc, BitVec.xor_self, BitVec.xor_zero]
  unfold timesRoot
  rw [BitVec.getLsbD_xor, BitVec.ushiftRight_xor_distrib]
  cases a.getLsbD 0 <;> cases b.getLsbD 0 <;> simp [hcomm, hcancel, BitVec.xor_assoc]

/-- It is multiplication by the variable if `r` is the residue of its power `n`. -/
theorem residue_timesRoot {r : BitVec n} (hr : residue f r = AdjoinRoot.root f ^ n)
    (v : BitVec n) : residue f (timesRoot r v) = AdjoinRoot.root f * residue f v := by
  refine eq_of_bits (f := fun v => residue f (timesRoot r v))
    (g := fun v => AdjoinRoot.root f * residue f v) ?_ ?_ ?_ v
  · intro a b
    rw [timesRoot_xor, residue_xor]
  · intro a b
    rw [residue_xor, mul_add]
  · intro k hk
    rw [residue_twoPow hk, ← pow_succ']
    cases k with
    | zero =>
      have hshift : (BitVec.twoPow n 0) >>> 1 = 0#n := by
        apply BitVec.eq_of_getLsbD_eq
        intro i hi
        simp [BitVec.getLsbD_twoPow]
        omega
      have hbit : (BitVec.twoPow n 0).getLsbD 0 = true := by simp [hk]
      rw [timesRoot, if_pos hbit, hshift, BitVec.zero_xor, hr]
      congr 1
      omega
    | succ k =>
      have hshift : (BitVec.twoPow n (k + 1)) >>> 1 = BitVec.twoPow n k := by
        apply BitVec.eq_of_getLsbD_eq
        intro i hi
        simp [BitVec.getLsbD_twoPow, show k + 1 < n ↔ True by simp [hk], show k < n by omega]
        omega
      have hbit : (BitVec.twoPow n (k + 1)).getLsbD 0 = false := by
        simp [BitVec.getLsbD_twoPow]
      rw [timesRoot, if_neg (by simp [hbit]), hshift, residue_twoPow (by omega)]
      congr 1
      omega

/-- One round of the multiplication by `x`: the state is the sum so far, and the other factor
times a power of the variable. -/
def mulRound (r x : BitVec n) (zv : BitVec n × BitVec n) (i : Nat) : BitVec n × BitVec n :=
  (if x.getMsbD i then zv.1 ^^^ zv.2 else zv.1, timesRoot r zv.2)

/-- The product, by adding up shifted copies of the second factor. -/
def shiftMul (r x v : BitVec n) : BitVec n := ((List.range n).foldl (mulRound r x) (0#n, v)).1

/-- What the first `m` rounds add up. -/
theorem residue_mulRounds {r : BitVec n} (hr : residue f r = AdjoinRoot.root f ^ n)
    (x v : BitVec n) (m : Nat) :
    residue f ((List.range m).foldl (mulRound r x) (0#n, v)).1 =
        (∑ i ∈ Finset.range m, if x.getMsbD i then AdjoinRoot.root f ^ i else 0) * residue f v ∧
      residue f ((List.range m).foldl (mulRound r x) (0#n, v)).2 =
        AdjoinRoot.root f ^ m * residue f v := by
  induction m with
  | zero => simp
  | succ m ih =>
    obtain ⟨hz, hv⟩ := ih
    rw [List.range_succ, List.foldl_append, List.foldl_cons, List.foldl_nil,
      Finset.sum_range_succ, add_mul]
    constructor
    · simp only [mulRound]
      cases x.getMsbD m with
      | false => simp [hz]
      | true => simp [residue_xor, hz, hv]
    · simp only [mulRound]
      rw [residue_timesRoot hr, hv, pow_succ', mul_assoc]

omit [Nontrivial (AdjoinRoot f)] in
theorem residue_eq_msb (x : BitVec n) :
    residue f x = ∑ i ∈ Finset.range n, if x.getMsbD i then AdjoinRoot.root f ^ i else 0 := by
  rw [residue, bitSum, ← Finset.sum_range_reflect]
  refine Finset.sum_congr rfl fun i hi => ?_
  have hi' := Finset.mem_range.mp hi
  rw [BitVec.getMsbD_eq_getLsbD, show n - 1 - (n - 1 - i) = i by omega]
  simp [hi']

theorem residue_shiftMul {r : BitVec n} (hr : residue f r = AdjoinRoot.root f ^ n)
    (x v : BitVec n) : residue f (shiftMul r x v) = residue f x * residue f v := by
  rw [shiftMul, (residue_mulRounds hr x v n).1, residue_eq_msb x]


/-! ### Laws of the product -/

section Laws

variable {r : BitVec n} (hf : f.Monic) (hn : f.natDegree = n)
  (hr : residue f r = AdjoinRoot.root f ^ n)

include hf hn hr

theorem shiftMul_comm (x v : BitVec n) : shiftMul r x v = shiftMul r v x := by
  apply residue_injective hf hn
  rw [residue_shiftMul hr, residue_shiftMul hr, mul_comm]

theorem shiftMul_xor_left (x y v : BitVec n) :
    shiftMul r (x ^^^ y) v = shiftMul r x v ^^^ shiftMul r y v := by
  apply residue_injective hf hn
  rw [residue_shiftMul hr, residue_xor, residue_xor, residue_shiftMul hr, residue_shiftMul hr,
    add_mul]

theorem shiftMul_zero_left (v : BitVec n) : shiftMul r 0#n v = 0#n := by
  apply residue_injective hf hn
  rw [residue_shiftMul hr, residue_zero, zero_mul]

/-- The product with a power of the variable. -/
theorem shiftMul_twoPow {k : Nat} (hk : k < n) (v : BitVec n) :
    shiftMul r (BitVec.twoPow n (n - 1 - k)) v = (timesRoot r)^[k] v := by
  have hpow : ∀ k, residue f ((timesRoot r)^[k] v) = AdjoinRoot.root f ^ k * residue f v := by
    intro k
    induction k with
    | zero => simp
    | succ k ih => rw [Function.iterate_succ_apply', residue_timesRoot hr, ih, pow_succ', mul_assoc]
  apply residue_injective hf hn
  rw [residue_shiftMul hr, residue_twoPow (by omega), hpow]
  congr 2
  omega

end Laws

end Mul

/-! ## Irreducibility -/

/-- A polynomial whose degree is a power of two is irreducible if the variable is fixed by
raising it to the power of two that its degree is, and the difference for half of the degree
is invertible. -/
theorem irreducible_of_pow {f : (ZMod 2)[X]} {k : Nat} (hf : f.Monic)
    (hn : f.natDegree = 2 ^ (k + 1))
    (hfix : AdjoinRoot.root f ^ 2 ^ 2 ^ (k + 1) = AdjoinRoot.root f)
    (hunit : IsUnit (AdjoinRoot.root f ^ 2 ^ 2 ^ k - AdjoinRoot.root f)) : Irreducible f := by
  have hcard : Nat.card (ZMod 2) = 2 := Nat.card_zmod 2
  have hdvd : f ∣ X ^ 2 ^ 2 ^ (k + 1) - X := by
    rw [← AdjoinRoot.mk_eq_zero, map_sub, map_pow, AdjoinRoot.mk_X, hfix, sub_self]
  have hnotunit : ¬IsUnit f := by
    intro h
    have hzero := natDegree_eq_zero_of_isUnit h
    rw [hn] at hzero
    exact absurd hzero (by positivity)
  obtain ⟨g, hg, hgf⟩ := WfDvdMonoid.exists_irreducible_factor hnotunit hf.ne_zero
  have hdeg : g.natDegree ∣ 2 ^ (k + 1) := by
    rw [hg.natDegree_dvd_iff_dvd_X_pow_card_pow_sub_X, hcard]
    exact hgf.trans hdvd
  -- An irreducible factor of a smaller degree would divide one.
  have hnot : ¬g.natDegree ∣ 2 ^ k := by
    intro h
    rw [hg.natDegree_dvd_iff_dvd_X_pow_card_pow_sub_X, hcard] at h
    obtain ⟨u, hu⟩ := hunit.exists_right_inv
    obtain ⟨p, rfl⟩ := AdjoinRoot.mk_surjective u
    have hone : f ∣ (X ^ 2 ^ 2 ^ k - X) * p - 1 := by
      rw [← AdjoinRoot.mk_eq_zero, map_sub, map_mul, map_sub, map_pow, AdjoinRoot.mk_X, hu, map_one,
        sub_self]
    have hg1 : g ∣ 1 := (dvd_sub_right (h.mul_right p)).mp (hgf.trans hone)
    exact hg.not_isUnit (isUnit_of_dvd_one hg1)
  obtain ⟨j, hj, hgj⟩ := (Nat.dvd_prime_pow Nat.prime_two).mp hdeg
  have hjk : j = k + 1 := by
    by_contra hne
    exact hnot (hgj ▸ pow_dvd_pow 2 (by omega))
  have hassoc : Associated g f :=
    associated_of_dvd_of_natDegree_le hgf hf.ne_zero (by rw [hn, hgj, hjk])
  exact hassoc.irreducible hg

end Residue

end Drew.Field
