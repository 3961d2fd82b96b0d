import Drew.Field.Bits

/-!
# Bytes as polynomials

The least significant bit of a byte is the constant term. The byte `p` is what the power 8 of the
variable is, modulo the polynomial that products are reduced by.
-/

namespace Drew.Field

open Polynomial

/-- The bit of a byte at a position. -/
def byteBit (a : UInt8) (i : Nat) : Bool := a.toBitVec.getLsbD i

/-- A property of all bytes, from all numbers below 256. -/
theorem forall_byte {P : UInt8 → Prop} (h : ∀ n : Fin 256, P (UInt8.ofNat n)) (b : UInt8) : P b := by
  have hb := h ⟨b.toNat, b.toNat_lt⟩
  rwa [UInt8.ofNat_toNat] at hb

/-- The product with the variable. -/
def timesX (p a : UInt8) : UInt8 := if byteBit a 7 then a <<< 1 ^^^ p else a <<< 1

/-- The product, by the rule of Horner. -/
def mulByte (p a b : UInt8) : UInt8 :=
  (List.range 8).foldr (fun i acc => timesX p acc ^^^ if byteBit b i then a else 0) 0

section Xor

variable (p a b c : UInt8)

theorem byteBit_xor (i : Nat) : byteBit (a ^^^ b) i = (byteBit a i ^^ byteBit b i) := BitVec.getLsbD_xor

theorem xor_byte_comm_middle (d : UInt8) : a ^^^ b ^^^ (c ^^^ d) = a ^^^ c ^^^ (b ^^^ d) := by
  rw [UInt8.xor_assoc, UInt8.xor_assoc, ← UInt8.xor_assoc b, UInt8.xor_comm b c, UInt8.xor_assoc c]

theorem xor_byte_self_right : a ^^^ b ^^^ b = a := by
  rw [UInt8.xor_assoc, UInt8.xor_self, UInt8.xor_zero]

theorem shiftLeft_xor_byte : (a ^^^ b) <<< 1 = a <<< 1 ^^^ b <<< 1 := by
  apply UInt8.eq_of_toBitVec_eq
  simp only [UInt8.toBitVec_shiftLeft, UInt8.toBitVec_xor]
  exact BitVec.shiftLeft_xor_distrib _ _ _

theorem timesX_xor : timesX p (a ^^^ b) = timesX p a ^^^ timesX p b := by
  unfold timesX
  rw [byteBit_xor, shiftLeft_xor_byte]
  cases byteBit a 7 with
  | false =>
    cases byteBit b 7 with
    | false => rfl
    | true => exact UInt8.xor_assoc _ _ _
  | true =>
    cases byteBit b 7 with
    | false =>
      show _ ^^^ p = _
      rw [UInt8.xor_assoc, UInt8.xor_comm _ p, ← UInt8.xor_assoc]
      rfl
    | true =>
      show _ = _ ^^^ p ^^^ (_ ^^^ p)
      rw [xor_byte_comm_middle, UInt8.xor_self, UInt8.xor_zero]
      rfl

theorem mulByte_xor_left : mulByte p (a ^^^ b) c = mulByte p a c ^^^ mulByte p b c := by
  unfold mulByte
  induction List.range 8 with
  | nil => exact UInt8.xor_self.symm
  | cons i l ih =>
    simp only [List.foldr_cons]
    rw [ih, timesX_xor, xor_byte_comm_middle]
    congr 1
    cases byteBit c i with
    | false => exact UInt8.xor_self.symm
    | true => rfl

theorem mulByte_xor_right : mulByte p a (b ^^^ c) = mulByte p a b ^^^ mulByte p a c := by
  unfold mulByte
  induction List.range 8 with
  | nil => exact UInt8.xor_self.symm
  | cons i l ih =>
    simp only [List.foldr_cons]
    rw [ih, timesX_xor, xor_byte_comm_middle, byteBit_xor]
    congr 1
    cases byteBit b i with
    | false =>
      cases byteBit c i with
      | false => exact UInt8.xor_self.symm
      | true => exact UInt8.zero_xor.symm
    | true =>
      cases byteBit c i with
      | false => exact UInt8.xor_zero.symm
      | true => exact UInt8.xor_self.symm

@[simp] theorem mulByte_zero_right : mulByte p a 0 = 0 := by
  have h := mulByte_xor_right p a 0 0
  rwa [UInt8.xor_self, UInt8.xor_self] at h

@[simp] theorem mulByte_zero_left : mulByte p 0 a = 0 := by
  have h := mulByte_xor_left p 0 0 a
  rwa [UInt8.xor_self, UInt8.xor_self] at h

end Xor

/-- Two functions that respect exclusive or are equal when they are on single bits. -/
theorem eq_of_byte_bits {f g : UInt8 → UInt8} (hf : ∀ a b, f (a ^^^ b) = f a ^^^ f b)
    (hg : ∀ a b, g (a ^^^ b) = g a ^^^ g b) (h : ∀ k : Fin 8, f (UInt8.ofNat (2 ^ k.val)) = g (UInt8.ofNat (2 ^ k.val)))
    (a : UInt8) : f a = g a := by
  have hzero : ∀ e : UInt8 → UInt8, (∀ a b, e (a ^^^ b) = e a ^^^ e b) → e 0 = 0 := by
    intro e he
    have h0 := he 0 0
    rwa [UInt8.xor_self, UInt8.xor_self] at h0
  refine xor_induction (P := fun v => f (UInt8.ofBitVec v) = g (UInt8.ofBitVec v)) ?_ ?_ ?_ a.toBitVec
  · exact (hzero f hf).trans (hzero g hg).symm
  · intro k hk
    have hbit : UInt8.ofBitVec (BitVec.twoPow 8 k) = UInt8.ofNat (2 ^ k) := by
      interval_cases k <;> rfl
    rw [hbit]
    exact h ⟨k, hk⟩
  · intro u v hu hv
    have hxor : UInt8.ofBitVec (u ^^^ v) = UInt8.ofBitVec u ^^^ UInt8.ofBitVec v := rfl
    rw [hxor, hf, hg, hu, hv]

/-- The product with a power of the variable. -/
theorem mulByte_power (p a : UInt8) {k : Nat} (hk : k < 8) :
    mulByte p a (UInt8.ofNat (2 ^ k)) = (timesX p)^[k] a := by
  have hzero : timesX p 0 = 0 := rfl
  have hbits : ∀ i < 8, byteBit (UInt8.ofNat (2 ^ k)) i = decide (i = k) := by
    revert k
    decide
  have hrange : List.range 8 = [0, 1, 2, 3, 4, 5, 6, 7] := rfl
  rw [mulByte, hrange]
  simp only [List.foldr_cons, List.foldr_nil, hbits 0 (by decide), hbits 1 (by decide),
    hbits 2 (by decide), hbits 3 (by decide), hbits 4 (by decide), hbits 5 (by decide),
    hbits 6 (by decide), hbits 7 (by decide), hzero]
  interval_cases k <;> simp [hzero]

/-! ## Linear forms -/

section Sum

variable {ι κ : Type}

/-- The exclusive or of the values on a list. -/
def xorSum (l : List ι) (f : ι → UInt8) : UInt8 := l.foldr (fun i a => f i ^^^ a) 0

@[simp] theorem xorSum_nil (f : ι → UInt8) : xorSum [] f = 0 := rfl

@[simp] theorem xorSum_cons (i : ι) (l : List ι) (f : ι → UInt8) :
    xorSum (i :: l) f = f i ^^^ xorSum l f := rfl

theorem xorSum_append (l l' : List ι) (f : ι → UInt8) :
    xorSum (l ++ l') f = xorSum l f ^^^ xorSum l' f := by
  induction l with
  | nil => exact UInt8.zero_xor.symm
  | cons i l ih => rw [List.cons_append, xorSum_cons, ih, xorSum_cons, UInt8.xor_assoc]

theorem xorSum_map (g : κ → ι) (l : List κ) (f : ι → UInt8) :
    xorSum (l.map g) f = xorSum l fun k => f (g k) := by
  rw [xorSum, xorSum, List.foldr_map]

theorem xorSum_xor (l : List ι) (f g : ι → UInt8) :
    xorSum l (fun i => f i ^^^ g i) = xorSum l f ^^^ xorSum l g := by
  induction l with
  | nil => exact UInt8.xor_self.symm
  | cons i l ih => rw [xorSum_cons, ih, xor_byte_comm_middle, xorSum_cons, xorSum_cons]

theorem xorSum_eq_zero {l : List ι} {f : ι → UInt8} (h : ∀ i ∈ l, f i = 0) : xorSum l f = 0 := by
  induction l with
  | nil => rfl
  | cons i l ih =>
    rw [xorSum_cons, h i List.mem_cons_self, UInt8.zero_xor]
    exact ih fun j hj => h j (List.mem_cons_of_mem i hj)

theorem mulByte_xorSum (p c : UInt8) (l : List ι) (f : ι → UInt8) :
    mulByte p (xorSum l f) c = xorSum l fun i => mulByte p (f i) c := by
  induction l with
  | nil => exact mulByte_zero_left p c
  | cons i l ih => rw [xorSum_cons, mulByte_xor_left, ih, xorSum_cons]

/-- Coefficients and what is multiplied with them. -/
def linearForm (p : UInt8) (ts : List (UInt8 × ι)) (b : ι → UInt8) : UInt8 :=
  xorSum ts fun t => mulByte p (b t.2) t.1

variable [DecidableEq ι]

/-- The coefficient of one value in all. -/
def coefficient (ts : List (UInt8 × ι)) (i : ι) : UInt8 := xorSum ts fun t => if t.2 = i then t.1 else 0

theorem xorSum_single {l : List ι} {k : ι} (hk : k ∈ l) (hl : l.Nodup) (f : ι → UInt8) :
    xorSum l (fun i => if k = i then f i else 0) = f k := by
  induction l with
  | nil => exact absurd hk List.not_mem_nil
  | cons i l ih =>
    obtain ⟨hi, hl'⟩ := List.nodup_cons.mp hl
    rw [xorSum_cons]
    by_cases h : k = i
    · have hrest : xorSum l (fun j => if k = j then f j else 0) = 0 := by
        apply xorSum_eq_zero
        intro j hj
        apply if_neg
        intro hkj
        exact hi (h ▸ hkj ▸ hj)
      rw [if_pos h, hrest, UInt8.xor_zero, h]
    · rw [if_neg h, UInt8.zero_xor]
      exact ih ((List.mem_cons.mp hk).resolve_left h) hl'

theorem linearForm_eq_sum (p : UInt8) {l : List ι} (hall : ∀ i, i ∈ l) (hl : l.Nodup)
    (ts : List (UInt8 × ι)) (b : ι → UInt8) :
    linearForm p ts b = xorSum l fun i => mulByte p (b i) (coefficient ts i) := by
  induction ts with
  | nil => exact (xorSum_eq_zero fun i _ => mulByte_zero_right p (b i)).symm
  | cons t ts ih =>
    have hcoefficient : ∀ i, mulByte p (b i) (coefficient (t :: ts) i) =
        (if t.2 = i then mulByte p (b i) t.1 else 0) ^^^ mulByte p (b i) (coefficient ts i) := by
      intro i
      rw [coefficient, xorSum_cons, mulByte_xor_right]
      congr 1
      split
      · rfl
      · exact mulByte_zero_right p (b i)
    simp only [hcoefficient]
    rw [xorSum_xor, xorSum_single (hall t.2) hl fun i => mulByte p (b i) t.1, ← ih]
    rfl

/-- Only the coefficients matter. -/
theorem linearForm_congr {n : Nat} (p : UInt8) {ts us : List (UInt8 × Fin n)}
    (h : ∀ i, coefficient ts i = coefficient us i) (b : Fin n → UInt8) :
    linearForm p ts b = linearForm p us b := by
  rw [linearForm_eq_sum p List.mem_finRange (List.nodup_finRange n),
    linearForm_eq_sum p List.mem_finRange (List.nodup_finRange n)]
  simp only [h]

end Sum

/-! ## Residues -/

section Value

variable (f : (ZMod 2)[X])

/-- The residue of a byte modulo `f`. -/
noncomputable def byteValue (a : UInt8) : AdjoinRoot f :=
  bitSum (fun i => AdjoinRoot.root f ^ i) a.toBitVec

variable {f}

@[simp] theorem byteValue_zero : byteValue f 0 = 0 := bitSum_zero _

theorem byteValue_power {k : Nat} (hk : k < 8) :
    byteValue f (UInt8.ofBitVec (BitVec.twoPow 8 k)) = AdjoinRoot.root f ^ k := bitSum_twoPow _ hk

variable [Nontrivial (AdjoinRoot f)]

theorem byteValue_xor (a b : UInt8) : byteValue f (a ^^^ b) = byteValue f a + byteValue f b :=
  bitSum_xor _ _ _

variable {p : UInt8}

theorem byteValue_timesX (hp : byteValue f p = AdjoinRoot.root f ^ 8) (a : UInt8) :
    byteValue f (timesX p a) = AdjoinRoot.root f * byteValue f a := by
  refine eq_of_bits (f := fun v => byteValue f (timesX p (UInt8.ofBitVec v)))
    (g := fun v => AdjoinRoot.root f * byteValue f (UInt8.ofBitVec v)) ?_ ?_ ?_ a.toBitVec
  · intro u v
    rw [← byteValue_xor, ← timesX_xor]
    rfl
  · intro u v
    rw [← mul_add, ← byteValue_xor]
    rfl
  · intro k hk
    rw [byteValue_power hk, ← pow_succ']
    by_cases h7 : k = 7
    · rw [h7, ← hp]
      have htop : timesX p (UInt8.ofBitVec (BitVec.twoPow 8 7)) = 0 ^^^ p := rfl
      rw [htop, UInt8.zero_xor]
    · rw [← byteValue_power (show k + 1 < 8 by omega)]
      congr 1
      interval_cases k
      · rfl
      · rfl
      · rfl
      · rfl
      · rfl
      · rfl
      · rfl
      · exact absurd rfl h7

/-- Products of bytes are products of residues. -/
theorem byteValue_mulByte (hp : byteValue f p = AdjoinRoot.root f ^ 8) (a b : UInt8) :
    byteValue f (mulByte p a b) = byteValue f a * byteValue f b := by
  have hpow : ∀ k, byteValue f ((timesX p)^[k] a) = byteValue f a * AdjoinRoot.root f ^ k := by
    intro k
    induction k with
    | zero => simp
    | succ k ih =>
      rw [Function.iterate_succ_apply', byteValue_timesX hp, ih, pow_succ', ← mul_assoc, ← mul_assoc,
        mul_comm (AdjoinRoot.root f)]
  refine eq_of_bits (f := fun v => byteValue f (mulByte p a (UInt8.ofBitVec v)))
    (g := fun v => byteValue f a * byteValue f (UInt8.ofBitVec v)) ?_ ?_ ?_ b.toBitVec
  · intro u v
    rw [← byteValue_xor, ← mulByte_xor_right]
    rfl
  · intro u v
    rw [← mul_add, ← byteValue_xor]
    rfl
  · intro k hk
    have hofNat : UInt8.ofBitVec (BitVec.twoPow 8 k) = UInt8.ofNat (2 ^ k) := by
      interval_cases k <;> rfl
    rw [byteValue_power hk, hofNat, mulByte_power p a hk, hpow]

end Value

end Drew.Field
