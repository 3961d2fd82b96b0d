import Drew.Mode.Gcm.Multiply

/-!
# Multiplication in GCM with carry-less products

The model of `mul` of `gcm-pclmulqdq.cc`. Four products without carries of halves of the
factors are combined to one of 255 bits, which is shifted by one bit and then reduced with
shifts that act on each lane of 32 bits. Combining and reducing respect exclusive or, so it
is enough to know what they do to single bits.

At the end the three multiplication routines are compared.
-/

namespace Drew.Mode.Gcm

open Drew.Memory Drew.Block Drew.Field

/-! ## The instructions -/

/-- Apply a function to each of the four lanes of 32 bits. -/
def lanes (f : BitVec 32 → BitVec 32) (v : BitVec 128) : BitVec 128 :=
  f (v.extractLsb' 96 32) ++ f (v.extractLsb' 64 32) ++ f (v.extractLsb' 32 32) ++
    f (v.extractLsb' 0 32)

/-- `__builtin_ia32_pslldi128`. -/
def pslldi (v : BitVec 128) (n : Nat) : BitVec 128 := lanes (· <<< n) v

/-- `__builtin_ia32_psrldi128`. -/
def psrldi (v : BitVec 128) (n : Nat) : BitVec 128 := lanes (· >>> n) v

/-- `__builtin_ia32_pslldqi128`, whose argument is a number of bits. -/
def pslldqi (v : BitVec 128) (n : Nat) : BitVec 128 := v <<< n

/-- `__builtin_ia32_psrldqi128`. -/
def psrldqi (v : BitVec 128) (n : Nat) : BitVec 128 := v >>> n

def lowHalf (v : BitVec 128) : BitVec 64 := v.extractLsb' 0 64

def highHalf (v : BitVec 128) : BitVec 64 := v.extractLsb' 64 64

/-- `__builtin_ia32_pclmulqdq128`: bit 0 of the last argument selects the half of `a`, and
bit 4 that of `b`. -/
def pclmulqdq (a b : BitVec 128) (imm : BitVec 8) : BitVec 128 :=
  clmul (if imm.getLsbD 0 then highHalf a else lowHalf a)
    (if imm.getLsbD 4 then highHalf b else lowHalf b)

/-! ## The code -/

/-- Shift the 256 bits of `t6` and `t3` to the left by one bit. -/
def shiftOne (t3 t6 : BitVec 128) : BitVec 128 × BitVec 128 :=
  let t7 := psrldi t3 31
  let t8 := psrldi t6 31
  let t9 := t7
  let t3 := pslldi t3 1
  let t6 := pslldi t6 1
  let t8 := pslldqi t8 (8 * 4)
  let t7 := pslldqi t7 (8 * 4)
  let t9 := psrldqi t9 (8 * 12)
  (t3 ||| t7, t6 ||| t8 ||| t9)

/-- Reduce the 256 bits. -/
def reduce (t3 t6 : BitVec 128) : BitVec 128 :=
  let t7 := pslldi t3 31
  let t8 := pslldi t3 30
  let t9 := pslldi t3 25
  let t7 := t7 ^^^ t8
  let t7 := t7 ^^^ t9
  let t8 := t7
  let t7 := pslldqi t7 (8 * 12)
  let t8 := psrldqi t8 (8 * 4)
  let t3 := t3 ^^^ t7
  let t2 := psrldi t3 1
  let t4 := psrldi t3 2
  let t5 := psrldi t3 7
  let t2 := t2 ^^^ t4
  let t2 := t2 ^^^ t5
  let t2 := t2 ^^^ t8
  let t3 := t3 ^^^ t2
  t6 ^^^ t3

/-- The vector is the block as a number. -/
def mulPclmulqdq (hv : BitVec 128) (buf : Buf UInt8 16) : Buf UInt8 16 :=
  let a := ofBytes buf.toList
  let b := hv
  let t3 := pclmulqdq a b 0x00
  let t4 := pclmulqdq a b 0x01
  let t5 := pclmulqdq a b 0x10
  let t6 := pclmulqdq a b 0x11
  let t4 := t4 ^^^ t5
  let t5 := t4
  let t4 := psrldqi t4 (8 * 8)
  let t5 := pslldqi t5 (8 * 8)
  let t3 := t3 ^^^ t5
  let t6 := t6 ^^^ t4
  let (t3, t6) := shiftOne t3 t6
  Buf.ofList (toBytes (reduce t3 t6)) (length_toBytes _)

/-! ## Lanes -/

theorem getLsbD_lanes (f : BitVec 32 → BitVec 32) (v : BitVec 128) (q : Nat) (hq : q < 4) (r : Nat)
    (hr : r < 32) : (lanes f v).getLsbD (32 * q + r) = (f (v.extractLsb' (32 * q) 32)).getLsbD r := by
  simp only [lanes, BitVec.getLsbD_append]
  match q, hq with
  | 0, _ => simp [hr]
  | 1, _ => simp [show ¬32 + r < 32 by omega, show 32 + r - 32 = r by omega, hr]
  | 2, _ =>
    simp [show ¬64 + r < 32 by omega, show ¬64 + r - 32 < 32 by omega,
      show 64 + r - 32 - 32 = r by omega, hr]
  | 3, _ =>
    simp [show ¬96 + r < 32 by omega, show ¬96 + r - 32 < 32 by omega,
      show ¬96 + r - 32 - 32 < 32 by omega, show 96 + r - 32 - 32 - 32 = r by omega]

theorem lanes_xor {f : BitVec 32 → BitVec 32} (hf : ∀ a b, f (a ^^^ b) = f a ^^^ f b)
    (u v : BitVec 128) : lanes f (u ^^^ v) = lanes f u ^^^ lanes f v := by
  have happ : ∀ {m n : Nat} (a b : BitVec m) (c d : BitVec n),
      (a ^^^ b) ++ (c ^^^ d) = (a ++ c) ^^^ (b ++ d) := fun _ _ _ _ => BitVec.xor_append.symm
  simp only [lanes, BitVec.extractLsb'_xor, hf, happ]

theorem pslldi_xor (u v : BitVec 128) (n : Nat) : pslldi (u ^^^ v) n = pslldi u n ^^^ pslldi v n :=
  lanes_xor (fun a b => BitVec.shiftLeft_xor_distrib a b n) u v

theorem psrldi_xor (u v : BitVec 128) (n : Nat) : psrldi (u ^^^ v) n = psrldi u n ^^^ psrldi v n :=
  lanes_xor (fun a b => BitVec.ushiftRight_xor_distrib a b n) u v

theorem pslldqi_xor (u v : BitVec 128) (n : Nat) :
    pslldqi (u ^^^ v) n = pslldqi u n ^^^ pslldqi v n := BitVec.shiftLeft_xor_distrib u v n

theorem psrldqi_xor (u v : BitVec 128) (n : Nat) :
    psrldqi (u ^^^ v) n = psrldqi u n ^^^ psrldqi v n := BitVec.ushiftRight_xor_distrib u v n

theorem xor_middle {n : Nat} (a b c d : BitVec n) : a ^^^ b ^^^ (c ^^^ d) = a ^^^ c ^^^ (b ^^^ d) := by
  ac_rfl

/-- What the first reduction step shifts out of each lane. -/
def shiftedOut (t3 : BitVec 128) : BitVec 128 := pslldi t3 31 ^^^ pslldi t3 30 ^^^ pslldi t3 25

theorem shiftedOut_xor (a b : BitVec 128) : shiftedOut (a ^^^ b) = shiftedOut a ^^^ shiftedOut b := by
  rw [shiftedOut, pslldi_xor, pslldi_xor, pslldi_xor, xor_middle (pslldi a 31), xor_middle]
  rfl

/-- The low half after the first reduction step. -/
def firstStep (t3 : BitVec 128) : BitVec 128 := t3 ^^^ pslldqi (shiftedOut t3) (8 * 12)

theorem firstStep_xor (a b : BitVec 128) : firstStep (a ^^^ b) = firstStep a ^^^ firstStep b := by
  rw [firstStep, shiftedOut_xor, pslldqi_xor, xor_middle]
  rfl

/-- The shifts of the second reduction step. -/
def secondStep (t3 : BitVec 128) : BitVec 128 := psrldi t3 1 ^^^ psrldi t3 2 ^^^ psrldi t3 7

theorem secondStep_xor (a b : BitVec 128) : secondStep (a ^^^ b) = secondStep a ^^^ secondStep b := by
  rw [secondStep, psrldi_xor, psrldi_xor, psrldi_xor, xor_middle (psrldi a 1), xor_middle]
  rfl

/-- What is added to the high half. -/
def lowPart (t3 : BitVec 128) : BitVec 128 :=
  firstStep t3 ^^^ (secondStep (firstStep t3) ^^^ psrldqi (shiftedOut t3) (8 * 4))

theorem lowPart_xor (a b : BitVec 128) : lowPart (a ^^^ b) = lowPart a ^^^ lowPart b := by
  rw [lowPart, firstStep_xor, secondStep_xor, shiftedOut_xor, psrldqi_xor,
    xor_middle (secondStep _), xor_middle]
  rfl

theorem reduce_eq (t3 t6 : BitVec 128) : reduce t3 t6 = t6 ^^^ lowPart t3 := rfl

theorem reduce_xor (a b c d : BitVec 128) :
    reduce (a ^^^ b) (c ^^^ d) = reduce a c ^^^ reduce b d := by
  rw [reduce_eq, lowPart_xor, xor_middle, reduce_eq, reduce_eq]

/-! ## The shift by one bit -/

theorem lanes_shiftOne (v : BitVec 128) :
    pslldi v 1 ||| pslldqi (psrldi v 31) (8 * 4) = v <<< 1 := by
  apply BitVec.eq_of_getLsbD_eq
  intro i hi
  obtain ⟨q, r, hr, rfl⟩ : ∃ q r, r < 32 ∧ i = 32 * q + r := ⟨i / 32, i % 32, by omega, by omega⟩
  have hq : q < 4 := by omega
  rw [BitVec.getLsbD_or, pslldi, getLsbD_lanes _ v q hq r hr, pslldqi, BitVec.getLsbD_shiftLeft,
    BitVec.getLsbD_shiftLeft, BitVec.getLsbD_shiftLeft]
  cases q with
  | zero =>
    -- The lowest lane gets no bit from another one.
    by_cases h0 : r = 0
    · simp [h0]
    · simp [h0, hr, show r < 128 by omega, show r - 1 < 32 by omega]
  | succ q =>
    rw [show 32 * (q + 1) + r - 8 * 4 = 32 * q + r by omega, psrldi,
      getLsbD_lanes _ v q (by omega) r hr, BitVec.getLsbD_ushiftRight]
    by_cases h0 : r = 0
    · subst h0
      simp [show ¬32 * (q + 1) < 32 by omega, show 32 * (q + 1) - 1 = 32 * q + 31 by omega]
    · simp [h0, hr, hi, show ¬31 + r < 32 by omega, show ¬32 * (q + 1) + r < 1 by omega,
        show r - 1 < 32 by omega, show 32 * (q + 1) + r - 1 = 32 * (q + 1) + (r - 1) by omega]

/-- The bit that leaves the low half. -/
theorem lanes_carry (v : BitVec 128) : psrldqi (psrldi v 31) (8 * 12) = v >>> 127 := by
  apply BitVec.eq_of_getLsbD_eq
  intro i hi
  rw [psrldqi, BitVec.getLsbD_ushiftRight, BitVec.getLsbD_ushiftRight]
  by_cases h32 : i < 32
  · rw [show 8 * 12 + i = 32 * 3 + i by omega, psrldi, getLsbD_lanes _ v 3 (by omega) i h32,
      BitVec.getLsbD_ushiftRight]
    by_cases h0 : i = 0
    · simp [h0]
    · simp [show ¬31 + i < 32 by omega, BitVec.getLsbD_of_ge v (127 + i) (by omega)]
  · rw [BitVec.getLsbD_of_ge _ _ (by omega), BitVec.getLsbD_of_ge v _ (by omega)]

theorem shiftOne_eq (t3 t6 : BitVec 128) :
    shiftOne t3 t6 = (t3 <<< 1, t6 <<< 1 ^^^ t3 >>> 127) := by
  have hdisjoint : t6 <<< 1 ||| t3 >>> 127 = t6 <<< 1 ^^^ t3 >>> 127 := by
    apply BitVec.eq_of_getLsbD_eq
    intro i hi
    rw [BitVec.getLsbD_or, BitVec.getLsbD_xor]
    cases i with
    | zero => simp
    | succ i => simp [BitVec.getLsbD_of_ge t3 (127 + (i + 1)) (by omega)]
  have h : shiftOne t3 t6 = (pslldi t3 1 ||| pslldqi (psrldi t3 31) (8 * 4),
      pslldi t6 1 ||| pslldqi (psrldi t6 31) (8 * 4) ||| psrldqi (psrldi t3 31) (8 * 12)) := rfl
  rw [h, lanes_shiftOne, lanes_shiftOne, lanes_carry, hdisjoint]

/-! ## The value of 255 bits -/

/-- Shift and reduce. -/
def shiftReduce (t3 t6 : BitVec 128) : BitVec 128 := reduce (shiftOne t3 t6).1 (shiftOne t3 t6).2

theorem shiftReduce_xor (a b c d : BitVec 128) :
    shiftReduce (a ^^^ b) (c ^^^ d) = shiftReduce a c ^^^ shiftReduce b d := by
  simp only [shiftReduce, shiftOne_eq]
  rw [BitVec.shiftLeft_xor_distrib, BitVec.shiftLeft_xor_distrib, BitVec.ushiftRight_xor_distrib,
    xor_middle, reduce_xor]

/-- The values at single bits: those of the high half, of which there are 127, are not reduced, and
in the low half a bit is the next one times the variable. -/
theorem shiftReduce_twoPow :
    (∀ k < 127, shiftReduce 0#128 (BitVec.twoPow 128 k) = BitVec.twoPow 128 (k + 1)) ∧
      (∀ k < 127, shiftReduce (BitVec.twoPow 128 k) 0#128 =
        timesRoot reducer (shiftReduce (BitVec.twoPow 128 (k + 1)) 0#128)) ∧
      shiftReduce (BitVec.twoPow 128 127) 0#128 = BitVec.twoPow 128 0 ∧
      shiftReduce 0#128 (BitVec.twoPow 128 127) = 0#128 := by
  decide +kernel

/-- The weights of the bits of the two halves of a product. -/
noncomputable def lowWeight (i : Nat) : AdjoinRoot modulus := AdjoinRoot.root modulus ^ (254 - i)

noncomputable def highWeight (i : Nat) : AdjoinRoot modulus :=
  if i < 127 then AdjoinRoot.root modulus ^ (126 - i) else 0

theorem residue_shiftReduce_low (j : Nat) (hj : j < 128) :
    residue modulus (shiftReduce (BitVec.twoPow 128 (127 - j)) 0#128) = lowWeight (127 - j) := by
  induction j with
  | zero => rw [shiftReduce_twoPow.2.2.1, residue_twoPow (by omega), lowWeight]
  | succ j ih =>
    rw [shiftReduce_twoPow.2.1 (127 - (j + 1)) (by omega), residue_timesRoot residue_reducer,
      show 127 - (j + 1) + 1 = 127 - j by omega, ih (by omega), lowWeight, lowWeight, ← pow_succ']
    congr 1
    omega

theorem residue_shiftReduce (t3 t6 : BitVec 128) :
    residue modulus (shiftReduce t3 t6) = bitSum lowWeight t3 + bitSum highWeight t6 := by
  have hlow : residue modulus (shiftReduce t3 0#128) = bitSum lowWeight t3 := by
    refine eq_of_bits (f := fun v => residue modulus (shiftReduce v 0#128)) (g := bitSum lowWeight)
      ?_ (bitSum_xor lowWeight) ?_ t3
    · intro a b
      rw [← residue_xor, ← shiftReduce_xor, BitVec.xor_self]
    · intro k hk
      have h := residue_shiftReduce_low (127 - k) (by omega)
      rw [show 127 - (127 - k) = k by omega] at h
      rw [bitSum_twoPow _ hk]
      exact h
  have hhigh : residue modulus (shiftReduce 0#128 t6) = bitSum highWeight t6 := by
    refine eq_of_bits (f := fun v => residue modulus (shiftReduce 0#128 v)) (g := bitSum highWeight)
      ?_ (bitSum_xor highWeight) ?_ t6
    · intro a b
      rw [← residue_xor, ← shiftReduce_xor, BitVec.xor_self]
    · intro k hk
      rw [bitSum_twoPow _ hk, highWeight]
      by_cases h127 : k < 127
      · rw [if_pos h127, shiftReduce_twoPow.1 k h127, residue_twoPow (by omega)]
        congr 1
        omega
      · rw [if_neg h127, show k = 127 by omega, shiftReduce_twoPow.2.2.2, residue_zero]
  rw [← hlow, ← hhigh, ← residue_xor, ← shiftReduce_xor, BitVec.xor_zero, BitVec.zero_xor]

/-- The two products in the middle are 64 bits higher than the one of the low halves. -/
theorem bitSum_middle (v : BitVec 128) :
    bitSum lowWeight (v <<< 64) + bitSum highWeight (v >>> 64) =
      bitSum (fun i => AdjoinRoot.root modulus ^ (190 - i)) v := by
  refine eq_of_bits
    (f := fun v : BitVec 128 => bitSum lowWeight (v <<< 64) + bitSum highWeight (v >>> 64))
    (g := bitSum fun i => AdjoinRoot.root modulus ^ (190 - i)) ?_ (bitSum_xor _) ?_ v
  · intro a b
    rw [BitVec.shiftLeft_xor_distrib, BitVec.ushiftRight_xor_distrib, bitSum_xor, bitSum_xor,
      add_add_add_comm]
  · intro k hk
    have hbits : ∀ k < 64, BitVec.twoPow 128 k <<< 64 = BitVec.twoPow 128 (k + 64) ∧
        BitVec.twoPow 128 k >>> 64 = 0#128 ∧ BitVec.twoPow 128 (k + 64) <<< 64 = 0#128 ∧
        BitVec.twoPow 128 (k + 64) >>> 64 = BitVec.twoPow 128 k := by decide +kernel
    rw [bitSum_twoPow _ hk]
    by_cases h64 : k < 64
    · obtain ⟨hl, hr, -, -⟩ := hbits k h64
      rw [hl, hr, bitSum_zero, add_zero, bitSum_twoPow _ (by omega), lowWeight]
      congr 1
      omega
    · obtain ⟨j, rfl⟩ : ∃ j, k = j + 64 := ⟨k - 64, by omega⟩
      obtain ⟨-, -, hl, hr⟩ := hbits j (by omega)
      rw [hl, hr, bitSum_zero, zero_add, bitSum_twoPow _ (by omega), highWeight, if_pos (by omega)]
      congr 1
      omega

/-! ## The product -/

noncomputable def lowHalfWeight (i : Nat) : AdjoinRoot modulus := AdjoinRoot.root modulus ^ (127 - i)

noncomputable def highHalfWeight (i : Nat) : AdjoinRoot modulus := AdjoinRoot.root modulus ^ (63 - i)

theorem residue_halves (v : BitVec 128) :
    residue modulus v = bitSum lowHalfWeight (lowHalf v) + bitSum highHalfWeight (highHalf v) := by
  rw [residue, bitSum, Finset.sum_range_add _ 64 64, bitSum, bitSum]
  refine congrArg₂ (· + ·) ?_ ?_
  · apply Finset.sum_congr rfl
    intro i hi
    have hi' := Finset.mem_range.mp hi
    simp [lowHalf, lowHalfWeight, hi']
  · apply Finset.sum_congr rfl
    intro i hi
    have hi' := Finset.mem_range.mp hi
    simp [highHalf, highHalfWeight, hi',
      show 127 - (64 + i) = 63 - i by omega]

section Halves

variable (a b : BitVec 128)

theorem bitSum_low : bitSum lowWeight (pclmulqdq a b 0x00) =
    bitSum lowHalfWeight (lowHalf a) * bitSum lowHalfWeight (lowHalf b) := by
  refine bitSum_clmul (m := 64) ?_ (lowHalf a) (lowHalf b)
  intro i hi j hj
  rw [lowWeight, lowHalfWeight, lowHalfWeight, ← pow_add]
  congr 1
  omega

theorem bitSum_high : bitSum highWeight (pclmulqdq a b 0x11) =
    bitSum highHalfWeight (highHalf a) * bitSum highHalfWeight (highHalf b) := by
  refine bitSum_clmul (m := 64) ?_ (highHalf a) (highHalf b)
  intro i hi j hj
  rw [highWeight, if_pos (by omega), highHalfWeight, highHalfWeight, ← pow_add]
  congr 1
  omega

theorem bitSum_mixed :
    bitSum (fun i => AdjoinRoot.root modulus ^ (190 - i)) (pclmulqdq a b 0x01 ^^^ pclmulqdq a b 0x10) =
      bitSum highHalfWeight (highHalf a) * bitSum lowHalfWeight (lowHalf b) +
        bitSum lowHalfWeight (lowHalf a) * bitSum highHalfWeight (highHalf b) := by
  rw [bitSum_xor]
  congr 1
  · refine bitSum_clmul (m := 64) ?_ (highHalf a) (lowHalf b)
    intro i hi j hj
    rw [lowHalfWeight, highHalfWeight, ← pow_add]
    congr 1
    omega
  · refine bitSum_clmul (m := 64) ?_ (lowHalf a) (highHalf b)
    intro i hi j hj
    rw [lowHalfWeight, highHalfWeight, ← pow_add]
    congr 1
    omega

end Halves

/-- The four products together are the product. -/
theorem ofBytes_mulPclmulqdq (hv : BitVec 128) (buf : Buf UInt8 16) :
    ofBytes (mulPclmulqdq hv buf).toList = product (ofBytes buf.toList) hv := by
  have hmul : ∀ a, a = ofBytes buf.toList → (mulPclmulqdq hv buf).toList = toBytes (shiftReduce
      (pclmulqdq a hv 0x00 ^^^ (pclmulqdq a hv 0x01 ^^^ pclmulqdq a hv 0x10) <<< 64)
      (pclmulqdq a hv 0x11 ^^^ (pclmulqdq a hv 0x01 ^^^ pclmulqdq a hv 0x10) >>> 64)) := by
    rintro a rfl
    simp [mulPclmulqdq, shiftReduce, pslldqi, psrldqi, Buf.ofList]
  apply residue_inj
  rw [hmul _ rfl, ofBytes_toBytes, residue_shiftReduce, bitSum_xor, bitSum_xor, add_add_add_comm,
    bitSum_middle, bitSum_low, bitSum_high, bitSum_mixed, residue_product,
    residue_halves (ofBytes buf.toList), residue_halves hv]
  ring

/-! ## The routines agree -/

/-- `E::Copy` of 16 bytes to a vector. -/
def copyToVector (h : Buf UInt8 16) : BitVec 128 := ofBytes h.toList

/-- One step of GHASH with a multiplication routine. -/
def hashWith (mul : Buf UInt8 16 → Option (Buf UInt8 16)) (x block : Buf UInt8 16) :
    Option (Buf UInt8 16) := mul (xorBlock x block)

/-- With the table for `h`, the routines give the same block for every block, which is its
product with `h` in the field; and so they give the same hash for any list of blocks. -/
theorem multipliers_agree (e : ByteOrder) (h : Buf UInt8 16) (table : Table) :
    ∃ t, genTableFl h table = some t ∧ Irreducible modulus ∧
      (∀ x : Buf UInt8 16,
        mulFl e t x = some (mul h x) ∧ mulPclmulqdq (copyToVector h) x = mul h x ∧
          residue modulus (ofBytes (mul h x).toList) =
            residue modulus (ofBytes x.toList) * residue modulus (ofBytes h.toList)) ∧
      ∀ (x : Buf UInt8 16) (blocks : List (Buf UInt8 16)),
        blocks.foldlM (hashWith (mulFl e t)) x = blocks.foldlM (hashWith fun y => some (mul h y)) x ∧
          blocks.foldlM (hashWith fun y => some (mulPclmulqdq (copyToVector h) y)) x =
            blocks.foldlM (hashWith fun y => some (mul h y)) x := by
  obtain ⟨t, hgen, ht⟩ := genTableFl_spec h table
  have hblock : ∀ a b : Buf UInt8 16, ofBytes a.toList = ofBytes b.toList → a = b := by
    intro a b hab
    exact Vector.toList_inj.mp (ofBytes_inj (by simp) (by simp) hab)
  have hfl : ∀ x, mulFl e t x = some (mul h x) := by
    intro x
    obtain ⟨out, hrun, hout⟩ := ofBytes_mulFl e ht x
    rw [hrun, hblock out (mul h x) (by rw [hout, ofBytes_mul])]
  have hpclmul : ∀ x, mulPclmulqdq (copyToVector h) x = mul h x := by
    intro x
    apply hblock
    rw [ofBytes_mulPclmulqdq, ofBytes_mul, copyToVector]
  refine ⟨t, hgen, modulus_irreducible, ?_, ?_⟩
  · intro x
    exact ⟨hfl x, hpclmul x, by rw [ofBytes_mul, residue_product]⟩
  · intro x blocks
    rw [funext hfl]
    simp only [hpclmul, and_self]

end Drew.Mode.Gcm
