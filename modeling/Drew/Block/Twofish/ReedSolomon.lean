import Drew.Field.Byte
import Drew.Block.Twofish.Model

/-!
# The words of the key as products with a matrix

`ReedSolomon` takes the eight bytes of a part of the key through a shift register, one byte at a
time. It is linear, so that what it does to single bytes makes it the product with the matrix of
four rows and eight columns. Products of bytes are modulo the polynomial `0x14d`.
-/

namespace Drew.Twofish

open Drew.Memory Drew.Block Drew.Field

/-! ## The matrix -/

/-- The rows of the matrix. -/
def rsMatrix : List (List UInt8) :=
  [[0x01, 0xa4, 0x55, 0x87, 0x5a, 0x58, 0xdb, 0x9e],
    [0xa4, 0x56, 0x82, 0xf3, 0x1e, 0xc6, 0x68, 0xe5],
    [0x02, 0xa1, 0xfc, 0xc1, 0x47, 0xae, 0x3d, 0x19],
    [0xa4, 0x55, 0x87, 0x5a, 0x58, 0xdb, 0x9e, 0x03]]

/-- The product of a row with eight bytes. -/
def rowProduct (row bytes : List UInt8) : UInt8 :=
  (List.zipWith (mulByte 0x4d) row bytes).foldr (· ^^^ ·) 0

/-- The product of the matrix with eight bytes, as a word. -/
def rsProduct (bytes : List UInt8) : UInt32 :=
  ofBytes (rowProduct (rsMatrix.getD 0 []) bytes) (rowProduct (rsMatrix.getD 1 []) bytes)
    (rowProduct (rsMatrix.getD 2 []) bytes) (rowProduct (rsMatrix.getD 3 []) bytes)

/-- The same for two words. -/
def rsWord (hi lo : UInt32) : UInt32 :=
  rsProduct [getByte lo 0, getByte lo 1, getByte lo 2, getByte lo 3, getByte hi 0, getByte hi 1,
    getByte hi 2, getByte hi 3]

/-! ## Linearity -/

theorem mod_byte (b : UInt8) :
    mod b.toUInt32 = ofBytes b (mulByte 0x4d 0xa4 b) (mulByte 0x4d 0x02 b) (mulByte 0x4d 0xa4 b) := by
  revert b
  apply forall_byte
  decide +kernel

theorem high_byte (x : UInt32) : x >>> 24 = (getByte x 3).toUInt32 := by
  have hx := x.toNat_lt
  apply UInt32.toNat_inj.mp
  rw [UInt8.toNat_toUInt32, ← ofNat_div_pow x (m := 3) rfl (by decide), UInt32.toNat_shiftRight,
    show (24 : UInt32).toNat % 32 = 24 from rfl, Nat.shiftRight_eq_div_pow, UInt8.toNat_ofNat']
  omega

theorem mod_xor (x y : UInt32) :
    mod ((x ^^^ y) >>> 24) = mod (x >>> 24) ^^^ mod (y >>> 24) := by
  rw [high_byte, high_byte, high_byte, mod_byte, mod_byte, mod_byte, ofBytes_xor, getByte_xor,
    mulByte_xor_right, mulByte_xor_right]

theorem shiftLeft_xor (x y : UInt32) : (x ^^^ y) <<< 8 = x <<< 8 ^^^ y <<< 8 := by
  apply UInt32.eq_of_toBitVec_eq
  simp only [UInt32.toBitVec_shiftLeft, UInt32.toBitVec_xor]
  exact BitVec.shiftLeft_xor_distrib _ _ _

theorem shiftRight_xor (x y : UInt32) : (x ^^^ y) >>> 24 = x >>> 24 ^^^ y >>> 24 := by
  apply UInt32.eq_of_toBitVec_eq
  simp only [UInt32.toBitVec_shiftRight, UInt32.toBitVec_xor]
  exact BitVec.ushiftRight_xor_distrib _ _ _

theorem xor_middle (a b c d : UInt32) : a ^^^ b ^^^ (c ^^^ d) = a ^^^ c ^^^ (b ^^^ d) := by
  rw [UInt32.xor_assoc, UInt32.xor_assoc, ← UInt32.xor_assoc b, UInt32.xor_comm b c, UInt32.xor_assoc c]

theorem reedSolomonStep_xor (v w : UInt32 × UInt32) :
    reedSolomonStep (v.1 ^^^ w.1, v.2 ^^^ w.2) =
      ((reedSolomonStep v).1 ^^^ (reedSolomonStep w).1, (reedSolomonStep v).2 ^^^ (reedSolomonStep w).2) := by
  simp only [reedSolomonStep, mod_xor]
  rw [shiftLeft_xor, shiftLeft_xor, shiftRight_xor, xor_middle (mod (v.1 >>> 24)),
    xor_middle (mod (v.1 >>> 24) ^^^ v.1 <<< 8)]

theorem reedSolomon_xor (hi lo hi' lo' : UInt32) :
    reedSolomon (hi ^^^ hi') (lo ^^^ lo') = reedSolomon hi lo ^^^ reedSolomon hi' lo' := by
  have hsteps : ∀ (l : List Nat) (v w : UInt32 × UInt32),
      l.foldl (fun w _ => reedSolomonStep w) (v.1 ^^^ w.1, v.2 ^^^ w.2) =
        ((l.foldl (fun w _ => reedSolomonStep w) v).1 ^^^ (l.foldl (fun w _ => reedSolomonStep w) w).1,
          (l.foldl (fun w _ => reedSolomonStep w) v).2 ^^^ (l.foldl (fun w _ => reedSolomonStep w) w).2) := by
    intro l
    induction l with
    | nil => exact fun _ _ => rfl
    | cons i l ih =>
      intro v w
      simp only [List.foldl_cons]
      rw [reedSolomonStep_xor, ih]
  exact congrArg Prod.fst (hsteps (List.range 8) (hi, lo) (hi', lo'))

theorem rowProduct_xor (row : List UInt8) : ∀ {bs cs : List UInt8}, bs.length = cs.length →
    rowProduct row (List.zipWith (· ^^^ ·) bs cs) = rowProduct row bs ^^^ rowProduct row cs := by
  induction row with
  | nil => exact fun _ => UInt8.xor_self.symm
  | cons r row ih =>
    intro bs cs h
    cases bs with
    | nil =>
      cases cs with
      | nil => exact UInt8.xor_self.symm
      | cons c cs => simp at h
    | cons b bs =>
      cases cs with
      | nil => simp at h
      | cons c cs =>
        have hrest := ih (show bs.length = cs.length by simpa using h)
        simp only [rowProduct, List.zipWith_cons_cons, List.foldr_cons] at hrest ⊢
        rw [hrest, mulByte_xor_right, xor_byte_comm_middle]

theorem rsProduct_xor {bs cs : List UInt8} (h : bs.length = cs.length) :
    rsProduct (List.zipWith (· ^^^ ·) bs cs) = rsProduct bs ^^^ rsProduct cs := by
  simp only [rsProduct, rowProduct_xor _ h, ofBytes_xor]

theorem rsWord_xor (hi lo hi' lo' : UInt32) :
    rsWord (hi ^^^ hi') (lo ^^^ lo') = rsWord hi lo ^^^ rsWord hi' lo' := by
  unfold rsWord
  rw [← rsProduct_xor (by simp)]
  simp only [getByte_xor, List.zipWith_cons_cons, List.zipWith_nil_left]

/-! ## The product -/

theorem reedSolomon_high (v : BitVec 32) : reedSolomon ⟨v⟩ 0 = rsWord ⟨v⟩ 0 := by
  induction v using xor_induction with
  | hzero => rfl
  | hbit k hk =>
    revert k
    decide +kernel
  | hxor a b ha hb =>
    have hsplit : (⟨a ^^^ b⟩ : UInt32) = ⟨a⟩ ^^^ ⟨b⟩ := rfl
    have hzero : (0 : UInt32) = 0 ^^^ 0 := rfl
    rw [hsplit, hzero, reedSolomon_xor, rsWord_xor, ha, hb]

theorem reedSolomon_low (v : BitVec 32) : reedSolomon 0 ⟨v⟩ = rsWord 0 ⟨v⟩ := by
  induction v using xor_induction with
  | hzero => rfl
  | hbit k hk =>
    revert k
    decide +kernel
  | hxor a b ha hb =>
    have hsplit : (⟨a ^^^ b⟩ : UInt32) = ⟨a⟩ ^^^ ⟨b⟩ := rfl
    have hzero : (0 : UInt32) = 0 ^^^ 0 := rfl
    rw [hsplit, hzero, reedSolomon_xor, rsWord_xor, ha, hb]

/-- The shift register computes the product with the matrix. -/
theorem reedSolomon_eq (hi lo : UInt32) : reedSolomon hi lo = rsWord hi lo := by
  rw [← UInt32.xor_zero (a := hi), ← UInt32.zero_xor (a := lo), reedSolomon_xor, rsWord_xor,
    reedSolomon_high hi.toBitVec, reedSolomon_low lo.toBitVec]

/-! ## Residues -/

section Residues

open Polynomial

/-- The polynomial `0x14d`. -/
noncomputable def rsPoly : (ZMod 2)[X] := X ^ 8 + (X ^ 6 + X ^ 3 + X ^ 2 + 1)

theorem rsPoly_eq : rsPoly = X ^ 8 + (X ^ 6 + X ^ 3 + X ^ 2 + 1) := by
  unfold rsPoly
  rfl

theorem natDegree_rsPoly : rsPoly.natDegree = 8 := by
  rw [rsPoly_eq]
  compute_degree!

instance nontrivial_rsPoly : Nontrivial (AdjoinRoot rsPoly) := by
  apply AdjoinRoot.nontrivial
  intro h
  have hzero := natDegree_eq_of_degree_eq_some h
  rw [natDegree_rsPoly] at hzero
  exact absurd hzero (by decide)

theorem byteValue_reduction : byteValue rsPoly 0x4d = AdjoinRoot.root rsPoly ^ 8 := by
  have hself := congrArg (AdjoinRoot.mk rsPoly) rsPoly_eq
  simp only [AdjoinRoot.mk_self, map_add, map_pow, map_one, AdjoinRoot.mk_X] at hself
  have hbits : (0x4d : UInt8) = UInt8.ofBitVec (BitVec.twoPow 8 6) ^^^ UInt8.ofBitVec (BitVec.twoPow 8 3) ^^^
      UInt8.ofBitVec (BitVec.twoPow 8 2) ^^^ UInt8.ofBitVec (BitVec.twoPow 8 0) := rfl
  rw [hbits, byteValue_xor, byteValue_xor, byteValue_xor, byteValue_power (by decide),
    byteValue_power (by decide), byteValue_power (by decide), byteValue_power (by decide), pow_zero]
  exact (CharTwo.add_eq_zero.mp hself.symm).symm

/-- A row times a column is a sum of products of residues. -/
theorem byteValue_rowProduct (row bytes : List UInt8) :
    byteValue rsPoly (rowProduct row bytes) =
      (List.zipWith (fun r b => byteValue rsPoly r * byteValue rsPoly b) row bytes).sum := by
  unfold rowProduct
  induction row generalizing bytes with
  | nil => exact byteValue_zero
  | cons r row ih =>
    cases bytes with
    | nil => exact byteValue_zero
    | cons b bytes =>
      simp only [List.zipWith_cons_cons, List.foldr_cons, List.sum_cons]
      rw [byteValue_xor, byteValue_mulByte byteValue_reduction, ih]

end Residues

end Drew.Twofish
