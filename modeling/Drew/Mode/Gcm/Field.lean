import Drew.Block.Cipher
import Drew.Field.Bits
import Drew.Memory.BigEndian

/-!
# The field of GCM

A block of 16 bytes is an element of the field with `2 ^ 128` elements: its first bit is
the constant term, and the polynomial is `X ^ 128 + X ^ 7 + X ^ 2 + X + 1`. The file has
the bits of a block, the polynomial with its irreducibility, and the product of two
blocks, to which the multiplication routines are compared.
-/

namespace Drew.Mode.Gcm

open Polynomial Drew.Memory Drew.Block Drew.Field

/-! ## Blocks as bit vectors -/

def ofBytes (bs : List UInt8) : BitVec 128 := BitVec.ofNat 128 (beNat bs)

def toBytes (v : BitVec 128) : List UInt8 := beBytes 16 v.toNat

@[simp] theorem length_toBytes (v : BitVec 128) : (toBytes v).length = 16 := length_beBytes _ _

theorem toNat_ofBytes {bs : List UInt8} (h : bs.length = 16) : (ofBytes bs).toNat = beNat bs := by
  have hlt := beNat_lt bs
  rw [h] at hlt
  rw [ofBytes, BitVec.toNat_ofNat]
  exact Nat.mod_eq_of_lt hlt

theorem toBytes_ofBytes {bs : List UInt8} (h : bs.length = 16) : toBytes (ofBytes bs) = bs := by
  have hb := beBytes_beNat bs
  rwa [toBytes, toNat_ofBytes h, ← h]

theorem ofBytes_toBytes (v : BitVec 128) : ofBytes (toBytes v) = v := by
  apply BitVec.eq_of_toNat_eq
  rw [toNat_ofBytes (length_toBytes v), toBytes, beNat_beBytes]
  exact Nat.mod_eq_of_lt v.isLt

theorem ofBytes_inj {as bs : List UInt8} (ha : as.length = 16) (hb : bs.length = 16)
    (h : ofBytes as = ofBytes bs) : as = bs := by
  rw [← toBytes_ofBytes ha, h, toBytes_ofBytes hb]

/-- The bits of a number are those of its bytes. -/
theorem testBit_beNat (bs : List UInt8) (q : Nat) (hq : q < bs.length) (r : Nat) (hr : r < 8) :
    (beNat bs).testBit (8 * (bs.length - 1 - q) + r) = bs[q].toNat.testBit r := by
  induction bs generalizing q with
  | nil => simp at hq
  | cons b bs ih =>
    have hlt := beNat_lt bs
    have hval : beNat (b :: bs) = 2 ^ (8 * bs.length) * b.toNat + beNat bs := by
      have h := beNat_append [b] bs
      rw [List.singleton_append, show (256 : Nat) = 2 ^ 8 from rfl, ← pow_mul] at h
      rw [h, Nat.mul_comm]
      simp [beNat]
    rw [show (256 : Nat) = 2 ^ 8 from rfl, ← pow_mul] at hlt
    rw [hval, Nat.testBit_two_pow_mul_add _ hlt]
    cases q with
    | zero => simp
    | succ q =>
      have hq' : q < bs.length := by simpa using hq
      rw [if_pos (by simp; omega), List.getElem_cons_succ, ← ih q hq']
      congr 2
      simp
      omega

theorem getMsbD_ofBytes {bs : List UInt8} (h : bs.length = 16) (i : Nat) (hi : i / 8 < bs.length) :
    (ofBytes bs).getMsbD i = bs[i / 8].toBitVec.getMsbD (i % 8) := by
  have hbit := testBit_beNat bs (i / 8) hi (7 - i % 8) (by omega)
  have hi' : i < 128 := by omega
  have hmod : i % 8 < 8 := Nat.mod_lt _ (by omega)
  rw [BitVec.getMsbD_eq_getLsbD, BitVec.getMsbD_eq_getLsbD]
  simp only [hi', hmod, decide_true, Bool.true_and]
  rw [← BitVec.testBit_toNat, ← BitVec.testBit_toNat, toNat_ofBytes h, UInt8.toNat_toBitVec, ← hbit]
  congr 1
  omega

theorem ofBytes_xorBytes {as bs : List UInt8} (ha : as.length = 16) (hb : bs.length = 16) :
    ofBytes (xorBytes as bs) = ofBytes as ^^^ ofBytes bs := by
  have hlen : (xorBytes as bs).length = 16 := by simp [ha, hb]
  apply BitVec.eq_of_getMsbD_eq
  intro i hi
  rw [BitVec.getMsbD_xor, getMsbD_ofBytes hlen i (by omega), getMsbD_ofBytes ha i (by omega),
    getMsbD_ofBytes hb i (by omega)]
  simp [xorBytes]

/-! ## The polynomial -/

/-- The modulus of GCM. -/
noncomputable def modulus : (ZMod 2)[X] := X ^ 128 + (X ^ 7 + X ^ 2 + X + 1)

theorem modulus_eq : modulus = X ^ 128 + (X ^ 7 + X ^ 2 + X + 1) := by
  unfold modulus
  rfl

theorem degree_modulus_tail :
    (X ^ 7 + X ^ 2 + X + 1 : (ZMod 2)[X]).degree < ((128 : Nat) : WithBot Nat) := by
  have h : (X ^ 7 + X ^ 2 + X + 1 : (ZMod 2)[X]).degree ≤ 7 := by compute_degree
  exact lt_of_le_of_lt h (by exact_mod_cast (by norm_num : 7 < 128))

theorem modulus_monic : modulus.Monic := by
  rw [modulus_eq]
  exact monic_X_pow_add degree_modulus_tail

theorem natDegree_modulus : modulus.natDegree = 128 := by
  apply natDegree_eq_of_degree_eq_some
  rw [modulus_eq, degree_add_eq_left_of_degree_lt]
  · exact degree_X_pow 128
  · rw [degree_X_pow]
    exact degree_modulus_tail

instance nontrivial_adjoinRoot : Nontrivial (AdjoinRoot modulus) := by
  apply AdjoinRoot.nontrivial
  rw [degree_eq_natDegree modulus_monic.ne_zero, natDegree_modulus]
  norm_num

/-- The bits that replace the power 128 of the variable. -/
def reducer : BitVec 128 := 0xe1 <<< 120

/-- The relation that the modulus imposes. -/
theorem root_pow :
    AdjoinRoot.root modulus ^ 128 = AdjoinRoot.root modulus ^ 7 + AdjoinRoot.root modulus ^ 2 +
      AdjoinRoot.root modulus + 1 := by
  have hself := congrArg (AdjoinRoot.mk modulus) modulus_eq
  simp only [AdjoinRoot.mk_self, map_add, map_pow, map_one, AdjoinRoot.mk_X] at hself
  exact CharTwo.add_eq_zero.mp hself.symm

theorem residue_reducer : residue modulus reducer = AdjoinRoot.root modulus ^ 128 := by
  have hbits : reducer = BitVec.twoPow 128 120 ^^^ BitVec.twoPow 128 125 ^^^
      BitVec.twoPow 128 126 ^^^ BitVec.twoPow 128 127 := by decide
  rw [hbits, residue_xor, residue_xor, residue_xor, residue_twoPow (by omega),
    residue_twoPow (by omega), residue_twoPow (by omega), residue_twoPow (by omega), root_pow,
    pow_one, pow_zero]

/-! ## The product -/

/-- The product of two blocks. -/
def product (x v : BitVec 128) : BitVec 128 := shiftMul reducer x v

theorem residue_product (x v : BitVec 128) :
    residue modulus (product x v) = residue modulus x * residue modulus v :=
  residue_shiftMul residue_reducer x v

/-- A block is determined by its residue. -/
theorem residue_inj {u v : BitVec 128} (h : residue modulus u = residue modulus v) : u = v :=
  residue_injective modulus_monic natDegree_modulus h

theorem product_xor (x y v : BitVec 128) : product (x ^^^ y) v = product x v ^^^ product y v :=
  shiftMul_xor_left modulus_monic natDegree_modulus residue_reducer x y v

theorem product_zero (v : BitVec 128) : product 0#128 v = 0#128 :=
  shiftMul_zero_left modulus_monic natDegree_modulus residue_reducer v

theorem product_comm (x v : BitVec 128) : product x v = product v x :=
  shiftMul_comm modulus_monic natDegree_modulus residue_reducer x v

/-- The product with a single bit. -/
theorem product_twoPow {k : Nat} (hk : k < 128) (v : BitVec 128) :
    product (BitVec.twoPow 128 (127 - k)) v = (timesRoot reducer)^[k] v :=
  shiftMul_twoPow modulus_monic natDegree_modulus residue_reducer hk v

/-! ## Irreducibility -/

/-- The variable. -/
def variableBlock : BitVec 128 := BitVec.twoPow 128 126

def square (v : BitVec 128) : BitVec 128 := product v v

theorem residue_variableBlock : residue modulus variableBlock = AdjoinRoot.root modulus := by
  rw [variableBlock, residue_twoPow (by omega), pow_one]

theorem residue_squares (k : Nat) :
    residue modulus (square^[k] variableBlock) = AdjoinRoot.root modulus ^ 2 ^ k := by
  induction k with
  | zero => simp [residue_variableBlock]
  | succ k ih => rw [Function.iterate_succ_apply', square, residue_product, ih, ← pow_add, ← two_mul,
      pow_succ']

/-- The residues are a field. -/
theorem modulus_irreducible : Irreducible modulus := by
  have hfix : square^[128] variableBlock = variableBlock := by decide +kernel
  -- The inverse of the difference of the power `2 ^ 64` and the variable.
  have hinv : product (square^[64] variableBlock ^^^ variableBlock)
      31972403664298480875478317702777361017 = BitVec.twoPow 128 127 := by decide +kernel
  refine irreducible_of_pow (k := 6) modulus_monic (by rw [natDegree_modulus]; norm_num) ?_ ?_
  · rw [← residue_squares (2 ^ (6 + 1)), show 2 ^ (6 + 1) = 128 by norm_num, hfix,
      residue_variableBlock]
  · have hres := congrArg (residue modulus) hinv
    rw [residue_product, residue_xor, residue_squares, residue_variableBlock,
      residue_twoPow (by omega), pow_zero] at hres
    rw [CharTwo.sub_eq_add, show 2 ^ 6 = 64 by norm_num]
    exact IsUnit.of_mul_eq_one _ hres

end Drew.Mode.Gcm
