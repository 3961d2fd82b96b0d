import Drew.Memory.Buffer
import Mathlib.Tactic

/-!
# Words of 32 bits in memory

The ciphers keep words whose first byte is the lowest (`LittleEndian::Copy`).
-/

namespace Drew.StreamCipher

open Drew.Memory

/-- The words of a list of bytes, as far as there are four bytes for each. -/
def loadWords : List UInt8 → List UInt32
  | b₀ :: b₁ :: b₂ :: b₃ :: bs =>
      (b₀.toUInt32 ||| b₁.toUInt32 <<< 8 ||| b₂.toUInt32 <<< 16 ||| b₃.toUInt32 <<< 24) :: loadWords bs
  | _ => []

/-- `E::Copy` to an array of words. Only whole words are copied here. -/
def copyWords {n : Nat} (v : Buf UInt32 n) (off : Nat) (bs : List UInt8) : Option (Buf UInt32 n) :=
  if bs.length % 4 = 0 then v.write off (loadWords bs) else none

/-- `E::Copy` from an array of words. -/
def storeWords {n : Nat} (v : Buf UInt32 n) : Buf UInt8 (4 * n) :=
  Vector.ofFn fun i => (v.get ⟨i.val / 4, by omega⟩ >>> (8 * UInt32.ofNat (i.val % 4))).toUInt8

/-- `RotateLeft`. -/
def rotateLeft (x : UInt32) (r : UInt32) : UInt32 := x <<< r ||| x >>> (32 - r)

/-- `RotateRight`. -/
def rotateRight (x : UInt32) (r : UInt32) : UInt32 := x >>> r ||| x <<< (32 - r)

theorem length_loadWords (bs : List UInt8) : (loadWords bs).length = bs.length / 4 := by
  fun_induction loadWords bs with
  | case1 b₀ b₁ b₂ b₃ bs ih =>
    rw [List.length_cons, ih]
    simp only [List.length_cons]
    omega
  | case2 bs h =>
    rcases bs with _ | ⟨b₀, _ | ⟨b₁, _ | ⟨b₂, _ | ⟨b₃, bs⟩⟩⟩⟩
    · rfl
    · simp
    · simp
    · simp
    · exact absurd rfl (h b₀ b₁ b₂ b₃ bs)

/-- Words that fit are copied, and nothing else is changed. -/
theorem exists_copyWords {n k : Nat} (v : Buf UInt32 n) (off : Nat) {bs : List UInt8} (hlen : bs.length = 4 * k)
    (hoff : off + k ≤ n) :
    ∃ w, copyWords v off bs = some w ∧ w.Holds off (loadWords bs) ∧ v.SameOutside w off k := by
  have hwords : (loadWords bs).length = k := by
    rw [length_loadWords]
    omega
  obtain ⟨w, hw⟩ := Buf.exists_write_at v off (loadWords bs) (by omega)
  refine ⟨w, ?_, Buf.holds_write hw, ?_⟩
  · rw [copyWords, if_pos (by omega), hw]
  · have hsame := Buf.sameOutside_write hw
    rwa [hwords] at hsame

/-- Whole words that fit are copied. -/
theorem copyWords_spec {n : Nat} (v : Buf UInt32 n) (off : Nat) {bs : List UInt8} (hlen : bs.length % 4 = 0)
    (hoff : off + bs.length / 4 ≤ n) :
    ∃ w, copyWords v off bs = some w ∧ v.write off (loadWords bs) = some w := by
  obtain ⟨w, hw⟩ := Buf.exists_write_at v off (loadWords bs) (by rwa [length_loadWords])
  exact ⟨w, by rw [copyWords, if_pos hlen, hw], hw⟩

end Drew.StreamCipher

/-!
## Rotations of words

`RotateLeft` and `RotateRight` by the same amount undo one another.
-/

namespace Drew.Block

open Drew.StreamCipher

/-! ## Bit vectors -/

theorem bitVec_rotateRight_rotateLeft {w n : Nat} (h : n < w) (x : BitVec w) :
    (x.rotateLeft n).rotateRight n = x := by
  apply BitVec.eq_of_getLsbD_eq
  intro i hi
  simp only [BitVec.getLsbD_rotateRight, BitVec.getLsbD_rotateLeft, Nat.mod_eq_of_lt h]
  by_cases hin : i < w - n
  · have h1 : ¬n + i < n := by omega
    have h2 : n + i < w := by omega
    have h3 : n + i - n = i := by omega
    simp only [hin, h1, h2, h3, decide_true, decide_false, cond_true, cond_false, Bool.true_and]
  · have h1 : i - (w - n) < n := by omega
    have h3 : w - n + (i - (w - n)) = i := by omega
    simp only [hin, hi, h1, h3, decide_true, decide_false, cond_true, cond_false, Bool.true_and]

theorem bitVec_rotateLeft_rotateRight {w n : Nat} (h : n < w) (x : BitVec w) :
    (x.rotateRight n).rotateLeft n = x := by
  apply BitVec.eq_of_getLsbD_eq
  intro i hi
  simp only [BitVec.getLsbD_rotateRight, BitVec.getLsbD_rotateLeft, Nat.mod_eq_of_lt h]
  by_cases hin : i < n
  · have h1 : ¬w - n + i < w - n := by omega
    have h2 : w - n + i < w := by omega
    have h3 : w - n + i - (w - n) = i := by omega
    simp only [hin, h1, h2, h3, decide_true, decide_false, cond_true, cond_false, Bool.true_and]
  · have h1 : i - n < w - n := by omega
    have h3 : n + (i - n) = i := by omega
    simp only [hin, hi, h1, h3, decide_true, decide_false, cond_true, cond_false, Bool.true_and]

/-! ## Words of 32 bits -/

section Word32

variable {n : UInt32}

theorem toNat_width_sub (h : n.toNat < 32) : (32 - n).toNat = 32 - n.toNat := by
  rw [UInt32.toNat_sub_of_le _ _ (UInt32.le_iff_toNat_le.mpr h.le)]
  rfl

theorem rotateLeft_toBitVec (x : UInt32) (h0 : 0 < n.toNat) (h : n.toNat < 32) :
    (rotateLeft x n).toBitVec = x.toBitVec.rotateLeft n.toNat := by
  have hn : (n.toBitVec % 32).toNat = n.toNat := Nat.mod_eq_of_lt h
  have hs : ((32 - n).toBitVec % 32).toNat = 32 - n.toNat := by
    rw [BitVec.toNat_umod, UInt32.toNat_toBitVec, toNat_width_sub h]
    exact Nat.mod_eq_of_lt (show 32 - n.toNat < 32 by omega)
  rw [rotateLeft, UInt32.toBitVec_or, UInt32.toBitVec_shiftLeft, UInt32.toBitVec_shiftRight,
    BitVec.shiftLeft_eq', BitVec.ushiftRight_eq', hn, hs, BitVec.rotateLeft_def, Nat.mod_eq_of_lt h]

theorem rotateRight_toBitVec (x : UInt32) (h0 : 0 < n.toNat) (h : n.toNat < 32) :
    (rotateRight x n).toBitVec = x.toBitVec.rotateRight n.toNat := by
  have hn : (n.toBitVec % 32).toNat = n.toNat := Nat.mod_eq_of_lt h
  have hs : ((32 - n).toBitVec % 32).toNat = 32 - n.toNat := by
    rw [BitVec.toNat_umod, UInt32.toNat_toBitVec, toNat_width_sub h]
    exact Nat.mod_eq_of_lt (show 32 - n.toNat < 32 by omega)
  rw [rotateRight, UInt32.toBitVec_or, UInt32.toBitVec_shiftLeft, UInt32.toBitVec_shiftRight,
    BitVec.shiftLeft_eq', BitVec.ushiftRight_eq', hn, hs, BitVec.rotateRight_def, Nat.mod_eq_of_lt h]

theorem rotateRight_rotateLeft (x : UInt32) (h0 : 0 < n.toNat) (h : n.toNat < 32) :
    rotateRight (rotateLeft x n) n = x := by
  apply UInt32.eq_of_toBitVec_eq
  rw [rotateRight_toBitVec _ h0 h, rotateLeft_toBitVec _ h0 h, bitVec_rotateRight_rotateLeft h]

theorem rotateLeft_rotateRight (x : UInt32) (h0 : 0 < n.toNat) (h : n.toNat < 32) :
    rotateLeft (rotateRight x n) n = x := by
  apply UInt32.eq_of_toBitVec_eq
  rw [rotateLeft_toBitVec _ h0 h, rotateRight_toBitVec _ h0 h, bitVec_rotateLeft_rotateRight h]

end Word32

end Drew.Block
