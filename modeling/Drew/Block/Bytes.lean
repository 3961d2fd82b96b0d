import Drew.Field.Byte
import Mathlib.Tactic
import Drew.Memory.Endian
import Drew.StreamCipher.Words

/-!
# Tables of 256 bytes

The arrays of the ciphers are written in 16 rows of 16 bytes, and those of words in rows of eight.
-/

namespace Drew.Block

/-- An array of bytes, in rows of 16. -/
abbrev Table := List (List UInt8)

namespace Table

/-- Reading outside of an array is undefined. -/
def get? (t : Table) (i : Nat) : Option UInt8 := t[i / 16]?.bind (·[i % 16]?)

/-- The entry at a byte. -/
def entry (t : Table) (x : UInt8) : UInt8 := (t.get? x.toNat).getD 0

/-- There are 16 full rows. -/
def Full (t : Table) : Prop := t.length = 16 ∧ ∀ row ∈ t, row.length = 16

instance (t : Table) : Decidable t.Full := inferInstanceAs (Decidable (_ ∧ _))

variable {t : Table}

/-- The indices of an array. -/
theorem get?_eq (h : t.Full) (i : Nat) :
    t.get? i = if i < 256 then some (t.entry (UInt8.ofNat i)) else none := by
  by_cases hi : i < 256
  · have hmod : (UInt8.ofNat i).toNat = i := UInt8.toNat_ofNat_of_lt' hi
    have hrow : i / 16 < t.length := by
      rw [h.1]
      omega
    have hlen : i % 16 < t[i / 16].length := by
      rw [h.2 _ (List.getElem_mem hrow)]
      omega
    have hget : t.get? i = some t[i / 16][i % 16] := by
      rw [get?, List.getElem?_eq_getElem hrow, Option.bind_some, List.getElem?_eq_getElem hlen]
    rw [if_pos hi, entry, hmod, hget, Option.getD_some]
  · have hrow : t.length ≤ i / 16 := by
      rw [h.1]
      omega
    rw [if_neg hi, get?, List.getElem?_eq_none hrow, Option.bind_none]

end Table

/-- An array of 256 words, in rows of 8. -/
abbrev WordTable := List (List UInt32)

namespace WordTable

/-- The entry at a byte. -/
def entry (t : WordTable) (x : UInt8) : UInt32 := (t[x.toNat / 8]?.bind (·[x.toNat % 8]?)).getD 0

end WordTable

end Drew.Block

/-!
## The bytes of a word

`GetByte` counts from the least significant byte.
-/

namespace Drew.Block

open Drew.Memory Drew.StreamCipher

/-- `GetByte`. -/
def getByte (x n : UInt32) : UInt8 := (x >>> (n * 8)).toUInt8

/-- The word of four bytes. -/
def ofBytes (b0 b1 b2 b3 : UInt8) : UInt32 :=
  b0.toUInt32 ^^^ b1.toUInt32 <<< 8 ^^^ b2.toUInt32 <<< 16 ^^^ b3.toUInt32 <<< 24

section

variable (b0 b1 b2 b3 : UInt8) (x y : UInt32)

/-- A bit of a byte of a word. -/
theorem getLsbD_getByte {n : UInt32} {m : Nat} (hn : n.toNat = m) (hm : m < 4) {i : Nat} (hi : i < 8) :
    (getByte x n).toBitVec.getLsbD i = x.toBitVec.getLsbD (8 * m + i) := by
  have hshift : ((n * 8).toBitVec % 32).toNat = 8 * m := by
    rw [BitVec.toNat_umod, UInt32.toNat_toBitVec, UInt32.toNat_mul, hn, show (8 : UInt32).toNat = 8 from rfl,
      show (32 : BitVec 32).toNat = 32 from rfl]
    omega
  rw [getByte, UInt32.toBitVec_toUInt8, BitVec.getLsbD_setWidth, UInt32.toBitVec_shiftRight,
    BitVec.ushiftRight_eq', BitVec.getLsbD_ushiftRight, hshift, decide_eq_true hi, Bool.true_and]

theorem byte_ext {a b : UInt8} (h : ∀ i < 8, a.toBitVec.getLsbD i = b.toBitVec.getLsbD i) : a = b :=
  UInt8.eq_of_toBitVec_eq (BitVec.eq_of_getLsbD_eq h)

@[simp] theorem getByte_xor (n : UInt32) : getByte (x ^^^ y) n = getByte x n ^^^ getByte y n := by
  apply byte_ext
  intro i hi
  simp [getByte, hi]

@[simp] theorem getByte_and (n : UInt32) : getByte (x &&& y) n = getByte x n &&& getByte y n := by
  apply byte_ext
  intro i hi
  simp [getByte, hi]

/-- A bit of a byte that is shifted into a word. -/
theorem getLsbD_shifted (b : UInt8) {k : UInt32} (hk : k.toNat < 32) {i : Nat} (hi : i < 32) :
    (b.toUInt32 <<< k).toBitVec.getLsbD i = (decide (k.toNat ≤ i) && b.toBitVec.getLsbD (i - k.toNat)) := by
  have hshift : (k.toBitVec % 32).toNat = k.toNat := Nat.mod_eq_of_lt hk
  have hsub : i - k.toNat < 32 := by omega
  rw [UInt32.toBitVec_shiftLeft, BitVec.shiftLeft_eq', hshift, BitVec.getLsbD_shiftLeft,
    UInt8.toBitVec_toUInt32, BitVec.getLsbD_setWidth, decide_eq_true hi, decide_eq_true hsub,
    Bool.true_and, Bool.true_and]
  by_cases h : k.toNat ≤ i
  · simp [h]
  · simp [h, Nat.lt_of_not_le h]

theorem getLsbD_byte_of_ge (b : UInt8) {i : Nat} (hi : 8 ≤ i) : b.toBitVec.getLsbD i = false :=
  BitVec.getLsbD_of_ge _ _ hi

/-- Where the bytes of a word are. -/
theorem getLsbD_ofBytes {i : Nat} (hi : i < 32) :
    (ofBytes b0 b1 b2 b3).toBitVec.getLsbD i =
      if i < 8 then b0.toBitVec.getLsbD i
      else if i < 16 then b1.toBitVec.getLsbD (i - 8)
      else if i < 24 then b2.toBitVec.getLsbD (i - 16)
      else b3.toBitVec.getLsbD (i - 24) := by
  have h0 : b0.toUInt32.toBitVec.getLsbD i = b0.toBitVec.getLsbD i := by
    rw [UInt8.toBitVec_toUInt32, BitVec.getLsbD_setWidth, decide_eq_true hi, Bool.true_and]
  rw [ofBytes, UInt32.toBitVec_xor, UInt32.toBitVec_xor, UInt32.toBitVec_xor, BitVec.getLsbD_xor,
    BitVec.getLsbD_xor, BitVec.getLsbD_xor, h0, getLsbD_shifted b1 (by decide) hi,
    getLsbD_shifted b2 (by decide) hi, getLsbD_shifted b3 (by decide) hi, show (8 : UInt32).toNat = 8 from rfl,
    show (16 : UInt32).toNat = 16 from rfl, show (24 : UInt32).toNat = 24 from rfl]
  by_cases h8 : i < 8
  · simp [h8, show ¬8 ≤ i by omega, show ¬16 ≤ i by omega, show ¬24 ≤ i by omega]
  · rw [getLsbD_byte_of_ge b0 (by omega)]
    by_cases h16 : i < 16
    · simp [h8, h16, show 8 ≤ i by omega, show ¬16 ≤ i by omega, show ¬24 ≤ i by omega]
    · rw [getLsbD_byte_of_ge b1 (by omega)]
      by_cases h24 : i < 24
      · simp [h8, h16, h24, show 16 ≤ i by omega, show ¬24 ≤ i by omega]
      · rw [getLsbD_byte_of_ge b2 (by omega)]
        simp [h8, h16, h24, show 24 ≤ i by omega]

@[simp] theorem getByte_ofBytes_zero : getByte (ofBytes b0 b1 b2 b3) 0 = b0 := by
  apply byte_ext
  intro i hi
  rw [getLsbD_getByte _ (m := 0) rfl (by decide) hi, getLsbD_ofBytes b0 b1 b2 b3 (show 8 * 0 + i < 32 by omega)]
  simp [hi]

@[simp] theorem getByte_ofBytes_one : getByte (ofBytes b0 b1 b2 b3) 1 = b1 := by
  apply byte_ext
  intro i hi
  rw [getLsbD_getByte _ (m := 1) rfl (by decide) hi, getLsbD_ofBytes b0 b1 b2 b3 (show 8 * 1 + i < 32 by omega),
    if_neg (by omega), if_pos (by omega)]
  congr 1
  omega

@[simp] theorem getByte_ofBytes_two : getByte (ofBytes b0 b1 b2 b3) 2 = b2 := by
  apply byte_ext
  intro i hi
  rw [getLsbD_getByte _ (m := 2) rfl (by decide) hi, getLsbD_ofBytes b0 b1 b2 b3 (show 8 * 2 + i < 32 by omega),
    if_neg (by omega), if_neg (by omega), if_pos (by omega)]
  congr 1
  omega

@[simp] theorem getByte_ofBytes_three : getByte (ofBytes b0 b1 b2 b3) 3 = b3 := by
  apply byte_ext
  intro i hi
  rw [getLsbD_getByte _ (m := 3) rfl (by decide) hi, getLsbD_ofBytes b0 b1 b2 b3 (show 8 * 3 + i < 32 by omega),
    if_neg (by omega), if_neg (by omega), if_neg (by omega)]
  congr 1
  omega

/-- A word is the word of its bytes. -/
theorem ofBytes_getByte :
    ofBytes (getByte x 0) (getByte x 1) (getByte x 2) (getByte x 3) = x := by
  apply UInt32.eq_of_toBitVec_eq
  apply BitVec.eq_of_getLsbD_eq
  intro i hi
  rw [getLsbD_ofBytes _ _ _ _ hi]
  by_cases h8 : i < 8
  · rw [if_pos h8, getLsbD_getByte x (m := 0) rfl (by decide) h8]
    exact congrArg _ (Nat.zero_add i)
  · rw [if_neg h8]
    by_cases h16 : i < 16
    · rw [if_pos h16, getLsbD_getByte x (m := 1) rfl (by decide) (by omega)]
      exact congrArg _ (show 8 * 1 + (i - 8) = i by omega)
    · rw [if_neg h16]
      by_cases h24 : i < 24
      · rw [if_pos h24, getLsbD_getByte x (m := 2) rfl (by decide) (by omega)]
        exact congrArg _ (show 8 * 2 + (i - 16) = i by omega)
      · rw [if_neg h24, getLsbD_getByte x (m := 3) rfl (by decide) (by omega)]
        exact congrArg _ (show 8 * 3 + (i - 24) = i by omega)

variable {x y} in
/-- Words with the same bytes. -/
theorem eq_of_getByte (h0 : getByte x 0 = getByte y 0) (h1 : getByte x 1 = getByte y 1)
    (h2 : getByte x 2 = getByte y 2) (h3 : getByte x 3 = getByte y 3) : x = y := by
  rw [← ofBytes_getByte x, ← ofBytes_getByte y, h0, h1, h2, h3]

theorem ofBytes_xor (c0 c1 c2 c3 : UInt8) :
    ofBytes b0 b1 b2 b3 ^^^ ofBytes c0 c1 c2 c3 =
      ofBytes (b0 ^^^ c0) (b1 ^^^ c1) (b2 ^^^ c2) (b3 ^^^ c3) := by
  apply eq_of_getByte <;> simp

theorem ofNat_div_pow {n : UInt32} {m : Nat} (hn : n.toNat = m) (hm : m < 4) :
    UInt8.ofNat (x.toNat / 2 ^ (8 * m)) = getByte x n := by
  have hshift : (n * 8).toNat % 32 = 8 * m := by
    rw [UInt32.toNat_mul, hn, show (8 : UInt32).toNat = 8 from rfl]
    omega
  apply UInt8.toNat_inj.mp
  rw [getByte, UInt32.toNat_toUInt8, UInt32.toNat_shiftRight, hshift, Nat.shiftRight_eq_div_pow,
    UInt8.toNat_ofNat']

/-- The bytes of a word in memory, least significant first. -/
theorem convertBytes_little :
    convertBytes word32 .little x = [getByte x 0, getByte x 1, getByte x 2, getByte x 3] := by
  have hbytes : beBytes 4 x.toNat = [UInt8.ofNat (x.toNat / 256 / 256 / 256),
      UInt8.ofNat (x.toNat / 256 / 256), UInt8.ofNat (x.toNat / 256), UInt8.ofNat x.toNat] := rfl
  rw [← ofNat_div_pow x (m := 0) rfl (by decide), ← ofNat_div_pow x (m := 1) rfl (by decide),
    ← ofNat_div_pow x (m := 2) rfl (by decide), ← ofNat_div_pow x (m := 3) rfl (by decide)]
  show (beBytes 4 x.toNat).reverse = _
  rw [hbytes]
  simp [Nat.div_div_eq_div_mul]

theorem convert_little : convert word32 .little [b0, b1, b2, b3] = ofBytes b0 b1 b2 b3 := by
  have h := convertBytes_little (ofBytes b0 b1 b2 b3)
  rw [getByte_ofBytes_zero, getByte_ofBytes_one, getByte_ofBytes_two, getByte_ofBytes_three] at h
  rw [← h, convert_convertBytes]

end

end Drew.Block
