import Drew.Block.Bytes

/-!
# The bytes of a word of 64 bits

`GetByte` counts from the least significant byte. A row of bytes is one word in which they are shifted
to their places.
-/

namespace Drew.Block

open Drew.Memory

/-- `GetByte` of a word of 64 bits. -/
def longByte (x : UInt64) (n : Nat) : UInt8 := (x >>> UInt64.ofNat (8 * n)).toUInt8

/-- A byte, shifted to its place. -/
def putByte (b : UInt8) (n : Nat) : UInt64 := b.toUInt64 <<< UInt64.ofNat (8 * n)

section

variable {x y : UInt64} {m n : Nat}

theorem shift_places (hn : n < 8) : ((UInt64.ofNat (8 * n)).toBitVec % 64).toNat = 8 * n := by
  rw [BitVec.toNat_umod, UInt64.toNat_toBitVec, UInt64.toNat_ofNat']
  show 8 * n % 2 ^ 64 % 64 = 8 * n
  omega

/-- A bit of a byte of a word. -/
theorem getLsbD_longByte (x : UInt64) (hn : n < 8) {i : Nat} (hi : i < 8) :
    (longByte x n).toBitVec.getLsbD i = x.toBitVec.getLsbD (8 * n + i) := by
  rw [longByte, UInt64.toBitVec_toUInt8, BitVec.getLsbD_setWidth, UInt64.toBitVec_shiftRight,
    BitVec.ushiftRight_eq', BitVec.getLsbD_ushiftRight, shift_places hn, decide_eq_true hi, Bool.true_and]

/-- Words with the same bytes. -/
theorem long_ext (h : ∀ n < 8, longByte x n = longByte y n) : x = y := by
  apply UInt64.eq_of_toBitVec_eq
  apply BitVec.eq_of_getLsbD_eq
  intro i hi
  have hbyte := h (i / 8) (by omega)
  have hsplit : 8 * (i / 8) + i % 8 = i := by omega
  rw [← hsplit, ← getLsbD_longByte x (by omega) (by omega), ← getLsbD_longByte y (by omega) (by omega), hbyte]

theorem longByte_xor (x y : UInt64) (hn : n < 8) : longByte (x ^^^ y) n = longByte x n ^^^ longByte y n := by
  apply byte_ext
  intro i hi
  rw [UInt8.toBitVec_xor, BitVec.getLsbD_xor, getLsbD_longByte _ hn hi, getLsbD_longByte _ hn hi,
    getLsbD_longByte _ hn hi, UInt64.toBitVec_xor, BitVec.getLsbD_xor]

theorem longByte_or (x y : UInt64) (hn : n < 8) : longByte (x ||| y) n = longByte x n ||| longByte y n := by
  apply byte_ext
  intro i hi
  rw [UInt8.toBitVec_or, BitVec.getLsbD_or, getLsbD_longByte _ hn hi, getLsbD_longByte _ hn hi,
    getLsbD_longByte _ hn hi, UInt64.toBitVec_or, BitVec.getLsbD_or]

theorem longByte_and (x y : UInt64) (hn : n < 8) : longByte (x &&& y) n = longByte x n &&& longByte y n := by
  apply byte_ext
  intro i hi
  rw [UInt8.toBitVec_and, BitVec.getLsbD_and, getLsbD_longByte _ hn hi, getLsbD_longByte _ hn hi,
    getLsbD_longByte _ hn hi, UInt64.toBitVec_and, BitVec.getLsbD_and]

@[simp] theorem longByte_zero (n : Nat) : longByte 0 n = 0 := by
  rw [longByte, UInt64.zero_shiftRight]
  rfl

theorem longByte_shiftRight (x : UInt64) (hm : m < 8) (hn : n < 8) :
    longByte (x >>> UInt64.ofNat (8 * m)) n = if n + m < 8 then longByte x (n + m) else 0 := by
  apply byte_ext
  intro i hi
  rw [getLsbD_longByte _ hn hi, UInt64.toBitVec_shiftRight, BitVec.ushiftRight_eq', BitVec.getLsbD_ushiftRight,
    shift_places hm]
  by_cases h : n + m < 8
  · rw [if_pos h, getLsbD_longByte _ h hi]
    exact congrArg _ (by omega)
  · rw [if_neg h, BitVec.getLsbD_of_ge _ _ (by omega)]
    exact BitVec.getLsbD_zero.symm

theorem longByte_shiftLeft (x : UInt64) (hm : m < 8) (hn : n < 8) :
    longByte (x <<< UInt64.ofNat (8 * m)) n = if m ≤ n then longByte x (n - m) else 0 := by
  apply byte_ext
  intro i hi
  have hlt : 8 * n + i < 64 := by omega
  rw [getLsbD_longByte _ hn hi, UInt64.toBitVec_shiftLeft, BitVec.shiftLeft_eq', BitVec.getLsbD_shiftLeft,
    shift_places hm, decide_eq_true hlt, Bool.true_and]
  by_cases h : m ≤ n
  · rw [if_pos h, decide_eq_false (show ¬8 * n + i < 8 * m by omega), getLsbD_longByte _ (by omega) hi,
      Bool.not_false, Bool.true_and]
    exact congrArg _ (by omega)
  · rw [if_neg h, decide_eq_true (show 8 * n + i < 8 * m by omega)]
    exact BitVec.getLsbD_zero.symm

theorem longByte_toUInt64 (b : UInt8) (hn : n < 8) : longByte b.toUInt64 n = if n = 0 then b else 0 := by
  apply byte_ext
  intro i hi
  have hlt : 8 * n + i < 64 := by omega
  rw [getLsbD_longByte _ hn hi, UInt8.toBitVec_toUInt64, BitVec.getLsbD_setWidth, decide_eq_true hlt,
    Bool.true_and]
  by_cases h : n = 0
  · rw [if_pos h, h]
    exact congrArg _ (by omega)
  · rw [if_neg h, getLsbD_byte_of_ge b (by omega)]
    exact BitVec.getLsbD_zero.symm

theorem longByte_putByte (b : UInt8) (hm : m < 8) (hn : n < 8) :
    longByte (putByte b m) n = if n = m then b else 0 := by
  rw [putByte, longByte_shiftLeft _ hm hn]
  by_cases h : m ≤ n
  · rw [if_pos h, longByte_toUInt64 b (by omega)]
    by_cases he : n = m
    · rw [if_pos (by omega), if_pos he]
    · rw [if_neg (by omega), if_neg he]
  · rw [if_neg h, if_neg (by omega)]

/-- A row of `k` bytes. -/
def rowOf (k : Nat) (v : Nat → UInt8) : UInt64 := (List.range k).foldl (fun r c => r ||| putByte (v c) c) 0

theorem longByte_rowOf {k : Nat} (hk : k ≤ 8) (v : Nat → UInt8) (hn : n < 8) :
    longByte (rowOf k v) n = if n < k then v n else 0 := by
  induction k with
  | zero => exact longByte_zero n
  | succ k ih =>
    rw [rowOf, List.range_succ, List.foldl_append, List.foldl_cons, List.foldl_nil, ← rowOf, longByte_or _ _ hn,
      ih (by omega), longByte_putByte _ (by omega) hn]
    rcases Nat.lt_trichotomy n k with h | h | h
    · rw [if_pos h, if_neg (by omega), if_pos (by omega), UInt8.or_zero]
    · rw [if_neg (by omega), if_pos h, if_pos (by omega), UInt8.zero_or, h]
    · rw [if_neg (by omega), if_neg (by omega), if_neg (by omega), UInt8.or_zero]

theorem ofNat_div_pow_long (x : UInt64) (hn : n < 8) : UInt8.ofNat (x.toNat / 2 ^ (8 * n)) = longByte x n := by
  have hshift : (UInt64.ofNat (8 * n)).toNat % 64 = 8 * n := by
    rw [UInt64.toNat_ofNat']
    show 8 * n % 2 ^ 64 % 64 = 8 * n
    omega
  apply UInt8.toNat_inj.mp
  rw [longByte, UInt64.toNat_toUInt8, UInt64.toNat_shiftRight, hshift, Nat.shiftRight_eq_div_pow,
    UInt8.toNat_ofNat']

/-- The bytes of a word in memory, most significant first. -/
theorem convertBytes_big_long (x : UInt64) :
    convertBytes word64 .big x = (List.range 8).map fun j => longByte x (7 - j) := by
  show beBytes 8 x.toNat = _
  apply List.ext_getElem?
  intro j
  by_cases hj : j < 8
  · rw [getElem?_beBytes 8 _ hj, List.getElem?_map, List.getElem?_range hj, show 256 = 2 ^ 8 from rfl, ← pow_mul,
      show 8 * (8 - 1 - j) = 8 * (7 - j) by omega, ofNat_div_pow_long x (by omega)]
    rfl
  · rw [List.getElem?_eq_none (by rw [length_beBytes]; omega),
      List.getElem?_eq_none (by rw [List.length_map, List.length_range]; omega)]

end

end Drew.Block
