import Drew.Mode.Gcm.Field

/-!
# Multiplication in GCM, bit by bit and with a table

The model of `mul`, `gen_table_fl` and `mul_fl` of `gcm.cc`. The first one goes through the
bits of `h`, with a block as two words of 64 bits. The table has one entry for each
position of a byte in a block and each value of the byte, which is the product of that
byte in that position with `h`. Its entries are right from when they are written: those for
single bits are halved from one to the next, and every other one is the sum of two that
are there already. So the sum of the entries for the bytes of a block is the product.
-/

namespace Drew.Mode.Gcm

open Drew.Memory Drew.Block Drew.Field

/-! ## The code -/

/-- A block as `uint64_t v[2]`. -/
abbrev Words := BitVec 64 × BitVec 64

/-- `E::Copy` of 16 bytes to two words. -/
def copyToPair (buf : Buf UInt8 16) : Words :=
  (BitVec.ofNat 64 (beNat (buf.toList.take 8)), BitVec.ofNat 64 (beNat (buf.toList.drop 8)))

/-- `E::Copy` of two words to 16 bytes. -/
def copyFromPair (v : Words) : Buf UInt8 16 :=
  Buf.ofList (beBytes 8 v.1.toNat ++ beBytes 8 v.2.toNat) (by simp)

/-- Shift two words to the right and reduce. -/
def halve (v : Words) : Words :=
  let x := v.2 &&& 1
  (v.1 >>> 1 ^^^ (if x ≠ 0 then (0xe1 : BitVec 64) <<< 56 else 0), v.2 >>> 1 ||| v.1 <<< 63)

/-- The values of `j` in `for (int j = 0x80; j != 0; j >>= 1)`. -/
def masks : List UInt8 := [0x80, 0x40, 0x20, 0x10, 0x08, 0x04, 0x02, 0x01]

/-- One round of `mul` on `z` and `v`. -/
def mulStep (b : UInt8) (zv : Words × Words) (j : UInt8) : Words × Words :=
  let z := zv.1
  let v := zv.2
  let x := b &&& j
  ((z.1 ^^^ (if x ≠ 0 then v.1 else 0), z.2 ^^^ (if x ≠ 0 then v.2 else 0)), halve v)

def mul (h buf : Buf UInt8 16) : Buf UInt8 16 :=
  let zv := h.toList.foldl (fun zv b => masks.foldl (mulStep b) zv) ((0, 0), copyToPair buf)
  copyFromPair zv.1

/-- The 64 kilobytes of the table, in entries of 16 bytes. -/
abbrev Table := Buf (Buf UInt8 16) 4096

/-- `XorBuffers` and `XorAligned` on one block. -/
def xorBlock (a b : Buf UInt8 16) : Buf UInt8 16 := Vector.zipWith (· ^^^ ·) a b

def zeroBlock : Buf UInt8 16 := Vector.replicate 16 0

/-- The entries for single bits. The bytes from `(i / 8) * 256 * 16 + (1 << (11 - k))` on
are one entry. -/
def genBit (tv : Table × Words) (i : Nat) : Option (Table × Words) := do
  let k := i % 8
  let table ← tv.1.store (i / 8 * 256 + 2 ^ (7 - k)) (copyFromPair tv.2)
  return (table, halve tv.2)

/-- The entry `j + k` of row `i`. -/
def genSum (i j : Nat) (table : Table) (k : Nat) : Option Table := do
  let a ← table.load (i * 256 + j)
  let b ← table.load (i * 256 + k)
  table.store (i * 256 + (j + k)) (xorBlock a b)

/-- Row `i`, from its entries for single bits. In round `s` the source has `j = 2 ^ s`, which
goes from `2` to `0x80`. -/
def genRow (table : Table) (i : Nat) : Option Table := do
  let table ← table.store (i * 256) zeroBlock
  (List.range' 1 7).foldlM (fun table s => (List.range' 1 (2 ^ s - 1)).foldlM (genSum i (2 ^ s)) table)
    table

def genTableFl (h : Buf UInt8 16) (table : Table) : Option Table := do
  let tv ← (List.range 128).foldlM genBit (table, copyToPair h)
  (List.range 16).foldlM genRow tv.1

/-- `DREW_BYTE_ORDER`. -/
inductive ByteOrder where
  | littleEndian
  | bigEndian
  deriving DecidableEq, Repr

/-- The word that eight bytes in memory are. -/
def loadWord (e : ByteOrder) (bs : List UInt8) : BitVec 64 :=
  match e with
  | .littleEndian => BitVec.ofNat 64 (beNat bs.reverse)
  | .bigEndian => BitVec.ofNat 64 (beNat bs)

/-- The macro `RE`: which byte of a word, from the lowest. -/
def re (e : ByteOrder) (c d : Nat) : Nat :=
  match e with
  | .littleEndian => d + 4 * (c % 2)
  | .bigEndian => 7 - d - 4 * (c % 2)

/-- The macro `PTR_WORD` for a word `x`. The offset in the row is in words of the table, of
which an entry has two. -/
def ptrWord (e : ByteOrder) (x : BitVec 64) (c d : Nat) : Nat :=
  let offset :=
    (if re e c d ≠ 0 then (x >>> (re e c d * 8 - 4)) &&& 0xff0 else (x &&& 0xff) <<< 4) >>> 3
  (c * 4 + d) * 256 + offset.toNat / 2

/-- The sixteen entries are those of `c = 0, …, 3` and `d = 0, …, 3`, with the word `b = c / 2`. -/
def mulFl (e : ByteOrder) (table : Table) (buf : Buf UInt8 16) : Option (Buf UInt8 16) :=
  (List.range 16).foldlM (fun a i => do
    let c := i / 4
    let d := i % 4
    let b := c / 2
    let entry ← table.load (ptrWord e (loadWord e ((buf.toList.drop (8 * b)).take 8)) c d)
    return xorBlock a entry) zeroBlock

/-! ## Words -/

/-- The bits of two words. -/
def join (v : Words) : BitVec 128 := v.1 ++ v.2

theorem toList_copyFromPair (v : Words) :
    (copyFromPair v).toList = beBytes 8 v.1.toNat ++ beBytes 8 v.2.toNat := by
  simp [copyFromPair, Buf.ofList]

theorem ofBytes_copyFromPair (v : Words) : ofBytes (copyFromPair v).toList = join v := by
  apply BitVec.eq_of_toNat_eq
  have h1 := v.1.isLt
  have h2 := v.2.isLt
  rw [toNat_ofBytes (by simp), toList_copyFromPair, beNat_append, beNat_beBytes, beNat_beBytes,
    length_beBytes, join, BitVec.toNat_append, ← Nat.shiftLeft_add_eq_or_of_lt h2,
    Nat.shiftLeft_eq, Nat.mod_eq_of_lt (by omega), Nat.mod_eq_of_lt (by omega)]
  norm_num

theorem join_copyToPair (buf : Buf UInt8 16) : join (copyToPair buf) = ofBytes buf.toList := by
  apply BitVec.eq_of_toNat_eq
  have hl := beNat_lt (buf.toList.take 8)
  have hr := beNat_lt (buf.toList.drop 8)
  have hsplit := beNat_append (buf.toList.take 8) (buf.toList.drop 8)
  simp only [List.length_take, List.length_drop, Vector.length_toList] at hl hr hsplit
  rw [List.take_append_drop] at hsplit
  norm_num at hl hr hsplit
  rw [toNat_ofBytes (by simp), hsplit, join, BitVec.toNat_append, copyToPair]
  simp only [BitVec.toNat_ofNat]
  rw [Nat.mod_eq_of_lt (by omega), Nat.mod_eq_of_lt (by omega),
    ← Nat.shiftLeft_add_eq_or_of_lt (by omega), Nat.shiftLeft_eq]

theorem and_one_ne_zero (w : BitVec 64) : w &&& 1 ≠ 0 ↔ w.getLsbD 0 = true := by
  rw [show (1 : BitVec 64) = BitVec.twoPow 64 0 by decide, BitVec.and_twoPow]
  cases w.getLsbD 0 with
  | false => simp
  | true => simp; decide

theorem join_shift (v : Words) : join (v.1 >>> 1, v.2 >>> 1 ||| v.1 <<< 63) = join v >>> 1 := by
  apply BitVec.eq_of_getLsbD_eq
  intro i hi
  simp only [join, BitVec.getLsbD_append, BitVec.getLsbD_ushiftRight, BitVec.getLsbD_or,
    BitVec.getLsbD_shiftLeft]
  by_cases h63 : i < 63
  · simp [h63, show i < 64 by omega, show 1 + i < 64 by omega]
  · by_cases h64 : i = 63
    · subst h64
      simp
    · simp [show ¬i < 64 by omega, show ¬1 + i < 64 by omega, show 1 + (i - 64) = 1 + i - 64 by omega]

theorem join_xor (u v : Words) : join (u.1 ^^^ v.1, u.2 ^^^ v.2) = join u ^^^ join v :=
  BitVec.xor_append.symm

/-- Halving is multiplication by the variable. -/
theorem join_halve (v : Words) : join (halve v) = timesRoot reducer (join v) := by
  have hred : reducer = join ((0xe1 : BitVec 64) <<< 56, 0) := rfl
  have hbit : (join v).getLsbD 0 = v.2.getLsbD 0 := by
    rw [join, BitVec.getLsbD_append]
    rfl
  rw [timesRoot, hbit, ← join_shift, halve]
  by_cases h : v.2.getLsbD 0 = true
  · have hne := (and_one_ne_zero v.2).mpr h
    simp only [if_pos h, if_pos hne]
    rw [hred, ← join_xor]
    simp
  · have heq := mt (and_one_ne_zero v.2).mp h
    simp only [if_neg h, if_neg heq]
    simp

/-! ## The bits of a block -/

/-- The bits of a byte, the most significant one first. -/
def byteBits (b : UInt8) : List Bool := (List.range 8).map b.toBitVec.getMsbD

theorem flatMap_byteBits (bs : List UInt8) :
    bs.flatMap byteBits =
      (List.range (8 * bs.length)).map fun i => ((bs[i / 8]?).getD 0).toBitVec.getMsbD (i % 8) := by
  induction bs with
  | nil => rfl
  | cons b bs ih =>
    rw [List.flatMap_cons, ih, List.length_cons, Nat.mul_add, Nat.mul_one, Nat.add_comm,
      List.range_add, List.map_append, List.map_map]
    -- The first eight bits are those of the first byte by evaluation.
    congr 1
    apply List.map_congr_left
    intro i _
    simp only [Function.comp_apply]
    rw [Nat.add_div_left i (by omega), Nat.add_mod_left, List.getElem?_cons_succ]

theorem bits_eq {bs : List UInt8} (h : bs.length = 16) :
    bs.flatMap byteBits = (List.range 128).map (ofBytes bs).getMsbD := by
  rw [flatMap_byteBits, h]
  apply List.map_congr_left
  intro i hi
  have hi' : i / 8 < bs.length := by
    have := List.mem_range.mp hi
    omega
  rw [getMsbD_ofBytes h i hi', List.getElem?_eq_getElem hi']
  rfl

/-! ## The bitwise product -/

/-- A round, given the bit that it tests. -/
def bitRound (zv : Words × Words) (bit : Bool) : Words × Words :=
  ((zv.1.1 ^^^ (if bit then zv.2.1 else 0), zv.1.2 ^^^ (if bit then zv.2.2 else 0)), halve zv.2)

theorem and_mask (b : UInt8) (k : Nat) (hk : k < 8) :
    b &&& UInt8.ofBitVec (0x80#8 >>> k) ≠ 0 ↔ b.toBitVec.getMsbD k = true := by
  have hbits : ∀ v : BitVec 8, ∀ k < 8, v &&& 0x80#8 >>> k ≠ 0 ↔ v.getMsbD k = true := by decide
  rw [← hbits b.toBitVec k hk, ne_eq, ← UInt8.toBitVec_inj]
  rfl

theorem foldl_masks (b : UInt8) (zv : Words × Words) :
    masks.foldl (mulStep b) zv = (byteBits b).foldl bitRound zv := by
  have hmasks : masks = (List.range 8).map fun k => UInt8.ofBitVec (0x80#8 >>> k) := by decide
  rw [hmasks, byteBits, List.foldl_map, List.foldl_map]
  apply List.foldl_ext
  intro zv k hk
  have hbit := and_mask b k (List.mem_range.mp hk)
  simp only [mulStep, bitRound, hbit]

/-- The two blocks of a round. -/
def joinBoth (zv : Words × Words) : BitVec 128 × BitVec 128 := (join zv.1, join zv.2)

theorem joinBoth_bitRound (h : BitVec 128) (zv : Words × Words) (i : Nat) :
    mulRound reducer h (joinBoth zv) i = joinBoth (bitRound zv (h.getMsbD i)) := by
  cases hbit : h.getMsbD i with
  | false => simp [mulRound, joinBoth, bitRound, hbit, join_halve]
  | true => simp [mulRound, joinBoth, bitRound, hbit, join_halve, join_xor]

/-- The routine adds up shifted copies of `buf` at the bits of `h`. -/
theorem ofBytes_mul (h buf : Buf UInt8 16) :
    ofBytes (mul h buf).toList = product (ofBytes buf.toList) (ofBytes h.toList) := by
  have hfold : h.toList.foldl (fun zv b => masks.foldl (mulStep b) zv) ((0, 0), copyToPair buf) =
      (List.range 128).foldl (fun zv i => bitRound zv ((ofBytes h.toList).getMsbD i))
        ((0, 0), copyToPair buf) := by
    simp only [foldl_masks]
    rw [← List.foldl_flatMap, bits_eq (by simp), List.foldl_map]
  have hinit : (0#128, ofBytes buf.toList) = joinBoth ((0, 0), copyToPair buf) := by
    have hzero : join (0, 0) = 0#128 := by decide
    rw [joinBoth, join_copyToPair, hzero]
  rw [mul, ofBytes_copyFromPair, hfold, product_comm, product, shiftMul, hinit,
    List.foldl_hom joinBoth (joinBoth_bitRound (ofBytes h.toList))]
  rfl

/-! ## Entries of the table -/

/-- The byte `b` in position `r` of a block, zero elsewhere. -/
def rowBits (r b : Nat) : BitVec 128 := BitVec.ofNat 128 b <<< (8 * (15 - r))

theorem getMsbD_rowBits {r b : Nat} (hr : r < 16) (hb : b < 256) {i : Nat} (hi : i < 128) :
    (rowBits r b).getMsbD i = (decide (i / 8 = r) && b.testBit (7 - i % 8)) := by
  rw [BitVec.getMsbD_eq_getLsbD, rowBits, BitVec.getLsbD_shiftLeft, BitVec.getLsbD_ofNat]
  simp only [hi, show 128 - 1 - i < 128 by omega, decide_true, Bool.true_and]
  by_cases hlt : 128 - 1 - i < 8 * (15 - r)
  · simp [hlt, show ¬i / 8 = r by omega]
  · by_cases hrow : i / 8 = r
    · simp [hlt, hrow, show 128 - 1 - i - 8 * (15 - r) = 7 - i % 8 by omega, show 7 - i % 8 < 128 by omega]
    · have h8 : 8 ≤ 128 - 1 - i - 8 * (15 - r) := by omega
      have hge : b < 2 ^ (128 - 1 - i - 8 * (15 - r)) :=
        lt_of_lt_of_le hb (Nat.pow_le_pow_right Nat.two_pos h8)
      simp [hrow, Nat.testBit_lt_two_pow hge]

theorem rowBits_zero (r : Nat) : rowBits r 0 = 0#128 := by simp [rowBits]

theorem rowBits_xor (r j k : Nat) : rowBits r (j ^^^ k) = rowBits r j ^^^ rowBits r k := by
  rw [rowBits, BitVec.ofNat_xor, BitVec.shiftLeft_xor_distrib]
  rfl

/-- Where the entry for a single bit is. -/
def bitEntry (i : Nat) : Nat := i / 8 * 256 + 2 ^ (7 - i % 8)

theorem two_pow_lt (i : Nat) : 2 ^ (7 - i % 8) < 256 := by
  have h : 2 ^ (7 - i % 8) < 2 ^ 8 := Nat.pow_lt_pow_right (by omega) (by omega)
  exact h

theorem rowBits_single {i : Nat} (hi : i < 128) :
    rowBits (i / 8) (2 ^ (7 - i % 8)) = BitVec.twoPow 128 (127 - i) := by
  apply BitVec.eq_of_getMsbD_eq
  intro k hk
  rw [getMsbD_rowBits (by omega) (two_pow_lt i) hk, Nat.testBit_two_pow,
    BitVec.getMsbD_eq_getLsbD, BitVec.getLsbD_twoPow]
  simp only [hk, show 127 - i < 128 by omega, decide_true, Bool.true_and, ← Bool.decide_and]
  congr 1
  apply propext
  omega

/-- The block that entry `e` is meant to be. -/
def entryVal (H : BitVec 128) (e : Nat) : BitVec 128 := product (rowBits (e / 256) (e % 256)) H

theorem entryVal_row (H : BitVec 128) (r : Nat) {b : Nat} (hb : b < 256) :
    entryVal H (r * 256 + b) = product (rowBits r b) H := by
  rw [entryVal, Nat.add_comm, Nat.add_mul_div_right _ _ (by omega), Nat.div_eq_of_lt hb,
    Nat.add_mul_mod_self_right, Nat.mod_eq_of_lt hb, Nat.zero_add]

theorem entryVal_bitEntry (H : BitVec 128) {i : Nat} (hi : i < 128) :
    entryVal H (bitEntry i) = (timesRoot reducer)^[i] H := by
  rw [bitEntry, entryVal_row H _ (two_pow_lt i), rowBits_single hi, product_twoPow hi]

theorem two_pow_add_eq_xor {s k : Nat} (hk : k < 2 ^ s) : 2 ^ s + k = 2 ^ s ^^^ k := by
  apply Nat.eq_of_testBit_eq
  intro i
  have hadd := Nat.testBit_two_pow_mul_add 1 hk i
  rw [Nat.mul_one] at hadd
  rw [hadd, Nat.testBit_xor, Nat.testBit_two_pow]
  by_cases hi : i < s
  · simp [hi, show s ≠ i by omega]
  · have hbit : k.testBit i = false :=
      Nat.testBit_lt_two_pow (lt_of_lt_of_le hk (Nat.pow_le_pow_right (by omega) (by omega)))
    rw [if_neg hi, hbit, Bool.xor_false, Bool.eq_iff_iff, Nat.testBit_one_eq_true_iff_self_eq_zero,
      decide_eq_true_iff]
    omega

/-! ## The table is the one for `h` -/

section Table

variable {H : BitVec 128} {t : Table}

/-- Entry `e` is what it is meant to be. -/
def Right (H : BitVec 128) (t : Table) (e : Nat) : Prop :=
  ∃ b, t.load e = some b ∧ ofBytes b.toList = entryVal H e

/-- The entries before `n` are right, and those for single bits. -/
def Upto (H : BitVec 128) (n : Nat) (t : Table) : Prop :=
  (∀ e < n, Right H t e) ∧ ∀ i < 128, Right H t (bitEntry i)

/-- Storing what is meant to be there spoils no entry. -/
theorem exists_store {e : Nat} {b : Buf UInt8 16} (he : e < 4096)
    (hb : ofBytes b.toList = entryVal H e) :
    ∃ t', t.store e b = some t' ∧ ∀ e', Right H t e' ∨ e' = e → Right H t' e' := by
  refine ⟨t.set e b he, Buf.store_of_lt t b he, ?_⟩
  intro e' h
  by_cases hee : e' = e
  · subst hee
    exact ⟨b, by simp [Buf.load, he], hb⟩
  · obtain ⟨b', hload, hb'⟩ := h.resolve_right hee
    refine ⟨b', ?_, hb'⟩
    rw [← hload, Buf.load, Buf.load, Vector.getElem?_set_ne]
    omega

theorem Upto.store {n : Nat} {b : Buf UInt8 16} (h : Upto H n t) (hn : n < 4096)
    (hb : ofBytes b.toList = entryVal H n) : ∃ t', t.store n b = some t' ∧ Upto H (n + 1) t' := by
  obtain ⟨t', hstore, hright⟩ := exists_store (t := t) hn hb
  refine ⟨t', hstore, ?_, ?_⟩
  · intro e he
    apply hright
    by_cases hen : e = n
    · exact Or.inr hen
    · exact Or.inl (h.1 e (by omega))
  · intro i hi
    exact hright _ (Or.inl (h.2 i hi))

/-- The next entry is there already if it is one for a single bit. -/
theorem Upto.succ {i : Nat} (h : Upto H (bitEntry i) t) (hi : i < 128) : Upto H (bitEntry i + 1) t := by
  refine ⟨?_, h.2⟩
  intro e he
  by_cases hei : e = bitEntry i
  · rw [hei]
    exact h.2 i hi
  · exact h.1 e (by omega)

theorem toList_xorBlock (a b : Buf UInt8 16) : (xorBlock a b).toList = xorBytes a.toList b.toList := by
  simp [xorBlock, xorBytes, Vector.toList_zipWith]

theorem ofBytes_xorBlock (a b : Buf UInt8 16) :
    ofBytes (xorBlock a b).toList = ofBytes a.toList ^^^ ofBytes b.toList := by
  rw [toList_xorBlock, ofBytes_xorBytes (by simp) (by simp)]

/-- The first loop. -/
theorem genBits_spec (h : Buf UInt8 16) (t : Table) :
    ∃ t' v, (List.range 128).foldlM genBit (t, copyToPair h) = some (t', v) ∧
      Upto (ofBytes h.toList) 0 t' := by
  obtain ⟨⟨t', v⟩, hrun, -, hbits⟩ := foldlM_range (f := genBit)
    (fun i tv => join tv.2 = (timesRoot reducer)^[i] (ofBytes h.toList) ∧
      ∀ k < i, Right (ofBytes h.toList) tv.1 (bitEntry k))
    128 (t, copyToPair h) ⟨join_copyToPair h, fun k hk => absurd hk (Nat.not_lt_zero k)⟩ (by
      intro i hi tv htv
      obtain ⟨hv, hbits⟩ := htv
      have hlt : bitEntry i < 4096 := by
        have := two_pow_lt i
        unfold bitEntry
        omega
      obtain ⟨t', hstore, hright⟩ := exists_store (t := tv.1) (b := copyFromPair tv.2) hlt
        (by rw [ofBytes_copyFromPair, hv, entryVal_bitEntry _ hi])
      refine ⟨(t', halve tv.2), ?_, ?_, ?_⟩
      · have hstore' : tv.1.store (i / 8 * 256 + 2 ^ (7 - i % 8)) (copyFromPair tv.2) = some t' :=
          hstore
        simp [genBit, hstore']
      · rw [Function.iterate_succ_apply', ← hv, join_halve]
      · intro k hk
        apply hright
        by_cases hki : k = i
        · exact Or.inr (by rw [hki])
        · exact Or.inl (hbits k (by omega)))
  exact ⟨t', v, hrun, fun e he => absurd he (Nat.not_lt_zero e), hbits⟩

/-- An entry from two others: that of a single bit and that of lower bits. -/
theorem genSum_spec {i s k : Nat} (hi : i < 16) (hs : s < 8) (hk0 : 0 < k) (hk : k < 2 ^ s)
    (h : Upto H (i * 256 + (2 ^ s + k)) t) :
    ∃ t', genSum i (2 ^ s) t k = some t' ∧ Upto H (i * 256 + (2 ^ s + (k + 1))) t' := by
  have h128 : 2 ^ s ≤ 2 ^ 7 := Nat.pow_le_pow_right (by omega) (by omega)
  obtain ⟨a, ha, hav⟩ := h.1 (i * 256 + 2 ^ s) (by omega)
  obtain ⟨b, hb, hbv⟩ := h.1 (i * 256 + k) (by omega)
  obtain ⟨t', hstore, hup⟩ := h.store (b := xorBlock a b) (by omega) (by
    rw [ofBytes_xorBlock, hav, hbv, entryVal_row _ _ (by omega), entryVal_row _ _ (by omega),
      entryVal_row _ _ (by omega), two_pow_add_eq_xor hk, rowBits_xor, product_xor])
  refine ⟨t', by simp [genSum, ha, hb, hstore], ?_⟩
  rwa [Nat.add_assoc, Nat.add_assoc] at hup

theorem ofBytes_zeroBlock : ofBytes zeroBlock.toList = 0#128 := by decide +kernel

/-- A row, from the entries before it and those for single bits. -/
theorem genRow_spec {i : Nat} (hi : i < 16) (h : Upto H (i * 256) t) :
    ∃ t', genRow t i = some t' ∧ Upto H ((i + 1) * 256) t' := by
  have hzero : ofBytes zeroBlock.toList = entryVal H (i * 256) := by
    have hrow := entryVal_row H i (b := 0) (by omega)
    rw [Nat.add_zero, rowBits_zero, product_zero] at hrow
    rw [hrow, ofBytes_zeroBlock]
  obtain ⟨t₁, hstore, h₁⟩ := h.store (by omega) hzero
  -- Entry `1` of the row is there, and every round doubles what is.
  have hbit : ∀ s < 8, i * 256 + 2 ^ s = bitEntry (8 * i + 7 - s) := by
    intro s hs
    unfold bitEntry
    rw [show (8 * i + 7 - s) / 8 = i by omega, show 7 - (8 * i + 7 - s) % 8 = s by omega]
  have hnext : ∀ s < 8, ∀ t, Upto H (i * 256 + 2 ^ s) t → Upto H (i * 256 + (2 ^ s + 1)) t := by
    intro s hs t ht
    rw [hbit s hs] at ht
    rw [← Nat.add_assoc, hbit s hs]
    exact ht.succ (by omega)
  have hrow : ∀ s, 1 ≤ s → s < 1 + 7 → ∀ t, Upto H (i * 256 + 2 ^ s) t →
      ∃ t', (List.range' 1 (2 ^ s - 1)).foldlM (genSum i (2 ^ s)) t = some t' ∧
        Upto H (i * 256 + 2 ^ (s + 1)) t' := by
    intro s _ hs t ht
    obtain ⟨t', hrun, ht'⟩ := foldlM_range' (fun k => Upto H (i * 256 + (2 ^ s + k))) 1 (2 ^ s - 1) t
      (hnext s hs t ht) (fun k hk0 hk t ht => genSum_spec hi hs hk0 (by omega) ht)
    refine ⟨t', hrun, ?_⟩
    rwa [Nat.add_sub_cancel' (Nat.two_pow_pos s), ← Nat.two_mul, ← pow_succ'] at ht'
  have hfirst : Upto H (i * 256 + 2 ^ 1) t₁ := by
    rw [pow_one]
    exact hnext 0 (by omega) t₁ h₁
  obtain ⟨t', hrun, h'⟩ := foldlM_range' (fun s => Upto H (i * 256 + 2 ^ s)) 1 7 t₁ hfirst hrow
  refine ⟨t', ?_, ?_⟩
  · rw [genRow, hstore]
    exact hrun
  · simpa [Nat.add_mul] using h'

/-- All the entries are right. -/
theorem genTableFl_spec (h : Buf UInt8 16) (t : Table) :
    ∃ t', genTableFl h t = some t' ∧ ∀ e < 4096, Right (ofBytes h.toList) t' e := by
  obtain ⟨t₁, v, hbits, h₁⟩ := genBits_spec h t
  obtain ⟨t', hrows, h'⟩ := foldlM_range (f := genRow)
    (fun i => Upto (ofBytes h.toList) (i * 256)) 16 t₁ (by simpa using h₁)
    (fun i hi t ht => genRow_spec hi ht)
  refine ⟨t', ?_, h'.1⟩
  rw [genTableFl, hbits, Option.bind_eq_bind, Option.bind_some, hrows]

end Table

/-! ## The product with the table -/

/-- A byte of a number in memory. -/
theorem beNat_byte (bs : List UInt8) (q : Nat) (hq : q < bs.length) :
    beNat bs / 256 ^ (bs.length - 1 - q) % 256 = bs[q].toNat := by
  apply Nat.eq_of_testBit_eq
  intro r
  rw [show (256 : Nat) = 2 ^ 8 from rfl, ← pow_mul, Nat.testBit_mod_two_pow, Nat.testBit_div_two_pow]
  by_cases hr : r < 8
  · simp only [hr, decide_true, Bool.true_and]
    rw [Nat.add_comm, testBit_beNat bs q hq r hr]
  · have hlt : bs[q].toNat < 2 ^ r :=
      lt_of_lt_of_le bs[q].toNat_lt (Nat.pow_le_pow_right (by omega) (by omega : 8 ≤ r))
    simp [hr, Nat.testBit_lt_two_pow hlt]

/-- On both kinds of machines `RE` selects the byte that has the position in memory. -/
theorem loadWord_byte (e : ByteOrder) {bs : List UInt8} (h : bs.length = 8) (c d : Nat) (hd : d < 4)
    (hlt : d + 4 * (c % 2) < bs.length) :
    (loadWord e bs).toNat / 256 ^ re e c d % 256 = bs[d + 4 * (c % 2)].toNat := by
  have hval : ∀ bs : List UInt8, bs.length = 8 → (BitVec.ofNat 64 (beNat bs)).toNat = beNat bs := by
    intro bs h
    have hb := beNat_lt bs
    rw [h] at hb
    rw [BitVec.toNat_ofNat]
    exact Nat.mod_eq_of_lt hb
  cases e with
  | littleEndian =>
    have hrev : bs.reverse.length = 8 := by simp [h]
    have hbyte := beNat_byte bs.reverse (7 - (d + 4 * (c % 2))) (by omega)
    have hidx : bs.length - 1 - (7 - (d + 4 * (c % 2))) = d + 4 * (c % 2) := by omega
    simp only [List.getElem_reverse, List.length_reverse, hidx] at hbyte
    rw [loadWord, hval _ hrev, re]
    exact hbyte
  | bigEndian =>
    have hbyte := beNat_byte bs (d + 4 * (c % 2)) hlt
    rw [loadWord, hval _ h, re, ← hbyte, h]
    congr 3
    omega

/-- The offset in a row is that of the byte's entry. -/
theorem offset_spec (x : BitVec 64) (r : Nat) :
    ((if r ≠ 0 then (x >>> (r * 8 - 4)) &&& 0xff0 else (x &&& 0xff) <<< 4) >>> 3).toNat / 2 =
      x.toNat / 256 ^ r % 256 := by
  have hdiv : ∀ y : Nat, (y &&& 0xff0) >>> 3 / 2 = y / 2 ^ 4 % 256 := by
    intro y
    rw [← Nat.shiftRight_one, ← Nat.shiftRight_add, Nat.shiftRight_and_distrib,
      Nat.shiftRight_eq_div_pow]
    exact Nat.and_two_pow_sub_one_eq_mod _ 8
  cases r with
  | zero =>
    have hlt : x.toNat &&& 0xff < 256 := Nat.lt_succ_of_le Nat.and_le_right
    have hmod : x.toNat &&& 0xff = x.toNat % 256 := Nat.and_two_pow_sub_one_eq_mod _ 8
    have hmask : (0xff : BitVec 64).toNat = 0xff := rfl
    simp only [ne_eq, not_true_eq_false, if_false, BitVec.toNat_ushiftRight, BitVec.toNat_shiftLeft,
      BitVec.toNat_and, hmask, Nat.shiftLeft_eq, Nat.shiftRight_eq_div_pow]
    norm_num
    omega
  | succ r =>
    have hpow : (256 : Nat) ^ (r + 1) = 2 ^ ((r + 1) * 8 - 4 + 4) := by
      rw [show (256 : Nat) = 2 ^ 8 from rfl, ← pow_mul]
      congr 1
      omega
    simp only [ne_eq, Nat.succ_ne_zero, not_false_eq_true, if_true, BitVec.toNat_ushiftRight,
      BitVec.toNat_and]
    rw [hpow, pow_add, ← Nat.div_div_eq_div_mul, ← hdiv, Nat.shiftRight_eq_div_pow x.toNat]
    rfl

/-- The pointer is to the entry of the row for the position, and the byte there. -/
theorem ptrWord_spec (e : ByteOrder) (buf : Buf UInt8 16) (i : Nat) (hi : i < 16) :
    ptrWord e (loadWord e ((buf.toList.drop (8 * (i / 4 / 2))).take 8)) (i / 4) (i % 4) =
      i * 256 + buf[i].toNat := by
  have hlen : ((buf.toList.drop (8 * (i / 4 / 2))).take 8).length = 8 := by simp; omega
  have hbyte := loadWord_byte e hlen (i / 4) (i % 4) (by omega) (by omega)
  have hidx : 8 * (i / 4 / 2) + (i % 4 + 4 * (i / 4 % 2)) = i := by omega
  simp only [List.getElem_take, List.getElem_drop, hidx, Vector.getElem_toList] at hbyte
  rw [ptrWord, offset_spec, hbyte, show i / 4 * 4 + i % 4 = i by omega]

theorem testBit_toNat_block (buf : Buf UInt8 16) (i : Nat) (hi : i < 128) :
    buf[i / 8].toNat.testBit (7 - i % 8) = (ofBytes buf.toList).getMsbD i := by
  rw [getMsbD_ofBytes (by simp) i (by simp; omega), BitVec.getMsbD_eq_getLsbD]
  simp only [show i % 8 < 8 by omega, decide_true, Bool.true_and, Vector.getElem_toList]
  exact BitVec.testBit_toNat _

/-- The sum of the entries for the bytes of a block is the product. -/
theorem ofBytes_mulFl (e : ByteOrder) {H : BitVec 128} {t : Table} (ht : ∀ e < 4096, Right H t e)
    (buf : Buf UInt8 16) :
    ∃ out, mulFl e t buf = some out ∧ ofBytes out.toList = product (ofBytes buf.toList) H := by
  -- After `m` rounds the first `m` bytes are multiplied.
  obtain ⟨out, hrun, u, hout, hu⟩ := foldlM_range
    (f := fun a i => do
      let c := i / 4
      let d := i % 4
      let b := c / 2
      let entry ← t.load (ptrWord e (loadWord e ((buf.toList.drop (8 * b)).take 8)) c d)
      return xorBlock a entry)
    (fun m a => ∃ u, ofBytes a.toList = product u H ∧
      ∀ i < 128, u.getMsbD i = (decide (i / 8 < m) && (ofBytes buf.toList).getMsbD i))
    16 zeroBlock ⟨0#128, by rw [product_zero, ofBytes_zeroBlock], by simp⟩ (by
      rintro m hm a ⟨u, ha, hu⟩
      have hlt := buf[m].toNat_lt
      obtain ⟨b, hload, hb⟩ := ht (m * 256 + buf[m].toNat) (by omega)
      refine ⟨xorBlock a b, ?_, u ^^^ rowBits m buf[m].toNat, ?_, ?_⟩
      · simp only [ptrWord_spec e buf m hm, hload, Option.bind_eq_bind, Option.bind_some, pure]
      · rw [ofBytes_xorBlock, ha, hb, entryVal_row H m hlt, product_xor]
      · intro i hi
        rw [BitVec.getMsbD_xor, hu i hi, getMsbD_rowBits hm hlt hi]
        by_cases him : i / 8 = m
        · subst him
          simp [testBit_toNat_block buf i hi]
        · have hiff : i / 8 < m + 1 ↔ i / 8 < m := by omega
          simp [him, hiff])
  have hall : u = ofBytes buf.toList := by
    apply BitVec.eq_of_getMsbD_eq
    intro i hi
    rw [hu i hi]
    simp [show i / 8 < 16 by omega]
  exact ⟨out, hrun, by rw [hout, hall]⟩

end Drew.Mode.Gcm
