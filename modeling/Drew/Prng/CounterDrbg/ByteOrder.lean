import Drew.Prng.CounterDrbg.Derive

/-!
# The byte order of the derivation function

A cipher that tells the bytes of the lengths from those in the opposite order, whatever the sizes of its blocks and
keys are.
-/

namespace Drew.Prng

open Drew.Memory Drew.Block Drew.Stream Drew.Mode

open Drew.Mac.Cmac (chain)

open Drew.Mode.Gcm (ByteOrder)

open HashDrbg (nativeBytes)

namespace CounterDrbg

section Column

variable {bs : Nat} (hbs : 3 < bs) (g : UInt8 → UInt8)

/-- The cipher that fills a block with a function of its fourth byte. -/
def columnCipher : BlockCipher where
  blksize := bs
  encrypt b := List.replicate bs (g (b.getD 3 0))
  decrypt b := b
  blksize_pos := Nat.zero_lt_of_lt hbs
  length_encrypt _ _ := List.length_replicate
  length_decrypt _ h := h

/-- The fourth bytes of the blocks, one after the other. -/
def column (bs : Nat) (g : UInt8 → UInt8) (data : List UInt8) : Nat → UInt8
  | 0 => 0
  | q + 1 => g (column bs g data q ^^^ data.getD (q * bs + 3) 0)

theorem chain_column (data : List UInt8) (q : Nat) (hq : q * bs ≤ data.length) :
    chain (columnCipher hbs g) data q = List.replicate bs (column bs g data q) := by
  induction q with
  | zero => rfl
  | succ q ih =>
    rw [Nat.succ_mul] at hq
    have hget : (xorBytes (List.replicate bs (column bs g data q)) ((data.drop (q * bs)).take bs)).getD 3 0 =
        column bs g data q ^^^ data.getD (q * bs + 3) 0 := by
      have h3 : q * bs + 3 < data.length := by omega
      rw [xorBytes, List.getD_eq_getElem?_getD, List.getElem?_zipWith, List.getElem?_replicate_of_lt hbs,
        List.getElem?_take_of_lt hbs, List.getElem?_drop, List.getD_eq_getElem?_getD,
        List.getElem?_eq_getElem h3]
      rfl
    rw [chain, ih (by omega)]
    show List.replicate bs (g _) = List.replicate bs (g _)
    rw [← hget]
    rfl

theorem getD_first {w text : List UInt8} (hw : w.length = 4) (k : Nat) :
    (w ++ List.replicate k 0 ++ text).getD 3 0 = w.getD 3 0 := by
  rw [List.append_assoc, List.getD_eq_getElem?_getD, List.getElem?_append_left (by omega),
    List.getD_eq_getElem?_getD]

theorem getD_later {w text : List UInt8} (hw : w.length = 4) (hbs : 3 < bs) (q : Nat) :
    (w ++ List.replicate (bs - 4) 0 ++ text).getD ((q + 1) * bs + 3) 0 = text.getD (q * bs + 3) 0 := by
  have hlen : (w ++ List.replicate (bs - 4) (0 : UInt8)).length = bs := by
    rw [List.length_append, List.length_replicate]
    omega
  rw [List.getD_eq_getElem?_getD, List.getElem?_append_right (by rw [hlen, Nat.succ_mul]; omega), hlen,
    Nat.succ_mul, show q * bs + bs + 3 - bs = q * bs + 3 by omega, List.getD_eq_getElem?_getD]

/-- A block is filled with ones if its fourth byte is 5, also when it comes after a block of ones. -/
def trigger (x : UInt8) : UInt8 := if x ∈ [5, 255, 254, 250, 127] then 255 else 0

theorem trigger_eq (x : UInt8) : trigger x = 0 ∨ trigger x = 255 := by
  unfold trigger
  split
  · exact Or.inr rfl
  · exact Or.inl rfl

/-- The text with the numbers 5 and 1. -/
abbrev fiveText (num : Nat → List UInt8) (bs : Nat) : List UInt8 := dfText num bs (List.replicate 5 0) 1

/-- A property of the first bytes and of zero is one of any byte from `j` on. -/
theorem getD_of_zeros {P : UInt8 → Prop} {xs : List UInt8} {k j : Nat} (hxs : ∀ x ∈ xs, P x) (h0 : P 0) :
    P ((xs ++ List.replicate k 0).getD j 0) := by
  rw [List.getD_eq_getElem?_getD]
  cases hj : (xs ++ List.replicate k 0)[j]? with
  | none => exact h0
  | some x =>
    rcases List.mem_append.mp (List.mem_of_getElem? hj) with hx | hx
    · exact hxs x hx
    · rw [List.eq_of_mem_replicate hx]
      exact h0

/-- If the byte 5 is the fourth one, all further blocks are ones. -/
theorem column_big {w : List UInt8} (hw : w.length = 4) (hbs : 3 < bs) (q : Nat) :
    column bs trigger (w ++ List.replicate (bs - 4) 0 ++ fiveText (beBytes 4) bs) (q + 2) = 255 := by
  obtain ⟨k, htext⟩ : ∃ k, fiveText (beBytes 4) bs =
      [0, 0, 0, 5, 0, 0, 0, 1, 0, 0, 0, 0, 0, 0x80] ++ List.replicate k 0 := ⟨_, rfl⟩
  have hstay : ∀ j, trigger (255 ^^^ (fiveText (beBytes 4) bs).getD j 0) = 255 := by
    intro j
    rw [htext]
    exact getD_of_zeros (P := fun x => trigger (255 ^^^ x) = 255) (by decide +kernel) rfl
  induction q with
  | zero =>
    have h5 : (fiveText (beBytes 4) bs).getD 3 0 = 5 := by
      rw [htext]
      rfl
    rw [column, getD_later hw hbs, Nat.zero_mul, Nat.zero_add, h5, column]
    rcases trigger_eq (column bs trigger (w ++ List.replicate (bs - 4) 0 ++ fiveText (beBytes 4) bs) 0 ^^^
      (w ++ List.replicate (bs - 4) 0 ++ fiveText (beBytes 4) bs).getD (0 * bs + 3) 0) with h | h
    · rw [h]
      decide
    · rw [h]
      decide
  | succ q ih =>
    rw [column, getD_later hw hbs, ih]
    exact hstay _

/-- If it is the first one, and the counter is small, no block is. -/
theorem column_little {i : Nat} (hi : i < 2 ^ 24) (hbs : 3 < bs) (q : Nat) :
    column bs trigger (nativeBytes .littleEndian i ++ List.replicate (bs - 4) 0 ++
      fiveText (nativeBytes .littleEndian) bs) q = 0 := by
  have hw := length_nativeBytes .littleEndian i
  obtain ⟨k, htext⟩ : ∃ k, fiveText (nativeBytes .littleEndian) bs =
      [5, 0, 0] ++ ([0, 1, 0, 0, 0, 0, 0, 0, 0, 0, 0x80] ++ List.replicate k 0) := ⟨_, rfl⟩
  have hstay : ∀ j, 3 ≤ j → trigger (0 ^^^ (fiveText (nativeBytes .littleEndian) bs).getD j 0) = 0 := by
    intro j hj
    rw [htext, List.getD_eq_getElem?_getD, List.getElem?_append_right hj, ← List.getD_eq_getElem?_getD]
    exact getD_of_zeros (P := fun x => trigger (0 ^^^ x) = 0) (by decide +kernel) rfl
  have hfirst : (nativeBytes .littleEndian i).getD 3 0 = 0 := by
    show UInt8.ofNat (i / 256 / 256 / 256) = 0
    rw [show i / 256 / 256 / 256 = 0 by omega]
    rfl
  induction q with
  | zero => rfl
  | succ q ih =>
    rw [column, ih]
    cases q with
    | zero =>
      rw [Nat.zero_mul, Nat.zero_add, getD_first hw, hfirst]
      decide
    | succ q =>
      rw [getD_later hw hbs]
      exact hstay _ (Nat.le_add_left _ _)

/-- That cipher with any key, for keys of `keylen` bytes. -/
def columnFamily (keylen : Nat) (hfits : bs + keylen ≤ ctrBufferSize) : CounterCipher where
  blksize := bs
  setkey _ := columnCipher hbs trigger
  blksize_setkey _ := rfl
  keylen := keylen
  unkeyed := columnCipher hbs trigger
  blksize_unkeyed := rfl
  fits := hfits

/-- The number of blocks of the text. -/
abbrev fiveBlocks (num : Nat → List UInt8) (bs : Nat) : Nat := (fiveText num bs).length / bs

/-- If all chaining values are blocks of `v`, so is the output. -/
theorem head_columnFamily {keylen : Nat} (hfits : bs + keylen ≤ ctrBufferSize) {num : Nat → List UInt8}
    (hnum : ∀ x, (num x).length = 4) {v : UInt8} (hg : trigger v = v)
    (hv : ∀ i < bs + keylen, column bs trigger
      (num i ++ List.replicate (bs - 4) 0 ++ fiveText num bs) (1 + fiveBlocks num bs) = v) :
    (blockCipherDfWith num (columnFamily hbs keylen hfits) (List.replicate 5 0) 1).head? = some v := by
  let f := dfBlock num (columnCipher hbs trigger) (fiveText num bs)
  have hf : ∀ i, (f i).length = bs := fun i =>
    length_dfBlock (b := columnCipher hbs trigger) hnum hbs (fiveText num bs) i
  have hlen : (firstOf f (bs + keylen)).length = bs + keylen :=
    length_firstOf hf (Nat.zero_lt_of_lt hbs) _
  have hall : ∀ x ∈ firstOf f (bs + keylen), x = v := by
    intro x hx
    obtain ⟨i, hi, hx⟩ := List.mem_flatMap.mp (List.mem_of_mem_take hx)
    have hle : fiveBlocks num bs * bs ≤ (fiveText num bs).length := Nat.div_mul_le_self _ _
    have hblock : f i = List.replicate bs (column bs trigger
        (num i ++ List.replicate (bs - 4) 0 ++ fiveText num bs) (1 + fiveBlocks num bs)) := by
      refine chain_column hbs trigger _ _ ?_
      have hdata : (num i ++ List.replicate (bs - 4) 0 ++ fiveText num bs).length =
          bs + (fiveText num bs).length := by
        rw [List.length_append, List.length_append, hnum, List.length_replicate]
        omega
      have hdiv : (1 + fiveBlocks num bs) * bs ≤ bs + (fiveText num bs).length := by
        rw [Nat.add_mul, Nat.one_mul]
        omega
      exact hdata ▸ hdiv
    rw [hblock] at hx
    rw [List.eq_of_mem_replicate hx]
    exact hv i (List.mem_range.mp hi)
  have hget : ((firstOf f (bs + keylen)).drop keylen).getD 3 0 = v := by
    have h3 : keylen + 3 < (firstOf f (bs + keylen)).length := by omega
    rw [List.getD_eq_getElem?_getD, List.getElem?_drop, List.getElem?_eq_getElem h3]
    exact hall _ (List.getElem_mem h3)
  refine head_firstOf Nat.one_pos ?_
  show (List.replicate bs (trigger (((firstOf f (bs + keylen)).drop keylen).getD 3 0))).head? = some v
  rw [hget, hg, List.head?_replicate, if_neg (by omega)]

/-- On a little-endian machine the derivation function is not that of the standard. -/
theorem blockCipherDF_little {keylen : Nat} (hfits : bs + keylen ≤ ctrBufferSize) :
    blockCipherDfWith (nativeBytes .littleEndian) (columnFamily hbs keylen hfits) (List.replicate 5 0) 1 ≠
      blockCipherDf (columnFamily hbs keylen hfits) (List.replicate 5 0) 1 := by
  have hsize : ctrBufferSize = 512 := rfl
  have hlittle := head_columnFamily hbs hfits (length_nativeBytes .littleEndian) (v := 0) (by decide)
    fun i hi => column_little (by omega) hbs _
  have hbig : (blockCipherDf (columnFamily hbs keylen hfits) (List.replicate 5 0) 1).head? = some 255 := by
    refine head_columnFamily hbs hfits (fun x => length_beBytes 4 x) (by decide) fun i hi => ?_
    have hpos : 0 < fiveBlocks (beBytes 4) bs := by
      have hdvd : (fiveText (beBytes 4) bs).length = roundUpToMultiple (4 + 4 + 1 + 5) bs :=
        length_dfText _ (fun x => length_beBytes 4 x) (by omega) _ _
      have hle := le_roundUpToMultiple (m := bs) (by omega) (4 + 4 + 1 + 5)
      rw [fiveBlocks, hdvd, roundUpToMultiple_eq, Nat.mul_div_cancel _ (by omega)]
      exact Nat.div_pos (by omega) (by omega)
    obtain ⟨q, hq⟩ : ∃ q, 1 + fiveBlocks (beBytes 4) bs = q + 2 := ⟨fiveBlocks (beBytes 4) bs - 1, by omega⟩
    rw [hq]
    exact column_big (length_beBytes 4 i) hbs q
  intro heq
  rw [heq, hbig] at hlittle
  exact absurd (Option.some.inj hlittle) (by decide)

end Column

end CounterDrbg

end Drew.Prng
