import Drew.Block.Aria.Inverse

/-!
# The key schedules of ARIA

`ARIABytewise` rotates arrays of bytes, with the bits that cross from one byte to the next, and
`ARIA128` rotates words of 128 bits. With the bytes of the words, the two schedules do the same.
-/

namespace Drew.Aria

open Drew.Memory Drew.Block Drew.Aria.Words

/-! ## The bytes of a word -/

theorem get_bytes (w : Word) (i : Fin 16) :
    (bytes w).get i = UInt8.ofBitVec (w.extractLsb' (8 * (15 - i)) 8) :=
  Vector.getElem_ofFn i.isLt

theorem getLsbD_bytes (w : Word) (i : Fin 16) {j : Nat} (hj : j < 8) :
    ((bytes w).get i).toBitVec.getLsbD j = w.getLsbD (8 * (15 - i) + j) := by
  rw [get_bytes]
  show (w.extractLsb' (8 * (15 - i)) 8).getLsbD j = _
  rw [BitVec.getLsbD_extractLsb', decide_eq_true hj, Bool.true_and]

theorem block_ext_bits {x y : Block}
    (h : ∀ i : Fin 16, ∀ j < 8, (x.get i).toBitVec.getLsbD j = (y.get i).toBitVec.getLsbD j) : x = y :=
  block_ext fun i => UInt8.eq_of_toBitVec_eq (BitVec.eq_of_getLsbD_eq (h i))

theorem bytes_xor (v w : Word) : bytes (v ^^^ w) = xorBlock (bytes v) (bytes w) := by
  apply block_ext
  intro i
  rw [get_xorBlock, get_bytes, get_bytes, get_bytes, BitVec.extractLsb'_xor]
  rfl

theorem bytes_word (b : Block) : bytes (word b) = b := by
  apply block_ext
  intro i
  have hlen : b.toList.length = 16 := Vector.length_toList
  have hlt : beNat b.toList < 2 ^ 128 := by
    have h := beNat_lt b.toList
    rw [hlen] at h
    exact h
  have hbytes : beBytes 16 (beNat b.toList) = b.toList := by
    have h := beBytes_beNat b.toList
    rwa [hlen] at h
  have hget := getElem?_beBytes 16 (beNat b.toList) i.isLt
  rw [hbytes] at hget
  have hb : b.toList[i.val]? = some (b.get i) := by
    rw [List.getElem?_eq_getElem (by rw [hlen]; exact i.isLt), Vector.getElem_toList]
    rfl
  rw [hb] at hget
  rw [Option.some.inj hget, get_bytes, word]
  apply UInt8.toNat_inj.mp
  show (BitVec.extractLsb' _ 8 _).toNat = _
  rw [BitVec.extractLsb'_toNat, BitVec.toNat_ofNat, Nat.mod_eq_of_lt hlt, UInt8.toNat_ofNat',
    Nat.shiftRight_eq_div_pow, pow_mul]
  rfl

/-! ## Rotations -/

theorem getLsbD_byte_shiftRight (x : UInt8) {n : Nat} (hn : n < 8) (j : Nat) :
    (x >>> UInt8.ofNat n).toBitVec.getLsbD j = x.toBitVec.getLsbD (n + j) := by
  have hshift : ((UInt8.ofNat n).toBitVec % 8).toNat = n := by
    rw [BitVec.toNat_umod, UInt8.toNat_toBitVec, UInt8.toNat_ofNat']
    show n % 256 % 8 = n
    omega
  rw [UInt8.toBitVec_shiftRight, BitVec.ushiftRight_eq', hshift, BitVec.getLsbD_ushiftRight]

theorem getLsbD_byte_shiftLeft (x : UInt8) {n : Nat} (h0 : 0 < n) (hn : n < 8) {j : Nat} (hj : j < 8) :
    (x <<< (8 - UInt8.ofNat n)).toBitVec.getLsbD j =
      (decide (8 - n ≤ j) && x.toBitVec.getLsbD (j - (8 - n))) := by
  have hle : UInt8.ofNat n ≤ 8 := by
    rw [UInt8.le_iff_toNat_le, UInt8.toNat_ofNat']
    show n % 256 ≤ 8
    omega
  have hshift : ((8 - UInt8.ofNat n).toBitVec % 8).toNat = 8 - n := by
    rw [BitVec.toNat_umod, UInt8.toNat_toBitVec, UInt8.toNat_sub_of_le _ _ hle, UInt8.toNat_ofNat']
    show (8 - n % 256) % 8 = 8 - n
    omega
  rw [UInt8.toBitVec_shiftLeft, BitVec.shiftLeft_eq', hshift, BitVec.getLsbD_shiftLeft, decide_eq_true hj,
    Bool.true_and]
  by_cases h : 8 - n ≤ j
  · simp [h]
  · simp [h, Nat.lt_of_not_le h]

theorem getLsbD_rotateRight (w : Word) {n p : Nat} (hn : n < 128) (hp : p < 128) :
    (rotateRight w n).getLsbD p = w.getLsbD ((n + p) % 128) := by
  rw [rotateRight, BitVec.getLsbD_or, BitVec.getLsbD_ushiftRight, BitVec.getLsbD_shiftLeft, decide_eq_true hp,
    Bool.true_and]
  by_cases h : p < 128 - n
  · rw [decide_eq_true h, Nat.mod_eq_of_lt (by omega)]
    exact Bool.or_false _
  · rw [decide_eq_false h, BitVec.getLsbD_of_ge w (n + p) (by omega),
      show (n + p) % 128 = p - (128 - n) by omega]
    rfl

/-- A bit of a byte at an index that may have wrapped around. -/
theorem getLsbD_bytes_wrapped (w : Word) (k : Nat) {j p : Nat} (hj : j < 8) (hp : 8 * (15 - k % 16) + j = p) :
    ((bytes w).get (Fin.ofNat 16 k)).toBitVec.getLsbD j = w.getLsbD p := by
  rw [getLsbD_bytes w (Fin.ofNat 16 k) hj, ← hp]
  rfl

theorem bytes_rotateRight (v w : Word) {n : Nat} (hn : n < 128) (h8 : 0 < n % 8) :
    Bytewise.rotateRightAndXor (bytes w) (bytes v) n = bytes (v ^^^ rotateRight w n) := by
  rw [bytes_xor, xorBlock_comm (bytes v), Bytewise.rotateRightAndXor]
  refine congrArg₂ xorBlock ?_ rfl
  apply block_ext_bits
  intro i j hj
  have hi := i.isLt
  rw [getLsbD_bytes _ i hj, getLsbD_rotateRight w hn (by omega)]
  show ((Vector.ofFn _)[i.val] : UInt8).toBitVec.getLsbD j = _
  rw [Vector.getElem_ofFn, UInt8.toBitVec_or, BitVec.getLsbD_or,
    getLsbD_byte_shiftRight _ (Nat.mod_lt _ (by decide)),
    getLsbD_byte_shiftLeft _ h8 (Nat.mod_lt _ (by decide)) hj]
  -- The bit comes from one byte or, behind its end, from the byte before.
  by_cases hcross : 8 - n % 8 ≤ j
  · rw [BitVec.getLsbD_of_ge _ _ (show 8 ≤ n % 8 + j by omega), decide_eq_true hcross,
      getLsbD_bytes_wrapped w (i.val + 16 - n / 8 - 1) (by omega)
        (show _ = (n + (8 * (15 - i.val) + j)) % 128 by omega)]
    rfl
  · rw [decide_eq_false hcross,
      getLsbD_bytes_wrapped w (i.val + 16 - n / 8) (by omega)
        (show _ = (n + (8 * (15 - i.val) + j)) % 128 by omega)]
    exact Bool.or_false _

theorem rotateLeft_19 (w : Word) : rotateLeft w 19 = rotateRight w 109 := BitVec.or_comm _ _

/-! ## The two arrays of words -/

theorem c_eq : Bytewise.c = c.map bytes := rfl

theorem getD_c (n : Nat) : Bytewise.c.getD n (Vector.replicate 16 0) = bytes (c.getD n 0) := by
  have hzero : Vector.replicate 16 0 = bytes 0 := rfl
  rw [c_eq, List.getD_eq_getElem?_getD, List.getElem?_map, List.getD_eq_getElem?_getD, hzero]
  cases (c)[n]? with
  | none => rfl
  | some w => rfl

theorem permute_bytes_fo128 (a b : Word) :
    permute (bytes (fo128 a b)) = fo (permute (bytes a)) (permute (bytes b)) := by
  rw [fo128, bytes_word, permute_permute]

theorem permute_bytes_fe128 (a b : Word) :
    permute (bytes (fe128 a b)) = fe (permute (bytes a)) (permute (bytes b)) := by
  rw [fe128, bytes_word, permute_permute]

theorem permute_bytes_xor (v w : Word) :
    permute (bytes (v ^^^ w)) = xorBlock (permute (bytes v)) (permute (bytes w)) := by
  rw [bytes_xor, permute_xorBlock]

theorem map_four {α β : Type} (f : α → β) (a b c d : α) :
    #v[a, b, c, d].map f = #v[f a, f b, f c, f d] := by
  rw [Vector.map_mk]
  simp only [List.map_toArray, List.map_cons, List.map_nil]

theorem four_congr {α : Type} {a b c d a' b' c' d' : α} (ha : a = a') (hb : b = b') (hc : c = c')
    (hd : d = d') : #v[a, b, c, d] = #v[a', b', c', d'] := by
  rw [ha, hb, hc, hd]

/-- `wp` has the words of `w`, with their bytes permuted. -/
theorem wp_permuted (off : Nat) (kl kr : Block) :
    Bytewise.wp off kl kr = (w off (word kl) (word kr)).map fun v => permute (bytes v) := by
  rw [w, map_four, Bytewise.wp]
  apply four_congr
  · rw [bytes_word]
  · simp only [getD_c, permute_bytes_xor, permute_bytes_fo128, bytes_word]
  · simp only [getD_c, permute_bytes_xor, permute_bytes_fo128, permute_bytes_fe128, bytes_word]
  · simp only [getD_c, permute_bytes_xor, permute_bytes_fo128, permute_bytes_fe128, bytes_word]

theorem wp_eq (off : Nat) (kl kr : Block) :
    (Bytewise.wp off kl kr).map permute = (w off (word kl) (word kr)).map bytes := by
  have hback : (permute ∘ fun v => permute (bytes v)) = bytes := funext fun v => permute_permute (bytes v)
  rw [wp_permuted, Vector.map_map, hback]

/-! ## The round keys -/

theorem get_map_bytes (w : Vector Word 4) (i : Fin 4) : (w.map bytes).get i = bytes (w.get i) :=
  Vector.getElem_map bytes i.isLt

theorem offsets_good {k : Nat} (hk : k < 4) : offsets.getD k 0 < 128 ∧ 0 < offsets.getD k 0 % 8 := by
  interval_cases k <;> decide

/-- Every word of `ek` has the same bytes in both classes. -/
theorem ekAt_eq (w : Vector Word 4) {n : Nat} (hn : n < 17) :
    Bytewise.ekAt (w.map bytes) n = bytes (ekAt w n) := by
  unfold Bytewise.ekAt ekAt
  by_cases h : n = 16
  · rw [if_pos h, if_pos h, get_map_bytes, get_map_bytes, rotateLeft_19]
    exact bytes_rotateRight _ _ (by decide) (by decide)
  · have hgood := offsets_good (show n / 4 < 4 by omega)
    rw [if_neg h, if_neg h, get_map_bytes, get_map_bytes]
    exact bytes_rotateRight _ _ hgood.1 hgood.2

theorem fillMembers_congr (a : Aria) (off : Nat) {ek ek' : Nat → Block} (h : ∀ n < 17, ek n = ek' n) :
    fillMembers a off ek = fillMembers a off ek' := by
  have hek : (Vector.ofFn fun i : Fin 17 => permute (ek i)) = Vector.ofFn fun i : Fin 17 => permute (ek' i) := by
    ext i hi : 1
    rw [Vector.getElem_ofFn, Vector.getElem_ofFn, h i hi]
  rw [fillMembers, hek, fillMembers]

/-- The two classes fill the members alike. -/
theorem setKeyInternal_eq (a : Aria) (key : List UInt8) :
    Bytewise.setKeyInternal a key = Words.setKeyInternal a key := by
  have hmembers : ∀ off, fillMembers a off
      (Bytewise.ekAt ((Bytewise.wp off (bufBlock key 0) (bufBlock key 16)).map permute)) =
        fillMembers a off fun n => bytes (ekAt (w off (word (bufBlock key 0)) (word (bufBlock key 16))) n) := by
    intro off
    rw [wp_eq]
    exact fillMembers_congr a off fun n hn => ekAt_eq _ hn
  simp only [Bytewise.setKeyInternal, Words.setKeyInternal, hmembers]

/-! ## Decryption -/

theorem keyLength_cases {len : Nat} (h : len = 16 ∨ len = 24 ∨ len = 32) :
    ∃ off < 3, len ≤ 32 ∧ offFor len = some off := by
  rcases h with rfl | rfl | rfl
  · exact ⟨0, by decide, by decide, rfl⟩
  · exact ⟨1, by decide, by decide, rfl⟩
  · exact ⟨2, by decide, by decide, rfl⟩

theorem cryptWith_eq {off : Nat} (hoff : off < 3) (sk : Vector Block 17) (x : Block) :
    cryptWith off sk x = some (encryptRounds (nrounds off) sk x) := by
  interval_cases off <;> rfl

theorem fillMembers_opposite (a : Aria) {off : Nat} (hoff : off < 3) (ek : Nat → Block) :
    Opposite (nrounds off) (fillMembers a off ek).ek (fillMembers a off ek).dk := by
  apply decryptKeys_opposite <;> unfold nrounds <;> omega

/-- The keys for decryption that a key of the schedule determines. -/
theorem fillMembers_dk (a b : Aria) {off : Nat} (hoff : off < 3) (ek : Nat → Block) {i : Nat}
    (hi : i ≤ nrounds off) : keyAt (fillMembers a off ek).dk i = keyAt (fillMembers b off ek).dk i := by
  have ha := fillMembers_opposite a hoff ek
  have hb := fillMembers_opposite b hoff ek
  rcases Nat.eq_zero_or_pos i with rfl | hpos
  · rw [ha.first, hb.first]
    rfl
  · rcases Nat.lt_or_eq_of_le hi with hlt | rfl
    · rw [ha.between i hpos hlt, hb.between i hpos hlt]
      rfl
    · rw [ha.last, hb.last]
      rfl

theorem decrypt_encrypt_fill (a : Aria) {off : Nat} (hoff : off < 3) (ek : Nat → Block) (x : Block) :
    ∃ y, encrypt (fillMembers a off ek) x = some y ∧ decrypt (fillMembers a off ek) y = some x := by
  refine ⟨_, cryptWith_eq hoff _ x, ?_⟩
  rw [decrypt, show (fillMembers a off ek).off = off from rfl, cryptWith_eq hoff,
    encryptRounds_opposite (by unfold nrounds; omega) (by unfold nrounds; omega) (fillMembers_opposite a hoff ek)]

/-- The two implementations set up with the same key, whatever was in their members before: the same
round keys, the same results, and decryption undoes encryption. -/
theorem aria_agree (a b : Aria) {key : List UInt8}
    (hkey : key.length = 16 ∨ key.length = 24 ∨ key.length = 32) :
    ∃ a' b', Bytewise.setKeyInternal a key = some a' ∧ Words.setKeyInternal b key = some b' ∧
      a'.off = b'.off ∧ a'.ek = b'.ek ∧ (∀ i ≤ nrounds a'.off, keyAt a'.dk i = keyAt b'.dk i) ∧
      ∀ x, ∃ y, encrypt a' x = some y ∧ encrypt b' x = some y ∧ decrypt a' y = some x ∧
        decrypt b' y = some x := by
  obtain ⟨off, hoff, hlen, hfor⟩ := keyLength_cases hkey
  have hset : ∀ a, Words.setKeyInternal a key = some (fillMembers a off fun n =>
      bytes (ekAt (w off (word (bufBlock key 0)) (word (bufBlock key 16))) n)) := by
    intro a
    rw [Words.setKeyInternal, if_neg (by omega), hfor]
    rfl
  refine ⟨_, _, (setKeyInternal_eq a key).trans (hset a), hset b, rfl, rfl, ?_, ?_⟩
  · intro i hi
    exact fillMembers_dk a b hoff _ hi
  · intro x
    obtain ⟨y, hy, hx⟩ := decrypt_encrypt_fill a hoff (fun n =>
      bytes (ekAt (w off (word (bufBlock key 0)) (word (bufBlock key 16))) n)) x
    obtain ⟨z, hz, hx'⟩ := decrypt_encrypt_fill b hoff (fun n =>
      bytes (ekAt (w off (word (bufBlock key 0)) (word (bufBlock key 16))) n)) x
    have hyz : y = z := Option.some.inj (hy.symm.trans hz)
    exact ⟨y, hy, hyz ▸ hz, hx, hyz ▸ hx'⟩

/-- A context before its first key. -/
def blank : Aria := ⟨Vector.replicate 17 (Vector.replicate 16 0), Vector.replicate 17 (Vector.replicate 16 0), 0⟩

theorem aria_agree_zeros : ∃ a' b',
    Bytewise.setKeyInternal blank (List.replicate 24 0) = some a' ∧
      Words.setKeyInternal blank (List.replicate 24 0) = some b' ∧ a'.ek = b'.ek := by
  obtain ⟨a', b', ha, hb, -, hek, -⟩ := aria_agree blank blank
    (show (List.replicate 24 (0 : UInt8)).length = 16 ∨ (List.replicate 24 (0 : UInt8)).length = 24 ∨ _
      from .inr (.inl List.length_replicate))
  exact ⟨a', b', ha, hb, hek⟩

end Drew.Aria
