import Drew.Block.Aes.Rounds

/-!
# The key schedule of AES with tables

The words of `m_rk` are the columns of the expanded key, and `m_rkd` has the keys of the equivalent
decryption.
-/

namespace Drew.Aes

open Drew.Memory Drew.Field Drew.Block Drew.Rijndael

/-! ## Substituted words -/

theorem column_subRotated (x : UInt32) : column (subRotated x) = (column x).rotate.map sbox := by
  rw [subRotated, (last_eq _).1, (last_eq _).1, (last_eq _).1, (last_eq _).1, column_masked]
  rfl

theorem column_subWord (x : UInt32) : column (subWord x) = (column x).map sbox := by
  rw [subWord, (last_eq _).1, (last_eq _).1, (last_eq _).1, (last_eq _).1, column_masked]
  rfl

theorem column_rcon {i : Nat} (hi : i < 10) : column (rcon.getD i 0) = ⟨roundConstant i, 0, 0, 0⟩ := by
  revert hi
  revert i
  decide

theorem toUInt8_te4 (a : UInt8) : (te4.entry a).toUInt8 = sbox a := by
  have hbyte : ∀ x : UInt32, x.toUInt8 = getByte x 0 := by
    intro x
    rw [getByte, UInt32.zero_mul, UInt32.shiftRight_zero]
  rw [hbyte, (last_eq _).1, getByte_ofBytes_zero]

theorem column_unmixWord (x : UInt32) : column (unmixWord x) = unmixColumn (column x) := by
  rw [unmixWord, td_xor, toUInt8_te4, toUInt8_te4, toUInt8_te4, toUInt8_te4, invSbox_sbox, invSbox_sbox,
    invSbox_sbox, invSbox_sbox]
  rfl

/-! ## Filling the array -/

section Filled

variable {key : List UInt8} {rk : Vector UInt32 72}

/-- The first four words of a pass. -/
theorem filled_fourWords {i nk o : Nat} (hkey : key.length / 4 = nk) (h4 : 4 ≤ nk) (hi : i < 10) (ho : o = nk * i)
    (hfit : o + nk + 4 ≤ 72) (h : Filled column key (o + nk) rk) :
    Filled column key (o + nk + 4) (fourWords nk o i rk) := by
  apply filled_threeWords column_xor hkey ho h4 hfit
  apply filled_put h (by omega)
  rw [column_xor, column_xor, column_subRotated, column_rcon hi, h _ (by omega), h _ (by omega),
    expanded_start hkey ho (by omega)]

theorem filled_loadKey (key : List UInt8) (rk : Vector UInt32 72) (hkey : key.length ≤ 32) :
    Filled column key (key.length / 4) (loadKey key rk) :=
  filled_key (by omega) fun j hj => convert_big (take_drop_eq_keyColumn (show 4 * j + 4 ≤ key.length by omega))

/-- A loop of passes of `nk` words. -/
theorem filled_loop {nk : Nat} {f : Vector UInt32 72 → Nat → Vector UInt32 72} {n : Nat}
    (hf : ∀ i < n, ∀ rk, Filled column key (nk * i + nk) rk → Filled column key (nk * (i + 1) + nk) (f rk i))
    (h : Filled column key nk rk) : Filled column key (nk * n + nk) ((List.range n).foldl f rk) := by
  induction n with
  | zero => rwa [Nat.mul_zero, Nat.zero_add]
  | succ n ih =>
    rw [List.range_succ, List.foldl_append, List.foldl_cons, List.foldl_nil]
    exact hf n (by omega) _ (ih fun i hi => hf i (by omega))

theorem filled_pass128 (hkey : key.length / 4 = 4) {i : Nat} (hi : i < 10) (rk : Vector UInt32 72)
    (h : Filled column key (4 * i + 4) rk) : Filled column key (4 * (i + 1) + 4) (pass128 rk i) := by
  rw [Nat.mul_succ]
  exact filled_fourWords hkey (Nat.le_refl 4) hi rfl (by omega) h

theorem filled_pass192 (hkey : key.length / 4 = 6) {i : Nat} (hi : i < 7) (rk : Vector UInt32 72)
    (h : Filled column key (6 * i + 6) rk) : Filled column key (6 * (i + 1) + 6) (pass192 rk i) := by
  have hfour := filled_fourWords hkey (by omega) (show i < 10 by omega) rfl (by omega) h
  rw [pass192, if_neg (by omega), Nat.mul_succ]
  exact filled_six column_xor hkey rfl (by omega) hfour

theorem filled_pass256 (hkey : key.length / 4 = 8) {i : Nat} (hi : i < 6) (rk : Vector UInt32 72)
    (h : Filled column key (8 * i + 8) rk) : Filled column key (8 * (i + 1) + 8) (pass256 rk i) := by
  have hfour := filled_fourWords hkey (by omega) (show i < 10 by omega) rfl (by omega) h
  rw [pass256, if_neg (by omega), Nat.mul_succ]
  apply filled_eight column_xor hkey rfl (by omega)
  apply filled_put hfour (by omega)
  rw [column_xor, column_subWord, hfour _ (by omega), hfour _ (by omega)]
  exact (expanded_substituted hkey rfl (by omega)).symm

end Filled

variable {key : List UInt8}

/-- `SetKeyEncrypt` fills the words of all round keys. -/
theorem filled_setKeyEncrypt (hkey : key.length ∈ keyLengths) (rk : Vector UInt32 72) :
    Filled column key (4 * (numRounds 4 (key.length / 4) + 1)) (setKeyEncrypt key rk) := by
  have hcases := length_cases hkey
  have hload := filled_loadKey key rk (by omega)
  rcases hcases with h | h | h
  · have hnk : key.length / 4 = 4 := by rw [h]
    rw [hnk] at hload
    rw [setKeyEncrypt, if_pos h, hnk, show 4 * (numRounds 4 4 + 1) = 4 * 10 + 4 from rfl]
    exact filled_loop (n := 10) (fun i hi => filled_pass128 hnk hi) hload
  · have hnk : key.length / 4 = 6 := by rw [h]
    rw [hnk] at hload
    have hloop := filled_loop (n := 7) (fun i hi => filled_pass192 hnk hi) hload
    rw [setKeyEncrypt, if_neg (by omega), if_pos h, hnk, List.range_succ, List.foldl_append, List.foldl_cons,
      List.foldl_nil, pass192, if_pos rfl, show 4 * (numRounds 4 6 + 1) = 6 * 7 + 6 + 4 from rfl]
    exact filled_fourWords hnk (by omega) (show 7 < 10 by omega) rfl (by omega) hloop
  · have hnk : key.length / 4 = 8 := by rw [h]
    rw [hnk] at hload
    have hloop := filled_loop (n := 6) (fun i hi => filled_pass256 hnk hi) hload
    rw [setKeyEncrypt, if_neg (by omega), if_neg (by omega), hnk, List.range_succ, List.foldl_append,
      List.foldl_cons, List.foldl_nil, pass256, if_pos rfl, show 4 * (numRounds 4 8 + 1) = 8 * 6 + 8 + 4 from rfl]
    exact filled_fourWords hnk (by omega) (show 6 < 10 by omega) rfl (by omega) hloop

theorem stateOf_unmix (q : Quad) : stateOf column (q.map unmixWord) = net.unmix (stateOf column q) := by
  apply state_ext
  intro c
  show _ = ((stateOf column q).map unmixColumn).get c
  rw [get_map_state, get_stateOf, get_stateOf, ← column_unmixWord]
  exact congrArg column (Vector.getElem_map unmixWord c.isLt)

/-- What a key makes of a context, whatever was in it before. -/
theorem setKeyInternal_crypt (c : Aes) (hkey : key.length ∈ keyLengths) :
    ∃ c', setKeyInternal c key = some c' ∧ ∀ b, b.length = 16 →
      encrypt c' b = bytesOf (net.encrypt (roundKey 4 key) (numRounds 4 (key.length / 4) - 1) (columnsOf 4 b)) ∧
      decrypt c' b = bytesOf (net.decrypt (roundKey 4 key) (numRounds 4 (key.length / 4) - 1) (columnsOf 4 b)) := by
  have hle : numRounds 4 (key.length / 4) ≤ 14 := numRounds_le (C := .rijndael128) (by
    revert hkey
    generalize key.length = m
    intro hkey
    fin_cases hkey <;> decide)
  have hnr : ∃ n, numRounds 4 (key.length / 4) = n + 1 ∧ fullRounds ((n + 1 - 10) / 2) = n := by
    revert hkey
    generalize key.length = m
    intro hkey
    fin_cases hkey
    · exact ⟨9, rfl, rfl⟩
    · exact ⟨11, rfl, rfl⟩
    · exact ⟨13, rfl, rfl⟩
  obtain ⟨n, hn, hfull⟩ := hnr
  have hround : ∀ i ≤ n + 1, stateOf column (quadAt (setKeyEncrypt key c.rk) i) = roundKey 4 key i := by
    intro i hi
    exact stateOf_filled (filled_setKeyEncrypt hkey c.rk) (by omega)
  refine ⟨_, if_pos (length_cases hkey), ?_⟩
  intro b hb
  have hrounds : 6 + max 4 (key.length / 4) = n + 1 := hn
  have hmixed : net.Mixed (fun i => stateOf column (quadAt (setKeyEncrypt key c.rk) i))
      (fun i => stateOf column (entryAt (setKeyDecrypt (n + 1) (setKeyEncrypt key c.rk)) i)) n :=
    mixed_keys _ stateOf_unmix (by omega)
  rw [encrypt, decrypt, hrounds, hfull, hn, Nat.add_sub_cancel, crypt_encrypt _ _ hb, crypt_decrypt _ _ hb,
    Network.decryptMixed_eq hmixed]
  exact ⟨congrArg bytesOf (Network.encrypt_congr hround _), congrArg bytesOf (Network.decrypt_congr hround _)⟩

end Drew.Aes
