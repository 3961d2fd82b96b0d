import Drew.Block.Rijndael.Schedule
import Drew.Block.Aes.Expansion
import Drew.Block.Aes.Model

/-!
# The rounds of AES with tables

A word has a column with the first row in its most significant byte. The tables combine substitution
and mixing.
-/

namespace Drew.Aes

open Drew.Memory Drew.Field Drew.Block Drew.Rijndael

/-! ## Columns -/

/-- The column of a word. -/
def column (x : UInt32) : Column := ⟨getByte x 3, getByte x 2, getByte x 1, getByte x 0⟩

theorem column_ofBytes (a b c d : UInt8) : column (ofBytes a b c d) = ⟨d, c, b, a⟩ := by
  rw [column, getByte_ofBytes_zero, getByte_ofBytes_one, getByte_ofBytes_two, getByte_ofBytes_three]

theorem column_xor (x y : UInt32) : column (x ^^^ y) = (column x).xor (column y) := by
  apply Column.ext <;> exact getByte_xor x y _

theorem convert_big {l : List UInt8} {a : Column} (h : l = a.toList) : column (convert word32 .big l) = a := by
  have hlittle : convert word32 .big l = convert word32 .little [a.r3, a.r2, a.r1, a.r0] := by
    rw [h]
    rfl
  rw [hlittle, convert_little, column_ofBytes]

theorem convertBytes_big (x : UInt32) : convertBytes word32 .big x = (column x).toList := by
  have hlittle : convertBytes word32 .big x = (convertBytes word32 .little x).reverse := by
    show _ = (convertBytes word32 .big x).reverse.reverse
    rw [List.reverse_reverse]
  rw [hlittle, convertBytes_little]
  rfl

theorem stateOf_copyIn {b : List UInt8} (h : b.length = 16) :
    stateOf column (copyIn word32 .big 4 b) = columnsOf 4 b := by
  apply state_ext
  intro c
  have hc := c.isLt
  rw [get_stateOf, get_columnsOf, ← convert_big (take_drop_eq_keyColumn (show 4 * c.val + 4 ≤ b.length by omega))]
  exact congrArg column (Vector.getElem_ofFn hc)

theorem copyOut_quad (q : Quad) : copyOut word32 .big q = bytesOf (stateOf column q) := by
  rw [copyOut, bytesOf, stateOf, Vector.toList_map, List.flatMap_map]
  exact List.flatMap_congr fun x _ => convertBytes_big x

/-! ## Tables -/

section Tables

variable (a : UInt8)

/-- The tables for encryption: the columns that a substituted byte makes in each row. -/
theorem te_eq : te0.entry a = ofBytes (mul 3 (sbox a)) (sbox a) (sbox a) (mul 2 (sbox a)) ∧
    te1.entry a = ofBytes (sbox a) (sbox a) (mul 2 (sbox a)) (mul 3 (sbox a)) ∧
    te2.entry a = ofBytes (sbox a) (mul 2 (sbox a)) (mul 3 (sbox a)) (sbox a) ∧
    te3.entry a = ofBytes (mul 2 (sbox a)) (mul 3 (sbox a)) (sbox a) (sbox a) := by
  rw [mul_two, mul_three]
  apply forall_byte (P := fun a =>
    te0.entry a = ofBytes (timesX 0x1b (sbox a) ^^^ sbox a) (sbox a) (sbox a) (timesX 0x1b (sbox a)) ∧
    te1.entry a = ofBytes (sbox a) (sbox a) (timesX 0x1b (sbox a)) (timesX 0x1b (sbox a) ^^^ sbox a) ∧
    te2.entry a = ofBytes (sbox a) (timesX 0x1b (sbox a)) (timesX 0x1b (sbox a) ^^^ sbox a) (sbox a) ∧
    te3.entry a = ofBytes (timesX 0x1b (sbox a)) (timesX 0x1b (sbox a) ^^^ sbox a) (sbox a) (sbox a))
  decide +kernel

/-- The tables for decryption. -/
theorem td_eq :
    td0.entry a = ofBytes (mul 11 (invSbox a)) (mul 13 (invSbox a)) (mul 9 (invSbox a)) (mul 14 (invSbox a)) ∧
    td1.entry a = ofBytes (mul 13 (invSbox a)) (mul 9 (invSbox a)) (mul 14 (invSbox a)) (mul 11 (invSbox a)) ∧
    td2.entry a = ofBytes (mul 9 (invSbox a)) (mul 14 (invSbox a)) (mul 11 (invSbox a)) (mul 13 (invSbox a)) ∧
    td3.entry a = ofBytes (mul 14 (invSbox a)) (mul 11 (invSbox a)) (mul 13 (invSbox a)) (mul 9 (invSbox a)) := by
  obtain ⟨h9, h11, h13, h14⟩ := mult_eq (invSbox a)
  rw [← h9, ← h11, ← h13, ← h14]
  apply forall_byte (P := fun a =>
    td0.entry a = ofBytes (multb.entry (invSbox a)) (multd.entry (invSbox a)) (mult9.entry (invSbox a))
      (multe.entry (invSbox a)) ∧
    td1.entry a = ofBytes (multd.entry (invSbox a)) (mult9.entry (invSbox a)) (multe.entry (invSbox a))
      (multb.entry (invSbox a)) ∧
    td2.entry a = ofBytes (mult9.entry (invSbox a)) (multe.entry (invSbox a)) (multb.entry (invSbox a))
      (multd.entry (invSbox a)) ∧
    td3.entry a = ofBytes (multe.entry (invSbox a)) (multb.entry (invSbox a)) (multd.entry (invSbox a))
      (mult9.entry (invSbox a)))
  decide +kernel

/-- The tables for the last round. -/
theorem last_eq : te4.entry a = ofBytes (sbox a) (sbox a) (sbox a) (sbox a) ∧
    td4.entry a = ofBytes (invSbox a) (invSbox a) (invSbox a) (invSbox a) := by
  apply forall_byte (P := fun a => te4.entry a = ofBytes (sbox a) (sbox a) (sbox a) (sbox a) ∧
    td4.entry a = ofBytes (invSbox a) (invSbox a) (invSbox a) (invSbox a))
  decide +kernel

end Tables

/-- The sum of four entries of the tables for encryption. -/
theorem te_xor (a b c d : UInt8) : column (te0.entry a ^^^ te1.entry b ^^^ te2.entry c ^^^ te3.entry d) =
    mixColumn ⟨sbox a, sbox b, sbox c, sbox d⟩ := by
  rw [(te_eq a).1, (te_eq b).2.1, (te_eq c).2.2.1, (te_eq d).2.2.2, ofBytes_xor, ofBytes_xor, ofBytes_xor,
    column_ofBytes, mixColumn]
  apply Column.ext
  · rfl
  · show _ = mixRow (sbox b) (sbox c) (sbox d) (sbox a)
    unfold mixRow
    ac_rfl
  · show _ = mixRow (sbox c) (sbox d) (sbox a) (sbox b)
    unfold mixRow
    ac_rfl
  · show _ = mixRow (sbox d) (sbox a) (sbox b) (sbox c)
    unfold mixRow
    ac_rfl

theorem td_xor (a b c d : UInt8) : column (td0.entry a ^^^ td1.entry b ^^^ td2.entry c ^^^ td3.entry d) =
    unmixColumn ⟨invSbox a, invSbox b, invSbox c, invSbox d⟩ := by
  rw [(td_eq a).1, (td_eq b).2.1, (td_eq c).2.2.1, (td_eq d).2.2.2, ofBytes_xor, ofBytes_xor, ofBytes_xor,
    column_ofBytes, unmixColumn]
  apply Column.ext
  · rfl
  · show _ = unmixRow (invSbox b) (invSbox c) (invSbox d) (invSbox a)
    unfold unmixRow
    ac_rfl
  · show _ = unmixRow (invSbox c) (invSbox d) (invSbox a) (invSbox b)
    unfold unmixRow
    ac_rfl
  · show _ = unmixRow (invSbox d) (invSbox a) (invSbox b) (invSbox c)
    unfold unmixRow
    ac_rfl

/-- One byte of each of four words with the same byte in every place. -/
theorem column_masked (a b c d : UInt8) :
    column ((ofBytes a a a a &&& 0xff000000) ^^^ (ofBytes b b b b &&& 0x00ff0000) ^^^
      (ofBytes c c c c &&& 0x0000ff00) ^^^ (ofBytes d d d d &&& 0x000000ff)) = ⟨a, b, c, d⟩ := by
  have hmasks : [getByte 0xff000000 0, getByte 0xff000000 1, getByte 0xff000000 2, getByte 0xff000000 3,
      getByte 0x00ff0000 0, getByte 0x00ff0000 1, getByte 0x00ff0000 2, getByte 0x00ff0000 3,
      getByte 0x0000ff00 0, getByte 0x0000ff00 1, getByte 0x0000ff00 2, getByte 0x0000ff00 3,
      getByte 0x000000ff 0, getByte 0x000000ff 1, getByte 0x000000ff 2, getByte 0x000000ff 3] =
      [0, 0, 0, 255, 0, 0, 255, 0, 0, 255, 0, 0, 255, 0, 0, 0] := by decide
  have hall : ∀ x : UInt8, x &&& 255 = x := fun _ => UInt8.and_neg_one
  simp only [List.cons.injEq] at hmasks
  apply Column.ext <;> simp [column, hmasks, hall]

/-! ## Words of a state -/

theorem lastWord_te4 (t0 t1 t2 t3 rk : UInt32) : column (lastWord te4 t0 t1 t2 t3 rk) =
    (Column.mk (sbox (getByte t0 3)) (sbox (getByte t1 2)) (sbox (getByte t2 1)) (sbox (getByte t3 0))).xor
      (column rk) := by
  rw [lastWord, column_xor, (last_eq _).1, (last_eq _).1, (last_eq _).1, (last_eq _).1, column_masked]

theorem lastWord_td4 (t0 t1 t2 t3 rk : UInt32) : column (lastWord td4 t0 t1 t2 t3 rk) =
    (Column.mk (invSbox (getByte t0 3)) (invSbox (getByte t1 2)) (invSbox (getByte t2 1))
      (invSbox (getByte t3 0))).xor (column rk) := by
  rw [lastWord, column_xor, (last_eq _).2, (last_eq _).2, (last_eq _).2, (last_eq _).2, column_masked]

theorem column_encryptWord (s0 s1 s2 s3 rk : UInt32) : column (encryptWord s0 s1 s2 s3 rk) =
    (mixColumn ⟨sbox (getByte s0 3), sbox (getByte s1 2), sbox (getByte s2 1), sbox (getByte s3 0)⟩).xor
      (column rk) := by
  rw [encryptWord, column_xor, te_xor]

theorem column_decryptWord (s0 s1 s2 s3 rk : UInt32) : column (decryptWord s0 s1 s2 s3 rk) =
    (unmixColumn ⟨invSbox (getByte s0 3), invSbox (getByte s1 2), invSbox (getByte s2 1),
      invSbox (getByte s3 0)⟩).xor (column rk) := by
  rw [decryptWord, column_xor, td_xor]

/-- The layers of AES. -/
def net : Network (State 4) := Class.net .rijndael128

/-- The columns of a substituted and shifted state. -/
theorem scramble_quad (s : Quad) (c : Fin 4) : (net.scramble (stateOf column s)).get c =
    ⟨sbox (getByte (s.get c) 3), sbox (getByte (s.get (c + 1)) 2), sbox (getByte (s.get (c + 2)) 1),
      sbox (getByte (s.get (c + 3)) 0)⟩ := by
  show (shiftRows ⟨1, 2, 3⟩ ((stateOf column s).map (Column.map sbox))).get c = _
  rw [get_shiftRows]
  simp only [Rijndael.column, get_map_state, get_stateOf]
  fin_cases c <;> rfl

theorem unscramble_quad (s : Quad) (c : Fin 4) : (net.unscramble (stateOf column s)).get c =
    ⟨invSbox (getByte (s.get c) 3), invSbox (getByte (s.get (c + 3)) 2), invSbox (getByte (s.get (c + 2)) 1),
      invSbox (getByte (s.get (c + 1)) 0)⟩ := by
  show (shiftRows ⟨3, 2, 1⟩ ((stateOf column s).map (Column.map invSbox))).get c = _
  rw [get_shiftRows]
  simp only [Rijndael.column, get_map_state, get_stateOf]
  fin_cases c <;> rfl

theorem encryptRound_eq (s rk : Quad) :
    stateOf column (encryptRound s rk) = net.add (net.mix (net.scramble (stateOf column s))) (stateOf column rk) := by
  apply state_ext
  intro c
  show _ = (addKey ((net.scramble (stateOf column s)).map mixColumn) (stateOf column rk)).get c
  rw [get_addKey, get_map_state, scramble_quad, get_stateOf, get_stateOf]
  fin_cases c <;> exact column_encryptWord _ _ _ _ _

theorem decryptRound_eq (s rk : Quad) :
    stateOf column (decryptRound s rk) =
      net.add (net.unmix (net.unscramble (stateOf column s))) (stateOf column rk) := by
  apply state_ext
  intro c
  show _ = (addKey ((net.unscramble (stateOf column s)).map unmixColumn) (stateOf column rk)).get c
  rw [get_addKey, get_map_state, unscramble_quad, get_stateOf, get_stateOf]
  fin_cases c <;> exact column_decryptWord _ _ _ _ _

theorem encryptLast_eq (t rk : Quad) :
    stateOf column (encryptLast t rk) = net.add (net.scramble (stateOf column t)) (stateOf column rk) := by
  apply state_ext
  intro c
  show _ = (addKey (net.scramble (stateOf column t)) (stateOf column rk)).get c
  rw [get_addKey, scramble_quad, get_stateOf, get_stateOf]
  fin_cases c <;> exact lastWord_te4 _ _ _ _ _

theorem decryptLast_eq (t rk : Quad) :
    stateOf column (decryptLast t rk) = net.add (net.unscramble (stateOf column t)) (stateOf column rk) := by
  apply state_ext
  intro c
  show _ = (addKey (net.unscramble (stateOf column t)) (stateOf column rk)).get c
  rw [get_addKey, unscramble_quad, get_stateOf, get_stateOf]
  fin_cases c <;> exact lastWord_td4 _ _ _ _ _

/-! ## Blocks -/

section Blocks

variable (n : Nat) (k : Nat → Quad)

variable {b : List UInt8}

/-- `Encrypt` is encryption with the network. -/
theorem crypt_encrypt (hb : b.length = 16) : crypt encryptRound encryptLast n k b =
    bytesOf (net.encrypt (fun i => stateOf column (k i)) n (columnsOf 4 b)) := by
  rw [crypt, copyOut_quad, encryptLast_eq, stateOf_rounds k (stateOf_xorQuad column_xor) encryptRound_eq,
    stateOf_copyIn hb, Network.encrypt]

/-- `Decrypt` is the equivalent decryption. -/
theorem crypt_decrypt (hb : b.length = 16) : crypt decryptRound decryptLast n k b =
    bytesOf (net.decryptMixed (fun i => stateOf column (k i)) n (columnsOf 4 b)) := by
  rw [crypt, copyOut_quad, decryptLast_eq, stateOf_mixedRounds k (stateOf_xorQuad column_xor) decryptRound_eq,
    stateOf_copyIn hb, Network.decryptMixed]

end Blocks

end Drew.Aes
