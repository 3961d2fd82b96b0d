import Drew.Block.Rijndael.Encryption

/-!
# Decryption with generic Rijndael

The functions on rows are the layers of the standard, undone.
-/

namespace Drew.Rijndael

open Drew.Memory Drew.Field Drew.Block

/-! ## Products -/

/-- A product by the bits of a constant. -/
theorem mul_bits (a : UInt8) : mul 9 a = (timesX 0x1b)^[3] a ^^^ a ∧
    mul 11 a = (timesX 0x1b)^[3] a ^^^ timesX 0x1b a ^^^ a ∧
    mul 13 a = (timesX 0x1b)^[3] a ^^^ (timesX 0x1b)^[2] a ^^^ a ∧
    mul 14 a = (timesX 0x1b)^[3] a ^^^ (timesX 0x1b)^[2] a ^^^ timesX 0x1b a := by
  have h8 : mul 8 a = (timesX 0x1b)^[3] a := mul_power a (k := 3) (by decide)
  have h4 : mul 4 a = (timesX 0x1b)^[2] a := mul_power a (k := 2) (by decide)
  have h9 := mul_add a 8 1
  have h11 := mul_add a (8 ^^^ 2) 1
  have h13 := mul_add a (8 ^^^ 4) 1
  have h14 := mul_add a (8 ^^^ 4) 2
  rw [h8, mul_one] at h9
  rw [mul_add a 8 2, h8, mul_two, mul_one] at h11
  rw [mul_add a 8 4, h8, h4, mul_one] at h13
  rw [mul_add a 8 4, h8, h4, mul_two] at h14
  exact ⟨h9, h11, h13, h14⟩

/-- The tables of products. -/
theorem mult_eq (a : UInt8) : mult9.entry a = mul 9 a ∧ multb.entry a = mul 11 a ∧ multd.entry a = mul 13 a ∧
    multe.entry a = mul 14 a := by
  obtain ⟨h9, h11, h13, h14⟩ := mul_bits a
  rw [h9, h11, h13, h14]
  apply forall_byte (P := fun a => mult9.entry a = (timesX 0x1b)^[3] a ^^^ a ∧
    multb.entry a = (timesX 0x1b)^[3] a ^^^ timesX 0x1b a ^^^ a ∧
    multd.entry a = (timesX 0x1b)^[3] a ^^^ (timesX 0x1b)^[2] a ^^^ a ∧
    multe.entry a = (timesX 0x1b)^[3] a ^^^ (timesX 0x1b)^[2] a ^^^ timesX 0x1b a)
  decide +kernel

/-! ## Rows -/

variable {C : Class}

/-- The state in four rows. -/
def rowsState (C : Class) (s : Rows) : State C.nb := Vector.ofFn fun c =>
  ⟨longByte s.s0 c, longByte s.s1 c, longByte s.s2 c, longByte s.s3 c⟩

theorem get_rowsState (s : Rows) (c : Fin C.nb) :
    (rowsState C s).get c = ⟨longByte s.s0 c, longByte s.s1 c, longByte s.s2 c, longByte s.s3 c⟩ :=
  Vector.getElem_ofFn c.isLt

/-- A row without bytes behind the last column. -/
def Short (C : Class) (x : UInt64) : Prop := ∀ n < 8, C.nb ≤ n → longByte x n = 0

theorem longByte_mask {n : Nat} (hn : n < 8) : longByte C.bcmask n = if n < C.nb then 255 else 0 := by
  have hall : ∀ n < 8, longByte C.bcmask n = if n < C.nb then 255 else 0 := by
    cases C <;> decide +kernel
  exact hall n hn

theorem longByte_and_mask (x : UInt64) {n : Nat} (hn : n < 8) :
    longByte (x &&& C.bcmask) n = if n < C.nb then longByte x n else 0 := by
  rw [longByte_and _ _ hn, longByte_mask hn]
  by_cases h : n < C.nb
  · rw [if_pos h, if_pos h]
    exact UInt8.and_neg_one
  · rw [if_neg h, if_neg h, UInt8.and_zero]

theorem rowsState_keyAddition (s : Rows) (rk : Keys) (i : Nat) :
    rowsState C (keyAddition s (wordsAt rk i)) = C.net.add (rowsState C s) (keyState C rk i) := by
  have hnb := C.nb_le
  apply state_ext
  intro c
  have hc := c.isLt
  show _ = (addKey (rowsState C s) (keyState C rk i)).get c
  rw [get_addKey, get_rowsState, get_rowsState, get_keyState]
  apply Column.ext <;> exact longByte_xor _ _ (by omega)

/-! ## Substitution and shifts -/

/-- Bytes shifted into a word one after the other. -/
theorem longByte_shiftIn (x : UInt64) (b : UInt8) {n : Nat} (hn : n < 8) :
    longByte (x <<< 8 ||| b.toUInt64) n = if n = 0 then b else longByte x (n - 1) := by
  have hshift := longByte_shiftLeft x (show 1 < 8 by decide) hn
  rw [longByte_or _ _ hn, longByte_toUInt64 b hn, show x <<< 8 = x <<< UInt64.ofNat (8 * 1) from rfl, hshift]
  by_cases h : n = 0
  · rw [if_pos h, if_pos h, if_neg (by omega), UInt8.zero_or]
  · rw [if_neg h, if_neg h, if_pos (by omega), UInt8.or_zero]

theorem longByte_applyS (r : UInt64) (box : Table) {n : Nat} (hn : n < 8) :
    longByte (applyS C r box) n = if n < C.nb then box.entry (longByte r n) else 0 := by
  have hfold : longByte ([7, 6, 5, 4, 3, 2, 1, 0].foldl
      (fun (res : UInt64) i => res <<< 8 ||| (box.entry (longByte r i)).toUInt64) 0) n =
        box.entry (longByte r n) := by
    simp only [List.foldl_cons, List.foldl_nil]
    interval_cases n <;> simp [longByte_shiftIn, longByte_toUInt64]
  rw [applyS, longByte_and_mask _ hn, hfold]

theorem short_applyS (r : UInt64) (box : Table) : Short C (applyS C r box) := by
  intro n hn hle
  rw [longByte_applyS r box hn, if_neg (by omega)]

/-- A row rotated to the right, as far as it is long. -/
theorem longByte_shift {x : UInt64} (hx : Short C x) {k : Nat} (hk : 0 < k) (hk' : k < C.nb) (c : Fin C.nb) :
    longByte (shift C x (8 * (C.nb - k))) c = longByte x ((c + (C.nb - k)) % C.nb) := by
  have hnb := C.nb_le
  have hc := c.isLt
  have hleft : C.bc - 8 * (C.nb - k) = 8 * k := by
    unfold Class.bc
    omega
  rw [shift, hleft, longByte_and_mask _ (by omega), if_pos hc, longByte_or _ _ (by omega),
    longByte_shiftRight x (by omega) (by omega), longByte_shiftLeft x (by omega) (by omega)]
  by_cases h : k ≤ c.val
  · -- The byte comes from the low end, and what the other shift brings is behind the last column.
    have hmod : (c.val + (C.nb - k)) % C.nb = c.val - k := by
      rw [show c.val + (C.nb - k) = c.val - k + C.nb by omega, Nat.add_mod_right, Nat.mod_eq_of_lt (by omega)]
    have hzero : (if c.val + (C.nb - k) < 8 then longByte x (c.val + (C.nb - k)) else 0) = 0 := by
      by_cases h8 : c.val + (C.nb - k) < 8
      · rw [if_pos h8, hx _ h8 (by omega)]
      · rw [if_neg h8]
    rw [if_pos h, hzero, hmod, UInt8.zero_or]
  · rw [if_neg h, if_pos (by omega), UInt8.or_zero, Nat.mod_eq_of_lt (by omega)]

theorem sh1_eq (C : Class) : C.sh1 =
    ⟨8 * (C.nb - C.shifts.s1), 8 * (C.nb - C.shifts.s2), 8 * (C.nb - C.shifts.s3)⟩ := by
  cases C <;> rfl

theorem shifts_proper (C : Class) : (0 < C.shifts.s1 ∧ C.shifts.s1 < C.nb) ∧
    (0 < C.shifts.s2 ∧ C.shifts.s2 < C.nb) ∧ 0 < C.shifts.s3 ∧ C.shifts.s3 < C.nb := by
  cases C <;> decide

/-- `Substitution` with `Si` and `ShiftRow`. -/
theorem rowsState_back (s : Rows) :
    rowsState C (shiftRow C (substitution C s Si) C.sh1) = C.net.unscramble (rowsState C s) := by
  have hnb := C.nb_le
  obtain ⟨h1, h2, h3⟩ := shifts_proper C
  apply state_ext
  intro c
  have hc := c.isLt
  have hrow : ∀ (x : UInt64) (k : Nat), longByte (applyS C x Si) ((c + k) % C.nb) =
      invSbox (longByte x ((c + k) % C.nb)) := by
    intro x k
    have hlt : (c + k) % C.nb < C.nb := Nat.mod_lt _ (by omega)
    rw [longByte_applyS x Si (by omega), if_pos hlt]
    rfl
  show _ = (shiftRows (C.shifts.back C.nb) ((rowsState C s).map (Column.map invSbox))).get c
  rw [get_rowsState, get_shiftRows, sh1_eq, shiftRow, substitution]
  simp only [column, get_map_state, get_rowsState]
  apply Column.ext
  · show longByte (applyS C s.s0 Si) c = invSbox (longByte s.s0 c)
    rw [longByte_applyS _ _ (by omega), if_pos hc]
    rfl
  · exact (longByte_shift (short_applyS _ _) h1.1 h1.2 c).trans (hrow s.s1 _)
  · exact (longByte_shift (short_applyS _ _) h2.1 h2.2 c).trans (hrow s.s2 _)
  · exact (longByte_shift (short_applyS _ _) h3.1 h3.2 c).trans (hrow s.s3 _)

/-! ## Mixing -/

theorem longByte_invMixRow (s0 s1 s2 s3 : UInt64) (c : Fin C.nb) : longByte (invMixRow C s0 s1 s2 s3) c =
    unmixRow (longByte s0 c) (longByte s1 c) (longByte s2 c) (longByte s3 c) := by
  have hnb := C.nb_le
  have hc := c.isLt
  rw [invMixRow, longByte_rowOf hnb _ (by omega), if_pos hc, (mult_eq _).2.2.2, (mult_eq _).2.1, (mult_eq _).2.2.1,
    (mult_eq _).1, unmixRow]

theorem rowsState_invMixColumn (s : Rows) :
    rowsState C (invMixColumn C s) = C.net.unmix (rowsState C s) := by
  apply state_ext
  intro c
  show _ = ((rowsState C s).map unmixColumn).get c
  rw [get_map_state, get_rowsState, get_rowsState]
  apply Column.ext <;> exact longByte_invMixRow _ _ _ _ c

/-! ## Blocks -/

/-- `DecryptBlock` is decryption with the network. -/
theorem rowsState_decryptBlock {c : Rijndael} {n : Nat} (hnr : c.nr = n + 1) (s : Rows) :
    rowsState C (decryptBlock C c s) = C.net.decrypt (keyState C c.rk) n (rowsState C s) := by
  have hloop : ∀ m ≤ n, ∀ s, rowsState C ((List.range m).foldl (fun s i => shiftRow C
        (substitution C (invMixColumn C (keyAddition s (wordsAt c.rk (n - i)))) Si) C.sh1) s) =
      (List.range m).foldl (fun y i => C.net.unscramble (C.net.unmix (C.net.add y (keyState C c.rk (n - i)))))
        (rowsState C s) := by
    intro m
    induction m with
    | zero => exact fun _ _ => rfl
    | succ m ih =>
      intro hm s
      rw [List.range_succ, List.foldl_append, List.foldl_append, List.foldl_cons, List.foldl_nil, List.foldl_cons,
        List.foldl_nil, rowsState_back, rowsState_invMixColumn, rowsState_keyAddition, ih (by omega)]
  rw [decryptBlock, hnr, Nat.add_sub_cancel]
  show rowsState C (keyAddition _ (wordsAt c.rk 0)) = _
  rw [rowsState_keyAddition, hloop n (Nat.le_refl n), rowsState_back, rowsState_keyAddition, Network.decrypt,
    Network.backFrom_eq_foldl]

theorem rowsState_unpackBlock (b : List UInt8) : rowsState C (unpackBlock C b) = columnsOf C.nb b := by
  have hnb := C.nb_le
  apply state_ext
  intro c
  have hc := c.isLt
  rw [get_rowsState, get_columnsOf, unpackBlock]
  simp only [longByte_rowOf hnb _ (show c.val < 8 by omega), if_pos hc]
  rfl

theorem packBlock_eq (s : Rows) : packBlock C s = bytesOf (rowsState C s) := by
  have hlist : (rowsState C s).toList = (List.range C.nb).map fun c =>
      (⟨longByte s.s0 c, longByte s.s1 c, longByte s.s2 c, longByte s.s3 c⟩ : Column) := by
    apply List.ext_getElem
    · simp
    · intro i _ _
      simp [rowsState]
  rw [bytesOf, hlist, List.flatMap_map]
  rfl

/-- `Decrypt` is decryption with the network. -/
theorem decrypt_eq {c : Rijndael} {n : Nat} (hnr : c.nr = n + 1) (b : List UInt8) :
    decrypt C c b = bytesOf (C.net.decrypt (keyState C c.rk) n (columnsOf C.nb b)) := by
  rw [decrypt, packBlock_eq, rowsState_decryptBlock hnr, rowsState_unpackBlock]

end Drew.Rijndael
