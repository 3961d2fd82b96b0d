import Drew.Mac.Cmac.Model

/-!
# The subkeys of CMAC

Shifting the bytes of a block to the left doubles it as a number, modulo its range
(`shiftleft_spec`). With the conditional reductions the two subkeys are the specified ones
(`setkey_spec`); the second reduction depends on a bit of the first byte before any shift.
-/

namespace Drew.Mac.Cmac

open Drew.Memory Drew.Block Drew.Stream Drew.Mode

/-! ## Shifts -/

/-- The bytes of a text shifted to the left. -/
def shl : List UInt8 → List UInt8
  | [] => []
  | [x] => [x <<< 1]
  | x :: y :: r => (x <<< 1 ||| y >>> 7) :: shl (y :: r)

@[simp] theorem length_shl (b : List UInt8) : (shl b).length = b.length := by
  induction b using shl.induct with
  | case1 => rfl
  | case2 x => rfl
  | case3 x y r ih => simp [shl, ih]

theorem toNat_shift (x : UInt8) : (x <<< 1).toNat = 2 * x.toNat % 256 := by
  have hone : (1 : UInt8).toNat % 8 = 1 := rfl
  rw [UInt8.toNat_shiftLeft, hone, Nat.shiftLeft_eq, pow_one, Nat.mul_comm]

theorem toNat_shift_or (x y : UInt8) :
    (x <<< 1 ||| y >>> 7).toNat = 2 * x.toNat % 256 + y.toNat / 128 := by
  have heven : 2 * x.toNat % 256 = (x.toNat % 128) <<< 1 := by
    rw [Nat.shiftLeft_eq]
    omega
  have hseven : (7 : UInt8).toNat % 8 = 7 := rfl
  have hy : (y >>> 7).toNat = y.toNat / 128 := by
    rw [UInt8.toNat_shiftRight, hseven, Nat.shiftRight_eq_div_pow]
  have hlt : y.toNat / 128 < 2 ^ 1 := by
    have := y.toNat_lt
    omega
  rw [UInt8.toNat_or, toNat_shift, hy, heven, ← Nat.shiftLeft_add_eq_or_of_lt hlt]

theorem beNat_cons (x : UInt8) (r : List UInt8) :
    beNat (x :: r) = x.toNat * 256 ^ r.length + beNat r := beVal_cons x r

/-- A shift to the left doubles the number. -/
theorem beNat_shl (b : List UInt8) : beNat (shl b) = 2 * beNat b % 256 ^ b.length := by
  induction b using shl.induct with
  | case1 => rfl
  | case2 x =>
    have h : ∀ z : UInt8, beNat [z] = z.toNat := fun z => by simp [beNat]
    rw [shl, h, h, toNat_shift]
    rfl
  | case3 x y r ih =>
    obtain ⟨N, hN⟩ : ∃ N, N = 256 ^ r.length := ⟨_, rfl⟩
    have hpos : 0 < N := by
      rw [hN]
      positivity
    have hr : beNat r < N := by
      rw [hN]
      exact beNat_lt r
    have hlen : 256 ^ (y :: r).length = 256 * N := by
      rw [List.length_cons, pow_succ, hN, Nat.mul_comm]
    have hlen' : 256 ^ (x :: y :: r).length = 256 * N * 256 := by
      rw [List.length_cons, pow_succ, hlen]
    have hy := y.toNat_lt
    have hV : beNat (y :: r) = y.toNat * N + beNat r := by rw [beNat_cons, hN]
    rw [shl, beNat_cons, length_shl, ih, toNat_shift_or, hlen', hlen, beNat_cons x, hlen]
    -- The bit that leaves the tail is the highest bit of `y`.
    have hcarry : 2 * beNat (y :: r) / (256 * N) = y.toNat / 128 := by
      rw [hV, show 256 * N = 2 * (128 * N) by ring, Nat.mul_div_mul_left _ _ (by norm_num), Nat.mul_comm 128,
        ← Nat.div_div_eq_div_mul, Nat.add_comm, Nat.add_mul_div_right _ _ hpos, Nat.div_eq_of_lt hr,
        Nat.zero_add]
    have hsplit := Nat.div_add_mod (2 * beNat (y :: r)) (256 * N)
    rw [hcarry] at hsplit
    have hmod := Nat.mod_lt (2 * beNat (y :: r)) (show 0 < 256 * N by positivity)
    have hx := Nat.div_add_mod (2 * x.toNat) 256
    have hval : 2 * (x.toNat * (256 * N) + beNat (y :: r)) =
        (2 * x.toNat % 256 + y.toNat / 128) * (256 * N) + 2 * beNat (y :: r) % (256 * N) +
          256 * N * 256 * (2 * x.toNat / 256) := by
      calc 2 * (x.toNat * (256 * N) + beNat (y :: r))
          = 2 * x.toNat * (256 * N) + 2 * beNat (y :: r) := by ring
        _ = (256 * (2 * x.toNat / 256) + 2 * x.toNat % 256) * (256 * N) +
            (256 * N * (y.toNat / 128) + 2 * beNat (y :: r) % (256 * N)) := by rw [hx, hsplit]
        _ = _ := by ring
    have hlt : (2 * x.toNat % 256 + y.toNat / 128) * (256 * N) + 2 * beNat (y :: r) % (256 * N) <
        256 * N * 256 := by
      have hdigit : 2 * x.toNat % 256 + y.toNat / 128 ≤ 255 := by omega
      nlinarith
    rw [hval, Nat.add_mul_mod_self_left, Nat.mod_eq_of_lt hlt]

/-- The loop of `shiftleft`, from the byte at `lo` on. -/
theorem shiftleft_loop {buf : Buf UInt8 16} {lo : Nat} (x : UInt8) (xs : List UInt8)
    (h : buf.Holds lo (x :: xs)) :
    ∃ w w' z, (List.range' lo xs.length).foldlM (fun buf i => do
        let x ← Buf.load buf i
        let y ← buf.load (i + 1)
        buf.store i (x <<< 1 ||| y >>> 7)) buf = some w ∧
      w.load (lo + xs.length) = some z ∧ w.store (lo + xs.length) (z <<< 1) = some w' ∧
      w'.Holds lo (shl (x :: xs)) ∧ ∀ i < lo, w'[i]? = buf[i]? := by
  induction xs generalizing buf lo x with
  | nil =>
    have hlt : lo < 16 := by simpa using h.1
    refine ⟨buf, buf.set lo (x <<< 1) hlt, x, rfl, h.load_head, Buf.store_of_lt _ _ hlt,
      Buf.holds_set_same _ _ _, fun i hi => ?_⟩
    rw [Vector.getElem?_set_ne]
    omega
  | cons y r ih =>
    have hlt : lo < 16 := by
      have hfit := h.1
      simp only [List.length_cons] at hfit
      omega
    have hset := h.tail.set_of_disjoint (x <<< 1 ||| y >>> 7) hlt (Or.inl (Nat.lt_succ_self lo))
    obtain ⟨w, w', z, hrun, hload, hstore, hholds, hout⟩ := ih y hset
    have hlen : lo + (y :: r).length = lo + 1 + r.length := by
      rw [List.length_cons]
      omega
    refine ⟨w, w', z, ?_, by rwa [hlen], by rwa [hlen], ?_, fun i hi => ?_⟩
    · rw [List.length_cons, List.range'_succ, List.foldlM_cons]
      simp only [h.load_head, h.tail.load_head, Buf.store_of_lt _ _ hlt, Option.bind_eq_bind,
        Option.bind_some]
      exact hrun
    · have hhead : w'.Holds lo [x <<< 1 ||| y >>> 7] := by
        refine ⟨by simpa using hlt, fun i hi => ?_⟩
        obtain rfl : i = 0 := by simpa using hi
        rw [Nat.add_zero, hout lo (Nat.lt_succ_self lo)]
        simp [hlt]
      exact hhead.append hholds
    · rw [hout i (by omega), Vector.getElem?_set_ne]
      omega

/-- A block at the beginning of the buffer is doubled as a number. -/
theorem shiftleft_spec {buf : Buf UInt8 16} {b : List UInt8} (h : buf.Holds 0 b) (hne : b ≠ []) :
    ∃ w, shiftleft buf b.length = some w ∧ w.Holds 0 (shl b) := by
  cases b with
  | nil => exact absurd rfl hne
  | cons x xs =>
    obtain ⟨w, w', z, hrun, hload, hstore, hholds, -⟩ := shiftleft_loop x xs h
    rw [Nat.zero_add] at hload hstore
    refine ⟨w', ?_, hholds⟩
    rw [shiftleft, List.length_cons, Nat.add_sub_cancel, List.range_eq_range', hrun]
    simp only [Option.bind_eq_bind, Option.bind_some, hload, hstore]

/-! ## Reductions -/

theorem reduce_spec {buf : Buf UInt8 16} {b : List UInt8} (h : buf.Holds 0 b) (hne : b ≠ [])
    (c mask rb : UInt8) :
    ∃ w b', reduce buf b.length c mask rb = some w ∧ w.Holds 0 b' ∧ b'.length = b.length ∧
      beNat b' = if c &&& mask ≠ 0 then beNat b ^^^ rb.toNat else beNat b := by
  unfold reduce
  split
  · obtain ⟨as, x, rfl⟩ : ∃ as x, b = as ++ [x] :=
      ⟨b.dropLast, b.getLast hne, (List.dropLast_append_getLast hne).symm⟩
    have hx := h.right.load_head
    rw [Nat.zero_add] at hx
    have hlt : as.length < 16 := by
      have hfit := h.1
      rw [List.length_append, List.length_singleton] at hfit
      omega
    have hlast : (as ++ [x]).length - 1 = as.length := by simp
    refine ⟨buf.set as.length (x ^^^ rb) hlt, as ++ [x ^^^ rb], ?_, ?_, by simp, ?_⟩
    · rw [hlast, hx]
      exact Buf.store_of_lt _ _ hlt
    · exact h.left.snoc _ hlt (by simp)
    · -- Only the lowest byte changes.
      have hone : ∀ z : UInt8, beNat [z] = z.toNat := fun z => by simp [beNat]
      have hlo : x.toNat < 2 ^ 8 := x.toNat_lt
      have hrb : rb.toNat < 2 ^ 8 := rb.toNat_lt
      rw [beNat_append, beNat_append, hone, hone, UInt8.toNat_xor, List.length_singleton,
        List.length_singleton, pow_one, Nat.mul_comm]
      apply Nat.eq_of_testBit_eq
      intro i
      rw [Nat.testBit_xor, show (256 : Nat) = 2 ^ 8 by norm_num,
        Nat.testBit_two_pow_mul_add _ hlo, Nat.testBit_two_pow_mul_add _ (Nat.xor_lt_two_pow hlo hrb),
        Nat.testBit_xor]
      split
      · rfl
      · have hfalse : rb.toNat.testBit i = false :=
          Nat.testBit_lt_two_pow (lt_of_lt_of_le hrb (Nat.pow_le_pow_right (by norm_num) (by omega)))
        rw [hfalse, Bool.xor_false]
  · exact ⟨buf, b, rfl, h, rfl, rfl⟩

/-! ## The bits that are tested -/

theorem mask_high (c : UInt8) : c &&& 0x80 ≠ 0 ↔ c.toNat.testBit 7 = true := by
  have hall : ∀ n : Fin 256, UInt8.ofNat n &&& 0x80 ≠ 0 ↔ (UInt8.ofNat n).toNat.testBit 7 = true := by
    decide +kernel
  have h := hall ⟨c.toNat, c.toNat_lt⟩
  rwa [UInt8.ofNat_toNat] at h

theorem mask_next (c : UInt8) : c &&& 0x40 ≠ 0 ↔ c.toNat.testBit 6 = true := by
  have hall : ∀ n : Fin 256, UInt8.ofNat n &&& 0x40 ≠ 0 ↔ (UInt8.ofNat n).toNat.testBit 6 = true := by
    decide +kernel
  have h := hall ⟨c.toNat, c.toNat_lt⟩
  rwa [UInt8.ofNat_toNat] at h

theorem pow_bytes (n : Nat) : 256 ^ n = 2 ^ (8 * n) := by
  rw [Nat.pow_mul]

/-- A bit of the first byte of a text. -/
theorem testBit_beNat_cons (x : UInt8) (r : List UInt8) (j : Nat) :
    (beNat (x :: r)).testBit (8 * r.length + j) = x.toNat.testBit j := by
  have hr : beNat r < 2 ^ (8 * r.length) := by
    rw [← pow_bytes]
    exact beNat_lt r
  rw [beNat_cons, pow_bytes, Nat.mul_comm, Nat.testBit_two_pow_mul_add _ hr, if_neg (by omega),
    Nat.add_sub_cancel_left]

theorem residue_lt (bs : Nat) : residue bs < 2 ^ 8 := by
  unfold residue
  split <;> norm_num

theorem length_double (b : List UInt8) : (double b).length = b.length := length_beBytes _ _

theorem beNat_double {b : List UInt8} (hb : 2 ≤ b.length) :
    beNat (double b) = if (beNat b).testBit (8 * b.length - 1)
      then 2 * beNat b % 256 ^ b.length ^^^ residue b.length else 2 * beNat b % 256 ^ b.length := by
  rw [double, beNat_beBytes]
  split
  · rw [pow_bytes, Nat.mod_eq_of_lt (Nat.xor_lt_two_pow (Nat.mod_lt _ (by positivity)) _)]
    exact lt_of_lt_of_le (residue_lt _) (Nat.pow_le_pow_right (by norm_num) (by omega))
  · rfl

/-- The highest bit of the double is the second one of the block. -/
theorem testBit_double {x : UInt8} {r : List UInt8} (hr : r ≠ []) :
    (beNat (double (x :: r))).testBit (8 * (x :: r).length - 1) = x.toNat.testBit 6 := by
  have hlen : 0 < r.length := List.length_pos_of_ne_nil hr
  have hhigh : (residue (x :: r).length).testBit (8 * (x :: r).length - 1) = false := by
    apply Nat.testBit_lt_two_pow
    apply lt_of_lt_of_le (residue_lt _)
    apply Nat.pow_le_pow_right (by norm_num)
    rw [List.length_cons]
    omega
  have hbit : (2 * beNat (x :: r) % 256 ^ (x :: r).length).testBit (8 * (x :: r).length - 1) =
      x.toNat.testBit 6 := by
    rw [pow_bytes, Nat.testBit_mod_two_pow, ← testBit_beNat_cons x r 6,
      show 8 * (x :: r).length - 1 = 8 * r.length + 6 + 1 by rw [List.length_cons]; omega]
    simp [Nat.testBit_succ]
    omega
  rw [beNat_double (by rw [List.length_cons]; omega)]
  split
  · rw [Nat.testBit_xor, hbit, hhigh, Bool.xor_false]
  · exact hbit

/-- Shift and reduction double a block if the tested bit is its highest one. -/
theorem double_spec {buf : Buf UInt8 16} {b : List UInt8} (h : buf.Holds 0 b) (hb : 2 ≤ b.length)
    {c mask rb : UInt8} (hrb : rb.toNat = residue b.length)
    (hbit : c &&& mask ≠ 0 ↔ (beNat b).testBit (8 * b.length - 1) = true) :
    ∃ w w', shiftleft buf b.length = some w ∧ reduce w b.length c mask rb = some w' ∧
      w'.Holds 0 (double b) := by
  obtain ⟨w, hshift, hw⟩ := shiftleft_spec h (List.ne_nil_of_length_pos (by omega))
  obtain ⟨w', b', hreduce, hw', hlen, hval⟩ :=
    reduce_spec hw (List.ne_nil_of_length_pos (by rw [length_shl]; omega)) c mask rb
  rw [length_shl] at hreduce hlen
  have heq : b' = double b := by
    apply beNat_inj (by rw [hlen, length_double])
    rw [hval, beNat_shl, hrb, beNat_double hb]
    by_cases hset : c &&& mask ≠ 0
    · rw [if_pos hset, if_pos (hbit.mp hset)]
    · rw [if_neg hset, if_neg (fun hc => hset (hbit.mpr hc))]
  rw [heq] at hw'
  exact ⟨w, w', hshift, hreduce, hw'⟩

/-! ## Keys -/

/-- The context has the key of the cipher `E` and its subkeys. -/
structure Keyed (E : BlockCipher) (c : Cmac) : Prop where
  block : c.block = some E
  blksize : c.blksize = E.blksize
  size : E.blksize = 8 ∨ E.blksize = 16
  k1 : c.k1.Holds 0 (subkey1 E)
  k2 : c.k2.Holds 0 (subkey2 E)

theorem setkey_spec (F : CipherFamily) {c : Cmac} (hblk : c.blksize = F.blksize)
    (hsize : F.blksize = 8 ∨ F.blksize = 16) (key : List UInt8) :
    ∃ k1 k2, setkey F c key = some { c with block := some (F.setkey key), k1 := k1, k2 := k2 } ∧
      Keyed (F.setkey key) { c with block := some (F.setkey key), k1 := k1, k2 := k2 } := by
  obtain ⟨E, hE⟩ : ∃ E, E = F.setkey key := ⟨_, rfl⟩
  have hEblk : E.blksize = F.blksize := by rw [hE, F.blksize_setkey]
  have hbs : c.blksize = E.blksize := by rw [hblk, hEblk]
  have hzeros : zeros.toList = List.replicate E.blksize 0 ++ List.replicate (16 - E.blksize) 0 := by
    rw [zeros, Vector.toList_replicate, List.replicate_append_replicate]
    congr 1
    omega
  have hzero : zeros.Holds 0 (List.replicate E.blksize 0) := by
    have hall := Buf.holds_toList zeros
    rw [hzeros] at hall
    exact hall.left
  have hlenL : (E.encrypt (List.replicate E.blksize 0)).length = E.blksize :=
    E.length_encrypt _ (by simp)
  obtain ⟨w, henc, hwrite⟩ := BlockCipher.encryptTo_spec (E := E) c.k1 0 (by simp) hzero (by omega)
  have hw := Buf.holds_write hwrite
  obtain ⟨x, r, hxr⟩ : ∃ x r, E.encrypt (List.replicate E.blksize 0) = x :: r := by
    cases hL : E.encrypt (List.replicate E.blksize 0) with
    | nil =>
      rw [hL, List.length_nil] at hlenL
      omega
    | cons x r => exact ⟨x, r, rfl⟩
  have hload : w.load 0 = some x := by
    rw [hxr] at hw
    exact hw.load_head
  have hr : r ≠ [] := by
    intro hnil
    rw [hxr, hnil, List.length_singleton] at hlenL
    omega
  have hrb : ((if c.blksize = 16 then 0x87 else 0x1b : UInt8)).toNat = residue E.blksize := by
    rw [hbs, residue]
    split <;> rfl
  have hlen1 : (subkey1 E).length = E.blksize := by rw [subkey1, length_double, hlenL]
  have hbit1 : x &&& 0x80 ≠ 0 ↔ (beNat (E.encrypt (List.replicate E.blksize 0))).testBit
      (8 * (E.encrypt (List.replicate E.blksize 0)).length - 1) = true := by
    rw [mask_high, hxr, ← testBit_beNat_cons x r 7, List.length_cons,
      show 8 * (r.length + 1) - 1 = 8 * r.length + 7 by omega]
  have hbit2 : x &&& 0x40 ≠ 0 ↔
      (beNat (subkey1 E)).testBit (8 * (subkey1 E).length - 1) = true := by
    rw [mask_next, subkey1, length_double, hxr, testBit_double hr]
  obtain ⟨w₁, k1, hshift1, hreduce1, hk1⟩ := double_spec hw (by omega) (by rw [hlenL, hrb]) hbit1
  have hread : k1.read 0 c.blksize = some (subkey1 E) := by
    have h := hk1.read
    rw [length_double, hlenL] at h
    rw [hbs]
    exact h
  rw [hlenL, ← hbs] at hshift1 hreduce1
  obtain ⟨w₂, hwrite2⟩ := Buf.exists_write_at c.k2 0 (subkey1 E) (by omega)
  obtain ⟨w₃, k2, hshift2, hreduce2, hk2⟩ :=
    double_spec (Buf.holds_write hwrite2) (by omega) (by rw [hlen1, hrb]) hbit2
  rw [hlen1, ← hbs] at hshift2 hreduce2
  rw [← hE]
  refine ⟨k1, k2, ?_, rfl, hbs, by rwa [hEblk], hk1, hk2⟩
  simp only [setkey, ← hE, henc, hload, hshift1, hreduce1, hread, hwrite2, hshift2, hreduce2,
    Option.bind_eq_bind, Option.bind_some, pure]

end Drew.Mac.Cmac
