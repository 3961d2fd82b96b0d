import Drew.Mode.Gcm.Message

/-!
# Authenticated round trips in GCM

One context encrypts a message and another one decrypts the ciphertext, cut in another way,
with a received tag. The message comes back; the received tag is compared with the one that
was made, and the last call returns the size of its piece as an `int` where they agree. So
success is reported for exactly that tag if and only if this size, modulo `2 ^ 32`, has not
the sign bit set.
-/

namespace Drew.Mode.Gcm

open Drew.Memory Drew.Block Drew.Field Drew.Stream

/-! ## Decryption -/

section Decryption

variable {params : List (String × Nat)} {E : BlockCipher} {iv aad : List UInt8}

theorem gctr_gctr (hE : E.blksize = 16) {j : List UInt8} (hj : j.length = 16) (xs : List UInt8) :
    gctr E j (gctr E j xs) = xs := by
  have hlen := length_keyBlock hE hj
  have hgctr : ∀ ys, (trace (openStep (· ^^^ ·) (keyAt (keyBlock E j) 16)) [] ys).2 = gctr E j ys := by
    intro ys
    rw [open_blocks hlen (m := (ys.length + 15) / 16) (by omega)]
    rfl
  have hseal : (trace (sealStep (· ^^^ ·) (keyAt (keyBlock E j) 16)) [] xs).2 = gctr E j xs := by
    rw [seal_blocks hlen (m := (xs.length + 15) / 16) (by omega)]
    rfl
  rw [← hseal, ← hgctr, open_seal xor_byte_cancel]

/-- Unmasking a part of the ciphertext and the rest of it. -/
theorem Begun.plain_append {c : Gcm} {taglen : Nat} (h : Begun E iv aad taglen c)
    (xs ys : List UInt8) :
    (trace (openGcm E c) [] xs).2 ++ (trace (openGcm E c) xs ys).2 =
      gctr E (initialCounter E iv) (xs ++ ys) := by
  have happ := congrArg Prod.snd (trace_append (openGcm E c) [] xs ys)
  rw [trace_open_history [] xs, List.nil_append] at happ
  refine happ.symm.trans ?_
  rw [openGcm, h.y, open_blocks (length_keyBlock h.keyed.size (length_initialCounter E iv))
    (m := ((xs ++ ys).length + 15) / 16) (by omega)]
  rfl

/-- Decrypt a message in a new context, the last piece and the received tag together. Gives what
is written, and the value of the last call. -/
def decryptMessage (p : Plugin) (params : List (String × Nat)) (E : BlockCipher)
    (iv aad : List UInt8) (pieces : List (List UInt8)) (last received : List UInt8) :
    Option (List UInt8 × Int) := do
  let (c, res) ← start p params E iv
  guard (res = 0)
  let (c, res) ← c.setdata aad
  guard (res = 0)
  let (c, outs) ← run decrypt c pieces
  let (_, out, res) ← c.decryptfinal last.length (last ++ received)
  return (outs.flatten ++ out, res)

theorem decryptMessage_spec (p : Plugin) (hE : E.blksize = 16)
    (haccept : Accepts (tagLength params) iv) (htag : tagLength params ≤ 16) (aad : List UInt8)
    (pieces : List (List UInt8)) (last : List UInt8) {received : List UInt8}
    (hreceived : received.length = tagLength params) :
    ∃ c, Begun E iv aad (tagLength params) c ∧
      decryptMessage p params E iv aad pieces last received =
        some (gctr E (initialCounter E iv) (pieces.flatten ++ last),
          if received ≠ (tagFrom E c (pieces.flatten ++ last)).take (tagLength params) then
            -drewErrVerifyFailed
          else sizeToInt last.length) := by
  obtain ⟨c₀, c₁, hstart, hdata, hbegun⟩ := begin_spec p hE haccept aad
  obtain ⟨c₂, outs, hrun, hflat, hafter⟩ :=
    run_calls (decrypt_refines hbegun.keyed) hbegun.after pieces
  rw [trace_open_history, List.nil_append] at hafter
  obtain ⟨c₃, hfinal⟩ := decryptfinal_spec hbegun.keyed hafter last received
    (by rw [hbegun.taglen, hreceived])
  rw [hbegun.taglen, if_pos htag] at hfinal
  refine ⟨c₁, hbegun, ?_⟩
  rw [← hbegun.plain_append, ← hflat]
  simp only [decryptMessage, hstart, hdata, hrun, hfinal, guard, if_true, Option.bind_eq_bind,
    Option.bind_some, pure]

end Decryption

/-! ## Round trips -/

section RoundTrip

variable {params : List (String × Nat)} {E : BlockCipher} {iv aad : List UInt8}

/-- However the ciphertext is cut, with a last piece of `k` bytes: its decryption gives the message,
and the last call succeeds for exactly the tag that was made. -/
def RoundTrips (p p' : Plugin) (params : List (String × Nat)) (E : BlockCipher) (iv aad : List UInt8)
    (pieces : List (List UInt8)) (last : List UInt8) (outlen k : Nat) : Prop :=
  ∃ cipher tag res,
    encryptMessage p params E iv aad pieces last outlen = some (cipher ++ tag, res) ∧
    cipher.length = (pieces.flatten ++ last).length ∧ tag.length = tagLength params ∧
    ∀ pieces' last' received, pieces'.flatten ++ last' = cipher → last'.length = k →
      received.length = tagLength params →
      ∃ res', decryptMessage p' params E iv aad pieces' last' received =
          some (pieces.flatten ++ last, res') ∧ (0 ≤ res' ↔ received = tag)

/-- The tag depends on what was hashed only, not on the plugin. -/
theorem Begun.tagFrom_unique {c c' : Gcm} {taglen : Nat} (h : Begun E iv aad taglen c)
    (h' : Begun E iv aad taglen c') (C : List UInt8) : tagFrom E c C = tagFrom E c' C := by
  rw [h.tagFrom_eq, h'.tagFrom_eq]

theorem sizeToInt_nonneg (n : Nat) : 0 ≤ sizeToInt n ↔ n % 2 ^ 32 < 2 ^ 31 := by
  rw [sizeToInt, BitVec.toInt_eq_toNat_cond, BitVec.toNat_ofNat]
  split <;> omega

theorem length_gctr (hE : E.blksize = 16) {j : List UInt8} (hj : j.length = 16) (xs : List UInt8) :
    (gctr E j xs).length = xs.length := by
  rw [gctr, length_xorBytes, length_blocks (length_keyBlock hE hj)]
  omega

/-- What one side makes and the other one compares with. -/
theorem roundTrips_of (p p' : Plugin) (hE : E.blksize = 16) (haccept : Accepts (tagLength params) iv)
    (htag : tagLength params ≤ 16) (aad : List UInt8) (pieces : List (List UInt8)) (last : List UInt8)
    {outlen k : Nat} (hout : last.length + tagLength params ≤ outlen) (hk : k % 2 ^ 32 < 2 ^ 31) :
    RoundTrips p p' params E iv aad pieces last outlen k := by
  obtain ⟨c, hbegun, henc⟩ := encryptMessage_spec p hE haccept aad pieces last hout
  rw [if_pos htag] at henc
  have hj := length_initialCounter E iv
  refine ⟨_, _, _, henc, length_gctr hE hj _, ?_, ?_⟩
  · rw [List.length_take, length_tagFrom hbegun.keyed]
    omega
  · intro pieces' last' received hcipher hlast hreceived
    obtain ⟨c', hbegun', hdec⟩ :=
      decryptMessage_spec p' hE haccept htag aad pieces' last' hreceived
    rw [hcipher, gctr_gctr hE hj, hbegun'.tagFrom_unique hbegun] at hdec
    refine ⟨_, hdec, ?_⟩
    split
    · rename_i hne
      exact iff_of_false (by decide) hne
    · rename_i heq
      exact iff_of_true ((sizeToInt_nonneg _).mpr (by rwa [hlast])) (not_not.mp heq)

/-- The last call on the whole message with its tag must not return a negative size. -/
theorem RoundTrips.size {p p' : Plugin} {pieces : List (List UInt8)} {last : List UInt8}
    {outlen k : Nat} (h : RoundTrips p p' params E iv aad pieces last outlen k)
    (hE : E.blksize = 16) (haccept : Accepts (tagLength params) iv) (htag : tagLength params ≤ 16)
    (hk : k ≤ (pieces.flatten ++ last).length) : k % 2 ^ 32 < 2 ^ 31 := by
  obtain ⟨cipher, tag, res, -, hcipher, hlen, hall⟩ := h
  have hlast : (cipher.drop (cipher.length - k)).length = k := by
    rw [List.length_drop]
    omega
  obtain ⟨res', hdec, hres⟩ := hall [cipher.take (cipher.length - k)] (cipher.drop (cipher.length - k)) tag
    (by simp) hlast hlen
  obtain ⟨c, -, hdec'⟩ := decryptMessage_spec p' hE haccept htag aad
    [cipher.take (cipher.length - k)] (cipher.drop (cipher.length - k)) hlen
  rw [hdec, Option.some_inj, Prod.mk_inj] at hdec'
  have hpos := hres.mpr rfl
  rw [hdec'.2] at hpos
  split at hpos
  · exact absurd hpos (by decide)
  · rwa [sizeToInt_nonneg, hlast] at hpos

/-- Round trips succeed if and only if the vector is accepted, the tag fits in `x`, and the size of
the last piece of ciphertext is not negative as an `int`. -/
theorem gcm_roundTrip_iff (p p' : Plugin) (params : List (String × Nat)) {E : BlockCipher}
    (hE : E.blksize = 16) (iv aad : List UInt8) (pieces : List (List UInt8)) (last : List UInt8)
    {outlen k : Nat} (hout : last.length + tagLength params ≤ outlen)
    (hk : k ≤ (pieces.flatten ++ last).length) :
    RoundTrips p p' params E iv aad pieces last outlen k ↔
      (iv.length = 12 ∨ tagLength params = 16) ∧ tagLength params ≤ 16 ∧ k % 2 ^ 32 < 2 ^ 31 := by
  constructor
  · intro h
    obtain ⟨cipher, tag, res, henc, -⟩ := id h
    obtain ⟨haccept, htag⟩ := encryptMessage_some hE hout henc
    exact ⟨haccept, htag, h.size hE haccept htag hk⟩
  · intro h
    obtain ⟨haccept, htag, hsize⟩ := h
    exact roundTrips_of p p' hE haccept htag aad pieces last hout hsize

theorem gcm_roundTrip_iff_three :
    RoundTrips .gcm .gcmPclmulqdq [("tagLength", 12)] addConstant (List.replicate 12 0) [7] [[1], []]
        [2, 3] 14 2 ↔
      ((List.replicate 12 (0 : UInt8)).length = 12 ∨ tagLength [("tagLength", 12)] = 16) ∧
        tagLength [("tagLength", 12)] ≤ 16 ∧ 2 % 2 ^ 32 < 2 ^ 31 :=
  gcm_roundTrip_iff .gcm .gcmPclmulqdq [("tagLength", 12)] rfl (List.replicate 12 0) [7] [[1], []]
    [2, 3] (by decide) (by decide)

theorem gcm_roundTrip_negative_size :
    ¬RoundTrips .gcm .gcm [] addConstant (List.replicate 12 0) [] [] (List.replicate (2 ^ 31) 0)
      (2 ^ 31 + 16) (2 ^ 31) := by
  intro h
  have hlen : 2 ^ 31 ≤ (List.flatten [] ++ List.replicate (2 ^ 31) (0 : UInt8)).length := by
    rw [List.flatten_nil, List.nil_append, List.length_replicate]
  have hsize := h.size rfl (Or.inl rfl) (by decide) hlen
  exact absurd hsize (by norm_num)

end RoundTrip

end Drew.Mode.Gcm
