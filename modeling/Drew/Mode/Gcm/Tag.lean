import Drew.Mode.Gcm.Setup

/-!
# Ciphertext and tag of GCM

However a message is cut into calls, the bytes that are written are the message masked with
the keystream, followed by the tag for the blocks that were hashed. These are the specified
blocks, except where additional data ends with a whole block: then a zero block is hashed
after it.
-/

namespace Drew.Mode.Gcm

open Drew.Memory Drew.Block Drew.Field Drew.Stream

/-! ## The last calls -/

section Final

variable {E : BlockCipher} {c₁ c : Gcm} {C : List UInt8}

/-- The tag for a ciphertext that was begun in the context `c₁`. -/
def tagFrom (E : BlockCipher) (c₁ : Gcm) (C : List UInt8) : List UInt8 :=
  xorBytes (toBytes (ghash (hashKey E) (ofBytes c₁.x.toList)
    (padBlocks C ++ [ofBytes (lengthBlock c₁.alen (c₁.clen + C.length))]))) (E.encrypt c₁.y0.toList)

theorem lengthBlock_mod (a b : Nat) : lengthBlock a (b % 2 ^ 64) = lengthBlock a b := by
  rw [lengthBlock, lengthBlock, ← beBytes_mod 8 (8 * b), ← beBytes_mod 8 (8 * (b % 2 ^ 64))]
  congr 2
  omega

/-- The unfinished block is filled up and hashed, if there is one. -/
theorem finishBlock_spec (hc : Keyed E c₁) (h : After E c₁ c C) :
    ∃ c', c.finishBlock = some c' ∧ Keyed E c' ∧ c'.y0 = c₁.y0 ∧ c'.alen = c₁.alen ∧
      c'.taglen = c₁.taglen ∧ c'.clen = (c₁.clen + C.length) % 2 ^ 64 ∧
      ofBytes c'.x.toList = ghash (hashKey E) (ofBytes c₁.x.toList) (padBlocks C) := by
  obtain ⟨hlt, hAt⟩ := h
  unfold At at hAt
  split at hAt
  · rename_i h0
    obtain ⟨q, hC, hprog⟩ := hAt
    have hblocks : padBlocks C = toBlocks q C := by
      rw [padBlocks, hC, show (q * 16 + 15) / 16 = q by omega]
    refine ⟨c, by simp [finishBlock, h0], hprog.keyed hc, ?_, ?_, ?_, ?_, by rw [hprog.hashed, hblocks]⟩
    all_goals rw [hprog.frame]
  · rename_i h0
    obtain ⟨-, q, hC, hprog, -, hcbuf⟩ := hAt
    have hdrop : (C.drop (q * 16)).length = c.boff := by
      rw [List.length_drop]
      omega
    have htake : (C.take (q * 16)).length = 16 * q := by
      rw [List.length_take]
      omega
    have hsub : subSize c.blksize c.boff = 16 - c.boff := by
      rw [(hprog.keyed hc).blksize]
      exact subSize_of_le (by omega) (by omega)
    obtain ⟨cbuf, hwrite⟩ := Buf.exists_write_at c.cbuf c.boff
      (List.replicate (16 - c.boff) 0) (by simp; omega)
    have hfull : cbuf.toList = padBlock (C.drop (q * 16)) := by
      have hleft := hcbuf.write_of_disjoint hwrite (Or.inr (by omega))
      have hright := Buf.holds_write hwrite
      rw [padBlock, hdrop]
      refine (hleft.append ?_).toList (by simp; omega)
      rwa [Nat.zero_add, hdrop]
    have hpad : padBlocks C = toBlocks q C ++ [ofBytes (padBlock (C.drop (q * 16)))] := by
      have happ := padBlocks_append htake (b := C.drop (q * 16)) (by omega)
      rwa [List.take_append_drop, if_neg (by omega),
        ← toBlocks_append_left htake.ge (C.drop (q * 16)), List.take_append_drop] at happ
    have hkeyed : Keyed E { c with cbuf := cbuf } :=
      ⟨(hprog.keyed hc).algo, (hprog.keyed hc).blksize, hc.size, (hprog.keyed hc).multiplies⟩
    obtain ⟨x, hhash, hx⟩ := hash_block hkeyed c.x cbuf.toList (by simp)
    refine ⟨{ c with cbuf := cbuf, x := x }, ?_, ?_, ?_, ?_, ?_, ?_, ?_⟩
    · rw [finishBlock, if_pos h0, hsub]
      simp only [hwrite, hashCbuf, hhash, Option.bind_eq_bind, Option.bind_some]
      rfl
    · exact ⟨hkeyed.algo, hkeyed.blksize, hc.size, hkeyed.multiplies⟩
    · rw [hprog.frame]
    · rw [hprog.frame]
    · rw [hprog.frame]
    · rw [hprog.frame]
    · rw [hx, hprog.hashed, hfull, hpad, ghash_append]

/-- The tag is in `x` at the end. -/
theorem finishTag_spec (hc : Keyed E c₁) (h : After E c₁ c C) :
    ∃ c', c.finishTag = some c' ∧ c'.x.toList = tagFrom E c₁ C ∧ c'.taglen = c₁.taglen := by
  obtain ⟨c₂, hfinish, hkeyed, hy0, halen, htaglen, hclen, hx₂⟩ := finishBlock_spec hc h
  obtain ⟨x, hhash, hx⟩ := hash_block hkeyed c₂.x
    (lengthBuf c₂.alen c₂.clen).toList (by simp)
  have hlen : c₂.y0.toList.length = E.blksize := by rw [Vector.length_toList, hc.size]
  have hmask : (E.encrypt c₂.y0.toList).length = 16 := by rw [E.length_encrypt _ hlen, hc.size]
  obtain ⟨buf, henc, hwrite⟩ := BlockCipher.encryptTo_spec (lengthBuf c₂.alen c₂.clen) 0 hlen
    (Buf.holds_toList c₂.y0) (by rw [hc.size])
  obtain ⟨x', hxor, hwrite'⟩ := xorAligned_spec x 0 (show 16 ∣ 16 by norm_num) (by simp) hmask
    (Buf.holds_toList x) (Buf.holds_write hwrite) (by omega)
  refine ⟨{ c₂ with x := x', buf := buf }, ?_, ?_, htaglen⟩
  · simp only [finishTag, hfinish, hhash, hkeyed.algo, henc, hkeyed.blksize, hxor, Option.bind_eq_bind,
      Option.bind_some]
    rfl
  · have hval : ofBytes x.toList = ghash (hashKey E) (ofBytes c₁.x.toList)
        (padBlocks C ++ [ofBytes (lengthBlock c₁.alen (c₁.clen + C.length))]) := by
      rw [hx, hx₂, ghash_append, toList_lengthBuf, halen, hclen, lengthBlock_mod]
    rw [(Buf.holds_write hwrite').toList (by simp [hmask]), tagFrom, ← hval, toBytes_ofBytes (by simp),
      hy0]

/-- The tag has 16 bytes, and at most that many are given out. -/
theorem readTag_spec {x : Buf UInt8 16} {tag : List UInt8} (hx : x.toList = tag) (n : Nat) :
    x.read 0 n = if n ≤ 16 then some (tag.take n) else none := by
  rw [Buf.read, hx, List.drop_zero, Nat.zero_add]

theorem length_tagFrom (hc : Keyed E c₁) : (tagFrom E c₁ C).length = 16 := by
  have hmask : (E.encrypt c₁.y0.toList).length = 16 := by
    rw [E.length_encrypt _ (by rw [Vector.length_toList, hc.size]), hc.size]
  simp [tagFrom, hmask]

theorem After.taglen (h : After E c₁ c C) : c.taglen = c₁.taglen := by
  obtain ⟨q, n, hprog⟩ := at_progress h.2
  rw [hprog.frame]

/-- The last call of encryption, given enough space. -/
theorem encryptfinal_spec (hc : Keyed E c₁) (h : After E c₁ c C) {outlen : Nat} (last : List UInt8)
    (hout : last.length + c₁.taglen ≤ outlen) :
    ∃ c', c.encryptfinal outlen last =
      if c₁.taglen ≤ 16 then some (c', (trace (sealGcm E c₁) C last).2 ++
        (tagFrom E c₁ (C ++ (trace (sealGcm E c₁) C last).2)).take c₁.taglen, sizeToInt outlen)
      else none := by
  obtain ⟨c₂, henc, hafter⟩ := encrypt_refines hc c C last h
  rw [trace_seal_history] at hafter
  obtain ⟨c', htag, hx, htaglen⟩ := finishTag_spec hc hafter
  have hspace : ¬outlen < (last.length + c.taglen) % 2 ^ 64 := by
    have hmod := Nat.mod_le (last.length + c.taglen) (2 ^ 64)
    rw [h.taglen] at hmod ⊢
    omega
  refine ⟨c', ?_⟩
  rw [encryptfinal, if_neg hspace]
  simp only [henc, htag, readTag_spec hx, htaglen, Option.bind_eq_bind, Option.bind_some]
  split <;> rfl

/-- The last call of decryption, on ciphertext and a tag. -/
theorem decryptfinal_spec (hc : Keyed E c₁) (h : After E c₁ c C) (cipher tag : List UInt8)
    (htag : tag.length = c₁.taglen) :
    ∃ c', c.decryptfinal cipher.length (cipher ++ tag) =
      if c₁.taglen ≤ 16 then some (c', (trace (openGcm E c₁) C cipher).2,
        if tag ≠ (tagFrom E c₁ (C ++ cipher)).take c₁.taglen then -drewErrVerifyFailed
        else sizeToInt cipher.length)
      else none := by
  obtain ⟨c₂, hdec, hafter⟩ := decrypt_refines hc c C cipher h
  rw [trace_open_history] at hafter
  obtain ⟨c', htag', hx, htaglen⟩ := finishTag_spec hc hafter
  have hread : readText (cipher ++ tag) 0 cipher.length = some cipher := by
    rw [readText, if_pos (by simp), List.drop_zero, List.take_left]
  have hread' : readText (cipher ++ tag) cipher.length c₁.taglen = some tag := by
    rw [readText, if_pos (by simp [htag]), List.drop_left, List.take_of_length_le htag.le]
  refine ⟨c', ?_⟩
  simp only [decryptfinal, hread, hdec, htag', readTag_spec hx, htaglen, hread', Option.bind_eq_bind,
    Option.bind_some]
  split <;> rfl

end Final

end Drew.Mode.Gcm
