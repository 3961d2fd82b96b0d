import Drew.Mode.Gcm.Model
import Drew.Mode.Gcm.Spec

/-!
# The byte interface of GCM

A context whose multiplication is that with `E(0)` hashes whole blocks as specified
(`hash_spec`, `hashBlocks_spec`). From such a context, the calls of `gcm_encrypt` and
`gcm_decrypt` refine masking with the keystream, byte by byte; encryption hashes what it
writes and decryption what it reads, so both keep the hash of the whole blocks of ciphertext
so far, and `cbuf` has the rest of it.
-/

namespace Drew.Mode.Gcm

open Drew.Memory Drew.Block Drew.Field Drew.Stream

/-! ## Hashing -/

section Hash

variable {E : BlockCipher} {c : Gcm}

/-- The routine multiplies with `H`. -/
def Multiplies (c : Gcm) (H : BitVec 128) : Prop :=
  ∀ buf, ∃ out, c.multiply buf = some out ∧ ofBytes out.toList = product (ofBytes buf.toList) H

/-- A context with a cipher and the key of the hash. -/
structure Keyed (E : BlockCipher) (c : Gcm) : Prop where
  algo : c.algo = some E
  blksize : c.blksize = 16
  size : E.blksize = 16
  multiplies : Multiplies c (hashKey E)

theorem xorBuffers_spec (buf : Buf UInt8 16) {block : List UInt8} (hb : 16 ≤ block.length) :
    ∃ out, xorBuffers buf block 16 = some out ∧
      ofBytes out.toList = ofBytes buf.toList ^^^ ofBytes (block.take 16) := by
  have hread := (Buf.holds_toList buf).read
  rw [Vector.length_toList] at hread
  have hlen : (xorBytes buf.toList (block.take 16)).length = 16 := by simp; omega
  obtain ⟨out, hout⟩ := Buf.exists_write_at buf 0 (xorBytes buf.toList (block.take 16))
    (by omega)
  refine ⟨out, by simp [xorBuffers, hread, hb, hout], ?_⟩
  rw [(Buf.holds_write hout).toList hlen, ofBytes_xorBytes (by simp) (by simp; omega)]

/-- One block. -/
theorem hash_spec (hc : Keyed E c) (buf : Buf UInt8 16) (block : List UInt8)
    (hb : 16 ≤ block.length) :
    ∃ out, c.hash buf block = some out ∧
      ofBytes out.toList = product (ofBytes buf.toList ^^^ ofBytes (block.take 16)) (hashKey E) := by
  obtain ⟨sum, hxor, hsum⟩ := xorBuffers_spec buf hb
  obtain ⟨out, hmul, hout⟩ := hc.multiplies sum
  exact ⟨out, by simp [hash, hc.blksize, hxor, hmul], by rw [hout, hsum]⟩

/-- A block of 16 bytes is added to the hash. -/
theorem hash_block (hc : Keyed E c) (buf : Buf UInt8 16) (block : List UInt8)
    (hb : block.length = 16) :
    ∃ out, c.hash buf block = some out ∧
      ofBytes out.toList = ghash (hashKey E) (ofBytes buf.toList) [ofBytes block] := by
  obtain ⟨out, hrun, hout⟩ := hash_spec hc buf block hb.ge
  exact ⟨out, hrun, by rw [hout, List.take_of_length_le hb.le, ghash_singleton]⟩

/-- The whole blocks of a text. -/
theorem hashBlocks_spec (hc : Keyed E c) (n : Nat) (buf : Buf UInt8 16) (data : List UInt8)
    (hlen : 16 * n ≤ data.length) :
    ∃ out, c.hashBlocks n buf data = some (out, data.drop (16 * n)) ∧
      ofBytes out.toList = ghash (hashKey E) (ofBytes buf.toList) (toBlocks n data) := by
  induction n generalizing buf data with
  | zero => exact ⟨buf, rfl, rfl⟩
  | succ n ih =>
    obtain ⟨buf₁, hhash, hbuf₁⟩ := hash_spec hc buf data (by omega)
    obtain ⟨out, hrun, hout⟩ := ih buf₁ (data.drop 16) (by simp; omega)
    refine ⟨out, ?_, ?_⟩
    · rw [hashBlocks, hhash, Option.bind_eq_bind, Option.bind_some, hrun, List.drop_drop]
      rw [show 16 + 16 * n = 16 * (n + 1) by omega]
    · have hpad : padBlock (data.take 16) = data.take 16 := padBlock_of_length (by simp; omega)
      rw [hout, hbuf₁, toBlocks, hpad]
      rfl

theorem copyPadded_spec {data : List UInt8} {len : Nat} (hlen : len < 16) (hdata : data.length = len) :
    ∃ buf, copyPadded data len = some buf ∧ buf.toList = padBlock data := by
  have htake : data.take len = data := List.take_of_length_le hdata.le
  obtain ⟨buf, hbuf⟩ := Buf.exists_write_at zeroBlock 0 data (by omega)
  refine ⟨buf, by rw [copyPadded, htake, hbuf], ?_⟩
  apply List.ext_getElem?
  intro i
  have hget := Buf.getElem?_write hbuf i
  rw [if_neg (by omega), Nat.zero_add, Nat.sub_zero] at hget
  rw [Vector.getElem?_toList, hget, padBlock]
  by_cases hi : i < data.length
  · rw [if_pos hi, List.getElem?_append_left hi]
  · rw [if_neg hi, List.getElem?_append_right (by omega), zeroBlock]
    by_cases hi' : i < 16
    · simp [hi', show i - data.length < 16 - data.length by omega]
    · simp [hi', show ¬i - data.length < 16 - data.length by omega]

theorem toList_lengthBuf (a b : Nat) : (lengthBuf a b).toList = lengthBlock a b := by
  have hshift : ∀ n : Nat, beBytes 8 (BitVec.ofNat 64 n <<< 3).toNat = beBytes 8 (8 * n) := by
    intro n
    rw [← beBytes_mod 8 (8 * n), BitVec.toNat_shiftLeft, BitVec.toNat_ofNat, Nat.shiftLeft_eq,
      Nat.mod_mul_mod, Nat.mul_comm]
    rfl
  rw [lengthBuf, toList_copyFromPair, lengthBlock, hshift, hshift]

theorem length_lengthBlock (a b : Nat) : (lengthBlock a b).length = 16 := by
  simp [lengthBlock]

end Hash

/-! ## Blocks of keystream -/

section Keystream

variable {E : BlockCipher} {c₁ c : Gcm} {clen q n : Nat} {C : List UInt8}

theorem incrementCounter_spec (v : Buf UInt8 16) :
    ∃ w, incrementCounter v 16 = some w ∧ w.toList = inc32 v.toList := by
  have hlen : v.toList.length = 16 := by simp
  have hv := Buf.holds_toList v
  rw [← List.take_append_drop 12 v.toList] at hv
  have hlow := hv.right
  rw [List.length_take, hlen, Nat.zero_add] at hlow
  have hne : v.toList.drop 12 ≠ [] := by
    intro hnil
    have := congrArg List.length hnil
    simp at this
  obtain ⟨w, hrun, hw, hout⟩ := increment_bytes (i := 15) hlow hne (by simp)
  refine ⟨w, hrun, ?_⟩
  have hhigh : w.Holds 0 (v.toList.take 12) := by
    refine ⟨by simp, fun i hi => ?_⟩
    have hi' : i < 12 := by
      rw [List.length_take, hlen] at hi
      omega
    rw [Nat.zero_add, hout i (Or.inl (by omega)), List.getElem?_take_of_lt hi']
    simp
  have hlow' : w.Holds (0 + (v.toList.take 12).length)
      (beBytes (v.toList.drop 12).length (beNat (v.toList.drop 12) + 1)) := by
    rwa [List.length_take, hlen, Nat.zero_add]
  have hall := hhigh.append hlow'
  rw [hall.toList (by simp), inc32]
  simp

/-- How far a context has come since `c₁`: it counted `n` blocks and hashed the first `q` blocks
of the ciphertext `C`. Besides, only `buf`, `cbuf`, `boff` and `clen` changed. -/
structure Progress (E : BlockCipher) (c₁ : Gcm) (clen : Nat) (c : Gcm) (q n : Nat)
    (C : List UInt8) : Prop where
  frame : c = { c₁ with
    y := c.y, x := c.x, buf := c.buf, cbuf := c.cbuf, boff := c.boff, clen := clen }
  counter : c.y.toList = inc32^[n] c₁.y.toList
  hashed : ofBytes c.x.toList =
    ghash (hashKey E) (ofBytes c₁.x.toList) (toBlocks q C)

theorem Progress.keyed (h : Progress E c₁ clen c q n C) (hc : Keyed E c₁) : Keyed E c := by
  rw [h.frame]
  exact ⟨hc.algo, hc.blksize, hc.size, hc.multiplies⟩

/-- Between two blocks. -/
def Idle (E : BlockCipher) (c₁ : Gcm) (clen : Nat) (c : Gcm) (C : List UInt8) : Prop :=
  ∃ q, C.length = q * 16 ∧ Progress E c₁ clen c q q C

/-- At offset `i` of a block, whose keystream is in `buf`. -/
def Mid (E : BlockCipher) (c₁ : Gcm) (clen : Nat) (c : Gcm) (i : Nat) (C : List UInt8) : Prop :=
  ∃ q, C.length = q * 16 + i ∧ Progress E c₁ clen c q (q + 1) C ∧
    c.buf.toList = keyBlock E c₁.y.toList q ∧ c.cbuf.Holds 0 (C.drop (q * 16))

theorem length_keyBlock (hE : E.blksize = 16) {j : List UInt8} (hj : j.length = 16) (q : Nat) :
    (keyBlock E j q).length = 16 := by
  rw [keyBlock, E.length_encrypt _ (by rw [length_inc32s hj, hE]), hE]

theorem nextBlock_spec (hc : Keyed E c₁) (h : Progress E c₁ clen c q n C) :
    ∃ y buf, c.nextBlock = some { c with y := y, buf := buf } ∧
      Progress E c₁ clen { c with y := y, buf := buf } q (n + 1) C ∧
      buf.toList = keyBlock E c₁.y.toList n := by
  have hkeyed := h.keyed hc
  obtain ⟨y, hinc, hy⟩ := incrementCounter_spec c.y
  have hlen : y.toList.length = E.blksize := by rw [Vector.length_toList, hc.size]
  obtain ⟨buf, hbuf, hwrite⟩ := BlockCipher.encryptTo_spec c.buf 0 hlen (Buf.holds_toList y)
    (by rw [hc.size])
  have hy' : y.toList = inc32^[n + 1] c₁.y.toList := by
    rw [hy, h.counter, Function.iterate_succ_apply']
  refine ⟨y, buf, by simp [nextBlock, hkeyed.blksize, hkeyed.algo, hinc, hbuf], ⟨?_, hy', h.hashed⟩, ?_⟩
  · rw [h.frame]
  · have hblock := (Buf.holds_write hwrite).toList (by rw [E.length_encrypt _ hlen, hc.size])
    rw [hblock, hy', keyBlock]

/-- Hash the next block of the ciphertext. -/
theorem hash_next (hc : Keyed E c₁) (h : Progress E c₁ clen c q n C) {block : List UInt8}
    (hblock : block.length = 16) {C' : List UInt8}
    (hC' : toBlocks (q + 1) C' = toBlocks q C ++ [ofBytes block]) :
    ∃ x, c.hash c.x block = some x ∧ Progress E c₁ clen { c with x := x } (q + 1) n C' := by
  obtain ⟨x, hrun, hx⟩ := hash_block (h.keyed hc) c.x block hblock
  refine ⟨x, hrun, ⟨?_, h.counter, ?_⟩⟩
  · rw [h.frame]
  · rw [hx, h.hashed, hC', ghash_append]

theorem refill_spec (hc : Keyed E c₁) (h : Idle E c₁ clen c C) :
    ∃ c', c.nextBlock = some c' ∧ Mid E c₁ clen c' 0 C := by
  obtain ⟨q, hC, hprog⟩ := h
  obtain ⟨y, buf, hrun, hprog', hbuf⟩ := nextBlock_spec hc hprog
  refine ⟨_, hrun, q, hC, hprog', hbuf, ?_⟩
  rw [← hC, List.drop_length]
  exact Buf.holds_nil (Nat.zero_le _)

/-- One byte of keystream, for a byte of ciphertext that is stored in `cbuf`. -/
theorem byte_spec {i : Nat} (hc : Keyed E c₁) (h : Mid E c₁ clen c i C) (hi : i < 16) (b : UInt8) :
    c.buf.load i = some (keyAt (keyBlock E c₁.y.toList) 16 C) ∧
      ∃ cbuf, c.cbuf.store i b = some cbuf ∧
        Mid E c₁ clen { c with cbuf := cbuf } (i + 1) (C ++ [b]) := by
  obtain ⟨q, hC, hprog, hbuf, hcbuf⟩ := h
  have hlen := length_keyBlock hc.size (j := c₁.y.toList) (by simp) q
  have hget : (keyBlock E c₁.y.toList q)[i]? = some (keyBlock E c₁.y.toList q)[i] :=
    List.getElem?_eq_getElem (by omega)
  constructor
  · rw [keyAt_eq hi hC hget, ← hget, ← hbuf, Buf.load]
    simp
  · have hdrop : (C.drop (q * 16)).length = i := by
      rw [List.length_drop]
      omega
    refine ⟨c.cbuf.set i b hi, Buf.store_of_lt c.cbuf b hi, q, ?_, ⟨?_, hprog.counter, ?_⟩, hbuf, ?_⟩
    · rw [List.length_append, List.length_singleton]
      omega
    · rw [hprog.frame]
    · rw [toBlocks_append_left (by omega)]
      exact hprog.hashed
    · rw [List.drop_append_of_le_length (by omega)]
      exact hcbuf.snoc b hi (by omega)

theorem close_spec (hc : Keyed E c₁) (h : Mid E c₁ clen c 16 C) :
    ∃ c', c.hashCbuf = some c' ∧ Idle E c₁ clen c' C := by
  obtain ⟨q, hC, hprog, -, hcbuf⟩ := h
  have hdrop : (C.drop (q * 16)).length = 16 := by
    rw [List.length_drop]
    omega
  have htake : (C.take (q * 16)).length = 16 * q := by
    rw [List.length_take]
    omega
  have hblocks : toBlocks (q + 1) C = toBlocks q C ++ [ofBytes (C.drop (q * 16))] := by
    have hsnoc := toBlocks_snoc htake hdrop.le
    rwa [List.take_append_drop, padBlock_of_length hdrop,
      ← toBlocks_append_left htake.ge (C.drop (q * 16)), List.take_append_drop] at hsnoc
  obtain ⟨x, hrun, hprog'⟩ := hash_next hc hprog hdrop hblocks
  refine ⟨_, by rw [hashCbuf, hcbuf.toList hdrop, hrun]; rfl, q + 1, by omega, hprog'⟩

/-- A whole block, once its keystream and its ciphertext are known. -/
theorem whole_spec (hc : Keyed E c₁) (hC : C.length = q * 16) (h : Progress E c₁ clen c q q C)
    (block : List UInt8) (hblock : block.length = 16) :
    ∃ c' x, c.nextBlock = some c' ∧ c'.blksize = 16 ∧
      c'.buf.read 0 16 = some (keyBlock E c₁.y.toList q) ∧ c'.hash c'.x block = some x ∧
      Idle E c₁ clen { c' with x := x } (C ++ block) := by
  obtain ⟨y, buf, hrun, hprog, hbuf⟩ := nextBlock_spec hc h
  have hblocks : toBlocks (q + 1) (C ++ block) = toBlocks q C ++ [ofBytes block] := by
    rw [toBlocks_snoc (by omega) hblock.le, padBlock_of_length hblock]
  obtain ⟨x, hhash, hprog'⟩ := hash_next hc hprog hblock hblocks
  have hread := (Buf.holds_toList buf).read
  rw [Vector.length_toList, hbuf] at hread
  refine ⟨_, x, hrun, (hprog.keyed hc).blksize, hread, hhash, q + 1, ?_, hprog'⟩
  rw [List.length_append]
  omega

end Keystream

/-! ## Calls -/

section Calls

variable {E : BlockCipher} {c₁ : Gcm}

/-- Mask with the keystream from the counter of `c₁` on. -/
abbrev sealGcm (E : BlockCipher) (c₁ : Gcm) : List UInt8 → UInt8 → List UInt8 × UInt8 :=
  sealStep (· ^^^ ·) (keyAt (keyBlock E c₁.y.toList) 16)

abbrev openGcm (E : BlockCipher) (c₁ : Gcm) : List UInt8 → UInt8 → List UInt8 × UInt8 :=
  openStep (· ^^^ ·) (keyAt (keyBlock E c₁.y.toList) 16)

theorem encryptOps_refines (hc : Keyed E c₁) (clen : Nat) :
    Refines encryptOps 16 (sealGcm E c₁) (Idle E c₁ clen) (Mid E c₁ clen) where
  refill _ _ h := refill_spec hc h
  body := by
    intro c i C b h hi
    obtain ⟨hload, cbuf, hstore, hmid⟩ := byte_spec hc h hi (keyAt (keyBlock E c₁.y.toList) 16 C ^^^ b)
    exact ⟨_, by simp [encryptOps, encryptByte, hload, hstore, sealStep], hmid⟩
  close _ _ h := close_spec hc h
  whole := by
    intro c C xs h hlen
    obtain ⟨q, hC, hprog⟩ := h
    have hkey := length_keyBlock hc.size (j := c₁.y.toList) (by simp) q
    have hout : (trace (sealGcm E c₁) C xs).2 = xorBytes (keyBlock E c₁.y.toList q) xs :=
      seal_block hC hkey hlen.le
    obtain ⟨c', x, hnext, hblk, hread, hhash, hidle⟩ :=
      whole_spec hc hC hprog (trace (sealGcm E c₁) C xs).2 (by simp [hlen])
    rw [trace_seal_history]
    refine ⟨_, ?_, hidle⟩
    simp [encryptOps, encryptBlock, hnext, hblk, hread, ← hout, hhash]

theorem decryptOps_refines (hc : Keyed E c₁) (clen : Nat) :
    Refines decryptOps 16 (openGcm E c₁) (Idle E c₁ clen) (Mid E c₁ clen) where
  refill _ _ h := refill_spec hc h
  body := by
    intro c i C b h hi
    obtain ⟨hload, cbuf, hstore, hmid⟩ := byte_spec hc h hi b
    exact ⟨_, by simp [decryptOps, decryptByte, hload, hstore, openStep], hmid⟩
  close _ _ h := close_spec hc h
  whole := by
    intro c C xs h hlen
    obtain ⟨q, hC, hprog⟩ := h
    have hkey := length_keyBlock hc.size (j := c₁.y.toList) (by simp) q
    have hout : (trace (openGcm E c₁) C xs).2 = xorBytes (keyBlock E c₁.y.toList q) xs :=
      open_block hC hkey hlen.le
    obtain ⟨c', x, hnext, hblk, hread, hhash, hidle⟩ := whole_spec hc hC hprog xs hlen
    rw [trace_open_history, hout]
    refine ⟨_, ?_, hidle⟩
    simp [decryptOps, decryptBlock, hnext, hblk, hread, hhash]

/-- The states between two calls, after a ciphertext `C`. -/
def After (E : BlockCipher) (c₁ c : Gcm) (C : List UInt8) : Prop :=
  c.boff < 16 ∧ At 16 (Idle E c₁ ((c₁.clen + C.length) % 2 ^ 64))
    (Mid E c₁ ((c₁.clen + C.length) % 2 ^ 64)) c c.boff C

theorem Progress.update {clen q n : Nat} {c : Gcm} {C : List UInt8} (clen' boff : Nat)
    (h : Progress E c₁ clen c q n C) :
    Progress E c₁ clen' { c with clen := clen', boff := boff } q n C := by
  refine ⟨?_, h.counter, h.hashed⟩
  rw [h.frame]

theorem at_progress {clen b : Nat} {c : Gcm} {C : List UInt8}
    (h : At 16 (Idle E c₁ clen) (Mid E c₁ clen) c b C) : ∃ q n, Progress E c₁ clen c q n C := by
  unfold At at h
  split at h
  · obtain ⟨q, -, hprog⟩ := h
    exact ⟨q, q, hprog⟩
  · obtain ⟨-, q, -, hprog, -⟩ := h
    exact ⟨q, q + 1, hprog⟩

/-- Setting the offset and the length does not disturb. -/
theorem at_update {clen b : Nat} {c : Gcm} {C : List UInt8} (clen' boff : Nat)
    (h : At 16 (Idle E c₁ clen) (Mid E c₁ clen) c b C) :
    At 16 (Idle E c₁ clen') (Mid E c₁ clen') { c with clen := clen', boff := boff } b C := by
  apply h.imp
  · intro hidle
    obtain ⟨q, hC, hprog⟩ := hidle
    exact ⟨q, hC, hprog.update clen' boff⟩
  · intro hmid
    obtain ⟨q, hC, hprog, hbuf, hcbuf⟩ := hmid
    exact ⟨q, hC, hprog.update clen' boff, hbuf, hcbuf⟩

/-- What is common to the calls of both functions. -/
theorem crypt_refines (hc : Keyed E c₁) {M : UnitOps Gcm UInt8 UInt8}
    {step : List UInt8 → UInt8 → List UInt8 × UInt8}
    (hM : ∀ clen, Refines M 16 step (Idle E c₁ clen) (Mid E c₁ clen))
    (hstep : ∀ C xs, (trace step C xs).1.length = C.length + xs.length) :
    CallRefines (crypt M) step (After E c₁) := by
  intro c C xs h
  obtain ⟨hlt, hAt⟩ := h
  obtain ⟨q, n, hprog⟩ := at_progress hAt
  have hclen : c.clen = (c₁.clen + C.length) % 2 ^ 64 := by rw [hprog.frame]
  have hsum : (c.clen + xs.length) % 2 ^ 64 = (c₁.clen + (trace step C xs).1.length) % 2 ^ 64 := by
    rw [hclen, hstep, Nat.mod_add_mod, Nat.add_assoc]
  have hAt₁ := at_update ((c.clen + xs.length) % 2 ^ 64) c.boff hAt
  obtain ⟨c', hrun, hAt'⟩ := (hM _).call (by omega) xs hlt hAt₁
  refine ⟨{ c' with boff := (c.boff + xs.length) % 16 }, ?_, Nat.mod_lt _ (by omega), ?_⟩
  · have hcall : M.call c.blksize { c with clen := (c.clen + xs.length) % 2 ^ 64 } c.boff xs =
        some (c', (c.boff + xs.length) % 16, (trace step C xs).2) := by
      rw [show M.call c.blksize = M.call 16 by rw [(hprog.keyed hc).blksize]]
      exact hrun
    simp only [crypt, hcall, Option.bind_eq_bind, Option.bind_some, pure]
  · have hAt₂ := at_update ((c.clen + xs.length) % 2 ^ 64) ((c.boff + xs.length) % 16) hAt'
    obtain ⟨q', n', hprog'⟩ := at_progress hAt'
    have hc' : c'.clen = (c.clen + xs.length) % 2 ^ 64 := by rw [hprog'.frame]
    rw [← hsum]
    rwa [← hc'] at hAt₂ ⊢

theorem encrypt_refines (hc : Keyed E c₁) : CallRefines encrypt (sealGcm E c₁) (After E c₁) :=
  crypt_refines hc (encryptOps_refines hc) fun C xs => by simp [trace_seal_history]

theorem decrypt_refines (hc : Keyed E c₁) : CallRefines decrypt (openGcm E c₁) (After E c₁) :=
  crypt_refines hc (decryptOps_refines hc) fun C xs => by simp [trace_open_history]

/-- A context at the beginning of a block is after nothing. -/
theorem after_nil (hboff : c₁.boff = 0) (hclen : c₁.clen < 2 ^ 64) : After E c₁ c₁ [] := by
  refine ⟨by omega, ?_⟩
  rw [hboff, List.length_nil, Nat.add_zero, Nat.mod_eq_of_lt hclen]
  exact At.idle ⟨0, rfl, rfl, rfl, rfl⟩

end Calls

end Drew.Mode.Gcm
