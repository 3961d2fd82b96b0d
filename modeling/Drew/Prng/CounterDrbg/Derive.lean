import Drew.Mac.Cmac.Model
import Drew.Mode.Ctr.Resumed
import Drew.Prng.CounterDrbg.Model
import Drew.Stream.Keystream

/-!
# The derivation function of CTR_DRBG

`BlockCipherDF` is Block_Cipher_df but for the bytes of the lengths and of the counter.
-/

namespace Drew.Prng

open Drew.Memory Drew.Block Drew.Stream Drew.Mode

open Drew.Mac.Cmac (chain)

open Drew.Mode.Gcm (ByteOrder)

open HashDrbg (nativeBytes)

/-! ## The standard -/

/-- The text, with its length and that of the output, padded. `num` makes four bytes of a number. -/
def dfText (num : Nat → List UInt8) (outlen : Nat) (inp : List UInt8) (n : Nat) : List UInt8 :=
  num inp.length ++ num n ++ inp ++ [0x80] ++
    List.replicate ((outlen - (9 + inp.length) % outlen) % outlen) 0

/-- The text is chained after the counter. -/
def dfBlock (num : Nat → List UInt8) (E : BlockCipher) (text : List UInt8) (i : Nat) : List UInt8 :=
  chain E (num i ++ List.replicate (E.blksize - 4) 0 ++ text) (1 + text.length / E.blksize)

def blockCipherDfWith (num : Nat → List UInt8) (A : CounterCipher) (inp : List UInt8) (n : Nat) :
    List UInt8 :=
  let E := A.setkey (((List.range 32).map UInt8.ofNat).take A.keylen)
  let temp := firstOf (dfBlock num E (dfText num A.blksize inp n)) A.seedlen
  let E := A.setkey (temp.take A.keylen)
  firstOf (fun i => E.encrypt^[i + 1] (temp.drop A.keylen)) n

/-- Block_Cipher_df: numbers have their most significant byte first. -/
def blockCipherDf (A : CounterCipher) (inp : List UInt8) (n : Nat) : List UInt8 :=
  blockCipherDfWith (beBytes 4) A inp n

namespace CounterDrbg

variable {A : CounterCipher} {m n : Nat}

/-! ## Sizes -/

theorem roundUpToMultiple_eq (x m : Nat) : roundUpToMultiple x m = divideAndRoundUp x m * m := by
  have h := Nat.div_add_mod (x + (m - 1)) m
  rw [Nat.mul_comm] at h
  unfold roundUpToMultiple divideAndRoundUp
  dsimp only
  omega

theorem le_roundUpToMultiple (h : 0 < m) (x : Nat) : x ≤ roundUpToMultiple x m := by
  rw [roundUpToMultiple_eq]
  exact le_rounds_mul h x

theorem roundUpToMultiple_mono {x y : Nat} (h : x ≤ y) : roundUpToMultiple x m ≤ roundUpToMultiple y m := by
  rw [roundUpToMultiple_eq, roundUpToMultiple_eq]
  exact Nat.mul_le_mul_right _ (Nat.div_le_div_right (by omega))

theorem roundUpToMultiple_sub (h : 0 < m) (x : Nat) :
    roundUpToMultiple x m - x = (m - x % m) % m := by
  obtain ⟨q, r, hr, rfl⟩ : ∃ q r, r < m ∧ x = q * m + r :=
    ⟨x / m, x % m, Nat.mod_lt x h, by rw [Nat.mul_comm, Nat.div_add_mod]⟩
  have hmod : (q * m + r) % m = r := by rw [Nat.mul_add_mod_self_right, Nat.mod_eq_of_lt hr]
  rw [hmod, roundUpToMultiple_eq]
  by_cases h0 : r = 0
  · subst h0
    have hdiv : divideAndRoundUp (q * m + 0) m = q := Ctr.blocksFor_mul h q
    rw [hdiv, Nat.add_zero, Nat.sub_self, Nat.sub_zero, Nat.mod_self]
  · have hdiv : divideAndRoundUp (q * m + r) m = q + 1 := Ctr.blocksFor_mul_add (by omega) hr q
    rw [hdiv, Nat.succ_mul, Nat.add_sub_add_left, Nat.mod_eq_of_lt (by omega)]

@[simp] theorem length_nativeBytes (order : ByteOrder) (x : Nat) : (nativeBytes order x).length = 4 := by
  cases order <;> simp [nativeBytes]

/-! ## The padded text -/

/-- The rest of the array is zero. -/
def Padded (v : Buf UInt8 m) (xs : List UInt8) : Prop :=
  v.toList = xs ++ List.replicate (m - xs.length) 0

theorem Padded.length_le {v : Buf UInt8 m} {xs : List UInt8} (h : Padded v xs) : xs.length ≤ m := by
  have hlen := congrArg List.length h
  rw [Vector.length_toList, List.length_append, List.length_replicate] at hlen
  omega

theorem Padded.write {v : Buf UInt8 m} {xs : List UInt8} (h : Padded v xs) (ys : List UInt8)
    (hle : xs.length + ys.length ≤ m) :
    ∃ w, v.write xs.length ys = some w ∧ Padded w (xs ++ ys) := by
  obtain ⟨w, hw⟩ := Buf.exists_write_at v xs.length ys hle
  refine ⟨w, hw, ?_⟩
  unfold Buf.write at hw
  rw [dif_pos hle] at hw
  cases hw
  show _ ++ ys ++ _ = _
  rw [h]
  simp
  omega

/-- One byte is stored as a list of one is written. -/
theorem store_eq_write (v : Buf UInt8 m) (i : Nat) (x : UInt8) : v.store i x = v.write i [x] := by
  by_cases h : i < m
  · rw [Buf.store_of_lt v x h]
    obtain ⟨w, hw⟩ := Buf.exists_write_at v i [x] h
    rw [hw]
    congr 1
    apply Vector.ext
    intro j hj
    have hget := Buf.getElem?_write hw j
    rw [Vector.getElem?_eq_getElem hj] at hget
    rw [Vector.getElem_set]
    split
    · subst i
      simpa using hget.symm
    · have hold : w[j] = v[j] := by
        by_cases hji : j < i
        · simpa [hji, hj] using hget
        · rw [if_neg hji, List.length_singleton, if_neg (by omega), Vector.getElem?_eq_getElem hj] at hget
          exact Option.some.inj hget
      exact hold.symm
  · rw [Buf.store_none v x (by omega), Buf.write, dif_neg]
    rw [List.length_singleton]
    omega

theorem length_dfText (num : Nat → List UInt8) (hnum : ∀ x, (num x).length = 4) {outlen : Nat}
    (h : 0 < outlen) (inp : List UInt8) (n : Nat) :
    (dfText num outlen inp n).length = roundUpToMultiple (4 + 4 + 1 + inp.length) outlen := by
  have hle := le_roundUpToMultiple h (4 + 4 + 1 + inp.length)
  have hsub := roundUpToMultiple_sub h (4 + 4 + 1 + inp.length)
  rw [show 4 + 4 + 1 + inp.length = 9 + inp.length from rfl] at *
  simp only [dfText, List.length_append, hnum, List.length_singleton, List.length_replicate]
  omega

theorem bigbuf_spec (order : ByteOrder) {outlen : Nat} (h : 0 < outlen) (inp : List UInt8) (n : Nat) :
    ∃ w, bigbuf order outlen inp n = some w ∧
      w.toList = List.replicate outlen 0 ++ dfText (nativeBytes order) outlen inp n := by
  have hle := le_roundUpToMultiple h (9 + inp.length)
  have hzero : Padded (Vector.replicate
      (roundUpToMultiple (4 + 4 + 1 + inp.length) outlen + outlen) 0) (List.replicate outlen 0) := by
    rw [Padded, Vector.toList_replicate, List.length_replicate, Nat.add_sub_cancel,
      List.replicate_append_replicate, Nat.add_comm]
  obtain ⟨w₁, hw₁, h₁⟩ := hzero.write (nativeBytes order inp.length) (by simp; omega)
  obtain ⟨w₂, hw₂, h₂⟩ := h₁.write (nativeBytes order n) (by simp; omega)
  obtain ⟨w₃, hw₃, h₃⟩ := h₂.write inp (by simp; omega)
  obtain ⟨w, hw, h₄⟩ := h₃.write [0x80] (by simp; omega)
  simp only [List.length_append, List.length_replicate, length_nativeBytes] at hw₁ hw₂ hw₃ hw
  refine ⟨w, ?_, ?_⟩
  · simp only [bigbuf, hw₁, hw₂, hw₃, Option.bind_eq_bind, Option.bind_some, store_eq_write]
    exact hw
  · rw [h₄]
    have hsub : roundUpToMultiple (4 + 4 + 1 + inp.length) outlen - (9 + inp.length) =
        (outlen - (9 + inp.length) % outlen) % outlen := roundUpToMultiple_sub h (9 + inp.length)
    have hpad : roundUpToMultiple (4 + 4 + 1 + inp.length) outlen + outlen -
        (outlen + (4 + (4 + (inp.length + 1)))) = (outlen - (9 + inp.length) % outlen) % outlen := by
      rw [← hsub]
      omega
    simp only [dfText, List.append_assoc, List.length_append, List.length_replicate,
      length_nativeBytes, List.length_singleton, hpad]

/-! ## The loops -/

section Loops

variable {b : BlockCipher}

theorem bcc_spec (data : Buf UInt8 m) : bcc b data m = some (chain b data.toList (m / b.blksize)) := by
  have hstep : ∀ i < m / b.blksize, ∀ out, out = chain b data.toList i →
      ∃ out', bccRound b data out i = some out' ∧ out' = chain b data.toList (i + 1) := by
    rintro i hi out rfl
    have hfit : i * b.blksize + b.blksize ≤ m := by
      have hmul := Nat.mul_le_of_le_div _ _ _ hi
      rwa [Nat.succ_mul] at hmul
    refine ⟨_, ?_, rfl⟩
    rw [bccRound, Buf.read, if_pos hfit]
    rfl
  obtain ⟨out, hrun, hout⟩ := foldlM_range (fun i out => out = chain b data.toList i) (m / b.blksize)
    (List.replicate b.blksize 0) rfl hstep
  rw [bcc, hrun, hout]

/-- A block is written after those before it. -/
theorem write_next {g : Nat → List UInt8} {bs i : Nat} (hg : ∀ i, (g i).length = bs) {v : Buf UInt8 n}
    (hfit : i * bs + bs ≤ n) (h : v.Holds 0 (blocks g i)) :
    ∃ w, v.write (i * bs) (g i) = some w ∧ w.Holds 0 (blocks g (i + 1)) ∧ w.Holds (i * bs) (g i) := by
  have hlen := length_blocks hg i
  obtain ⟨w, hw⟩ := Buf.exists_write_at v (i * bs) (g i) (by rw [hg]; exact hfit)
  have hlast := Buf.holds_write hw
  refine ⟨w, hw, ?_, hlast⟩
  rw [blocks_succ]
  refine (h.write_of_disjoint hw (Or.inr (by omega))).append ?_
  rwa [hlen, Nat.zero_add]

theorem length_chain (data : List UInt8) (q : Nat) (hq : q * b.blksize ≤ data.length) :
    (chain b data q).length = b.blksize := by
  induction q with
  | zero => exact List.length_replicate
  | succ q ih =>
    rw [Nat.succ_mul] at hq
    refine b.length_encrypt _ ?_
    rw [length_xorBytes, ih (by omega), List.length_take, List.length_drop]
    omega

theorem length_dfBlock {num : Nat → List UInt8} (hnum : ∀ x, (num x).length = 4) (h4 : 4 ≤ b.blksize)
    (text : List UInt8) (i : Nat) : (dfBlock num b text i).length = b.blksize := by
  refine length_chain _ _ ?_
  have hle := Nat.div_mul_le_self text.length b.blksize
  rw [List.length_append, List.length_append, hnum, List.length_replicate, Nat.add_mul, Nat.one_mul]
  omega

theorem length_iterate (k : Nat) {x : List UInt8} (hx : x.length = b.blksize) :
    (b.encrypt^[k] x).length = b.blksize := by
  induction k with
  | zero => exact hx
  | succ k ih =>
    rw [Function.iterate_succ_apply']
    exact b.length_encrypt _ ih

/-- The first loop before round `i`: the text is in `bigbuf` after four bytes for the counter, and `temp` has
the blocks so far. -/
structure Filling (num : Nat → List UInt8) (b : BlockCipher) (text : List UInt8) (i : Nat)
    (s : Buf UInt8 m × Buf UInt8 n) : Prop where
  bigbuf : ∃ w, w.length = 4 ∧ s.1.toList = w ++ (List.replicate (b.blksize - 4) 0 ++ text)
  temp : s.2.Holds 0 (blocks (dfBlock num b text) i)

theorem write_front {v : Buf UInt8 m} {w rest xs : List UInt8} (hv : v.toList = w ++ rest)
    (hxs : xs.length = w.length) : ∃ v', v.write 0 xs = some v' ∧ v'.toList = xs ++ rest := by
  have hlen : w.length + rest.length = m := by
    rw [← List.length_append, ← hv, Vector.length_toList]
  have hle : 0 + xs.length ≤ m := by omega
  obtain ⟨v', hv'⟩ := Buf.exists_write v hle
  refine ⟨v', hv', ?_⟩
  unfold Buf.write at hv'
  rw [dif_pos hle] at hv'
  cases hv'
  show _ ++ xs ++ _ = _
  rw [hv, hxs]
  simp

theorem tempRound_spec (order : ByteOrder) {text : List UInt8} {i : Nat} (h4 : 4 ≤ b.blksize)
    (hm : m = b.blksize + text.length) (hfit : i * b.blksize + b.blksize ≤ n)
    {s : Buf UInt8 m × Buf UInt8 n} (h : Filling (nativeBytes order) b text i s) :
    ∃ s', tempRound order b s i = some s' ∧ Filling (nativeBytes order) b text (i + 1) s' := by
  obtain ⟨bigbuf, temp⟩ := s
  obtain ⟨⟨w, hw, hbig⟩, htemp⟩ := h
  obtain ⟨bigbuf', hwrite, hbig'⟩ := write_front hbig ((length_nativeBytes order i).trans hw.symm)
  have hbcc : bcc b bigbuf' m = some (dfBlock (nativeBytes order) b text i) := by
    rw [bcc_spec, hbig', dfBlock, List.append_assoc, hm, Nat.add_div_left _ b.blksize_pos, Nat.add_comm 1]
  have hlen := length_dfBlock (length_nativeBytes order) h4 text
  obtain ⟨temp', hwrite', htemp', -⟩ := write_next hlen hfit htemp
  refine ⟨(bigbuf', temp'), ?_, ⟨_, length_nativeBytes order i, hbig'⟩, htemp'⟩
  simp only [tempRound, hwrite, hbcc, hwrite', Option.bind_eq_bind, Option.bind_some]
  rfl

/-- The second loop before round `i`: where the block is that is enciphered next, and the blocks so far. -/
structure Chaining (keylen : Nat) (b : BlockCipher) (x : List UInt8) (i : Nat) (temp : Buf UInt8 n) :
    Prop where
  last : temp.Holds (if i = 0 then keylen else (i - 1) * b.blksize) (b.encrypt^[i] x)
  blocks : temp.Holds 0 (blocks (fun i => b.encrypt^[i + 1] x) i)

theorem outRound_spec {keylen i : Nat} {x : List UInt8} (hx : x.length = b.blksize)
    (hfit : i * b.blksize + b.blksize ≤ n) {temp : Buf UInt8 n} (h : Chaining keylen b x i temp) :
    ∃ temp', outRound keylen b temp i = some temp' ∧ Chaining keylen b x (i + 1) temp' := by
  have hlen : ∀ i, (b.encrypt^[i + 1] x).length = b.blksize := fun i => length_iterate _ hx
  obtain ⟨temp', hwrite, hblocks, hlast⟩ := write_next hlen hfit h.blocks
  obtain ⟨w, henc, hw⟩ := BlockCipher.encryptTo_spec temp (i * b.blksize) (length_iterate i hx) h.last hfit
  rw [← Function.iterate_succ_apply' b.encrypt i x, hwrite] at hw
  cases hw
  exact ⟨temp', henc, hlast, hblocks⟩

end Loops

/-! ## The function -/

theorem read_take {v : Buf UInt8 m} {xs : List UInt8} (h : v.Holds 0 xs) {k : Nat} (hk : k ≤ xs.length) :
    v.read 0 k = some (xs.take k) := by
  rw [← List.take_append_drop k xs] at h
  have hread := h.left.read
  rwa [List.length_take, Nat.min_eq_left hk] at hread

/-- As many bytes are derived as are asked for. -/
theorem length_blockCipherDfWith {num : Nat → List UInt8} (hnum : ∀ x, (num x).length = 4)
    (h4 : 4 ≤ A.blksize) (inp : List UInt8) (n : Nat) : (blockCipherDfWith num A inp n).length = n := by
  have hpos : 0 < A.blksize := by omega
  have hE : ∀ key, (A.setkey key).blksize = A.blksize := A.blksize_setkey
  have htemp : ∀ key text, (firstOf (dfBlock num (A.setkey key) text) A.seedlen).length = A.seedlen :=
    fun key text => length_firstOf
      (fun i => (length_dfBlock hnum ((hE key).symm ▸ h4) text i).trans (hE key)) hpos _
  refine length_firstOf (fun i => (length_iterate _ ?_).trans (hE _)) hpos n
  rw [List.length_drop, htemp, hE]
  exact Nat.add_sub_cancel _ _

theorem dfKey_read (h : A.keylen ≤ 32) :
    dfKey.read 0 A.keylen = some (((List.range 32).map UInt8.ofNat).take A.keylen) := by
  have hkey : dfKey.toList = (List.range 32).map UInt8.ofNat := by decide
  rw [Buf.read, if_pos (by omega), hkey, List.drop_zero]

/-- A round of a loop over the blocks of `x` bytes stays in an array of at least that size. -/
theorem round_fits {bs x i : Nat} (hi : i < divideAndRoundUp x bs) (hx : roundUpToMultiple x bs ≤ n) :
    i * bs + bs ≤ n := by
  have hmul := Nat.mul_le_mul_right bs hi
  rw [← roundUpToMultiple_eq, Nat.succ_mul] at hmul
  exact hmul.trans hx

theorem blockCipherDF_spec (order : ByteOrder) (env : Env) (hkey : A.keylen ≤ 32) (h4 : 4 ≤ A.blksize)
    (inp : List UInt8) (n : Nat) :
    blockCipherDF A order env inp n = some (blockCipherDfWith (nativeBytes order) A inp n) := by
  have hpos : 0 < A.blksize := by omega
  have hsize : A.seedlen = A.blksize + A.keylen := rfl
  let E := A.setkey (((List.range 32).map UInt8.ofNat).take A.keylen)
  let text := dfText (nativeBytes order) A.blksize inp n
  let f := dfBlock (nativeBytes order) E text
  have hE : E.blksize = A.blksize := A.blksize_setkey _
  have htext : text.length = roundUpToMultiple (4 + 4 + 1 + inp.length) A.blksize :=
    length_dfText _ (length_nativeBytes order) hpos inp n
  obtain ⟨buf, hbuf, hcontents⟩ := bigbuf_spec order hpos inp n
  -- The first loop fills `temp`.
  have hbegin : Filling (nativeBytes order) E text 0
      (buf, env.array (roundUpToMultiple (max A.seedlen n) A.blksize)) := by
    refine ⟨⟨List.replicate 4 0, rfl, ?_⟩, Buf.holds_nil (Nat.zero_le _)⟩
    rw [hcontents, ← List.append_assoc, List.replicate_append_replicate, hE, Nat.add_sub_cancel' h4]
  obtain ⟨⟨buf', temp⟩, hfill, -, htemp⟩ := foldlM_range (Filling (nativeBytes order) E text)
    (divideAndRoundUp A.seedlen A.blksize) _ hbegin fun i hi s hs =>
      tempRound_spec order (hE ▸ h4) (by rw [htext, hE, Nat.add_comm])
        (hE.symm ▸ round_fits hi (roundUpToMultiple_mono (Nat.le_max_left _ _))) hs
  have hf : ∀ i, (f i).length = A.blksize := fun i =>
    (length_dfBlock (length_nativeBytes order) (hE ▸ h4) text i).trans hE
  have hfirst : firstOf f A.seedlen = (blocks f (divideAndRoundUp A.seedlen A.blksize)).take A.seedlen :=
    firstOf_eq hf hpos (le_rounds_mul hpos _)
  have hheld : temp.Holds 0 (firstOf f A.seedlen) := by
    rw [hfirst]
    rw [← List.take_append_drop A.seedlen (blocks (dfBlock (nativeBytes order) E text) _)] at htemp
    exact htemp.left
  have hlen : (firstOf f A.seedlen).length = A.seedlen := length_firstOf hf hpos _
  have hread : temp.read 0 A.keylen = some ((firstOf f A.seedlen).take A.keylen) :=
    read_take hheld (by omega)
  -- The second one enciphers what is after the key.
  let E₂ := A.setkey ((firstOf f A.seedlen).take A.keylen)
  let x := (firstOf f A.seedlen).drop A.keylen
  have hE₂ : E₂.blksize = A.blksize := A.blksize_setkey _
  have hx : x.length = E₂.blksize := by
    rw [List.length_drop, hlen, hE₂, hsize, Nat.add_sub_cancel]
  have hchain : Chaining A.keylen E₂ x 0 temp := by
    refine ⟨?_, Buf.holds_nil (Nat.zero_le _)⟩
    rw [← List.take_append_drop A.keylen (firstOf f A.seedlen)] at hheld
    have hright := hheld.right
    rw [List.length_take, Nat.min_eq_left (by omega), Nat.zero_add] at hright
    exact hright
  obtain ⟨temp₂, hloop, -, hblocks⟩ := foldlM_range (Chaining A.keylen E₂ x) (divideAndRoundUp n A.blksize)
    _ hchain fun i hi s hs => outRound_spec hx
      (hE₂.symm ▸ round_fits hi (roundUpToMultiple_mono (Nat.le_max_right _ _))) hs
  have hg : ∀ i, (E₂.encrypt^[i + 1] x).length = A.blksize := fun i => (length_iterate _ hx).trans hE₂
  have hout : temp₂.read 0 n = some (firstOf (fun i => E₂.encrypt^[i + 1] x) n) := by
    rw [firstOf_eq hg hpos (le_rounds_mul hpos n)]
    refine read_take hblocks ?_
    rw [length_blocks hg]
    exact le_rounds_mul hpos n
  refine Option.bind_eq_some_iff.mpr ⟨buf, hbuf, ?_⟩
  refine Option.bind_eq_some_iff.mpr ⟨_, dfKey_read hkey, ?_⟩
  refine Option.bind_eq_some_iff.mpr ⟨_, hfill, ?_⟩
  refine Option.bind_eq_some_iff.mpr ⟨_, hread, ?_⟩
  exact Option.bind_eq_some_iff.mpr ⟨_, hloop, hout⟩

end CounterDrbg

end Drew.Prng
