import Drew.Memory.Endian
import Drew.Prng.Seeded

/-!
# What CTR_DRBG generates

The counter convention of the code is that the first block is the encryption of `V` itself. `Update` uses the fast
function of the mode, which has no offset, and leaves bytes behind the last whole block as they are. A request uses
the plain function, which begins at the offset that the requests before it led to, in a buffer that has `V`.
-/

namespace Drew.Prng

open Drew.Memory Drew.Block Drew.Stream Drew.Mode

open Drew.Mode.Gcm (ByteOrder)

open Drew.Mode.Ctr (keyBlock length_keyBlock Standing blocksFor position left)

namespace CounterDrbg

variable {A : CounterCipher} {E : BlockCipher} {V kb : List UInt8} {c : Ctr} {d d' : CounterDrbg} {m n : Nat}

/-! ## The standard -/

/-- CTR_DRBG_Update: the new key and the new `V`. -/
def ctrDrbgUpdate (keylen : Nat) (E : BlockCipher) (V provided : List UInt8) : List UInt8 × List UInt8 :=
  let t := xorBytes (firstOf (keyBlock E V) (E.blksize + keylen)) provided
  (t.take keylen, t.drop keylen)

/-- The counter after some blocks. -/
def advance (V : List UInt8) (q : Nat) : List UInt8 := beBytes V.length (beNat V + q)

/-- CTR_DRBG_Generate: the bytes, and the key and the `V` afterwards. -/
def ctrDrbgGenerate (A : CounterCipher) (E : BlockCipher) (V additional : List UInt8) (n : Nat) :
    List UInt8 × List UInt8 × List UInt8 :=
  let (K, V) := ctrDrbgUpdate A.keylen E V additional
  (firstOf (keyBlock (A.setkey K) V) n,
    ctrDrbgUpdate A.keylen (A.setkey K) (advance V (blocksFor A.blksize n)) additional)

/-- The additional input that the array holds, with zeros behind it. -/
def additionalInput (A : CounterCipher) (data : Buf UInt8 n) : List UInt8 :=
  (data.toList ++ List.replicate A.seedlen 0).take A.seedlen

/-! ## Updates -/

/-- The key of the mode's context and the `V` that were installed. It is in the buffer, too. -/
structure Installed (E : BlockCipher) (V : List UInt8) (c : Ctr) : Prop where
  blksize : E.blksize = 16
  standing : Standing E V V c
  functbl : c.functbl = .fast

theorem xorBytes_zeros (xs : List UInt8) (n : Nat) : xorBytes xs (List.replicate n 0) = xs.take n := by
  induction xs generalizing n with
  | nil => rw [xorBytes, List.zipWith_nil_left, List.take_nil]
  | cons x xs ih =>
    cases n with
    | zero => rfl
    | succ n =>
      have htail : List.zipWith (· ^^^ ·) xs (List.replicate n 0) = xs.take n := ih n
      rw [xorBytes, List.replicate_succ, List.zipWith_cons_cons, htail, UInt8.xor_zero, List.take_succ_cons]

/-- What is written to the beginning of an array, and the rest of it. -/
theorem toList_write_front {α : Type} {v w : Buf α m} {xs : List α} (h : v.write 0 xs = some w) :
    w.toList = xs ++ v.toList.drop xs.length := by
  unfold Buf.write at h
  split at h
  · cases h
    simp
  · cases h

/-- The keystream that `Update` gets, for its `m` bytes. -/
def updateStream (E : BlockCipher) (V : List UInt8) (m : Nat) : List UInt8 :=
  blocks (keyBlock E V) (m / 16) ++ List.replicate (m % 16) 0

theorem length_updateStream (hE : E.blksize = 16) (V : List UInt8) (m : Nat) :
    (updateStream E V m).length = m := by
  have hblocks : (blocks (keyBlock E V) (m / 16)).length = m / 16 * 16 :=
    length_blocks (fun q => (length_keyBlock E V q).trans hE) _
  rw [updateStream, List.length_append, List.length_replicate, hblocks]
  omega

/-- It is keystream if there are only whole blocks. -/
theorem updateStream_eq (hE : E.blksize = 16) (V : List UInt8) (hm : 16 ∣ m) :
    updateStream E V m = firstOf (keyBlock E V) m := by
  have hlen : ∀ q, (keyBlock E V q).length = 16 := fun q => (length_keyBlock E V q).trans hE
  have hdiv : m / 16 * 16 = m := Nat.div_mul_cancel hm
  have hblocks : (blocks (keyBlock E V) (m / 16)).length = m := (length_blocks hlen _).trans hdiv
  rw [updateStream, Nat.mod_eq_zero_of_dvd hm, List.replicate_zero, List.append_nil,
    firstOf_eq hlen pos_16 hdiv.ge, List.take_of_length_le hblocks.le]

theorem encryptTable_zeros (hE : E.blksize = 16) (h : Standing E V kb c) (hfast : c.functbl = .fast)
    (hm : m ≤ sliceSize) (env : Env) :
    ∃ c' out, encryptTable env c (Vector.replicate m 0) = some (c', out) ∧ out.toList = updateStream E V m ∧
      c'.boff = c.boff ∧ c'.functbl = .fast ∧ Standing E (advance V (blocksFor 16 m)) kb c' := by
  obtain ⟨c', out, hrun, hwrite, hf, hboff, hstand⟩ := h.encryptfast hE hm
    (env.array sliceSize) (Vector.replicate m 0) (Vector.replicate m 0)
  have hV : V.length = E.blksize := h.length_iv
  refine ⟨c', out, ?_, ?_, hboff, hf.trans hfast, by rwa [advance, hV]⟩
  · rw [encryptTable, hfast]
    exact hrun
  · have hblocks : (blocks (keyBlock E V) (m / 16)).length = m / 16 * 16 :=
      length_blocks (fun q => (length_keyBlock E V q).trans hE) _
    have htake : (List.replicate m (0 : UInt8)).take (m / 16 * 16) = List.replicate (m / 16 * 16) 0 := by
      rw [List.take_replicate, Nat.min_eq_left (Nat.div_mul_le_self _ _)]
    have hrest : m - m / 16 * 16 = m % 16 := by omega
    rw [toList_write_front hwrite, Vector.toList_replicate, htake, xorBytes_zeros,
      List.take_of_length_le hblocks.le, hblocks, List.drop_replicate, hrest]
    rfl

/-- The key and the `V` that `Update` installs. -/
theorem update_installed (hA : A.blksize = 16) (hE : E.blksize = 16) (h : Standing E V kb d.ctr)
    (hfast : d.ctr.functbl = .fast) (env : Env) (provided : Buf UInt8 m) (hm : A.seedlen ≤ m) :
    ∃ d' t, t = xorBytes (updateStream E V A.seedlen) (provided.toList.take A.seedlen) ∧
      update A env provided d = some d' ∧ d'.block = A.setkey (t.take A.keylen) ∧ d'.ctr.boff = d.ctr.boff ∧
      Installed (A.setkey (t.take A.keylen)) (t.drop A.keylen) d'.ctr := by
  have hseed : A.seedlen ≤ sliceSize := A.fits.trans (by decide)
  obtain ⟨c', out, hrun, hout, hboff, hf, hstand⟩ := encryptTable_zeros hE h hfast hseed env
  have hlen : (out.toList.length) = A.seedlen := Vector.length_toList
  have hatt : Attached A c' := attached_of_standing hstand (hE.trans hA.symm) (by rw [hf, if_pos hA])
  obtain ⟨d', hrekey, hatt', hboff', hstand'⟩ := rekey_spec (d := { d with ctr := c' })
    ((xorBytes out.toList (provided.toList.take A.seedlen)).take A.keylen) hatt (by omega) (length_vector hm)
  have hblock : d'.block = A.setkey ((xorBytes out.toList (provided.toList.take A.seedlen)).take A.keylen) := by
    obtain ⟨p, -, hret⟩ := Option.bind_eq_some_iff.mp hrekey
    cases hret
    rfl
  have hkeyed : (A.setkey ((xorBytes out.toList (provided.toList.take A.seedlen)).take A.keylen)).blksize = 16 :=
    (A.blksize_setkey _).trans hA
  rw [← hout]
  exact ⟨d', _, rfl, (update_eq env provided hm hrun).trans hrekey, hblock, hboff'.trans hboff, hkeyed, hstand',
    hatt'.functbl.trans (if_pos hA)⟩

/-! ## Requests -/

theorem take_additional (A : CounterCipher) (data : Buf UInt8 n) {buf : Buf UInt8 ctrBufferSize}
    (hbuf : Buf.write (Vector.replicate ctrBufferSize 0) 0 (data.toList.take (min ctrBufferSize n)) = some buf) :
    buf.toList.take A.seedlen = additionalInput A data := by
  have hfits : A.seedlen ≤ 512 := A.fits
  have hsize : ctrBufferSize = 512 := rfl
  have hlen : (data.toList.take (min ctrBufferSize n)).length = min ctrBufferSize n := by
    rw [List.length_take, Vector.length_toList]
    omega
  rw [toList_write_front hbuf, hlen, Vector.toList_replicate, List.drop_replicate, additionalInput, List.take_append,
    List.take_append, hlen, Vector.length_toList, List.take_replicate, List.take_replicate, List.take_take]
  congr 1
  · by_cases hn : n ≤ 512
    · rw [Nat.min_eq_right (show n ≤ ctrBufferSize from hn)]
      by_cases hseed : A.seedlen ≤ n
      · rw [Nat.min_eq_left hseed]
      · rw [Nat.min_eq_right (by omega), List.take_of_length_le (by rw [Vector.length_toList]),
          List.take_of_length_le (by rw [Vector.length_toList]; omega)]
    · rw [Nat.min_eq_left (by omega)]
  · congr 1
    omega

/-- What a request makes of the key and the `V`, and where it begins in the buffer. -/
theorem generate_installed (hA : A.blksize = 16) {d : Drbg CounterDrbg} (h : Installed E V d.sub.ctr) (env : Env)
    (data : Buf UInt8 n) :
    ∃ d' out t t', t = xorBytes (updateStream E V A.seedlen) (additionalInput A data) ∧
      t' = xorBytes (updateStream (A.setkey (t.take A.keylen)) (advance (t.drop A.keylen)
        (blocksFor 16 ((if d.sub.ctr.boff = 0 then 16 else d.sub.ctr.boff) + n - 16))) A.seedlen)
          (additionalInput A data) ∧
      generate A env d data = some (d', out) ∧
      out.toList = (left (t.drop A.keylen) d.sub.ctr.boff ++
        blocks (keyBlock (A.setkey (t.take A.keylen)) (t.drop A.keylen)) n).take n ∧
      d'.sub.block = A.setkey (t'.take A.keylen) ∧
      Installed (A.setkey (t'.take A.keylen)) (t'.drop A.keylen) d'.sub.ctr ∧
      d'.sub.ctr.boff = (d.sub.ctr.boff + n) % 16 := by
  obtain ⟨buf, hbuf⟩ := Buf.exists_write_at (Vector.replicate ctrBufferSize (0 : UInt8)) 0
    (data.toList.take (min ctrBufferSize n)) (by
      rw [List.length_take]
      omega)
  have hadd := take_additional A data hbuf
  obtain ⟨sub, t, ht, hupdate, -, hboff, hsub⟩ :=
    update_installed hA h.blksize h.standing h.functbl env buf A.fits
  rw [hadd] at ht
  obtain ⟨ctr, kb, henc, hf, hboff₁, hstand⟩ := hsub.standing.encrypt (List.replicate n 0)
  have hkeyed : (A.setkey (t.take A.keylen)).blksize = 16 := hsub.blksize
  have hpos : position sub.ctr = if d.sub.ctr.boff = 0 then 16 else d.sub.ctr.boff := by
    rw [position, hboff, hsub.standing.blksize, hkeyed]
  rw [List.length_replicate, hkeyed, hboff] at hboff₁
  rw [List.length_replicate, hkeyed, hpos] at hstand
  rw [List.length_replicate, hboff, xorBytes_zeros] at henc
  have hout : ((left (t.drop A.keylen) d.sub.ctr.boff ++
      blocks (keyBlock (A.setkey (t.take A.keylen)) (t.drop A.keylen)) n).take n).length = n := by
    have hblocks : (blocks (keyBlock (A.setkey (t.take A.keylen)) (t.drop A.keylen)) n).length = n * 16 :=
      length_blocks (fun q => (length_keyBlock _ _ q).trans hkeyed) n
    rw [List.length_take, List.length_append, hblocks]
    omega
  obtain ⟨out, hwrite⟩ := Buf.exists_write_at data 0 ((left (t.drop A.keylen) d.sub.ctr.boff ++
    blocks (keyBlock (A.setkey (t.take A.keylen)) (t.drop A.keylen)) n).take n) (by rw [hout, Nat.zero_add])
  have hlist := toList_write_front hwrite
  rw [hout, List.drop_eq_nil_of_le (show data.toList.length ≤ n from Vector.length_toList.le), List.append_nil] at hlist
  have hV : (t.drop A.keylen).length = 16 := hsub.standing.length_iv.trans hkeyed
  rw [← hV] at hstand
  obtain ⟨sub', t', ht', hupdate', hblock, hboff₂, hsub'⟩ := update_installed (d := { sub with ctr := ctr }) hA hkeyed
    hstand (hf.trans hsub.functbl) env buf A.fits
  rw [hadd, hV] at ht'
  refine ⟨{ d with sub := sub', rc := d.rc + 1 }, out, t, t', ht, ?_, ?_, hlist, hblock, hsub', hboff₂.trans hboff₁⟩
  · rw [ht', advance, hV]
  · simp only [generate, hbuf, hupdate, henc, hwrite, hupdate', Option.bind_eq_bind, Option.bind_some, pure]

/-- The request gives the bytes of the standard, and installs its key and its `V`. -/
def Follows (A : CounterCipher) (E : BlockCipher) (V : List UInt8) (d : Drbg CounterDrbg) (env : Env)
    (data : Buf UInt8 n) : Prop :=
  ∃ d' out, generate A env d data = some (d', out) ∧
    out.toList = (ctrDrbgGenerate A E V (additionalInput A data) n).1 ∧
    d'.sub.block = A.setkey (ctrDrbgGenerate A E V (additionalInput A data) n).2.1 ∧
    Installed (A.setkey (ctrDrbgGenerate A E V (additionalInput A data) n).2.1)
      (ctrDrbgGenerate A E V (additionalInput A data) n).2.2 d'.sub.ctr

theorem dvd_seedlen (hA : A.blksize = 16) (hkey : 16 ∣ A.keylen) : 16 ∣ A.seedlen := by
  rw [CounterCipher.seedlen, hA]
  exact Nat.dvd_add (dvd_refl 16) hkey

theorem follows_of (hA : A.blksize = 16) (hkey : 16 ∣ A.keylen) {d : Drbg CounterDrbg}
    (h : Installed E V d.sub.ctr) (hn : n = 0 ∨ d.sub.ctr.boff = 0) (env : Env) (data : Buf UInt8 n) :
    Follows A E V d env data := by
  have hseed := dvd_seedlen hA hkey
  have hsize : ∀ F : BlockCipher, F.blksize = 16 → F.blksize + A.keylen = A.seedlen := by
    intro F hF
    rw [CounterCipher.seedlen, hF, hA]
  obtain ⟨d', out, t, t', ht, ht', hrun, hout, hblock, hinst, -⟩ := generate_installed hA h env data
  have hkeyed : (A.setkey (t.take A.keylen)).blksize = 16 := (A.blksize_setkey _).trans hA
  rw [updateStream_eq h.blksize V hseed] at ht
  rw [updateStream_eq hkeyed _ hseed] at ht'
  have hfirst : ctrDrbgUpdate A.keylen E V (additionalInput A data) = (t.take A.keylen, t.drop A.keylen) := by
    rw [ctrDrbgUpdate, hsize E h.blksize, ht]
  -- The counter is where the bytes of the request end, in both cases.
  have hcount : blocksFor 16 ((if d.sub.ctr.boff = 0 then 16 else d.sub.ctr.boff) + n - 16) = blocksFor 16 n := by
    have hlt : d.sub.ctr.boff < 16 := h.blksize ▸ h.standing.boff
    rcases hn with hn | hboff
    · rw [hn]
      congr 1
      split <;> omega
    · rw [if_pos hboff, Nat.add_sub_cancel_left]
  have hlast : ctrDrbgUpdate A.keylen (A.setkey (t.take A.keylen)) (advance (t.drop A.keylen) (blocksFor A.blksize n))
      (additionalInput A data) = (t'.take A.keylen, t'.drop A.keylen) := by
    rw [ctrDrbgUpdate, hsize _ hkeyed, ht', hcount, hA]
  have hbytes : (left (t.drop A.keylen) d.sub.ctr.boff ++
      blocks (keyBlock (A.setkey (t.take A.keylen)) (t.drop A.keylen)) n).take n =
      firstOf (keyBlock (A.setkey (t.take A.keylen)) (t.drop A.keylen)) n := by
    rcases hn with hn | hboff
    · rw [hn, List.take_zero, firstOf, List.take_zero]
    · rw [left, if_pos hboff, List.nil_append, firstOf]
  have hspec : ctrDrbgGenerate A E V (additionalInput A data) n =
      (firstOf (keyBlock (A.setkey (t.take A.keylen)) (t.drop A.keylen)) n, t'.take A.keylen, t'.drop A.keylen) := by
    simp only [ctrDrbgGenerate, hfirst, hlast]
  refine ⟨d', out, hrun, ?_, ?_, ?_⟩
  · rw [hspec, hout, hbytes]
  · rw [hspec]
    exact hblock
  · rw [hspec]
    exact hinst

/-! ## The condition for a request -/

/-- For every cipher with these sizes, a request of `n` bytes follows the standard in every state where a key and a
`V` were installed and the offset is `boff`. -/
def RequestRight (keylen boff n : Nat) : Prop :=
  ∀ A : CounterCipher, A.blksize = 16 → A.keylen = keylen → ∀ (E : BlockCipher) (V : List UInt8)
    (d : Drbg CounterDrbg), Installed E V d.sub.ctr → d.sub.ctr.boff = boff → ∀ (env : Env) (data : Buf UInt8 n),
    Follows A E V d env data

/-- Never zero, and back and forth between one and two. -/
def turning (x : UInt8) : UInt8 := if x = 0 then 1 else if x = 1 then 2 else 1

theorem fourth_lt : 3 < 16 := by decide

/-- The cipher that turns its fourth byte. -/
abbrev turningCipher : BlockCipher := columnCipher fourth_lt turning

/-- That cipher with any key. -/
def turningFamily (keylen : Nat) (hfits : 16 + keylen ≤ ctrBufferSize) : CounterCipher where
  blksize := 16
  setkey _ := turningCipher
  blksize_setkey _ := rfl
  keylen := keylen
  unkeyed := turningCipher
  blksize_unkeyed := rfl
  fits := hfits

theorem turning_ne_zero (x : UInt8) : turning x ≠ 0 := by
  unfold turning
  split
  · decide
  · split <;> decide

/-- The counter stays below its fourth byte. -/
theorem keyBlock_turning {v : UInt8} (hv : v = 0 ∨ v = 1 ∨ v = 2) {q : Nat} (hq : q < 64) :
    keyBlock turningCipher (List.replicate 16 v) q = List.replicate 16 (turning v) := by
  have hbyte : ∀ x : Nat, (beBytes 16 x).getD 3 0 = UInt8.ofNat (x / 256 ^ 12) := by
    intro x
    rw [List.getD_eq_getElem?_getD, getElem?_beBytes 16 x (show 3 < 16 by decide)]
    rfl
  have hblock : keyBlock turningCipher (List.replicate 16 v) q = List.replicate 16 (turning
      (UInt8.ofNat ((beNat (List.replicate 16 v) + q) % 256 ^ 16 / 256 ^ 12))) := by
    rw [← hbyte]
    rfl
  rw [hblock]
  congr 2
  have hval : ∀ x y : Nat, x + 64 ≤ 256 ^ 16 → x / 256 ^ 12 = y → (x + 63) / 256 ^ 12 = y →
      (x + q) % 256 ^ 16 / 256 ^ 12 = y := by
    intro x y hlt hlow hhigh
    rw [Nat.mod_eq_of_lt (by omega)]
    omega
  rcases hv with rfl | rfl | rfl
  · rw [hval (beNat (List.replicate 16 0)) 0 (by decide) (by decide) (by decide)]
    rfl
  · rw [hval (beNat (List.replicate 16 1)) 0x01010101 (by decide) (by decide) (by decide)]
    rfl
  · rw [hval (beNat (List.replicate 16 2)) 0x02020202 (by decide) (by decide) (by decide)]
    rfl

theorem keyBlock_advance (hV : V.length = E.blksize) (k q : Nat) :
    keyBlock E (advance V k) q = keyBlock E V (k + q) := by
  rw [keyBlock, keyBlock, advance, beNat_beBytes, hV, Nat.mod_add_mod, Nat.add_assoc]

/-- A text of blocks that all repeat one byte. -/
theorem firstOf_replicate {g : Nat → List UInt8} {x : UInt8} (hlen : ∀ i, (g i).length = 16)
    (hg : ∀ i < blocksFor 16 m, g i = List.replicate 16 x) : firstOf g m = List.replicate m x := by
  have hblocks : ∀ k ≤ blocksFor 16 m, blocks g k = List.replicate (k * 16) x := by
    intro k hk
    induction k with
    | zero => rfl
    | succ k ih => rw [blocks_succ, ih (by omega), hg k (by omega), ← List.replicate_add, Nat.succ_mul]
  have hle : m ≤ blocksFor 16 m * 16 := le_rounds_mul pos_16 m
  rw [firstOf_eq hlen pos_16 hle, hblocks _ le_rfl, List.take_replicate, Nat.min_eq_left hle]

theorem firstOf_turning {v : UInt8} (hv : v = 0 ∨ v = 1 ∨ v = 2) {k : Nat} (hk : k + blocksFor 16 m ≤ 64) :
    firstOf (keyBlock turningCipher (advance (List.replicate 16 v) k)) m = List.replicate m (turning v) := by
  refine firstOf_replicate (length_keyBlock _ _) fun i hi => ?_
  have hlen : (List.replicate 16 v).length = turningCipher.blksize := List.length_replicate
  rw [keyBlock_advance hlen, keyBlock_turning hv (by omega)]

theorem advance_zero (V : List UInt8) : advance V 0 = V := beBytes_beNat V

/-- An array of zeros. -/
theorem additionalInput_zeros (A : CounterCipher) (n : Nat) :
    additionalInput A (Vector.replicate n 0) = List.replicate A.seedlen 0 := by
  rw [additionalInput, Vector.toList_replicate, ← List.replicate_add, List.take_replicate,
    Nat.min_eq_left (Nat.le_add_left _ _)]

theorem xorBytes_additional (A : CounterCipher) {xs : List UInt8} (hxs : xs.length = A.seedlen) (n : Nat) :
    xorBytes xs (additionalInput A (Vector.replicate n 0)) = xs := by
  rw [additionalInput_zeros, xorBytes_zeros, List.take_of_length_le hxs.le]

section Turning

variable {keylen : Nat} (hfits : 16 + keylen ≤ ctrBufferSize) {v : UInt8} {d : Drbg CounterDrbg}

include hfits

theorem blocksFor_le : blocksFor 16 (16 + keylen) ≤ 32 := by
  have hsize : ctrBufferSize = 512 := rfl
  unfold blocksFor
  omega

/-- What an update without additional input makes of a `V` that repeats a byte. -/
theorem update_turning (hkey : 16 ∣ keylen) {V : List UInt8} (hv : v = 0 ∨ v = 1 ∨ v = 2) {k : Nat} (hk : k ≤ 1)
    (hV : V = advance (List.replicate 16 v) k) (n : Nat) :
    xorBytes (updateStream turningCipher V (turningFamily keylen hfits).seedlen)
      (additionalInput (turningFamily keylen hfits) (Vector.replicate n 0)) =
      List.replicate (16 + keylen) (turning v) := by
  have hle := blocksFor_le hfits
  have hstream : updateStream turningCipher V (turningFamily keylen hfits).seedlen =
      List.replicate (16 + keylen) (turning v) := by
    rw [updateStream_eq rfl V (dvd_seedlen (A := turningFamily keylen hfits) rfl hkey), hV]
    exact firstOf_turning hv (show k + blocksFor 16 (16 + keylen) ≤ 64 by omega)
  have hlen : (List.replicate (16 + keylen) (turning v)).length = (turningFamily keylen hfits).seedlen :=
    List.length_replicate
  rw [hstream, xorBytes_additional _ hlen]

/-- The first bytes of a request at an offset are not keystream. -/
theorem not_follows_offset (hkey : 16 ∣ keylen) (hv : v = 0 ∨ v = 2)
    (h : Installed turningCipher (List.replicate 16 v) d.sub.ctr) (hboff : d.sub.ctr.boff ≠ 0) (hn : n ≠ 0) (env : Env) :
    ¬ Follows (turningFamily keylen hfits) turningCipher (List.replicate 16 v) d env (Vector.replicate n 0) := by
  rintro ⟨d₁, out₁, hrun₁, hout₁, -, -⟩
  obtain ⟨d', out, t, t', ht, -, hrun, hout, -⟩ :=
    generate_installed (A := turningFamily keylen hfits) rfl h env (Vector.replicate n (0 : UInt8))
  cases hrun₁.symm.trans hrun
  have hone : turning v = 1 := by rcases hv with rfl | rfl <;> rfl
  have hstream : firstOf (keyBlock turningCipher (List.replicate 16 v)) (16 + keylen) =
      List.replicate (16 + keylen) 1 := by
    rw [← advance_zero (List.replicate 16 v), firstOf_turning (by tauto) (by have := blocksFor_le hfits; omega), hone]
  have hlen : (List.replicate (16 + keylen) (1 : UInt8)).length = (turningFamily keylen hfits).seedlen :=
    List.length_replicate
  have htail : (List.replicate (16 + keylen) (1 : UInt8)).drop keylen = List.replicate 16 1 := by
    rw [List.drop_replicate, Nat.add_sub_cancel]
  have ht' : t = List.replicate (16 + keylen) 1 := by
    rw [ht, ← hone]
    exact update_turning hfits hkey (by tauto) (Nat.zero_le 1) (advance_zero _).symm n
  have hspec : (ctrDrbgGenerate (turningFamily keylen hfits) turningCipher (List.replicate 16 v)
      (additionalInput (turningFamily keylen hfits) (Vector.replicate n 0)) n).1 =
      firstOf (keyBlock turningCipher (List.replicate 16 1)) n := by
    change firstOf (keyBlock turningCipher ((xorBytes (firstOf (keyBlock turningCipher _) (16 + keylen)) _).drop
      keylen)) n = _
    rw [hstream, xorBytes_additional _ hlen, htail]
  have hhead : (firstOf (keyBlock turningCipher (List.replicate 16 1)) n).head? = some 2 := by
    refine head_firstOf (Nat.pos_of_ne_zero hn) ?_
    rw [keyBlock_turning (Or.inr (Or.inl rfl)) (by decide)]
    rfl
  have hcode : out₁.toList.head? = some 1 := by
    have hlt : d.sub.ctr.boff < 16 := h.standing.boff
    obtain ⟨r, hr⟩ : ∃ r, 16 - d.sub.ctr.boff = r + 1 := ⟨15 - d.sub.ctr.boff, by omega⟩
    rw [hout, ht', List.head?_take, if_neg hn, left, if_neg hboff]
    change (((List.replicate (16 + keylen) (1 : UInt8)).drop keylen).drop d.sub.ctr.boff ++ _).head? = _
    rw [htail, List.drop_replicate, hr, List.replicate_succ, List.cons_append, List.head?_cons]
  rw [hout₁, hspec, hhead] at hcode
  exact absurd (Option.some.inj hcode) (by decide)

/-- The last bytes of an update are not combined with keystream. -/
theorem not_follows_length {V : List UInt8} (hkey : ¬ 16 ∣ keylen) (h : Installed turningCipher V d.sub.ctr) (env : Env)
    (n : Nat) : ¬ Follows (turningFamily keylen hfits) turningCipher V d env (Vector.replicate n 0) := by
  rintro ⟨d₁, out₁, hrun₁, -, -, hinst₁⟩
  obtain ⟨d', out, t, t', -, ht', hrun, -, -, hinst, -⟩ :=
    generate_installed (A := turningFamily keylen hfits) rfl h env (Vector.replicate n (0 : UInt8))
  cases hrun₁.symm.trans hrun
  have hsame := hinst₁.standing.ctr.unique hinst.standing.ctr
    (hinst₁.standing.length_iv.trans hinst.standing.length_iv.symm)
  have hspec : ∀ x ∈ (ctrDrbgGenerate (turningFamily keylen hfits) turningCipher V
      (additionalInput (turningFamily keylen hfits) (Vector.replicate n 0)) n).2.2, x ≠ 0 := by
    intro x hx
    obtain ⟨V', hV'⟩ : ∃ V', (ctrDrbgGenerate (turningFamily keylen hfits) turningCipher V
        (additionalInput (turningFamily keylen hfits) (Vector.replicate n 0)) n).2.2 =
        (xorBytes (firstOf (keyBlock turningCipher V') (16 + keylen))
          (additionalInput (turningFamily keylen hfits) (Vector.replicate n 0))).drop keylen := ⟨_, rfl⟩
    have hlen : (firstOf (keyBlock turningCipher V') (16 + keylen)).length = (turningFamily keylen hfits).seedlen :=
      length_firstOf (length_keyBlock _ _) pos_16 _
    rw [hV', xorBytes_additional _ hlen] at hx
    obtain ⟨q, -, hq⟩ := List.mem_flatMap.mp (List.mem_of_mem_take (List.mem_of_mem_drop hx))
    have hbyte : x = turning _ := List.eq_of_mem_replicate hq
    rw [hbyte]
    exact turning_ne_zero _
  have hcode : (0 : UInt8) ∈ t'.drop keylen := by
    obtain ⟨V', hV'⟩ : ∃ V', t' = xorBytes (updateStream turningCipher V' (16 + keylen))
      (additionalInput (turningFamily keylen hfits) (Vector.replicate n 0)) := ⟨_, ht'⟩
    have hblocks : (blocks (keyBlock turningCipher V') ((16 + keylen) / 16)).length = (16 + keylen) / 16 * 16 :=
      length_blocks (length_keyBlock _ _) _
    have hrest : 0 < (16 + keylen) % 16 := by
      rw [Nat.add_mod_left]
      exact Nat.pos_of_ne_zero fun h0 => hkey (Nat.dvd_of_mod_eq_zero h0)
    have hlen : (updateStream turningCipher V' (16 + keylen)).length = (turningFamily keylen hfits).seedlen :=
      length_updateStream (show turningCipher.blksize = 16 from rfl) V' _
    rw [hV', xorBytes_additional _ hlen, updateStream, List.drop_append_of_le_length (by omega)]
    exact List.mem_append_right _ (List.mem_replicate.mpr ⟨hrest.ne', rfl⟩)
  have hlast := hspec 0
  rw [hsame] at hlast
  exact hlast hcode rfl

end Turning

/-- That cipher with a vector of zeros, at an offset. -/
def turningState (boff : Nat) : Drbg CounterDrbg where
  inited := true
  rc := 1
  sub := ⟨turningCipher, ⟨.fast, some turningCipher, Vector.replicate 32 0, Vector.replicate 32 0, Vector.replicate 32 0,
    16, boff⟩⟩

theorem holds_zeros {k : Nat} (h : k ≤ m) :
    Buf.Holds (Vector.replicate m (0 : UInt8)) 0 (List.replicate k 0) := by
  have hall := Buf.holds_toList (Vector.replicate m (0 : UInt8))
  obtain ⟨r, rfl⟩ := Nat.exists_eq_add_of_le h
  rw [Vector.toList_replicate, List.replicate_add] at hall
  exact hall.left

theorem turningState_installed {boff : Nat} (h : boff < 16) :
    Installed turningCipher (List.replicate 16 0) (turningState boff).sub.ctr :=
  ⟨rfl, ⟨rfl, rfl, show 16 ≤ 32 by decide, h, holds_zeros (show 16 ≤ 32 by decide), List.length_replicate,
    holds_zeros (show 16 ≤ 32 by decide), List.length_replicate⟩, rfl⟩

theorem requestRight_iff {keylen boff : Nat} (hfits : 16 + keylen ≤ ctrBufferSize) (hboff : boff < 16) (n : Nat) :
    RequestRight keylen boff n ↔ 16 ∣ keylen ∧ (n = 0 ∨ boff = 0) := by
  let env : Env := ⟨.got [], fun _ => 0, Vector.replicate 96 0⟩
  constructor
  · intro h
    have hfollows := h (turningFamily keylen hfits) rfl rfl turningCipher (List.replicate 16 0) (turningState boff)
      (turningState_installed hboff) rfl env (Vector.replicate n 0)
    have hkey : 16 ∣ keylen := by
      by_contra hkey
      exact not_follows_length hfits hkey (turningState_installed hboff) env n hfollows
    refine ⟨hkey, ?_⟩
    by_contra hn
    obtain ⟨hn, hoff⟩ := not_or.mp hn
    exact not_follows_offset hfits hkey (Or.inl rfl) (turningState_installed hboff) hoff hn env hfollows
  · rintro ⟨hkey, hn⟩ A hA rfl E V d hinst rfl env data
    exact follows_of hA hkey hinst hn env data

end CounterDrbg

end Drew.Prng

/-!
## Runs of CTR_DRBG

Nothing but a request moves the offset, so that it is the number of bytes of all requests so far.
-/

namespace Drew.Prng

open Drew.Memory Drew.Block Drew.Stream Drew.Mode

open Drew.Mode.Gcm (ByteOrder)

open Drew.Mode.Ctr (Standing blocksFor)

/-- The number of bytes that a call asks for. -/
def Request.length : Request → Nat
  | .addRandomData _ _ => 0
  | .getBytes _ n _ => n

/-- The number of bytes that calls ask for. -/
def requested {σ : Type} (calls : List (Drbg σ × Request)) : Nat := (calls.map (·.2.length)).sum

namespace CounterDrbg

variable {A : CounterCipher} {order : ByteOrder} {env : Env} {data : List UInt8} {d d' : CounterDrbg} {b m : Nat}

/-- Some key and some `V` are installed, and the offset is `b`. -/
def AtBoff (b : Nat) (d : CounterDrbg) : Prop := ∃ E V, Installed E V d.ctr ∧ d.ctr.boff = b

theorem AtBoff.attached (hA : A.blksize = 16) (h : AtBoff b d) : Attached A d.ctr := by
  obtain ⟨E, V, hinst, -⟩ := h
  exact attached_of_standing hinst.standing (hinst.blksize.trans hA.symm) (by rw [hinst.functbl, if_pos hA])

theorem new_atBoff (hA : A.blksize = 16) (rc : UInt64) : AtBoff 0 (new A rc).sub := by
  have hE : A.unkeyed.blksize = 16 := A.blksize_unkeyed.trans hA
  refine ⟨A.unkeyed, List.replicate 16 0, ⟨hE, ?_, ?_⟩, rfl⟩
  · refine ⟨rfl, rfl, by omega, A.unkeyed.blksize_pos, holds_zeros (show 16 ≤ 32 by decide), ?_,
      holds_zeros (show 16 ≤ 32 by decide), ?_⟩ <;> rw [List.length_replicate, hE]
  · exact if_pos hE

theorem rekey_atBoff (hA : A.blksize = 16) {key iv : List UInt8} (hiv : iv.length = A.blksize) (h : AtBoff b d)
    (hrun : rekey A key iv d = some d') : AtBoff b d' := by
  obtain ⟨d₁, hd₁, hatt, hboff, hstand⟩ := rekey_spec key (h.attached hA) (by omega) hiv
  cases hd₁.symm.trans hrun
  obtain ⟨E, V, -, hb⟩ := h
  exact ⟨_, iv, ⟨(A.blksize_setkey key).trans hA, hstand, hatt.functbl.trans (if_pos hA)⟩, hboff.trans hb⟩

theorem update_atBoff (hA : A.blksize = 16) {provided : Buf UInt8 m} (hm : A.seedlen ≤ m) (h : AtBoff b d)
    (hrun : update A env provided d = some d') : AtBoff b d' := by
  obtain ⟨E, V, hinst, hb⟩ := h
  obtain ⟨d₁, t, -, hd₁, -, hboff, hinst'⟩ :=
    update_installed hA hinst.blksize hinst.standing hinst.functbl env provided hm
  cases hd₁.symm.trans hrun
  exact ⟨_, _, hinst', hboff.trans hb⟩

theorem seedingKeeps (hA : A.blksize = 16) (order : ByteOrder) (b : Nat) : (table A order).SeedingKeeps (AtBoff b) where
  initializeWith := by
    intro env data d d' hd h
    obtain ⟨r, -, h⟩ := Option.bind_eq_some_iff.mp h
    cases r with
    | error res => cases h
    | ok p =>
      obtain ⟨nonce, -, h⟩ := Option.bind_eq_some_iff.mp h
      obtain ⟨buf₁, -, h⟩ := Option.bind_eq_some_iff.mp h
      obtain ⟨buf₂, -, h⟩ := Option.bind_eq_some_iff.mp h
      obtain ⟨buf, -, h⟩ := Option.bind_eq_some_iff.mp h
      obtain ⟨sub₁, hrekey, h⟩ := Option.bind_eq_some_iff.mp h
      obtain ⟨sub, hupdate, h⟩ := Option.bind_eq_some_iff.mp h
      cases h
      exact update_atBoff hA A.fits (rekey_atBoff hA List.length_replicate hd hrekey) hupdate
  reseed := by
    intro env data d d' hd h
    obtain ⟨r, -, h⟩ := Option.bind_eq_some_iff.mp h
    cases r with
    | error res => cases h
    | ok p =>
      obtain ⟨nonce, -, h⟩ := Option.bind_eq_some_iff.mp h
      obtain ⟨buf₁, -, h⟩ := Option.bind_eq_some_iff.mp h
      obtain ⟨buf, -, h⟩ := Option.bind_eq_some_iff.mp h
      obtain ⟨sub, hupdate, h⟩ := Option.bind_eq_some_iff.mp h
      cases h
      exact update_atBoff hA A.fits hd hupdate

theorem step_atBoff (hA : A.blksize = 16) {d d' : Drbg CounterDrbg} {r : Request} (h : AtBoff b d.sub)
    (hstep : (table A order).Step d r d') : AtBoff ((b + r.length) % 16) d'.sub := by
  have hlt : b < 16 := by
    obtain ⟨E, V, hinst, rfl⟩ := h
    exact hinst.blksize ▸ hinst.standing.boff
  cases hstep with
  | addRandomData hrun =>
    change AtBoff (b % 16) d'.sub
    rw [Nat.mod_eq_of_lt hlt]
    exact (seedingKeeps hA order b).addRandomData h hrun
  | @getBytes env n data out _ hrun =>
    obtain ⟨⟨res, d₁⟩, hready, hrest⟩ := Option.bind_eq_some_iff.mp hrun
    have hres : res = 0 := ((counting order A).ready hready).1
    simp only [hres, Int.lt_irrefl, if_false] at hrest
    obtain ⟨⟨d₂, out'⟩, hgen, hret⟩ := Option.bind_eq_some_iff.mp hrest
    cases hret
    obtain ⟨E, V, hinst, hb⟩ := (seedingKeeps hA order b).ready h hready
    obtain ⟨d₃, out₃, t, t', -, -, hgen₃, -, -, hinst', hboff⟩ := generate_installed hA hinst env data
    cases hgen₃.symm.trans hgen
    rw [hb] at hboff
    exact ⟨_, _, hinst', hboff⟩

/-- Where the offset is after some calls. -/
theorem run_atBoff (hA : A.blksize = 16) {d d' : Drbg CounterDrbg} {calls : List (Drbg CounterDrbg × Request)}
    (h : AtBoff b d.sub) (hrun : (table A order).Run d calls d') : AtBoff ((b + requested calls) % 16) d'.sub := by
  induction hrun generalizing b with
  | @nil d =>
    obtain ⟨E, V, hinst, rfl⟩ := h
    have hlt : d.sub.ctr.boff < 16 := hinst.blksize ▸ hinst.standing.boff
    exact ⟨E, V, hinst, (Nat.mod_eq_of_lt hlt).symm⟩
  | @cons d d₁ d' r calls hstep hrest ih =>
    have hnext := ih (step_atBoff hA h hstep)
    have hsum : requested ((d, r) :: calls) = r.length + requested calls := List.sum_cons
    rw [Nat.mod_add_mod, Nat.add_assoc, ← hsum] at hnext
    exact hnext

/-- The request that some calls are followed by. -/
theorem run_request (hA : A.blksize = 16) (rc : UInt64) {d d' : Drbg CounterDrbg} {n : Nat} {input : Buf UInt8 n}
    {earlier later : List (Drbg CounterDrbg × Request)}
    (hrun : (table A order).Run (new A rc) (earlier ++ (d, .getBytes env n input) :: later) d') :
    ∃ d₁ E V, (table A order).ready env d = some (0, d₁) ∧ Installed E V d₁.sub.ctr ∧
      d₁.sub.ctr.boff = requested earlier % 16 := by
  obtain ⟨m, hearlier, hrest⟩ := hrun.split
  have hm := run_atBoff hA (new_atBoff hA rc) hearlier
  rw [Nat.zero_add] at hm
  cases hrest with
  | cons hstep hlater =>
    cases hstep with
    | getBytes h =>
      obtain ⟨⟨res, d₁⟩, hready, -⟩ := Option.bind_eq_some_iff.mp h
      have hres : res = 0 := ((counting order A).ready hready).1
      rw [hres] at hready
      obtain ⟨E, V, hinst, hboff⟩ := (seedingKeeps hA order _).ready hm hready
      exact ⟨d₁, E, V, hready, hinst, hboff⟩

/-! ## Requests -/

/-- For ciphers with blocks of 16 bytes. The offset of a request is the number of bytes of those before it, and it is
right if and only if the seed has whole blocks and there is no offset, or nothing to be written. -/
theorem counter_drbg_right_iff {keylen : Nat} (hfits : 16 + keylen ≤ ctrBufferSize) :
    (∀ boff < 16, ∀ n, RequestRight keylen boff n ↔ 16 ∣ keylen ∧ (n = 0 ∨ boff = 0)) ∧
    ∀ (A : CounterCipher) (order : ByteOrder) (rc : UInt64) (d d' : Drbg CounterDrbg) (env : Env) (n : Nat)
      (input : Buf UInt8 n) (earlier later : List (Drbg CounterDrbg × Request)),
      A.blksize = 16 → A.keylen = keylen →
      (table A order).Run (new A rc) (earlier ++ (d, .getBytes env n input) :: later) d' →
      ∃ d₁ E V, (table A order).ready env d = some (0, d₁) ∧ Installed E V d₁.sub.ctr ∧
        d₁.sub.ctr.boff = requested earlier % 16 ∧
        (16 ∣ keylen → n = 0 ∨ 16 ∣ requested earlier → Follows A E V d₁ env input) := by
  refine ⟨fun boff hboff n => requestRight_iff hfits hboff n, ?_⟩
  rintro A order rc d d' env n input earlier later hA rfl hrun
  obtain ⟨d₁, E, V, hready, hinst, hboff⟩ := run_request hA rc hrun
  refine ⟨d₁, E, V, hready, hinst, hboff, fun hkey hn => follows_of hA hkey hinst ?_ env input⟩
  exact hn.imp_right fun h => hboff.trans (Nat.mod_eq_zero_of_dvd h)

theorem fits_32 : 16 + 32 ≤ ctrBufferSize := by decide

/-- A cipher with the sizes of AES with keys of 32 bytes. -/
abbrev turning32 : CounterCipher := turningFamily 32 fits_32

theorem counter_drbg_right_first : RequestRight 32 0 16 ∧
    ∃ d₁ E V, (table turning32 .littleEndian).ready unreadable (new turning32 0) = some (0, d₁) ∧
      Follows turning32 E V d₁ unreadable (Vector.replicate 16 0) := by
  have hright : _ ∧ _ := counter_drbg_right_iff (show 16 + 32 ≤ ctrBufferSize by decide)
  refine ⟨(hright.1 0 (by decide) 16).mpr ⟨by decide, Or.inr rfl⟩, ?_⟩
  obtain ⟨d', out, hrun⟩ := getBytes_unseeded .littleEndian turning32 (show 16 ≤ 32 by decide) 0
    (show unreadable.reading.Fails from trivial) (Vector.replicate 16 0)
  have hcalls : (table turning32 .littleEndian).Run (new turning32 0)
      ([] ++ [(new turning32 0, .getBytes unreadable 16 (Vector.replicate 16 0))]) d' := .cons (.getBytes hrun) .nil
  obtain ⟨d₁, E, V, hready, -, -, hfollows⟩ := hright.2 turning32 .littleEndian 0 _ d' unreadable 16
    (Vector.replicate 16 0) [] [] rfl rfl hcalls
  exact ⟨d₁, E, V, hready, hfollows (by decide) (Or.inr (dvd_zero 16))⟩

/-- After a request of one byte the next one begins with what is left of `V` itself. -/
theorem second_request_wrong : ∃ d₁ out E V,
    (table turning32 .littleEndian).getBytes unreadable (new turning32 0) (Vector.replicate 1 0) = some (.ok (d₁, out)) ∧
    (table turning32 .littleEndian).ready unreadable d₁ = some (0, d₁) ∧ Installed E V d₁.sub.ctr ∧
    ¬ Follows turning32 E V d₁ unreadable (Vector.replicate 16 0) := by
  let d₀ : Drbg CounterDrbg := { new turning32 0 with inited := true }
  have hfits : 16 + 32 ≤ ctrBufferSize := by decide
  have hinst₀ : Installed turningCipher (List.replicate 16 0) d₀.sub.ctr :=
    turningState_installed (show 0 < 16 by decide)
  obtain ⟨d₁, out, t, t', ht, ht', hgen, -, -, hinst, hboff⟩ :=
    generate_installed (A := turning32) rfl hinst₀ unreadable (Vector.replicate 1 (0 : UInt8))
  have hone : t = List.replicate (16 + 32) 1 :=
    ht.trans (update_turning hfits (by decide) (Or.inl rfl) (Nat.zero_le 1) (advance_zero _).symm 1)
  have hdrop : t.drop turning32.keylen = List.replicate 16 1 := by
    rw [hone]
    rfl
  have hzero : d₀.sub.ctr.boff = 0 := rfl
  have hV : advance (t.drop turning32.keylen) (blocksFor 16 ((if d₀.sub.ctr.boff = 0 then 16 else d₀.sub.ctr.boff) +
      1 - 16)) = advance (List.replicate 16 1) 1 := by
    rw [hdrop, if_pos hzero]
    rfl
  have htwo : t' = List.replicate (16 + 32) 2 :=
    ht'.trans (update_turning hfits (by decide) (Or.inr (Or.inl rfl)) le_rfl hV 1)
  rw [htwo] at hinst
  refine ⟨d₁, out, turningCipher, List.replicate 16 2, ?_, ?_, hinst, ?_⟩
  · have hfails : unreadable.reading.Fails := trivial
    exact Class.getBytes_of_ready (ready_unseeded .littleEndian turning32 0 hfails) hgen
  · obtain ⟨hrc, hinited⟩ := (counting .littleEndian turning32).generate hgen
    have hlow : ¬ reseedInterval ≤ d₁.rc := by
      rw [hrc]
      decide
    rw [Class.ready, if_neg (by rw [hinited]; exact Bool.noConfusion), if_neg hlow]
  · exact not_follows_offset hfits (by decide) (Or.inr rfl) hinst (by rw [hboff]; decide) (by decide) unreadable

end CounterDrbg

end Drew.Prng
