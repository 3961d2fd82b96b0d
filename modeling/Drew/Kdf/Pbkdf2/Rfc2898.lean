import Drew.Kdf.HmacKdf
import Drew.Stream.Keystream

/-!
# PBKDF2

The model of `pbkdf2.c`. Whole blocks are computed in place in the output; a last block that is
not needed as a whole is computed in a buffer of its own.
-/

namespace Drew.Kdf

open Drew.Memory Drew.Block Drew.Stream Drew.Mode

/-- The member `salt` points to as many bytes as were given, `saltsz` is one byte. -/
structure Pbkdf (P : Algorithm) where
  prf : P.Ctx
  salt : List UInt8
  saltsz : UInt8
  count : Nat
  prfsz : Nat

namespace Pbkdf

variable {P : Algorithm} {n : Nat}

/-- `BUFFER_SIZE`. -/
abbrev bufferSize : Nat := 256

/-- `pbkdf_init`, with the value of the parameter `prf`. -/
def init (algo : P.Ctx) : Except Int (Pbkdf P) :=
  if bufferSize < P.size then .error (-drewErrNotImpl)
  else .ok {
    prf := P.reset (P.clone algo)
    salt := []
    saltsz := 0
    count := 0
    prfsz := P.size }

def reset (c : Pbkdf P) : Pbkdf P := { c with prf := P.reset c.prf }

def setsalt (c : Pbkdf P) (salt : List UInt8) : Pbkdf P :=
  { c with salt := salt, saltsz := UInt8.ofNat salt.length }

def setcount (c : Pbkdf P) (count : Nat) : Pbkdf P := { c with count := count }

def storeUint32 (x : UInt32) : List UInt8 :=
  [(x >>> 24).toUInt8, (x >>> 16).toUInt8, (x >>> 8).toUInt8, x.toUInt8]

/-- `xor_buffers2`. -/
def xorBuffers2 (store : Buf UInt8 n) (off : Nat) (buf : Buf UInt8 256) (len : Nat) :
    Option (Buf UInt8 n) := do
  let xs ← store.read off len
  let ys ← buf.read 0 len
  store.write off (xorBytes xs ys)

/-- The rounds after the first one, with the block at `storep = store + off`. -/
def rounds (h : Pbkdf P) (off : Nat) : Nat → P.Ctx → Buf UInt8 n → Buf UInt8 256 →
    Option (P.Ctx × Buf UInt8 n × Buf UInt8 256)
  | 0, prf, store, buf => some (prf, store, buf)
  | k + 1, prf, store, buf => do
      let u ← buf.read 0 h.prfsz
      let (prf, u) := P.generate (P.reset prf) h.prfsz u
      let buf ← buf.write 0 u
      let store ← xorBuffers2 store off buf h.prfsz
      rounds h off k prf store buf

/-- The block `i`, at `storep = store + off`. -/
def block (h : Pbkdf P) (tmp : List UInt8) (i : Nat) (prf : P.Ctx) (store : Buf UInt8 n)
    (off : Nat) (buf : Buf UInt8 256) : Option (P.Ctx × Buf UInt8 n × Buf UInt8 256) := do
  let (prf, u) :=
    P.generate (P.reset prf) h.prfsz (tmp ++ storeUint32 (UInt32.ofNat (i + 1)))
  let store ← store.write off u
  let u ← store.read off h.prfsz
  let buf ← buf.write 0 u
  rounds h off (h.count - 1) prf store buf

/-- What the loop over the blocks changes. -/
structure Loop (P : Algorithm) (n : Nat) where
  prf : P.Ctx
  out : Buf UInt8 n
  buf : Buf UInt8 256
  extra : Buf UInt8 256

/-- One round of the loop, for `L` blocks of which the last one has `r` bytes. -/
def round (h : Pbkdf P) (tmp : List UInt8) (o L r : Nat) (s : Loop P n) (i : Nat) :
    Option (Loop P n) :=
  if i = L - 1 ∧ r ≠ h.prfsz then do
    let (prf, extra, buf) ← block h tmp i s.prf s.extra 0 s.buf
    return { s with prf := prf, extra := extra, buf := buf }
  else do
    let (prf, out, buf) ← block h tmp i s.prf s.out (o + i * h.prfsz) s.buf
    return { s with prf := prf, out := out, buf := buf }

/-- Copy the last block, if `storep` is `extra`. -/
def copyExtra (h : Pbkdf P) (o L r : Nat) (s : Loop P n) : Option (Buf UInt8 n) :=
  if r ≠ h.prfsz then do
    let e ← s.extra.read 0 r
    s.out.write (o + (L - 1) * h.prfsz) e
  else some s.out

/-- `pbkdf_generate`, with the output at `out + o`; `buf` and `extra` are what the local buffers
contain at first. -/
def generate (h : Pbkdf P) (buf extra : Buf UInt8 256) (out : Buf UInt8 n) (o outlen : Nat)
    (inp : List UInt8) : Option (Except Int (Pbkdf P × Buf UInt8 n)) :=
  if outlen = 0 ∨ h.count = 0 then some (.error (-drewErrInvalid)) else
    let L := (outlen + (h.prfsz - 1)) / h.prfsz
    let r := outlen - (L - 1) * h.prfsz
    if h.saltsz.toNat ≤ h.salt.length then do
      let tmp := h.salt.take h.saltsz.toNat
      let prf := P.setkey (P.reset h.prf) inp
      let s ← (List.range L).foldlM (round h tmp o L r) ⟨prf, out, buf, extra⟩
      let out ← copyExtra h o L r s
      return .ok ({ h with prf := s.prf }, out)
    else none

end Pbkdf

end Drew.Kdf

/-!
## What PBKDF2 computes

A block is combined from the iterates of the pseudorandom function, starting from the salt and
the number of the block. The model uses as much of the salt as its length modulo 256 says.
-/

namespace Drew.Kdf.Pbkdf

open Drew.Memory Drew.Block Drew.Stream Drew.Mode

/-! ## What PBKDF2 is meant to compute -/

/-- The iterate `U_(j+1)` of the function, from a text on. -/
def iterate (f : List UInt8 → List UInt8) (m : List UInt8) : Nat → List UInt8
  | 0 => f m
  | j + 1 => f (iterate f m j)

/-- `U_1 xor ... xor U_(j+1)`. -/
def combined (f : List UInt8 → List UInt8) (m : List UInt8) : Nat → List UInt8
  | 0 => f m
  | j + 1 => xorBytes (combined f m j) (iterate f m (j + 1))

/-- The block `T_(i+1)`. -/
def blockAt (f : List UInt8 → List UInt8) (salt : List UInt8) (count i : Nat) : List UInt8 :=
  combined f (salt ++ beBytes 4 (i + 1)) (count - 1)

def pbkdf2 (f : List UInt8 → List UInt8) (salt : List UInt8) (count outlen : Nat) : List UInt8 :=
  firstOf (blockAt f salt count) outlen

variable {P : Algorithm} {n : Nat} {f : List UInt8 → List UInt8} {h : Pbkdf P}

section Lengths

variable {size : Nat} (hf : ∀ m, (f m).length = size)
include hf

theorem length_iterate (m : List UInt8) (j : Nat) : (iterate f m j).length = size := by
  cases j with
  | zero => exact hf m
  | succ j => exact hf _

theorem length_combined (m : List UInt8) (j : Nat) : (combined f m j).length = size := by
  induction j with
  | zero => exact hf m
  | succ j ih => rw [combined, length_xorBytes, ih, length_iterate hf, Nat.min_self]

end Lengths

/-- The bytes of a word, as remainders. -/
theorem toUInt8_shiftRight (i : Nat) (k : UInt32) {e : Nat} (hk : k.toNat < 32)
    (he : i % 2 ^ 32 / 2 ^ k.toNat % 256 = e % 256) :
    (UInt32.ofNat i >>> k).toUInt8 = UInt8.ofNat e := by
  apply UInt8.toNat_inj.mp
  rw [UInt32.toNat_toUInt8, UInt32.toNat_shiftRight, UInt32.toNat_ofNat', Nat.mod_eq_of_lt hk,
    Nat.shiftRight_eq_div_pow, UInt8.toNat_ofNat']
  exact he

theorem storeUint32_eq (i : Nat) : storeUint32 (UInt32.ofNat i) = beBytes 4 i := by
  have h24 : (UInt32.ofNat i >>> 24).toUInt8 = UInt8.ofNat (i / 256 / 256 / 256) := by
    apply toUInt8_shiftRight i 24 (by decide)
    change i % 2 ^ 32 / 2 ^ 24 % 256 = _
    omega
  have h16 : (UInt32.ofNat i >>> 16).toUInt8 = UInt8.ofNat (i / 256 / 256) := by
    apply toUInt8_shiftRight i 16 (by decide)
    change i % 2 ^ 32 / 2 ^ 16 % 256 = _
    omega
  have h8 : (UInt32.ofNat i >>> 8).toUInt8 = UInt8.ofNat (i / 256) := by
    apply toUInt8_shiftRight i 8 (by decide)
    change i % 2 ^ 32 / 2 ^ 8 % 256 = _
    omega
  have h0 : (UInt32.ofNat i).toUInt8 = UInt8.ofNat i := by
    apply UInt8.toNat_inj.mp
    rw [UInt32.toNat_toUInt8, UInt32.toNat_ofNat', UInt8.toNat_ofNat']
    omega
  rw [storeUint32, h24, h16, h8, h0]
  rfl

/-! ## One block -/

theorem xorBuffers2_spec {store : Buf UInt8 n} {off : Nat} {buf : Buf UInt8 256}
    {xs ys : List UInt8} (hlen : xs.length = ys.length) (hx : store.Holds off xs)
    (hy : buf.Holds 0 ys) : ∃ w, xorBuffers2 store off buf ys.length = some w ∧
      w.Holds off (xorBytes xs ys) ∧ Buf.SameOutside store w off ys.length := by
  have hfit := hx.1
  obtain ⟨w, hw⟩ := Buf.exists_write_at store off (xorBytes xs ys) (by simp; omega)
  have hread := hx.read
  rw [hlen] at hread
  have hsame := Buf.sameOutside_write hw
  rw [length_xorBytes, hlen, Nat.min_self] at hsame
  refine ⟨w, ?_, Buf.holds_write hw, hsame⟩
  rw [xorBuffers2]
  simp only [hread, hy.read, Option.bind_eq_bind, Option.bind_some]
  exact hw

variable {key : List UInt8} {Fresh Keyed : P.Ctx → Prop}

theorem generate_spec (hP : P.Computes key f Fresh Keyed) (hsize : h.prfsz = P.size)
    {prf : P.Ctx} (m : List UInt8) (hprf : Fresh prf) :
    ∃ prf', P.generate prf h.prfsz m = (prf', f m) ∧ Keyed prf' := by
  obtain ⟨hval, hkeyed⟩ := hP.generate m hprf
  rw [← hsize] at hval hkeyed
  exact ⟨_, Prod.ext rfl hval, hkeyed⟩

theorem rounds_spec (hP : P.Computes key f Fresh Keyed) (hf : ∀ m, (f m).length = P.size)
    (hsize : h.prfsz = P.size) (hle : P.size ≤ bufferSize) (m : List UInt8) (off k : Nat)
    {j : Nat} {prf : P.Ctx} {store : Buf UInt8 n} {buf : Buf UInt8 256} (hprf : Keyed prf)
    (hstore : store.Holds off (combined f m j)) (hbuf : buf.Holds 0 (iterate f m j)) :
    ∃ prf' store' buf', rounds h off k prf store buf = some (prf', store', buf') ∧
      Keyed prf' ∧ store'.Holds off (combined f m (j + k)) ∧
      Buf.SameOutside store store' off P.size := by
  induction k generalizing j prf store buf with
  | zero => exact ⟨prf, store, buf, rfl, hprf, hstore, Buf.SameOutside.refl _ _ _⟩
  | succ k ih =>
    have hread : buf.read 0 h.prfsz = some (iterate f m j) := by
      rw [hsize, ← length_iterate hf m j]
      exact hbuf.read
    obtain ⟨prf₁, hgen, hkeyed⟩ := generate_spec hP hsize (iterate f m j) (hP.reset hprf)
    have hnext : (iterate f m (j + 1)).length = P.size := length_iterate hf m (j + 1)
    obtain ⟨buf₁, hwrite⟩ := Buf.exists_write_at buf 0 (iterate f m (j + 1)) (by simpa [hnext] using hle)
    obtain ⟨store₁, hxor, hstore₁, hsame₁⟩ := xorBuffers2_spec
      ((length_combined hf m j).trans hnext.symm) hstore (Buf.holds_write hwrite)
    rw [hnext, ← hsize] at hxor
    rw [hnext] at hsame₁
    obtain ⟨prf', store', buf', hrun, hkeyed', hstore', hsame'⟩ :=
      ih hkeyed hstore₁ (Buf.holds_write hwrite)
    refine ⟨prf', store', buf', ?_, hkeyed', ?_, hsame₁.trans hsame'⟩
    · change buf.write 0 (f (iterate f m j)) = some buf₁ at hwrite
      simp only [rounds, hread, hgen, hwrite, hxor, Option.bind_eq_bind, Option.bind_some]
      exact hrun
    · rwa [Nat.add_right_comm] at hstore'

theorem block_spec (hP : P.Computes key f Fresh Keyed) (hf : ∀ m, (f m).length = P.size)
    (hsize : h.prfsz = P.size) (hle : P.size ≤ bufferSize) (tmp : List UInt8) (i : Nat)
    {prf : P.Ctx} (store : Buf UInt8 n) (off : Nat) (buf : Buf UInt8 256) (hprf : Keyed prf)
    (hfit : off + P.size ≤ n) :
    ∃ prf' store' buf', block h tmp i prf store off buf = some (prf', store', buf') ∧
      Keyed prf' ∧ store'.Holds off (blockAt f tmp h.count i) ∧
      Buf.SameOutside store store' off P.size := by
  obtain ⟨prf₁, hgen, hkeyed⟩ :=
    generate_spec hP hsize (tmp ++ beBytes 4 (i + 1)) (hP.reset hprf)
  obtain ⟨store₁, hstore₁⟩ :=
    Buf.exists_write_at store off (f (tmp ++ beBytes 4 (i + 1))) (by rw [hf]; exact hfit)
  obtain ⟨buf₁, hbuf₁⟩ :=
    Buf.exists_write_at buf 0 (f (tmp ++ beBytes 4 (i + 1))) (by rw [hf]; simpa using hle)
  have hread : store₁.read off h.prfsz = some (f (tmp ++ beBytes 4 (i + 1))) := by
    rw [hsize, ← hf (tmp ++ beBytes 4 (i + 1))]
    exact (Buf.holds_write hstore₁).read
  have hsame := Buf.sameOutside_write hstore₁
  rw [hf] at hsame
  obtain ⟨prf', store', buf', hrun, hkeyed', hstore', hsame'⟩ :=
    rounds_spec hP hf hsize hle (tmp ++ beBytes 4 (i + 1)) off (h.count - 1) (j := 0) hkeyed
      (Buf.holds_write hstore₁) (Buf.holds_write hbuf₁)
  rw [Nat.zero_add] at hstore'
  refine ⟨prf', store', buf', ?_, hkeyed', hstore', hsame.trans hsame'⟩
  rw [block, storeUint32_eq]
  simp only [hgen, hstore₁, hread, hbuf₁, Option.bind_eq_bind, Option.bind_some]
  exact hrun

/-! ## The loop over the blocks -/

/-- The number of blocks, and of bytes that are needed of the last one. -/
theorem blocks_bounds {outlen size : Nat} (hout : outlen ≠ 0) (hsize : 0 < size) {L r : Nat}
    (hL : L = (outlen + (size - 1)) / size) (hr : r = outlen - (L - 1) * size) :
    1 ≤ L ∧ (L - 1) * size + r = outlen ∧ 0 < r ∧ r ≤ size := by
  have hmod := Nat.div_add_mod (outlen + (size - 1)) size
  have hlt := Nat.mod_lt (outlen + (size - 1)) hsize
  rw [← hL] at hmod
  have hpos : 1 ≤ L := by
    by_contra hz
    have hz : L = 0 := by omega
    rw [hz, Nat.mul_zero] at hmod
    omega
  obtain ⟨k, rfl⟩ := Nat.exists_eq_add_of_le' hpos
  rw [Nat.mul_add, Nat.mul_one, Nat.mul_comm] at hmod
  rw [Nat.add_sub_cancel] at hr ⊢
  omega

/-- What the first `i` rounds have established, where `full` blocks are computed in place. -/
structure Written (f : List UInt8 → List UInt8) (h : Pbkdf P) (tmp : List UInt8)
    (Keyed : P.Ctx → Prop) (out : Buf UInt8 n) (o outlen L full i : Nat) (s : Loop P n) :
    Prop where
  keyed : Keyed s.prf
  holds : s.out.Holds o (blocks (blockAt f tmp h.count) (min i full))
  same : Buf.SameOutside out s.out o outlen
  extra : i = L → full < L → s.extra.Holds 0 (blockAt f tmp h.count full)

theorem round_spec (hP : P.Computes key f Fresh Keyed) (hf : ∀ m, (f m).length = P.size)
    (hsize : h.prfsz = P.size) (hle : P.size ≤ bufferSize) {tmp : List UInt8}
    {out : Buf UInt8 n} {o outlen L r full i : Nat} {s : Loop P n} (hi : i < L)
    (hfull : full = if r = P.size then L else L - 1) (hfit : full * P.size ≤ outlen)
    (hn : o + outlen ≤ n) (hs : Written f h tmp Keyed out o outlen L full i s) :
    ∃ s', round h tmp o L r s i = some s' ∧
      Written f h tmp Keyed out o outlen L full (i + 1) s' := by
  have hlen : ∀ i, (blockAt f tmp h.count i).length = P.size := fun i => length_combined hf _ _
  obtain ⟨prf, cur, buf, extra⟩ := s
  by_cases hlast : i = L - 1 ∧ r ≠ h.prfsz
  · have hF : full = L - 1 := by rw [hfull, if_neg (by rw [← hsize]; exact hlast.2)]
    obtain ⟨prf', extra', buf', hblock, hkeyed', hextra', -⟩ :=
      block_spec hP hf hsize hle tmp i extra 0 buf hs.keyed (by rw [Nat.zero_add]; exact hle)
    refine ⟨⟨prf', cur, buf', extra'⟩, ?_, ⟨hkeyed', ?_, hs.same, fun _ _ => ?_⟩⟩
    · rw [round, if_pos hlast]
      simp only [hblock, Option.bind_eq_bind, Option.bind_some, pure]
    · have hmin : min (i + 1) full = min i full := by omega
      rw [hmin]
      exact hs.holds
    · rwa [hF, ← hlast.1]
  · have hlt : i < full := by
      rw [hfull]
      split
      · exact hi
      · rename_i hr
        rw [hsize] at hlast
        omega
    have hnext : (i + 1) * P.size ≤ outlen := (Nat.mul_le_mul_right _ hlt).trans hfit
    rw [Nat.add_mul, Nat.one_mul] at hnext
    obtain ⟨prf', cur', buf', hblock, hkeyed', hcur', hsame'⟩ :=
      block_spec hP hf hsize hle tmp i cur (o + i * P.size) buf hs.keyed (by omega)
    have hprev := hs.holds
    rw [Nat.min_eq_left hlt.le] at hprev
    have hprevLen := length_blocks hlen i
    refine ⟨⟨prf', cur', buf', extra⟩, ?_, ⟨hkeyed', ?_, ?_, fun hL hlt' => ?_⟩⟩
    · rw [round, if_neg hlast, hsize]
      simp only [hblock, Option.bind_eq_bind, Option.bind_some, pure]
    · rw [Nat.min_eq_left hlt, blocks_succ]
      apply Buf.Holds.append (hprev.of_sameOutside hsame' (Or.inr (by omega)))
      rwa [hprevLen]
    · exact hs.same.trans (hsame'.mono (by omega) (by omega))
    · omega

/-- The output after the last block was copied. -/
theorem copyExtra_spec (hf : ∀ m, (f m).length = P.size) (hsize : h.prfsz = P.size)
    {tmp : List UInt8} {out : Buf UInt8 n} {o outlen L r : Nat} {s : Loop P n} {Keyed : P.Ctx → Prop}
    (hpos : 1 ≤ L) (hsum : (L - 1) * P.size + r = outlen) (hr0 : 0 < r) (hrle : r ≤ P.size)
    (hn : o + outlen ≤ n)
    (hs : Written f h tmp Keyed out o outlen L (if r = P.size then L else L - 1) L s) :
    ∃ w, copyExtra h o L r s = some w ∧ w.Holds o (pbkdf2 f tmp h.count outlen) ∧
      Buf.SameOutside out w o outlen := by
  obtain ⟨k, rfl⟩ := Nat.exists_eq_add_of_le' hpos
  rw [Nat.add_sub_cancel] at hsum hs
  have hmul : (k + 1) * P.size = k * P.size + P.size := by rw [Nat.add_mul, Nat.one_mul]
  have hlen : ∀ i, (blockAt f tmp h.count i).length = P.size := fun i => length_combined hf _ _
  have hblocks := length_blocks hlen
  rw [pbkdf2, firstOf_eq (k := k + 1) hlen P.size_pos (by omega)]
  have hholds := hs.holds
  by_cases hwhole : r = P.size
  · rw [if_pos hwhole, Nat.min_self] at hholds
    refine ⟨s.out, ?_, ?_, hs.same⟩
    · rw [copyExtra, hsize, if_neg (not_not.mpr hwhole)]
    · rwa [List.take_of_length_le (by rw [hblocks]; omega)]
  · rw [if_neg hwhole, Nat.min_eq_right (by omega)] at hholds
    have hextra := hs.extra rfl (by rw [if_neg hwhole]; omega)
    rw [if_neg hwhole, ← List.take_append_drop r (blockAt _ _ _ _)] at hextra
    have hread := hextra.left.read
    have htake : ((blockAt f tmp h.count k).take r).length = r := by
      rw [List.length_take, hlen, Nat.min_eq_left hrle]
    rw [htake] at hread
    obtain ⟨w, hw⟩ := Buf.exists_write_at s.out (o + k * P.size)
      ((blockAt f tmp h.count k).take r) (by omega)
    have hsame := Buf.sameOutside_write hw
    rw [htake] at hsame
    refine ⟨w, ?_, ?_, hs.same.trans (hsame.mono (by omega) (by omega))⟩
    · rw [copyExtra, hsize, if_pos hwhole, hread]
      exact hw
    · rw [blocks_succ, List.take_append, List.take_of_length_le (by rw [hblocks]; omega), hblocks,
        show outlen - k * P.size = r by omega]
      apply Buf.Holds.append
      · exact hholds.of_sameOutside hsame (Or.inr (by rw [hblocks]))
      · rw [hblocks]
        exact Buf.holds_write hw

/-- The call with a context whose members fit together. The salt is what is used of it. -/
theorem generate_writes (hP : P.IsPrf key f) (hsize : h.prfsz = P.size)
    (hle : P.size ≤ bufferSize) (hsalt : h.saltsz.toNat ≤ h.salt.length) (hcount : h.count ≠ 0)
    (buf extra : Buf UInt8 256) (out : Buf UInt8 n) {o outlen : Nat} (hout : outlen ≠ 0)
    (hn : o + outlen ≤ n) :
    ∃ prf' out', generate h buf extra out o outlen key =
        some (.ok ({ h with prf := prf' }, out')) ∧
      out'.Holds o (pbkdf2 f (h.salt.take h.saltsz.toNat) h.count outlen) ∧
      Buf.SameOutside out out' o outlen := by
  have hf := hP.length h.prf
  obtain ⟨Fresh, Keyed, hP⟩ := hP
  obtain ⟨L, hL⟩ : ∃ L, L = (outlen + (P.size - 1)) / P.size := ⟨_, rfl⟩
  obtain ⟨r, hr⟩ : ∃ r, r = outlen - (L - 1) * P.size := ⟨_, rfl⟩
  obtain ⟨hpos, hsum, hr0, hrle⟩ := blocks_bounds hout P.size_pos hL hr
  have hfull : (if r = P.size then L else L - 1) * P.size ≤ outlen := by
    split
    · rw [← hsum, ← Nat.sub_add_cancel hpos, Nat.add_mul, Nat.add_sub_cancel, Nat.one_mul]
      omega
    · omega
  obtain ⟨s, hrun, hs⟩ := foldlM_range
    (fun i s => Written f h (h.salt.take h.saltsz.toNat) Keyed out o outlen L
      (if r = P.size then L else L - 1) i s) L
    ⟨P.setkey (P.reset h.prf) key, out, buf, extra⟩
    ⟨hP.keyed (hP.setkey _), by simpa [blocks] using Buf.holds_nil (by omega),
      Buf.SameOutside.refl _ _ _, fun h0 => by omega⟩
    (fun i hi s hs => round_spec hP hf hsize hle hi rfl hfull hn hs)
  obtain ⟨w, hw, hholds, hsame⟩ := copyExtra_spec hf hsize hpos hsum hr0 hrle hn hs
  refine ⟨s.prf, w, ?_, hholds, hsame⟩
  rw [generate, if_neg (by omega)]
  dsimp only
  rw [if_pos hsalt, hsize, ← hL, ← hr, hrun]
  simp only [hw, Option.bind_eq_bind, Option.bind_some, pure]

/-! ## Any calls -/

inductive Op where
  | reset
  | setsalt (salt : List UInt8)
  | setcount (count : Nat)
  | generate {n : Nat} (buf extra : Buf UInt8 256) (out : Buf UInt8 n) (o outlen : Nat)
      (inp : List UInt8)

def step (c : Pbkdf P) : Op → Option (Pbkdf P)
  | .reset => some c.reset
  | .setsalt salt => some (c.setsalt salt)
  | .setcount count => some (c.setcount count)
  | .generate buf extra out o outlen inp =>
      (c.generate buf extra out o outlen inp).map fun
        | .ok (c', _) => c'
        | .error _ => c

/-- The salt last set. -/
def nextSalt (s : List UInt8) : Op → List UInt8
  | .setsalt salt => salt
  | _ => s

/-- The count last set. -/
def nextCount (k : Nat) : Op → Nat
  | .setcount count => count
  | _ => k

/-- Any calls lead to a context with this salt and count. -/
inductive Reaches (salt : List UInt8) (count : Nat) : Pbkdf P → Prop
  | intro {algo : P.Ctx} {ops : List Op} {c₀ c : Pbkdf P} (hinit : init algo = .ok c₀)
      (hrun : ops.foldlM step c₀ = some c) (hsalt : ops.foldl nextSalt [] = salt)
      (hcount : ops.foldl nextCount 0 = count) : Reaches salt count c

/-- The members that are set by the caller. -/
structure Kept (salt : List UInt8) (count : Nat) (c : Pbkdf P) : Prop where
  prfsz : c.prfsz = P.size
  size_le : P.size ≤ bufferSize
  salt : c.salt = salt
  saltsz : c.saltsz = UInt8.ofNat c.salt.length
  count : c.count = count

variable {salt : List UInt8} {count : Nat} {c c' : Pbkdf P}

theorem generate_members {buf extra : Buf UInt8 256} {out out' : Buf UInt8 n} {o outlen : Nat}
    {inp : List UInt8} (hgen : generate c buf extra out o outlen inp = some (.ok (c', out'))) :
    ∃ prf, c' = { c with prf := prf } := by
  unfold generate at hgen
  split at hgen
  · cases hgen
  · dsimp only at hgen
    split at hgen
    · obtain ⟨s, -, hgen⟩ := Option.bind_eq_some_iff.mp hgen
      obtain ⟨w, -, hgen⟩ := Option.bind_eq_some_iff.mp hgen
      cases hgen
      exact ⟨s.prf, rfl⟩
    · cases hgen

theorem step_kept {op : Op} (h : Kept salt count c) (hstep : step c op = some c') :
    Kept (nextSalt salt op) (nextCount count op) c' := by
  cases op with
  | reset =>
    cases hstep
    exact ⟨h.prfsz, h.size_le, h.salt, h.saltsz, h.count⟩
  | setsalt salt =>
    cases hstep
    exact ⟨h.prfsz, h.size_le, rfl, rfl, h.count⟩
  | setcount count =>
    cases hstep
    exact ⟨h.prfsz, h.size_le, h.salt, h.saltsz, rfl⟩
  | generate buf extra out o outlen inp =>
    obtain ⟨r, hgen, rfl⟩ := Option.map_eq_some_iff.mp hstep
    cases r with
    | error e => exact h
    | ok r =>
      obtain ⟨prf, hc⟩ := generate_members hgen
      dsimp only
      rw [hc]
      exact ⟨h.prfsz, h.size_le, h.salt, h.saltsz, h.count⟩

theorem run_kept {ops : List Op} (h : Kept salt count c) (hrun : ops.foldlM step c = some c') :
    Kept (ops.foldl nextSalt salt) (ops.foldl nextCount count) c' := by
  induction ops generalizing c salt count with
  | nil =>
    cases hrun
    exact h
  | cons op ops ih =>
    obtain ⟨c₁, hstep, hrest⟩ := Option.bind_eq_some_iff.mp hrun
    exact ih (step_kept h hstep) hrest

theorem Reaches.kept (h : Reaches salt count c) : Kept salt count c := by
  obtain ⟨hinit, hrun, rfl, rfl⟩ := h
  unfold init at hinit
  split at hinit
  · cases hinit
  · rename_i hsize
    cases hinit
    exact run_kept ⟨rfl, by omega, rfl, rfl, rfl⟩ hrun

/-- A context may be used again after a call of `generate`. -/
theorem Reaches.again (h : Reaches salt count c) {buf extra : Buf UInt8 256}
    {out out' : Buf UInt8 n} {o outlen : Nat} {inp : List UInt8}
    (hgen : generate c buf extra out o outlen inp = some (.ok (c', out'))) :
    Reaches salt count c' := by
  obtain @⟨_, ops, _, _, hinit, hrun, hsalt, hcount⟩ := h
  refine .intro hinit (show (ops ++ [Op.generate buf extra out o outlen inp]).foldlM step _ = some _ from ?_)
    ?_ ?_
  · rw [List.foldlM_append, hrun]
    change (step c _).bind _ = _
    rw [step, hgen]
    rfl
  · rw [List.foldl_append, hsalt]
    rfl
  · rw [List.foldl_append, hcount]
    rfl

/-! ## The salts that are used as a whole -/

/-- A call writes the specified bytes, and no others. -/
def Generates (f : List UInt8 → List UInt8) (key salt : List UInt8) (count : Nat)
    (c : Pbkdf P) : Prop :=
  ∀ {n : Nat} (buf extra : Buf UInt8 256) (out : Buf UInt8 n) (o outlen : Nat), 1 ≤ outlen →
    o + outlen ≤ n → ∃ c' out', generate c buf extra out o outlen key = some (.ok (c', out')) ∧
      out'.Holds o (pbkdf2 f salt count outlen) ∧ Buf.SameOutside out out' o outlen

theorem Reaches.writes (h : Reaches salt count c) (hP : P.IsPrf key f) (hcount : 1 ≤ count)
    (buf extra : Buf UInt8 256) (out : Buf UInt8 n) {o outlen : Nat} (hout : 1 ≤ outlen)
    (hn : o + outlen ≤ n) :
    ∃ c' out', generate c buf extra out o outlen key = some (.ok (c', out')) ∧
      out'.Holds o (pbkdf2 f (salt.take (salt.length % 256)) count outlen) ∧
      Buf.SameOutside out out' o outlen := by
  obtain ⟨hprfsz, hle, rfl, hsaltsz, rfl⟩ := h.kept
  have hused : c.saltsz.toNat = c.salt.length % 256 := by
    rw [hsaltsz, UInt8.toNat_ofNat']
  rw [← hused]
  obtain ⟨prf', out', hgen, hwritten⟩ := generate_writes hP hprfsz hle
    (by rw [hused]; exact Nat.mod_le _ _) (by omega) buf extra out (by omega) hn
  exact ⟨_, out', hgen, hwritten⟩

/-- The function that repeats a byte of its argument. It needs no key. -/
def repeating (size : Nat) (hsize : 0 < size) (g : List UInt8 → UInt8) : Algorithm where
  Ctx := Unit
  size := size
  size_pos := hsize
  clone _ := ()
  reset _ := ()
  setkey _ _ := ()
  generate _ _ m := ((), List.replicate size (g m))
  length_generate _ _ := List.length_replicate

theorem repeating_isPrf (size : Nat) (hsize : 0 < size) (g : List UInt8 → UInt8)
    (key : List UInt8) :
    (repeating size hsize g).IsPrf key fun m => List.replicate size (g m) :=
  ⟨fun _ => True, fun _ => True, fun _ => trivial, fun _ => trivial, fun _ => trivial,
    fun _ => trivial, fun _ _ => ⟨rfl, trivial⟩⟩

/-- Tell one text from all others. -/
def marks (size : Nat) (m₀ m : List UInt8) : List UInt8 :=
  List.replicate size (if m = m₀ then 1 else 0)

/-- A text that is longer than the blocks does not occur again, so that a block is the first
iterate. -/
theorem combined_marks {size : Nat} {m₀ : List UInt8} (hlong : size < m₀.length)
    (m : List UInt8) (j : Nat) : combined (marks size m₀) m j = marks size m₀ m := by
  have hzero : ∀ x : UInt8, marks size m₀ (List.replicate size x) = List.replicate size 0 := by
    intro x
    rw [marks, if_neg]
    intro he
    rw [← he, List.length_replicate] at hlong
    omega
  have hiter : ∀ j, iterate (marks size m₀) m (j + 1) = List.replicate size 0 := by
    intro j
    cases j with
    | zero => exact hzero _
    | succ j =>
      rw [iterate, iterate]
      exact hzero _
  induction j with
  | zero => rfl
  | succ j ih =>
    rw [combined, ih, hiter, marks, xorBytes, List.zipWith_replicate, Nat.min_self,
      UInt8.xor_zero]

/-- A context with any salt and count. -/
theorem exists_reaches (algo : P.Ctx) (hle : P.size ≤ bufferSize) (salt : List UInt8)
    (count : Nat) : ∃ c : Pbkdf P, Reaches salt count c := by
  obtain ⟨c₀, hinit⟩ : ∃ c₀, init algo = .ok c₀ := ⟨_, if_neg (by omega)⟩
  exact ⟨(c₀.setsalt salt).setcount count,
    .intro hinit (show [Op.setsalt salt, .setcount count].foldlM step _ = some _ from rfl) rfl rfl⟩

/-- The property, for every pseudorandom function with outputs of `size` bytes. -/
def BlocksRight (size : Nat) (salt : List UInt8) (count : Nat) (key : List UInt8) : Prop :=
  ∀ P : Algorithm, P.size = size → ∀ f, P.IsPrf key f → ∀ c : Pbkdf P, Reaches salt count c →
    Generates f key salt count c

theorem pbkdf2_marks {size : Nat} (hsize : 0 < size) {m₀ : List UInt8}
    (hlong : size < m₀.length) (salt : List UInt8) (count : Nat) :
    pbkdf2 (marks size m₀) salt count 1 = [if salt ++ beBytes 4 1 = m₀ then 1 else 0] := by
  obtain ⟨k, rfl⟩ : ∃ k, size = k + 1 := ⟨size - 1, by omega⟩
  rw [pbkdf2, firstOf, blocks_one, blockAt, combined_marks hlong, marks, List.replicate_succ]
  rfl

/-- A longer salt is cut off, which a function that marks the right text tells. -/
theorem BlocksRight.salt_lt {size : Nat} (h : BlocksRight size salt count key)
    (hsize : 0 < size) (hle : size ≤ bufferSize) (hcount : 1 ≤ count) : salt.length < 256 := by
  by_contra hlong
  have hlen : (salt ++ beBytes 4 1).length = salt.length + 4 := by
    rw [List.length_append, length_beBytes]
  have hP := repeating_isPrf size hsize (fun m => if m = salt ++ beBytes 4 1 then 1 else 0) key
  obtain ⟨c, hc⟩ := exists_reaches (P := repeating size hsize
    fun m => if m = salt ++ beBytes 4 1 then 1 else 0) () hle salt count
  obtain ⟨c₁, out₁, hgen₁, hspec, -⟩ := h _ rfl _ hP c hc (Vector.replicate 256 0)
    (Vector.replicate 256 0) (Vector.replicate 1 0) 0 1 le_rfl le_rfl
  obtain ⟨c₂, out₂, hgen₂, hcode, -⟩ := hc.writes hP hcount (Vector.replicate 256 0)
    (Vector.replicate 256 0) (Vector.replicate 1 0) le_rfl le_rfl
  rw [hgen₁] at hgen₂
  cases hgen₂
  have hbig : size < (salt ++ beBytes 4 1).length := by
    rw [hlen]
    have hle' : size ≤ 256 := hle
    omega
  change out₁.Holds 0 (pbkdf2 (marks size (salt ++ beBytes 4 1)) _ _ _) at hspec hcode
  rw [pbkdf2_marks hsize hbig, if_pos rfl] at hspec
  rw [pbkdf2_marks hsize hbig, if_neg] at hcode
  · exact absurd (hspec.unique hcode rfl) (by decide)
  · intro he
    have hcut := congrArg List.length (List.append_cancel_right he)
    rw [List.length_take] at hcut
    have hlt := Nat.mod_lt salt.length (show 0 < 256 by decide)
    omega

/-- The function that gives the first byte of its argument. -/
def firstByte : Algorithm := repeating 1 Nat.one_pos fun m => m.headD 0

end Drew.Kdf.Pbkdf
