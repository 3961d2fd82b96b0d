import Drew.Mode.Gcm.Message

/-!
# Galois/counter mode: the fast functions

They count in four words, not in the last one alone, so the counter is that of the plain functions as long
as the last word does not overflow. As in the other modes, the first slice is combined with as many bytes as
the whole call has.
-/

namespace Drew.Mode.Gcm

open Drew.Memory Drew.Block Drew.Stream

/-! ## The functions -/

/-- Write `k` counter blocks from `off` on, each after it was counted. -/
def countBlocks {n : Nat} : Nat → Nat → Buf UInt8 n → Buf UInt32 4 → Option (Buf UInt8 n × Buf UInt32 4)
  | 0, _, tmp, ctr => some (tmp, ctr)
  | k + 1, off, tmp, ctr => do
      let ctr ← incrementFast ctr
      let tmp ← copyFromWords tmp off ctr
      countBlocks k (off + fastAlignment) tmp ctr

/-- `hash_fast`: add `mul` blocks of `block`, from `off` on, to the hash `buf`. -/
def hashFast {n : Nat} (c : Gcm) (block : Buf UInt8 n) : Nat → Nat → Buf UInt8 16 → Option (Buf UInt8 16)
  | 0, _, buf => some buf
  | mul + 1, off, buf => do
      let buf ← xorAligned buf 0 buf 0 block off 16
      let buf ← c.multiply buf
      hashFast c block mul (off + 16) buf

/-- The slices of the fast functions. The positions of `out` and `in` are those of their pointers; `in` has
moved along the slice before it moves by the size of a slice. Decryption hashes the input first, and
encryption the output last. Every round shortens `len`, so `len` rounds are enough. -/
def slices {n : Nat} (decrypts : Bool) (c : Gcm) (algo : BlockCipher) (inp : Buf UInt8 n) :
    Nat → Nat → Nat → Nat → Buf UInt8 sliceSize → Buf UInt32 4 → Buf UInt8 16 → Buf UInt8 n →
    Option (Buf UInt32 4 × Buf UInt8 16 × Buf UInt8 n)
  | 0, _, _, _, _, ctr, x, out => some (ctr, x, out)
  | rounds + 1, len, outPos, inPos, tmp, ctr, x, out =>
      if len = 0 then some (ctr, x, out) else do
        let size := min sliceSize len
        let chunks := size / fastAlignment
        let steps := (size + (fastAlignment - 1)) / fastAlignment
        let x ← if decrypts then c.hashFast inp chunks inPos x else some x
        let (tmp, ctr) ← countBlocks steps 0 tmp ctr
        let tmp ← algo.encryptfast tmp 0 tmp 0 chunks
        let out ← xorAligned out outPos tmp 0 inp inPos len
        let x ← if decrypts then some x else c.hashFast out chunks outPos x
        slices decrypts c algo inp rounds (len - size) (outPos + sliceSize)
          (inPos + steps * fastAlignment + sliceSize) tmp ctr x out

/-- What `gcm_encryptfast` and `gcm_decryptfast` have in common. The slice `tmp` is not initialised. -/
def cryptfast {n : Nat} (decrypts : Bool) (c : Gcm) (tmp : Buf UInt8 sliceSize) (out inp : Buf UInt8 n) :
    Option (Gcm × Buf UInt8 n) := do
  let c := { c with clen := (c.clen + n) % 2 ^ 64 }
  let algo ← c.algo
  let ctr ← copyToWords c.y 0
  let (ctr, x, out) ← slices decrypts c algo inp n n 0 0 tmp ctr c.x out
  let y ← copyFromWords c.y 0 ctr
  return ({ c with y := y, x := x }, out)

/-- `gcm_encryptfast`. -/
def encryptfast {n : Nat} : Gcm → Buf UInt8 sliceSize → Buf UInt8 n → Buf UInt8 n → Option (Gcm × Buf UInt8 n) :=
  cryptfast false

/-- `gcm_decryptfast`. -/
def decryptfast {n : Nat} : Gcm → Buf UInt8 sliceSize → Buf UInt8 n → Buf UInt8 n → Option (Gcm × Buf UInt8 n) :=
  cryptfast true

/-! ## Counters -/

/-- The last word of the counter. -/
def lastWord (y : Buf UInt8 16) : Nat := beNat (y.toList.drop 12)

section Counters

variable {n : Nat}

theorem lastWord_lt (y : Buf UInt8 16) : lastWord y < 2 ^ 32 := by
  have hlt := beNat_lt (y.toList.drop 12)
  rw [List.length_drop, Vector.length_toList] at hlt
  exact hlt

theorem beNat_counter (y : Buf UInt8 16) :
    beNat y.toList = beNat (y.toList.take 12) * 2 ^ 32 + lastWord y := by
  have happ := beNat_append (y.toList.take 12) (y.toList.drop 12)
  rw [List.take_append_drop, List.length_drop, Vector.length_toList] at happ
  exact happ

/-- As long as the last word does not overflow, the blocks of both ways to count are the same. -/
theorem inc32s_counter (y : Buf UInt8 16) {k : Nat} (h : lastWord y + k < 2 ^ 32) :
    inc32^[k] y.toList = beBytes 16 (beNat y.toList + k) := by
  have hlen : y.toList.length = 16 := Vector.length_toList
  have hval : beNat (inc32^[k] y.toList) = beNat y.toList + k := by
    rw [inc32s_eq hlen, beNat_append, beNat_beBytes, length_beBytes, beNat_counter, lastWord]
    rw [lastWord] at h
    rw [show 256 ^ 4 = 2 ^ 32 from rfl, Nat.mod_eq_of_lt h, Nat.add_assoc]
  have hbytes := beBytes_beNat (inc32^[k] y.toList)
  rw [length_inc32s hlen, hval] at hbytes
  exact hbytes.symm

/-- Where it overflows, they differ. -/
theorem inc32s_overflow (y : Buf UInt8 16) {k : Nat} (hk : k < 2 ^ 32) (h : 2 ^ 32 ≤ lastWord y + k) :
    inc32^[k] y.toList ≠ beBytes 16 (beNat y.toList + k) := by
  intro heq
  have hlen : y.toList.length = 16 := Vector.length_toList
  have hval := congrArg beNat heq
  rw [inc32s_eq hlen, beNat_append, beNat_beBytes, beNat_beBytes, length_beBytes, beNat_counter] at hval
  have hlow := lastWord_lt y
  rw [lastWord] at h hval hlow
  have hhigh := beNat_lt (y.toList.take 12)
  rw [List.length_take, hlen] at hhigh
  norm_num at hhigh hlow hval h hk
  omega

/-- The blocks are the numbers after the value of the counter. -/
theorem countBlocks_spec (k off : Nat) {N : Nat} {tmp : Buf UInt8 n} {ctr : Buf UInt32 4} {xs : List UInt8}
    (htmp : tmp.Holds 0 xs) (hxs : xs.length = off) (hctr : wordsVal ctr.toList = N % 256 ^ 16)
    (hfit : off + k * 16 ≤ n) :
    ∃ tmp' ctr', countBlocks k off tmp ctr = some (tmp', ctr') ∧
      tmp'.Holds 0 (xs ++ blocks (fun q => beBytes 16 (N + (q + 1))) k) ∧
      wordsVal ctr'.toList = (N + k) % 256 ^ 16 := by
  induction k generalizing off N tmp ctr xs with
  | zero => exact ⟨tmp, ctr, rfl, by simpa [blocks] using htmp, hctr⟩
  | succ k ih =>
    obtain ⟨ctr₁, hinc, hctr₁⟩ := incrementFast_spec hctr
    obtain ⟨tmp₁, hcopy, hwrite⟩ := copyFromWords_spec tmp off (by omega) hctr₁
    have htmp₁ : tmp₁.Holds 0 (xs ++ beBytes 16 (N + 1)) := by
      refine (htmp.write_of_disjoint hwrite (Or.inr (by omega))).append ?_
      rw [Nat.zero_add, hxs]
      exact Buf.holds_write hwrite
    obtain ⟨tmp₂, ctr₂, hrest, htmp₂, hctr₂⟩ :=
      ih (off + 16) htmp₁ (by simp [hxs]) hctr₁ (by omega)
    refine ⟨tmp₂, ctr₂, ?_, ?_, ?_⟩
    · simp [countBlocks, hinc, hcopy, fastAlignment, hrest]
    · have hblocks : blocks (fun q => beBytes 16 (N + (q + 1))) (k + 1) =
          beBytes 16 (N + 1) ++ blocks (fun q => beBytes 16 (N + 1 + (q + 1))) k := by
        rw [Nat.add_comm k, blocks_add, blocks_one]
        simp only [Nat.add_assoc, Nat.zero_add]
      rw [hblocks, ← List.append_assoc]
      exact htmp₂
    · rw [hctr₂, Nat.add_assoc, Nat.add_comm 1]

end Counters

/-! ## Hashing -/

section Hash

variable {E : BlockCipher} {c : Gcm} {n : Nat}

/-- The blocks of a text in memory. -/
theorem hashFast_spec (hc : Keyed E c) {block : Buf UInt8 n} (mul off : Nat) (buf : Buf UInt8 16)
    {data : List UInt8} (hlen : data.length = mul * 16) (hdata : block.Holds off data) :
    ∃ out, c.hashFast block mul off buf = some out ∧
      ofBytes out.toList = ghash (hashKey E) (ofBytes buf.toList) (toBlocks mul data) := by
  induction mul generalizing off buf data with
  | zero => exact ⟨buf, rfl, rfl⟩
  | succ mul ih =>
    rw [Nat.add_mul, Nat.one_mul] at hlen
    obtain ⟨b, rest, rfl, hb⟩ : ∃ b rest, data = b ++ rest ∧ b.length = 16 :=
      ⟨data.take 16, data.drop 16, (List.take_append_drop 16 data).symm, by simp; omega⟩
    have hrest : rest.length = mul * 16 := by
      rw [List.length_append, hb] at hlen
      omega
    have htake : (b ++ rest).take 16 = b := List.take_left' hb
    have hdrop : (b ++ rest).drop 16 = rest := List.drop_left' hb
    have hxs : buf.toList.length = 16 := Vector.length_toList
    obtain ⟨sum, hxor, hwrite⟩ := xorAligned_spec buf 0 (dvd_refl 16) hxs hb
      (Buf.holds_toList buf) hdata.left (by decide)
    have hsum : ofBytes sum.toList = ofBytes buf.toList ^^^ ofBytes b := by
      rw [(Buf.holds_write hwrite).toList (by simp [hb]), ofBytes_xorBytes hxs hb]
    obtain ⟨buf₁, hmul, hbuf₁⟩ := hc.multiplies sum
    obtain ⟨out, hrun, hout⟩ := ih (off + 16) buf₁ hrest (hb ▸ hdata.right)
    refine ⟨out, ?_, ?_⟩
    · simp only [hashFast, hxor, hmul, Option.bind_eq_bind, Option.bind_some]
      exact hrun
    · rw [hout, hbuf₁, hsum, toBlocks, htake, hdrop, padBlock_of_length hb]
      rfl

end Hash

/-! ## Slices -/

section Slices

variable {E : BlockCipher} {c : Gcm} {n : Nat}

/-- The first slice, if the hash is as expected, where the keystream is that from `N` on. -/
theorem keystream_spec (hE : E.blksize = 16) (h16 : 16 ∣ n) (hle : n ≤ sliceSize) (tmp : Buf UInt8 sliceSize)
    {ctr : Buf UInt32 4} {N : Nat} (hctr : wordsVal ctr.toList = N % 256 ^ 16) (out inp : Buf UInt8 n) :
    ∃ tmp₁ tmp₂ ctr' out', countBlocks ((n + (fastAlignment - 1)) / fastAlignment) 0 tmp ctr =
        some (tmp₁, ctr') ∧
      E.encryptfast tmp₁ 0 tmp₁ 0 (n / fastAlignment) = some tmp₂ ∧
      xorAligned out 0 tmp₂ 0 inp 0 n = some out' ∧
      out'.toList = xorBytes (blocks (fun q => E.encrypt (beBytes 16 (N + (q + 1)))) (n / 16)) inp.toList ∧
      wordsVal ctr'.toList = (N + n / 16) % 256 ^ 16 := by
  obtain ⟨m, rfl⟩ := h16
  have hsize : sliceSize = 4096 := rfl
  have hdiv : 16 * m / 16 = m := Nat.mul_div_cancel_left m (by decide)
  have hsteps : (16 * m + (fastAlignment - 1)) / fastAlignment = m := by
    unfold fastAlignment
    omega
  have hlen : ∀ q, (beBytes 16 (N + (q + 1))).length = 16 := fun q => length_beBytes _ _
  obtain ⟨tmp₁, ctr', hcount, htmp₁, hctr'⟩ := countBlocks_spec m 0
    (Buf.holds_nil (v := tmp) (Nat.zero_le _)) rfl hctr (by omega)
  have hfast : E.fastBlocks m = m := by
    rw [BlockCipher.fastBlocks, if_neg (by omega)]
  have hblocks := length_blocks hlen m
  rw [List.nil_append] at htmp₁
  obtain ⟨tmp₂, henc, hwrite⟩ := BlockCipher.encryptfast_spec (E := E) (n := m) tmp₁ 0
    (by rw [hfast, hE, hblocks]) htmp₁ (by rw [hblocks]; omega)
  rw [hfast, hE, mapBlocks_blocks _ hlen] at hwrite
  have hkey : (blocks (fun q => E.encrypt (beBytes 16 (N + (q + 1)))) m).length = 16 * m := by
    rw [length_blocks (fun q => E.length_encrypt _ (by rw [hlen, hE])), hE, Nat.mul_comm]
  obtain ⟨out', hxor, hwrite'⟩ := xorAligned_spec out 0 (Dvd.intro m rfl) hkey (by simp)
    (Buf.holds_write hwrite) (Buf.holds_toList inp) (by omega)
  refine ⟨tmp₁, tmp₂, ctr', out', by rw [hsteps]; exact hcount, ?_, hxor, ?_, by rw [hdiv, hctr']⟩
  · rw [fastAlignment, hdiv, henc]
  · rw [hdiv]
    exact (Buf.holds_write hwrite').toList (by simp [hkey])

/-- One slice is as much as the whole call. -/
theorem slices_of_le (hc : Keyed E c) (decrypts : Bool) (h16 : 16 ∣ n) (hle : n ≤ sliceSize) (tmp : Buf UInt8 sliceSize)
    {ctr : Buf UInt32 4} {N : Nat} (hctr : wordsVal ctr.toList = N % 256 ^ 16) (x : Buf UInt8 16)
    (out inp : Buf UInt8 n) :
    ∃ ctr' x' out', slices decrypts c E inp n n 0 0 tmp ctr x out = some (ctr', x', out') ∧
      out'.toList = xorBytes (blocks (fun q => E.encrypt (beBytes 16 (N + (q + 1)))) (n / 16)) inp.toList ∧
      ofBytes x'.toList = ghash (hashKey E) (ofBytes x.toList)
        (toBlocks (n / 16) (if decrypts then inp.toList else out'.toList)) ∧
      wordsVal ctr'.toList = (N + n / 16) % 256 ^ 16 := by
  cases n with
  | zero =>
    refine ⟨ctr, x, out, rfl, ?_, rfl, by simpa using hctr⟩
    simp [xorBytes, blocks]
  | succ n =>
    obtain ⟨tmp₁, tmp₂, ctr', out', hcount, henc, hxor, hout, hctr'⟩ :=
      keystream_spec hc.size h16 hle tmp hctr out inp
    have hlen : ∀ ys : Buf UInt8 (n + 1), ys.toList.length = (n + 1) / 16 * 16 := by
      intro ys
      rw [Vector.length_toList, Nat.div_mul_cancel h16]
    have hmin : min sliceSize (n + 1) = n + 1 := by omega
    cases decrypts with
    | true =>
      obtain ⟨x', hhash, hx'⟩ := hashFast_spec hc ((n + 1) / 16) 0 x (hlen inp) (Buf.holds_toList inp)
      have hchunks : c.hashFast inp ((n + 1) / fastAlignment) 0 x = some x' := hhash
      refine ⟨ctr', x', out', ?_, hout, hx', hctr'⟩
      rw [slices, if_neg (by omega)]
      simp only [hmin, hcount, henc, hxor, Option.bind_eq_bind, Option.bind_some, Nat.sub_self, if_true,
        hchunks]
      cases n <;> simp [slices]
    | false =>
      obtain ⟨x', hhash, hx'⟩ := hashFast_spec hc ((n + 1) / 16) 0 x (hlen out') (Buf.holds_toList out')
      have hchunks : c.hashFast out' ((n + 1) / fastAlignment) 0 x = some x' := hhash
      refine ⟨ctr', x', out', ?_, hout, hx', hctr'⟩
      rw [slices, if_neg (by omega)]
      simp only [hmin, hcount, henc, hxor, Option.bind_eq_bind, Option.bind_some, Nat.sub_self,
        Bool.false_eq_true, if_false, hchunks]
      cases n <;> simp [slices]

/-- With more than one slice, the first one is combined with bytes past its end. -/
theorem slices_none (decrypts : Bool) (h16 : 16 ∣ n) (hlt : sliceSize < n) (tmp : Buf UInt8 sliceSize) (ctr : Buf UInt32 4)
    (x : Buf UInt8 16) (out inp : Buf UInt8 n) : slices decrypts c E inp n n 0 0 tmp ctr x out = none := by
  obtain ⟨m, rfl⟩ : ∃ m, n = m + 1 := ⟨n - 1, by omega⟩
  have hxor : ∀ tmp : Buf UInt8 sliceSize, xorAligned out 0 tmp 0 inp 0 (m + 1) = none := by
    intro tmp
    exact xorAligned_none out 0 (by rw [Nat.div_mul_cancel h16]; omega)
  rw [slices, if_neg (by omega)]
  cases decrypts <;> simp [hxor, Option.bind_fun_none]

end Slices

/-! ## Agreement -/

section Agreement

variable {E : BlockCipher} {c : Gcm} {n : Nat}

/-- The states in which the fast functions are called: no block is begun. -/
structure Aligned (E : BlockCipher) (c : Gcm) : Prop where
  keyed : Keyed E c
  boff : c.boff = 0
  clen : c.clen < 2 ^ 64

/-- A fast function gives the same bytes as a plain one, and leaves the same counter, hash and length. -/
def Agrees (fast : Option (Gcm × Buf UInt8 n)) (plain : Option (Gcm × List UInt8)) : Prop :=
  ∃ c₁ out c₂ ys, fast = some (c₁, out) ∧ plain = some (c₂, ys) ∧ out.toList = ys ∧
    c₁.y = c₂.y ∧ c₁.x = c₂.x ∧ c₁.clen = c₂.clen

/-- What a plain function leaves after whole blocks. -/
theorem After.progress {c₂ : Gcm} {C : List UInt8} (h : After E c c₂ C) (hC : 16 ∣ C.length) :
    Progress E c ((c.clen + C.length) % 2 ^ 64) c₂ (C.length / 16) (C.length / 16) C := by
  obtain ⟨hlt, hAt⟩ := h
  unfold At at hAt
  split at hAt
  case isTrue =>
    obtain ⟨q, hq, hprog⟩ := hAt
    rwa [hq, Nat.mul_div_cancel q (by decide), ← hq]
  case isFalse hboff =>
    obtain ⟨-, q, hq, -⟩ := hAt
    omega

/-- A fast function, where the call is in one slice. -/
theorem cryptfast_spec (hc : Aligned E c) (decrypts : Bool) (h16 : 16 ∣ n) (hle : n ≤ sliceSize)
    (tmp : Buf UInt8 sliceSize) (out inp : Buf UInt8 n) :
    ∃ c' out', cryptfast decrypts c tmp out inp = some (c', out') ∧
      out'.toList = xorBytes
        (blocks (fun q => E.encrypt (beBytes 16 (beNat c.y.toList + (q + 1)))) (n / 16)) inp.toList ∧
      c'.y.toList = beBytes 16 (beNat c.y.toList + n / 16) ∧
      ofBytes c'.x.toList = ghash (hashKey E) (ofBytes c.x.toList)
        (toBlocks (n / 16) (if decrypts then inp.toList else out'.toList)) ∧
      c'.clen = (c.clen + n) % 2 ^ 64 := by
  have hlen : c.y.toList.length = 16 := Vector.length_toList
  obtain ⟨ws, hws, hval⟩ := copyToWords_spec (Buf.holds_toList c.y) hlen
  have hN : wordsVal ws.toList = beNat c.y.toList % 256 ^ 16 := by
    have hlt := beNat_lt c.y.toList
    rw [hlen] at hlt
    rw [hval, Nat.mod_eq_of_lt hlt]
  have hkeyed : Keyed E { c with clen := (c.clen + n) % 2 ^ 64 } :=
    ⟨hc.keyed.algo, hc.keyed.blksize, hc.keyed.size, hc.keyed.multiplies⟩
  obtain ⟨ws', x', out', hslices, hout, hx', hN'⟩ :=
    slices_of_le hkeyed decrypts h16 hle tmp hN c.x out inp
  obtain ⟨y', hcopy, hwrite⟩ := copyFromWords_spec c.y 0 (le_refl 16) hN'
  refine ⟨{ c with clen := (c.clen + n) % 2 ^ 64, y := y', x := x' }, out', ?_, hout, ?_, hx', rfl⟩
  · simp only [hc.keyed.algo] at hslices
    simp only [cryptfast, hc.keyed.algo, hws, hslices, hcopy, Option.bind_eq_bind, Option.bind_some, pure]
  · exact (Buf.holds_write hwrite).toList (length_beBytes _ _)

/-- With more than one slice it reads past the end of the slice. -/
theorem cryptfast_none (decrypts : Bool) (h16 : 16 ∣ n) (hlt : sliceSize < n) (tmp : Buf UInt8 sliceSize)
    (out inp : Buf UInt8 n) : cryptfast decrypts c tmp out inp = none := by
  simp only [cryptfast, slices_none decrypts h16 hlt, Option.bind_eq_bind, Option.bind_none, Option.bind_fun_none]

/-- A plain function on whole blocks. -/
structure Plain (E : BlockCipher) (c : Gcm) (plain : Gcm → List UInt8 → Option (Gcm × List UInt8))
    (decrypts : Bool) : Prop where
  call : ∀ inp : List UInt8, 16 ∣ inp.length → ∃ c₂, plain c inp = some (c₂, xorBytes
      (blocks (keyBlock E c.y.toList) (inp.length / 16)) inp) ∧
    Progress E c ((c.clen + inp.length) % 2 ^ 64) c₂ (inp.length / 16) (inp.length / 16)
      (if decrypts then inp else xorBytes (blocks (keyBlock E c.y.toList) (inp.length / 16)) inp)

theorem encrypt_plain (hc : Aligned E c) : Plain E c encrypt false := by
  refine ⟨fun inp h16 => ?_⟩
  have hkey := length_keyBlock hc.keyed.size (j := c.y.toList) Vector.length_toList
  have hseal : (trace (sealGcm E c) [] inp).2 = xorBytes (blocks (keyBlock E c.y.toList) (inp.length / 16)) inp :=
    seal_blocks hkey (Nat.div_mul_cancel h16).ge
  obtain ⟨c₂, hrun, hafter⟩ := encrypt_refines hc.keyed c [] inp (after_nil hc.boff hc.clen)
  rw [trace_seal_history, List.nil_append] at hafter
  have hlen : (trace (sealGcm E c) [] inp).2.length = inp.length := trace_length _ _ _
  have hprog := hafter.progress (by rwa [hlen])
  rw [hlen, hseal] at hprog
  rw [hseal] at hrun
  exact ⟨c₂, hrun, hprog⟩

theorem decrypt_plain (hc : Aligned E c) : Plain E c decrypt true := by
  refine ⟨fun inp h16 => ?_⟩
  have hkey := length_keyBlock hc.keyed.size (j := c.y.toList) Vector.length_toList
  have hopen : (trace (openGcm E c) [] inp).2 = xorBytes (blocks (keyBlock E c.y.toList) (inp.length / 16)) inp :=
    open_blocks hkey (Nat.div_mul_cancel h16).ge
  obtain ⟨c₂, hrun, hafter⟩ := decrypt_refines hc.keyed c [] inp (after_nil hc.boff hc.clen)
  rw [trace_open_history, List.nil_append] at hafter
  rw [hopen] at hrun
  exact ⟨c₂, hrun, hafter.progress h16⟩

/-- They agree exactly where the call is in one slice and the last word of the counter does not overflow. -/
theorem agrees_iff (hc : Aligned E c) {decrypts : Bool} {plain : Gcm → List UInt8 → Option (Gcm × List UInt8)}
    (hplain : Plain E c plain decrypts) (h16 : 16 ∣ n) (tmp : Buf UInt8 sliceSize) (out inp : Buf UInt8 n) :
    Agrees (cryptfast decrypts c tmp out inp) (plain c inp.toList) ↔
      n ≤ sliceSize ∧ lastWord c.y + n / 16 < 2 ^ 32 := by
  have hinp : inp.toList.length = n := Vector.length_toList
  obtain ⟨c₂, hrun, hprog⟩ := hplain.call inp.toList (by rwa [hinp])
  rw [hinp] at hrun hprog
  constructor
  · rintro ⟨c₁, out', c₂', ys, hfast, hrun', -, hy, -⟩
    have hle : n ≤ sliceSize := by
      by_contra hlt
      rw [cryptfast_none decrypts h16 (Nat.lt_of_not_le hlt)] at hfast
      cases hfast
    refine ⟨hle, ?_⟩
    by_contra hover
    obtain ⟨c₁', out₁, hfast', -, hy₁, -⟩ := cryptfast_spec hc decrypts h16 hle tmp out inp
    cases hfast.symm.trans hfast'
    cases hrun.symm.trans hrun'
    have hsize : sliceSize = 4096 := rfl
    have hk : n / 16 < 2 ^ 32 := by omega
    apply inc32s_overflow c.y hk (Nat.le_of_not_lt hover)
    rw [← hprog.counter, ← hy, hy₁]
  · rintro ⟨hle, hlow⟩
    obtain ⟨c₁, out', hfast, hout, hy, hx, hclen⟩ := cryptfast_spec hc decrypts h16 hle tmp out inp
    have hblocks : blocks (fun q => E.encrypt (beBytes 16 (beNat c.y.toList + (q + 1)))) (n / 16) =
        blocks (keyBlock E c.y.toList) (n / 16) := by
      rw [blocks, blocks]
      apply List.flatMap_congr
      intro q hq
      have hqn : q < n / 16 := List.mem_range.mp hq
      rw [keyBlock, inc32s_counter c.y (by omega)]
    rw [hblocks] at hout
    have hclen₂ : c₂.clen = (c.clen + n) % 2 ^ 64 := by rw [hprog.frame]
    refine ⟨c₁, out', c₂, _, hfast, hrun, hout, ?_, ?_, hclen.trans hclen₂.symm⟩
    · apply Vector.toList_inj.mp
      rw [hy, hprog.counter, inc32s_counter c.y hlow]
    · apply Vector.toList_inj.mp
      apply ofBytes_inj Vector.length_toList Vector.length_toList
      rw [hx, hprog.hashed, hout]

end Agreement

/-- Each of the fast functions agrees with the plain one exactly where the call is in one slice and the last
word of the counter does not overflow. -/
theorem gcm_fast_iff {E : BlockCipher} {c : Gcm} {n : Nat} (hc : Aligned E c) (h16 : 16 ∣ n)
    (tmp : Buf UInt8 sliceSize) (out inp : Buf UInt8 n) :
    (Agrees (c.encryptfast tmp out inp) (c.encrypt inp.toList) ↔
      n ≤ sliceSize ∧ lastWord c.y + n / 16 < 2 ^ 32) ∧
    (Agrees (c.decryptfast tmp out inp) (c.decrypt inp.toList) ↔
      n ≤ sliceSize ∧ lastWord c.y + n / 16 < 2 ^ 32) :=
  ⟨agrees_iff hc (encrypt_plain hc) h16 tmp out inp, agrees_iff hc (decrypt_plain hc) h16 tmp out inp⟩

/-- A new context with a cipher and a vector. -/
theorem aligned_identity :
    ∃ c, start .gcm [] (BlockCipher.identity 15) (List.replicate 12 0) = some (c, 0) ∧
      Aligned (BlockCipher.identity 15) c := by
  have haccept : Accepts (tagLength []) (List.replicate 12 0) := Or.inl List.length_replicate
  obtain ⟨c, hstart, hs⟩ := start_spec .gcm (rfl : (BlockCipher.identity 15).blksize = 16) haccept
  exact ⟨c, hstart, hs.keyed, hs.boff, by rw [hs.clen]; decide⟩

theorem gcm_fast_iff_block : ∃ c, start .gcm [] (BlockCipher.identity 15) (List.replicate 12 0) = some (c, 0) ∧
    (Agrees (c.encryptfast (Vector.replicate sliceSize 0) (Vector.replicate 16 0) (Vector.replicate 16 7))
        (c.encrypt (Vector.replicate 16 7).toList) ↔
      16 ≤ sliceSize ∧ lastWord c.y + 16 / 16 < 2 ^ 32) ∧
    (Agrees (c.decryptfast (Vector.replicate sliceSize 0) (Vector.replicate 16 0) (Vector.replicate 16 7))
        (c.decrypt (Vector.replicate 16 7).toList) ↔
      16 ≤ sliceSize ∧ lastWord c.y + 16 / 16 < 2 ^ 32) := by
  obtain ⟨c, hstart, hc⟩ := aligned_identity
  exact ⟨c, hstart, gcm_fast_iff hc (by decide) _ _ _⟩

/-- Two slices, the second of 16 bytes. -/
theorem gcm_fast_two_slices : ¬ ∀ (E : BlockCipher) (c : Gcm) (n : Nat), Aligned E c → 16 ∣ n →
    ∀ (tmp : Buf UInt8 sliceSize) (out inp : Buf UInt8 n),
      Agrees (c.encryptfast tmp out inp) (c.encrypt inp.toList) ∧
        Agrees (c.decryptfast tmp out inp) (c.decrypt inp.toList) := by
  intro h
  obtain ⟨c, -, hc⟩ := aligned_identity
  have hagree := (h _ c 4112 hc (by decide) (Vector.replicate _ 0) (Vector.replicate _ 0)
    (Vector.replicate _ 0)).1
  have hle := ((agrees_iff hc (encrypt_plain hc) (by decide) _ _ _).mp hagree).1
  exact absurd hle (by decide)

end Drew.Mode.Gcm
