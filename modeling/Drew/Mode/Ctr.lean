import Drew.Mode.Basic

/-!
# Counter mode

The model of `ctr.cc`. The counter block is `ctr`, the current block of keystream is in
`buf`, and `boff` is the offset in it. The byte interface refines masking with the
encryptions of successive counter values, whichever way a message is cut into calls. The
fast function prepares slices of counter blocks, but combines a slice with as many bytes
as the whole call has, so it is right as long as one slice is enough.
-/

namespace Drew.Mode

open Drew.Memory Drew.Block Drew.Stream

/-! ## The code -/

structure Ctr where
  functbl : Functbl
  algo : Option BlockCipher
  ctr : Buf UInt8 32
  buf : Buf UInt8 32
  iv : Buf UInt8 32
  blksize : Nat
  boff : Nat

namespace Ctr

/-- The context is cleared. -/
def init : Ctr where
  functbl := .plain
  algo := none
  ctr := Vector.replicate 32 0
  buf := Vector.replicate 32 0
  iv := Vector.replicate 32 0
  blksize := 0
  boff := 0

/-- Without a cipher the error number is returned as it is, not negated. -/
def setblock (c : Ctr) : Option BlockCipher → Ctr × Int
  | none => (c, drewErrInvalid)
  | some algo =>
      let functbl := if algo.blksize = fastAlignment then .fast else c.functbl
      ({ c with algo := some algo, blksize := algo.blksize, functbl := functbl }, 0)

/-- A context that is given its own `iv` does not copy it, and it would not change. -/
def setiv (c : Ctr) (iv : List UInt8) : Option (Ctr × Int) :=
  if c.blksize ≠ iv.length then some (c, -drewErrInvalid) else do
    let ctr ← c.ctr.write 0 iv
    let buf ← c.buf.write 0 iv
    let iv ← c.iv.write 0 iv
    return ({ c with ctr := ctr, buf := buf, iv := iv }, 0)

def reset (c : Ctr) : Option (Ctr × Int) := do
  let iv ← c.iv.read 0 c.blksize
  let (c, res) ← c.setiv iv
  if res ≠ 0 then return (c, res) else return ({ c with boff := 0 }, 0)

def incrementCounter (ctr : Buf UInt8 32) (len : Nat) : Option (Buf UInt8 32) :=
  increment 0 (len - 1) ctr

/-- Make the next block of keystream. -/
def refill (c : Ctr) : Option Ctr := do
  let algo ← c.algo
  let buf ← algo.encryptTo c.buf 0 c.ctr 0
  let ctr ← incrementCounter c.ctr c.blksize
  return { c with buf := buf, ctr := ctr }

def maskByte (i : Nat) (c : Ctr) (x : UInt8) : Option (Ctr × UInt8) := do
  let b ← c.buf.load i
  return (c, b ^^^ x)

def unitOps : UnitOps Ctr UInt8 UInt8 where
  refill := refill
  body := maskByte
  close := some
  whole c inp := do
    let c ← c.refill
    loop maskByte 0 c inp

/-- `ctr_encrypt`, which decrypts as well. -/
def encrypt (c : Ctr) (inp : List UInt8) : Option (Ctr × List UInt8) := do
  let (c, boff, out) ← unitOps.call c.blksize c c.boff inp
  return ({ c with boff := boff }, out)

/-- The slices of `ctr_encryptfast`. The positions of `out` and `in` are those of their
pointers; `in` has moved along the slice before it moves by the size of a slice. Every
round shortens `len`, so `len` rounds are enough. -/
def slices {n : Nat} (algo : BlockCipher) (inp : Buf UInt8 n) :
    Nat → Nat → Nat → Nat → Buf UInt8 sliceSize → Buf UInt32 4 → Buf UInt8 n →
    Option (Buf UInt32 4 × Buf UInt8 n)
  | 0, _, _, _, _, ctr, out => some (ctr, out)
  | rounds + 1, len, outPos, inPos, tmp, ctr, out =>
      if len = 0 then some (ctr, out) else do
        let x := min sliceSize len
        let mul := x / fastAlignment
        let steps := (x + (fastAlignment - 1)) / fastAlignment
        let (tmp, ctr) ← fillCounters steps 0 tmp ctr
        let tmp ← algo.encryptfast tmp 0 tmp 0 mul
        let out ← xorAligned out outPos tmp 0 inp inPos len
        slices algo inp rounds (len - x) (outPos + sliceSize)
          (inPos + steps * fastAlignment + sliceSize) tmp ctr out

/-- `ctr_encryptfast`. The slice `tmp` is not initialised. -/
def encryptfast {n : Nat} (c : Ctr) (tmp : Buf UInt8 sliceSize) (out inp : Buf UInt8 n) :
    Option (Ctr × Buf UInt8 n) := do
  let algo ← c.algo
  let ctr ← copyToWords c.ctr 0
  let (ctr, out) ← slices algo inp n n 0 0 tmp ctr out
  let ctr ← copyFromWords c.ctr 0 ctr
  return ({ c with ctr := ctr }, out)

/-- A context as the library makes it: a new one, a cipher, an initialisation vector. -/
def fresh (algo : BlockCipher) (iv : List UInt8) : Option (Ctr × Int) :=
  (init.setblock (some algo)).1.setiv iv

/-! ## The keystream -/

/-- The encryption of the initial counter plus `i`. -/
def keyBlock (E : BlockCipher) (iv : List UInt8) (i : Nat) : List UInt8 :=
  E.encrypt (beBytes E.blksize ((beNat iv + i) % 256 ^ E.blksize))

theorem length_keyBlock (E : BlockCipher) (iv : List UInt8) (i : Nat) :
    (keyBlock E iv i).length = E.blksize :=
  E.length_encrypt _ (length_beBytes _ _)

section Bytes

variable {E : BlockCipher} {iv C : List UInt8} {c : Ctr} {q : Nat}

/-- The next block of keystream is block `q`. -/
structure Ready (E : BlockCipher) (iv : List UInt8) (c : Ctr) (q : Nat) : Prop where
  algo : c.algo = some E
  blksize : c.blksize = E.blksize
  fits : E.blksize ≤ 32
  ctr : c.ctr.Holds 0 (beBytes E.blksize ((beNat iv + q) % 256 ^ E.blksize))

/-- The buffer has block `q` of the keystream. -/
structure Full (E : BlockCipher) (iv : List UInt8) (c : Ctr) (q : Nat) : Prop where
  ready : Ready E iv c (q + 1)
  buf : c.buf.Holds 0 (keyBlock E iv q)

/-- The states between two calls, after a text `C`. -/
def After (E : BlockCipher) (iv : List UInt8) : Ctr → List UInt8 → Prop :=
  AtOffset E.blksize (Between E.blksize (Ready E iv)) (Within E.blksize (Full E iv)) boff

theorem incrementCounter_spec {v : Buf UInt8 32} {len k : Nat} (hlen : 0 < len)
    (h : v.Holds 0 (beBytes len (k % 256 ^ len))) :
    ∃ w, incrementCounter v len = some w ∧ w.Holds 0 (beBytes len ((k + 1) % 256 ^ len)) := by
  have hlength := length_beBytes len (k % 256 ^ len)
  have hne : beBytes len (k % 256 ^ len) ≠ [] := by
    intro hnil
    rw [hnil, List.length_nil] at hlength
    omega
  obtain ⟨w, hrun, hw, -⟩ := increment_bytes h hne (i := len - 1) (by omega)
  refine ⟨w, hrun, ?_⟩
  rw [hlength, beNat_beBytes, ← beBytes_mod, Nat.mod_mod, Nat.mod_add_mod] at hw
  exact hw

theorem refill_spec (h : Ready E iv c q) : ∃ c', c.refill = some c' ∧ Full E iv c' q := by
  have hfits := h.fits
  obtain ⟨buf, hbuf, hwrite⟩ := BlockCipher.encryptTo_spec c.buf 0 (length_beBytes _ _) h.ctr
    (by omega)
  obtain ⟨ctr, hctr, hholds⟩ := incrementCounter_spec E.blksize_pos h.ctr
  rw [← h.blksize] at hctr
  refine ⟨{ c with buf := buf, ctr := ctr }, by simp [refill, h.algo, hbuf, hctr], ?_⟩
  exact ⟨⟨h.algo, h.blksize, h.fits, hholds⟩, Buf.holds_write hwrite⟩

theorem maskByte_spec {i : Nat} {k : UInt8} (x : UInt8) (h : Full E iv c q)
    (hk : (keyBlock E iv q)[i]? = some k) : maskByte i c x = some (c, k ^^^ x) := by
  obtain ⟨hi, hget⟩ := List.getElem?_eq_some_iff.mp hk
  have hload := h.buf.load hi
  rw [Nat.zero_add, hget] at hload
  simp [maskByte, hload]

theorem unitOps_refines (E : BlockCipher) (iv : List UInt8) :
    Refines unitOps E.blksize (sealStep (· ^^^ ·) (keyAt (keyBlock E iv) E.blksize))
      (Between E.blksize (Ready E iv)) (Within E.blksize (Full E iv)) := by
  refine refines_blocks (length_keyBlock E iv) (fun c q h => refill_spec h)
    (fun c q i k x h hk => maskByte_spec x h hk) (fun c q h => ⟨c, rfl, h.ready⟩) ?_
  funext c xs
  simp [unitOps, UnitOps.wholeByLoop]

/-- After whole blocks the counter block is that of the next one. -/
theorem After.counter {m : Nat} (h : After E iv c C) (hC : C.length = m * E.blksize) :
    c.ctr.read 0 E.blksize = some (beBytes E.blksize ((beNat iv + m) % 256 ^ E.blksize)) := by
  have hread := (AtOffset.ready h hC).2.ctr.read
  rwa [length_beBytes] at hread

/-- A call masks its piece with the keystream from where the text before it ended. -/
theorem encrypt_refines (hsize : E.blksize ≤ 32) :
    CallRefines encrypt (sealStep (· ^^^ ·) (keyAt (keyBlock E iv) E.blksize)) (After E iv) := by
  refine (unitOps_refines E iv).callRefines (by omega) (fun c b => { c with boff := b }) ?_
    (fun _ _ => rfl) ?_ ?_
  · intro c C xs h
    have hblk : c.blksize = E.blksize :=
      AtOffset.elim h (fun _ hq => hq.blksize) (fun _ hq => hq.ready.blksize)
    rw [encrypt, hblk]
    cases unitOps.call E.blksize c c.boff xs <;> rfl
  · rintro c b C ⟨q, hC, h⟩
    exact ⟨q, hC, h.algo, h.blksize, h.fits, h.ctr⟩
  · rintro c b i C ⟨q, hC, h⟩
    exact ⟨q, hC, ⟨h.ready.algo, h.ready.blksize, h.ready.fits, h.ready.ctr⟩, h.buf⟩

/-- Setting a vector of the size of a block. -/
theorem setiv_spec (hblk : c.blksize = E.blksize) (hiv : iv.length = E.blksize)
    (hsize : E.blksize ≤ 32) :
    ∃ ctr buf iv', c.setiv iv = some ({ c with ctr := ctr, buf := buf, iv := iv' }, 0) ∧
      ctr.Holds 0 iv ∧ buf.Holds 0 iv ∧ iv'.Holds 0 iv := by
  have hfit : 0 + iv.length ≤ 32 := by omega
  obtain ⟨ctr, hctr⟩ := Buf.exists_write c.ctr hfit
  obtain ⟨buf, hbuf⟩ := Buf.exists_write c.buf hfit
  obtain ⟨iv', hiv'⟩ := Buf.exists_write c.iv hfit
  refine ⟨ctr, buf, iv', ?_, Buf.holds_write hctr, Buf.holds_write hbuf, Buf.holds_write hiv'⟩
  simp [setiv, hblk, hiv, hctr, hbuf, hiv']

/-- A vector that is longer than the buffers is written past their end. -/
theorem setiv_none (hblk : c.blksize = iv.length) (hsize : 32 < iv.length) :
    c.setiv iv = none := by
  have hwrite : c.ctr.write 0 iv = none := by
    rw [Buf.write, dif_neg (by omega)]
  simp [setiv, hblk, hwrite]

/-- A context between two units whose counter block holds `iv` is at the beginning of the
keystream for `iv`. -/
theorem after_nil (halgo : c.algo = some E) (hblk : c.blksize = E.blksize) (hboff : c.boff = 0)
    (hsize : E.blksize ≤ 32) (hiv : iv.length = E.blksize) (hctr : c.ctr.Holds 0 iv) :
    After E iv c [] := by
  refine ⟨by rw [hboff]; exact E.blksize_pos, ?_⟩
  rw [hboff]
  refine At.idle ⟨0, by simp, halgo, hblk, hsize, ?_⟩
  rwa [Nat.add_zero, beBytes_mod, ← hiv, beBytes_beNat]

theorem fresh_spec (hiv : iv.length = E.blksize) (hsize : E.blksize ≤ 32) :
    ∃ c, fresh E iv = some (c, 0) ∧ After E iv c [] := by
  obtain ⟨ctr, buf, iv', hset, hctr, -, -⟩ :=
    setiv_spec (c := (init.setblock (some E)).1) rfl hiv hsize
  exact ⟨_, hset, after_nil rfl rfl rfl hsize hiv hctr⟩

/-- The outputs of a run of calls after a fresh vector are the message masked with the
keystream. -/
theorem run_fresh (hiv : iv.length = E.blksize) (hsize : E.blksize ≤ 32)
    (pieces : List (List UInt8)) :
    ∃ c c' outs, fresh E iv = some (c, 0) ∧ run encrypt c pieces = some (c', outs) ∧
      outs.flatten = xorBytes (blocks (keyBlock E iv) pieces.flatten.length) pieces.flatten := by
  obtain ⟨c, hfresh, hafter⟩ := fresh_spec hiv hsize
  obtain ⟨c', outs, hrun, hflat, -⟩ := run_calls (encrypt_refines hsize) hafter pieces
  refine ⟨c, c', outs, hfresh, hrun, ?_⟩
  rw [hflat, seal_blocks (length_keyBlock E iv) (Nat.le_mul_of_pos_right _ E.blksize_pos)]
  rfl

end Bytes

/-! ## The fast function -/

section Fast

variable {E : BlockCipher} {c : Ctr} {n : Nat}

/-- The states in which the fast functions are called. -/
structure Aligned (E : BlockCipher) (c : Ctr) : Prop where
  algo : c.algo = some E
  blksize : c.blksize = E.blksize
  boff : c.boff = 0

/-- The fast function is in the table for ciphers with blocks of 16 bytes. -/
theorem setblock_functbl (hplain : c.functbl = .plain) (E : BlockCipher) :
    (c.setblock (some E)).1.functbl = .fast ↔ E.blksize = fastAlignment := by
  simp [setblock, hplain]

/-- One slice is as much as the whole call. -/
theorem slices_of_le (hE : E.blksize = 16) (h16 : 16 ∣ n) (hle : n ≤ sliceSize)
    (tmp : Buf UInt8 sliceSize) {ctr : Buf UInt32 4} {N : Nat}
    (hctr : wordsVal ctr.toList = N % 256 ^ 16) (out inp : Buf UInt8 n) :
    ∃ ctr' out', slices E inp n n 0 0 tmp ctr out = some (ctr', out') ∧
      out'.toList = xorBytes (blocks (fun q => E.encrypt (beBytes 16 (N + q))) (n / 16))
        inp.toList ∧
      wordsVal ctr'.toList = (N + n / 16) % 256 ^ 16 := by
  cases n with
  | zero =>
    refine ⟨ctr, out, rfl, ?_, by simpa using hctr⟩
    simp [xorBytes, blocks]
  | succ n =>
    obtain ⟨tmp₁, tmp₂, ctr', hfill, henc, htmp₂, hctr'⟩ := slice_spec hE h16 hle tmp hctr
    have hlen : (blocks (fun q => E.encrypt (beBytes 16 (N + q))) ((n + 1) / 16)).length = n + 1 := by
      rw [length_blocks (fun q => E.length_encrypt _ (by rw [length_beBytes, hE])), hE,
        Nat.div_mul_cancel h16]
    obtain ⟨out', hxor, hwrite⟩ :=
      xorAligned_spec out 0 h16 hlen (by simp) htmp₂ (Buf.holds_toList inp) (by omega)
    refine ⟨ctr', out', ?_, ?_, hctr'⟩
    · have hmin : min sliceSize (n + 1) = n + 1 := by omega
      rw [slices, if_neg (by omega)]
      simp only [hmin, hfill, henc, hxor, Option.bind_eq_bind, Option.bind_some, Nat.sub_self]
      cases n <;> simp [slices]
    · exact (Buf.holds_write hwrite).toList (by simp [hlen])

/-- With more than one slice, the first one is combined with bytes past its end. -/
theorem slices_none (h16 : 16 ∣ n) (hlt : sliceSize < n) (tmp : Buf UInt8 sliceSize)
    (ctr : Buf UInt32 4) (out inp : Buf UInt8 n) : slices E inp n n 0 0 tmp ctr out = none := by
  obtain ⟨m, rfl⟩ : ∃ m, n = m + 1 := ⟨n - 1, by omega⟩
  have hxor : ∀ tmp : Buf UInt8 sliceSize, xorAligned out 0 tmp 0 inp 0 (m + 1) = none := by
    intro tmp
    exact xorAligned_none out 0 (by rw [Nat.div_mul_cancel h16]; omega)
  rw [slices, if_neg (by omega)]
  simp only [hxor, Option.bind_eq_bind, Option.bind_none, Option.bind_fun_none]

/-- The fast function gives the same bytes, and leaves the same offset and counter block. -/
def FastAgrees (E : BlockCipher) (c : Ctr) (tmp : Buf UInt8 sliceSize) (out inp : Buf UInt8 n) :
    Prop :=
  ∃ c₁ out' c₂ ys counter, c.encryptfast tmp out inp = some (c₁, out') ∧
    c.encrypt inp.toList = some (c₂, ys) ∧ out'.toList = ys ∧ c₁.boff = c₂.boff ∧
    c₁.ctr.read 0 E.blksize = some counter ∧ c₂.ctr.read 0 E.blksize = some counter

theorem fastAgrees_iff (hc : Aligned E c) (hE : E.blksize = 16) (h16 : 16 ∣ n)
    (tmp : Buf UInt8 sliceSize) (out inp : Buf UInt8 n) :
    FastAgrees E c tmp out inp ↔ n ≤ sliceSize := by
  constructor
  · rintro ⟨c₁, out', -, -, -, hfast, -⟩
    by_contra hlt
    have hnone : c.encryptfast tmp out inp = none := by
      simp [encryptfast, slices_none h16 (Nat.lt_of_not_le hlt), Option.bind_fun_none]
    rw [hnone] at hfast
    cases hfast
  · intro hle
    obtain ⟨iv, -, hiv, hctr⟩ := Buf.exists_read c.ctr 0 16 (by omega)
    have hiv' : iv.length = E.blksize := hiv.trans hE.symm
    obtain ⟨ws, hws, hval⟩ := copyToWords_spec hctr hiv
    have hN : wordsVal ws.toList = beNat iv % 256 ^ 16 := by
      rw [hval, Nat.mod_eq_of_lt (hiv ▸ beNat_lt iv)]
    obtain ⟨ws', out', hslices, hout, hN'⟩ := slices_of_le hE h16 hle tmp hN out inp
    obtain ⟨ctr', hcopy, hwrite⟩ := copyFromWords_spec c.ctr 0 (by omega) hN'
    -- The plain function, from the vector that the counter block is.
    have hafter : After E iv c [] := after_nil hc.algo hc.blksize hc.boff (by omega) hiv' hctr
    obtain ⟨c₂, henc, hafter₂⟩ := encrypt_refines (by omega) c [] inp.toList hafter
    have hlen : (trace (sealStep (· ^^^ ·) (keyAt (keyBlock E iv) E.blksize)) []
        inp.toList).1.length = n / 16 * E.blksize := by
      rw [trace_seal_history, List.nil_append, trace_length, hE, Nat.div_mul_cancel h16]
      simp
    have hfast : c.encryptfast tmp out inp = some ({ c with ctr := ctr' }, out') := by
      simp [encryptfast, hc.algo, hws, hslices, hcopy]
    refine ⟨_, out', c₂, _, _, hfast, henc, ?_, ?_, ?_, hafter₂.counter hlen⟩
    · have hkey : keyBlock E iv = fun q => E.encrypt (beBytes 16 (beNat iv + q)) := by
        funext q
        rw [keyBlock, hE, beBytes_mod]
      rw [hout, seal_blocks (length_keyBlock E iv) (m := n / 16)
        (by rw [hE, Nat.div_mul_cancel h16]; simp), hkey]
      rfl
    · rw [(AtOffset.ready hafter₂ hlen).1]
      exact hc.boff
    · have hcounter := (Buf.holds_write hwrite).read
      rw [length_beBytes] at hcounter
      rw [hE, beBytes_mod]
      exact hcounter

/-- Keystream, from a fresh vector, and fast function, from an aligned state: together they
do what they should exactly when a block fits in the buffers and the call in one slice. -/
theorem ctr_keystream_and_fast_iff {iv : List UInt8} (hiv : iv.length = E.blksize)
    (pieces : List (List UInt8)) (hc : Aligned E c) (h16 : 16 ∣ n) (tmp : Buf UInt8 sliceSize)
    (out inp : Buf UInt8 n) :
    ((∃ c₀ c₁ outs, fresh E iv = some (c₀, 0) ∧ run encrypt c₀ pieces = some (c₁, outs) ∧
        outs.flatten = xorBytes (blocks (keyBlock E iv) pieces.flatten.length) pieces.flatten) ∧
      (E.blksize = 16 → FastAgrees E c tmp out inp)) ↔
    E.blksize ≤ 32 ∧ (E.blksize = 16 → n ≤ sliceSize) := by
  constructor
  · rintro ⟨⟨c₀, -, -, hfresh, -⟩, hfast⟩
    refine ⟨?_, fun hE => (fastAgrees_iff hc hE h16 tmp out inp).mp (hfast hE)⟩
    by_contra hsize
    have hnone := setiv_none (c := (init.setblock (some E)).1) hiv.symm (by omega)
    rw [fresh, hnone] at hfresh
    cases hfresh
  · rintro ⟨hsize, hlen⟩
    exact ⟨run_fresh hiv hsize pieces,
      fun hE => (fastAgrees_iff hc hE h16 tmp out inp).mpr (hlen hE)⟩

theorem aligned_setblock (E : BlockCipher) : Aligned E (init.setblock (some E)).1 := ⟨rfl, rfl, rfl⟩

/-- Two slices, the second of 16 bytes. -/
theorem ctr_fast_two_slices : ¬FastAgrees (BlockCipher.identity 15)
    (init.setblock (some (BlockCipher.identity 15))).1 (Vector.replicate sliceSize 0)
    (Vector.replicate 4112 0) (Vector.replicate 4112 0) := by
  intro h
  have hle := (fastAgrees_iff (aligned_setblock _) rfl (by decide) _ _ _).mp h
  exact absurd hle (by decide)

theorem ctr_keystream_and_fast_iff_identity :
    ((∃ c₀ c₁ outs, fresh (BlockCipher.identity 15) (List.replicate 16 0) = some (c₀, 0) ∧
        run encrypt c₀ [[1, 2, 3], [4]] = some (c₁, outs) ∧
        outs.flatten = xorBytes (blocks (keyBlock (BlockCipher.identity 15) (List.replicate 16 0))
          [[1, 2, 3], [4]].flatten.length) [[1, 2, 3], [4]].flatten) ∧
      ((BlockCipher.identity 15).blksize = 16 → FastAgrees (BlockCipher.identity 15)
        (init.setblock (some (BlockCipher.identity 15))).1 (Vector.replicate sliceSize 0)
        (Vector.replicate 16 0) (Vector.replicate 16 7))) ↔
    (BlockCipher.identity 15).blksize ≤ 32 ∧ ((BlockCipher.identity 15).blksize = 16 → 16 ≤ sliceSize) :=
  ctr_keystream_and_fast_iff (by decide) [[1, 2, 3], [4]] (aligned_setblock _) (by decide) _ _ _

end Fast

end Ctr

end Drew.Mode
