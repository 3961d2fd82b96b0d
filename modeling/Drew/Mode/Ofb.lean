import Drew.Mode.Basic

/-!
# Output feedback mode

The model of `ofb.c`. The keystream is the cipher applied to the initialisation vector
again and again, and `buf` is both its current block and the input for the next one. The
fast function applies the cipher to `chunks` adjacent blocks, which is `chunks` separate
keystreams: with blocks of 16 bytes there is one, with blocks of eight bytes there are
two, and the second one starts from bytes that no vector sets.
-/

namespace Drew.Mode

open Drew.Memory Drew.Block Drew.Stream

/-! ## The code -/

structure Ofb where
  functbl : Functbl
  algo : Option BlockCipher
  buf : Buf UInt8 32
  iv : Buf UInt8 32
  blksize : Nat
  boff : Nat
  chunks : Nat

namespace Ofb

/-- The memory of the context is not cleared, so it starts with any contents. -/
def init (mem : Ofb) : Ofb := { mem with functbl := .plain, algo := none, boff := 0 }

/-- Memory that was cleared. -/
def cleared : Ofb where
  functbl := .plain
  algo := none
  buf := Vector.replicate 32 0
  iv := Vector.replicate 32 0
  blksize := 0
  boff := 0
  chunks := 0

/-- Without a cipher the error number is returned as it is, not negated. -/
def setblock (c : Ofb) : Option BlockCipher → Ofb × Int
  | none => (c, drewErrInvalid)
  | some algo =>
      let c := { c with algo := some algo, blksize := algo.blksize }
      if algo.blksize = 8 ∨ algo.blksize = 16 then
        ({ c with chunks := modeAlignment / algo.blksize, functbl := .fast }, 0)
      else (c, 0)

/-- A context that is given its own `iv` does not copy it, and it would not change. -/
def setiv (c : Ofb) (iv : List UInt8) : Option (Ofb × Int) :=
  if c.blksize ≠ iv.length then some (c, -drewErrInvalid) else do
    let buf ← c.buf.write 0 iv
    let iv ← c.iv.write 0 iv
    return ({ c with buf := buf, iv := iv }, 0)

def reset (c : Ofb) : Option (Ofb × Int) := do
  let iv ← c.iv.read 0 c.blksize
  let (c, res) ← c.setiv iv
  if res ≠ 0 then return (c, res) else return ({ c with boff := 0 }, 0)

/-- Make the next block of keystream from the current one. -/
def refill (c : Ofb) : Option Ofb := do
  let algo ← c.algo
  let buf ← algo.encryptTo c.buf 0 c.buf 0
  return { c with buf := buf }

def maskByte (i : Nat) (c : Ofb) (x : UInt8) : Option (Ofb × UInt8) := do
  let b ← c.buf.load i
  return (c, b ^^^ x)

def unitOps : UnitOps Ofb UInt8 UInt8 where
  refill := refill
  body := maskByte
  close := some
  whole c inp := do
    let c ← c.refill
    loop maskByte 0 c inp

/-- `ofb_encrypt`, which decrypts as well. -/
def encrypt (c : Ofb) (inp : List UInt8) : Option (Ofb × List UInt8) := do
  let (c, boff, out) ← unitOps.call c.blksize c c.boff inp
  return ({ c with boff := boff }, out)

/-- The rounds of `ofb_encryptfast`, from the position `pos` of `out` and `in` on. -/
def groups {n : Nat} (algo : BlockCipher) (chunks : Nat) (inp : Buf UInt8 n) :
    Nat → Nat → Buf UInt8 32 → Buf UInt8 n → Option (Buf UInt8 32 × Buf UInt8 n)
  | 0, _, buf, out => some (buf, out)
  | iters + 1, pos, buf, out => do
      let buf ← algo.encryptfast buf 0 buf 0 chunks
      let out ← xorAligned out pos buf 0 inp pos modeAlignment
      groups algo chunks inp iters (pos + modeAlignment) buf out

/-- `ofb_encryptfast`. -/
def encryptfast {n : Nat} (c : Ofb) (out inp : Buf UInt8 n) : Option (Ofb × Buf UInt8 n) := do
  let algo ← c.algo
  let (buf, out) ← groups algo c.chunks inp (n / modeAlignment) 0 c.buf out
  return ({ c with buf := buf }, out)

/-- A context as the library makes it: a new one, a cipher, an initialisation vector. -/
def fresh (mem : Ofb) (algo : BlockCipher) (iv : List UInt8) : Option (Ofb × Int) :=
  ((init mem).setblock (some algo)).1.setiv iv

/-! ## The keystream -/

/-- The encryption of the vector, repeated `i + 1` times. -/
def keyBlock (E : BlockCipher) (iv : List UInt8) (i : Nat) : List UInt8 := E.encrypt^[i + 1] iv

theorem length_iterate {bs : Nat} {f : List UInt8 → List UInt8}
    (hf : ∀ b, b.length = bs → (f b).length = bs) {b : List UInt8} (hb : b.length = bs) (i : Nat) :
    (f^[i] b).length = bs := by
  induction i with
  | zero => exact hb
  | succ i ih =>
    rw [Function.iterate_succ_apply']
    exact hf _ ih

section Bytes

variable {E : BlockCipher} {iv C : List UInt8} {mem c : Ofb} {q : Nat}

theorem length_keyBlock (hiv : iv.length = E.blksize) (i : Nat) :
    (keyBlock E iv i).length = E.blksize := length_iterate E.length_encrypt hiv (i + 1)

/-- The buffer has the encryption repeated `q` times. -/
structure Ready (E : BlockCipher) (iv : List UInt8) (c : Ofb) (q : Nat) : Prop where
  algo : c.algo = some E
  blksize : c.blksize = E.blksize
  fits : E.blksize ≤ 32
  buf : c.buf.Holds 0 (E.encrypt^[q] iv)

/-- The buffer has block `q` of the keystream. -/
def Full (E : BlockCipher) (iv : List UInt8) (c : Ofb) (q : Nat) : Prop := Ready E iv c (q + 1)

/-- The states between two calls, after a text `C`. -/
def After (E : BlockCipher) (iv : List UInt8) : Ofb → List UInt8 → Prop :=
  AtOffset E.blksize (Between E.blksize (Ready E iv)) (Within E.blksize (Full E iv)) boff

theorem refill_spec (hiv : iv.length = E.blksize) (h : Ready E iv c q) :
    ∃ c', c.refill = some c' ∧ Full E iv c' q := by
  have hfits := h.fits
  obtain ⟨buf, hbuf, hwrite⟩ := BlockCipher.encryptTo_spec c.buf 0
    (length_iterate E.length_encrypt hiv q) h.buf (by omega)
  refine ⟨{ c with buf := buf }, by simp [refill, h.algo, hbuf], h.algo, h.blksize, h.fits, ?_⟩
  rw [Function.iterate_succ_apply']
  exact Buf.holds_write hwrite

theorem maskByte_spec {i : Nat} {k : UInt8} (x : UInt8) (h : Full E iv c q)
    (hk : (keyBlock E iv q)[i]? = some k) : maskByte i c x = some (c, k ^^^ x) := by
  obtain ⟨hi, hget⟩ := List.getElem?_eq_some_iff.mp hk
  have hbuf : c.buf.Holds 0 (keyBlock E iv q) := h.buf
  have hload := hbuf.load hi
  rw [Nat.zero_add, hget] at hload
  simp [maskByte, hload]

theorem unitOps_refines (hiv : iv.length = E.blksize) :
    Refines unitOps E.blksize (sealStep (· ^^^ ·) (keyAt (keyBlock E iv) E.blksize))
      (Between E.blksize (Ready E iv)) (Within E.blksize (Full E iv)) := by
  refine refines_blocks (length_keyBlock hiv) (fun c q h => refill_spec hiv h)
    (fun c q i k x h hk => maskByte_spec x h hk) (fun c q h => ⟨c, rfl, h⟩) ?_
  funext c xs
  simp [unitOps, UnitOps.wholeByLoop]

/-- After whole blocks the buffer has the last of them. -/
theorem After.buf {m : Nat} (hiv : iv.length = E.blksize) (h : After E iv c C)
    (hC : C.length = m * E.blksize) : c.buf.read 0 E.blksize = some (E.encrypt^[m] iv) := by
  have hread := (AtOffset.ready h hC).2.buf.read
  rwa [length_iterate E.length_encrypt hiv] at hread

/-- A call masks its piece with the keystream from where the text before it ended. -/
theorem encrypt_refines (hiv : iv.length = E.blksize) (hsize : E.blksize ≤ 32) :
    CallRefines encrypt (sealStep (· ^^^ ·) (keyAt (keyBlock E iv) E.blksize)) (After E iv) := by
  refine (unitOps_refines hiv).callRefines (by omega) (fun c b => { c with boff := b }) ?_
    (fun _ _ => rfl) ?_ ?_
  · intro c C xs h
    have hblk : c.blksize = E.blksize :=
      AtOffset.elim h (fun _ hq => hq.blksize) (fun _ hq => hq.blksize)
    rw [encrypt, hblk]
    cases unitOps.call E.blksize c c.boff xs <;> rfl
  · rintro c b C ⟨q, hC, h⟩
    exact ⟨q, hC, h.algo, h.blksize, h.fits, h.buf⟩
  · rintro c b i C ⟨q, hC, h⟩
    exact ⟨q, hC, h.algo, h.blksize, h.fits, h.buf⟩

/-- Setting a vector of the size of a block. -/
theorem setiv_spec (hblk : c.blksize = E.blksize) (hiv : iv.length = E.blksize)
    (hsize : E.blksize ≤ 32) :
    ∃ buf iv', c.setiv iv = some ({ c with buf := buf, iv := iv' }, 0) ∧
      c.buf.write 0 iv = some buf ∧ c.iv.write 0 iv = some iv' := by
  have hfit : 0 + iv.length ≤ 32 := by omega
  obtain ⟨buf, hbuf⟩ := Buf.exists_write c.buf hfit
  obtain ⟨iv', hiv'⟩ := Buf.exists_write c.iv hfit
  refine ⟨buf, iv', ?_, hbuf, hiv'⟩
  simp [setiv, hblk, hiv, hbuf, hiv']

/-- A vector that is longer than the buffers is written past their end. -/
theorem setiv_none (hblk : c.blksize = iv.length) (hsize : 32 < iv.length) :
    c.setiv iv = none := by
  have hwrite : c.buf.write 0 iv = none := by
    rw [Buf.write, dif_neg (by omega)]
  simp [setiv, hblk, hwrite]

/-- The context with the cipher, apart from the vector. -/
theorem setblock_spec (mem : Ofb) (E : BlockCipher) :
    ((init mem).setblock (some E)).1.algo = some E ∧
      ((init mem).setblock (some E)).1.blksize = E.blksize ∧
      ((init mem).setblock (some E)).1.boff = 0 := by
  unfold setblock
  dsimp only
  split <;> exact ⟨rfl, rfl, rfl⟩

/-- A context between two units whose buffer holds `iv` is at the beginning of the keystream
for `iv`. -/
theorem after_nil (halgo : c.algo = some E) (hblk : c.blksize = E.blksize) (hboff : c.boff = 0)
    (hsize : E.blksize ≤ 32) (hbuf : c.buf.Holds 0 iv) : After E iv c [] := by
  refine ⟨by rw [hboff]; exact E.blksize_pos, ?_⟩
  rw [hboff]
  exact At.idle ⟨0, by simp, halgo, hblk, hsize, hbuf⟩

theorem fresh_spec (mem : Ofb) (hiv : iv.length = E.blksize) (hsize : E.blksize ≤ 32) :
    ∃ c, fresh mem E iv = some (c, 0) ∧ After E iv c [] := by
  obtain ⟨halgo, hblk, hboff⟩ := setblock_spec mem E
  obtain ⟨buf, iv', hset, hbuf, -⟩ := setiv_spec hblk hiv hsize
  exact ⟨_, hset, after_nil halgo hblk hboff hsize (Buf.holds_write hbuf)⟩

/-- The outputs of a run of calls after a fresh vector are the message masked with the
keystream. -/
theorem run_fresh (mem : Ofb) (hiv : iv.length = E.blksize) (hsize : E.blksize ≤ 32)
    (pieces : List (List UInt8)) :
    ∃ c c' outs, fresh mem E iv = some (c, 0) ∧ run encrypt c pieces = some (c', outs) ∧
      outs.flatten = xorBytes (blocks (keyBlock E iv) pieces.flatten.length) pieces.flatten := by
  obtain ⟨c, hfresh, hafter⟩ := fresh_spec mem hiv hsize
  obtain ⟨c', outs, hrun, hflat, -⟩ := run_calls (encrypt_refines hiv hsize) hafter pieces
  refine ⟨c, c', outs, hfresh, hrun, ?_⟩
  rw [hflat, seal_blocks (length_keyBlock hiv) (Nat.le_mul_of_pos_right _ E.blksize_pos)]
  rfl

end Bytes

/-! ## The fast function -/

section Fast

variable {E : BlockCipher} {c : Ofb} {n : Nat}

/-- The states in which the fast functions are called. -/
structure Aligned (E : BlockCipher) (c : Ofb) : Prop where
  algo : c.algo = some E
  blksize : c.blksize = E.blksize
  boff : c.boff = 0
  chunks : c.chunks = modeAlignment / E.blksize

theorem aligned_setblock (mem : Ofb) (h : E.blksize = 8 ∨ E.blksize = 16) :
    Aligned E ((init mem).setblock (some E)).1 := by
  unfold setblock
  dsimp only
  rw [if_pos h]
  exact ⟨rfl, rfl, rfl, rfl⟩

/-- What one round does to the first 16 bytes of the buffer. -/
def groupStep (E : BlockCipher) (chunks : Nat) (b : List UInt8) : List UInt8 :=
  mapBlocks E.blksize E.encrypt (E.fastBlocks chunks) b

theorem length_groupStep {chunks : Nat} (hE : E.fastBlocks chunks * E.blksize = 16)
    (b : List UInt8) (hb : b.length = 16) : (groupStep E chunks b).length = 16 := by
  rw [groupStep, length_mapBlocks E.length_encrypt (by omega), hE]

/-- The rounds are output feedback with the cipher on 16 bytes that one round is. -/
theorem groups_spec {chunks : Nat} (hE : E.fastBlocks chunks * E.blksize = 16)
    {inp : Buf UInt8 n} (iters : Nat) {pos : Nat} {buf : Buf UInt8 32} {out : Buf UInt8 n}
    {b xs ys : List UInt8} (hb : b.length = 16) (hbuf : buf.Holds 0 b)
    (hxs : xs.length = iters * 16) (hinp : inp.Holds pos xs) (hys : ys.length = pos)
    (hout : out.Holds 0 ys) :
    ∃ buf' out', groups E chunks inp iters pos buf out = some (buf', out') ∧
      buf'.Holds 0 ((groupStep E chunks)^[iters] b) ∧
      out'.Holds 0 (ys ++ xorBytes (blocks (fun j => (groupStep E chunks)^[j + 1] b) iters) xs) := by
  induction iters generalizing pos buf out b xs ys with
  | zero =>
    have hnil : xs = [] := List.eq_nil_of_length_eq_zero (by omega)
    exact ⟨buf, out, rfl, hbuf, by simpa [hnil, blocks, xorBytes] using hout⟩
  | succ iters ih =>
    obtain ⟨x, zs, rfl, hx⟩ : ∃ x zs, xs = x ++ zs ∧ x.length = 16 :=
      ⟨xs.take 16, xs.drop 16, (List.take_append_drop 16 xs).symm, by simp; omega⟩
    have hfits := hinp.1
    rw [List.length_append] at hxs hfits
    have hb' := length_groupStep hE b hb
    obtain ⟨buf₁, henc, hwrite₁⟩ :=
      BlockCipher.encryptfast_spec buf 0 (hb.trans hE.symm) hbuf (by omega)
    have hbuf₁ : buf₁.Holds 0 (groupStep E chunks b) := Buf.holds_write hwrite₁
    obtain ⟨out₁, hxor, hwrite₂⟩ :=
      xorAligned_spec out pos (by decide) hb' hx hbuf₁ hinp.left (by omega)
    have hout₁ : out₁.Holds 0 (ys ++ xorBytes (groupStep E chunks b) x) := by
      refine (hout.write_of_disjoint hwrite₂ (Or.inr (by omega))).append ?_
      rw [Nat.zero_add, hys]
      exact Buf.holds_write hwrite₂
    have hinp₁ : inp.Holds (pos + 16) zs := hx ▸ hinp.right
    obtain ⟨buf₂, out₂, hgroups, hbuf₂, hout₂⟩ :=
      ih hb' hbuf₁ (by omega) hinp₁ (by simp [hys, hb', hx]) hout₁
    refine ⟨buf₂, out₂, ?_, hbuf₂, ?_⟩
    · simp only [groups, henc, modeAlignment, hxor, Option.bind_eq_bind, Option.bind_some]
      exact hgroups
    · rw [List.append_assoc, ← xorBytes_append (hb'.trans hx.symm)] at hout₂
      rw [Nat.add_comm iters, blocks_add, blocks_one]
      simpa [Nat.add_comm 1] using hout₂

/-- The fast function gives the same bytes, and leaves the same offset and block. -/
def FastAgrees (E : BlockCipher) (c : Ofb) (out inp : Buf UInt8 n) : Prop :=
  ∃ c₁ out' c₂ ys block, c.encryptfast out inp = some (c₁, out') ∧
    c.encrypt inp.toList = some (c₂, ys) ∧ out'.toList = ys ∧ c₁.boff = c₂.boff ∧
    c₁.buf.read 0 E.blksize = some block ∧ c₂.buf.read 0 E.blksize = some block

/-- With blocks of eight bytes, a round enciphers two blocks. -/
theorem groupStep_8 (hE : E.blksize = 8) {a b : List UInt8} (ha : a.length = 8) (hb : b.length = 8) :
    groupStep E 2 (a ++ b) = E.encrypt a ++ E.encrypt b := by
  rw [groupStep, hE, BlockCipher.fastBlocks, if_pos hE, mapBlocks_two ha hb]

theorem encryptfast_spec (hc : Aligned E c) (hE : E.blksize = 8 ∨ E.blksize = 16) (h16 : 16 ∣ n)
    {b : List UInt8} (hb : b.length = 16) (hbuf : c.buf.Holds 0 b) (out inp : Buf UInt8 n) :
    ∃ buf' out', c.encryptfast out inp = some ({ c with buf := buf' }, out') ∧
      buf'.Holds 0 ((groupStep E (16 / E.blksize))^[n / 16] b) ∧
      out'.toList =
        xorBytes (blocks (fun j => (groupStep E (16 / E.blksize))^[j + 1] b) (n / 16)) inp.toList := by
  have hsize : E.fastBlocks (16 / E.blksize) * E.blksize = 16 := by
    rcases hE with hE | hE <;> simp [BlockCipher.fastBlocks, hE]
  have hlen : inp.toList.length = n / 16 * 16 := by simp; omega
  obtain ⟨buf', out', hrun, hbuf', hout'⟩ := groups_spec hsize (n / 16) hb hbuf hlen
    (Buf.holds_toList inp) rfl (Buf.holds_nil (v := out) (Nat.zero_le n))
  refine ⟨buf', out', ?_, hbuf', ?_⟩
  · simp [encryptfast, hc.algo, hc.chunks, modeAlignment, hrun]
  · rw [List.nil_append] at hout'
    refine hout'.toList ?_
    have hblocks := fun j => length_iterate (length_groupStep hsize) hb (j + 1)
    rw [length_xorBytes, length_blocks hblocks, hlen]
    omega

/-- The plain function from an aligned state. -/
theorem encrypt_aligned (hc : Aligned E c) (hsize : E.blksize ≤ 32) (hdvd : E.blksize ∣ n)
    {b : List UInt8} (hb : b.length = E.blksize) (hbuf : c.buf.Holds 0 b) (inp : Buf UInt8 n) :
    ∃ c' ys, c.encrypt inp.toList = some (c', ys) ∧ c'.boff = 0 ∧
      c'.buf.read 0 E.blksize = some (E.encrypt^[n / E.blksize] b) ∧
      ys = xorBytes (blocks (keyBlock E b) (n / E.blksize)) inp.toList := by
  have hafter : After E b c [] := after_nil hc.algo hc.blksize hc.boff hsize hbuf
  obtain ⟨c', henc, hafter'⟩ := encrypt_refines hb hsize c [] inp.toList hafter
  have hlen : (trace (sealStep (· ^^^ ·) (keyAt (keyBlock E b) E.blksize)) []
      inp.toList).1.length = n / E.blksize * E.blksize := by
    rw [trace_seal_history, List.nil_append, trace_length, Nat.div_mul_cancel hdvd]
    simp
  refine ⟨c', _, henc, (AtOffset.ready hafter' hlen).1, hafter'.buf hb hlen, ?_⟩
  rw [seal_blocks (length_keyBlock hb) (m := n / E.blksize)
    (by rw [Nat.div_mul_cancel hdvd]; simp)]
  rfl

/-- With blocks of 16 bytes there is one keystream. -/
theorem fastAgrees_of_16 (hc : Aligned E c) (hE : E.blksize = 16) (h16 : 16 ∣ n)
    (out inp : Buf UInt8 n) : FastAgrees E c out inp := by
  obtain ⟨b, -, hb, hbuf⟩ := Buf.exists_read c.buf 0 16 (by omega)
  obtain ⟨buf', out', hfast, hbuf', hout'⟩ := encryptfast_spec hc (Or.inr hE) h16 hb hbuf out inp
  obtain ⟨c₂, ys, henc, hboff, hread, hys⟩ := encrypt_aligned hc (by omega) (by rwa [hE])
    (hb.trans hE.symm) hbuf inp
  have hstep : ∀ i, (groupStep E (16 / E.blksize))^[i] b = E.encrypt^[i] b := by
    intro i
    induction i with
    | zero => rfl
    | succ i ih =>
      have hlen : (E.encrypt^[i] b).length = E.blksize :=
        length_iterate E.length_encrypt (hb.trans hE.symm) i
      rw [Function.iterate_succ_apply', Function.iterate_succ_apply', ih, groupStep, hE,
        BlockCipher.fastBlocks, if_neg (by omega), mapBlocks_one (by omega)]
  refine ⟨_, out', c₂, ys, _, hfast, henc, ?_, hc.boff.trans hboff.symm, ?_, hread⟩
  · have hkey : (fun j => (groupStep E (16 / E.blksize))^[j + 1] b) = keyBlock E b :=
      funext fun j => hstep (j + 1)
    rw [hout', hys, hkey, hE]
  · have hread' := hbuf'.read
    rw [hstep] at hread'
    rw [length_iterate E.length_encrypt (hb.trans hE.symm)] at hread'
    rw [hread', hE]

theorem fastAgrees_of_empty (hc : Aligned E c) (hsize : E.blksize ≤ 32) (out inp : Buf UInt8 0) :
    FastAgrees E c out inp := by
  obtain ⟨b, hread, hb, hbuf⟩ := Buf.exists_read c.buf 0 E.blksize (by omega)
  obtain ⟨c₂, ys, henc, hboff, hread₂, hys⟩ :=
    encrypt_aligned hc hsize (Nat.dvd_zero _) hb hbuf inp
  rw [Nat.zero_div] at hread₂
  have hfast : c.encryptfast out inp = some (c, out) := by
    simp [encryptfast, hc.algo, groups]
    rw [← hc.algo]
  refine ⟨c, out, c₂, ys, b, hfast, henc, ?_, hc.boff.trans hboff.symm, hread, hread₂⟩
  rw [hys]
  simp [xorBytes, blocks]

/-- With blocks of eight bytes, the second block of the first round is the encryption of
bytes that are not part of the chain. -/
theorem not_fastAgrees_of_8 (hinv : E.Inverts) (hE : E.blksize = 8) (hc : Aligned E c)
    (h16 : 16 ∣ n) (hn : 0 < n) (b₀ b₁ : List UInt8) (hb₀ : b₀.length = 8) (hb₁ : b₁.length = 8)
    (hbuf : c.buf.Holds 0 (b₀ ++ b₁)) (hne : E.encrypt b₀ ≠ b₁) (out inp : Buf UInt8 n) :
    ¬FastAgrees E c out inp := by
  rintro ⟨c₁, out', c₂, ys, -, hfast, henc, hout, -⟩
  have hb : (b₀ ++ b₁).length = 16 := by simp [hb₀, hb₁]
  have hb₀' := hb₀.trans hE.symm
  obtain ⟨buf', out'', hfast', -, hout'⟩ := encryptfast_spec hc (Or.inl hE) h16 hb hbuf out inp
  obtain ⟨c₂', ys', henc', -, -, hys⟩ :=
    encrypt_aligned hc (by omega) (by rw [hE]; omega) hb₀' hbuf.left inp
  rw [hfast'] at hfast
  rw [henc'] at henc
  cases hfast
  cases henc
  rw [hout', hys, hE] at hout
  have hsize : E.fastBlocks 2 * E.blksize = 16 := by simp [BlockCipher.fastBlocks, hE]
  have hlen₁ := length_blocks (fun j => length_iterate (length_groupStep hsize) hb (j + 1)) (n / 16)
  have hlen₂ := length_blocks (length_keyBlock hb₀') (n / 8)
  have hstreams := xorBytes_left_inj (by rw [hlen₁]; simp; omega)
    (by rw [hlen₂, hE]; simp; omega) hout
  -- The two keystreams are equal, so they are in their second block.
  obtain ⟨m, rfl⟩ : ∃ m, n = 16 * (m + 1) := ⟨n / 16 - 1, by omega⟩
  rw [show 16 * (m + 1) / 16 = 1 + m by omega, show 16 * (m + 1) / 8 = 2 + 2 * m by omega,
    blocks_add, blocks_add, blocks_one, blocks_succ _ 1, blocks_one] at hstreams
  have hround : (groupStep E (16 / 8))^[0 + 1] (b₀ ++ b₁) = E.encrypt b₀ ++ E.encrypt b₁ :=
    groupStep_8 hE hb₀ hb₁
  have hkey₀ := length_keyBlock hb₀' 0
  have hkey₁ := length_keyBlock hb₀' 1
  have henc₀ := E.length_encrypt b₀ hb₀'
  have henc₁ := E.length_encrypt b₁ (hb₁.trans hE.symm)
  rw [hround] at hstreams
  have hfirst := (List.append_inj hstreams (by simp only [List.length_append]; omega)).1
  have hsecond : E.encrypt b₁ = E.encrypt (E.encrypt b₀) :=
    (List.append_inj hfirst (henc₀.trans hkey₀.symm)).2
  exact hne (hinv.inj (hb₁.trans hE.symm) henc₀ hsecond).symm

/-- Whatever the memory of a context was, some vector tells the two functions apart. -/
theorem fast_fails (hinv : E.Inverts) (hE : E.blksize = 8) (h16 : 16 ∣ n) (hn : 0 < n) (mem : Ofb) :
    ∃ iv c, iv.length = 8 ∧ fresh mem E iv = some (c, 0) ∧ Aligned E c ∧
      ∀ out inp : Buf UInt8 n, ¬FastAgrees E c out inp := by
  obtain ⟨b₁, -, hb₁, hmem⟩ := Buf.exists_read mem.buf 8 8 (by omega)
  -- Two vectors have two encryptions, and one of them is not what the memory has.
  obtain ⟨iv, hiv, hne⟩ : ∃ iv : List UInt8, iv.length = 8 ∧ E.encrypt iv ≠ b₁ := by
    by_cases h0 : E.encrypt (List.replicate 8 0) = b₁
    · refine ⟨List.replicate 8 1, rfl, fun h1 => ?_⟩
      have h01 := hinv.inj (by simp [hE]) (by simp [hE]) (h0.trans h1.symm)
      exact absurd h01 (by decide)
    · exact ⟨List.replicate 8 0, rfl, h0⟩
  have hcipher := aligned_setblock mem (Or.inl hE)
  obtain ⟨buf, iv', hset, hwrite, -⟩ := setiv_spec hcipher.blksize (hiv.trans hE.symm) (by omega)
  have hmem' : ((init mem).setblock (some E)).1.buf.Holds 8 b₁ := by
    unfold setblock
    dsimp only
    split <;> exact hmem
  have hbuf : buf.Holds 0 (iv ++ b₁) := by
    refine (Buf.holds_write hwrite).append ?_
    rw [Nat.zero_add, hiv]
    exact hmem'.write_of_disjoint hwrite (Or.inl (by omega))
  have hc : Aligned E { ((init mem).setblock (some E)).1 with buf := buf, iv := iv' } :=
    ⟨hcipher.algo, hcipher.blksize, hcipher.boff, hcipher.chunks⟩
  exact ⟨iv, _, hiv, hset, hc,
    fun out inp => not_fastAgrees_of_8 hinv hE hc h16 hn iv b₁ hiv hb₁ hbuf hne out inp⟩

/-- Keystream, from a fresh vector, and fast function, from an aligned state: together they
do what they should, with every cipher with blocks of `bs` bytes, exactly when a block fits
in the buffer and no call is made to the fast function with blocks of eight bytes. -/
theorem ofb_keystream_and_fast_iff (bs n : Nat) (h16 : 16 ∣ n) :
    (∀ E : BlockCipher, E.blksize = bs →
      (∀ (mem : Ofb) (iv : List UInt8) (pieces : List (List UInt8)), iv.length = E.blksize →
        ∃ c₀ c₁ outs, fresh mem E iv = some (c₀, 0) ∧ run encrypt c₀ pieces = some (c₁, outs) ∧
          outs.flatten = xorBytes (blocks (keyBlock E iv) pieces.flatten.length) pieces.flatten) ∧
      (E.blksize = 8 ∨ E.blksize = 16 → ∀ (c : Ofb) (out inp : Buf UInt8 n), Aligned E c →
        FastAgrees E c out inp)) ↔
    bs ≤ 32 ∧ (bs = 8 → n = 0) := by
  constructor
  · intro h
    refine ⟨?_, ?_⟩
    · by_contra hsize
      have hbs : (BlockCipher.identity (bs - 1)).blksize = bs := by
        simp only [BlockCipher.identity]
        omega
      obtain ⟨c₀, -, -, hfresh, -⟩ := (h _ hbs).1 cleared (List.replicate bs 0) [] (by simp [hbs])
      obtain ⟨-, hblk, -⟩ := setblock_spec cleared (BlockCipher.identity (bs - 1))
      rw [fresh, setiv_none (by simp [hblk, hbs]) (by simp; omega)] at hfresh
      cases hfresh
    · rintro rfl
      by_contra hn
      obtain ⟨iv, c, -, -, hc, hfails⟩ := fast_fails (BlockCipher.identity_inverts 7) rfl h16
        (Nat.pos_of_ne_zero hn) cleared
      exact hfails (Vector.replicate n 0) (Vector.replicate n 0)
        ((h (BlockCipher.identity 7) rfl).2 (Or.inl rfl) c _ _ hc)
  · rintro ⟨hsize, hzero⟩ E rfl
    refine ⟨fun mem iv pieces hiv => run_fresh mem hiv hsize pieces, fun hE c out inp hc => ?_⟩
    rcases hE with hE | hE
    · obtain rfl := hzero hE
      exact fastAgrees_of_empty hc hsize out inp
    · exact fastAgrees_of_16 hc hE h16 out inp

theorem length_eightOnes : (List.replicate 8 (1 : UInt8) ++ List.replicate 24 0).length = 32 := rfl

/-- The context of a cipher with blocks of eight bytes after the vector of eight ones, in
memory that was cleared. -/
def eightOnes : Ofb where
  functbl := .fast
  algo := some (BlockCipher.identity 7)
  buf := Buf.ofList (List.replicate 8 1 ++ List.replicate 24 0) length_eightOnes
  iv := Buf.ofList (List.replicate 8 1 ++ List.replicate 24 0) length_eightOnes
  blksize := 8
  boff := 0
  chunks := 2

theorem ofb_fast_eightOnes :
    ¬FastAgrees (BlockCipher.identity 7) eightOnes (Vector.replicate 16 0) (Vector.replicate 16 0) :=
  not_fastAgrees_of_8 (BlockCipher.identity_inverts 7) rfl ⟨rfl, rfl, rfl, rfl⟩ (by decide)
    (by decide) (List.replicate 8 1) (List.replicate 8 0) rfl rfl ⟨by decide, by decide⟩ (by decide)
    _ _

theorem ofb_keystream_and_fast_iff_sixteen :
    (∀ E : BlockCipher, E.blksize = 16 →
      (∀ (mem : Ofb) (iv : List UInt8) (pieces : List (List UInt8)), iv.length = E.blksize →
        ∃ c₀ c₁ outs, fresh mem E iv = some (c₀, 0) ∧ run encrypt c₀ pieces = some (c₁, outs) ∧
          outs.flatten = xorBytes (blocks (keyBlock E iv) pieces.flatten.length) pieces.flatten) ∧
      (E.blksize = 8 ∨ E.blksize = 16 → ∀ (c : Ofb) (out inp : Buf UInt8 32), Aligned E c →
        FastAgrees E c out inp)) ↔
    16 ≤ 32 ∧ (16 = 8 → 32 = 0) :=
  ofb_keystream_and_fast_iff 16 32 (by decide)

end Fast

end Ofb

end Drew.Mode
