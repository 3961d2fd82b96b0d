import Drew.Mode.Ctr

/-!
# Counter mode from any state

`ctr_setiv` does not set the offset back, and puts the vector into the buffer as well. So a context may be at an
offset in a buffer that is not a block of keystream. The bytes from there on are used first, and then the
keystream of the counter block.

The fast function, if it is called with a length that is not a multiple of 16, makes a counter block for the
rest and leaves the rest of the output as it is.
-/

namespace Drew.Mode.Ctr

open Drew.Memory Drew.Block Drew.Stream

variable {E : BlockCipher} {iv kb : List UInt8} {c : Ctr} {q n : Nat}

/-! ## The state -/

/-- The counter block is `iv`, and `kb` is in the buffer. -/
structure Standing (E : BlockCipher) (iv kb : List UInt8) (c : Ctr) : Prop where
  algo : c.algo = some E
  blksize : c.blksize = E.blksize
  fits : E.blksize ≤ 32
  boff : c.boff < E.blksize
  ctr : c.ctr.Holds 0 iv
  length_iv : iv.length = E.blksize
  buf : c.buf.Holds 0 kb
  length_kb : kb.length = E.blksize

/-- The contents of the buffer, and then the keystream. -/
def resumedBlock (E : BlockCipher) (iv kb : List UInt8) : Nat → List UInt8
  | 0 => kb
  | q + 1 => keyBlock E iv q

/-- The number of bytes before the next one, as if the buffer were the first block. -/
def position (c : Ctr) : Nat := if c.boff = 0 then c.blksize else c.boff

/-- What is left in the buffer. -/
def left (kb : List UInt8) (boff : Nat) : List UInt8 := if boff = 0 then [] else kb.drop boff

/-- The next block is block `q` of these, and the function table is `f`. -/
def ReadyFrom (E : BlockCipher) (iv : List UInt8) (f : Functbl) (c : Ctr) (q : Nat) : Prop :=
  c.functbl = f ∧ ∃ p, q = p + 1 ∧ Ready E iv c p

/-- The buffer has block `q` of these. -/
def FullFrom (E : BlockCipher) (iv kb : List UInt8) (f : Functbl) (c : Ctr) (q : Nat) : Prop :=
  c.functbl = f ∧ Ready E iv c q ∧ c.buf.Holds 0 (resumedBlock E iv kb q)

/-- The states between two calls, after a text `C`. -/
def AfterFrom (E : BlockCipher) (iv kb : List UInt8) (f : Functbl) : Ctr → List UInt8 → Prop :=
  AtOffset E.blksize (Between E.blksize (ReadyFrom E iv f)) (Within E.blksize (FullFrom E iv kb f)) boff

/-! ## The byte function -/

theorem length_resumedBlock (iv : List UInt8) (hkb : kb.length = E.blksize) (q : Nat) :
    (resumedBlock E iv kb q).length = E.blksize := by
  cases q with
  | zero => exact hkb
  | succ q => exact length_keyBlock E iv q

theorem refillFrom_spec {f : Functbl} (h : ReadyFrom E iv f c q) :
    ∃ c', c.refill = some c' ∧ FullFrom E iv kb f c' q := by
  obtain ⟨hf, p, rfl, hready⟩ := h
  obtain ⟨c', hrun, hfull⟩ := refill_spec hready
  refine ⟨c', hrun, ?_, hfull.ready, hfull.buf⟩
  obtain ⟨algo, -, hrun⟩ := Option.bind_eq_some_iff.mp hrun
  obtain ⟨buf, -, hrun⟩ := Option.bind_eq_some_iff.mp hrun
  obtain ⟨ctr, -, hrun⟩ := Option.bind_eq_some_iff.mp hrun
  cases hrun
  exact hf

theorem unitOps_refines_from (hkb : kb.length = E.blksize) (iv : List UInt8) (f : Functbl) :
    Refines unitOps E.blksize (sealStep (· ^^^ ·) (keyAt (resumedBlock E iv kb) E.blksize))
      (Between E.blksize (ReadyFrom E iv f)) (Within E.blksize (FullFrom E iv kb f)) := by
  refine refines_blocks (length_resumedBlock iv hkb) (fun c q h => refillFrom_spec h) ?_
    (fun c q h => ⟨c, rfl, h.1, q, rfl, h.2.1⟩) ?_
  · rintro c q i k x ⟨-, -, hbuf⟩ hk
    obtain ⟨hi, hget⟩ := List.getElem?_eq_some_iff.mp hk
    have hload := hbuf.load hi
    rw [Nat.zero_add, hget] at hload
    show maskByte i c x = _
    simp [maskByte, hload]
  · funext c xs
    simp [unitOps, UnitOps.wholeByLoop]

theorem encrypt_refines_from (hkb : kb.length = E.blksize) (hsize : E.blksize ≤ 32) (iv : List UInt8)
    (f : Functbl) :
    CallRefines encrypt (sealStep (· ^^^ ·) (keyAt (resumedBlock E iv kb) E.blksize))
      (AfterFrom E iv kb f) := by
  refine (unitOps_refines_from hkb iv f).callRefines (by omega) (fun c b => { c with boff := b }) ?_
    (fun _ _ => rfl) ?_ ?_
  · intro c C xs h
    have hblk : c.blksize = E.blksize := by
      refine AtOffset.elim h ?_ fun q hq => hq.2.1.blksize
      rintro q ⟨-, p, -, hready⟩
      exact hready.blksize
    rw [encrypt, hblk]
    cases unitOps.call E.blksize c c.boff xs <;> rfl
  · rintro c b C ⟨q, hC, hf, p, hp, h⟩
    exact ⟨q, hC, hf, p, hp, h.algo, h.blksize, h.fits, h.ctr⟩
  · rintro c b i C ⟨q, hC, hf, h, hbuf⟩
    exact ⟨q, hC, hf, ⟨h.algo, h.blksize, h.fits, h.ctr⟩, hbuf⟩

/-- A context that stands somewhere is after a text of its position. -/
theorem Standing.afterFrom (h : Standing E iv kb c) :
    AfterFrom E iv kb c.functbl c (List.replicate (position c) 0) := by
  have hready : Ready E iv c 0 := by
    refine ⟨h.algo, h.blksize, h.fits, ?_⟩
    rw [Nat.add_zero, beBytes_mod, ← h.length_iv, beBytes_beNat]
    exact h.ctr
  refine ⟨h.boff, ?_⟩
  by_cases h0 : c.boff = 0
  · rw [h0]
    refine At.idle ⟨1, ?_, rfl, 0, rfl, hready⟩
    rw [List.length_replicate, position, if_pos h0, h.blksize, Nat.one_mul]
  · refine At.mid h0 h.boff ⟨0, ?_, rfl, hready, h.buf⟩
    rw [List.length_replicate, position, if_neg h0, Nat.zero_mul, Nat.zero_add]

theorem blocks_resumed (hkb : kb.length = E.blksize) (m : Nat) (h0 : c.boff < E.blksize)
    (hblk : c.blksize = E.blksize) :
    (blocks (resumedBlock E iv kb) (1 + m)).drop (position c) =
      left kb c.boff ++ blocks (keyBlock E iv) m := by
  have hblocks : blocks (resumedBlock E iv kb) (1 + m) = kb ++ blocks (keyBlock E iv) m := by
    rw [blocks_add, blocks_one]
    congr 1
    simp only [Nat.add_comm 1]
    rfl
  rw [hblocks, position, left]
  split
  · rw [hblk, ← hkb, List.drop_left, List.nil_append]
  · rw [List.drop_append_of_le_length (by omega)]

/-- The number of blocks of keystream for `len` bytes. -/
def blocksFor (bs len : Nat) : Nat := (len + (bs - 1)) / bs

theorem blocksFor_mul (hn : 0 < n) (k : Nat) : blocksFor n (k * n) = k := by
  rw [blocksFor, Nat.add_comm, Nat.add_mul_div_right _ _ hn, Nat.div_eq_of_lt (by omega), Nat.zero_add]

theorem blocksFor_mul_add {b : Nat} (hb : 0 < b) (hlt : b < n) (k : Nat) :
    blocksFor n (k * n + b) = k + 1 := by
  have hsum : k * n + b + (n - 1) = b - 1 + (k + 1) * n := by
    rw [Nat.succ_mul]
    omega
  rw [blocksFor, hsum, Nat.add_mul_div_right _ _ (by omega), Nat.div_eq_of_lt (by omega), Nat.zero_add]

/-- Where a context stands after a text: it has made as many blocks as the text needs. -/
theorem AfterFrom.standing {f : Functbl} {C : List UInt8} (h : AfterFrom E iv kb f c C)
    (hkb : kb.length = E.blksize) :
    c.functbl = f ∧ c.boff = C.length % E.blksize ∧
      ∃ kb', Standing E (beBytes E.blksize (beNat iv + blocksFor E.blksize (C.length - E.blksize))) kb' c := by
  have hboff := h.boff_eq
  obtain ⟨hlt, hAt⟩ := h
  have hstand : ∀ {p : Nat} {kb' : List UInt8}, Ready E iv c p → c.buf.Holds 0 kb' →
      kb'.length = E.blksize → blocksFor E.blksize (C.length - E.blksize) = p →
      ∃ kb', Standing E
        (beBytes E.blksize (beNat iv + blocksFor E.blksize (C.length - E.blksize))) kb' c := by
    rintro p kb' hready hbuf hlen rfl
    have hctr := hready.ctr
    rw [beBytes_mod] at hctr
    exact ⟨kb', hready.algo, hready.blksize, hready.fits, hlt, hctr, length_beBytes _ _, hbuf, hlen⟩
  unfold At at hAt
  split at hAt
  · obtain ⟨q, hC, hf, p, rfl, hready⟩ := hAt
    obtain ⟨kb', -, hlen, hbuf⟩ := Buf.exists_read c.buf 0 E.blksize (by have := hready.fits; omega)
    refine ⟨hf, hboff, hstand hready hbuf hlen ?_⟩
    rw [hC, Nat.succ_mul, Nat.add_sub_cancel, blocksFor_mul E.blksize_pos]
  · obtain ⟨-, q, hC, hf, hready, hbuf⟩ := hAt
    refine ⟨hf, hboff, hstand hready hbuf (length_resumedBlock iv hkb q) ?_⟩
    cases q with
    | zero =>
      rw [hC, show 0 * E.blksize + c.boff - E.blksize = 0 * E.blksize by omega,
        blocksFor_mul E.blksize_pos]
    | succ q =>
      rw [hC, show (q + 1) * E.blksize + c.boff - E.blksize = q * E.blksize + c.boff by
        rw [Nat.succ_mul]; omega, blocksFor_mul_add (by omega) hlt]

/-- A call, from any state: what is left in the buffer is used first. -/
theorem Standing.encrypt (h : Standing E iv kb c) (xs : List UInt8) :
    ∃ c' kb', c.encrypt xs =
        some (c', xorBytes (left kb c.boff ++ blocks (keyBlock E iv) xs.length) xs) ∧
      c'.functbl = c.functbl ∧ c'.boff = (c.boff + xs.length) % E.blksize ∧
      Standing E (beBytes E.blksize (beNat iv +
        blocksFor E.blksize (position c + xs.length - E.blksize))) kb' c' := by
  obtain ⟨c', hrun, hafter⟩ :=
    encrypt_refines_from h.length_kb h.fits iv c.functbl c _ xs h.afterFrom
  obtain ⟨hf, hboff, kb', hstand⟩ := hafter.standing h.length_kb
  have hpos : position c ≤ E.blksize := by
    have hlt := h.boff
    rw [position, h.blksize]
    split <;> omega
  have hout : (trace (sealStep (· ^^^ ·) (keyAt (resumedBlock E iv kb) E.blksize))
      (List.replicate (position c) 0) xs).2 =
        xorBytes (left kb c.boff ++ blocks (keyBlock E iv) xs.length) xs := by
    have hlen := length_blocks (length_resumedBlock iv h.length_kb) (1 + xs.length)
    have hkey : ∀ D : List UInt8, ∀ k, (blocks (resumedBlock E iv kb) (1 + xs.length))[D.length]? = some k →
        keyAt (resumedBlock E iv kb) E.blksize ([] ++ D) = k := by
      intro D k hD
      have hlt := (List.getElem?_eq_some_iff.mp hD).1
      rw [hlen] at hlt
      rw [List.nil_append, keyAt, ← getElem?_blocks (length_resumedBlock iv h.length_kb) hlt, hD]
      rfl
    have hle : xs.length ≤ xs.length * E.blksize := Nat.le_mul_of_pos_right _ E.blksize_pos
    have hseal : (trace (sealStep (· ^^^ ·) (keyAt (resumedBlock E iv kb) E.blksize))
        ([] ++ List.replicate (position c) 0) xs).2 = _ :=
      seal_eq_zipWith (blocks (resumedBlock E iv kb) (1 + xs.length)) [] _ xs hkey
        (by rw [List.length_replicate, hlen, Nat.add_mul, Nat.one_mul]; omega)
    rw [List.nil_append, List.length_replicate, blocks_resumed h.length_kb _ h.boff h.blksize] at hseal
    exact hseal
  have hlen : (trace (sealStep (· ^^^ ·) (keyAt (resumedBlock E iv kb) E.blksize))
      (List.replicate (position c) 0) xs).1.length = position c + xs.length := by
    rw [trace_seal_history, List.length_append, trace_length, List.length_replicate]
  rw [hlen] at hboff hstand
  rw [hout] at hrun
  refine ⟨c', kb', hrun, hf, ?_, hstand⟩
  rw [hboff, position]
  split
  · rename_i h0
    rw [h.blksize, h0, Nat.zero_add, Nat.add_mod_left]
  · rfl

/-! ## The fast function -/

theorem xorAligned_floor {p r : Nat} (out : Buf UInt8 p) (inp : Buf UInt8 q) (x : Buf UInt8 r)
    (len : Nat) : xorAligned out 0 inp 0 x 0 len = xorAligned out 0 inp 0 x 0 (len / 16 * 16) := by
  rw [xorAligned, xorAligned, Nat.mul_div_cancel _ pos_16]

/-- Only the whole groups of 16 bytes are combined with keystream. -/
theorem slices_floor (hE : E.blksize = 16) (hle : n ≤ sliceSize) (tmp : Buf UInt8 sliceSize)
    {ctr : Buf UInt32 4} {N : Nat} (hctr : wordsVal ctr.toList = N % 256 ^ 16)
    (out inp : Buf UInt8 n) :
    ∃ ctr' out', slices E inp n n 0 0 tmp ctr out = some (ctr', out') ∧
      out.write 0 (xorBytes (blocks (fun q => E.encrypt (beBytes 16 (N + q))) (n / 16))
        (inp.toList.take (n / 16 * 16))) = some out' ∧
      wordsVal ctr'.toList = (N + blocksFor 16 n) % 256 ^ 16 := by
  cases n with
  | zero =>
    refine ⟨ctr, out, rfl, ?_, hctr⟩
    rw [List.take_zero, xorBytes, List.zipWith_nil_right]
    exact Buf.write_nil out le_rfl
  | succ n =>
    have hle' : n + 1 ≤ 4096 := hle
    have hfit : 0 + blocksFor 16 (n + 1) * 16 ≤ 4096 := by
      unfold blocksFor
      omega
    let blk := fun q => beBytes 16 (N + q)
    have hlen : ∀ q, (blk q).length = 16 := fun q => length_beBytes _ _
    have hblocks := length_blocks hlen ((n + 1) / 16)
    obtain ⟨tmp₁, ctr', hfill, htmp₁, hctr'⟩ := fillCounters_spec (blocksFor 16 (n + 1)) 0
      (Buf.holds_nil (v := tmp) (Nat.zero_le _)) rfl hctr hfit
    have htmp₁' : tmp₁.Holds 0 (blocks blk ((n + 1) / 16)) := by
      obtain ⟨r, hr⟩ : ∃ r, blocksFor 16 (n + 1) = (n + 1) / 16 + r :=
        Nat.exists_eq_add_of_le (by unfold blocksFor; omega)
      rw [List.nil_append, hr, blocks_add] at htmp₁
      exact htmp₁.left
    have hfast : E.fastBlocks ((n + 1) / 16) = (n + 1) / 16 := by
      rw [BlockCipher.fastBlocks, if_neg (by omega)]
    obtain ⟨tmp₂, henc, hwrite⟩ := BlockCipher.encryptfast_spec (E := E) (n := (n + 1) / 16) tmp₁ 0
      (by rw [hfast, hE, hblocks]) htmp₁' (by rw [hblocks, Nat.zero_add]; exact (Nat.div_mul_le_self _ _).trans hle)
    rw [hfast, hE, mapBlocks_blocks _ hlen] at hwrite
    have hkeys : (blocks (fun q => E.encrypt (blk q)) ((n + 1) / 16)).length = (n + 1) / 16 * 16 :=
      length_blocks (fun q => (E.length_encrypt _ ((hlen q).trans hE.symm)).trans hE) _
    have hinp : inp.Holds 0 (inp.toList.take ((n + 1) / 16 * 16)) := by
      have hall := Buf.holds_toList inp
      rw [← List.take_append_drop ((n + 1) / 16 * 16) inp.toList] at hall
      exact hall.left
    obtain ⟨out', hxor, hout⟩ := xorAligned_spec out 0 (Nat.dvd_mul_left _ _) hkeys
      (by rw [List.length_take, Vector.length_toList]; omega) (Buf.holds_write hwrite) hinp (by omega)
    have hxor' : xorAligned out 0 tmp₂ 0 inp 0 (n + 1) = some out' :=
      (xorAligned_floor out tmp₂ inp (n + 1)).trans hxor
    refine ⟨ctr', out', ?_, hout, hctr'⟩
    have hmin : min sliceSize (n + 1) = n + 1 := by omega
    have hsteps : (n + 1 + (fastAlignment - 1)) / fastAlignment = blocksFor 16 (n + 1) := rfl
    have hmul : (n + 1) / fastAlignment = (n + 1) / 16 := rfl
    rw [slices, if_neg (by omega)]
    simp only [hmin, hsteps, hmul, hfill, henc, hxor', Option.bind_eq_bind,
      Option.bind_some, Nat.sub_self]
    cases n <;> simp [slices]

/-- The fast function from a context that stands somewhere: the offset and the buffer do not matter. -/
theorem Standing.encryptfast (h : Standing E iv kb c) (hE : E.blksize = 16) (hle : n ≤ sliceSize)
    (tmp : Buf UInt8 sliceSize) (out inp : Buf UInt8 n) :
    ∃ c' out', c.encryptfast tmp out inp = some (c', out') ∧
      out.write 0 (xorBytes (blocks (keyBlock E iv) (n / 16)) (inp.toList.take (n / 16 * 16))) = some out' ∧
      c'.functbl = c.functbl ∧ c'.boff = c.boff ∧
      Standing E (beBytes E.blksize (beNat iv + blocksFor 16 n)) kb c' := by
  have hiv : iv.length = 16 := h.length_iv.trans hE
  obtain ⟨ws, hws, hval⟩ := copyToWords_spec h.ctr hiv
  have hN : wordsVal ws.toList = beNat iv % 256 ^ 16 := by
    rw [hval, Nat.mod_eq_of_lt (hiv ▸ beNat_lt iv)]
  obtain ⟨ws', out', hslices, hout, hN'⟩ := slices_floor hE hle tmp hN out inp
  obtain ⟨ctr', hcopy, hwrite⟩ := copyFromWords_spec c.ctr 0 (by omega) hN'
  have hkey : keyBlock E iv = fun q => E.encrypt (beBytes 16 (beNat iv + q)) := by
    funext q
    rw [keyBlock, hE, beBytes_mod]
  have hctr : ctr'.Holds 0 (beBytes E.blksize (beNat iv + blocksFor 16 n)) := by
    rw [hE]
    exact Buf.holds_write hwrite
  refine ⟨{ c with ctr := ctr' }, out', ?_, by rw [hkey]; exact hout, rfl, rfl, ?_⟩
  · simp [Ctr.encryptfast, h.algo, hws, hslices, hcopy]
  · exact ⟨h.algo, h.blksize, h.fits, h.boff, hctr, length_beBytes _ _, h.buf, h.length_kb⟩

end Drew.Mode.Ctr
