import Drew.Mode.Cfb.Split

/-!
# Cipher feedback mode: the fast functions

With feedback of whole blocks of 16 bytes, a round of `cfb_encryptfast` is one unit, so it
agrees with `cfb_encrypt`. With blocks of eight bytes a round enciphers two blocks at
once, and the second one is not ciphertext yet. `cfb_decryptfast` has all the ciphertext
it needs, with both sizes of blocks, but combines its first slice with as many bytes as
the whole call has.
-/

namespace Drew.Mode.Cfb

open Drew.Memory Drew.Block Drew.Stream

/-! ## Units of a whole block -/

section Units

variable {E : BlockCipher} {iv C : List UInt8} {c : Cfb} {n : Nat}

theorem keyByte_unit (hC : E.blksize ∣ C.length) (hiv : iv.length = E.blksize) (D : List UInt8)
    (k : UInt8) (hk : (E.encrypt (register iv C))[D.length]? = some k) :
    keyByte E iv E.blksize (C ++ D) = k := by
  have hlt := (List.getElem?_eq_some_iff.mp hk).1
  rw [length_cipher hiv] at hlt
  exact keyByte_eq hC hlt hk

/-- Encrypting a unit. -/
theorem seal_unit (hC : E.blksize ∣ C.length) (hiv : iv.length = E.blksize) {x : List UInt8}
    (hx : x.length = E.blksize) :
    (trace (sealStep (· ^^^ ·) (keyByte E iv E.blksize)) C x).2 =
      xorBytes (E.encrypt (register iv C)) x := by
  have hzip : (trace (sealStep (· ^^^ ·) (keyByte E iv E.blksize)) (C ++ []) x).2 = _ :=
    seal_eq_zipWith (E.encrypt (register iv C)) C [] x (keyByte_unit hC hiv)
      (by rw [length_cipher hiv, hx]; simp)
  simpa [xorBytes] using hzip

theorem open_unit (hC : E.blksize ∣ C.length) (hiv : iv.length = E.blksize) {x : List UInt8}
    (hx : x.length = E.blksize) :
    (trace (openStep (· ^^^ ·) (keyByte E iv E.blksize)) C x).2 =
      xorBytes (E.encrypt (register iv C)) x := by
  have hzip : (trace (openStep (· ^^^ ·) (keyByte E iv E.blksize)) (C ++ []) x).2 = _ :=
    open_eq_zipWith (E.encrypt (register iv C)) C [] x (keyByte_unit hC hiv)
      (by rw [length_cipher hiv, hx]; simp)
  simpa [xorBytes] using hzip

/-- After a whole block the register is that block. -/
theorem register_block {y : List UInt8} (hy : y.length = iv.length) : register iv (C ++ y) = y := by
  rw [register_append hy.le, List.drop_of_length_le (by simp [hy]), List.nil_append]

/-- Decrypting units enciphers the register and all but the last block of the ciphertext. -/
theorem open_units (hiv : iv.length = E.blksize) (m : Nat) {xs : List UInt8}
    (hC : E.blksize ∣ C.length) (hxs : xs.length = m * E.blksize) :
    (trace (openStep (· ^^^ ·) (keyByte E iv E.blksize)) C xs).2 =
      xorBytes (mapBlocks E.blksize E.encrypt m
        (register iv C ++ xs.take ((m - 1) * E.blksize))) xs := by
  induction m generalizing C xs with
  | zero =>
    have hnil : xs = [] := List.eq_nil_of_length_eq_zero (by omega)
    simp [hnil, xorBytes]
  | succ m ih =>
    rw [Nat.add_mul, Nat.one_mul] at hxs
    obtain ⟨x, zs, rfl, hx⟩ : ∃ x zs, xs = x ++ zs ∧ x.length = E.blksize :=
      ⟨xs.take E.blksize, xs.drop E.blksize, (List.take_append_drop _ xs).symm, by simp; omega⟩
    rw [List.length_append, hx] at hxs
    have hC' : E.blksize ∣ (C ++ x).length := by
      rw [List.length_append, hx]
      exact Nat.dvd_add hC (Nat.dvd_refl _)
    have hreg : (register iv C).length = E.blksize := by simp [hiv]
    have henc := E.length_encrypt _ hreg
    have hhist : (trace (openStep (· ^^^ ·) (keyByte E iv E.blksize)) C x).1 = C ++ x :=
      trace_open_history C x
    -- The blocks after the register: this one, and all but the last of the others.
    have hrest : mapBlocks E.blksize E.encrypt m (x ++ zs.take ((m - 1) * E.blksize)) =
        mapBlocks E.blksize E.encrypt m ((x ++ zs).take (m * E.blksize)) := by
      cases m with
      | zero => rfl
      | succ m =>
        have hle : x.length ≤ (m + 1) * E.blksize := by
          rw [hx]
          exact Nat.le_mul_of_pos_left _ (Nat.succ_pos m)
        rw [List.take_append, List.take_of_length_le hle, hx, Nat.add_sub_cancel,
          show (m + 1) * E.blksize - E.blksize = m * E.blksize by
            rw [Nat.add_mul, Nat.one_mul, Nat.add_sub_cancel]]
    rw [trace_append]
    dsimp only
    rw [open_unit hC hiv hx, hhist, ih hC' (by omega), register_block (hx.trans hiv.symm), hrest,
      Nat.add_sub_cancel, mapBlocks_cons hreg, xorBytes_append (by omega)]

end Units

/-! ## Agreement -/

section Fast

variable {E : BlockCipher} {c : Cfb} {n : Nat}

/-- The states in which the fast functions are called: feedback of whole blocks, and no unit
begun. -/
structure Aligned (E : BlockCipher) (c : Cfb) : Prop where
  setup : Setup E E.blksize c
  boff : c.boff = 0
  chunks : c.chunks = modeAlignment / E.blksize

/-- A fast function gives the same bytes as a plain one, and leaves the same offset and
register. Between two units nothing is left to be used in `buf`. -/
def Agrees (E : BlockCipher) (fast : Option (Cfb × Buf UInt8 n))
    (plain : Option (Cfb × List UInt8)) : Prop :=
  ∃ c₁ out c₂ ys reg, fast = some (c₁, out) ∧ plain = some (c₂, ys) ∧ out.toList = ys ∧
    c₁.boff = c₂.boff ∧ c₁.prev.read 0 E.blksize = some reg ∧ c₂.prev.read 0 E.blksize = some reg

/-- The plain functions from an aligned state, on whole blocks. -/
theorem encrypt_aligned (hc : Aligned E c) (hdvd : E.blksize ∣ n) {iv : List UInt8}
    (hiv : iv.length = E.blksize) (hprev : c.prev.Holds 0 iv) (inp : Buf UInt8 n) :
    ∃ c', c.encrypt inp.toList = some (c',
        (trace (sealStep (· ^^^ ·) (keyByte E iv E.blksize)) [] inp.toList).2) ∧
      c'.boff = 0 ∧ c'.prev.read 0 E.blksize = some
        (register iv (trace (sealStep (· ^^^ ·) (keyByte E iv E.blksize)) [] inp.toList).2) := by
  have hfits := hc.setup.fits
  have hafter : After E iv E.blksize c [] := after_nil hc.setup hc.boff hprev
  obtain ⟨c', henc, hafter'⟩ := encrypt_refines hiv (by omega) c [] inp.toList hafter
  rw [trace_seal_history, List.nil_append] at hafter'
  obtain ⟨hboff, hidle⟩ := hafter'.idle (by simpa using hdvd)
  refine ⟨c', henc, hboff, ?_⟩
  have hread := hidle.prev.read
  rwa [length_register, hiv] at hread

theorem decrypt_aligned (hc : Aligned E c) (hdvd : E.blksize ∣ n) {iv : List UInt8}
    (hiv : iv.length = E.blksize) (hprev : c.prev.Holds 0 iv) (inp : Buf UInt8 n) :
    ∃ c', c.decrypt inp.toList = some (c',
        (trace (openStep (· ^^^ ·) (keyByte E iv E.blksize)) [] inp.toList).2) ∧
      c'.boff = 0 ∧ c'.prev.read 0 E.blksize = some (register iv inp.toList) := by
  have hfits := hc.setup.fits
  have hafter : After E iv E.blksize c [] := after_nil hc.setup hc.boff hprev
  obtain ⟨c', hdec, hat⟩ := decrypt_eq (decrypt_ops_refine hiv) (by omega) hc.setup.feedback
    hafter.1 hafter.2 inp.toList
  have hmod : n % E.blksize = 0 := Nat.mod_eq_zero_of_dvd hdvd
  rw [hc.boff] at hdec hat
  simp only [Vector.length_toList, Nat.zero_add, hmod, at_zero] at hdec hat
  refine ⟨_, hdec, by simp [strayOffset, hmod], ?_⟩
  have hread := hat.prev.read
  rw [trace_open_history, List.nil_append, length_register, hiv] at hread
  exact hread

/-- With blocks of 16 bytes, a round is a unit. `C` is the ciphertext so far. -/
theorem groups_spec (hE : E.blksize = 16) {iv : List UInt8} (hiv : iv.length = 16)
    {prev : Buf UInt8 32} {inp : Buf UInt8 n} (rounds : Nat) {pos : Nat} (cur : Cur)
    (buf : Buf UInt8 32) {out : Buf UInt8 n} {C xs : List UInt8} (hpos : C.length = pos)
    (h16 : 16 ∣ pos) (hcur : cur.read prev out 16 = some (register iv C)) (hout : out.Holds 0 C)
    (hxs : xs.length = rounds * 16) (hinp : inp.Holds pos xs) :
    ∃ cur' buf' out', groups E 1 prev inp rounds pos cur buf out = some (cur', buf', out') ∧
      out'.Holds 0 (trace (sealStep (· ^^^ ·) (keyByte E iv E.blksize)) C xs).1 ∧
      cur'.read prev out' 16 =
        some (register iv (trace (sealStep (· ^^^ ·) (keyByte E iv E.blksize)) C xs).1) := by
  induction rounds generalizing pos cur buf out C xs with
  | zero =>
    have hnil : xs = [] := List.eq_nil_of_length_eq_zero (by omega)
    exact ⟨cur, buf, out, rfl, by simpa [hnil] using hout, by simpa [hnil] using hcur⟩
  | succ rounds ih =>
    obtain ⟨x, zs, rfl, hx⟩ : ∃ x zs, xs = x ++ zs ∧ x.length = 16 :=
      ⟨xs.take 16, xs.drop 16, (List.take_append_drop 16 xs).symm, by simp; omega⟩
    have hfits := hinp.1
    rw [List.length_append] at hxs hfits
    have hreg : (register iv C).length = 16 := by simp [hiv]
    have henc := E.length_encrypt _ (hreg.trans hE.symm)
    have hfast : E.fastBlocks 1 = 1 := by
      rw [BlockCipher.fastBlocks, if_neg (by omega)]
    have hmap : mapBlocks 16 E.encrypt 1 (register iv C) = E.encrypt (register iv C) :=
      mapBlocks_one hreg
    have hfit : 0 + (E.encrypt (register iv C)).length ≤ 32 := by omega
    obtain ⟨buf₁, hwrite₁⟩ := Buf.exists_write buf hfit
    obtain ⟨out₁, hxor, hwrite₂⟩ := xorAligned_spec out pos (by decide) (henc.trans hE) hx
      (Buf.holds_write hwrite₁) hinp.left (by omega)
    -- The unit of ciphertext, and the register that it is.
    have hseal : (trace (sealStep (· ^^^ ·) (keyByte E iv E.blksize)) C x).1 =
        C ++ xorBytes (E.encrypt (register iv C)) x := by
      rw [trace_seal_history, seal_unit (by rw [hE, hpos]; exact h16) (hiv.trans hE.symm)
        (hx.trans hE.symm)]
    have hy : (xorBytes (E.encrypt (register iv C)) x).length = 16 := by
      rw [length_xorBytes]
      omega
    have hout₁ : out₁.Holds 0 (C ++ xorBytes (E.encrypt (register iv C)) x) := by
      refine (hout.write_of_disjoint hwrite₂ (Or.inr (by omega))).append ?_
      rw [Nat.zero_add, hpos]
      exact Buf.holds_write hwrite₂
    have hcur₁ : (Cur.out pos).read prev out₁ 16 =
        some (register iv (C ++ xorBytes (E.encrypt (register iv C)) x)) := by
      rw [register_block (hy.trans hiv.symm)]
      have hread := (Buf.holds_write hwrite₂).read
      rwa [hy] at hread
    have hinp₁ : inp.Holds (pos + 16) zs := hx ▸ hinp.right
    obtain ⟨cur₂, buf₂, out₂, hgroups, hout₂, hcur₂⟩ :=
      ih _ buf₁ (by simp [hpos, hy]) (by omega) hcur₁ hout₁ (by omega) hinp₁
    rw [trace_append, hseal]
    refine ⟨cur₂, buf₂, out₂, ?_, hout₂, hcur₂⟩
    simp only [groups, hfast, hE, Nat.one_mul, hcur, hmap, hwrite₁, modeAlignment, hxor,
      Option.bind_eq_bind, Option.bind_some]
    exact hgroups

theorem encryptAgrees_of_16 (hc : Aligned E c) (hE : E.blksize = 16) (h16 : 16 ∣ n)
    (out inp : Buf UInt8 n) : Agrees E (c.encryptfast out inp) (c.encrypt inp.toList) := by
  obtain ⟨iv, hread, hiv, hprev⟩ := Buf.exists_read c.prev 0 16 (by omega)
  have hiv' := hiv.trans hE.symm
  have hlen : inp.toList.length = n / 16 * 16 := by simp; omega
  obtain ⟨cur, buf, out', hgroups, hout, hcur⟩ := groups_spec hE hiv (n / 16) .prev
    c.buf rfl (Nat.dvd_zero _) (by simpa [Cur.read] using hread)
    (Buf.holds_nil (v := out) (Nat.zero_le n)) hlen (Buf.holds_toList inp)
  rw [trace_seal_history, List.nil_append] at hout hcur
  rw [List.length_nil] at hgroups
  obtain ⟨c₂, henc, hboff, hreg⟩ := encrypt_aligned hc (by rwa [hE]) hiv' hprev inp
  obtain ⟨reg, hregEq⟩ : ∃ reg, reg =
    register iv (trace (sealStep (· ^^^ ·) (keyByte E iv E.blksize)) [] inp.toList).2 := ⟨_, rfl⟩
  rw [← hregEq] at hcur hreg
  have hfit : 0 + reg.length ≤ 32 := by rw [hregEq, length_register]; omega
  obtain ⟨prev, hwrite⟩ := Buf.exists_write c.prev hfit
  have hprev' := (Buf.holds_write hwrite).read
  rw [hregEq, length_register, hiv', ← hregEq] at hprev'
  refine ⟨{ c with buf := buf, prev := prev }, out', c₂, _, reg, ?_, henc, ?_,
    hc.boff.trans hboff.symm, hprev', hreg⟩
  · simp [encryptfast, hc.setup.algo, hc.chunks, hE, modeAlignment, hgroups, hcur, hwrite]
  · exact hout.toList (by simp)

/-- One slice is as much as the whole call. -/
theorem slices_of_le {b : Nat} (hb : E.blksize = b) (hbs : b = 8 ∨ b = 16) (h16 : 16 ∣ n)
    (hn : 0 < n) (hle : n ≤ sliceSize) {iv : List UInt8} (hiv : iv.length = b)
    {prev : Buf UInt8 32} (hprev : prev.Holds 0 iv) (buf : Buf UInt8 sliceSize)
    (out inp : Buf UInt8 n) :
    ∃ prev' out', slices E b inp n n 0 prev buf out = some (prev', out') ∧
      prev'.Holds 0 (inp.toList.drop (n - b)) ∧
      out'.toList = xorBytes (mapBlocks b E.encrypt (n / b)
        (iv ++ inp.toList.take (n - b))) inp.toList := by
  obtain ⟨m, rfl⟩ : ∃ m, n = m + 1 := ⟨n - 1, by omega⟩
  have hlen : inp.toList.length = m + 1 := by simp
  have hble : b ≤ m + 1 := by omega
  have hsize : sliceSize = 4096 := rfl
  have hsub : subSize (m + 1) b = m + 1 - b := subSize_of_le hble (by omega)
  have htake : (inp.toList.take (m + 1 - b)).length = m + 1 - b := by simp
  have hdrop : (inp.toList.drop (m + 1 - b)).length = b := by simp; omega
  have hinp := Buf.holds_toList inp
  have hsplit : inp.Holds 0 (inp.toList.take (m + 1 - b) ++ inp.toList.drop (m + 1 - b)) := by
    rw [List.take_append_drop]
    exact hinp
  have hfirst := hprev.read
  have hrest := hsplit.left.read
  have hlast := hsplit.right.read
  rw [hiv] at hfirst
  rw [htake] at hrest hlast
  rw [hdrop] at hlast
  -- The slice: the register, and the ciphertext apart from its last block.
  have hfit₁ : 0 + iv.length ≤ sliceSize := by omega
  obtain ⟨buf₁, hwrite₁⟩ := Buf.exists_write buf hfit₁
  have hfit₂ : b + (inp.toList.take (m + 1 - b)).length ≤ sliceSize := by omega
  obtain ⟨buf₂, hwrite₂⟩ := Buf.exists_write buf₁ hfit₂
  have hbuf₂ : buf₂.Holds 0 (iv ++ inp.toList.take (m + 1 - b)) := by
    refine ((Buf.holds_write hwrite₁).write_of_disjoint hwrite₂ (Or.inr (by omega))).append ?_
    rw [Nat.zero_add, hiv]
    exact Buf.holds_write hwrite₂
  have hfit₃ : 0 + (inp.toList.drop (m + 1 - b)).length ≤ 32 := by omega
  obtain ⟨prev', hwrite₃⟩ := Buf.exists_write prev hfit₃
  have hcount : E.fastBlocks ((m + 1) / b) = (m + 1) / b := by
    rw [BlockCipher.fastBlocks, hb]
    rcases hbs with rfl | rfl
    · rw [if_pos rfl]
      omega
    · rw [if_neg (by omega)]
  have hblocks : (m + 1) / b * b = m + 1 := by
    refine Nat.div_mul_cancel ?_
    rcases hbs with rfl | rfl <;> omega
  have hslice : (iv ++ inp.toList.take (m + 1 - b)).length = m + 1 := by
    rw [List.length_append, htake, hiv]
    omega
  obtain ⟨buf₃, henc, hwrite₄⟩ := BlockCipher.encryptfast_spec (E := E) (n := (m + 1) / b) buf₂ 0
    (by rw [hcount, hb, hblocks, hslice]) hbuf₂ (by omega)
  rw [hcount, hb] at hwrite₄
  have hmap : (mapBlocks b E.encrypt ((m + 1) / b) (iv ++ inp.toList.take (m + 1 - b))).length =
      m + 1 := by
    rw [← hb, length_mapBlocks E.length_encrypt (by rw [hb, hblocks, hslice]), hb, hblocks]
  obtain ⟨out', hxor, hwrite₅⟩ :=
    xorAligned_spec out 0 h16 hmap hlen (Buf.holds_write hwrite₄) hinp (by omega)
  refine ⟨prev', out', ?_, Buf.holds_write hwrite₃, (Buf.holds_write hwrite₅).toList ?_⟩
  · have hmin : min sliceSize (m + 1) = m + 1 := by omega
    rw [Nat.zero_add] at hlast
    simp only [slices, Nat.succ_ne_zero, if_false, hmin, hfirst, hsub, hrest, hwrite₁, hwrite₂,
      Nat.zero_add, hlast, hwrite₃, henc, hxor, Option.bind_eq_bind, Option.bind_some, Nat.sub_self]
    cases m <;> simp [slices]
  · rw [length_xorBytes, hmap, hlen, Nat.min_self]

/-- With more than one slice, the first one is combined with bytes past its end. -/
theorem slices_none (h16 : 16 ∣ n) (hlt : sliceSize < n) (b : Nat) (prev : Buf UInt8 32)
    (buf : Buf UInt8 sliceSize) (out inp : Buf UInt8 n) :
    slices E b inp n n 0 prev buf out = none := by
  obtain ⟨m, rfl⟩ : ∃ m, n = m + 1 := ⟨n - 1, by omega⟩
  have hxor : ∀ buf : Buf UInt8 sliceSize, xorAligned out 0 buf 0 inp 0 (m + 1) = none := by
    intro buf
    exact xorAligned_none out 0 (by rw [Nat.div_mul_cancel h16]; omega)
  rw [slices, if_neg (by omega)]
  simp only [hxor, Option.bind_eq_bind, Option.bind_none, Option.bind_fun_none]

theorem decryptAgrees_iff (hc : Aligned E c) (hbs : E.blksize = 8 ∨ E.blksize = 16) (h16 : 16 ∣ n)
    (hn : 0 < n) (buf : Buf UInt8 sliceSize) (out inp : Buf UInt8 n) :
    Agrees E (c.decryptfast buf out inp) (c.decrypt inp.toList) ↔ n ≤ sliceSize := by
  constructor
  · rintro ⟨c₁, out', -, -, -, hfast, -⟩
    by_contra hlt
    have hnone : c.decryptfast buf out inp = none := by
      simp [decryptfast, slices_none h16 (Nat.lt_of_not_le hlt), Option.bind_fun_none]
    rw [hnone] at hfast
    cases hfast
  · intro hle
    have hfits := hc.setup.fits
    have hdvd : E.blksize ∣ n := by rcases hbs with h | h <;> rw [h] <;> omega
    have hbn : E.blksize ≤ n := Nat.le_of_dvd hn hdvd
    obtain ⟨iv, -, hiv, hprev⟩ := Buf.exists_read c.prev 0 E.blksize (by omega)
    obtain ⟨prev, out', hslices, hprev', hout⟩ :=
      slices_of_le rfl hbs h16 hn hle hiv hprev buf out inp
    obtain ⟨c₂, hdec, hboff, hreg⟩ := decrypt_aligned hc hdvd hiv hprev inp
    have hregister : register iv inp.toList = inp.toList.drop (n - E.blksize) := by
      rw [register, Vector.length_toList, List.drop_append, hiv, List.drop_of_length_le (by omega),
        List.nil_append]
    rw [hregister] at hreg
    have hread := hprev'.read
    rw [List.length_drop, Vector.length_toList, Nat.sub_sub_self hbn] at hread
    refine ⟨{ c with prev := prev }, out', c₂, _, _, ?_, hdec, ?_, hc.boff.trans hboff.symm, hread,
      hreg⟩
    · simp [decryptfast, hc.setup.algo, hc.setup.blksize, hslices]
    · rw [hout, open_units hiv (n / E.blksize) (by simp) (by simp [Nat.div_mul_cancel hdvd]),
        register_nil, Nat.sub_mul, Nat.one_mul, Nat.div_mul_cancel hdvd]

/-! ## Blocks of eight bytes -/

/-- Later rounds leave the output of earlier ones alone. -/
theorem groups_keeps {chunks : Nat} {prev : Buf UInt8 32} {inp : Buf UInt8 n} (rounds : Nat)
    {pos : Nat} {cur cur' : Cur} {buf buf' : Buf UInt8 32} {out out' : Buf UInt8 n}
    {ys : List UInt8} (hout : out.Holds 0 ys) (hys : ys.length ≤ pos)
    (h : groups E chunks prev inp rounds pos cur buf out = some (cur', buf', out')) :
    out'.Holds 0 ys := by
  induction rounds generalizing pos cur buf out with
  | zero =>
    cases h
    exact hout
  | succ rounds ih =>
    simp only [groups, Option.bind_eq_bind, Option.bind_eq_some_iff, xorAligned] at h
    obtain ⟨blocks, -, buf₁, -, out₁, ⟨xs, -, zs, -, hwrite⟩, hrest⟩ := h
    exact ih (hout.write_of_disjoint hwrite (Or.inr (by omega))) (by omega) hrest

/-- The first round enciphers the first 16 bytes of the register. -/
theorem encryptfast_first (hE : E.blksize = 8) (hc : Aligned E c) {b₀ b₁ : List UInt8}
    (x zs : List UInt8)
    (hb₀ : b₀.length = 8) (hb₁ : b₁.length = 8) (hprev : c.prev.Holds 0 (b₀ ++ b₁))
    {out inp out' : Buf UInt8 n} {c' : Cfb} (hx : x.length = 16) (hinp : inp.toList = x ++ zs)
    (h : c.encryptfast out inp = some (c', out')) :
    out'.Holds 0 (xorBytes (E.encrypt b₀ ++ E.encrypt b₁) x) := by
  have hlen : n = 16 + zs.length := by
    have hlength := congrArg List.length hinp
    rwa [Vector.length_toList, List.length_append, hx] at hlength
  obtain ⟨m, hm⟩ : ∃ m, n / 16 = m + 1 := ⟨n / 16 - 1, by omega⟩
  have hb₀' := E.length_encrypt b₀ (hb₀.trans hE.symm)
  have hb₁' := E.length_encrypt b₁ (hb₁.trans hE.symm)
  have hblocks : (E.encrypt b₀ ++ E.encrypt b₁).length = 16 := by
    rw [List.length_append]
    omega
  have hread : (Cur.prev).read c.prev out 16 = some (b₀ ++ b₁) := by
    have hread := hprev.read
    rwa [List.length_append, hb₀, hb₁] at hread
  have hfit : 0 + (E.encrypt b₀ ++ E.encrypt b₁).length ≤ 32 := by omega
  obtain ⟨buf₁, hwrite₁⟩ := Buf.exists_write c.buf hfit
  have hx' : inp.Holds 0 x := Buf.Holds.left (hinp ▸ Buf.holds_toList inp)
  obtain ⟨out₁, hxor, hwrite₂⟩ :=
    xorAligned_spec out 0 (by decide) hblocks hx (Buf.holds_write hwrite₁) hx' (by omega)
  have hfast : E.fastBlocks 2 = 2 := by simp [BlockCipher.fastBlocks, hE]
  simp only [encryptfast, hc.setup.algo, hc.chunks, hE, modeAlignment, hm, groups, hfast, hread,
    mapBlocks_two hb₀ hb₁, hwrite₁, hxor, Option.bind_eq_bind, Option.bind_some, Nat.reduceDiv,
    Nat.reduceMul, Option.bind_eq_some_iff] at h
  obtain ⟨⟨cur, buf, out₂⟩, hgroups, last, -, prev, -, he⟩ := h
  cases he
  refine groups_keeps m (Buf.holds_write hwrite₂) ?_ hgroups
  rw [length_xorBytes]
  omega

/-- Its second block is the encryption of bytes that are not ciphertext. -/
theorem not_encryptAgrees_of_8 (hinv : E.Inverts) (hE : E.blksize = 8) (hc : Aligned E c)
    (h16 : 16 ∣ n) (hn : 0 < n) (b₀ b₁ : List UInt8) (hb₀ : b₀.length = 8) (hb₁ : b₁.length = 8)
    (hprev : c.prev.Holds 0 (b₀ ++ b₁)) (out inp : Buf UInt8 n)
    (hne : xorBytes (E.encrypt b₀) (inp.toList.take 8) ≠ b₁) :
    ¬Agrees E (c.encryptfast out inp) (c.encrypt inp.toList) := by
  rintro ⟨c₁, out', c₂, ys, -, hfast, henc, hout, -⟩
  obtain ⟨x₀, x₁, zs, hsplit, hx₀, hx₁⟩ : ∃ x₀ x₁ zs, inp.toList = x₀ ++ (x₁ ++ zs) ∧
      x₀.length = 8 ∧ x₁.length = 8 := by
    refine ⟨inp.toList.take 8, (inp.toList.drop 8).take 8, inp.toList.drop 16, ?_, ?_, ?_⟩
    · rw [← List.drop_drop (i := 8) (j := 8), List.take_append_drop, List.take_append_drop]
    · simp; omega
    · simp; omega
  rw [hsplit, ← hx₀, List.take_left] at hne
  have hb₀' := hb₀.trans hE.symm
  have hb₁' := hb₁.trans hE.symm
  have henc₀ := E.length_encrypt b₀ hb₀'
  have hy₀ : (xorBytes (E.encrypt b₀) x₀).length = 8 := by rw [length_xorBytes]; omega
  -- The first round of the fast function.
  have hround := encryptfast_first hE hc (x₀ ++ x₁) zs hb₀ hb₁ hprev
    (by simp [hx₀, hx₁]) (by rw [hsplit, List.append_assoc]) hfast
  rw [xorBytes_append (by omega)] at hround
  -- The first two units of the plain function.
  obtain ⟨c₂', henc', -⟩ := encrypt_aligned hc (by rw [hE]; omega) hb₀' hprev.left inp
  rw [henc'] at henc
  cases henc
  have hunit₀ := seal_unit (C := []) (by simp) hb₀' (hx₀.trans hE.symm)
  rw [register_nil] at hunit₀
  have hhist : (trace (sealStep (· ^^^ ·) (keyByte E b₀ E.blksize)) [] x₀).1 =
      xorBytes (E.encrypt b₀) x₀ := by
    rw [trace_seal_history, hunit₀, List.nil_append]
  have hunit₁ := seal_unit (C := xorBytes (E.encrypt b₀) x₀) (by rw [hE, hy₀]) hb₀'
    (hx₁.trans hE.symm)
  have hreg : register b₀ (xorBytes (E.encrypt b₀) x₀) = xorBytes (E.encrypt b₀) x₀ :=
    register_block (C := []) (hy₀.trans hb₀.symm)
  rw [hreg] at hunit₁
  rw [hsplit, trace_append] at hout
  dsimp only at hout
  rw [hunit₀, hhist, trace_append] at hout
  dsimp only at hout
  rw [hunit₁, ← List.append_assoc] at hout
  have hplain := (hout ▸ Buf.holds_toList out').left
  have henc₁ := E.length_encrypt b₁ hb₁'
  have henc₂ := E.length_encrypt _ (hy₀.trans hE.symm)
  have hsecond := (List.append_inj (hround.unique hplain (by simp; omega)) rfl).2
  have henc := xorBytes_left_inj (by omega) (by omega) hsecond
  exact hne (hinv.inj hb₁' (hy₀.trans hE.symm) henc).symm

theorem aligned_setblock (mem : Cfb) (ivMem : List UInt8) (hE : E.blksize = 8 ∨ E.blksize = 16) :
    Aligned E ((init mem [("feedbackBits", E.blksize * 8)]).setblock (some ivMem) (some E)).1 := by
  obtain ⟨halgo, hblk, hfb, hboff, -⟩ := setblock_spec mem ivMem E.blksize_pos E
  refine ⟨⟨halgo, hblk, hfb, E.blksize_pos, le_rfl, by omega⟩, hboff, ?_⟩
  have hinit : (init mem [("feedbackBits", E.blksize * 8)]).feedback = E.blksize := by simp [init]
  have hne : E.blksize ≠ 0 := by omega
  unfold setblock
  dsimp only
  rw [hinit, if_neg hne, if_pos ⟨rfl, hE⟩]

theorem setblock_prev (mem : Cfb) (params : List (String × Nat)) (ivMem : List UInt8)
    (E : BlockCipher) :
    ((init mem params).setblock (some ivMem) (some E)).1.prev = mem.prev := by
  unfold setblock
  dsimp only
  split <;> split <;> rfl

/-- Whatever the memory of a context was, and whatever the message, some vector tells the two
functions apart. -/
theorem encrypt_fails (hinv : E.Inverts) (hE : E.blksize = 8) (h16 : 16 ∣ n) (hn : 0 < n) (mem : Cfb)
    {ivMem : List UInt8} (hmem : ivMem.length = 8) (inp : Buf UInt8 n) :
    ∃ iv c, iv.length = 8 ∧ fresh mem ivMem E.blksize E iv = some (c, 0) ∧ Aligned E c ∧
      ∀ out, ¬Agrees E (c.encryptfast out inp) (c.encrypt inp.toList) := by
  obtain ⟨b₁, -, hb₁, hprev⟩ := Buf.exists_read mem.prev 8 8 (by omega)
  have hx : (inp.toList.take 8).length = 8 := by simp; omega
  -- Two vectors have two first blocks of ciphertext, and one of them is not in the memory.
  obtain ⟨iv, hiv, hne⟩ : ∃ iv : List UInt8, iv.length = 8 ∧
      xorBytes (E.encrypt iv) (inp.toList.take 8) ≠ b₁ := by
    have hlen₀ := E.length_encrypt (List.replicate 8 0) (by simp [hE])
    have hlen₁ := E.length_encrypt (List.replicate 8 1) (by simp [hE])
    by_cases h0 : xorBytes (E.encrypt (List.replicate 8 0)) (inp.toList.take 8) = b₁
    · refine ⟨List.replicate 8 1, rfl, fun h1 => ?_⟩
      have henc := xorBytes_left_inj (by omega) (by omega) (h0.trans h1.symm)
      have h01 := hinv.inj (by simp [hE]) (by simp [hE]) henc
      exact absurd h01 (by decide)
    · exact ⟨List.replicate 8 0, rfl, h0⟩
  obtain ⟨-, hblk, -, -, hold⟩ := setblock_spec mem ivMem E.blksize_pos E
  obtain ⟨prev, buf, hset, hwrite, -⟩ :=
    setiv_spec hblk (hiv.trans hE.symm) (by omega) hold (hmem.trans hE.symm)
  have hc := aligned_setblock mem ivMem (Or.inl hE)
  have hS := hc.setup
  refine ⟨iv, _, hiv, hset, ⟨⟨hS.algo, hS.blksize, hS.feedback, hS.pos, hS.le, hS.fits⟩, hc.boff,
    hc.chunks⟩, fun out => ?_⟩
  refine not_encryptAgrees_of_8 hinv hE ?_ h16 hn iv b₁ hiv hb₁ ?_ out inp hne
  · exact ⟨⟨hS.algo, hS.blksize, hS.feedback, hS.pos, hS.le, hS.fits⟩, hc.boff, hc.chunks⟩
  · refine (Buf.holds_write hwrite).append ?_
    rw [Nat.zero_add, hiv]
    refine Buf.Holds.write_of_disjoint ?_ hwrite (Or.inl (by omega))
    rw [setblock_prev]
    exact hprev

/-- For blocks of `bs` bytes and calls of `n` bytes, both fast functions agree with the plain
ones, with every cipher and in every aligned state, exactly when blocks have 16 bytes and
the call fits in one slice. -/
theorem cfb_fast_iff (bs n : Nat) (hbs : bs = 8 ∨ bs = 16) (h16 : 16 ∣ n) (hn : 0 < n) :
    (∀ (E : BlockCipher) (c : Cfb) (buf : Buf UInt8 sliceSize) (out inp : Buf UInt8 n),
      E.blksize = bs → Aligned E c →
      Agrees E (c.encryptfast out inp) (c.encrypt inp.toList) ∧
        Agrees E (c.decryptfast buf out inp) (c.decrypt inp.toList)) ↔
    bs = 16 ∧ n ≤ sliceSize := by
  constructor
  · intro h
    have hbs' : bs = 16 := by
      by_contra hne
      obtain rfl : bs = 8 := by omega
      obtain ⟨iv, c, -, -, hc, hfails⟩ := encrypt_fails (BlockCipher.identity_inverts 7) rfl h16 hn
        cleared (List.length_replicate (n := 8) (a := 0)) (Vector.replicate n 0)
      exact hfails (Vector.replicate n 0) (h _ c (Vector.replicate _ 0) _ _ rfl hc).1
    subst hbs'
    have hc := aligned_setblock (E := BlockCipher.identity 15) cleared (List.replicate 16 0)
      (Or.inr rfl)
    have hdec := (h _ _ (Vector.replicate _ 0) (Vector.replicate n 0) (Vector.replicate n 0) rfl hc).2
    exact ⟨rfl, (decryptAgrees_iff hc (Or.inr rfl) h16 hn _ _ _).mp hdec⟩
  · rintro ⟨rfl, hle⟩ E c buf out inp hE hc
    exact ⟨encryptAgrees_of_16 hc hE h16 out inp,
      (decryptAgrees_iff hc (Or.inr hE) h16 hn buf out inp).mpr hle⟩

/-- The context of a cipher with blocks of eight bytes after the vector of eight ones, in
memory that was cleared. -/
def eightOnes : Cfb where
  functbl := .fast
  feedback := 8
  algo := some (BlockCipher.identity 7)
  buf := Buf.ofList (List.replicate 8 1 ++ List.replicate 24 0) rfl
  prev := Buf.ofList (List.replicate 8 1 ++ List.replicate 24 0) rfl
  iv := some (List.replicate 8 1)
  blksize := 8
  boff := 0
  chunks := 2

theorem eightOnes_aligned : Aligned (BlockCipher.identity 7) eightOnes :=
  ⟨⟨rfl, rfl, rfl, by decide, by decide, by decide⟩, rfl, rfl⟩

theorem cfb_fast_eightOnes :
    ¬Agrees (BlockCipher.identity 7) (eightOnes.encryptfast (Vector.replicate 16 0)
      (Vector.replicate 16 0)) (eightOnes.encrypt (Vector.replicate 16 0).toList) :=
  not_encryptAgrees_of_8 (BlockCipher.identity_inverts 7) rfl eightOnes_aligned (by decide)
    (by decide) (List.replicate 8 1) (List.replicate 8 0) rfl rfl ⟨by decide, by decide⟩ _ _
    (by decide)

theorem cfb_fast_iff_sixteen :
    (∀ (E : BlockCipher) (c : Cfb) (buf : Buf UInt8 sliceSize) (out inp : Buf UInt8 32),
      E.blksize = 16 → Aligned E c →
      Agrees E (c.encryptfast out inp) (c.encrypt inp.toList) ∧
        Agrees E (c.decryptfast buf out inp) (c.decrypt inp.toList)) ↔
    16 = 16 ∧ 32 ≤ sliceSize :=
  cfb_fast_iff 16 32 (Or.inr rfl) (by decide) (by decide)

end Fast

end Drew.Mode.Cfb
