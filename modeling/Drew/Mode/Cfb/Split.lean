import Drew.Mode.Cfb.Bytes
import Mathlib.Data.List.SplitLengths

/-!
# Cipher feedback mode: which ways of cutting the ciphertext work

Decryption undoes encryption for every way of cutting the message, but not for every way
of cutting the ciphertext, because of the offset that `cfb_decrypt` leaves. `SplitOk` says
for which lengths of the pieces it does, and `cfb_roundTrip_iff` that it does for no others.

What goes wrong is seen with a cipher that encrypts every block to the same bytes, all of
them different (`counting`). There the output of a call only depends on the offset, so a
wrong offset shows in the first byte of the next piece.
-/

namespace Drew.Mode.Cfb

open Drew.Memory Drew.Block Drew.Stream

/-! ## Offsets -/

/-- A piece of `n` bytes from the offset `o` is followed by the right offset. -/
def Keeps (f o n : Nat) : Prop :=
  o = 0 ∨ n = 0 ∨ f ≤ o + n ∧ (2 * o = f ∨ (o + n) % f ≠ 0)

/-- A piece of `n` bytes from the offset `o` is followed by an offset within a unit. -/
def StaysIn (f o n : Nat) : Prop := o + n < f ∧ n ≤ o ∨ f ≤ o + n ∧ f ≤ 2 * o

/-- Every piece is followed by the right offset, or else by one within a unit and by empty
pieces only. -/
def SplitOk (f : Nat) : Nat → List Nat → Prop
  | _, [] => True
  | o, n :: ns =>
      Keeps f o n ∧ SplitOk f ((o + n) % f) ns ∨ StaysIn f o n ∧ ∀ m ∈ ns, m = 0

instance decidableKeeps (f o n : Nat) : Decidable (Keeps f o n) := by
  unfold Keeps
  infer_instance

instance decidableSplitOk (f : Nat) : (o : Nat) → (ns : List Nat) → Decidable (SplitOk f o ns)
  | _, [] => .isTrue trivial
  | o, n :: ns => by
      have := decidableSplitOk f ((o + n) % f) ns
      unfold SplitOk StaysIn
      infer_instance

/-- The offset is within a unit before every piece, and right before every piece that is
not empty. `w` is the offset of the context and `p` the right one. -/
def OffsetsOk (f : Nat) : Nat → Nat → List Nat → Prop
  | w, _, [] => w < f
  | w, p, n :: ns => w < f ∧ (n ≠ 0 → w = p) ∧ OffsetsOk f (strayOffset f w n) ((p + n) % f) ns

section Offsets

variable {f o n w p : Nat} {ns : List Nat}

theorem strayOffset_eq_iff (hf : f < 2 ^ 63) (ho : o < f) :
    strayOffset f o n = (o + n) % f ↔ Keeps f o n := by
  unfold strayOffset Keeps
  by_cases h0 : o = 0
  · simp [h0]
  rw [if_neg h0]
  by_cases hshort : n < f - o
  · rw [if_pos hshort, Nat.mod_eq_of_lt (by omega)]
    by_cases hno : n ≤ o
    · rw [subSize_of_le hno (by omega)]
      omega
    · rw [subSize_of_lt (by omega) (by omega)]
      omega
  · rw [if_neg hshort]
    split
    · by_cases hfo : f - o ≤ o
      · rw [subSize_of_le hfo (by omega)]
        omega
      · rw [subSize_of_lt (by omega) (by omega)]
        omega
    · rename_i hmod
      simp [h0, hmod]
      omega

theorem strayOffset_lt_iff (hf : f < 2 ^ 63) (ho : o < f) (h : ¬Keeps f o n) :
    strayOffset f o n < f ↔ StaysIn f o n := by
  unfold Keeps at h
  unfold strayOffset StaysIn
  push Not at h
  obtain ⟨h0, hn, hlast⟩ := h
  rw [if_neg h0]
  by_cases hshort : n < f - o
  · rw [if_pos hshort]
    by_cases hno : n ≤ o
    · rw [subSize_of_le hno (by omega)]
      omega
    · rw [subSize_of_lt (by omega) (by omega)]
      omega
  · rw [if_neg hshort, if_pos (hlast (by omega)).2]
    by_cases hfo : f - o ≤ o
    · rw [subSize_of_le hfo (by omega)]
      omega
    · rw [subSize_of_lt (by omega) (by omega)]
      omega

theorem strayOffset_zero (hf : f < 2 ^ 63) (hw : w < f) : strayOffset f w 0 = w := by
  rw [(strayOffset_eq_iff hf hw).mpr (Or.inr (Or.inl rfl)), Nat.add_zero, Nat.mod_eq_of_lt hw]

/-- From a wrong offset only empty pieces can follow. -/
theorem offsetsOk_of_ne (hf : f < 2 ^ 63) (hp : p < f) (hne : w ≠ p) :
    OffsetsOk f w p ns ↔ w < f ∧ ∀ m ∈ ns, m = 0 := by
  induction ns with
  | nil => simp [OffsetsOk]
  | cons n ns ih =>
    rw [OffsetsOk]
    constructor
    · rintro ⟨hw, hn, hrest⟩
      have hn0 : n = 0 := by
        by_contra h
        exact hne (hn h)
      subst hn0
      rw [strayOffset_zero hf hw, Nat.add_zero, Nat.mod_eq_of_lt hp, ih] at hrest
      exact ⟨hw, by simpa using hrest.2⟩
    · rintro ⟨hw, hall⟩
      have hn0 : n = 0 := hall n (by simp)
      subst hn0
      rw [strayOffset_zero hf hw, Nat.add_zero, Nat.mod_eq_of_lt hp, ih]
      exact ⟨hw, fun h => absurd rfl h, hw, fun m hm => hall m (by simp [hm])⟩

theorem splitOk_of_empty (ho : o < f) (h : ∀ m ∈ ns, m = 0) : SplitOk f o ns := by
  induction ns with
  | nil => trivial
  | cons n ns ih =>
    have hn0 : n = 0 := h n (by simp)
    subst hn0
    refine Or.inl ⟨Or.inr (Or.inl rfl), ?_⟩
    rw [Nat.add_zero, Nat.mod_eq_of_lt ho]
    exact ih fun m hm => h m (by simp [hm])

theorem offsetsOk_iff (hf : f < 2 ^ 63) (hp : p < f) : OffsetsOk f p p ns ↔ SplitOk f p ns := by
  induction ns generalizing p with
  | nil => simpa [OffsetsOk, SplitOk] using hp
  | cons n ns ih =>
    have hp' : (p + n) % f < f := Nat.mod_lt _ (by omega)
    rw [OffsetsOk, SplitOk]
    by_cases hk : Keeps f p n
    · rw [(strayOffset_eq_iff hf hp).mpr hk, ih hp']
      constructor
      · rintro ⟨-, -, h⟩
        exact Or.inl ⟨hk, h⟩
      · rintro (⟨-, h⟩ | ⟨-, h⟩)
        · exact ⟨hp, fun _ => rfl, h⟩
        · exact ⟨hp, fun _ => rfl, splitOk_of_empty hp' h⟩
    · have hne : strayOffset f p n ≠ (p + n) % f := fun h => hk ((strayOffset_eq_iff hf hp).mp h)
      rw [offsetsOk_of_ne hf hp' hne, strayOffset_lt_iff hf hp hk]
      constructor
      · rintro ⟨-, -, h⟩
        exact Or.inr h
      · rintro (⟨h, -⟩ | h)
        · exact absurd h hk
        · exact ⟨hp, fun _ => rfl, h⟩

end Offsets

/-! ## Runs of calls -/

section Runs

variable {E : BlockCipher} {iv C : List UInt8} {f p : Nat} {c : Cfb}

/-- The offset is within a unit before and after every call. -/
def OffsetsIn (f : Nat) (call : Cfb → List UInt8 → Option (Cfb × List UInt8)) (c : Cfb)
    (pieces : List (List UInt8)) : Prop :=
  ∀ k c' outs, run call c (pieces.take k) = some (c', outs) → c'.boff < f

theorem OffsetsIn.head {call : Cfb → List UInt8 → Option (Cfb × List UInt8)}
    {pieces : List (List UInt8)} (h : OffsetsIn f call c pieces) : c.boff < f :=
  h 0 c [] (by simp)

theorem offsetsIn_cons {call : Cfb → List UInt8 → Option (Cfb × List UInt8)} {c' : Cfb}
    {piece out : List UInt8} {pieces : List (List UInt8)} (hcall : call c piece = some (c', out)) :
    OffsetsIn f call c (piece :: pieces) ↔ c.boff < f ∧ OffsetsIn f call c' pieces := by
  constructor
  · intro h
    refine ⟨h.head, fun k d outs hrun => h (k + 1) d (out :: outs) ?_⟩
    rw [List.take_succ_cons, run_cons_some _ hcall, hrun]
    rfl
  · rintro ⟨h0, h⟩ k d outs hrun
    cases k with
    | zero =>
      cases hrun
      exact h0
    | succ k =>
      rw [List.take_succ_cons, run_cons_some _ hcall, Option.map_eq_some_iff] at hrun
      obtain ⟨r, hr, he⟩ := hrun
      cases he
      exact h k _ _ hr

theorem decrypt_nil (hc : c.boff < 2 ^ 64) : c.decrypt [] = some (c, []) := by
  have hsub : subSize c.boff 0 = c.boff := by rw [subSize_of_le (Nat.zero_le _) hc, Nat.sub_zero]
  by_cases h0 : c.boff = 0
  · simp [decrypt, decryptHead, h0, UnitOps.wholes, UnitOps.tail]
    rw [← h0]
  · simp [decrypt, decryptHead, h0, loop, hsub, UnitOps.wholes, UnitOps.tail]

/-- A run of `cfb_decrypt` from a state that is right apart from the offset. -/
theorem run_decrypt (hiv : iv.length = E.blksize) (hf : f < 2 ^ 63) (pieces : List (List UInt8))
    (hp : p < f) (h : At f (Idle E iv f) (Mid E iv f) c p C)
    (hok : OffsetsOk f c.boff p (pieces.map List.length)) :
    ∃ d outs, run decrypt c pieces = some (d, outs) ∧
      outs.flatten = (trace (openStep (· ^^^ ·) (keyByte E iv f)) C pieces.flatten).2 ∧
      OffsetsIn f decrypt c pieces := by
  induction pieces generalizing c p C with
  | nil =>
    refine ⟨c, [], rfl, rfl, fun k c' outs hrun => ?_⟩
    rw [List.take_nil] at hrun
    cases hrun
    exact hok
  | cons piece pieces ih =>
    rw [List.map_cons, OffsetsOk] at hok
    obtain ⟨hlt, hright, hok⟩ := hok
    by_cases hoff : c.boff = p
    · rw [← hoff] at h
      obtain ⟨c', hcall, hAt⟩ :=
        decrypt_eq (decrypt_ops_refine hiv) (by omega) (at_setup h).feedback hlt h piece
      rw [hoff] at hAt hok hcall
      obtain ⟨d, outs, hrun, hflat, hin⟩ := ih (c := { c' with boff := strayOffset f p piece.length })
        (Nat.mod_lt _ (by omega)) (hAt.imp idle_boff mid_boff) hok
      refine ⟨d, (trace (openStep (· ^^^ ·) (keyByte E iv f)) C piece).2 :: outs, ?_, ?_,
        (offsetsIn_cons hcall).mpr ⟨hlt, hin⟩⟩
      · rw [run_cons_some _ hcall, hrun]
        rfl
      · rw [List.flatten_cons, List.flatten_cons, trace_append, hflat]
    · have hnil : piece = [] := by
        by_contra hne
        exact hoff (hright (by simpa using hne))
      subst hnil
      rw [List.length_nil, strayOffset_zero hf hlt, Nat.add_zero, Nat.mod_eq_of_lt hp] at hok
      have hcall := decrypt_nil (c := c) (by omega)
      obtain ⟨d, outs, hrun, hflat, hin⟩ := ih hp h hok
      refine ⟨d, [] :: outs, ?_, by simpa using hflat, (offsetsIn_cons hcall).mpr ⟨hlt, hin⟩⟩
      rw [run_cons_some _ hcall, hrun]
      rfl

theorem run_encrypt (hiv : iv.length = E.blksize) (hf : f < 2 ^ 63) (pieces : List (List UInt8))
    (h : After E iv f c C) :
    ∃ d outs, run encrypt c pieces = some (d, outs) ∧
      outs.flatten = (trace (sealStep (· ^^^ ·) (keyByte E iv f)) C pieces.flatten).2 ∧
      OffsetsIn f encrypt c pieces := by
  obtain ⟨d, outs, hrun, hflat, -⟩ := run_calls (encrypt_refines hiv (by omega)) h pieces
  refine ⟨d, outs, hrun, hflat, fun k c' outs' hrun' => ?_⟩
  obtain ⟨e, outs'', hrun'', hafter⟩ := run_calls_take (encrypt_refines hiv (by omega)) h pieces k
  rw [hrun''] at hrun'
  cases hrun'
  exact hafter.1

end Runs

/-! ## Contexts after a vector -/

section Fresh

variable {E : BlockCipher} {iv : List UInt8} {f : Nat} {c : Cfb}

theorem setiv_spec {old : List UInt8} (hblk : c.blksize = E.blksize) (hiv : iv.length = E.blksize)
    (hsize : E.blksize ≤ 32) (hold : c.iv = some old) (hlen : old.length = E.blksize) :
    ∃ prev buf, c.setiv iv = some ({ c with prev := prev, buf := buf, iv := some iv }, 0) ∧
      c.prev.write 0 iv = some prev ∧ c.buf.write 0 iv = some buf := by
  have hfit : 0 + iv.length ≤ 32 := by omega
  obtain ⟨prev, hprev⟩ := Buf.exists_write c.prev hfit
  obtain ⟨buf, hbuf⟩ := Buf.exists_write c.buf hfit
  refine ⟨prev, buf, ?_, hprev, hbuf⟩
  have hdrop : old.drop E.blksize = [] := List.drop_eq_nil_of_le (by omega)
  simp [setiv, hblk, hiv, hprev, hbuf, hold, hlen, hdrop]

theorem setiv_none (hblk : c.blksize = iv.length) (hsize : 32 < iv.length) :
    c.setiv iv = none := by
  have hwrite : c.prev.write 0 iv = none := by
    rw [Buf.write, dif_neg (by omega)]
  simp [setiv, hblk, hwrite]

/-- The context with the cipher, apart from the vector. -/
theorem setblock_spec (mem : Cfb) (ivMem : List UInt8) (hf : 0 < f) (E : BlockCipher) :
    let c := ((init mem [("feedbackBits", f * 8)]).setblock (some ivMem) (some E)).1
    c.algo = some E ∧ c.blksize = E.blksize ∧ c.feedback = f ∧ c.boff = 0 ∧ c.iv = some ivMem := by
  have hne : f ≠ 0 := by omega
  have hinit : (init mem [("feedbackBits", f * 8)]).feedback = f := by simp [init]
  unfold setblock
  dsimp only
  rw [hinit, if_neg hne]
  split <;> exact ⟨rfl, rfl, rfl, rfl, rfl⟩

theorem after_nil (hS : Setup E f c) (hboff : c.boff = 0) (hprev : c.prev.Holds 0 iv) :
    After E iv f c [] := by
  refine ⟨by rw [hboff]; exact hS.pos, ?_⟩
  rw [hboff]
  exact At.idle ⟨hS, by simp, by simpa using hprev⟩

theorem fresh_spec (mem : Cfb) {ivMem : List UInt8} (hmem : ivMem.length = E.blksize)
    (hiv : iv.length = E.blksize) (hf : 0 < f) (hle : f ≤ E.blksize) (hsize : E.blksize ≤ 32) :
    ∃ c, fresh mem ivMem f E iv = some (c, 0) ∧ c.boff = 0 ∧ Setup E f c ∧ After E iv f c [] := by
  obtain ⟨halgo, hblk, hfb, hboff, hold⟩ := setblock_spec mem ivMem hf E
  obtain ⟨prev, buf, hset, hprev, -⟩ := setiv_spec hblk hiv hsize hold hmem
  have hS : Setup E f { ((init mem [("feedbackBits", f * 8)]).setblock (some ivMem) (some E)).1 with
      prev := prev, buf := buf, iv := some iv } := ⟨halgo, hblk, hfb, hf, hle, hsize⟩
  exact ⟨_, hset, hboff, hS, after_nil hS hboff (Buf.holds_write hprev)⟩

end Fresh

/-! ## A cipher that shows the offset -/

/-- Every block of `n + 1` bytes is enciphered to the bytes 0, 1, 2, … -/
def counting (n : Nat) : BlockCipher where
  blksize := n + 1
  encrypt _ := (List.range (n + 1)).map UInt8.ofNat
  decrypt := id
  blksize_pos := Nat.succ_pos n
  length_encrypt _ _ := by simp
  length_decrypt _ h := h

section Constant

variable {E : BlockCipher} {K iv C : List UInt8} {f p w : Nat} {c : Cfb}

/-- Masking with the constant block from the position `p` in the unit. -/
def constStep (K : List UInt8) (f p : Nat) (x : UInt8) : Nat × UInt8 :=
  ((p + 1) % f, K[p]?.getD 0 ^^^ x)

/-- Between two units, `used` telling whether the buffer has been filled before. -/
def ConstIdle (E : BlockCipher) (K : List UInt8) (f : Nat) (used : Prop) (c : Cfb) (t : Nat) : Prop :=
  t = 0 ∧ Setup E f c ∧ (used → c.buf.Holds 0 K)

def ConstMid (E : BlockCipher) (K : List UInt8) (f : Nat) (c : Cfb) (i t : Nat) : Prop :=
  t = i % f ∧ Setup E f c ∧ c.buf.Holds 0 K

theorem const_refines (hE : ∀ b, E.encrypt b = K) (hK : K.length = E.blksize) (used : Prop) :
    Refines (unitOps decryptByte) f (constStep K f) (ConstIdle E K f used) (ConstMid E K f) := by
  have hrefill : ∀ (c : Cfb) (t : Nat), ConstIdle E K f used c t →
      ∃ c', (unitOps decryptByte).refill c = some c' ∧ ConstMid E K f c' 0 t := by
    rintro c t ⟨rfl, hS, -⟩
    have hle := hS.le
    have hfits := hS.fits
    obtain ⟨b, -, hb, hprev⟩ := Buf.exists_read c.prev 0 E.blksize (by omega)
    obtain ⟨buf, hbuf, hwrite⟩ := BlockCipher.encryptTo_spec c.buf 0 hb hprev (by omega)
    obtain ⟨kept, hkept, hlen, -⟩ := Buf.exists_read c.prev f (E.blksize - f) (by omega)
    have hfit : 0 + kept.length ≤ 32 := by omega
    obtain ⟨prev, hprev'⟩ := Buf.exists_write c.prev hfit
    rw [hE] at hwrite
    refine ⟨{ c with buf := buf, prev := prev }, ?_, by simp, ?_, Buf.holds_write hwrite⟩
    · simp [unitOps, refill, hS.algo, hbuf, hS.feedback, hS.leftover, hkept, hprev']
    · exact ⟨hS.algo, hS.blksize, hS.feedback, hS.pos, hS.le, hS.fits⟩
  have hbody : ∀ (c : Cfb) (i t : Nat) (x : UInt8), ConstMid E K f c i t → i < f →
      ∃ c', (unitOps decryptByte).body i c x = some (c', (constStep K f t x).2) ∧
        ConstMid E K f c' (i + 1) (constStep K f t x).1 := by
    rintro c i t x ⟨rfl, hS, hbuf⟩ hi
    have hle := hS.le
    have hfits := hS.fits
    have hload := hbuf.load (i := i) (by omega)
    rw [Nat.zero_add] at hload
    have hlt : c.leftover + i < 32 := by rw [hS.leftover]; omega
    have hiK : i < K.length := by omega
    have hmask : K[i % f]?.getD 0 = K[i] := by
      rw [Nat.mod_eq_of_lt hi, List.getElem?_eq_getElem (by omega)]
      rfl
    refine ⟨{ c with prev := c.prev.set (c.leftover + i) x hlt }, ?_, ?_, ?_, hbuf⟩
    · simp [unitOps, decryptByte, hload, Buf.store_of_lt _ _ hlt, constStep, hmask]
    · simp [constStep]
    · exact ⟨hS.algo, hS.blksize, hS.feedback, hS.pos, hS.le, hS.fits⟩
  have hclose : ∀ (c : Cfb) (t : Nat), ConstMid E K f c f t →
      ∃ c', (unitOps decryptByte).close c = some c' ∧ ConstIdle E K f used c' t := by
    rintro c t ⟨rfl, hS, hbuf⟩
    exact ⟨c, rfl, Nat.mod_self f, hS, fun _ => hbuf⟩
  refine ⟨hrefill, hbody, hclose, ?_⟩
  intro c t xs h hlen
  obtain ⟨c', hrun, hIdle⟩ := wholeByLoop_spec hrefill hbody hclose xs h hlen
  refine ⟨c', ?_, hIdle⟩
  rw [← hrun]
  simp [unitOps, UnitOps.wholeByLoop]

/-- From any offset within a unit, the output is masked with the block from that offset, and
only the arithmetic of the offset decides where the next call starts. -/
theorem decrypt_const (hE : ∀ b, E.encrypt b = K) (hK : K.length = E.blksize) (hS : Setup E f c)
    (hlt : c.boff < f) (hbuf : c.boff ≠ 0 → c.buf.Holds 0 K) (xs : List UInt8) :
    ∃ c', c.decrypt xs = some (c', (trace (constStep K f) c.boff xs).2) ∧ Setup E f c' ∧
      c'.boff = strayOffset f c.boff xs.length ∧ (c'.boff ≠ 0 → c'.buf.Holds 0 K) := by
  have hsize : f < 2 ^ 64 := by
    have := hS.fits
    have := hS.le
    omega
  have hat : At f (ConstIdle E K f (c.boff ≠ 0)) (ConstMid E K f) c c.boff c.boff := by
    by_cases h0 : c.boff = 0
    · rw [h0]
      exact At.idle ⟨rfl, hS, fun h => absurd rfl h⟩
    · exact At.mid h0 hlt ⟨(Nat.mod_eq_of_lt hlt).symm, hS, hbuf h0⟩
  obtain ⟨c', hrun, hat'⟩ :=
    decrypt_eq (const_refines hE hK (c.boff ≠ 0)) hsize hS.feedback hlt hat xs
  have hS' : Setup E f c' := by
    unfold At at hat'
    split at hat'
    · exact hat'.2.1
    · exact hat'.2.2.1
  refine ⟨_, hrun, setup_boff hS', rfl, fun hne => ?_⟩
  unfold At at hat'
  split at hat'
  · rename_i h0
    obtain ⟨-, -, hheld⟩ := hat'
    refine hheld fun hzero => hne ?_
    rw [hzero, Nat.zero_add] at h0
    simp only [strayOffset, hzero, if_true]
    exact h0
  · exact hat'.2.2.2

/-- When the bytes of the constant block differ, a run with the right output has the right
offset before every piece that is not empty. -/
theorem offsetsOk_of_run (hE : ∀ b, E.encrypt b = K) (hK : K.length = E.blksize) (hnd : K.Nodup)
    (pieces : List (List UInt8)) (hS : Setup E f c) (hbuf : c.boff ≠ 0 → c.buf.Holds 0 K)
    {d : Cfb} {outs : List (List UInt8)} (hrun : run decrypt c pieces = some (d, outs))
    (hflat : outs.flatten =
      (trace (openStep (· ^^^ ·) (keyByte E iv f)) C pieces.flatten).2)
    (hin : OffsetsIn f decrypt c pieces) :
    OffsetsOk f c.boff (C.length % f) (pieces.map List.length) := by
  induction pieces generalizing c C outs with
  | nil => exact hin.head
  | cons piece pieces ih =>
    have hlt := hin.head
    obtain ⟨c', hcall, hS', hboff', hbuf'⟩ := decrypt_const hE hK hS hlt hbuf piece
    rw [run_cons_some _ hcall, Option.map_eq_some_iff] at hrun
    obtain ⟨⟨d', outs'⟩, hrun', he⟩ := hrun
    cases he
    have hin' := ((offsetsIn_cons hcall).mp hin).2
    rw [List.flatten_cons, List.flatten_cons, trace_append] at hflat
    obtain ⟨hpiece, hrest⟩ := List.append_inj hflat (by rw [trace_length, trace_length])
    have hstart := ih hS' hbuf' hrun' hrest hin'
    rw [hboff', trace_open_history, List.length_append] at hstart
    refine ⟨hlt, fun hne => ?_, by rwa [Nat.mod_add_mod]⟩
    -- The first byte of the piece was masked with the byte of the block at the offset.
    cases piece with
    | nil => exact absurd rfl hne
    | cons y ys =>
      have hle := hS.le
      have hmod : C.length % f < f := Nat.mod_lt _ hS.pos
      simp only [trace_cons, constStep, openStep, List.cons.injEq] at hpiece
      have hkey : K[c.boff]?.getD 0 = K[C.length % f]?.getD 0 := by
        have h := hpiece.1
        rw [keyByte, hE] at h
        exact xor_byte_inj h
      rw [List.getElem?_eq_getElem (by omega), List.getElem?_eq_getElem (by omega)] at hkey
      exact (List.Nodup.getElem_inj_iff hnd).mp hkey

theorem nodup_counting {n : Nat} (hn : n < 256) (b : List UInt8) :
    ((counting n).encrypt b).Nodup := by
  refine List.Nodup.map_on ?_ List.nodup_range
  intro i hi j hj h
  rw [List.mem_range] at hi hj
  have hval := congrArg UInt8.toNat h
  rwa [UInt8.toNat_ofNat', UInt8.toNat_ofNat', Nat.mod_eq_of_lt (by omega),
    Nat.mod_eq_of_lt (by omega)] at hval

end Constant

/-! ## The round trip -/

/-- Two fresh contexts, one that encrypts a message in the given pieces and one that decrypts
the ciphertext in pieces of the given lengths. All calls are defined, the message comes
back, and the offsets are within a unit before and after every call. -/
def RoundTrips (E : BlockCipher) (f : Nat) (mem mem' : Cfb) (ivMem ivMem' iv : List UInt8)
    (pieces : List (List UInt8)) (lens : List Nat) : Prop :=
  ∃ c₀ d₀ c₁ cts, fresh mem ivMem f E iv = some (c₀, 0) ∧ fresh mem' ivMem' f E iv = some (d₀, 0) ∧
    run encrypt c₀ pieces = some (c₁, cts) ∧ OffsetsIn f encrypt c₀ pieces ∧
    ∀ pieces' : List (List UInt8), pieces'.flatten = cts.flatten → pieces'.map List.length = lens →
      ∃ d₁ outs, run decrypt d₀ pieces' = some (d₁, outs) ∧ outs.flatten = pieces.flatten ∧
        OffsetsIn f decrypt d₀ pieces'

section RoundTrip

variable {E : BlockCipher} {f : Nat} {mem mem' : Cfb} {ivMem ivMem' iv : List UInt8}

theorem roundTrips_of_splitOk (hf : 0 < f) (hle : f ≤ E.blksize) (hsize : E.blksize ≤ 32)
    (hiv : iv.length = E.blksize) (hmem : ivMem.length = E.blksize)
    (hmem' : ivMem'.length = E.blksize) (pieces : List (List UInt8)) {lens : List Nat}
    (hok : SplitOk f 0 lens) : RoundTrips E f mem mem' ivMem ivMem' iv pieces lens := by
  obtain ⟨c₀, hfresh, -, -, hafter⟩ := fresh_spec mem hmem hiv hf hle hsize
  obtain ⟨d₀, hfresh', hboff, -, hafter'⟩ := fresh_spec mem' hmem' hiv hf hle hsize
  obtain ⟨c₁, cts, hrun, hcts, hin⟩ := run_encrypt hiv (by omega) pieces hafter
  refine ⟨c₀, d₀, c₁, cts, hfresh, hfresh', hrun, hin, fun pieces' hflat hlens => ?_⟩
  have hstart : At f (Idle E iv f) (Mid E iv f) d₀ 0 [] := hboff ▸ hafter'.2
  have hoffsets : OffsetsOk f d₀.boff 0 (pieces'.map List.length) := by
    rw [hboff, hlens]
    exact (offsetsOk_iff (by omega) hf).mpr hok
  obtain ⟨d₁, outs, hrun', houts, hin'⟩ := run_decrypt hiv (by omega) pieces' hf hstart hoffsets
  refine ⟨d₁, outs, hrun', ?_, hin'⟩
  rw [houts, hflat, hcts]
  exact open_seal (fun c x => xor_byte_cancel c x) [] pieces.flatten

/-- With the cipher that shows the offset, no other lengths work. -/
theorem splitOk_of_roundTrips {n : Nat} (hn : n < 32) (hf : 0 < f) (hle : f ≤ n + 1)
    (hiv : iv.length = n + 1) (hmem : ivMem.length = n + 1) (hmem' : ivMem'.length = n + 1)
    {pieces : List (List UInt8)} {lens : List Nat} (hlens : pieces.flatten.length = lens.sum)
    (h : RoundTrips (counting n) f mem mem' ivMem ivMem' iv pieces lens) : SplitOk f 0 lens := by
  obtain ⟨c₀, d₀, c₁, cts, hfresh, hfresh', hrun, -, hdec⟩ := h
  have hE : ∀ b, (counting n).encrypt b = (List.range (n + 1)).map UInt8.ofNat := fun _ => rfl
  have hiv' : iv.length = (counting n).blksize := hiv
  have hsize : (counting n).blksize ≤ 32 := Nat.succ_le_of_lt hn
  obtain ⟨c, hc, -, -, hafter⟩ := fresh_spec mem (E := counting n) hmem hiv' hf hle hsize
  obtain ⟨d, hd, hboff, hS, -⟩ := fresh_spec mem' (E := counting n) hmem' hiv' hf hle hsize
  rw [hc] at hfresh
  rw [hd] at hfresh'
  cases hfresh
  cases hfresh'
  obtain ⟨c', cts', hrun', hcts, -⟩ := run_encrypt hiv' (by omega) pieces hafter
  rw [hrun'] at hrun
  cases hrun
  -- Cut the ciphertext at the given lengths.
  have hsum : lens.sum = cts.flatten.length := by rw [hcts, trace_length, hlens]
  have hflat := List.flatten_splitLengths cts.flatten lens hsum.ge
  have hmap := List.map_splitLengths_length cts.flatten lens hsum.le
  obtain ⟨d₁, outs, hdrun, houts, hin⟩ := hdec _ hflat hmap
  have hright : outs.flatten = (trace (openStep (· ^^^ ·) (keyByte (counting n) iv f)) []
      (lens.splitLengths cts.flatten).flatten).2 := by
    rw [houts, hflat, hcts]
    exact (open_seal (fun c x => xor_byte_cancel c x) [] pieces.flatten).symm
  have hoffsets := offsetsOk_of_run hE (by simp [counting])
    (nodup_counting (n := n) (by omega) []) _ hS (fun h => absurd hboff h) hdrun hright hin
  rw [hboff, hmap, List.length_nil, Nat.zero_mod] at hoffsets
  exact (offsetsOk_iff (by omega) hf).mp hoffsets

end RoundTrip

/-- For blocks of `bs` bytes and units of `f` bytes, the ciphertext may be cut at the given
lengths, whatever the cipher, the vector, the message and the pieces it is encrypted in,
exactly when a block fits in the buffers and the lengths are of the kind described. -/
theorem cfb_roundTrip_iff (bs f : Nat) (hf : 0 < f) (hle : f ≤ bs) (lens : List Nat) :
    (∀ (E : BlockCipher) (mem mem' : Cfb) (ivMem ivMem' iv : List UInt8)
      (pieces : List (List UInt8)), E.blksize = bs → ivMem.length = bs → ivMem'.length = bs →
      iv.length = bs → pieces.flatten.length = lens.sum →
      RoundTrips E f mem mem' ivMem ivMem' iv pieces lens) ↔
    bs ≤ 32 ∧ SplitOk f 0 lens := by
  obtain ⟨n, rfl⟩ : ∃ n, bs = n + 1 := ⟨bs - 1, by omega⟩
  constructor
  · intro h
    have hzero : (List.replicate (n + 1) (0 : UInt8)).length = n + 1 := List.length_replicate
    have htrip := h (counting n) cleared cleared _ _ _ [List.replicate lens.sum 0] rfl hzero hzero
      hzero (by simp)
    have hsize : n + 1 ≤ 32 := by
      by_contra hlt
      obtain ⟨c₀, -, -, -, hfresh, -⟩ := htrip
      obtain ⟨-, hblk, -⟩ := setblock_spec cleared (List.replicate (n + 1) 0) hf (counting n)
      rw [fresh, setiv_none (hblk.trans hzero.symm) (by simp; omega)] at hfresh
      cases hfresh
    exact ⟨hsize, splitOk_of_roundTrips hsize hf hle hzero hzero hzero (by simp) htrip⟩
  · rintro ⟨hsize, hok⟩ E mem mem' ivMem ivMem' iv pieces hE hmem hmem' hiv -
    rw [← hE] at hle hsize hmem hmem' hiv
    exact roundTrips_of_splitOk hf hle hsize hiv hmem hmem' pieces hok

/-- Pieces of nine bytes with blocks of eight work, three pieces of one byte do not. -/
example : SplitOk 8 0 [9, 9, 9] ∧ ¬SplitOk 8 0 [1, 1, 1] := by decide

theorem cfb_roundTrip_single_bytes :
    ¬RoundTrips (counting 7) 8 cleared cleared (List.replicate 8 0) (List.replicate 8 0)
      (List.replicate 8 0) [[0, 0, 0]] [1, 1, 1] := by
  intro h
  have hok := splitOk_of_roundTrips (by decide) (by decide) (by decide) rfl rfl rfl rfl h
  exact absurd hok (by decide)

theorem cfb_roundTrip_iff_nine :
    (∀ (E : BlockCipher) (mem mem' : Cfb) (ivMem ivMem' iv : List UInt8)
      (pieces : List (List UInt8)), E.blksize = 8 → ivMem.length = 8 → ivMem'.length = 8 →
      iv.length = 8 → pieces.flatten.length = [9, 9].sum →
      RoundTrips E 8 mem mem' ivMem ivMem' iv pieces [9, 9]) ↔
    8 ≤ 32 ∧ SplitOk 8 0 [9, 9] :=
  cfb_roundTrip_iff 8 8 (by decide) (by decide) [9, 9]

end Drew.Mode.Cfb
