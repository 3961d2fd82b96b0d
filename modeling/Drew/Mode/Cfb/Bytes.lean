import Drew.Mode.Cfb.Model

/-!
# Cipher feedback mode: the byte interface

Both directions mask with a function of the ciphertext so far (`keyByte`): the register
is the last block of the vector and the whole units of ciphertext, and the encryption of
the register masks the unit after them. `Idle` and `Mid` relate a context to that
ciphertext. The units are handled rightly in both directions, so `cfb_encrypt` refines
masking. `cfb_decrypt` does so as far as its output and its buffers are concerned, but
the offset that it leaves is another one (`strayOffset`).
-/

namespace Drew.Mode.Cfb

open Drew.Memory Drew.Block Drew.Stream

/-! ## The register -/

/-- The last bytes of the vector and the ciphertext, as many as the vector has. -/
def register (iv C : List UInt8) : List UInt8 := (iv ++ C).drop C.length

@[simp] theorem register_nil (iv : List UInt8) : register iv [] = iv := by
  simp [register]

@[simp] theorem length_register (iv C : List UInt8) : (register iv C).length = iv.length := by
  simp [register]

/-- A unit of ciphertext comes in on the right. -/
theorem register_append {iv D u : List UInt8} (hu : u.length ≤ iv.length) :
    register iv (D ++ u) = (register iv D).drop u.length ++ u := by
  rw [register, register, List.drop_drop, ← List.append_assoc, List.length_append,
    List.drop_append_of_le_length (by simp; omega)]

/-- The byte that masks the byte after the ciphertext `C`. -/
def keyByte (E : BlockCipher) (iv : List UInt8) (f : Nat) (C : List UInt8) : UInt8 :=
  ((E.encrypt (register iv (C.take (C.length / f * f))))[C.length % f]?).getD 0

theorem keyByte_eq {E : BlockCipher} {iv D u : List UInt8} {f : Nat} (hD : f ∣ D.length)
    (hu : u.length < f) {k : UInt8} (hk : (E.encrypt (register iv D))[u.length]? = some k) :
    keyByte E iv f (D ++ u) = k := by
  obtain ⟨q, hq⟩ := hD
  have hlen : (D ++ u).length = u.length + f * q := by
    rw [List.length_append, hq, Nat.add_comm]
  have hdiv : (D ++ u).length / f * f = D.length := by
    rw [hlen, Nat.add_mul_div_left _ _ (by omega), Nat.div_eq_of_lt hu, hq, Nat.zero_add,
      Nat.mul_comm]
  have hmod : (D ++ u).length % f = u.length := by
    rw [hlen, Nat.add_mul_mod_self_left, Nat.mod_eq_of_lt hu]
  rw [keyByte, hdiv, hmod, List.take_left, hk]
  rfl

/-! ## The relation to the ciphertext -/

section Relation

variable {E : BlockCipher} {iv C : List UInt8} {f : Nat} {c : Cfb}

/-- The settings of a context. -/
structure Setup (E : BlockCipher) (f : Nat) (c : Cfb) : Prop where
  algo : c.algo = some E
  blksize : c.blksize = E.blksize
  feedback : c.feedback = f
  pos : 0 < f
  le : f ≤ E.blksize
  fits : E.blksize ≤ 32

theorem Setup.leftover (h : Setup E f c) : c.leftover = E.blksize - f := by
  have := h.fits
  rw [Cfb.leftover, h.blksize, h.feedback, subSize_of_le h.le (by omega)]

/-- Between two units. -/
structure Idle (E : BlockCipher) (iv : List UInt8) (f : Nat) (c : Cfb) (C : List UInt8) : Prop where
  setup : Setup E f c
  dvd : f ∣ C.length
  prev : c.prev.Holds 0 (register iv C)

/-- In the unit after `D`, of which `u` came in. -/
structure MidAt (E : BlockCipher) (iv : List UInt8) (f : Nat) (c : Cfb) (i : Nat)
    (D u : List UInt8) : Prop where
  setup : Setup E f c
  dvd : f ∣ D.length
  len : u.length = i
  prev : c.prev.Holds 0 ((register iv D).drop f ++ u)
  buf : c.buf.Holds i ((E.encrypt (register iv D)).drop i)

def Mid (E : BlockCipher) (iv : List UInt8) (f : Nat) (c : Cfb) (i : Nat) (C : List UInt8) : Prop :=
  ∃ D u, C = D ++ u ∧ MidAt E iv f c i D u

theorem length_cipher (hiv : iv.length = E.blksize) (C : List UInt8) :
    (E.encrypt (register iv C)).length = E.blksize :=
  E.length_encrypt _ (by simp [hiv])

theorem refill_spec (hiv : iv.length = E.blksize) (h : Idle E iv f c C) :
    ∃ c', c.refill = some c' ∧ Mid E iv f c' 0 C := by
  have hS := h.setup
  have hfits := hS.fits
  have hle := hS.le
  have hreg := length_register iv C
  obtain ⟨buf, hbuf, hwrite⟩ := BlockCipher.encryptTo_spec c.buf 0 (hreg.trans hiv) h.prev (by omega)
  -- The part of the register that is kept.
  have hprev : c.prev.Holds (0 + ((register iv C).take f).length) ((register iv C).drop f) :=
    Buf.Holds.right (by rw [List.take_append_drop]; exact h.prev)
  have hkept : ((register iv C).drop f).length = E.blksize - f := by simp [hiv]
  have hread := hprev.read
  rw [hkept, Nat.zero_add, List.length_take_of_le (by omega)] at hread
  have hfit : 0 + ((register iv C).drop f).length ≤ 32 := by omega
  obtain ⟨prev, hprev'⟩ := Buf.exists_write c.prev hfit
  refine ⟨{ c with buf := buf, prev := prev }, ?_, C, [], by simp, ?_⟩
  · simp [refill, hS.algo, hbuf, hS.feedback, hS.leftover, hread, hprev']
  · exact ⟨⟨hS.algo, hS.blksize, hS.feedback, hS.pos, hS.le, hS.fits⟩, h.dvd, rfl,
      by simpa using Buf.holds_write hprev', by simpa using Buf.holds_write hwrite⟩

/-- The mask of the next byte, and the rest of the block. -/
theorem MidAt.next {i : Nat} {D u : List UInt8} (hiv : iv.length = E.blksize)
    (h : MidAt E iv f c i D u) (hi : i < f) :
    c.buf.load i = some (keyByte E iv f (D ++ u)) ∧
      c.buf.Holds (i + 1) ((E.encrypt (register iv D)).drop (i + 1)) := by
  have hlen := length_cipher hiv D
  have hle := h.setup.le
  have hdrop := List.drop_eq_getElem_cons (l := E.encrypt (register iv D)) (i := i) (by omega)
  have hbuf := h.buf
  rw [hdrop] at hbuf
  refine ⟨?_, hbuf.tail⟩
  rw [hbuf.load_head, keyByte_eq h.dvd (h.len.trans_lt hi)]
  rw [h.len]
  exact List.getElem?_eq_getElem _

/-- Storing a byte in the register after what came in. -/
theorem MidAt.store {i : Nat} {D u : List UInt8} (hiv : iv.length = E.blksize)
    (h : MidAt E iv f c i D u) (hi : i < f) (y : UInt8) :
    ∃ prev, c.prev.store (c.leftover + i) y = some prev ∧
      prev.Holds 0 ((register iv D).drop f ++ (u ++ [y])) := by
  have hle := h.setup.le
  have hfits := h.setup.fits
  have hlt : c.leftover + i < 32 := by
    rw [h.setup.leftover]
    omega
  refine ⟨_, Buf.store_of_lt c.prev y hlt, ?_⟩
  rw [← List.append_assoc]
  refine h.prev.snoc y hlt ?_
  rw [h.setup.leftover, List.length_append, List.length_drop, length_register, hiv, h.len]
  omega

theorem encryptByte_spec {i : Nat} (hiv : iv.length = E.blksize) (h : Mid E iv f c i C)
    (x : UInt8) (hi : i < f) :
    ∃ c', encryptByte i c x = some (c', keyByte E iv f C ^^^ x) ∧
      Mid E iv f c' (i + 1) (C ++ [keyByte E iv f C ^^^ x]) := by
  obtain ⟨D, u, rfl, h⟩ := h
  have hS := h.setup
  have hle := hS.le
  have hfits := hS.fits
  obtain ⟨hload, hbuf⟩ := h.next hiv hi
  obtain ⟨prev, hstore, hprev⟩ := h.store hiv hi (keyByte E iv f (D ++ u) ^^^ x)
  have hi' : i < 32 := by omega
  have hstore' := Buf.store_of_lt c.buf (keyByte E iv f (D ++ u) ^^^ x) hi'
  refine ⟨{ c with buf := c.buf.set i (keyByte E iv f (D ++ u) ^^^ x) hi', prev := prev },
    by simp [encryptByte, hload, hstore, hstore'],
    D, u ++ [keyByte E iv f (D ++ u) ^^^ x], by simp, ?_⟩
  exact ⟨⟨hS.algo, hS.blksize, hS.feedback, hS.pos, hS.le, hS.fits⟩, h.dvd, by simp [h.len], hprev,
    hbuf.set_of_disjoint _ hi' (Or.inl (by omega))⟩

theorem decryptByte_spec {i : Nat} (hiv : iv.length = E.blksize) (h : Mid E iv f c i C)
    (y : UInt8) (hi : i < f) :
    ∃ c', decryptByte i c y = some (c', keyByte E iv f C ^^^ y) ∧ Mid E iv f c' (i + 1) (C ++ [y]) := by
  obtain ⟨D, u, rfl, h⟩ := h
  have hS := h.setup
  obtain ⟨hload, hbuf⟩ := h.next hiv hi
  obtain ⟨prev, hstore, hprev⟩ := h.store hiv hi y
  refine ⟨{ c with prev := prev }, by simp [decryptByte, hload, hstore], D, u ++ [y], by simp, ?_⟩
  exact ⟨⟨hS.algo, hS.blksize, hS.feedback, hS.pos, hS.le, hS.fits⟩, h.dvd, by simp [h.len], hprev,
    hbuf⟩

/-- At the end of a unit the register is the next one. -/
theorem close_spec (hiv : iv.length = E.blksize) (h : Mid E iv f c f C) : Idle E iv f c C := by
  obtain ⟨D, u, rfl, h⟩ := h
  have hle := h.setup.le
  have hprev := h.prev
  refine ⟨h.setup, ?_, ?_⟩
  · rw [List.length_append, h.len]
    exact Nat.dvd_add h.dvd (Nat.dvd_refl f)
  · rwa [register_append (by rw [h.len]; omega), h.len]

/-- The operations of a direction refine its step, when its byte does. -/
theorem unitOps_refines {body : Nat → Cfb → UInt8 → Option (Cfb × UInt8)}
    {step : List UInt8 → UInt8 → List UInt8 × UInt8} (hiv : iv.length = E.blksize)
    (hbody : ∀ c i C x, Mid E iv f c i C → i < f →
      ∃ c', body i c x = some (c', (step C x).2) ∧ Mid E iv f c' (i + 1) (step C x).1) :
    Refines (unitOps body) f step (Idle E iv f) (Mid E iv f) := by
  refine ⟨fun c C h => refill_spec hiv h, hbody, fun c C h => ⟨c, rfl, close_spec hiv h⟩, ?_⟩
  intro c C xs h hlen
  obtain ⟨c', hrun, hIdle⟩ := wholeByLoop_spec (M := unitOps body) (fun c C h => refill_spec hiv h)
    hbody (fun c C h => ⟨c, rfl, close_spec hiv h⟩) xs h hlen
  refine ⟨c', ?_, hIdle⟩
  rw [← hrun]
  simp [unitOps, UnitOps.wholeByLoop]

theorem encrypt_ops_refine (hiv : iv.length = E.blksize) :
    Refines (unitOps encryptByte) f (sealStep (· ^^^ ·) (keyByte E iv f)) (Idle E iv f)
      (Mid E iv f) :=
  unitOps_refines hiv fun _ _ _ x h hi => encryptByte_spec hiv h x hi

theorem decrypt_ops_refine (hiv : iv.length = E.blksize) :
    Refines (unitOps decryptByte) f (openStep (· ^^^ ·) (keyByte E iv f)) (Idle E iv f)
      (Mid E iv f) :=
  unitOps_refines hiv fun _ _ _ x h hi => decryptByte_spec hiv h x hi

/-- The states between two calls, after the ciphertext `C`. -/
def After (E : BlockCipher) (iv : List UInt8) (f : Nat) : Cfb → List UInt8 → Prop :=
  AtOffset f (Idle E iv f) (Mid E iv f) boff

theorem setup_boff {boff : Nat} (h : Setup E f c) : Setup E f { c with boff := boff } :=
  ⟨h.algo, h.blksize, h.feedback, h.pos, h.le, h.fits⟩

theorem idle_boff {boff : Nat} (h : Idle E iv f c C) : Idle E iv f { c with boff := boff } C :=
  ⟨setup_boff h.setup, h.dvd, h.prev⟩

theorem mid_boff {boff i : Nat} (h : Mid E iv f c i C) : Mid E iv f { c with boff := boff } i C := by
  obtain ⟨D, u, hC, h⟩ := h
  exact ⟨D, u, hC, setup_boff h.setup, h.dvd, h.len, h.prev, h.buf⟩

theorem at_setup {i : Nat} (h : At f (Idle E iv f) (Mid E iv f) c i C) : Setup E f c := by
  unfold At at h
  split at h
  · exact h.setup
  · obtain ⟨-, D, u, -, h⟩ := h
    exact h.setup

/-- The offset is that of the length of the ciphertext. -/
theorem at_offset {i : Nat} (hi : i < f) (h : At f (Idle E iv f) (Mid E iv f) c i C) :
    C.length % f = i := by
  unfold At at h
  split at h
  · rename_i h0
    rw [h0]
    exact Nat.mod_eq_zero_of_dvd h.dvd
  · obtain ⟨-, D, u, rfl, h⟩ := h
    obtain ⟨q, hq⟩ := h.dvd
    rw [List.length_append, hq, h.len, Nat.mul_add_mod, Nat.mod_eq_of_lt hi]

theorem After.idle (h : After E iv f c C) (hC : f ∣ C.length) : c.boff = 0 ∧ Idle E iv f c C := by
  obtain ⟨hlt, h⟩ := h
  have hboff := at_offset hlt h
  rw [Nat.mod_eq_zero_of_dvd hC] at hboff
  rw [← hboff, at_zero] at h
  exact ⟨hboff.symm, h⟩

/-- `cfb_encrypt` masks its piece and goes on in the ciphertext. -/
theorem encrypt_refines (hiv : iv.length = E.blksize) (hf : f < 2 ^ 64) :
    CallRefines encrypt (sealStep (· ^^^ ·) (keyByte E iv f)) (After E iv f) := by
  refine (encrypt_ops_refine hiv).callRefines hf (fun c b => { c with boff := b }) ?_
    (fun _ _ => rfl) (fun _ _ _ => idle_boff) (fun _ _ _ _ => mid_boff)
  intro c C xs h
  rw [encrypt, (at_setup h.2).feedback]
  cases (unitOps encryptByte).call f c c.boff xs <;> rfl

/-! ## The offset of `cfb_decrypt` -/

/-- What `cfb_decrypt` makes of the offset `o` over a piece of `n` bytes. -/
def strayOffset (f o n : Nat) : Nat :=
  if o = 0 then n % f
  else if n < f - o then subSize o n
  else if (o + n) % f = 0 then subSize o (f - o)
  else (o + n) % f

variable {τ : Type} {step : τ → UInt8 → τ × UInt8} {I : Cfb → τ → Prop} {M : Cfb → Nat → τ → Prop}

/-- Apart from the offset, `cfb_decrypt` is the trace over its piece. -/
theorem decrypt_eq (hR : Refines (unitOps decryptByte) f step I M) (hf : f < 2 ^ 64) {t : τ}
    (hfb : c.feedback = f) (hlt : c.boff < f) (h : At f I M c c.boff t) (xs : List UInt8) :
    ∃ c', c.decrypt xs =
        some ({ c' with boff := strayOffset f c.boff xs.length }, (trace step t xs).2) ∧
      At f I M c' ((c.boff + xs.length) % f) (trace step t xs).1 := by
  have hpos : 0 < f := by omega
  by_cases h0 : c.boff = 0
  · rw [h0] at h ⊢
    obtain ⟨c₁, c₂, as, rest, hsplit, hwholes, htail, hAt⟩ :=
      hR.wholes_tail hpos 0 xs (at_zero.mp h)
    refine ⟨c₂, ?_, by rwa [Nat.zero_add]⟩
    have hoff : (if xs.length % f = 0 then 0 else xs.length % f) = strayOffset f 0 xs.length := by
      rw [strayOffset, if_pos rfl]
      split <;> omega
    rw [hoff] at htail
    simp only [decrypt, decryptHead, h0, if_true, hfb, hwholes, htail, Option.bind_eq_bind,
      Option.bind_some, List.nil_append, pure]
    rw [hsplit, trace_append]
  · have hMid : M c c.boff t := by
      unfold At at h
      rw [if_neg h0] at h
      exact h.2
    have hsub : subSize f c.boff = f - c.boff := subSize_of_le hlt.le hf
    by_cases hshort : xs.length < f - c.boff
    · -- The piece stays within the unit.
      obtain ⟨c₁, hloop, hMid₁⟩ := loop_spec hR.body xs hMid (by omega)
      have hoff : strayOffset f c.boff xs.length = subSize c.boff xs.length := by
        rw [strayOffset, if_neg h0, if_pos hshort]
      refine ⟨c₁, ?_, ?_⟩
      · have hmin : min (f - c.boff) xs.length = xs.length := by omega
        have hbody : (unitOps decryptByte).body = decryptByte := rfl
        rw [hbody] at hloop
        simp [decrypt, decryptHead, h0, hfb, hsub, hmin, hloop, UnitOps.wholes, UnitOps.tail, hoff]
      · rw [Nat.mod_eq_of_lt (by omega)]
        exact At.mid (by omega) (by omega) hMid₁
    · -- The piece ends the unit, and the offset is not set back to zero.
      have hlen : (xs.take (f - c.boff)).length = f - c.boff := by simp; omega
      have hrest : (xs.drop (f - c.boff)).length = xs.length - (f - c.boff) := by simp
      obtain ⟨c₁, hloop, hMid₁⟩ := loop_spec hR.body (xs.take (f - c.boff)) hMid (by omega)
      rw [hlen, show c.boff + (f - c.boff) = f by omega] at hMid₁
      obtain ⟨c₁', hclose, hIdle⟩ := hR.close c₁ _ hMid₁
      cases hclose
      obtain ⟨c₂, c₃, as, rest, hsplit, hwholes, htail, hAt⟩ :=
        hR.wholes_tail hpos (subSize c.boff (f - c.boff)) (xs.drop (f - c.boff)) hIdle
      have hmod : (xs.drop (f - c.boff)).length % f = (c.boff + xs.length) % f := by
        rw [hrest, show c.boff + xs.length = xs.length - (f - c.boff) + f by omega,
          Nat.add_mod_right]
      have htrace : trace step t xs =
          trace step t (xs.take (f - c.boff) ++ xs.drop (f - c.boff)) := by
        rw [List.take_append_drop]
      refine ⟨c₃, ?_, ?_⟩
      · have hmin : min (f - c.boff) xs.length = f - c.boff := by omega
        have hbody : (unitOps decryptByte).body = decryptByte := rfl
        rw [hbody] at hloop
        have hoff : (if (c.boff + xs.length) % f = 0 then subSize c.boff (f - c.boff)
            else (c.boff + xs.length) % f) = strayOffset f c.boff xs.length := by
          rw [strayOffset, if_neg h0, if_neg hshort]
        rw [hmod, hoff] at htail
        simp only [decrypt, decryptHead, if_neg h0, hfb, hsub, hmin, hloop, hwholes, htail,
          Option.bind_eq_bind, Option.bind_some, pure]
        rw [htrace, trace_append, hsplit, trace_append, List.append_assoc]
      · rw [htrace, trace_append, ← hmod]
        exact hAt

end Relation

end Drew.Mode.Cfb
