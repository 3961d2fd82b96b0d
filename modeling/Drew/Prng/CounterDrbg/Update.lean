import Drew.Mode.Ctr.Resumed
import Drew.Prng.CounterDrbg.Model
import Drew.Prng.Model

/-!
# The contexts of CTR_DRBG

In every state the context of the mode has a cipher of the right block size. If blocks fit in its arrays, `Update`
is defined in every state, and otherwise in none.
-/

namespace Drew.Prng

open Drew.Memory Drew.Block Drew.Stream Drew.Mode

open Drew.Mode.Gcm (ByteOrder)

namespace CounterDrbg

variable {A : CounterCipher} {m n : Nat} {c : Ctr} {d d' : CounterDrbg}

/-- The context has a cipher with blocks of the size of `A`, and the function table for it. -/
structure Attached (A : CounterCipher) (c : Ctr) : Prop where
  algo : ∃ E, c.algo = some E ∧ E.blksize = A.blksize
  blksize : c.blksize = A.blksize
  boff : c.boff < A.blksize
  functbl : c.functbl = if A.blksize = 16 then .fast else .plain

theorem blksize_pos (A : CounterCipher) : 0 < A.blksize := by
  rw [← A.blksize_unkeyed]
  exact A.unkeyed.blksize_pos

theorem new_attached (A : CounterCipher) (rc : UInt64) : Attached A (new A rc).sub.ctr := by
  refine ⟨⟨A.unkeyed, rfl, A.blksize_unkeyed⟩, A.blksize_unkeyed, blksize_pos A, ?_⟩
  show (if A.unkeyed.blksize = fastAlignment then Functbl.fast else .plain) = _
  rw [A.blksize_unkeyed]
  rfl

/-- Where a context stands, if blocks fit in its arrays. -/
theorem Attached.standing (h : Attached A c) (hsize : A.blksize ≤ 32) :
    ∃ E iv kb, E.blksize = A.blksize ∧ Ctr.Standing E iv kb c := by
  obtain ⟨E, halgo, hE⟩ := h.algo
  obtain ⟨iv, -, hivlen, hiv⟩ := Buf.exists_read c.ctr 0 A.blksize (by omega)
  obtain ⟨kb, -, hkblen, hkb⟩ := Buf.exists_read c.buf 0 A.blksize (by omega)
  exact ⟨E, iv, kb, hE, halgo, h.blksize.trans hE.symm, hE ▸ hsize, hE ▸ h.boff, hiv, hivlen.trans hE.symm,
    hkb, hkblen.trans hE.symm⟩

theorem attached_of_standing {E : BlockCipher} {iv kb : List UInt8} (h : Ctr.Standing E iv kb c)
    (hE : E.blksize = A.blksize) (hf : c.functbl = if A.blksize = 16 then .fast else .plain) :
    Attached A c :=
  ⟨⟨E, h.algo, hE⟩, h.blksize.trans hE, hE ▸ h.boff, hf⟩

theorem encrypt_spec (h : Attached A c) (hsize : A.blksize ≤ 32) (xs : List UInt8) :
    ∃ c' out, c.encrypt xs = some (c', out) ∧ out.length ≤ xs.length ∧ Attached A c' := by
  obtain ⟨E, iv, kb, hE, hstand⟩ := h.standing hsize
  obtain ⟨c', kb', hrun, hf, -, hstand'⟩ := hstand.encrypt xs
  refine ⟨c', _, hrun, ?_, attached_of_standing hstand' hE (hf.trans h.functbl)⟩
  rw [length_xorBytes]
  exact Nat.min_le_right _ _

theorem encryptTable_spec (h : Attached A c) (hsize : A.blksize ≤ 32) (hn : n ≤ sliceSize) (env : Env)
    (buf : Buf UInt8 n) : ∃ c' buf', encryptTable env c buf = some (c', buf') ∧ Attached A c' := by
  by_cases h16 : A.blksize = 16
  · have hf : c.functbl = .fast := h.functbl.trans (if_pos h16)
    obtain ⟨E, iv, kb, hE, hstand⟩ := h.standing hsize
    obtain ⟨c', buf', hrun, -, hf', -, hstand'⟩ :=
      hstand.encryptfast (hE.trans h16) hn (env.array sliceSize) buf buf
    refine ⟨c', buf', ?_, attached_of_standing hstand' hE (hf'.trans h.functbl)⟩
    rw [encryptTable, hf]
    exact hrun
  · have hf : c.functbl = .plain := h.functbl.trans (if_neg h16)
    obtain ⟨c', out, hrun, hlen, hc'⟩ := encrypt_spec h hsize buf.toList
    rw [Vector.length_toList] at hlen
    obtain ⟨buf', hbuf'⟩ := Buf.exists_write_at buf 0 out (by omega)
    refine ⟨c', buf', ?_, hc'⟩
    simp only [encryptTable, hf, hrun, hbuf', Option.bind_eq_bind, Option.bind_some]
    rfl

theorem rekey_spec (key : List UInt8) {iv : List UInt8} (h : Attached A d.ctr) (hsize : A.blksize ≤ 32)
    (hiv : iv.length = A.blksize) :
    ∃ d', rekey A key iv d = some d' ∧ Attached A d'.ctr ∧ d'.ctr.boff = d.ctr.boff ∧
      Ctr.Standing (A.setkey key) iv iv d'.ctr := by
  let E := A.setkey key
  have hE : E.blksize = A.blksize := A.blksize_setkey key
  let c := (d.ctr.setblock (some E)).1
  have hblk : c.blksize = E.blksize := rfl
  obtain ⟨ctr, buf, iv', hset, hctr, hbuf, -⟩ :=
    Ctr.setiv_spec hblk (hiv.trans hE.symm) (hE ▸ hsize)
  have hstand : Ctr.Standing E iv iv { c with ctr := ctr, buf := buf, iv := iv' } :=
    ⟨rfl, rfl, hE ▸ hsize, hE ▸ h.boff, hctr, hiv.trans hE.symm, hbuf, hiv.trans hE.symm⟩
  have hf : c.functbl = if A.blksize = 16 then .fast else .plain := by
    show (if E.blksize = fastAlignment then Functbl.fast else d.ctr.functbl) = _
    rw [hE, h.functbl]
    by_cases h16 : A.blksize = 16 <;> simp [h16, fastAlignment]
  refine ⟨⟨E, { c with ctr := ctr, buf := buf, iv := iv' }⟩, ?_, attached_of_standing hstand hE hf, rfl, hstand⟩
  refine Option.bind_eq_some_iff.mpr ⟨_, hset, rfl⟩

/-- The vector is written past the end of its array. -/
theorem rekey_none (key : List UInt8) {iv : List UInt8} (hsize : 32 < A.blksize)
    (hiv : iv.length = A.blksize) (d : CounterDrbg) : rekey A key iv d = none := by
  have hnone : (d.ctr.setblock (some (A.setkey key))).1.setiv iv = none :=
    Ctr.setiv_none ((A.blksize_setkey key).trans hiv.symm) (by omega)
  exact Option.bind_eq_none_iff.mpr fun r hr => absurd (hnone.symm.trans hr) (by simp)

/-- What is combined with the keystream. -/
theorem update_eq (env : Env) (provided : Buf UInt8 m) (hm : A.seedlen ≤ m) {c' : Ctr}
    {buf : Buf UInt8 A.seedlen}
    (hrun : encryptTable env d.ctr (Vector.replicate A.seedlen 0) = some (c', buf)) :
    update A env provided d =
      rekey A ((xorBytes buf.toList (provided.toList.take A.seedlen)).take A.keylen)
        ((xorBytes buf.toList (provided.toList.take A.seedlen)).drop A.keylen) { d with ctr := c' } := by
  have hread : provided.read 0 A.seedlen = some (provided.toList.take A.seedlen) := by
    rw [Buf.read, if_pos (by omega), List.drop_zero]
  simp only [update, hrun, hread, Option.bind_eq_bind, Option.bind_some]

theorem length_vector {buf : Buf UInt8 A.seedlen} {provided : Buf UInt8 m} (hm : A.seedlen ≤ m) :
    ((xorBytes buf.toList (provided.toList.take A.seedlen)).drop A.keylen).length = A.blksize := by
  have hsize : A.seedlen = A.blksize + A.keylen := rfl
  rw [List.length_drop, length_xorBytes, List.length_take, Vector.length_toList, Vector.length_toList]
  omega

theorem update_spec (h : Attached A d.ctr) (hsize : A.blksize ≤ 32) (env : Env) (provided : Buf UInt8 m)
    (hm : A.seedlen ≤ m) : ∃ d', update A env provided d = some d' ∧ Attached A d'.ctr := by
  have hseed : A.seedlen ≤ sliceSize := A.fits.trans (by decide)
  obtain ⟨c', buf, hrun, hc'⟩ := encryptTable_spec h hsize hseed env (Vector.replicate A.seedlen 0)
  obtain ⟨d', hd', hatt, -, -⟩ := rekey_spec (d := { d with ctr := c' })
    ((xorBytes buf.toList (provided.toList.take A.seedlen)).take A.keylen) hc' hsize (length_vector hm)
  exact ⟨d', (update_eq env provided hm hrun).trans hd', hatt⟩

theorem update_none (hsize : 32 < A.blksize) (env : Env) (provided : Buf UInt8 m) (hm : A.seedlen ≤ m)
    (d : CounterDrbg) : update A env provided d = none := by
  cases hrun : encryptTable env d.ctr (Vector.replicate A.seedlen 0) with
  | none => simp [update, hrun]
  | some r =>
    rw [update_eq env provided hm hrun]
    exact rekey_none _ hsize (length_vector hm) _

theorem update_attached (h : Attached A d.ctr) {env : Env} {provided : Buf UInt8 m} (hm : A.seedlen ≤ m)
    (hrun : update A env provided d = some d') : Attached A d'.ctr := by
  by_cases hsize : A.blksize ≤ 32
  · obtain ⟨d₁, hd₁, hatt⟩ := update_spec h hsize env provided hm
    cases hd₁.symm.trans hrun
    exact hatt
  · rw [update_none (by omega) env provided hm] at hrun
    cases hrun

end CounterDrbg

end Drew.Prng
