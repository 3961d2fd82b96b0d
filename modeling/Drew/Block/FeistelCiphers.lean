import Drew.Block.Blowfish
import Drew.Block.Seed
import Drew.Block.Cast.Model
import Drew.Block.Rc2
import Drew.Block.Tea

/-!
# The ciphers that change one part of the block at a time

Blowfish, SEED, CAST-128 and CAST-256 on the bytes of a block, three of which take the block as two words, and RC2,
TEA and XTEA.
-/

namespace Drew

open Drew.Memory Drew.StreamCipher Drew.Block

/-! ## Keys and blocks -/

section Lengths

variable (b : List UInt8)

theorem Blowfish.length_encrypt (c : Blowfish) : (c.encrypt b).length = 8 := by
  rw [Blowfish.encrypt, Blowfish.onBlock, length_onWords]
  rfl

theorem Seed.length_encrypt (ss : Seed.Boxes) (c : Seed) : (c.encrypt ss b).length = 16 := by
  rw [Seed.encrypt, Seed.onBlock, length_onWords]
  rfl

theorem Cast5.length_encrypt (s : Cast.Tables) (c : Cast5) : (c.encrypt s b).length = 8 := by
  rw [Cast5.encrypt, Cast5.onBlock, length_onWords]
  rfl

theorem Cast6.length_encrypt (s : Cast.Tables) (k : Cast6) : (k.encrypt s b).length = 16 := by
  rw [Cast6.encrypt, Cast6.onBlock, length_onWords]
  rfl

theorem Tea.length_encrypt (c : Tea) : (c.encrypt b).length = 8 := by
  rw [Tea.encrypt, Tea.onBlock, length_onWords]
  rfl

end Lengths

theorem Blowfish.decrypt_encrypt {c : Blowfish} (h : Blowfish.Mirrored 18 c.p c.pd) {b : List UInt8}
    (hb : b.length = 8) : c.decrypt (c.encrypt b) = b :=
  onWords_pair (T := word32) (e := .big) (g := c.encryptHalves) (h := c.decryptHalves)
    (fun d => Blowfish.mainAlgorithm_mirrored c.s c.p h d) hb

theorem Seed.decrypt_encrypt (ss : Seed.Boxes) (c : Seed) {b : List UInt8} (hb : b.length = 16) :
    c.decrypt ss (c.encrypt ss b) = b :=
  onWords_pair (T := word64) (e := .big) (g := c.encryptHalves ss) (h := c.decryptHalves ss)
    (Seed.decryptHalves_encryptHalves ss c) hb

theorem Cast5.decrypt_encrypt (s : Cast.Tables) (c : Cast5) {b : List UInt8} (hb : b.length = 8) :
    c.decrypt s (c.encrypt s b) = b :=
  onWords_pair (T := word32) (e := .big) (g := c.encryptWords s) (h := c.decryptWords s)
    (Cast5.decryptWords_encryptWords s c) hb

theorem Cast6.decrypt_encrypt (s : Cast.Tables) (k : Cast6) {b : List UInt8} (hb : b.length = 16) :
    k.decrypt s (k.encrypt s b) = b := by
  unfold decrypt encrypt onBlock
  apply onWords_onWords _ hb
  intro v
  have hwords : k.decryptWords s (k.encryptWords s ⟨v.get 0, v.get 1, v.get 2, v.get 3⟩) =
      ⟨v.get 0, v.get 1, v.get 2, v.get 3⟩ := k.decryptWords_encryptWords s _
  apply Vector.ext
  intro i hi
  match i, hi with
  | 0, _ => exact congrArg Words.a hwords
  | 1, _ => exact congrArg Words.b hwords
  | 2, _ => exact congrArg Words.c hwords
  | 3, _ => exact congrArg Words.d hwords

theorem Tea.decrypt_encrypt (c : Tea) {b : List UInt8} (hb : b.length = 8) : c.decrypt (c.encrypt b) = b :=
  onWords_pair (T := word32) (e := .big) (g := c.encryptPair) (h := c.decryptPair) c.decryptPair_encryptPair hb

/-- Behind the key setup the array for decryption is the one for encryption backwards. -/
theorem Blowfish.setKeyInternal_mirrored (t : Blowfish.Tables) (c : Blowfish) {key : List UInt8}
    (h : 0 < key.length) :
    ∃ c', Blowfish.setKeyInternal t c key = some c' ∧ Blowfish.Mirrored 18 c'.p c'.pd := by
  refine ⟨_, by rw [setKeyInternal, if_neg h.ne'], ?_⟩
  exact mirrored_loop t.sbox _ (le_refl 9)

/-- After every key that the four ciphers take, decryption inverts encryption. -/
theorem feistel_ciphers_invert :
    (∀ (t : Blowfish.Tables) (c : Blowfish) (key : List UInt8), 0 < key.length →
      ∃ c', Blowfish.setKeyInternal t c key = some c' ∧ (∀ j < 18, wordAt c'.pd (17 - j) = wordAt c'.p j) ∧
        ∀ b : List UInt8, b.length = 8 → (c'.encrypt b).length = 8 ∧ c'.decrypt (c'.encrypt b) = b) ∧
    (∀ (ss : Seed.Boxes) (c : Seed) (key : List UInt8), key.length = 16 →
      ∃ c', Seed.setKeyInternal ss c key = some c' ∧
        ∀ b : List UInt8, b.length = 16 → (c'.encrypt ss b).length = 16 ∧ c'.decrypt ss (c'.encrypt ss b) = b) ∧
    (∀ (s : Cast.Tables) (c : Cast5) (key : List UInt8), key.length ≤ 16 →
      ∃ c', Cast5.setKeyInternal s c key = some c' ∧ c'.longkey = decide (10 < key.length) ∧
        ∀ b : List UInt8, b.length = 8 → (c'.encrypt s b).length = 8 ∧ c'.decrypt s (c'.encrypt s b) = b) ∧
    ∀ (s : Cast.Tables) (c : Cast6) (key : List UInt8), key.length % 4 = 0 → key.length ≤ 32 →
      ∃ c', Cast6.setKeyInternal s c key = some c' ∧
        (∀ x i, c'.qbar s (c'.q s x i) i = x ∧ c'.q s (c'.qbar s x i) i = x) ∧
        ∀ b : List UInt8, b.length = 16 → (c'.encrypt s b).length = 16 ∧ c'.decrypt s (c'.encrypt s b) = b := by
  refine ⟨?_, ?_, ?_, ?_⟩
  · intro t c key hkey
    obtain ⟨c', hset, hmirrored⟩ := Blowfish.setKeyInternal_mirrored t c hkey
    exact ⟨c', hset, hmirrored, fun b hb => ⟨Blowfish.length_encrypt b c', Blowfish.decrypt_encrypt hmirrored hb⟩⟩
  · intro ss c key hkey
    exact ⟨_, by rw [Seed.setKeyInternal, if_pos hkey], fun b hb =>
      ⟨Seed.length_encrypt b ss _, Seed.decrypt_encrypt ss _ hb⟩⟩
  · intro s c key hkey
    exact ⟨_, by rw [Cast5.setKeyInternal, if_neg (Nat.not_lt.mpr hkey)], rfl, fun b hb =>
      ⟨Cast5.length_encrypt b s _, Cast5.decrypt_encrypt s _ hb⟩⟩
  · intro s c key hwords hkey
    exact ⟨_, by rw [Cast6.setKeyInternal, if_pos ⟨hwords, hkey⟩], fun x i =>
      ⟨Cast6.qbar_q s _ x i, Cast6.q_qbar s _ x i⟩, fun b hb =>
      ⟨Cast6.length_encrypt b s _, Cast6.decrypt_encrypt s _ hb⟩⟩

theorem feistel_ciphers_invert_zero :
    ∃ c', Blowfish.setKeyInternal ⟨.replicate 1024 0, .replicate 18 0⟩
        ⟨.replicate 18 0, .replicate 18 0, .replicate 1024 0⟩ [0] = some c' ∧
      (∀ j < 18, wordAt c'.pd (17 - j) = wordAt c'.p j) ∧
      ∀ b : List UInt8, b.length = 8 → (c'.encrypt b).length = 8 ∧ c'.decrypt (c'.encrypt b) = b :=
  feistel_ciphers_invert.1 _ _ [0] Nat.one_pos

/-- The key setup and encryption read no element that an array does not have, and decryption inverts encryption. -/
theorem rc2_tea_xtea_invert :
    (∀ (pitable : Vector UInt8 256) (c : Rc2) (key : List UInt8), 0 < key.length → key.length ≤ 128 →
      ∃ c', Rc2.setKeyInternal pitable c key = some c' ∧
        ∀ b : List UInt8, b.length = 8 → ∃ e, c'.encrypt b = some e ∧ e.length = 8 ∧ c'.decrypt e = some b) ∧
    (∀ (c : Tea) (key : List UInt8), key.length = 16 →
      ∃ c', Tea.setKeyInternal c key = some c' ∧
        ∀ b : List UInt8, b.length = 8 → (c'.encrypt b).length = 8 ∧ c'.decrypt (c'.encrypt b) = b) ∧
    ∀ (c : Xtea) (key : List UInt8), key.length = 16 →
      ∃ c', Xtea.setKeyInternal c key = some c' ∧ c'.rounds = c.rounds ∧
        ∀ b : List UInt8, b.length = 8 → ∃ e, c'.encrypt b = some e ∧ e.length = 8 ∧ c'.decrypt e = some b := by
  refine ⟨?_, ?_, ?_⟩
  · intro pitable c key hpos hmax
    obtain ⟨c', hset⟩ := Rc2.exists_setKeyInternal pitable c hpos hmax
    exact ⟨c', hset, fun b hb => Undone.onWords Rc2.word16 .little c'.encryptRegs_decryptRegs hb⟩
  · intro c key hkey
    exact ⟨_, by rw [Tea.setKeyInternal, if_pos hkey], fun b hb =>
      ⟨Tea.length_encrypt b _, Tea.decrypt_encrypt _ hb⟩⟩
  · intro c key hkey
    exact ⟨{ c with k := copyIn word32 .big 4 key }, by rw [Xtea.setKeyInternal, if_pos hkey], rfl, fun b hb =>
      Undone.onWords word32 .big (Xtea.undone_onArray _) hb⟩

theorem rc2_tea_xtea_invert_zero :
    ∃ c', Xtea.setKeyInternal ⟨.replicate 4 0, 7⟩ (List.replicate 16 0) = some c' ∧ c'.rounds = 7 ∧
      ∀ b : List UInt8, b.length = 8 → ∃ e, c'.encrypt b = some e ∧ e.length = 8 ∧ c'.decrypt e = some b :=
  rc2_tea_xtea_invert.2.2 _ _ List.length_replicate

end Drew
