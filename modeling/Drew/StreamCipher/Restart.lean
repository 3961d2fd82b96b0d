import Drew.StreamCipher.ChaCha
import Drew.StreamCipher.Hc
import Drew.StreamCipher.Rabbit
import Drew.StreamCipher.Rc4
import Drew.StreamCipher.Salsa20
import Drew.StreamCipher.Sosemanuk

/-!
# Splitting a message into calls

A message may be given in calls of any lengths, as long as each call is one that the buffering can
take (`Cipher.StepOk`). It cannot take an empty call while the buffer is full, which is how RC4
begins: the whole buffer is dropped. And `CopyAndXorAligned` takes nothing but whole blocks with an
empty buffer: it reads and writes whole blocks in any case, and passes over what is left in the buffer.
-/

namespace Drew.StreamCipher

open Drew.Memory Drew.Stream

/-- The classes of stream ciphers. -/
inductive IsStreamCipher : Cipher → Prop
  | chacha (nrounds : Nat) : IsStreamCipher (chacha nrounds)
  | salsa20 (nrounds : Nat) : IsStreamCipher (salsa20 nrounds)
  | hc128 : IsStreamCipher hc128
  | hc256 : IsStreamCipher hc256
  | rabbit : IsStreamCipher rabbit
  | sosemanuk (A : SerpentParts) : IsStreamCipher (sosemanuk A)
  | rc4 (drop : Nat) : IsStreamCipher (rc4 drop)

variable {C : Cipher}

theorem IsStreamCipher.sound (hC : IsStreamCipher C) : C.Sound := by
  cases hC with
  | chacha nrounds => exact (ChaCha.laws nrounds).sound
  | salsa20 nrounds => exact (Salsa20.laws nrounds).sound
  | hc128 => exact Hc128.laws.sound
  | hc256 => exact Hc256.laws.sound
  | rabbit => exact Rabbit.laws.sound
  | sosemanuk A => exact (Sosemanuk.laws A).sound
  | rc4 drop => exact Rc4.sound drop

/-- The two functions, where both can take the text. -/
theorem Cipher.Sound.encryptfast_eq (hC : C.Sound) {c : C.Context} {data : List UInt8}
    (hc : c.nbytes ≤ C.bufsz) (hfast : C.StepOk c ⟨true, data⟩) (hplain : C.StepOk c ⟨false, data⟩) :
    ∃ c₁ c₂ out, C.encryptfast c data = some (c₁, out) ∧ C.encrypt c data = some (c₂, out) ∧
      C.keystream c₁ = C.keystream c₂ ∧ c₁.nbytes ≤ C.bufsz ∧ c₂.nbytes ≤ C.bufsz := by
  obtain ⟨c₁, hcall₁, hc₁, hkey₁⟩ := hC.call_spec hc hfast
  obtain ⟨c₂, hcall₂, hc₂, hkey₂⟩ := hC.call_spec hc hplain
  exact ⟨c₁, c₂, _, hcall₁, hcall₂, hkey₁.trans hkey₂.symm, hc₁, hc₂⟩

/-- A key and a nonce have a keystream, with which any calls are combined, so that any other calls
on a fresh context give the message back; and a fast call does what a plain one does, from any
context that some use leads to. -/
theorem split_and_decrypt (hC : IsStreamCipher C) :
    (∀ key iv, C.Accepts key iv → ∃ k, ∀ mem, ∃ c, C.start mem key iv = some c ∧ C.Masks c k) ∧
    (∀ key iv mem mem' c c' calls calls' d outs, C.Accepts key iv → C.start mem key iv = some c →
      C.start mem' key iv = some c' → C.RunOk c calls → C.RunOk c' calls' →
      run C.call c calls = some (d, outs) → texts calls' = outs.flatten →
      ∃ d' outs', run C.call c' calls' = some (d', outs') ∧ outs'.flatten = texts calls) ∧
    (∀ key iv c, C.Reaches (some key) iv c → C.AcceptsIv iv → C.Masks c (C.keystream c) ∧
      ∀ data, C.StepOk c ⟨true, data⟩ → C.StepOk c ⟨false, data⟩ →
        ∃ c₁ c₂ out, C.encryptfast c data = some (c₁, out) ∧ C.encrypt c data = some (c₂, out) ∧
          C.Masks c₁ (C.keystream c₂) ∧ C.Masks c₂ (C.keystream c₂)) := by
  have hsound := hC.sound
  refine ⟨?_, ?_, ?_⟩
  · intro key iv h
    obtain ⟨k, hk⟩ := hsound.exists_keystream h
    refine ⟨k, fun mem => ?_⟩
    obtain ⟨c, hstart, hc, hkey⟩ := hk mem
    exact ⟨c, hstart, hkey ▸ hsound.masks hc⟩
  · intro key iv mem mem' c c' calls calls' d outs h hstart hstart' hok hok' hrun htexts
    obtain ⟨k, hk⟩ := hsound.exists_keystream h
    obtain ⟨c₁, hstart₁, hc₁, hkey₁⟩ := hk mem
    obtain ⟨c₂, hstart₂, hc₂, hkey₂⟩ := hk mem'
    obtain rfl := Option.some.inj (hstart₁.symm.trans hstart)
    obtain rfl := Option.some.inj (hstart₂.symm.trans hstart')
    obtain ⟨e, outs₁, hrun₁, hout, -⟩ := hsound.masks hc₁ calls hok
    obtain ⟨d', outs', hrun', hout', -⟩ := hsound.masks hc₂ calls' hok'
    rw [hrun] at hrun₁
    have houts : outs = outs₁ := congrArg Prod.snd (Option.some.inj hrun₁)
    refine ⟨d', outs', hrun', ?_⟩
    rw [hout', htexts, houts, hout, hkey₁, hkey₂, maskWith_maskWith]
  · intro key iv c hreach _
    have hc := hsound.nbytes_le hreach
    refine ⟨hsound.masks hc, fun data hfast hplain => ?_⟩
    obtain ⟨c₁, c₂, out, hcall₁, hcall₂, hkey, hc₁, hc₂⟩ := hsound.encryptfast_eq hc hfast hplain
    exact ⟨c₁, c₂, out, hcall₁, hcall₂, hkey ▸ hsound.masks hc₁, hsound.masks hc₂⟩

theorem split_and_decrypt_hc128 :
    IsStreamCipher hc128 ∧
      ∃ k, ∀ mem, ∃ c, hc128.start mem (List.replicate 16 0) (some (List.replicate 16 0)) = some c ∧
        hc128.Masks c k :=
  ⟨.hc128, (split_and_decrypt .hc128).1 _ _ ⟨by decide, [16], rfl, by decide⟩⟩

/-- Sixteen bytes are fewer than a block of ChaCha, so that its fast function reads and writes
beyond them. -/
theorem chacha_fast_overruns :
    ∃ c : (chacha 10).Context,
      (chacha 10).start ⟨⟨Vector.replicate 16 0, 0, 0, 0, 0⟩, Vector.replicate 64 0, 0⟩
        (List.replicate 16 0) (some (List.replicate 8 0)) = some c ∧
      (chacha 10).encryptfast c (List.replicate 16 0) = none ∧
      (chacha 10).encrypt c (List.replicate 16 0) ≠ none := by
  obtain ⟨c, hstart, h0, -⟩ := (ChaCha.laws 10).start_spec
    ⟨⟨Vector.replicate 16 0, 0, 0, 0, 0⟩, Vector.replicate 64 0, 0⟩
    (⟨by decide, [8, 12], rfl, by decide⟩ : (chacha 10).Accepts (List.replicate 16 0)
      (some (List.replicate 8 0)))
  have hfull : ¬ c.nbytes = 64 := by omega
  obtain ⟨c', hcall, -⟩ := (ChaCha.laws 10).sound.call_spec (c := c) (a := ⟨false, List.replicate 16 0⟩)
    (h0.trans_le (Nat.zero_le _)) fun h => absurd h hfull
  refine ⟨c, hstart, rfl, fun hnone => ?_⟩
  exact Option.some_ne_none _ (hcall.symm.trans hnone)

end Drew.StreamCipher

/-!
## Setting a nonce again

A reset makes a context that behaves as a fresh one. `SetNonce` does so only while no block has been
made: it leaves what is in the buffer, and in ChaCha and Salsa20 the counter. Rabbit adds the nonce to
counters that an earlier nonce or block may have changed.
-/

namespace Drew.StreamCipher

open Drew.Memory Drew.Stream

/-- The classes with nonces, and the members from which their `SetNonce` begins. -/
inductive IsNonceCipher : (C : Cipher) → (C.M → Prop) → Prop
  | chacha (nrounds : Nat) : IsNonceCipher (chacha nrounds) fun ks => ks.ctr = 0
  | salsa20 (nrounds : Nat) : IsNonceCipher (salsa20 nrounds) fun ks => ks.ctr = 0
  | hc128 : IsNonceCipher hc128 fun _ => True
  | hc256 : IsNonceCipher hc256 fun _ => True
  | rabbit : IsNonceCipher rabbit Rabbit.Unused
  | sosemanuk (A : SerpentParts) : IsNonceCipher (sosemanuk A) fun _ => True

variable {C : Cipher} {restarts : C.M → Prop}

theorem IsNonceCipher.laws (hC : IsNonceCipher C restarts) : Nonempty (NonceLaws C restarts) := by
  cases hC with
  | chacha nrounds => exact ⟨ChaCha.laws nrounds⟩
  | salsa20 nrounds => exact ⟨Salsa20.laws nrounds⟩
  | hc128 => exact ⟨Hc128.laws⟩
  | hc256 => exact ⟨Hc256.laws⟩
  | rabbit => exact ⟨Rabbit.laws⟩
  | sosemanuk A => exact ⟨Sosemanuk.laws A⟩

/-- All later calls give the same. -/
def Cipher.SameOutputs (C : Cipher) (c d : C.Context) : Prop :=
  ∀ calls, (run C.call c calls).map Prod.snd = (run C.call d calls).map Prod.snd

end Drew.StreamCipher
