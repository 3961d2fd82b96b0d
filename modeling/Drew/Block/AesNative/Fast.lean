import Drew.Block.AesNative.Model
import Drew.Block.Fast

/-!
# The implementations of AES

The class `AES`, the class `AESNI` and the class `Rijndael128` are three ways to compute the same
network.
-/

namespace Drew.AesNi

open Drew.Block Drew.Rijndael

/-- Contexts of the three classes with the same key: the same ciphertexts and plaintexts, and decryption
undoes encryption. -/
theorem implementations_agree (a : Aes) (r : Rijndael) (n : AesNi) {key : List UInt8}
    (hkey : key.length ∈ Aes.keyLengths) :
    ∃ a' r' n', Aes.setKeyInternal a key = some a' ∧ Rijndael.setKeyInternal .rijndael128 r key = some r' ∧
      setKeyInternal n key .both = some n' ∧ ∀ b, b.length = 16 →
        (Aes.encrypt a' b = Rijndael.encrypt .rijndael128 r' b ∧
          encrypt n' b = Rijndael.encrypt .rijndael128 r' b) ∧
        (Aes.decrypt a' b = Rijndael.decrypt .rijndael128 r' b ∧
          decrypt n' b = Rijndael.decrypt .rijndael128 r' b) ∧
        Aes.decrypt a' (Aes.encrypt a' b) = b ∧
        Rijndael.decrypt .rijndael128 r' (Rijndael.encrypt .rijndael128 r' b) = b ∧
        decrypt n' (encrypt n' b) = b := by
  have hmem : key.length ∈ Rijndael.keyLengths := by
    rcases Aes.length_cases hkey with h | h | h <;> rw [h] <;> decide
  obtain ⟨a', ha, hacrypt⟩ := Aes.setKeyInternal_crypt a hkey
  obtain ⟨n', hn, -, hncrypt⟩ := setKeyInternal_crypt n hkey (show KeyMode.both ≠ .encrypt by decide)
  obtain ⟨r', hr, hnr, -, hrenc, hrdec⟩ := Rijndael.setKeyInternal_crypt .rijndael128 r hmem
  rw [hnr] at hrenc hrdec
  have hlen : ∀ s : State 4, (bytesOf s).length = 16 := length_bytesOf
  have hback : ∀ b : List UInt8, b.length = 16 → bytesOf (Aes.net.decrypt (roundKey 4 key)
      (numRounds 4 (key.length / 4) - 1) (columnsOf 4 (bytesOf (Aes.net.encrypt (roundKey 4 key)
        (numRounds 4 (key.length / 4) - 1) (columnsOf 4 b))))) = b := by
    intro b hb
    rw [columnsOf_bytesOf, Network.decrypt_encrypt, bytesOf_columnsOf hb]
  refine ⟨a', r', n', ha, hr, hn, ?_⟩
  intro b hb
  obtain ⟨haenc, hadec⟩ := hacrypt b hb
  obtain ⟨hnenc, hndec⟩ := hncrypt b hb
  refine ⟨⟨haenc.trans (hrenc b).symm, hnenc.trans (hrenc b).symm⟩,
    ⟨hadec.trans (hrdec b).symm, hndec.trans (hrdec b).symm⟩, ?_, ?_, ?_⟩
  · rw [haenc, (hacrypt _ (hlen _)).2, hback b hb]
  · rw [hrenc, hrdec]
    exact hback b hb
  · rw [hnenc, (hncrypt _ (hlen _)).2, hback b hb]

/-- Contexts before their first key. -/
def blankAes : Aes := ⟨0, 0, Vector.replicate 72 0, Vector.replicate 18 (Vector.replicate 4 0)⟩

def blank : AesNi := ⟨0, 0, Vector.replicate 64 0, Vector.replicate 16 (Vector.replicate 4 0)⟩

theorem implementations_agree_zeros : ∃ a' n', Aes.setKeyInternal blankAes (List.replicate 32 0) = some a' ∧
    setKeyInternal blank (List.replicate 32 0) .both = some n' ∧
      decrypt n' (Aes.encrypt a' (List.replicate 16 1)) = List.replicate 16 1 := by
  obtain ⟨a', r', n', ha, -, hn, hcrypt⟩ := implementations_agree blankAes Rijndael.blank blank
    (show (List.replicate 32 (0 : UInt8)).length ∈ Aes.keyLengths by
      rw [List.length_replicate]
      decide)
  obtain ⟨⟨henc, henc'⟩, -, -, -, hback⟩ := hcrypt (List.replicate 16 1) List.length_replicate
  refine ⟨a', n', ha, hn, ?_⟩
  rw [henc, ← henc', hback]

end Drew.AesNi

/-!
## Several blocks in one call

`EncryptFast` and `DecryptFast` of the class `AESNI`, which have no loop over the rounds, and the result
for all classes.
-/

namespace Drew

open Drew.Memory Drew.Block Drew.Aes

namespace AesNi

/-- What is done with a register: the rounds in a row, and for 12 and 14 rounds two and four more. -/
def unrolled (full last : Quad → Quad → Quad) (nr : Nat) (x : Nat → Quad) (data : Quad) : Quad :=
  let data := xorQuad data (x 0)
  let data := full data (x 1)
  let data := full data (x 2)
  let data := full data (x 3)
  let data := full data (x 4)
  let data := full data (x 5)
  let data := full data (x 6)
  let data := full data (x 7)
  let data := full data (x 8)
  let data := full data (x 9)
  if nr = 10 then last data (x 10)
  else
    let data := full data (x 10)
    let data := full data (x 11)
    if nr = 12 then last data (x 12)
    else
      let data := full data (x 12)
      let data := full data (x 13)
      last data (x 14)

/-- A pass of the loop: `data = *in` at the beginning and `*out = data` at the end. -/
def unrolledTo {m : Nat} (full last : Quad → Quad → Quad) (nr : Nat) (x : Nat → Quad) : Call m := fun mem o i => do
  let b ← mem.read i 16
  mem.write o (copyOut word32 .little (unrolled full last nr x (copyIn word32 .little 4 b)))

/-- `EncryptFast`. -/
def encryptFast {m : Nat} (c : AesNi) (mem : Buf UInt8 m) (o i n : Nat) : Option (Buf UInt8 m) :=
  blockLoop (unrolledTo aesenc aesenclast c.nr (quadAt c.rk)) 16 n o i mem

/-- `DecryptFast`. -/
def decryptFast {m : Nat} (c : AesNi) (mem : Buf UInt8 m) (o i n : Nat) : Option (Buf UInt8 m) :=
  blockLoop (unrolledTo aesdec aesdeclast c.nr (entryAt c.rkd)) 16 n o i mem

/-! ## The rounds -/

section Rounds

variable (full last : Quad → Quad → Quad) (x : Nat → Quad)

theorem length_crypt (nr : Nat) (b : List UInt8) : (crypt full last nr x b).length = 16 := length_copyOut _

theorem copyOut_unrolled {nr : Nat} (hnr : nr = 10 ∨ nr = 12 ∨ nr = 14) (b : List UInt8) :
    copyOut word32 .little (unrolled full last nr x (copyIn word32 .little 4 b)) = crypt full last nr x b := by
  rcases hnr with rfl | rfl | rfl
  · rfl
  · rfl
  · rfl

theorem unrolledTo_eq {m nr : Nat} (hnr : nr = 10 ∨ nr = 12 ∨ nr = 14) :
    unrolledTo full last nr x = cryptTo (m := m) (crypt full last nr x) 16 := by
  funext mem o i
  simp only [unrolledTo, cryptTo, copyOut_unrolled full last x hnr]

end Rounds

/-- The keys that are accepted lead to one of the three numbers of rounds. -/
theorem nr_of_setKeyInternal {c c' : AesNi} {key : List UInt8} {mode : KeyMode}
    (h : setKeyInternal c key mode = some c') : c'.nr = 10 ∨ c'.nr = 12 ∨ c'.nr = 14 := by
  unfold setKeyInternal at h
  split at h
  · rename_i hlen
    obtain ⟨rk, -, hrest⟩ := Option.bind_eq_some_iff.mp h
    cases hrest
    rcases hlen with hlen | hlen | hlen
    · exact .inl (by simp [hlen])
    · exact .inr (.inl (by simp [hlen]))
    · exact .inr (.inr (by simp [hlen]))
  · cases h

section Context

variable {m : Nat} {c : AesNi} (hnr : c.nr = 10 ∨ c.nr = 12 ∨ c.nr = 14) (mem : Buf UInt8 m) (o i n : Nat)

include hnr in
theorem encryptFast_transforms : Transforms 16 c.encrypt n mem o i (c.encryptFast mem o i n) := by
  apply transforms_of_calls fun b _ => length_crypt _ _ _ _ b
  exact congrArg (blockLoop · 16 n o i mem) (unrolledTo_eq _ _ _ hnr)

include hnr in
theorem decryptFast_transforms : Transforms 16 c.decrypt n mem o i (c.decryptFast mem o i n) := by
  apply transforms_of_calls fun b _ => length_crypt _ _ _ _ b
  exact congrArg (blockLoop · 16 n o i mem) (unrolledTo_eq _ _ _ hnr)

end Context

/-- Whole multiples of 16 bytes: with every size of a block the default loops make the calls of `Encrypt` and
`Decrypt` at adjacent blocks, whatever these do, and for ciphers that are functions of a block they transform
the blocks and nothing else. So does the class that has its own loops, after every key. -/
theorem fast_transforms {m : Nat} (mem : Buf UInt8 m) (o i n : Nat) :
    (∀ (bs : Nat) (call : Call m), 16 ∣ n * bs → cryptFast bs call mem o i n = blockLoop call bs n o i mem) ∧
    (∀ E : BlockCipher, 16 ∣ n * E.blksize →
      Transforms E.blksize E.encrypt n mem o i (E.encryptFast mem o i n) ∧
      Transforms E.blksize E.decrypt n mem o i (E.decryptFast mem o i n)) ∧
    ∀ (c c' : AesNi) (key : List UInt8) (mode : KeyMode), setKeyInternal c key mode = some c' →
      Transforms 16 c'.encrypt n mem o i (c'.encryptFast mem o i n) ∧
      Transforms 16 c'.decrypt n mem o i (c'.decryptFast mem o i n) := by
  refine ⟨?_, ?_, ?_⟩
  · intro bs call h
    exact cryptFast_eq_calls call mem o i h
  · intro E h
    exact ⟨E.encryptFast_transforms mem o i h, E.decryptFast_transforms mem o i h⟩
  · intro c c' key mode h
    have hnr := nr_of_setKeyInternal h
    exact ⟨encryptFast_transforms hnr mem o i n, decryptFast_transforms hnr mem o i n⟩

theorem fast_transforms_zeros :
    (∃ mem', (BlockCipher.identity 7).encryptFast (Vector.replicate 64 0) 16 32 2 = some mem') ∧
    ∃ c' mem', setKeyInternal blank (List.replicate 16 0) .both = some c' ∧
      c'.encryptFast (Vector.replicate 64 0) 32 0 2 = some mem' := by
  obtain ⟨-, hdefault, -⟩ := fast_transforms (Vector.replicate 64 (0 : UInt8)) 16 32 2
  obtain ⟨-, -, hnative⟩ := fast_transforms (Vector.replicate 64 (0 : UInt8)) 32 0 2
  have hkey : (List.replicate 16 (0 : UInt8)).length ∈ Aes.keyLengths := by
    rw [List.length_replicate]
    decide
  obtain ⟨c', hset, -, -⟩ := setKeyInternal_crypt blank hkey (show KeyMode.both ≠ .encrypt by decide)
  constructor
  · obtain ⟨mem', hfast, -, -⟩ := (hdefault (BlockCipher.identity 7) (by decide)).1.within (by decide) (by decide)
    exact ⟨mem', hfast⟩
  · obtain ⟨mem', hfast, -, -⟩ := (hnative blank c' _ .both hset).1.within (by decide) (by decide)
    exact ⟨c', mem', hset, hfast⟩

end AesNi

end Drew
