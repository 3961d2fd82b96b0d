import Drew.Memory.Endian
import Drew.StreamCipher.Words
import Drew.Block.Serpent.Circuits
import Drew.Block.Rounds

/-!
# Serpent

The model of the class `Serpent`. `m_key` points behind the first eight words of `m_keybuf`.
-/

namespace Drew

open Drew.Memory Drew.StreamCipher

/-- The member `m_keybuf`. -/
structure Serpent where
  keybuf : Vector UInt32 140

namespace Serpent

/-- A substitution of four words. -/
abbrev Sbox := Words UInt32 → Words UInt32

/-! ## The key schedule -/

/-- `w[i]`, with `w` behind the first eight words. -/
def word (k : Vector UInt32 140) (i : Nat) : UInt32 := k.get (Fin.ofNat 140 (i + 8))

/-- The loop that fills `w`. -/
def expand (k : Vector UInt32 140) : Vector UInt32 140 :=
  (List.range 132).foldl (fun k i => k.setIfInBounds (i + 8)
    (rotateLeft (k.get (Fin.ofNat 140 i) ^^^ k.get (Fin.ofNat 140 (i + 3)) ^^^
      k.get (Fin.ofNat 140 (i + 5)) ^^^ k.get (Fin.ofNat 140 (i + 7)) ^^^ 0x9e3779b9 ^^^
      UInt32.ofNat i) 11)) k

/-- A circuit called with `w + n`. -/
def substitute (k : Vector UInt32 140) (n : Nat) (s : Sbox) : Vector UInt32 140 :=
  let x := s ⟨word k n, word k (n + 1), word k (n + 2), word k (n + 3)⟩
  (((k.setIfInBounds (n + 8) x.x0).setIfInBounds (n + 9) x.x1).setIfInBounds (n + 10) x.x2).setIfInBounds
    (n + 11) x.x3

/-- The circuits on 32 words. -/
def substituteAll (k : Vector UInt32 140) (n : Nat) : Vector UInt32 140 :=
  let k := substitute (substitute (substitute (substitute k n s3) (n + 4) s2) (n + 8) s1) (n + 12) s0
  substitute (substitute (substitute (substitute k (n + 16) s7) (n + 20) s6) (n + 24) s5) (n + 28) s4

/-- `SetKeyInternal`. A key that is longer than `m_keybuf` does not fit. -/
def setKeyInternal (_ : Serpent) (key : List UInt8) : Option Serpent :=
  if key.length ≤ 4 * 140 then
    let k := copyIn word32 .little 140 key
    let k := if key.length < 32 then
        let n := key.length / 4
        k.setIfInBounds n (k.get (Fin.ofNat 140 n) ||| 1 <<< (UInt32.ofNat (key.length % 4) * 8))
      else k
    some ⟨substitute ([0, 32, 64, 96].foldl substituteAll (expand k)) 128 s3⟩
  else none

/-! ## Rounds -/

section Rounds

variable (c : Serpent)

/-- `b[i] ^= m_key[n + i]`. -/
def addKey (b : Words UInt32) (n : Nat) : Words UInt32 :=
  ⟨b.x0 ^^^ word c.keybuf n, b.x1 ^^^ word c.keybuf (n + 1), b.x2 ^^^ word c.keybuf (n + 2),
    b.x3 ^^^ word c.keybuf (n + 3)⟩

/-- The linear transformation of `eround`. -/
def transform (b : Words UInt32) : Words UInt32 :=
  let b0 := rotateLeft b.x0 13
  let b2 := rotateLeft b.x2 3
  let b1 := rotateLeft (b.x1 ^^^ b2 ^^^ b0) 1
  let b3 := rotateLeft (b.x3 ^^^ b2 ^^^ b0 <<< 3) 7
  let b0 := rotateLeft (b0 ^^^ b3 ^^^ b1) 5
  let b2 := rotateLeft (b2 ^^^ b3 ^^^ b1 <<< 7) 22
  ⟨b0, b1, b2, b3⟩

/-- What `dround` does before the circuit. -/
def untransform (b : Words UInt32) : Words UInt32 :=
  let b2 := rotateRight b.x2 22
  let b0 := rotateRight b.x0 5
  let b2 := b2 ^^^ (b.x3 ^^^ b.x1 <<< 7)
  let b0 := b0 ^^^ (b.x1 ^^^ b.x3)
  let b3 := rotateRight b.x3 7
  let b1 := rotateRight b.x1 1
  let b3 := b3 ^^^ (b2 ^^^ b0 <<< 3)
  let b1 := b1 ^^^ (b0 ^^^ b2)
  ⟨rotateRight b0 13, b1, rotateRight b2 3, b3⟩

def eround (b : Words UInt32) (n : Nat) (s : Sbox) : Words UInt32 := transform (s (c.addKey b n))

def dround (b : Words UInt32) (n : Nat) (s : Sbox) : Words UInt32 := c.addKey (s (untransform b)) n

/-- The rounds with `s0` to `s6`. -/
def encryptSeven (b : Words UInt32) (k : Nat) : Words UInt32 :=
  let b := c.eround (c.eround (c.eround (c.eround b k s0) (k + 4) s1) (k + 8) s2) (k + 12) s3
  c.eround (c.eround (c.eround b (k + 16) s4) (k + 20) s5) (k + 24) s6

/-- The loop of `Encrypt`: the words and `k`. The last pass is left before the round with `s7`. -/
def encryptLoop (b : Words UInt32) : Words UInt32 × Nat :=
  (List.range 4).foldl (fun st i =>
    let b := c.encryptSeven st.1 st.2
    if i = 3 then (b, st.2) else (c.eround b (st.2 + 28) s7, st.2 + 32)) (b, 0)

/-- `Encrypt` of words. -/
def encryptWords (b : Words UInt32) : Words UInt32 :=
  let st := c.encryptLoop b
  c.addKey (s7 (c.addKey st.1 (st.2 + 28))) (st.2 + 32)

/-- The rounds with `si6` to `si0`. -/
def decryptSeven (b : Words UInt32) (k : Nat) : Words UInt32 :=
  let b := c.dround (c.dround (c.dround b (k + 24) si6) (k + 20) si5) (k + 16) si4
  c.dround (c.dround (c.dround (c.dround b (k + 12) si3) (k + 8) si2) (k + 4) si1) k si0

/-- The loop of `Decrypt`. -/
def decryptLoop (b : Words UInt32) : Words UInt32 :=
  ((List.range 4).foldl (fun (st : Words UInt32 × Nat) i =>
    let b := if i = 0 then st.1 else c.dround st.1 (st.2 + 28) si7
    (c.decryptSeven b st.2, st.2 - 32)) (b, 128 - 32)).1

/-- `Decrypt` of words. -/
def decryptWords (b : Words UInt32) : Words UInt32 :=
  c.decryptLoop (c.addKey (si7 (c.addKey b 128)) 124)

/-- A function of four words on a block. -/
def onBlock (g : Words UInt32 → Words UInt32) (block : List UInt8) : List UInt8 :=
  onWords word32 .little (fun v : Vector UInt32 4 =>
    let w := g ⟨v.get 0, v.get 1, v.get 2, v.get 3⟩
    #v[w.x0, w.x1, w.x2, w.x3]) block

def encrypt (block : List UInt8) : List UInt8 := onBlock c.encryptWords block

def decrypt (block : List UInt8) : List UInt8 := onBlock c.decryptWords block

end Rounds

end Serpent

end Drew

/-!
## Decryption with Serpent

`dround` with the inverse circuit undoes `eround`, and `Decrypt` has the rounds of `Encrypt` in the
opposite order.
-/

namespace Drew.Serpent

open Drew.Memory Drew.StreamCipher Drew.Block

variable (c : Serpent)

/-! ## One round -/

theorem xor_pair_cancel (a b d : UInt32) : a ^^^ b ^^^ d ^^^ (b ^^^ d) = a := by
  rw [UInt32.xor_assoc a b d, xor32_cancel_right]

theorem xor_pair_cancel' (a b d : UInt32) : a ^^^ b ^^^ d ^^^ (d ^^^ b) = a := by
  rw [UInt32.xor_comm d b, xor_pair_cancel]

theorem untransform_transform (b : Words UInt32) : untransform (transform b) = b := by
  have h1 : ∀ x, rotateRight (rotateLeft x 1) 1 = x := fun x => rotateRight_rotateLeft x (by decide) (by decide)
  have h3 : ∀ x, rotateRight (rotateLeft x 3) 3 = x := fun x => rotateRight_rotateLeft x (by decide) (by decide)
  have h5 : ∀ x, rotateRight (rotateLeft x 5) 5 = x := fun x => rotateRight_rotateLeft x (by decide) (by decide)
  have h7 : ∀ x, rotateRight (rotateLeft x 7) 7 = x := fun x => rotateRight_rotateLeft x (by decide) (by decide)
  have h13 : ∀ x, rotateRight (rotateLeft x 13) 13 = x := fun x =>
    rotateRight_rotateLeft x (by decide) (by decide)
  have h22 : ∀ x, rotateRight (rotateLeft x 22) 22 = x := fun x =>
    rotateRight_rotateLeft x (by decide) (by decide)
  simp only [untransform, transform, h1, h3, h5, h7, h13, h22, xor_pair_cancel, xor_pair_cancel']

theorem addKey_addKey (b : Words UInt32) (n : Nat) : c.addKey (c.addKey b n) n = b := by
  simp only [addKey, xor32_cancel_right]

theorem dround_eround {s si : Sbox} (h : ∀ x, si (s x) = x) (b : Words UInt32) (n : Nat) :
    c.dround (c.eround b n s) n si = b := by
  rw [dround, eround, untransform_transform, h, addKey_addKey]

/-! ## All rounds -/

/-- A round: where its key is, its circuit and the inverse circuit. -/
structure Round where
  key : Nat
  s : Sbox
  si : Sbox
  undoes : ∀ x, si (s x) = x

/-- The rounds of a pass with seven circuits. -/
def seven (k : Nat) : List Round :=
  [⟨k, s0, si0, si0_s0⟩, ⟨k + 4, s1, si1, si1_s1⟩, ⟨k + 8, s2, si2, si2_s2⟩, ⟨k + 12, s3, si3, si3_s3⟩,
    ⟨k + 16, s4, si4, si4_s4⟩, ⟨k + 20, s5, si5, si5_s5⟩, ⟨k + 24, s6, si6, si6_s6⟩]

/-- The round that the last pass leaves out. -/
def eighth (k : Nat) : Round := ⟨k + 28, s7, si7, si7_s7⟩

/-- The 31 rounds. -/
def rounds : List Round :=
  seven 0 ++ eighth 0 :: seven 32 ++ eighth 32 :: seven 64 ++ eighth 64 :: seven 96

def applyRound (b : Words UInt32) (r : Round) : Words UInt32 := c.eround b r.key r.s

def undoRound (b : Words UInt32) (r : Round) : Words UInt32 := c.dround b r.key r.si

theorem undoRound_applyRound (b : Words UInt32) (r : Round) :
    c.undoRound (c.applyRound b r) r = b := dround_eround c r.undoes b r.key

theorem encryptSeven_eq (b : Words UInt32) (k : Nat) :
    c.encryptSeven b k = (seven k).foldl c.applyRound b := rfl

theorem decryptSeven_eq (b : Words UInt32) (k : Nat) :
    c.decryptSeven b k = (seven k).reverse.foldl c.undoRound b := rfl

theorem range_four : List.range 4 = [0, 1, 2, 3] := rfl

theorem encryptLoop_eq (b : Words UInt32) : c.encryptLoop b = (rounds.foldl c.applyRound b, 96) := by
  simp only [encryptLoop, range_four, encryptSeven_eq, rounds, List.foldl_append, List.foldl_cons,
    List.foldl_nil, reduceIte, Nat.reduceEqDiff, OfNat.zero_ne_ofNat, Nat.reduceAdd, Nat.zero_add]
  rfl

theorem decryptLoop_eq (b : Words UInt32) : c.decryptLoop b = rounds.reverse.foldl c.undoRound b := by
  simp only [decryptLoop, range_four, decryptSeven_eq, rounds, List.reverse_append, List.reverse_cons,
    List.foldl_append, List.foldl_cons, List.foldl_nil, reduceIte, one_ne_zero, OfNat.ofNat_ne_zero,
    Nat.reduceSub, Nat.reduceAdd, Nat.sub_self]
  rfl

theorem decryptWords_encryptWords (b : Words UInt32) : c.decryptWords (c.encryptWords b) = b := by
  have hundo := foldl_reverse_undo (undoRound_applyRound c) rounds b
  unfold decryptWords encryptWords
  rw [encryptLoop_eq]
  simp only [addKey_addKey, si7_s7, decryptLoop_eq, hundo]

/-! ## Blocks -/

theorem length_onBlock (g : Words UInt32 → Words UInt32) (block : List UInt8) :
    (onBlock g block).length = 16 := by
  rw [onBlock, length_onWords]
  rfl

theorem onBlock_onBlock {g h : Words UInt32 → Words UInt32} (hinv : ∀ w, h (g w) = w)
    {block : List UInt8} (hlen : block.length = 16) : onBlock h (onBlock g block) = block := by
  unfold onBlock
  apply onWords_onWords _ hlen
  intro v
  have hwords : h (g ⟨v.get 0, v.get 1, v.get 2, v.get 3⟩) = ⟨v.get 0, v.get 1, v.get 2, v.get 3⟩ :=
    hinv _
  apply Vector.ext
  intro i hi
  match i, hi with
  | 0, _ => exact congrArg Words.x0 hwords
  | 1, _ => exact congrArg Words.x1 hwords
  | 2, _ => exact congrArg Words.x2 hwords
  | 3, _ => exact congrArg Words.x3 hwords

/-- The inverse circuits undo the circuits, and after a key `Decrypt` gives every block back. -/
theorem serpent_inverts {key : List UInt8} (hkey : key.length ≤ 4 * 140) :
    (∀ x : Words UInt32, si0 (s0 x) = x ∧ si1 (s1 x) = x ∧ si2 (s2 x) = x ∧ si3 (s3 x) = x ∧
      si4 (s4 x) = x ∧ si5 (s5 x) = x ∧ si6 (s6 x) = x ∧ si7 (s7 x) = x) ∧
    ∃ c', setKeyInternal c key = some c' ∧
      ∀ b : List UInt8, b.length = 16 → (c'.encrypt b).length = 16 ∧ c'.decrypt (c'.encrypt b) = b := by
  constructor
  · intro x
    exact ⟨si0_s0 x, si1_s1 x, si2_s2 x, si3_s3 x, si4_s4 x, si5_s5 x, si6_s6 x, si7_s7 x⟩
  · refine ⟨_, by rw [setKeyInternal, if_pos hkey], ?_⟩
    intro b hb
    exact ⟨length_onBlock _ _, onBlock_onBlock (decryptWords_encryptWords _) hb⟩

theorem serpent_inverts_zero :
    (∀ x : Words UInt32, si0 (s0 x) = x ∧ si1 (s1 x) = x ∧ si2 (s2 x) = x ∧ si3 (s3 x) = x ∧
      si4 (s4 x) = x ∧ si5 (s5 x) = x ∧ si6 (s6 x) = x ∧ si7 (s7 x) = x) ∧
    ∃ c', setKeyInternal ⟨.replicate 140 0⟩ [0] = some c' ∧
      ∀ b : List UInt8, b.length = 16 → (c'.encrypt b).length = 16 ∧ c'.decrypt (c'.encrypt b) = b :=
  serpent_inverts ⟨.replicate 140 0⟩ (show [(0 : UInt8)].length ≤ 4 * 140 by decide)

end Drew.Serpent
