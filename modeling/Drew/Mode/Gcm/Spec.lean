import Drew.Mode.Basic
import Drew.Mode.Gcm.Field

/-!
# What GCM is meant to compute

Counter blocks, the hash of a list of blocks, the initial counter, ciphertext and tag, in
terms of the block cipher and of the product of blocks. A text is turned into blocks by
filling up the last one with fewer than 16 zero bytes.
-/

namespace Drew.Mode.Gcm

open Drew.Memory Drew.Block Drew.Stream

/-! ## Counters -/

/-- Count in the last four bytes of a block, modulo `2 ^ 32`. -/
def inc32 (b : List UInt8) : List UInt8 := b.take 12 ++ beBytes 4 (beNat (b.drop 12) + 1)

theorem length_inc32 {b : List UInt8} (h : b.length = 16) : (inc32 b).length = 16 := by
  simp [inc32, h]

theorem length_inc32s {b : List UInt8} (h : b.length = 16) (q : Nat) : (inc32^[q] b).length = 16 := by
  induction q with
  | zero => exact h
  | succ q ih => rw [Function.iterate_succ_apply', length_inc32 ih]

/-- Counting `q` times. -/
theorem inc32s_eq {b : List UInt8} (h : b.length = 16) (q : Nat) :
    inc32^[q] b = b.take 12 ++ beBytes 4 (beNat (b.drop 12) + q) := by
  induction q with
  | zero =>
    have hlast := beBytes_beNat (b.drop 12)
    rw [List.length_drop, h] at hlast
    rw [Nat.add_zero, hlast, List.take_append_drop]
    rfl
  | succ q ih =>
    have hlen : (b.take 12).length = 12 := by simp [h]
    rw [Function.iterate_succ_apply', ih, inc32, List.take_left' hlen, List.drop_left' hlen,
      beNat_beBytes, ← beBytes_mod, Nat.mod_add_mod, beBytes_mod, Nat.add_assoc]

/-! ## Blocks and their hash -/

/-- Fill up a block with zero bytes. -/
def padBlock (b : List UInt8) : List UInt8 := b ++ List.replicate (16 - b.length) 0

/-- The first `n` blocks of a text. -/
def toBlocks : Nat → List UInt8 → List (BitVec 128)
  | 0, _ => []
  | n + 1, bs => ofBytes (padBlock (bs.take 16)) :: toBlocks n (bs.drop 16)

/-- All blocks of a text, the last one filled up. -/
def padBlocks (bs : List UInt8) : List (BitVec 128) := toBlocks ((bs.length + 15) / 16) bs

/-- The hash of a list of blocks, continued from `x`. -/
def ghash (H x : BitVec 128) (bs : List (BitVec 128)) : BitVec 128 :=
  bs.foldl (fun x b => product (x ^^^ b) H) x

theorem ghash_append (H x : BitVec 128) (as bs : List (BitVec 128)) :
    ghash H x (as ++ bs) = ghash H (ghash H x as) bs := List.foldl_append

theorem ghash_singleton (H x b : BitVec 128) : ghash H x [b] = product (x ^^^ b) H := rfl

theorem padBlock_of_length {b : List UInt8} (h : b.length = 16) : padBlock b = b := by
  simp [padBlock, h]

theorem length_padBlock {b : List UInt8} (h : b.length ≤ 16) : (padBlock b).length = 16 := by
  simp [padBlock]
  omega

theorem toBlocks_append {n : Nat} {xs : List UInt8} (h : xs.length = 16 * n) (m : Nat)
    (ys : List UInt8) : toBlocks (n + m) (xs ++ ys) = toBlocks n xs ++ toBlocks m ys := by
  induction n generalizing xs with
  | zero =>
    have hnil : xs = [] := List.eq_nil_of_length_eq_zero (by omega)
    simp [hnil, toBlocks]
  | succ n ih =>
    have htake : (xs ++ ys).take 16 = xs.take 16 := List.take_append_of_le_length (by omega)
    have hdrop : (xs ++ ys).drop 16 = xs.drop 16 ++ ys := List.drop_append_of_le_length (by omega)
    rw [show n + 1 + m = (n + m) + 1 by omega, toBlocks, toBlocks, htake, hdrop,
      ih (by simp; omega), List.cons_append]

/-- Only the first `n` blocks of the text matter. -/
theorem toBlocks_append_left {n : Nat} {xs : List UInt8} (h : 16 * n ≤ xs.length) (ys : List UInt8) :
    toBlocks n (xs ++ ys) = toBlocks n xs := by
  induction n generalizing xs with
  | zero => rfl
  | succ n ih =>
    have htake : (xs ++ ys).take 16 = xs.take 16 := List.take_append_of_le_length (by omega)
    have hdrop : (xs ++ ys).drop 16 = xs.drop 16 ++ ys := List.drop_append_of_le_length (by omega)
    rw [toBlocks, toBlocks, htake, hdrop, ih (by simp; omega)]

theorem toBlocks_one {b : List UInt8} (h : b.length ≤ 16) : toBlocks 1 b = [ofBytes (padBlock b)] := by
  simp [toBlocks, List.take_of_length_le h]

/-- One more block. -/
theorem toBlocks_snoc {n : Nat} {xs b : List UInt8} (h : xs.length = 16 * n) (hb : b.length ≤ 16) :
    toBlocks (n + 1) (xs ++ b) = toBlocks n xs ++ [ofBytes (padBlock b)] := by
  rw [toBlocks_append h, toBlocks_one hb]

/-- The blocks of a text of `16 * n` bytes and the rest of it. -/
theorem padBlocks_append {n : Nat} {xs b : List UInt8} (h : xs.length = 16 * n) (hb : b.length < 16) :
    padBlocks (xs ++ b) =
      toBlocks n xs ++ (if b.length = 0 then [] else [ofBytes (padBlock b)]) := by
  have hlen : (xs ++ b).length = 16 * n + b.length := by simp [h]
  rw [padBlocks, hlen]
  split
  · rename_i h0
    have hnil : b = [] := List.eq_nil_of_length_eq_zero h0
    rw [h0, hnil, List.append_nil, List.append_nil, show (16 * n + 0 + 15) / 16 = n by omega]
  · rw [show (16 * n + b.length + 15) / 16 = n + 1 by omega, toBlocks_snoc h (by omega)]

/-! ## Ciphertext and tag -/

/-- The block that is multiplied with. -/
def hashKey (E : BlockCipher) : BitVec 128 := ofBytes (E.encrypt (List.replicate 16 0))

/-- The two lengths in bits. -/
def lengthBlock (alen clen : Nat) : List UInt8 := beBytes 8 (8 * alen) ++ beBytes 8 (8 * clen)

/-- The initial counter. -/
def initialCounter (E : BlockCipher) (iv : List UInt8) : List UInt8 :=
  if iv.length = 12 then iv ++ [0, 0, 0, 1]
  else toBytes (ghash (hashKey E) 0#128 (padBlocks iv ++ [ofBytes (lengthBlock 0 iv.length)]))

/-- Block `q` of the keystream from the initial counter `j`. -/
def keyBlock (E : BlockCipher) (j : List UInt8) (q : Nat) : List UInt8 := E.encrypt (inc32^[q + 1] j)

/-- The text combined with as many blocks of keystream as it needs. -/
def gctr (E : BlockCipher) (j xs : List UInt8) : List UInt8 :=
  xorBytes (blocks (keyBlock E j) ((xs.length + 15) / 16)) xs

/-- The hash of the additional data and the ciphertext. -/
def authHash (E : BlockCipher) (aad cipher : List UInt8) : BitVec 128 :=
  ghash (hashKey E) 0#128
    (padBlocks aad ++ padBlocks cipher ++ [ofBytes (lengthBlock aad.length cipher.length)])

def tagBlock (E : BlockCipher) (j aad cipher : List UInt8) : List UInt8 :=
  xorBytes (toBytes (authHash E aad cipher)) (E.encrypt j)

theorem length_initialCounter (E : BlockCipher) (iv : List UInt8) :
    (initialCounter E iv).length = 16 := by
  unfold initialCounter
  split
  · rename_i h
    simp [h]
  · exact length_toBytes _

end Drew.Mode.Gcm
