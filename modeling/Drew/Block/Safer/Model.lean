import Mathlib.Tactic
import Drew.Block.Bytes
import Drew.Memory.Sizes
import Drew.Block.Rounds
import Drew.Field.Byte

/-!
# SAFER

The model of the classes `SAFER` (SAFER K) and `SAFER_SK`. Reading a table outside of it is undefined.
-/

namespace Drew

open Drew.Block

/-- Eight bytes: a block, or a subkey. -/
@[ext] structure Safer.Octet where
  x0 : UInt8
  x1 : UInt8
  x2 : UInt8
  x3 : UInt8
  x4 : UInt8
  x5 : UInt8
  x6 : UInt8
  x7 : UInt8

/-- The members. The constructor sets `rounds`, to 0 for a number that depends on the key. -/
structure Safer where
  k : Vector Safer.Octet 33
  rounds : Nat

namespace Safer

/-- The two classes. -/
inductive Class
  | k
  | sk

def maxRounds : Nat := 16

/-- The table `s`. -/
def s : Table :=
  [[0x01, 0x2d, 0xe2, 0x93, 0xbe, 0x45, 0x15, 0xae, 0x78, 0x03, 0x87, 0xa4, 0xb8, 0x38, 0xcf, 0x3f],
    [0x08, 0x67, 0x09, 0x94, 0xeb, 0x26, 0xa8, 0x6b, 0xbd, 0x18, 0x34, 0x1b, 0xbb, 0xbf, 0x72, 0xf7],
    [0x40, 0x35, 0x48, 0x9c, 0x51, 0x2f, 0x3b, 0x55, 0xe3, 0xc0, 0x9f, 0xd8, 0xd3, 0xf3, 0x8d, 0xb1],
    [0xff, 0xa7, 0x3e, 0xdc, 0x86, 0x77, 0xd7, 0xa6, 0x11, 0xfb, 0xf4, 0xba, 0x92, 0x91, 0x64, 0x83],
    [0xf1, 0x33, 0xef, 0xda, 0x2c, 0xb5, 0xb2, 0x2b, 0x88, 0xd1, 0x99, 0xcb, 0x8c, 0x84, 0x1d, 0x14],
    [0x81, 0x97, 0x71, 0xca, 0x5f, 0xa3, 0x8b, 0x57, 0x3c, 0x82, 0xc4, 0x52, 0x5c, 0x1c, 0xe8, 0xa0],
    [0x04, 0xb4, 0x85, 0x4a, 0xf6, 0x13, 0x54, 0xb6, 0xdf, 0x0c, 0x1a, 0x8e, 0xde, 0xe0, 0x39, 0xfc],
    [0x20, 0x9b, 0x24, 0x4e, 0xa9, 0x98, 0x9e, 0xab, 0xf2, 0x60, 0xd0, 0x6c, 0xea, 0xfa, 0xc7, 0xd9],
    [0x00, 0xd4, 0x1f, 0x6e, 0x43, 0xbc, 0xec, 0x53, 0x89, 0xfe, 0x7a, 0x5d, 0x49, 0xc9, 0x32, 0xc2],
    [0xf9, 0x9a, 0xf8, 0x6d, 0x16, 0xdb, 0x59, 0x96, 0x44, 0xe9, 0xcd, 0xe6, 0x46, 0x42, 0x8f, 0x0a],
    [0xc1, 0xcc, 0xb9, 0x65, 0xb0, 0xd2, 0xc6, 0xac, 0x1e, 0x41, 0x62, 0x29, 0x2e, 0x0e, 0x74, 0x50],
    [0x02, 0x5a, 0xc3, 0x25, 0x7b, 0x8a, 0x2a, 0x5b, 0xf0, 0x06, 0x0d, 0x47, 0x6f, 0x70, 0x9d, 0x7e],
    [0x10, 0xce, 0x12, 0x27, 0xd5, 0x4c, 0x4f, 0xd6, 0x79, 0x30, 0x68, 0x36, 0x75, 0x7d, 0xe4, 0xed],
    [0x80, 0x6a, 0x90, 0x37, 0xa2, 0x5e, 0x76, 0xaa, 0xc5, 0x7f, 0x3d, 0xaf, 0xa5, 0xe5, 0x19, 0x61],
    [0xfd, 0x4d, 0x7c, 0xb7, 0x0b, 0xee, 0xad, 0x4b, 0x22, 0xf5, 0xe7, 0x73, 0x23, 0x21, 0xc8, 0x05],
    [0xe1, 0x66, 0xdd, 0xb3, 0x58, 0x69, 0x63, 0x56, 0x0f, 0xa1, 0x31, 0x95, 0x17, 0x07, 0x3a, 0x28]]

/-- The table `sinv`. -/
def sinv : Table :=
  [[0x80, 0x00, 0xb0, 0x09, 0x60, 0xef, 0xb9, 0xfd, 0x10, 0x12, 0x9f, 0xe4, 0x69, 0xba, 0xad, 0xf8],
    [0xc0, 0x38, 0xc2, 0x65, 0x4f, 0x06, 0x94, 0xfc, 0x19, 0xde, 0x6a, 0x1b, 0x5d, 0x4e, 0xa8, 0x82],
    [0x70, 0xed, 0xe8, 0xec, 0x72, 0xb3, 0x15, 0xc3, 0xff, 0xab, 0xb6, 0x47, 0x44, 0x01, 0xac, 0x25],
    [0xc9, 0xfa, 0x8e, 0x41, 0x1a, 0x21, 0xcb, 0xd3, 0x0d, 0x6e, 0xfe, 0x26, 0x58, 0xda, 0x32, 0x0f],
    [0x20, 0xa9, 0x9d, 0x84, 0x98, 0x05, 0x9c, 0xbb, 0x22, 0x8c, 0x63, 0xe7, 0xc5, 0xe1, 0x73, 0xc6],
    [0xaf, 0x24, 0x5b, 0x87, 0x66, 0x27, 0xf7, 0x57, 0xf4, 0x96, 0xb1, 0xb7, 0x5c, 0x8b, 0xd5, 0x54],
    [0x79, 0xdf, 0xaa, 0xf6, 0x3e, 0xa3, 0xf1, 0x11, 0xca, 0xf5, 0xd1, 0x17, 0x7b, 0x93, 0x83, 0xbc],
    [0xbd, 0x52, 0x1e, 0xeb, 0xae, 0xcc, 0xd6, 0x35, 0x08, 0xc8, 0x8a, 0xb4, 0xe2, 0xcd, 0xbf, 0xd9],
    [0xd0, 0x50, 0x59, 0x3f, 0x4d, 0x62, 0x34, 0x0a, 0x48, 0x88, 0xb5, 0x56, 0x4c, 0x2e, 0x6b, 0x9e],
    [0xd2, 0x3d, 0x3c, 0x03, 0x13, 0xfb, 0x97, 0x51, 0x75, 0x4a, 0x91, 0x71, 0x23, 0xbe, 0x76, 0x2a],
    [0x5f, 0xf9, 0xd4, 0x55, 0x0b, 0xdc, 0x37, 0x31, 0x16, 0x74, 0xd7, 0x77, 0xa7, 0xe6, 0x07, 0xdb],
    [0xa4, 0x2f, 0x46, 0xf3, 0x61, 0x45, 0x67, 0xe3, 0x0c, 0xa2, 0x3b, 0x1c, 0x85, 0x18, 0x04, 0x1d],
    [0x29, 0xa0, 0x8f, 0xb2, 0x5a, 0xd8, 0xa6, 0x7e, 0xee, 0x8d, 0x53, 0x4b, 0xa1, 0x9a, 0xc1, 0x0e],
    [0x7a, 0x49, 0xa5, 0x2c, 0x81, 0xc4, 0xc7, 0x36, 0x2b, 0x7f, 0x43, 0x95, 0x33, 0xf2, 0x6c, 0x68],
    [0x6d, 0xf0, 0x02, 0x28, 0xce, 0xdd, 0x9b, 0xea, 0x5e, 0x99, 0x7c, 0x14, 0x86, 0xcf, 0xe5, 0x42],
    [0xb8, 0x40, 0x78, 0x2d, 0x3a, 0xe9, 0x64, 0x1f, 0x92, 0x90, 0x7d, 0x39, 0x6f, 0xe0, 0x89, 0x30]]

def rotateLeft (x n : UInt8) : UInt8 := x <<< n ||| x >>> (8 - n)

def rotateRight (x n : UInt8) : UInt8 := x >>> n ||| x <<< (8 - n)

/-! ## The key schedules -/

def Octet.ofFn (f : Nat → UInt8) : Octet := ⟨f 0, f 1, f 2, f 3, f 4, f 5, f 6, f 7⟩

/-- `s[s[i]]`. -/
def bias (i : Nat) : Option UInt8 := (s.get? i).map s.entry

/-- A subkey `k[n - 1]`: `f j + s[s[9 * n + j + 1]]` at `j`. -/
def subkey (f : Nat → UInt8) (n : Nat) : Option Octet := do
  let bs ← (List.range 8).mapM fun j => bias (9 * n + j + 1)
  some (Octet.ofFn fun j => f j + bs.getD j 0)

/-- Rotations of all bytes of an array. -/
def turn (r : List UInt8) (n : UInt8) : List UInt8 := r.map (rotateLeft · n)

/-- `r[j]`, or `r[(i + j) % 9]` in `SAFER_SK`. -/
def Class.pick : Class → List UInt8 → Nat → Nat → UInt8
  | k, r, _, j => r.getD j 0
  | sk, r, i, j => r.getD ((i + j) % 9) 0

/-- The eight bytes of a half of the key, in `SAFER_SK` with their parity. -/
def Class.extend : Class → List UInt8 → List UInt8
  | k, r => r
  | sk, r => r ++ [r.foldl (· ^^^ ·) 0]

/-- The loop for a key of 8 bytes: `n` passes from `i` on, the array `r` and the subkeys. -/
def loop8 (C : Class) : Nat → Nat → List UInt8 → Vector Octet 33 → Option (Vector Octet 33)
  | 0, _, _, k => some k
  | n + 1, i, r, k => do
    let r := turn r 3
    let o ← subkey (C.pick r i) (i + 1)
    loop8 C n (i + 1) r (k.setIfInBounds i o)

/-- The loop for a key of 16 bytes, which makes two subkeys in a pass. -/
def loop16 (C : Class) : Nat → Nat → List UInt8 → List UInt8 → Vector Octet 33 → Option (Vector Octet 33)
  | 0, _, _, _, k => some k
  | n + 1, i, r1, r2, k => do
    let r1 := turn r1 6
    let r2 := turn r2 6
    let o1 ← subkey (C.pick r1 i) (i + 1)
    let o2 ← subkey (C.pick r2 (i + 1)) (i + 2)
    loop16 C n (i + 2) r1 r2 ((k.setIfInBounds i o1).setIfInBounds (i + 1) o2)

/-- The number of rounds after the `switch`. -/
def roundsFor (rounds len : Nat) : Nat := if rounds = 0 then (if len = 8 then 6 else 10) else rounds

/-- The subkeys of a key. -/
def fillKeys (C : Class) (rounds : Nat) (key : List UInt8) (k : Vector Octet 33) : Option (Vector Octet 33) :=
  if key.length = 8 then
    loop8 C (2 * rounds) 1 (C.extend key) (k.setIfInBounds 0 (Octet.ofFn fun j => key.getD j 0))
  else
    loop16 C rounds 1 ((C.extend (key.take 8)).map (rotateRight · 3)) (C.extend (key.drop 8))
      (k.setIfInBounds 0 (Octet.ofFn fun j => (key.drop 8).getD j 0))

/-- What a call can end in. -/
inductive Outcome
  | undefined
  | failed (c : Safer)
  | done (c : Safer)

/-- `SetKeyInternal`. The number of rounds is kept also when it is too large. -/
def setKeyInternal (C : Class) (c : Safer) (key : List UInt8) : Outcome :=
  if key.length = 8 ∨ key.length = 16 then
    let rounds := roundsFor c.rounds key.length
    if maxRounds < rounds then .failed { c with rounds }
    else
      match fillKeys C rounds key c.k with
      | none => .undefined
      | some k => .done { k, rounds }
  else .failed c

/-! ## Rounds -/

section Rounds

variable (x sk : Octet)

/-- `F` and `FInverse` of two bytes. -/
def F (l r : UInt8) : UInt8 × UInt8 := (l <<< 1 + r, l + r)

def FInverse (l r : UInt8) : UInt8 × UInt8 := (l - r, r <<< 1 - l)

def forwardA : Octet :=
  ⟨x.x0 ^^^ sk.x0, x.x1 + sk.x1, x.x2 + sk.x2, x.x3 ^^^ sk.x3, x.x4 ^^^ sk.x4, x.x5 + sk.x5,
    x.x6 + sk.x6, x.x7 ^^^ sk.x7⟩

def inverseA : Octet :=
  ⟨x.x0 ^^^ sk.x0, x.x1 - sk.x1, x.x2 - sk.x2, x.x3 ^^^ sk.x3, x.x4 ^^^ sk.x4, x.x5 - sk.x5,
    x.x6 - sk.x6, x.x7 ^^^ sk.x7⟩

def forwardB : Octet :=
  ⟨x.x0 + sk.x0, x.x1 ^^^ sk.x1, x.x2 ^^^ sk.x2, x.x3 + sk.x3, x.x4 + sk.x4, x.x5 ^^^ sk.x5,
    x.x6 ^^^ sk.x6, x.x7 + sk.x7⟩

def inverseB : Octet :=
  ⟨x.x0 - sk.x0, x.x1 ^^^ sk.x1, x.x2 ^^^ sk.x2, x.x3 - sk.x3, x.x4 - sk.x4, x.x5 ^^^ sk.x5,
    x.x6 ^^^ sk.x6, x.x7 - sk.x7⟩

def doF : Octet :=
  ⟨(F x.x0 x.x1).1, (F x.x0 x.x1).2, (F x.x2 x.x3).1, (F x.x2 x.x3).2, (F x.x4 x.x5).1, (F x.x4 x.x5).2,
    (F x.x6 x.x7).1, (F x.x6 x.x7).2⟩

def doFInverse : Octet :=
  ⟨(FInverse x.x0 x.x1).1, (FInverse x.x0 x.x1).2, (FInverse x.x2 x.x3).1, (FInverse x.x2 x.x3).2,
    (FInverse x.x4 x.x5).1, (FInverse x.x4 x.x5).2, (FInverse x.x6 x.x7).1, (FInverse x.x6 x.x7).2⟩

def permuteForward : Octet :=
  ⟨(F x.x0 x.x2).1, (F x.x0 x.x2).2, (F x.x4 x.x6).1, (F x.x4 x.x6).2, (F x.x1 x.x3).1, (F x.x1 x.x3).2,
    (F x.x5 x.x7).1, (F x.x5 x.x7).2⟩

def permuteInverse : Octet :=
  ⟨(FInverse x.x0 x.x1).1, (FInverse x.x4 x.x5).1, (FInverse x.x0 x.x1).2, (FInverse x.x4 x.x5).2,
    (FInverse x.x2 x.x3).1, (FInverse x.x6 x.x7).1, (FInverse x.x2 x.x3).2, (FInverse x.x6 x.x7).2⟩

def substituteForward : Octet :=
  ⟨s.entry x.x0, sinv.entry x.x1, sinv.entry x.x2, s.entry x.x3, s.entry x.x4, sinv.entry x.x5,
    sinv.entry x.x6, s.entry x.x7⟩

def substituteInverse : Octet :=
  ⟨sinv.entry x.x0, s.entry x.x1, s.entry x.x2, sinv.entry x.x3, sinv.entry x.x4, s.entry x.x5,
    s.entry x.x6, sinv.entry x.x7⟩

variable (c : Safer)

/-- `k[n]`. -/
def key (n : Nat) : Octet := c.k.get (Fin.ofNat 33 n)

/-- A round, with `sk` at `k[n]`. -/
def encryptRound (x : Octet) (n : Nat) : Octet :=
  let x := forwardB (substituteForward (forwardA x (c.key n))) (c.key (n + 1))
  permuteForward (permuteForward (doF x))

def decryptRound (x : Octet) (n : Nat) : Octet :=
  let x := doFInverse (permuteInverse (permuteInverse x))
  inverseA (substituteInverse (inverseB x (c.key (n + 1)))) (c.key n)

/-- `Encrypt`, with the index that `sk` stands for. -/
def encryptOctet (x : Octet) : Octet :=
  let st := (List.range c.rounds).foldl (fun st _ => (c.encryptRound st.1 st.2, st.2 + 2)) (x, 0)
  forwardA st.1 (c.key st.2)

/-- `Decrypt`. -/
def decryptOctet (x : Octet) : Octet :=
  ((List.range c.rounds).foldl (fun st _ => (c.decryptRound st.1 st.2, st.2 - 2))
    (inverseA x (c.key (2 * c.rounds)), 2 * c.rounds - 2)).1

/-- A function of eight bytes on a block. -/
def onBlock (g : Octet → Octet) (block : List UInt8) : List UInt8 :=
  let y := g (Octet.ofFn fun j => block.getD j 0)
  [y.x0, y.x1, y.x2, y.x3, y.x4, y.x5, y.x6, y.x7]

def encrypt (block : List UInt8) : List UInt8 := onBlock c.encryptOctet block

def decrypt (block : List UInt8) : List UInt8 := onBlock c.decryptOctet block

end Rounds

end Safer

end Drew

/-!
## Decryption with SAFER

The tables are inverse permutations, and every layer of a round has its inverse, so `Decrypt` gives
blocks back whatever the subkeys are.
-/

namespace Drew.Safer

open Drew.Block

/-! ## Layers -/

theorem sinv_s (x : UInt8) : sinv.entry (s.entry x) = x ∧ s.entry (sinv.entry x) = x := by
  revert x
  apply Field.forall_byte
  decide +kernel

theorem shiftLeft_one (x : UInt8) : x <<< 1 = x + x := by
  revert x
  apply Field.forall_byte
  decide +kernel

theorem FInverse_F (l r : UInt8) : FInverse (F l r).1 (F l r).2 = (l, r) := by
  simp only [FInverse, F, shiftLeft_one]
  apply Prod.ext
  · show l + l + r - (l + r) = l
    grind
  · show l + r + (l + r) - (l + l + r) = r
    grind

theorem byte_add_sub (a b : UInt8) : a + b - b = a := by simp

theorem xor_byte_right (a b : UInt8) : a ^^^ b ^^^ b = a := Field.xor_byte_self_right a b

variable (x sk : Octet)

theorem inverseA_forwardA : inverseA (forwardA x sk) sk = x := by
  simp only [inverseA, forwardA, byte_add_sub, xor_byte_right]

theorem inverseB_forwardB : inverseB (forwardB x sk) sk = x := by
  simp only [inverseB, forwardB, byte_add_sub, xor_byte_right]

theorem doFInverse_doF : doFInverse (doF x) = x := by
  simp only [doFInverse, doF, FInverse_F]

theorem permuteInverse_permuteForward : permuteInverse (permuteForward x) = x := by
  simp only [permuteInverse, permuteForward, FInverse_F]

theorem substituteInverse_substituteForward : substituteInverse (substituteForward x) = x := by
  simp only [substituteInverse, substituteForward, sinv_s]

/-! ## All rounds -/

variable (c : Safer)

theorem decryptRound_encryptRound (n : Nat) : c.decryptRound (c.encryptRound x n) (n + 0) = x := by
  simp only [decryptRound, encryptRound, permuteInverse_permuteForward, doFInverse_doF, inverseB_forwardB,
    substituteInverse_substituteForward, inverseA_forwardA, Nat.add_zero]

theorem decryptOctet_encryptOctet : c.decryptOctet (c.encryptOctet x) = x := by
  have hindex := countUp_index (f := c.encryptRound) (d := 2) c.rounds x 0
  have hundo := countDown_countUp (d := 2) (fun x n => decryptRound_encryptRound x c n) c.rounds 0 x
  rw [Nat.zero_add] at hindex hundo
  have hencrypt : c.encryptOctet x = forwardA (countUp c.encryptRound 2 c.rounds (x, 0)).1
      (c.key (2 * c.rounds)) := by
    rw [← hindex]
    rfl
  rw [decryptOctet, hencrypt, inverseA_forwardA]
  exact hundo

end Drew.Safer
