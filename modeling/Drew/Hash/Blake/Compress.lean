import Drew.Hash.Class
import Drew.Hash.Template
import Drew.Hash.Blake2b.Model
import Drew.Hash.Length
import Drew.Memory.Endian

/-!
# BLAKE

The model of the template `BLAKETransform`, whose counter runs with the blocks because it goes
into their compression. BLAKE-224 and BLAKE-256 have words of 32 bits, BLAKE-384 and BLAKE-512
of 64 bits. Each of them overrides the fast update with the plain one.

What `GetDigest` makes of the members is a parameter.
-/

namespace Drew.Blake

open Drew.Memory Drew.HashClass

variable {P : Hash.Params} {σ : Type}

/-- A call of the compression function: a block and the two words of the counter. -/
structure Compression (P : Hash.Params) where
  block : List UInt8
  len0 : BitVec P.wordBits
  len1 : BitVec P.wordBits

variable (f : σ → Compression P → σ)

/-- `Transform` with the present counter. -/
def compress (h : Hash P σ) (block : List UInt8) : Hash P σ :=
  { h with hash := f h.hash ⟨block, h.len0, h.len1⟩ }

/-- Fill up the block that an earlier call began. -/
def fill (h : Hash P σ) (data : List UInt8) : Option (Hash P σ × List UInt8) :=
  let off := h.len0.toNat % P.blkSize
  if off ≠ 0 then do
    let i := min (P.blkSize - off) data.length
    let buf ← h.buf.write off (data.take i)
    let h := Hash.count { h with buf := buf } i
    return (if i + off = P.blkSize then compress f h buf.toList else h, data.drop i)
  else some (h, data)

/-- Compress `k` blocks of the data, each counted before. -/
def wholeBlocks : Nat → Hash P σ → List UInt8 → Hash P σ × List UInt8
  | 0, h, data => (h, data)
  | k + 1, h, data =>
      wholeBlocks k (compress f (h.count P.blkSize) (data.take P.blkSize)) (data.drop P.blkSize)

def update (h : Hash P σ) (data : List UInt8) : Option (Hash P σ) := do
  let (h, data) ← fill f h data
  let (h, data) := wholeBlocks f (data.length / P.blkSize) h data
  let buf ← h.buf.write 0 data
  return Hash.count { h with buf := buf } data.length

def updateFast (h : Hash P σ) (data : List UInt8) : Option (Hash P σ) := update f h data

/-- The class, as the plugin uses it. -/
abbrev hashClass (digest : Hash P σ → Option (List UInt8)) (s : σ) : HashClass where
  State := Hash P σ
  blockSize := P.blkSize
  reset := Hash.init s
  update := update f
  updateFast := updateFast f
  getDigest := digest

theorem agrees (digest : Hash P σ → Option (List UInt8)) (s : σ) (cs : List Call) :
    (hashClass f digest s).Agrees cs := agrees_of_same rfl cs

end Drew.Blake

/-!
## The compression function of BLAKE

The model of `BLAKE256Transform` and `BLAKE512Transform`, which differ in their words, constants,
rotations and number of rounds, and the function that the specification defines. The class counts
bytes and makes a number of bits of them for each block.
-/

namespace Drew.Blake

open Drew.Memory

/-! ## The code -/

/-- What the two classes `BLAKE256Transform` and `BLAKE512Transform` differ in. -/
structure Core where
  P : Hash.Params
  /-- `k256` or `k512`. -/
  k : Vector (BitVec P.wordBits) 16
  /-- The constants of `v[8]` to `v[15]`. -/
  start : Vector (BitVec P.wordBits) 8
  rot0 : Nat
  rot1 : Nat
  rot2 : Nat
  rot3 : Nat
  /-- The rows of `sigma` in the calls of `Round`. -/
  rows : List (Fin 10)

def k256 : Vector (BitVec Hash.Params.words32.wordBits) 16 := #v[
  0x243f6a88, 0x85a308d3, 0x13198a2e, 0x03707344,
  0xa4093822, 0x299f31d0, 0x082efa98, 0xec4e6c89,
  0x452821e6, 0x38d01377, 0xbe5466cf, 0x34e90c6c,
  0xc0ac29b7, 0xc97c50dd, 0x3f84d5b5, 0xb5470917]

def k512 : Vector (BitVec Hash.Params.words64.wordBits) 16 := #v[
  0x243f6a8885a308d3, 0x13198a2e03707344,
  0xa4093822299f31d0, 0x082efa98ec4e6c89,
  0x452821e638d01377, 0xbe5466cf34e90c6c,
  0xc0ac29b7c97c50dd, 0x3f84d5b5b5470917,
  0x9216d5d98979fb1b, 0xd1310ba698dfb5ac,
  0x2ffd72dbd01adfb7, 0xb8e1afed6a267e96,
  0xba7c9045f12c7f99, 0x24a19947b3916cf7,
  0x0801f2e2858efc16, 0x636920d871574e69]

/-- `BLAKE256Transform`. -/
def blake256Transform : Core where
  P := .words32
  k := k256
  start := #v[0x243f6a88, 0x85a308d3, 0x13198a2e, 0x03707344,
    0xa4093822, 0x299f31d0, 0x082efa98, 0xec4e6c89]
  rot0 := 16
  rot1 := 12
  rot2 := 8
  rot3 := 7
  rows := [0, 1, 2, 3, 4, 5, 6, 7, 8, 9, 0, 1, 2, 3]

/-- `BLAKE512Transform`. -/
def blake512Transform : Core where
  P := .words64
  k := k512
  start := #v[0x243f6a8885a308d3, 0x13198a2e03707344, 0xa4093822299f31d0, 0x082efa98ec4e6c89,
    0x452821e638d01377, 0xbe5466cf34e90c6c, 0xc0ac29b7c97c50dd, 0x3f84d5b5b5470917]
  rot0 := 32
  rot1 := 25
  rot2 := 16
  rot3 := 11
  rows := [0, 1, 2, 3, 4, 5, 6, 7, 8, 9, 0, 1, 2, 3, 4, 5]

/-- A word of the class. -/
abbrev Core.Word (C : Core) : Type := BitVec C.P.wordBits

variable (C : Core)

/-- `RotateRight`. -/
def rotateRight {w : Nat} (x : BitVec w) (n : Nat) : BitVec w := x >>> n ||| x <<< (w - n)

/-- `G` on the words at four places, for the entries `r[0]` and `r[1]` of a row. -/
def G (v : Vector C.Word 16) (a b c d ri0 ri1 : Fin 16) (m : Vector C.Word 16) : Vector C.Word 16 :=
  let v := v.set a (v.get a + (v.get b + (m.get ri0 ^^^ C.k.get ri1))) (lt_16 a)
  let v := v.set d (rotateRight (v.get d ^^^ v.get a) C.rot0) (lt_16 d)
  let v := v.set c (v.get c + v.get d) (lt_16 c)
  let v := v.set b (rotateRight (v.get b ^^^ v.get c) C.rot1) (lt_16 b)
  let v := v.set a (v.get a + (v.get b + (m.get ri1 ^^^ C.k.get ri0))) (lt_16 a)
  let v := v.set d (rotateRight (v.get d ^^^ v.get a) C.rot2) (lt_16 d)
  let v := v.set c (v.get c + v.get d) (lt_16 c)
  v.set b (rotateRight (v.get b ^^^ v.get c) C.rot3) (lt_16 b)

/-- `Round`. -/
def round (v : Vector C.Word 16) (r : Vector (Fin 16) 16) (m : Vector C.Word 16) : Vector C.Word 16 :=
  let v := G C v 0 4 8 12 (r.get 0) (r.get 1) m
  let v := G C v 1 5 9 13 (r.get 2) (r.get 3) m
  let v := G C v 2 6 10 14 (r.get 4) (r.get 5) m
  let v := G C v 3 7 11 15 (r.get 6) (r.get 7) m
  let v := G C v 0 5 10 15 (r.get 8) (r.get 9) m
  let v := G C v 1 6 11 12 (r.get 10) (r.get 11) m
  let v := G C v 2 7 8 13 (r.get 12) (r.get 13) m
  G C v 3 4 9 14 (r.get 14) (r.get 15) m

/-- `E::Copy` to the words of a block, the first byte of a word being the highest. -/
def loadWords (block : List UInt8) : Vector C.Word 16 :=
  Vector.ofFn fun i =>
    BitVec.ofNat C.P.wordBits (beNat ((block.drop (C.P.wordBytes * i)).take C.P.wordBytes))

/-- `len` of `Transform`: the two words of the number of bits, the low one first. -/
def lenBits (len0 len1 : C.Word) : C.Word × C.Word :=
  (len0 <<< 3, len1 <<< 3 ||| len0 >>> (C.P.wordBits - 3))

/-- `XorAligned` with the second half, and then of the state. -/
def finish {w : Nat} (state : Vector (BitVec w) 8) (v : Vector (BitVec w) 16) : Vector (BitVec w) 8 :=
  Vector.ofFn fun i => state.get i ^^^ (v.get (i.castAdd 8) ^^^ v.get (i.natAdd 8))

/-- `Transform`. -/
def transform (state : Vector C.Word 8) (e : Compression C.P) : Vector C.Word 8 :=
  let m := loadWords C e.block
  let len := lenBits C e.len0 e.len1
  let v := state ++ (#v[C.start.get 0, C.start.get 1, C.start.get 2, C.start.get 3,
    C.start.get 4 ^^^ len.1, C.start.get 5 ^^^ len.1, C.start.get 6 ^^^ len.2,
    C.start.get 7 ^^^ len.2] : Vector C.Word 8)
  finish state (C.rows.foldl (fun v i => round C v (Blake2b.sigma.get i) m) v)

/-! ## What is meant -/

namespace Spec

variable (C : Core)

/-- The places of the words that the functions `G` of a round work on, columns first, with the
places in a row of the permutations. -/
def places : List (Fin 16 × Fin 16 × Fin 16 × Fin 16 × Fin 16 × Fin 16) :=
  [(0, 4, 8, 12, 0, 1), (1, 5, 9, 13, 2, 3), (2, 6, 10, 14, 4, 5), (3, 7, 11, 15, 6, 7),
    (0, 5, 10, 15, 8, 9), (1, 6, 11, 12, 10, 11), (2, 7, 8, 13, 12, 13), (3, 4, 9, 14, 14, 15)]

def G (v : Vector C.Word 16) (a b c d i j : Fin 16) (m : Vector C.Word 16) : Vector C.Word 16 :=
  let v := v.set a (v.get a + v.get b + (m.get i ^^^ C.k.get j)) (lt_16 a)
  let v := v.set d ((v.get d ^^^ v.get a).rotateRight C.rot0) (lt_16 d)
  let v := v.set c (v.get c + v.get d) (lt_16 c)
  let v := v.set b ((v.get b ^^^ v.get c).rotateRight C.rot1) (lt_16 b)
  let v := v.set a (v.get a + v.get b + (m.get j ^^^ C.k.get i)) (lt_16 a)
  let v := v.set d ((v.get d ^^^ v.get a).rotateRight C.rot2) (lt_16 d)
  let v := v.set c (v.get c + v.get d) (lt_16 c)
  v.set b ((v.get b ^^^ v.get c).rotateRight C.rot3) (lt_16 b)

/-- Round `r` uses the permutation `r` modulo ten. -/
def round (m : Vector C.Word 16) (v : Vector C.Word 16) (r : Nat) : Vector C.Word 16 :=
  let s := Blake2b.sigma.get (Fin.ofNat 10 r)
  places.foldl (fun v p =>
    G C v p.1 p.2.1 p.2.2.1 p.2.2.2.1 (s.get p.2.2.2.2.1) (s.get p.2.2.2.2.2) m) v

/-- 14 rounds with words of 32 bits, 16 with words of 64 bits. -/
def rounds : Nat := if C.P.wordBytes = 4 then 14 else 16

/-- The compression of 16 words with the chain value `h` and the counter `t`, without a salt. -/
def compress (h : Vector C.Word 8) (m : Vector C.Word 16) (t : Nat) : Vector C.Word 8 :=
  let t0 : C.Word := BitVec.ofNat _ t
  let t1 : C.Word := BitVec.ofNat _ (t / 2 ^ C.P.wordBits)
  let v := h ++ (#v[C.k.get 0, C.k.get 1, C.k.get 2, C.k.get 3, t0 ^^^ C.k.get 4, t0 ^^^ C.k.get 5,
    t1 ^^^ C.k.get 6, t1 ^^^ C.k.get 7] : Vector C.Word 8)
  let v := (List.range (rounds C)).foldl (round C m) v
  Vector.ofFn fun i : Fin 8 => h.get i ^^^ v.get (i.castAdd 8) ^^^ v.get (i.natAdd 8)

/-- The words of a block of bits. -/
def words (block : List Bool) : Vector C.Word 16 :=
  Vector.ofFn fun i =>
    BitVec.ofNat C.P.wordBits (bitsVal ((block.drop (C.P.wordBits * i)).take C.P.wordBits))

end Spec

/-! ## They are the same -/

/-- What the tables and constants of both classes have. -/
structure Core.Fits (C : Core) : Prop where
  rows_eq : C.rows = (List.range (Spec.rounds C)).map (Fin.ofNat 10)
  start_eq : ∀ i : Fin 8, C.start.get i = C.k.get (i.castAdd 8)
  rot0_lt : C.rot0 < C.P.wordBits
  rot1_lt : C.rot1 < C.P.wordBits
  rot2_lt : C.rot2 < C.P.wordBits
  rot3_lt : C.rot3 < C.P.wordBits
  blkSize_eq : C.P.blkSize = 16 * C.P.wordBytes

theorem blake256Transform_fits : blake256Transform.Fits :=
  ⟨by decide, by decide, by decide, by decide, by decide, by decide, rfl⟩

theorem blake512Transform_fits : blake512Transform.Fits :=
  ⟨by decide, by decide, by decide, by decide, by decide, by decide, rfl⟩

variable {C : Core}

theorem rotateRight_eq {w : Nat} (x : BitVec w) {n : Nat} (h : n < w) :
    rotateRight x n = x.rotateRight n := by
  rw [BitVec.rotateRight_def, Nat.mod_eq_of_lt h, rotateRight]

theorem G_eq (hC : C.Fits) (v : Vector C.Word 16) (a b c d i j : Fin 16) (m : Vector C.Word 16) :
    G C v a b c d i j m = Spec.G C v a b c d i j m := by
  simp only [G, Spec.G, rotateRight_eq _ hC.rot0_lt, rotateRight_eq _ hC.rot1_lt,
    rotateRight_eq _ hC.rot2_lt, rotateRight_eq _ hC.rot3_lt, BitVec.add_assoc]

theorem round_eq (hC : C.Fits) (v m : Vector C.Word 16) (r : Nat) :
    round C v (Blake2b.sigma.get (Fin.ofNat 10 r)) m = Spec.round C m v r := by
  simp only [round, Spec.round, Spec.places, List.foldl_cons, List.foldl_nil, G_eq hC]

/-- The two words of a counter, as those of the number of its bits. -/
theorem lenWords_eq {w : Nat} (hw : 3 ≤ w) (t : Nat) :
    BitVec.ofNat w (t / 2 ^ w) <<< 3 ||| BitVec.ofNat w t >>> (w - 3) = BitVec.ofNat w (8 * t / 2 ^ w) ∧
      BitVec.ofNat w t <<< 3 = BitVec.ofNat w (8 * t) := by
  obtain ⟨N, hN⟩ : ∃ N, N = 2 ^ w := ⟨_, rfl⟩
  have hpos : 0 < N := hN ▸ Nat.two_pow_pos _
  constructor
  · apply BitVec.eq_of_toNat_eq
    have hsplit : t = (t / N % N * N + t % N) + N * (N * (t / N / N)) := by
      have hlow := Nat.div_add_mod t N
      have hhigh := Nat.div_add_mod (t / N) N
      calc t = N * (N * (t / N / N) + t / N % N) + t % N := by rw [hhigh, hlow]
        _ = _ := by ring
    have hbits : 8 * t = 8 * (t / N % N * N + t % N) + N * (N * (8 * (t / N / N))) := by
      calc 8 * t = 8 * ((t / N % N * N + t % N) + N * (N * (t / N / N))) := by rw [← hsplit]
        _ = _ := by ring
    rw [Hash.toNat_shift_or hw, BitVec.toNat_ofNat, BitVec.toNat_ofNat, BitVec.toNat_ofNat,
      ← hN, hbits, Nat.add_mul_div_left _ _ hpos, Nat.add_mul_mod_self_left]
  · apply BitVec.eq_of_toNat_eq
    rw [BitVec.toNat_shiftLeft, BitVec.toNat_ofNat, BitVec.toNat_ofNat, Nat.shiftLeft_eq,
      ← hN, Nat.mod_mul_mod, Nat.mul_comm]

theorem lenBits_eq (hw : 3 ≤ C.P.wordBits) (t : Nat) :
    lenBits C (BitVec.ofNat _ t) (BitVec.ofNat _ (t / 2 ^ C.P.wordBits)) =
      (BitVec.ofNat _ (8 * t), BitVec.ofNat _ (8 * t / 2 ^ C.P.wordBits)) :=
  Prod.ext (lenWords_eq hw t).2 (lenWords_eq hw t).1

/-- A block of bytes and its bits have the same words. -/
theorem loadWords_eq (block : List UInt8) : loadWords C block = Spec.words C (bits block) := by
  apply Vector.ext
  intro i hi
  have hlen : C.P.wordBits * i = 8 * (C.P.wordBytes * i) := Nat.mul_assoc ..
  have htake : ((bits block).drop (C.P.wordBits * i)).take C.P.wordBits =
      bits ((block.drop (C.P.wordBytes * i)).take C.P.wordBytes) := by
    rw [hlen, drop_bits]
    exact take_bits _ _
  rw [loadWords, Spec.words, Vector.getElem_ofFn, Vector.getElem_ofFn, htake, bitsVal_bits]

/-- `Transform` is the compression function, for a counter in bits. -/
theorem transform_eq (hC : C.Fits) (hw : 3 ≤ C.P.wordBits) (state : Vector C.Word 8) (block : List UInt8)
    (t : Nat) :
    transform C state ⟨block, BitVec.ofNat _ t, BitVec.ofNat _ (t / 2 ^ C.P.wordBits)⟩ =
      Spec.compress C state (Spec.words C (bits block)) (8 * t) := by
  simp only [transform, Spec.compress, lenBits_eq hw, loadWords_eq, hC.start_eq, hC.rows_eq,
    List.foldl_map, round_eq hC]
  simp only [finish, BitVec.xor_assoc, BitVec.xor_comm (BitVec.ofNat C.P.wordBits _)]
  rfl

end Drew.Blake
