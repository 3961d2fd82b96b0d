import Drew.Memory.BigEndian
import Drew.Hash.Template

/-!
# The compression function of BLAKE2b

The model of `BLAKE2b::Transform` on 16 working words, and the function `F` that RFC 7693
defines. They are the same (`transform_eq`), so what is left of the hash is which blocks are
compressed with which counters and flags.
-/

namespace Drew.Blake2b

open Drew.Memory

/-! ## Constants -/

/-- `iv512`. -/
def iv512 : Vector UInt64 8 := #v[
  0x6a09e667f3bcc908, 0xbb67ae8584caa73b, 0x3c6ef372fe94f82b, 0xa54ff53a5f1d36f1,
  0x510e527fade682d1, 0x9b05688c2b3e6c1f, 0x1f83d9abfb41bd6b, 0x5be0cd19137e2179]

def sigma : Vector (Vector (Fin 16) 16) 10 := #v[
  #v[0, 1, 2, 3, 4, 5, 6, 7, 8, 9, 10, 11, 12, 13, 14, 15],
  #v[14, 10, 4, 8, 9, 15, 13, 6, 1, 12, 0, 2, 11, 7, 5, 3],
  #v[11, 8, 12, 0, 5, 2, 15, 13, 10, 14, 3, 6, 7, 1, 9, 4],
  #v[7, 9, 3, 1, 13, 12, 11, 14, 2, 6, 5, 10, 4, 0, 15, 8],
  #v[9, 0, 5, 7, 2, 4, 10, 15, 14, 1, 11, 12, 6, 8, 3, 13],
  #v[2, 12, 6, 10, 0, 11, 8, 3, 4, 13, 7, 5, 15, 14, 1, 9],
  #v[12, 5, 1, 15, 14, 13, 4, 10, 0, 7, 6, 3, 9, 2, 8, 11],
  #v[13, 11, 7, 14, 12, 1, 3, 9, 5, 0, 15, 4, 8, 6, 2, 10],
  #v[6, 15, 14, 9, 11, 3, 0, 8, 12, 2, 13, 7, 1, 4, 10, 5],
  #v[10, 2, 8, 4, 7, 6, 1, 5, 15, 11, 9, 14, 3, 12, 13, 0]]

/-! ## The code -/

/-- `RotateLeft`. -/
def rotateLeft (x : UInt64) (n : Nat) : UInt64 := x <<< UInt64.ofNat n ||| x >>> UInt64.ofNat (64 - n)

/-- `RotateRight`. -/
def rotateRight (x : UInt64) (n : Nat) : UInt64 := x >>> UInt64.ofNat n ||| x <<< UInt64.ofNat (64 - n)

/-- The function on four words that `G` changes in place, for two words of the message. -/
def mixWords (a b c d m0 m1 : UInt64) : UInt64 × UInt64 × UInt64 × UInt64 :=
  let a := a + (b + m0)
  let d := rotateRight (d ^^^ a) 32
  let c := c + d
  let b := rotateRight (b ^^^ c) 24
  let a := a + (b + m1)
  let d := rotateRight (d ^^^ a) 16
  let c := c + d
  let b := rotateLeft (b ^^^ c) 1
  (a, b, c, d)

/-- `G` on the words at four places. -/
def G (v : Vector UInt64 16) (a b c d : Fin 16) (m0 m1 : UInt64) : Vector UInt64 16 :=
  let r := mixWords v[a] v[b] v[c] v[d] m0 m1
  (((v.set a r.1).set b r.2.1).set c r.2.2.1).set d r.2.2.2

/-- `Round`. -/
def round (v : Vector UInt64 16) (r : Vector (Fin 16) 16) (m : Vector UInt64 16) : Vector UInt64 16 :=
  let v := G v 0 4 8 12 (m.get (r.get 0)) (m.get (r.get 1))
  let v := G v 1 5 9 13 (m.get (r.get 2)) (m.get (r.get 3))
  let v := G v 2 6 10 14 (m.get (r.get 4)) (m.get (r.get 5))
  let v := G v 3 7 11 15 (m.get (r.get 6)) (m.get (r.get 7))
  let v := G v 0 5 10 15 (m.get (r.get 8)) (m.get (r.get 9))
  let v := G v 1 6 11 12 (m.get (r.get 10)) (m.get (r.get 11))
  let v := G v 2 7 8 13 (m.get (r.get 12)) (m.get (r.get 13))
  G v 3 4 9 14 (m.get (r.get 14)) (m.get (r.get 15))

/-- The 16 words of a block, the first byte of a word being the lowest. -/
def loadWords (block : List UInt8) : Vector UInt64 16 :=
  Vector.ofFn fun i => UInt64.ofNat (beNat ((block.drop (8 * i)).take 8).reverse)

/-- The rounds of `Transform`. -/
def rounds (v m : Vector UInt64 16) : Vector UInt64 16 :=
  let v := round v (sigma.get 0) m
  let v := round v (sigma.get 1) m
  let v := round v (sigma.get 2) m
  let v := round v (sigma.get 3) m
  let v := round v (sigma.get 4) m
  let v := round v (sigma.get 5) m
  let v := round v (sigma.get 6) m
  let v := round v (sigma.get 7) m
  let v := round v (sigma.get 8) m
  let v := round v (sigma.get 9) m
  let v := round v (sigma.get 0) m
  round v (sigma.get 1) m

/-- `Transform`. -/
def transform (state : Vector UInt64 8) (block : List UInt8) (len0 len1 : UInt64) (isFinal : Bool) :
    Vector UInt64 8 :=
  let v := state ++ iv512
  let v := (v.set 12 (v[12] ^^^ len0)).set 13 (v[13] ^^^ len1)
  let v := if isFinal then v.set 14 (~~~v[14]) else v
  let v := rounds v (loadWords block)
  Vector.ofFn fun i : Fin 8 => state.get i ^^^ (v[i] ^^^ v[i.val + 8])

/-! ## What is meant -/

namespace Rfc7693

def rotr (x : UInt64) (n : Nat) : UInt64 := x >>> UInt64.ofNat n ||| x <<< UInt64.ofNat (64 - n)

/-- The mixing function. -/
def G (v : Vector UInt64 16) (a b c d : Fin 16) (x y : UInt64) : Vector UInt64 16 :=
  let v := v.set a (v[a] + v[b] + x)
  let v := v.set d (rotr (v[d] ^^^ v[a]) 32)
  let v := v.set c (v[c] + v[d])
  let v := v.set b (rotr (v[b] ^^^ v[c]) 24)
  let v := v.set a (v[a] + v[b] + y)
  let v := v.set d (rotr (v[d] ^^^ v[a]) 16)
  let v := v.set c (v[c] + v[d])
  v.set b (rotr (v[b] ^^^ v[c]) 63)

/-- The places of the words that the mixing functions of a round work on, columns first. -/
def places : List (Fin 16 × Fin 16 × Fin 16 × Fin 16 × Fin 16 × Fin 16) :=
  [(0, 4, 8, 12, 0, 1), (1, 5, 9, 13, 2, 3), (2, 6, 10, 14, 4, 5), (3, 7, 11, 15, 6, 7),
    (0, 5, 10, 15, 8, 9), (1, 6, 11, 12, 10, 11), (2, 7, 8, 13, 12, 13), (3, 4, 9, 14, 14, 15)]

/-- Round `i`. -/
def round (m : Vector UInt64 16) (v : Vector UInt64 16) (i : Nat) : Vector UInt64 16 :=
  let s := sigma.get ⟨i % 10, Nat.mod_lt i (by decide)⟩
  places.foldl (fun v p =>
    G v p.1 p.2.1 p.2.2.1 p.2.2.2.1 (m.get (s.get p.2.2.2.2.1)) (m.get (s.get p.2.2.2.2.2))) v

/-- The compression of a block of words `m` with the counter `t` and the flag of the last
block. -/
def F (h : Vector UInt64 8) (m : Vector UInt64 16) (t : Nat) (f : Bool) : Vector UInt64 8 :=
  let v := h ++ iv512
  let v := v.set 12 (v[12] ^^^ UInt64.ofNat t)
  let v := v.set 13 (v[13] ^^^ UInt64.ofNat (t / 2 ^ 64))
  let v := if f then v.set 14 (v[14] ^^^ 0xffffffffffffffff) else v
  let v := (List.range 12).foldl (round m) v
  Vector.ofFn fun i : Fin 8 => h.get i ^^^ v[i] ^^^ v[i.val + 8]

end Rfc7693

/-! ## They are the same -/

theorem rotateLeft_one (x : UInt64) : rotateLeft x 1 = Rfc7693.rotr x 63 := UInt64.or_comm _ _

theorem rotateRight_eq (x : UInt64) (n : Nat) : rotateRight x n = Rfc7693.rotr x n := rfl

section Places

variable {a b c d : Fin 16} (hab : a ≠ b) (hac : a ≠ c) (had : a ≠ d) (hbc : b ≠ c) (hbd : b ≠ d)
  (hcd : c ≠ d)
include hab hac had hbc hbd hcd

/-- Of repeated assignments to four different places the last ones count. -/
theorem set_twice (v : Vector UInt64 16) (A B C D A' B' C' D' : UInt64) :
    (((((((v.set a A).set d D).set c C).set b B).set a A').set d D').set c C').set b B' =
      (((v.set a A').set b B').set c C').set d D' := by
  have hab' := Fin.val_ne_of_ne hab
  have hac' := Fin.val_ne_of_ne hac
  have had' := Fin.val_ne_of_ne had
  have hbc' := Fin.val_ne_of_ne hbc
  have hbd' := Fin.val_ne_of_ne hbd
  have hcd' := Fin.val_ne_of_ne hcd
  apply Vector.ext
  intro i hi
  simp only [Vector.getElem_set]
  split_ifs <;> first | rfl | omega

theorem G_eq (v : Vector UInt64 16) (x y : UInt64) : G v a b c d x y = Rfc7693.G v a b c d x y := by
  have hab' := Fin.val_ne_of_ne hab
  have hac' := Fin.val_ne_of_ne hac
  have had' := Fin.val_ne_of_ne had
  have hbc' := Fin.val_ne_of_ne hbc
  have hbd' := Fin.val_ne_of_ne hbd
  have hcd' := Fin.val_ne_of_ne hcd
  rw [Rfc7693.G, set_twice hab hac had hbc hbd hcd]
  simp only [G, mixWords, rotateLeft_one, rotateRight_eq, Fin.getElem_fin, Vector.getElem_set,
    UInt64.add_assoc, hab', hac', had', hbc', hbd', hcd', hab'.symm, hac'.symm, had'.symm, hbc'.symm,
    hbd'.symm, hcd'.symm, if_true, if_false]

end Places

/-- A round mixes the columns and then the diagonals. -/
theorem round_eq (v m : Vector UInt64 16) {i : Nat} {r : Vector (Fin 16) 16}
    (hr : r = sigma.get ⟨i % 10, Nat.mod_lt i (by decide)⟩) :
    round v r m = Rfc7693.round m v i := by
  subst hr
  simp only [round, Rfc7693.round, Rfc7693.places, List.foldl_cons, List.foldl_nil]
  iterate 8 rw [G_eq (by decide) (by decide) (by decide) (by decide) (by decide) (by decide)]

theorem rounds_eq (v m : Vector UInt64 16) :
    rounds v m = (List.range 12).foldl (Rfc7693.round m) v := by
  have hround : ∀ (v : Vector UInt64 16) (i : Fin 10),
      round v (sigma.get i) m = Rfc7693.round m v i.val := by
    intro v i
    apply round_eq
    congr 1
    exact Fin.ext (Nat.mod_eq_of_lt i.isLt).symm
  simp only [rounds, hround]
  rfl

theorem xor_ones (x : UInt64) : x ^^^ 0xffffffffffffffff = ~~~x :=
  UInt64.toBitVec_inj.mp BitVec.xor_allOnes

/-- `Transform` is the compression function. -/
theorem transform_eq (state : Vector UInt64 8) (block : List UInt8) (t : Nat) (isFinal : Bool) :
    transform state block (UInt64.ofNat t) (UInt64.ofNat (t / 2 ^ 64)) isFinal =
      Rfc7693.F state (loadWords block) t isFinal := by
  have hstart : ∀ (v : Vector UInt64 16) (x y : UInt64),
      (v.set 12 x).set 13 (v[13] ^^^ y) = (v.set 12 x).set 13 ((v.set 12 x)[13] ^^^ y) := by
    intro v x y
    rw [Vector.getElem_set_ne (h := by decide)]
  simp only [transform, Rfc7693.F, rounds_eq, xor_ones, hstart, UInt64.xor_assoc]

end Drew.Blake2b

/-!
## BLAKE2b

The model of the class `BLAKE2b`, which has its own `Update` and `Pad`. The counter runs with
the blocks, because it goes into their compression. The compression function is a parameter:
the class uses `transform`, and notes of its calls are what the results are about.

A hash is a list of compressions (`compressions`): those of the blocks before the last one,
and that of the last one, which is filled up with zeros.
-/

namespace Drew.Blake2b

open Drew.Memory Drew.Stream

/-- A call of the compression function. -/
structure Compression where
  block : List UInt8
  len0 : BitVec Hash.Params.words64.wordBits
  len1 : BitVec Hash.Params.words64.wordBits
  isFinal : Bool
  deriving DecidableEq

/-- The members, of which `m_hash` has any type. -/
abbrev Ctx (σ : Type) := Hash Hash.Params.words64 σ

variable {σ : Type}

section

variable (f : σ → Compression → σ)

/-- Compress a block with the present counter. -/
def compress (h : Ctx σ) (block : List UInt8) (isFinal : Bool) : Ctx σ :=
  { h with hash := f h.hash ⟨block, h.len0, h.len1, isFinal⟩ }

/-- Fill up the block that an earlier call began. -/
def fill (h : Ctx σ) (data : List UInt8) : Option (Ctx σ × List UInt8) :=
  let off := h.len0.toNat % 128
  if off ≠ 0 then do
    let i := min (128 - off) data.length
    let buf ← h.buf.write off (data.take i)
    let h := Hash.count { h with buf := buf } i
    return (if i + off = 128 then compress f h buf.toList false else h, data.drop i)
  else some (h, data)

/-- Compress blocks as long as more bytes than a block are left. -/
def wholeBlocks : Nat → Ctx σ → List UInt8 → Ctx σ × List UInt8
  | 0, h, data => (h, data)
  | k + 1, h, data =>
      wholeBlocks k (compress f (h.count 128) (data.take 128) false) (data.drop 128)

def update (h : Ctx σ) (data : List UInt8) : Option (Ctx σ) := do
  let (h, data) ← fill f h data
  let (h, data) := wholeBlocks f ((data.length - 1) / 128) h data
  let buf ← h.buf.write 0 data
  return Hash.count { h with buf := buf } data.length

def pad (h : Ctx σ) : Option (Ctx σ) := do
  let off := h.len0.toNat % 128
  let buf ← h.buf.write off (List.replicate (128 - off) 0)
  return compress f { h with buf := buf } buf.toList true

/-- Hash a message in pieces. -/
def hashPieces (s : σ) (pieces : List (List UInt8)) : Option σ := do
  let h ← pieces.foldlM (update f) (Hash.init s)
  let h ← pad f h
  return h.hash

end

/-- The compression function of the class. -/
def transformWith (state : Vector UInt64 8) (e : Compression) : Vector UInt64 8 :=
  transform state e.block (UInt64.ofNat e.len0.toNat) (UInt64.ofNat e.len1.toNat) e.isFinal

/-- `m_hash` after `Reset`. -/
def initialHash (digestlen : Nat) : Vector UInt64 8 :=
  iv512.set 0 (iv512.get 0 ^^^ (0x01010000 ^^^ UInt64.ofNat digestlen)) pos_8

/-- The bytes of the words, lowest byte first. -/
def wordBytes (v : Vector UInt64 8) : List UInt8 :=
  v.toList.flatMap fun w => (beBytes 8 w.toNat).reverse

/-- Digest of a message in pieces, by `GetDigest`. -/
def digest (digestlen : Nat) (pieces : List (List UInt8)) : Option (List UInt8) :=
  (hashPieces transformWith (initialHash digestlen) pieces).map fun v => (wordBytes v).take digestlen

/-! ## What is meant -/

/-- The compression of a block when `t` bytes are counted. -/
def compression (block : List UInt8) (t : Nat) (isFinal : Bool) : Compression :=
  ⟨block, BitVec.ofNat _ t, BitVec.ofNat _ (t / 2 ^ 64), isFinal⟩

/-- The compressions of the first `q` blocks, none of which is the last one. -/
def steps (q : Nat) (m : List UInt8) : List Compression :=
  (List.range q).map fun i => compression ((m.drop (i * 128)).take 128) ((i + 1) * 128) false

/-- The number of blocks before the last one. The empty message has one block, too. -/
def before (m : List UInt8) : Nat := (m.length - 1) / 128

/-- The last block, filled up with zeros. -/
def lastBlock (m : List UInt8) : List UInt8 :=
  m.drop (before m * 128) ++ List.replicate (128 - (m.length - before m * 128)) 0

def compressions (m : List UInt8) : List Compression :=
  steps (before m) m ++ [compression (lastBlock m) m.length true]

namespace Rfc7693

/-- The hash of `nn` bytes of a message without a key. -/
def blake2b (nn : Nat) (m : List UInt8) : List UInt8 :=
  let h := iv512.set 0 (iv512.get 0 ^^^ 0x01010000 ^^^ UInt64.ofNat nn) pos_8
  let h := (List.range (before m)).foldl (fun h i =>
    F h (loadWords ((m.drop (i * 128)).take 128)) ((i + 1) * 128) false) h
  (wordBytes (F h (loadWords (lastBlock m)) m.length true)).take nn

end Rfc7693
end Drew.Blake2b
