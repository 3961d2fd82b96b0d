import Drew.Hash.Blake.Compress
import Drew.Stream.Chunks

/-!
# Padding and digests of BLAKE

The model of `BLAKETransform::Pad` and of the four classes, and the hash function of the
specification on strings of bits. There each block has a counter, the number of bits of the message
up to its end, which is zero for a block that has none of them.
-/

namespace Drew.Blake

open Drew.Memory Drew.HashClass

/-! ## The code -/

section

variable {P : Hash.Params} {σ : Type} (f : σ → Compression P → σ)

/-- `trip` of `Pad`: where the length begins. -/
def trip (P : Hash.Params) : Nat := P.blkSize - 2 * P.wordBytes

/-- Complete a block without room for the length, and begin another one. -/
def spill (h : Hash P σ) (noff : Nat) : Option (Hash P σ × Nat) :=
  if trip P ≤ noff then do
    let buf ← h.buf.write (noff + 1) (List.replicate (P.blkSize - (noff + 1)) 0)
    return (compress f { h with buf := buf } buf.toList, 0)
  else some (h, noff + 1)

/-- `len` of `Pad`, as bytes. -/
def lenBytes (h : Hash P σ) : List UInt8 :=
  let hi := h.len1 <<< 3 ||| h.len0 >>> (P.wordBits - 3)
  let lo := h.len0 <<< 3
  beBytes (2 * P.wordBytes) (hi.toNat * 2 ^ P.wordBits + lo.toNat)

/-- The byte that is set in the last one before the length. -/
def marker (P : Hash.Params) (size : Nat) : UInt8 := if P.blkSize / 2 = size then 1 else 0

/-- `Pad` of the template for digests of `size` bytes. -/
def pad (size : Nat) (h : Hash P σ) : Option (Hash P σ) := do
  let noff := h.len0.toNat % P.blkSize
  let buf ← h.buf.store noff 0x80
  let (h, off) ← spill f { h with buf := buf } noff
  let buf ← h.buf.write off (List.replicate (trip P - off) 0)
  let b ← buf.load (trip P - 1)
  let buf ← buf.store (trip P - 1) (b ||| marker P size)
  let buf ← buf.write (trip P) (lenBytes h)
  let e : Compression P :=
    if noff ≠ 0 ∧ off ≠ 0 then ⟨buf.toList, h.len0, h.len1⟩ else ⟨buf.toList, 0, 0⟩
  return { h with hash := f h.hash e, buf := buf }

end

/-- The four classes. -/
inductive Variant
  | blake224
  | blake256
  | blake384
  | blake512
  deriving DecidableEq

namespace Variant

/-- The class that compresses. -/
def core : Variant → Core
  | blake224 => blake256Transform
  | blake256 => blake256Transform
  | blake384 => blake512Transform
  | blake512 => blake512Transform

/-- `Size`. -/
def size : Variant → Nat
  | blake224 => 28
  | blake256 => 32
  | blake384 => 48
  | blake512 => 64

/-- `m_hash` after `Reset`. -/
def iv : (V : Variant) → Vector V.core.Word 8
  | blake224 => #v[0xc1059ed8, 0x367cd507, 0x3070dd17, 0xf70e5939,
      0xffc00b31, 0x68581511, 0x64f98fa7, 0xbefa4fa4]
  | blake256 => #v[0x6a09e667, 0xbb67ae85, 0x3c6ef372, 0xa54ff53a,
      0x510e527f, 0x9b05688c, 0x1f83d9ab, 0x5be0cd19]
  | blake384 => #v[0xcbbb9d5dc1059ed8, 0x629a292a367cd507, 0x9159015a3070dd17, 0x152fecd8f70e5939,
      0x67332667ffc00b31, 0x8eb44a8768581511, 0xdb0c2e0d64f98fa7, 0x47b5481dbefa4fa4]
  | blake512 => #v[0x6a09e667f3bcc908, 0xbb67ae8584caa73b, 0x3c6ef372fe94f82b, 0xa54ff53a5f1d36f1,
      0x510e527fade682d1, 0x9b05688c2b3e6c1f, 0x1f83d9abfb41bd6b, 0x5be0cd19137e2179]

end Variant

/-- `GetDigest` of a digest of `size` bytes. -/
def getDigest (C : Core) (size : Nat) (h : Hash C.P (Vector C.Word 8)) : Option (List UInt8) :=
  (pad (transform C) size h).map fun h =>
    (h.hash.toList.flatMap fun w => beBytes C.P.wordBytes w.toNat).take size

/-- The class of a variant. -/
abbrev blake (V : Variant) : HashClass :=
  hashClass (transform V.core) (getDigest V.core V.size) V.iv

/-- The calls of the compression function when a message is hashed. -/
def compressions (V : Variant) (cs : List Call) : Option (List (Compression V.core.P)) := do
  let h ← cs.foldlM (hashClass (fun es e => es ++ [e]) (fun _ => none) []).step (Hash.init [])
  let h ← pad (fun es e => es ++ [e]) V.size h
  return h.hash

/-! ## What is meant -/

namespace Spec

/-- The number of bits in a block. -/
def blockBits (C : Core) : Nat := 16 * C.P.wordBits

/-- The bit before the length: one for the variants whose digests have all words. -/
def markerBit : Variant → Bool
  | .blake224 => false
  | .blake256 => true
  | .blake384 => false
  | .blake512 => true

/-- How many zeros complete the blocks. -/
def zeros (C : Core) (len : Nat) : Nat :=
  (blockBits C - (len + 2 + 2 * C.P.wordBits) % blockBits C) % blockBits C

/-- A message and its padding: a one bit, zeros, the marker bit, and the length. -/
def padded (V : Variant) (μ : List Bool) : List Bool :=
  μ ++ [true] ++ List.replicate (zeros V.core μ.length) false ++ [markerBit V] ++
    natBits (2 * V.core.P.wordBits) μ.length

/-- The counter of block `i` of a message of `len` bits. -/
def counter (C : Core) (len i : Nat) : Nat :=
  if i * blockBits C < len then min len ((i + 1) * blockBits C) else 0

/-- The blocks of a message with their counters. -/
def blocks (V : Variant) (μ : List Bool) : List (List Bool × Nat) :=
  (List.range ((padded V μ).length / blockBits V.core)).map fun i =>
    (((padded V μ).drop (i * blockBits V.core)).take (blockBits V.core), counter V.core μ.length i)

/-- The hash of a string of bits. -/
def hash (V : Variant) (μ : List Bool) : List Bool :=
  let h := (blocks V μ).foldl (fun h b => compress V.core h (words V.core b.1) b.2) V.iv
  (h.toList.flatMap fun w => natBits V.core.P.wordBits w.toNat).take (8 * V.size)

end Spec

end Drew.Blake
