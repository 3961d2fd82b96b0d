import Drew.Memory.BigEndian
import Drew.Stream.Chunks

/-!
# The class template `Hash`

The model of `hash.hh`. The template keeps the bytes of an incomplete block in `m_buf` and the
length of the message in the two words of `m_len`. What a class does with a whole block is its
function `Transform`, here a parameter that changes the member `m_hash`.

The padding of the template is shared by most classes. Tiger and Whirlpool have their own,
which differ from it in the byte that follows the message, the words of the length, and zeros
before the length.
-/

namespace Drew

open Drew.Memory Drew.Stream

/-- The word type and the block size. -/
structure Hash.Params where
  /-- `sizeof(T)`. -/
  wordBytes : Nat
  blkSize : Nat
  wordBytes_pos : 0 < wordBytes
  blkSize_pos : 0 < blkSize
  blkSize_dvd : blkSize ∣ 2 ^ (8 * wordBytes)

/-- What a class pads a message with. -/
structure Hash.Padding (P : Hash.Params) where
  /-- The byte order `E`. -/
  bigEndian : Bool
  padByte : UInt8
  /-- The size of the two words of `len`. -/
  lenBytes : Nat
  /-- Zeros right before the length. -/
  zeroBytes : Nat
  lenBytes_le : lenBytes ≤ P.wordBytes
  fits : zeroBytes + 2 * lenBytes ≤ P.blkSize

/-- The padding of the template. -/
def Hash.Padding.template (P : Hash.Params) (bigEndian : Bool) (hf : 2 * P.wordBytes ≤ P.blkSize) :
    Hash.Padding P where
  bigEndian := bigEndian
  padByte := 0x80
  lenBytes := P.wordBytes
  zeroBytes := 0
  lenBytes_le := le_rfl
  fits := by omega

/-- MD4, MD5, SHA-1, SHA-224, SHA-256 and the classes of RIPEMD. -/
def Hash.Params.words32 : Hash.Params := ⟨4, 64, pos_4, pos_64, by decide⟩

/-- SHA-384 and SHA-512. -/
def Hash.Params.words64 : Hash.Params := ⟨8, 128, pos_8, by decide, by decide⟩

/-- Tiger, Whirlpool and JH. -/
def Hash.Params.tiger : Hash.Params := ⟨8, 64, pos_8, pos_64, by decide⟩

/-- `Whirlpool::Pad`. -/
def Hash.Padding.whirlpool : Hash.Padding .tiger where
  bigEndian := true
  padByte := 0x80
  lenBytes := 8
  zeroBytes := 16
  lenBytes_le := by decide
  fits := by decide

/-- `Tiger::Pad`. Here `len` has words of 32 bits, although those of `m_len` have 64. -/
def Hash.Padding.tiger : Hash.Padding .tiger where
  bigEndian := false
  padByte := 0x01
  lenBytes := 4
  zeroBytes := 0
  lenBytes_le := by decide
  fits := by decide

/-- The bits of a word. -/
def Hash.Params.wordBits (P : Hash.Params) : Nat := 8 * P.wordBytes

/-- The members of a hash object. -/
structure Hash (P : Hash.Params) (σ : Type) where
  hash : σ
  buf : Buf UInt8 P.blkSize
  len0 : BitVec P.wordBits
  len1 : BitVec P.wordBits

variable {P : Hash.Params} {σ : Type}

namespace Hash

/-- `Initialize`. -/
def init (s : σ) : Hash P σ where
  hash := s
  buf := Vector.replicate P.blkSize 0
  len0 := 0
  len1 := 0

/-- The addition to `m_len`. -/
def count (h : Hash P σ) (len : Nat) : Hash P σ :=
  { h with
    len0 := h.len0 + BitVec.ofNat P.wordBits len
    len1 := if h.len0 + BitVec.ofNat P.wordBits len < h.len0 then h.len1 + 1 else h.len1 }

variable (transform : σ → List UInt8 → σ)

/-- Fill up the block that an earlier call began. -/
def fill (h : Hash P σ) (off : Nat) (data : List UInt8) : Option (Hash P σ × List UInt8) :=
  if off ≠ 0 then do
    let i := min (P.blkSize - off) data.length
    let buf ← h.buf.write off (data.take i)
    let hash := if i + off = P.blkSize then transform h.hash buf.toList else h.hash
    return ({ h with buf := buf, hash := hash }, data.drop i)
  else some (h, data)

/-- `Update`. -/
def update (h : Hash P σ) (data : List UInt8) : Option (Hash P σ) := do
  let off := h.len0.toNat % P.blkSize
  let (h, data) ← fill transform (h.count data.length) off data
  let k := data.length / P.blkSize
  let buf ← h.buf.write 0 (data.drop (k * P.blkSize))
  return { h with hash := absorb P.blkSize transform k h.hash data, buf := buf }

/-- `UpdateFast`. -/
def updateFast (h : Hash P σ) (data : List UInt8) : Hash P σ :=
  let h := h.count data.length
  { h with hash := absorb P.blkSize transform (data.length / P.blkSize) h.hash data }

/-- The length in bits as two words, the high one first, of which the words of `len` take
the low bits. -/
def bitLength (D : Padding P) (h : Hash P σ) : Nat × Nat :=
  let hi := h.len1 <<< 3 ||| h.len0 >>> (P.wordBits - 3)
  let lo := h.len0 <<< 3
  (hi.toNat % 2 ^ (8 * D.lenBytes), lo.toNat % 2 ^ (8 * D.lenBytes))

end Hash

/-- `E::Copy` of two words as a single number. -/
def Hash.Padding.copyLength (D : Hash.Padding P) (n : Nat) : List UInt8 :=
  let bs := beBytes (2 * D.lenBytes) n
  if D.bigEndian then bs else bs.reverse

namespace Hash

/-- Complete a block without room for the length, and begin another one. -/
def spill (transform : σ → List UInt8 → σ) (h : Hash P σ) (trip noff : Nat) :
    Option (Hash P σ × Nat) :=
  if trip ≤ noff then do
    let buf ← h.buf.write (noff + 1) (List.replicate (P.blkSize - (noff + 1)) 0)
    return ({ h with hash := transform h.hash buf.toList, buf := buf }, 0)
  else some (h, noff + 1)

/-- `Pad`. -/
def pad (transform : σ → List UInt8 → σ) (D : Padding P) (h : Hash P σ) : Option (Hash P σ) := do
  let trip := P.blkSize - (D.zeroBytes + 2 * D.lenBytes)
  let noff := h.len0.toNat % P.blkSize
  let (hi, lo) := h.bitLength D
  let buf ← h.buf.store noff D.padByte
  let (h, off) ← spill transform { h with buf := buf } trip noff
  let buf ← h.buf.write off (List.replicate (trip - off) 0)
  let buf ← buf.write trip
    (List.replicate D.zeroBytes 0 ++ D.copyLength (hi * 2 ^ (8 * D.lenBytes) + lo))
  return { h with hash := transform h.hash buf.toList, buf := buf }

end Hash

end Drew
