import Drew.Mode.Basic
import Drew.Block.Cipher
import Drew.Memory.BigEndian

/-!
# CMAC

The model of `cmac.c`. The blocks of the message are chained in `hash`. The last one is
treated specially, so a block is held back in `buf` until more data arrives; `boff` is the
number of bytes there, at most a whole block.
-/

namespace Drew.Mac

open Drew.Memory Drew.Block Drew.Stream Drew.Mode

/-- The member `block` has a key once `cmac_setkey` was called. -/
structure Cmac where
  buf : Buf UInt8 16
  hash : Buf UInt8 16
  k1 : Buf UInt8 16
  k2 : Buf UInt8 16
  blksize : Nat
  boff : Nat
  taglen : Nat
  block : Option BlockCipher
  nonzeroLen : Bool

namespace Cmac

/-- `BUFFER_SIZE`. -/
abbrev bufferSize : Nat := 16

def zeros : Buf UInt8 16 := Vector.replicate 16 0

/-- `cmac_init`, with the values of the parameters `cipher` and `tagLength`; the latter is zero
if there is none. -/
def init : Option CipherFamily → Nat → Except Int Cmac
  | none, _ => .error (-drewErrInvalid)
  | some algo, taglen =>
      if bufferSize < algo.blksize ∨ (algo.blksize ≠ 8 ∧ algo.blksize ≠ 16) then
        .error (-drewErrInvalid)
      else .ok {
        buf := zeros
        hash := zeros
        k1 := zeros
        k2 := zeros
        blksize := algo.blksize
        boff := 0
        taglen := if taglen ≠ 0 then taglen else algo.blksize
        block := none
        nonzeroLen := false }

/-- Shift the first `len` bytes to the left by one bit. -/
def shiftleft (buf : Buf UInt8 16) (len : Nat) : Option (Buf UInt8 16) := do
  let buf ← (List.range (len - 1)).foldlM (fun buf i => do
    let x ← buf.load i
    let y ← buf.load (i + 1)
    buf.store i (x <<< 1 ||| y >>> 7)) buf
  let x ← buf.load (len - 1)
  buf.store (len - 1) (x <<< 1)

/-- `buf[len - 1] ^= rb`, if the bits of `mask` are set in `c`. -/
def reduce (buf : Buf UInt8 16) (len : Nat) (c mask rb : UInt8) : Option (Buf UInt8 16) :=
  if c &&& mask ≠ 0 then do
    let x ← buf.load (len - 1)
    buf.store (len - 1) (x ^^^ rb)
  else some buf

def setkey (F : CipherFamily) (c : Cmac) (data : List UInt8) : Option Cmac := do
  let rb : UInt8 := if c.blksize = 16 then 0x87 else 0x1b
  let block := F.setkey data
  let k1 ← block.encryptTo c.k1 0 zeros 0
  let x ← k1.load 0
  let k1 ← shiftleft k1 c.blksize
  let k1 ← reduce k1 c.blksize x 0x80 rb
  let bs ← k1.read 0 c.blksize
  let k2 ← c.k2.write 0 bs
  let k2 ← shiftleft k2 c.blksize
  let k2 ← reduce k2 c.blksize x 0x40 rb
  return { c with block := some block, k1 := k1, k2 := k2 }

/-- `cmac_reset`. The cipher keeps its key. -/
def reset (c : Cmac) : Cmac := { c with boff := 0, nonzeroLen := false, hash := zeros }

/-- Chain the first block of `data`. -/
def processBlock (c : Cmac) (data : List UInt8) : Option Cmac := do
  let xs ← c.hash.read 0 c.blksize
  let hash ← if c.blksize ≤ data.length then c.hash.write 0 (xorBytes xs (data.take c.blksize))
    else none
  let block ← c.block
  let hash ← block.encryptTo hash 0 hash 0
  return { c with hash := hash }

/-- Fill up the block that is held back, and chain it if it is not the last one. -/
def fill (c : Cmac) (data : List UInt8) : Option (Cmac × List UInt8) :=
  if c.boff ≠ 0 then do
    let b := min (subSize c.blksize c.boff) data.length
    let buf ← c.buf.write c.boff (data.take b)
    let c := { c with buf := buf, boff := c.boff + b }
    let c ← if c.boff = c.blksize then
        if data.length ≠ b then do
          let c ← c.processBlock buf.toList
          pure { c with boff := 0 }
        else pure { c with boff := 16 }
      else pure c
    return (c, data.drop b)
  else some (c, data)

/-- Chain whole blocks while at least one more byte follows. Each round takes a block, so the
length of the data bounds their number. -/
def processWhole : Nat → Cmac → List UInt8 → Option (Cmac × List UInt8)
  | 0, c, data => some (c, data)
  | k + 1, c, data =>
      if data.length < c.blksize + 1 then some (c, data) else do
        let c ← c.processBlock data
        processWhole k c (data.drop c.blksize)

def update (c : Cmac) (data : List UInt8) : Option Cmac :=
  if data.length = 0 then some c else do
    let (c, rest) ← fill { c with nonzeroLen := true } data
    let (c, rest) ← processWhole rest.length c rest
    if rest.length ≠ 0 then do
      let buf ← c.buf.write 0 rest
      return { c with buf := buf, boff := rest.length }
    else return c

/-- Complete the last block and combine it with a subkey. -/
def finishBlock (c : Cmac) : Option (Buf UInt8 16) :=
  if c.nonzeroLen = false then do
    let buf ← c.buf.write 1 (List.replicate (subSize c.blksize 1) 0)
    let buf ← buf.store c.boff 0x80
    xorAligned buf 0 buf 0 c.k2 0 bufferSize
  else if c.boff = c.blksize then xorAligned c.buf 0 c.buf 0 c.k1 0 bufferSize
  else do
    let buf ← c.buf.write c.boff (List.replicate (subSize c.blksize c.boff) 0)
    let buf ← buf.store c.boff 0x80
    xorAligned buf 0 buf 0 c.k2 0 bufferSize

def final (c : Cmac) : Option (Cmac × List UInt8) := do
  let buf ← c.finishBlock
  let c ← processBlock { c with buf := buf } buf.toList
  let digest ← c.hash.read 0 c.taglen
  return (c, digest)

end Cmac

end Drew.Mac

/-!
## What CMAC is meant to compute

Blocks are polynomials over the field of two elements, the first bit of the first byte being
the highest coefficient. The subkeys are `x` and `x ^ 2` times the encryption of zero. A last
block that is whole is combined with the first one, any other is filled up with a single bit
and combined with the second one.
-/

namespace Drew.Mac.Cmac

open Drew.Memory Drew.Block

/-- The low coefficients of the modulus, for blocks of 8 and 16 bytes. -/
def residue (bs : Nat) : Nat := if bs = 16 then 0x87 else 0x1b

/-- The product with `x`. -/
def double (b : List UInt8) : List UInt8 :=
  beBytes b.length (if (beNat b).testBit (8 * b.length - 1)
    then (2 * beNat b) % 2 ^ (8 * b.length) ^^^ residue b.length else 2 * beNat b)

def subkey1 (E : BlockCipher) : List UInt8 := double (E.encrypt (List.replicate E.blksize 0))

def subkey2 (E : BlockCipher) : List UInt8 := double (subkey1 E)

/-- Chain the first `q` blocks of a text. -/
def chain (E : BlockCipher) (m : List UInt8) : Nat → List UInt8
  | 0 => List.replicate E.blksize 0
  | q + 1 => E.encrypt (xorBytes (chain E m q) ((m.drop (q * E.blksize)).take E.blksize))

/-- The number of blocks before the last one. The empty message has one block, too. -/
def before (bs : Nat) (m : List UInt8) : Nat := (m.length - 1) / bs

/-- The last block, prepared for being chained. -/
def lastBlock (E : BlockCipher) (b : List UInt8) : List UInt8 :=
  if b.length = E.blksize then xorBytes b (subkey1 E)
  else xorBytes (b ++ 0x80 :: List.replicate (E.blksize - b.length - 1) 0) (subkey2 E)

def cmac (E : BlockCipher) (m : List UInt8) : List UInt8 :=
  E.encrypt (xorBytes (chain E m (before E.blksize m))
    (lastBlock E (m.drop (before E.blksize m * E.blksize))))

end Drew.Mac.Cmac
