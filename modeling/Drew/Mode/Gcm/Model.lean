import Drew.Mode.Basic
import Drew.Mode.Gcm.Pclmulqdq

/-!
# Galois/counter mode

The model of `gcm-impl.cc`. The counter is `y`, the current block of keystream is in `buf`
and `boff` is the offset in it; `x` is the hash so far, and the bytes of an unfinished block
of ciphertext are collected in `cbuf`. The multiplication is that of the plugin.
-/

namespace Drew.Mode

open Drew.Memory Drew.Block Drew.Stream

namespace Gcm

/-- The routine that `mul` points to. `mul_fl` depends on the byte order of the machine. -/
inductive Multiplier where
  | mul
  | mulFl (order : ByteOrder)
  | mulPclmulqdq
  deriving DecidableEq, Repr

end Gcm

/-- The member `ivlen` is the length of `iv`. -/
structure Gcm where
  algo : Option BlockCipher
  y0 : Buf UInt8 16
  y : Buf UInt8 16
  h : Buf UInt8 16
  x : Buf UInt8 16
  buf : Buf UInt8 16
  cbuf : Buf UInt8 16
  hv : BitVec 128
  iv : List UInt8
  table : Option Gcm.Table
  multiplier : Gcm.Multiplier
  blksize : Nat
  boff : Nat
  alen : Nat
  clen : Nat
  taglen : Nat

namespace Gcm

/-- The value of the parameter `tagLength`. A later parameter replaces an earlier one. -/
def tagLength (params : List (String × Nat)) : Nat :=
  params.foldl (fun taglen p => if p.1 = "tagLength" then p.2 else taglen) 16

/-- What the three plugins do to a new context: it is cleared, except for `taglen`, `mul`
and `table`. -/
def initWith (multiplier : Multiplier) (table : Option Table) (params : List (String × Nat)) :
    Gcm where
  algo := none
  y0 := zeroBlock
  y := zeroBlock
  h := zeroBlock
  x := zeroBlock
  buf := zeroBlock
  cbuf := zeroBlock
  hv := 0
  iv := []
  table := table
  multiplier := multiplier
  blksize := 0
  boff := 0
  alen := 0
  clen := 0
  taglen := tagLength params

/-- `gcm_init` of `gcm.cc`. -/
def gcmInit (params : List (String × Nat)) : Gcm := initWith .mul none params

/-- `gcmfl_init`. The memory of the table is not initialised. -/
def gcmflInit (order : ByteOrder) (memory : Table) (params : List (String × Nat)) : Gcm :=
  initWith (.mulFl order) (some memory) params

/-- `gcm_init` of `gcm-pclmulqdq.cc`. -/
def gcmPclmulqdqInit (params : List (String × Nat)) : Gcm := initWith .mulPclmulqdq none params

/-- A cipher that is refused is kept nevertheless. -/
def setblock (c : Gcm) : Option BlockCipher → Gcm × Int
  | none => (c, -drewErrInvalid)
  | some algo =>
      ({ c with algo := some algo, blksize := algo.blksize },
        if algo.blksize = 8 then -drewErrNotImpl
        else if algo.blksize ≠ 16 then -drewErrInvalid
        else 0)

/-- `c->mul(c, buf)`. -/
def multiply (c : Gcm) (buf : Buf UInt8 16) : Option (Buf UInt8 16) :=
  match c.multiplier with
  | .mul => some (mul c.h buf)
  | .mulFl order => do
      let table ← c.table
      mulFl order table buf
  | .mulPclmulqdq => some (mulPclmulqdq c.hv buf)

/-- `XorBuffers` with a block in memory. -/
def xorBuffers (buf : Buf UInt8 16) (block : List UInt8) (len : Nat) : Option (Buf UInt8 16) := do
  let xs ← buf.read 0 len
  if len ≤ block.length then buf.write 0 (xorBytes xs (block.take len)) else none

/-- Add a block to the hash `buf`. -/
def hash (c : Gcm) (buf : Buf UInt8 16) (block : List UInt8) : Option (Buf UInt8 16) := do
  let buf ← xorBuffers buf block c.blksize
  c.multiply buf

/-- Add `n` blocks to the hash `buf`, and give the data after them. -/
def hashBlocks (c : Gcm) : Nat → Buf UInt8 16 → List UInt8 → Option (Buf UInt8 16 × List UInt8)
  | 0, buf, data => some (buf, data)
  | n + 1, buf, data => do
      let buf ← c.hash buf data
      hashBlocks c n buf (data.drop 16)

/-- A block of `len` bytes of data, the others zero. -/
def copyPadded (data : List UInt8) (len : Nat) : Option (Buf UInt8 16) :=
  zeroBlock.write 0 (data.take len)

/-- Two sizes in bytes, as a block of two numbers of bits. -/
def lengthBuf (a b : Nat) : Buf UInt8 16 :=
  copyFromPair (BitVec.ofNat 64 a <<< 3, BitVec.ofNat 64 b <<< 3)

/-- `gen_table_fl` where `mul` is `mul_fl`. -/
def prepareTable (c : Gcm) : Option Gcm :=
  match c.multiplier with
  | .mulFl _ => do
      let table ← c.table
      let table ← genTableFl c.h table
      return { c with table := some table }
  | _ => some c

/-- Hash the last `len` bytes, which are no whole block. -/
def hashRest (c : Gcm) (y0 : Buf UInt8 16) (data : List UInt8) (len : Nat) :
    Option (Buf UInt8 16) :=
  if len ≠ 0 then do
    let buf ← copyPadded data len
    c.hash y0 buf.toList
  else some y0

/-- The counter for a vector that has not 12 bytes. -/
def hashIv (c : Gcm) : Option Gcm := do
  let len := c.iv.length
  let (y0, data) ← c.hashBlocks (len / 16) zeroBlock c.iv
  let y0 ← c.hashRest y0 data (len % 16)
  let buf := lengthBuf 0 len
  let y0 ← c.hash y0 buf.toList
  return { c with y0 := y0, buf := buf }

/-- The last part of `gcm_setiv`. -/
def startCounter (c : Gcm) : Option (Gcm × Int) := do
  let bs ← c.y0.read 0 c.blksize
  let y ← c.y.write 0 bs
  return ({ c with y := y, alen := 0, clen := 0 }, 0)

/-- `gcm_setiv`. A context that is given its own `iv` does not copy it, and it would not
change. -/
def setiv (c : Gcm) (iv : List UInt8) : Option (Gcm × Int) := do
  let algo ← c.algo
  let h ← algo.encryptfast zeroBlock 0 zeroBlock 0 1
  let c := { c with
    h := h, y := zeroBlock, y0 := zeroBlock, x := zeroBlock, buf := zeroBlock, cbuf := zeroBlock,
    hv := copyToVector h }
  let c ← c.prepareTable
  let c := { c with iv := iv }
  if iv.length = 12 then do
    let y0 ← c.y0.write 0 iv
    let y0 ← y0.write 12 [0, 0, 0]
    let y0 ← y0.store 15 1
    startCounter { c with y0 := y0 }
  else if c.taglen ≠ 16 then return (c, -drewErrInvalid)
  else do
    let c ← c.hashIv
    c.startCounter

def reset (c : Gcm) : Option (Gcm × Int) := do
  let (c, res) ← c.setiv c.iv
  if res ≠ 0 then return (c, res) else return ({ c with boff := 0, clen := 0, alen := 0 }, 0)

/-- Count in the last four of `len` bytes. -/
def incrementCounter (ctr : Buf UInt8 16) (len : Nat) : Option (Buf UInt8 16) :=
  increment (len - 4) (len - 1) ctr

/-- Make the next block of keystream. -/
def nextBlock (c : Gcm) : Option Gcm := do
  let y ← incrementCounter c.y c.blksize
  let algo ← c.algo
  let buf ← algo.encryptTo c.buf 0 y 0
  return { c with y := y, buf := buf }

/-- Add the collected block of ciphertext to the hash. -/
def hashCbuf (c : Gcm) : Option Gcm := do
  let x ← c.hash c.x c.cbuf.toList
  return { c with x := x }

def encryptByte (i : Nat) (c : Gcm) (x : UInt8) : Option (Gcm × UInt8) := do
  let b ← c.buf.load i
  let cbuf ← c.cbuf.store i (b ^^^ x)
  return ({ c with cbuf := cbuf }, b ^^^ x)

def decryptByte (i : Nat) (c : Gcm) (x : UInt8) : Option (Gcm × UInt8) := do
  let cbuf ← c.cbuf.store i x
  let b ← c.buf.load i
  return ({ c with cbuf := cbuf }, b ^^^ x)

def encryptBlock (c : Gcm) (inp : List UInt8) : Option (Gcm × List UInt8) := do
  let c ← c.nextBlock
  let key ← c.buf.read 0 c.blksize
  let out := xorBytes key inp
  let x ← c.hash c.x out
  return ({ c with x := x }, out)

def decryptBlock (c : Gcm) (inp : List UInt8) : Option (Gcm × List UInt8) := do
  let c ← c.nextBlock
  let x ← c.hash c.x inp
  let c := { c with x := x }
  let key ← c.buf.read 0 c.blksize
  return (c, xorBytes key inp)

def encryptOps : UnitOps Gcm UInt8 UInt8 where
  refill := nextBlock
  body := encryptByte
  close := hashCbuf
  whole := encryptBlock

def decryptOps : UnitOps Gcm UInt8 UInt8 where
  refill := nextBlock
  body := decryptByte
  close := hashCbuf
  whole := decryptBlock

/-- A call of `gcm_encrypt` or `gcm_decrypt`. -/
def crypt (M : UnitOps Gcm UInt8 UInt8) (c : Gcm) (inp : List UInt8) : Option (Gcm × List UInt8) := do
  let c := { c with clen := (c.clen + inp.length) % 2 ^ 64 }
  let (c, boff, out) ← M.call c.blksize c c.boff inp
  return ({ c with boff := boff }, out)

def encrypt : Gcm → List UInt8 → Option (Gcm × List UInt8) := crypt encryptOps

def decrypt : Gcm → List UInt8 → Option (Gcm × List UInt8) := crypt decryptOps

def setdata (c : Gcm) (data : List UInt8) : Option (Gcm × Int) := do
  let len := data.length
  let (x, data) ← c.hashBlocks (len / 16) zeroBlock data
  let buf ← copyPadded data (len % 16)
  let x ← c.hash x buf.toList
  return ({ c with x := x, buf := buf, alen := len }, 0)

/-- Fill up and hash an unfinished block of ciphertext. The offset stays. -/
def finishBlock (c : Gcm) : Option Gcm :=
  if c.boff ≠ 0 then do
    let b := subSize c.blksize c.boff
    let cbuf ← c.cbuf.write c.boff (List.replicate b 0)
    hashCbuf { c with cbuf := cbuf }
  else some c

/-- The end of `gcm_encryptfinal` and `gcm_decryptfinal`: the tag is in `x`. -/
def finishTag (c : Gcm) : Option Gcm := do
  let c ← c.finishBlock
  let x ← c.hash c.x (lengthBuf c.alen c.clen).toList
  let algo ← c.algo
  let buf ← algo.encryptTo (lengthBuf c.alen c.clen) 0 c.y0 0
  let x ← xorAligned x 0 x 0 buf 0 c.blksize
  return { c with x := x, buf := buf }

/-- A size that is returned as an `int`. -/
def sizeToInt (n : Nat) : Int := (BitVec.ofNat 32 n).toInt

/-- `gcm_encryptfinal`. The output is what is written from `out` on. -/
def encryptfinal (c : Gcm) (outlen : Nat) (inp : List UInt8) : Option (Gcm × List UInt8 × Int) :=
  if outlen < (inp.length + c.taglen) % 2 ^ 64 then some (c, [], -drewErrMoreInfo) else do
    let (c, out) ← c.encrypt inp
    let c ← c.finishTag
    let tag ← c.x.read 0 c.taglen
    return (c, out ++ tag, sizeToInt outlen)

/-- Read `len` bytes of a text from `off` on. -/
def readText (inp : List UInt8) (off len : Nat) : Option (List UInt8) :=
  if off + len ≤ inp.length then some ((inp.drop off).take len) else none

/-- `gcm_decryptfinal`. The tag is after the `outlen` bytes of ciphertext. -/
def decryptfinal (c : Gcm) (outlen : Nat) (inp : List UInt8) : Option (Gcm × List UInt8 × Int) := do
  let cipher ← readText inp 0 outlen
  let (c, out) ← c.decrypt cipher
  let c ← c.finishTag
  let tag ← c.x.read 0 c.taglen
  let received ← readText inp outlen c.taglen
  return (c, out, if received ≠ tag then -drewErrVerifyFailed else sizeToInt outlen)

end Gcm

end Drew.Mode
