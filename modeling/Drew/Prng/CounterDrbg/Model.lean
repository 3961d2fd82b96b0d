import Drew.Mode.Ctr
import Drew.Prng.HashDrbg.Model

/-!
# CTR_DRBG

The model of `CounterDRBG`. The key and `V` are in the context of the cipher and in that of the mode, which is
CTR. `GetBytes` takes what is in the array that it is to fill as additional input. As in `HashDF`, the numbers
in the derivation function are copied as they are in memory.
-/

namespace Drew.Prng

open Drew.Memory Drew.Block Drew.Stream Drew.Mode

open Drew.Mode.Gcm (ByteOrder)

open HashDrbg (nativeBytes)

/-! ## The cipher -/

/-- `CTR_BUFFER_SIZE`. -/
abbrev ctrBufferSize : Nat := 512

/-- A cipher, with the key size that the generator uses and what a context does that has no key. -/
structure CounterCipher extends CipherFamily where
  keylen : Nat
  unkeyed : BlockCipher
  blksize_unkeyed : unkeyed.blksize = blksize
  fits : blksize + keylen ≤ ctrBufferSize

/-- `seedlen`; `outlen` is the block size. -/
def CounterCipher.seedlen (A : CounterCipher) : Nat := A.blksize + A.keylen

structure CounterDrbg where
  block : BlockCipher
  ctr : Ctr

/-- `sp_ctr_init` for a cipher. -/
def spCtrInit (F : CipherFamily) (keylen : Nat) (unkeyed : BlockCipher)
    (h : unkeyed.blksize = F.blksize) : Except Int CounterCipher :=
  if hfits : F.blksize + keylen ≤ ctrBufferSize then
    .ok { F with keylen := keylen, unkeyed := unkeyed, blksize_unkeyed := h, fits := hfits }
  else .error (-drewErrInvalid)

namespace CounterDrbg

variable {m n : Nat} (A : CounterCipher)

/-- The constructor. The counter is what was in the memory. -/
def new (rc : UInt64) : Drbg CounterDrbg where
  inited := false
  rc := rc
  sub := { block := A.unkeyed, ctr := (Ctr.init.setblock (some A.unkeyed)).1 }

/-- `encryptfast` of the function table that the context of the mode has, in place. -/
def encryptTable (env : Env) (c : Ctr) (buf : Buf UInt8 n) : Option (Ctr × Buf UInt8 n) :=
  match c.functbl with
  | .plain => do
      let (c, out) ← c.encrypt buf.toList
      let buf ← buf.write 0 out
      return (c, buf)
  | .fast => c.encryptfast (env.array sliceSize) buf buf

/-- A new key for the cipher and for the mode, and a new counter. -/
def rekey (key iv : List UInt8) (d : CounterDrbg) : Option CounterDrbg := do
  let block := A.setkey key
  let (ctr, _) := d.ctr.setblock (some block)
  let (ctr, _) ← ctr.setiv iv
  return { block := block, ctr := ctr }

/-- `Update`. Of its array of `CTR_BUFFER_SIZE` bytes the first `seedlen` are used. -/
def update (env : Env) (provided : Buf UInt8 m) (d : CounterDrbg) : Option CounterDrbg := do
  let (ctr, buf) ← encryptTable env d.ctr (Vector.replicate A.seedlen 0)
  let provided ← provided.read 0 A.seedlen
  let buf := xorBytes buf.toList provided
  rekey A (buf.take A.keylen) (buf.drop A.keylen) { d with ctr := ctr }

/-! ## The derivation function -/

def roundUpToMultiple (x multiple : Nat) : Nat :=
  let t := x + (multiple - 1)
  t - t % multiple

def divideAndRoundUp (x div : Nat) : Nat := (x + (div - 1)) / div

/-- The constant `K` of `BlockCipherDF`. -/
def dfKey : Buf UInt8 32 := Vector.ofFn fun i => UInt8.ofNat i

/-- A round of the loop in `BCC`. -/
def bccRound (b : BlockCipher) (data : Buf UInt8 m) (out : List UInt8) (i : Nat) :
    Option (List UInt8) := do
  let p ← data.read (i * b.blksize) b.blksize
  return b.encrypt (xorBytes out p)

def bcc (b : BlockCipher) (data : Buf UInt8 m) (len : Nat) : Option (List UInt8) :=
  (List.range (len / b.blksize)).foldlM (bccRound b data) (List.replicate b.blksize 0)

/-- A round of the first loop in `BlockCipherDF`: `bigbuf` and `temp`. -/
def tempRound (order : ByteOrder) (b : BlockCipher) (s : Buf UInt8 m × Buf UInt8 n) (i : Nat) :
    Option (Buf UInt8 m × Buf UInt8 n) := do
  let bigbuf ← s.1.write 0 (nativeBytes order i)
  let out ← bcc b bigbuf m
  let temp ← s.2.write (i * b.blksize) out
  return (bigbuf, temp)

/-- A round of the second loop. The block before the first one is after the key. -/
def outRound (keylen : Nat) (b : BlockCipher) (temp : Buf UInt8 n) (i : Nat) : Option (Buf UInt8 n) :=
  b.encryptTo temp (i * b.blksize) temp (if i = 0 then keylen else (i - 1) * b.blksize)

/-- The padded text, after an empty block. -/
def bigbuf (order : ByteOrder) (outlen : Nat) (inp : List UInt8) (n : Nat) :
    Option (Buf UInt8 (roundUpToMultiple (4 + 4 + 1 + inp.length) outlen + outlen)) := do
  let buf ← Buf.write (Vector.replicate _ 0) outlen (nativeBytes order inp.length)
  let buf ← buf.write (outlen + 4) (nativeBytes order n)
  let buf ← buf.write (outlen + 8) inp
  buf.store (outlen + 8 + inp.length) 0x80

/-- `BlockCipherDF`: the `n` bytes that are derived from `inp`. -/
def blockCipherDF (order : ByteOrder) (env : Env) (inp : List UInt8) (n : Nat) : Option (List UInt8) := do
  let bigbuf ← bigbuf order A.blksize inp n
  let key ← dfKey.read 0 A.keylen
  let temp := env.array (roundUpToMultiple (max A.seedlen n) A.blksize)
  let (_, temp) ← (List.range (divideAndRoundUp A.seedlen A.blksize)).foldlM
    (tempRound order (A.setkey key)) (bigbuf, temp)
  let key ← temp.read 0 A.keylen
  let temp ← (List.range (divideAndRoundUp n A.blksize)).foldlM (outRound A.keylen (A.setkey key)) temp
  temp.read 0 n

/-! ## Seeding -/

/-- Bytes of what the caller supplies. -/
def supplied (data : List UInt8) (len : Nat) : Option (List UInt8) :=
  if len ≤ data.length then some (data.take len) else none

/-- The number of bytes that `du.GetBytes` gave, or what was asked for if it gave none. -/
def received (res dulen : Nat) : Nat := if res = 0 then dulen else res

/-- The seed material is replaced by what is derived from it. -/
def derive (order : ByteOrder) (env : Env) (buf : Buf UInt8 ctrBufferSize) :
    Option (Buf UInt8 ctrBufferSize) := do
  let out ← blockCipherDF A order env buf.toList A.seedlen
  buf.write 0 out

def initializeWith (order : ByteOrder) (env : Env) (data : List UInt8) (d : Drbg CounterDrbg) :
    Option (Except Int (Drbg CounterDrbg)) := do
  let half := A.seedlen / 2
  let noncelen := min data.length (ctrBufferSize - (half + 96))
  let dulen := ctrBufferSize - noncelen - 96
  match ← env.reading.getBytes (env.array ctrBufferSize) 0 dulen with
  | .error res => return .error res
  | .ok (res, buf) =>
      let dulen := received res dulen
      let nonce ← supplied data noncelen
      let buf ← buf.write dulen nonce
      let (_, buf) ← env.generatePersonalizationString buf (dulen + noncelen) 96
      let buf ← derive A order env buf
      let sub ← rekey A (List.replicate A.keylen 0) (List.replicate A.blksize 0) d.sub
      let sub ← update A env buf sub
      return .ok { d with sub := sub, rc := 1 }

def reseed (order : ByteOrder) (env : Env) (data : List UInt8) (d : Drbg CounterDrbg) :
    Option (Except Int (Drbg CounterDrbg)) := do
  let dubytes := ctrBufferSize - min data.length (ctrBufferSize / 2)
  match ← env.reading.getBytes (env.array ctrBufferSize) 0 dubytes with
  | .error res => return .error res
  | .ok (res, buf) =>
      let dubytes := received res dubytes
      let nonce ← supplied data (ctrBufferSize - dubytes)
      let buf ← buf.write dubytes nonce
      let buf ← derive A order env buf
      let sub ← update A env buf d.sub
      return .ok { d with sub := sub, rc := 1 }

/-- `GetBytes` after the checks. -/
def generate (env : Env) (d : Drbg CounterDrbg) (data : Buf UInt8 n) :
    Option (Drbg CounterDrbg × Buf UInt8 n) := do
  let buf ← Buf.write (Vector.replicate ctrBufferSize 0) 0 (data.toList.take (min ctrBufferSize n))
  let sub ← update A env buf d.sub
  let (ctr, out) ← sub.ctr.encrypt (List.replicate n 0)
  let data ← data.write 0 out
  let sub ← update A env buf { sub with ctr := ctr }
  return ({ d with sub := sub, rc := d.rc + 1 }, data)

def table (order : ByteOrder) : Class CounterDrbg where
  initializeWith := initializeWith A order
  reseed := reseed A order
  generate := generate A

end CounterDrbg

end Drew.Prng
