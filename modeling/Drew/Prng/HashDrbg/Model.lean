import Drew.Mac.Hmac.Model
import Drew.Mode.Gcm.Multiply
import Drew.Prng.Model

/-!
# Hash_DRBG

The model of `HashDRBG`. The members `digestlen` and `seedlen` have the values that the constructor
gives them, `A.size` and `seedLength A.blksize`; `V` and `C` are arrays of 128 bytes whatever the
seed length is. The only machine dependence is in `HashDF`, where a number is copied as it is in
memory.
-/

namespace Drew.Prng

open Drew.Memory Drew.Mac Drew.Stream

open Drew.Mode.Gcm (ByteOrder)

/-! ## The helper -/

structure HashHelper (A : HashAlgorithm) where
  orighash : A.Ctx
  hash : A.Ctx

namespace HashHelper

variable {A : HashAlgorithm}

def new (h : A.Ctx) : HashHelper A := { orighash := h, hash := A.clone h }

def addData (hh : HashHelper A) (data : List UInt8) : HashHelper A :=
  { hh with hash := A.update hh.hash data }

/-- `GetDigest` copies the digest, or as much of it as `len` says. -/
def getDigest (hh : HashHelper A) (len : Nat) : HashHelper A × List UInt8 :=
  let (hash, digest) := A.final hh.hash A.size
  ({ hh with hash := hash }, if len = A.size then digest else digest.take (min A.size len))

def reset (hh : HashHelper A) : HashHelper A := { hh with hash := A.clone hh.orighash }

end HashHelper

/-- `GetSeedLength`, computed as a `size_t`. -/
@[irreducible] def seedLength (blksz : Nat) : Nat := subSize (subSize blksz 1) (blksz / 8)

/-! ## Sums -/

section Sums

variable {m n : Nat}

/-- The loop of `AddArrays`, for the `i` first bytes. -/
def addFrom (input : Buf UInt8 m) : Nat → Bool → Buf UInt8 n → Option (Buf UInt8 n)
  | 0, _, buf => some buf
  | i + 1, carry, buf => do
      let x ← buf.load i
      let y ← input.load i
      let val := x.toNat + (y.toNat + carry.toNat)
      let buf ← buf.store i (UInt8.ofNat val)
      addFrom input i (decide (val / 256 ≠ 0)) buf

def addArrays (buf : Buf UInt8 n) (len : Nat) (input : Buf UInt8 m) : Option (Buf UInt8 n) :=
  addFrom input len false buf

/-- Write to an array at `n - k`, where `k` may be too large. -/
def writeBack (buf : Buf UInt8 n) (k : Nat) (xs : List UInt8) : Option (Buf UInt8 n) :=
  if k ≤ n then buf.write (n - k) xs else none

end Sums

/-! ## The generator -/

structure HashDrbg (A : HashAlgorithm) where
  V : Buf UInt8 128
  C : Buf UInt8 128
  hash : A.Ctx

namespace HashDrbg

variable {A : HashAlgorithm} {m n : Nat}

/-- The constructor; the arrays and the counter are what was in the memory. -/
def new (h : A.Ctx) (V C : Buf UInt8 128) (rc : UInt64) : Drbg (HashDrbg A) where
  inited := false
  rc := rc
  sub := { V := V, C := C, hash := h }

/-- The bytes of a number of four bytes as they are in memory. -/
def nativeBytes (order : ByteOrder) (x : Nat) : List UInt8 :=
  match order with
  | .littleEndian => (beBytes 4 x).reverse
  | .bigEndian => beBytes 4 x

/-- A round of the loop in `HashDF`: the helper, the counter, and what `temp` has so far. -/
def dfRound (outbits inp : List UInt8) (s : HashHelper A × UInt8 × List UInt8) (_ : Nat) :
    HashHelper A × UInt8 × List UInt8 :=
  let (hh, counter, temp) := s
  let hh := ((hh.addData [counter]).addData outbits).addData inp
  let (hh, digest) := hh.getDigest A.size
  (hh.reset, counter + 1, temp ++ digest)

def hashDF (order : ByteOrder) (h : A.Ctx) (inp : List UInt8) (outlen : Nat) : List UInt8 :=
  let len := (outlen + (A.size - 1)) / A.size
  let outbits := nativeBytes order (outlen * 8)
  let (_, _, temp) := (List.range len).foldl (dfRound outbits inp) (HashHelper.new h, 1, [])
  temp.take outlen

/-- The end of `Initialize` and of `Reseed`: the seed material is in the first `off` bytes. -/
def seed (order : ByteOrder) (buf : Buf UInt8 m) (off : Nat) (d : Drbg (HashDrbg A)) :
    Option (Drbg (HashDrbg A)) := do
  let inp ← buf.read 0 off
  let V ← d.sub.V.write 0 (hashDF order d.sub.hash inp (seedLength A.blksize))
  let buf ← buf.store 0 0
  let v ← V.read 0 (seedLength A.blksize)
  let buf ← buf.write 1 v
  let inp ← buf.read 0 (seedLength A.blksize + 1)
  let C ← d.sub.C.write 0 (hashDF order d.sub.hash inp (seedLength A.blksize))
  return { d with rc := 1, sub := { d.sub with V := V, C := C } }

/-- The data is treated as a nonce. The number of bytes that were read is not looked at. -/
def initializeWith (order : ByteOrder) (env : Env) (data : List UInt8)
    (d : Drbg (HashDrbg A)) : Option (Except Int (Drbg (HashDrbg A))) := do
  let buflen := max (data.length + 128) 1024 + 1
  match ← env.reading.getBytes (env.array buflen) 0 (seedLength A.blksize) with
  | .error res => return .error res
  | .ok (_, buf) =>
      let off := seedLength A.blksize
      let buf ← buf.write off data
      let off := off + data.length
      let (perslen, buf) ← env.generatePersonalizationString buf off (buflen - off)
      let d ← seed order buf (off + perslen) d
      return .ok d

def reseed (order : ByteOrder) (env : Env) (data : List UInt8) (d : Drbg (HashDrbg A)) :
    Option (Except Int (Drbg (HashDrbg A))) := do
  let buflen := 1 + 128 + seedLength A.blksize + data.length
  let buf ← (env.array buflen).store 0 1
  let v ← d.sub.V.read 0 (seedLength A.blksize)
  let buf ← buf.write 1 v
  let off := 1 + seedLength A.blksize
  match ← env.reading.getBytes buf off (seedLength A.blksize) with
  | .error res => return .error res
  | .ok (res, buf) =>
      let off := off + res
      let buf ← buf.write off data
      let d ← seed order buf (off + data.length) d
      return .ok d

/-- A round of the loop in `HashGen`; `j` is `i * digestlen`. -/
def genRound (one : Buf UInt8 m) (s : HashHelper A × Buf UInt8 m × Buf UInt8 n) (i : Nat) :
    Option (HashHelper A × Buf UInt8 m × Buf UInt8 n) := do
  let (hh, data, buf) := s
  let j := i * A.size
  let hh := hh.addData data.toList
  let (hh, digest) := hh.getDigest (min m (n - j))
  let buf ← buf.write j digest
  let data ← addArrays data m one
  return (hh.reset, data, buf)

def hashGen (d : HashDrbg A) (buf : Buf UInt8 n) : Option (Buf UInt8 n) := do
  let rounds := (n + (A.size - 1)) / A.size
  let one ← writeBack (Vector.replicate (seedLength A.blksize) 0) 1 [1]
  let v ← d.V.read 0 (seedLength A.blksize)
  let data ← Buf.write (Vector.replicate (seedLength A.blksize) 0) 0 v
  let (_, _, buf) ← (List.range rounds).foldlM (genRound one) (HashHelper.new d.hash, data, buf)
  return buf

/-- `GetBytes` after the checks. The digest is written before the beginning of its array if it is
longer than a seed. -/
def generate (_ : Env) (d : Drbg (HashDrbg A)) (data : Buf UInt8 n) :
    Option (Drbg (HashDrbg A) × Buf UInt8 n) := do
  let hh := HashHelper.new d.sub.hash
  let data ← hashGen d.sub data
  let v ← d.sub.V.read 0 (seedLength A.blksize)
  let hh := (hh.addData [3]).addData v
  let digest := (hh.getDigest (seedLength A.blksize)).2
  let buf ← writeBack (Vector.replicate (seedLength A.blksize) 0) A.size digest
  let V ← addArrays d.sub.V (seedLength A.blksize) buf
  let V ← addArrays V (seedLength A.blksize) d.sub.C
  let buf ← writeBack (Vector.replicate (seedLength A.blksize) 0) 8 (beBytes 8 d.rc.toNat)
  let V ← addArrays V (seedLength A.blksize) buf
  return ({ d with rc := d.rc + 1, sub := { d.sub with V := V } }, data)

def table (order : ByteOrder) (A : HashAlgorithm) : Class (HashDrbg A) where
  initializeWith := initializeWith order
  reseed := reseed order
  generate := generate

end HashDrbg

end Drew.Prng
