import Drew.Mode.Basic

/-!
# HMAC

The model of `hmac.c`. A context holds two hash contexts and the key, or its digest where the
key is longer than the block size that the hash algorithm reports. Nothing is known of the
algorithm but that its functions are those of a hash: what a context has absorbed since it was
reset determines the digest.
-/

namespace Drew.Mac

open Drew.Memory Drew.Mode

/-- The functions of a hash algorithm that are called through its function table, and what they
compute. -/
structure HashAlgorithm where
  /-- The contexts of the algorithm. -/
  Ctx : Type
  /-- The number of bytes that one step of the compression absorbs. -/
  rate : Nat
  rate_pos : 0 < rate
  digest : List UInt8 → List UInt8
  /-- The answer of `info` to `DREW_HASH_SIZE`. -/
  size : Nat
  size_pos : 0 < size
  length_digest : ∀ m, (digest m).length = size
  /-- The answer of `info` to `DREW_HASH_BLKSIZE`, as a `size_t`. -/
  blksize : Nat
  clone : Ctx → Ctx
  reset : Ctx → Ctx
  update : Ctx → List UInt8 → Ctx
  final : Ctx → Nat → Ctx × List UInt8
  /-- The context has absorbed the text since it was reset. -/
  Absorbed : Ctx → List UInt8 → Prop
  absorbed_clone : ∀ {s m}, Absorbed s m → Absorbed (clone s) m
  absorbed_reset : ∀ s, Absorbed (reset s) []
  absorbed_update : ∀ {s m} d, Absorbed s m → Absorbed (update s d) (m ++ d)
  final_of_absorbed : ∀ {s m}, Absorbed s m → (final s size).2 = digest m

structure Hmac (A : HashAlgorithm) where
  outside : A.Ctx
  inside : A.Ctx
  keybuf : Buf UInt8 256
  keybufsz : Nat
  blksz : Nat
  digestsz : Nat
  taglen : Nat

namespace Hmac

variable {A : HashAlgorithm}

/-- `BUFFER_SIZE`. -/
abbrev bufferSize : Nat := 256

/-- `hmac_init`, with the values of the parameters `digest` and `tagLength`; the latter is zero
if there is none. -/
def init (algo : A.Ctx) (taglen : Nat) : Except Int (Hmac A) :=
  if bufferSize < A.blksize ∨ bufferSize < A.size then .error (-drewErrInvalid)
  else .ok {
    outside := A.reset (A.clone algo)
    inside := A.reset (A.clone algo)
    keybuf := Vector.replicate 256 0
    keybufsz := 0
    blksz := A.blksize
    digestsz := A.size
    taglen := if taglen ≠ 0 then taglen else A.size }

/-- Keep the key, or its digest if it is longer than a block; `own` says that the key is in
`keybuf` already. The result has the number of bytes to be used. -/
def keepKey (c : Hmac A) (own : Bool) (data : List UInt8) : Option (Hmac A × Nat) :=
  if c.blksz < data.length then do
    let keyhash := A.update (A.reset (A.clone c.inside)) data
    let keybuf ← c.keybuf.write 0 (A.final keyhash c.digestsz).2
    return ({ c with keybuf := keybuf, keybufsz := c.digestsz }, c.digestsz)
  else if own = false then do
    let keybuf ← c.keybuf.write 0 data
    return ({ c with keybuf := keybuf, keybufsz := data.length }, data.length)
  else some (c, data.length)

/-- The contents of `outpad` or `inpad`, which have `BUFFER_SIZE` bytes. -/
def pad (x : UInt8) (k : List UInt8) (blksz : Nat) : Option (List UInt8) :=
  if blksz ≤ bufferSize then some (k.map (x ^^^ ·) ++ List.replicate (blksz - k.length) x)
  else none

/-- `hmac_clone`. -/
def clone (c : Hmac A) : Hmac A :=
  { c with outside := A.clone c.outside, inside := A.clone c.inside }

def setkeyFrom (c : Hmac A) (own : Bool) (data : List UInt8) : Option (Hmac A) := do
  let (c, len) ← keepKey c own data
  let k ← c.keybuf.read 0 (min len c.blksz)
  let outpad ← pad 0x5c k c.blksz
  let inpad ← pad 0x36 k c.blksz
  return { c with
    outside := A.update (A.reset c.outside) outpad
    inside := A.update (A.reset c.inside) inpad }

def setkey (c : Hmac A) (data : List UInt8) : Option (Hmac A) := setkeyFrom c false data

/-- `hmac_reset`. The pads are absorbed again if there is a key. -/
def reset (c : Hmac A) : Option (Hmac A) :=
  let c := { c with outside := A.reset c.outside, inside := A.reset c.inside }
  if c.keybufsz ≠ 0 then do
    let data ← c.keybuf.read 0 c.keybufsz
    setkeyFrom c true data
  else some c

def update (c : Hmac A) (data : List UInt8) : Hmac A :=
  { c with inside := A.update c.inside data }

/-- `hmac_final`; `stale` is what the local buffer contains at first. -/
def final (stale : Buf UInt8 256) (c : Hmac A) : Option (Hmac A × List UInt8) := do
  let (inside, d) := A.final c.inside c.digestsz
  let buf ← stale.write 0 d
  let d ← buf.read 0 c.digestsz
  let (outside, d) := A.final (A.update c.outside d) c.digestsz
  let buf ← buf.write 0 d
  let digest ← buf.read 0 c.taglen
  return ({ c with inside := A.reset inside, outside := A.reset outside }, digest)

/-- `hmack_generate`: the function of the table for key derivation. -/
def generate (stale : Buf UInt8 256) (c : Hmac A) (outlen : Nat) (inp : List UInt8) :
    Option (Except Int (Hmac A × List UInt8)) :=
  if c.digestsz < outlen then some (.error (-drewErrInvalid)) else do
    let (c, d) ← (c.update inp).final stale
    return .ok (c, d.take outlen)

end Hmac

end Drew.Mac
