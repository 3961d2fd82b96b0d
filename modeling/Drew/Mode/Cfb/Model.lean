import Drew.Mode.Basic

/-!
# Cipher feedback mode: the code

The model of `cfb.c`. The register `prev` is the input of the next encryption: the last
`blksize` bytes of the vector and the ciphertext. A unit is `feedback` bytes, and `boff`
counts the bytes of the current unit that were handled. The encryption of the register is
in `buf`.
-/

namespace Drew.Mode

open Drew.Memory Drew.Block Drew.Stream

/-- `-ENOMEM`, for memory that was not allocated. -/
def enomem : Int := 12

structure Cfb where
  functbl : Functbl
  feedback : Nat
  algo : Option BlockCipher
  buf : Buf UInt8 32
  prev : Buf UInt8 32
  iv : Option (List UInt8)
  blksize : Nat
  boff : Nat
  chunks : Nat

namespace Cfb

/-- The memory of the context is not cleared, so it starts with any contents. The first
parameter with the right name gives the feedback in bits. -/
def init (mem : Cfb) (params : List (String × Nat)) : Cfb :=
  let feedback := match params.find? (fun param => param.1 = "feedbackBits") with
    | some param => param.2 / 8
    | none => 0
  { mem with functbl := .plain, feedback := feedback, algo := none, boff := 0 }

/-- Memory that was cleared. -/
def cleared : Cfb where
  functbl := .plain
  feedback := 0
  algo := none
  buf := Vector.replicate 32 0
  prev := Vector.replicate 32 0
  iv := none
  blksize := 0
  boff := 0
  chunks := 0

/-- The vector is kept in an object of its own, `mem`, which may fail to be allocated. -/
def setblock (c : Cfb) (mem : Option (List UInt8)) : Option BlockCipher → Cfb × Int
  | none => (c, drewErrInvalid)
  | some algo =>
      let feedback := if c.feedback = 0 then algo.blksize else c.feedback
      let c := { c with algo := some algo, blksize := algo.blksize, feedback := feedback }
      let c :=
        if feedback = algo.blksize ∧ (algo.blksize = 8 ∨ algo.blksize = 16) then
          { c with chunks := modeAlignment / algo.blksize, functbl := .fast }
        else c
      match mem with
      | none => ({ c with iv := none }, -enomem)
      | some mem => ({ c with iv := some mem }, 0)

/-- A context that is given its own `iv` does not copy it, and it would not change. -/
def setiv (c : Cfb) (iv : List UInt8) : Option (Cfb × Int) :=
  if c.blksize ≠ iv.length then some (c, -drewErrInvalid) else do
    let prev ← c.prev.write 0 iv
    let buf ← c.buf.write 0 iv
    let old ← c.iv
    if old.length < iv.length then none else
      return ({ c with prev := prev, buf := buf, iv := some (iv ++ old.drop iv.length) }, 0)

def reset (c : Cfb) : Option (Cfb × Int) := do
  let iv ← c.iv
  if iv.length < c.blksize then none else
    let (c, res) ← c.setiv (iv.take c.blksize)
    if res ≠ 0 then return (c, res) else return ({ c with boff := 0 }, 0)

/-- The bytes of the register that stay in it when a unit comes in. -/
def leftover (c : Cfb) : Nat := subSize c.blksize c.feedback

/-- Encipher the register, and make room in it for a unit. -/
def refill (c : Cfb) : Option Cfb := do
  let algo ← c.algo
  let buf ← algo.encryptTo c.buf 0 c.prev 0
  let kept ← c.prev.read c.feedback c.leftover
  let prev ← c.prev.write 0 kept
  return { c with buf := buf, prev := prev }

/-- `prev[leftover + i] = out[i] = buf[i] ^= in[i]`. -/
def encryptByte (i : Nat) (c : Cfb) (x : UInt8) : Option (Cfb × UInt8) := do
  let b ← c.buf.load i
  let buf ← c.buf.store i (b ^^^ x)
  let prev ← c.prev.store (c.leftover + i) (b ^^^ x)
  return ({ c with buf := buf, prev := prev }, b ^^^ x)

/-- `out[i] = buf[i] ^ (prev[leftover + i] = in[i])`. -/
def decryptByte (i : Nat) (c : Cfb) (x : UInt8) : Option (Cfb × UInt8) := do
  let b ← c.buf.load i
  let prev ← c.prev.store (c.leftover + i) x
  return ({ c with prev := prev }, b ^^^ x)

/-- The operations of a direction, which differ in what they do with a byte. -/
def unitOps (body : Nat → Cfb → UInt8 → Option (Cfb × UInt8)) : UnitOps Cfb UInt8 UInt8 where
  refill := refill
  body := body
  close := some
  whole c inp := do
    let c ← c.refill
    loop body 0 c inp

/-- `cfb_encrypt`. -/
def encrypt (c : Cfb) (inp : List UInt8) : Option (Cfb × List UInt8) := do
  let (c, boff, out) ← (unitOps encryptByte).call c.feedback c c.boff inp
  return ({ c with boff := boff }, out)

/-- The first phase of `cfb_decrypt`. Where `cfb_encrypt` adds `b` to the offset and goes
back to zero at the end of a unit, this subtracts `b`. -/
def decryptHead (c : Cfb) (boff : Nat) (inp : List UInt8) :
    Option (Cfb × Nat × List UInt8 × List UInt8) :=
  if boff = 0 then some (c, 0, [], inp) else do
    let b := min (subSize c.feedback boff) inp.length
    let (c, out) ← loop decryptByte boff c (inp.take b)
    return (c, subSize boff b, out, inp.drop b)

/-- `cfb_decrypt`. -/
def decrypt (c : Cfb) (inp : List UInt8) : Option (Cfb × List UInt8) := do
  let feedback := c.feedback
  let (c, boff, out₁, inp) ← decryptHead c c.boff inp
  let (c, out₂, inp) ← (unitOps decryptByte).wholes feedback inp.length c inp
  let (c, boff, out₃) ← (unitOps decryptByte).tail c boff inp
  return ({ c with boff := boff }, out₁ ++ out₂ ++ out₃)

/-- Where the register of `cfb_encryptfast` is: in the context, or in the output. -/
inductive Cur where
  | prev
  | out (pos : Nat)

def Cur.read {n : Nat} (cur : Cur) (prev : Buf UInt8 32) (out : Buf UInt8 n) (len : Nat) :
    Option (List UInt8) :=
  match cur with
  | .prev => Buf.read prev 0 len
  | .out pos => Buf.read out pos len

/-- The rounds of `cfb_encryptfast`, from the position `pos` of `out` and `in` on. -/
def groups {n : Nat} (algo : BlockCipher) (chunks : Nat) (prev : Buf UInt8 32)
    (inp : Buf UInt8 n) : Nat → Nat → Cur → Buf UInt8 32 → Buf UInt8 n →
    Option (Cur × Buf UInt8 32 × Buf UInt8 n)
  | 0, _, cur, buf, out => some (cur, buf, out)
  | rounds + 1, pos, cur, buf, out => do
      let blocks ← cur.read prev out (algo.fastBlocks chunks * algo.blksize)
      let buf ← buf.write 0 (mapBlocks algo.blksize algo.encrypt (algo.fastBlocks chunks) blocks)
      let out ← xorAligned out pos buf 0 inp pos modeAlignment
      groups algo chunks prev inp rounds (pos + modeAlignment) (.out pos) buf out

/-- `cfb_encryptfast`. -/
def encryptfast {n : Nat} (c : Cfb) (out inp : Buf UInt8 n) : Option (Cfb × Buf UInt8 n) := do
  let algo ← c.algo
  let (cur, buf, out) ← groups algo c.chunks c.prev inp (n / modeAlignment) 0 .prev c.buf out
  let last ← cur.read c.prev out modeAlignment
  let prev ← c.prev.write 0 last
  return ({ c with buf := buf, prev := prev }, out)

/-- The slices of `cfb_decryptfast`, in the order of its statements: the register and the
ciphertext are put together, the register is set, the blocks are enciphered, and `out` is
combined with as many bytes as are left of the whole call. Every round shortens `len`, so
`len` rounds are enough. -/
def slices {n : Nat} (algo : BlockCipher) (blksize : Nat) (inp : Buf UInt8 n) :
    Nat → Nat → Nat → Buf UInt8 32 → Buf UInt8 sliceSize → Buf UInt8 n →
    Option (Buf UInt8 32 × Buf UInt8 n)
  | 0, _, _, prev, _, out => some (prev, out)
  | rounds + 1, len, pos, prev, buf, out =>
      if len = 0 then some (prev, out) else do
        let x := min sliceSize len
        let mul := x / blksize
        let first ← prev.read 0 blksize
        let buf ← buf.write 0 first
        let rest ← inp.read pos (subSize x blksize)
        let buf ← buf.write blksize rest
        let last ← inp.read (pos + x - blksize) blksize
        let prev ← prev.write 0 last
        let buf ← algo.encryptfast buf 0 buf 0 mul
        let out ← xorAligned out pos buf 0 inp pos len
        slices algo blksize inp rounds (len - x) (pos + sliceSize) prev buf out

/-- `cfb_decryptfast`. The slice `buf` is not initialised. -/
def decryptfast {n : Nat} (c : Cfb) (buf : Buf UInt8 sliceSize) (out inp : Buf UInt8 n) :
    Option (Cfb × Buf UInt8 n) := do
  let algo ← c.algo
  let (prev, out) ← slices algo c.blksize inp n n 0 c.prev buf out
  return ({ c with prev := prev }, out)

/-- A context as the library makes it: a new one with a size of the feedback, a cipher, an
initialisation vector. The object for the vector has the size of a block. -/
def fresh (mem : Cfb) (ivMem : List UInt8) (feedback : Nat) (algo : BlockCipher)
    (iv : List UInt8) : Option (Cfb × Int) :=
  ((init mem [("feedbackBits", feedback * 8)]).setblock (some ivMem) (some algo)).1.setiv iv

end Cfb

end Drew.Mode
