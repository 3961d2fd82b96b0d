import Drew.Block.LongBytes
import Drew.Block.Rijndael.Standard

/-!
# Generic Rijndael

The model of the class template `GenericRijndael` and of its five subclasses. Encryption works on the
bytes of a block, with tables of positions for each subclass, and decryption on the four rows of the
state. An index outside of an array is undefined.
-/

namespace Drew

open Drew.Memory Drew.Block

/-- The members. The constructor leaves them as they are. -/
structure Rijndael where
  nr : Nat
  nk : Nat
  rk : Vector (Vector UInt64 4) 15
  rkb : Vector UInt8 480

namespace Rijndael

/-- The subclasses, with the number of bits of a block. -/
inductive Class
  | rijndael128
  | rijndael160
  | rijndael192
  | rijndael224
  | rijndael256

/-- `m_nb`. -/
def Class.nb : Class → Nat
  | rijndael128 => 4
  | rijndael160 => 5
  | rijndael192 => 6
  | rijndael224 => 7
  | rijndael256 => 8

/-- `m_bc`, the number of bits of a row. -/
def Class.bc (C : Class) : Nat := 8 * C.nb

/-- `m_bcmask`. -/
def Class.bcmask (C : Class) : UInt64 := (((1 : UInt64) <<< UInt64.ofNat (C.bc - 1)) - 1) <<< 1 ||| 1

def shifts1 : List Shifts := [⟨24, 16, 8⟩, ⟨32, 24, 16⟩, ⟨40, 32, 24⟩, ⟨48, 40, 24⟩, ⟨56, 40, 32⟩]

/-- `m_sh1`, without the row that is not shifted. -/
def Class.sh1 (C : Class) : Shifts := shifts1.getD (C.nb - 4) ⟨0, 0, 0⟩

/-! ## The key schedule -/

namespace Column

/-- `tk[i][j]` in the column `j`. -/
def get (a : Column) (i : Nat) : UInt8 :=
  match i % 4 with
  | 0 => a.r0
  | 1 => a.r1
  | 2 => a.r2
  | _ => a.r3

def set (a : Column) (i : Nat) (x : UInt8) : Column :=
  match i % 4 with
  | 0 => { a with r0 := x }
  | 1 => { a with r1 := x }
  | 2 => { a with r2 := x }
  | _ => { a with r3 := x }

end Column

abbrev Keys := Vector (Vector UInt64 4) 15

/-- The words of `m_rk` at an index. -/
def wordsAt (rk : Keys) (n : Nat) : Vector UInt64 4 := rk.get (Fin.ofNat 15 n)

/-- `m_rk[t / m_nb][i] |= uint64_t(tk[i][j]) << ((t * 8) % m_bc)`, for the column `j` of `tk`. -/
def store (C : Class) (rk : Keys) (t : Nat) (a : Column) : Option Keys :=
  if t / C.nb < 15 then
    some (rk.setIfInBounds (t / C.nb) (Vector.ofFn fun i =>
      (wordsAt rk (t / C.nb)).get i ||| (a.get i).toUInt64 <<< UInt64.ofNat (t * 8 % C.bc)))
  else none

/-- The loop that stores the columns of `tk`, as long as `t` is below `total`. -/
def storeAll (C : Class) (total : Nat) : List Column → Nat → Keys → Option (Nat × Keys)
  | [], t, rk => some (t, rk)
  | a :: tk, t, rk =>
    if t < total then do
      let rk ← store C rk t a
      storeAll C total tk (t + 1) rk
    else some (t, rk)

/-- `tk[i][0] ^= S[tk[(i+1)%4][m_nk-1]]` for the four rows. -/
def rotateFirst (nk : Nat) (tk : List Column) : Option (List Column) :=
  (List.range 4).foldlM (fun tk i => do
    let last ← tk[nk - 1]?
    let first ← tk[0]?
    some (tk.set 0 (first.set i (first.get i ^^^ S.entry (last.get (i + 1)))))) tk

/-- `tk[0][0] ^= rcon[ri]`. -/
def addConstant (ri : Nat) (tk : List Column) : Option (List Column) := do
  let rc ← rcon[ri]?
  let first ← tk[0]?
  some (tk.set 0 (first.set 0 (first.get 0 ^^^ rc)))

/-- `tk[i][j] ^= f (tk[i][j-1])` for the four rows. -/
def chain (f : UInt8 → UInt8) (tk : List Column) (j : Nat) : Option (List Column) := do
  let prev ← tk[j - 1]?
  let a ← tk[j]?
  some (tk.set j (a.xor (prev.map f)))

/-- What a pass makes of `tk`. -/
def nextKeys (nk ri : Nat) (tk : List Column) : Option (List Column) := do
  let tk ← rotateFirst nk tk
  let tk ← addConstant ri tk
  if nk ≤ 6 then
    (List.range' 1 (nk - 1)).foldlM (chain id) tk
  else
    let tk ← (List.range' 1 3).foldlM (chain id) tk
    let tk ← chain S.entry tk 4
    (List.range' 5 (nk - 5)).foldlM (chain id) tk

/-- The variables of the key schedule. -/
structure Schedule where
  tk : List Column
  t : Nat
  ri : Nat
  rk : Keys

/-- The `while` loop. The number of passes is at most the number of words that are left. -/
def expandLoop (C : Class) (nk total : Nat) : Nat → Schedule → Option Schedule
  | 0, s => if s.t < total then none else some s
  | n + 1, s =>
    if s.t < total then do
      let tk ← nextKeys nk s.ri s.tk
      let (t, rk) ← storeAll C total tk s.t s.rk
      expandLoop C nk total n { tk, t, ri := s.ri + 1, rk }
    else some s

/-- Values that are written to an array, each at its index. -/
def writes {α : Type} {n : Nat} (l : List (Nat × α)) (v : Vector α n) : Vector α n :=
  l.foldl (fun v w => v.setIfInBounds w.1 w.2) v

/-- The last loop of `SetKeyInternal`: `E::Copy` of every round key. -/
def copyKeys (nr : Nat) (rk : Keys) (rkb : Vector UInt8 480) : Vector UInt8 480 :=
  writes ((List.range (nr + 1)).flatMap fun i =>
    (List.range 32).map fun j => (32 * i + j, (copyOut word64 .big (wordsAt rk i)).getD j 0)) rkb

/-- `SetKeyInternal`. The array `tk` has columns for a key of at most 32 bytes. -/
def setKeyInternal (C : Class) (c : Rijndael) (key : List UInt8) : Option Rijndael :=
  if 32 < key.length then none
  else do
    let nk := key.length / 4
    let nr := 6 + max C.nb nk
    let total := (nr + 1) * C.nb
    let tk := (List.range nk).map (keyColumn key)
    let (t, rk) ← storeAll C total tk 0 (Vector.replicate 15 (Vector.replicate 4 0))
    let s ← expandLoop C nk total total { tk, t, ri := 0, rk }
    some { nr, nk, rk := s.rk, rkb := copyKeys nr s.rk c.rkb }

/-! ## Encryption -/

/-- The arguments of `R128R`. -/
structure Line where
  i : Nat
  e : Nat
  f : Nat
  g : Nat
  h : Nat
  w : Nat
  x : Nat
  y : Nat
  z : Nat
deriving DecidableEq

/-- The arguments of `R128F`. -/
structure FinalLine where
  x : Nat
  z : Nat
  y : Nat
  w : Nat
deriving DecidableEq

/-- The lines of `Round`. -/
def Class.lines : Class → List Line
  | rijndael128 =>
    [⟨0, 0, 5, 10, 15, 7, 14, 21, 28⟩, ⟨4, 4, 9, 14, 3, 6, 13, 20, 31⟩,
    ⟨8, 8, 13, 2, 7, 5, 12, 23, 30⟩, ⟨12, 12, 1, 6, 11, 4, 15, 22, 29⟩]
  | rijndael160 =>
    [⟨0, 0, 5, 10, 15, 7, 14, 21, 28⟩, ⟨4, 4, 9, 14, 19, 6, 13, 20, 27⟩,
    ⟨8, 8, 13, 18, 3, 5, 12, 19, 31⟩, ⟨12, 12, 17, 2, 7, 4, 11, 23, 30⟩,
    ⟨16, 16, 1, 6, 11, 3, 15, 22, 29⟩]
  | rijndael192 =>
    [⟨0, 0, 5, 10, 15, 7, 14, 21, 28⟩, ⟨4, 4, 9, 14, 19, 6, 13, 20, 27⟩,
    ⟨8, 8, 13, 18, 23, 5, 12, 19, 26⟩, ⟨12, 12, 17, 22, 3, 4, 11, 18, 31⟩,
    ⟨16, 16, 21, 2, 7, 3, 10, 23, 30⟩, ⟨20, 20, 1, 6, 11, 2, 15, 22, 29⟩]
  | rijndael224 =>
    [⟨0, 0, 5, 10, 19, 7, 14, 21, 27⟩, ⟨4, 4, 9, 14, 23, 6, 13, 20, 26⟩,
    ⟨8, 8, 13, 18, 27, 5, 12, 19, 25⟩, ⟨12, 12, 17, 22, 3, 4, 11, 18, 31⟩,
    ⟨16, 16, 21, 26, 7, 3, 10, 17, 30⟩, ⟨20, 20, 25, 2, 11, 2, 9, 23, 29⟩,
    ⟨24, 24, 1, 6, 15, 1, 15, 22, 28⟩]
  | rijndael256 =>
    [⟨0, 0, 5, 14, 19, 7, 14, 20, 27⟩, ⟨4, 4, 9, 18, 23, 6, 13, 19, 26⟩,
    ⟨8, 8, 13, 22, 27, 5, 12, 18, 25⟩, ⟨12, 12, 17, 26, 31, 4, 11, 17, 24⟩,
    ⟨16, 16, 21, 30, 3, 3, 10, 16, 31⟩, ⟨20, 20, 25, 2, 7, 2, 9, 23, 30⟩,
    ⟨24, 24, 29, 6, 11, 1, 8, 22, 29⟩, ⟨28, 28, 1, 10, 15, 0, 15, 21, 28⟩]

/-- The lines of `Final`. -/
def Class.finalLines : Class → List FinalLine
  | rijndael128 =>
    [⟨12, 4, 12, 4⟩, ⟨13, 12, 1, 15⟩, ⟨14, 20, 6, 22⟩, ⟨15, 28, 11, 29⟩,
    ⟨8, 5, 8, 5⟩, ⟨9, 13, 13, 12⟩, ⟨10, 21, 2, 23⟩, ⟨11, 29, 7, 30⟩,
    ⟨4, 6, 4, 6⟩, ⟨5, 14, 9, 13⟩, ⟨6, 22, 14, 20⟩, ⟨7, 30, 3, 31⟩,
    ⟨0, 7, 0, 7⟩, ⟨1, 15, 5, 14⟩, ⟨2, 23, 10, 21⟩, ⟨3, 31, 15, 28⟩]
  | rijndael160 =>
    [⟨0, 7, 0, 7⟩, ⟨1, 15, 5, 14⟩, ⟨2, 23, 10, 21⟩, ⟨3, 31, 15, 28⟩,
    ⟨4, 6, 4, 6⟩, ⟨5, 14, 9, 13⟩, ⟨6, 22, 14, 20⟩, ⟨7, 30, 19, 27⟩,
    ⟨8, 5, 8, 5⟩, ⟨9, 13, 13, 12⟩, ⟨10, 21, 18, 19⟩, ⟨11, 29, 3, 31⟩,
    ⟨12, 4, 12, 4⟩, ⟨13, 12, 17, 11⟩, ⟨14, 20, 2, 23⟩, ⟨15, 28, 7, 30⟩,
    ⟨16, 3, 16, 3⟩, ⟨17, 11, 1, 15⟩, ⟨18, 19, 6, 22⟩, ⟨19, 27, 11, 29⟩]
  | rijndael192 =>
    [⟨0, 7, 0, 7⟩, ⟨1, 15, 5, 14⟩, ⟨2, 23, 10, 21⟩, ⟨3, 31, 15, 28⟩,
    ⟨4, 6, 4, 6⟩, ⟨5, 14, 9, 13⟩, ⟨6, 22, 14, 20⟩, ⟨7, 30, 19, 27⟩,
    ⟨8, 5, 8, 5⟩, ⟨9, 13, 13, 12⟩, ⟨10, 21, 18, 19⟩, ⟨11, 29, 23, 26⟩,
    ⟨12, 4, 12, 4⟩, ⟨13, 12, 17, 11⟩, ⟨14, 20, 22, 18⟩, ⟨15, 28, 3, 31⟩,
    ⟨16, 3, 16, 3⟩, ⟨17, 11, 21, 10⟩, ⟨18, 19, 2, 23⟩, ⟨19, 27, 7, 30⟩,
    ⟨20, 2, 20, 2⟩, ⟨21, 10, 1, 15⟩, ⟨22, 18, 6, 22⟩, ⟨23, 26, 11, 29⟩]
  | rijndael224 =>
    [⟨0, 7, 0, 7⟩, ⟨1, 15, 5, 14⟩, ⟨2, 23, 10, 21⟩, ⟨3, 31, 19, 27⟩,
    ⟨4, 6, 4, 6⟩, ⟨5, 14, 9, 13⟩, ⟨6, 22, 14, 20⟩, ⟨7, 30, 23, 26⟩,
    ⟨8, 5, 8, 5⟩, ⟨9, 13, 13, 12⟩, ⟨10, 21, 18, 19⟩, ⟨11, 29, 27, 25⟩,
    ⟨12, 4, 12, 4⟩, ⟨13, 12, 17, 11⟩, ⟨14, 20, 22, 18⟩, ⟨15, 28, 3, 31⟩,
    ⟨16, 3, 16, 3⟩, ⟨17, 11, 21, 10⟩, ⟨18, 19, 26, 17⟩, ⟨19, 27, 7, 30⟩,
    ⟨20, 2, 20, 2⟩, ⟨21, 10, 25, 9⟩, ⟨22, 18, 2, 23⟩, ⟨23, 26, 11, 29⟩,
    ⟨24, 1, 24, 1⟩, ⟨25, 9, 1, 15⟩, ⟨26, 17, 6, 22⟩, ⟨27, 25, 15, 28⟩]
  | rijndael256 =>
    [⟨0, 7, 0, 7⟩, ⟨1, 15, 5, 14⟩, ⟨2, 23, 14, 20⟩, ⟨3, 31, 19, 27⟩,
    ⟨4, 6, 4, 6⟩, ⟨5, 14, 9, 13⟩, ⟨6, 22, 18, 19⟩, ⟨7, 30, 23, 26⟩,
    ⟨8, 5, 8, 5⟩, ⟨9, 13, 13, 12⟩, ⟨10, 21, 22, 18⟩, ⟨11, 29, 27, 25⟩,
    ⟨12, 4, 12, 4⟩, ⟨13, 12, 17, 11⟩, ⟨14, 20, 26, 17⟩, ⟨15, 28, 31, 24⟩,
    ⟨16, 3, 16, 3⟩, ⟨17, 11, 21, 10⟩, ⟨18, 19, 30, 16⟩, ⟨19, 27, 3, 31⟩,
    ⟨20, 2, 20, 2⟩, ⟨21, 10, 25, 9⟩, ⟨22, 18, 2, 23⟩, ⟨23, 26, 7, 30⟩,
    ⟨24, 1, 24, 1⟩, ⟨25, 9, 29, 8⟩, ⟨26, 17, 6, 22⟩, ⟨27, 25, 11, 29⟩,
    ⟨28, 0, 28, 0⟩, ⟨29, 8, 1, 15⟩, ⟨30, 16, 10, 21⟩, ⟨31, 24, 15, 28⟩]

/-- A block, or `buf`. Only the bytes of a block are used. -/
abbrev Buffer := Vector UInt8 32

/-- `buf[n]`. -/
def byteAt (buf : Buffer) (n : Nat) : UInt8 := buf.get (Fin.ofNat 32 n)

/-- `rk[n]`, where `rk` is at the round key `i` of `m_rkb`. -/
def keyByte (rkb : Vector UInt8 480) (i n : Nat) : UInt8 := rkb.get (Fin.ofNat 480 (32 * i + n))

/-- What `R128R` writes. -/
def r128r (buf : Buffer) (rk : Nat → UInt8) (box : Table) (l : Line) : List (Nat × UInt8) :=
  let a := box.entry (byteAt buf l.e ^^^ rk l.w)
  let b := box.entry (byteAt buf l.f ^^^ rk l.x)
  let c := box.entry (byteAt buf l.g ^^^ rk l.y)
  let d := box.entry (byteAt buf l.h ^^^ rk l.z)
  let t := et0.entry a ^^^ et1.entry b ^^^ et2.entry c ^^^ et3.entry d
  [(l.i, getByte t 0), (l.i + 1, getByte t 1), (l.i + 2, getByte t 2), (l.i + 3, getByte t 3)]

/-- What `R128F` writes. -/
def r128f (buf : Buffer) (rk : Nat → UInt8) (box : Table) (l : FinalLine) : Nat × UInt8 :=
  (l.x, box.entry (byteAt buf l.y ^^^ rk l.w) ^^^ rk (l.z + 32))

/-- `Round`. -/
def round (C : Class) (obuf buf : Buffer) (rk : Nat → UInt8) (box : Table) : Buffer :=
  writes (C.lines.flatMap (r128r buf rk box)) obuf

/-- `Final`. -/
def final (C : Class) (obuf buf : Buffer) (rk : Nat → UInt8) (box : Table) : Buffer :=
  writes (C.finalLines.map (r128f buf rk box)) obuf

/-- `EncryptBlock`: the pointers `p` and `q` are exchanged in every round. -/
def encryptBlock (C : Class) (c : Rijndael) (state : Buffer) : Buffer :=
  let (p, q) := (List.range (c.nr - 1)).foldl
    (fun (pq : Buffer × Buffer) i => (round C pq.2 pq.1 (keyByte c.rkb i) S, pq.1)) (state, Vector.replicate 32 0)
  final C q p (keyByte c.rkb (c.nr - 1)) S

/-- `Encrypt`. -/
def encrypt (C : Class) (c : Rijndael) (inp : List UInt8) : List UInt8 :=
  (encryptBlock C c (Vector.ofFn fun p => inp.getD p 0)).toList.take (4 * C.nb)

/-! ## Decryption -/

/-- The array `state` of `Decrypt`. -/
@[ext] structure Rows where
  s0 : UInt64
  s1 : UInt64
  s2 : UInt64
  s3 : UInt64

/-- `KeyAddition`. -/
def keyAddition (s : Rows) (rk : Vector UInt64 4) : Rows :=
  ⟨s.s0 ^^^ rk.get 0, s.s1 ^^^ rk.get 1, s.s2 ^^^ rk.get 2, s.s3 ^^^ rk.get 3⟩

/-- `shift`. -/
def shift (C : Class) (x : UInt64) (n : Nat) : UInt64 :=
  (x >>> UInt64.ofNat n ||| x <<< UInt64.ofNat (C.bc - n)) &&& C.bcmask

/-- `ShiftRow`. -/
def shiftRow (C : Class) (s : Rows) (shifts : Shifts) : Rows :=
  ⟨s.s0, shift C s.s1 shifts.s1, shift C s.s2 shifts.s2, shift C s.s3 shifts.s3⟩

/-- `ApplyS`. -/
def applyS (C : Class) (r : UInt64) (box : Table) : UInt64 :=
  [7, 6, 5, 4, 3, 2, 1, 0].foldl
    (fun (res : UInt64) i => res <<< 8 ||| (box.entry (longByte r i)).toUInt64) 0 &&& C.bcmask

/-- `Substitution`. -/
def substitution (C : Class) (s : Rows) (box : Table) : Rows :=
  ⟨applyS C s.s0 box, applyS C s.s1 box, applyS C s.s2 box, applyS C s.s3 box⟩

/-- A row of `InvMixColumn`, from the row of the state with the same number and the next ones. -/
def invMixRow (C : Class) (s0 s1 s2 s3 : UInt64) : UInt64 :=
  rowOf C.nb fun c => multe.entry (longByte s0 c) ^^^ multb.entry (longByte s1 c) ^^^
    multd.entry (longByte s2 c) ^^^ mult9.entry (longByte s3 c)

/-- `InvMixColumn`. -/
def invMixColumn (C : Class) (s : Rows) : Rows :=
  ⟨invMixRow C s.s0 s.s1 s.s2 s.s3, invMixRow C s.s1 s.s2 s.s3 s.s0, invMixRow C s.s2 s.s3 s.s0 s.s1,
    invMixRow C s.s3 s.s0 s.s1 s.s2⟩

/-- `DecryptBlock`. -/
def decryptBlock (C : Class) (c : Rijndael) (s : Rows) : Rows :=
  let back := fun s => shiftRow C (substitution C s Si) C.sh1
  let s := back (keyAddition s (wordsAt c.rk c.nr))
  let s := (List.range (c.nr - 1)).foldl
    (fun s i => back (invMixColumn C (keyAddition s (wordsAt c.rk (c.nr - 1 - i))))) s
  keyAddition s (wordsAt c.rk 0)

/-- `PackBlock`. -/
def packBlock (C : Class) (s : Rows) : List UInt8 :=
  (List.range C.nb).flatMap fun c => [longByte s.s0 c, longByte s.s1 c, longByte s.s2 c, longByte s.s3 c]

/-- `UnpackBlock`. -/
def unpackBlock (C : Class) (blk : List UInt8) : Rows :=
  ⟨rowOf C.nb fun c => blk.getD (4 * c) 0, rowOf C.nb fun c => blk.getD (4 * c + 1) 0,
    rowOf C.nb fun c => blk.getD (4 * c + 2) 0, rowOf C.nb fun c => blk.getD (4 * c + 3) 0⟩

/-- `Decrypt`. -/
def decrypt (C : Class) (c : Rijndael) (inp : List UInt8) : List UInt8 :=
  packBlock C (decryptBlock C c (unpackBlock C inp))

end Rijndael

end Drew

/-!
## States, buffers and rows

The three shapes of a state in the code: the bytes of a block, the columns of the standard, and the rows
that decryption works on.
-/

namespace Drew.Rijndael

open Drew.Memory Drew.Block

/-! ## Writes -/

section Writes

variable {α : Type} {n : Nat}

theorem get_setIfInBounds (v : Vector α n) (m : Nat) (x : α) (p : Fin n) :
    (v.setIfInBounds m x).get p = if m = p then x else v.get p := by
  show (v.setIfInBounds m x)[p.val] = _
  by_cases h : m = p
  · rw [if_pos h, Vector.getElem_setIfInBounds, if_pos h]
  · rw [if_neg h, Vector.getElem_setIfInBounds_ne _ h]
    rfl

theorem get_writes_of_not_mem {l : List (Nat × α)} {p : Fin n} (h : p.val ∉ l.map Prod.fst) (v : Vector α n) :
    (writes l v).get p = v.get p := by
  induction l generalizing v with
  | nil => rfl
  | cons w l ih =>
    rw [List.map_cons, List.mem_cons, not_or] at h
    rw [writes, List.foldl_cons, ← writes, ih h.2, get_setIfInBounds, if_neg (Ne.symm h.1)]

/-- Where every index is written once, the value written there stays. -/
theorem get_writes {l : List (Nat × α)} (hnodup : (l.map Prod.fst).Nodup) {p : Fin n} {x : α}
    (hmem : (p.val, x) ∈ l) (v : Vector α n) : (writes l v).get p = x := by
  induction l generalizing v with
  | nil => exact absurd hmem List.not_mem_nil
  | cons w l ih =>
    rw [List.map_cons, List.nodup_cons] at hnodup
    rw [writes, List.foldl_cons, ← writes]
    rcases List.mem_cons.mp hmem with h | h
    · have hnot : p.val ∉ l.map Prod.fst := by
        have h1 := hnodup.1
        rwa [← h] at h1
      rw [get_writes_of_not_mem hnot, get_setIfInBounds, ← h, if_pos rfl]
    · exact ih hnodup.2 h _

end Writes

/-- The numbers below `m * k` in groups of `m`. -/
theorem flatMap_range (m k : Nat) :
    ((List.range k).flatMap fun i => (List.range m).map fun j => m * i + j) = List.range (m * k) := by
  induction k with
  | zero => rfl
  | succ k ih => rw [List.range_succ, List.flatMap_append, ih, List.flatMap_singleton, Nat.mul_succ, List.range_add]

/-! ## Columns -/

section Columns

variable {nb : Nat}

/-- The bytes of a column. -/
def Column.toList (a : Column) : List UInt8 := [a.r0, a.r1, a.r2, a.r3]

theorem Column.length_toList (a : Column) : a.toList.length = 4 := rfl

theorem Column.ext_get {a b : Column} (h : ∀ i < 4, a.get i = b.get i) : a = b :=
  Column.ext (h 0 (by decide)) (h 1 (by decide)) (h 2 (by decide)) (h 3 (by decide))

/-- The columns of a block. -/
def columnsOf (nb : Nat) (b : List UInt8) : State nb := Vector.ofFn fun c => keyColumn b c

/-- The bytes of a state. -/
def bytesOf (s : State nb) : List UInt8 := s.toList.flatMap Column.toList

theorem get_columnsOf (b : List UInt8) (c : Fin nb) : (columnsOf nb b).get c = keyColumn b c :=
  Vector.getElem_ofFn c.isLt

@[simp] theorem length_bytesOf (s : State nb) : (bytesOf s).length = 4 * nb := by
  rw [bytesOf, length_flatMap_of_length Column.length_toList, Vector.length_toList]

/-- Four bytes of a list. -/
theorem keyColumn_of_take_drop {b : List UInt8} {j : Nat} {a : Column}
    (h : (b.drop (4 * j)).take 4 = a.toList) : keyColumn b j = a := by
  have hget : ∀ i < 4, b.getD (4 * j + i) 0 = a.toList.getD i 0 := by
    intro i hi
    rw [← h, List.getD_eq_getElem?_getD, List.getD_eq_getElem?_getD, List.getElem?_take_of_lt hi,
      List.getElem?_drop]
  apply Column.ext
  · exact hget 0 (by decide)
  · exact hget 1 (by decide)
  · exact hget 2 (by decide)
  · exact hget 3 (by decide)

theorem columnsOf_bytesOf (s : State nb) : columnsOf nb (bytesOf s) = s := by
  apply state_ext
  intro c
  have hc : c.val < s.toList.length := by
    rw [Vector.length_toList]
    exact c.isLt
  rw [get_columnsOf]
  apply keyColumn_of_take_drop
  rw [bytesOf, take_drop_flatMap Column.length_toList _ c.val hc, Vector.getElem_toList]
  rfl

theorem take_drop_eq_keyColumn {b : List UInt8} {j : Nat} (h : 4 * j + 4 ≤ b.length) :
    (b.drop (4 * j)).take 4 = (keyColumn b j).toList := by
  have hget : ∀ i < 4, ((b.drop (4 * j)).take 4)[i]? = some (b.getD (4 * j + i) 0) := by
    intro i hi
    rw [List.getElem?_take_of_lt hi, List.getElem?_drop, List.getD_eq_getElem?_getD,
      List.getElem?_eq_getElem (by omega), Option.getD_some]
  apply List.ext_getElem?
  intro i
  by_cases hi : i < 4
  · rw [hget i hi]
    interval_cases i <;> rfl
  · rw [List.getElem?_eq_none (by simp; omega), List.getElem?_eq_none (by rw [Column.length_toList]; omega)]

theorem bytesOf_columnsOf {b : List UInt8} (h : b.length = 4 * nb) : bytesOf (columnsOf nb b) = b := by
  have hlist : (columnsOf nb b).toList = (List.range nb).map (keyColumn b) := by
    apply List.ext_getElem
    · simp
    · intro i _ _
      simp [columnsOf]
  rw [bytesOf, hlist, List.flatMap_map]
  have hpiece : ∀ c ∈ List.range nb, (keyColumn b c).toList = (b.drop (4 * c)).take 4 := by
    intro c hc
    have hlt := List.mem_range.mp hc
    exact (take_drop_eq_keyColumn (by omega)).symm
  rw [List.flatMap_congr hpiece, flatMap_chunks]
  exact List.take_of_length_le h.le

/-- A list of groups of four bytes, from its bytes. -/
theorem eq_bytesOf {l : List UInt8} {s : State nb} (h : l.length = 4 * nb)
    (hs : ∀ c : Fin nb, keyColumn l c = s.get c) : l = bytesOf s := by
  have hcols : columnsOf nb l = s := state_ext fun c => by rw [get_columnsOf, hs]
  rw [← hcols, bytesOf_columnsOf h]

end Columns

end Drew.Rijndael
