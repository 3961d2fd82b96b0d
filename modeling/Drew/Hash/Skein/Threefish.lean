import Drew.Memory.BigEndian
import Drew.Hash.Skein.Fast

/-!
# Threefish-512

The model of the class `Threefish`, as far as Skein uses it: the constructor with the tweak,
`SetKey` with a key of words, and `Encrypt` of words.
-/

namespace Drew

open Drew.Memory

/-- The members: the tweak with its parity, and the keys of 19 rounds. -/
structure Threefish where
  t : Vector UInt64 3
  k : Vector (Vector UInt64 8) 19

namespace Threefish

/-- `RotateLeft`. -/
def rotateLeft (x n : UInt64) : UInt64 := x <<< n ||| x >>> (64 - n)

/-- The constructor. -/
def init (t0 t1 : UInt64) : Threefish where
  t := #v[t0, t1, t0 ^^^ t1]
  k := Vector.replicate 19 (Vector.replicate 8 0)

/-- `buf` of `SetKey`: the words of the key, and their parity. -/
def keyWords (key : Vector UInt64 8) : Vector UInt64 9 :=
  key.push (key.foldl (· ^^^ ·) 0x1bd11bdaa9fc1a22)

/-- The key of a round. -/
def roundKey (t : Vector UInt64 3) (buf : Vector UInt64 9) (i : Nat) : Vector UInt64 8 :=
  Vector.ofFn fun j =>
    let w := buf.get ⟨(i + j) % 9, Nat.mod_lt _ (by decide)⟩
    if j = 5 then w + t.get ⟨i % 3, Nat.mod_lt _ (by decide)⟩
    else if j = 6 then w + t.get ⟨(i + 1) % 3, Nat.mod_lt _ (by decide)⟩
    else if j = 7 then w + UInt64.ofNat i
    else w

/-- `SetKey`. -/
def setKey (c : Threefish) (key : Vector UInt64 8) : Threefish :=
  { c with k := Vector.ofFn fun i => roundKey c.t (keyWords key) i }

/-- `x[a] += x[b]`, then `x[b]` is rotated and `x[a]` is added to it. -/
def mix (x : Vector UInt64 8) (a b : Fin 8) (r : UInt64) : Vector UInt64 8 :=
  let s := x[a] + x[b]
  (x.set a s).set b (rotateLeft x[b] r ^^^ s)

/-- `x[a] = y`. -/
def put (x : Vector UInt64 8) (a : Fin 8) (y : UInt64) : Vector UInt64 8 := x.set a y

theorem get_put (x : Vector UInt64 8) (a b : Fin 8) (y : UInt64) :
    (put x a y).get b = if b = a then y else x.get b := by
  split_ifs with h
  · subst h
    exact Vector.getElem_set_self b.isLt
  · exact Vector.getElem_set_ne a.isLt b.isLt fun heq => h (Fin.ext heq.symm)

theorem mix_eq (x : Vector UInt64 8) (a b : Fin 8) (r : UInt64) : mix x a b r =
    put (put x a (x.get a + x.get b)) b (rotateLeft (x.get b) r ^^^ (x.get a + x.get b)) := rfl

def mixFour (x : Vector UInt64 8) (p : List (Fin 8 × Fin 8 × UInt64)) : Vector UInt64 8 :=
  p.foldl (fun x e => mix x e.1 e.2.1 e.2.2) x

/-- The words that the rounds after an even key work on, with the rotation constants. -/
def evenRounds : List (List (Fin 8 × Fin 8 × UInt64)) :=
  [[(0, 1, 46), (2, 3, 36), (4, 5, 19), (6, 7, 37)],
    [(2, 1, 33), (4, 7, 27), (6, 5, 14), (0, 3, 42)],
    [(4, 1, 17), (6, 3, 49), (0, 5, 36), (2, 7, 39)],
    [(6, 1, 44), (0, 7, 9), (2, 5, 54), (4, 3, 56)]]

/-- Those after an odd key. -/
def oddRounds : List (List (Fin 8 × Fin 8 × UInt64)) :=
  [[(0, 1, 39), (2, 3, 30), (4, 5, 34), (6, 7, 24)],
    [(2, 1, 13), (4, 7, 50), (6, 5, 10), (0, 3, 17)],
    [(4, 1, 25), (6, 3, 29), (0, 5, 39), (2, 7, 43)],
    [(6, 1, 8), (0, 7, 35), (2, 5, 56), (4, 3, 22)]]

/-- `x[j] += m_k[r][j]`. -/
def addKey (x k : Vector UInt64 8) : Vector UInt64 8 := Vector.zipWith (· + ·) x k

/-- `Encrypt`. -/
def encrypt (c : Threefish) (x : Vector UInt64 8) : Vector UInt64 8 :=
  let x := (List.finRange 9).foldl (fun x (i : Fin 9) =>
    let x := evenRounds.foldl mixFour (addKey x (c.k.get ⟨2 * i, by omega⟩))
    oddRounds.foldl mixFour (addKey x (c.k.get ⟨2 * i + 1, by omega⟩))) x
  addKey x (c.k.get 18)

end Threefish

end Drew

/-!
## Skein with Threefish

The class as it is in the plugin: `UBIBlock` uses Threefish-512 with the state as its key, and
`Reset` processes a block that has the size of the digest.
-/

namespace Drew.Skein

open Drew.Memory Drew.HashClass

/-- The words of a block, the first byte of a word being the lowest. -/
def loadWords (block : List UInt8) : Vector UInt64 8 :=
  Vector.ofFn fun i => UInt64.ofNat (beNat ((block.drop (8 * i)).take 8).reverse)

/-- The bytes of words, lowest byte first. -/
def wordBytes (v : Vector UInt64 8) : List UInt8 :=
  v.toList.flatMap fun w => (beBytes 8 w.toNat).reverse

/-- `UBIBlock`. -/
def ubiBlock (state : Vector UInt64 8) (e : Step) : Vector UInt64 8 :=
  let m := loadWords e.block
  let tf := Threefish.init (UInt64.ofNat e.position.toNat) (UInt64.ofNat e.flags.toNat)
  Vector.zipWith (· ^^^ ·) ((tf.setKey state).encrypt m) m

def typeCfg : BitVec 64 := 4 <<< 56

/-- `config` of `Reset`. -/
def config (digestSize : Nat) : List UInt8 :=
  [0x53, 0x48, 0x41, 0x33, 0x01, 0x00, 0x00, 0x00] ++ (beBytes 2 (digestSize * 8)).reverse ++
    List.replicate 22 0

/-- `m_hash` after `Reset`. -/
def initialHash (digestSize : Nat) : Vector UInt64 8 :=
  ubiBlock (Vector.replicate 8 0)
    ⟨config digestSize ++ List.replicate 32 0, 32, typeCfg ||| bitFirst ||| bitFinal⟩

/-- The class, for a size of the digest. -/
abbrev skein (digestSize : Nat) : HashClass :=
  hashClass ubiBlock (fun v => (wordBytes v).take digestSize) (initialHash digestSize)

end Drew.Skein
