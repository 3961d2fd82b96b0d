import Drew.Memory.Endian
import Drew.Block.Bytes

/-!
# Twofish

The model of the class `Twofish`. The tables `q0`, `q1` and `mds` are parameters: nothing that is
proved about the cipher depends on what they hold.
-/

namespace Drew

open Drew.Memory Drew.StreamCipher Drew.Block

/-- The members. -/
structure Twofish where
  s : Vector (Vector UInt32 256) 4
  k : Vector UInt32 40

namespace Twofish

structure Tables where
  q0 : UInt8 → UInt8
  q1 : UInt8 → UInt8
  mds : Fin 4 → UInt8 → UInt32

/-- The local variables `a`, `b`, `c`, `d`. -/
@[ext] structure Words where
  a : UInt32
  b : UInt32
  c : UInt32
  d : UInt32

/-! ## The key schedule -/

/-- `Mod`. -/
def mod (c : UInt32) : UInt32 :=
  let c2 := c <<< 1 ^^^ (if c &&& 0x80 ≠ 0 then 0x14d else 0 : UInt32)
  let c1 := c2 ^^^ c >>> 1 ^^^ (if c &&& 1 ≠ 0 then (0x14d : UInt32) >>> 1 else 0)
  c ||| c1 <<< 8 ||| c2 <<< 16 ||| c1 <<< 24

/-- The body of the loop of `ReedSolomon`: `hi` and `lo`. -/
def reedSolomonStep (w : UInt32 × UInt32) : UInt32 × UInt32 :=
  (mod (w.1 >>> 24) ^^^ w.1 <<< 8 ^^^ w.2 >>> 24, w.2 <<< 8)

def reedSolomon (hi lo : UInt32) : UInt32 :=
  ((List.range 8).foldl (fun w _ => reedSolomonStep w) (hi, lo)).1

section Schedule

variable (T : Tables)

/-- The macro `Q`. -/
def Q (a b c d : UInt8 → UInt8) (t : UInt32) : UInt32 :=
  ofBytes (a (getByte t 0)) (b (getByte t 1)) (c (getByte t 2)) (d (getByte t 3))

/-- `h0`, with `k` as an array. A case of the `switch` falls through to the next one. -/
def h0 (x : UInt32) (k : Nat → UInt32) (len : Nat) : UInt32 :=
  let x := x ||| x <<< 8 ||| x <<< 16 ||| x <<< 24
  let x := if len = 4 then Q T.q1 T.q0 T.q0 T.q1 x ^^^ k 6 else x
  let x := if len = 4 ∨ len = 3 then Q T.q1 T.q1 T.q0 T.q0 x ^^^ k 4 else x
  if len = 4 ∨ len = 3 ∨ len = 2 then
    let x := Q T.q0 T.q1 T.q0 T.q1 x ^^^ k 2
    Q T.q0 T.q0 T.q1 T.q1 x ^^^ k 0
  else x

/-- The words of the table `mds` at the bytes of a word. -/
def mix (x : UInt32) : UInt32 :=
  T.mds 0 (getByte x 0) ^^^ T.mds 1 (getByte x 1) ^^^ T.mds 2 (getByte x 2) ^^^ T.mds 3 (getByte x 3)

def h (x : UInt32) (k : Nat → UInt32) (len : Nat) : UInt32 := mix T (h0 T x k len)

/-- `m[n]`. -/
def keyWord (m : Vector UInt32 8) (n : Nat) : UInt32 := m.get (Fin.ofNat 8 n)

/-- A pass of the loop that fills `m_k`. -/
def subkeys (m : Vector UInt32 8) (len : Nat) (k : Vector UInt32 40) (i : Nat) : Vector UInt32 40 :=
  let a := h T (UInt32.ofNat i) (keyWord m) len
  let b := rotateLeft (h T (UInt32.ofNat (i + 1)) (fun n => keyWord m (n + 1)) len) 8
  (k.setIfInBounds i (a + b)).setIfInBounds (i + 1) (rotateLeft (a + 2 * b) 9)

/-- `svec`. Only every other entry is set and read. -/
def svec (m : Vector UInt32 8) (len : Nat) : Vector UInt32 8 :=
  (List.range len).foldl (fun v i =>
    v.setIfInBounds (2 * (len - i - 1)) (reedSolomon (keyWord m (2 * i + 1)) (keyWord m (2 * i))))
    (Vector.replicate 8 0)

/-- The loop that fills `m_s`. -/
def fillTables (sv : Vector UInt32 8) (len : Nat) (s : Vector (Vector UInt32 256) 4) :
    Vector (Vector UInt32 256) 4 :=
  Vector.ofFn fun j => (List.range 256).foldl (fun v i =>
    let t := h0 T (UInt32.ofNat i) (keyWord sv) len
    v.setIfInBounds i (T.mds j (getByte t (UInt32.ofNat j)))) (s.get j)

/-- `SetKeyInternal`. The parts of the key are read as far as `svec` has room for four. -/
def setKeyInternal (c : Twofish) (key : List UInt8) : Option Twofish :=
  let len := key.length / 8
  if len ≤ 4 then
    let m := copyIn word32 .little 8 key
    some
      { k := (List.range 20).foldl (fun k i => subkeys T m len k (2 * i)) c.k
        s := fillTables T (svec m len) len c.s }
  else none

end Schedule

/-! ## Encryption and decryption -/

section Cipher

variable (c : Twofish)

/-- `m_s[j][b]`. -/
def table (j : Fin 4) (b : UInt8) : UInt32 := (c.s.get j).get (Fin.ofNat 256 b.toNat)

/-- `m_k[n]`. -/
def key (n : Nat) : UInt32 := c.k.get (Fin.ofNat 40 n)

def g0 (x : UInt32) : UInt32 :=
  c.table 0 (getByte x 0) ^^^ c.table 1 (getByte x 1) ^^^ c.table 2 (getByte x 2) ^^^
    c.table 3 (getByte x 3)

def g1 (x : UInt32) : UInt32 :=
  c.table 0 (getByte x 3) ^^^ c.table 1 (getByte x 0) ^^^ c.table 2 (getByte x 1) ^^^
    c.table 3 (getByte x 2)

/-- `f` with `m_k + k`. -/
def f (k : Nat) (w : Words) : Words :=
  let x := c.g0 w.a
  let y := c.g1 w.b
  let x := x + y
  let y := y + (x + c.key (k + 1))
  let x := x + c.key k
  { w with d := rotateLeft w.d 1 ^^^ y, c := rotateRight (w.c ^^^ x) 1 }

/-- `finv` with `m_k + k`. -/
def finv (k : Nat) (w : Words) : Words :=
  let x := c.g0 w.a
  let y := c.g1 w.b
  let x := x + y
  let y := y + x
  { w with d := rotateRight (w.d ^^^ (y + c.key (k + 1))) 1, c := rotateLeft w.c 1 ^^^ (x + c.key k) }

/-- A function called with `c, d, a, b`. -/
def cdab (g : Words → Words) (w : Words) : Words :=
  let r := g ⟨w.c, w.d, w.a, w.b⟩
  ⟨r.c, r.d, r.a, r.b⟩

/-- The body of the loop of `Encrypt`, with `k`. -/
def encryptPass (st : Words × Nat) : Words × Nat :=
  (cdab (c.f (st.2 + 2)) (c.f st.2 st.1), st.2 + 4)

/-- The body of the loop of `Decrypt`. -/
def decryptPass (st : Words × Nat) : Words × Nat :=
  (c.finv (st.2 - 2) (cdab (c.finv st.2) st.1), st.2 - 4)

/-- `Encrypt` of words. -/
def encryptWords (w : Words) : Words :=
  let w := ⟨w.a ^^^ c.key 0, w.b ^^^ c.key 1, w.c ^^^ c.key 2, w.d ^^^ c.key 3⟩
  let w := ((List.range 8).foldl (fun st _ => c.encryptPass st) (w, 8)).1
  ⟨w.c ^^^ c.key 4, w.d ^^^ c.key 5, w.a ^^^ c.key 6, w.b ^^^ c.key 7⟩

/-- `Decrypt` of words. -/
def decryptWords (w : Words) : Words :=
  let w := ⟨w.c ^^^ c.key 6, w.d ^^^ c.key 7, w.a ^^^ c.key 4, w.b ^^^ c.key 5⟩
  let w := ((List.range 8).foldl (fun st _ => c.decryptPass st) (w, 38)).1
  ⟨w.a ^^^ c.key 0, w.b ^^^ c.key 1, w.c ^^^ c.key 2, w.d ^^^ c.key 3⟩

/-- A function of four words on a block. -/
def onBlock (g : Words → Words) (block : List UInt8) : List UInt8 :=
  onWords word32 .little (fun v : Vector UInt32 4 =>
    let w := g ⟨v.get 0, v.get 1, v.get 2, v.get 3⟩
    #v[w.a, w.b, w.c, w.d]) block

def encrypt (block : List UInt8) : List UInt8 := onBlock c.encryptWords block

def decrypt (block : List UInt8) : List UInt8 := onBlock c.decryptWords block

end Cipher

end Twofish

end Drew
