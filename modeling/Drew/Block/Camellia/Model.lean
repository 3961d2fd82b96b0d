import Drew.Memory.Endian
import Drew.StreamCipher.Words

/-!
# Camellia

The model of the class `Camellia`. The tables `s` are a parameter: nothing that is proved about the
cipher depends on what they hold.
-/

namespace Drew

open Drew.Memory

/-- What `fenc` and `fdec` point to. -/
inductive Camellia.Variant
  | short
  | long

/-- The members. The constructor leaves them as they are. -/
structure Camellia where
  kw : Vector UInt64 4
  ku : Vector UInt64 24
  kl : Vector UInt64 6
  fenc : Option Camellia.Variant
  fdec : Option Camellia.Variant

namespace Camellia

open Drew.StreamCipher (rotateLeft)

/-- Two words of a block. -/
abbrev Pair := UInt64 × UInt64

/-- `static const uint64_t s[8][256]`. -/
abbrev Tables := Fin 8 → UInt8 → UInt64

/-- `GetByte`. -/
def getByte (x : UInt64) (n : UInt64) : UInt8 := (x >>> (n * 8)).toUInt8

/-- `rolpair`. -/
def rolpair (x y n : UInt64) : Pair :=
  (x <<< n ||| y >>> (64 - n), y <<< n ||| x >>> (64 - n))

def spfunc (s : Tables) (x : UInt64) : UInt64 :=
  s 0 (getByte x 7) ^^^ s 1 (getByte x 6) ^^^ s 2 (getByte x 5) ^^^ s 3 (getByte x 4) ^^^
    s 4 (getByte x 3) ^^^ s 5 (getByte x 2) ^^^ s 6 (getByte x 1) ^^^ s 7 (getByte x 0)

def f (s : Tables) (x k : UInt64) : UInt64 := spfunc s (x ^^^ k)

def fl (x k : UInt64) : UInt64 :=
  let xl := (x >>> 32).toUInt32
  let xr := x.toUInt32
  let kl := (k >>> 32).toUInt32
  let kr := k.toUInt32
  let yr := rotateLeft (xl &&& kl) 1 ^^^ xr
  let yl := (yr ||| kr) ^^^ xl
  yl.toUInt64 <<< 32 ||| yr.toUInt64

def flinv (y k : UInt64) : UInt64 :=
  let yl := (y >>> 32).toUInt32
  let yr := y.toUInt32
  let kl := (k >>> 32).toUInt32
  let kr := k.toUInt32
  let xl := (yr ||| kr) ^^^ yl
  let xr := rotateLeft (xl &&& kl) 1 ^^^ yr
  xl.toUInt64 <<< 32 ||| xr.toUInt64

/-! ## The key schedules -/

/-- Pairs of words stored at places of an array. -/
def fill {n : Nat} (v : Vector UInt64 n) (ps : List (Nat × Pair)) : Vector UInt64 n :=
  ps.foldl (fun v p => (v.setIfInBounds p.1 p.2.1).setIfInBounds (p.1 + 1) p.2.2) v

/-- The two steps that a schedule makes with a pair of constants. -/
def mixPair (s : Tables) (d : Pair) (c1 c2 : UInt64) : Pair :=
  let d2 := d.2 ^^^ f s d.1 c1
  (d.1 ^^^ f s d2 c2, d2)

def xorPair (d e : Pair) : Pair := (d.1 ^^^ e.1, d.2 ^^^ e.2)

/-- `ka`: `d` is what the schedule starts from, `k` the first two words of the key. -/
def subkeyA (s : Tables) (d k : Pair) : Pair :=
  mixPair s (xorPair (mixPair s d 0xa09e667f3bcc908b 0xb67ae8584caa73b2) k)
    0xc6ef372fe94f82be 0x54ff53a5f1d36f1c

/-- `kb` of `SetKey256`. -/
def subkeyB (s : Tables) (ka k : Pair) : Pair :=
  mixPair s (xorPair ka k) 0x10e527fade682d1d 0xb05688c2b3e6c1fd

def setKey256 (s : Tables) (c : Camellia) (ko : Vector UInt64 4) : Camellia :=
  let ko0 := ko.get 0
  let ko1 := ko.get 1
  let ko2 := ko.get 2
  let ko3 := ko.get 3
  let ka := subkeyA s (ko0 ^^^ ko2, ko1 ^^^ ko3) (ko0, ko1)
  let kb := subkeyB s ka (ko2, ko3)
  { kw := fill c.kw [(0, (ko0, ko1)), (2, rolpair kb.2 kb.1 (111 - 64))]
    ku := fill c.ku
      [(0, kb), (2, rolpair ko2 ko3 15), (4, rolpair ka.1 ka.2 15), (6, rolpair kb.1 kb.2 30),
        (8, rolpair ko0 ko1 45), (10, rolpair ka.1 ka.2 45), (12, rolpair ko2 ko3 60),
        (14, rolpair kb.1 kb.2 60), (16, rolpair ko1 ko0 (77 - 64)), (18, rolpair ko3 ko2 (94 - 64)),
        (20, rolpair ka.2 ka.1 (94 - 64)), (22, rolpair ko1 ko0 (111 - 64))]
    kl := fill c.kl
      [(0, rolpair ko2 ko3 30), (2, rolpair ko0 ko1 60), (4, rolpair ka.2 ka.1 (77 - 64))]
    fenc := some .long
    fdec := some .long }

def setKey192 (s : Tables) (c : Camellia) (ko : Vector UInt64 4) : Camellia :=
  setKey256 s c (ko.setIfInBounds 3 (~~~ko.get 2))

/-- The pairs 4 and 5 of round keys are made of one word each of two rotations. -/
def setKey128 (s : Tables) (c : Camellia) (ko : Vector UInt64 4) : Camellia :=
  let ko0 := ko.get 0
  let ko1 := ko.get 1
  let ka := subkeyA s (ko0, ko1) (ko0, ko1)
  { kw := fill c.kw [(0, (ko0, ko1)), (2, rolpair ka.2 ka.1 (111 - 64))]
    ku := fill c.ku
      [(0, ka), (2, rolpair ko0 ko1 15), (4, rolpair ka.1 ka.2 15), (6, rolpair ko0 ko1 45),
        (8, ((rolpair ka.1 ka.2 45).1, (rolpair ko0 ko1 60).2)), (10, rolpair ka.1 ka.2 60),
        (12, rolpair ko1 ko0 (94 - 64)), (14, rolpair ka.2 ka.1 (94 - 64)),
        (16, rolpair ko1 ko0 (111 - 64))]
    kl := fill c.kl [(0, rolpair ka.1 ka.2 30), (2, rolpair ko1 ko0 (77 - 64))]
    fenc := some .short
    fdec := some .short }

/-- `SetKeyInternal`. Words beyond the key are not read. -/
def setKeyInternal (s : Tables) (c : Camellia) (key : List UInt8) : Option Camellia :=
  let ko := copyIn word64 .big 4 key
  if key.length = 16 then some (setKey128 s c ko)
  else if key.length = 24 then some (setKey192 s c ko)
  else if key.length = 32 then some (setKey256 s c ko)
  else none

/-! ## Encryption and decryption -/

section Words

variable (s : Tables) (c : Camellia)

/-- `ku[n]`. -/
def roundKey (n : Nat) : UInt64 := c.ku.get (Fin.ofNat 24 n)

def encryptPair (d : Pair) (n : Nat) : Pair :=
  let y := d.2 ^^^ f s d.1 (c.roundKey n)
  (d.1 ^^^ f s y (c.roundKey (n + 1)), y)

def decryptPair (d : Pair) (n : Nat) : Pair :=
  let y := d.2 ^^^ f s d.1 (c.roundKey (n + 1))
  (d.1 ^^^ f s y (c.roundKey n), y)

/-- `fl` on the one word, `flinv` on the other. -/
def flPair (d : Pair) (m n : Fin 6) : Pair := (fl d.1 (c.kl.get m), flinv d.2 (c.kl.get n))

def encrypt128 (d : Pair) : Pair :=
  let d := (d.1 ^^^ c.kw.get 0, d.2 ^^^ c.kw.get 1)
  let d := encryptPair s c (encryptPair s c (encryptPair s c d 0) 2) 4
  let d := flPair c d 0 1
  let d := encryptPair s c (encryptPair s c (encryptPair s c d 6) 8) 10
  let d := flPair c d 2 3
  let d := encryptPair s c (encryptPair s c (encryptPair s c d 12) 14) 16
  (d.2 ^^^ c.kw.get 2, d.1 ^^^ c.kw.get 3)

def encrypt256 (d : Pair) : Pair :=
  let d := (d.1 ^^^ c.kw.get 0, d.2 ^^^ c.kw.get 1)
  let d := encryptPair s c (encryptPair s c (encryptPair s c d 0) 2) 4
  let d := flPair c d 0 1
  let d := encryptPair s c (encryptPair s c (encryptPair s c d 6) 8) 10
  let d := flPair c d 2 3
  let d := encryptPair s c (encryptPair s c (encryptPair s c d 12) 14) 16
  let d := flPair c d 4 5
  let d := encryptPair s c (encryptPair s c (encryptPair s c d 18) 20) 22
  (d.2 ^^^ c.kw.get 2, d.1 ^^^ c.kw.get 3)

def decrypt128 (d : Pair) : Pair :=
  let d := (d.1 ^^^ c.kw.get 2, d.2 ^^^ c.kw.get 3)
  let d := decryptPair s c (decryptPair s c (decryptPair s c d 16) 14) 12
  let d := flPair c d 3 2
  let d := decryptPair s c (decryptPair s c (decryptPair s c d 10) 8) 6
  let d := flPair c d 1 0
  let d := decryptPair s c (decryptPair s c (decryptPair s c d 4) 2) 0
  (d.2 ^^^ c.kw.get 0, d.1 ^^^ c.kw.get 1)

def decrypt256 (d : Pair) : Pair :=
  let d := (d.1 ^^^ c.kw.get 2, d.2 ^^^ c.kw.get 3)
  let d := decryptPair s c (decryptPair s c (decryptPair s c d 22) 20) 18
  let d := flPair c d 5 4
  let d := decryptPair s c (decryptPair s c (decryptPair s c d 16) 14) 12
  let d := flPair c d 3 2
  let d := decryptPair s c (decryptPair s c (decryptPair s c d 10) 8) 6
  let d := flPair c d 1 0
  let d := decryptPair s c (decryptPair s c (decryptPair s c d 4) 2) 0
  (d.2 ^^^ c.kw.get 0, d.1 ^^^ c.kw.get 1)

/-- The function that `fenc` points to. -/
def encryptWith : Variant → Pair → Pair
  | .short => encrypt128 s c
  | .long => encrypt256 s c

/-- The function that `fdec` points to. -/
def decryptWith : Variant → Pair → Pair
  | .short => decrypt128 s c
  | .long => decrypt256 s c

end Words

/-- A function of two words on a block. -/
def onBlock (g : Pair → Pair) (block : List UInt8) : List UInt8 :=
  onWords word64 .big (fun v : Vector UInt64 2 => #v[(g (v.get 0, v.get 1)).1, (g (v.get 0, v.get 1)).2])
    block

/-- `Encrypt`. Calling through a pointer that no key has set is undefined. -/
def encrypt (s : Tables) (c : Camellia) (block : List UInt8) : Option (List UInt8) :=
  c.fenc.map fun v => onBlock (encryptWith s c v) block

/-- `Decrypt`. -/
def decrypt (s : Tables) (c : Camellia) (block : List UInt8) : Option (List UInt8) :=
  c.fdec.map fun v => onBlock (decryptWith s c v) block

end Camellia

end Drew
