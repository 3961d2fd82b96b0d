import Drew.Memory.Endian
import Drew.Block.Bytes

/-!
# ARIA

The model of the class `ARIA` and of the key schedules of its two subclasses, `ARIABytewise` and
`ARIA128`, which fill the same members.
-/

namespace Drew

open Drew.Memory Drew.Block

/-- `AlignedData`. -/
abbrev Aria.Block := Vector UInt8 16

/-- The members. The constructor leaves them as they are. -/
structure Aria where
  ek : Vector Aria.Block 17
  dk : Vector Aria.Block 17
  off : Nat

namespace Aria

def sb1 : Table :=
  [[0x63, 0x7c, 0x77, 0x7b, 0xf2, 0x6b, 0x6f, 0xc5, 0x30, 0x01, 0x67, 0x2b, 0xfe, 0xd7, 0xab, 0x76],
    [0xca, 0x82, 0xc9, 0x7d, 0xfa, 0x59, 0x47, 0xf0, 0xad, 0xd4, 0xa2, 0xaf, 0x9c, 0xa4, 0x72, 0xc0],
    [0xb7, 0xfd, 0x93, 0x26, 0x36, 0x3f, 0xf7, 0xcc, 0x34, 0xa5, 0xe5, 0xf1, 0x71, 0xd8, 0x31, 0x15],
    [0x04, 0xc7, 0x23, 0xc3, 0x18, 0x96, 0x05, 0x9a, 0x07, 0x12, 0x80, 0xe2, 0xeb, 0x27, 0xb2, 0x75],
    [0x09, 0x83, 0x2c, 0x1a, 0x1b, 0x6e, 0x5a, 0xa0, 0x52, 0x3b, 0xd6, 0xb3, 0x29, 0xe3, 0x2f, 0x84],
    [0x53, 0xd1, 0x00, 0xed, 0x20, 0xfc, 0xb1, 0x5b, 0x6a, 0xcb, 0xbe, 0x39, 0x4a, 0x4c, 0x58, 0xcf],
    [0xd0, 0xef, 0xaa, 0xfb, 0x43, 0x4d, 0x33, 0x85, 0x45, 0xf9, 0x02, 0x7f, 0x50, 0x3c, 0x9f, 0xa8],
    [0x51, 0xa3, 0x40, 0x8f, 0x92, 0x9d, 0x38, 0xf5, 0xbc, 0xb6, 0xda, 0x21, 0x10, 0xff, 0xf3, 0xd2],
    [0xcd, 0x0c, 0x13, 0xec, 0x5f, 0x97, 0x44, 0x17, 0xc4, 0xa7, 0x7e, 0x3d, 0x64, 0x5d, 0x19, 0x73],
    [0x60, 0x81, 0x4f, 0xdc, 0x22, 0x2a, 0x90, 0x88, 0x46, 0xee, 0xb8, 0x14, 0xde, 0x5e, 0x0b, 0xdb],
    [0xe0, 0x32, 0x3a, 0x0a, 0x49, 0x06, 0x24, 0x5c, 0xc2, 0xd3, 0xac, 0x62, 0x91, 0x95, 0xe4, 0x79],
    [0xe7, 0xc8, 0x37, 0x6d, 0x8d, 0xd5, 0x4e, 0xa9, 0x6c, 0x56, 0xf4, 0xea, 0x65, 0x7a, 0xae, 0x08],
    [0xba, 0x78, 0x25, 0x2e, 0x1c, 0xa6, 0xb4, 0xc6, 0xe8, 0xdd, 0x74, 0x1f, 0x4b, 0xbd, 0x8b, 0x8a],
    [0x70, 0x3e, 0xb5, 0x66, 0x48, 0x03, 0xf6, 0x0e, 0x61, 0x35, 0x57, 0xb9, 0x86, 0xc1, 0x1d, 0x9e],
    [0xe1, 0xf8, 0x98, 0x11, 0x69, 0xd9, 0x8e, 0x94, 0x9b, 0x1e, 0x87, 0xe9, 0xce, 0x55, 0x28, 0xdf],
    [0x8c, 0xa1, 0x89, 0x0d, 0xbf, 0xe6, 0x42, 0x68, 0x41, 0x99, 0x2d, 0x0f, 0xb0, 0x54, 0xbb, 0x16]]

def sb2 : Table :=
  [[0xe2, 0x4e, 0x54, 0xfc, 0x94, 0xc2, 0x4a, 0xcc, 0x62, 0x0d, 0x6a, 0x46, 0x3c, 0x4d, 0x8b, 0xd1],
    [0x5e, 0xfa, 0x64, 0xcb, 0xb4, 0x97, 0xbe, 0x2b, 0xbc, 0x77, 0x2e, 0x03, 0xd3, 0x19, 0x59, 0xc1],
    [0x1d, 0x06, 0x41, 0x6b, 0x55, 0xf0, 0x99, 0x69, 0xea, 0x9c, 0x18, 0xae, 0x63, 0xdf, 0xe7, 0xbb],
    [0x00, 0x73, 0x66, 0xfb, 0x96, 0x4c, 0x85, 0xe4, 0x3a, 0x09, 0x45, 0xaa, 0x0f, 0xee, 0x10, 0xeb],
    [0x2d, 0x7f, 0xf4, 0x29, 0xac, 0xcf, 0xad, 0x91, 0x8d, 0x78, 0xc8, 0x95, 0xf9, 0x2f, 0xce, 0xcd],
    [0x08, 0x7a, 0x88, 0x38, 0x5c, 0x83, 0x2a, 0x28, 0x47, 0xdb, 0xb8, 0xc7, 0x93, 0xa4, 0x12, 0x53],
    [0xff, 0x87, 0x0e, 0x31, 0x36, 0x21, 0x58, 0x48, 0x01, 0x8e, 0x37, 0x74, 0x32, 0xca, 0xe9, 0xb1],
    [0xb7, 0xab, 0x0c, 0xd7, 0xc4, 0x56, 0x42, 0x26, 0x07, 0x98, 0x60, 0xd9, 0xb6, 0xb9, 0x11, 0x40],
    [0xec, 0x20, 0x8c, 0xbd, 0xa0, 0xc9, 0x84, 0x04, 0x49, 0x23, 0xf1, 0x4f, 0x50, 0x1f, 0x13, 0xdc],
    [0xd8, 0xc0, 0x9e, 0x57, 0xe3, 0xc3, 0x7b, 0x65, 0x3b, 0x02, 0x8f, 0x3e, 0xe8, 0x25, 0x92, 0xe5],
    [0x15, 0xdd, 0xfd, 0x17, 0xa9, 0xbf, 0xd4, 0x9a, 0x7e, 0xc5, 0x39, 0x67, 0xfe, 0x76, 0x9d, 0x43],
    [0xa7, 0xe1, 0xd0, 0xf5, 0x68, 0xf2, 0x1b, 0x34, 0x70, 0x05, 0xa3, 0x8a, 0xd5, 0x79, 0x86, 0xa8],
    [0x30, 0xc6, 0x51, 0x4b, 0x1e, 0xa6, 0x27, 0xf6, 0x35, 0xd2, 0x6e, 0x24, 0x16, 0x82, 0x5f, 0xda],
    [0xe6, 0x75, 0xa2, 0xef, 0x2c, 0xb2, 0x1c, 0x9f, 0x5d, 0x6f, 0x80, 0x0a, 0x72, 0x44, 0x9b, 0x6c],
    [0x90, 0x0b, 0x5b, 0x33, 0x7d, 0x5a, 0x52, 0xf3, 0x61, 0xa1, 0xf7, 0xb0, 0xd6, 0x3f, 0x7c, 0x6d],
    [0xed, 0x14, 0xe0, 0xa5, 0x3d, 0x22, 0xb3, 0xf8, 0x89, 0xde, 0x71, 0x1a, 0xaf, 0xba, 0xb5, 0x81]]

def sb3 : Table :=
  [[0x52, 0x09, 0x6a, 0xd5, 0x30, 0x36, 0xa5, 0x38, 0xbf, 0x40, 0xa3, 0x9e, 0x81, 0xf3, 0xd7, 0xfb],
    [0x7c, 0xe3, 0x39, 0x82, 0x9b, 0x2f, 0xff, 0x87, 0x34, 0x8e, 0x43, 0x44, 0xc4, 0xde, 0xe9, 0xcb],
    [0x54, 0x7b, 0x94, 0x32, 0xa6, 0xc2, 0x23, 0x3d, 0xee, 0x4c, 0x95, 0x0b, 0x42, 0xfa, 0xc3, 0x4e],
    [0x08, 0x2e, 0xa1, 0x66, 0x28, 0xd9, 0x24, 0xb2, 0x76, 0x5b, 0xa2, 0x49, 0x6d, 0x8b, 0xd1, 0x25],
    [0x72, 0xf8, 0xf6, 0x64, 0x86, 0x68, 0x98, 0x16, 0xd4, 0xa4, 0x5c, 0xcc, 0x5d, 0x65, 0xb6, 0x92],
    [0x6c, 0x70, 0x48, 0x50, 0xfd, 0xed, 0xb9, 0xda, 0x5e, 0x15, 0x46, 0x57, 0xa7, 0x8d, 0x9d, 0x84],
    [0x90, 0xd8, 0xab, 0x00, 0x8c, 0xbc, 0xd3, 0x0a, 0xf7, 0xe4, 0x58, 0x05, 0xb8, 0xb3, 0x45, 0x06],
    [0xd0, 0x2c, 0x1e, 0x8f, 0xca, 0x3f, 0x0f, 0x02, 0xc1, 0xaf, 0xbd, 0x03, 0x01, 0x13, 0x8a, 0x6b],
    [0x3a, 0x91, 0x11, 0x41, 0x4f, 0x67, 0xdc, 0xea, 0x97, 0xf2, 0xcf, 0xce, 0xf0, 0xb4, 0xe6, 0x73],
    [0x96, 0xac, 0x74, 0x22, 0xe7, 0xad, 0x35, 0x85, 0xe2, 0xf9, 0x37, 0xe8, 0x1c, 0x75, 0xdf, 0x6e],
    [0x47, 0xf1, 0x1a, 0x71, 0x1d, 0x29, 0xc5, 0x89, 0x6f, 0xb7, 0x62, 0x0e, 0xaa, 0x18, 0xbe, 0x1b],
    [0xfc, 0x56, 0x3e, 0x4b, 0xc6, 0xd2, 0x79, 0x20, 0x9a, 0xdb, 0xc0, 0xfe, 0x78, 0xcd, 0x5a, 0xf4],
    [0x1f, 0xdd, 0xa8, 0x33, 0x88, 0x07, 0xc7, 0x31, 0xb1, 0x12, 0x10, 0x59, 0x27, 0x80, 0xec, 0x5f],
    [0x60, 0x51, 0x7f, 0xa9, 0x19, 0xb5, 0x4a, 0x0d, 0x2d, 0xe5, 0x7a, 0x9f, 0x93, 0xc9, 0x9c, 0xef],
    [0xa0, 0xe0, 0x3b, 0x4d, 0xae, 0x2a, 0xf5, 0xb0, 0xc8, 0xeb, 0xbb, 0x3c, 0x83, 0x53, 0x99, 0x61],
    [0x17, 0x2b, 0x04, 0x7e, 0xba, 0x77, 0xd6, 0x26, 0xe1, 0x69, 0x14, 0x63, 0x55, 0x21, 0x0c, 0x7d]]

def sb4 : Table :=
  [[0x30, 0x68, 0x99, 0x1b, 0x87, 0xb9, 0x21, 0x78, 0x50, 0x39, 0xdb, 0xe1, 0x72, 0x09, 0x62, 0x3c],
    [0x3e, 0x7e, 0x5e, 0x8e, 0xf1, 0xa0, 0xcc, 0xa3, 0x2a, 0x1d, 0xfb, 0xb6, 0xd6, 0x20, 0xc4, 0x8d],
    [0x81, 0x65, 0xf5, 0x89, 0xcb, 0x9d, 0x77, 0xc6, 0x57, 0x43, 0x56, 0x17, 0xd4, 0x40, 0x1a, 0x4d],
    [0xc0, 0x63, 0x6c, 0xe3, 0xb7, 0xc8, 0x64, 0x6a, 0x53, 0xaa, 0x38, 0x98, 0x0c, 0xf4, 0x9b, 0xed],
    [0x7f, 0x22, 0x76, 0xaf, 0xdd, 0x3a, 0x0b, 0x58, 0x67, 0x88, 0x06, 0xc3, 0x35, 0x0d, 0x01, 0x8b],
    [0x8c, 0xc2, 0xe6, 0x5f, 0x02, 0x24, 0x75, 0x93, 0x66, 0x1e, 0xe5, 0xe2, 0x54, 0xd8, 0x10, 0xce],
    [0x7a, 0xe8, 0x08, 0x2c, 0x12, 0x97, 0x32, 0xab, 0xb4, 0x27, 0x0a, 0x23, 0xdf, 0xef, 0xca, 0xd9],
    [0xb8, 0xfa, 0xdc, 0x31, 0x6b, 0xd1, 0xad, 0x19, 0x49, 0xbd, 0x51, 0x96, 0xee, 0xe4, 0xa8, 0x41],
    [0xda, 0xff, 0xcd, 0x55, 0x86, 0x36, 0xbe, 0x61, 0x52, 0xf8, 0xbb, 0x0e, 0x82, 0x48, 0x69, 0x9a],
    [0xe0, 0x47, 0x9e, 0x5c, 0x04, 0x4b, 0x34, 0x15, 0x79, 0x26, 0xa7, 0xde, 0x29, 0xae, 0x92, 0xd7],
    [0x84, 0xe9, 0xd2, 0xba, 0x5d, 0xf3, 0xc5, 0xb0, 0xbf, 0xa4, 0x3b, 0x71, 0x44, 0x46, 0x2b, 0xfc],
    [0xeb, 0x6f, 0xd5, 0xf6, 0x14, 0xfe, 0x7c, 0x70, 0x5a, 0x7d, 0xfd, 0x2f, 0x18, 0x83, 0x16, 0xa5],
    [0x91, 0x1f, 0x05, 0x95, 0x74, 0xa9, 0xc1, 0x5b, 0x4a, 0x85, 0x6d, 0x13, 0x07, 0x4f, 0x4e, 0x45],
    [0xb2, 0x0f, 0xc9, 0x1c, 0xa6, 0xbc, 0xec, 0x73, 0x90, 0x7b, 0xcf, 0x59, 0x8f, 0xa1, 0xf9, 0x2d],
    [0xf2, 0xb1, 0x00, 0x94, 0x37, 0x9f, 0xd0, 0x2e, 0x9c, 0x6e, 0x28, 0x3f, 0x80, 0xf0, 0x3d, 0xd3],
    [0x25, 0x8a, 0xb5, 0xe7, 0x42, 0xb3, 0xc7, 0xea, 0xf7, 0x4c, 0x11, 0x33, 0x03, 0xa2, 0xac, 0x60]]

/-! ## Layers -/

/-- `XorAligned` of 16 bytes. -/
def xorBlock (x y : Block) : Block := Vector.zipWith (· ^^^ ·) x y

/-- `Permute`. -/
def permute (x : Block) : Block :=
  #v[x.get 0, x.get 4, x.get 8, x.get 12, x.get 1, x.get 5, x.get 9, x.get 13,
    x.get 2, x.get 6, x.get 10, x.get 14, x.get 3, x.get 7, x.get 11, x.get 15]

def sl1 (inp x : Block) : Block :=
  let t := xorBlock inp x
  #v[sb1.entry (t.get 0), sb1.entry (t.get 1), sb1.entry (t.get 2), sb1.entry (t.get 3),
    sb2.entry (t.get 4), sb2.entry (t.get 5), sb2.entry (t.get 6), sb2.entry (t.get 7),
    sb3.entry (t.get 8), sb3.entry (t.get 9), sb3.entry (t.get 10), sb3.entry (t.get 11),
    sb4.entry (t.get 12), sb4.entry (t.get 13), sb4.entry (t.get 14), sb4.entry (t.get 15)]

def sl2 (inp x : Block) : Block :=
  let t := xorBlock inp x
  #v[sb3.entry (t.get 0), sb3.entry (t.get 1), sb3.entry (t.get 2), sb3.entry (t.get 3),
    sb4.entry (t.get 4), sb4.entry (t.get 5), sb4.entry (t.get 6), sb4.entry (t.get 7),
    sb1.entry (t.get 8), sb1.entry (t.get 9), sb1.entry (t.get 10), sb1.entry (t.get 11),
    sb2.entry (t.get 12), sb2.entry (t.get 13), sb2.entry (t.get 14), sb2.entry (t.get 15)]

def afunc (x : Block) : Block :=
  let p349e := x.get 12 ^^^ x.get 1 ^^^ x.get 6 ^^^ x.get 11
  let p0b := x.get 0 ^^^ x.get 14
  let p1a := x.get 4 ^^^ x.get 10
  let p6d := x.get 9 ^^^ x.get 7
  let p7c := x.get 13 ^^^ x.get 3
  let p258f := x.get 8 ^^^ x.get 5 ^^^ x.get 2 ^^^ x.get 15
  let p16bc := x.get 4 ^^^ x.get 9 ^^^ x.get 14 ^^^ x.get 3
  let p29 := x.get 8 ^^^ x.get 6
  let p38 := x.get 12 ^^^ x.get 2
  let p4f := x.get 1 ^^^ x.get 15
  let p5e := x.get 5 ^^^ x.get 11
  let p07ad := x.get 0 ^^^ x.get 13 ^^^ x.get 10 ^^^ x.get 7
  #v[p349e ^^^ p6d ^^^ x.get 2, p258f ^^^ p0b ^^^ x.get 11, p07ad ^^^ p4f ^^^ x.get 4,
    p16bc ^^^ p29 ^^^ x.get 13, p258f ^^^ p7c ^^^ x.get 6, p349e ^^^ p1a ^^^ x.get 15,
    p16bc ^^^ p5e ^^^ x.get 0, p07ad ^^^ p38 ^^^ x.get 9, p16bc ^^^ p4f ^^^ x.get 10,
    p07ad ^^^ p29 ^^^ x.get 3, p258f ^^^ p6d ^^^ x.get 12, p349e ^^^ p0b ^^^ x.get 5,
    p07ad ^^^ p5e ^^^ x.get 14, p16bc ^^^ p38 ^^^ x.get 7, p349e ^^^ p7c ^^^ x.get 8,
    p258f ^^^ p1a ^^^ x.get 1]

def fo (inp x : Block) : Block := afunc (sl1 inp x)

def fe (inp x : Block) : Block := afunc (sl2 inp x)

/-! ## Encryption and decryption -/

/-- `sk[n]`. -/
def keyAt (sk : Vector Block 17) (n : Nat) : Block := sk.get (Fin.ofNat 17 n)

/-- The calls of `fo` and `fe`, in turn. -/
def round (sk : Vector Block 17) (x : Block) (i : Nat) : Block :=
  if i % 2 = 0 then fo x (keyAt sk i) else fe x (keyAt sk i)

/-- `n` rounds. The last one has no diffusion and a second key. -/
def encryptRounds (n : Nat) (sk : Vector Block 17) (x : Block) : Block :=
  let y := (List.range (n - 1)).foldl (round sk) (permute x)
  permute (xorBlock (sl2 y (keyAt sk (n - 1))) (keyAt sk n))

def encrypt128 : Vector Block 17 → Block → Block := encryptRounds 12

def encrypt192 : Vector Block 17 → Block → Block := encryptRounds 14

def encrypt256 : Vector Block 17 → Block → Block := encryptRounds 16

/-- The `switch` of `Encrypt` and of `Decrypt`. -/
def cryptWith (off : Nat) (sk : Vector Block 17) (x : Block) : Option Block :=
  match off with
  | 0 => some (encrypt128 sk x)
  | 1 => some (encrypt192 sk x)
  | 2 => some (encrypt256 sk x)
  | _ => none

def encrypt (c : Aria) (x : Block) : Option Block := cryptWith c.off c.ek x

def decrypt (c : Aria) (x : Block) : Option Block := cryptWith c.off c.dk x

/-! ## The key schedules -/

/-- `memcpy` of 16 bytes of `buf`, which has zeros behind the key. -/
def bufBlock (key : List UInt8) (n : Nat) : Block := Vector.ofFn fun i => key.getD (n + i) 0

/-- `m_off` for a key, from the `switch` on `len / 8`. -/
def offFor (len : Nat) : Option Nat :=
  if len / 8 = 2 then some 0 else if len / 8 = 3 then some 1 else if len / 8 = 4 then some 2 else none

/-- `nrounds`. -/
def nrounds (off : Nat) : Nat := 12 + 2 * off

/-- `m_dk`, as both schedules fill it. -/
def decryptKeys (n : Nat) (ek dk : Vector Block 17) : Vector Block 17 :=
  let dk := dk.setIfInBounds 0 (keyAt ek n)
  let dk := (List.range (n - 1)).foldl
    (fun dk i => dk.setIfInBounds (i + 1) (afunc (keyAt ek (n - (i + 1))))) dk
  dk.setIfInBounds n (keyAt ek 0)

/-- The constant `offsets`. -/
def offsets : List Nat := [19, 31, 67, 97]

/-- What both schedules have in common: the members after the array `ek` of an `m_off` is known. -/
def fillMembers (a : Aria) (off : Nat) (ek : Nat → Block) : Aria :=
  let ek := Vector.ofFn fun i : Fin 17 => permute (ek i)
  { ek, dk := decryptKeys (nrounds off) ek a.dk, off }

namespace Bytewise

/-- The table `c`. -/
def c : List Block :=
  [#v[0x51, 0x7c, 0xc1, 0xb7, 0x27, 0x22, 0x0a, 0x94, 0xfe, 0x13, 0xab, 0xe8, 0xfa, 0x9a, 0x6e, 0xe0],
    #v[0x6d, 0xb1, 0x4a, 0xcc, 0x9e, 0x21, 0xc8, 0x20, 0xff, 0x28, 0xb1, 0xd5, 0xef, 0x5d, 0xe2, 0xb0],
    #v[0xdb, 0x92, 0x37, 0x1d, 0x21, 0x26, 0xe9, 0x70, 0x03, 0x24, 0x97, 0x75, 0x04, 0xe8, 0xc9, 0x0e],
    #v[0x51, 0x7c, 0xc1, 0xb7, 0x27, 0x22, 0x0a, 0x94, 0xfe, 0x13, 0xab, 0xe8, 0xfa, 0x9a, 0x6e, 0xe0],
    #v[0x6d, 0xb1, 0x4a, 0xcc, 0x9e, 0x21, 0xc8, 0x20, 0xff, 0x28, 0xb1, 0xd5, 0xef, 0x5d, 0xe2, 0xb0]]

/-- `RotateRightAndXor`. -/
def rotateRightAndXor (inp x : Block) (offset : Nat) : Block :=
  let nbytes := offset / 8
  let nbits := UInt8.ofNat (offset % 8)
  xorBlock (Vector.ofFn fun i =>
    inp.get (Fin.ofNat 16 (i + 16 - nbytes)) >>> nbits |||
      inp.get (Fin.ofNat 16 (i + 16 - nbytes - 1)) <<< (8 - nbits)) x

/-- The array `wp`. -/
def wp (off : Nat) (kl kr : Block) : Vector Block 4 :=
  let ckp := fun i => permute (c.getD (off + i) (Vector.replicate 16 0))
  let krp := permute kr
  let wp0 := permute kl
  let wp1 := xorBlock (fo wp0 (ckp 0)) krp
  let wp2 := xorBlock (fe wp1 (ckp 1)) wp0
  let wp3 := xorBlock (fo wp2 (ckp 2)) wp1
  #v[wp0, wp1, wp2, wp3]

/-- `ek[n]`: the word `w[n % 4]` with the next one rotated, and at the end with another offset. -/
def ekAt (w : Vector Block 4) (n : Nat) : Block :=
  if n = 16 then rotateRightAndXor (w.get 1) (w.get 0) 109
  else rotateRightAndXor (w.get (Fin.ofNat 4 (n + 1))) (w.get (Fin.ofNat 4 n)) (offsets.getD (n / 4) 0)

/-- `SetKeyInternal`. No key is accepted that does not fit into `buf`, or that the `switch` has no case
for. -/
def setKeyInternal (a : Aria) (key : List UInt8) : Option Aria :=
  if 32 < key.length then none
  else (offFor key.length).map fun off =>
    let w := (wp off (bufBlock key 0) (bufBlock key 16)).map permute
    fillMembers a off (ekAt w)

end Bytewise

namespace Words

/-- `uint128_t`. -/
abbrev Word := BitVec 128

/-- The table `c`. -/
def c : List Word :=
  [0x517cc1b727220a94fe13abe8fa9a6ee0, 0x6db14acc9e21c820ff28b1d5ef5de2b0,
    0xdb92371d2126e9700324977504e8c90e, 0x517cc1b727220a94fe13abe8fa9a6ee0,
    0x6db14acc9e21c820ff28b1d5ef5de2b0]

/-- `E::Copy` of a word to bytes: the first byte is the highest. -/
def bytes (w : Word) : Block := Vector.ofFn fun i => UInt8.ofBitVec (w.extractLsb' (8 * (15 - i)) 8)

/-- `E::Copy` of bytes to a word. -/
def word (b : Block) : Word := BitVec.ofNat 128 (beNat b.toList)

def rotateRight (x : Word) (n : Nat) : Word := x >>> n ||| x <<< (128 - n)

def rotateLeft (x : Word) (n : Nat) : Word := x <<< n ||| x >>> (128 - n)

def fo128 (a b : Word) : Word := word (permute (fo (permute (bytes a)) (permute (bytes b))))

def fe128 (a b : Word) : Word := word (permute (fe (permute (bytes a)) (permute (bytes b))))

/-- The array `w`. -/
def w (off : Nat) (kl kr : Word) : Vector Word 4 :=
  let ck := fun i => c.getD (off + i) 0
  let w0 := kl
  let w1 := fo128 w0 (ck 0) ^^^ kr
  let w2 := fe128 w1 (ck 1) ^^^ w0
  let w3 := fo128 w2 (ck 2) ^^^ w1
  #v[w0, w1, w2, w3]

/-- `ek[n]`. -/
def ekAt (w : Vector Word 4) (n : Nat) : Word :=
  if n = 16 then w.get 0 ^^^ rotateLeft (w.get 1) 19
  else w.get (Fin.ofNat 4 n) ^^^ rotateRight (w.get (Fin.ofNat 4 (n + 1))) (offsets.getD (n / 4) 0)

/-- `SetKeyInternal`. -/
def setKeyInternal (a : Aria) (key : List UInt8) : Option Aria :=
  if 32 < key.length then none
  else (offFor key.length).map fun off =>
    let w := w off (word (bufBlock key 0)) (word (bufBlock key 16))
    fillMembers a off fun n => bytes (ekAt w n)

end Words

end Aria

end Drew
