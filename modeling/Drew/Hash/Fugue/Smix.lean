import Drew.Field.Byte
import Drew.Memory.Endian

/-!
# Super-Mix

The model of `smix` of `fugue.cc`, which writes out the bytes of the first four words as sixteen expressions over
tables. It is the product that Super-Mix is (`smix_spec`): the expressions are linear forms of the bytes after the
S-box, and their coefficients are those of the product.
-/

namespace Drew.Fugue

open Drew.Memory Drew.Field

/-! ## Tables -/

def sbox : List UInt8 := [
  0x63, 0x7c, 0x77, 0x7b, 0xf2, 0x6b, 0x6f, 0xc5, 0x30, 0x01, 0x67, 0x2b, 0xfe, 0xd7, 0xab, 0x76,
  0xca, 0x82, 0xc9, 0x7d, 0xfa, 0x59, 0x47, 0xf0, 0xad, 0xd4, 0xa2, 0xaf, 0x9c, 0xa4, 0x72, 0xc0,
  0xb7, 0xfd, 0x93, 0x26, 0x36, 0x3f, 0xf7, 0xcc, 0x34, 0xa5, 0xe5, 0xf1, 0x71, 0xd8, 0x31, 0x15,
  0x04, 0xc7, 0x23, 0xc3, 0x18, 0x96, 0x05, 0x9a, 0x07, 0x12, 0x80, 0xe2, 0xeb, 0x27, 0xb2, 0x75,
  0x09, 0x83, 0x2c, 0x1a, 0x1b, 0x6e, 0x5a, 0xa0, 0x52, 0x3b, 0xd6, 0xb3, 0x29, 0xe3, 0x2f, 0x84,
  0x53, 0xd1, 0x00, 0xed, 0x20, 0xfc, 0xb1, 0x5b, 0x6a, 0xcb, 0xbe, 0x39, 0x4a, 0x4c, 0x58, 0xcf,
  0xd0, 0xef, 0xaa, 0xfb, 0x43, 0x4d, 0x33, 0x85, 0x45, 0xf9, 0x02, 0x7f, 0x50, 0x3c, 0x9f, 0xa8,
  0x51, 0xa3, 0x40, 0x8f, 0x92, 0x9d, 0x38, 0xf5, 0xbc, 0xb6, 0xda, 0x21, 0x10, 0xff, 0xf3, 0xd2,
  0xcd, 0x0c, 0x13, 0xec, 0x5f, 0x97, 0x44, 0x17, 0xc4, 0xa7, 0x7e, 0x3d, 0x64, 0x5d, 0x19, 0x73,
  0x60, 0x81, 0x4f, 0xdc, 0x22, 0x2a, 0x90, 0x88, 0x46, 0xee, 0xb8, 0x14, 0xde, 0x5e, 0x0b, 0xdb,
  0xe0, 0x32, 0x3a, 0x0a, 0x49, 0x06, 0x24, 0x5c, 0xc2, 0xd3, 0xac, 0x62, 0x91, 0x95, 0xe4, 0x79,
  0xe7, 0xc8, 0x37, 0x6d, 0x8d, 0xd5, 0x4e, 0xa9, 0x6c, 0x56, 0xf4, 0xea, 0x65, 0x7a, 0xae, 0x08,
  0xba, 0x78, 0x25, 0x2e, 0x1c, 0xa6, 0xb4, 0xc6, 0xe8, 0xdd, 0x74, 0x1f, 0x4b, 0xbd, 0x8b, 0x8a,
  0x70, 0x3e, 0xb5, 0x66, 0x48, 0x03, 0xf6, 0x0e, 0x61, 0x35, 0x57, 0xb9, 0x86, 0xc1, 0x1d, 0x9e,
  0xe1, 0xf8, 0x98, 0x11, 0x69, 0xd9, 0x8e, 0x94, 0x9b, 0x1e, 0x87, 0xe9, 0xce, 0x55, 0x28, 0xdf,
  0x8c, 0xa1, 0x89, 0x0d, 0xbf, 0xe6, 0x42, 0x68, 0x41, 0x99, 0x2d, 0x0f, 0xb0, 0x54, 0xbb, 0x16]

def mul4 : List UInt8 := [
  0x00, 0x04, 0x08, 0x0c, 0x10, 0x14, 0x18, 0x1c, 0x20, 0x24, 0x28, 0x2c, 0x30, 0x34, 0x38, 0x3c,
  0x40, 0x44, 0x48, 0x4c, 0x50, 0x54, 0x58, 0x5c, 0x60, 0x64, 0x68, 0x6c, 0x70, 0x74, 0x78, 0x7c,
  0x80, 0x84, 0x88, 0x8c, 0x90, 0x94, 0x98, 0x9c, 0xa0, 0xa4, 0xa8, 0xac, 0xb0, 0xb4, 0xb8, 0xbc,
  0xc0, 0xc4, 0xc8, 0xcc, 0xd0, 0xd4, 0xd8, 0xdc, 0xe0, 0xe4, 0xe8, 0xec, 0xf0, 0xf4, 0xf8, 0xfc,
  0x1b, 0x1f, 0x13, 0x17, 0x0b, 0x0f, 0x03, 0x07, 0x3b, 0x3f, 0x33, 0x37, 0x2b, 0x2f, 0x23, 0x27,
  0x5b, 0x5f, 0x53, 0x57, 0x4b, 0x4f, 0x43, 0x47, 0x7b, 0x7f, 0x73, 0x77, 0x6b, 0x6f, 0x63, 0x67,
  0x9b, 0x9f, 0x93, 0x97, 0x8b, 0x8f, 0x83, 0x87, 0xbb, 0xbf, 0xb3, 0xb7, 0xab, 0xaf, 0xa3, 0xa7,
  0xdb, 0xdf, 0xd3, 0xd7, 0xcb, 0xcf, 0xc3, 0xc7, 0xfb, 0xff, 0xf3, 0xf7, 0xeb, 0xef, 0xe3, 0xe7,
  0x36, 0x32, 0x3e, 0x3a, 0x26, 0x22, 0x2e, 0x2a, 0x16, 0x12, 0x1e, 0x1a, 0x06, 0x02, 0x0e, 0x0a,
  0x76, 0x72, 0x7e, 0x7a, 0x66, 0x62, 0x6e, 0x6a, 0x56, 0x52, 0x5e, 0x5a, 0x46, 0x42, 0x4e, 0x4a,
  0xb6, 0xb2, 0xbe, 0xba, 0xa6, 0xa2, 0xae, 0xaa, 0x96, 0x92, 0x9e, 0x9a, 0x86, 0x82, 0x8e, 0x8a,
  0xf6, 0xf2, 0xfe, 0xfa, 0xe6, 0xe2, 0xee, 0xea, 0xd6, 0xd2, 0xde, 0xda, 0xc6, 0xc2, 0xce, 0xca,
  0x2d, 0x29, 0x25, 0x21, 0x3d, 0x39, 0x35, 0x31, 0x0d, 0x09, 0x05, 0x01, 0x1d, 0x19, 0x15, 0x11,
  0x6d, 0x69, 0x65, 0x61, 0x7d, 0x79, 0x75, 0x71, 0x4d, 0x49, 0x45, 0x41, 0x5d, 0x59, 0x55, 0x51,
  0xad, 0xa9, 0xa5, 0xa1, 0xbd, 0xb9, 0xb5, 0xb1, 0x8d, 0x89, 0x85, 0x81, 0x9d, 0x99, 0x95, 0x91,
  0xed, 0xe9, 0xe5, 0xe1, 0xfd, 0xf9, 0xf5, 0xf1, 0xcd, 0xc9, 0xc5, 0xc1, 0xdd, 0xd9, 0xd5, 0xd1]

def mul5 : List UInt8 := [
  0x00, 0x05, 0x0a, 0x0f, 0x14, 0x11, 0x1e, 0x1b, 0x28, 0x2d, 0x22, 0x27, 0x3c, 0x39, 0x36, 0x33,
  0x50, 0x55, 0x5a, 0x5f, 0x44, 0x41, 0x4e, 0x4b, 0x78, 0x7d, 0x72, 0x77, 0x6c, 0x69, 0x66, 0x63,
  0xa0, 0xa5, 0xaa, 0xaf, 0xb4, 0xb1, 0xbe, 0xbb, 0x88, 0x8d, 0x82, 0x87, 0x9c, 0x99, 0x96, 0x93,
  0xf0, 0xf5, 0xfa, 0xff, 0xe4, 0xe1, 0xee, 0xeb, 0xd8, 0xdd, 0xd2, 0xd7, 0xcc, 0xc9, 0xc6, 0xc3,
  0x5b, 0x5e, 0x51, 0x54, 0x4f, 0x4a, 0x45, 0x40, 0x73, 0x76, 0x79, 0x7c, 0x67, 0x62, 0x6d, 0x68,
  0x0b, 0x0e, 0x01, 0x04, 0x1f, 0x1a, 0x15, 0x10, 0x23, 0x26, 0x29, 0x2c, 0x37, 0x32, 0x3d, 0x38,
  0xfb, 0xfe, 0xf1, 0xf4, 0xef, 0xea, 0xe5, 0xe0, 0xd3, 0xd6, 0xd9, 0xdc, 0xc7, 0xc2, 0xcd, 0xc8,
  0xab, 0xae, 0xa1, 0xa4, 0xbf, 0xba, 0xb5, 0xb0, 0x83, 0x86, 0x89, 0x8c, 0x97, 0x92, 0x9d, 0x98,
  0xb6, 0xb3, 0xbc, 0xb9, 0xa2, 0xa7, 0xa8, 0xad, 0x9e, 0x9b, 0x94, 0x91, 0x8a, 0x8f, 0x80, 0x85,
  0xe6, 0xe3, 0xec, 0xe9, 0xf2, 0xf7, 0xf8, 0xfd, 0xce, 0xcb, 0xc4, 0xc1, 0xda, 0xdf, 0xd0, 0xd5,
  0x16, 0x13, 0x1c, 0x19, 0x02, 0x07, 0x08, 0x0d, 0x3e, 0x3b, 0x34, 0x31, 0x2a, 0x2f, 0x20, 0x25,
  0x46, 0x43, 0x4c, 0x49, 0x52, 0x57, 0x58, 0x5d, 0x6e, 0x6b, 0x64, 0x61, 0x7a, 0x7f, 0x70, 0x75,
  0xed, 0xe8, 0xe7, 0xe2, 0xf9, 0xfc, 0xf3, 0xf6, 0xc5, 0xc0, 0xcf, 0xca, 0xd1, 0xd4, 0xdb, 0xde,
  0xbd, 0xb8, 0xb7, 0xb2, 0xa9, 0xac, 0xa3, 0xa6, 0x95, 0x90, 0x9f, 0x9a, 0x81, 0x84, 0x8b, 0x8e,
  0x4d, 0x48, 0x47, 0x42, 0x59, 0x5c, 0x53, 0x56, 0x65, 0x60, 0x6f, 0x6a, 0x71, 0x74, 0x7b, 0x7e,
  0x1d, 0x18, 0x17, 0x12, 0x09, 0x0c, 0x03, 0x06, 0x35, 0x30, 0x3f, 0x3a, 0x21, 0x24, 0x2b, 0x2e]

def mul6 : List UInt8 := [
  0x00, 0x06, 0x0c, 0x0a, 0x18, 0x1e, 0x14, 0x12, 0x30, 0x36, 0x3c, 0x3a, 0x28, 0x2e, 0x24, 0x22,
  0x60, 0x66, 0x6c, 0x6a, 0x78, 0x7e, 0x74, 0x72, 0x50, 0x56, 0x5c, 0x5a, 0x48, 0x4e, 0x44, 0x42,
  0xc0, 0xc6, 0xcc, 0xca, 0xd8, 0xde, 0xd4, 0xd2, 0xf0, 0xf6, 0xfc, 0xfa, 0xe8, 0xee, 0xe4, 0xe2,
  0xa0, 0xa6, 0xac, 0xaa, 0xb8, 0xbe, 0xb4, 0xb2, 0x90, 0x96, 0x9c, 0x9a, 0x88, 0x8e, 0x84, 0x82,
  0x9b, 0x9d, 0x97, 0x91, 0x83, 0x85, 0x8f, 0x89, 0xab, 0xad, 0xa7, 0xa1, 0xb3, 0xb5, 0xbf, 0xb9,
  0xfb, 0xfd, 0xf7, 0xf1, 0xe3, 0xe5, 0xef, 0xe9, 0xcb, 0xcd, 0xc7, 0xc1, 0xd3, 0xd5, 0xdf, 0xd9,
  0x5b, 0x5d, 0x57, 0x51, 0x43, 0x45, 0x4f, 0x49, 0x6b, 0x6d, 0x67, 0x61, 0x73, 0x75, 0x7f, 0x79,
  0x3b, 0x3d, 0x37, 0x31, 0x23, 0x25, 0x2f, 0x29, 0x0b, 0x0d, 0x07, 0x01, 0x13, 0x15, 0x1f, 0x19,
  0x2d, 0x2b, 0x21, 0x27, 0x35, 0x33, 0x39, 0x3f, 0x1d, 0x1b, 0x11, 0x17, 0x05, 0x03, 0x09, 0x0f,
  0x4d, 0x4b, 0x41, 0x47, 0x55, 0x53, 0x59, 0x5f, 0x7d, 0x7b, 0x71, 0x77, 0x65, 0x63, 0x69, 0x6f,
  0xed, 0xeb, 0xe1, 0xe7, 0xf5, 0xf3, 0xf9, 0xff, 0xdd, 0xdb, 0xd1, 0xd7, 0xc5, 0xc3, 0xc9, 0xcf,
  0x8d, 0x8b, 0x81, 0x87, 0x95, 0x93, 0x99, 0x9f, 0xbd, 0xbb, 0xb1, 0xb7, 0xa5, 0xa3, 0xa9, 0xaf,
  0xb6, 0xb0, 0xba, 0xbc, 0xae, 0xa8, 0xa2, 0xa4, 0x86, 0x80, 0x8a, 0x8c, 0x9e, 0x98, 0x92, 0x94,
  0xd6, 0xd0, 0xda, 0xdc, 0xce, 0xc8, 0xc2, 0xc4, 0xe6, 0xe0, 0xea, 0xec, 0xfe, 0xf8, 0xf2, 0xf4,
  0x76, 0x70, 0x7a, 0x7c, 0x6e, 0x68, 0x62, 0x64, 0x46, 0x40, 0x4a, 0x4c, 0x5e, 0x58, 0x52, 0x54,
  0x16, 0x10, 0x1a, 0x1c, 0x0e, 0x08, 0x02, 0x04, 0x26, 0x20, 0x2a, 0x2c, 0x3e, 0x38, 0x32, 0x34]

def mul7 : List UInt8 := [
  0x00, 0x07, 0x0e, 0x09, 0x1c, 0x1b, 0x12, 0x15, 0x38, 0x3f, 0x36, 0x31, 0x24, 0x23, 0x2a, 0x2d,
  0x70, 0x77, 0x7e, 0x79, 0x6c, 0x6b, 0x62, 0x65, 0x48, 0x4f, 0x46, 0x41, 0x54, 0x53, 0x5a, 0x5d,
  0xe0, 0xe7, 0xee, 0xe9, 0xfc, 0xfb, 0xf2, 0xf5, 0xd8, 0xdf, 0xd6, 0xd1, 0xc4, 0xc3, 0xca, 0xcd,
  0x90, 0x97, 0x9e, 0x99, 0x8c, 0x8b, 0x82, 0x85, 0xa8, 0xaf, 0xa6, 0xa1, 0xb4, 0xb3, 0xba, 0xbd,
  0xdb, 0xdc, 0xd5, 0xd2, 0xc7, 0xc0, 0xc9, 0xce, 0xe3, 0xe4, 0xed, 0xea, 0xff, 0xf8, 0xf1, 0xf6,
  0xab, 0xac, 0xa5, 0xa2, 0xb7, 0xb0, 0xb9, 0xbe, 0x93, 0x94, 0x9d, 0x9a, 0x8f, 0x88, 0x81, 0x86,
  0x3b, 0x3c, 0x35, 0x32, 0x27, 0x20, 0x29, 0x2e, 0x03, 0x04, 0x0d, 0x0a, 0x1f, 0x18, 0x11, 0x16,
  0x4b, 0x4c, 0x45, 0x42, 0x57, 0x50, 0x59, 0x5e, 0x73, 0x74, 0x7d, 0x7a, 0x6f, 0x68, 0x61, 0x66,
  0xad, 0xaa, 0xa3, 0xa4, 0xb1, 0xb6, 0xbf, 0xb8, 0x95, 0x92, 0x9b, 0x9c, 0x89, 0x8e, 0x87, 0x80,
  0xdd, 0xda, 0xd3, 0xd4, 0xc1, 0xc6, 0xcf, 0xc8, 0xe5, 0xe2, 0xeb, 0xec, 0xf9, 0xfe, 0xf7, 0xf0,
  0x4d, 0x4a, 0x43, 0x44, 0x51, 0x56, 0x5f, 0x58, 0x75, 0x72, 0x7b, 0x7c, 0x69, 0x6e, 0x67, 0x60,
  0x3d, 0x3a, 0x33, 0x34, 0x21, 0x26, 0x2f, 0x28, 0x05, 0x02, 0x0b, 0x0c, 0x19, 0x1e, 0x17, 0x10,
  0x76, 0x71, 0x78, 0x7f, 0x6a, 0x6d, 0x64, 0x63, 0x4e, 0x49, 0x40, 0x47, 0x52, 0x55, 0x5c, 0x5b,
  0x06, 0x01, 0x08, 0x0f, 0x1a, 0x1d, 0x14, 0x13, 0x3e, 0x39, 0x30, 0x37, 0x22, 0x25, 0x2c, 0x2b,
  0x96, 0x91, 0x98, 0x9f, 0x8a, 0x8d, 0x84, 0x83, 0xae, 0xa9, 0xa0, 0xa7, 0xb2, 0xb5, 0xbc, 0xbb,
  0xe6, 0xe1, 0xe8, 0xef, 0xfa, 0xfd, 0xf4, 0xf3, 0xde, 0xd9, 0xd0, 0xd7, 0xc2, 0xc5, 0xcc, 0xcb]

def lookup (table : List UInt8) (x : UInt8) : UInt8 := table.getD x.toNat 0

/-! ## The function -/

/-- A part of an expression: a byte `B(x)`, or what a table has for it. -/
inductive Term
  | B (x : Fin 16)
  | mul4 (x : Fin 16)
  | mul5 (x : Fin 16)
  | mul6 (x : Fin 16)
  | mul7 (x : Fin 16)

def Term.value (b : Fin 16 → UInt8) : Term → UInt8
  | B x => b x
  | mul4 x => lookup Fugue.mul4 (b x)
  | mul5 x => lookup Fugue.mul5 (b x)
  | mul6 x => lookup Fugue.mul6 (b x)
  | mul7 x => lookup Fugue.mul7 (b x)

/-- The expressions for `BS(0)` to `BS(15)`. -/
def expressions : List (List Term) := [
  [.B 0, .mul4 1, .mul7 2, .B 3, .B 4, .B 8, .B 12],
  [.B 1, .B 4, .B 5, .mul4 6, .mul7 7, .B 9, .B 13],
  [.B 2, .B 6, .mul7 8, .B 9, .B 10, .mul4 11, .B 14],
  [.B 3, .B 7, .B 11, .mul4 12, .mul7 13, .B 14, .B 15],
  [.mul4 5, .mul7 6, .B 7, .B 8, .B 12],
  [.B 1, .B 8, .mul4 10, .mul7 11, .B 13],
  [.B 2, .B 6, .mul7 12, .B 13, .mul4 15],
  [.mul4 0, .mul7 1, .B 2, .B 7, .B 11],
  [.mul7 4, .mul6 8, .mul4 9, .mul7 10, .B 11, .mul7 12],
  [.mul7 1, .mul7 9, .B 12, .mul6 13, .mul4 14, .mul7 15],
  [.mul7 0, .B 1, .mul6 2, .mul4 3, .mul7 6, .mul7 14],
  [.mul7 3, .mul4 4, .mul7 5, .B 6, .mul6 7, .mul7 11],
  [.mul4 4, .mul4 8, .mul5 12, .mul4 13, .mul7 14, .B 15],
  [.B 0, .mul5 1, .mul4 2, .mul7 3, .mul4 9, .mul4 13],
  [.mul4 2, .mul7 4, .B 5, .mul5 6, .mul4 7, .mul4 14],
  [.mul4 3, .mul4 7, .mul4 8, .mul7 9, .B 10, .mul5 11]]

def expression (k : Fin 16) : List Term := expressions.getD k []

/-- The index behind the macros `B` and `BS`. -/
def place : Endian → Fin 16 → Nat
  | .big, x => x
  | .little, x => x ^^^ 3

def substitute (a : List UInt8) : List UInt8 := (a.take 16).map (lookup sbox) ++ a.drop 16

/-- `smix` on the bytes in memory. -/
def smixBytes (e : Endian) (s t : List UInt8) : List UInt8 :=
  let t := substitute t
  (List.finRange 16).foldl
    (fun s k => s.set (place e k) (xorSum (expression k) (Term.value fun x => t.getD (place e x) 0))) s

variable {n : Nat}

/-- `smix`. -/
def smix (e : Endian) (sb tb : Vector UInt32 n) : Vector UInt32 n :=
  copyIn word32 e n (smixBytes e (copyOut word32 e sb) (copyOut word32 e tb))

/-- `smix` and the copy of the other words. -/
def smixWith (e : Endian) (sb tb : Vector UInt32 n) : Vector UInt32 n :=
  Vector.ofFn fun j => if j.val < 4 then (smix e sb tb).get j else tb.get j

/-- `smix_256`. -/
def smix256 (e : Endian) (sb tb : Vector UInt32 30) : Vector UInt32 30 := smixWith e sb tb

/-- `smix_384` and `smix_512`. -/
def smix384 (e : Endian) (sb tb : Vector UInt32 36) : Vector UInt32 36 := smixWith e sb tb

/-! ## What is meant -/

/-- The bytes of a word, most significant first. -/
def wordByte (w : UInt32) (i : Fin 4) : UInt8 := UInt8.ofNat (w.toNat / 256 ^ (3 - i.val))

def ofWordBytes (b : Fin 4 → UInt8) : UInt32 := UInt32.ofNat (beNat [b 0, b 1, b 2, b 3])

/-- The circulant matrix with the first row 1, 4, 7, 1. -/
def circulant (i j : Fin 4) : UInt8 := ![1, 4, 7, 1] (j - i)

/-- The sum of a row of `U` without its entry on the diagonal. -/
def offDiagonal (U : Fin 4 → Fin 4 → UInt8) (i : Fin 4) : UInt8 :=
  xorSum ((List.finRange 4).filter (· ≠ i)) (U i)

/-- The entries of `M * U + diag(d) * Mᵀ`. -/
def mixed (U : Fin 4 → Fin 4 → UInt8) (i j : Fin 4) : UInt8 :=
  xorSum (List.finRange 4) (fun k => mulByte 0x1b (U k j) (circulant i k)) ^^^
    mulByte 0x1b (offDiagonal U i) (circulant j i)

/-- Super-Mix of four columns: the S-box, the product, and row `i` rotated to the left by `i`. -/
def superMix (U : Fin 4 → Fin 4 → UInt8) (i j : Fin 4) : UInt8 := mixed (fun i j => lookup sbox (U i j)) i (j + i)

/-- Super-Mix of a state, of which the other words stay. -/
def superMixWords (hn : 4 ≤ n) (t : Vector UInt32 n) : Vector UInt32 n :=
  Vector.ofFn fun j =>
    if hj : j.val < 4 then
      ofWordBytes fun i => superMix (fun i j => wordByte (t.get (j.castLE hn)) i) i ⟨j.val, hj⟩
    else t.get j

/-! ## The tables -/

section Tables

variable (x : UInt8)

theorem mulByte_one : mulByte 0x1b x 1 = x := mulByte_power 0x1b x (k := 0) (by decide)

theorem mulByte_two : mulByte 0x1b x 2 = timesX 0x1b x := mulByte_power 0x1b x (k := 1) (by decide)

theorem mulByte_four : mulByte 0x1b x 4 = timesX 0x1b (timesX 0x1b x) :=
  mulByte_power 0x1b x (k := 2) (by decide)

/-- A table of the values of a function. -/
theorem lookup_eq {table : List UInt8} {g : UInt8 → UInt8}
    (h : table = (List.range 256).map fun k => g (UInt8.ofNat k)) : lookup table x = g x := by
  have hx : x.toNat < 256 := x.toNat_lt
  rw [lookup, h, List.getD_eq_getElem?_getD, List.getElem?_map, List.getElem?_range hx, Option.map_some,
    Option.getD_some, UInt8.ofNat_toNat]

theorem tables_eq :
    (mul4 = (List.range 256).map fun k => timesX 0x1b (timesX 0x1b (UInt8.ofNat k))) ∧
    (mul5 = (List.range 256).map fun k => timesX 0x1b (timesX 0x1b (UInt8.ofNat k)) ^^^ UInt8.ofNat k) ∧
    (mul6 = (List.range 256).map fun k =>
      timesX 0x1b (timesX 0x1b (UInt8.ofNat k)) ^^^ timesX 0x1b (UInt8.ofNat k)) ∧
    (mul7 = (List.range 256).map fun k =>
      timesX 0x1b (timesX 0x1b (UInt8.ofNat k)) ^^^ timesX 0x1b (UInt8.ofNat k) ^^^ UInt8.ofNat k) := by
  decide +kernel

theorem lookup_mul4 : lookup mul4 x = mulByte 0x1b x 4 := by
  rw [mulByte_four]
  exact lookup_eq x (g := fun x => timesX 0x1b (timesX 0x1b x)) tables_eq.1

theorem lookup_mul5 : lookup mul5 x = mulByte 0x1b x 5 := by
  rw [show (5 : UInt8) = 4 ^^^ 1 from rfl, mulByte_xor_right, mulByte_four, mulByte_one]
  exact lookup_eq x (g := fun x => timesX 0x1b (timesX 0x1b x) ^^^ x) tables_eq.2.1

theorem lookup_mul6 : lookup mul6 x = mulByte 0x1b x 6 := by
  rw [show (6 : UInt8) = 4 ^^^ 2 from rfl, mulByte_xor_right, mulByte_four, mulByte_two]
  exact lookup_eq x (g := fun x => timesX 0x1b (timesX 0x1b x) ^^^ timesX 0x1b x) tables_eq.2.2.1

theorem lookup_mul7 : lookup mul7 x = mulByte 0x1b x 7 := by
  rw [show (7 : UInt8) = 4 ^^^ 2 ^^^ 1 from rfl, mulByte_xor_right, mulByte_xor_right, mulByte_four,
    mulByte_two, mulByte_one]
  exact lookup_eq x (g := fun x => timesX 0x1b (timesX 0x1b x) ^^^ timesX 0x1b x ^^^ x) tables_eq.2.2.2

end Tables

/-! ## The expressions -/

/-- The factor of a part, and its byte. -/
def Term.pair : Term → UInt8 × Fin 16
  | B x => (1, x)
  | mul4 x => (4, x)
  | mul5 x => (5, x)
  | mul6 x => (6, x)
  | mul7 x => (7, x)

theorem Term.value_eq (b : Fin 16 → UInt8) (t : Term) : t.value b = mulByte 0x1b (b t.pair.2) t.pair.1 := by
  cases t with
  | B x => exact (mulByte_one (b x)).symm
  | mul4 x => exact lookup_mul4 (b x)
  | mul5 x => exact lookup_mul5 (b x)
  | mul6 x => exact lookup_mul6 (b x)
  | mul7 x => exact lookup_mul7 (b x)

/-- Where the byte of a column is. -/
def cell (i j : Fin 4) : Fin 16 := ⟨4 * j.val + i.val, by omega⟩

/-- The products that an entry is the sum of. -/
def products (i j : Fin 4) : List (UInt8 × Fin 16) :=
  (List.finRange 4).map (fun k => (circulant i k, cell k j)) ++
    ((List.finRange 4).filter (· ≠ i)).map fun k => (circulant j i, cell i k)

theorem mixed_eq (b : Fin 16 → UInt8) (i j : Fin 4) :
    mixed (fun i j => b (cell i j)) i j = linearForm 0x1b (products i j) b := by
  rw [mixed, offDiagonal, mulByte_xorSum, linearForm, products, xorSum_append, xorSum_map, xorSum_map]

/-- The expressions have the coefficients of the product. -/
theorem coefficient_expression : ∀ (i j : Fin 4) (x : Fin 16),
    coefficient ((expression (cell i j)).map Term.pair) x = coefficient (products i (j + i)) x := by
  decide +kernel

theorem expression_spec (b : Fin 16 → UInt8) (i j : Fin 4) :
    xorSum (expression (cell i j)) (Term.value b) = mixed (fun i j => b (cell i j)) i (j + i) := by
  have hform : xorSum (expression (cell i j)) (Term.value b) =
      linearForm 0x1b ((expression (cell i j)).map Term.pair) b := by
    rw [linearForm, xorSum_map]
    congr 1
    funext t
    exact t.value_eq b
  rw [hform, mixed_eq, linearForm_congr 0x1b (coefficient_expression i j)]

/-! ## Memory -/

/-- The byte of a word in memory, for either byte order of the machine. -/
theorem getElem?_convertBytes (e : Endian) (w : UInt32) (i j : Fin 4) :
    (convertBytes word32 e w)[place e (cell i j) - 4 * j.val]? = some (wordByte w i) := by
  cases e with
  | big =>
    have hi : place .big (cell i j) - 4 * j.val = i.val := Nat.add_sub_cancel_left _ _
    rw [hi]
    exact getElem?_beBytes 4 w.toNat i.isLt
  | little =>
    have hi : ∀ i j : Fin 4, place .little (cell i j) - 4 * j.val = 4 - 1 - i.val := by decide
    have hlen : (beBytes 4 w.toNat).length = 4 := length_beBytes _ _
    show (beBytes 4 w.toNat).reverse[_]? = _
    rw [hi, List.getElem?_reverse (by omega), hlen, show 4 - 1 - (4 - 1 - i.val) = i.val by omega]
    exact getElem?_beBytes 4 w.toNat i.isLt

theorem place_bounds (e : Endian) (i j : Fin 4) :
    4 * j.val ≤ place e (cell i j) ∧ place e (cell i j) < 4 * j.val + 4 := by
  revert i j
  cases e <;> decide

/-- The byte of a column. -/
theorem getElem?_copyOut (e : Endian) (t : Vector UInt32 n) (i j : Fin 4) (hj : j.val < n) :
    (copyOut word32 e t)[place e (cell i j)]? = some (wordByte (t.get ⟨j.val, hj⟩) i) := by
  obtain ⟨hlo, hhi⟩ := place_bounds e i j
  have hpiece : ((copyOut word32 e t).drop (4 * j.val)).take 4 = convertBytes word32 e (t.get ⟨j.val, hj⟩) :=
    take_drop_flatMap (f := convertBytes word32 e) length_convertBytes t.toList j.val
      (by rwa [Vector.length_toList])
  rw [← getElem?_convertBytes e (t.get ⟨j.val, hj⟩) i j, ← hpiece, List.getElem?_take_of_lt (by omega),
    List.getElem?_drop, Nat.add_sub_cancel' hlo]

theorem getElem?_substitute {a : List UInt8} {k : Nat} (hk : k < 16) :
    (substitute a)[k]? = a[k]?.map (lookup sbox) := by
  have htake : ((a.take 16).map (lookup sbox))[k]? = a[k]?.map (lookup sbox) := by
    rw [List.getElem?_map, List.getElem?_take_of_lt hk]
  rw [substitute, List.getElem?_append]
  split
  · exact htake
  · rename_i hlen
    rw [List.length_map, List.length_take] at hlen
    rw [List.drop_eq_nil_of_le (by omega), List.getElem?_nil, List.getElem?_eq_none (by omega)]
    rfl

section Sets

variable {p : Fin 16 → Nat} {v : Fin 16 → UInt8} {l : List (Fin 16)} {s : List UInt8} {k : Fin 16}

theorem getElem?_foldl_set_of_eq (hp : Function.Injective p) (h : s[p k]? = some (v k)) :
    (l.foldl (fun s k => s.set (p k) (v k)) s)[p k]? = some (v k) := by
  induction l generalizing s with
  | nil => exact h
  | cons i l ih =>
    apply ih
    by_cases hi : i = k
    · have hlen : p k < s.length := (List.getElem?_eq_some_iff.mp h).1
      rw [hi, List.getElem?_set_self hlen]
    · rw [List.getElem?_set_ne fun h' => hi (hp h')]
      exact h

/-- What was written last is there. -/
theorem getElem?_foldl_set (hp : Function.Injective p) (hk : k ∈ l) (hlen : p k < s.length) :
    (l.foldl (fun s k => s.set (p k) (v k)) s)[p k]? = some (v k) := by
  induction l generalizing s with
  | nil => exact absurd hk List.not_mem_nil
  | cons i l ih =>
    rw [List.foldl_cons]
    rcases List.mem_cons.mp hk with rfl | hk'
    · exact getElem?_foldl_set_of_eq hp (List.getElem?_set_self hlen)
    · exact ih hk' (by rwa [List.length_set])

end Sets

theorem place_injective (e : Endian) : Function.Injective (place e) := by
  intro x y
  revert x y
  cases e <;> decide

theorem length_smixBytes (e : Endian) (s t : List UInt8) : (smixBytes e s t).length = s.length := by
  unfold smixBytes
  induction List.finRange 16 generalizing s with
  | nil => rfl
  | cons k l ih => rw [List.foldl_cons, ih, List.length_set]

/-- A byte of the new words. -/
theorem getElem?_smixBytes (e : Endian) (hn : 4 ≤ n) {s : List UInt8} (hs : 16 ≤ s.length)
    (t : Vector UInt32 n) (i j : Fin 4) :
    (smixBytes e s (copyOut word32 e t))[place e (cell i j)]? =
      some (superMix (fun i j => wordByte (t.get (j.castLE hn)) i) i j) := by
  have hplace : ∀ i j, place e (cell i j) < 16 := by
    intro i j
    have hbounds := place_bounds e i j
    omega
  have hbyte : ∀ i j : Fin 4, (substitute (copyOut word32 e t)).getD (place e (cell i j)) 0 =
      lookup sbox (wordByte (t.get (j.castLE hn)) i) := by
    intro i j
    rw [List.getD_eq_getElem?_getD, getElem?_substitute (hplace i j), getElem?_copyOut e t i j (by omega)]
    rfl
  have hexpression := expression_spec (fun x => (substitute (copyOut word32 e t)).getD (place e x) 0) i j
  simp only [hbyte] at hexpression
  rw [smixBytes, getElem?_foldl_set (place_injective e) (List.mem_finRange _) (by have := hplace i j; omega),
    hexpression]
  rfl

theorem eq_four {l : List UInt8} {b : Fin 4 → UInt8} (hlen : l.length = 4)
    (h : ∀ i : Fin 4, l[i.val]? = some (b i)) : l = [b 0, b 1, b 2, b 3] := by
  apply List.ext_getElem?
  intro k
  by_cases hk : k < 4
  · rw [h ⟨k, hk⟩]
    interval_cases k <;> rfl
  · rw [List.getElem?_eq_none (by omega), List.getElem?_eq_none (by simpa using hk)]

/-- A word that is read from memory. -/
theorem convert_eq_ofWordBytes (e : Endian) {l : List UInt8} {b : Fin 4 → UInt8} {j : Fin 4}
    (hlen : 4 * j.val + 4 ≤ l.length) (h : ∀ i : Fin 4, l[place e (cell i j)]? = some (b i)) :
    convert word32 e ((l.drop (4 * j.val)).take 4) = ofWordBytes b := by
  have hpiece : ((l.drop (4 * j.val)).take 4).length = 4 := by
    rw [List.length_take, List.length_drop]
    omega
  have horder : e.order ((l.drop (4 * j.val)).take 4) = [b 0, b 1, b 2, b 3] := by
    apply eq_four
    · rw [Endian.length_order, hpiece]
    · intro i
      rw [← h i]
      cases e with
      | big =>
        show ((l.drop (4 * j.val)).take 4)[i.val]? = _
        rw [List.getElem?_take_of_lt i.isLt, List.getElem?_drop]
        rfl
      | little =>
        have hplace : ∀ i j : Fin 4, place .little (cell i j) = 4 * j.val + (4 - 1 - i.val) := by decide
        show ((l.drop (4 * j.val)).take 4).reverse[i.val]? = _
        rw [List.getElem?_reverse (by omega), hpiece, List.getElem?_take_of_lt (by omega), List.getElem?_drop,
          hplace]
  show UInt32.ofNat (beNat (e.order _)) = _
  rw [horder]
  rfl

/-- `smix` is Super-Mix, and the other words are copied. -/
theorem smixWith_eq (e : Endian) (hn : 4 ≤ n) (sb tb : Vector UInt32 n) :
    smixWith e sb tb = superMixWords hn tb := by
  have hlen : (smixBytes e (copyOut word32 e sb) (copyOut word32 e tb)).length = 4 * n := by
    rw [length_smixBytes, length_copyOut]
    rfl
  apply Vector.ext
  intro j hj
  rw [smixWith, superMixWords, Vector.getElem_ofFn, Vector.getElem_ofFn]
  by_cases h4 : j < 4
  · rw [if_pos h4, dif_pos h4]
    have hword : (smix e sb tb).get ⟨j, hj⟩ = convert word32 e
        (((smixBytes e (copyOut word32 e sb) (copyOut word32 e tb)).drop (4 * j)).take 4) := by
      show (smix e sb tb)[j] = _
      rw [smix, copyIn, Vector.getElem_ofFn]
      rfl
    rw [hword]
    apply convert_eq_ofWordBytes (j := ⟨j, h4⟩) e
    · show 4 * j + 4 ≤ _
      omega
    · intro i
      exact getElem?_smixBytes e hn (by rw [length_copyOut]; show 16 ≤ 4 * n; omega) tb i ⟨j, h4⟩
  · rw [if_neg h4, dif_neg h4]

end Drew.Fugue
