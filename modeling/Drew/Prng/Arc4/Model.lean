import Drew.Memory.Sizes
import Drew.Memory.Buffer
import Mathlib.Tactic
import Drew.Stream.Chunks

/-!
# The keystream generator of the two ARC4 generators

`KeystreamGenerator` is that of RC4, with another table to begin with, and it is stirred with 256 bytes
instead of being keyed.
-/

namespace Drew.Prng.Arc4

open Drew.Memory

/-! ## Tables -/

/-- A table from its rows. -/
def ofRows (rows : List (List UInt8)) : Buf UInt8 256 :=
  Vector.ofFn fun i => rows.flatten.getD i.val 0

def rc2table : Buf UInt8 256 :=
  ofRows [
    [0xd9, 0x78, 0xf9, 0xc4, 0x19, 0xdd, 0xb5, 0xed, 0x28, 0xe9, 0xfd, 0x79, 0x4a, 0xa0, 0xd8, 0x9d],
    [0xc6, 0x7e, 0x37, 0x83, 0x2b, 0x76, 0x53, 0x8e, 0x62, 0x4c, 0x64, 0x88, 0x44, 0x8b, 0xfb, 0xa2],
    [0x17, 0x9a, 0x59, 0xf5, 0x87, 0xb3, 0x4f, 0x13, 0x61, 0x45, 0x6d, 0x8d, 0x09, 0x81, 0x7d, 0x32],
    [0xbd, 0x8f, 0x40, 0xeb, 0x86, 0xb7, 0x7b, 0x0b, 0xf0, 0x95, 0x21, 0x22, 0x5c, 0x6b, 0x4e, 0x82],
    [0x54, 0xd6, 0x65, 0x93, 0xce, 0x60, 0xb2, 0x1c, 0x73, 0x56, 0xc0, 0x14, 0xa7, 0x8c, 0xf1, 0xdc],
    [0x12, 0x75, 0xca, 0x1f, 0x3b, 0xbe, 0xe4, 0xd1, 0x42, 0x3d, 0xd4, 0x30, 0xa3, 0x3c, 0xb6, 0x26],
    [0x6f, 0xbf, 0x0e, 0xda, 0x46, 0x69, 0x07, 0x57, 0x27, 0xf2, 0x1d, 0x9b, 0xbc, 0x94, 0x43, 0x03],
    [0xf8, 0x11, 0xc7, 0xf6, 0x90, 0xef, 0x3e, 0xe7, 0x06, 0xc3, 0xd5, 0x2f, 0xc8, 0x66, 0x1e, 0xd7],
    [0x08, 0xe8, 0xea, 0xde, 0x80, 0x52, 0xee, 0xf7, 0x84, 0xaa, 0x72, 0xac, 0x35, 0x4d, 0x6a, 0x2a],
    [0x96, 0x1a, 0xd2, 0x71, 0x5a, 0x15, 0x49, 0x74, 0x4b, 0x9f, 0xd0, 0x5e, 0x04, 0x18, 0xa4, 0xec],
    [0xc2, 0xe0, 0x41, 0x6e, 0x0f, 0x51, 0xcb, 0xcc, 0x24, 0x91, 0xaf, 0x50, 0xa1, 0xf4, 0x70, 0x39],
    [0x99, 0x7c, 0x3a, 0x85, 0x23, 0xb8, 0xb4, 0x7a, 0xfc, 0x02, 0x36, 0x5b, 0x25, 0x55, 0x97, 0x31],
    [0x2d, 0x5d, 0xfa, 0x98, 0xe3, 0x8a, 0x92, 0xae, 0x05, 0xdf, 0x29, 0x10, 0x67, 0x6c, 0xba, 0xc9],
    [0xd3, 0x00, 0xe6, 0xcf, 0xe1, 0x9e, 0xa8, 0x2c, 0x63, 0x16, 0x01, 0x3f, 0x58, 0xe2, 0x89, 0xa9],
    [0x0d, 0x38, 0x34, 0x1b, 0xab, 0x33, 0xff, 0xb0, 0xbb, 0x48, 0x0c, 0x5f, 0xb9, 0xb1, 0xcd, 0x2e],
    [0xc5, 0xf3, 0xdb, 0x47, 0xe5, 0xa5, 0x9c, 0x77, 0x0a, 0xa6, 0x20, 0x68, 0xfe, 0x7f, 0xc1, 0xad]]

def md2table : Buf UInt8 256 :=
  ofRows [
    [0x29, 0x2e, 0x43, 0xc9, 0xa2, 0xd8, 0x7c, 0x01, 0x3d, 0x36, 0x54, 0xa1, 0xec, 0xf0, 0x06, 0x13],
    [0x62, 0xa7, 0x05, 0xf3, 0xc0, 0xc7, 0x73, 0x8c, 0x98, 0x93, 0x2b, 0xd9, 0xbc, 0x4c, 0x82, 0xca],
    [0x1e, 0x9b, 0x57, 0x3c, 0xfd, 0xd4, 0xe0, 0x16, 0x67, 0x42, 0x6f, 0x18, 0x8a, 0x17, 0xe5, 0x12],
    [0xbe, 0x4e, 0xc4, 0xd6, 0xda, 0x9e, 0xde, 0x49, 0xa0, 0xfb, 0xf5, 0x8e, 0xbb, 0x2f, 0xee, 0x7a],
    [0xa9, 0x68, 0x79, 0x91, 0x15, 0xb2, 0x07, 0x3f, 0x94, 0xc2, 0x10, 0x89, 0x0b, 0x22, 0x5f, 0x21],
    [0x80, 0x7f, 0x5d, 0x9a, 0x5a, 0x90, 0x32, 0x27, 0x35, 0x3e, 0xcc, 0xe7, 0xbf, 0xf7, 0x97, 0x03],
    [0xff, 0x19, 0x30, 0xb3, 0x48, 0xa5, 0xb5, 0xd1, 0xd7, 0x5e, 0x92, 0x2a, 0xac, 0x56, 0xaa, 0xc6],
    [0x4f, 0xb8, 0x38, 0xd2, 0x96, 0xa4, 0x7d, 0xb6, 0x76, 0xfc, 0x6b, 0xe2, 0x9c, 0x74, 0x04, 0xf1],
    [0x45, 0x9d, 0x70, 0x59, 0x64, 0x71, 0x87, 0x20, 0x86, 0x5b, 0xcf, 0x65, 0xe6, 0x2d, 0xa8, 0x02],
    [0x1b, 0x60, 0x25, 0xad, 0xae, 0xb0, 0xb9, 0xf6, 0x1c, 0x46, 0x61, 0x69, 0x34, 0x40, 0x7e, 0x0f],
    [0x55, 0x47, 0xa3, 0x23, 0xdd, 0x51, 0xaf, 0x3a, 0xc3, 0x5c, 0xf9, 0xce, 0xba, 0xc5, 0xea, 0x26],
    [0x2c, 0x53, 0x0d, 0x6e, 0x85, 0x28, 0x84, 0x09, 0xd3, 0xdf, 0xcd, 0xf4, 0x41, 0x81, 0x4d, 0x52],
    [0x6a, 0xdc, 0x37, 0xc8, 0x6c, 0xc1, 0xab, 0xfa, 0x24, 0xe1, 0x7b, 0x08, 0x0c, 0xbd, 0xb1, 0x4a],
    [0x78, 0x88, 0x95, 0x8b, 0xe3, 0x63, 0xe8, 0x6d, 0xe9, 0xcb, 0xd5, 0xfe, 0x3b, 0x00, 0x1d, 0x39],
    [0xf2, 0xef, 0xb7, 0x0e, 0x66, 0x58, 0xd0, 0xe4, 0xa6, 0x77, 0x72, 0xf8, 0xeb, 0x75, 0x4b, 0x0a],
    [0x31, 0x44, 0x50, 0xb4, 0x8f, 0xed, 0x1f, 0x1a, 0xdb, 0x99, 0x8d, 0x33, 0x9f, 0x11, 0x83, 0x14]]

def ariatable : Buf UInt8 256 :=
  ofRows [
    [0x63, 0x7c, 0x77, 0x7b, 0xf2, 0x6b, 0x6f, 0xc5, 0x30, 0x01, 0x67, 0x2b, 0xfe, 0xd7, 0xab, 0x76],
    [0xca, 0x82, 0xc9, 0x7d, 0xfa, 0x59, 0x47, 0xf0, 0xad, 0xd4, 0xa2, 0xaf, 0x9c, 0xa4, 0x72, 0xc0],
    [0xb7, 0xfd, 0x93, 0x26, 0x36, 0x3f, 0xf7, 0xcc, 0x34, 0xa5, 0xe5, 0xf1, 0x71, 0xd8, 0x31, 0x15],
    [0x04, 0xc7, 0x23, 0xc3, 0x18, 0x96, 0x05, 0x9a, 0x07, 0x12, 0x80, 0xe2, 0xeb, 0x27, 0xb2, 0x75],
    [0x09, 0x83, 0x2c, 0x1a, 0x1b, 0x6e, 0x5a, 0xa0, 0x52, 0x3b, 0xd6, 0xb3, 0x29, 0xe3, 0x2f, 0x84],
    [0x53, 0xd1, 0x00, 0xed, 0x20, 0xfc, 0xb1, 0x5b, 0x6a, 0xcb, 0xbe, 0x39, 0x4a, 0x4c, 0x58, 0xcf],
    [0xd0, 0xef, 0xaa, 0xfb, 0x43, 0x4d, 0x33, 0x85, 0x45, 0xf9, 0x02, 0x7f, 0x50, 0x3c, 0x9f, 0xa8],
    [0x51, 0xa3, 0x40, 0x8f, 0x92, 0x9d, 0x38, 0xf5, 0xbc, 0xb6, 0xda, 0x21, 0x10, 0xff, 0xf3, 0xd2],
    [0xcd, 0x0c, 0x13, 0xec, 0x5f, 0x97, 0x44, 0x17, 0xc4, 0xa7, 0x7e, 0x3d, 0x64, 0x5d, 0x19, 0x73],
    [0x60, 0x81, 0x4f, 0xdc, 0x22, 0x2a, 0x90, 0x88, 0x46, 0xee, 0xb8, 0x14, 0xde, 0x5e, 0x0b, 0xdb],
    [0xe0, 0x32, 0x3a, 0x0a, 0x49, 0x06, 0x24, 0x5c, 0xc2, 0xd3, 0xac, 0x62, 0x91, 0x95, 0xe4, 0x79],
    [0xe7, 0xc8, 0x37, 0x6d, 0x8d, 0xd5, 0x4e, 0xa9, 0x6c, 0x56, 0xf4, 0xea, 0x65, 0x7a, 0xae, 0x08],
    [0xba, 0x78, 0x25, 0x2e, 0x1c, 0xa6, 0xb4, 0xc6, 0xe8, 0xdd, 0x74, 0x1f, 0x4b, 0xbd, 0x8b, 0x8a],
    [0x70, 0x3e, 0xb5, 0x66, 0x48, 0x03, 0xf6, 0x0e, 0x61, 0x35, 0x57, 0xb9, 0x86, 0xc1, 0x1d, 0x9e],
    [0xe1, 0xf8, 0x98, 0x11, 0x69, 0xd9, 0x8e, 0x94, 0x9b, 0x1e, 0x87, 0xe9, 0xce, 0x55, 0x28, 0xdf],
    [0x8c, 0xa1, 0x89, 0x0d, 0xbf, 0xe6, 0x42, 0x68, 0x41, 0x99, 0x2d, 0x0f, 0xb0, 0x54, 0xbb, 0x16]]

def ariatable2 : Buf UInt8 256 :=
  ofRows [
    [0xe2, 0x4e, 0x54, 0xfc, 0x94, 0xc2, 0x4a, 0xcc, 0x62, 0x0d, 0x6a, 0x46, 0x3c, 0x4d, 0x8b, 0xd1],
    [0x5e, 0xfa, 0x64, 0xcb, 0xb4, 0x97, 0xbe, 0x2b, 0xbc, 0x77, 0x2e, 0x03, 0xd3, 0x19, 0x59, 0xc1],
    [0x1d, 0x06, 0x41, 0x6b, 0x55, 0xf0, 0x99, 0x69, 0xea, 0x9c, 0x18, 0xae, 0x63, 0xdf, 0xe7, 0xbb],
    [0x00, 0x73, 0x66, 0xfb, 0x96, 0x4c, 0x85, 0xe4, 0x3a, 0x09, 0x45, 0xaa, 0x0f, 0xee, 0x10, 0xeb],
    [0x2d, 0x7f, 0xf4, 0x29, 0xac, 0xcf, 0xad, 0x91, 0x8d, 0x78, 0xc8, 0x95, 0xf9, 0x2f, 0xce, 0xcd],
    [0x08, 0x7a, 0x88, 0x38, 0x5c, 0x83, 0x2a, 0x28, 0x47, 0xdb, 0xb8, 0xc7, 0x93, 0xa4, 0x12, 0x53],
    [0xff, 0x87, 0x0e, 0x31, 0x36, 0x21, 0x58, 0x48, 0x01, 0x8e, 0x37, 0x74, 0x32, 0xca, 0xe9, 0xb1],
    [0xb7, 0xab, 0x0c, 0xd7, 0xc4, 0x56, 0x42, 0x26, 0x07, 0x98, 0x60, 0xd9, 0xb6, 0xb9, 0x11, 0x40],
    [0xec, 0x20, 0x8c, 0xbd, 0xa0, 0xc9, 0x84, 0x04, 0x49, 0x23, 0xf1, 0x4f, 0x50, 0x1f, 0x13, 0xdc],
    [0xd8, 0xc0, 0x9e, 0x57, 0xe3, 0xc3, 0x7b, 0x65, 0x3b, 0x02, 0x8f, 0x3e, 0xe8, 0x25, 0x92, 0xe5],
    [0x15, 0xdd, 0xfd, 0x17, 0xa9, 0xbf, 0xd4, 0x9a, 0x7e, 0xc5, 0x39, 0x67, 0xfe, 0x76, 0x9d, 0x43],
    [0xa7, 0xe1, 0xd0, 0xf5, 0x68, 0xf2, 0x1b, 0x34, 0x70, 0x05, 0xa3, 0x8a, 0xd5, 0x79, 0x86, 0xa8],
    [0x30, 0xc6, 0x51, 0x4b, 0x1e, 0xa6, 0x27, 0xf6, 0x35, 0xd2, 0x6e, 0x24, 0x16, 0x82, 0x5f, 0xda],
    [0xe6, 0x75, 0xa2, 0xef, 0x2c, 0xb2, 0x1c, 0x9f, 0x5d, 0x6f, 0x80, 0x0a, 0x72, 0x44, 0x9b, 0x6c],
    [0x90, 0x0b, 0x5b, 0x33, 0x7d, 0x5a, 0x52, 0xf3, 0x61, 0xa1, 0xf7, 0xb0, 0xd6, 0x3f, 0x7c, 0x6d],
    [0xed, 0x14, 0xe0, 0xa5, 0x3d, 0x22, 0xb3, 0xf8, 0x89, 0xde, 0x71, 0x1a, 0xaf, 0xba, 0xb5, 0x81]]

/-- `table[index & 3]`. -/
def table (index : Nat) : Buf UInt8 256 :=
  match index % 4 with
  | 0 => rc2table
  | 1 => md2table
  | 2 => ariatable
  | _ => ariatable2

/-! ## The generator -/

/-- The members of `KeystreamGenerator`. -/
structure KeystreamGenerator where
  i : UInt8
  j : UInt8
  s : Buf UInt8 256

namespace KeystreamGenerator

/-- The entry at a byte. -/
def place (b : UInt8) : Fin 256 := Fin.ofNat 256 b.toNat

def swap (s : Buf UInt8 256) (a b : UInt8) : Buf UInt8 256 :=
  (s.set (place a) (s.get (place b))).set (place b) (s.get (place a))

/-- The constructor. -/
def new (index : Nat) : KeystreamGenerator := ⟨0, 0, table index⟩

/-- `x` and `y` are references to the entries that are swapped. -/
def getByte (g : KeystreamGenerator) : KeystreamGenerator × UInt8 :=
  let i := g.i + 1
  let j := g.j + g.s.get (place i)
  let s := swap g.s i j
  (⟨i, j, s⟩, s.get (place (s.get (place i) + s.get (place j))))

/-- A round of `Stir`. -/
def stirStep (k : List UInt8) (r : Buf UInt8 256 × UInt8) (i : Nat) : Buf UInt8 256 × UInt8 :=
  let t := UInt8.ofNat i
  let v := UInt8.ofNat (i / 256) ^^^ 255 ^^^ t
  let j := r.2 + (r.1.get (place t) + k.getD t.toNat 0 + v)
  (swap r.1 t j, j)

def stir (k : List UInt8) (jval : UInt8) (g : KeystreamGenerator) : KeystreamGenerator :=
  { g with s := ((List.range (2 ^ 16)).foldl (stirStep k) (g.s, jval)).1 }

/-! ### The table is a permutation -/

def allBytes : List UInt8 := (List.range 256).map UInt8.ofNat

/-- The states of a keystream generator. -/
inductive Reach : KeystreamGenerator → Prop
  | new (index : Nat) : Reach (new index)
  | getByte {g : KeystreamGenerator} : Reach g → Reach g.getByte.1
  | stir {g : KeystreamGenerator} (k : List UInt8) (jval : UInt8) : Reach g → Reach (g.stir k jval)

theorem swap_perm (s : Buf UInt8 256) (a b : UInt8) : (swap s a b).toList.Perm s.toList := by
  have ha : (place a).val < s.toList.length := by
    rw [Vector.length_toList]
    exact (place a).isLt
  have hb : (place b).val < s.toList.length := by
    rw [Vector.length_toList]
    exact (place b).isLt
  exact List.set_set_perm ha hb

/-- References to one entry. -/
theorem swap_self (s : Buf UInt8 256) (a : UInt8) : swap s a a = s := by
  have hset : s.set (place a) (s.get (place a)) = s := Vector.set_getElem_self (place a).isLt
  rw [swap, hset, hset]

theorem stir_perm (g : KeystreamGenerator) (k : List UInt8) (jval : UInt8) : (g.stir k jval).s.toList.Perm g.s.toList := by
  have hfold : ∀ (l : List Nat) (r : Buf UInt8 256 × UInt8), (l.foldl (stirStep k) r).1.toList.Perm r.1.toList := by
    intro l
    induction l with
    | nil => exact fun r => List.Perm.refl _
    | cons i l ih =>
      intro r
      rw [List.foldl_cons]
      exact (ih (stirStep k r i)).trans (swap_perm r.1 _ _)
  unfold stir
  generalize List.range (2 ^ 16) = l
  exact hfold l (g.s, jval)

theorem getByte_perm (g : KeystreamGenerator) : g.getByte.1.s.toList.Perm g.s.toList := swap_perm g.s _ _

theorem nodup_allBytes : allBytes.Nodup := by
  refine List.Nodup.map_on ?_ List.nodup_range
  intro i hi j hj hij
  rw [List.mem_range] at hi hj
  rw [← UInt8.toNat_ofNat_of_lt' hi, ← UInt8.toNat_ofNat_of_lt' hj, hij]

/-- A bit for each byte of a list. -/
def occurring (bs : List UInt8) : Nat := bs.foldl (fun n b => n ||| 1 <<< b.toNat) 0

theorem mem_of_occurring {bs : List UInt8} {b : UInt8} (h : (occurring bs).testBit b.toNat = true) : b ∈ bs := by
  have hfold : ∀ (bs : List UInt8) (n : Nat), (bs.foldl (fun n b => n ||| 1 <<< b.toNat) n).testBit b.toNat = true →
      n.testBit b.toNat = true ∨ b ∈ bs := by
    intro bs
    induction bs with
    | nil => exact fun n h => Or.inl h
    | cons c bs ih =>
      intro n h
      rcases ih _ h with hn | hmem
      · rw [Nat.testBit_or, Bool.or_eq_true, Nat.one_shiftLeft, Nat.testBit_two_pow, decide_eq_true_eq] at hn
        rcases hn with hn | hcb
        · exact Or.inl hn
        · exact Or.inr (UInt8.toNat_inj.mp hcb ▸ List.mem_cons_self)
      · exact Or.inr (List.mem_cons_of_mem c hmem)
  rcases hfold bs 0 h with h0 | hmem
  · rw [Nat.zero_testBit] at h0
    cases h0
  · exact hmem

/-- A table in which every byte occurs. -/
theorem ofRows_perm {rows : List (List UInt8)} (hlen : rows.flatten.length = 256)
    (hall : occurring rows.flatten = 2 ^ 256 - 1) : (ofRows rows).toList.Perm allBytes := by
  have hlist : (ofRows rows).toList = rows.flatten := by
    apply List.ext_getElem
    · rw [Vector.length_toList, hlen]
    · intro i hi hi'
      have hget : rows.flatten[i] = rows.flatten.getD i 0 := by
        rw [List.getD_eq_getElem?_getD, List.getElem?_eq_getElem hi', Option.getD_some]
      rw [Vector.getElem_toList, hget]
      exact Vector.getElem_ofFn _
  have hsub : allBytes ⊆ rows.flatten := by
    intro b _
    apply mem_of_occurring
    rw [hall, Nat.testBit_two_pow_sub_one]
    exact decide_eq_true b.toNat_lt
  rw [hlist]
  have hsubperm := nodup_allBytes.subperm hsub
  have hle : rows.flatten.length ≤ allBytes.length := by
    rw [hlen, allBytes, List.length_map, List.length_range]
  exact (hsubperm.perm_of_length_le hle).symm

theorem rc2table_perm : rc2table.toList.Perm allBytes := ofRows_perm (by decide +kernel) (by decide +kernel)

theorem md2table_perm : md2table.toList.Perm allBytes := ofRows_perm (by decide +kernel) (by decide +kernel)

theorem ariatable_perm : ariatable.toList.Perm allBytes := ofRows_perm (by decide +kernel) (by decide +kernel)

theorem ariatable2_perm : ariatable2.toList.Perm allBytes := ofRows_perm (by decide +kernel) (by decide +kernel)

theorem table_perm (index : Nat) : (table index).toList.Perm allBytes := by
  unfold table
  split
  · exact rc2table_perm
  · exact md2table_perm
  · exact ariatable_perm
  · exact ariatable2_perm

theorem Reach.perm {g : KeystreamGenerator} (h : Reach g) : g.s.toList.Perm allBytes := by
  induction h with
  | new index => exact table_perm index
  | getByte _ ih => exact (getByte_perm _).trans ih
  | stir k jval _ ih => exact (stir_perm _ k jval).trans ih

/-- The table is a permutation of all bytes in every state. A byte does not change the entries as a multiset, and
nothing at all if it exchanges an entry with itself. -/
theorem keystream_permutation : (∀ g, Reach g → g.s.toList.Perm allBytes) ∧
    (∀ g : KeystreamGenerator, g.getByte.1.s.toList.Perm g.s.toList) ∧
    ∀ g : KeystreamGenerator, g.i + 1 = g.j + g.s.get (place (g.i + 1)) → g.getByte.1.s = g.s := by
  refine ⟨fun g h => h.perm, getByte_perm, fun g h => ?_⟩
  show swap g.s (g.i + 1) (g.j + g.s.get (place (g.i + 1))) = g.s
  rw [← h, swap_self]

end KeystreamGenerator

end Drew.Prng.Arc4

/-!
## ARC4Stir and ARC4Interleave

The two generators have pointers to keystream generators, one and four of them. These are in an explicit
heap; an access to one that was released is undefined (`none`).

The classes are alike but for the number of the pointers and the way in which a byte is made, so their
functions have one body.
-/

namespace Drew.Prng.Arc4

open Drew.Memory Drew.Stream

/-! ## Data -/

/-- The classes `ARC4Stir` and `ARC4Interleave`. -/
inductive Kind
  | stir
  | interleave
  deriving DecidableEq

/-- The number of keystream generators. -/
def Kind.count : Kind → Nat
  | .stir => 1
  | .interleave => 4

/-- The keystream generators by their addresses. -/
abbrev Heap := Nat → Option KeystreamGenerator

/-- The members of an object. `ARC4Stir` has no index. -/
structure Generator where
  cnt : Int
  index : UInt32
  entropy : UInt64
  ks : List Nat

/-- What the system gives to `Stir`: the bytes of the structure, once it is filled in, and the number of
bytes that were read from the device, which is zero if it was not opened and negative if the read failed. -/
structure Device where
  rnd : List UInt8
  nbytes : Int

/-- A program on the heap and an object. -/
abbrev M (α : Type) := StateT (Heap × Generator) Option α

def NBYTES : Int := 1048573

def NDROP : Nat := 3079

/-! ## Functions -/

/-- `m_entropy -= x` and `m_entropy += x`. -/
def subEntropy (ent x : UInt64) : UInt64 := if x < ent then ent - x else 0

def addEntropy (ent x : UInt64) : UInt64 := ent + x

/-- A function of the keystream generator that a pointer points at. -/
def keystream {α : Type} (n : Nat) (f : KeystreamGenerator → KeystreamGenerator × α) : M α := fun s => do
  let p ← s.2.ks[n]?
  let g ← s.1 p
  let r := f g
  return (r.2, (Function.update s.1 p (some r.1), s.2))

namespace Kind

def internalGetByte : Kind → M UInt8
  | .stir => keystream 0 KeystreamGenerator.getByte
  | .interleave => do
      let s ← get
      let b1 ← keystream (s.2.index % 4).toNat KeystreamGenerator.getByte
      modify fun s => (s.1, { s.2 with index := s.2.index + 1 })
      let s ← get
      let b2 ← keystream (s.2.index % 4).toNat KeystreamGenerator.getByte
      return b1 ^^^ b2

variable (v : Kind)

/-- `tmp`: a block of the data over bytes of the generator. -/
def mixed (block : List UInt8) : M (List UInt8) :=
  (List.range (256 * v.count)).mapM fun i => do
    let b ← v.internalGetByte
    return b ^^^ block.getD (i % block.length) 0

/-- Each keystream generator is stirred with its part of `tmp`. -/
def stirAll (tmp : List UInt8) : M (List PUnit) :=
  (List.range v.count).mapM fun n => do
    let jval ← v.internalGetByte
    keystream n fun g => (g.stir ((tmp.drop (256 * n)).take 256) jval, ⟨⟩)

/-- The blocks of the data. -/
def blocks (data : List UInt8) : List (List UInt8) :=
  chunks (256 * v.count) ((data.length + (256 * v.count - 1)) / (256 * v.count)) data

def addRandomData (data : List UInt8) (entropy : UInt64) : M PUnit := do
  let _ ← (v.blocks data).mapM fun block => do
    let tmp ← v.mixed block
    v.stirAll tmp
  let _ ← (List.range NDROP).mapM fun _ => v.internalGetByte
  modify fun s => (s.1, { s.2 with cnt := NBYTES })
  modify fun s => (s.1, { s.2 with entropy := addEntropy s.2.entropy entropy })

/-- `Stir`. The credit is `std::min<ssize_t>(rnd.nbytes, 0) * 8`. -/
def stirDevice (env : Device) : M PUnit :=
  v.addRandomData env.rnd (UInt64.ofNat ((min env.nbytes 0 * 8) % 2 ^ 64).toNat)

/-- The generator is stirred if the count says so. -/
def stirDue (env : Device) : M PUnit := do
  let s ← get
  if s.2.cnt ≤ 0 then v.stirDevice env

def getByte (env : Device) : M UInt8 := do
  modify fun s => (s.1, { s.2 with cnt := s.2.cnt - 1 })
  v.stirDue env
  modify fun s => (s.1, { s.2 with entropy := subEntropy s.2.entropy 8 })
  v.internalGetByte

/-- `GetBytes`. There is an answer of the system for each byte, in case the generator is stirred then. -/
def getBytes (n : Nat) (env : Nat → Device) : M (List UInt8) :=
  (List.range n).mapM fun i => v.getByte (env i)

/-- The constructor, with the addresses of the new keystream generators and what the memory of
`m_entropy` had, which is not set. -/
def construct (heap : Heap) (ks : List Nat) (entropy : UInt64) : Heap × Generator :=
  ((List.zip ks (List.range v.count)).foldl
      (fun h k => Function.update h k.1 (some (KeystreamGenerator.new k.2))) heap,
    ⟨0, 0, entropy, ks⟩)

end Kind

/-- The destructor, which deletes the keystream generators. -/
def destruct (heap : Heap) (g : Generator) : Option Heap :=
  g.ks.foldlM (fun h p => (h p).map fun _ => Function.update h p none) heap

end Drew.Prng.Arc4
