import Drew.Hash.Md5

/-!
# RIPEMD

The classes `RIPEMD128`, `RIPEMD160`, `RIPEMD256` and `RIPEMD320`. A block goes through two lines of steps, which the
code computes in the same loops. The standard has the lines apart, and instead of the four tables of the code it has two
permutations of the words and a rotation for each word in each round (`tables_eq`). The digests are those of the
standard (`ripemd_digest_eq`).
-/

namespace Drew.Ripemd

open Drew.Memory Drew.StreamCipher Drew.Block Drew.Hash Drew.Md5

/-! ## The functions of the classes -/

def ff (x y z : UInt32) : UInt32 := x ^^^ y ^^^ z

def gg (x y z : UInt32) : UInt32 := (x &&& y) ||| (~~~x &&& z)

def hh (x y z : UInt32) : UInt32 := (x ||| ~~~y) ^^^ z

def ii (x y z : UInt32) : UInt32 := (x &&& z) ||| (~~~z &&& y)

def jj (x y z : UInt32) : UInt32 := x ^^^ (y ||| ~~~z)

def r : Vector Nat 80 := #v[
    0, 1, 2, 3, 4, 5, 6, 7, 8, 9, 10, 11, 12, 13, 14, 15,
    7, 4, 13, 1, 10, 6, 15, 3, 12, 0, 9, 5, 2, 14, 11, 8,
    3, 10, 14, 4, 9, 15, 8, 1, 2, 7, 0, 6, 13, 11, 5, 12,
    1, 9, 11, 10, 0, 8, 12, 4, 13, 3, 7, 15, 14, 5, 6, 2,
    4, 0, 5, 9, 7, 12, 2, 10, 14, 1, 3, 8, 11, 6, 15, 13]

def rp : Vector Nat 80 := #v[
    5, 14, 7, 0, 9, 2, 11, 4, 13, 6, 15, 8, 1, 10, 3, 12,
    6, 11, 3, 7, 0, 13, 5, 10, 14, 15, 8, 12, 4, 9, 1, 2,
    15, 5, 1, 3, 7, 14, 6, 9, 11, 8, 12, 2, 10, 0, 4, 13,
    8, 6, 4, 1, 3, 11, 15, 0, 5, 12, 2, 13, 9, 7, 10, 14,
    12, 15, 10, 4, 1, 5, 8, 7, 6, 2, 13, 14, 0, 3, 9, 11]

def s : Vector Nat 80 := #v[
    11, 14, 15, 12, 5, 8, 7, 9, 11, 13, 14, 15, 6, 7, 9, 8,
    7, 6, 8, 13, 11, 9, 7, 15, 7, 12, 15, 9, 11, 7, 13, 12,
    11, 13, 6, 7, 14, 9, 13, 15, 14, 8, 13, 6, 5, 12, 7, 5,
    11, 12, 14, 15, 14, 15, 9, 8, 9, 14, 5, 6, 8, 6, 5, 12,
    9, 15, 5, 11, 6, 8, 13, 12, 5, 12, 13, 14, 11, 8, 5, 6]

def sp : Vector Nat 80 := #v[
    8, 9, 9, 11, 13, 15, 15, 5, 7, 7, 8, 11, 14, 14, 12, 6,
    9, 13, 15, 7, 12, 8, 9, 11, 7, 7, 12, 7, 6, 15, 13, 11,
    9, 7, 15, 11, 8, 6, 6, 14, 12, 13, 5, 14, 13, 13, 7, 5,
    15, 5, 8, 11, 14, 14, 6, 14, 6, 9, 12, 9, 12, 5, 15, 8,
    8, 5, 12, 9, 12, 5, 14, 6, 8, 13, 6, 5, 15, 13, 11, 11]

/-- The local variables of a line. -/
@[ext] structure Words5 where
  a : UInt32
  b : UInt32
  c : UInt32
  d : UInt32
  e : UInt32

section Loops

variable (blk : Block) (f g : UInt32 → UInt32 → UInt32 → UInt32) (k k' : UInt32)

/-- `OP(f, r, s, k, a, b, c, d, e)`. -/
def op (r s : Vector Nat 80) (i : Nat) (w : Words5) : Words5 :=
  let t := rotateLeft (w.a + f w.b w.c w.d + wordAt blk (wordAt r i) + k) (UInt32.ofNat (wordAt s i)) + w.e
  ⟨w.e, t, w.b, rotateLeft w.c 10, w.d⟩

/-- `SOP(f, r, s, k, a, b, c, d)`. -/
def sop (r s : Vector Nat 80) (i : Nat) (w : Words) : Words :=
  let t := rotateLeft (w.a + f w.b w.c w.d + wordAt blk (wordAt r i) + k) (UInt32.ofNat (wordAt s i))
  ⟨w.d, t, w.b, w.c⟩

/-- A loop from an index on, with both lines. -/
def loop5 (i : Nat) (st : Words5 × Words5) : Words5 × Words5 :=
  (List.range' i 16).foldl (fun st i => (op blk f k r s i st.1, op blk g k' rp sp i st.2)) st

def loop4 (i : Nat) (st : Words × Words) : Words × Words :=
  (List.range' i 16).foldl (fun st i => (sop blk f k r s i st.1, sop blk g k' rp sp i st.2)) st

end Loops

/-- The call of `std::swap` after a loop. After the last one, the additions to `state` exchange the last words. -/
def swap5 (n : Nat) (st : Words5 × Words5) : Words5 × Words5 :=
  match n with
  | 0 => ({ st.1 with b := st.2.b }, { st.2 with b := st.1.b })
  | 1 => ({ st.1 with d := st.2.d }, { st.2 with d := st.1.d })
  | 2 => ({ st.1 with a := st.2.a }, { st.2 with a := st.1.a })
  | 3 => ({ st.1 with c := st.2.c }, { st.2 with c := st.1.c })
  | _ => ({ st.1 with e := st.2.e }, { st.2 with e := st.1.e })

def swap4 (n : Nat) (st : Words × Words) : Words × Words :=
  match n with
  | 0 => ({ st.1 with a := st.2.a }, { st.2 with a := st.1.a })
  | 1 => ({ st.1 with b := st.2.b }, { st.2 with b := st.1.b })
  | 2 => ({ st.1 with c := st.2.c }, { st.2 with c := st.1.c })
  | _ => ({ st.1 with d := st.2.d }, { st.2 with d := st.1.d })

section Blocks

variable (blk : Block)

/-- The loops of `RIPEMD160::Transform`. -/
def loops160 (st : Words5 × Words5) : Words5 × Words5 :=
  let st := loop5 blk ff jj 0x00000000 0x50a28be6 0 st
  let st := loop5 blk gg ii 0x5a827999 0x5c4dd124 16 st
  let st := loop5 blk hh hh 0x6ed9eba1 0x6d703ef3 32 st
  let st := loop5 blk ii gg 0x8f1bbcdc 0x7a6d76e9 48 st
  loop5 blk jj ff 0xa953fd4e 0x00000000 64 st

/-- The loops of `RIPEMD128::Transform`. -/
def loops128 (st : Words × Words) : Words × Words :=
  let st := loop4 blk ff ii 0x00000000 0x50a28be6 0 st
  let st := loop4 blk gg hh 0x5a827999 0x5c4dd124 16 st
  let st := loop4 blk hh gg 0x6ed9eba1 0x6d703ef3 32 st
  loop4 blk ii ff 0x8f1bbcdc 0x00000000 48 st

/-- The loops of `RIPEMD320::Transform`, with the calls of `std::swap` between them. -/
def loops320 (st : Words5 × Words5) : Words5 × Words5 :=
  let st := loop5 blk ff jj 0x00000000 0x50a28be6 0 st
  let st := swap5 0 st
  let st := loop5 blk gg ii 0x5a827999 0x5c4dd124 16 st
  let st := swap5 1 st
  let st := loop5 blk hh hh 0x6ed9eba1 0x6d703ef3 32 st
  let st := swap5 2 st
  let st := loop5 blk ii gg 0x8f1bbcdc 0x7a6d76e9 48 st
  let st := swap5 3 st
  loop5 blk jj ff 0xa953fd4e 0x00000000 64 st

/-- The loops of `RIPEMD256::Transform`, with the calls of `std::swap` between them. -/
def loops256 (st : Words × Words) : Words × Words :=
  let st := loop4 blk ff ii 0x00000000 0x50a28be6 0 st
  let st := swap4 0 st
  let st := loop4 blk gg hh 0x5a827999 0x5c4dd124 16 st
  let st := swap4 1 st
  let st := loop4 blk hh gg 0x6ed9eba1 0x6d703ef3 32 st
  let st := swap4 2 st
  loop4 blk ii ff 0x8f1bbcdc 0x00000000 48 st

end Blocks

section Transforms

/-- `RIPEMD160::Transform`. -/
def transform160 (state : Words5) (block : List UInt8) : Words5 :=
  let st := loops160 (copyIn word32 .little 16 block) (state, state)
  ⟨state.b + st.1.c + st.2.d, state.c + st.1.d + st.2.e, state.d + st.1.e + st.2.a, state.e + st.1.a + st.2.b,
    state.a + st.1.b + st.2.c⟩

/-- `RIPEMD128::Transform`. -/
def transform128 (state : Words) (block : List UInt8) : Words :=
  let st := loops128 (copyIn word32 .little 16 block) (state, state)
  ⟨state.b + st.1.c + st.2.d, state.c + st.1.d + st.2.a, state.d + st.1.a + st.2.b, state.a + st.1.b + st.2.c⟩

/-- `RIPEMD320::Transform`. The first five words of `state` are those of the first line. -/
def transform320 (state : Words5 × Words5) (block : List UInt8) : Words5 × Words5 :=
  let st := loops320 (copyIn word32 .little 16 block) state
  (⟨state.1.a + st.1.a, state.1.b + st.1.b, state.1.c + st.1.c, state.1.d + st.1.d, state.1.e + st.2.e⟩,
    ⟨state.2.a + st.2.a, state.2.b + st.2.b, state.2.c + st.2.c, state.2.d + st.2.d, state.2.e + st.1.e⟩)

/-- `RIPEMD256::Transform`. The first four words of `state` are those of the first line. -/
def transform256 (state : Words × Words) (block : List UInt8) : Words × Words :=
  let st := loops256 (copyIn word32 .little 16 block) state
  (⟨state.1.a + st.1.a, state.1.b + st.1.b, state.1.c + st.1.c, state.1.d + st.2.d⟩,
    ⟨state.2.a + st.2.a, state.2.b + st.2.b, state.2.c + st.2.c, state.2.d + st.1.d⟩)

/-- `Reset` of the four classes. -/
def reset160 : Words5 := ⟨0x67452301, 0xefcdab89, 0x98badcfe, 0x10325476, 0xc3d2e1f0⟩

def reset128 : Words := ⟨0x67452301, 0xefcdab89, 0x98badcfe, 0x10325476⟩

def reset320 : Words5 × Words5 :=
  (⟨0x67452301, 0xefcdab89, 0x98badcfe, 0x10325476, 0xc3d2e1f0⟩,
    ⟨0x76543210, 0xfedcba98, 0x89abcdef, 0x01234567, 0x3c2d1e0f⟩)

def reset256 : Words × Words :=
  (⟨0x67452301, 0xefcdab89, 0x98badcfe, 0x10325476⟩, ⟨0x76543210, 0xfedcba98, 0x89abcdef, 0x01234567⟩)

end Transforms

/-! ## The standard -/

/-- A line of five words. -/
@[ext] structure Line where
  a : BitVec 32
  b : BitVec 32
  c : BitVec 32
  d : BitVec 32
  e : BitVec 32

def Line.toList (l : Line) : List (BitVec 32) := [l.a, l.b, l.c, l.d, l.e]

def Line.add (l l' : Line) : Line := ⟨l.a + l'.a, l.b + l'.b, l.c + l'.c, l.d + l'.d, l.e + l'.e⟩

/-- The function of a round. -/
def function (n : Nat) (x y z : BitVec 32) : BitVec 32 :=
  match n with
  | 0 => x ^^^ y ^^^ z
  | 1 => (x &&& y) ||| (~~~x &&& z)
  | 2 => (x ||| ~~~y) ^^^ z
  | 3 => (x &&& z) ||| (y &&& ~~~z)
  | _ => x ^^^ (y ||| ~~~z)

/-- The permutation of the words from a round to the next one. -/
def rho : Vector Nat 16 := #v[7, 4, 13, 1, 10, 6, 15, 3, 12, 0, 9, 5, 2, 14, 11, 8]

/-- The word for a step of round `n`, in the first line and in the second one. -/
def index (n j : Nat) : Nat := (wordAt rho)^[n] j

def index' (n j : Nat) : Nat := (wordAt rho)^[n] ((9 * j + 5) % 16)

/-- The rotation for a word of the block in a round. -/
def shifts : Vector (Vector Nat 16) 5 := #v[
    #v[11, 14, 15, 12, 5, 8, 7, 9, 11, 13, 14, 15, 6, 7, 9, 8],
    #v[12, 13, 11, 15, 6, 9, 9, 7, 12, 15, 11, 13, 7, 8, 7, 7],
    #v[13, 15, 14, 11, 7, 7, 6, 8, 13, 14, 13, 12, 5, 5, 6, 9],
    #v[14, 11, 12, 14, 8, 6, 5, 5, 15, 12, 15, 14, 9, 9, 8, 6],
    #v[15, 12, 13, 13, 9, 5, 8, 6, 14, 11, 12, 11, 8, 6, 5, 5]]

def rotation (n x : Nat) : Nat := wordAt (wordAt shifts n) x

/-- The constant of a round: none in the first one, then the first bits of square roots. -/
def constant (n : Nat) : BitVec 32 :=
  if n = 0 then 0#32 else BitVec.ofNat 32 (root 2 (Sha2.prime (n - 1) * 2 ^ 60) 32)

/-- The constant of a round of the second line, of `rounds`: cube roots, and none in the last one. -/
def constant' (rounds n : Nat) : BitVec 32 :=
  if n + 1 = rounds then 0#32 else BitVec.ofNat 32 (root 3 (Sha2.prime n * 2 ^ 90) 32)

section Rounds

variable (block : Nat → BitVec 32)

/-- A step of a line of five words. -/
def step5 (f : BitVec 32 → BitVec 32 → BitVec 32 → BitVec 32) (x k : BitVec 32) (s : Nat) (l : Line) : Line :=
  ⟨l.e, (l.a + f l.b l.c l.d + x + k).rotateLeft s + l.e, l.b, l.c.rotateLeft 10, l.d⟩

def step4 (f : BitVec 32 → BitVec 32 → BitVec 32 → BitVec 32) (x k : BitVec 32) (s : Nat) (l : Registers) :
    Registers :=
  l.shift ((l.a + f l.b l.c l.d + x + k).rotateLeft s)

/-- The steps of a round: the first line, and the second one, which has the functions in the opposite order. -/
def round {α : Type} (step : (BitVec 32 → BitVec 32 → BitVec 32 → BitVec 32) → BitVec 32 → BitVec 32 → Nat → α → α)
    (rounds n : Nat) (p : α × α) : α × α :=
  ((List.range 16).foldl
      (fun l j => step (function n) (block (index n j)) (constant n) (rotation n (index n j)) l) p.1,
    (List.range 16).foldl (fun l j => step (function (rounds - 1 - n)) (block (index' n j)) (constant' rounds n)
      (rotation n (index' n j)) l) p.2)

def compress160 (H : Line) : Line :=
  let p := (List.range 5).foldl (fun p n => round block step5 5 n p) (H, H)
  ⟨H.b + p.1.c + p.2.d, H.c + p.1.d + p.2.e, H.d + p.1.e + p.2.a, H.e + p.1.a + p.2.b, H.a + p.1.b + p.2.c⟩

def compress128 (H : Registers) : Registers :=
  let p := (List.range 4).foldl (fun p n => round block step4 4 n p) (H, H)
  ⟨H.b + p.1.c + p.2.d, H.c + p.1.d + p.2.a, H.d + p.1.a + p.2.b, H.a + p.1.b + p.2.c⟩

/-- The word that the lines exchange after a round. -/
def exchange5 (n : Nat) (p : Line × Line) : Line × Line :=
  match n with
  | 0 => ({ p.1 with b := p.2.b }, { p.2 with b := p.1.b })
  | 1 => ({ p.1 with d := p.2.d }, { p.2 with d := p.1.d })
  | 2 => ({ p.1 with a := p.2.a }, { p.2 with a := p.1.a })
  | 3 => ({ p.1 with c := p.2.c }, { p.2 with c := p.1.c })
  | _ => ({ p.1 with e := p.2.e }, { p.2 with e := p.1.e })

def exchange4 (n : Nat) (p : Registers × Registers) : Registers × Registers :=
  match n with
  | 0 => ({ p.1 with a := p.2.a }, { p.2 with a := p.1.a })
  | 1 => ({ p.1 with b := p.2.b }, { p.2 with b := p.1.b })
  | 2 => ({ p.1 with c := p.2.c }, { p.2 with c := p.1.c })
  | _ => ({ p.1 with d := p.2.d }, { p.2 with d := p.1.d })

def compress320 (H : Line × Line) : Line × Line :=
  let p := (List.range 5).foldl (fun p n => exchange5 n (round block step5 5 n p)) H
  (H.1.add p.1, H.2.add p.2)

def compress256 (H : Registers × Registers) : Registers × Registers :=
  let p := (List.range 4).foldl (fun p n => exchange4 n (round block step4 4 n p)) H
  (H.1.add p.1, H.2.add p.2)

end Rounds

section Standards

def bytesOf (xs : List (BitVec 32)) : List UInt8 := xs.flatMap fun x => (beBytes 4 x.toNat).reverse

def Line.bytes (l : Line) : List UInt8 := bytesOf l.toList

/-- The words of two lines. -/
def bytes5 (p : Line × Line) : List UInt8 := bytesOf (p.1.toList ++ p.2.toList)

def bytes4 (p : Registers × Registers) : List UInt8 := bytesOf (p.1.toList ++ p.2.toList)

def iv160 : Line := ⟨0x67452301#32, 0xefcdab89#32, 0x98badcfe#32, 0x10325476#32, 0xc3d2e1f0#32⟩

/-- The second line has the first words in the opposite order of their digits. -/
def iv320 : Line × Line :=
  (iv160, ⟨0x76543210#32, 0xfedcba98#32, 0x89abcdef#32, 0x01234567#32, 0x3c2d1e0f#32⟩)

def iv256 : Registers × Registers := (iv, ⟨0x76543210#32, 0xfedcba98#32, 0x89abcdef#32, 0x01234567#32⟩)

/-- The first bytes of the hashes of a message. -/
def ripemd160 (len : Nat) (m : List UInt8) : List UInt8 :=
  (chain padding32 (fun H block => compress160 (wordOf block) H) iv160 m).bytes.take len

def ripemd128 (len : Nat) (m : List UInt8) : List UInt8 :=
  (chain padding32 (fun H block => compress128 (wordOf block) H) iv m).bytes.take len

def ripemd320 (len : Nat) (m : List UInt8) : List UInt8 :=
  (bytes5 (chain padding32 (fun H block => compress320 (wordOf block) H) iv320 m)).take len

def ripemd256 (len : Nat) (m : List UInt8) : List UInt8 :=
  (bytes4 (chain padding32 (fun H block => compress256 (wordOf block) H) iv256 m)).take len

end Standards

/-! ## Loops and rounds -/

section Lines

/-- The tables of the code follow the rules of the standard. -/
theorem tables_eq : ∀ n < 5, ∀ j < 16,
    wordAt r (16 * n + j) = index n j ∧ wordAt s (16 * n + j) = rotation n (index n j) ∧
      wordAt rp (16 * n + j) = index' n j ∧ wordAt sp (16 * n + j) = rotation n (index' n j) := by
  decide +kernel

theorem index_bounds : ∀ n < 5, ∀ j < 16, index n j < 16 ∧ index' n j < 16 := by decide

theorem rotation_bounds : ∀ n < 5, ∀ x < 16, 0 < rotation n x ∧ rotation n x < 32 := by decide

def line (w : Words5) : Line := ⟨w.a.toBitVec, w.b.toBitVec, w.c.toBitVec, w.d.toBitVec, w.e.toBitVec⟩

/-- A function of the code does what a function of the standard does. -/
def Computes (f : UInt32 → UInt32 → UInt32 → UInt32) (n : Nat) : Prop :=
  ∀ x y z, (f x y z).toBitVec = function n x.toBitVec y.toBitVec z.toBitVec

theorem ff_computes : Computes ff 0 := fun _ _ _ => rfl

theorem gg_computes : Computes gg 1 := fun _ _ _ => rfl

theorem hh_computes : Computes hh 2 := fun _ _ _ => rfl

theorem ii_computes : Computes ii 3 := by
  intro x y z
  change (x.toBitVec &&& z.toBitVec) ||| (~~~z.toBitVec &&& y.toBitVec) = _
  rw [BitVec.and_comm (~~~z.toBitVec)]
  rfl

theorem jj_computes : Computes jj 4 := fun _ _ _ => rfl

variable {blk : Block} {block : Nat → BitVec 32} (hblk : ∀ j < 16, (wordAt blk j).toBitVec = block j)
  {f g : UInt32 → UInt32 → UInt32 → UInt32} {k k' : UInt32} {m n i x t : Nat} {R S : Vector Nat 80}
include hblk

/-- The sum that a step rotates. -/
theorem rotateLeft_sum (hf : Computes f m) (hx : x < 16) (ht : 0 < t ∧ t < 32) (hR : wordAt R i = x)
    (hS : wordAt S i = t) (a b c d : UInt32) :
    (rotateLeft (a + f b c d + wordAt blk (wordAt R i) + k) (UInt32.ofNat (wordAt S i))).toBitVec =
      (a.toBitVec + function m b.toBitVec c.toBitVec d.toBitVec + block x + k.toBitVec).rotateLeft t := by
  have hs : (UInt32.ofNat t).toNat = t := UInt32.toNat_ofNat_of_lt' (by change _ < 2 ^ 32; omega)
  rw [hR, hS, rotateLeft_toBitVec _ (by rw [hs]; exact ht.1) (by rw [hs]; exact ht.2), hs, UInt32.toBitVec_add,
    UInt32.toBitVec_add, UInt32.toBitVec_add, hf, hblk x hx]

theorem op_eq (hf : Computes f m) (hx : x < 16) (ht : 0 < t ∧ t < 32) (hR : wordAt R i = x) (hS : wordAt S i = t)
    (w : Words5) : line (op blk f k R S i w) = step5 (function m) (block x) k.toBitVec t (line w) := by
  have hsum := rotateLeft_sum (k := k) hblk hf hx ht hR hS w.a w.b w.c w.d
  have hten : (rotateLeft w.c 10).toBitVec = w.c.toBitVec.rotateLeft 10 :=
    rotateLeft_toBitVec _ (by decide) (by decide)
  refine Line.ext rfl ?_ rfl hten rfl
  change (_ + w.e).toBitVec = _
  rw [UInt32.toBitVec_add, hsum]
  rfl

theorem sop_eq (hf : Computes f m) (hx : x < 16) (ht : 0 < t ∧ t < 32) (hR : wordAt R i = x) (hS : wordAt S i = t)
    (w : Words) : ofWords (sop blk f k R S i w) = step4 (function m) (block x) k.toBitVec t (ofWords w) :=
  Registers.ext rfl (rotateLeft_sum hblk hf hx ht hR hS w.a w.b w.c w.d) rfl rfl

end Lines

section Passes

variable {α β : Type}

/-- Two folds in one loop. -/
theorem foldl_both {ι : Type} (f g : ι → α → α) (is : List ι) (p : α × α) :
    is.foldl (fun p i => (f i p.1, g i p.2)) p =
      (is.foldl (fun a i => f i a) p.1, is.foldl (fun a i => g i a) p.2) := by
  induction is generalizing p with
  | nil => rfl
  | cons i is ih => exact ih _

/-- A loop whose steps are those of a round. -/
theorem loop_round {view : α → β} {f g : Nat → α → α} {block : Nat → BitVec 32}
    {step : (BitVec 32 → BitVec 32 → BitVec 32 → BitVec 32) → BitVec 32 → BitVec 32 → Nat → β → β} {rounds n : Nat}
    (hf : ∀ j < 16, ∀ w, view (f (16 * n + j) w) =
      step (function n) (block (index n j)) (constant n) (rotation n (index n j)) (view w))
    (hg : ∀ j < 16, ∀ w, view (g (16 * n + j) w) =
      step (function (rounds - 1 - n)) (block (index' n j)) (constant' rounds n) (rotation n (index' n j)) (view w))
    (p : α × α) :
    Prod.map view view ((List.range' (16 * n) 16).foldl (fun p i => (f i p.1, g i p.2)) p) =
      round block step rounds n (Prod.map view view p) := by
  rw [foldl_both, List.range'_eq_map_range, List.foldl_map, List.foldl_map, round]
  refine congrArg₂ Prod.mk ?_ ?_
  · apply List.foldl_rel (r := fun w l => view w = l) rfl
    rintro j hj w _ rfl
    exact hf j (List.mem_range.mp hj) w
  · apply List.foldl_rel (r := fun w l => view w = l) rfl
    rintro j hj w _ rfl
    exact hg j (List.mem_range.mp hj) w

end Passes

section Loops

variable {blk : Block} {block : Nat → BitVec 32} (hblk : ∀ j < 16, (wordAt blk j).toBitVec = block j)
  {f g : UInt32 → UInt32 → UInt32 → UInt32} {k k' : UInt32}
include hblk

theorem loop5_eq (n : Nat) (hn : n < 5) (hf : Computes f n) (hg : Computes g (4 - n)) (hk : k.toBitVec = constant n)
    (hk' : k'.toBitVec = constant' 5 n) (p : Words5 × Words5) :
    Prod.map line line (loop5 blk f g k k' (16 * n) p) = round block step5 5 n (Prod.map line line p) := by
  refine loop_round (fun j hj w => ?_) (fun j hj w => ?_) p
  · obtain ⟨hr, hs, -, -⟩ := tables_eq n hn j hj
    obtain ⟨hx, -⟩ := index_bounds n hn j hj
    rw [op_eq hblk hf hx (rotation_bounds n hn _ hx) hr hs, hk]
  · obtain ⟨-, -, hr, hs⟩ := tables_eq n hn j hj
    obtain ⟨-, hx⟩ := index_bounds n hn j hj
    rw [op_eq hblk hg hx (rotation_bounds n hn _ hx) hr hs, hk']

theorem loop4_eq (n : Nat) (hn : n < 4) (hf : Computes f n) (hg : Computes g (3 - n)) (hk : k.toBitVec = constant n)
    (hk' : k'.toBitVec = constant' 4 n) (p : Words × Words) :
    Prod.map ofWords ofWords (loop4 blk f g k k' (16 * n) p) =
      round block step4 4 n (Prod.map ofWords ofWords p) := by
  have hn5 : n < 5 := Nat.lt_succ_of_lt hn
  refine loop_round (fun j hj w => ?_) (fun j hj w => ?_) p
  · obtain ⟨hr, hs, -, -⟩ := tables_eq n hn5 j hj
    obtain ⟨hx, -⟩ := index_bounds n hn5 j hj
    rw [sop_eq hblk hf hx (rotation_bounds n hn5 _ hx) hr hs, hk]
  · obtain ⟨-, -, hr, hs⟩ := tables_eq n hn5 j hj
    obtain ⟨-, hx⟩ := index_bounds n hn5 j hj
    rw [sop_eq hblk hg hx (rotation_bounds n hn5 _ hx) hr hs, hk']

end Loops

section Blocks

/-- The loop of a round. -/
def pass5 (blk : Block) : Nat → Words5 × Words5 → Words5 × Words5
  | 0 => loop5 blk ff jj 0x00000000 0x50a28be6 0
  | 1 => loop5 blk gg ii 0x5a827999 0x5c4dd124 16
  | 2 => loop5 blk hh hh 0x6ed9eba1 0x6d703ef3 32
  | 3 => loop5 blk ii gg 0x8f1bbcdc 0x7a6d76e9 48
  | _ => loop5 blk jj ff 0xa953fd4e 0x00000000 64

def pass4 (blk : Block) : Nat → Words × Words → Words × Words
  | 0 => loop4 blk ff ii 0x00000000 0x50a28be6 0
  | 1 => loop4 blk gg hh 0x5a827999 0x5c4dd124 16
  | 2 => loop4 blk hh gg 0x6ed9eba1 0x6d703ef3 32
  | _ => loop4 blk ii ff 0x8f1bbcdc 0x00000000 48

theorem line_swap5 (n : Nat) (p : Words5 × Words5) :
    Prod.map line line (swap5 n p) = exchange5 n (Prod.map line line p) := by
  rcases n with _ | _ | _ | _ | n <;> rfl

theorem ofWords_swap4 (n : Nat) (p : Words × Words) :
    Prod.map ofWords ofWords (swap4 n p) = exchange4 n (Prod.map ofWords ofWords p) := by
  rcases n with _ | _ | _ | n <;> rfl

/-- The constants of the loops are digits of roots. -/
theorem constants_eq : (0x00000000 : UInt32).toBitVec = constant 0 ∧ (0x5a827999 : UInt32).toBitVec = constant 1 ∧
    (0x6ed9eba1 : UInt32).toBitVec = constant 2 ∧ (0x8f1bbcdc : UInt32).toBitVec = constant 3 ∧
    (0xa953fd4e : UInt32).toBitVec = constant 4 := by
  decide +kernel

/-- Those of the second line. -/
theorem constants'_eq : ∀ rounds ∈ [4, 5], (0x50a28be6 : UInt32).toBitVec = constant' rounds 0 ∧
    (0x5c4dd124 : UInt32).toBitVec = constant' rounds 1 ∧ (0x6d703ef3 : UInt32).toBitVec = constant' rounds 2 ∧
    (if rounds = 5 then (0x7a6d76e9 : UInt32) else 0x00000000).toBitVec = constant' rounds 3 ∧
    (rounds = 5 → (0x00000000 : UInt32).toBitVec = constant' rounds 4) := by
  decide +kernel

variable {blk : Block} {block : Nat → BitVec 32} (hblk : ∀ j < 16, (wordAt blk j).toBitVec = block j)
include hblk

theorem pass5_eq {n : Nat} (hn : n < 5) (p : Words5 × Words5) :
    Prod.map line line (pass5 blk n p) = round block step5 5 n (Prod.map line line p) := by
  obtain ⟨h0, h1, h2, h3, h4⟩ := constants_eq
  obtain ⟨h0', h1', h2', h3', h4'⟩ := constants'_eq 5 (by decide)
  match n, hn with
  | 0, hn => exact loop5_eq hblk 0 hn ff_computes jj_computes h0 h0' p
  | 1, hn => exact loop5_eq hblk 1 hn gg_computes ii_computes h1 h1' p
  | 2, hn => exact loop5_eq hblk 2 hn hh_computes hh_computes h2 h2' p
  | 3, hn => exact loop5_eq hblk 3 hn ii_computes gg_computes h3 h3' p
  | 4, hn => exact loop5_eq hblk 4 hn jj_computes ff_computes h4 (h4' rfl) p

theorem pass4_eq {n : Nat} (hn : n < 4) (p : Words × Words) :
    Prod.map ofWords ofWords (pass4 blk n p) = round block step4 4 n (Prod.map ofWords ofWords p) := by
  obtain ⟨h0, h1, h2, h3, -⟩ := constants_eq
  obtain ⟨h0', h1', h2', h3', -⟩ := constants'_eq 4 (by decide)
  match n, hn with
  | 0, hn => exact loop4_eq hblk 0 hn ff_computes ii_computes h0 h0' p
  | 1, hn => exact loop4_eq hblk 1 hn gg_computes hh_computes h1 h1' p
  | 2, hn => exact loop4_eq hblk 2 hn hh_computes gg_computes h2 h2' p
  | 3, hn => exact loop4_eq hblk 3 hn ii_computes ff_computes h3 h3' p

theorem loops160_eq (p : Words5 × Words5) : Prod.map line line (loops160 blk p) =
    (List.range 5).foldl (fun p n => round block step5 5 n p) (Prod.map line line p) := by
  have hpasses : loops160 blk p = (List.range 5).foldl (fun p n => pass5 blk n p) p := by
    rw [show List.range 5 = [0, 1, 2, 3, 4] from rfl]
    simp only [List.foldl_cons, List.foldl_nil, loops160, pass5]
  rw [hpasses]
  apply List.foldl_rel (r := fun p q => Prod.map line line p = q) rfl
  rintro n hn p _ rfl
  exact pass5_eq hblk (List.mem_range.mp hn) p

theorem loops128_eq (p : Words × Words) : Prod.map ofWords ofWords (loops128 blk p) =
    (List.range 4).foldl (fun p n => round block step4 4 n p) (Prod.map ofWords ofWords p) := by
  have hpasses : loops128 blk p = (List.range 4).foldl (fun p n => pass4 blk n p) p := by
    rw [show List.range 4 = [0, 1, 2, 3] from rfl]
    simp only [List.foldl_cons, List.foldl_nil, loops128, pass4]
  rw [hpasses]
  apply List.foldl_rel (r := fun p q => Prod.map ofWords ofWords p = q) rfl
  rintro n hn p _ rfl
  exact pass4_eq hblk (List.mem_range.mp hn) p

/-- The last exchange is in the additions to `state`. -/
theorem loops320_eq (p : Words5 × Words5) : Prod.map line line (swap5 4 (loops320 blk p)) =
    (List.range 5).foldl (fun p n => exchange5 n (round block step5 5 n p)) (Prod.map line line p) := by
  change Prod.map line line ((List.range 5).foldl (fun p n => swap5 n (pass5 blk n p)) p) = _
  apply List.foldl_rel (r := fun p q => Prod.map line line p = q) rfl
  rintro n hn p _ rfl
  rw [line_swap5, pass5_eq hblk (List.mem_range.mp hn)]

theorem loops256_eq (p : Words × Words) : Prod.map ofWords ofWords (swap4 3 (loops256 blk p)) =
    (List.range 4).foldl (fun p n => exchange4 n (round block step4 4 n p)) (Prod.map ofWords ofWords p) := by
  change Prod.map ofWords ofWords ((List.range 4).foldl (fun p n => swap4 n (pass4 blk n p)) p) = _
  apply List.foldl_rel (r := fun p q => Prod.map ofWords ofWords p = q) rfl
  rintro n hn p _ rfl
  rw [ofWords_swap4, pass4_eq hblk (List.mem_range.mp hn)]

end Blocks

section Compressions

variable (block : List UInt8)

theorem transform160_eq (state : Words5) :
    line (transform160 state block) = compress160 (wordOf block) (line state) := by
  have hloops := loops160_eq (fun j hj => word_eq block hj) (state, state)
  change _ = List.foldl _ (line state, line state) _ at hloops
  rw [compress160, ← hloops]
  rfl

theorem transform128_eq (state : Words) :
    ofWords (transform128 state block) = compress128 (wordOf block) (ofWords state) := by
  have hloops := loops128_eq (fun j hj => word_eq block hj) (state, state)
  change _ = List.foldl _ (ofWords state, ofWords state) _ at hloops
  rw [compress128, ← hloops]
  rfl

theorem transform320_eq (state : Words5 × Words5) :
    Prod.map line line (transform320 state block) = compress320 (wordOf block) (Prod.map line line state) := by
  have hloops := loops320_eq (fun j hj => word_eq block hj) state
  rw [compress320, ← hloops]
  rfl

theorem transform256_eq (state : Words × Words) : Prod.map ofWords ofWords (transform256 state block) =
    compress256 (wordOf block) (Prod.map ofWords ofWords state) := by
  have hloops := loops256_eq (fun j hj => word_eq block hj) state
  rw [compress256, ← hloops]
  rfl

end Compressions

/-! ## Digests -/

section Digests

/-- The words of `m_hash`. -/
def words5 (w : Words5) : Vector UInt32 5 := #v[w.a, w.b, w.c, w.d, w.e]

/-- The algorithm of a class, for its words. -/
def algorithm {σ : Type} {n : Nat} (transform : σ → List UInt8 → σ) (words : σ → Vector UInt32 n) (initial : σ) :
    Algorithm .words32 UInt32 σ n where
  word := word32
  endian := .little
  transform := transform
  words := words
  initial := initial
  padding := padding32
  size_pos := Sha2.size_pos
  lengthFits := lengthFits_template _ _ _

def algorithm160 : Algorithm .words32 UInt32 Words5 5 := algorithm transform160 words5 reset160

def algorithm128 : Algorithm .words32 UInt32 Words 4 := algorithm transform128 words reset128

def algorithm320 : Algorithm .words32 UInt32 (Words5 × Words5) 10 :=
  algorithm transform320 (fun p => words5 p.1 ++ words5 p.2) reset320

def algorithm256 : Algorithm .words32 UInt32 (Words × Words) 8 :=
  algorithm transform256 (fun p => words p.1 ++ words p.2) reset256

open HashClass

/-- The digests of the classes are those of the standard, for every message in fewer than `2 ^ 32` bytes a call. -/
theorem ripemd_digest_eq (N : Endian) {calls : List HashClass.Call} (hcalls : Admissible 64 0 calls)
    (hshort : ∀ c ∈ calls, c.data.length < 2 ^ 32) :
    (∀ {len : Nat} (digest : Buf UInt8 len), len ≤ 20 →
      (algorithm160.hashClass N digest).digest calls = some (ripemd160 len (calls.flatMap HashClass.Call.data))) ∧
    (∀ {len : Nat} (digest : Buf UInt8 len), len ≤ 16 →
      (algorithm128.hashClass N digest).digest calls = some (ripemd128 len (calls.flatMap HashClass.Call.data))) ∧
    (∀ {len : Nat} (digest : Buf UInt8 len), len ≤ 40 →
      (algorithm320.hashClass N digest).digest calls = some (ripemd320 len (calls.flatMap HashClass.Call.data))) ∧
    (∀ {len : Nat} (digest : Buf UInt8 len), len ≤ 32 →
      (algorithm256.hashClass N digest).digest calls = some (ripemd256 len (calls.flatMap HashClass.Call.data))) := by
  refine ⟨fun digest hlen => ?_, fun digest hlen => ?_, fun digest hlen => ?_, fun digest hlen => ?_⟩
  · exact algorithm160.digest_map line (fun H block => compress160 (wordOf block) H) Line.bytes
      (fun s block _ => transform160_eq block s) (fun _ => rfl) N digest hlen hcalls hshort
  · exact algorithm128.digest_map ofWords (fun H block => compress128 (wordOf block) H) Registers.bytes
      (fun s block _ => transform128_eq block s) (fun _ => rfl) N digest hlen hcalls hshort
  · exact algorithm320.digest_map (Prod.map line line) (fun H block => compress320 (wordOf block) H) bytes5
      (fun s block _ => transform320_eq block s) (fun _ => rfl) N digest hlen hcalls hshort
  · exact algorithm256.digest_map (Prod.map ofWords ofWords) (fun H block => compress256 (wordOf block) H) bytes4
      (fun s block _ => transform256_eq block s) (fun _ => rfl) N digest hlen hcalls hshort

/-- The digests of the message abc, in a plain call. -/
theorem ripemd_digest_abc :
    (algorithm160.hashClass .big (Vector.replicate 20 0)).digest [⟨false, [0x61, 0x62, 0x63]⟩] =
      some (ripemd160 20 [0x61, 0x62, 0x63]) ∧
    (algorithm320.hashClass .big (Vector.replicate 40 0)).digest [⟨false, [0x61, 0x62, 0x63]⟩] =
      some (ripemd320 40 [0x61, 0x62, 0x63]) := by
  have hcalls : Admissible 64 0 [⟨false, [0x61, 0x62, 0x63]⟩] :=
    ⟨by decide, fun h => absurd h (by decide), trivial⟩
  obtain ⟨h160, -, h320, -⟩ := ripemd_digest_eq .big hcalls (by simp)
  exact ⟨h160 _ (le_refl 20), h320 _ (le_refl 40)⟩

end Digests

end Drew.Ripemd
