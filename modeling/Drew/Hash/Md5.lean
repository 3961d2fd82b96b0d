import Drew.Field.Sine
import Drew.Hash.Sha.Sha2

/-!
# MD4 and MD5

The functions `Transform` of the classes `MD4` and `MD5`, whose lines are kept as lists, and the two functions as
their standards have them. A line of the code exchanges the names of the registers, where a step of the standard moves
the registers (`run_lines`). The constants of MD5 are digits of sines. The digests are those of the standards
(`md4_digest_eq`, `md5_digest_eq`).
-/

namespace Drew.Md5

open Drew.Memory Drew.StreamCipher Drew.Block Drew.Hash

/-! ## The local variables -/

/-- The local variables `a` to `d`. -/
@[ext] structure Words where
  a : UInt32
  b : UInt32
  c : UInt32
  d : UInt32

/-- The order in which a line names the variables. -/
inductive Order where
  | abcd
  | dabc
  | cdab
  | bcda
  deriving DecidableEq

/-- A macro with the variables in another order. -/
def Order.view (o : Order) (g : Words → Words) (w : Words) : Words :=
  match o with
  | abcd => g w
  | dabc =>
      let r := g ⟨w.d, w.a, w.b, w.c⟩
      ⟨r.b, r.c, r.d, r.a⟩
  | cdab =>
      let r := g ⟨w.c, w.d, w.a, w.b⟩
      ⟨r.c, r.d, r.a, r.b⟩
  | bcda =>
      let r := g ⟨w.b, w.c, w.d, w.a⟩
      ⟨r.d, r.a, r.b, r.c⟩

/-- The additions to `state`. -/
def Words.add (state w : Words) : Words := ⟨state.a + w.a, state.b + w.b, state.c + w.c, state.d + w.d⟩

/-- `Reset` of both classes. -/
def reset : Words := ⟨0x67452301, 0xefcdab89, 0x98badcfe, 0x10325476⟩

/-- The names of the macros. -/
inductive Op where
  | FF
  | GG
  | HH
  | II
  deriving DecidableEq

/-- The words of a block. -/
abbrev Block := Vector UInt32 16

/-! ## MD5 -/

def F (x y z : UInt32) : UInt32 := z ^^^ (x &&& (y ^^^ z))

def G (x y z : UInt32) : UInt32 := F z x y

def H (x y z : UInt32) : UInt32 := x ^^^ y ^^^ z

def I (x y z : UInt32) : UInt32 := y ^^^ (x ||| ~~~z)

/-- The function that a macro gives to `op`. -/
def Op.func : Op → UInt32 → UInt32 → UInt32 → UInt32
  | FF => F
  | GG => G
  | HH => H
  | II => I

/-- `op`. -/
def op (func : UInt32 → UInt32 → UInt32 → UInt32) (blk i s : UInt32) (w : Words) : Words :=
  { w with a := w.b + rotateLeft (w.a + func w.b w.c w.d + blk + i) s }

/-- A line of `Transform`. -/
structure Line where
  op : Op
  order : Order
  k : Nat
  s : UInt32
  i : UInt32
  deriving DecidableEq

def lines : List Line := [
    ⟨.FF, .abcd, 0, 7, 0xd76aa478⟩, ⟨.FF, .dabc, 1, 12, 0xe8c7b756⟩,
    ⟨.FF, .cdab, 2, 17, 0x242070db⟩, ⟨.FF, .bcda, 3, 22, 0xc1bdceee⟩,
    ⟨.FF, .abcd, 4, 7, 0xf57c0faf⟩, ⟨.FF, .dabc, 5, 12, 0x4787c62a⟩,
    ⟨.FF, .cdab, 6, 17, 0xa8304613⟩, ⟨.FF, .bcda, 7, 22, 0xfd469501⟩,
    ⟨.FF, .abcd, 8, 7, 0x698098d8⟩, ⟨.FF, .dabc, 9, 12, 0x8b44f7af⟩,
    ⟨.FF, .cdab, 10, 17, 0xffff5bb1⟩, ⟨.FF, .bcda, 11, 22, 0x895cd7be⟩,
    ⟨.FF, .abcd, 12, 7, 0x6b901122⟩, ⟨.FF, .dabc, 13, 12, 0xfd987193⟩,
    ⟨.FF, .cdab, 14, 17, 0xa679438e⟩, ⟨.FF, .bcda, 15, 22, 0x49b40821⟩,
    ⟨.GG, .abcd, 1, 5, 0xf61e2562⟩, ⟨.GG, .dabc, 6, 9, 0xc040b340⟩,
    ⟨.GG, .cdab, 11, 14, 0x265e5a51⟩, ⟨.GG, .bcda, 0, 20, 0xe9b6c7aa⟩,
    ⟨.GG, .abcd, 5, 5, 0xd62f105d⟩, ⟨.GG, .dabc, 10, 9, 0x02441453⟩,
    ⟨.GG, .cdab, 15, 14, 0xd8a1e681⟩, ⟨.GG, .bcda, 4, 20, 0xe7d3fbc8⟩,
    ⟨.GG, .abcd, 9, 5, 0x21e1cde6⟩, ⟨.GG, .dabc, 14, 9, 0xc33707d6⟩,
    ⟨.GG, .cdab, 3, 14, 0xf4d50d87⟩, ⟨.GG, .bcda, 8, 20, 0x455a14ed⟩,
    ⟨.GG, .abcd, 13, 5, 0xa9e3e905⟩, ⟨.GG, .dabc, 2, 9, 0xfcefa3f8⟩,
    ⟨.GG, .cdab, 7, 14, 0x676f02d9⟩, ⟨.GG, .bcda, 12, 20, 0x8d2a4c8a⟩,
    ⟨.HH, .abcd, 5, 4, 0xfffa3942⟩, ⟨.HH, .dabc, 8, 11, 0x8771f681⟩,
    ⟨.HH, .cdab, 11, 16, 0x6d9d6122⟩, ⟨.HH, .bcda, 14, 23, 0xfde5380c⟩,
    ⟨.HH, .abcd, 1, 4, 0xa4beea44⟩, ⟨.HH, .dabc, 4, 11, 0x4bdecfa9⟩,
    ⟨.HH, .cdab, 7, 16, 0xf6bb4b60⟩, ⟨.HH, .bcda, 10, 23, 0xbebfbc70⟩,
    ⟨.HH, .abcd, 13, 4, 0x289b7ec6⟩, ⟨.HH, .dabc, 0, 11, 0xeaa127fa⟩,
    ⟨.HH, .cdab, 3, 16, 0xd4ef3085⟩, ⟨.HH, .bcda, 6, 23, 0x04881d05⟩,
    ⟨.HH, .abcd, 9, 4, 0xd9d4d039⟩, ⟨.HH, .dabc, 12, 11, 0xe6db99e5⟩,
    ⟨.HH, .cdab, 15, 16, 0x1fa27cf8⟩, ⟨.HH, .bcda, 2, 23, 0xc4ac5665⟩,
    ⟨.II, .abcd, 0, 6, 0xf4292244⟩, ⟨.II, .dabc, 7, 10, 0x432aff97⟩,
    ⟨.II, .cdab, 14, 15, 0xab9423a7⟩, ⟨.II, .bcda, 5, 21, 0xfc93a039⟩,
    ⟨.II, .abcd, 12, 6, 0x655b59c3⟩, ⟨.II, .dabc, 3, 10, 0x8f0ccc92⟩,
    ⟨.II, .cdab, 10, 15, 0xffeff47d⟩, ⟨.II, .bcda, 1, 21, 0x85845dd1⟩,
    ⟨.II, .abcd, 8, 6, 0x6fa87e4f⟩, ⟨.II, .dabc, 15, 10, 0xfe2ce6e0⟩,
    ⟨.II, .cdab, 6, 15, 0xa3014314⟩, ⟨.II, .bcda, 13, 21, 0x4e0811a1⟩,
    ⟨.II, .abcd, 4, 6, 0xf7537e82⟩, ⟨.II, .dabc, 11, 10, 0xbd3af235⟩,
    ⟨.II, .cdab, 2, 15, 0x2ad7d2bb⟩, ⟨.II, .bcda, 9, 21, 0xeb86d391⟩]

def Line.run (blk : Block) (w : Words) (l : Line) : Words :=
  l.order.view (Md5.op l.op.func (wordAt blk l.k) l.i l.s) w

/-- `MD5::Transform`. -/
def transform (state : Words) (block : List UInt8) : Words :=
  state.add (lines.foldl (Line.run (copyIn word32 .little 16 block)) state)

/-! ## MD4 -/

namespace Md4

def F (x y z : UInt32) : UInt32 := z ^^^ (x &&& (y ^^^ z))

def G (x y z : UInt32) : UInt32 := (x &&& y) ||| (z &&& (x ||| y))

def H (x y z : UInt32) : UInt32 := x ^^^ y ^^^ z

/-- The names of the macros. -/
inductive Op where
  | FF
  | GG
  | HH
  deriving DecidableEq

/-- The function and the number that a macro gives to `OP`. -/
def Op.func : Op → UInt32 → UInt32 → UInt32 → UInt32
  | FF => F
  | GG => G
  | HH => H

def Op.x : Op → UInt32
  | FF => 0
  | GG => 0x5a827999
  | HH => 0x6ed9eba1

/-- A line of `Transform`. -/
structure Line where
  op : Op
  order : Order
  k : Nat
  s : UInt32
  deriving DecidableEq

def lines : List Line := [
    ⟨.FF, .abcd, 0, 3⟩, ⟨.FF, .dabc, 1, 7⟩, ⟨.FF, .cdab, 2, 11⟩, ⟨.FF, .bcda, 3, 19⟩,
    ⟨.FF, .abcd, 4, 3⟩, ⟨.FF, .dabc, 5, 7⟩, ⟨.FF, .cdab, 6, 11⟩, ⟨.FF, .bcda, 7, 19⟩,
    ⟨.FF, .abcd, 8, 3⟩, ⟨.FF, .dabc, 9, 7⟩, ⟨.FF, .cdab, 10, 11⟩, ⟨.FF, .bcda, 11, 19⟩,
    ⟨.FF, .abcd, 12, 3⟩, ⟨.FF, .dabc, 13, 7⟩, ⟨.FF, .cdab, 14, 11⟩, ⟨.FF, .bcda, 15, 19⟩,
    ⟨.GG, .abcd, 0, 3⟩, ⟨.GG, .dabc, 4, 5⟩, ⟨.GG, .cdab, 8, 9⟩, ⟨.GG, .bcda, 12, 13⟩,
    ⟨.GG, .abcd, 1, 3⟩, ⟨.GG, .dabc, 5, 5⟩, ⟨.GG, .cdab, 9, 9⟩, ⟨.GG, .bcda, 13, 13⟩,
    ⟨.GG, .abcd, 2, 3⟩, ⟨.GG, .dabc, 6, 5⟩, ⟨.GG, .cdab, 10, 9⟩, ⟨.GG, .bcda, 14, 13⟩,
    ⟨.GG, .abcd, 3, 3⟩, ⟨.GG, .dabc, 7, 5⟩, ⟨.GG, .cdab, 11, 9⟩, ⟨.GG, .bcda, 15, 13⟩,
    ⟨.HH, .abcd, 0, 3⟩, ⟨.HH, .dabc, 8, 9⟩, ⟨.HH, .cdab, 4, 11⟩, ⟨.HH, .bcda, 12, 15⟩,
    ⟨.HH, .abcd, 2, 3⟩, ⟨.HH, .dabc, 10, 9⟩, ⟨.HH, .cdab, 6, 11⟩, ⟨.HH, .bcda, 14, 15⟩,
    ⟨.HH, .abcd, 1, 3⟩, ⟨.HH, .dabc, 9, 9⟩, ⟨.HH, .cdab, 5, 11⟩, ⟨.HH, .bcda, 13, 15⟩,
    ⟨.HH, .abcd, 3, 3⟩, ⟨.HH, .dabc, 11, 9⟩, ⟨.HH, .cdab, 7, 11⟩, ⟨.HH, .bcda, 15, 15⟩]

/-- `OP`. -/
def op (f : UInt32 → UInt32 → UInt32 → UInt32) (blk s x : UInt32) (w : Words) : Words :=
  { w with a := rotateLeft (w.a + f w.b w.c w.d + blk + x) s }

def Line.run (blk : Block) (w : Words) (l : Line) : Words :=
  l.order.view (Md4.op l.op.func (wordAt blk l.k) l.s l.op.x) w

/-- `MD4::Transform`. -/
def transform (state : Words) (block : List UInt8) : Words :=
  state.add (lines.foldl (Line.run (copyIn word32 .little 16 block)) state)

end Md4

/-! ## The standards -/

/-- The state of a computation. -/
@[ext] structure Registers where
  a : BitVec 32
  b : BitVec 32
  c : BitVec 32
  d : BitVec 32

namespace Registers

def toList (r : Registers) : List (BitVec 32) := [r.a, r.b, r.c, r.d]

def bytes (r : Registers) : List UInt8 := r.toList.flatMap fun x => (beBytes 4 x.toNat).reverse

def add (r s : Registers) : Registers := ⟨r.a + s.a, r.b + s.b, r.c + s.c, r.d + s.d⟩

/-- The registers move by one place, and there is a new one. -/
def shift (r : Registers) (x : BitVec 32) : Registers := ⟨r.d, x, r.b, r.c⟩

end Registers

/-- A word of a block. Its first byte is the lowest. -/
def wordOf (block : List UInt8) (j : Nat) : BitVec 32 :=
  BitVec.ofNat 32 (beNat ((block.drop (4 * j)).take 4).reverse)

def iv : Registers := ⟨0x67452301#32, 0xefcdab89#32, 0x98badcfe#32, 0x10325476#32⟩

/-- The padding of the classes whose words have the lowest byte first. -/
abbrev padding32 : Padding .words32 := .template .words32 false Sha2.words32_fits

/-- The first bytes of the hash of a message, for some steps with the words of a block. -/
def standard (steps : (Nat → BitVec 32) → Registers → Registers) (len : Nat) (m : List UInt8) : List UInt8 :=
  (chain padding32 (fun r block => r.add (steps (wordOf block) r)) iv m).bytes.take len

section Standard

/-- The function of a step of MD5. -/
def function (t : Nat) (x y z : BitVec 32) : BitVec 32 :=
  if t < 16 then (x &&& y) ||| (~~~x &&& z)
  else if t < 32 then (x &&& z) ||| (y &&& ~~~z)
  else if t < 48 then x ^^^ y ^^^ z
  else y ^^^ (x ||| ~~~z)

/-- The word of the block. -/
def index (t : Nat) : Nat :=
  if t < 16 then t else if t < 32 then (5 * t + 1) % 16 else if t < 48 then (3 * t + 5) % 16 else 7 * t % 16

/-- The rotations of the four rounds. -/
def rotation (t : Nat) : Nat :=
  ([[7, 12, 17, 22], [5, 9, 14, 20], [4, 11, 16, 23], [6, 10, 15, 21]].getD (t / 16) []).getD (t % 4) 0

/-- The constant of a step: the first bits of a sine. -/
noncomputable def constant (t : Nat) : BitVec 32 := BitVec.ofNat 32 ⌊2 ^ 32 * |Real.sin ↑(t + 1)|⌋₊

noncomputable def step (block : Nat → BitVec 32) (r : Registers) (t : Nat) : Registers :=
  r.shift (r.b + (r.a + function t r.b r.c r.d + block (index t) + constant t).rotateLeft (rotation t))

noncomputable def md5 (len : Nat) (m : List UInt8) : List UInt8 :=
  standard (fun block r => (List.range 64).foldl (step block) r) len m

namespace Md4

/-- The function of a step of MD4. -/
def function (t : Nat) (x y z : BitVec 32) : BitVec 32 :=
  if t < 16 then (x &&& y) ||| (~~~x &&& z)
  else if t < 32 then (x &&& y) ||| (x &&& z) ||| (y &&& z)
  else x ^^^ y ^^^ z

/-- The word of the block: in rows, in columns, and with the bits of the number in the opposite order. -/
def index (t : Nat) : Nat :=
  if t < 16 then t else if t < 32 then 4 * (t % 4) + t % 16 / 4
  else 8 * (t % 2) + 4 * (t / 2 % 2) + 2 * (t / 4 % 2) + t / 8 % 2

def rotation (t : Nat) : Nat :=
  ([[3, 7, 11, 19], [3, 5, 9, 13], [3, 9, 11, 15]].getD (t / 16) []).getD (t % 4) 0

/-- The constant of a step: none, or the first bits of the square root of 2 or 3. -/
def constant (t : Nat) : BitVec 32 :=
  if t < 16 then 0#32 else BitVec.ofNat 32 (root 2 ((if t < 32 then 2 else 3) * 2 ^ 60) 32)

def step (block : Nat → BitVec 32) (r : Registers) (t : Nat) : Registers :=
  r.shift ((r.a + function t r.b r.c r.d + block (index t) + constant t).rotateLeft (rotation t))

def md4 (len : Nat) (m : List UInt8) : List UInt8 :=
  standard (fun block r => (List.range 48).foldl (step block) r) len m

end Md4

end Standard

/-! ## Lines and steps -/

section Turns

/-- The order of a line. -/
def orderOf (t : Nat) : Order :=
  match t % 4 with
  | 0 => .abcd
  | 1 => .dabc
  | 2 => .cdab
  | _ => .bcda

def turn (w : Words) : Words := ⟨w.d, w.a, w.b, w.c⟩

/-- The variables as a line names them. -/
def Order.turns : Order → Words → Words
  | abcd, w => w
  | dabc, w => turn w
  | cdab, w => turn (turn w)
  | bcda, w => turn (turn (turn w))

theorem turns_view (t : Nat) (g : Words → Words) (w : Words) :
    (orderOf (t + 1)).turns ((orderOf t).view g w) = turn (g ((orderOf t).turns w)) := by
  have hcases : t % 4 = 0 ∨ t % 4 = 1 ∨ t % 4 = 2 ∨ t % 4 = 3 := by omega
  unfold orderOf
  rcases hcases with h | h | h | h
  · rw [h, show (t + 1) % 4 = 1 by omega]
    rfl
  · rw [h, show (t + 1) % 4 = 2 by omega]
    rfl
  · rw [h, show (t + 1) % 4 = 3 by omega]
    rfl
  · rw [h, show (t + 1) % 4 = 0 by omega]
    rfl

/-- Lines that name the variables in turn are steps that move the registers. -/
theorem run_lines (g : Nat → Words → Words) (w : Words) (n : Nat) :
    (orderOf n).turns ((List.range n).foldl (fun w t => (orderOf t).view (g t) w) w) =
      (List.range n).foldl (fun w t => turn (g t w)) w := by
  induction n with
  | zero => rfl
  | succ n ih =>
    rw [List.range_succ, List.foldl_append, List.foldl_append, List.foldl_cons, List.foldl_nil, List.foldl_cons,
      List.foldl_nil, turns_view, ih]

end Turns

/-! ## Digests -/

section Digests

def ofWords (w : Words) : Registers := ⟨w.a.toBitVec, w.b.toBitVec, w.c.toBitVec, w.d.toBitVec⟩

/-- The words of `m_hash`. -/
def words (w : Words) : Vector UInt32 4 := #v[w.a, w.b, w.c, w.d]

/-- The two classes, with their `Transform`. -/
def algorithm (transform : Words → List UInt8 → Words) : Algorithm .words32 UInt32 Words 4 where
  word := word32
  endian := .little
  transform := transform
  words := words
  initial := reset
  padding := padding32
  size_pos := Sha2.size_pos
  lengthFits := lengthFits_template _ _ _

/-- A word that the code reads from a block. -/
theorem word_eq (block : List UInt8) {j : Nat} (hj : j < 16) :
    (wordAt (copyIn word32 .little 16 block) j).toBitVec = wordOf block j := by
  rw [copyIn, wordAt_ofFn, show (Fin.ofNat 16 j).val = j from Nat.mod_eq_of_lt hj]
  rfl

variable {transform : Words → List UInt8 → Words} {steps : (Nat → BitVec 32) → Registers → Registers}
  (h : ∀ s block, ofWords (transform s block) = (ofWords s).add (steps (wordOf block) (ofWords s)))
include h

open HashClass in
theorem digest_eq (N : Endian) {len : Nat} (digest : Buf UInt8 len) (hlen : len ≤ 16) {calls : List HashClass.Call}
    (hcalls : Admissible 64 0 calls) (hshort : ∀ c ∈ calls, c.data.length < 2 ^ 32) :
    ((algorithm transform).hashClass N digest).digest calls =
      some (standard steps len (calls.flatMap HashClass.Call.data)) := by
  exact (algorithm transform).digest_map ofWords (fun r block => r.add (steps (wordOf block) r)) Registers.bytes
    (fun s block _ => h s block) (fun _ => rfl) N digest hlen hcalls hshort

end Digests

/-! ## The steps of MD5 -/

section Steps

open Sine

/-- The constants of the code. -/
def sines : List Nat := lines.map fun l => l.i.toNat

/-- The macro of a line. -/
def opOf (t : Nat) : Op := if t < 16 then .FF else if t < 32 then .GG else if t < 48 then .HH else .II

/-- The lines of the code follow the rules of the standard. -/
theorem lines_eq : lines = (List.range 64).map fun t =>
    ⟨opOf t, orderOf t, index t, UInt32.ofNat (rotation t), UInt32.ofNat (sines.getD t 0)⟩ := rfl

theorem sines_digits : ∀ t < 64, Digits (2 ^ 32) (t + 1) (3 * t + 32) (sines.getD t 0) := by
  decide +kernel

/-- The constants of the code are those of the standard. -/
theorem constant_eq {t : Nat} (ht : t < 64) : (UInt32.ofNat (sines.getD t 0)).toBitVec = constant t := by
  have hfloor := floor_sin (by omega) (sines_digits t ht)
  rw [Nat.cast_pow, Nat.cast_ofNat] at hfloor
  rw [constant, hfloor]
  rfl

theorem rotation_bounds : ∀ t < 64, 0 < rotation t ∧ rotation t < 32 := by decide

theorem index_lt : ∀ t < 64, index t < 16 := by decide

theorem selection_eq (x y z : BitVec 32) : z ^^^ (x &&& (y ^^^ z)) = (x &&& y) ||| (~~~x &&& z) := by
  ext i hi
  simp only [BitVec.getElem_xor, BitVec.getElem_and, BitVec.getElem_or, BitVec.getElem_not]
  cases x[i] <;> cases y[i] <;> cases z[i] <;> rfl

theorem selection_eq' (x y z : BitVec 32) : y ^^^ (z &&& (x ^^^ y)) = (x &&& z) ||| (y &&& ~~~z) := by
  ext i hi
  simp only [BitVec.getElem_xor, BitVec.getElem_and, BitVec.getElem_or, BitVec.getElem_not]
  cases x[i] <;> cases y[i] <;> cases z[i] <;> rfl

theorem func_eq (t : Nat) (x y z : UInt32) :
    ((opOf t).func x y z).toBitVec = function t x.toBitVec y.toBitVec z.toBitVec := by
  unfold opOf function
  split_ifs
  · exact selection_eq _ _ _
  · exact selection_eq' _ _ _
  · rfl
  · rfl

/-- A line of the code makes a step of the standard. -/
theorem step_eq {t : Nat} (ht : t < 64) {blk : Block} {block : Nat → BitVec 32}
    (hblk : ∀ j < 16, (wordAt blk j).toBitVec = block j) (w : Words) :
    ofWords (turn (op (opOf t).func (wordAt blk (index t)) (UInt32.ofNat (sines.getD t 0))
      (UInt32.ofNat (rotation t)) w)) = step block (ofWords w) t := by
  obtain ⟨hpos, hlt⟩ := rotation_bounds t ht
  have hs : (UInt32.ofNat (rotation t)).toNat = rotation t := UInt32.toNat_ofNat_of_lt' (by change _ < 2 ^ 32; omega)
  have hsum : (w.a + (opOf t).func w.b w.c w.d + wordAt blk (index t) + UInt32.ofNat (sines.getD t 0)).toBitVec =
      w.a.toBitVec + function t w.b.toBitVec w.c.toBitVec w.d.toBitVec + block (index t) + constant t := by
    rw [UInt32.toBitVec_add, UInt32.toBitVec_add, UInt32.toBitVec_add, func_eq, hblk _ (index_lt t ht), constant_eq ht]
  refine Registers.ext rfl ?_ rfl rfl
  change (w.b + rotateLeft _ _).toBitVec = _
  rw [UInt32.toBitVec_add, rotateLeft_toBitVec _ (by rwa [hs]) (by rwa [hs]), hs, hsum]
  rfl

theorem transform_eq (s : Words) (block : List UInt8) : ofWords (transform s block) =
    (ofWords s).add ((List.range 64).foldl (step (wordOf block)) (ofWords s)) := by
  have hadd : ∀ s w : Words, ofWords (s.add w) = (ofWords s).add (ofWords w) := fun _ _ => rfl
  have hturns := run_lines (fun t => op (opOf t).func (wordAt (copyIn word32 .little 16 block) (index t))
    (UInt32.ofNat (sines.getD t 0)) (UInt32.ofNat (rotation t))) s 64
  rw [transform, hadd, lines_eq, List.foldl_map]
  refine congrArg (ofWords s).add ?_
  refine (congrArg ofWords hturns).trans ?_
  apply List.foldl_rel (r := fun w r => ofWords w = r) rfl
  rintro t ht w _ rfl
  exact step_eq (List.mem_range.mp ht) (fun j hj => word_eq block hj) w

open HashClass

/-- The digests of the class `MD5` are those of the standard, for every message in fewer than `2 ^ 32` bytes a call. -/
theorem md5_digest_eq (N : Endian) {len : Nat} (digest : Buf UInt8 len) (hlen : len ≤ 16)
    {calls : List HashClass.Call} (hcalls : Admissible 64 0 calls) (hshort : ∀ c ∈ calls, c.data.length < 2 ^ 32) :
    ((algorithm transform).hashClass N digest).digest calls = some (md5 len (calls.flatMap HashClass.Call.data)) :=
  digest_eq transform_eq N digest hlen hcalls hshort

/-- The digest of the message abc, in a plain call. -/
theorem md5_digest_abc :
    ((algorithm transform).hashClass .big (Vector.replicate 16 0)).digest [⟨false, [0x61, 0x62, 0x63]⟩] =
      some (md5 16 [0x61, 0x62, 0x63]) := by
  have hcalls : Admissible 64 0 [⟨false, [0x61, 0x62, 0x63]⟩] :=
    ⟨by decide, fun h => absurd h (by decide), trivial⟩
  exact md5_digest_eq .big (Vector.replicate 16 0) (le_refl 16) hcalls (by simp)

end Steps

/-! ## The steps of MD4 -/

namespace Md4

/-- The macro of a line. -/
def opOf (t : Nat) : Op := if t < 16 then .FF else if t < 32 then .GG else .HH

/-- The lines of the code follow the rules of the standard. -/
theorem lines_eq : lines = (List.range 48).map fun t =>
    ⟨opOf t, orderOf t, index t, UInt32.ofNat (rotation t)⟩ := rfl

theorem constant_eq (t : Nat) : ((opOf t).x).toBitVec = constant t := by
  have hroots : (0x5a827999 : UInt32).toBitVec = BitVec.ofNat 32 (root 2 (2 * 2 ^ 60) 32) ∧
      (0x6ed9eba1 : UInt32).toBitVec = BitVec.ofNat 32 (root 2 (3 * 2 ^ 60) 32) := by decide +kernel
  unfold opOf constant
  split_ifs
  · rfl
  · exact hroots.1
  · exact hroots.2

theorem rotation_bounds : ∀ t < 48, 0 < rotation t ∧ rotation t < 32 := by decide

theorem index_lt : ∀ t < 48, index t < 16 := by decide

theorem majority_eq (x y z : BitVec 32) :
    (x &&& y) ||| (z &&& (x ||| y)) = (x &&& y) ||| (x &&& z) ||| (y &&& z) := by
  ext i hi
  simp only [BitVec.getElem_and, BitVec.getElem_or]
  cases x[i] <;> cases y[i] <;> cases z[i] <;> rfl

theorem func_eq (t : Nat) (x y z : UInt32) :
    ((opOf t).func x y z).toBitVec = function t x.toBitVec y.toBitVec z.toBitVec := by
  unfold opOf function
  split_ifs
  · exact selection_eq _ _ _
  · exact majority_eq _ _ _
  · rfl

/-- A line of the code makes a step of the standard. -/
theorem step_eq {t : Nat} (ht : t < 48) {blk : Block} {block : Nat → BitVec 32}
    (hblk : ∀ j < 16, (wordAt blk j).toBitVec = block j) (w : Words) :
    ofWords (turn (op (opOf t).func (wordAt blk (index t)) (UInt32.ofNat (rotation t)) (opOf t).x w)) =
      step block (ofWords w) t := by
  obtain ⟨hpos, hlt⟩ := rotation_bounds t ht
  have hs : (UInt32.ofNat (rotation t)).toNat = rotation t := UInt32.toNat_ofNat_of_lt' (by change _ < 2 ^ 32; omega)
  have hsum : (w.a + (opOf t).func w.b w.c w.d + wordAt blk (index t) + (opOf t).x).toBitVec =
      w.a.toBitVec + function t w.b.toBitVec w.c.toBitVec w.d.toBitVec + block (index t) + constant t := by
    rw [UInt32.toBitVec_add, UInt32.toBitVec_add, UInt32.toBitVec_add, func_eq, hblk _ (index_lt t ht), constant_eq]
  refine Registers.ext rfl ?_ rfl rfl
  change (rotateLeft _ _).toBitVec = _
  rw [rotateLeft_toBitVec _ (by rwa [hs]) (by rwa [hs]), hs, hsum]
  rfl

theorem transform_eq (s : Words) (block : List UInt8) : ofWords (transform s block) =
    (ofWords s).add ((List.range 48).foldl (step (wordOf block)) (ofWords s)) := by
  have hadd : ∀ s w : Words, ofWords (s.add w) = (ofWords s).add (ofWords w) := fun _ _ => rfl
  have hturns := run_lines (fun t => op (opOf t).func (wordAt (copyIn word32 .little 16 block) (index t))
    (UInt32.ofNat (rotation t)) (opOf t).x) s 48
  rw [transform, hadd, lines_eq, List.foldl_map]
  refine congrArg (ofWords s).add ?_
  refine (congrArg ofWords hturns).trans ?_
  apply List.foldl_rel (r := fun w r => ofWords w = r) rfl
  rintro t ht w _ rfl
  exact step_eq (List.mem_range.mp ht) (fun j hj => word_eq block hj) w

open HashClass

/-- The digests of the class `MD4` are those of the standard, for every message in fewer than `2 ^ 32` bytes a call. -/
theorem md4_digest_eq (N : Endian) {len : Nat} (digest : Buf UInt8 len) (hlen : len ≤ 16)
    {calls : List HashClass.Call} (hcalls : Admissible 64 0 calls) (hshort : ∀ c ∈ calls, c.data.length < 2 ^ 32) :
    ((algorithm transform).hashClass N digest).digest calls = some (md4 len (calls.flatMap HashClass.Call.data)) :=
  digest_eq transform_eq N digest hlen hcalls hshort

/-- The digest of the message abc, in a plain call. -/
theorem md4_digest_abc :
    ((algorithm transform).hashClass .big (Vector.replicate 16 0)).digest [⟨false, [0x61, 0x62, 0x63]⟩] =
      some (md4 16 [0x61, 0x62, 0x63]) := by
  have hcalls : Admissible 64 0 [⟨false, [0x61, 0x62, 0x63]⟩] :=
    ⟨by decide, fun h => absurd h (by decide), trivial⟩
  exact md4_digest_eq .big (Vector.replicate 16 0) (le_refl 16) hcalls (by simp)

end Md4

end Drew.Md5
