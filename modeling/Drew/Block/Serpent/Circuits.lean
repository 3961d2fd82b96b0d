import Mathlib.Tactic

/-!
# The substitutions of Serpent

The circuits `s0` to `s7` and `si0` to `si7` are made of operations on the bits of words, each bit
position by itself. They are written for any type that has these operations, so that a circuit on
words of 32 bits is the same circuit on single bits, 32 times. On single bits there are sixteen inputs.
-/

namespace Drew.Serpent

/-- The operations that a circuit is made of. -/
class BitOps (α : Type) extends XorOp α, AndOp α, OrOp α, Complement α

instance : BitOps UInt32 where

instance : BitOps Bool where
  xor := Bool.xor
  and := Bool.and
  or := Bool.or
  complement := Bool.not

/-- An array of four words. -/
@[ext] structure Words (α : Type) where
  x0 : α
  x1 : α
  x2 : α
  x3 : α
  deriving DecidableEq

/-- A function at each of the words. -/
def Words.map {α β : Type} (g : α → β) (x : Words α) : Words β := ⟨g x.x0, g x.x1, g x.x2, g x.x3⟩

section Circuits

variable {α : Type} [BitOps α]

def s0 (x : Words α) : Words α :=
  let ⟨r0, r1, r2, r3⟩ := x
  let r3 := r3 ^^^ r0
  let r4 := r1
  let r1 := r1 &&& r3
  let r4 := r4 ^^^ r2
  let r1 := r1 ^^^ r0
  let r0 := r0 ||| r3
  let r0 := r0 ^^^ r4
  let r4 := r4 ^^^ r3
  let r3 := r3 ^^^ r2
  let r2 := r2 ||| r1
  let r2 := r2 ^^^ r4
  let r4 := ~~~r4
  let r4 := r4 ||| r1
  let r1 := r1 ^^^ r3
  let r1 := r1 ^^^ r4
  let r3 := r3 ||| r0
  let r1 := r1 ^^^ r3
  let r4 := r4 ^^^ r3
  ⟨r1, r4, r2, r0⟩

def s1 (x : Words α) : Words α :=
  let ⟨r0, r1, r2, r3⟩ := x
  let r0 := ~~~r0
  let r2 := ~~~r2
  let r4 := r0
  let r0 := r0 &&& r1
  let r2 := r2 ^^^ r0
  let r0 := r0 ||| r3
  let r3 := r3 ^^^ r2
  let r1 := r1 ^^^ r0
  let r0 := r0 ^^^ r4
  let r4 := r4 ||| r1
  let r1 := r1 ^^^ r3
  let r2 := r2 ||| r0
  let r2 := r2 &&& r4
  let r0 := r0 ^^^ r1
  let r1 := r1 &&& r2
  let r1 := r1 ^^^ r0
  let r0 := r0 &&& r2
  let r0 := r0 ^^^ r4
  ⟨r2, r0, r3, r1⟩

def s2 (x : Words α) : Words α :=
  let ⟨r0, r1, r2, r3⟩ := x
  let r4 := r0
  let r0 := r0 &&& r2
  let r0 := r0 ^^^ r3
  let r2 := r2 ^^^ r1
  let r2 := r2 ^^^ r0
  let r3 := r3 ||| r4
  let r3 := r3 ^^^ r1
  let r4 := r4 ^^^ r2
  let r1 := r3
  let r3 := r3 ||| r4
  let r3 := r3 ^^^ r0
  let r0 := r0 &&& r1
  let r4 := r4 ^^^ r0
  let r1 := r1 ^^^ r3
  let r1 := r1 ^^^ r4
  let r4 := ~~~r4
  ⟨r2, r3, r1, r4⟩

def s3 (x : Words α) : Words α :=
  let ⟨r0, r1, r2, r3⟩ := x
  let r4 := r0
  let r0 := r0 ||| r3
  let r3 := r3 ^^^ r1
  let r1 := r1 &&& r4
  let r4 := r4 ^^^ r2
  let r2 := r2 ^^^ r3
  let r3 := r3 &&& r0
  let r4 := r4 ||| r1
  let r3 := r3 ^^^ r4
  let r0 := r0 ^^^ r1
  let r4 := r4 &&& r0
  let r1 := r1 ^^^ r3
  let r4 := r4 ^^^ r2
  let r1 := r1 ||| r0
  let r1 := r1 ^^^ r2
  let r0 := r0 ^^^ r3
  let r2 := r1
  let r1 := r1 ||| r3
  let r1 := r1 ^^^ r0
  ⟨r1, r2, r3, r4⟩

def s4 (x : Words α) : Words α :=
  let ⟨r0, r1, r2, r3⟩ := x
  let r1 := r1 ^^^ r3
  let r3 := ~~~r3
  let r2 := r2 ^^^ r3
  let r3 := r3 ^^^ r0
  let r4 := r1
  let r1 := r1 &&& r3
  let r1 := r1 ^^^ r2
  let r4 := r4 ^^^ r3
  let r0 := r0 ^^^ r4
  let r2 := r2 &&& r4
  let r2 := r2 ^^^ r0
  let r0 := r0 &&& r1
  let r3 := r3 ^^^ r0
  let r4 := r4 ||| r1
  let r4 := r4 ^^^ r0
  let r0 := r0 ||| r3
  let r0 := r0 ^^^ r2
  let r2 := r2 &&& r3
  let r0 := ~~~r0
  let r4 := r4 ^^^ r2
  ⟨r1, r4, r0, r3⟩

def s5 (x : Words α) : Words α :=
  let ⟨r0, r1, r2, r3⟩ := x
  let r0 := r0 ^^^ r1
  let r1 := r1 ^^^ r3
  let r3 := ~~~r3
  let r4 := r1
  let r1 := r1 &&& r0
  let r2 := r2 ^^^ r3
  let r1 := r1 ^^^ r2
  let r2 := r2 ||| r4
  let r4 := r4 ^^^ r3
  let r3 := r3 &&& r1
  let r3 := r3 ^^^ r0
  let r4 := r4 ^^^ r1
  let r4 := r4 ^^^ r2
  let r2 := r2 ^^^ r0
  let r0 := r0 &&& r3
  let r2 := ~~~r2
  let r0 := r0 ^^^ r4
  let r4 := r4 ||| r3
  let r2 := r2 ^^^ r4
  ⟨r1, r3, r0, r2⟩

def s6 (x : Words α) : Words α :=
  let ⟨r0, r1, r2, r3⟩ := x
  let r2 := ~~~r2
  let r4 := r3
  let r3 := r3 &&& r0
  let r0 := r0 ^^^ r4
  let r3 := r3 ^^^ r2
  let r2 := r2 ||| r4
  let r1 := r1 ^^^ r3
  let r2 := r2 ^^^ r0
  let r0 := r0 ||| r1
  let r2 := r2 ^^^ r1
  let r4 := r4 ^^^ r0
  let r0 := r0 ||| r3
  let r0 := r0 ^^^ r2
  let r4 := r4 ^^^ r3
  let r4 := r4 ^^^ r0
  let r3 := ~~~r3
  let r2 := r2 &&& r4
  let r2 := r2 ^^^ r3
  ⟨r0, r1, r4, r2⟩

def s7 (x : Words α) : Words α :=
  let ⟨r0, r1, r2, r3⟩ := x
  let r4 := r1
  let r1 := r1 ||| r2
  let r1 := r1 ^^^ r3
  let r4 := r4 ^^^ r2
  let r2 := r2 ^^^ r1
  let r3 := r3 ||| r4
  let r3 := r3 &&& r0
  let r4 := r4 ^^^ r2
  let r3 := r3 ^^^ r1
  let r1 := r1 ||| r4
  let r1 := r1 ^^^ r0
  let r0 := r0 ||| r4
  let r0 := r0 ^^^ r2
  let r1 := r1 ^^^ r4
  let r2 := r2 ^^^ r1
  let r1 := r1 &&& r0
  let r1 := r1 ^^^ r4
  let r2 := ~~~r2
  let r2 := r2 ||| r0
  let r4 := r4 ^^^ r2
  ⟨r4, r3, r1, r0⟩

def si0 (x : Words α) : Words α :=
  let ⟨r0, r1, r2, r3⟩ := x
  let r2 := ~~~r2
  let r4 := r1
  let r1 := r1 ||| r0
  let r4 := ~~~r4
  let r1 := r1 ^^^ r2
  let r2 := r2 ||| r4
  let r1 := r1 ^^^ r3
  let r0 := r0 ^^^ r4
  let r2 := r2 ^^^ r0
  let r0 := r0 &&& r3
  let r4 := r4 ^^^ r0
  let r0 := r0 ||| r1
  let r0 := r0 ^^^ r2
  let r3 := r3 ^^^ r4
  let r2 := r2 ^^^ r1
  let r3 := r3 ^^^ r0
  let r3 := r3 ^^^ r1
  let r2 := r2 &&& r3
  let r4 := r4 ^^^ r2
  ⟨r0, r4, r1, r3⟩

def si1 (x : Words α) : Words α :=
  let ⟨r0, r1, r2, r3⟩ := x
  let r4 := r1
  let r1 := r1 ^^^ r3
  let r3 := r3 &&& r1
  let r4 := r4 ^^^ r2
  let r3 := r3 ^^^ r0
  let r0 := r0 ||| r1
  let r2 := r2 ^^^ r3
  let r0 := r0 ^^^ r4
  let r0 := r0 ||| r2
  let r1 := r1 ^^^ r3
  let r0 := r0 ^^^ r1
  let r1 := r1 ||| r3
  let r1 := r1 ^^^ r0
  let r4 := ~~~r4
  let r4 := r4 ^^^ r1
  let r1 := r1 ||| r0
  let r1 := r1 ^^^ r0
  let r1 := r1 ||| r4
  let r3 := r3 ^^^ r1
  ⟨r4, r0, r3, r2⟩

def si2 (x : Words α) : Words α :=
  let ⟨r0, r1, r2, r3⟩ := x
  let r2 := r2 ^^^ r3
  let r3 := r3 ^^^ r0
  let r4 := r3
  let r3 := r3 &&& r2
  let r3 := r3 ^^^ r1
  let r1 := r1 ||| r2
  let r1 := r1 ^^^ r4
  let r4 := r4 &&& r3
  let r2 := r2 ^^^ r3
  let r4 := r4 &&& r0
  let r4 := r4 ^^^ r2
  let r2 := r2 &&& r1
  let r2 := r2 ||| r0
  let r3 := ~~~r3
  let r2 := r2 ^^^ r3
  let r0 := r0 ^^^ r3
  let r0 := r0 &&& r1
  let r3 := r3 ^^^ r4
  let r3 := r3 ^^^ r0
  ⟨r1, r4, r2, r3⟩

def si3 (x : Words α) : Words α :=
  let ⟨r0, r1, r2, r3⟩ := x
  let r4 := r2
  let r2 := r2 ^^^ r1
  let r0 := r0 ^^^ r2
  let r4 := r4 &&& r2
  let r4 := r4 ^^^ r0
  let r0 := r0 &&& r1
  let r1 := r1 ^^^ r3
  let r3 := r3 ||| r4
  let r2 := r2 ^^^ r3
  let r0 := r0 ^^^ r3
  let r1 := r1 ^^^ r4
  let r3 := r3 &&& r2
  let r3 := r3 ^^^ r1
  let r1 := r1 ^^^ r0
  let r1 := r1 ||| r2
  let r0 := r0 ^^^ r3
  let r1 := r1 ^^^ r4
  let r0 := r0 ^^^ r1
  ⟨r2, r1, r3, r0⟩

def si4 (x : Words α) : Words α :=
  let ⟨r0, r1, r2, r3⟩ := x
  let r4 := r2
  let r2 := r2 &&& r3
  let r2 := r2 ^^^ r1
  let r1 := r1 ||| r3
  let r1 := r1 &&& r0
  let r4 := r4 ^^^ r2
  let r4 := r4 ^^^ r1
  let r1 := r1 &&& r2
  let r0 := ~~~r0
  let r3 := r3 ^^^ r4
  let r1 := r1 ^^^ r3
  let r3 := r3 &&& r0
  let r3 := r3 ^^^ r2
  let r0 := r0 ^^^ r1
  let r2 := r2 &&& r0
  let r3 := r3 ^^^ r0
  let r2 := r2 ^^^ r4
  let r2 := r2 ||| r3
  let r3 := r3 ^^^ r0
  let r2 := r2 ^^^ r1
  ⟨r0, r3, r2, r4⟩

def si5 (x : Words α) : Words α :=
  let ⟨r0, r1, r2, r3⟩ := x
  let r1 := ~~~r1
  let r4 := r3
  let r2 := r2 ^^^ r1
  let r3 := r3 ||| r0
  let r3 := r3 ^^^ r2
  let r2 := r2 ||| r1
  let r2 := r2 &&& r0
  let r4 := r4 ^^^ r3
  let r2 := r2 ^^^ r4
  let r4 := r4 ||| r0
  let r4 := r4 ^^^ r1
  let r1 := r1 &&& r2
  let r1 := r1 ^^^ r3
  let r4 := r4 ^^^ r2
  let r3 := r3 &&& r4
  let r4 := r4 ^^^ r1
  let r3 := r3 ^^^ r4
  let r4 := ~~~r4
  let r3 := r3 ^^^ r0
  ⟨r1, r4, r3, r2⟩

def si6 (x : Words α) : Words α :=
  let ⟨r0, r1, r2, r3⟩ := x
  let r0 := r0 ^^^ r2
  let r4 := r2
  let r2 := r2 &&& r0
  let r4 := r4 ^^^ r3
  let r2 := ~~~r2
  let r3 := r3 ^^^ r1
  let r2 := r2 ^^^ r3
  let r4 := r4 ||| r0
  let r0 := r0 ^^^ r2
  let r3 := r3 ^^^ r4
  let r4 := r4 ^^^ r1
  let r1 := r1 &&& r3
  let r1 := r1 ^^^ r0
  let r0 := r0 ^^^ r3
  let r0 := r0 ||| r2
  let r3 := r3 ^^^ r1
  let r4 := r4 ^^^ r0
  ⟨r1, r2, r4, r3⟩

def si7 (x : Words α) : Words α :=
  let ⟨r0, r1, r2, r3⟩ := x
  let r4 := r2
  let r2 := r2 ^^^ r0
  let r0 := r0 &&& r3
  let r4 := r4 ||| r3
  let r2 := ~~~r2
  let r3 := r3 ^^^ r1
  let r1 := r1 ||| r0
  let r0 := r0 ^^^ r2
  let r2 := r2 &&& r4
  let r3 := r3 &&& r4
  let r1 := r1 ^^^ r2
  let r2 := r2 ^^^ r0
  let r0 := r0 ||| r2
  let r4 := r4 ^^^ r1
  let r0 := r0 ^^^ r3
  let r3 := r3 ^^^ r4
  let r4 := r4 ||| r0
  let r3 := r3 ^^^ r2
  let r4 := r4 ^^^ r2
  ⟨r3, r0, r1, r4⟩

end Circuits

/-! ## Circuits at one bit position -/

/-- The bit of a word at a position. -/
def bit (i : Nat) (x : UInt32) : Bool := x.toBitVec.getLsbD i

section Bit

variable (i : Nat) (x y : UInt32)

theorem bit_xor : bit i (x ^^^ y) = bit i x ^^^ bit i y := BitVec.getLsbD_xor

theorem bit_and : bit i (x &&& y) = bit i x &&& bit i y := BitVec.getLsbD_and

theorem bit_or : bit i (x ||| y) = bit i x ||| bit i y := BitVec.getLsbD_or

theorem bit_not (hi : i < 32) : bit i (~~~x) = ~~~bit i x := by
  unfold bit
  rw [UInt32.toBitVec_not, BitVec.getLsbD_not, decide_eq_true hi, Bool.true_and]
  rfl

end Bit

theorem s0_map {i : Nat} (hi : i < 32) (x : Words UInt32) :
    (s0 x).map (bit i) = s0 (x.map (bit i)) := by
  simp only [s0, Words.map, bit_xor, bit_and, bit_or, bit_not i _ hi]

theorem s1_map {i : Nat} (hi : i < 32) (x : Words UInt32) :
    (s1 x).map (bit i) = s1 (x.map (bit i)) := by
  simp only [s1, Words.map, bit_xor, bit_and, bit_or, bit_not i _ hi]

theorem s2_map {i : Nat} (hi : i < 32) (x : Words UInt32) :
    (s2 x).map (bit i) = s2 (x.map (bit i)) := by
  simp only [s2, Words.map, bit_xor, bit_and, bit_or, bit_not i _ hi]

theorem s3_map {i : Nat} (_ : i < 32) (x : Words UInt32) :
    (s3 x).map (bit i) = s3 (x.map (bit i)) := by
  simp only [s3, Words.map, bit_xor, bit_and, bit_or]

theorem s4_map {i : Nat} (hi : i < 32) (x : Words UInt32) :
    (s4 x).map (bit i) = s4 (x.map (bit i)) := by
  simp only [s4, Words.map, bit_xor, bit_and, bit_or, bit_not i _ hi]

theorem s5_map {i : Nat} (hi : i < 32) (x : Words UInt32) :
    (s5 x).map (bit i) = s5 (x.map (bit i)) := by
  simp only [s5, Words.map, bit_xor, bit_and, bit_or, bit_not i _ hi]

theorem s6_map {i : Nat} (hi : i < 32) (x : Words UInt32) :
    (s6 x).map (bit i) = s6 (x.map (bit i)) := by
  simp only [s6, Words.map, bit_xor, bit_and, bit_or, bit_not i _ hi]

theorem s7_map {i : Nat} (hi : i < 32) (x : Words UInt32) :
    (s7 x).map (bit i) = s7 (x.map (bit i)) := by
  simp only [s7, Words.map, bit_xor, bit_and, bit_or, bit_not i _ hi]

theorem si0_map {i : Nat} (hi : i < 32) (x : Words UInt32) :
    (si0 x).map (bit i) = si0 (x.map (bit i)) := by
  simp only [si0, Words.map, bit_xor, bit_and, bit_or, bit_not i _ hi]

theorem si1_map {i : Nat} (hi : i < 32) (x : Words UInt32) :
    (si1 x).map (bit i) = si1 (x.map (bit i)) := by
  simp only [si1, Words.map, bit_xor, bit_and, bit_or, bit_not i _ hi]

theorem si2_map {i : Nat} (hi : i < 32) (x : Words UInt32) :
    (si2 x).map (bit i) = si2 (x.map (bit i)) := by
  simp only [si2, Words.map, bit_xor, bit_and, bit_or, bit_not i _ hi]

theorem si3_map {i : Nat} (_ : i < 32) (x : Words UInt32) :
    (si3 x).map (bit i) = si3 (x.map (bit i)) := by
  simp only [si3, Words.map, bit_xor, bit_and, bit_or]

theorem si4_map {i : Nat} (hi : i < 32) (x : Words UInt32) :
    (si4 x).map (bit i) = si4 (x.map (bit i)) := by
  simp only [si4, Words.map, bit_xor, bit_and, bit_or, bit_not i _ hi]

theorem si5_map {i : Nat} (hi : i < 32) (x : Words UInt32) :
    (si5 x).map (bit i) = si5 (x.map (bit i)) := by
  simp only [si5, Words.map, bit_xor, bit_and, bit_or, bit_not i _ hi]

theorem si6_map {i : Nat} (hi : i < 32) (x : Words UInt32) :
    (si6 x).map (bit i) = si6 (x.map (bit i)) := by
  simp only [si6, Words.map, bit_xor, bit_and, bit_or, bit_not i _ hi]

theorem si7_map {i : Nat} (hi : i < 32) (x : Words UInt32) :
    (si7 x).map (bit i) = si7 (x.map (bit i)) := by
  simp only [si7, Words.map, bit_xor, bit_and, bit_or, bit_not i _ hi]

/-! ## Circuits that undo circuits -/

theorem word_ext {x y : UInt32} (h : ∀ i < 32, bit i x = bit i y) : x = y :=
  UInt32.eq_of_toBitVec_eq (BitVec.eq_of_getLsbD_eq h)

theorem words_ext {x y : Words UInt32} (h : ∀ i < 32, x.map (bit i) = y.map (bit i)) : x = y := by
  apply Words.ext
  · exact word_ext fun i hi => congrArg Words.x0 (h i hi)
  · exact word_ext fun i hi => congrArg Words.x1 (h i hi)
  · exact word_ext fun i hi => congrArg Words.x2 (h i hi)
  · exact word_ext fun i hi => congrArg Words.x3 (h i hi)

/-- A circuit that undoes another one on single bits does so on words. -/
theorem undoes_of_bits {f g : Words UInt32 → Words UInt32} {f' g' : Words Bool → Words Bool}
    (hf : ∀ {i}, i < 32 → ∀ x, (f x).map (bit i) = f' (x.map (bit i)))
    (hg : ∀ {i}, i < 32 → ∀ x, (g x).map (bit i) = g' (x.map (bit i)))
    (h : ∀ a b c d, g' (f' ⟨a, b, c, d⟩) = ⟨a, b, c, d⟩) (x : Words UInt32) : g (f x) = x := by
  apply words_ext
  intro i hi
  rw [hg hi, hf hi]
  exact h _ _ _ _

theorem si0_s0 (x : Words UInt32) : si0 (s0 x) = x :=
  undoes_of_bits s0_map si0_map (by decide) x

theorem si1_s1 (x : Words UInt32) : si1 (s1 x) = x :=
  undoes_of_bits s1_map si1_map (by decide) x

theorem si2_s2 (x : Words UInt32) : si2 (s2 x) = x :=
  undoes_of_bits s2_map si2_map (by decide) x

theorem si3_s3 (x : Words UInt32) : si3 (s3 x) = x :=
  undoes_of_bits s3_map si3_map (by decide) x

theorem si4_s4 (x : Words UInt32) : si4 (s4 x) = x :=
  undoes_of_bits s4_map si4_map (by decide) x

theorem si5_s5 (x : Words UInt32) : si5 (s5 x) = x :=
  undoes_of_bits s5_map si5_map (by decide) x

theorem si6_s6 (x : Words UInt32) : si6 (s6 x) = x :=
  undoes_of_bits s6_map si6_map (by decide) x

theorem si7_s7 (x : Words UInt32) : si7 (s7 x) = x :=
  undoes_of_bits s7_map si7_map (by decide) x

end Drew.Serpent
