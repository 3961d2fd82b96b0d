import Drew.Block.Network
import Drew.Block.Rijndael.Tables
import Drew.Memory.Sizes

/-!
# Rijndael

What the classes `AES`, `AESNI` and `GenericRijndael` compute: a network on a state of columns of four
bytes, with a key of columns that is expanded. AES is the case of a state of four columns.
-/

namespace Drew.Rijndael

open Drew.Field Drew.Block

/-- The product of bytes modulo `x ^ 8 + x ^ 4 + x ^ 3 + x + 1`. -/
def mul (k a : UInt8) : UInt8 := mulByte 0x1b a k

theorem mul_xor (k a b : UInt8) : mul k (a ^^^ b) = mul k a ^^^ mul k b := mulByte_xor_left 0x1b a b k

/-! ## Substitution -/

def sbox (a : UInt8) : UInt8 := S.entry a

def invSbox (a : UInt8) : UInt8 := Si.entry a

theorem invSbox_sbox (a : UInt8) : invSbox (sbox a) = a := by
  apply forall_byte (P := fun a => invSbox (sbox a) = a)
  decide +kernel

def rotateByte (a n : UInt8) : UInt8 := a <<< n ||| a >>> (8 - n)

/-- The affine map that `S` ends with, undone. -/
def invAffine (a : UInt8) : UInt8 := rotateByte a 1 ^^^ rotateByte a 3 ^^^ rotateByte a 6 ^^^ 0x05

/-- Before the affine map, `S` takes the inverse of a byte. -/
theorem mul_sbox (a : UInt8) : mul a (invAffine (sbox a)) = if a = 0 then 0 else 1 := by
  apply forall_byte (P := fun a => mul a (invAffine (sbox a)) = if a = 0 then 0 else 1)
  decide +kernel

theorem sbox_zero : invAffine (sbox 0) = 0 := by decide

/-! ## Columns -/

/-- A column of the state, or of the key. -/
@[ext] structure Column where
  r0 : UInt8
  r1 : UInt8
  r2 : UInt8
  r3 : UInt8
deriving DecidableEq

namespace Column

def xor (a b : Column) : Column := ⟨a.r0 ^^^ b.r0, a.r1 ^^^ b.r1, a.r2 ^^^ b.r2, a.r3 ^^^ b.r3⟩

def map (f : UInt8 → UInt8) (a : Column) : Column := ⟨f a.r0, f a.r1, f a.r2, f a.r3⟩

/-- The bytes one row up. -/
def rotate (a : Column) : Column := ⟨a.r1, a.r2, a.r3, a.r0⟩

theorem xor_cancel (a b : Column) : xor (xor a b) b = a := by
  apply Column.ext <;> exact xor_byte_self_right _ _

theorem map_map {f g : UInt8 → UInt8} (h : ∀ x, g (f x) = x) (a : Column) : map g (map f a) = a := by
  apply Column.ext <;> exact h _

end Column

/-- A row of a mixed column. -/
def mixRow (a b c d : UInt8) : UInt8 := mul 2 a ^^^ mul 3 b ^^^ c ^^^ d

def unmixRow (a b c d : UInt8) : UInt8 := mul 14 a ^^^ mul 11 b ^^^ mul 13 c ^^^ mul 9 d

def mixColumn (a : Column) : Column :=
  ⟨mixRow a.r0 a.r1 a.r2 a.r3, mixRow a.r1 a.r2 a.r3 a.r0, mixRow a.r2 a.r3 a.r0 a.r1,
    mixRow a.r3 a.r0 a.r1 a.r2⟩

def unmixColumn (a : Column) : Column :=
  ⟨unmixRow a.r0 a.r1 a.r2 a.r3, unmixRow a.r1 a.r2 a.r3 a.r0, unmixRow a.r2 a.r3 a.r0 a.r1,
    unmixRow a.r3 a.r0 a.r1 a.r2⟩

/-- The coefficients of a byte in its own row. -/
theorem coefficient_own (a : UInt8) :
    mul 14 (mul 2 a) ^^^ mul 11 a ^^^ mul 13 a ^^^ mul 9 (mul 3 a) = a := by
  apply eq_of_byte_bits (f := fun a => mul 14 (mul 2 a) ^^^ mul 11 a ^^^ mul 13 a ^^^ mul 9 (mul 3 a)) (g := id)
  · intro a b
    simp only [mul_xor]
    ac_rfl
  · exact fun _ _ => rfl
  · decide +kernel

/-- The coefficients of a byte in the three other rows. -/
theorem coefficients_other (a : UInt8) :
    mul 14 (mul 3 a) ^^^ mul 11 (mul 2 a) ^^^ mul 13 a ^^^ mul 9 a = 0 ∧
      mul 14 a ^^^ mul 11 (mul 3 a) ^^^ mul 13 (mul 2 a) ^^^ mul 9 a = 0 ∧
      mul 14 a ^^^ mul 11 a ^^^ mul 13 (mul 3 a) ^^^ mul 9 (mul 2 a) = 0 := by
  refine ⟨?_, ?_, ?_⟩
  · apply eq_of_byte_bits (f := fun a => mul 14 (mul 3 a) ^^^ mul 11 (mul 2 a) ^^^ mul 13 a ^^^ mul 9 a)
      (g := fun _ => 0)
    · intro a b
      simp only [mul_xor]
      ac_rfl
    · exact fun _ _ => rfl
    · decide +kernel
  · apply eq_of_byte_bits (f := fun a => mul 14 a ^^^ mul 11 (mul 3 a) ^^^ mul 13 (mul 2 a) ^^^ mul 9 a)
      (g := fun _ => 0)
    · intro a b
      simp only [mul_xor]
      ac_rfl
    · exact fun _ _ => rfl
    · decide +kernel
  · apply eq_of_byte_bits (f := fun a => mul 14 a ^^^ mul 11 a ^^^ mul 13 (mul 3 a) ^^^ mul 9 (mul 2 a))
      (g := fun _ => 0)
    · intro a b
      simp only [mul_xor]
      ac_rfl
    · exact fun _ _ => rfl
    · decide +kernel

theorem unmixRow_mixRow (a b c d : UInt8) :
    unmixRow (mixRow a b c d) (mixRow b c d a) (mixRow c d a b) (mixRow d a b c) = a := by
  have ha := coefficient_own a
  have hb := (coefficients_other b).1
  have hc := (coefficients_other c).2.1
  have hd := (coefficients_other d).2.2
  have hsplit : unmixRow (mixRow a b c d) (mixRow b c d a) (mixRow c d a b) (mixRow d a b c) =
      (mul 14 (mul 2 a) ^^^ mul 11 a ^^^ mul 13 a ^^^ mul 9 (mul 3 a)) ^^^
        (mul 14 (mul 3 b) ^^^ mul 11 (mul 2 b) ^^^ mul 13 b ^^^ mul 9 b) ^^^
        (mul 14 c ^^^ mul 11 (mul 3 c) ^^^ mul 13 (mul 2 c) ^^^ mul 9 c) ^^^
        (mul 14 d ^^^ mul 11 d ^^^ mul 13 (mul 3 d) ^^^ mul 9 (mul 2 d)) := by
    simp only [unmixRow, mixRow, mul_xor]
    ac_rfl
  rw [hsplit, ha, hb, hc, hd, UInt8.xor_zero, UInt8.xor_zero, UInt8.xor_zero]

theorem unmixColumn_mixColumn (a : Column) : unmixColumn (mixColumn a) = a := by
  apply Column.ext
  · exact unmixRow_mixRow a.r0 a.r1 a.r2 a.r3
  · exact unmixRow_mixRow a.r1 a.r2 a.r3 a.r0
  · exact unmixRow_mixRow a.r2 a.r3 a.r0 a.r1
  · exact unmixRow_mixRow a.r3 a.r0 a.r1 a.r2

theorem unmixRow_xor (a b c d a' b' c' d' : UInt8) :
    unmixRow (a ^^^ a') (b ^^^ b') (c ^^^ c') (d ^^^ d') = unmixRow a b c d ^^^ unmixRow a' b' c' d' := by
  simp only [unmixRow, mul_xor]
  ac_rfl

theorem unmixColumn_xor (a b : Column) : unmixColumn (a.xor b) = (unmixColumn a).xor (unmixColumn b) := by
  apply Column.ext <;> exact unmixRow_xor _ _ _ _ _ _ _ _

/-! ## The state -/

abbrev State (nb : Nat) := Vector Column nb

section State

variable {nb : Nat}

theorem state_ext {s t : State nb} (h : ∀ c, s.get c = t.get c) : s = t :=
  Vector.ext fun c hc => h ⟨c, hc⟩

def addKey (s k : State nb) : State nb := Vector.zipWith Column.xor s k

theorem get_addKey (s k : State nb) (c : Fin nb) : (addKey s k).get c = (s.get c).xor (k.get c) :=
  Vector.getElem_zipWith c.isLt

theorem get_map_state (f : Column → Column) (s : State nb) (c : Fin nb) : (s.map f).get c = f (s.get c) :=
  Vector.getElem_map f c.isLt

/-- How far the rows are shifted. The first one stays. -/
structure Shifts where
  s1 : Nat
  s2 : Nat
  s3 : Nat

variable [NeZero nb]

/-- The column `k` places further. -/
def column (s : State nb) (c : Fin nb) (k : Nat) : Column := s.get (Fin.ofNat nb (c + k))

def shiftRows (o : Shifts) (s : State nb) : State nb :=
  Vector.ofFn fun c => ⟨(s.get c).r0, (column s c o.s1).r1, (column s c o.s2).r2, (column s c o.s3).r3⟩

/-- The shifts that lead back. -/
def Shifts.back (o : Shifts) (nb : Nat) : Shifts := ⟨nb - o.s1, nb - o.s2, nb - o.s3⟩

theorem get_shiftRows (o : Shifts) (s : State nb) (c : Fin nb) : (shiftRows o s).get c =
    ⟨(s.get c).r0, (column s c o.s1).r1, (column s c o.s2).r2, (column s c o.s3).r3⟩ :=
  Vector.getElem_ofFn c.isLt

theorem ofNat_back {k : Nat} (hk : k ≤ nb) (c : Fin nb) :
    Fin.ofNat nb ((Fin.ofNat nb (c + (nb - k))).val + k) = c := by
  apply Fin.ext
  show ((c.val + (nb - k)) % nb + k) % nb = c.val
  rw [Nat.mod_add_mod, Nat.add_assoc, Nat.sub_add_cancel hk, Nat.add_mod_right, Nat.mod_eq_of_lt c.isLt]

theorem shiftRows_back {o : Shifts} (h : o.s1 ≤ nb ∧ o.s2 ≤ nb ∧ o.s3 ≤ nb) (s : State nb) :
    shiftRows (o.back nb) (shiftRows o s) = s := by
  apply state_ext
  intro c
  rw [get_shiftRows]
  simp only [column, get_shiftRows, Shifts.back, ofNat_back h.1, ofNat_back h.2.1, ofNat_back h.2.2]

theorem shiftRows_map (o : Shifts) (f : UInt8 → UInt8) (s : State nb) :
    shiftRows o (s.map (Column.map f)) = (shiftRows o s).map (Column.map f) := by
  apply state_ext
  intro c
  rw [get_map_state, get_shiftRows, get_shiftRows]
  simp only [column, get_map_state]
  rfl

/-- The layers, for shifts by less than all columns. -/
def network {o : Shifts} (h : o.s1 ≤ nb ∧ o.s2 ≤ nb ∧ o.s3 ≤ nb) : Network (State nb) where
  add := addKey
  scramble s := shiftRows o (s.map (Column.map sbox))
  unscramble s := shiftRows (o.back nb) (s.map (Column.map invSbox))
  mix s := s.map mixColumn
  unmix s := s.map unmixColumn
  add_cancel s k := by
    apply state_ext
    intro c
    rw [get_addKey, get_addKey, Column.xor_cancel]
  unscramble_scramble s := by
    rw [← shiftRows_map, shiftRows_back h]
    apply state_ext
    intro c
    rw [get_map_state, get_map_state, Column.map_map invSbox_sbox]
  unmix_mix s := by
    apply state_ext
    intro c
    rw [get_map_state, get_map_state, unmixColumn_mixColumn]
  unmix_add s k := by
    apply state_ext
    intro c
    rw [get_map_state, get_addKey, get_addKey, get_map_state, get_map_state, unmixColumn_xor]

end State

/-! ## The expanded key -/

/-- The constants of the key expansion: the powers of the variable. -/
def roundConstant (p : Nat) : UInt8 := (timesX 0x1b)^[p] 1

/-- The columns that come after `nk` columns. -/
def nextColumn (nk : Nat) (rc : UInt8) (k : Nat → Column) : Nat → Column
  | 0 => ((k 0).xor ((k (nk - 1)).rotate.map sbox)).xor ⟨rc, 0, 0, 0⟩
  | j + 1 =>
    let prev := nextColumn nk rc k j
    (k (j + 1)).xor (if 6 < nk ∧ j + 1 = 4 then prev.map sbox else prev)

/-- The columns of the expanded key, `nk` at a time. -/
def pass (nk : Nat) (key : Nat → Column) : Nat → Nat → Column
  | 0 => key
  | p + 1 => nextColumn nk (roundConstant p) (pass nk key p)

/-- A column of the key itself. -/
def keyColumn (key : List UInt8) (j : Nat) : Column :=
  ⟨key.getD (4 * j) 0, key.getD (4 * j + 1) 0, key.getD (4 * j + 2) 0, key.getD (4 * j + 3) 0⟩

/-- A column of the expanded key. -/
def expanded (key : List UInt8) (t : Nat) : Column :=
  pass (key.length / 4) (keyColumn key) (t / (key.length / 4)) (t % (key.length / 4))

/-- The round keys for a state of `nb` columns. -/
def roundKey (nb : Nat) (key : List UInt8) (i : Nat) : State nb :=
  Vector.ofFn fun c => expanded key (i * nb + c)

/-- The number of rounds. -/
def numRounds (nb nk : Nat) : Nat := 6 + max nb nk

end Drew.Rijndael
