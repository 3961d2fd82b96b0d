import Drew.Hash.Class
import Drew.Memory.Buffer
import Drew.Stream.Chunks
import Mathlib.Tactic
import Drew.Memory.Sizes

/-!
# Keccak

The model of the class `Keccak`, from which those of SHA-3 are derived. The rate `m_r` is the
size of a block. The fast update is the plain one.

What `GetDigest` makes of the members is a parameter.
-/

namespace Drew

open Drew.Memory Drew.Stream Drew.HashClass

/-- The members that change. -/
structure Keccak (σ : Type) where
  hash : σ
  buf : Buf UInt8 144
  len : BitVec 64

namespace Keccak

variable {σ : Type} (f : σ → List UInt8 → σ) (rate : Nat)

def reset (s : σ) : Keccak σ where
  hash := s
  buf := Vector.replicate 144 0
  len := 0

/-- Fill up the block that an earlier call began. -/
def fill (h : Keccak σ) (off : Nat) (data : List UInt8) : Option (Keccak σ × List UInt8) :=
  if off ≠ 0 then do
    let i := min (rate - off) data.length
    let buf ← h.buf.write off (data.take i)
    let hash := if i + off = rate then f h.hash (buf.toList.take rate) else h.hash
    return ({ h with buf := buf, hash := hash }, data.drop i)
  else some (h, data)

def update (h : Keccak σ) (data : List UInt8) : Option (Keccak σ) := do
  let off := h.len.toNat % rate
  let (h, data) ← fill f rate { h with len := h.len + BitVec.ofNat 64 data.length } off data
  let k := data.length / rate
  let buf ← h.buf.write 0 (data.drop (k * rate))
  return { h with hash := absorb rate f k h.hash data, buf := buf }

def updateFast (h : Keccak σ) (data : List UInt8) : Option (Keccak σ) := update f rate h data

/-- The class, as the plugin uses it. -/
abbrev hashClass (digest : Keccak σ → Option (List UInt8)) (s : σ) : HashClass where
  State := Keccak σ
  blockSize := rate
  reset := reset s
  update := update f rate
  updateFast := updateFast f rate
  getDigest := digest

theorem agrees (digest : Keccak σ → Option (List UInt8)) (s : σ) (cs : List Call) :
    (hashClass f rate digest s).Agrees cs := agrees_of_same rfl cs

end Keccak

end Drew

/-!
## The permutation Keccak-f[1600]

A state has a bit for each column `x`, row `y` and position `z`. Columns and rows are counted
modulo 5, positions modulo 64. A round is the composition of `θ`, `ρ`, `π`, `χ` and `ι`, and the
permutation has 24 rounds.

The distances of `ρ` are the triangular numbers along a walk through the lanes
(`rhoOffset`), and the constants of `ι` come from a shift register (`rcBit`).
-/

namespace Drew.KeccakF

/-- The bits of a state, by column, row and position. -/
abbrev Bits := Fin 5 → Fin 5 → Fin 64 → Bool

/-- The parity of a column. -/
def columnParity (A : Bits) (x : Fin 5) (z : Fin 64) : Bool :=
  A x 0 z ^^ A x 1 z ^^ A x 2 z ^^ A x 3 z ^^ A x 4 z

def θ (A : Bits) : Bits := fun x y z =>
  A x y z ^^ (columnParity A (x - 1) z ^^ columnParity A (x + 1) (z - 1))

/-- Where the walk through the lanes is after `t` steps. -/
def walk : Nat → Fin 5 × Fin 5
  | 0 => (1, 0)
  | t + 1 => ((walk t).2, 2 * (walk t).1 + 3 * (walk t).2)

/-- The lane in the middle is not on the walk, and it is not rotated. -/
def rhoOffset (x y : Fin 5) : Nat :=
  ((List.range 24).find? fun t => walk t = (x, y)).elim 0 fun t => (t + 1) * (t + 2) / 2

def ρ (A : Bits) : Bits := fun x y z => A x y (z - Fin.ofNat 64 (rhoOffset x y))

def π (A : Bits) : Bits := fun x y z => A (x + 3 * y) x z

def χ (A : Bits) : Bits := fun x y z => A x y z ^^ (!A (x + 1) y z && A (x + 2) y z)

/-- One step of the shift register with the polynomial `x⁸ + x⁶ + x⁵ + x⁴ + 1`. -/
def lfsr (R : BitVec 8) : BitVec 8 := R <<< 1 ^^^ if R.msb then 0x71#8 else 0

def rcBit (t : Nat) : Bool := (lfsr^[t % 255] 1).getLsbD 0

/-- The constant of a round has bits at the positions `2 ^ j - 1` only. -/
def roundConstant (i : Nat) (z : Fin 64) : Bool :=
  (List.range 7).any fun j => z.val = 2 ^ j - 1 && rcBit (j + 7 * i)

def ι (i : Nat) (A : Bits) : Bits := fun x y z =>
  A x y z ^^ (decide (x = 0 ∧ y = 0) && roundConstant i z)

def round (A : Bits) (i : Nat) : Bits := ι i (χ (π (ρ (θ A))))

/-- The permutation. -/
def permutation (A : Bits) : Bits := (List.range 24).foldl round A

/-! ## Inverted lanes -/

section Invert

variable (F : Fin 5 → Fin 5 → Bool) (A : Bits)

/-- Some lanes are inverted. -/
def invert : Bits := fun x y z => F x y ^^ A x y z

theorem invert_invert : invert F (invert F A) = A := by
  funext x y z
  rw [invert, invert, ← Bool.xor_assoc, Bool.xor_self, Bool.false_xor]

/-- Whether the parity of a column is inverted. -/
def invertedParity (x : Fin 5) : Bool := F x 0 ^^ F x 1 ^^ F x 2 ^^ F x 3 ^^ F x 4

/-- The lanes that are inverted after the first three steps of a round. -/
def afterPi : Fin 5 → Fin 5 → Bool := fun x y =>
  F (x + 3 * y) x ^^ (invertedParity F (x + 3 * y - 1) ^^ invertedParity F (x + 3 * y + 1))

theorem columnParity_invert (x : Fin 5) (z : Fin 64) :
    columnParity (invert F A) x z = (invertedParity F x ^^ columnParity A x z) := by
  simp only [columnParity, invertedParity, invert, Bool.xor_assoc, Bool.xor_left_comm]

theorem θ_invert (x y : Fin 5) (z : Fin 64) :
    θ (invert F A) x y z =
      (F x y ^^ (invertedParity F (x - 1) ^^ invertedParity F (x + 1)) ^^ θ A x y z) := by
  simp only [θ, columnParity_invert, invert, Bool.xor_assoc, Bool.xor_left_comm]

theorem π_ρ_θ_invert : π (ρ (θ (invert F A))) = invert (afterPi F) (π (ρ (θ A))) := by
  funext x y z
  exact θ_invert F A _ _ _

theorem ι_invert (i : Nat) : ι i (invert F A) = invert F (ι i A) := by
  funext x y z
  exact Bool.xor_assoc _ _ _

end Invert

end Drew.KeccakF
