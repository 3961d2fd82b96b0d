import Mathlib.Tactic
import Drew.Bignum.Model
import Drew.Memory.BigEndian

/-!
# The libtommath backend

Access to one bit of a number that is not negative. libtommath's functions give what they are documented to
give; the number of bits to shift by is an `int` there, and a shift by a negative number has no result.
A bit is cleared by `and` with the complement of a mask, and the complement has the bytes of the mask only.
-/

namespace Drew.Bignum.Tommath

open Drew.Memory

/-! ## What is used of libtommath -/

def mp_mul_2d (a : Nat) (b : Int) : Option Nat := if 0 ≤ b then some (a * 2 ^ b.toNat) else none

def mp_unsigned_bin_size (a : Nat) : Nat := (a.size + 7) / 8

def mp_to_unsigned_bin (a : Nat) : List UInt8 := beBytes (mp_unsigned_bin_size a) a

def mp_read_unsigned_bin (bs : List UInt8) : Nat := beNat bs

/-! ## The functions -/

/-- The number of bits is a `size_t`. -/
def shiftleft (a n : Nat) : Option Nat := mp_mul_2d a (Int.bmod n (2 ^ 32))

def bitwisenot (a : Nat) : Nat := mp_read_unsigned_bin ((mp_to_unsigned_bin a).map (~~~ ·))

def comparesmall (a x : Nat) : Int := if x < a then 1 else if a = x then 0 else -1

def getbit (ctx bitno : Nat) : Option Bool := do
  let t ← shiftleft 1 bitno
  let t := t &&& ctx
  return decide (comparesmall t 0 ≠ 0)

def setbit (ctx bitno : Nat) (val : Bool) : Option Nat := do
  let t ← shiftleft 1 bitno
  if val then return t ||| ctx
  else
    let t := bitwisenot t
    return t &&& ctx

/-! ## Bits -/

theorem shiftleft_one {i : Nat} (hi : i % 2 ^ 32 < 2 ^ 31) : shiftleft 1 i = some (2 ^ (i % 2 ^ 32)) := by
  have hmod : Int.bmod i (2 ^ 32) = (i % 2 ^ 32 : Nat) := by
    rw [Int.bmod_def]
    omega
  rw [shiftleft, mp_mul_2d, hmod, if_pos (Int.natCast_nonneg _), Int.toNat_natCast, Nat.one_mul]

theorem shiftleft_one_none {i : Nat} (hi : ¬i % 2 ^ 32 < 2 ^ 31) : shiftleft 1 i = none := by
  have hneg : ¬0 ≤ Int.bmod i (2 ^ 32) := by
    rw [Int.bmod_def]
    omega
  rw [shiftleft, mp_mul_2d, if_neg hneg]

/-- The complement of bytes, as a number. -/
theorem beNat_complement (bs : List UInt8) :
    beNat (bs.map (~~~ ·)) + (beNat bs + 1) = 256 ^ bs.length := by
  induction bs with
  | nil => rfl
  | cons b bs ih =>
      have hb : (~~~b).toNat + (b.toNat + 1) = 256 := by
        have hlt := b.toNat_lt
        have hnot : (~~~b).toNat = 256 - 1 - b.toNat := UInt8.toNat_not b
        omega
      have hcons : ∀ (a : UInt8) (as : List UInt8),
          beNat (a :: as) = a.toNat * 256 ^ as.length + beNat as := fun a as => beVal_cons a as
      rw [List.map_cons, hcons, hcons, List.length_map, List.length_cons, pow_succ']
      calc (~~~b).toNat * 256 ^ bs.length + beNat (bs.map (~~~ ·)) +
            (b.toNat * 256 ^ bs.length + beNat bs + 1)
          = ((~~~b).toNat + b.toNat) * 256 ^ bs.length +
              (beNat (bs.map (~~~ ·)) + (beNat bs + 1)) := by ring
        _ = ((~~~b).toNat + (b.toNat + 1)) * 256 ^ bs.length := by rw [ih]; ring
        _ = 256 * 256 ^ bs.length := by rw [hb]

/-- The complement of a mask has all bits but one, as far as the mask's bytes go. -/
theorem testBit_bitwisenot (i j : Nat) :
    (bitwisenot (2 ^ i)).testBit j = decide (j < 8 * (i / 8 + 1) ∧ i ≠ j) := by
  have hsize : mp_unsigned_bin_size (2 ^ i) = i / 8 + 1 := by
    rw [mp_unsigned_bin_size, Nat.size_pow]
    omega
  have hlt : 2 ^ i < 2 ^ (8 * (i / 8 + 1)) := Nat.pow_lt_pow_right (by norm_num) (by omega)
  have hpow : 256 ^ (i / 8 + 1) = 2 ^ (8 * (i / 8 + 1)) := by
    rw [pow_mul]
    norm_num
  have hsum := beNat_complement (beBytes (i / 8 + 1) (2 ^ i))
  rw [beNat_beBytes, length_beBytes, hpow, Nat.mod_eq_of_lt hlt] at hsum
  have hnot : bitwisenot (2 ^ i) = 2 ^ (8 * (i / 8 + 1)) - (2 ^ i + 1) := by
    rw [bitwisenot, mp_read_unsigned_bin, mp_to_unsigned_bin, hsize]
    omega
  rw [hnot, Nat.testBit_two_pow_sub_succ hlt, Nat.testBit_two_pow, Bool.decide_and, decide_not]

theorem getbit_eq (x : Nat) {j : Nat} (hj : j % 2 ^ 32 < 2 ^ 31) :
    getbit x j = some (x.testBit (j % 2 ^ 32)) := by
  have hcompare : ∀ t : Nat, comparesmall t 0 ≠ 0 ↔ t ≠ 0 := by
    intro t
    unfold comparesmall
    split
    · omega
    · split <;> omega
  have hmask : ∀ k, 2 ^ k &&& x ≠ 0 ↔ x.testBit k = true := by
    intro k
    rw [Nat.two_pow_and]
    cases x.testBit k <;> simp
  rw [getbit, shiftleft_one hj]
  simp only [Option.bind_eq_bind, Option.bind_some, hcompare, hmask]
  exact congrArg some Bool.decide_eq_true

/-- The bits after a bit was written. -/
theorem testBit_setbit (x : Nat) {i : Nat} (hi : i % 2 ^ 32 < 2 ^ 31) (v : Bool) :
    ∃ x', setbit x i v = some x' ∧ ∀ k, x'.testBit k =
      if v then decide (i % 2 ^ 32 = k) || x.testBit k
      else decide (k < 8 * (i % 2 ^ 32 / 8 + 1) ∧ i % 2 ^ 32 ≠ k) && x.testBit k := by
  rw [setbit, shiftleft_one hi]
  cases v with
  | true =>
      refine ⟨2 ^ (i % 2 ^ 32) ||| x, rfl, ?_⟩
      intro k
      rw [Nat.testBit_or, Nat.testBit_two_pow, if_pos rfl]
  | false =>
      refine ⟨bitwisenot (2 ^ (i % 2 ^ 32)) &&& x, rfl, ?_⟩
      intro k
      rw [Nat.testBit_and, testBit_bitwisenot, if_neg Bool.false_ne_true]

/-- What is read after a bit was written is that bit or the old one. -/
def BitAccess (x i j : Nat) (v : Bool) : Prop :=
  ∃ x', setbit x i v = some x' ∧ getbit x' j = some (if i = j then v else x.testBit j)

/-- The bit that is found at the place to which a position is cut, after another was written. -/
def found (x i j : Nat) (v : Bool) : Bool :=
  if v then decide (i = j) || x.testBit j
  else decide (j < 8 * (i / 8 + 1) ∧ i ≠ j) && x.testBit j

theorem bitAccess_cut_iff (x i j : Nat) (v : Bool) :
    BitAccess x i j v ↔ i % 2 ^ 32 < 2 ^ 31 ∧ j % 2 ^ 32 < 2 ^ 31 ∧
      (i = j ∨ x.testBit j = found x (i % 2 ^ 32) (j % 2 ^ 32) v) := by
  by_cases hi : i % 2 ^ 32 < 2 ^ 31
  · rcases testBit_setbit x hi v with ⟨x', hset, hbits⟩
    by_cases hj : j % 2 ^ 32 < 2 ^ 31
    · have hread : getbit x' j = some (found x (i % 2 ^ 32) (j % 2 ^ 32) v) :=
        (getbit_eq x' hj).trans (congrArg some (hbits _))
      have haccess : BitAccess x i j v ↔
          found x (i % 2 ^ 32) (j % 2 ^ 32) v = if i = j then v else x.testBit j := by
        constructor
        · rintro ⟨x'', hset', hget⟩
          rw [hset] at hset'
          cases hset'
          rw [hread] at hget
          exact Option.some.inj hget
        · exact fun h => ⟨x', hset, hread.trans (congrArg some h)⟩
      rw [haccess]
      by_cases hij : i = j
      · subst hij
        have hfound : found x (i % 2 ^ 32) (i % 2 ^ 32) v = v := by
          cases v <;> simp [found]
        simp only [hfound, if_true, hi, true_and, true_or]
      · simp only [hij, if_false, hi, hj, true_and, false_or, eq_comm]
    · have hnone : ∀ x'', getbit x'' j = none := by
        intro x''
        rw [getbit, shiftleft_one_none hj]
        rfl
      refine iff_of_false ?_ fun h => hj h.2.1
      rintro ⟨x'', -, hget⟩
      rw [hnone] at hget
      cases hget
  · have hnone : setbit x i v = none := by
      rw [setbit, shiftleft_one_none hi]
      rfl
    refine iff_of_false ?_ fun h => hi h.1
    rintro ⟨x'', hset, -⟩
    rw [hnone] at hset
    cases hset

/-- Writing one bit and reading one. With positions that an `int` holds, the bit that is read is right if a
bit was set, or if the position is one of the mask's bytes, or if there is no bit. A larger position is
cut to an `int`. -/
theorem bitAccess_iff (x i j : Nat) (v : Bool) :
    (i < 2 ^ 31 → j < 2 ^ 31 →
      (BitAccess x i j v ↔ v = true ∨ j < 8 * (i / 8 + 1) ∨ x.testBit j = false)) ∧
      (BitAccess x i j v ↔ i % 2 ^ 32 < 2 ^ 31 ∧ j % 2 ^ 32 < 2 ^ 31 ∧
        (i = j ∨ x.testBit j = found x (i % 2 ^ 32) (j % 2 ^ 32) v)) := by
  refine ⟨?_, bitAccess_cut_iff x i j v⟩
  intro hi hj
  have hi' : i % 2 ^ 32 = i := Nat.mod_eq_of_lt (hi.trans (by norm_num))
  have hj' : j % 2 ^ 32 = j := Nat.mod_eq_of_lt (hj.trans (by norm_num))
  rw [bitAccess_cut_iff, hi', hj']
  simp only [hi, hj, true_and]
  by_cases hij : i = j
  · have hbyte : j < 8 * (i / 8 + 1) := by omega
    exact iff_of_true (Or.inl hij) (Or.inr (Or.inl hbyte))
  · cases v <;> cases hbit : x.testBit j <;> simp [found, hij, hbit]

/-- Bit 8 is lost when bit 0 is cleared. -/
theorem setbit_clears_high_bit : setbit 256 0 false = some 0 ∧ ¬BitAccess 256 0 8 false := by
  refine ⟨by decide, ?_⟩
  intro h
  rcases (bitAccess_cut_iff 256 0 8 false).mp h with ⟨-, -, hij | hbit⟩
  · exact absurd hij (by decide)
  · exact absurd hbit (by decide)

/-- Bit 7 is kept when bit 0 is cleared. -/
theorem bitAccess_iff_same_byte : BitAccess 128 0 7 false :=
  ((bitAccess_iff 128 0 7 false).1 (by norm_num) (by norm_num)).mpr (Or.inr (Or.inl (by norm_num)))

end Drew.Bignum.Tommath
