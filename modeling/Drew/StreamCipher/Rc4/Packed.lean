import Mathlib.Data.Nat.Bitwise
import Drew.StreamCipher.Rc4.Prga

/-!
# The permutation in one number

Each value is a byte of the number, so that a run of the generator is a computation on numbers. It
gives the bytes of a fixed key without an array.
-/

namespace Drew.StreamCipher.Rc4

/-- The value at an index. -/
def byteAt (s x : Nat) : Nat := (s >>> (8 * x)) % 2 ^ 8

/-- The two values change places, because their difference is added to both. -/
def swapAt (s x y : Nat) : Nat :=
  let d := byteAt s x ^^^ byteAt s y
  s ^^^ (d <<< (8 * x) ^^^ d <<< (8 * y))

theorem testBit_byteAt (s x t : Nat) : (byteAt s x).testBit t = (decide (t < 8) && s.testBit (8 * x + t)) := by
  rw [byteAt, Nat.testBit_mod_two_pow, Nat.testBit_shiftRight]

theorem byteAt_shiftLeft {d : Nat} (hd : d < 2 ^ 8) (x y : Nat) :
    byteAt (d <<< (8 * x)) y = if y = x then d else 0 := by
  apply Nat.eq_of_testBit_eq
  intro t
  rw [testBit_byteAt, Nat.testBit_shiftLeft]
  have hhigh : ∀ i, 8 ≤ i → d.testBit i = false := fun i hi =>
    Nat.testBit_lt_two_pow (hd.trans_le (Nat.pow_le_pow_right (by decide) hi))
  by_cases ht : t < 8
  · rcases lt_trichotomy y x with hlt | rfl | hgt
    · rw [if_neg hlt.ne, Nat.zero_testBit, decide_eq_false (by omega : ¬ 8 * y + t ≥ 8 * x), Bool.false_and,
        Bool.and_false]
    · rw [if_pos rfl, Nat.add_sub_cancel_left, decide_eq_true ht, decide_eq_true (Nat.le_add_right _ _),
        Bool.true_and, Bool.true_and]
    · rw [if_neg hgt.ne', Nat.zero_testBit, hhigh _ (by omega), Bool.and_false, Bool.and_false]
  · rw [decide_eq_false ht, Bool.false_and]
    split
    · exact (hhigh t (not_lt.mp ht)).symm
    · exact (Nat.zero_testBit t).symm

theorem byteAt_xor (s s' x : Nat) : byteAt (s ^^^ s') x = byteAt s x ^^^ byteAt s' x := by
  rw [byteAt, Nat.shiftRight_xor_distrib, Nat.xor_mod_two_pow]
  rfl

theorem byteAt_lt (s x : Nat) : byteAt s x < 2 ^ 8 := Nat.mod_lt _ (by decide)

theorem byteAt_swapAt (s x y z : Nat) :
    byteAt (swapAt s x y) z = if z = x then byteAt s y else if z = y then byteAt s x else byteAt s z := by
  have hd := Nat.xor_lt_two_pow (byteAt_lt s x) (byteAt_lt s y)
  rw [swapAt, byteAt_xor, byteAt_xor, byteAt_shiftLeft hd, byteAt_shiftLeft hd]
  by_cases hx : z = x
  · subst hx
    rw [if_pos rfl, if_pos rfl]
    by_cases hy : z = y
    · subst hy
      rw [if_pos rfl, Nat.xor_self, Nat.xor_zero]
    · rw [if_neg hy, Nat.xor_zero, ← Nat.xor_assoc, Nat.xor_self, Nat.zero_xor]
  · rw [if_neg hx, if_neg hx, Nat.zero_xor]
    by_cases hy : z = y
    · subst hy
      rw [if_pos rfl, if_pos rfl, Nat.xor_comm (byteAt s x), ← Nat.xor_assoc, Nat.xor_self, Nat.zero_xor]
    · rw [if_neg hy, if_neg hy, Nat.xor_zero]

/-! ## The generator -/

/-- The number has the values of a permutation. -/
def Packs (s : Nat) (S : Equiv.Perm (Fin 256)) : Prop := ∀ x : Fin 256, byteAt s x = (S x).val

variable {s j : Nat} {S : Equiv.Perm (Fin 256)} {g : Prga}

theorem Packs.swap (h : Packs s S) (x y : Fin 256) : Packs (swapAt s x y) (S * Equiv.swap x y) := by
  intro z
  rw [byteAt_swapAt, Equiv.Perm.mul_apply, Equiv.swap_apply_def]
  by_cases hx : z = x
  · rw [if_pos (congrArg Fin.val hx), if_pos hx, h]
  · rw [if_neg (fun hval => hx (Fin.ext hval)), if_neg hx]
    by_cases hy : z = y
    · rw [if_pos (congrArg Fin.val hy), if_pos hy, h]
    · rw [if_neg (fun hval => hy (Fin.ext hval)), if_neg hy, h]

/-- One step of the schedule. -/
def packedKeyStep (key : List UInt8) (r : Nat × Nat) (i : Nat) : Nat × Nat :=
  let j := (r.2 + (byteAt r.1 i + (key.getD (i % key.length) 0).toNat)) % 256
  (swapAt r.1 i j, j)

/-- One step of the generator, from the index of it. -/
def packedStep (r : Nat × Nat) (i : Nat) : Nat × Nat :=
  let j := (r.2 + byteAt r.1 i) % 256
  (swapAt r.1 i j, j)

/-- The value that a step puts out. -/
def packedOut (r : Nat × Nat) (i : Nat) : Nat :=
  let r := packedStep r i
  byteAt r.1 ((byteAt r.1 i + byteAt r.1 r.2) % 256)

theorem packedKeyStep_spec {key : List UInt8} {r : Nat × Nat} {q : Equiv.Perm (Fin 256) × Fin 256}
    (h : Packs r.1 q.1 ∧ r.2 = q.2.val) (i : Fin 256) :
    Packs (packedKeyStep key r i).1 (scheduleStep key q i).1 ∧
      (packedKeyStep key r i).2 = (scheduleStep key q i).2.val := by
  have hj : (packedKeyStep key r i).2 = (scheduleStep key q i).2.val := by
    rw [packedKeyStep, scheduleStep]
    dsimp only
    rw [Fin.val_add, Fin.val_add, h.1, h.2, Nat.add_mod_mod]
    change _ = (q.2.val + ((q.1 i).val + _ % 256)) % 256
    omega
  refine ⟨?_, hj⟩
  have hswap := h.1.swap i (scheduleStep key q i).2
  rwa [← hj] at hswap

theorem packedStep_spec (h : Packs s g.S) (hj : j = g.j.val) :
    Packs (packedStep (s, j) (g.i + 1 : Fin 256)).1 g.step.1.S ∧
      (packedStep (s, j) (g.i + 1 : Fin 256)).2 = g.step.1.j.val := by
  have hnext : (packedStep (s, j) (g.i + 1 : Fin 256)).2 = g.step.1.j.val := by
    change (j + byteAt s (g.i + 1 : Fin 256)) % 256 = (g.j + g.S (g.i + 1)).val
    rw [Fin.val_add g.j, h, hj]
  refine ⟨?_, hnext⟩
  have hswap := h.swap (g.i + 1) g.step.1.j
  rwa [← hnext] at hswap

theorem packedOut_spec (h : Packs s g.S) (hj : j = g.j.val) :
    UInt8.ofNat (packedOut (s, j) (g.i + 1 : Fin 256)) = g.step.2 := by
  rcases packedStep_spec h hj with ⟨hs, hnext⟩
  have hsum : (byteAt (packedStep (s, j) (g.i + 1 : Fin 256)).1 (g.i + 1 : Fin 256) +
      byteAt (packedStep (s, j) (g.i + 1 : Fin 256)).1 (packedStep (s, j) (g.i + 1 : Fin 256)).2) % 256 =
      (g.step.1.S (g.i + 1) + g.step.1.S g.step.1.j).val := by
    rw [hnext, hs, hs, Fin.val_add]
  rw [packedOut, hsum, hs]
  rfl

/-- The number of the identity, as far as an index. -/
def packedStart : Nat → Nat
  | 0 => 0
  | n + 1 => packedStart n ^^^ n <<< (8 * n)

theorem byteAt_packedStart {n : Nat} (hn : n ≤ 256) (x : Nat) :
    byteAt (packedStart n) x = if x < n then x else 0 := by
  induction n with
  | zero =>
    rw [if_neg (Nat.not_lt_zero x), packedStart, byteAt, Nat.zero_shiftRight, Nat.zero_mod]
  | succ n ih =>
    rw [packedStart, byteAt_xor, ih (by omega), byteAt_shiftLeft (by omega : n < 2 ^ 8)]
    rcases lt_trichotomy x n with hlt | rfl | hgt
    · rw [if_pos hlt, if_neg hlt.ne, if_pos (by omega), Nat.xor_zero]
    · rw [if_neg (lt_irrefl x), if_pos rfl, if_pos (Nat.lt_succ_self x), Nat.zero_xor]
    · rw [if_neg (by omega), if_neg hgt.ne', if_neg (by omega), Nat.xor_self]

theorem packs_packedStart : Packs (packedStart 256) 1 := by
  intro x
  rw [byteAt_packedStart (le_refl _), if_pos x.isLt]
  rfl

/-- The number after the schedule. -/
def packedSchedule (key : List UInt8) : Nat :=
  ((List.finRange 256).foldl (fun r i => packedKeyStep key r i.val) (packedStart 256, 0)).1

theorem packs_packedSchedule (key : List UInt8) : Packs (packedSchedule key) (schedule key).S := by
  have hfold : ∀ (is : List (Fin 256)) (r : Nat × Nat) (q : Equiv.Perm (Fin 256) × Fin 256),
      Packs r.1 q.1 ∧ r.2 = q.2.val →
      Packs (is.foldl (fun r i => packedKeyStep key r i.val) r).1 (is.foldl (scheduleStep key) q).1 := by
    intro is
    induction is with
    | nil => exact fun _ _ h => h.1
    | cons i is ih => exact fun r q h => ih _ _ (packedKeyStep_spec h i)
  exact hfold _ _ _ ⟨packs_packedStart, rfl⟩

/-- The number and the index after some steps. -/
def packedAfter (r : Nat × Nat) : Nat → Nat × Nat
  | 0 => r
  | n + 1 => packedStep (packedAfter r n) ((n + 1) % 256)

theorem packedAfter_spec (key : List UInt8) (n : Nat) :
    Packs (packedAfter (packedSchedule key, 0) n).1 ((schedule key).after n).S ∧
      (packedAfter (packedSchedule key, 0) n).2 = ((schedule key).after n).j.val := by
  induction n with
  | zero => exact ⟨packs_packedSchedule key, rfl⟩
  | succ n ih =>
    have hi : (((schedule key).after n).i + 1 : Fin 256).val = (n + 1) % 256 := by
      rw [Fin.val_add, Prga.after_i]
      change ((0 + n) % 256 + 1) % 256 = _
      omega
    have hstep := packedStep_spec ih.1 ih.2
    rw [hi] at hstep
    rwa [Prga.after_step] at hstep

end Drew.StreamCipher.Rc4
