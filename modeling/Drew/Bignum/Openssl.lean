import Mathlib.Tactic
import Drew.Bignum.Model

/-!
# The OpenSSL backend

Signs and bits in the backend that rests on OpenSSL. Its functions work on objects, so the values of all
objects are carried along, and one object may be passed twice. OpenSSL's own functions are written as
documented: a number is a sign and a magnitude, and zero has no sign.
-/

namespace Drew.Bignum.Openssl

open Drew.Bits

/-! ## What is used of OpenSSL -/

def BN_is_negative (a : Int) : Bool := decide (a < 0)

def BN_set_negative (a : Int) (n : Bool) : Int := if n then -(a.natAbs : Int) else a.natAbs

def BN_num_bits (a : Int) : Nat := a.natAbs.size

def BN_is_bit_set (a : Int) (n : Nat) : Bool := a.natAbs.testBit n

def BN_set_bit (a : Int) (n : Nat) : Int :=
  BN_set_negative (setBit a.natAbs n : Nat) (BN_is_negative a)

def BN_clear_bit (a : Int) (n : Nat) : Int :=
  BN_set_negative (clearBit a.natAbs n : Nat) (BN_is_negative a)

def BN_is_word (a : Int) (w : Nat) : Bool := decide (a.natAbs = w ∧ (w = 0 ∨ ¬a < 0))

def BN_ucmp (a b : Int) : Int := compare a.natAbs b.natAbs

/-- The magnitude of a `long`, in a `long`. -/
def labs (v : Int) : Int := Int.bmod v.natAbs (2 ^ 64)

/-! ## The functions -/

section Functions

variable {Obj : Type} [DecidableEq Obj] (σ : Obj → Int)

def negate (res a : Obj) : Obj → Int :=
  let σ := if res ≠ a then Function.update σ res (σ a) else σ
  Function.update σ res (BN_set_negative (σ res) !BN_is_negative (σ a))

def setsmall (ctx : Obj) (v : Int) : Obj → Int :=
  let σ := Function.update σ ctx (labs v % 2 ^ 64)
  if v < 0 then negate σ ctx ctx else σ

def abs (res a : Obj) : Obj → Int :=
  if BN_is_negative (σ res) then negate σ res a
  else if res = a then σ
  else Function.update σ res (σ a)

/-- The local number `t` is one object more. -/
def comparesmall (a : Obj) (val : Int) : Int :=
  if BN_is_word (σ a) (val % 2 ^ 64).toNat = false then
    let t : Option Obj := none
    let σ' : Option Obj → Int := fun o => o.elim (σ a) σ
    let σ' := setsmall σ' t val
    BN_ucmp (σ' (some a)) (σ' t)
  else 0

def bitwiseor (c a b : Obj) : Obj → Int :=
  let bbits := BN_num_bits (σ b)
  let t := (List.range bbits).foldl
    (fun t i => if BN_is_bit_set (σ b) i then BN_set_bit t i else t) (σ a)
  Function.update σ c t

def bitwiseand (c a b : Obj) : Obj → Int :=
  let bbits := BN_num_bits (σ b)
  let t := (List.range bbits).foldl
    (fun t i => if !BN_is_bit_set (σ b) i then BN_clear_bit t i else t) (σ a)
  Function.update σ c t

def bitwisexor (c a b : Obj) : Obj → Int :=
  let bbits := BN_num_bits (σ b)
  let t := (List.range bbits).foldl
    (fun t i => if BN_is_bit_set (σ a) i == BN_is_bit_set (σ b) i then BN_clear_bit t i
      else BN_set_bit t i) (σ a)
  Function.update σ c t

end Functions

/-! ## Signs -/

section Signs

variable {Obj : Type} [DecidableEq Obj] (σ : Obj → Int)

theorem negate_eq (res a : Obj) : negate σ res a = Function.update σ res (-σ a) := by
  have hsign : ∀ v : Int, BN_set_negative v (!BN_is_negative v) = -v := by
    intro v
    by_cases hv : v < 0
    · simp only [BN_set_negative, BN_is_negative, hv, decide_true, Bool.not_true, Bool.false_eq_true,
        if_false]
      omega
    · simp only [BN_set_negative, BN_is_negative, hv, decide_false, Bool.not_false, if_true]
      omega
  by_cases h : res = a
  · subst h
    simp only [negate, ne_eq, not_true_eq_false, if_false, hsign]
  · simp only [negate, ne_eq, h, not_false_eq_true, if_true, Function.update_self,
      Function.update_of_ne (Ne.symm h), hsign, Function.update_idem]

theorem labs_word {v : Int} (hlo : -2 ^ 63 ≤ v) (hhi : v < 2 ^ 63) : labs v % 2 ^ 64 = v.natAbs := by
  have hmod : labs v % 2 ^ 64 = (v.natAbs : Int) % 2 ^ 64 := Int.bmod_emod ..
  rw [hmod]
  exact Int.emod_eq_of_lt (Int.natCast_nonneg _) (by omega)

theorem setsmall_eq (ctx : Obj) {v : Int} (hlo : -2 ^ 63 ≤ v) (hhi : v < 2 ^ 63) :
    setsmall σ ctx v = Function.update σ ctx v := by
  by_cases hv : v < 0
  · simp only [setsmall, labs_word hlo hhi, hv, if_true, negate_eq, Function.update_self,
      Function.update_idem]
    congr 1
    omega
  · simp only [setsmall, labs_word hlo hhi, hv, if_false]
    congr 1
    omega

/-- `abs` looks at the sign of the number that it replaces. -/
theorem abs_eq (res a : Obj) :
    abs σ res a = Function.update σ res (if σ res < 0 then -σ a else σ a) := by
  by_cases hres : σ res < 0
  · simp only [abs, BN_is_negative, hres, decide_true, if_true, negate_eq]
  · by_cases h : res = a
    · subst h
      simp only [abs, BN_is_negative, hres, decide_false, Bool.false_eq_true, if_false, if_true,
        Function.update_eq_self]
    · simp only [abs, BN_is_negative, hres, decide_false, Bool.false_eq_true, if_false, h]

theorem update_eq_iff (res : Obj) (x y : Int) :
    Function.update σ res x = Function.update σ res y ↔ x = y :=
  (Function.update_injective σ res).eq_iff

/-- `comparesmall` compares magnitudes, but for a number that is the word of the `long`. -/
theorem comparesmall_eq (a : Obj) {v : Int} (hlo : -2 ^ 63 ≤ v) (hhi : v < 2 ^ 63) :
    comparesmall σ a v =
      if 0 ≤ σ a ∧ σ a = v % 2 ^ 64 then 0 else compare (σ a).natAbs v.natAbs := by
  have hpos : 0 ≤ v % 2 ^ 64 := Int.emod_nonneg v (by norm_num)
  have hword : BN_is_word (σ a) (v % 2 ^ 64).toNat = decide (0 ≤ σ a ∧ σ a = v % 2 ^ 64) := by
    rw [BN_is_word, decide_eq_decide]
    omega
  simp only [comparesmall, hword, setsmall_eq _ _ hlo hhi, BN_ucmp, Function.update_self,
    Function.update_of_ne (Option.some_ne_none a), Option.elim_some]
  by_cases h : 0 ≤ σ a ∧ σ a = v % 2 ^ 64
  · simp only [decide_eq_true h, if_pos h, Bool.true_eq_false, if_false]
  · simp only [decide_eq_false h, if_neg h, if_true]

theorem sign_compare (a b : Int) : (compare a b).sign = (a - b).sign := by
  unfold compare
  split
  · rw [Int.sign_eq_neg_one_of_neg (show a - b < 0 by omega)]
    rfl
  split
  · rw [show a - b = 0 by omega]
  · rw [Int.sign_eq_one_of_pos (show 0 < a - b by omega)]
    rfl

/-- `abs` is right if the number that it replaces has the sign of the other, or is it. -/
theorem abs_right_iff (res a : Obj) :
    abs σ res a = Function.update σ res |σ a| ↔ res = a ∨ σ a = 0 ∨ (σ res < 0 ↔ σ a < 0) := by
  rw [abs_eq, update_eq_iff, Int.abs_eq_natAbs]
  by_cases h : res = a
  · subst h
    refine iff_of_true ?_ (Or.inl rfl)
    split
    · omega
    · omega
  · simp only [h, false_or]
    split
    · omega
    · omega

/-- `comparesmall` is right for two numbers that are not negative and for equal ones. For a negative and a
positive one it is right if the positive one is farther from zero, unless it is the word of the other. -/
theorem comparesmall_right_iff (a : Obj) {v : Int} (hlo : -2 ^ 63 ≤ v) (hhi : v < 2 ^ 63) :
    (comparesmall σ a v).sign = (σ a - v).sign ↔
      (0 ≤ σ a ∧ 0 ≤ v) ∨ σ a = v ∨ (σ a < 0 ∧ -σ a < v) ∨
        (v < 0 ∧ -v < σ a ∧ σ a ≠ 2 ^ 64 + v) := by
  have hsign : ∀ x y : Int, x.sign = y.sign ↔ (0 < x ↔ 0 < y) ∧ (x < 0 ↔ y < 0) := by
    intro x y
    rcases lt_trichotomy x 0 with hx | rfl | hx <;> rcases lt_trichotomy y 0 with hy | rfl | hy <;>
      simp [Int.sign_eq_one_of_pos, Int.sign_eq_neg_one_of_neg, *] <;> omega
  rw [comparesmall_eq σ a hlo hhi]
  split
  · rw [hsign]
    omega
  · rw [sign_compare, hsign]
    omega

end Signs

/-! ## Bits -/

section Bits

theorem BN_set_bit_cast (t i : Nat) : BN_set_bit t i = (setBit t i : Nat) := by
  simp [BN_set_bit, BN_set_negative, BN_is_negative]

theorem BN_clear_bit_cast (t i : Nat) : BN_clear_bit t i = (clearBit t i : Nat) := by
  simp [BN_clear_bit, BN_set_negative, BN_is_negative]

/-- A loop on a number that is not negative is one on its magnitude. -/
theorem loop_cast {f : Int → Nat → Int} {g : Nat → Nat → Nat} (h : ∀ t i : Nat, f t i = g t i)
    (n t : Nat) : (List.range n).foldl f (t : Int) = ((List.range n).foldl g t : Nat) :=
  List.foldl_hom _ fun t i => h t i

variable (a b : Nat)

theorem loop_or :
    (List.range b.size).foldl (fun t i => if b.testBit i then setBit t i else t) a = a ||| b := by
  have hchanges : Changes (fun t i => if b.testBit i then setBit t i else t)
      fun i v => b.testBit i || v := by
    intro t i j
    beta_reduce
    by_cases hi : b.testBit i = true
    · simp only [hi, if_true, testBit_setBit, Bool.true_or]
    · by_cases hij : i = j
      · simp [hi, ← hij]
      · simp [hi, hij]
  apply Nat.eq_of_testBit_eq
  intro j
  rw [testBit_loop hchanges, Nat.testBit_or]
  split
  · exact Bool.or_comm _ _
  · next hj => rw [testBit_of_size_le (not_lt.mp hj), Bool.or_false]

theorem loop_xor :
    (List.range b.size).foldl (fun t i => if a.testBit i == b.testBit i then clearBit t i
      else setBit t i) a = a ^^^ b := by
  have hchanges : Changes (fun t i => if a.testBit i == b.testBit i then clearBit t i
      else setBit t i) fun i _ => a.testBit i ^^ b.testBit i := by
    intro t i j
    beta_reduce
    by_cases hi : a.testBit i = b.testBit i
    · simp [hi, testBit_clearBit]
    · have hxor : (a.testBit i ^^ b.testBit i) = true := bne_iff_ne.mpr hi
      simp [hi, hxor, testBit_setBit]
  apply Nat.eq_of_testBit_eq
  intro j
  rw [testBit_loop hchanges, Nat.testBit_xor]
  split
  · rfl
  · next hj => rw [testBit_of_size_le (not_lt.mp hj), Bool.xor_false]

/-- The loop of `bitwiseand` does not get to the bits that only the first operand has. -/
theorem testBit_loop_and (j : Nat) :
    ((List.range b.size).foldl (fun t i => if !b.testBit i then clearBit t i else t) a).testBit j =
      if j < b.size then a.testBit j && b.testBit j else a.testBit j := by
  have hchanges : Changes (fun t i => if !b.testBit i then clearBit t i else t)
      fun i v => v && b.testBit i := by
    intro t i j
    beta_reduce
    by_cases hi : b.testBit i = true
    · by_cases hij : i = j
      · simp [hi, ← hij]
      · simp [hi, hij]
    · simp [hi, testBit_clearBit]
  exact testBit_loop hchanges _ _ _

theorem loop_and_iff :
    (List.range b.size).foldl (fun t i => if !b.testBit i then clearBit t i else t) a = a &&& b ↔
      a < 2 ^ b.size := by
  constructor
  · intro h
    apply Nat.lt_pow_two_of_testBit
    intro j hj
    have hbit := testBit_loop_and a b j
    rw [h, if_neg (not_lt.mpr hj), Nat.testBit_and, testBit_of_size_le hj, Bool.and_false] at hbit
    exact hbit.symm
  · intro h
    apply Nat.eq_of_testBit_eq
    intro j
    rw [testBit_loop_and, Nat.testBit_and]
    split
    · rfl
    · next hj =>
        have hle : 2 ^ b.size ≤ 2 ^ j := Nat.pow_le_pow_right (by norm_num) (not_lt.mp hj)
        rw [Nat.testBit_lt_two_pow (h.trans_le hle), Bool.false_and]

end Bits

section Objects

variable {Obj : Type} [DecidableEq Obj] (σ : Obj → Int)

theorem bitwiseor_eq (c : Obj) {a b : Obj} {m n : Nat} (ha : σ a = m) (hb : σ b = n) :
    bitwiseor σ c a b = Function.update σ c (m ||| n : Nat) := by
  have hloop := loop_cast (f := fun t i => if BN_is_bit_set n i then BN_set_bit t i else t)
    (g := fun t i => if n.testBit i then setBit t i else t) (by
      intro t i
      simp only [BN_is_bit_set, Int.natAbs_natCast, BN_set_bit_cast]
      split <;> rfl)
  simp only [bitwiseor, ha, hb, BN_num_bits, Int.natAbs_natCast, hloop, loop_or]

theorem bitwisexor_eq (c : Obj) {a b : Obj} {m n : Nat} (ha : σ a = m) (hb : σ b = n) :
    bitwisexor σ c a b = Function.update σ c (m ^^^ n : Nat) := by
  have hloop := loop_cast
    (f := fun t i => if BN_is_bit_set m i == BN_is_bit_set n i then BN_clear_bit t i
      else BN_set_bit t i)
    (g := fun t i => if m.testBit i == n.testBit i then clearBit t i else setBit t i) (by
      intro t i
      simp only [BN_is_bit_set, Int.natAbs_natCast, BN_set_bit_cast, BN_clear_bit_cast]
      split <;> rfl)
  simp only [bitwisexor, ha, hb, BN_num_bits, Int.natAbs_natCast, hloop, loop_xor]

theorem bitwiseand_right_iff (c : Obj) {a b : Obj} {m n : Nat} (ha : σ a = m) (hb : σ b = n) :
    bitwiseand σ c a b = Function.update σ c (m &&& n : Nat) ↔ m < 2 ^ n.size := by
  have hloop := loop_cast (f := fun t i => if !BN_is_bit_set n i then BN_clear_bit t i else t)
    (g := fun t i => if !n.testBit i then clearBit t i else t) (by
      intro t i
      simp only [BN_is_bit_set, Int.natAbs_natCast, BN_clear_bit_cast]
      split <;> rfl)
  simp only [bitwiseand, ha, hb, BN_num_bits, Int.natAbs_natCast, hloop, update_eq_iff, Nat.cast_inj,
    loop_and_iff]

end Objects

/-! ## Whole functions -/

/-- The bitwise operations on numbers that are not negative, the result among the operands or not: `or`
and `xor` are right, and `and` is if the first operand has no more bits than the second. -/
theorem bitwise_iff {Obj : Type} [DecidableEq Obj] (σ : Obj → Int) (c a b : Obj) (ha : 0 ≤ σ a)
    (hb : 0 ≤ σ b) :
    bitwiseor σ c a b = Function.update σ c ((σ a).toNat ||| (σ b).toNat : Nat) ∧
      bitwisexor σ c a b = Function.update σ c ((σ a).toNat ^^^ (σ b).toNat : Nat) ∧
      (bitwiseand σ c a b = Function.update σ c ((σ a).toNat &&& (σ b).toNat : Nat) ↔
        σ a < 2 ^ BN_num_bits (σ b)) := by
  have ha' : σ a = (σ a).toNat := (Int.toNat_of_nonneg ha).symm
  have hb' : σ b = (σ b).toNat := (Int.toNat_of_nonneg hb).symm
  refine ⟨bitwiseor_eq σ c ha' hb', bitwisexor_eq σ c ha' hb', ?_⟩
  rw [bitwiseand_right_iff σ c ha' hb', BN_num_bits, ← Int.toNat_of_nonneg ha, Int.toNat_natCast,
    show (σ b).natAbs = (σ b).toNat by omega]
  exact_mod_cast Iff.rfl

/-- Two and one have no bit in common. -/
theorem bitwiseand_keeps_high_bit :
    bitwiseand (fun o : Bool => if o then 2 else 1) true true false true = 2 ∧
      bitwiseand (fun o : Bool => if o then 2 else 1) true true false ≠
        Function.update (fun o : Bool => if o then 2 else 1) true ((2 &&& 1 : Nat) : Int) := by
  have hval : bitwiseand (fun o : Bool => if o then 2 else 1) true true false true = 2 := by decide
  refine ⟨hval, ?_⟩
  intro h
  rw [h] at hval
  exact absurd hval (by decide)

/-- One and two, the result in the first operand. -/
theorem bitwise_iff_one :
    bitwiseand (fun o : Bool => if o then 1 else 2) true true false =
      Function.update (fun o : Bool => if o then 1 else 2) true ((1 &&& 2 : Nat) : Int) :=
  (bitwise_iff (fun o : Bool => if o then 1 else 2) true true false (by decide) (by decide)).2.2.mpr
    (by decide)

/-- Signs, for every value of the object that gets the result: `negate` and `setsmall` are right, `abs`
and `comparesmall` under their conditions. -/
theorem signs_iff {Obj : Type} [DecidableEq Obj] (σ : Obj → Int) (res a : Obj) (v : Int)
    (hlo : -2 ^ 63 ≤ v) (hhi : v < 2 ^ 63) :
    negate σ res a = Function.update σ res (-σ a) ∧
      setsmall σ res v = Function.update σ res v ∧
      (abs σ res a = Function.update σ res |σ a| ↔
        res = a ∨ σ a = 0 ∨ (σ res < 0 ↔ σ a < 0)) ∧
      ((comparesmall σ a v).sign = (σ a - v).sign ↔
        (0 ≤ σ a ∧ 0 ≤ v) ∨ σ a = v ∨ (σ a < 0 ∧ -σ a < v) ∨
          (v < 0 ∧ -v < σ a ∧ σ a ≠ 2 ^ 64 + v)) :=
  ⟨negate_eq σ res a, setsmall_eq σ res hlo hhi, abs_right_iff σ res a,
    comparesmall_right_iff σ a hlo hhi⟩

/-- The absolute value of one, into a number that was negative; and two against minus three. -/
theorem signs_go_wrong :
    abs (fun o : Bool => if o then -1 else 1) true false true = -1 ∧
      abs (fun o : Bool => if o then -1 else 1) true false ≠
        Function.update (fun o : Bool => if o then -1 else 1) true |1| ∧
      (comparesmall (fun _ : Unit => 2) () (-3)).sign ≠ ((2 : Int) - -3).sign := by
  have hval : abs (fun o : Bool => if o then -1 else 1) true false true = -1 := by decide
  refine ⟨hval, ?_, by decide⟩
  intro h
  rw [h] at hval
  exact absurd hval (by decide)

/-- The absolute value of a number in place, and a comparison of it with a smaller one. -/
theorem signs_iff_in_place :
    abs (fun _ : Unit => 5) () () = Function.update (fun _ => 5) () |5| ∧
      (comparesmall (fun _ : Unit => 5) () 3).sign = ((5 : Int) - 3).sign := by
  have h := signs_iff (fun _ : Unit => 5) () () 3 (by norm_num) (by norm_num)
  exact ⟨h.2.2.1.mpr (Or.inl rfl), h.2.2.2.mpr (Or.inl ⟨by norm_num, by norm_num⟩)⟩

end Drew.Bignum.Openssl
