import Drew.Hash.Keccak

/-!
# The rounds of Keccak

The state has 25 lanes, that of column `x` and row `y` at the index `x + 5 * y`. There are three
functions: the plain one (`keccakF`), one that keeps six lanes inverted in order to have fewer
complements (`keccakFLimitedNots`), and one that computes a round and the parities for the next
one at once (`keccakFCompact`). The first and the last are the permutation, and so is the other
one between two inversions of the six lanes.

Each step of a round is compared with the step of the permutation on the bits (`bits`).
-/

namespace Drew.Keccak

open KeccakF

abbrev Lane := BitVec 64

abbrev State := Vector Lane 25

theorem lane_lt (x y : Fin 5) : x.val + 5 * y.val < 25 := by omega

theorem column_lt (i : Fin 25) : i.val % 5 < 5 := Nat.mod_lt _ (Nat.succ_pos 4)

theorem row_lt (i : Fin 25) : i.val / 5 < 5 := Nat.div_lt_of_lt_mul i.isLt

theorem lt_25 (i : Fin 25) : i.val < 25 := i.isLt

/-- The index of a lane. -/
def lane (x y : Fin 5) : Fin 25 := ⟨x.val + 5 * y.val, lane_lt x y⟩

def column (i : Fin 25) : Fin 5 := ⟨i.val % 5, column_lt i⟩

def row (i : Fin 25) : Fin 5 := ⟨i.val / 5, row_lt i⟩

def rotateLeft (x : Lane) (n : Nat) : Lane := x <<< n ||| x >>> (64 - n)

/-! ## The steps of the plain rounds -/

/-- The parities of the columns. -/
def parities (a : State) : Vector Lane 5 := Vector.ofFn fun i =>
  a.get (lane i 0) ^^^ a.get (lane i 1) ^^^ a.get (lane i 2) ^^^ a.get (lane i 3) ^^^ a.get (lane i 4)

/-- What is added to the lanes of a column. -/
def columnSum (c : Vector Lane 5) (i : Fin 5) : Lane := c.get (i + 4) ^^^ rotateLeft (c.get (i + 1)) 1

def theta (a : State) : State :=
  let c := parities a
  Vector.ofFn fun i => a.get i ^^^ columnSum c (column i)

/-- The distances, in the order of the lanes. -/
def rhoTable : Vector Nat 25 :=
  #v[ 0,  1, 62, 28, 27,
     36, 44,  6, 55, 20,
      3, 10, 43, 25, 39,
     41, 45, 15, 21,  8,
     18,  2, 61, 56, 14]

/-- Where a lane goes to. -/
def piTarget (i : Fin 25) : Fin 25 := lane (row i) (2 * column i + 3 * row i)

/-- The first lane stays as it is. -/
def rhoLane (a : State) (i : Fin 25) : Lane :=
  if i = lane 0 0 then a.get i else rotateLeft (a.get i) (rhoTable.get i)

/-- Every lane is rotated and stored in its new place. -/
def rhopi (a : State) : State :=
  (List.finRange 25).foldl (fun b i => b.set (piTarget i) (rhoLane a i) (lt_25 (piTarget i)))
    (Vector.replicate 25 0)

/-- One row. -/
def chiRow (v w x y z : Lane) : Vector Lane 5 :=
  #v[v ^^^ (~~~w &&& x),
     w ^^^ (~~~x &&& y),
     x ^^^ (~~~y &&& z),
     y ^^^ (~~~z &&& v),
     z ^^^ (~~~v &&& w)]

def chi (b : State) : State := Vector.ofFn fun i =>
  let j := row i
  (chiRow (b.get (lane 0 j)) (b.get (lane 1 j)) (b.get (lane 2 j)) (b.get (lane 3 j))
    (b.get (lane 4 j))).get (column i)

/-- The lanes with fewer complements, by column and row. -/
def limitedNotsLane (b : Fin 5 → Fin 5 → Lane) : Fin 5 → Fin 5 → Lane
  | 0, 0 => b 0 0 ^^^ (b 1 0 ||| b 2 0)
  | 0, 1 => b 0 1 ^^^ (b 1 1 ||| b 2 1)
  | 0, 2 => b 0 2 ^^^ (b 1 2 ||| b 2 2)
  | 0, 3 => b 0 3 ^^^ (b 1 3 &&& b 2 3)
  | 0, 4 => b 0 4 ^^^ (~~~b 1 4 &&& b 2 4)
  | 1, 0 => b 1 0 ^^^ (~~~b 2 0 ||| b 3 0)
  | 1, 1 => b 1 1 ^^^ (b 2 1 &&& b 3 1)
  | 1, 2 => b 1 2 ^^^ (b 2 2 &&& b 3 2)
  | 1, 3 => b 1 3 ^^^ (b 2 3 ||| b 3 3)
  | 1, 4 => ~~~b 1 4 ^^^ (b 2 4 ||| b 3 4)
  | 2, 0 => b 2 0 ^^^ (b 3 0 &&& b 4 0)
  | 2, 1 => b 2 1 ^^^ (b 3 1 ||| ~~~b 4 1)
  | 2, 2 => b 2 2 ^^^ (~~~b 3 2 &&& b 4 2)
  | 2, 3 => b 2 3 ^^^ (~~~b 3 3 ||| b 4 3)
  | 2, 4 => b 2 4 ^^^ (b 3 4 &&& b 4 4)
  | 3, 0 => b 3 0 ^^^ (b 4 0 ||| b 0 0)
  | 3, 1 => b 3 1 ^^^ (b 4 1 ||| b 0 1)
  | 3, 2 => ~~~b 3 2 ^^^ (b 4 2 ||| b 0 2)
  | 3, 3 => ~~~b 3 3 ^^^ (b 4 3 &&& b 0 3)
  | 3, 4 => b 3 4 ^^^ (b 4 4 ||| b 0 4)
  | 4, 0 => b 4 0 ^^^ (b 0 0 &&& b 1 0)
  | 4, 1 => b 4 1 ^^^ (b 0 1 &&& b 1 1)
  | 4, 2 => b 4 2 ^^^ (b 0 2 &&& b 1 2)
  | 4, 3 => b 4 3 ^^^ (b 0 3 ||| b 1 3)
  | 4, 4 => b 4 4 ^^^ (b 0 4 &&& b 1 4)

def chiLimitedNots (b : State) : State := Vector.ofFn fun i =>
  limitedNotsLane (fun x y => b.get (lane x y)) (column i) (row i)

def iota (a : State) (k : Lane) : State := a.set (lane 0 0) (a.get (lane 0 0) ^^^ k) (lt_25 (lane 0 0))

/-- A round, with one of the two functions of the rows. -/
def round (chi : State → State) (a : State) (k : Lane) : State := iota (chi (rhopi (theta a))) k

/-- The constants of the rounds. -/
def rc : Vector Lane 24 :=
  #v[0x0000000000000001, 0x0000000000008082,
     0x800000000000808a, 0x8000000080008000,
     0x000000000000808b, 0x0000000080000001,
     0x8000000080008081, 0x8000000000008009,
     0x000000000000008a, 0x0000000000000088,
     0x0000000080008009, 0x000000008000000a,
     0x000000008000808b, 0x800000000000008b,
     0x8000000000008089, 0x8000000000008003,
     0x8000000000008002, 0x8000000000000080,
     0x000000000000800a, 0x800000008000000a,
     0x8000000080008081, 0x8000000000008080,
     0x0000000080000001, 0x8000000080008008]

/-- The loop of the source has six rounds in its body. -/
def keccakF (state : State) : State := rc.toList.foldl (round chi) state

def keccakFLimitedNots (state : State) : State := rc.toList.foldl (round chiLimitedNots) state

/-- The lanes that are kept inverted. -/
def notLanes : List (Fin 25) := [lane 1 0, lane 2 0, lane 3 1, lane 2 2, lane 2 3, lane 0 4]

def complement (state : State) : State :=
  notLanes.foldl (fun s i => s.set i.val (~~~s.get i) (lt_25 i)) state

/-! ## The compact rounds -/

/-- The lanes of the next state, in five pieces, each from the lanes that come into one row. -/
def nextLanes (a : State) (c : Vector Lane 5) (k : Lane) : State :=
  let d0 := c.get 4 ^^^ rotateLeft (c.get 1) 1
  let d1 := c.get 0 ^^^ rotateLeft (c.get 2) 1
  let d2 := c.get 1 ^^^ rotateLeft (c.get 3) 1
  let d3 := c.get 2 ^^^ rotateLeft (c.get 4) 1
  let d4 := c.get 3 ^^^ rotateLeft (c.get 0) 1
  let p1 := chiRow (a.get 0 ^^^ d0) (rotateLeft (a.get 6 ^^^ d1) 44) (rotateLeft (a.get 12 ^^^ d2) 43)
    (rotateLeft (a.get 18 ^^^ d3) 21) (rotateLeft (a.get 24 ^^^ d4) 14)
  let p2 := chiRow (rotateLeft (a.get 3 ^^^ d3) 28) (rotateLeft (a.get 9 ^^^ d4) 20)
    (rotateLeft (a.get 10 ^^^ d0) 3) (rotateLeft (a.get 16 ^^^ d1) 45) (rotateLeft (a.get 22 ^^^ d2) 61)
  let p3 := chiRow (rotateLeft (a.get 1 ^^^ d1) 1) (rotateLeft (a.get 7 ^^^ d2) 6)
    (rotateLeft (a.get 13 ^^^ d3) 25) (rotateLeft (a.get 19 ^^^ d4) 8) (rotateLeft (a.get 20 ^^^ d0) 18)
  let p4 := chiRow (rotateLeft (a.get 4 ^^^ d4) 27) (rotateLeft (a.get 5 ^^^ d0) 36)
    (rotateLeft (a.get 11 ^^^ d1) 10) (rotateLeft (a.get 17 ^^^ d2) 15) (rotateLeft (a.get 23 ^^^ d3) 56)
  let p5 := chiRow (rotateLeft (a.get 2 ^^^ d2) 62) (rotateLeft (a.get 8 ^^^ d3) 55)
    (rotateLeft (a.get 14 ^^^ d4) 39) (rotateLeft (a.get 15 ^^^ d0) 41) (rotateLeft (a.get 21 ^^^ d1) 2)
  #v[p1.get 0 ^^^ k, p1.get 1, p1.get 2, p1.get 3, p1.get 4,
     p2.get 0, p2.get 1, p2.get 2, p2.get 3, p2.get 4,
     p3.get 0, p3.get 1, p3.get 2, p3.get 3, p3.get 4,
     p4.get 0, p4.get 1, p4.get 2, p4.get 3, p4.get 4,
     p5.get 0, p5.get 1, p5.get 2, p5.get 3, p5.get 4]

/-- The parities of the new lanes are summed up as these are stored. -/
def round2 (a : State) (c : Vector Lane 5) (k : Lane) : State × Vector Lane 5 :=
  let e := nextLanes a c k
  (e, parities e)

def round1 (a : State) (k : Lane) : State × Vector Lane 5 := round2 a (parities a) k

/-- The parities are not needed after the last round. -/
def round3 (a : State) (c : Vector Lane 5) (k : Lane) : State := nextLanes a c k

/-- The two arrays of lanes change their roles with every round. -/
def keccakFCompact (state : State) : State :=
  let s := (List.range 11).foldl
    (fun (s : State × Vector Lane 5) i =>
      let s := round2 s.1 s.2 (rc.get (Fin.ofNat 24 (2 * i + 1)))
      round2 s.1 s.2 (rc.get (Fin.ofNat 24 (2 * i + 2))))
    (round1 state (rc.get 0))
  round3 s.1 s.2 (rc.get 23)

/-! ## Lanes -/

variable {a b : State}

@[simp] theorem column_lane (x y : Fin 5) : column (lane x y) = x := by
  ext
  simp only [column, lane]
  omega

@[simp] theorem row_lane (x y : Fin 5) : row (lane x y) = y := by
  ext
  simp only [row, lane]
  omega

theorem lane_column_row (i : Fin 25) : lane (column i) (row i) = i := by
  ext
  simp only [lane, column, row]
  omega

theorem get_ofFn {α : Type} {n : Nat} (f : Fin n → α) (i : Fin n) : (Vector.ofFn f).get i = f i :=
  Vector.getElem_ofFn i.isLt

theorem state_ext (h : ∀ x y, a.get (lane x y) = b.get (lane x y)) : a = b := by
  apply Vector.ext
  intro i hi
  have hlane := h (column ⟨i, hi⟩) (row ⟨i, hi⟩)
  rwa [lane_column_row] at hlane

/-- A loop that stores an element in each place. -/
theorem get_foldl_set {α : Type} {n : Nat} {t : Fin n → Fin n} (ht : Function.Injective t)
    (hlt : ∀ i, (t i).val < n) (f : Fin n → α) (l : List (Fin n)) (hl : l.Nodup) {j : Fin n}
    (hj : j ∈ l) (b : Vector α n) :
    (l.foldl (fun b i => b.set (t i) (f i) (hlt i)) b).get (t j) = f j := by
  induction l using List.reverseRecOn with
  | nil => cases hj
  | append_singleton l i ih =>
    have hnodup : l.Nodup := hl.of_append_left
    rw [List.foldl_concat]
    change (Vector.set _ _ _ _)[(t j).val] = _
    rw [Vector.getElem_set]
    by_cases h : i = j
    · rw [h, if_pos rfl]
    · have hne : (t i).val ≠ (t j).val := fun hv => h (ht (Fin.ext hv))
      have hmem : j ∈ l := by
        rcases List.mem_append.mp hj with hj | hj
        · exact hj
        · exact absurd (List.mem_singleton.mp hj).symm h
      rw [if_neg hne]
      exact ih hnodup hmem

theorem piTarget_lane (x y : Fin 5) : piTarget (lane x y) = lane y (2 * x + 3 * y) := by
  rw [piTarget, column_lane, row_lane]

theorem piTarget_injective : Function.Injective piTarget := by decide

/-- The lane that comes into a place. -/
theorem get_rhopi (a : State) (x y : Fin 5) :
    (rhopi a).get (lane x y) = rhoLane a (lane (x + 3 * y) x) := by
  have htarget : ∀ x y : Fin 5, lane x y = piTarget (lane (x + 3 * y) x) := by decide
  rw [htarget]
  exact get_foldl_set piTarget_injective (fun i => lt_25 (piTarget i)) (rhoLane a) _
    (List.nodup_finRange 25) (List.mem_finRange _) _

theorem get_theta (a : State) (x y : Fin 5) :
    (theta a).get (lane x y) = a.get (lane x y) ^^^ columnSum (parities a) x := by
  rw [theta, get_ofFn, column_lane]

theorem get_chi (b : State) (x y : Fin 5) :
    (chi b).get (lane x y) =
      b.get (lane x y) ^^^ (~~~b.get (lane (x + 1) y) &&& b.get (lane (x + 2) y)) := by
  rw [chi, get_ofFn, column_lane, row_lane]
  fin_cases x <;> rfl

theorem get_chiLimitedNots (b : State) (x y : Fin 5) :
    (chiLimitedNots b).get (lane x y) = limitedNotsLane (fun x y => b.get (lane x y)) x y := by
  rw [chiLimitedNots, get_ofFn, column_lane, row_lane]

theorem get_iota (a : State) (k : Lane) (x y : Fin 5) :
    (iota a k).get (lane x y) = a.get (lane x y) ^^^ if x = 0 ∧ y = 0 then k else 0#64 := by
  have hindex : ((lane 0 0).val = (lane x y).val) ↔ x = 0 ∧ y = 0 := by
    simp only [lane, Fin.ext_iff]
    omega
  change (Vector.set _ _ _ _)[(lane x y).val] = _
  rw [Vector.getElem_set]
  by_cases h : x = 0 ∧ y = 0
  · rw [if_pos (hindex.mpr h), if_pos h, h.1, h.2]
  · rw [if_neg (fun hl => h (hindex.mp hl)), if_neg h]
    exact (BitVec.xor_zero).symm

/-! ## The compact rounds -/

theorem nextLanes_eq (a : State) (k : Lane) : nextLanes a (parities a) k = round chi a k := by
  apply state_ext
  intro x y
  rw [round, get_iota, get_chi, get_rhopi, get_rhopi, get_rhopi]
  simp only [rhoLane, get_theta]
  by_cases hfirst : x = 0 ∧ y = 0
  · obtain ⟨rfl, rfl⟩ := hfirst
    rfl
  · rw [if_neg hfirst, BitVec.xor_zero]
    fin_cases x <;> fin_cases y <;> first | exact absurd ⟨rfl, rfl⟩ hfirst | rfl

theorem round2_eq (a : State) (k : Lane) :
    round2 a (parities a) k = (round chi a k, parities (round chi a k)) := by
  rw [round2, nextLanes_eq]

/-- The loop has the lanes and their parities before each of its turns. -/
theorem foldl_round2 (l : List Nat) (k₁ k₂ : Nat → Lane) (a : State) :
    l.foldl (fun (s : State × Vector Lane 5) i =>
        let s := round2 s.1 s.2 (k₁ i)
        round2 s.1 s.2 (k₂ i)) (a, parities a) =
      (l.foldl (fun a i => round chi (round chi a (k₁ i)) (k₂ i)) a,
        parities (l.foldl (fun a i => round chi (round chi a (k₁ i)) (k₂ i)) a)) := by
  induction l generalizing a with
  | nil => rfl
  | cons i l ih =>
    rw [List.foldl_cons, List.foldl_cons]
    simp only [round2_eq]
    exact ih _

theorem keccakFCompact_eq (state : State) : keccakFCompact state = keccakF state := by
  rw [keccakFCompact, round1, round2_eq, foldl_round2, round3, nextLanes_eq]
  rfl

/-! ## Bits -/

/-- The bits of the lanes. -/
def bits (a : State) : Bits := fun x y z => (a.get (lane x y)).getLsbD z

theorem bits_injective : Function.Injective bits := by
  intro a b h
  apply state_ext
  intro x y
  apply BitVec.eq_of_getLsbD_eq
  intro z hz
  exact congrFun (congrFun (congrFun h x) y) ⟨z, hz⟩

theorem getLsbD_rotateLeft (x : Lane) {n : Nat} (hpos : 0 < n) (hlt : n < 64) (z : Fin 64) :
    (rotateLeft x n).getLsbD z = x.getLsbD (z - Fin.ofNat 64 n : Fin 64) := by
  rw [rotateLeft, BitVec.getLsbD_or, BitVec.getLsbD_shiftLeft, BitVec.getLsbD_ushiftRight, Fin.val_sub,
    Fin.val_ofNat, Nat.mod_eq_of_lt hlt]
  by_cases h : z.val < n
  · have hindex : (64 - n + z.val) % 64 = 64 - n + z.val := Nat.mod_eq_of_lt (by omega)
    simp [h, hindex]
  · have hindex : (64 - n + z.val) % 64 = z.val - n := by omega
    have hbeyond : x.getLsbD (64 - n + z.val) = false := BitVec.getLsbD_of_ge _ _ (by omega)
    simp [h, hindex, hbeyond]

theorem bits_parities (a : State) (x : Fin 5) (z : Fin 64) :
    ((parities a).get x).getLsbD z = columnParity (bits a) x z := by
  rw [parities, get_ofFn]
  simp only [BitVec.getLsbD_xor]
  rfl

theorem bits_theta (a : State) : bits (theta a) = θ (bits a) := by
  funext x y z
  have hprev : x + 4 = x - 1 := by revert x; decide
  rw [bits, get_theta, BitVec.getLsbD_xor, columnSum, BitVec.getLsbD_xor,
    getLsbD_rotateLeft _ Nat.one_pos (by decide), bits_parities, bits_parities, hprev]
  rfl

/-- The table has the triangular numbers modulo 64. -/
theorem rhoTable_lane (x y : Fin 5) :
    Fin.ofNat 64 (rhoTable.get (lane x y)) = Fin.ofNat 64 (rhoOffset x y) := by
  revert x y
  decide

theorem rhoTable_range (i : Fin 25) (hi : i ≠ lane 0 0) : 0 < rhoTable.get i ∧ rhoTable.get i < 64 := by
  revert i
  decide

theorem bits_rhoLane (a : State) (x y : Fin 5) (z : Fin 64) :
    (rhoLane a (lane x y)).getLsbD z = ρ (bits a) x y z := by
  have hoffset := rhoTable_lane x y
  unfold rhoLane ρ bits
  rw [← hoffset]
  split
  · rename_i hfirst
    rw [hfirst]
    exact congrArg _ (congrArg Fin.val (sub_zero z).symm)
  · rename_i hother
    obtain ⟨hpos, hlt⟩ := rhoTable_range _ hother
    exact getLsbD_rotateLeft _ hpos hlt z

theorem bits_rhopi (a : State) : bits (rhopi a) = π (ρ (bits a)) := by
  funext x y z
  rw [bits, get_rhopi, bits_rhoLane]
  rfl

theorem bits_chi (b : State) : bits (chi b) = χ (bits b) := by
  funext x y z
  rw [bits, get_chi, BitVec.getLsbD_xor, BitVec.getLsbD_and, BitVec.getLsbD_not]
  simp [χ, bits]

/-- The constants are those of the shift register. -/
theorem rc_get (i : Fin 24) (z : Fin 64) : (rc.get i).getLsbD z = roundConstant i z := by
  revert i z
  decide +kernel

theorem bits_iota (a : State) (i : Fin 24) : bits (iota a (rc.get i)) = ι i (bits a) := by
  funext x y z
  rw [bits, get_iota, BitVec.getLsbD_xor, ι]
  by_cases h : x = 0 ∧ y = 0
  · rw [if_pos h, rc_get, decide_eq_true h, Bool.true_and]
    rfl
  · rw [if_neg h, decide_eq_false h, Bool.false_and, BitVec.getLsbD_zero]
    rfl

theorem bits_round (a : State) (i : Fin 24) :
    bits (round chi a (rc.get i)) = KeccakF.round (bits a) i := by
  rw [round, bits_iota, bits_chi, bits_rhopi, bits_theta]
  rfl

/-! ## Inverted lanes -/

def inverted (x y : Fin 5) : Bool := lane x y ∈ notLanes

theorem get_foldl_not {l : List (Fin 25)} (hl : l.Nodup) (a : State) (j : Fin 25) :
    (l.foldl (fun s i => s.set i.val (~~~s.get i) (lt_25 i)) a).get j =
      if j ∈ l then ~~~a.get j else a.get j := by
  induction l generalizing a with
  | nil => rfl
  | cons i l ih =>
    obtain ⟨hi, hnodup⟩ := List.nodup_cons.mp hl
    have hset : (a.set i (~~~a.get i) (lt_25 i)).get j = if i = j then ~~~a.get i else a.get j := by
      change (Vector.set _ _ _ _)[j.val] = _
      rw [Vector.getElem_set]
      simp only [Fin.ext_iff]
      rfl
    rw [List.foldl_cons, ih hnodup, hset]
    by_cases hij : i = j
    · subst hij
      rw [if_neg hi, if_pos rfl, if_pos List.mem_cons_self]
    · have hmem : j ∈ i :: l ↔ j ∈ l := by
        rw [List.mem_cons, or_iff_right (Ne.symm hij)]
      rw [if_neg hij, if_congr hmem rfl rfl]

theorem bits_complement (a : State) : bits (complement a) = invert inverted (bits a) := by
  funext x y z
  rw [bits, complement, get_foldl_not (by decide), invert, inverted]
  by_cases h : lane x y ∈ notLanes
  · rw [if_pos h, decide_eq_true h, BitVec.getLsbD_not, decide_eq_true z.isLt, Bool.true_and, Bool.true_xor]
    rfl
  · rw [if_neg h, decide_eq_false h, Bool.false_xor]
    rfl

theorem complement_complement (a : State) : complement (complement a) = a := by
  apply bits_injective
  rw [bits_complement, bits_complement, invert_invert]

theorem inverted_eq : inverted =
    ![![false, false, false, false, true], ![true, false, false, false, false],
      ![true, false, true, true, false], ![false, true, false, false, false],
      ![false, false, false, false, false]] := by
  decide

theorem afterPi_inverted : afterPi inverted =
    ![![true, true, true, false, true], ![false, false, false, true, false],
      ![true, true, true, false, false], ![true, false, false, true, true],
      ![false, false, false, true, false]] := by
  decide

/-- The rows with fewer complements expect the lanes that are inverted after `rhopi`. -/
theorem bits_chiLimitedNots {b : State} {B : Bits} (hb : bits b = invert (afterPi inverted) B) :
    bits (chiLimitedNots b) = invert inverted (χ B) := by
  funext x y z
  have hbit : ∀ x y, (b.get (lane x y))[z.val] = (afterPi inverted x y ^^ B x y z) :=
    fun x y => (BitVec.getLsbD_eq_getElem z.isLt).symm.trans (congrFun (congrFun (congrFun hb x) y) z)
  rw [afterPi_inverted] at hbit
  rw [bits, get_chiLimitedNots, invert, χ, inverted_eq]
  fin_cases x <;> fin_cases y <;>
    simp [limitedNotsLane, hbit, Bool.bne_eq_xor, ← Bool.xor_not, Bool.not_and, Bool.not_or, -Bool.not_xor]

theorem bits_round_limitedNots {a : State} {A : Bits} (ha : bits a = invert inverted A) (i : Fin 24) :
    bits (round chiLimitedNots a (rc.get i)) = invert inverted (KeccakF.round A i) := by
  have hrows : bits (rhopi (theta a)) = invert (afterPi inverted) (π (ρ (θ A))) := by
    rw [bits_rhopi, bits_theta, ha, π_ρ_θ_invert]
  rw [round, bits_iota, bits_chiLimitedNots hrows, ι_invert]
  rfl

/-! ## The permutation -/

theorem rc_toList : rc.toList = (List.finRange 24).map rc.get := by rfl

theorem permutation_eq (A : Bits) :
    permutation A = (List.finRange 24).foldl (fun A (i : Fin 24) => KeccakF.round A i.val) A := by
  have hrange : List.range 24 = List.map Fin.val (List.finRange 24) := by decide
  rw [permutation, hrange, List.foldl_map]

theorem bits_foldl_round (l : List (Fin 24)) (a : State) :
    bits (l.foldl (fun a i => round chi a (rc.get i)) a) =
      l.foldl (fun A (i : Fin 24) => KeccakF.round A i.val) (bits a) := by
  induction l generalizing a with
  | nil => rfl
  | cons i l ih => rw [List.foldl_cons, List.foldl_cons, ih, bits_round]

/-- The six lanes are inverted after every round. -/
theorem bits_foldl_round_limitedNots (l : List (Fin 24)) {a : State} {A : Bits}
    (ha : bits a = invert inverted A) :
    bits (l.foldl (fun a i => round chiLimitedNots a (rc.get i)) a) =
      invert inverted (l.foldl (fun A (i : Fin 24) => KeccakF.round A i.val) A) := by
  induction l generalizing a A with
  | nil => exact ha
  | cons i l ih =>
    rw [List.foldl_cons, List.foldl_cons]
    exact ih (bits_round_limitedNots ha i)

theorem bits_keccakF (state : State) : bits (keccakF state) = permutation (bits state) := by
  rw [keccakF, rc_toList, List.foldl_map, bits_foldl_round, permutation_eq]

theorem bits_keccakFCompact (state : State) :
    bits (keccakFCompact state) = permutation (bits state) := by
  rw [keccakFCompact_eq, bits_keccakF]

theorem bits_keccakFLimitedNots (state : State) :
    bits (keccakFLimitedNots (complement state)) = invert inverted (permutation (bits state)) := by
  rw [keccakFLimitedNots, rc_toList, List.foldl_map, permutation_eq]
  exact bits_foldl_round_limitedNots _ (bits_complement state)

theorem keccakFLimitedNots_eq (state : State) :
    keccakFLimitedNots (complement state) = complement (keccakF state) := by
  apply bits_injective
  rw [bits_keccakFLimitedNots, bits_complement, bits_keccakF]

end Drew.Keccak
