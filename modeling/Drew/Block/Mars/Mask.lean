import Drew.Block.Mars.Model

/-!
# The runs that MARS removes

`SetKeyInternal` finds the runs of ten equal bits with a few shifts: a bit is kept if the next seven are set as
well (`erode_double`), and then spread over the next seven (`dilate_double`). With the bits that equal both of
their neighbours, this gives the mask of the specification (`runMask_iff`), also for runs that reach an end of
the word.
-/

namespace Drew.Mars

/-! ## Windows of bits -/

section Windows

variable {w n : Nat} {x m : BitVec w}

/-- Twice as many bits are looked at. -/
theorem erode_double (h : ∀ l, x.getLsbD l = true ↔ ∀ j < n, m.getLsbD (l + j) = true) (l : Nat) :
    (x &&& x >>> n).getLsbD l = true ↔ ∀ j < 2 * n, m.getLsbD (l + j) = true := by
  rw [BitVec.getLsbD_and, Bool.and_eq_true, BitVec.getLsbD_ushiftRight, h, h]
  constructor
  · rintro ⟨hlow, hhigh⟩ j hj
    by_cases hjn : j < n
    · exact hlow j hjn
    · have hbit := hhigh (j - n) (by omega)
      rwa [show n + l + (j - n) = l + j by omega] at hbit
  · intro hall
    refine ⟨fun j hj => hall j (by omega), fun j hj => ?_⟩
    have hbit := hall (n + j) (by omega)
    rwa [show l + (n + j) = n + l + j by omega] at hbit

/-- Bits are spread twice as far. -/
theorem dilate_double (h : ∀ l < w, x.getLsbD l = true ↔ ∃ j < n, j ≤ l ∧ m.getLsbD (l - j) = true) {l : Nat}
    (hl : l < w) :
    (x ||| x <<< n).getLsbD l = true ↔ ∃ j < 2 * n, j ≤ l ∧ m.getLsbD (l - j) = true := by
  rw [BitVec.getLsbD_or, Bool.or_eq_true, BitVec.getLsbD_shiftLeft, h l hl]
  by_cases hln : l < n
  · simp only [hl, hln, decide_true, Bool.not_true, Bool.and_false, Bool.false_and, Bool.false_eq_true, or_false]
    constructor
    · rintro ⟨j, hj, hjl, hbit⟩
      exact ⟨j, by omega, hjl, hbit⟩
    · rintro ⟨j, -, hjl, hbit⟩
      exact ⟨j, by omega, hjl, hbit⟩
  · simp only [hl, hln, decide_true, decide_false, Bool.not_false, Bool.true_and, h (l - n) (by omega)]
    constructor
    · rintro (⟨j, hj, hjl, hbit⟩ | ⟨j, hj, hjl, hbit⟩)
      · exact ⟨j, by omega, hjl, hbit⟩
      · refine ⟨n + j, by omega, by omega, ?_⟩
        rwa [← Nat.sub_sub]
    · rintro ⟨j, hj, hjl, hbit⟩
      by_cases hjn : j < n
      · exact Or.inl ⟨j, hjn, hjl, hbit⟩
      · refine Or.inr ⟨j - n, by omega, by omega, ?_⟩
        rwa [Nat.sub_sub, show n + (j - n) = j by omega]

end Windows

/-! ## The mask -/

/-- Bit `l` of a word. -/
def bit (w : UInt32) (l : Nat) : Bool := w.toBitVec.getLsbD l

/-- Bit `l` is one of at least ten consecutive bits that are equal. -/
def InRun (w : UInt32) (l : Nat) : Prop :=
  ∃ a k, 10 ≤ k ∧ a ≤ l ∧ l < a + k ∧ a + k ≤ 32 ∧ ∀ j < k, bit w (a + j) = bit w l

/-- The bits of a word that equal both of their neighbours. -/
def inner (w : UInt32) : UInt32 := (~~~w ^^^ w <<< 1) &&& (~~~w ^^^ w >>> 1) &&& 0x7ffffffe

theorem bit_of_le (w : UInt32) {l : Nat} (h : 32 ≤ l) : bit w l = false := BitVec.getLsbD_of_ge _ _ h

theorem bit_inner (w : UInt32) (l : Nat) :
    bit (inner w) l = true ↔ 1 ≤ l ∧ l ≤ 30 ∧ bit w (l - 1) = bit w l ∧ bit w l = bit w (l + 1) := by
  have hmask : ∀ l < 32, (0x7ffffffe : BitVec 32).getLsbD l = true ↔ 1 ≤ l ∧ l ≤ 30 := by decide
  by_cases hl : l < 32
  · have hword : (inner w).toBitVec = (~~~w.toBitVec ^^^ w.toBitVec <<< 1) &&&
        (~~~w.toBitVec ^^^ w.toBitVec >>> 1) &&& (0x7ffffffe : BitVec 32) := rfl
    rw [bit, hword, BitVec.getLsbD_and, Bool.and_eq_true, hmask l hl, BitVec.getLsbD_and, BitVec.getLsbD_xor,
      BitVec.getLsbD_xor, BitVec.getLsbD_not, BitVec.getLsbD_shiftLeft, BitVec.getLsbD_ushiftRight, Nat.add_comm 1 l,
      decide_eq_true hl, Bool.true_and]
    constructor
    · rintro ⟨hbits, hpos, hle⟩
      rw [decide_eq_false (show ¬l < 1 by omega)] at hbits
      refine ⟨hpos, hle, ?_⟩
      revert hbits
      unfold bit
      cases w.toBitVec.getLsbD l <;> cases w.toBitVec.getLsbD (l - 1) <;> cases w.toBitVec.getLsbD (l + 1) <;> decide
    · rintro ⟨hpos, hle, hprev, hnext⟩
      refine ⟨?_, hpos, hle⟩
      rw [decide_eq_false (show ¬l < 1 by omega)]
      unfold bit at hprev hnext
      rw [hprev, ← hnext]
      cases w.toBitVec.getLsbD l <;> decide
  · rw [bit_of_le _ (by omega)]
    constructor
    · intro h
      cases h
    · rintro ⟨-, hle, -⟩
      omega

/-- Bits that equal their neighbours are all equal. -/
theorem bit_eq_of_chain {w : UInt32} {s n : Nat} (h : ∀ p, s ≤ p → p < s + n → bit w p = bit w (p + 1)) :
    ∀ j ≤ n, bit w (s + j) = bit w s := by
  intro j hj
  induction j with
  | zero => rfl
  | succ j ih => rw [← Nat.add_assoc, ← h (s + j) (by omega) (by omega), ih (by omega)]

/-- Eight bits that equal their neighbours make a run of ten. -/
theorem window_iff (w : UInt32) {l : Nat} (hl : l < 32) :
    (∃ j < 8, j ≤ l ∧ ∀ i < 8, bit (inner w) (l - j + i) = true) ↔
      1 ≤ l ∧ l ≤ 30 ∧ bit w (l - 1) = bit w l ∧ bit w l = bit w (l + 1) ∧ InRun w l := by
  constructor
  · rintro ⟨j, hj, hjl, hall⟩
    obtain ⟨hpos, hle, hprev, hnext⟩ := (bit_inner w l).mp (by
      have hbit := hall j hj
      rwa [show l - j + j = l by omega] at hbit)
    have hfirst := (bit_inner w (l - j)).mp (hall 0 (by decide))
    have hlast := (bit_inner w (l - j + 7)).mp (hall 7 (by decide))
    have hchain : ∀ p, l - j - 1 ≤ p → p < l - j - 1 + 9 → bit w p = bit w (p + 1) := by
      intro p hp hplt
      by_cases hp0 : p = l - j - 1
      · have heq := hfirst.2.2.1
        rwa [hp0, show l - j - 1 + 1 = l - j by omega]
      · have hmid := (bit_inner w (l - j + (p - (l - j)))).mp (hall (p - (l - j)) (by omega))
        rw [show l - j + (p - (l - j)) = p by omega] at hmid
        exact hmid.2.2.2
    have hall := bit_eq_of_chain hchain
    have hself := hall (j + 1) (by omega)
    rw [show l - j - 1 + (j + 1) = l by omega] at hself
    refine ⟨hpos, hle, hprev, hnext, l - j - 1, 10, le_refl _, by omega, by omega, by omega, fun i hi => ?_⟩
    rw [hall i (by omega), hself]
  · rintro ⟨hpos, hle, hprev, hnext, a, k, hk, hal, hlk, hak, hrun⟩
    -- Both neighbours belong to the run.
    obtain ⟨lo, hlo⟩ : ∃ lo, lo = min a (l - 1) := ⟨_, rfl⟩
    obtain ⟨hi, hhi⟩ : ∃ hi, hi = max (a + k - 1) (l + 1) := ⟨_, rfl⟩
    have hequal : ∀ p, lo ≤ p → p ≤ hi → bit w p = bit w l := by
      intro p hplo hphi
      by_cases hin : a ≤ p ∧ p < a + k
      · have hbit := hrun (p - a) (by omega)
        rwa [show a + (p - a) = p by omega] at hbit
      · by_cases hp : p = l - 1
        · rw [hp, hprev]
        · rw [show p = l + 1 by omega, ← hnext]
    obtain ⟨s, hs⟩ : ∃ s, s = max (lo + 1) (l - 7) := ⟨_, rfl⟩
    refine ⟨l - s, by omega, by omega, fun i hi8 => ?_⟩
    rw [show l - (l - s) + i = s + i by omega]
    refine (bit_inner w (s + i)).mpr ⟨by omega, by omega, ?_, ?_⟩
    · exact (hequal _ (by omega) (by omega)).trans (hequal _ (by omega) (by omega)).symm
    · exact (hequal _ (by omega) (by omega)).trans (hequal _ (by omega) (by omega)).symm

/-- Three times twice as many bits. -/
theorem erode_eight (m : BitVec 32) : ∃ x : BitVec 32, x = (m &&& m >>> 1 &&& (m &&& m >>> 1) >>> 2) &&&
    (m &&& m >>> 1 &&& (m &&& m >>> 1) >>> 2) >>> 4 ∧
      ∀ l, x.getLsbD l = true ↔ ∀ j < 8, m.getLsbD (l + j) = true := by
  have hone : ∀ l, m.getLsbD l = true ↔ ∀ j < 1, m.getLsbD (l + j) = true := by
    intro l
    constructor
    · intro h j hj
      rwa [show l + j = l by omega]
    · exact fun h => h 0 Nat.one_pos
  have htwo : ∀ l, (m &&& m >>> 1).getLsbD l = true ↔ ∀ j < 2, m.getLsbD (l + j) = true := erode_double hone
  have hfour : ∀ l, (m &&& m >>> 1 &&& (m &&& m >>> 1) >>> 2).getLsbD l = true ↔
      ∀ j < 4, m.getLsbD (l + j) = true := erode_double htwo
  exact ⟨_, rfl, erode_double hfour⟩

theorem dilate_eight (x : BitVec 32) : ∃ y : BitVec 32, y = (x ||| x <<< 1 ||| (x ||| x <<< 1) <<< 2) |||
    (x ||| x <<< 1 ||| (x ||| x <<< 1) <<< 2) <<< 4 ∧
      ∀ l < 32, y.getLsbD l = true ↔ ∃ j < 8, j ≤ l ∧ x.getLsbD (l - j) = true := by
  have hone : ∀ l < 32, x.getLsbD l = true ↔ ∃ j < 1, j ≤ l ∧ x.getLsbD (l - j) = true := by
    intro l _
    constructor
    · exact fun h => ⟨0, Nat.one_pos, Nat.zero_le l, h⟩
    · rintro ⟨j, hj, -, h⟩
      rwa [show l - j = l by omega] at h
  have htwo : ∀ l < 32, (x ||| x <<< 1).getLsbD l = true ↔ ∃ j < 2, j ≤ l ∧ x.getLsbD (l - j) = true :=
    fun l hl => dilate_double hone hl
  have hfour : ∀ l < 32, (x ||| x <<< 1 ||| (x ||| x <<< 1) <<< 2).getLsbD l = true ↔
      ∃ j < 4, j ≤ l ∧ x.getLsbD (l - j) = true := fun l hl => dilate_double htwo hl
  exact ⟨_, rfl, fun l hl => dilate_double hfour hl⟩

/-- The mask of `SetKeyInternal` is the one of the specification. -/
theorem runMask_iff (w : UInt32) (l : Nat) : bit (runMask w) l = true ↔
    2 ≤ l ∧ l ≤ 30 ∧ bit w (l - 1) = bit w l ∧ bit w l = bit w (l + 1) ∧ InRun w l := by
  have hmask : ∀ l < 32, (0x7ffffffc : BitVec 32).getLsbD l = true ↔ 2 ≤ l ∧ l ≤ 30 := by decide
  by_cases hl : l < 32
  · obtain ⟨x, hx, heroded⟩ := erode_eight (inner w).toBitVec
    obtain ⟨y, hy, hdilated⟩ := dilate_eight x
    have hword : (runMask w).toBitVec = y &&& (0x7ffffffc : BitVec 32) := by
      rw [hy, hx]
      rfl
    have hwindow : y.getLsbD l = true ↔ ∃ j < 8, j ≤ l ∧ ∀ i < 8, bit (inner w) (l - j + i) = true := by
      rw [hdilated l hl]
      simp only [heroded, bit]
    rw [bit, hword, BitVec.getLsbD_and, Bool.and_eq_true, hmask l hl, hwindow, window_iff w hl]
    constructor
    · rintro ⟨⟨-, -, hrest⟩, hlo, hhi⟩
      exact ⟨hlo, hhi, hrest⟩
    · rintro ⟨hlo, hhi, hrest⟩
      exact ⟨⟨by omega, hhi, hrest⟩, hlo, hhi⟩
  · rw [bit_of_le _ (by omega)]
    constructor
    · intro h
      cases h
    · rintro ⟨-, hle, -⟩
      omega

/-- A run at each end of a word, and one between them. -/
example : runMask 0xffc003ff = 0x7f9ff9fc := by decide

end Drew.Mars
