import Drew.Memory.Endian
import Drew.StreamCipher.Words
import Drew.Block.Rounds
import Drew.Block.Recurrence

/-!
# The compression function of SHA-256

The model of the class `SHA256Transform`. The rounds are written with the names of the registers exchanged;
here they become steps that turn the registers by one place.
-/

namespace Drew.Sha256

open Drew.Memory Drew.StreamCipher Drew.Block

/-- The local variables `a` to `h`. -/
@[ext] structure Words where
  a : UInt32
  b : UInt32
  c : UInt32
  d : UInt32
  e : UInt32
  f : UInt32
  g : UInt32
  h : UInt32

/-- The words of a block. -/
abbrev Block := Vector UInt32 16

def ternarySelection (x y z : UInt32) : UInt32 := z ^^^ (x &&& (y ^^^ z))

def ternaryMajority (x y z : UInt32) : UInt32 := (x &&& y) ||| (z &&& (x ^^^ y))

def S0 (x : UInt32) : UInt32 := rotateRight x 2 ^^^ rotateRight x 13 ^^^ rotateRight x 22

def S1 (x : UInt32) : UInt32 := rotateRight x 6 ^^^ rotateRight x 11 ^^^ rotateRight x 25

def s0 (x : UInt32) : UInt32 := rotateRight x 7 ^^^ rotateRight x 18 ^^^ x >>> 3

def s1 (x : UInt32) : UInt32 := rotateRight x 17 ^^^ rotateRight x 19 ^^^ x >>> 10

/-- `static const uint32_t k[]`. -/
def k : Vector UInt32 64 :=
  #v[0x428a2f98, 0x71374491, 0xb5c0fbcf, 0xe9b5dba5, 0x3956c25b, 0x59f111f1, 0x923f82a4, 0xab1c5ed5,
    0xd807aa98, 0x12835b01, 0x243185be, 0x550c7dc3, 0x72be5d74, 0x80deb1fe, 0x9bdc06a7, 0xc19bf174,
    0xe49b69c1, 0xefbe4786, 0x0fc19dc6, 0x240ca1cc, 0x2de92c6f, 0x4a7484aa, 0x5cb0a9dc, 0x76f988da,
    0x983e5152, 0xa831c66d, 0xb00327c8, 0xbf597fc7, 0xc6e00bf3, 0xd5a79147, 0x06ca6351, 0x14292967,
    0x27b70a85, 0x2e1b2138, 0x4d2c6dfc, 0x53380d13, 0x650a7354, 0x766a0abb, 0x81c2c92e, 0x92722c85,
    0xa2bfe8a1, 0xa81a664b, 0xc24b8b70, 0xc76c51a3, 0xd192e819, 0xd6990624, 0xf40e3585, 0x106aa070,
    0x19a4c116, 0x1e376c08, 0x2748774c, 0x34b0bcb5, 0x391c0cb3, 0x4ed8aa4a, 0x5b9cca4f, 0x682e6ff3,
    0x748f82ee, 0x78a5636f, 0x84c87814, 0x8cc70208, 0x90befffa, 0xa4506ceb, 0xbef9a3f7, 0xc67178f2]

section Operation

variable (k blk : UInt32)

/-- `ROUND(a, b, c, d, e, f, g, h, k, blk)`. -/
def round (w : Words) : Words :=
  let h := w.h + (S1 w.e + ternarySelection w.e w.f w.g + k + blk)
  { w with
    d := w.d + h
    h := h + (S0 w.a + ternaryMajority w.a w.b w.c) }

/-- `INVROUND(a, b, c, d, e, f, g, h, k, blk)`. -/
def invround (w : Words) : Words :=
  let h := w.h - (S0 w.a + ternaryMajority w.a w.b w.c)
  { w with
    d := w.d - h
    h := h - (S1 w.e + ternarySelection w.e w.f w.g + k + blk) }

end Operation

section Views

variable (g : Words → Words) (w : Words)

/-- The macros with `h, a, b, c, d, e, f, g` in the places of `a, b, c, d, e, f, g, h`. -/
def habcdefg : Words :=
  let r := g ⟨w.h, w.a, w.b, w.c, w.d, w.e, w.f, w.g⟩
  ⟨r.b, r.c, r.d, r.e, r.f, r.g, r.h, r.a⟩

def ghabcdef : Words :=
  let r := g ⟨w.g, w.h, w.a, w.b, w.c, w.d, w.e, w.f⟩
  ⟨r.c, r.d, r.e, r.f, r.g, r.h, r.a, r.b⟩

def fghabcde : Words :=
  let r := g ⟨w.f, w.g, w.h, w.a, w.b, w.c, w.d, w.e⟩
  ⟨r.d, r.e, r.f, r.g, r.h, r.a, r.b, r.c⟩

def efghabcd : Words :=
  let r := g ⟨w.e, w.f, w.g, w.h, w.a, w.b, w.c, w.d⟩
  ⟨r.e, r.f, r.g, r.h, r.a, r.b, r.c, r.d⟩

def defghabc : Words :=
  let r := g ⟨w.d, w.e, w.f, w.g, w.h, w.a, w.b, w.c⟩
  ⟨r.f, r.g, r.h, r.a, r.b, r.c, r.d, r.e⟩

def cdefghab : Words :=
  let r := g ⟨w.c, w.d, w.e, w.f, w.g, w.h, w.a, w.b⟩
  ⟨r.g, r.h, r.a, r.b, r.c, r.d, r.e, r.f⟩

def bcdefgha : Words :=
  let r := g ⟨w.b, w.c, w.d, w.e, w.f, w.g, w.h, w.a⟩
  ⟨r.h, r.a, r.b, r.c, r.d, r.e, r.f, r.g⟩

end Views

/-! ## The functions of the class -/

/-- The word that is stored at `i`. -/
def expanded (blk : Nat → UInt32) (i : Nat) : UInt32 :=
  s1 (blk (i - 2)) + blk (i - 7) + s0 (blk (i - 15)) + blk (i - 16)

/-- `ROUND2`. -/
def round2 (view : (Words → Words) → Words → Words) (st : Words × Vector UInt32 64) (i : Nat) :
    Words × Vector UInt32 64 :=
  let blk := st.2.setIfInBounds i (expanded (wordAt st.2) i)
  (view (round (wordAt k i) (wordAt blk i)) st.1, blk)

/-- The body of the first loop of `ForwardTransform`. -/
def eightRounds (blk : Vector UInt32 64) (w : Words) (i : Nat) : Words :=
  let w := round (wordAt k i) (wordAt blk i) w
  let w := habcdefg (round (wordAt k (i + 1)) (wordAt blk (i + 1))) w
  let w := ghabcdef (round (wordAt k (i + 2)) (wordAt blk (i + 2))) w
  let w := fghabcde (round (wordAt k (i + 3)) (wordAt blk (i + 3))) w
  let w := efghabcd (round (wordAt k (i + 4)) (wordAt blk (i + 4))) w
  let w := defghabc (round (wordAt k (i + 5)) (wordAt blk (i + 5))) w
  let w := cdefghab (round (wordAt k (i + 6)) (wordAt blk (i + 6))) w
  bcdefgha (round (wordAt k (i + 7)) (wordAt blk (i + 7))) w

/-- The body of the second loop. -/
def eightRounds2 (st : Words × Vector UInt32 64) (i : Nat) : Words × Vector UInt32 64 :=
  let st := round2 (fun g => g) st i
  let st := round2 habcdefg st (i + 1)
  let st := round2 ghabcdef st (i + 2)
  let st := round2 fghabcde st (i + 3)
  let st := round2 efghabcd st (i + 4)
  let st := round2 defghabc st (i + 5)
  let st := round2 cdefghab st (i + 6)
  round2 bcdefgha st (i + 7)

/-- The array `blk` behind the `memcpy`. A word that has not been set is not read. -/
def copied (block : Block) : Vector UInt32 64 := Vector.ofFn fun i => if i.val < 16 then wordAt block i else 0

/-- `ForwardTransform`. It reads 16 words of `block`. -/
def forwardTransform (state : Words) (block : Block) : Words :=
  let blk := copied block
  let w := (List.range 2).foldl (fun w n => eightRounds blk w (8 * n)) state
  let st := (List.range 6).foldl (fun st n => eightRounds2 st (16 + 8 * n)) (w, blk)
  st.1

/-- The body of the loop of `InverseTransform`. -/
def eightInverse (blk : Nat → UInt32) (w : Words) (i : Nat) : Words :=
  let w := bcdefgha (invround (wordAt k i) (blk i)) w
  let w := cdefghab (invround (wordAt k (i - 1)) (blk (i - 1))) w
  let w := defghabc (invround (wordAt k (i - 2)) (blk (i - 2))) w
  let w := efghabcd (invround (wordAt k (i - 3)) (blk (i - 3))) w
  let w := fghabcde (invround (wordAt k (i - 4)) (blk (i - 4))) w
  let w := ghabcdef (invround (wordAt k (i - 5)) (blk (i - 5))) w
  let w := habcdefg (invround (wordAt k (i - 6)) (blk (i - 6))) w
  invround (wordAt k (i - 7)) (blk (i - 7)) w

/-- `InverseTransform`. It reads the words 0 to 63 of `blk`. -/
def inverseTransform (state : Words) (blk : Nat → UInt32) : Words :=
  (List.range 8).foldl (fun w n => eightInverse blk w (63 - 8 * n)) state

/-- The sums of the words. -/
def Words.add (state b : Words) : Words :=
  ⟨state.a + b.a, state.b + b.b, state.c + b.c, state.d + b.d, state.e + b.e, state.f + b.f,
    state.g + b.g, state.h + b.h⟩

/-- `Transform`. -/
def transform (state : Words) (block : List UInt8) : Words :=
  state.add (forwardTransform state (copyIn word32 .big 16 block))

/-! ## The rounds -/

/-- The registers move by one place. -/
def turn (w : Words) : Words := ⟨w.h, w.a, w.b, w.c, w.d, w.e, w.f, w.g⟩

def turnBack (w : Words) : Words := ⟨w.b, w.c, w.d, w.e, w.f, w.g, w.h, w.a⟩

theorem turn_turnBack (w : Words) : turn (turnBack w) = w := rfl

/-- Eight turns change nothing. -/
theorem turn_eq (w : Words) :
    turn w = turnBack (turnBack (turnBack (turnBack (turnBack (turnBack (turnBack w)))))) := rfl

theorem turnBack_eq (w : Words) : turnBack w = turn (turn (turn (turn (turn (turn (turn w)))))) := rfl

/-! With the registers exchanged, a macro turns them, works on them and turns them back. -/

section Turns

variable (g : Words → Words) (w : Words)

theorem habcdefg_eq : habcdefg g w = turnBack (g (turn w)) := rfl

theorem ghabcdef_eq : ghabcdef g w = turnBack (turnBack (g (turn (turn w)))) := rfl

theorem fghabcde_eq : fghabcde g w = turnBack (turnBack (turnBack (g (turn (turn (turn w)))))) := rfl

theorem efghabcd_eq : efghabcd g w =
    turnBack (turnBack (turnBack (turnBack (g (turn (turn (turn (turn w)))))))) := rfl

theorem defghabc_eq : defghabc g w =
    turnBack (turnBack (turnBack (turnBack (turnBack (g (turn (turn (turn (turn (turn w)))))))))) := rfl

theorem cdefghab_eq : cdefghab g w = turnBack (turnBack (turnBack (turnBack (turnBack (turnBack
    (g (turn (turn (turn (turn (turn (turn w)))))))))))) := rfl

theorem bcdefgha_eq : bcdefgha g w = turnBack (turnBack (turnBack (turnBack (turnBack (turnBack (turnBack
    (g (turn (turn (turn (turn (turn (turn (turn w)))))))))))))) := rfl

end Turns

/-- A round that leaves each register where the next round expects it. -/
def step (k blk : UInt32) (w : Words) : Words := turn (round k blk w)

def unstep (k blk : UInt32) (w : Words) : Words := invround k blk (turnBack w)

theorem unstep_step (k blk : UInt32) (w : Words) : unstep k blk (step k blk w) = w := by
  simp only [unstep, step, turn, turnBack, round, invround, UInt32.add_sub_cancel]

/-- `m` rounds from the one with number `a` on. -/
def phase (w : Nat → UInt32) (a m : Nat) (x : Words) : Words :=
  (List.range m).foldl (fun x j => step (wordAt k (a + j)) (w (a + j)) x) x

section Phase

variable {v w : Nat → UInt32}

theorem phase_add (a m n : Nat) (x : Words) : phase w a (m + n) x = phase w (a + m) n (phase w a m x) := by
  rw [phase, List.range_add, List.foldl_append, List.foldl_map]
  simp only [phase, Nat.add_assoc]

theorem phase_congr {a m : Nat} (h : ∀ j < m, v (a + j) = w (a + j)) (x : Words) :
    phase v a m x = phase w a m x := by
  apply List.foldl_ext
  intro y j hj
  rw [h j (List.mem_range.mp hj)]

theorem phase_succ (a m : Nat) (x : Words) :
    phase w a (m + 1) x = step (wordAt k (a + m)) (w (a + m)) (phase w a m x) := by
  rw [phase, List.range_succ, List.foldl_append]
  rfl

/-- Eight rounds, written with the registers exchanged. -/
theorem phase_eight (a : Nat) (x : Words) : phase w a 8 x =
    bcdefgha (round (wordAt k (a + 7)) (w (a + 7))) (cdefghab (round (wordAt k (a + 6)) (w (a + 6)))
      (defghabc (round (wordAt k (a + 5)) (w (a + 5))) (efghabcd (round (wordAt k (a + 4)) (w (a + 4)))
        (fghabcde (round (wordAt k (a + 3)) (w (a + 3))) (ghabcdef (round (wordAt k (a + 2)) (w (a + 2)))
          (habcdefg (round (wordAt k (a + 1)) (w (a + 1))) (round (wordAt k a) (w a) x))))))) := by
  have hstart : phase w a 0 x = x := rfl
  rw [bcdefgha_eq, cdefghab_eq, defghabc_eq, efghabcd_eq, fghabcde_eq, ghabcdef_eq, habcdefg_eq]
  simp only [turn_turnBack, phase_succ, hstart, step]
  exact turn_eq _

end Phase

/-- The 64 rounds, with a word for each. -/
def rounds (w : Nat → UInt32) (x : Words) : Words := phase w 0 64 x

theorem rounds_congr {v w : Nat → UInt32} (h : ∀ j < 64, v j = w j) (x : Words) : rounds v x = rounds w x := by
  apply phase_congr
  intro j hj
  rw [Nat.zero_add, h j hj]

theorem eightInverse_eq (w : Nat → UInt32) (x : Words) (i : Nat) :
    eightInverse w x i = (List.range 8).foldl (fun x j => unstep (wordAt k (i - j)) (w (i - j)) x) x := by
  rw [show List.range 8 = [0, 1, 2, 3, 4, 5, 6, 7] from rfl, eightInverse, bcdefgha_eq, cdefghab_eq, defghabc_eq,
    efghabcd_eq, fghabcde_eq, ghabcdef_eq, habcdefg_eq]
  simp only [turn_turnBack, ← turnBack_eq, List.foldl_cons, List.foldl_nil, Nat.sub_zero, unstep]

theorem inverseTransform_eq (w : Nat → UInt32) (x : Words) :
    inverseTransform x w = (List.range 64).reverse.foldl (fun x i => unstep (wordAt k i) (w i) x) x := by
  have hpasses := foldl_range_mul (fun x i => unstep (wordAt k (63 - i)) (w (63 - i)) x) 8 8 x
  rw [foldl_reverse_range, inverseTransform]
  refine Eq.trans ?_ hpasses.symm
  apply List.foldl_ext
  intro y n _
  rw [eightInverse_eq]
  simp only [Nat.sub_sub]

/-- `InverseTransform` undoes the rounds. -/
theorem inverseTransform_rounds (w : Nat → UInt32) (x : Words) : inverseTransform (rounds w x) w = x := by
  rw [inverseTransform_eq, rounds, phase]
  simp only [Nat.zero_add]
  exact foldl_reverse_undo (fun x i => unstep_step (wordAt k i) (w i) x) (List.range 64) x

/-! ## The schedule -/

/-- The words for the rounds. -/
def schedule (block : Block) (i : Nat) : UInt32 :=
  if i < 16 then wordAt block i
  else s1 (schedule block (i - 2)) + schedule block (i - 7) + s0 (schedule block (i - 15)) +
    schedule block (i - 16)

section Schedule

variable (block : Block)

theorem schedule_start {i : Nat} (hi : i < 16) : schedule block i = wordAt block i := by
  rw [schedule, if_pos hi]

theorem expanded_schedule {i : Nat} (hi : 16 ≤ i) : expanded (schedule block) i = schedule block i := by
  rw [schedule, if_neg (by omega)]
  rfl

theorem expanded_congr {v w : Nat → UInt32} {i : Nat} (hi : 16 ≤ i) (h : ∀ j < i, v j = w j) :
    expanded v i = expanded w i := by
  rw [expanded, expanded, h (i - 2) (by omega), h (i - 7) (by omega), h (i - 15) (by omega),
    h (i - 16) (by omega)]

/-- The store of a word that is computed from those in front of it. -/
theorem filled_expanded {n : Nat} [NeZero n] {v : Vector UInt32 n} {i : Nat} (hi : 16 ≤ i) (hn : i < n)
    (h : FilledTo (schedule block) i v) :
    FilledTo (schedule block) (i + 1) (v.setIfInBounds i (expanded (wordAt v) i)) := by
  rw [expanded_congr hi h, expanded_schedule block hi]
  exact h.store hn

theorem filled_copied : FilledTo (schedule block) 16 (copied block) := by
  intro j hj
  rw [schedule_start block hj]
  have hmod : (Fin.ofNat 64 j).val = j := Nat.mod_eq_of_lt (by omega)
  rw [copied, wordAt_ofFn, hmod, if_pos hj]

end Schedule

/-! ## The rounds of `ForwardTransform` -/

section Forward

variable {block : Block} {blk : Vector UInt32 64} {i : Nat}

theorem round2_spec (view : (Words → Words) → Words → Words) (x : Words) (hi : 16 ≤ i) (hn : i < 64)
    (h : FilledTo (schedule block) i blk) :
    ∃ blk', FilledTo (schedule block) (i + 1) blk' ∧
      round2 view (x, blk) i = (view (round (wordAt k i) (schedule block i)) x, blk') := by
  have hnext := filled_expanded block hi hn h
  refine ⟨_, hnext, ?_⟩
  rw [round2, hnext i (Nat.lt_succ_self i)]

theorem eightRounds2_spec (x : Words) (hi : 16 ≤ i) (hn : i + 8 ≤ 64) (h : FilledTo (schedule block) i blk) :
    ∃ blk', FilledTo (schedule block) (i + 8) blk' ∧
      eightRounds2 (x, blk) i = (phase (schedule block) i 8 x, blk') := by
  obtain ⟨b1, h1, e1⟩ := round2_spec (fun g => g) x hi (by omega) h
  obtain ⟨b2, h2, e2⟩ := round2_spec habcdefg _ (by omega) (by omega) h1
  obtain ⟨b3, h3, e3⟩ := round2_spec ghabcdef _ (by omega) (by omega) h2
  obtain ⟨b4, h4, e4⟩ := round2_spec fghabcde _ (by omega) (by omega) h3
  obtain ⟨b5, h5, e5⟩ := round2_spec efghabcd _ (by omega) (by omega) h4
  obtain ⟨b6, h6, e6⟩ := round2_spec defghabc _ (by omega) (by omega) h5
  obtain ⟨b7, h7, e7⟩ := round2_spec cdefghab _ (by omega) (by omega) h6
  obtain ⟨b8, h8, e8⟩ := round2_spec bcdefgha _ (by omega) (by omega) h7
  refine ⟨b8, h8, ?_⟩
  rw [eightRounds2, phase_eight, e1, e2, e3, e4, e5, e6, e7, e8]

theorem eightRounds_eq (x : Words) (hi : i + 8 ≤ 16) :
    eightRounds (copied block) x i = phase (schedule block) i 8 x := by
  have hwords : eightRounds (copied block) x i = phase (wordAt (copied block)) i 8 x := by
    rw [phase_eight, eightRounds]
  rw [hwords]
  apply phase_congr
  intro j hj
  exact filled_copied block (i + j) (by omega)

/-- The passes of the second loop. -/
theorem loop_spec (x : Words) (h : FilledTo (schedule block) 16 blk) {n : Nat} (hn : n ≤ 6) :
    ∃ blk', FilledTo (schedule block) (16 + 8 * n) blk' ∧
      (List.range n).foldl (fun st n => eightRounds2 st (16 + 8 * n)) (x, blk) =
        (phase (schedule block) 16 (8 * n) x, blk') := by
  induction n with
  | zero => exact ⟨blk, h, rfl⟩
  | succ n ih =>
    obtain ⟨b, hb, hpasses⟩ := ih (Nat.le_of_succ_le hn)
    obtain ⟨b', hb', height⟩ := eightRounds2_spec (phase (schedule block) 16 (8 * n) x)
      (Nat.le_add_right 16 (8 * n)) (by omega) hb
    refine ⟨b', hb', ?_⟩
    rw [List.range_succ, List.foldl_append, hpasses, List.foldl_cons, List.foldl_nil, Nat.mul_succ, phase_add,
      height]

theorem firstLoop_spec (x : Words) :
    (List.range 2).foldl (fun w n => eightRounds (copied block) w (8 * n)) x = phase (schedule block) 0 16 x := by
  rw [show List.range 2 = [0, 1] from rfl, List.foldl_cons, List.foldl_cons, List.foldl_nil, Nat.mul_zero,
    Nat.mul_one, eightRounds_eq x (show 0 + 8 ≤ 16 by decide), eightRounds_eq _ (show 8 + 8 ≤ 16 by decide)]
  exact (phase_add 0 8 8 x).symm

/-- `ForwardTransform` makes the rounds with the words of the schedule. -/
theorem forwardTransform_eq (state : Words) (block : Block) :
    forwardTransform state block = rounds (schedule block) state := by
  obtain ⟨b, -, hloop⟩ := loop_spec (phase (schedule block) 0 16 state) (filled_copied block) (le_refl 6)
  unfold forwardTransform
  simp only
  rw [firstLoop_spec, hloop]
  exact (phase_add 0 16 48 state).symm

end Forward

end Drew.Sha256
