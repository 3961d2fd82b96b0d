import Drew.Memory.Endian
import Drew.StreamCipher.Words
import Drew.Block.Rounds
import Drew.Block.Recurrence

/-!
# The compression function of SHA-1

The model of the functions `Transform` of the class `SHA`. The parameter `rotate` is that of the template:
it is 1 for SHA-1 and 0 for SHA-0. The rounds are written with the names of the registers exchanged; here
they become steps that turn the registers by one place.
-/

namespace Drew.Sha1

open Drew.Memory Drew.StreamCipher Drew.Block

/-- The local variables `a` to `e`. -/
@[ext] structure Words where
  a : UInt32
  b : UInt32
  c : UInt32
  d : UInt32
  e : UInt32

/-- The array `blk`. -/
abbrev Block := Vector UInt32 16

def ff (x y z : UInt32) : UInt32 := (z ^^^ (x &&& (y ^^^ z))) + 0x5a827999

def gg (x y z : UInt32) : UInt32 := (x ^^^ y ^^^ z) + 0x6ed9eba1

def hh (x y z : UInt32) : UInt32 := (x &&& y) + (z &&& (x ^^^ y)) + 0x8f1bbcdc

def ii (x y z : UInt32) : UInt32 := (x ^^^ y ^^^ z) + 0xca62c1d6

section Operation

variable (f : UInt32 → UInt32 → UInt32 → UInt32) (g : UInt32)

/-- `OP(f, g, a, b, c, d, e)`. -/
def op (w : Words) : Words :=
  { w with
    e := w.e + (rotateLeft w.a 5 + f w.b w.c w.d + g)
    b := rotateLeft w.b 30 }

/-- `INVOP(f, g, a, b, c, d, e)`. -/
def invop (w : Words) : Words :=
  let b := rotateRight w.b 30
  { w with
    b := b
    e := w.e - (rotateLeft w.a 5 + f b w.c w.d + g) }

end Operation

section Views

variable (g : Words → Words) (w : Words)

/-- The macros with `e, a, b, c, d` in the places of `a, b, c, d, e`. -/
def eabcd : Words :=
  let r := g ⟨w.e, w.a, w.b, w.c, w.d⟩
  ⟨r.b, r.c, r.d, r.e, r.a⟩

def deabc : Words :=
  let r := g ⟨w.d, w.e, w.a, w.b, w.c⟩
  ⟨r.c, r.d, r.e, r.a, r.b⟩

def cdeab : Words :=
  let r := g ⟨w.c, w.d, w.e, w.a, w.b⟩
  ⟨r.d, r.e, r.a, r.b, r.c⟩

def bcdea : Words :=
  let r := g ⟨w.b, w.c, w.d, w.e, w.a⟩
  ⟨r.e, r.a, r.b, r.c, r.d⟩

end Views

/-! ## The functions of the class -/

section Transform

variable (rotate : UInt32)

/-- `EXPANSION(i)`: what is left in `blk`. The value is the word that was stored. -/
def expansion (blk : Block) (i : Nat) : Block :=
  blk.setIfInBounds (i % 16)
    (if rotate ≠ 0 then
      rotateLeft (wordAt blk (i + 13) ^^^ wordAt blk (i + 8) ^^^ wordAt blk (i + 2) ^^^ wordAt blk i) rotate
    else wordAt blk i ^^^ (wordAt blk (i + 13) ^^^ wordAt blk (i + 8) ^^^ wordAt blk (i + 2)))

/-- `OP(f, EXPANSION(i), …)`. -/
def opExpansion (view : (Words → Words) → Words → Words) (f : UInt32 → UInt32 → UInt32 → UInt32)
    (st : Words × Block) (i : Nat) : Words × Block :=
  let blk := expansion rotate st.2 i
  (view (op f (wordAt blk i)) st.1, blk)

/-- The body of a loop of `ForwardTransform`. -/
def fiveExpansions (f : UInt32 → UInt32 → UInt32 → UInt32) (st : Words × Block) (i : Nat) : Words × Block :=
  let st := opExpansion rotate (fun g => g) f st i
  let st := opExpansion rotate eabcd f st (i + 1)
  let st := opExpansion rotate deabc f st (i + 2)
  let st := opExpansion rotate cdeab f st (i + 3)
  opExpansion rotate bcdea f st (i + 4)

/-- Five rounds with words of the block. -/
def fiveWords (blk : Block) (w : Words) (i : Nat) : Words :=
  let w := op ff (wordAt blk i) w
  let w := eabcd (op ff (wordAt blk (i + 1))) w
  let w := deabc (op ff (wordAt blk (i + 2))) w
  let w := cdeab (op ff (wordAt blk (i + 3))) w
  bcdea (op ff (wordAt blk (i + 4))) w

/-- `ForwardTransform`. It reads 16 words of `block`. -/
def forwardTransform (state : Words) (block : Block) : Words :=
  let w := fiveWords block state 0
  let w := fiveWords block w 5
  let w := fiveWords block w 10
  let w := op ff (wordAt block 15) w
  let st := opExpansion rotate eabcd ff (w, block) 16
  let st := opExpansion rotate deabc ff st 17
  let st := opExpansion rotate cdeab ff st 18
  let st := opExpansion rotate bcdea ff st 19
  let st := (List.range 4).foldl (fun st n => fiveExpansions rotate gg st (20 + 5 * n)) st
  let st := (List.range 4).foldl (fun st n => fiveExpansions rotate hh st (40 + 5 * n)) st
  let st := (List.range 4).foldl (fun st n => fiveExpansions rotate ii st (60 + 5 * n)) st
  st.1

/-- The body of a loop of `InverseTransform`. -/
def fiveInverse (f : UInt32 → UInt32 → UInt32 → UInt32) (blk : Nat → UInt32) (w : Words) (i : Nat) : Words :=
  let w := bcdea (invop f (blk i)) w
  let w := cdeab (invop f (blk (i - 1))) w
  let w := deabc (invop f (blk (i - 2))) w
  let w := eabcd (invop f (blk (i - 3))) w
  invop f (blk (i - 4)) w

/-- `InverseTransform`. It reads the words 0 to 79 of `blk`. -/
def inverseTransform (state : Words) (blk : Nat → UInt32) : Words :=
  let w := (List.range 4).foldl (fun w n => fiveInverse ii blk w (79 - 5 * n)) state
  let w := (List.range 4).foldl (fun w n => fiveInverse hh blk w (59 - 5 * n)) w
  let w := (List.range 4).foldl (fun w n => fiveInverse gg blk w (39 - 5 * n)) w
  (List.range 4).foldl (fun w n => fiveInverse ff blk w (19 - 5 * n)) w

/-- The sums of the words. -/
def Words.add (state b : Words) : Words :=
  ⟨state.a + b.a, state.b + b.b, state.c + b.c, state.d + b.d, state.e + b.e⟩

/-- `Transform`. -/
def transform (state : Words) (block : List UInt8) : Words :=
  state.add (forwardTransform rotate state (copyIn word32 .big 16 block))

end Transform

/-! ## The rounds -/

section Rounds

variable (f : UInt32 → UInt32 → UInt32 → UInt32) (g : UInt32)

/-- The registers move by one place. -/
def turn (w : Words) : Words := ⟨w.e, w.a, w.b, w.c, w.d⟩

def turnBack (w : Words) : Words := ⟨w.b, w.c, w.d, w.e, w.a⟩

/-- A round that leaves each register where the next round expects it. -/
def step (w : Words) : Words := turn (op f g w)

def unstep (w : Words) : Words := invop f g (turnBack w)

theorem unstep_step (w : Words) : unstep f g (step f g w) = w := by
  have hb : rotateRight (rotateLeft w.b 30) 30 = w.b := rotateRight_rotateLeft w.b (by decide) (by decide)
  simp only [unstep, step, turn, turnBack, op, invop, hb, UInt32.add_sub_cancel]

variable (w : Nat → UInt32)

/-- `m` rounds with one of the functions. -/
def phase (a m : Nat) (x : Words) : Words := (List.range m).foldl (fun x j => step f (w (a + j)) x) x

def unphase (a m : Nat) (x : Words) : Words :=
  (List.range m).reverse.foldl (fun x j => unstep f (w (a + j)) x) x

theorem unphase_phase (a m : Nat) (x : Words) : unphase f w a m (phase f w a m x) = x :=
  foldl_reverse_undo (fun x j => unstep_step f (w (a + j)) x) (List.range m) x

theorem phase_add (a m n : Nat) (x : Words) : phase f w a (m + n) x = phase f w (a + m) n (phase f w a m x) := by
  rw [phase, List.range_add, List.foldl_append, List.foldl_map]
  simp only [phase, Nat.add_assoc]

/-- Five rounds, written with the registers exchanged. -/
theorem phase_five (a : Nat) (x : Words) : phase f w a 5 x =
    bcdea (op f (w (a + 4))) (cdeab (op f (w (a + 3))) (deabc (op f (w (a + 2)))
      (eabcd (op f (w (a + 1))) (op f (w a) x)))) := rfl

/-- The 80 rounds, with a word for each. -/
def rounds (x : Words) : Words := phase ii w 60 20 (phase hh w 40 20 (phase gg w 20 20 (phase ff w 0 20 x)))

theorem phase_congr {v w : Nat → UInt32} {a m : Nat} (h : ∀ j < m, v (a + j) = w (a + j)) (x : Words) :
    phase f v a m x = phase f w a m x := by
  apply List.foldl_ext
  intro y j hj
  rw [h j (List.mem_range.mp hj)]

theorem rounds_congr {v w : Nat → UInt32} (h : ∀ j < 80, v j = w j) (x : Words) : rounds v x = rounds w x := by
  unfold rounds
  have hff : ∀ j < 20, v (0 + j) = w (0 + j) := fun j hj => h _ (by omega)
  have hgg : ∀ j < 20, v (20 + j) = w (20 + j) := fun j hj => h _ (by omega)
  have hhh : ∀ j < 20, v (40 + j) = w (40 + j) := fun j hj => h _ (by omega)
  have hii : ∀ j < 20, v (60 + j) = w (60 + j) := fun j hj => h _ (by omega)
  rw [phase_congr ff hff, phase_congr gg hgg, phase_congr hh hhh, phase_congr ii hii]

end Rounds

section Inverse

variable (f : UInt32 → UInt32 → UInt32 → UInt32) (w : Nat → UInt32)

theorem fiveInverse_eq (x : Words) (i : Nat) :
    fiveInverse f w x i = (List.range 5).foldl (fun x j => unstep f (w (i - j)) x) x := rfl

theorem unphase_eq (a : Nat) (x : Words) :
    unphase f w a 20 x = (List.range 4).foldl (fun x n => fiveInverse f w x (a + 19 - 5 * n)) x := by
  rw [unphase, foldl_reverse_range, show 20 = 5 * 4 from rfl, foldl_range_mul]
  apply List.foldl_ext
  intro y n hn
  rw [fiveInverse_eq]
  apply List.foldl_ext
  intro z j hj
  have hplace : a + (5 * 4 - 1 - (5 * n + j)) = a + 19 - 5 * n - j := by
    have hn' := List.mem_range.mp hn
    have hj' := List.mem_range.mp hj
    omega
  rw [hplace]

/-- `InverseTransform` undoes the rounds. -/
theorem inverseTransform_rounds (x : Words) : inverseTransform (rounds w x) w = x := by
  have hunphases : ∀ y, inverseTransform y w =
      unphase ff w 0 20 (unphase gg w 20 20 (unphase hh w 40 20 (unphase ii w 60 20 y))) := by
    intro y
    simp only [unphase_eq]
    rfl
  rw [hunphases, rounds, unphase_phase, unphase_phase, unphase_phase, unphase_phase]

end Inverse

/-! ## The schedule -/

section Schedule

variable (rotate : UInt32)

/-- The words for the rounds. -/
def schedule (block : Block) (i : Nat) : UInt32 :=
  if i < 16 then wordAt block i
  else rotateLeft (schedule block (i - 3) ^^^ schedule block (i - 8) ^^^ schedule block (i - 14) ^^^
    schedule block (i - 16)) rotate

variable {rotate} (block : Block)

theorem schedule_start {i : Nat} (hi : i < 16) : schedule rotate block i = wordAt block i := by
  rw [schedule, if_pos hi]

theorem schedule_next (i : Nat) : schedule rotate block (i + 16) =
    rotateLeft (schedule rotate block (i + 13) ^^^ schedule rotate block (i + 8) ^^^
      schedule rotate block (i + 2) ^^^ schedule rotate block i) rotate := by
  rw [schedule, if_neg (by omega)]
  rfl

theorem window_start : Window (schedule rotate block) 0 block := by
  intro j hj
  rw [Nat.zero_add, schedule_start block hj]

theorem rotateLeft_zero (x : UInt32) : rotateLeft x 0 = x := by
  have hshift : x >>> (32 - 0) = x := UInt32.toBitVec_inj.mp (by simp)
  rw [rotateLeft, hshift, UInt32.shiftLeft_zero, UInt32.or_self]

/-- `EXPANSION` puts the next word of the schedule in the place of the oldest one. -/
theorem window_expansion {block blk : Block} {i : Nat} (h : Window (schedule rotate block) i blk) :
    Window (schedule rotate block) (i + 1) (expansion rotate blk (i + 16)) := by
  have hread : ∀ j < 16, wordAt blk (i + 16 + j) = schedule rotate block (i + j) := by
    intro j hj
    rw [Nat.add_right_comm, wordAt_add_size, h j hj]
  have hword : (if rotate ≠ 0 then
      rotateLeft (wordAt blk (i + 16 + 13) ^^^ wordAt blk (i + 16 + 8) ^^^ wordAt blk (i + 16 + 2) ^^^
        wordAt blk (i + 16)) rotate
      else wordAt blk (i + 16) ^^^ (wordAt blk (i + 16 + 13) ^^^ wordAt blk (i + 16 + 8) ^^^ wordAt blk (i + 16 + 2))) =
      schedule rotate block (i + 16) := by
    have hfirst : wordAt blk (i + 16) = schedule rotate block i := hread 0 (by decide)
    rw [schedule_next, hread 13 (by decide), hread 8 (by decide), hread 2 (by decide), hfirst]
    split_ifs with hr
    · rfl
    · rw [not_not.mp hr, rotateLeft_zero, UInt32.xor_comm]
  rw [expansion, hword, Nat.add_mod_right]
  exact h.store

end Schedule

/-! ## The rounds of `ForwardTransform` -/

section Forward

variable {rotate : UInt32} {block blk : Block} {i : Nat}

theorem opExpansion_spec (view : (Words → Words) → Words → Words) (f : UInt32 → UInt32 → UInt32 → UInt32)
    (x : Words) (h : Window (schedule rotate block) i blk) :
    ∃ blk', Window (schedule rotate block) (i + 1) blk' ∧
      opExpansion rotate view f (x, blk) (i + 16) = (view (op f (schedule rotate block (i + 16))) x, blk') := by
  have hnext := window_expansion h
  refine ⟨_, hnext, ?_⟩
  rw [opExpansion, hnext.newest]

theorem fiveExpansions_spec (f : UInt32 → UInt32 → UInt32 → UInt32) (x : Words)
    (h : Window (schedule rotate block) i blk) :
    ∃ blk', Window (schedule rotate block) (i + 5) blk' ∧
      fiveExpansions rotate f (x, blk) (i + 16) = (phase f (schedule rotate block) (i + 16) 5 x, blk') := by
  obtain ⟨b1, h1, e1⟩ := opExpansion_spec (fun g => g) f x h
  obtain ⟨b2, h2, e2⟩ := opExpansion_spec eabcd f _ h1
  obtain ⟨b3, h3, e3⟩ := opExpansion_spec deabc f _ h2
  obtain ⟨b4, h4, e4⟩ := opExpansion_spec cdeab f _ h3
  obtain ⟨b5, h5, e5⟩ := opExpansion_spec bcdea f _ h4
  refine ⟨b5, h5, ?_⟩
  rw [fiveExpansions, phase_five, e1, Nat.add_right_comm i 16 1, e2, Nat.add_right_comm i 16 2, e3,
    Nat.add_right_comm i 16 3, e4, Nat.add_right_comm i 16 4, e5]

/-- The passes of a loop of `ForwardTransform`. -/
theorem loop_spec (f : UInt32 → UInt32 → UInt32 → UInt32) (x : Words)
    (h : Window (schedule rotate block) i blk) (n : Nat) :
    ∃ blk', Window (schedule rotate block) (i + 5 * n) blk' ∧
      (List.range n).foldl (fun st n => fiveExpansions rotate f st (i + 16 + 5 * n)) (x, blk) =
        (phase f (schedule rotate block) (i + 16) (5 * n) x, blk') := by
  induction n with
  | zero => exact ⟨blk, h, rfl⟩
  | succ n ih =>
    obtain ⟨b, hb, hpasses⟩ := ih
    obtain ⟨b', hb', hfive⟩ := fiveExpansions_spec f (phase f (schedule rotate block) (i + 16) (5 * n) x) hb
    refine ⟨b', hb', ?_⟩
    rw [List.range_succ, List.foldl_append, hpasses, List.foldl_cons, List.foldl_nil, Nat.mul_succ, phase_add,
      Nat.add_right_comm i 16 (5 * n), hfive]

theorem fiveWords_eq (x : Words) (hi : i + 5 ≤ 16) :
    fiveWords block x i = phase ff (schedule rotate block) i 5 x := by
  have hwords : fiveWords block x i = phase ff (wordAt block) i 5 x := by
    rw [phase_five]
    rfl
  rw [hwords]
  apply phase_congr
  intro j hj
  rw [schedule_start block (show i + j < 16 by omega)]

/-- `ForwardTransform` makes the rounds with the words of the schedule. -/
theorem forwardTransform_eq (rotate : UInt32) (state : Words) (block : Block) :
    forwardTransform rotate state block = rounds (schedule rotate block) state := by
  have hlast : wordAt block 15 = schedule rotate block 15 := (schedule_start block (by decide)).symm
  obtain ⟨b1, h1, e1⟩ := opExpansion_spec eabcd ff
    (op ff (schedule rotate block 15) (phase ff (schedule rotate block) 0 15 state)) (window_start block)
  obtain ⟨b2, h2, e2⟩ := opExpansion_spec deabc ff _ h1
  obtain ⟨b3, h3, e3⟩ := opExpansion_spec cdeab ff _ h2
  obtain ⟨b4, h4, e4⟩ := opExpansion_spec bcdea ff _ h3
  have hfirst : fiveWords block (fiveWords block (fiveWords block state 0) 5) 10 =
      phase ff (schedule rotate block) 0 15 state := by
    rw [@fiveWords_eq rotate block 0 _ (show 0 + 5 ≤ 16 by decide),
      @fiveWords_eq rotate block 5 _ (show 5 + 5 ≤ 16 by decide),
      @fiveWords_eq rotate block 10 _ (show 10 + 5 ≤ 16 by decide), phase_add ff _ 0 10 5, phase_add ff _ 0 5 5]
  have hff := phase_add ff (schedule rotate block) 0 15 5 state
  rw [phase_five] at hff
  rw [← hff] at e4
  obtain ⟨b5, h5, e5⟩ := loop_spec gg (phase ff (schedule rotate block) 0 20 state) h4 4
  obtain ⟨b6, h6, e6⟩ := loop_spec hh _ h5 4
  obtain ⟨b7, h7, e7⟩ := loop_spec ii _ h6 4
  unfold forwardTransform
  simp only
  rw [hfirst, hlast, e1, e2, e3, e4, e5, e6, e7]
  rfl

end Forward

end Drew.Sha1
