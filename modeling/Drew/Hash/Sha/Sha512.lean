import Drew.Hash.Sha.Sha2

/-!
# SHA-512

The model of the class `SHA512Transform`, which keeps only the last sixteen words of the schedule, and of the classes
`SHA512`, `SHA384` and `SHA512t`. Their digests are those of the standard (`sha512_digest_eq`, `sha512t_digest_eq`).
-/

namespace Drew.Sha512

open Drew.Memory Drew.Block Drew.Hash Drew.Sha2

/-- The local variables `a` to `h`. -/
@[ext] structure Words where
  a : UInt64
  b : UInt64
  c : UInt64
  d : UInt64
  e : UInt64
  f : UInt64
  g : UInt64
  h : UInt64

/-- The array `blk`. -/
abbrev Block := Vector UInt64 16

/-- `RotateRight`. -/
def rotateRight (x n : UInt64) : UInt64 := x >>> n ||| x <<< (64 - n)

def ternarySelection (x y z : UInt64) : UInt64 := z ^^^ (x &&& (y ^^^ z))

def ternaryMajority (x y z : UInt64) : UInt64 := (x &&& y) ||| (z &&& (x ^^^ y))

def S0 (x : UInt64) : UInt64 := rotateRight x 28 ^^^ rotateRight x 34 ^^^ rotateRight x 39

def S1 (x : UInt64) : UInt64 := rotateRight x 14 ^^^ rotateRight x 18 ^^^ rotateRight x 41

def s0 (x : UInt64) : UInt64 := rotateRight x 1 ^^^ rotateRight x 8 ^^^ x >>> 7

def s1 (x : UInt64) : UInt64 := rotateRight x 19 ^^^ rotateRight x 61 ^^^ x >>> 6

/-- `static const uint64_t k[]`. -/
def k : Vector UInt64 80 :=
  #v[0x428a2f98d728ae22, 0x7137449123ef65cd, 0xb5c0fbcfec4d3b2f, 0xe9b5dba58189dbbc, 0x3956c25bf348b538,
    0x59f111f1b605d019, 0x923f82a4af194f9b, 0xab1c5ed5da6d8118, 0xd807aa98a3030242, 0x12835b0145706fbe,
    0x243185be4ee4b28c, 0x550c7dc3d5ffb4e2, 0x72be5d74f27b896f, 0x80deb1fe3b1696b1, 0x9bdc06a725c71235,
    0xc19bf174cf692694, 0xe49b69c19ef14ad2, 0xefbe4786384f25e3, 0x0fc19dc68b8cd5b5, 0x240ca1cc77ac9c65,
    0x2de92c6f592b0275, 0x4a7484aa6ea6e483, 0x5cb0a9dcbd41fbd4, 0x76f988da831153b5, 0x983e5152ee66dfab,
    0xa831c66d2db43210, 0xb00327c898fb213f, 0xbf597fc7beef0ee4, 0xc6e00bf33da88fc2, 0xd5a79147930aa725,
    0x06ca6351e003826f, 0x142929670a0e6e70, 0x27b70a8546d22ffc, 0x2e1b21385c26c926, 0x4d2c6dfc5ac42aed,
    0x53380d139d95b3df, 0x650a73548baf63de, 0x766a0abb3c77b2a8, 0x81c2c92e47edaee6, 0x92722c851482353b,
    0xa2bfe8a14cf10364, 0xa81a664bbc423001, 0xc24b8b70d0f89791, 0xc76c51a30654be30, 0xd192e819d6ef5218,
    0xd69906245565a910, 0xf40e35855771202a, 0x106aa07032bbd1b8, 0x19a4c116b8d2d0c8, 0x1e376c085141ab53,
    0x2748774cdf8eeb99, 0x34b0bcb5e19b48a8, 0x391c0cb3c5c95a63, 0x4ed8aa4ae3418acb, 0x5b9cca4f7763e373,
    0x682e6ff3d6b2b8a3, 0x748f82ee5defb2fc, 0x78a5636f43172f60, 0x84c87814a1f0ab72, 0x8cc702081a6439ec,
    0x90befffa23631e28, 0xa4506cebde82bde9, 0xbef9a3f7b2c67915, 0xc67178f2e372532b, 0xca273eceea26619c,
    0xd186b8c721c0c207, 0xeada7dd6cde0eb1e, 0xf57d4f7fee6ed178, 0x06f067aa72176fba, 0x0a637dc5a2c898a6,
    0x113f9804bef90dae, 0x1b710b35131c471b, 0x28db77f523047d84, 0x32caab7b40c72493, 0x3c9ebe0a15c9bebc,
    0x431d67c49c100d4c, 0x4cc5d4becb3e42b6, 0x597f299cfc657e2a, 0x5fcb6fab3ad6faec, 0x6c44198c4a475817]

/-- `ROUND(a, b, c, d, e, f, g, h, k, blk)`. -/
def round (k blk : UInt64) (w : Words) : Words :=
  let h := w.h + (S1 w.e + ternarySelection w.e w.f w.g + k + blk)
  { w with
    d := w.d + h
    h := h + (S0 w.a + ternaryMajority w.a w.b w.c) }

section Views

variable (g : Words → Words) (w : Words)

/-- The macros with `h, a, b, c, d, e, f, g` in the places of `a, b, c, d, e, f, g, h`. -/
def habcdefg : Words :=
  let r := g ⟨w.h, w.a, w.b, w.c, w.d, w.e, w.f, w.g⟩
  ⟨r.b, r.c, r.d, r.e, r.f, r.g, r.h, r.a⟩

def ghabcdef : Words :=
  let r := g ⟨w.g, w.h, w.a, w.b, w.c, w.d, w.e, w.f⟩
  ⟨r.c, r.d, r.e, r.f, r.g, r.h, r.a, r.b⟩

def fghabcde : Words :=
  let r := g ⟨w.f, w.g, w.h, w.a, w.b, w.c, w.d, w.e⟩
  ⟨r.d, r.e, r.f, r.g, r.h, r.a, r.b, r.c⟩

def efghabcd : Words :=
  let r := g ⟨w.e, w.f, w.g, w.h, w.a, w.b, w.c, w.d⟩
  ⟨r.e, r.f, r.g, r.h, r.a, r.b, r.c, r.d⟩

def defghabc : Words :=
  let r := g ⟨w.d, w.e, w.f, w.g, w.h, w.a, w.b, w.c⟩
  ⟨r.f, r.g, r.h, r.a, r.b, r.c, r.d, r.e⟩

def cdefghab : Words :=
  let r := g ⟨w.c, w.d, w.e, w.f, w.g, w.h, w.a, w.b⟩
  ⟨r.g, r.h, r.a, r.b, r.c, r.d, r.e, r.f⟩

def bcdefgha : Words :=
  let r := g ⟨w.b, w.c, w.d, w.e, w.f, w.g, w.h, w.a⟩
  ⟨r.h, r.a, r.b, r.c, r.d, r.e, r.f, r.g⟩

end Views

/-! ## The functions of the class -/

/-- `ROUND2`, where the constant has the index `i + j` and the word the index `j`. Going back by `d` words in `blk` is
going forward by `16 - d`. -/
def round2 (view : (Words → Words) → Words → Words) (st : Words × Block) (i j : Nat) : Words × Block :=
  let blk := st.2.setIfInBounds j
    (wordAt st.2 j + (s1 (wordAt st.2 (j + 14)) + wordAt st.2 (j + 9) + s0 (wordAt st.2 (j + 1))))
  (view (round (wordAt k (i + j)) (wordAt blk j)) st.1, blk)

/-- The body of the first loop of `Transform`. -/
def eightRounds (blk : Block) (w : Words) (i : Nat) : Words :=
  let w := round (wordAt k i) (wordAt blk i) w
  let w := habcdefg (round (wordAt k (i + 1)) (wordAt blk (i + 1))) w
  let w := ghabcdef (round (wordAt k (i + 2)) (wordAt blk (i + 2))) w
  let w := fghabcde (round (wordAt k (i + 3)) (wordAt blk (i + 3))) w
  let w := efghabcd (round (wordAt k (i + 4)) (wordAt blk (i + 4))) w
  let w := defghabc (round (wordAt k (i + 5)) (wordAt blk (i + 5))) w
  let w := cdefghab (round (wordAt k (i + 6)) (wordAt blk (i + 6))) w
  bcdefgha (round (wordAt k (i + 7)) (wordAt blk (i + 7))) w

/-- The body of the second loop. -/
def sixteenRounds2 (st : Words × Block) (i : Nat) : Words × Block :=
  let st := round2 (fun g => g) st i 0
  let st := round2 habcdefg st i 1
  let st := round2 ghabcdef st i 2
  let st := round2 fghabcde st i 3
  let st := round2 efghabcd st i 4
  let st := round2 defghabc st i 5
  let st := round2 cdefghab st i 6
  let st := round2 bcdefgha st i 7
  let st := round2 (fun g => g) st i 8
  let st := round2 habcdefg st i 9
  let st := round2 ghabcdef st i 10
  let st := round2 fghabcde st i 11
  let st := round2 efghabcd st i 12
  let st := round2 defghabc st i 13
  let st := round2 cdefghab st i 14
  round2 bcdefgha st i 15

/-- The sums of the words. -/
def Words.add (state b : Words) : Words :=
  ⟨state.a + b.a, state.b + b.b, state.c + b.c, state.d + b.d, state.e + b.e, state.f + b.f,
    state.g + b.g, state.h + b.h⟩

/-- The two loops. -/
def loops (state : Words) (blk : Block) : Words :=
  let w := (List.range 2).foldl (fun w n => eightRounds blk w (8 * n)) state
  ((List.range 4).foldl (fun st n => sixteenRounds2 st (16 + 16 * n)) (w, blk)).1

/-- `Transform`. -/
def transform (state : Words) (block : List UInt8) : Words :=
  state.add (loops state (copyIn word64 .big 16 block))

/-! ## The rounds -/

/-- The registers move by one place. -/
def turn (w : Words) : Words := ⟨w.h, w.a, w.b, w.c, w.d, w.e, w.f, w.g⟩

def turnBack (w : Words) : Words := ⟨w.b, w.c, w.d, w.e, w.f, w.g, w.h, w.a⟩

/-- A round that leaves each register where the next round expects it. -/
def step (k blk : UInt64) (w : Words) : Words := turn (round k blk w)

/-- `m` rounds from the one with number `a` on. -/
def phase (w : Nat → UInt64) (a m : Nat) (x : Words) : Words :=
  (List.range m).foldl (fun x j => step (wordAt k (a + j)) (w (a + j)) x) x

section Phase

variable {v w : Nat → UInt64}

theorem phase_add (a m n : Nat) (x : Words) : phase w a (m + n) x = phase w (a + m) n (phase w a m x) := by
  rw [phase, List.range_add, List.foldl_append, List.foldl_map]
  simp only [phase, Nat.add_assoc]

theorem phase_congr {a m : Nat} (h : ∀ j < m, v (a + j) = w (a + j)) (x : Words) :
    phase v a m x = phase w a m x := by
  apply List.foldl_ext
  intro y j hj
  rw [h j (List.mem_range.mp hj)]

section Turns

variable (g : Words → Words) (y : Words)

theorem turnBack_turn : turnBack (turn y) = y := rfl

theorem turnBack_seven : turnBack (turnBack (turnBack (turnBack (turnBack (turnBack (turnBack y)))))) = turn y := rfl

theorem habcdefg_eq : habcdefg g y = turnBack (g (turn y)) := rfl

theorem ghabcdef_eq : ghabcdef g y = turnBack (turnBack (g (turn (turn y)))) := rfl

theorem fghabcde_eq : fghabcde g y = turnBack (turnBack (turnBack (g (turn (turn (turn y)))))) := rfl

theorem efghabcd_eq : efghabcd g y =
    turn (turn (turn (turn (g (turnBack (turnBack (turnBack (turnBack y)))))))) := rfl

theorem defghabc_eq : defghabc g y = turn (turn (turn (g (turnBack (turnBack (turnBack y)))))) := rfl

theorem cdefghab_eq : cdefghab g y = turn (turn (g (turnBack (turnBack y)))) := rfl

theorem bcdefgha_eq : bcdefgha g y = turn (g (turnBack y)) := rfl

theorem turn_turnBack : turn (turnBack y) = y := rfl

end Turns

/-- Eight rounds, written with the registers exchanged. -/
theorem phase_eight (a : Nat) (x : Words) : phase w a 8 x =
    bcdefgha (round (wordAt k (a + 7)) (w (a + 7))) (cdefghab (round (wordAt k (a + 6)) (w (a + 6)))
      (defghabc (round (wordAt k (a + 5)) (w (a + 5))) (efghabcd (round (wordAt k (a + 4)) (w (a + 4)))
        (fghabcde (round (wordAt k (a + 3)) (w (a + 3))) (ghabcdef (round (wordAt k (a + 2)) (w (a + 2)))
          (habcdefg (round (wordAt k (a + 1)) (w (a + 1))) (round (wordAt k a) (w a) x))))))) := by
  have hsteps : phase w a 8 x = step (wordAt k (a + 7)) (w (a + 7)) (step (wordAt k (a + 6)) (w (a + 6))
      (step (wordAt k (a + 5)) (w (a + 5)) (step (wordAt k (a + 4)) (w (a + 4))
        (step (wordAt k (a + 3)) (w (a + 3)) (step (wordAt k (a + 2)) (w (a + 2))
          (step (wordAt k (a + 1)) (w (a + 1)) (step (wordAt k a) (w a) x))))))) := rfl
  rw [hsteps, bcdefgha_eq, cdefghab_eq, defghabc_eq, efghabcd_eq, fghabcde_eq, ghabcdef_eq, habcdefg_eq]
  simp only [turnBack_turn, turn_turnBack, turnBack_seven, step]

end Phase

/-! ## Bits -/

theorem rotateRight_toBitVec (x : UInt64) {n : UInt64} (h0 : 0 < n.toNat) (h : n.toNat < 64) :
    (rotateRight x n).toBitVec = x.toBitVec.rotateRight n.toNat := by
  have hn : (n.toBitVec % 64).toNat = n.toNat := Nat.mod_eq_of_lt h
  have hsub : (64 - n).toNat = 64 - n.toNat := UInt64.toNat_sub_of_le _ _ (UInt64.le_iff_toNat_le.mpr h.le)
  have hs : ((64 - n).toBitVec % 64).toNat = 64 - n.toNat := by
    rw [BitVec.toNat_umod, UInt64.toNat_toBitVec, hsub]
    exact Nat.mod_eq_of_lt (show 64 - n.toNat < 64 by omega)
  rw [rotateRight, UInt64.toBitVec_or, UInt64.toBitVec_shiftLeft, UInt64.toBitVec_shiftRight,
    BitVec.shiftLeft_eq', BitVec.ushiftRight_eq', hn, hs, BitVec.rotateRight_def, Nat.mod_eq_of_lt h]

theorem S0_eq (x : UInt64) : (S0 x).toBitVec = big sha512.bigSigma0 x.toBitVec := by
  rw [S0, UInt64.toBitVec_xor, UInt64.toBitVec_xor, rotateRight_toBitVec _ (by decide) (by decide),
    rotateRight_toBitVec _ (by decide) (by decide), rotateRight_toBitVec _ (by decide) (by decide)]
  rfl

theorem S1_eq (x : UInt64) : (S1 x).toBitVec = big sha512.bigSigma1 x.toBitVec := by
  rw [S1, UInt64.toBitVec_xor, UInt64.toBitVec_xor, rotateRight_toBitVec _ (by decide) (by decide),
    rotateRight_toBitVec _ (by decide) (by decide), rotateRight_toBitVec _ (by decide) (by decide)]
  rfl

theorem s0_eq (x : UInt64) : (s0 x).toBitVec = small sha512.smallSigma0 x.toBitVec := by
  rw [s0, UInt64.toBitVec_xor, UInt64.toBitVec_xor, rotateRight_toBitVec _ (by decide) (by decide),
    rotateRight_toBitVec _ (by decide) (by decide)]
  rfl

theorem s1_eq (x : UInt64) : (s1 x).toBitVec = small sha512.smallSigma1 x.toBitVec := by
  rw [s1, UInt64.toBitVec_xor, UInt64.toBitVec_xor, rotateRight_toBitVec _ (by decide) (by decide),
    rotateRight_toBitVec _ (by decide) (by decide)]
  rfl

theorem ternarySelection_eq (x y z : UInt64) :
    (ternarySelection x y z).toBitVec = ch x.toBitVec y.toBitVec z.toBitVec :=
  selection_eq _ _ _

theorem ternaryMajority_eq (x y z : UInt64) :
    (ternaryMajority x y z).toBitVec = maj x.toBitVec y.toBitVec z.toBitVec :=
  majority_eq _ _ _

theorem k_roots : k.toList.map UInt64.toNat = primes.map (rootBits 3 · 64) := by decide +kernel

theorem k_eq {t : Nat} (ht : t < 80) : (wordAt k t).toBitVec = K 64 t := by
  have hget := congrArg (fun l => l[t]?) k_roots
  simp only [List.getElem?_map, getElem?_toList _ ht, Option.map_some] at hget
  apply BitVec.eq_of_toNat_eq
  rw [UInt64.toNat_toBitVec, toNat_K hget.symm]

/-! ## Rounds of the standard -/

/-- The registers of the code. -/
def ofWords (s : Words) : Registers 64 :=
  ⟨s.a.toBitVec, s.b.toBitVec, s.c.toBitVec, s.d.toBitVec, s.e.toBitVec, s.f.toBitVec, s.g.toBitVec, s.h.toBitVec⟩

theorem step_eq {t : Nat} (ht : t < 80) (x : UInt64) (s : Words) :
    ofWords (step (wordAt k t) x s) = sha512.step x.toBitVec t (ofWords s) := by
  have hsum : (s.h + (S1 s.e + ternarySelection s.e s.f s.g + wordAt k t + x)).toBitVec =
      s.h.toBitVec + big sha512.bigSigma1 s.e.toBitVec + ch s.e.toBitVec s.f.toBitVec s.g.toBitVec + K 64 t +
        x.toBitVec := by
    rw [UInt64.toBitVec_add, UInt64.toBitVec_add, UInt64.toBitVec_add, UInt64.toBitVec_add, S1_eq,
      ternarySelection_eq, k_eq ht]
    simp only [BitVec.add_assoc]
  have hround : (S0 s.a + ternaryMajority s.a s.b s.c).toBitVec =
      big sha512.bigSigma0 s.a.toBitVec + maj s.a.toBitVec s.b.toBitVec s.c.toBitVec := by
    rw [UInt64.toBitVec_add, S0_eq, ternaryMajority_eq]
  refine Registers.ext ?_ rfl rfl rfl ?_ rfl rfl rfl
  · exact UInt64.toBitVec_add.trans (congrArg₂ (· + ·) hsum hround)
  · exact UInt64.toBitVec_add.trans (congrArg (s.d.toBitVec + ·) hsum)

/-- The schedule of the standard, for a block of the code. -/
def schedule (block : Block) (t : Nat) : UInt64 :=
  UInt64.ofBitVec (sha512.schedule (fun j => (wordAt block j).toBitVec) t)

theorem phase_eq (block : Block) (s : Words) :
    ofWords (phase (schedule block) 0 80 s) = (List.range 80).foldl
      (fun r t => sha512.step (sha512.schedule (fun j => (wordAt block j).toBitVec) t) t r) (ofWords s) := by
  unfold phase
  apply List.foldl_rel (r := fun s r => ofWords s = r) rfl
  rintro t ht s _ rfl
  rw [Nat.zero_add, step_eq (List.mem_range.mp ht)]
  rfl

/-! ## The window -/

section Window

variable {block blk : Block} {n j : Nat}

theorem schedule_start (block : Block) (hj : j < 16) : schedule block j = wordAt block j := by
  rw [schedule, Member.schedule_start _ hj]

theorem window_start (block : Block) : Window (schedule block) 0 block := by
  intro j hj
  rw [Nat.zero_add, schedule_start block hj]

/-- The word that is added to. -/
theorem schedule_add (block : Block) (i : Nat) : schedule block (i + 16) = schedule block i +
    (s1 (schedule block (i + 14)) + schedule block (i + 9) + s0 (schedule block (i + 1))) := by
  apply UInt64.eq_of_toBitVec_eq
  have hnext := sha512.schedule_next (Nat.le_add_left 16 i) fun j => (wordAt block j).toBitVec
  rw [UInt64.toBitVec_add, UInt64.toBitVec_add, UInt64.toBitVec_add, s0_eq, s1_eq, BitVec.add_comm]
  exact hnext

theorem wordAt_pass (blk : Block) (n j : Nat) : wordAt blk (16 * n + j) = wordAt blk j := by
  rw [← wordAt_mod, Nat.mul_add_mod, wordAt_mod]

theorem round2_spec (view : (Words → Words) → Words → Words) (x : Words) (hj : j < 16)
    (h : Window (schedule block) (16 * n + j) blk) :
    ∃ blk', Window (schedule block) (16 * n + (j + 1)) blk' ∧ round2 view (x, blk) (16 + 16 * n) j =
      (view (round (wordAt k (16 + 16 * n + j)) (schedule block (16 + 16 * n + j))) x, blk') := by
  have hread : ∀ d < 16, wordAt blk (j + d) = schedule block (16 * n + j + d) := by
    intro d hd
    rw [← wordAt_pass blk n, ← Nat.add_assoc]
    exact h d hd
  have hplace : (16 * n + j) % 16 = j := by rw [Nat.mul_add_mod, Nat.mod_eq_of_lt hj]
  have hword : wordAt blk j + (s1 (wordAt blk (j + 14)) + wordAt blk (j + 9) + s0 (wordAt blk (j + 1))) =
      schedule block (16 * n + j + 16) := by
    have hfirst : wordAt blk j = schedule block (16 * n + j) := hread 0 (by decide)
    rw [schedule_add, hread 14 (by decide), hread 9 (by decide), hread 1 (by decide), hfirst]
  have hnext := h.store
  rw [hplace, ← hword] at hnext
  have hnewest := hnext.newest
  rw [Nat.add_assoc, wordAt_pass, wordAt_add_size] at hnewest
  refine ⟨_, hnext, ?_⟩
  rw [round2]
  simp only
  rw [hnewest, show 16 * n + (j + 16) = 16 + 16 * n + j by omega]

theorem sixteenRounds2_spec (x : Words) (h : Window (schedule block) (16 * n) blk) :
    ∃ blk', Window (schedule block) (16 * (n + 1)) blk' ∧
      sixteenRounds2 (x, blk) (16 + 16 * n) = (phase (schedule block) (16 + 16 * n) 16 x, blk') := by
  obtain ⟨b0, h0, e0⟩ := round2_spec (fun g => g) x (show 0 < 16 by decide) h
  obtain ⟨b1, h1, e1⟩ := round2_spec habcdefg _ (by decide) h0
  obtain ⟨b2, h2, e2⟩ := round2_spec ghabcdef _ (by decide) h1
  obtain ⟨b3, h3, e3⟩ := round2_spec fghabcde _ (by decide) h2
  obtain ⟨b4, h4, e4⟩ := round2_spec efghabcd _ (by decide) h3
  obtain ⟨b5, h5, e5⟩ := round2_spec defghabc _ (by decide) h4
  obtain ⟨b6, h6, e6⟩ := round2_spec cdefghab _ (by decide) h5
  obtain ⟨b7, h7, e7⟩ := round2_spec bcdefgha _ (by decide) h6
  obtain ⟨b8, h8, e8⟩ := round2_spec (fun g => g) _ (by decide) h7
  obtain ⟨b9, h9, e9⟩ := round2_spec habcdefg _ (by decide) h8
  obtain ⟨b10, h10, e10⟩ := round2_spec ghabcdef _ (by decide) h9
  obtain ⟨b11, h11, e11⟩ := round2_spec fghabcde _ (by decide) h10
  obtain ⟨b12, h12, e12⟩ := round2_spec efghabcd _ (by decide) h11
  obtain ⟨b13, h13, e13⟩ := round2_spec defghabc _ (by decide) h12
  obtain ⟨b14, h14, e14⟩ := round2_spec cdefghab _ (by decide) h13
  obtain ⟨b15, h15, e15⟩ := round2_spec bcdefgha _ (by decide) h14
  have hphase := @phase_add (schedule block) (16 + 16 * n) 8 8 x
  rw [phase_eight, phase_eight] at hphase
  refine ⟨b15, h15, ?_⟩
  rw [sixteenRounds2, e0, e1, e2, e3, e4, e5, e6, e7, e8, e9, e10, e11, e12, e13, e14, e15]
  exact Prod.ext hphase.symm rfl

/-- The passes of the second loop. -/
theorem loop_spec (block : Block) (x : Words) (n : Nat) :
    ∃ blk', Window (schedule block) (16 * n) blk' ∧
      (List.range n).foldl (fun st n => sixteenRounds2 st (16 + 16 * n)) (x, block) =
        (phase (schedule block) 16 (16 * n) x, blk') := by
  induction n with
  | zero => exact ⟨block, window_start block, rfl⟩
  | succ n ih =>
    obtain ⟨b, hb, hpasses⟩ := ih
    obtain ⟨b', hb', hsixteen⟩ := sixteenRounds2_spec (phase (schedule block) 16 (16 * n) x) hb
    refine ⟨b', hb', ?_⟩
    rw [List.range_succ, List.foldl_append, hpasses, List.foldl_cons, List.foldl_nil, hsixteen, Nat.mul_succ,
      phase_add]

theorem firstLoop_spec (block : Block) (x : Words) :
    (List.range 2).foldl (fun w n => eightRounds block w (8 * n)) x = phase (schedule block) 0 16 x := by
  have height : ∀ y i, i + 8 ≤ 16 → eightRounds block y i = phase (schedule block) i 8 y := by
    intro y i hi
    have hwords : eightRounds block y i = phase (wordAt block) i 8 y := by
      rw [phase_eight]
      rfl
    rw [hwords]
    apply phase_congr
    intro j hj
    rw [schedule_start block (by omega)]
  rw [show List.range 2 = [0, 1] from rfl, List.foldl_cons, List.foldl_cons, List.foldl_nil, height _ _ (by decide),
    height _ _ (by decide)]
  exact (phase_add 0 8 8 x).symm

/-- The loops make the rounds with the words of the schedule. -/
theorem loops_eq (state : Words) (block : Block) : loops state block = phase (schedule block) 0 80 state := by
  obtain ⟨b, -, hloop⟩ := loop_spec block (phase (schedule block) 0 16 state) 4
  rw [loops, firstLoop_spec, hloop]
  exact (phase_add 0 16 64 state).symm

end Window

/-! ## Digests -/

/-- A word that the code reads from a block. -/
theorem word_eq (block : List UInt8) {j : Nat} (hj : j < 16) :
    (wordAt (copyIn word64 .big 16 block) j).toBitVec = Member.wordOf 64 block j := by
  rw [copyIn, wordAt_ofFn, show (Fin.ofNat 16 j).val = j from Nat.mod_eq_of_lt hj]
  rfl

/-- `Transform` is the hash computation for a block. -/
theorem transform_eq (s : Words) (block : List UInt8) :
    ofWords (transform s block) = sha512.compress (ofWords s) (Member.wordOf 64 block) := by
  have hadd : ∀ s b : Words, ofWords (s.add b) = (ofWords s).add (ofWords b) := fun _ _ => rfl
  have hschedule := sha512.schedule_congr fun j (hj : j < 16) => word_eq block hj
  rw [transform, hadd, loops_eq, phase_eq, Member.compress]
  simp only [hschedule]
  rfl

/-- The words of `m_hash`. -/
def words (s : Words) : Vector UInt64 8 := #v[s.a, s.b, s.c, s.d, s.e, s.f, s.g, s.h]

theorem size_pos : 0 < word64.size := by decide

theorem words64_fits : 2 * Params.words64.wordBytes ≤ Params.words64.blkSize := by decide

/-- The padding of the classes with words of 64 bits. -/
abbrev padding64 : Padding .words64 := .template .words64 true words64_fits

/-- The classes of the file, with what `Reset` puts into `m_hash`. -/
def algorithm (initial : Words) : Algorithm .words64 UInt64 Words 8 where
  word := word64
  endian := .big
  transform := transform
  words := words
  initial := initial
  padding := padding64
  size_pos := size_pos
  lengthFits := lengthFits_template _ _ _

/-- `SHA512::Reset`. -/
def reset512 : Words :=
  ⟨0x6a09e667f3bcc908, 0xbb67ae8584caa73b, 0x3c6ef372fe94f82b, 0xa54ff53a5f1d36f1,
    0x510e527fade682d1, 0x9b05688c2b3e6c1f, 0x1f83d9abfb41bd6b, 0x5be0cd19137e2179⟩

/-- `SHA384::Reset`. -/
def reset384 : Words :=
  ⟨0xcbbb9d5dc1059ed8, 0x629a292a367cd507, 0x9159015a3070dd17, 0x152fecd8f70e5939,
    0x67332667ffc00b31, 0x8eb44a8768581511, 0xdb0c2e0d64f98fa7, 0x47b5481dbefa4fa4⟩

/-- What `SHA512t::Reset` puts into `m_hash` before the text. -/
def modified : Words :=
  ⟨0x6a09e667f3bcc908 ^^^ 0xa5a5a5a5a5a5a5a5, 0xbb67ae8584caa73b ^^^ 0xa5a5a5a5a5a5a5a5,
    0x3c6ef372fe94f82b ^^^ 0xa5a5a5a5a5a5a5a5, 0xa54ff53a5f1d36f1 ^^^ 0xa5a5a5a5a5a5a5a5,
    0x510e527fade682d1 ^^^ 0xa5a5a5a5a5a5a5a5, 0x9b05688c2b3e6c1f ^^^ 0xa5a5a5a5a5a5a5a5,
    0x1f83d9abfb41bd6b ^^^ 0xa5a5a5a5a5a5a5a5, 0x5be0cd19137e2179 ^^^ 0xa5a5a5a5a5a5a5a5⟩

/-- `"SHA-512/%zu"`. -/
def nameText (bits : Nat) : List UInt8 :=
  [0x53, 0x48, 0x41, 0x2d, 0x35, 0x31, 0x32, 0x2f] ++ (Nat.toDigits 10 bits).map fun c => UInt8.ofNat c.toNat

/-- `SHA512t::Reset` for `t` bytes: the words that it leaves in `m_hash`. -/
def reset512t (t : Nat) : Option Words := do
  let h ← update transform (init modified : Hash .words64 Words) (nameText (t * 8 % 2 ^ 64))
  let h ← pad transform padding64 h
  return h.hash

/-- The initial values of SHA-512/t: the hash of its name, with other initial values. -/
def iv512t (bits : Nat) : Registers 64 :=
  sha512.hash padding64 (.ofFn fun i => BitVec.ofNat 64 (rootBits 2 (prime i) 64) ^^^ 0xa5a5a5a5a5a5a5a5#64)
    (nameText bits)

/-- The numbers that a hash starts from. -/
theorem ofWords_resets : ofWords reset512 = iv512 ∧ ofWords reset384 = iv384 ∧ ofWords modified =
    .ofFn fun i => BitVec.ofNat 64 (rootBits 2 (prime i) 64) ^^^ 0xa5a5a5a5a5a5a5a5#64 := by
  refine ⟨Registers.ext ?_ ?_ ?_ ?_ ?_ ?_ ?_ ?_, Registers.ext ?_ ?_ ?_ ?_ ?_ ?_ ?_ ?_,
    Registers.ext ?_ ?_ ?_ ?_ ?_ ?_ ?_ ?_⟩ <;> decide +kernel

theorem chain_eq (initial : Words) (m : List UInt8) :
    ofWords (chain padding64 transform initial m) = sha512.hash padding64 (ofWords initial) m :=
  chain_map (p := ofWords) (g := fun H b => sha512.compress H (Member.wordOf 64 b)) padding64
    (fun s block _ => transform_eq s block) initial m

open HashClass in
theorem digest_eq (initial : Words) (N : Endian) {len : Nat} (digest : Buf UInt8 len) (hlen : len ≤ 64)
    {calls : List HashClass.Call} (hcalls : Admissible 128 0 calls) :
    ((algorithm initial).hashClass N digest).digest calls =
      some (sha512.digest padding64 (ofWords initial) len (calls.flatMap HashClass.Call.data)) := by
  have hshort := short_of_admissible hcalls
  exact (algorithm initial).digest_map ofWords (fun H block => sha512.compress H (Member.wordOf 64 block))
    Registers.bytes (fun s block _ => transform_eq s block) (fun _ => rfl) N digest hlen hcalls hshort

/-- The text is short. -/
theorem nameText_short {t : Nat} (ht : t < 64) :
    ∀ p ∈ [nameText (8 * t)], p.length % 2 ^ (2 * Params.words64.wordBits) < 2 ^ Params.words64.wordBits := by
  have hall : ∀ t < 64, (nameText (8 * t)).length < 64 := by decide
  intro p hp
  rw [List.mem_singleton.mp hp]
  exact lt_of_le_of_lt (Nat.mod_le _ _) (lt_trans (hall t ht) (by decide))

/-- `SHA512t::Reset` leaves the initial values of the standard. -/
theorem reset512t_eq {t : Nat} (ht : t < 64) : ∃ s, reset512t t = some s ∧ ofWords s = iv512t (8 * t) := by
  have hmod : t * 8 % 2 ^ 64 = 8 * t := by omega
  have hstart := after_nil (P := .words64) transform modified
  obtain ⟨h, hrun, ha⟩ := run_spec hstart [nameText (8 * t)]
  have hcounter := counter_run hstart (counter_init modified) (nameText_short ht) hrun
  have hupdate : update transform (init modified) (nameText (8 * t)) = some h := by
    rw [← hrun, List.foldlM_cons]
    exact (bind_pure _).symm
  rw [List.nil_append, List.flatten_singleton] at ha hcounter
  obtain ⟨h', hpad, hhash⟩ := pad_chain ha hcounter (lengthFits_template .words64 true words64_fits _)
  refine ⟨h'.hash, ?_, ?_⟩
  · rw [reset512t, hmod, hupdate]
    simp only [Option.bind_eq_bind, Option.bind_some, hpad, pure]
  · rw [hhash, chain_eq, ofWords_resets.2.2]
    rfl

open HashClass in
/-- The digests of SHA-512 and SHA-384 are those of the standard, and so are those of SHA-512/t for the sizes that the
plugin has. -/
theorem sha512_digest_eq (N : Endian) {len : Nat} (digest : Buf UInt8 len) (hlen : len ≤ 64)
    {calls : List HashClass.Call} (hcalls : Admissible 128 0 calls) {t : Nat} (ht : t < 64) :
    ((algorithm reset512).hashClass N digest).digest calls =
        some (sha512.digest padding64 iv512 len (calls.flatMap HashClass.Call.data)) ∧
      ((algorithm reset384).hashClass N digest).digest calls =
        some (sha512.digest padding64 iv384 len (calls.flatMap HashClass.Call.data)) ∧
      ∃ s, reset512t t = some s ∧ ((algorithm s).hashClass N digest).digest calls =
        some (sha512.digest padding64 (iv512t (8 * t)) len (calls.flatMap HashClass.Call.data)) := by
  obtain ⟨s, hreset, hs⟩ := reset512t_eq ht
  rw [← ofWords_resets.1, ← ofWords_resets.2.1, ← hs]
  exact ⟨digest_eq reset512 N digest hlen hcalls, digest_eq reset384 N digest hlen hcalls, s, hreset,
    digest_eq s N digest hlen hcalls⟩

open HashClass in
/-- The digests of the message abc, with SHA-512/256 as the last one. -/
theorem sha512_digest_abc :
    ((algorithm reset512).hashClass .little (Vector.replicate 32 0)).digest [⟨false, [0x61, 0x62, 0x63]⟩] =
        some (sha512.digest padding64 iv512 32 [0x61, 0x62, 0x63]) ∧
      ((algorithm reset384).hashClass .little (Vector.replicate 32 0)).digest [⟨false, [0x61, 0x62, 0x63]⟩] =
        some (sha512.digest padding64 iv384 32 [0x61, 0x62, 0x63]) ∧
      ∃ s, reset512t 32 = some s ∧
        ((algorithm s).hashClass .little (Vector.replicate 32 0)).digest [⟨false, [0x61, 0x62, 0x63]⟩] =
          some (sha512.digest padding64 (iv512t (8 * 32)) 32 [0x61, 0x62, 0x63]) := by
  have hcalls : Admissible 128 0 [⟨false, [0x61, 0x62, 0x63]⟩] :=
    ⟨by decide, fun h => absurd h (by decide), trivial⟩
  exact sha512_digest_eq .little (Vector.replicate 32 0) (by decide) hcalls (show 32 < 64 by decide)

end Drew.Sha512
