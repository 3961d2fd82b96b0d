import Drew.Hash.Digest
import Drew.Hash.Sha.Sha256

/-!
# SHA-2

The family as the standard has it, for words of any size, with the constants as digits of roots of primes, and the
classes `SHA256` and `SHA224`. The rounds of the code, which exchange the names of the registers, are the steps of the
standard (`transform_eq`), so the digests are those of the standard for every message and however it is given
(`sha256_digest_eq`).
-/

namespace Drew.Sha2

open Drew.Memory Drew.StreamCipher Drew.Block Drew.Hash

/-! ## The standard -/

/-- The eight working variables. -/
@[ext] structure Registers (w : Nat) where
  a : BitVec w
  b : BitVec w
  c : BitVec w
  d : BitVec w
  e : BitVec w
  f : BitVec w
  g : BitVec w
  h : BitVec w

/-- The number of rounds, and the rotations of the four functions. The last number of the small ones is a shift. -/
structure Member (w : Nat) where
  rounds : Nat
  bigSigma0 : Nat × Nat × Nat
  bigSigma1 : Nat × Nat × Nat
  smallSigma0 : Nat × Nat × Nat
  smallSigma1 : Nat × Nat × Nat

/-- The primes below 410, of which there are 80. -/
def primes : List Nat :=
  (List.range 410).filter fun p => 2 ≤ p && (List.range 21).all fun d => d < 2 || p ≤ d || p % d != 0

/-- The prime number with an index. -/
def prime (t : Nat) : Nat := primes.getD t 0

section Standard

variable {w : Nat}

def big (r : Nat × Nat × Nat) (x : BitVec w) : BitVec w :=
  x.rotateRight r.1 ^^^ x.rotateRight r.2.1 ^^^ x.rotateRight r.2.2

def small (r : Nat × Nat × Nat) (x : BitVec w) : BitVec w :=
  x.rotateRight r.1 ^^^ x.rotateRight r.2.1 ^^^ x >>> r.2.2

def ch (x y z : BitVec w) : BitVec w := (x &&& y) ^^^ (~~~x &&& z)

def maj (x y z : BitVec w) : BitVec w := (x &&& y) ^^^ (x &&& z) ^^^ (y &&& z)

/-- The constant of a round. -/
def K (w t : Nat) : BitVec w := BitVec.ofNat w (rootBits 3 (prime t) w)

namespace Registers

def ofFn (f : Nat → BitVec w) : Registers w := ⟨f 0, f 1, f 2, f 3, f 4, f 5, f 6, f 7⟩

def toList (r : Registers w) : List (BitVec w) := [r.a, r.b, r.c, r.d, r.e, r.f, r.g, r.h]

def bytes (r : Registers w) : List UInt8 := r.toList.flatMap fun x => beBytes (w / 8) x.toNat

def add (r s : Registers w) : Registers w :=
  ⟨r.a + s.a, r.b + s.b, r.c + s.c, r.d + s.d, r.e + s.e, r.f + s.f, r.g + s.g, r.h + s.h⟩

end Registers

namespace Member

variable (M : Member w)

/-- The message schedule. -/
def schedule (block : Nat → BitVec w) (t : Nat) : BitVec w :=
  if t < 16 then block t
  else small M.smallSigma1 (schedule block (t - 2)) + schedule block (t - 7) +
    small M.smallSigma0 (schedule block (t - 15)) + schedule block (t - 16)

theorem schedule_start {t : Nat} (ht : t < 16) (block : Nat → BitVec w) : M.schedule block t = block t := by
  rw [schedule, if_pos ht]

theorem schedule_next {t : Nat} (ht : 16 ≤ t) (block : Nat → BitVec w) : M.schedule block t =
    small M.smallSigma1 (M.schedule block (t - 2)) + M.schedule block (t - 7) +
      small M.smallSigma0 (M.schedule block (t - 15)) + M.schedule block (t - 16) := by
  rw [schedule, if_neg (by omega)]

/-- The schedule has the words of the block. -/
theorem schedule_congr {v v' : Nat → BitVec w} (h : ∀ j < 16, v j = v' j) (t : Nat) :
    M.schedule v t = M.schedule v' t := by
  induction t using Nat.strong_induction_on with
  | _ t ih =>
    by_cases ht : t < 16
    · rw [M.schedule_start ht v, M.schedule_start ht v', h t ht]
    · have hnext : 16 ≤ t := Nat.le_of_not_lt ht
      rw [M.schedule_next hnext v, M.schedule_next hnext v', ih (t - 2) (by omega), ih (t - 7) (by omega),
        ih (t - 15) (by omega), ih (t - 16) (by omega)]

/-- A round, with its word of the schedule. -/
def step (x : BitVec w) (t : Nat) (r : Registers w) : Registers w :=
  let t1 := r.h + big M.bigSigma1 r.e + ch r.e r.f r.g + K w t + x
  let t2 := big M.bigSigma0 r.a + maj r.a r.b r.c
  ⟨t1 + t2, r.a, r.b, r.c, r.d + t1, r.e, r.f, r.g⟩

/-- The hash computation for a block. -/
def compress (H : Registers w) (block : Nat → BitVec w) : Registers w :=
  H.add ((List.range M.rounds).foldl (fun r t => M.step (M.schedule block t) t r) H)

/-- A word of a block. -/
def wordOf (w : Nat) (block : List UInt8) (j : Nat) : BitVec w :=
  BitVec.ofNat w (beNat ((block.drop (w / 8 * j)).take (w / 8)))

/-- The hash of a message. -/
def hash {P : Params} (D : Padding P) (iv : Registers w) (m : List UInt8) : Registers w :=
  chain D (fun H block => M.compress H (wordOf w block)) iv m

/-- The first bytes of the hash. -/
def digest {P : Params} (D : Padding P) (iv : Registers w) (len : Nat) (m : List UInt8) : List UInt8 :=
  (M.hash D iv m).bytes.take len

end Member

end Standard

def sha256 : Member 32 := ⟨64, (2, 13, 22), (6, 11, 25), (7, 18, 3), (17, 19, 10)⟩

def sha512 : Member 64 := ⟨80, (28, 34, 39), (14, 18, 41), (1, 8, 7), (19, 61, 6)⟩

/-- The initial values: square roots of primes. SHA-224 takes the second 32 bits. -/
def iv256 : Registers 32 := .ofFn fun i => BitVec.ofNat 32 (rootBits 2 (prime i) 32)

def iv224 : Registers 32 := .ofFn fun i => BitVec.ofNat 32 (rootBits 2 (prime (i + 8)) 64)

def iv512 : Registers 64 := .ofFn fun i => BitVec.ofNat 64 (rootBits 2 (prime i) 64)

def iv384 : Registers 64 := .ofFn fun i => BitVec.ofNat 64 (rootBits 2 (prime (i + 8)) 64)

theorem mem_primes {p : Nat} : p ∈ primes ↔ p < 410 ∧ p.Prime := by
  rw [primes, List.mem_filter, List.mem_range]
  simp only [Bool.and_eq_true, decide_eq_true_eq, List.all_eq_true, List.mem_range, Bool.or_eq_true, bne_iff_ne]
  refine and_congr_right fun hlt => ?_
  constructor
  · rintro ⟨hp, h⟩
    refine Nat.prime_def_le_sqrt.mpr ⟨hp, fun d hd hsqrt hdvd => ?_⟩
    have hsquare : d * d ≤ p := Nat.le_sqrt.mp hsqrt
    have hsmall : d < 21 := by
      by_contra hlarge
      have hmul : 21 * 21 ≤ d * d := Nat.mul_le_mul (Nat.le_of_not_lt hlarge) (Nat.le_of_not_lt hlarge)
      omega
    rcases h d hsmall with (htwo | hle) | hmod
    · omega
    · have hmul : 2 * d ≤ d * d := Nat.mul_le_mul_right d hd
      omega
    · exact hmod (Nat.mod_eq_zero_of_dvd hdvd)
  · intro hp
    refine ⟨hp.two_le, fun d _ => ?_⟩
    by_cases hd : d < 2 ∨ p ≤ d
    · exact Or.inl hd
    · refine Or.inr fun hmod => ?_
      rcases (Nat.dvd_prime hp).mp (Nat.dvd_of_mod_eq_zero hmod) with h | h <;> omega

/-- A constant in a list of them. -/
theorem toNat_K {w t x : Nat} (h : primes[t]?.map (rootBits 3 · w) = some x) : (K w t).toNat = x := by
  obtain ⟨p, hp, rfl⟩ := Option.map_eq_some_iff.mp h
  have hprime : prime t = p := by rw [prime, List.getD_eq_getElem?_getD, hp, Option.getD_some]
  rw [K, hprime, BitVec.toNat_ofNat, rootBits, Nat.mod_mod]

/-- An element of an array that holds constants. -/
theorem getElem?_toList {α : Type} {n t : Nat} [NeZero n] (v : Vector α n) (ht : t < n) :
    v.toList[t]? = some (wordAt v t) := by
  have hget : wordAt v t = v.get ⟨t, ht⟩ := congrArg v.get (Fin.ext (Nat.mod_eq_of_lt ht))
  rw [hget, List.getElem?_eq_getElem (by rwa [Vector.length_toList]), Vector.getElem_toList]
  rfl

/-! ## Bits -/

section Bits

variable {w : Nat} (x y z : BitVec w)

theorem selection_eq : z ^^^ (x &&& (y ^^^ z)) = ch x y z := by
  ext i hi
  simp only [ch, BitVec.getElem_xor, BitVec.getElem_and, BitVec.getElem_not]
  cases x[i] <;> cases y[i] <;> cases z[i] <;> rfl

theorem majority_eq : (x &&& y) ||| (z &&& (x ^^^ y)) = maj x y z := by
  ext i hi
  simp only [maj, BitVec.getElem_xor, BitVec.getElem_and, BitVec.getElem_or]
  cases x[i] <;> cases y[i] <;> cases z[i] <;> rfl

end Bits

/-! ## SHA-256 and SHA-224 -/

section Words32

/-- The registers of the code. -/
def ofWords (s : Sha256.Words) : Registers 32 :=
  ⟨s.a.toBitVec, s.b.toBitVec, s.c.toBitVec, s.d.toBitVec, s.e.toBitVec, s.f.toBitVec, s.g.toBitVec, s.h.toBitVec⟩

theorem k_roots : Sha256.k.toList.map UInt32.toNat = (primes.take 64).map (rootBits 3 · 32) := by decide +kernel

theorem k_eq {t : Nat} (ht : t < 64) : (wordAt Sha256.k t).toBitVec = K 32 t := by
  have hget := congrArg (fun l => l[t]?) k_roots
  simp only [List.getElem?_map, List.getElem?_take_of_lt ht, getElem?_toList _ ht, Option.map_some] at hget
  apply BitVec.eq_of_toNat_eq
  rw [UInt32.toNat_toBitVec, toNat_K hget.symm]

theorem S0_eq (x : UInt32) : (Sha256.S0 x).toBitVec = big sha256.bigSigma0 x.toBitVec := by
  rw [Sha256.S0, UInt32.toBitVec_xor, UInt32.toBitVec_xor, rotateRight_toBitVec _ (by decide) (by decide),
    rotateRight_toBitVec _ (by decide) (by decide), rotateRight_toBitVec _ (by decide) (by decide)]
  rfl

theorem S1_eq (x : UInt32) : (Sha256.S1 x).toBitVec = big sha256.bigSigma1 x.toBitVec := by
  rw [Sha256.S1, UInt32.toBitVec_xor, UInt32.toBitVec_xor, rotateRight_toBitVec _ (by decide) (by decide),
    rotateRight_toBitVec _ (by decide) (by decide), rotateRight_toBitVec _ (by decide) (by decide)]
  rfl

theorem s0_eq (x : UInt32) : (Sha256.s0 x).toBitVec = small sha256.smallSigma0 x.toBitVec := by
  rw [Sha256.s0, UInt32.toBitVec_xor, UInt32.toBitVec_xor, rotateRight_toBitVec _ (by decide) (by decide),
    rotateRight_toBitVec _ (by decide) (by decide)]
  rfl

theorem s1_eq (x : UInt32) : (Sha256.s1 x).toBitVec = small sha256.smallSigma1 x.toBitVec := by
  rw [Sha256.s1, UInt32.toBitVec_xor, UInt32.toBitVec_xor, rotateRight_toBitVec _ (by decide) (by decide),
    rotateRight_toBitVec _ (by decide) (by decide)]
  rfl

theorem ternarySelection_eq (x y z : UInt32) :
    (Sha256.ternarySelection x y z).toBitVec = ch x.toBitVec y.toBitVec z.toBitVec :=
  selection_eq _ _ _

theorem ternaryMajority_eq (x y z : UInt32) :
    (Sha256.ternaryMajority x y z).toBitVec = maj x.toBitVec y.toBitVec z.toBitVec :=
  majority_eq _ _ _

/-- A round of the code is one of the standard. -/
theorem step_eq {t : Nat} (ht : t < 64) (x : UInt32) (s : Sha256.Words) :
    ofWords (Sha256.step (wordAt Sha256.k t) x s) = sha256.step x.toBitVec t (ofWords s) := by
  have hsum : (s.h + (Sha256.S1 s.e + Sha256.ternarySelection s.e s.f s.g + wordAt Sha256.k t + x)).toBitVec =
      s.h.toBitVec + big sha256.bigSigma1 s.e.toBitVec + ch s.e.toBitVec s.f.toBitVec s.g.toBitVec + K 32 t +
        x.toBitVec := by
    rw [UInt32.toBitVec_add, UInt32.toBitVec_add, UInt32.toBitVec_add, UInt32.toBitVec_add, S1_eq,
      ternarySelection_eq, k_eq ht]
    simp only [BitVec.add_assoc]
  have hround : (Sha256.S0 s.a + Sha256.ternaryMajority s.a s.b s.c).toBitVec =
      big sha256.bigSigma0 s.a.toBitVec + maj s.a.toBitVec s.b.toBitVec s.c.toBitVec := by
    rw [UInt32.toBitVec_add, S0_eq, ternaryMajority_eq]
  refine Registers.ext ?_ rfl rfl rfl ?_ rfl rfl rfl
  · exact UInt32.toBitVec_add.trans (congrArg₂ (· + ·) hsum hround)
  · exact UInt32.toBitVec_add.trans (congrArg (s.d.toBitVec + ·) hsum)

theorem schedule_eq (block : Sha256.Block) (t : Nat) :
    (Sha256.schedule block t).toBitVec = sha256.schedule (fun j => (wordAt block j).toBitVec) t := by
  induction t using Nat.strong_induction_on with
  | _ t ih =>
    rw [Sha256.schedule, Member.schedule]
    split
    · rfl
    · rw [UInt32.toBitVec_add, UInt32.toBitVec_add, UInt32.toBitVec_add, s0_eq, s1_eq, ih (t - 2) (by omega),
        ih (t - 7) (by omega), ih (t - 15) (by omega), ih (t - 16) (by omega)]

theorem rounds_eq (block : Sha256.Block) (s : Sha256.Words) :
    ofWords (Sha256.rounds (Sha256.schedule block) s) = (List.range 64).foldl
      (fun r t => sha256.step (sha256.schedule (fun j => (wordAt block j).toBitVec) t) t r) (ofWords s) := by
  unfold Sha256.rounds Sha256.phase
  apply List.foldl_rel (r := fun s r => ofWords s = r) rfl
  rintro t ht s _ rfl
  rw [Nat.zero_add, step_eq (List.mem_range.mp ht), schedule_eq]

/-- A word that the code reads from a block. -/
theorem word_eq (block : List UInt8) {j : Nat} (hj : j < 16) :
    (wordAt (copyIn word32 .big 16 block) j).toBitVec = Member.wordOf 32 block j := by
  rw [copyIn, wordAt_ofFn, show (Fin.ofNat 16 j).val = j from Nat.mod_eq_of_lt hj]
  rfl

/-- `Transform` is the hash computation for a block. -/
theorem transform_eq (s : Sha256.Words) (block : List UInt8) :
    ofWords (Sha256.transform s block) = sha256.compress (ofWords s) (Member.wordOf 32 block) := by
  have hrounds := rounds_eq (copyIn word32 .big 16 block) s
  rw [← Sha256.forwardTransform_eq] at hrounds
  have hadd : ∀ s b : Sha256.Words, ofWords (s.add b) = (ofWords s).add (ofWords b) := fun _ _ => rfl
  have hschedule := sha256.schedule_congr fun j (hj : j < 16) => word_eq block hj
  rw [Sha256.transform, hadd, hrounds, Member.compress]
  simp only [hschedule]
  rfl

/-! ### The classes -/

/-- The words of `m_hash`. -/
def words (s : Sha256.Words) : Vector UInt32 8 := #v[s.a, s.b, s.c, s.d, s.e, s.f, s.g, s.h]

theorem size_pos : 0 < word32.size := by decide

theorem words32_fits : 2 * Params.words32.wordBytes ≤ Params.words32.blkSize := by decide

/-- The padding of the classes with words of 32 bits. -/
abbrev padding32 : Padding .words32 := .template .words32 true words32_fits

/-- The classes `SHA256` and `SHA224`, with what `Reset` puts into `m_hash`. -/
def algorithm (initial : Sha256.Words) : Algorithm .words32 UInt32 Sha256.Words 8 where
  word := word32
  endian := .big
  transform := Sha256.transform
  words := words
  initial := initial
  padding := padding32
  size_pos := size_pos
  lengthFits := lengthFits_template _ _ _

/-- `SHA256::Reset`. -/
def reset256 : Sha256.Words :=
  ⟨0x6a09e667, 0xbb67ae85, 0x3c6ef372, 0xa54ff53a, 0x510e527f, 0x9b05688c, 0x1f83d9ab, 0x5be0cd19⟩

/-- `SHA224::Reset`. -/
def reset224 : Sha256.Words :=
  ⟨0xc1059ed8, 0x367cd507, 0x3070dd17, 0xf70e5939, 0xffc00b31, 0x68581511, 0x64f98fa7, 0xbefa4fa4⟩

/-- The numbers that a hash starts from. -/
theorem ofWords_resets : ofWords reset256 = iv256 ∧ ofWords reset224 = iv224 := by
  refine ⟨Registers.ext ?_ ?_ ?_ ?_ ?_ ?_ ?_ ?_, Registers.ext ?_ ?_ ?_ ?_ ?_ ?_ ?_ ?_⟩ <;> decide +kernel

open HashClass in
/-- The digests of the classes are those of the standard, for every message in fewer than `2 ^ 32` bytes a call. -/
theorem sha256_digest_eq (N : Endian) {len : Nat} (digest : Buf UInt8 len) (hlen : len ≤ 32)
    {calls : List HashClass.Call} (hcalls : Admissible 64 0 calls) (hshort : ∀ c ∈ calls, c.data.length < 2 ^ 32) :
    ((algorithm reset256).hashClass N digest).digest calls =
        some (sha256.digest padding32 iv256 len (calls.flatMap HashClass.Call.data)) ∧
      ((algorithm reset224).hashClass N digest).digest calls =
        some (sha256.digest padding32 iv224 len (calls.flatMap HashClass.Call.data)) := by
  have hdigest : ∀ initial, ((algorithm initial).hashClass N digest).digest calls =
      some (sha256.digest padding32 (ofWords initial) len (calls.flatMap HashClass.Call.data)) := by
    intro initial
    exact (algorithm initial).digest_map ofWords (fun H block => sha256.compress H (Member.wordOf 32 block))
      Registers.bytes (fun s block _ => transform_eq s block) (fun _ => rfl) N digest hlen hcalls hshort
  rw [← ofWords_resets.1, ← ofWords_resets.2]
  exact ⟨hdigest reset256, hdigest reset224⟩

/-- The digest of the message abc, in a plain call. -/
theorem sha256_digest_abc :
    ((algorithm reset256).hashClass .little (Vector.replicate 32 0)).digest [⟨false, [0x61, 0x62, 0x63]⟩] =
        some (sha256.digest padding32 iv256 32 [0x61, 0x62, 0x63]) ∧
      ((algorithm reset224).hashClass .little (Vector.replicate 32 0)).digest [⟨false, [0x61, 0x62, 0x63]⟩] =
        some (sha256.digest padding32 iv224 32 [0x61, 0x62, 0x63]) :=
  sha256_digest_eq .little (Vector.replicate 32 0) (le_refl 32)
    ⟨by decide, fun h => absurd h (by decide), trivial⟩ (by simp)

end Words32

end Drew.Sha2
