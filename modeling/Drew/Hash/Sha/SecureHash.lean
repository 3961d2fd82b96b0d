import Drew.Hash.Sha.Sha1
import Drew.Hash.Sha.Sha2

/-!
# SHA-1 and SHA-0

The Secure Hash Standard in its first two versions, which differ in a rotation of the schedule, and the classes `SHA1`
and `SHA0`. The code has the constants inside its functions, adds instead of combining bits, exchanges the names of
the registers and keeps sixteen words of the schedule. Its digests are those of the standard (`sha1_digest_eq`).
-/

namespace Drew.SecureHash

open Drew.Memory Drew.StreamCipher Drew.Block Drew.Hash

/-! ## The standard -/

@[ext] structure Registers where
  a : BitVec 32
  b : BitVec 32
  c : BitVec 32
  d : BitVec 32
  e : BitVec 32

namespace Registers

def toList (r : Registers) : List (BitVec 32) := [r.a, r.b, r.c, r.d, r.e]

def bytes (r : Registers) : List UInt8 := r.toList.flatMap fun x => beBytes 4 x.toNat

def add (r s : Registers) : Registers := ⟨r.a + s.a, r.b + s.b, r.c + s.c, r.d + s.d, r.e + s.e⟩

end Registers

/-- The function of a round. -/
def f (t : Nat) (x y z : BitVec 32) : BitVec 32 :=
  if t < 20 then Sha2.ch x y z
  else if t < 40 then x ^^^ y ^^^ z
  else if t < 60 then Sha2.maj x y z
  else x ^^^ y ^^^ z

/-- The constant of a round: the first bits of the square roots of 2, 3, 5 and 10. -/
def K (t : Nat) : BitVec 32 :=
  BitVec.ofNat 32 (root 2 ((if t < 20 then 2 else if t < 40 then 3 else if t < 60 then 5 else 10) * 2 ^ 60) 32)

section Standard

variable (rotate : Nat)

/-- The message schedule. -/
def schedule (block : Nat → BitVec 32) (t : Nat) : BitVec 32 :=
  if t < 16 then block t
  else (schedule block (t - 3) ^^^ schedule block (t - 8) ^^^ schedule block (t - 14) ^^^
    schedule block (t - 16)).rotateLeft rotate

/-- A round, with its word of the schedule. -/
def step (x : BitVec 32) (t : Nat) (r : Registers) : Registers :=
  ⟨r.a.rotateLeft 5 + f t r.b r.c r.d + r.e + K t + x, r.a, r.b.rotateLeft 30, r.c, r.d⟩

/-- The hash computation for a block. -/
def compress (H : Registers) (block : Nat → BitVec 32) : Registers :=
  H.add ((List.range 80).foldl (fun r t => step (schedule rotate block t) t r) H)

def iv : Registers := ⟨0x67452301#32, 0xefcdab89#32, 0x98badcfe#32, 0x10325476#32, 0xc3d2e1f0#32⟩

/-- The first bytes of the hash of a message. -/
def digest (len : Nat) (m : List UInt8) : List UInt8 :=
  (chain Sha2.padding32 (fun H block => compress rotate H (Sha2.Member.wordOf 32 block)) iv m).bytes.take len

variable {rotate}

theorem schedule_start {t : Nat} (ht : t < 16) (block : Nat → BitVec 32) : schedule rotate block t = block t := by
  rw [schedule, if_pos ht]

theorem schedule_next {t : Nat} (ht : 16 ≤ t) (block : Nat → BitVec 32) : schedule rotate block t =
    (schedule rotate block (t - 3) ^^^ schedule rotate block (t - 8) ^^^ schedule rotate block (t - 14) ^^^
      schedule rotate block (t - 16)).rotateLeft rotate := by
  rw [schedule, if_neg (by omega)]

theorem schedule_congr {v v' : Nat → BitVec 32} (h : ∀ j < 16, v j = v' j) (t : Nat) :
    schedule rotate v t = schedule rotate v' t := by
  induction t using Nat.strong_induction_on with
  | _ t ih =>
    by_cases ht : t < 16
    · rw [schedule_start ht v, schedule_start ht v', h t ht]
    · have hnext : 16 ≤ t := Nat.le_of_not_lt ht
      rw [schedule_next hnext v, schedule_next hnext v', ih (t - 3) (by omega), ih (t - 8) (by omega),
        ih (t - 14) (by omega), ih (t - 16) (by omega)]

end Standard

/-! ## Rounds -/

section Rounds

open Sha1

def ofWords (s : Words) : Registers :=
  ⟨s.a.toBitVec, s.b.toBitVec, s.c.toBitVec, s.d.toBitVec, s.e.toBitVec⟩

/-- Where no bit is set in both, the sum is the union. -/
theorem majority_add (x y z : BitVec 32) : (x &&& y) + (z &&& (x ^^^ y)) = Sha2.maj x y z := by
  have hdisjoint : (x &&& y) &&& (z &&& (x ^^^ y)) = 0#32 := by
    ext i hi
    simp only [BitVec.getElem_xor, BitVec.getElem_and, BitVec.getElem_zero]
    cases x[i] <;> cases y[i] <;> cases z[i] <;> rfl
  rw [BitVec.add_eq_or_of_and_eq_zero _ _ hdisjoint, Sha2.majority_eq]

/-- The constants are digits of square roots. -/
theorem roots_eq : (0x5a827999 : UInt32).toBitVec = BitVec.ofNat 32 (root 2 (2 * 2 ^ 60) 32) ∧
    (0x6ed9eba1 : UInt32).toBitVec = BitVec.ofNat 32 (root 2 (3 * 2 ^ 60) 32) ∧
    (0x8f1bbcdc : UInt32).toBitVec = BitVec.ofNat 32 (root 2 (5 * 2 ^ 60) 32) ∧
    (0xca62c1d6 : UInt32).toBitVec = BitVec.ofNat 32 (root 2 (10 * 2 ^ 60) 32) := by
  decide +kernel

theorem ff_eq {t : Nat} (ht : t < 20) (x y z : UInt32) :
    (ff x y z).toBitVec = f t x.toBitVec y.toBitVec z.toBitVec + K t := by
  obtain ⟨hK, -⟩ := roots_eq
  rw [ff, UInt32.toBitVec_add, hK, f, if_pos ht, K, if_pos ht, ← Sha2.selection_eq]
  rfl

theorem gg_eq {t : Nat} (hlo : 20 ≤ t) (hhi : t < 40) (x y z : UInt32) :
    (gg x y z).toBitVec = f t x.toBitVec y.toBitVec z.toBitVec + K t := by
  obtain ⟨-, hK, -⟩ := roots_eq
  rw [gg, UInt32.toBitVec_add, hK, f, if_neg (by omega), if_pos hhi, K, if_neg (by omega), if_pos hhi]
  rfl

theorem hh_eq {t : Nat} (hlo : 40 ≤ t) (hhi : t < 60) (x y z : UInt32) :
    (hh x y z).toBitVec = f t x.toBitVec y.toBitVec z.toBitVec + K t := by
  obtain ⟨-, -, hK, -⟩ := roots_eq
  rw [hh, UInt32.toBitVec_add, hK, f, if_neg (by omega), if_neg (by omega), if_pos hhi, K, if_neg (by omega),
    if_neg (by omega), if_pos hhi, ← majority_add]
  rfl

theorem ii_eq {t : Nat} (hlo : 60 ≤ t) (x y z : UInt32) :
    (ii x y z).toBitVec = f t x.toBitVec y.toBitVec z.toBitVec + K t := by
  obtain ⟨-, -, -, hK⟩ := roots_eq
  rw [ii, UInt32.toBitVec_add, hK, f, if_neg (by omega), if_neg (by omega), if_neg (by omega), K, if_neg (by omega),
    if_neg (by omega), if_neg (by omega)]
  rfl

variable {g : UInt32 → UInt32 → UInt32 → UInt32} {t : Nat}

/-- A round of the code is one of the standard. -/
theorem step_eq (hg : ∀ x y z, (g x y z).toBitVec = f t x.toBitVec y.toBitVec z.toBitVec + K t) (x : UInt32)
    (s : Words) : ofWords (Sha1.step g x s) = step x.toBitVec t (ofWords s) := by
  have hleft (y : UInt32) : (rotateLeft y 5).toBitVec = y.toBitVec.rotateLeft 5 :=
    rotateLeft_toBitVec y (by decide) (by decide)
  have hmiddle : (rotateLeft s.b 30).toBitVec = s.b.toBitVec.rotateLeft 30 :=
    rotateLeft_toBitVec s.b (by decide) (by decide)
  have hsum : (s.e + (rotateLeft s.a 5 + g s.b s.c s.d + x)).toBitVec =
      s.a.toBitVec.rotateLeft 5 + f t s.b.toBitVec s.c.toBitVec s.d.toBitVec + s.e.toBitVec + K t + x.toBitVec := by
    rw [UInt32.toBitVec_add, UInt32.toBitVec_add, UInt32.toBitVec_add, hleft, hg]
    ac_rfl
  exact Registers.ext hsum rfl hmiddle rfl rfl

/-- Rounds with the same function. -/
theorem phase_eq {a m : Nat} (w : Nat → UInt32)
    (hg : ∀ t, a ≤ t → t < a + m → ∀ x y z, (g x y z).toBitVec = f t x.toBitVec y.toBitVec z.toBitVec + K t)
    (s : Words) : ofWords (phase g w a m s) =
      (List.range' a m).foldl (fun r t => step (w t).toBitVec t r) (ofWords s) := by
  rw [List.range'_eq_map_range, List.foldl_map, phase]
  apply List.foldl_rel (r := fun s r => ofWords s = r) rfl
  rintro j hj s _ rfl
  exact step_eq (hg (a + j) (Nat.le_add_right a j) (by have := List.mem_range.mp hj; omega)) (w (a + j)) s

theorem rounds_eq (w : Nat → UInt32) (s : Words) :
    ofWords (rounds w s) = (List.range 80).foldl (fun r t => step (w t).toBitVec t r) (ofWords s) := by
  have hsplit : List.range 80 = List.range' 0 20 ++ List.range' 20 20 ++ List.range' 40 20 ++ List.range' 60 20 := rfl
  rw [rounds, phase_eq w fun t hlo _ => ii_eq hlo, phase_eq w fun t hlo hhi => hh_eq hlo hhi,
    phase_eq w fun t hlo hhi => gg_eq hlo hhi, phase_eq w fun t _ hhi => ff_eq (by omega), hsplit, List.foldl_append,
    List.foldl_append, List.foldl_append]

theorem schedule_eq {rotate : UInt32} (hr : rotate = 0 ∨ rotate = 1) (block : Block) (t : Nat) :
    (Sha1.schedule rotate block t).toBitVec = schedule rotate.toNat (fun j => (wordAt block j).toBitVec) t := by
  have hrotate (y : UInt32) : (rotateLeft y rotate).toBitVec = y.toBitVec.rotateLeft rotate.toNat := by
    rcases hr with rfl | rfl
    · rw [rotateLeft_zero, UInt32.toNat_zero]
      simp [BitVec.rotateLeft_def, BitVec.ushiftRight_eq_zero]
    · exact rotateLeft_toBitVec y (by decide) (by decide)
  induction t using Nat.strong_induction_on with
  | _ t ih =>
    rw [Sha1.schedule, schedule]
    split
    · rfl
    · rw [hrotate, UInt32.toBitVec_xor, UInt32.toBitVec_xor, UInt32.toBitVec_xor, ih (t - 3) (by omega),
        ih (t - 8) (by omega), ih (t - 14) (by omega), ih (t - 16) (by omega)]

/-- `Transform` is the hash computation for a block. -/
theorem transform_eq {rotate : UInt32} (hr : rotate = 0 ∨ rotate = 1) (s : Words) (block : List UInt8) :
    ofWords (transform rotate s block) = compress rotate.toNat (ofWords s) (Sha2.Member.wordOf 32 block) := by
  have hadd : ∀ s b : Words, ofWords (s.add b) = (ofWords s).add (ofWords b) := fun _ _ => rfl
  have hschedule := fun t =>
    (schedule_eq hr (copyIn word32 .big 16 block) t).trans (schedule_congr (fun j hj => Sha2.word_eq block hj) t)
  rw [transform, hadd, forwardTransform_eq, rounds_eq, compress]
  simp only [hschedule]

end Rounds

/-! ## The classes -/

section Classes

open Sha1

/-- The words of `m_hash`. -/
def words (s : Words) : Vector UInt32 5 := #v[s.a, s.b, s.c, s.d, s.e]

/-- `Reset`. -/
def reset : Words := ⟨0x67452301, 0xefcdab89, 0x98badcfe, 0x10325476, 0xc3d2e1f0⟩

/-- The classes of the template `SHA`. -/
def algorithm (rotate : UInt32) : Algorithm .words32 UInt32 Words 5 where
  word := word32
  endian := .big
  transform := transform rotate
  words := words
  initial := reset
  padding := Sha2.padding32
  size_pos := Sha2.size_pos
  lengthFits := lengthFits_template _ _ _

open HashClass

/-- The digests of SHA-1 and SHA-0 are those of the standard, for every message in fewer than `2 ^ 32` bytes a call. -/
theorem sha1_digest_eq (N : Endian) {len : Nat} (digest : Buf UInt8 len) (hlen : len ≤ 20)
    {calls : List HashClass.Call} (hcalls : Admissible 64 0 calls) (hshort : ∀ c ∈ calls, c.data.length < 2 ^ 32) :
    ((algorithm 1).hashClass N digest).digest calls =
        some (SecureHash.digest 1 len (calls.flatMap HashClass.Call.data)) ∧
      ((algorithm 0).hashClass N digest).digest calls =
        some (SecureHash.digest 0 len (calls.flatMap HashClass.Call.data)) := by
  have hdigest : ∀ rotate : UInt32, rotate = 0 ∨ rotate = 1 →
      ((algorithm rotate).hashClass N digest).digest calls =
        some (SecureHash.digest rotate.toNat len (calls.flatMap HashClass.Call.data)) := by
    intro rotate hr
    exact (algorithm rotate).digest_map ofWords
      (fun H block => compress rotate.toNat H (Sha2.Member.wordOf 32 block)) Registers.bytes
      (fun s block _ => transform_eq hr s block) (fun _ => rfl) N digest hlen hcalls hshort
  exact ⟨hdigest 1 (Or.inr rfl), hdigest 0 (Or.inl rfl)⟩

/-- The digest of the message abc, in a plain call. -/
theorem sha1_digest_abc :
    ((algorithm 1).hashClass .little (Vector.replicate 20 0)).digest [⟨false, [0x61, 0x62, 0x63]⟩] =
        some (SecureHash.digest 1 20 [0x61, 0x62, 0x63]) ∧
      ((algorithm 0).hashClass .little (Vector.replicate 20 0)).digest [⟨false, [0x61, 0x62, 0x63]⟩] =
        some (SecureHash.digest 0 20 [0x61, 0x62, 0x63]) := by
  have hcalls : Admissible 64 0 [⟨false, [0x61, 0x62, 0x63]⟩] :=
    ⟨by decide, fun h => absurd h (by decide), trivial⟩
  exact sha1_digest_eq .little (Vector.replicate 20 0) (le_refl 20) hcalls (by simp)

end Classes

end Drew.SecureHash
