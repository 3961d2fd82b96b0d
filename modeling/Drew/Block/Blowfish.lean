import Drew.Block.Bytes
import Drew.Block.Rounds
import Drew.Block.Feistel
import Drew.Block.Recurrence

/-!
# Blowfish

The model of the class `Blowfish`. The tables `m_sbox` and `m_parray` are parameters: nothing that is proved
about the cipher depends on what they hold. The array for decryption is filled beside the one for encryption.
-/

namespace Drew

open Drew.Memory Drew.StreamCipher Drew.Block

/-- The members `m_p`, `m_pd` and `m_s`. -/
structure Blowfish where
  p : Vector UInt32 18
  pd : Vector UInt32 18
  s : Vector UInt32 1024

namespace Blowfish

/-- `d[0]` and `d[1]`. -/
abbrev Halves := UInt32 × UInt32

section Algorithm

variable (s : Vector UInt32 1024) (p : Vector UInt32 18)

/-- `f`. -/
def f (x : UInt32) : UInt32 :=
  ((wordAt s (getByte x 3).toNat + wordAt s (0x100 + (getByte x 2).toNat)) ^^^
    wordAt s (0x200 + (getByte x 1).toNat)) + wordAt s (0x300 + (getByte x 0).toNat)

/-- The body of the loop of `MainAlgorithm`. -/
def twoRounds (d : Halves) (i : Nat) : Halves :=
  let d0 := d.1 ^^^ wordAt p i
  let d1 := d.2 ^^^ f s d0
  let d1 := d1 ^^^ wordAt p (i + 1)
  let d0 := d0 ^^^ f s d1
  (d0, d1)

/-- `MainAlgorithm`. -/
def mainAlgorithm (d : Halves) : Halves :=
  let d := (List.range 8).foldl (fun d n => twoRounds s p d (2 * n)) d
  (d.1 ^^^ wordAt p 16, d.2 ^^^ wordAt p 17)

end Algorithm

/-! ## The key schedule -/

/-- The tables `m_sbox` and `m_parray`. -/
structure Tables where
  sbox : Vector UInt32 1024
  parray : Vector UInt32 18

/-- Four bytes of the key, which starts over at its end. -/
def keyWord (key : List UInt8) (ival : Nat) : UInt32 :=
  (List.range 4).foldl (fun k j => k <<< 8 ||| (key.getD ((ival + j) % key.length) 0).toUInt32) 0

/-- The first loop. -/
def mixKey (key : List UInt8) (p : Vector UInt32 18) : Vector UInt32 18 :=
  (List.range 18).foldl (fun p i => p.setIfInBounds i (wordAt p i ^^^ keyWord key (4 * i))) p

/-- What the second loop changes. -/
structure Arrays where
  p : Vector UInt32 18
  pd : Vector UInt32 18
  d : Halves

/-- The body of the second loop, for `i = 2 * n`. -/
def fillArrays (s : Vector UInt32 1024) (a : Arrays) (n : Nat) : Arrays :=
  let d := (mainAlgorithm s a.p a.d).swap
  { p := (a.p.setIfInBounds (2 * n) d.1).setIfInBounds (2 * n + 1) d.2
    pd := (a.pd.setIfInBounds (17 - 2 * n) d.1).setIfInBounds (16 - 2 * n) d.2
    d := d }

/-- The body of the third loop, for `i = 2 * n`. -/
def fillBoxes (p : Vector UInt32 18) (st : Vector UInt32 1024 × Halves) (n : Nat) : Vector UInt32 1024 × Halves :=
  let d := (mainAlgorithm st.1 p st.2).swap
  ((st.1.setIfInBounds (2 * n) d.1).setIfInBounds (2 * n + 1) d.2, d)

/-- `SetKeyInternal`. A remainder by the length of the key is not defined for an empty key. -/
def setKeyInternal (t : Tables) (c : Blowfish) (key : List UInt8) : Option Blowfish :=
  if key.length = 0 then none
  else
    let a := (List.range 9).foldl (fillArrays t.sbox) ⟨mixKey key t.parray, c.pd, (0, 0)⟩
    some ⟨a.p, a.pd, ((List.range 512).foldl (fillBoxes a.p) (t.sbox, a.d)).1⟩

/-! ## Encryption and decryption -/

/-- A function of the array `d`, on the bytes of a block. -/
def onBlock (g : Halves → Halves) (block : List UInt8) : List UInt8 :=
  onWords (n := 2) word32 .big (fun v =>
    let r := g (v.get 0, v.get 1)
    #v[r.1, r.2]) block

variable (c : Blowfish)

/-- `Encrypt`, which puts out `d[1]` first. -/
def encryptHalves (d : Halves) : Halves := (mainAlgorithm c.s c.p d).swap

/-- `Decrypt`. -/
def decryptHalves (d : Halves) : Halves := (mainAlgorithm c.s c.pd d).swap

def encrypt (block : List UInt8) : List UInt8 := onBlock c.encryptHalves block

def decrypt (block : List UInt8) : List UInt8 := onBlock c.decryptHalves block

/-! ## The two arrays -/

/-- The first `m` words of one array are the last ones of the other. -/
def Mirrored (m : Nat) (p pd : Vector UInt32 18) : Prop := ∀ j < m, wordAt pd (17 - j) = wordAt p j

theorem mirrored_fillArrays (s : Vector UInt32 1024) {a : Arrays} {n : Nat} (hn : n < 9)
    (h : Mirrored (2 * n) a.p a.pd) :
    Mirrored (2 * (n + 1)) (fillArrays s a n).p (fillArrays s a n).pd := by
  intro j hj
  have hplace : (17 - j = 17 - 2 * n ↔ j = 2 * n) ∧ (17 - j = 16 - 2 * n ↔ j = 2 * n + 1) := by omega
  simp only [fillArrays]
  rw [wordAt_store _ _ (show j < 18 by omega), wordAt_store _ _ (show j < 18 by omega),
    wordAt_store _ _ (show 17 - j < 18 by omega), wordAt_store _ _ (show 17 - j < 18 by omega),
    if_congr hplace.2 rfl (if_congr hplace.1 rfl rfl)]
  split_ifs with hsecond hfirst
  · rfl
  · rfl
  · exact h j (by omega)

theorem mirrored_loop (s : Vector UInt32 1024) (a : Arrays) {n : Nat} (hn : n ≤ 9) :
    Mirrored (2 * n) ((List.range n).foldl (fillArrays s) a).p ((List.range n).foldl (fillArrays s) a).pd := by
  induction n with
  | zero => exact fun j hj => absurd hj (Nat.not_lt_zero j)
  | succ n ih =>
    rw [List.range_succ, List.foldl_append]
    exact mirrored_fillArrays s hn (ih (Nat.le_of_succ_le hn))

/-! ## Decryption inverts encryption -/

section Inverse

variable (s : Vector UInt32 1024) (p : Vector UInt32 18)

/-- The function of a round, with the word of the array that comes after it. -/
def roundFunction (i : Nat) (y : UInt32) : UInt32 := f s y ^^^ wordAt p (i + 1)

/-- The rounds between the first and the last word of the array. -/
theorem rounds_eq (d : Halves) (n : Nat) :
    Feistel.rounds (· ^^^ ·) (roundFunction s p) (2 * n) (d.2, d.1 ^^^ wordAt p 0) =
      (((List.range n).foldl (fun d n => twoRounds s p d (2 * n)) d).2,
        ((List.range n).foldl (fun d n => twoRounds s p d (2 * n)) d).1 ^^^ wordAt p (2 * n)) := by
  induction n with
  | zero => rfl
  | succ n ih =>
    rw [Nat.mul_succ, Feistel.rounds_succ, Feistel.rounds_succ, ih, List.range_succ, List.foldl_append,
      List.foldl_cons, List.foldl_nil]
    simp only [Feistel.round, roundFunction, twoRounds, UInt32.xor_assoc]

theorem mainAlgorithm_eq (d : Halves) :
    (mainAlgorithm s p d).swap =
      let x := Feistel.rounds (· ^^^ ·) (roundFunction s p) 16 (d.2, d.1 ^^^ wordAt p 0)
      (x.1 ^^^ wordAt p 17, x.2) := by
  have hrounds := rounds_eq s p d 8
  simp only [show 2 * 8 = 16 from rfl] at hrounds
  rw [hrounds]
  rfl

/-- With the mirrored array the algorithm undoes itself. -/
theorem mainAlgorithm_mirrored {pd : Vector UInt32 18} (h : Mirrored 18 p pd) (d : Halves) :
    (mainAlgorithm s pd (mainAlgorithm s p d).swap).swap = d := by
  have hfirst : wordAt pd 0 = wordAt p 17 := h 17 (by decide)
  have hlast : wordAt pd 17 = wordAt p 0 := h 0 (by decide)
  have hback := Feistel.rounds_reverse (g := roundFunction s pd) (f := roundFunction s p) xor32_cancel_right 16
    (d.2, d.1 ^^^ wordAt p 0) ?_
  · rw [mainAlgorithm_eq s pd, mainAlgorithm_eq s p]
    simp only [hfirst, hlast, xor32_cancel_right]
    rw [show ((Feistel.rounds (· ^^^ ·) (roundFunction s p) 16 (d.2, d.1 ^^^ wordAt p 0)).2,
      (Feistel.rounds (· ^^^ ·) (roundFunction s p) 16 (d.2, d.1 ^^^ wordAt p 0)).1) =
        (Feistel.rounds (· ^^^ ·) (roundFunction s p) 16 (d.2, d.1 ^^^ wordAt p 0)).swap from rfl, hback]
    exact Prod.ext (xor32_cancel_right _ _) rfl
  · intro i hi
    have hword : wordAt pd (i + 1) = wordAt p (16 - 1 - i + 1) := by
      have hplace := h (16 - 1 - i + 1) (by omega)
      rwa [show 17 - (16 - 1 - i + 1) = i + 1 by omega] at hplace
    funext y
    rw [roundFunction, roundFunction, hword]

end Inverse

end Blowfish

end Drew
