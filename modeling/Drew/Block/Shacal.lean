import Drew.Hash.Sha.Sha1
import Drew.Hash.Sha.Sha256

/-!
# SHACAL

The model of the classes `SHACAL1` and `SHACAL2`, which encrypt with the rounds of SHA-1 and of SHA-256. The
key takes the place of the message block. The cipher keeps all words of the schedule, where the hash makes
them as it goes.
-/

namespace Drew

open Drew.Memory Drew.StreamCipher Drew.Block

namespace Shacal

/-- The array `buf` of `SetKeyInternal`. -/
def padded (key : List UInt8) : List UInt8 := key ++ List.replicate (64 - key.length) 0

section Load

variable {n : Nat} [NeZero n]

/-- `E::Copy` to the first 16 words. -/
def load (m : Vector UInt32 n) (block : Vector UInt32 16) : Vector UInt32 n :=
  (List.range 16).foldl (fun m i => m.setIfInBounds i (wordAt block i)) m

/-- The words that `ForwardTransform` reads. -/
def firstWords (m : Vector UInt32 n) : Vector UInt32 16 := Vector.ofFn fun i => wordAt m i

theorem filled_load {w : Nat → UInt32} {block : Vector UInt32 16} (hw : ∀ i < 16, w i = wordAt block i)
    (hn : 16 ≤ n) (m : Vector UInt32 n) : FilledTo w 16 (load m block) := by
  have hstart : FilledTo w 0 m := fun j hj => absurd hj (Nat.not_lt_zero j)
  have hloop := hstart.loop (fun m i => m.setIfInBounds i (wordAt block i)) 16 fun v i _ hi h => by
    rw [← hw i (by omega)]
    exact h.store (by omega)
  rwa [Nat.zero_add, ← List.range_eq_range'] at hloop

theorem firstWords_of_filled {w : Nat → UInt32} {block : Vector UInt32 16} (hw : ∀ i < 16, w i = wordAt block i)
    {m : Vector UInt32 n} {k : Nat} (hk : 16 ≤ k) (h : FilledTo w k m) : firstWords m = block := by
  ext i hi
  have hmod : Fin.ofNat 16 i = ⟨i, hi⟩ := Fin.ext (Nat.mod_eq_of_lt hi)
  rw [firstWords, Vector.getElem_ofFn, h i (by omega), hw i hi, wordAt, hmod]
  rfl

end Load

end Shacal

open Shacal

/-! ## SHACAL-1 -/

/-- The member `m_words`. -/
structure Shacal1 where
  words : Vector UInt32 80

namespace Shacal1

/-- The loop of `SetKeyInternal`. -/
def expand (m : Vector UInt32 80) (block : Sha1.Block) : Vector UInt32 80 :=
  (List.range' 16 64).foldl (fun m i => m.setIfInBounds i
    (rotateLeft (wordAt m (i - 3) ^^^ wordAt m (i - 8) ^^^ wordAt m (i - 14) ^^^ wordAt m (i - 16)) 1)) (load m block)

/-- `SetKeyInternal`. There is room for 64 bytes in `buf`. -/
def setKeyInternal (c : Shacal1) (key : List UInt8) : Option Shacal1 :=
  if 64 < key.length then none
  else some ⟨expand c.words (copyIn word32 .big 16 (padded key))⟩

/-- A function of the array `buf`, on the bytes of a block. -/
def onBlock (g : Sha1.Words → Sha1.Words) (block : List UInt8) : List UInt8 :=
  onWords (n := 5) word32 .big (fun v =>
    let r := g ⟨v.get 0, v.get 1, v.get 2, v.get 3, v.get 4⟩
    #v[r.a, r.b, r.c, r.d, r.e]) block

variable (c : Shacal1)

/-- `Encrypt`. -/
def encrypt (block : List UInt8) : List UInt8 :=
  onBlock (fun buf => Sha1.forwardTransform 1 buf (firstWords c.words)) block

/-- `Decrypt`. -/
def decrypt (block : List UInt8) : List UInt8 :=
  onBlock (fun buf => Sha1.inverseTransform buf (wordAt c.words)) block

/-- The array holds the words of the schedule. -/
theorem filled_expand (m : Vector UInt32 80) (block : Sha1.Block) :
    FilledTo (Sha1.schedule 1 block) 80 (expand m block) := by
  have hstart := filled_load (fun i hi => @Sha1.schedule_start 1 block i hi) (by decide) m
  apply hstart.loop _ 64
  intro v i hi hn h
  have hnext : rotateLeft (wordAt v (i - 3) ^^^ wordAt v (i - 8) ^^^ wordAt v (i - 14) ^^^ wordAt v (i - 16)) 1 =
      Sha1.schedule 1 block i := by
    rw [Sha1.schedule, if_neg (by omega), h (i - 3) (by omega), h (i - 8) (by omega), h (i - 14) (by omega),
      h (i - 16) (by omega)]
  show FilledTo _ _ (v.setIfInBounds i _)
  rw [hnext]
  exact h.store hn

/-- The rounds with the words of the array are those that the hash makes with its block. -/
theorem rounds_expand (m : Vector UInt32 80) (block : Sha1.Block) (state : Sha1.Words) :
    Sha1.rounds (wordAt (expand m block)) state = Sha1.forwardTransform 1 state block := by
  rw [Sha1.forwardTransform_eq]
  exact Sha1.rounds_congr (filled_expand m block) state

theorem firstWords_expand (m : Vector UInt32 80) (block : Sha1.Block) : firstWords (expand m block) = block :=
  firstWords_of_filled (fun i hi => @Sha1.schedule_start 1 block i hi) (by decide) (filled_expand m block)

theorem length_onBlock (g : Sha1.Words → Sha1.Words) (block : List UInt8) : (onBlock g block).length = 20 := by
  rw [onBlock, length_onWords]
  rfl

theorem onBlock_onBlock {g h : Sha1.Words → Sha1.Words} (hinv : ∀ w, h (g w) = w) {block : List UInt8}
    (hlen : block.length = 20) : onBlock h (onBlock g block) = block := by
  unfold onBlock
  apply onWords_onWords _ hlen
  intro v
  have hwords : h (g ⟨v.get 0, v.get 1, v.get 2, v.get 3, v.get 4⟩) =
      ⟨v.get 0, v.get 1, v.get 2, v.get 3, v.get 4⟩ := hinv _
  apply Vector.ext
  intro i hi
  match i, hi with
  | 0, _ => exact congrArg Sha1.Words.a hwords
  | 1, _ => exact congrArg Sha1.Words.b hwords
  | 2, _ => exact congrArg Sha1.Words.c hwords
  | 3, _ => exact congrArg Sha1.Words.d hwords
  | 4, _ => exact congrArg Sha1.Words.e hwords

end Shacal1
/-! ## SHACAL-2 -/

/-- The member `m_words`. -/
structure Shacal2 where
  words : Vector UInt32 64

namespace Shacal2

/-- The loop of `SetKeyInternal`. -/
def expand (m : Vector UInt32 64) (block : Sha256.Block) : Vector UInt32 64 :=
  (List.range' 16 48).foldl (fun m i => m.setIfInBounds i (Sha256.expanded (wordAt m) i)) (load m block)

/-- `SetKeyInternal`. There is room for 64 bytes in `buf`. -/
def setKeyInternal (c : Shacal2) (key : List UInt8) : Option Shacal2 :=
  if 64 < key.length then none
  else some ⟨expand c.words (copyIn word32 .big 16 (padded key))⟩

/-- A function of the array `buf`, on the bytes of a block. -/
def onBlock (g : Sha256.Words → Sha256.Words) (block : List UInt8) : List UInt8 :=
  onWords (n := 8) word32 .big (fun v =>
    let r := g ⟨v.get 0, v.get 1, v.get 2, v.get 3, v.get 4, v.get 5, v.get 6, v.get 7⟩
    #v[r.a, r.b, r.c, r.d, r.e, r.f, r.g, r.h]) block

variable (c : Shacal2)

/-- `Encrypt`. -/
def encrypt (block : List UInt8) : List UInt8 :=
  onBlock (fun buf => Sha256.forwardTransform buf (firstWords c.words)) block

/-- `Decrypt`. -/
def decrypt (block : List UInt8) : List UInt8 :=
  onBlock (fun buf => Sha256.inverseTransform buf (wordAt c.words)) block

/-- The array holds the words of the schedule. -/
theorem filled_expand (m : Vector UInt32 64) (block : Sha256.Block) :
    FilledTo (Sha256.schedule block) 64 (expand m block) := by
  have hstart := filled_load (fun i hi => Sha256.schedule_start block hi) (by decide) m
  exact hstart.loop (fun m i => m.setIfInBounds i (Sha256.expanded (wordAt m) i)) 48 fun v i hi hn h =>
    Sha256.filled_expanded block hi hn h

/-- The rounds with the words of the array are those that the hash makes with its block. -/
theorem rounds_expand (m : Vector UInt32 64) (block : Sha256.Block) (state : Sha256.Words) :
    Sha256.rounds (wordAt (expand m block)) state = Sha256.forwardTransform state block := by
  rw [Sha256.forwardTransform_eq]
  exact Sha256.rounds_congr (filled_expand m block) state

theorem firstWords_expand (m : Vector UInt32 64) (block : Sha256.Block) : firstWords (expand m block) = block :=
  firstWords_of_filled (fun i hi => Sha256.schedule_start block hi) (by decide) (filled_expand m block)

theorem length_onBlock (g : Sha256.Words → Sha256.Words) (block : List UInt8) : (onBlock g block).length = 32 := by
  rw [onBlock, length_onWords]
  rfl

theorem onBlock_onBlock {g h : Sha256.Words → Sha256.Words} (hinv : ∀ w, h (g w) = w) {block : List UInt8}
    (hlen : block.length = 32) : onBlock h (onBlock g block) = block := by
  unfold onBlock
  apply onWords_onWords _ hlen
  intro v
  have hwords : h (g ⟨v.get 0, v.get 1, v.get 2, v.get 3, v.get 4, v.get 5, v.get 6, v.get 7⟩) =
      ⟨v.get 0, v.get 1, v.get 2, v.get 3, v.get 4, v.get 5, v.get 6, v.get 7⟩ := hinv _
  apply Vector.ext
  intro i hi
  match i, hi with
  | 0, _ => exact congrArg Sha256.Words.a hwords
  | 1, _ => exact congrArg Sha256.Words.b hwords
  | 2, _ => exact congrArg Sha256.Words.c hwords
  | 3, _ => exact congrArg Sha256.Words.d hwords
  | 4, _ => exact congrArg Sha256.Words.e hwords
  | 5, _ => exact congrArg Sha256.Words.f hwords
  | 6, _ => exact congrArg Sha256.Words.g hwords
  | 7, _ => exact congrArg Sha256.Words.h hwords

end Shacal2

/-! ## Both ciphers -/

/-- After any key of at most 64 bytes decryption inverts encryption, and the cipher makes the rounds of the
compression function. -/
theorem shacal_inverts_rounds :
    (∀ (c : Shacal1) (key : List UInt8), key.length ≤ 64 → ∃ c', c.setKeyInternal key = some c' ∧
      ∀ b : List UInt8, b.length = 20 → (c'.encrypt b).length = 20 ∧ c'.decrypt (c'.encrypt b) = b) ∧
    (∀ (c : Shacal2) (key : List UInt8), key.length ≤ 64 → ∃ c', c.setKeyInternal key = some c' ∧
      ∀ b : List UInt8, b.length = 32 → (c'.encrypt b).length = 32 ∧ c'.decrypt (c'.encrypt b) = b) ∧
    (∀ (m : Vector UInt32 80) (block : Sha1.Block) (state : Sha1.Words),
      Sha1.forwardTransform 1 state block = Sha1.rounds (wordAt (Shacal1.expand m block)) state ∧
      Sha1.forwardTransform 1 state (firstWords (Shacal1.expand m block)) =
        Sha1.rounds (wordAt (Shacal1.expand m block)) state) ∧
    (∀ (m : Vector UInt32 64) (block : Sha256.Block) (state : Sha256.Words),
      Sha256.forwardTransform state block = Sha256.rounds (wordAt (Shacal2.expand m block)) state ∧
      Sha256.forwardTransform state (firstWords (Shacal2.expand m block)) =
        Sha256.rounds (wordAt (Shacal2.expand m block)) state) ∧
    (∀ (m : Vector UInt32 80) (block : List UInt8) (state : Sha1.Words),
      Sha1.transform 1 state block =
        state.add (Sha1.rounds (wordAt (Shacal1.expand m (copyIn word32 .big 16 block))) state)) ∧
    ∀ (m : Vector UInt32 64) (block : List UInt8) (state : Sha256.Words),
      Sha256.transform state block =
        state.add (Sha256.rounds (wordAt (Shacal2.expand m (copyIn word32 .big 16 block))) state) := by
  refine ⟨?_, ?_, ?_, ?_, ?_, ?_⟩
  · intro c key hkey
    refine ⟨_, by rw [Shacal1.setKeyInternal, if_neg (Nat.not_lt.mpr hkey)], fun b hb => ?_⟩
    refine ⟨Shacal1.length_onBlock _ b, Shacal1.onBlock_onBlock (fun w => ?_) hb⟩
    rw [Shacal1.firstWords_expand, ← Shacal1.rounds_expand c.words, Sha1.inverseTransform_rounds]
  · intro c key hkey
    refine ⟨_, by rw [Shacal2.setKeyInternal, if_neg (Nat.not_lt.mpr hkey)], fun b hb => ?_⟩
    refine ⟨Shacal2.length_onBlock _ b, Shacal2.onBlock_onBlock (fun w => ?_) hb⟩
    rw [Shacal2.firstWords_expand, ← Shacal2.rounds_expand c.words, Sha256.inverseTransform_rounds]
  · intro m block state
    rw [Shacal1.firstWords_expand, Shacal1.rounds_expand]
    exact ⟨rfl, rfl⟩
  · intro m block state
    rw [Shacal2.firstWords_expand, Shacal2.rounds_expand]
    exact ⟨rfl, rfl⟩
  · intro m block state
    rw [Shacal1.rounds_expand, Sha1.transform]
  · intro m block state
    rw [Shacal2.rounds_expand, Sha256.transform]

theorem shacal_inverts_rounds_zero :
    ∃ c', Shacal1.setKeyInternal ⟨.replicate 80 0⟩ (List.replicate 16 0) = some c' ∧
      ∀ b : List UInt8, b.length = 20 → (c'.encrypt b).length = 20 ∧ c'.decrypt (c'.encrypt b) = b := by
  have hlen : (List.replicate 16 (0 : UInt8)).length = 16 := List.length_replicate
  exact shacal_inverts_rounds.1 _ _ (hlen ▸ by decide)

end Drew
