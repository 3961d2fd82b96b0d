import Drew.Block.Rounds
import Drew.StreamCipher.Words
import Drew.Block.Twofish.ReedSolomon

/-!
# The tables and the rounds of Twofish

The tables `m_s` hold, for each of the four places of a byte in a word, what the permutations and the
words of the key make of every byte, followed by the table `mds`. `finv` undoes `f`, and `Decrypt` has
the rounds of `Encrypt` in the opposite order.
-/

namespace Drew.Twofish

open Drew.Memory Drew.StreamCipher Drew.Block

/-! ## The cascade -/

variable (T : Tables)

/-- The permutations of a level, for the four places. -/
def levels : List (List Bool) :=
  [[false, false, true, true], [false, true, false, true], [true, true, false, false],
    [true, false, false, true]]

/-- The permutation of a level at a place. -/
def perm (t : Nat) (j : Fin 4) : UInt8 → UInt8 := if (levels.getD t []).getD j false then T.q1 else T.q0

/-- What becomes of a byte at a place, from the highest level down. The words of the key come in
reverse order: the lowest level has the last one. -/
def cascade (len : Nat) (S : Nat → UInt32) (j : Fin 4) (x : UInt8) : UInt8 :=
  (List.range len).foldr (fun t y => perm T t j y ^^^ getByte (S (len - 1 - t)) (UInt32.ofNat j)) x

/-- The word that a part of the key is made into. -/
def sWord (key : List UInt8) (i : Nat) : UInt32 := rsProduct ((key.drop (8 * i)).take 8)

/-! ## The tables -/

section Tables

theorem replicated_eq (b : UInt8) :
    b.toUInt32 ||| b.toUInt32 <<< 8 ||| b.toUInt32 <<< 16 ||| b.toUInt32 <<< 24 = ofBytes b b b b := by
  revert b
  apply Field.forall_byte
  decide +kernel

theorem getByte_replicated (b : UInt8) (j : Fin 4) : getByte (ofBytes b b b b) (UInt32.ofNat j) = b := by
  fin_cases j
  · exact getByte_ofBytes_zero _ _ _ _
  · exact getByte_ofBytes_one _ _ _ _
  · exact getByte_ofBytes_two _ _ _ _
  · exact getByte_ofBytes_three _ _ _ _

/-- A level on the four bytes of a word. -/
def level (t : Nat) (x : UInt32) : UInt32 := Q (perm T t 0) (perm T t 1) (perm T t 2) (perm T t 3) x

theorem getByte_level (t : Nat) (x : UInt32) (j : Fin 4) :
    getByte (level T t x) (UInt32.ofNat j) = perm T t j (getByte x (UInt32.ofNat j)) := by
  fin_cases j
  · exact getByte_ofBytes_zero _ _ _ _
  · exact getByte_ofBytes_one _ _ _ _
  · exact getByte_ofBytes_two _ _ _ _
  · exact getByte_ofBytes_three _ _ _ _

/-- The `switch` of `h0` runs the levels from the highest one down. -/
theorem h0_eq (b : UInt8) (k : Nat → UInt32) {len : Nat} (hlen : len = 2 ∨ len = 3 ∨ len = 4) :
    h0 T b.toUInt32 k len =
      (List.range len).foldr (fun t y => level T t y ^^^ k (2 * t)) (ofBytes b b b b) := by
  rw [← replicated_eq]
  rcases hlen with rfl | rfl | rfl
  · rfl
  · rfl
  · rfl

theorem getByte_foldr (k : Nat → UInt32) (j : Fin 4) (l : List Nat) (x : UInt32) :
    getByte (l.foldr (fun t y => level T t y ^^^ k (2 * t)) x) (UInt32.ofNat j) =
      l.foldr (fun t y => perm T t j y ^^^ getByte (k (2 * t)) (UInt32.ofNat j))
        (getByte x (UInt32.ofNat j)) := by
  induction l with
  | nil => rfl
  | cons t l ih => rw [List.foldr_cons, List.foldr_cons, getByte_xor, getByte_level, ih]

/-- The entries of an array that a loop over it sets. -/
theorem foldl_set_get {α : Type} {n : Nat} (f : Nat → α) (v : Vector α n) (i : Fin n) {m : Nat}
    (hi : i.val < m) :
    ((List.range m).foldl (fun v i => v.setIfInBounds i (f i)) v).get i = f i := by
  induction m with
  | zero => exact absurd hi (Nat.not_lt_zero i)
  | succ m ih =>
    rw [List.range_succ, List.foldl_append, List.foldl_cons, List.foldl_nil]
    show ((List.foldl _ v (List.range m)).setIfInBounds m (f m))[i.val] = f i
    by_cases h : i.val = m
    · rw [← h, Vector.getElem_setIfInBounds_self]
    · rw [Vector.getElem_setIfInBounds_ne _ (Ne.symm h)]
      exact ih (by omega)

variable {T}

theorem keyWord_svec (m : Vector UInt32 8) {len t : Nat} (hlen : len = 2 ∨ len = 3 ∨ len = 4) (ht : t < len) :
    keyWord (svec m len) (2 * t) =
      reedSolomon (keyWord m (2 * (len - 1 - t) + 1)) (keyWord m (2 * (len - 1 - t))) := by
  rcases hlen with rfl | rfl | rfl
  · interval_cases t <;> rfl
  · interval_cases t <;> rfl
  · interval_cases t <;> rfl

/-- The tables that a loop over all bytes fills. -/
theorem table_fillTables (c : Twofish) (sv : Vector UInt32 8) (len : Nat) (s : Vector (Vector UInt32 256) 4)
    (hs : c.s = fillTables T sv len s) (j : Fin 4) (b : UInt8) :
    c.table j b = T.mds j (getByte (h0 T b.toUInt32 (keyWord sv) len) (UInt32.ofNat j)) := by
  have hb : (Fin.ofNat 256 b.toNat).val = b.toNat := Nat.mod_eq_of_lt b.toNat_lt
  have hword : UInt32.ofNat b.toNat = b.toUInt32 := by
    apply UInt32.toNat_inj.mp
    rw [UInt8.toNat_toUInt32]
    exact UInt32.toNat_ofNat_of_lt' (lt_trans b.toNat_lt (by decide))
  have hrow : c.s.get j = (List.range 256).foldl (fun v i => v.setIfInBounds i
      (T.mds j (getByte (h0 T (UInt32.ofNat i) (keyWord sv) len) (UInt32.ofNat j)))) (s.get j) := by
    rw [hs, fillTables]
    exact Vector.getElem_ofFn j.isLt
  rw [table, hrow, foldl_set_get (fun i => T.mds j (getByte (h0 T (UInt32.ofNat i) (keyWord sv) len)
    (UInt32.ofNat j))) (s.get j) _ (Fin.isLt _), hb, hword]

/-! ## The words of the key -/

theorem keyWord_bytes (key : List UInt8) {i : Nat} (hi : 4 * i + 4 ≤ key.length) (h8 : i < 8) :
    [getByte (keyWord (copyIn word32 .little 8 key) i) 0, getByte (keyWord (copyIn word32 .little 8 key) i) 1,
      getByte (keyWord (copyIn word32 .little 8 key) i) 2,
      getByte (keyWord (copyIn word32 .little 8 key) i) 3] = (key.drop (4 * i)).take 4 := by
  have hword : keyWord (copyIn word32 .little 8 key) i =
      convert word32 .little ((key.drop (4 * i)).take 4) := by
    have hval : (Fin.ofNat 8 i).val = i := Nat.mod_eq_of_lt h8
    show (copyIn word32 .little 8 key)[(Fin.ofNat 8 i).val] = _
    rw [copyIn, Vector.getElem_ofFn, hval]
    rfl
  rw [hword, ← convertBytes_little]
  apply convertBytes_convert
  rw [List.length_take, List.length_drop]
  show min 4 (key.length - 4 * i) = 4
  omega

/-- `ReedSolomon` on a part of the key. -/
theorem reedSolomon_key (key : List UInt8) {i : Nat} (hi : 8 * i + 8 ≤ key.length) (h4 : i < 4) :
    reedSolomon (keyWord (copyIn word32 .little 8 key) (2 * i + 1))
      (keyWord (copyIn word32 .little 8 key) (2 * i)) = sWord key i := by
  have hlo := keyWord_bytes key (i := 2 * i) (by omega) (by omega)
  have hhi := keyWord_bytes key (i := 2 * i + 1) (by omega) (by omega)
  have hpart : (key.drop (8 * i)).take 8 =
      (key.drop (4 * (2 * i))).take 4 ++ (key.drop (4 * (2 * i + 1))).take 4 := by
    rw [show 4 * (2 * i) = 8 * i by omega, show 4 * (2 * i + 1) = 8 * i + 4 by omega,
      ← List.drop_drop, ← List.take_add]
  rw [reedSolomon_eq, sWord, hpart, ← hlo, ← hhi, rsWord]
  rfl

end Tables

/-! ## What the tables compute -/

/-- A property of the tables that a key has left behind. -/
structure HasTables (T : Tables) (c : Twofish) (key : List UInt8) : Prop where
  table_eq : ∀ j b, c.table j b = T.mds j (cascade T (key.length / 8) (sWord key) j b)

theorem hasTables_setKey {c c' : Twofish} {key : List UInt8} {len : Nat} (hkey : key.length = 8 * len)
    (hlen : len = 2 ∨ len = 3 ∨ len = 4) (hset : setKeyInternal T c key = some c') :
    HasTables T c' key := by
  have hdiv : key.length / 8 = len := by omega
  rw [setKeyInternal, hdiv, if_pos (by omega)] at hset
  constructor
  intro j b
  have hs : c'.s = fillTables T (svec (copyIn word32 .little 8 key) len) len c.s := by
    rw [← Option.some.inj hset]
  rw [table_fillTables c' _ len c.s hs, h0_eq T b _ hlen, getByte_foldr, getByte_replicated, cascade, hdiv]
  congr 1
  apply List.foldr_ext
  intro t ht y
  have ht : t < len := List.mem_range.mp ht
  rw [keyWord_svec _ hlen ht, reedSolomon_key key (by omega) (by omega)]

variable {T}

theorem g0_eq {c : Twofish} {key : List UInt8} (h : HasTables T c key) (x : UInt32) :
    c.g0 x =
      T.mds 0 (cascade T (key.length / 8) (sWord key) 0 (getByte x 0)) ^^^
      T.mds 1 (cascade T (key.length / 8) (sWord key) 1 (getByte x 1)) ^^^
      T.mds 2 (cascade T (key.length / 8) (sWord key) 2 (getByte x 2)) ^^^
      T.mds 3 (cascade T (key.length / 8) (sWord key) 3 (getByte x 3)) := by
  simp only [g0, h.table_eq]

theorem getLsbD_rotate (x : UInt32) {i : Nat} (hi : i < 32) :
    (rotateLeft x 8).toBitVec.getLsbD i = x.toBitVec.getLsbD (if i < 8 then 24 + i else i - 8) := by
  rw [rotateLeft_toBitVec x (by decide) (by decide), show (8 : UInt32).toNat = 8 from rfl,
    BitVec.getLsbD_rotateLeft]
  by_cases h : i < 8
  · simp [h]
  · simp [h, hi]

/-- The bytes of a word move up by one place. -/
theorem getByte_rotate (x : UInt32) :
    getByte (rotateLeft x 8) 0 = getByte x 3 ∧ getByte (rotateLeft x 8) 1 = getByte x 0 ∧
      getByte (rotateLeft x 8) 2 = getByte x 1 ∧ getByte (rotateLeft x 8) 3 = getByte x 2 := by
  refine ⟨byte_ext fun i hi => ?_, byte_ext fun i hi => ?_, byte_ext fun i hi => ?_, byte_ext fun i hi => ?_⟩
  · rw [getLsbD_getByte _ (m := 0) rfl (by decide) hi, getLsbD_getByte _ (m := 3) rfl (by decide) hi,
      getLsbD_rotate x (by omega), if_pos (by omega)]
    exact congrArg _ (by omega)
  · rw [getLsbD_getByte _ (m := 1) rfl (by decide) hi, getLsbD_getByte _ (m := 0) rfl (by decide) hi,
      getLsbD_rotate x (by omega), if_neg (by omega)]
    exact congrArg _ (by omega)
  · rw [getLsbD_getByte _ (m := 2) rfl (by decide) hi, getLsbD_getByte _ (m := 1) rfl (by decide) hi,
      getLsbD_rotate x (by omega), if_neg (by omega)]
    exact congrArg _ (by omega)
  · rw [getLsbD_getByte _ (m := 3) rfl (by decide) hi, getLsbD_getByte _ (m := 2) rfl (by decide) hi,
      getLsbD_rotate x (by omega), if_neg (by omega)]
    exact congrArg _ (by omega)

theorem g1_eq (c : Twofish) (x : UInt32) : c.g1 x = c.g0 (rotateLeft x 8) := by
  obtain ⟨h0, h1, h2, h3⟩ := getByte_rotate x
  rw [g1, g0, h0, h1, h2, h3]

/-! ## The rounds -/

section Rounds

variable (c : Twofish)

theorem finv_f (k : Nat) (w : Words) : c.finv k (c.f k w) = w := by
  have hleft : ∀ x, rotateLeft (rotateRight x 1) 1 = x := fun x =>
    rotateLeft_rotateRight x (by decide) (by decide)
  have hright : ∀ x, rotateRight (rotateLeft x 1) 1 = x := fun x =>
    rotateRight_rotateLeft x (by decide) (by decide)
  -- The sums are the same, put together in two ways.
  have hsum : ∀ x y z : UInt32, y + (x + z) = y + x + z := fun x y z => (UInt32.add_assoc y x z).symm
  simp only [finv, f, hleft, hright, hsum, xor32_cancel_right]

theorem cdab_cdab {g h : Words → Words} (hinv : ∀ w, h (g w) = w) (w : Words) : cdab h (cdab g w) = w := by
  simp only [cdab]
  rw [hinv]

/-- The rounds of a pass, with the first key at `k`, and what undoes them, with the last key at `k`. -/
def twoRounds (w : Words) (k : Nat) : Words := cdab (c.f (k + 2)) (c.f k w)

def undoTwo (w : Words) (k : Nat) : Words := c.finv (k - 2) (cdab (c.finv k) w)

theorem undoTwo_twoRounds (w : Words) (k : Nat) : c.undoTwo (c.twoRounds w k) (k + 2) = w := by
  rw [undoTwo, twoRounds, cdab_cdab (finv_f c (k + 2)), Nat.add_sub_cancel, finv_f]

theorem decryptWords_encryptWords (w : Words) : c.decryptWords (c.encryptWords w) = w := by
  have hpasses : ∀ v, (countDown c.undoTwo 4 8 ((countUp c.twoRounds 4 8 (v, 8)).1, 38)).1 = v :=
    countDown_countUp (undoTwo_twoRounds c) 8 8
  unfold decryptWords encryptWords
  simp only [xor32_cancel_right]
  rw [show ∀ v, ((List.range 8).foldl (fun st _ => c.decryptPass st)
    (((List.range 8).foldl (fun st _ => c.encryptPass st) (v, 8)).1, 38)).1 = v from hpasses]
  simp only [xor32_cancel_right]

end Rounds

/-! ## Blocks -/

theorem length_onBlock (g : Words → Words) (block : List UInt8) : (onBlock g block).length = 16 := by
  rw [onBlock, length_onWords]
  rfl

theorem onBlock_onBlock {g h : Words → Words} (hinv : ∀ w, h (g w) = w) {block : List UInt8}
    (hlen : block.length = 16) : onBlock h (onBlock g block) = block := by
  unfold onBlock
  apply onWords_onWords _ hlen
  intro v
  have hwords : h (g ⟨v.get 0, v.get 1, v.get 2, v.get 3⟩) = ⟨v.get 0, v.get 1, v.get 2, v.get 3⟩ :=
    hinv _
  apply Vector.ext
  intro i hi
  match i, hi with
  | 0, _ => exact congrArg Words.a hwords
  | 1, _ => exact congrArg Words.b hwords
  | 2, _ => exact congrArg Words.c hwords
  | 3, _ => exact congrArg Words.d hwords

/-- After a key, the words that the schedule takes from it are products with the matrix, last part
first, `g0` combines the table `mds` at the cascades of the four bytes, `g1` is `g0` of the rotated word,
and `Decrypt` gives every block back. -/
theorem twofish_spec (T : Tables) (c : Twofish) {key : List UInt8}
    (hkey : key.length = 16 ∨ key.length = 24 ∨ key.length = 32) :
    (∀ i < key.length / 8,
      keyWord (svec (copyIn word32 .little 8 key) (key.length / 8)) (2 * (key.length / 8 - 1 - i)) =
        sWord key i) ∧
    ∃ c', setKeyInternal T c key = some c' ∧
      (∀ x, c'.g0 x =
        T.mds 0 (cascade T (key.length / 8) (sWord key) 0 (getByte x 0)) ^^^
        T.mds 1 (cascade T (key.length / 8) (sWord key) 1 (getByte x 1)) ^^^
        T.mds 2 (cascade T (key.length / 8) (sWord key) 2 (getByte x 2)) ^^^
        T.mds 3 (cascade T (key.length / 8) (sWord key) 3 (getByte x 3))) ∧
      (∀ x, c'.g1 x = c'.g0 (rotateLeft x 8)) ∧
      ∀ b : List UInt8, b.length = 16 → (c'.encrypt b).length = 16 ∧ c'.decrypt (c'.encrypt b) = b := by
  obtain ⟨len, hlen, hlength⟩ : ∃ len, (len = 2 ∨ len = 3 ∨ len = 4) ∧ key.length = 8 * len := by
    rcases hkey with h | h | h
    · exact ⟨2, by omega⟩
    · exact ⟨3, by omega⟩
    · exact ⟨4, by omega⟩
  have hdiv : key.length / 8 = len := by omega
  constructor
  · rw [hdiv]
    intro i hi
    rw [keyWord_svec _ hlen (by omega), show len - 1 - (len - 1 - i) = i by omega]
    exact reedSolomon_key key (by omega) (by omega)
  · obtain ⟨c', hset⟩ : ∃ c', setKeyInternal T c key = some c' :=
      ⟨_, by rw [setKeyInternal, if_pos (by omega)]⟩
    refine ⟨c', hset, g0_eq (hasTables_setKey T hlength hlen hset), g1_eq c', ?_⟩
    intro b hb
    exact ⟨length_onBlock _ _, onBlock_onBlock (decryptWords_encryptWords c') hb⟩

theorem twofish_spec_zero :
    (∀ i < 2, keyWord (svec (copyIn word32 .little 8 (List.replicate 16 0)) 2) (2 * (1 - i)) =
        sWord (List.replicate 16 0) i) ∧
    ∃ c', setKeyInternal ⟨id, fun x => x + 1, fun _ x => x.toUInt32⟩ ⟨.replicate 4 (.replicate 256 0), .replicate 40 0⟩
        (List.replicate 16 0) = some c' ∧
      (∀ x, c'.g0 x =
        (cascade ⟨id, fun x => x + 1, fun _ x => x.toUInt32⟩ 2 (sWord (List.replicate 16 0)) 0 (getByte x 0)).toUInt32 ^^^
        (cascade ⟨id, fun x => x + 1, fun _ x => x.toUInt32⟩ 2 (sWord (List.replicate 16 0)) 1 (getByte x 1)).toUInt32 ^^^
        (cascade ⟨id, fun x => x + 1, fun _ x => x.toUInt32⟩ 2 (sWord (List.replicate 16 0)) 2 (getByte x 2)).toUInt32 ^^^
        (cascade ⟨id, fun x => x + 1, fun _ x => x.toUInt32⟩ 2 (sWord (List.replicate 16 0)) 3 (getByte x 3)).toUInt32) ∧
      (∀ x, c'.g1 x = c'.g0 (rotateLeft x 8)) ∧
      ∀ b : List UInt8, b.length = 16 → (c'.encrypt b).length = 16 ∧ c'.decrypt (c'.encrypt b) = b :=
  twofish_spec ⟨id, fun x => x + 1, fun _ x => x.toUInt32⟩ ⟨.replicate 4 (.replicate 256 0), .replicate 40 0⟩
    (show (List.replicate 16 (0 : UInt8)).length = 16 ∨ _ from Or.inl List.length_replicate)

end Drew.Twofish
