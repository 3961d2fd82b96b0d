import Drew.StreamCipher.Nonce
import Drew.StreamCipher.Words

/-!
# Salsa20

The model of the classes `Salsa20Keystream` and `Salsa20`.
-/

namespace Drew.StreamCipher

open Drew.Memory

/-- The members of `Salsa20Keystream`. -/
structure Salsa20 where
  state : Buf UInt32 16
  ctr : UInt64
  keysz : Nat
  nrounds : Nat

namespace Salsa20

/-- `x[d] ^= RotateLeft(x[a] + x[b], r)`. -/
def xorStep (x : Buf UInt32 16) (d a b : Fin 16) (r : UInt32) : Buf UInt32 16 :=
  x.set d (x.get d ^^^ rotateLeft (x.get a + x.get b) r) (lt_16 d)

/-- The places and rotations of the steps of two rounds. -/
def steps : List (Fin 16 × Fin 16 × Fin 16 × UInt32) := [
  (4, 0, 12, 7), (8, 4, 0, 9), (12, 8, 4, 13), (0, 12, 8, 18),
  (9, 5, 1, 7), (13, 9, 5, 9), (1, 13, 9, 13), (5, 1, 13, 18),
  (14, 10, 6, 7), (2, 14, 10, 9), (6, 2, 14, 13), (10, 6, 2, 18),
  (3, 15, 11, 7), (7, 3, 15, 9), (11, 7, 3, 13), (15, 11, 7, 18),
  (1, 0, 3, 7), (2, 1, 0, 9), (3, 2, 1, 13), (0, 3, 2, 18),
  (6, 5, 4, 7), (7, 6, 5, 9), (4, 7, 6, 13), (5, 4, 7, 18),
  (11, 10, 9, 7), (8, 11, 10, 9), (9, 8, 11, 13), (10, 9, 8, 18),
  (12, 15, 14, 7), (13, 12, 15, 9), (14, 13, 12, 13), (15, 14, 13, 18)]

def doubleRound (x : Buf UInt32 16) : Buf UInt32 16 :=
  steps.foldl (fun x s => xorStep x s.1 s.2.1 s.2.2.1 s.2.2.2) x

def doHash (nrounds : Nat) (state : Buf UInt32 16) : Buf UInt32 16 :=
  Vector.zipWith (· + ·) (doubleRound^[nrounds] state) state

/-- Sixteen bytes of the key are copied in any case, and sixteen more after them if the key is not
that short. -/
def setKey (ks : Salsa20) (key : List UInt8) : Option Salsa20 :=
  if key.length < 16 then none else do
    let state ← copyWords ks.state 1 (key.take 16)
    let state ←
      if key.length = 16 then copyWords state 11 key
      else if key.length < 32 then none
      else copyWords state 11 ((key.drop 16).take 16)
    return { ks with state := state, keysz := key.length }

def setNonce (ks : Salsa20) (iv : List UInt8) : Option Salsa20 := do
  let state ← copyWords ks.state 6 iv
  let state := state.set 0 0x61707865
  let state := state.set 5 (if ks.keysz = 16 then 0x3120646e else 0x3320646e)
  let state := state.set 10 (if ks.keysz = 16 then 0x79622d36 else 0x79622d32)
  return { ks with state := state.set 15 0x6b206574 }

def reset (ks : Salsa20) : Salsa20 := { ks with ctr := 0 }

/-- The state with the counter in it. -/
def counted (ks : Salsa20) : Buf UInt32 16 :=
  (ks.state.set 8 ks.ctr.toUInt32).set 9 (ks.ctr >>> 32).toUInt32

def fillBuffer (ks : Salsa20) : Buf UInt8 64 × Salsa20 :=
  (storeWords (doHash ks.nrounds (counted ks)), { ks with state := counted ks, ctr := ks.ctr + 1 })

def fillBufferAligned (ks : Salsa20) : Buf UInt8 64 × Salsa20 :=
  (storeWords (doHash ks.nrounds (counted ks)), { ks with state := counted ks, ctr := ks.ctr + 1 })

end Salsa20

/-- The class `Salsa20` with a number of double rounds. -/
def salsa20 (nrounds : Nat) : Cipher where
  M := Salsa20
  bufsz := 64
  bufsz_pos := pos_64
  bufsz_lt := lt_word_64
  fillBuffer := Salsa20.fillBuffer
  fast := some Salsa20.fillBufferAligned
  keySizes := [16, 32]
  ivSizes := some [8]
  init c := { c with m := { c.m with ctr := 0, nrounds := nrounds } }
  setKey c key := do
    let ks ← c.m.reset.setKey key
    return { c with m := ks, nbytes := 0 }
  setNonce c iv := do
    let ks ← c.m.setNonce iv
    return { c with m := ks }
  reset c := some { c with m := c.m.reset, nbytes := 0 }

/-! ## The key and the nonce -/

namespace Salsa20

variable {nrounds : Nat} {ks ks' : Salsa20} {key iv : List UInt8}

/-- The second half of the key, or the key again if it is short. -/
def secondHalf (key : List UInt8) : List UInt8 :=
  if key.length = 16 then key else (key.drop 16).take 16

structure Keyed (nrounds : Nat) (key : List UInt8) (ks : Salsa20) : Prop where
  nrounds : ks.nrounds = nrounds
  keysz : ks.keysz = key.length
  size : key.length ∈ [16, 32]
  first : ks.state.Holds 1 (loadWords (key.take 16))
  second : ks.state.Holds 11 (loadWords (secondHalf key))

/-- The words of the state that are constants. -/
structure Constants (keysz : Nat) (state : Buf UInt32 16) : Prop where
  c₀ : state.Holds 0 [0x61707865]
  c₅ : state.Holds 5 [if keysz = 16 then 0x3120646e else 0x3320646e]
  c₁₀ : state.Holds 10 [if keysz = 16 then 0x79622d36 else 0x79622d32]
  c₁₅ : state.Holds 15 [0x6b206574]

/-- All words but those of the counter are there. -/
structure Ready (nrounds : Nat) (key iv : List UInt8) (ks : Salsa20) : Prop where
  keyed : Keyed nrounds key ks
  size : iv.length = 8
  nonce : ks.state.Holds 6 (loadWords iv)
  constants : Constants key.length ks.state

/-- With the counter the states are the same. -/
structure Same (ks ks' : Salsa20) : Prop where
  counted : counted ks = counted ks'
  ctr : ks.ctr = ks'.ctr
  nrounds : ks.nrounds = ks'.nrounds

theorem length_halves (hkey : key.length ∈ [16, 32]) :
    (key.take 16).length = 16 ∧ (secondHalf key).length = 16 := by
  have hcases : key.length = 16 ∨ key.length = 32 := by
    simpa only [List.mem_cons, List.not_mem_nil, or_false] using hkey
  refine ⟨by rw [List.length_take]; omega, ?_⟩
  unfold secondHalf
  split
  · assumption
  · rw [List.length_take, List.length_drop]
    omega

theorem length_nonce (hiv : iv.length = 8) : (loadWords iv).length = 2 := by
  rw [length_loadWords, hiv]

/-- The words of the two halves. -/
theorem length_keyWords (hkey : key.length ∈ [16, 32]) :
    (loadWords (key.take 16)).length = 4 ∧ (loadWords (secondHalf key)).length = 4 := by
  obtain ⟨hfirst, hsecond⟩ := length_halves hkey
  rw [length_loadWords, length_loadWords, hfirst, hsecond]
  exact ⟨rfl, rfl⟩

/-- Where the counter is. -/
theorem getElem?_counted (ks : Salsa20) (i : Nat) :
    (counted ks)[i]? =
      if i = 9 then some (ks.ctr >>> 32).toUInt32
      else if i = 8 then some ks.ctr.toUInt32 else ks.state[i]? := by
  unfold counted
  by_cases h9 : i = 9
  · rw [if_pos h9, h9, Vector.getElem?_set_self]
  rw [if_neg h9, Vector.getElem?_set_ne _ (Ne.symm h9)]
  by_cases h8 : i = 8
  · rw [if_pos h8, h8, Vector.getElem?_set_self]
  · rw [if_neg h8, Vector.getElem?_set_ne _ (Ne.symm h8)]

/-- The words that are neither constants nor of the counter. -/
theorem agree_of_ready (h : Ready nrounds key iv ks) (h' : Ready nrounds key iv ks') {i : Nat}
    (hi : i < 16) (h8 : i ≠ 8) (h9 : i ≠ 9) : ks.state[i]? = ks'.state[i]? := by
  obtain ⟨hfirst, hsecond⟩ := length_keyWords h.keyed.size
  have hnonce := length_nonce h.size
  have hcases : i = 0 ∨ 1 ≤ i ∧ i < 5 ∨ i = 5 ∨ 6 ≤ i ∧ i < 8 ∨ i = 10 ∨ 11 ≤ i ∧ i < 15 ∨ i = 15 := by
    omega
  rcases hcases with rfl | hkey | rfl | hiv | rfl | hkey | rfl
  · exact h.constants.c₀.agree h'.constants.c₀ le_rfl Nat.one_pos
  · exact h.keyed.first.agree h'.keyed.first hkey.1 (by omega)
  · exact h.constants.c₅.agree h'.constants.c₅ le_rfl (Nat.lt_succ_self 5)
  · exact h.nonce.agree h'.nonce hiv.1 (by omega)
  · exact h.constants.c₁₀.agree h'.constants.c₁₀ le_rfl (Nat.lt_succ_self 10)
  · exact h.keyed.second.agree h'.keyed.second hkey.1 (by omega)
  · exact h.constants.c₁₅.agree h'.constants.c₁₅ le_rfl (Nat.lt_succ_self 15)

theorem same_of_ready (h : Ready nrounds key iv ks) (h' : Ready nrounds key iv ks')
    (hctr : ks.ctr = ks'.ctr) : Same ks ks' := by
  refine ⟨?_, hctr, h.keyed.nrounds.trans h'.keyed.nrounds.symm⟩
  apply Vector.ext
  intro i hi
  rw [← Option.some_inj, ← Vector.getElem?_eq_getElem, ← Vector.getElem?_eq_getElem,
    getElem?_counted, getElem?_counted, ← hctr]
  split
  · rfl
  split
  · rfl
  · exact agree_of_ready h h' hi ‹_› ‹_›

theorem fillBuffer_congr (h : Same ks ks') :
    (fillBuffer ks).1 = (fillBuffer ks').1 ∧ Same (fillBuffer ks).2 (fillBuffer ks').2 := by
  have hctr : ks.ctr + 1 = ks'.ctr + 1 := by rw [h.ctr]
  unfold fillBuffer
  refine ⟨by rw [h.counted, h.nrounds], ?_, hctr, h.nrounds⟩
  rw [h.counted, hctr]
  rfl

/-- What is not at the places of the counter stays. -/
theorem holds_counted {off : Nat} {xs : List UInt32} (h : ks.state.Holds off xs)
    (hoff : off + xs.length ≤ 8 ∨ 10 ≤ off) : (counted ks).Holds off xs := by
  refine ⟨h.1, fun i hi => ?_⟩
  rw [getElem?_counted, ← h.2 i hi, if_neg (by omega), if_neg (by omega)]

theorem ready_fillBuffer (h : Ready nrounds key iv ks) : Ready nrounds key iv (fillBuffer ks).2 := by
  obtain ⟨hfirst, hsecond⟩ := length_keyWords h.keyed.size
  have hnonce := length_nonce h.size
  have hkeyed : Keyed nrounds key (fillBuffer ks).2 :=
    ⟨h.keyed.nrounds, h.keyed.keysz, h.keyed.size, holds_counted h.keyed.first (by omega),
      holds_counted h.keyed.second (by omega)⟩
  have hconstants : Constants key.length (fillBuffer ks).2.state :=
    ⟨holds_counted h.constants.c₀ (Or.inl (by decide)),
      holds_counted h.constants.c₅ (Or.inl (by decide : 5 + 1 ≤ 8)),
      holds_counted h.constants.c₁₀ (Or.inr le_rfl),
      holds_counted h.constants.c₁₅ (Or.inr (by decide))⟩
  exact ⟨hkeyed, h.size, holds_counted h.nonce (by omega), hconstants⟩

theorem exists_setKey (ks : Salsa20) (hkey : key.length ∈ [16, 32]) :
    ∃ ks', ks.setKey key = some ks' ∧ Keyed ks.nrounds key ks' ∧ ks'.ctr = ks.ctr := by
  have hcases : key.length = 16 ∨ key.length = 32 := by
    simpa only [List.mem_cons, List.not_mem_nil, or_false] using hkey
  obtain ⟨hfirst, hsecond⟩ := length_halves hkey
  obtain ⟨v, hv, hholds, -⟩ := exists_copyWords ks.state 1 (k := 4) hfirst (by omega)
  obtain ⟨w, hw, hholds', hsame⟩ := exists_copyWords v 11 (k := 4) hsecond (by omega)
  have hlen := (length_keyWords hkey).1
  refine ⟨{ ks with state := w, keysz := key.length }, ?_,
    ⟨rfl, rfl, hkey, hholds.of_sameOutside hsame (by omega), hholds'⟩, rfl⟩
  unfold secondHalf at hw
  rcases hcases with h16 | h32
  · rw [if_pos h16] at hw
    rw [setKey, if_neg (by omega)]
    simp only [hv, h16, if_true, hw, Option.bind_eq_bind, Option.bind_some, pure]
  · have h16 : ¬ key.length = 16 := by omega
    rw [if_neg h16] at hw
    rw [setKey, if_neg (by omega)]
    simp only [hv, h16, if_false, show ¬ key.length < 32 by omega, hw, Option.bind_eq_bind,
      Option.bind_some, pure]

/-- What is not at the places of the constants stays. -/
theorem holds_constants {v : Buf UInt32 16} {off : Nat} {xs : List UInt32} (h : v.Holds off xs)
    (a b c d : UInt32) (hoff : ∀ i ∈ [0, 5, 10, 15], i < off ∨ off + xs.length ≤ i) :
    Buf.Holds ((((v.set 0 a).set 5 b).set 10 c).set 15 d) off xs := by
  have h₀ := h.set_of_disjoint a (by decide) (hoff 0 (by decide))
  have h₅ := h₀.set_of_disjoint b (by decide) (hoff 5 (by decide))
  have h₁₀ := h₅.set_of_disjoint c (by decide) (hoff 10 (by decide))
  exact h₁₀.set_of_disjoint d (by decide) (hoff 15 (by decide))

theorem constants_set (v : Buf UInt32 16) (keysz : Nat) :
    Constants keysz ((((v.set 0 0x61707865).set 5 (if keysz = 16 then 0x3120646e else 0x3320646e)).set 10
      (if keysz = 16 then 0x79622d36 else 0x79622d32)).set 15 0x6b206574) where
  c₀ := by
    have h := Buf.holds_set_same v 0x61707865 (i := 0) (by decide)
    exact ((h.set_of_disjoint _ _ (Or.inr (by decide))).set_of_disjoint _ _
      (Or.inr (by decide))).set_of_disjoint _ _ (Or.inr (by decide))
  c₅ := by
    have h := Buf.holds_set_same (v.set 0 0x61707865)
      (if keysz = 16 then 0x3120646e else 0x3320646e) (i := 5) (by decide)
    exact (h.set_of_disjoint _ _ (Or.inr (by decide : 5 + 1 ≤ 10))).set_of_disjoint _ _
      (Or.inr (by decide : 5 + 1 ≤ 15))
  c₁₀ := by
    have h := Buf.holds_set_same ((v.set 0 0x61707865).set 5
      (if keysz = 16 then 0x3120646e else 0x3320646e))
      (if keysz = 16 then 0x79622d36 else 0x79622d32) (i := 10) (by decide)
    exact h.set_of_disjoint _ _ (Or.inr (by decide : 10 + 1 ≤ 15))
  c₁₅ := Buf.holds_set_same _ _ (by decide)

theorem exists_setNonce (h : Keyed nrounds key ks) (hiv : iv.length = 8) :
    ∃ ks', ks.setNonce iv = some ks' ∧ Ready nrounds key iv ks' ∧ ks'.ctr = ks.ctr := by
  obtain ⟨hfirst, hsecond⟩ := length_keyWords h.size
  have hnonce := length_nonce hiv
  obtain ⟨v, hv, hholds, hsame⟩ := exists_copyWords ks.state 6 (k := 2) hiv (by omega)
  have hoff : ∀ {off k : Nat}, k ≤ 4 → off = 1 ∨ off = 11 ∨ off = 6 ∧ k ≤ 2 →
      ∀ i ∈ [0, 5, 10, 15], i < off ∨ off + k ≤ i := by
    intro off k hk hoff i hi
    simp only [List.mem_cons, List.not_mem_nil, or_false] at hi
    omega
  have hset : ks.setNonce iv = some { ks with
      state := (((v.set 0 0x61707865).set 5 (if key.length = 16 then 0x3120646e else 0x3320646e)).set 10
        (if key.length = 16 then 0x79622d36 else 0x79622d32)).set 15 0x6b206574 } := by
    rw [setNonce, hv, h.keysz]
    rfl
  refine ⟨_, hset, ⟨⟨h.nrounds, h.keysz, h.size, ?_, ?_⟩, hiv, ?_, ?_⟩, rfl⟩
  · exact holds_constants (h.first.of_sameOutside hsame (by omega)) _ _ _ _ (hoff hfirst.le (by omega))
  · exact holds_constants (h.second.of_sameOutside hsame (by omega)) _ _ _ _
      (hoff hsecond.le (by omega))
  · exact holds_constants hholds _ _ _ _ (hoff (by omega) (by omega))
  · exact constants_set v key.length

def laws (nrounds : Nat) : NonceLaws (salsa20 nrounds) fun ks => ks.ctr = 0 where
  Base ks := ks.nrounds = nrounds
  Keyed := Keyed nrounds
  Ready := Ready nrounds
  Begun key iv ks := Ready nrounds key iv ks ∧ ks.ctr = 0
  Same := Same
  fast _ h := (Option.some.inj h).symm
  base_init _ := rfl
  base_of_keyed h := h.nrounds
  keyed_of_ready h := h.keyed
  ready_of_begun h := h.1
  ready_fill h := ready_fillBuffer h
  same_of_begun h h' := same_of_ready h.1 h'.1 (h.2.trans h'.2.symm)
  makesSame _ _ := fillBuffer_congr
  has_nonces h := nomatch h
  setKey_nbytes h := nbytes_of_emptied h
  setKey := by
    intro c key hbase hkey
    obtain ⟨ks, hset, hkeyed, hctr⟩ := exists_setKey c.m.reset hkey
    refine ⟨{ c with m := ks, nbytes := 0 }, ?_, hbase ▸ hkeyed, hctr⟩
    change (c.m.reset.setKey key >>= _) = _
    rw [hset]
    rfl
  setNonce_nbytes h := nbytes_of_kept h
  setNonce := by
    rintro c key iv hkeyed ⟨sizes, hsizes, hiv⟩
    obtain rfl := Option.some.inj hsizes
    obtain ⟨ks, hset, hready, hctr⟩ := exists_setNonce hkeyed (List.mem_singleton.mp hiv)
    refine ⟨{ c with m := ks }, ?_, hready, fun h0 => ⟨hready, hctr.trans h0⟩⟩
    change (c.m.setNonce iv >>= _) = _
    rw [hset]
    rfl
  reset_nbytes h := by rw [← Option.some.inj h]
  reset := by
    intro c key iv hready
    refine ⟨{ c with m := c.m.reset, nbytes := 0 }, rfl, ⟨?_, hready.size, hready.nonce, ?_⟩, rfl⟩
    · exact ⟨hready.keyed.nrounds, hready.keyed.keysz, hready.keyed.size, hready.keyed.first,
        hready.keyed.second⟩
    · exact hready.constants

end Salsa20

end Drew.StreamCipher
