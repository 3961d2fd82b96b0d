import Drew.StreamCipher.Nonce
import Drew.StreamCipher.Words

/-!
# ChaCha

The model of the classes `ChaChaKeystream` and `ChaCha`. On a machine whose words have their first
byte lowest, `FillBufferAligned` does what `FillBuffer` does.
-/

namespace Drew.StreamCipher

open Drew.Memory

/-- The members of `ChaChaKeystream`. -/
structure ChaCha where
  state : Buf UInt32 16
  ctr : UInt64
  keysz : Nat
  noncesz : Nat
  nrounds : Nat

namespace ChaCha

def quarterRound (x : Buf UInt32 16) (a b c d : Fin 16) : Buf UInt32 16 :=
  let x := x.set a (x.get a + x.get b) (lt_16 a)
  let x := x.set d (rotateLeft (x.get a ^^^ x.get d) 16) (lt_16 d)
  let x := x.set c (x.get c + x.get d) (lt_16 c)
  let x := x.set b (rotateLeft (x.get b ^^^ x.get c) 12) (lt_16 b)
  let x := x.set a (x.get a + x.get b) (lt_16 a)
  let x := x.set d (rotateLeft (x.get a ^^^ x.get d) 8) (lt_16 d)
  let x := x.set c (x.get c + x.get d) (lt_16 c)
  x.set b (rotateLeft (x.get b ^^^ x.get c) 7) (lt_16 b)

/-- A round on the columns and one on the diagonals. -/
def doubleRound (x : Buf UInt32 16) : Buf UInt32 16 :=
  let x := quarterRound x 0 4 8 12
  let x := quarterRound x 1 5 9 13
  let x := quarterRound x 2 6 10 14
  let x := quarterRound x 3 7 11 15
  let x := quarterRound x 0 5 10 15
  let x := quarterRound x 1 6 11 12
  let x := quarterRound x 2 7 8 13
  quarterRound x 3 4 9 14

def doHash (nrounds : Nat) (state : Buf UInt32 16) : Buf UInt32 16 :=
  Vector.zipWith (· + ·) (doubleRound^[nrounds] state) state

def setKey (ks : ChaCha) (key : List UInt8) : Option ChaCha := do
  let state ← copyWords ks.state 4 key
  let state ← if key.length = 16 then copyWords state 8 key else some state
  return { ks with state := state, keysz := key.length }

/-- The first words of the state. -/
def constants (keysz : Nat) : List UInt32 :=
  [0x61707865, if keysz = 16 then 0x3120646e else 0x3320646e,
    if keysz = 16 then 0x79622d36 else 0x79622d32, 0x6b206574]

def nonceOffset (noncesz : Nat) : Nat := if noncesz = 12 then 13 else 14

def setNonce (ks : ChaCha) (iv : List UInt8) : Option ChaCha := do
  let state ← copyWords ks.state (nonceOffset iv.length) iv
  let state ← state.write 0 (constants ks.keysz)
  return { ks with state := state, noncesz := iv.length }

def reset (ks : ChaCha) : ChaCha := { ks with ctr := 0 }

/-- The state with the counter in it. -/
def counted (ks : ChaCha) : Buf UInt32 16 :=
  let state := ks.state.set 12 ks.ctr.toUInt32
  if ks.noncesz = 8 then state.set 13 (ks.ctr >>> 32).toUInt32 else state

def fillBuffer (ks : ChaCha) : Buf UInt8 64 × ChaCha :=
  (storeWords (doHash ks.nrounds (counted ks)), { ks with state := counted ks, ctr := ks.ctr + 1 })

def fillBufferAligned (ks : ChaCha) : Buf UInt8 64 × ChaCha :=
  (storeWords (doHash ks.nrounds (counted ks)), { ks with state := counted ks, ctr := ks.ctr + 1 })

end ChaCha

/-- The class `ChaCha` with a number of double rounds. -/
def chacha (nrounds : Nat) : Cipher where
  M := ChaCha
  bufsz := 64
  bufsz_pos := pos_64
  bufsz_lt := lt_word_64
  fillBuffer := ChaCha.fillBuffer
  fast := some ChaCha.fillBufferAligned
  keySizes := [16, 32]
  ivSizes := some [8, 12]
  init c := { c with m := { c.m with ctr := 0, nrounds := nrounds } }
  setKey c key := do
    let ks ← c.m.reset.setKey key
    return { c with m := ks, nbytes := 0 }
  setNonce c iv := do
    let ks ← c.m.setNonce iv
    return { c with m := ks }
  reset c := some { c with m := c.m.reset, nbytes := 0 }

/-! ## The key and the nonce -/

namespace ChaCha

variable {nrounds : Nat} {ks ks' : ChaCha} {key iv : List UInt8}

/-- The words of the state that the key takes. A short key is there twice. -/
def keyWords (key : List UInt8) : List UInt32 :=
  if key.length = 16 then loadWords key ++ loadWords key else loadWords key

def Keyed (nrounds : Nat) (key : List UInt8) (ks : ChaCha) : Prop :=
  ks.nrounds = nrounds ∧ ks.keysz = key.length ∧ key.length ∈ [16, 32] ∧
    ks.state.Holds 4 (keyWords key)

/-- All words but those of the counter are there. -/
structure Ready (nrounds : Nat) (key iv : List UInt8) (ks : ChaCha) : Prop where
  keyed : Keyed nrounds key ks
  size : iv.length ∈ [8, 12]
  noncesz : ks.noncesz = iv.length
  nonce : ks.state.Holds (nonceOffset iv.length) (loadWords iv)
  first : ks.state.Holds 0 (constants key.length)

/-- With the counter the states are the same. -/
structure Same (ks ks' : ChaCha) : Prop where
  counted : counted ks = counted ks'
  ctr : ks.ctr = ks'.ctr
  noncesz : ks.noncesz = ks'.noncesz
  nrounds : ks.nrounds = ks'.nrounds

theorem length_keyWords (hkey : key.length ∈ [16, 32]) : (keyWords key).length = 8 := by
  unfold keyWords
  split
  · rw [List.length_append, length_loadWords]
    omega
  · rw [length_loadWords]
    simp only [List.mem_cons, List.not_mem_nil, or_false] at hkey
    omega

theorem length_constants (keysz : Nat) : (constants keysz).length = 4 := rfl

/-- A nonce takes the last words of the state. -/
theorem nonceOffset_add (hiv : iv.length ∈ [8, 12]) :
    nonceOffset iv.length + (loadWords iv).length = 16 ∧
      (nonceOffset iv.length = 13 ∧ iv.length = 12 ∨ nonceOffset iv.length = 14 ∧ iv.length = 8) := by
  rw [length_loadWords]
  unfold nonceOffset
  simp only [List.mem_cons, List.not_mem_nil, or_false] at hiv
  rcases hiv with h | h
  · rw [if_neg (by omega)]
    omega
  · rw [if_pos h]
    omega

/-- Where the counter is. -/
theorem getElem?_counted (ks : ChaCha) (i : Nat) :
    (counted ks)[i]? =
      if i = 13 ∧ ks.noncesz = 8 then some (ks.ctr >>> 32).toUInt32
      else if i = 12 then some ks.ctr.toUInt32 else ks.state[i]? := by
  have h12 : (ks.state.set 12 ks.ctr.toUInt32)[i]? =
      if i = 12 then some ks.ctr.toUInt32 else ks.state[i]? := by
    by_cases h12 : i = 12
    · rw [if_pos h12, h12, Vector.getElem?_set_self]
    · rw [if_neg h12, Vector.getElem?_set_ne _ (Ne.symm h12)]
  unfold counted
  by_cases h8 : ks.noncesz = 8
  · rw [if_pos h8]
    by_cases h13 : i = 13
    · rw [if_pos ⟨h13, h8⟩, h13, Vector.getElem?_set_self]
    · rw [if_neg fun h => h13 h.1, Vector.getElem?_set_ne _ (Ne.symm h13), h12]
  · rw [if_neg h8, if_neg fun h => h8 h.2, h12]

theorem same_of_ready (h : Ready nrounds key iv ks) (h' : Ready nrounds key iv ks')
    (hctr : ks.ctr = ks'.ctr) : Same ks ks' := by
  have hnoncesz : ks.noncesz = ks'.noncesz := h.noncesz.trans h'.noncesz.symm
  refine ⟨?_, hctr, hnoncesz, h.keyed.1.trans h'.keyed.1.symm⟩
  obtain ⟨hlen, hoff⟩ := nonceOffset_add h.size
  have hkeyLen := length_keyWords h.keyed.2.2.1
  apply Vector.ext
  intro i hi
  rw [← Option.some_inj, ← Vector.getElem?_eq_getElem, ← Vector.getElem?_eq_getElem,
    getElem?_counted, getElem?_counted, ← hnoncesz, ← hctr]
  split
  · rfl
  split
  · rfl
  rename_i h13 h12
  by_cases h4 : i < 4
  · exact h.first.agree h'.first (Nat.zero_le i) (by rwa [length_constants])
  by_cases hkey : i < 12
  · exact h.keyed.2.2.2.agree h'.keyed.2.2.2 (by omega) (by omega)
  · have hsize := h.noncesz
    exact h.nonce.agree h'.nonce (by omega) (by omega)

theorem fillBuffer_congr (h : Same ks ks') :
    (fillBuffer ks).1 = (fillBuffer ks').1 ∧ Same (fillBuffer ks).2 (fillBuffer ks').2 := by
  have hctr : ks.ctr + 1 = ks'.ctr + 1 := by rw [h.ctr]
  unfold fillBuffer
  refine ⟨by rw [h.counted, h.nrounds], ?_, hctr, h.noncesz, h.nrounds⟩
  rw [h.counted, hctr, h.noncesz]
  rfl

/-- What is not at the places of the counter stays. -/
theorem holds_counted {off : Nat} {xs : List UInt32} (h : ks.state.Holds off xs)
    (hoff : off + xs.length ≤ 12 ∨ 13 ≤ off ∧ (ks.noncesz = 8 → 14 ≤ off)) :
    (counted ks).Holds off xs := by
  refine ⟨h.1, fun i hi => ?_⟩
  have hfit := h.1
  rw [getElem?_counted, ← h.2 i hi, if_neg (by omega), if_neg (by omega)]

theorem ready_fillBuffer (h : Ready nrounds key iv ks) : Ready nrounds key iv (fillBuffer ks).2 := by
  obtain ⟨hlen, hoff⟩ := nonceOffset_add h.size
  have hkeyLen := length_keyWords h.keyed.2.2.1
  have hnoncesz := h.noncesz
  refine ⟨⟨h.keyed.1, h.keyed.2.1, h.keyed.2.2.1, ?_⟩, h.size, h.noncesz, ?_, ?_⟩
  · exact holds_counted h.keyed.2.2.2 (by omega)
  · exact holds_counted h.nonce (by omega)
  · exact holds_counted h.first (by rw [length_constants]; omega)

theorem exists_setKey (ks : ChaCha) (hkey : key.length ∈ [16, 32]) :
    ∃ ks', ks.setKey key = some ks' ∧ Keyed ks.nrounds key ks' ∧ ks'.ctr = ks.ctr := by
  have hcases : key.length = 16 ∨ key.length = 32 := by
    simpa only [List.mem_cons, List.not_mem_nil, or_false] using hkey
  rcases hcases with h16 | h32
  · obtain ⟨v, hv, hholds, -⟩ := exists_copyWords ks.state 4 (k := 4) h16 (by omega)
    obtain ⟨w, hw, hholds', hsame⟩ := exists_copyWords v 8 (k := 4) h16 (by omega)
    have hlen : (loadWords key).length = 4 := by
      rw [length_loadWords]
      omega
    refine ⟨{ ks with state := w, keysz := key.length }, ?_, ⟨rfl, rfl, hkey, ?_⟩, rfl⟩
    · simp only [setKey, hv, h16, if_true, hw, Option.bind_eq_bind, Option.bind_some, pure]
    · rw [keyWords, if_pos h16]
      apply (hholds.of_sameOutside hsame (by omega)).append
      rwa [hlen]
  · obtain ⟨v, hv, hholds, -⟩ := exists_copyWords ks.state 4 (k := 8) h32 (by omega)
    have h16 : ¬ key.length = 16 := by omega
    refine ⟨{ ks with state := v, keysz := key.length }, ?_, ⟨rfl, rfl, hkey, ?_⟩, rfl⟩
    · simp only [setKey, hv, h16, if_false, Option.bind_eq_bind, Option.bind_some, pure]
    · rwa [keyWords, if_neg h16]

theorem exists_setNonce (h : Keyed nrounds key ks) (hiv : iv.length ∈ [8, 12]) :
    ∃ ks', ks.setNonce iv = some ks' ∧ Ready nrounds key iv ks' ∧ ks'.ctr = ks.ctr := by
  obtain ⟨hlen, hoff⟩ := nonceOffset_add hiv
  obtain ⟨hnrounds, hkeysz, hkey, hkeyHolds⟩ := h
  have hkeyLen := length_keyWords hkey
  have hivLen : iv.length = 4 * (loadWords iv).length := by
    rw [length_loadWords]
    omega
  obtain ⟨v, hv, hnonce, hsame⟩ :=
    exists_copyWords ks.state (nonceOffset iv.length) hivLen (by omega)
  obtain ⟨w, hw⟩ := Buf.exists_write_at v 0 (constants key.length) (by rw [length_constants]; omega)
  have hsame' := Buf.sameOutside_write hw
  rw [length_constants] at hsame'
  refine ⟨{ ks with state := w, noncesz := iv.length }, ?_,
    ⟨⟨hnrounds, hkeysz, hkey, ?_⟩, hiv, rfl, ?_, Buf.holds_write hw⟩, rfl⟩
  · simp only [setNonce, hv, hkeysz, hw, Option.bind_eq_bind, Option.bind_some, pure]
  · exact (hkeyHolds.of_sameOutside hsame (by omega)).of_sameOutside hsame' (by omega)
  · exact hnonce.of_sameOutside hsame' (by omega)

def laws (nrounds : Nat) : NonceLaws (chacha nrounds) fun ks => ks.ctr = 0 where
  Base ks := ks.nrounds = nrounds
  Keyed := Keyed nrounds
  Ready := Ready nrounds
  Begun key iv ks := Ready nrounds key iv ks ∧ ks.ctr = 0
  Same := Same
  fast _ h := (Option.some.inj h).symm
  base_init _ := rfl
  base_of_keyed h := h.1
  keyed_of_ready h := h.keyed
  ready_of_begun h := h.1
  ready_fill h := ready_fillBuffer h
  same_of_begun h h' := same_of_ready h.1 h'.1 (h.2.trans h'.2.symm)
  makesSame _ _ := fillBuffer_congr
  has_nonces h := nomatch h
  setKey_nbytes h := nbytes_of_emptied h
  setKey := by
    intro c key hbase hkey
    obtain ⟨ks, hset, hkeyed, hctr⟩ := exists_setKey c.m.reset hkey
    refine ⟨{ c with m := ks, nbytes := 0 }, ?_, hbase ▸ hkeyed, hctr⟩
    change (c.m.reset.setKey key >>= _) = _
    rw [hset]
    rfl
  setNonce_nbytes h := nbytes_of_kept h
  setNonce := by
    rintro c key iv hkeyed ⟨sizes, hsizes, hiv⟩
    obtain rfl := Option.some.inj hsizes
    obtain ⟨ks, hset, hready, hctr⟩ := exists_setNonce hkeyed hiv
    refine ⟨{ c with m := ks }, ?_, hready, fun h0 => ⟨hready, hctr.trans h0⟩⟩
    change (c.m.setNonce iv >>= _) = _
    rw [hset]
    rfl
  reset_nbytes h := by rw [← Option.some.inj h]
  reset := by
    intro c key iv hready
    refine ⟨{ c with m := c.m.reset, nbytes := 0 }, rfl, ?_, rfl⟩
    exact ⟨hready.keyed, hready.size, hready.noncesz, hready.nonce, hready.first⟩

end ChaCha

end Drew.StreamCipher
