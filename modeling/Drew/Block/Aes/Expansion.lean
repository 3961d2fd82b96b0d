import Drew.Block.Rijndael.Schedule
import Drew.Block.Aes.Model

/-!
# Key schedules on words

The two implementations of AES with words write the columns of the expanded key to an array, one word
after the other. They differ in which byte of a word is the first row.
-/

namespace Drew.Aes

open Drew.Block Drew.Rijndael

/-- The state of four words. -/
def stateOf (col : UInt32 → Column) (q : Quad) : State 4 := q.map col

theorem get_stateOf (col : UInt32 → Column) (q : Quad) (c : Fin 4) : (stateOf col q).get c = col (q.get c) :=
  Vector.getElem_map col c.isLt

section Filled

variable {n : Nat} [NeZero n] {col : UInt32 → Column} {key : List UInt8} {t : Nat} {rk : Vector UInt32 n}

/-- The first `t` words are columns of the expanded key. -/
def Filled (col : UInt32 → Column) (key : List UInt8) (t : Nat) (rk : Vector UInt32 n) : Prop :=
  ∀ m < t, col (entryAt rk m) = expanded key m

theorem filled_put (h : Filled col key t rk) (ht : t < n) {x : UInt32} (hx : col x = expanded key t) :
    Filled col key (t + 1) (put rk t x) := by
  intro m hm
  rw [entryAt_put _ _ (by omega)]
  by_cases hlast : t = m
  · rw [if_pos hlast, hx, hlast]
  · rw [if_neg hlast]
    exact h m (by omega)

/-- The words of the key itself. -/
theorem filled_key (hkey : key.length / 4 ≤ n) {x : Nat → UInt32}
    (hx : ∀ j < key.length / 4, col (x j) = keyColumn key j) :
    Filled col key (key.length / 4) ((List.range (key.length / 4)).foldl (fun rk j => put rk j (x j)) rk) := by
  have hloop : ∀ m ≤ key.length / 4,
      Filled col key m ((List.range m).foldl (fun rk j => put rk j (x j)) rk) := by
    intro m
    induction m with
    | zero => exact fun _ m hm => absurd hm (Nat.not_lt_zero m)
    | succ m ih =>
      intro hm
      rw [List.range_succ, List.foldl_append, List.foldl_cons, List.foldl_nil]
      apply filled_put (ih (by omega)) (by omega)
      rw [hx m (by omega)]
      have hpass := pass_eq_expanded (p := 0) (show m < key.length / 4 by omega)
      rwa [Nat.zero_mul, Nat.zero_add] at hpass
  exact hloop _ (Nat.le_refl _)

/-- The round keys in the array. -/
theorem stateOf_filled (h : Filled col key t rk) {i : Nat} (hi : 4 * (i + 1) ≤ t) :
    stateOf col (quadAt rk i) = roundKey 4 key i := by
  apply state_ext
  intro c
  have hc := c.isLt
  have hquad : (quadAt rk i).get c = entryAt rk (4 * i + c) := Vector.getElem_ofFn hc
  have hround : (roundKey 4 key i).get c = expanded key (i * 4 + c) := Vector.getElem_ofFn hc
  rw [get_stateOf, hquad, hround, h _ (by omega), Nat.mul_comm i 4]

/-- The column after `nk` others at `o`, in a pass. -/
theorem expanded_start {p nk o : Nat} (hkey : key.length / 4 = nk) (ho : o = nk * p) (hnk : 0 < nk) :
    expanded key (o + nk) = ((expanded key o).xor ((expanded key (o + (nk - 1))).rotate.map sbox)).xor
      ⟨roundConstant p, 0, 0, 0⟩ := by
  have hexp := expanded_first (p := p) hkey hnk
  rwa [Nat.add_mul, Nat.one_mul, Nat.mul_comm p nk, ← ho] at hexp

/-- A column of a pass that is neither the first one nor the substituted one. -/
theorem expanded_plain {p j nk o : Nat} (hkey : key.length / 4 = nk) (ho : o = nk * p) (hj : j + 1 < nk)
    (hplain : ¬(6 < nk ∧ j + 1 = 4)) : expanded key (o + nk + (j + 1)) =
      (expanded key (o + (j + 1))).xor (expanded key (o + nk + j)) := by
  have hnext := expanded_next (p := p) hkey hj
  rwa [if_neg hplain, Nat.add_mul, Nat.one_mul, Nat.mul_comm p nk, ← ho] at hnext

/-- The substituted column of a pass. -/
theorem expanded_substituted {p nk o : Nat} (hkey : key.length / 4 = nk) (ho : o = nk * p) (hnk : 6 < nk) :
    expanded key (o + nk + 4) = (expanded key (o + 4)).xor ((expanded key (o + nk + 3)).map sbox) := by
  have hnext := expanded_next (p := p) (j := 3) hkey (by omega)
  rwa [if_pos ⟨hnk, rfl⟩, Nat.add_mul, Nat.one_mul, Nat.mul_comm p nk, ← ho] at hnext

variable (hcol : ∀ x y, col (x ^^^ y) = (col x).xor (col y))

include hcol

theorem filled_putXor (h : Filled col key t rk) (ht : t < n) {a b : Nat} (ha : a < t) (hb : b < t)
    (hx : expanded key t = (expanded key a).xor (expanded key b)) : Filled col key (t + 1) (putXor rk t a b) := by
  apply filled_put h ht
  rw [hcol, h a ha, h b hb, hx]

theorem filled_threeWords {p nk o : Nat} (hkey : key.length / 4 = nk) (ho : o = nk * p) (h4 : 4 ≤ nk)
    (hfit : o + nk + 4 ≤ n) (h : Filled col key (o + nk + 1) rk) :
    Filled col key (o + nk + 4) (threeWords nk o rk) := by
  have h1 := filled_putXor hcol h (by omega) (show o + 1 < _ by omega) (show o + nk < _ by omega)
    (expanded_plain hkey ho (j := 0) (by omega) (by omega))
  have h2 := filled_putXor hcol h1 (by omega) (show o + 2 < _ by omega) (show o + nk + 1 < _ by omega)
    (expanded_plain hkey ho (j := 1) (by omega) (by omega))
  exact filled_putXor hcol h2 (by omega) (show o + 3 < _ by omega) (show o + nk + 2 < _ by omega)
    (expanded_plain hkey ho (j := 2) (by omega) (by omega))

/-- The last two words of a pass of six. -/
theorem filled_six {p o : Nat} (hkey : key.length / 4 = 6) (ho : o = 6 * p) (hfit : o + 12 ≤ n)
    (h : Filled col key (o + 10) rk) :
    Filled col key (o + 12) (putXor (putXor rk (o + 10) (o + 4) (o + 9)) (o + 11) (o + 5) (o + 10)) := by
  have h4 := filled_putXor hcol h (by omega) (show o + 4 < _ by omega) (show o + 9 < _ by omega)
    (expanded_plain hkey ho (j := 3) (by omega) (by omega))
  exact filled_putXor hcol h4 (by omega) (show o + 5 < _ by omega) (show o + 10 < _ by omega)
    (expanded_plain hkey ho (j := 4) (by omega) (by omega))

/-- The last three words of a pass of eight. -/
theorem filled_eight {p o : Nat} (hkey : key.length / 4 = 8) (ho : o = 8 * p) (hfit : o + 16 ≤ n)
    (h : Filled col key (o + 13) rk) : Filled col key (o + 16)
      (putXor (putXor (putXor rk (o + 13) (o + 5) (o + 12)) (o + 14) (o + 6) (o + 13)) (o + 15) (o + 7) (o + 14)) := by
  have h5 := filled_putXor hcol h (by omega) (show o + 5 < _ by omega) (show o + 12 < _ by omega)
    (expanded_plain hkey ho (j := 4) (by omega) (by omega))
  have h6 := filled_putXor hcol h5 (by omega) (show o + 6 < _ by omega) (show o + 13 < _ by omega)
    (expanded_plain hkey ho (j := 5) (by omega) (by omega))
  exact filled_putXor hcol h6 (by omega) (show o + 7 < _ by omega) (show o + 14 < _ by omega)
    (expanded_plain hkey ho (j := 6) (by omega) (by omega))

end Filled

/-! ## Rounds -/

section Rounds

variable {N : Network (State 4)} {col : UInt32 → Column} (k : Nat → Quad)

theorem stateOf_xorQuad (hcol : ∀ x y, col (x ^^^ y) = (col x).xor (col y)) (q r : Quad) :
    stateOf col (xorQuad q r) = addKey (stateOf col q) (stateOf col r) := by
  apply state_ext
  intro c
  rw [get_stateOf, get_addKey, get_stateOf, get_stateOf, ← hcol]
  exact congrArg col (Vector.getElem_zipWith c.isLt)

variable (hadd : ∀ q r, stateOf col (xorQuad q r) = N.add (stateOf col q) (stateOf col r))

include hadd

/-- Rounds on words are the rounds of encryption. -/
theorem stateOf_rounds {full : Quad → Quad → Quad}
    (hfull : ∀ q r, stateOf col (full q r) = N.add (N.mix (N.scramble (stateOf col q))) (stateOf col r))
    (n : Nat) (q : Quad) :
    stateOf col ((List.range n).foldl (fun q i => full q (k (i + 1))) (xorQuad q (k 0))) =
      N.stateAt (fun i => stateOf col (k i)) (stateOf col q) n := by
  induction n with
  | zero => exact hadd q (k 0)
  | succ n ih => rw [List.range_succ, List.foldl_append, List.foldl_cons, List.foldl_nil, hfull, ih, Network.stateAt]

/-- Rounds on words are the rounds of the equivalent decryption. -/
theorem stateOf_mixedRounds {full : Quad → Quad → Quad}
    (hfull : ∀ q r, stateOf col (full q r) = N.add (N.unmix (N.unscramble (stateOf col q))) (stateOf col r))
    (n : Nat) (q : Quad) :
    stateOf col ((List.range n).foldl (fun q i => full q (k (i + 1))) (xorQuad q (k 0))) =
      N.mixedAt (fun i => stateOf col (k i)) (stateOf col q) n := by
  induction n with
  | zero => exact hadd q (k 0)
  | succ n ih => rw [List.range_succ, List.foldl_append, List.foldl_cons, List.foldl_nil, hfull, ih, Network.mixedAt]

omit hadd

/-- The round keys in opposite order, with those in between changed, are the keys of the equivalent
decryption. -/
theorem mixed_keys {m : Nat} [NeZero m] {f : Quad → Quad} (hf : ∀ q, stateOf col (f q) = N.unmix (stateOf col q))
    {n : Nat} (hn : n + 1 < m) : N.Mixed (fun i => stateOf col (k i))
      (fun i => stateOf col (entryAt (mapBetween f (n + 1) (swapEnds (n + 1)
        (Vector.ofFn fun i : Fin m => k i))) i)) n := by
  have hquad : ∀ i ≤ n + 1, entryAt (Vector.ofFn fun i : Fin m => k i) i = k i := by
    intro i hi
    have hval : (Fin.ofNat m i).val = i := Nat.mod_eq_of_lt (by omega)
    show (Vector.ofFn fun i : Fin m => k i)[(Fin.ofNat m i).val] = _
    rw [Vector.getElem_ofFn]
    exact congrArg k hval
  have hkey : ∀ i ≤ n + 1, entryAt (mapBetween f (n + 1) (swapEnds (n + 1) (Vector.ofFn fun i : Fin m => k i))) i =
      if 0 < i ∧ i < n + 1 then f (k (n + 1 - i)) else k (n + 1 - i) := by
    intro i hi
    rw [entryAt_mapBetween _ (by omega) _ (by omega), entryAt_swapEnds hn _ hi, hquad _ (by omega)]
  constructor
  · rw [hkey 0 (by omega), if_neg (by omega)]
    rfl
  · intro i hi
    rw [hkey (i + 1) (by omega), if_pos (by omega), hf, show n + 1 - (i + 1) = n - i by omega]
  · rw [hkey (n + 1) (by omega), if_neg (by omega), Nat.sub_self]

end Rounds

/-- The lengths of a key. -/
def keyLengths : List Nat := [16, 24, 32]

theorem length_cases {m : Nat} (h : m ∈ keyLengths) : m = 16 ∨ m = 24 ∨ m = 32 := by
  rcases List.mem_cons.mp h with h | h
  · exact .inl h
  · rcases List.mem_cons.mp h with h | h
    · exact .inr (.inl h)
    · exact .inr (.inr (List.mem_singleton.mp h))

end Drew.Aes
