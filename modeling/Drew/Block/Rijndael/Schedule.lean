import Drew.Block.Rijndael.Decryption

/-!
# The key schedule of generic Rijndael

A pass makes the next columns of the expanded key from `tk`, and stores them in the rows of `m_rk`. No
index leaves its array, and the words that the rounds need are filled, no others.
-/

namespace Drew.Rijndael

open Drew.Memory Drew.Field Drew.Block

/-! ## Columns in a list -/

section Lists

variable {nk : Nat} (f : Nat → Column)

theorem getElem?_columns {j : Nat} (hj : j < nk) : ((List.range nk).map f)[j]? = some (f j) := by
  rw [List.getElem?_map, List.getElem?_range hj]
  rfl

theorem set_columns (j : Nat) (a : Column) :
    ((List.range nk).map f).set j a = (List.range nk).map (Function.update f j a) := by
  apply List.ext_getElem
  · simp
  · intro i _ _
    rw [List.getElem_set, List.getElem_map, List.getElem_map, List.getElem_range, Function.update_apply]
    by_cases h : j = i
    · rw [if_pos h, if_pos h.symm]
    · rw [if_neg h, if_neg (Ne.symm h)]

end Lists

/-- The columns up to `m` are already new. -/
def partly (g f : Nat → Column) (m j : Nat) : Column := if j ≤ m then g j else f j

theorem update_partly (g f : Nat → Column) (m : Nat) :
    Function.update (partly g f m) (m + 1) (g (m + 1)) = partly g f (m + 1) := by
  ext j : 1
  rw [Function.update_apply]
  unfold partly
  by_cases h : j = m + 1
  · rw [if_pos h, if_pos (by omega), h]
  · rw [if_neg h]
    by_cases hle : j ≤ m
    · rw [if_pos hle, if_pos (by omega)]
    · rw [if_neg hle, if_neg (by omega)]

theorem update_zero (g f : Nat → Column) : Function.update f 0 (g 0) = partly g f 0 := by
  ext j : 1
  rw [Function.update_apply]
  unfold partly
  by_cases h : j = 0
  · rw [if_pos h, if_pos (by omega), h]
  · rw [if_neg h, if_neg (by omega)]

/-! ## A pass -/

section Pass

variable {nk : Nat}

/-- One more column in a loop over `j`. -/
theorem chain_partly {g f : Nat → Column} {h : UInt8 → UInt8} {m : Nat} (hm : m + 1 < nk)
    (hg : g (m + 1) = (f (m + 1)).xor ((g m).map h)) :
    chain h ((List.range nk).map (partly g f m)) (m + 1) = some ((List.range nk).map (partly g f (m + 1))) := by
  have hprev : partly g f m m = g m := if_pos (Nat.le_refl m)
  have hnext : partly g f m (m + 1) = f (m + 1) := if_neg (by omega)
  rw [chain, Nat.add_sub_cancel, getElem?_columns _ (by omega), getElem?_columns _ hm, hprev, hnext]
  show some (((List.range nk).map (partly g f m)).set (m + 1) ((f (m + 1)).xor ((g m).map h))) = _
  rw [← hg, set_columns, update_partly]

theorem chain_loop {g f : Nat → Column} {m : Nat} :
    ∀ n, m + n < nk → (∀ j < n, g (m + j + 1) = (f (m + j + 1)).xor ((g (m + j)).map id)) →
      (List.range' (m + 1) n).foldlM (chain id) ((List.range nk).map (partly g f m)) =
        some ((List.range nk).map (partly g f (m + n)))
  | 0, _, _ => rfl
  | n + 1, hlt, hg => by
    have hstep := chain_partly (h := id) (show m + n + 1 < nk by omega) (hg n (by omega))
    rw [List.range'_concat, List.foldlM_append, chain_loop n (by omega) fun j hj => hg j (by omega),
      show m + 1 + 1 * n = m + n + 1 by omega]
    show (chain id ((List.range nk).map (partly g f (m + n))) (m + n + 1)).bind some = _
    rw [hstep, Option.bind_some]
    rfl

theorem rotateFirst_columns (f : Nat → Column) (h2 : 2 ≤ nk) :
    rotateFirst nk ((List.range nk).map f) = some ((List.range nk).map
      (Function.update f 0 ((f 0).xor ((f (nk - 1)).rotate.map sbox)))) := by
  have hlast : ∀ a, Function.update f 0 a (nk - 1) = f (nk - 1) := by
    intro a
    rw [Function.update_apply, if_neg (by omega)]
  have hrange : List.range 4 = [0, 1, 2, 3] := rfl
  rw [rotateFirst, hrange]
  simp only [List.foldlM_cons, List.foldlM_nil, getElem?_columns _ (show nk - 1 < nk by omega),
    getElem?_columns _ (show 0 < nk by omega), Option.bind_eq_bind, Option.bind_some, set_columns,
    Function.update_idem, Function.update_self, hlast]
  rfl

theorem addConstant_columns (f : Nat → Column) (h0 : 0 < nk) {ri : Nat} {rc : UInt8} (hrc : rcon[ri]? = some rc) :
    addConstant ri ((List.range nk).map f) =
      some ((List.range nk).map (Function.update f 0 ((f 0).xor ⟨rc, 0, 0, 0⟩))) := by
  have hset : (f 0).set 0 ((f 0).get 0 ^^^ rc) = (f 0).xor ⟨rc, 0, 0, 0⟩ := by
    apply Column.ext
    · rfl
    · exact UInt8.xor_zero.symm
    · exact UInt8.xor_zero.symm
    · exact UInt8.xor_zero.symm
  rw [addConstant, hrc, getElem?_columns _ h0]
  show some (((List.range nk).map f).set 0 ((f 0).set 0 ((f 0).get 0 ^^^ rc))) = _
  rw [hset, set_columns]

/-- The constants in the table. -/
theorem getElem?_rcon {ri : Nat} (h : ri < 30) : rcon[ri]? = some (roundConstant ri) := by
  revert h
  revert ri
  decide

theorem nextColumn_succ (rc : UInt8) (f : Nat → Column) (j : Nat) : nextColumn nk rc f (j + 1) =
    (f (j + 1)).xor (if 6 < nk ∧ j + 1 = 4 then (nextColumn nk rc f j).map sbox else nextColumn nk rc f j) :=
  rfl

theorem map_id_column (a : Column) : a.map id = a := rfl

/-- A pass makes the next columns of the expanded key. -/
theorem nextKeys_columns (f : Nat → Column) (h2 : 2 ≤ nk) {ri : Nat} (hri : ri < 30) :
    nextKeys nk ri ((List.range nk).map f) =
      some ((List.range nk).map (nextColumn nk (roundConstant ri) f)) := by
  have hfirst : (List.range nk).map (Function.update (Function.update f 0
      ((f 0).xor ((f (nk - 1)).rotate.map sbox))) 0 ((Function.update f 0
        ((f 0).xor ((f (nk - 1)).rotate.map sbox)) 0).xor ⟨roundConstant ri, 0, 0, 0⟩)) =
      (List.range nk).map (partly (nextColumn nk (roundConstant ri) f) f 0) := by
    rw [Function.update_self, Function.update_idem, ← update_zero]
    rfl
  have hall : (List.range nk).map (partly (nextColumn nk (roundConstant ri) f) f (nk - 1)) =
      (List.range nk).map (nextColumn nk (roundConstant ri) f) := by
    apply List.map_congr_left
    intro j hj
    have hlt := List.mem_range.mp hj
    exact if_pos (by omega)
  simp only [nextKeys, rotateFirst_columns f h2, Option.bind_eq_bind, Option.bind_some,
    addConstant_columns _ (show 0 < nk by omega) (getElem?_rcon hri), hfirst]
  by_cases h6 : nk ≤ 6
  · have hloop := @chain_loop nk (nextColumn nk (roundConstant ri) f) f 0 (nk - 1)
      (by omega) fun j _ => by rw [nextColumn_succ, if_neg (by omega), map_id_column]
    rw [if_pos h6, hloop, Nat.zero_add, hall]
  · have hlow := @chain_loop nk (nextColumn nk (roundConstant ri) f) f 0 3
      (by omega) fun j _ => by rw [nextColumn_succ, if_neg (by omega), map_id_column]
    have hmid := @chain_partly nk (nextColumn nk (roundConstant ri) f) f S.entry 3
      (by omega) (by rw [nextColumn_succ, if_pos ⟨by omega, rfl⟩]; rfl)
    have hhigh := @chain_loop nk (nextColumn nk (roundConstant ri) f) f 4 (nk - 5)
      (by omega) fun j _ => by rw [nextColumn_succ, if_neg (by omega), map_id_column]
    rw [if_neg h6, hlow, Option.bind_some, hmid, Option.bind_some, hhigh, show 4 + (nk - 5) = nk - 1 by omega, hall]

end Pass

/-! ## Storing columns -/

section Store

variable {C : Class}

/-- The words `w` up to `t` are in the rows of `m_rk`, which are empty otherwise. -/
def Stored (C : Class) (w : Nat → Column) (t : Nat) (rk : Keys) : Prop :=
  ∀ n < 15, ∀ i : Fin 4, ∀ c < 8, longByte ((wordsAt rk n).get i) c =
    if c < C.nb ∧ n * C.nb + c < t then (w (n * C.nb + c)).get i else 0

theorem stored_zero (w : Nat → Column) : Stored C w 0 (Vector.replicate 15 (Vector.replicate 4 0)) := by
  intro n _ i c _
  have hzero : (wordsAt (Vector.replicate 15 (Vector.replicate 4 0)) n).get i = 0 := by
    show ((Vector.replicate 15 (Vector.replicate 4 (0 : UInt64)))[(Fin.ofNat 15 n).val])[i.val] = 0
    rw [Vector.getElem_replicate, Vector.getElem_replicate]
  rw [hzero, longByte_zero, if_neg (by omega)]

theorem wordsAt_setIfInBounds (rk : Keys) {m n : Nat} (v : Vector UInt64 4) (hn : n < 15) :
    wordsAt (rk.setIfInBounds m v) n = if m = n then v else wordsAt rk n := by
  have hval : (Fin.ofNat 15 n).val = n := Nat.mod_eq_of_lt hn
  rw [wordsAt, get_setIfInBounds, hval]
  rfl

/-- `store` puts the next word in its place. -/
theorem store_stored {w : Nat → Column} {t : Nat} {rk : Keys} (h : Stored C w t rk) (ht : t < 15 * C.nb) :
    ∃ rk', store C rk t (w t) = some rk' ∧ Stored C w (t + 1) rk' := by
  have hnb := C.nb_le
  have hpos : 0 < C.nb := Nat.pos_of_ne_zero (NeZero.ne C.nb)
  have hrow : t / C.nb < 15 := (Nat.div_lt_iff_lt_mul hpos).mpr ht
  have hcol : t % C.nb < C.nb := Nat.mod_lt t hpos
  have hsplit : t / C.nb * C.nb + t % C.nb = t := Nat.div_add_mod' t C.nb
  refine ⟨_, if_pos hrow, ?_⟩
  intro n hn i c hc
  rw [wordsAt_setIfInBounds rk _ hn]
  by_cases heq : t / C.nb = n
  · have hplace : t * 8 % C.bc = 8 * (t % C.nb) := by
      rw [Class.bc, Nat.mul_comm t 8, Nat.mul_mod_mul_left]
    have hget : (Vector.ofFn fun i : Fin 4 => (wordsAt rk (t / C.nb)).get i |||
        ((w t).get i).toUInt64 <<< UInt64.ofNat (t * 8 % C.bc)).get i =
          (wordsAt rk n).get i ||| putByte ((w t).get i) (t % C.nb) := by
      rw [← heq, hplace]
      exact Vector.getElem_ofFn i.isLt
    rw [if_pos heq, hget, longByte_or _ _ hc, longByte_putByte _ (by omega) hc, h n hn i c hc]
    rw [heq] at hsplit
    by_cases hlast : c = t % C.nb
    · have hword : n * C.nb + c = t := by omega
      rw [if_pos hlast, if_neg (by omega), if_pos ⟨by omega, by omega⟩, hword, UInt8.zero_or]
    · rw [if_neg hlast, UInt8.or_zero]
      by_cases hold : c < C.nb ∧ n * C.nb + c < t
      · rw [if_pos hold, if_pos ⟨hold.1, by omega⟩]
      · rw [if_neg hold, if_neg (by omega)]
  · rw [if_neg heq, h n hn i c hc]
    have hnot : ¬(c < C.nb ∧ n * C.nb + c = t) := by
      rintro ⟨hlt, hsum⟩
      apply heq
      rw [← hsum, Nat.mul_comm, Nat.mul_add_div hpos, Nat.div_eq_of_lt hlt, Nat.add_zero]
    by_cases hold : c < C.nb ∧ n * C.nb + c < t
    · rw [if_pos hold, if_pos ⟨hold.1, by omega⟩]
    · rw [if_neg hold, if_neg (by omega)]

/-- The loop over the columns of `tk` stores them until all words are there. -/
theorem storeAll_stored {w : Nat → Column} {total : Nat} (htotal : total ≤ 15 * C.nb) :
    ∀ (m t : Nat) (f : Nat → Column) (rk : Keys), (∀ j < m, f j = w (t + j)) → t ≤ total → Stored C w t rk →
      ∃ rk', storeAll C total ((List.range m).map f) t rk = some (min (t + m) total, rk') ∧
        Stored C w (min (t + m) total) rk'
  | 0, t, _, rk, _, hle, h => by
    rw [Nat.add_zero, Nat.min_eq_left hle]
    exact ⟨rk, rfl, h⟩
  | m + 1, t, f, rk, hf, hle, h => by
    rw [List.range_succ_eq_map, List.map_cons, List.map_map, storeAll]
    by_cases hlt : t < total
    · obtain ⟨rk1, hstore, hstored⟩ := store_stored h (show t < 15 * C.nb by omega)
      have hhead : f 0 = w t := hf 0 (by omega)
      obtain ⟨rk2, hall, hstored2⟩ := storeAll_stored htotal m (t + 1) (f ∘ Nat.succ) rk1
        (fun j hj => by
          rw [show t + 1 + j = t + (j + 1) by omega]
          exact hf (j + 1) (by omega)) hlt hstored
      rw [show t + 1 + m = t + (m + 1) by omega] at hall hstored2
      refine ⟨rk2, ?_, hstored2⟩
      rw [if_pos hlt, hhead, hstore]
      exact hall
    · have hmin : min (t + (m + 1)) total = t := by omega
      rw [if_neg hlt, hmin]
      exact ⟨rk, rfl, h⟩

end Store

/-! ## The whole schedule -/

section Whole

variable {C : Class} {key : List UInt8}

/-- The words of a pass. -/
theorem pass_eq_expanded {p j : Nat} (hj : j < key.length / 4) :
    pass (key.length / 4) (keyColumn key) p j = expanded key (p * (key.length / 4) + j) := by
  have hpos : 0 < key.length / 4 := by omega
  rw [expanded, Nat.mul_comm p, Nat.mul_add_div hpos, Nat.div_eq_of_lt hj, Nat.add_zero, Nat.mul_add_mod,
    Nat.mod_eq_of_lt hj]

/-- The first column of a pass. -/
theorem expanded_first {p nk : Nat} (hkey : key.length / 4 = nk) (hnk : 0 < nk) :
    expanded key ((p + 1) * nk) = ((expanded key (p * nk)).xor
      ((expanded key (p * nk + (nk - 1))).rotate.map sbox)).xor ⟨roundConstant p, 0, 0, 0⟩ := by
  subst hkey
  have hfirst : _ = expanded key (p * (key.length / 4)) := pass_eq_expanded (p := p) hnk
  have hnext : _ = expanded key ((p + 1) * (key.length / 4)) := pass_eq_expanded (p := p + 1) hnk
  rw [← hnext, ← hfirst, ← pass_eq_expanded (by omega)]
  rfl

/-- The other columns of a pass. -/
theorem expanded_next {p j nk : Nat} (hkey : key.length / 4 = nk) (hj : j + 1 < nk) :
    expanded key ((p + 1) * nk + (j + 1)) = (expanded key (p * nk + (j + 1))).xor
      (if 6 < nk ∧ j + 1 = 4 then (expanded key ((p + 1) * nk + j)).map sbox
        else expanded key ((p + 1) * nk + j)) := by
  subst hkey
  rw [← pass_eq_expanded hj, ← pass_eq_expanded hj, ← pass_eq_expanded (by omega)]
  rfl

/-- The variables after the passes up to `p`. -/
structure After (C : Class) (key : List UInt8) (total p : Nat) (s : Schedule) : Prop where
  tk : s.tk = (List.range (key.length / 4)).map (pass (key.length / 4) (keyColumn key) p)
  t : s.t = min ((p + 1) * (key.length / 4)) total
  ri : s.ri = p
  rk : Stored C (expanded key) s.t s.rk

theorem expandLoop_after {total : Nat} (h2 : 2 ≤ key.length / 4) (hrows : total ≤ 15 * C.nb)
    (hconst : total ≤ 31 * (key.length / 4)) :
    ∀ (n p : Nat) (s : Schedule), After C key total p s → total ≤ s.t + n →
      ∃ s', expandLoop C (key.length / 4) total n s = some s' ∧ Stored C (expanded key) total s'.rk
  | 0, p, s, h, hn => by
    have ht := h.t
    have hend : s.t = total := by omega
    refine ⟨s, if_neg (by omega), ?_⟩
    have hrk := h.rk
    rwa [hend] at hrk
  | n + 1, p, s, h, hn => by
    rw [expandLoop]
    by_cases hlt : s.t < total
    · have ht : s.t = (p + 1) * (key.length / 4) := by
        have ht := h.t
        omega
      have hp : p < 30 := by
        have hmul : (p + 1) * (key.length / 4) < 31 * (key.length / 4) := by omega
        have hlt31 := Nat.lt_of_mul_lt_mul_right hmul
        omega
      obtain ⟨rk, hstore, hstored⟩ := storeAll_stored hrows (key.length / 4) s.t
        (pass (key.length / 4) (keyColumn key) (p + 1)) s.rk
        (fun j hj => by rw [ht, pass_eq_expanded hj]) (by omega) h.rk
      have hafter : After C key total (p + 1)
          ⟨(List.range (key.length / 4)).map (pass (key.length / 4) (keyColumn key) (p + 1)),
            min (s.t + key.length / 4) total, s.ri + 1, rk⟩ :=
        ⟨rfl, by rw [ht, Nat.add_mul (p + 1), Nat.one_mul], by rw [h.ri], hstored⟩
      obtain ⟨s', hs', hfull⟩ := expandLoop_after h2 hrows hconst n (p + 1) _ hafter (by
        show total ≤ min (s.t + key.length / 4) total + n
        omega)
      refine ⟨s', ?_, hfull⟩
      have hnext : nextKeys (key.length / 4) s.ri s.tk = some ((List.range (key.length / 4)).map
          (pass (key.length / 4) (keyColumn key) (p + 1))) := by
        rw [h.ri, h.tk, nextKeys_columns _ h2 hp]
        rfl
      rw [if_pos hlt, hnext]
      simp only [Option.bind_eq_bind, Option.bind_some, hstore]
      exact hs'
    · have ht := h.t
      have hend : s.t = total := by omega
      refine ⟨s, if_neg hlt, ?_⟩
      have hrk := h.rk
      rwa [hend] at hrk

end Whole

end Drew.Rijndael

/-!
## Generic Rijndael is Rijndael

With the keys that the schedule fills, `Encrypt` and `Decrypt` are encryption and decryption with the
network, in bytes.
-/

namespace Drew.Rijndael

open Drew.Memory Drew.Field Drew.Block

/-- The lengths of a key. -/
def keyLengths : List Nat := [16, 20, 24, 28, 32]

variable {C : Class} {key : List UInt8}

theorem numRounds_le (hkey : key.length ∈ keyLengths) : numRounds C.nb (key.length / 4) ≤ 14 := by
  have hnb := C.nb_le
  have hle : key.length ≤ 32 := by
    revert hkey
    generalize key.length = n
    intro hkey
    fin_cases hkey <;> decide
  unfold numRounds
  omega

/-- There are enough rows and constants for every size. -/
theorem sizes_fit (hkey : key.length ∈ keyLengths) : ¬32 < key.length ∧ 2 ≤ key.length / 4 ∧
    (numRounds C.nb (key.length / 4) + 1) * C.nb ≤ 15 * C.nb ∧
    (numRounds C.nb (key.length / 4) + 1) * C.nb ≤ 31 * (key.length / 4) := by
  refine ⟨?_, ?_, Nat.mul_le_mul_right _ (Nat.succ_le_succ (numRounds_le hkey)), ?_⟩ <;> revert hkey <;>
    generalize key.length = n <;> intro hkey
  · fin_cases hkey <;> decide
  · fin_cases hkey <;> decide
  · fin_cases hkey <;> cases C <;> decide

/-- The members after `SetKeyInternal`: exactly the words of the round keys are in the rows. -/
theorem setKeyInternal_spec (C : Class) (c : Rijndael) (hkey : key.length ∈ keyLengths) :
    ∃ c', setKeyInternal C c key = some c' ∧ c'.nr = numRounds C.nb (key.length / 4) ∧
      Stored C (expanded key) ((c'.nr + 1) * C.nb) c'.rk ∧ c'.rkb = copyKeys c'.nr c'.rk c.rkb := by
  obtain ⟨hlen, h2, hrows, hconst⟩ := sizes_fit (C := C) hkey
  obtain ⟨rk, hfirst, hstored⟩ := storeAll_stored hrows (key.length / 4) 0 (keyColumn key) _
    (fun j hj => by
      have hpass := pass_eq_expanded (p := 0) hj
      rwa [Nat.zero_mul] at hpass) (Nat.zero_le _) (stored_zero (expanded key))
  rw [Nat.zero_add] at hfirst hstored
  obtain ⟨s, hs, hfull⟩ := expandLoop_after h2 hrows hconst ((numRounds C.nb (key.length / 4) + 1) * C.nb) 0
    ⟨(List.range (key.length / 4)).map (keyColumn key), min (key.length / 4) _, 0, rk⟩
    ⟨rfl, by rw [Nat.zero_add, Nat.one_mul], rfl, hstored⟩ (Nat.le_add_left _ _)
  refine ⟨⟨numRounds C.nb (key.length / 4), key.length / 4, s.rk,
    copyKeys (numRounds C.nb (key.length / 4)) s.rk c.rkb⟩, ?_, rfl, hfull, rfl⟩
  have hrounds : 6 + max C.nb (key.length / 4) = numRounds C.nb (key.length / 4) := rfl
  rw [setKeyInternal, if_neg hlen]
  simp only [hrounds, hfirst, hs, Option.bind_eq_bind, Option.bind_some]

/-- The rows of a round key. -/
theorem keyState_eq {rk : Keys} {t : Nat} (h : Stored C (expanded key) t rk) {i : Nat} (hi : i < 15)
    (ht : (i + 1) * C.nb ≤ t) : keyState C rk i = roundKey C.nb key i := by
  have hnb := C.nb_le
  apply state_ext
  intro c
  have hc := c.isLt
  have hlt : i * C.nb + c.val < t := by
    rw [Nat.add_mul, Nat.one_mul] at ht
    omega
  have hbyte : ∀ r : Fin 4, longByte ((wordsAt rk i).get r) c = (expanded key (i * C.nb + c)).get r := by
    intro r
    rw [h i hi r c (by omega), if_pos ⟨hc, hlt⟩]
  have hround : (roundKey C.nb key i).get c = expanded key (i * C.nb + c) := Vector.getElem_ofFn hc
  rw [get_keyState, hround, hbyte 0, hbyte 1, hbyte 2, hbyte 3]
  rfl

/-- What a key makes of a context, whatever was in it before. -/
theorem setKeyInternal_crypt (C : Class) (c : Rijndael) (hkey : key.length ∈ keyLengths) :
    ∃ c', setKeyInternal C c key = some c' ∧ c'.nr = numRounds C.nb (key.length / 4) ∧
      Stored C (expanded key) ((c'.nr + 1) * C.nb) c'.rk ∧
      (∀ b, encrypt C c' b = bytesOf (C.net.encrypt (roundKey C.nb key) (c'.nr - 1) (columnsOf C.nb b))) ∧
      ∀ b, decrypt C c' b = bytesOf (C.net.decrypt (roundKey C.nb key) (c'.nr - 1) (columnsOf C.nb b)) := by
  obtain ⟨c', hset, hnr, hstored, hrkb⟩ := setKeyInternal_spec C c hkey
  have hle := numRounds_le (C := C) hkey
  have hpos : c'.nr = c'.nr - 1 + 1 := by
    unfold numRounds at hnr
    omega
  have hround : ∀ i ≤ c'.nr - 1 + 1, keyState C c'.rk i = roundKey C.nb key i := by
    intro i hi
    exact keyState_eq hstored (by omega) (Nat.mul_le_mul_right _ (by omega))
  refine ⟨c', hset, hnr, hstored, ?_, ?_⟩
  · intro b
    apply encrypt_eq hpos
    intro i hi
    rw [← hround i hi, hrkb]
    exact keyAt_copyKeys c'.rk c.rkb (by omega) (by omega)
  · intro b
    rw [decrypt_eq hpos, Network.decrypt_congr hround]

/-- For every size of block and key, the schedule stays within its arrays and fills the words of the round
keys, and decryption inverts encryption. -/
theorem decrypt_inverts (C : Class) (c : Rijndael) {key : List UInt8} (hkey : key.length ∈ keyLengths) :
    ∃ c', setKeyInternal C c key = some c' ∧ c'.nr = numRounds C.nb (key.length / 4) ∧
      Stored C (expanded key) ((c'.nr + 1) * C.nb) c'.rk ∧
      ∀ b, b.length = 4 * C.nb → decrypt C c' (encrypt C c' b) = b := by
  obtain ⟨c', hset, hnr, hstored, henc, hdec⟩ := setKeyInternal_crypt C c hkey
  refine ⟨c', hset, hnr, hstored, ?_⟩
  intro b hb
  rw [hdec, henc, columnsOf_bytesOf, Network.decrypt_encrypt, bytesOf_columnsOf hb]

/-- A context before its first key. -/
def blank : Rijndael := ⟨0, 0, Vector.replicate 15 (Vector.replicate 4 0), Vector.replicate 480 0⟩

theorem decrypt_inverts_zeros : ∃ c', setKeyInternal .rijndael224 blank (List.replicate 20 0) = some c' ∧
    decrypt .rijndael224 c' (encrypt .rijndael224 c' (List.replicate 28 1)) = List.replicate 28 1 := by
  obtain ⟨c', hset, -, -, hdec⟩ := decrypt_inverts .rijndael224 blank
    (show (List.replicate 20 (0 : UInt8)).length ∈ keyLengths by
      rw [List.length_replicate]
      decide)
  exact ⟨c', hset, hdec _ List.length_replicate⟩

end Drew.Rijndael
