import Drew.Block.Safer.Model

/-!
# The key schedule of SAFER

The subkey `k[i]` takes its biases from the table at the indices up to `9 * (i + 1) + 8`. These are
below 256 for the first 27 subkeys, that is for 13 rounds, while up to 16 rounds are accepted.
-/

namespace Drew.Safer

open Drew.Block

theorem full_s : s.Full := by decide

theorem bias_eq_none {i : Nat} (h : 256 ≤ i) : bias i = none := by
  rw [bias, Table.get?_eq full_s, if_neg (by omega)]
  rfl

theorem exists_bias {i : Nat} (h : i < 256) : ∃ b, bias i = some b :=
  ⟨_, by rw [bias, Table.get?_eq full_s, if_pos h, Option.map_some]⟩

/-! ## One subkey -/

section MapM

variable {α β : Type} {f : α → Option β} {l : List α}

theorem exists_mapM (h : ∀ a ∈ l, ∃ b, f a = some b) : ∃ bs, l.mapM f = some bs := by
  induction l with
  | nil => exact ⟨[], rfl⟩
  | cons a l ih =>
    obtain ⟨b, hb⟩ := h a List.mem_cons_self
    obtain ⟨bs, hbs⟩ := ih fun a ha => h a (List.mem_cons_of_mem _ ha)
    exact ⟨b :: bs, by rw [List.mapM_cons, hb, hbs]; rfl⟩

theorem mapM_eq_none {a : α} (ha : a ∈ l) (h : f a = none) : l.mapM f = none := by
  induction l with
  | nil => exact absurd ha List.not_mem_nil
  | cons b l ih =>
    rw [List.mapM_cons]
    rcases List.mem_cons.mp ha with rfl | ha
    · rw [h]
      rfl
    · rw [ih ha]
      cases f b with
      | none => rfl
      | some b => rfl

end MapM

theorem subkey_eq_none (f : Nat → UInt8) {n : Nat} (h : 27 < n) : subkey f n = none := by
  have hlast : bias (9 * n + 7 + 1) = none := bias_eq_none (by omega)
  rw [subkey, mapM_eq_none (List.mem_range.mpr (show 7 < 8 by decide)) hlast]
  rfl

theorem exists_subkey (f : Nat → UInt8) {n : Nat} (h : n ≤ 27) : ∃ o, subkey f n = some o := by
  obtain ⟨bs, hbs⟩ : ∃ bs, (List.range 8).mapM (fun j => bias (9 * n + j + 1)) = some bs :=
    exists_mapM fun j hj => exists_bias (by have hj := List.mem_range.mp hj; omega)
  exact ⟨_, by rw [subkey, hbs]; rfl⟩

/-! ## The loops -/

/-- All but some subkeys from an index on are as they were. -/
def SameBut (k k' : Vector Octet 33) (i n : Nat) : Prop :=
  ∀ m : Fin 33, m.val < i ∨ i + n ≤ m.val → k'.get m = k.get m

theorem get_setIfInBounds_ne (k : Vector Octet 33) {i : Nat} (o : Octet) {m : Fin 33} (h : m.val ≠ i) :
    (k.setIfInBounds i o).get m = k.get m :=
  Vector.getElem_setIfInBounds_ne _ (Ne.symm h)

theorem loop8_none (C : Class) {n : Nat} (r : List UInt8) (k : Vector Octet 33) {i : Nat} (hn : 0 < n)
    (h : 27 < i + n) : loop8 C n i r k = none := by
  induction n generalizing i r k with
  | zero => exact absurd hn (Nat.lt_irrefl 0)
  | succ n ih =>
    rw [loop8]
    by_cases hi : 27 < i + 1
    · rw [subkey_eq_none _ hi]
      rfl
    · obtain ⟨o, ho⟩ := exists_subkey (C.pick (turn r 3) i) (Nat.le_of_not_lt hi)
      rw [ho]
      exact ih _ _ (by omega) (by omega)

theorem loop8_some (C : Class) {n : Nat} (r : List UInt8) (k : Vector Octet 33) {i : Nat}
    (h : i + n ≤ 27) : ∃ k', loop8 C n i r k = some k' ∧ SameBut k k' i n := by
  induction n generalizing i r k with
  | zero => exact ⟨k, rfl, fun m _ => rfl⟩
  | succ n ih =>
    obtain ⟨o, ho⟩ := exists_subkey (C.pick (turn r 3) i) (show i + 1 ≤ 27 by omega)
    obtain ⟨k', hk', hsame⟩ := ih (turn r 3) (k.setIfInBounds i o) (i := i + 1) (by omega)
    refine ⟨k', by rw [loop8, ho]; exact hk', fun m hm => ?_⟩
    rw [hsame m (by omega), get_setIfInBounds_ne _ _ (by omega)]

theorem loop16_none (C : Class) {n : Nat} (r1 r2 : List UInt8) (k : Vector Octet 33) {i : Nat} (hn : 0 < n)
    (h : 27 < i + 2 * n) : loop16 C n i r1 r2 k = none := by
  induction n generalizing i r1 r2 k with
  | zero => exact absurd hn (Nat.lt_irrefl 0)
  | succ n ih =>
    rw [loop16]
    by_cases hi : 27 < i + 1
    · rw [subkey_eq_none _ hi]
      rfl
    · obtain ⟨o1, ho1⟩ := exists_subkey (C.pick (turn r1 6) i) (Nat.le_of_not_lt hi)
      rw [ho1]
      by_cases hi2 : 27 < i + 2
      · rw [subkey_eq_none _ hi2]
        rfl
      · obtain ⟨o2, ho2⟩ := exists_subkey (C.pick (turn r2 6) (i + 1)) (Nat.le_of_not_lt hi2)
        rw [ho2]
        exact ih _ _ _ (by omega) (by omega)

theorem loop16_some (C : Class) {n : Nat} (r1 r2 : List UInt8) (k : Vector Octet 33) {i : Nat}
    (h : i + 2 * n ≤ 27) : ∃ k', loop16 C n i r1 r2 k = some k' ∧ SameBut k k' i (2 * n) := by
  induction n generalizing i r1 r2 k with
  | zero => exact ⟨k, rfl, fun m _ => rfl⟩
  | succ n ih =>
    obtain ⟨o1, ho1⟩ := exists_subkey (C.pick (turn r1 6) i) (show i + 1 ≤ 27 by omega)
    obtain ⟨o2, ho2⟩ := exists_subkey (C.pick (turn r2 6) (i + 1)) (show i + 2 ≤ 27 by omega)
    obtain ⟨k', hk', hsame⟩ := ih (turn r1 6) (turn r2 6)
      ((k.setIfInBounds i o1).setIfInBounds (i + 1) o2) (i := i + 2) (by omega)
    refine ⟨k', by rw [loop16, ho1, Option.bind_eq_bind, Option.bind_some, ho2]; exact hk', fun m hm => ?_⟩
    rw [hsame m (by omega), get_setIfInBounds_ne _ _ (by omega), get_setIfInBounds_ne _ _ (by omega)]

/-- Both loops: all reads are inside the table exactly up to 13 rounds. -/
theorem fillKeys_none (C : Class) {rounds : Nat} (key : List UInt8) (k : Vector Octet 33)
    (h : 13 < rounds) : fillKeys C rounds key k = none := by
  unfold fillKeys
  split
  · exact loop8_none C _ _ (by omega) (by omega)
  · exact loop16_none C _ _ _ (by omega) (by omega)

theorem fillKeys_some (C : Class) {rounds : Nat} (key : List UInt8) (k : Vector Octet 33)
    (h : rounds ≤ 13) : ∃ k', fillKeys C rounds key k = some k' ∧ SameBut k k' 0 (2 * rounds + 1) := by
  unfold fillKeys
  split
  · obtain ⟨k', hk', hsame⟩ := loop8_some C (n := 2 * rounds) (C.extend key)
      (k.setIfInBounds 0 (Octet.ofFn fun j => key.getD j 0)) (i := 1) (by omega)
    refine ⟨k', hk', fun m hm => ?_⟩
    rw [hsame m (by omega), get_setIfInBounds_ne _ _ (by omega)]
  · obtain ⟨k', hk', hsame⟩ := loop16_some C (n := rounds) ((C.extend (key.take 8)).map (rotateRight · 3))
      (C.extend (key.drop 8)) (k.setIfInBounds 0 (Octet.ofFn fun j => (key.drop 8).getD j 0)) (i := 1)
      (by omega)
    refine ⟨k', hk', fun m hm => ?_⟩
    rw [hsame m (by omega), get_setIfInBounds_ne _ _ (by omega)]

/-! ## A key -/

theorem onBlock_onBlock {g h : Octet → Octet} (hinv : ∀ x, h (g x) = x) {block : List UInt8}
    (hlen : block.length = 8) : onBlock h (onBlock g block) = block := by
  match block, hlen with
  | [a0, a1, a2, a3, a4, a5, a6, a7], _ =>
    have hoctet : Octet.ofFn (fun j => (onBlock g [a0, a1, a2, a3, a4, a5, a6, a7]).getD j 0) =
        g ⟨a0, a1, a2, a3, a4, a5, a6, a7⟩ := rfl
    rw [onBlock, hoctet, hinv]

/-- After a key, only the subkeys of its rounds have been written, and `Decrypt` gives every block
back. -/
def Safe (C : Class) (c : Safer) (key : List UInt8) : Prop :=
  ∃ c', setKeyInternal C c key = .done c' ∧ SameBut c.k c'.k 0 (2 * c'.rounds + 1) ∧
    ∀ b : List UInt8, b.length = 8 → (c'.encrypt b).length = 8 ∧ c'.decrypt (c'.encrypt b) = b

section Accepted

variable {C : Class} {c : Safer} {key : List UInt8}

theorem setKeyInternal_none (hkey : key.length = 8 ∨ key.length = 16)
    (hrounds : roundsFor c.rounds key.length ≤ maxRounds)
    (hfill : fillKeys C (roundsFor c.rounds key.length) key c.k = none) : setKeyInternal C c key = .undefined := by
  rw [setKeyInternal, if_pos hkey]
  simp only [if_neg (Nat.not_lt_of_le hrounds), hfill]

theorem setKeyInternal_some {k : Vector Octet 33} (hkey : key.length = 8 ∨ key.length = 16)
    (hrounds : roundsFor c.rounds key.length ≤ maxRounds)
    (hfill : fillKeys C (roundsFor c.rounds key.length) key c.k = some k) :
    setKeyInternal C c key = .done ⟨k, roundsFor c.rounds key.length⟩ := by
  rw [setKeyInternal, if_pos hkey]
  simp only [if_neg (Nat.not_lt_of_le hrounds), hfill]

end Accepted

/-- For the numbers of rounds that are accepted, this is so exactly up to 13 rounds. With more of them
the schedule reads the table outside of it. -/
theorem safe_iff (C : Class) (c : Safer) {key : List UInt8} (hkey : key.length = 8 ∨ key.length = 16)
    (hrounds : roundsFor c.rounds key.length ≤ maxRounds) :
    Safe C c key ↔ roundsFor c.rounds key.length ≤ 13 := by
  constructor
  · rintro ⟨c', hdone, -, -⟩
    by_contra h
    rw [setKeyInternal_none hkey hrounds (fillKeys_none C key c.k (Nat.lt_of_not_le h))] at hdone
    cases hdone
  · intro h
    obtain ⟨k', hk', hsame⟩ := fillKeys_some C key c.k h
    refine ⟨⟨k', roundsFor c.rounds key.length⟩, setKeyInternal_some hkey hrounds hk', hsame, fun b hb => ⟨rfl, ?_⟩⟩
    exact onBlock_onBlock (fun x => decryptOctet_encryptOctet x _) hb

theorem safe_iff_zero :
    Safe .k ⟨.replicate 33 ⟨0, 0, 0, 0, 0, 0, 0, 0⟩, 0⟩ (List.replicate 8 0) ↔ 6 ≤ 13 :=
  safe_iff .k ⟨.replicate 33 ⟨0, 0, 0, 0, 0, 0, 0, 0⟩, 0⟩
    (show (List.replicate 8 (0 : UInt8)).length = 8 ∨ _ from Or.inl List.length_replicate)
    (show roundsFor 0 (List.replicate 8 (0 : UInt8)).length ≤ maxRounds by decide)

/-- 14 rounds are accepted. -/
theorem not_safe_fourteen :
    ¬Safe .k ⟨.replicate 33 ⟨0, 0, 0, 0, 0, 0, 0, 0⟩, 14⟩ (List.replicate 8 0) := by
  rintro ⟨c', hdone, -, -⟩
  have hnone : fillKeys .k 14 (List.replicate 8 0) (.replicate 33 ⟨0, 0, 0, 0, 0, 0, 0, 0⟩) = none :=
    fillKeys_none .k _ _ (by decide)
  have hset : setKeyInternal .k ⟨.replicate 33 ⟨0, 0, 0, 0, 0, 0, 0, 0⟩, 14⟩ (List.replicate 8 0) =
      .undefined :=
    setKeyInternal_none (Or.inl List.length_replicate) (by decide) hnone
  rw [hset] at hdone
  cases hdone

end Drew.Safer
