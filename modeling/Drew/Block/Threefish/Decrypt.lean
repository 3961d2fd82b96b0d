import Mathlib.Tactic
import Drew.Hash.Skein.Threefish

/-!
# Decryption with Threefish-512

`Decrypt` of words inverts a cipher, but another one than `Encrypt`: it has the rotations the other
way round, the rows of the table in another order, the permutation before the mixing, and no key
after the last round. `Decrypt` of bytes calls `Encrypt`.
-/

namespace Drew.Threefish

open Drew.Memory Drew.Skein

/-! ## Functions -/

/-- A row of `rc`. -/
abbrev Row := UInt64 × UInt64 × UInt64 × UInt64

/-- Rotation constants. -/
def rc : Vector Row 8 :=
  #v[(46, 36, 19, 37), (33, 27, 14, 42), (17, 49, 36, 39), (44, 9, 54, 56),
    (39, 30, 34, 24), (13, 50, 10, 17), (25, 29, 39, 43), (8, 35, 56, 22)]

def unmix (x : Vector UInt64 8) (a b : Fin 8) (rotk : UInt64) : Vector UInt64 8 :=
  let y1 := rotateLeft (x.get b ^^^ x.get a) rotk
  put (put x b y1) a (x.get a - y1)

/-- The loop over the pairs of words. -/
def unmixFour (x : Vector UInt64 8) (p : List (Fin 8 × Fin 8 × UInt64)) : Vector UInt64 8 :=
  p.foldl (fun x e => unmix x e.1 e.2.1 e.2.2) x

/-- Adjacent words, with their rotations in a row of the table. -/
def pairs (row : Row) : List (Fin 8 × Fin 8 × UInt64) :=
  [(0, 1, row.1), (2, 3, row.2.1), (4, 5, row.2.2.1), (6, 7, row.2.2.2)]

def unpermute (x : Vector UInt64 8) : Vector UInt64 8 :=
  #v[x.get 6, x.get 1, x.get 0, x.get 7, x.get 2, x.get 5, x.get 4, x.get 3]

/-- `x[j] -= m_k[i][j]`. -/
def subKey (x k : Vector UInt64 8) : Vector UInt64 8 := Vector.zipWith (· - ·) x k

/-- The body of the loop over `r`. -/
def unround (d : Nat) (x : Vector UInt64 8) (r : Nat) : Vector UInt64 8 :=
  let y := unpermute (unmixFour x (pairs (rc.get (Fin.ofNat 8 (d + r + 1)))))
  unpermute (unmixFour y (pairs (rc.get (Fin.ofNat 8 (d + r)))))

/-- `Decrypt` of words. -/
def decrypt (c : Threefish) (x : Vector UInt64 8) : Vector UInt64 8 :=
  ((List.finRange 18).reverse.foldl (fun (s : Vector UInt64 8 × Nat) (i : Fin 18) =>
    (subKey ([1, 0].foldl (unround s.2) s.1) (c.k.get i.castSucc), s.2 ^^^ 4)) (x, 4)).1

/-- `SetKey` of bytes. -/
def setKeyBytes (c : Threefish) (key : List UInt8) : Threefish := c.setKey (loadWords key)

/-- `Encrypt` of bytes. -/
def encryptBytes (c : Threefish) (block : List UInt8) : List UInt8 :=
  wordBytes (c.encrypt (loadWords block))

/-- `Decrypt` of bytes. It calls `Encrypt` of words. -/
def decryptBytes (c : Threefish) (block : List UInt8) : List UInt8 :=
  wordBytes (c.encrypt (loadWords block))

/-! ## The cipher that `Decrypt` inverts -/

/-- The words in the order before `unpermute`. -/
def permute (x : Vector UInt64 8) : Vector UInt64 8 :=
  #v[x.get 2, x.get 1, x.get 4, x.get 7, x.get 6, x.get 5, x.get 0, x.get 3]

/-- The pairs of a row, last pair first, with rotations the other way round. -/
def flipped (row : Row) : List (Fin 8 × Fin 8 × UInt64) :=
  (pairs row).reverse.map fun e => (e.1, e.2.1, 64 - e.2.2)

def reround (d : Nat) (x : Vector UInt64 8) (r : Nat) : Vector UInt64 8 :=
  let y := mixFour (permute x) (flipped (rc.get (Fin.ofNat 8 (d + r))))
  mixFour (permute y) (flipped (rc.get (Fin.ofNat 8 (d + r + 1))))

/-- `d` of `Decrypt` at a round key. -/
def offset (i : Fin 18) : Nat := if i.val % 2 = 1 then 4 else 0

/-- Threefish with 72 rounds as `Decrypt` undoes them. -/
def mirror (c : Threefish) (x : Vector UInt64 8) : Vector UInt64 8 :=
  (List.finRange 18).foldl (fun x i =>
    [0, 1].foldl (reround (offset i)) (addKey x (c.k.get i.castSucc))) x

/-! ## Rotations -/

theorem toNat_word_sub {r : UInt64} (h : r.toNat < 64) : (64 - r).toNat = 64 - r.toNat := by
  rw [UInt64.toNat_sub_of_le _ _ (UInt64.le_iff_toNat_le.mpr h.le)]
  rfl

theorem rotateLeft_toBitVec (y : UInt64) {r : UInt64} (h0 : 0 < r.toNat) (h : r.toNat < 64) :
    (rotateLeft y r).toBitVec = y.toBitVec.rotateLeft r.toNat := by
  have hr : (r.toBitVec % 64).toNat = r.toNat := Nat.mod_eq_of_lt h
  have hs : ((64 - r).toBitVec % 64).toNat = 64 - r.toNat := by
    rw [BitVec.toNat_umod, UInt64.toNat_toBitVec, toNat_word_sub h]
    exact Nat.mod_eq_of_lt (show 64 - r.toNat < 64 by omega)
  rw [rotateLeft, UInt64.toBitVec_or, UInt64.toBitVec_shiftLeft, UInt64.toBitVec_shiftRight,
    BitVec.shiftLeft_eq', BitVec.ushiftRight_eq', hr, hs, BitVec.rotateLeft_def, Nat.mod_eq_of_lt h]

/-- Two rotations that make a whole turn. -/
theorem rotateLeft_back (y : UInt64) {r s : UInt64} (h0 : 0 < r.toNat) (hs : 0 < s.toNat)
    (h : r.toNat + s.toNat = 64) : rotateLeft (rotateLeft y s) r = y := by
  apply UInt64.eq_of_toBitVec_eq
  rw [rotateLeft_toBitVec _ h0 (by omega), rotateLeft_toBitVec _ hs (by omega)]
  apply BitVec.eq_of_getLsbD_eq
  intro i hi
  have hr' : r.toNat % 64 = r.toNat := Nat.mod_eq_of_lt (by omega)
  have hs' : s.toNat % 64 = s.toNat := Nat.mod_eq_of_lt (by omega)
  simp only [BitVec.getLsbD_rotateLeft, hr', hs', hi, decide_true, Bool.true_and]
  by_cases hir : i < r.toNat
  · have h1 : ¬64 - r.toNat + i < s.toNat := by omega
    have h2 : 64 - r.toNat + i < 64 := by omega
    have h3 : 64 - r.toNat + i - s.toNat = i := by omega
    simp only [hir, h1, h2, h3, decide_true, decide_false, cond_true, cond_false, Bool.true_and]
  · have h1 : i - r.toNat < s.toNat := by omega
    have h3 : 64 - s.toNat + (i - r.toNat) = i := by omega
    simp only [hir, h1, h3, decide_true, decide_false, cond_true, cond_false]

/-! ## Pairs of words -/

theorem eq_of_get {x y : Vector UInt64 8} (h : ∀ j : Fin 8, x.get j = y.get j) : x = y :=
  Vector.ext fun i hi => h ⟨i, hi⟩

section Pair

variable (x : Vector UInt64 8) {a b : Fin 8} {r : UInt64}

theorem put_same (s t : UInt64) : put (put (put (put x a s) b t) b (x.get b)) a (x.get a) = x := by
  apply eq_of_get
  intro j
  rw [get_put, get_put, get_put, get_put]
  split_ifs with hja hjb
  · rw [hja]
  · rw [hjb]
  · rfl

theorem unmix_mix (hab : a.val ≠ b.val) (h0 : 0 < r.toNat) (h : r.toNat < 64) :
    unmix (mix x a b (64 - r)) a b r = x := by
  have hr := toNat_word_sub h
  have hne : a ≠ b := fun heq => hab (congrArg Fin.val heq)
  have hback : rotateLeft (rotateLeft (x.get b) (64 - r)) r = x.get b :=
    rotateLeft_back _ h0 (by omega) (by omega)
  have ha : (mix x a b (64 - r)).get a = x.get a + x.get b := by
    rw [mix_eq, get_put, if_neg hne, get_put, if_pos rfl]
  have hb : (mix x a b (64 - r)).get b = rotateLeft (x.get b) (64 - r) ^^^ (x.get a + x.get b) := by
    rw [mix_eq, get_put, if_pos rfl]
  rw [unmix, ha, hb, UInt64.xor_assoc, UInt64.xor_self, UInt64.xor_zero, hback,
    UInt64.add_sub_cancel, mix_eq]
  exact put_same x _ _

theorem mix_unmix (hab : a.val ≠ b.val) (h0 : 0 < r.toNat) (h : r.toNat < 64) :
    mix (unmix x a b r) a b (64 - r) = x := by
  have hr := toNat_word_sub h
  have hne : b ≠ a := fun heq => hab (congrArg Fin.val heq.symm)
  have hback : rotateLeft (rotateLeft (x.get b ^^^ x.get a) r) (64 - r) = x.get b ^^^ x.get a :=
    rotateLeft_back _ (by omega) h0 (by omega)
  have ha : (unmix x a b r).get a = x.get a - rotateLeft (x.get b ^^^ x.get a) r := by
    rw [unmix, get_put, if_pos rfl]
  have hb : (unmix x a b r).get b = rotateLeft (x.get b ^^^ x.get a) r := by
    rw [unmix, get_put, if_neg hne, get_put, if_pos rfl]
  rw [mix_eq, ha, hb, UInt64.sub_add_cancel, hback, UInt64.xor_assoc, UInt64.xor_self,
    UInt64.xor_zero, unmix]
  apply eq_of_get
  intro j
  rw [get_put, get_put, get_put, get_put]
  split_ifs with hjb hja
  · rw [hjb]
  · rw [hja]
  · rfl

end Pair

/-! ## Loops -/

/-- A loop is undone by the loop over the same list from its end. -/
theorem foldl_undo {α β : Type} {f g : β → α → β} {l : List α} (h : ∀ x, ∀ a ∈ l, g (f x a) a = x)
    (x : β) : l.reverse.foldl g (l.foldl f x) = x := by
  induction l generalizing x with
  | nil => rfl
  | cons a l ih =>
      have htail := ih fun x b hb => h x b (List.mem_cons_of_mem a hb)
      rw [List.reverse_cons, List.foldl_append]
      exact (congrArg (fun y => g y a) (htail (f x a))).trans (h x a List.mem_cons_self)

/-! ## `Decrypt` inverts the other cipher -/

theorem unpermute_permute (x : Vector UInt64 8) : unpermute (permute x) = x := by
  apply eq_of_get
  intro j
  fin_cases j <;> rfl

theorem permute_unpermute (x : Vector UInt64 8) : permute (unpermute x) = x := by
  apply eq_of_get
  intro j
  fin_cases j <;> rfl

theorem subKey_addKey (x k : Vector UInt64 8) : subKey (addKey x k) k = x := by
  ext i hi
  simp [subKey, addKey]

theorem addKey_subKey (x k : Vector UInt64 8) : addKey (subKey x k) k = x := by
  ext i hi
  simp [subKey, addKey]

/-- A rotation that moves something. -/
def Proper (r : UInt64) : Prop := 0 < r.toNat ∧ r.toNat < 64

instance (r : UInt64) : Decidable (Proper r) := inferInstanceAs (Decidable (_ ∧ _))

theorem rc_proper (j : Fin 8) : Proper (rc.get j).1 ∧ Proper (rc.get j).2.1 ∧ Proper (rc.get j).2.2.1 ∧
    Proper (rc.get j).2.2.2 := by
  fin_cases j <;> decide

/-- The words of a pair differ, and no rotation of the table is trivial. -/
theorem pairs_rc (j : Fin 8) (e : Fin 8 × Fin 8 × UInt64) (he : e ∈ pairs (rc.get j)) :
    e.1.val ≠ e.2.1.val ∧ 0 < e.2.2.toNat ∧ e.2.2.toNat < 64 := by
  obtain ⟨h0, h1, h2, h3⟩ := rc_proper j
  rw [pairs, List.mem_cons, List.mem_cons, List.mem_cons, List.mem_singleton] at he
  rcases he with rfl | rfl | rfl | rfl
  · exact ⟨Nat.zero_ne_one, h0⟩
  · exact ⟨Nat.ne_of_lt (Nat.lt_succ_self 2), h1⟩
  · exact ⟨Nat.ne_of_lt (Nat.lt_succ_self 4), h2⟩
  · exact ⟨Nat.ne_of_lt (Nat.lt_succ_self 6), h3⟩

theorem mixFour_flipped (x : Vector UInt64 8) (row : Row) :
    mixFour x (flipped row) =
      (pairs row).reverse.foldl (fun x e => mix x e.1 e.2.1 (64 - e.2.2)) x := by
  rw [mixFour, flipped, List.foldl_map]

theorem unmixFour_mixFour (x : Vector UInt64 8) (j : Fin 8) :
    unmixFour (mixFour x (flipped (rc.get j))) (pairs (rc.get j)) = x := by
  have hundo := @foldl_undo _ _ (fun x e => mix x e.1 e.2.1 (64 - e.2.2))
    (fun x e => unmix x e.1 e.2.1 e.2.2) (pairs (rc.get j)).reverse (by
      intro x e he
      rcases pairs_rc j e (List.mem_reverse.mp he) with ⟨hne, h0, h⟩
      exact unmix_mix x hne h0 h) x
  rw [List.reverse_reverse] at hundo
  rw [mixFour_flipped]
  exact hundo

theorem mixFour_unmixFour (x : Vector UInt64 8) (j : Fin 8) :
    mixFour (unmixFour x (pairs (rc.get j))) (flipped (rc.get j)) = x := by
  rw [mixFour_flipped]
  apply foldl_undo
  intro x e he
  rcases pairs_rc j e he with ⟨hne, h0, h⟩
  exact mix_unmix x hne h0 h

theorem unround_reround (d : Nat) (x : Vector UInt64 8) (r : Nat) :
    unround d (reround d x r) r = x := by
  simp only [unround, reround, unmixFour_mixFour, unpermute_permute]

theorem reround_unround (d : Nat) (x : Vector UInt64 8) (r : Nat) :
    reround d (unround d x r) r = x := by
  simp only [unround, reround, permute_unpermute, mixFour_unmixFour]

/-- A loop that carries `d` beside its state. -/
theorem foldl_offset (f : Nat → Vector UInt64 8 → Fin 18 → Vector UInt64 8) {l : List (Fin 18)} {d : Nat}
    (hd : l.map offset = List.iterate (· ^^^ 4) d l.length) (x : Vector UInt64 8) :
    (l.foldl (fun (s : Vector UInt64 8 × Nat) i => (f s.2 s.1 i, s.2 ^^^ 4)) (x, d)).1 =
      l.foldl (fun x i => f (offset i) x i) x := by
  induction l generalizing d x with
  | nil => rfl
  | cons i l ih =>
      rw [List.map_cons, List.length_cons, List.iterate, List.cons.injEq] at hd
      rw [List.foldl_cons, List.foldl_cons, ih hd.2, hd.1]

/-- The loop of `Decrypt` with `d` as a function of the round key. -/
theorem decrypt_eq_foldl (c : Threefish) (x : Vector UInt64 8) :
    decrypt c x = (List.finRange 18).reverse.foldl (fun x i =>
      subKey ([1, 0].foldl (unround (offset i)) x) (c.k.get i.castSucc)) x := by
  have hd : (List.finRange 18).reverse.map offset =
      List.iterate (· ^^^ 4) 4 (List.finRange 18).reverse.length := by
    decide
  exact foldl_offset
    (fun d x i => subKey ([1, 0].foldl (unround d) x) (c.k.get i.castSucc)) hd x

theorem decrypt_mirror (c : Threefish) (x : Vector UInt64 8) : decrypt c (mirror c x) = x := by
  rw [decrypt_eq_foldl, mirror]
  apply foldl_undo
  intro x i _
  have hrounds := foldl_undo (l := [0, 1]) (fun x r _ => unround_reround (offset i) x r)
    (addKey x (c.k.get i.castSucc))
  change subKey ([0, 1].reverse.foldl (unround (offset i)) _) _ = x
  rw [hrounds, subKey_addKey]

theorem mirror_decrypt (c : Threefish) (x : Vector UInt64 8) : mirror c (decrypt c x) = x := by
  have hundo := @foldl_undo _ _
    (fun x i => subKey ([1, 0].foldl (unround (offset i)) x) (c.k.get i.castSucc))
    (fun x i => [0, 1].foldl (reround (offset i)) (addKey x (c.k.get i.castSucc)))
    (List.finRange 18).reverse (by
      intro x i _
      have hrounds := foldl_undo (l := [1, 0]) (fun x r _ => reround_unround (offset i) x r) x
      rw [addKey_subKey]
      exact hrounds) x
  rw [List.reverse_reverse] at hundo
  rw [decrypt_eq_foldl, mirror]
  exact hundo

/-! ## Bytes -/

theorem take_drop_flatMap {α : Type} {f : α → List UInt8} {n : Nat} (hf : ∀ a, (f a).length = n) :
    ∀ (l : List α) (i : Nat) (hi : i < l.length), ((l.flatMap f).drop (n * i)).take n = f (l.get ⟨i, hi⟩) := by
  intro l
  induction l with
  | nil => exact fun i hi => absurd hi (Nat.not_lt_zero i)
  | cons a l ih =>
      intro i hi
      rw [List.flatMap_cons]
      cases i with
      | zero =>
          rw [Nat.mul_zero, List.drop_zero, ← hf a, List.take_left']
          · rfl
          · rfl
      | succ i =>
          rw [Nat.mul_succ, Nat.add_comm, ← List.drop_drop, List.drop_left' (hf a)]
          exact ih i (Nat.lt_of_succ_lt_succ hi)

theorem length_wordByte (w : UInt64) : (beBytes 8 w.toNat).reverse.length = 8 := by
  rw [List.length_reverse, length_beBytes]

theorem loadWords_wordBytes (v : Vector UInt64 8) : loadWords (wordBytes v) = v := by
  apply Vector.ext
  intro i hi
  have hi' : i < v.toList.length := by simpa using hi
  have hmod : v[i].toNat % 256 ^ 8 = v[i].toNat := Nat.mod_eq_of_lt v[i].toNat_lt
  have hword : UInt64.ofNat (beNat (beBytes 8 v[i].toNat)) = v[i] := by
    rw [beNat_beBytes, hmod, UInt64.ofNat_toNat]
  rw [loadWords, Vector.getElem_ofFn, wordBytes, take_drop_flatMap length_wordByte _ _ hi',
    List.reverse_reverse]
  simpa using hword

theorem flatMap_chunks (n : Nat) (bs : List UInt8) :
    ∀ k, (List.range k).flatMap (fun i => (bs.drop (n * i)).take n) = bs.take (n * k) := by
  intro k
  induction k with
  | zero => simp
  | succ k ih =>
      rw [List.range_succ, List.flatMap_append, ih, List.flatMap_singleton, Nat.mul_succ, List.take_add]

theorem wordBytes_loadWords {bs : List UInt8} (hlen : bs.length = 64) :
    wordBytes (loadWords bs) = bs := by
  have hchunk : ∀ i ∈ List.range 8, (beBytes 8 (UInt64.ofNat
      (beNat ((bs.drop (8 * i)).take 8).reverse)).toNat).reverse = (bs.drop (8 * i)).take 8 := by
    intro i hi
    have hi : i < 8 := List.mem_range.mp hi
    let c := ((bs.drop (8 * i)).take 8).reverse
    have hc : c.length = 8 := by simp [c]; omega
    have hlt : beNat c < 2 ^ 64 := lt_of_lt_of_eq (beNat_lt c) (by rw [hc]; rfl)
    have hback : beBytes 8 (beNat c) = c := by
      have h := beBytes_beNat c
      rwa [hc] at h
    rw [UInt64.toNat_ofNat_of_lt' hlt, hback, List.reverse_reverse]
  have hlist : (loadWords bs).toList = (List.range 8).map fun i =>
      UInt64.ofNat (beNat ((bs.drop (8 * i)).take 8).reverse) := rfl
  rw [wordBytes, hlist, List.flatMap_map, List.flatMap_congr hchunk, flatMap_chunks]
  exact List.take_of_length_le (le_of_eq hlen)

/-! ## When decryption inverts encryption -/

/-- The byte interface, in words. -/
theorem decryptBytes_encryptBytes_iff (c : Threefish) {bs : List UInt8} (hlen : bs.length = 64) :
    decryptBytes c (encryptBytes c bs) = bs ↔
      c.encrypt (c.encrypt (loadWords bs)) = loadWords bs := by
  rw [decryptBytes, encryptBytes, loadWords_wordBytes]
  constructor
  · intro h
    rw [← loadWords_wordBytes (c.encrypt (c.encrypt (loadWords bs))), h]
  · intro h
    rw [h, wordBytes_loadWords hlen]

end Drew.Threefish
