import Mathlib.Tactic

/-!
# Substitution-permutation networks

Rounds of a layer that scrambles the state, a layer that mixes it and is linear, and a round key. The
last round has no mixing. Decryption undoes the layers one after the other, or, as the mixing is linear,
uses the mixed keys in the same order of layers as encryption.
-/

namespace Drew.Block

/-- The layers of a network on states that can be added. -/
structure Network (α : Type) where
  add : α → α → α
  scramble : α → α
  unscramble : α → α
  mix : α → α
  unmix : α → α
  add_cancel : ∀ x y, add (add x y) y = x
  unscramble_scramble : ∀ x, unscramble (scramble x) = x
  unmix_mix : ∀ x, unmix (mix x) = x
  unmix_add : ∀ x y, unmix (add x y) = add (unmix x) (unmix y)

namespace Network

variable {α : Type} (N : Network α) (k d : Nat → α)

/-- The state after `i` rounds that are not the last one. -/
def stateAt (x : α) : Nat → α
  | 0 => N.add x (k 0)
  | i + 1 => N.add (N.mix (N.scramble (stateAt x i))) (k (i + 1))

/-- Encryption in `n + 1` rounds. -/
def encrypt (n : Nat) (x : α) : α := N.add (N.scramble (N.stateAt k x n)) (k (n + 1))

/-- The way back through `i` rounds that are not the last one. -/
def backFrom : Nat → α → α
  | 0, y => N.add y (k 0)
  | i + 1, y => backFrom i (N.unscramble (N.unmix (N.add y (k (i + 1)))))

/-- Decryption, with the layers undone in turn. -/
def decrypt (n : Nat) (y : α) : α := N.backFrom k n (N.unscramble (N.add y (k (n + 1))))

/-- The state of the equivalent decryption after `i` rounds that are not the last one. -/
def mixedAt (y : α) : Nat → α
  | 0 => N.add y (d 0)
  | i + 1 => N.add (N.unmix (N.unscramble (mixedAt y i))) (d (i + 1))

/-- The equivalent decryption in `n + 1` rounds. -/
def decryptMixed (n : Nat) (y : α) : α := N.add (N.unscramble (N.mixedAt d y n)) (d (n + 1))

/-- The keys of the equivalent decryption. -/
structure Mixed (n : Nat) : Prop where
  first : d 0 = k (n + 1)
  between : ∀ i < n, d (i + 1) = N.unmix (k (n - i))
  last : d (n + 1) = k 0

variable {N k d}

/-- Only the keys of the rounds matter. -/
theorem stateAt_congr {k' : Nat → α} {n : Nat} (h : ∀ i ≤ n, k i = k' i) (x : α) :
    N.stateAt k x n = N.stateAt k' x n := by
  induction n with
  | zero => rw [stateAt, stateAt, h 0 (Nat.le_refl 0)]
  | succ n ih => rw [stateAt, stateAt, ih fun i hi => h i (by omega), h (n + 1) (Nat.le_refl _)]

theorem backFrom_congr {k' : Nat → α} {n : Nat} (h : ∀ i ≤ n, k i = k' i) (y : α) :
    N.backFrom k n y = N.backFrom k' n y := by
  induction n generalizing y with
  | zero => rw [backFrom, backFrom, h 0 (Nat.le_refl 0)]
  | succ n ih => rw [backFrom, backFrom, h (n + 1) (Nat.le_refl _), ih fun i hi => h i (by omega)]

theorem encrypt_congr {k' : Nat → α} {n : Nat} (h : ∀ i ≤ n + 1, k i = k' i) (x : α) :
    N.encrypt k n x = N.encrypt k' n x := by
  rw [encrypt, encrypt, stateAt_congr fun i hi => h i (by omega), h (n + 1) (Nat.le_refl _)]

theorem decrypt_congr {k' : Nat → α} {n : Nat} (h : ∀ i ≤ n + 1, k i = k' i) (y : α) :
    N.decrypt k n y = N.decrypt k' n y := by
  rw [decrypt, decrypt, h (n + 1) (Nat.le_refl _), backFrom_congr fun i hi => h i (by omega)]

theorem backFrom_stateAt (x : α) (i : Nat) : N.backFrom k i (N.stateAt k x i) = x := by
  induction i with
  | zero => exact N.add_cancel x (k 0)
  | succ i ih => rw [stateAt, backFrom, N.add_cancel, N.unmix_mix, N.unscramble_scramble, ih]

/-- Decryption inverts encryption. -/
theorem decrypt_encrypt (n : Nat) (x : α) : N.decrypt k n (N.encrypt k n x) = x := by
  rw [decrypt, encrypt, N.add_cancel, N.unscramble_scramble, backFrom_stateAt]

/-- After `i` rounds of the equivalent decryption the rest of the way back is left. -/
theorem backFrom_mixedAt {n : Nat} (h : N.Mixed k d n) (y : α) {i : Nat} (hi : i ≤ n) :
    N.backFrom k (n - i) (N.unscramble (N.mixedAt d y i)) = N.decrypt k n y := by
  induction i with
  | zero => rw [mixedAt, h.first, decrypt, Nat.sub_zero]
  | succ i ih =>
    have hstep : n - i = n - (i + 1) + 1 := by omega
    rw [← ih (by omega), hstep, backFrom, ← hstep, mixedAt, h.between i (by omega), N.unmix_add]

/-- The two ways to decrypt. -/
theorem decryptMixed_eq {n : Nat} (h : N.Mixed k d n) (y : α) : N.decryptMixed d n y = N.decrypt k n y := by
  have hback := backFrom_mixedAt h y (Nat.le_refl n)
  rw [Nat.sub_self, backFrom] at hback
  rw [decryptMixed, h.last, hback]

/-- Rounds that begin with the key instead of ending with it. -/
theorem stateAt_eq_foldl (x : α) (n : Nat) :
    N.add ((List.range n).foldl (fun y i => N.mix (N.scramble (N.add y (k i)))) x) (k n) =
      N.stateAt k x n := by
  induction n with
  | zero => rfl
  | succ n ih => rw [List.range_succ, List.foldl_append, List.foldl_cons, List.foldl_nil, ih, stateAt]

/-- The way back as a loop over the rounds from the last one down to the first. -/
theorem backFrom_eq_foldl (n : Nat) (y : α) :
    N.backFrom k n y =
      N.add ((List.range n).foldl (fun y i => N.unscramble (N.unmix (N.add y (k (n - i))))) y) (k 0) := by
  induction n generalizing y with
  | zero => rfl
  | succ n ih =>
    rw [backFrom, ih, List.range_succ_eq_map, List.foldl_cons, List.foldl_map]
    simp only [Nat.sub_zero, Nat.succ_eq_add_one, Nat.add_sub_add_right]

end Network

end Drew.Block
