import Mathlib.Tactic
import Drew.Memory.Sizes

/-!
# Contexts that are keyed again

A context is set up with one key after another. What is asked for is that only the last one counts: the
context then does to every block what a fresh context with this key does. A step of the setup may read
what is in the context, so this is a statement about two runs.
-/

namespace Drew.Block

/-- A kind of contexts: which ones are fresh, the lengths of a key, and the functions. -/
structure Keying where
  Context : Type
  Block : Type
  Fresh : Context → Prop
  keysz : List Nat
  setkey : Context → List UInt8 → Option Context
  encrypt : Context → Block → Option Block
  decrypt : Context → Block → Option Block

namespace Keying

variable (K : Keying)

/-- Successful calls of `setkey`. -/
def run (c : K.Context) (keys : List (List UInt8)) : Option K.Context := keys.foldlM K.setkey c

/-- Contexts that do the same to every block. -/
def Alike (c d : K.Context) : Prop := ∀ b, K.encrypt c b = K.encrypt d b ∧ K.decrypt c b = K.decrypt d b

/-- After `keys`, the context with a last key is like a fresh one with this key. -/
def Forgets (keys : List (List UInt8)) (key : List UInt8) : Prop :=
  ∀ c d c₁ c₂, K.Fresh c → K.Fresh d → K.run c keys = some c₁ → K.setkey c₁ key = some c₂ →
    ∃ d', K.setkey d key = some d' ∧ K.Alike c₂ d'

variable {K}

theorem run_cons {c c' : K.Context} {key : List UInt8} {keys : List (List UInt8)}
    (h : K.run c (key :: keys) = some c') : ∃ c₁, K.setkey c key = some c₁ ∧ K.run c₁ keys = some c' := by
  rw [run, List.foldlM_cons] at h
  exact Option.bind_eq_some_iff.mp h

theorem run_of_setkey {c c₁ : K.Context} {key : List UInt8} (h : K.setkey c key = some c₁) (keys : List (List UInt8)) :
    K.run c (key :: keys) = K.run c₁ keys := by
  rw [run, List.foldlM_cons, h]
  rfl

/-- What every call keeps, a run keeps. -/
theorem run_invariant {P : K.Context → Prop} (hstep : ∀ c key c', P c → K.setkey c key = some c' → P c')
    {c c' : K.Context} {keys : List (List UInt8)} (h : K.run c keys = some c') (hc : P c) : P c' := by
  induction keys generalizing c with
  | nil =>
    cases h
    exact hc
  | cons key keys ih =>
    obtain ⟨c₁, hset, hrun⟩ := run_cons h
    exact ih hrun (hstep c key c₁ hc hset)

/-- A key that makes the same of all contexts. -/
theorem forgets_of_setkey {key : List UInt8} (h : ∀ c d c', K.setkey c key = some c' →
    ∃ d', K.setkey d key = some d' ∧ K.Alike c' d') (keys : List (List UInt8)) : K.Forgets keys key :=
  fun _ d c₁ c₂ _ _ _ hset => h c₁ d c₂ hset

end Keying

/-! ## Loops that overwrite -/

/-- A relation that the passes of a loop keep holds behind it, from whatever the loop starts, if one pass
establishes it. -/
theorem foldl_overwrites {σ ι : Type} {R : σ → σ → Prop} {g : σ → ι → σ}
    (hkeep : ∀ s t i, R s t → R (g s i) (g t i)) {l : List ι} {i : ι} (hi : i ∈ l)
    (hset : ∀ s t, R (g s i) (g t i)) (s t : σ) : R (l.foldl g s) (l.foldl g t) := by
  have hrest : ∀ (l : List ι) s t, R s t → R (l.foldl g s) (l.foldl g t) := by
    intro l
    induction l with
    | nil => exact fun s t h => h
    | cons j l ih => exact fun s t h => ih _ _ (hkeep s t j h)
  induction l generalizing s t with
  | nil => exact absurd hi List.not_mem_nil
  | cons j l ih =>
    rcases List.mem_cons.mp hi with rfl | hi
    · exact hrest l _ _ (hset s t)
    · exact ih hi _ _

section Stores

variable {α ι : Type} {n : Nat} (j : Fin n)

theorem get_store (v : Vector α n) (i : Nat) (x : α) :
    (v.setIfInBounds i x).get j = if j.val = i then x else v.get j := by
  by_cases h : j.val = i
  · subst h
    rw [if_pos rfl]
    exact Vector.getElem_setIfInBounds_self j.isLt
  · rw [if_neg h]
    exact Vector.getElem_setIfInBounds_ne j.isLt (Ne.symm h)

/-- A loop that stores two elements in a pass. What it stores does not depend on what was there. -/
theorem get_foldl_stores (place : ι → Nat) (x y : ι → α) {l : List ι} {i : ι} (hi : i ∈ l)
    (hj : j.val = place i ∨ j.val = place i + 1) (v w : Vector α n) :
    (l.foldl (fun v i => (v.setIfInBounds (place i) (x i)).setIfInBounds (place i + 1) (y i)) v).get j =
      (l.foldl (fun v i => (v.setIfInBounds (place i) (x i)).setIfInBounds (place i + 1) (y i)) w).get j := by
  apply foldl_overwrites (R := fun v w : Vector α n => v.get j = w.get j) _ hi
  · intro v w
    rw [get_store, get_store, get_store, get_store]
    rcases hj with h | h
    · rw [if_neg (show ¬j.val = place i + 1 by omega), if_neg (show ¬j.val = place i + 1 by omega), if_pos h,
        if_pos h]
    · rw [if_pos h, if_pos h]
  · intro v w q h
    rw [get_store, get_store, get_store, get_store, h]

end Stores

end Drew.Block

/-!
## Arrays that hold a sequence

A sequence whose elements are computed from earlier ones is kept in an array, either whole, which a loop
fills from the front, or only its last elements, in an array that each new element goes around.
-/

namespace Drew.Block

variable {α : Type} {n : Nat} [NeZero n]

/-- The element at an index. Behind the last one comes the first one again. -/
def wordAt (v : Vector α n) (i : Nat) : α := v.get (Fin.ofNat n i)

theorem wordAt_mod (v : Vector α n) (i : Nat) : wordAt v (i % n) = wordAt v i :=
  congrArg v.get (Fin.ext (Nat.mod_mod i n))

theorem wordAt_add_size (v : Vector α n) (i : Nat) : wordAt v (i + n) = wordAt v i :=
  congrArg v.get (Fin.ext (Nat.add_mod_right i n))

theorem wordAt_ofFn (f : Fin n → α) (i : Nat) : wordAt (Vector.ofFn f) i = f (Fin.ofNat n i) :=
  Vector.getElem_ofFn _

theorem wordAt_store (v : Vector α n) (x : α) {i j : Nat} (hj : j < n) :
    wordAt (v.setIfInBounds i x) j = if j = i then x else wordAt v j := by
  have hget := get_store (Fin.ofNat n j) v i x
  rwa [show (Fin.ofNat n j).val = j from Nat.mod_eq_of_lt hj] at hget

variable {w : Nat → α}

/-! ## FilledTo from the front -/

/-- The first `i` elements. -/
def FilledTo (w : Nat → α) (i : Nat) (v : Vector α n) : Prop := ∀ j < i, wordAt v j = w j

theorem FilledTo.store {v : Vector α n} {i : Nat} (h : FilledTo w i v) (hi : i < n) :
    FilledTo w (i + 1) (v.setIfInBounds i (w i)) := by
  intro j hj
  rw [wordAt_store v (w i) (by omega)]
  split_ifs with hji
  · rw [hji]
  · exact h j (by omega)

/-- A loop whose passes store the next element each. -/
theorem FilledTo.loop {a : Nat} {v : Vector α n} (h : FilledTo w a v) (pass : Vector α n → Nat → Vector α n) (k : Nat)
    (hpass : ∀ v i, a ≤ i → i < a + k → FilledTo w i v → FilledTo w (i + 1) (pass v i)) : FilledTo w (a + k) ((List.range' a k).foldl pass v) := by
  induction k with
  | zero => exact h
  | succ k ih =>
    rw [List.range'_concat, List.foldl_append, List.foldl_cons, List.foldl_nil, Nat.one_mul]
    apply hpass _ _ (Nat.le_add_right a k) (Nat.lt_succ_self (a + k))
    exact ih fun v i ha hi => hpass v i ha (Nat.lt_succ_of_lt hi)

/-! ## The last elements -/

/-- The `n` elements from the one at `i` on, each at its index modulo `n`. -/
def Window (w : Nat → α) (i : Nat) (v : Vector α n) : Prop := ∀ j < n, wordAt v (i + j) = w (i + j)

/-- The next element takes the place of the oldest one. -/
theorem Window.store {v : Vector α n} {i : Nat} (h : Window w i v) :
    Window w (i + 1) (v.setIfInBounds (i % n) (w (i + n))) := by
  have hpos : 0 < n := Nat.pos_of_neZero n
  intro j hj
  rw [← wordAt_mod, wordAt_store v _ (Nat.mod_lt _ hpos)]
  split_ifs with hplace
  · have hdvd : n ∣ j + 1 := by
      apply (Nat.modEq_zero_iff_dvd).mp
      apply Nat.ModEq.add_left_cancel' i
      rwa [Nat.ModEq, Nat.add_zero, Nat.add_comm j 1, ← Nat.add_assoc]
    have hlast : j + 1 = n := Nat.le_antisymm hj (Nat.le_of_dvd (Nat.succ_pos j) hdvd)
    rw [← hlast, Nat.add_comm j 1, Nat.add_assoc]
  · have hbefore : j + 1 < n := by
      rcases Nat.lt_or_ge (j + 1) n with hlt | hge
      · exact hlt
      · refine absurd ?_ hplace
        rw [show i + 1 + j = i + n by omega, Nat.add_mod_right]
    rw [wordAt_mod, show i + 1 + j = i + (j + 1) by omega]
    exact h (j + 1) hbefore

/-- The element that was stored last. -/
theorem Window.newest {v : Vector α n} {i : Nat} (h : Window w (i + 1) v) : wordAt v (i + n) = w (i + n) := by
  have hpos : 0 < n := Nat.pos_of_neZero n
  have hlast := h (n - 1) (Nat.sub_lt hpos Nat.one_pos)
  rwa [show i + 1 + (n - 1) = i + n by omega] at hlast

end Drew.Block
