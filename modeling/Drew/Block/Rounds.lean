import Mathlib.Tactic

/-!
# Rounds and how they are undone

A cipher that takes a block through a list of steps is inverted by the inverse steps in the
opposite order.
-/

namespace Drew.Block

variable {α ι : Type}

/-- The inverse steps, last step first. -/
theorem foldl_reverse_undo {f g : α → ι → α} (h : ∀ x i, g (f x i) i = x) (l : List ι) (x : α) :
    l.reverse.foldl g (l.foldl f x) = x := by
  induction l generalizing x with
  | nil => rfl
  | cons i l ih =>
    rw [List.foldl_cons, List.reverse_cons, List.foldl_append, ih, List.foldl_cons, List.foldl_nil, h]

/-- Steps through another view of the state. -/
theorem foldl_conj {β : Type} {f : α → ι → α} {g : β → ι → β} {p : α → β}
    (h : ∀ x i, p (f x i) = g (p x) i) (l : List ι) (x : α) : p (l.foldl f x) = l.foldl g (p x) := by
  induction l generalizing x with
  | nil => rfl
  | cons i l ih => rw [List.foldl_cons, ih, h, List.foldl_cons]

/-- A loop whose body has `m` steps. -/
theorem foldl_range_mul (f : α → Nat → α) (m k : Nat) (x : α) :
    (List.range (m * k)).foldl f x =
      (List.range k).foldl (fun x n => (List.range m).foldl (fun x j => f x (m * n + j)) x) x := by
  induction k with
  | zero => rfl
  | succ k ih =>
    rw [Nat.mul_succ, List.range_add, List.foldl_append, ih, List.range_succ, List.foldl_append, List.foldl_map]
    rfl

/-- A loop that goes down. -/
theorem foldl_reverse_range (f : α → Nat → α) (n : Nat) (x : α) :
    (List.range n).reverse.foldl f x = (List.range n).foldl (fun x i => f x (n - 1 - i)) x := by
  rw [List.range_eq_range', List.reverse_range', List.foldl_map, Nat.zero_add, List.range_eq_range']

section Counter

variable {f g : α → Nat → α} {d e : Nat}

/-- A loop that keeps the index of a key, which goes up. -/
def countUp (f : α → Nat → α) (d n : Nat) (st : α × Nat) : α × Nat :=
  (List.range n).foldl (fun st _ => (f st.1 st.2, st.2 + d)) st

/-- The same with an index that goes down. -/
def countDown (g : α → Nat → α) (d n : Nat) (st : α × Nat) : α × Nat :=
  (List.range n).foldl (fun st _ => (g st.1 st.2, st.2 - d)) st

theorem countUp_succ (n : Nat) (st : α × Nat) :
    countUp f d (n + 1) st = (f (countUp f d n st).1 (countUp f d n st).2, (countUp f d n st).2 + d) := by
  rw [countUp, List.range_succ, List.foldl_append]
  rfl

theorem countDown_succ (n : Nat) (st : α × Nat) :
    countDown g d (n + 1) st = countDown g d n (g st.1 st.2, st.2 - d) := by
  rw [countDown, List.range_succ_eq_map, List.foldl_cons, List.foldl_map]
  rfl

theorem countUp_index (n : Nat) (x : α) (a : Nat) : (countUp f d n (x, a)).2 = a + d * n := by
  induction n with
  | zero => rfl
  | succ n ih =>
    rw [countUp_succ, ih, Nat.mul_succ]
    omega

/-- Loops that agree at the indices they come to. -/
theorem countUp_congr {f' : α → Nat → α} {n a : Nat} {x : α} (h : ∀ x, ∀ j < n, f x (a + d * j) = f' x (a + d * j)) :
    countUp f d n (x, a) = countUp f' d n (x, a) := by
  induction n with
  | zero => rfl
  | succ n ih =>
    have hbefore := ih fun x j hj => h x j (Nat.lt_succ_of_lt hj)
    rw [countUp_succ, countUp_succ, ← hbefore, countUp_index, h _ n (Nat.lt_succ_self n)]

theorem countDown_congr {g' : α → Nat → α} {n a : Nat} {x : α} (h : ∀ x, ∀ j < n, g x (a - d * j) = g' x (a - d * j)) :
    countDown g d n (x, a) = countDown g' d n (x, a) := by
  induction n generalizing x a with
  | zero => rfl
  | succ n ih =>
    have hfirst := h x 0 (Nat.succ_pos n)
    rw [Nat.mul_zero, Nat.sub_zero] at hfirst
    rw [countDown_succ, countDown_succ, hfirst]
    apply ih
    intro y j hj
    have hlater := h y (j + 1) (Nat.succ_lt_succ hj)
    rwa [Nat.mul_succ, Nat.add_comm, ← Nat.sub_sub] at hlater

/-- Steps with an index are undone from the last one on. -/
theorem countDown_countUp (h : ∀ x n, g (f x n) (n + e) = x) (n a : Nat) (x : α) :
    (countDown g d n ((countUp f d n (x, a)).1, a + d * n - d + e)).1 = x := by
  induction n with
  | zero => rfl
  | succ n ih =>
    have hindex : a + d * (n + 1) - d + e = a + d * n + e := by
      rw [Nat.mul_succ]
      omega
    rw [countDown_succ, countUp_succ, countUp_index, hindex, h]
    cases n with
    | zero => rfl
    | succ n =>
      rw [show a + d * (n + 1) + e - d = a + d * (n + 1) - d + e by rw [Nat.mul_succ]; omega]
      exact ih

end Counter

/-- On finitely many blocks, what undoes a function is also undone by it. -/
theorem undo_both [Finite α] {f g : α → α} (h : ∀ x, g (f x) = x) (x : α) : f (g x) = x := by
  have hleft : Function.LeftInverse g f := h
  exact hleft.rightInverse_of_surjective (Finite.surjective_of_injective hleft.injective) x

instance finite_uint32 : Finite UInt32 :=
  Finite.of_injective UInt32.toFin fun _ _ h => UInt32.toFin_inj.mp h

/-! ## Words combined twice -/

theorem xor32_cancel_left (a b : UInt32) : a ^^^ (a ^^^ b) = b := by
  rw [← UInt32.xor_assoc, UInt32.xor_self, UInt32.zero_xor]

theorem xor32_cancel_right (a b : UInt32) : a ^^^ b ^^^ b = a := by
  rw [UInt32.xor_assoc, UInt32.xor_self, UInt32.xor_zero]

theorem xor64_cancel_right (a b : UInt64) : a ^^^ b ^^^ b = a := by
  rw [UInt64.xor_assoc, UInt64.xor_self, UInt64.xor_zero]

end Drew.Block
