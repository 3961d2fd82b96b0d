import Mathlib.Tactic
import Drew.Memory.Sizes

/-!
# Arrays with checked accesses

An object of `n` elements in memory is a vector. Every access goes through `load`,
`store`, `read` or `write`, which are undefined (`none`) outside the object, so that a
function that is shown to be defined touches its arrays in range only.

`Holds v off xs` says that the elements of `v` from `off` on are those of `xs`. The
lemmas below follow a loop over an array: reading the next element of what is held,
writing one element after what is held, and copying a whole list. The rules for counted
loops are at the end.
-/

namespace Drew.Memory

universe u

variable {α : Type u} {n : Nat}

/-- An object of `n` elements. -/
abbrev Buf (α : Type u) (n : Nat) := Vector α n

/-! ## Sizes -/

theorem pos_4 : 0 < 4 := by decide

theorem pos_8 : 0 < 8 := by decide

theorem pos_16 : 0 < 16 := by decide

theorem pos_32 : 0 < 32 := by decide

theorem pos_64 : 0 < 64 := by decide

theorem lt_word_64 : 64 < 2 ^ 64 := by decide

theorem lt_8 (a : Fin 8) : a.val < 8 := a.isLt

theorem lt_16 (a : Fin 16) : a.val < 16 := a.isLt

namespace Buf

/-- The object that a list of its length is. -/
def ofList (xs : List α) (h : xs.length = n) : Buf α n := ⟨xs.toArray, by simpa using h⟩

def load (v : Buf α n) (i : Nat) : Option α := v[i]?

def store (v : Buf α n) (i : Nat) (x : α) : Option (Buf α n) :=
  if h : i < n then some (v.set i x h) else none

/-- Read `len` elements from `off` on. -/
def read (v : Buf α n) (off len : Nat) : Option (List α) :=
  if off + len ≤ n then some ((v.toList.drop off).take len) else none

/-- Overwrite the elements from `off` on with a list. -/
def write (v : Buf α n) (off : Nat) (xs : List α) : Option (Buf α n) :=
  if h : off + xs.length ≤ n then
    some ⟨(v.toList.take off ++ xs ++ v.toList.drop (off + xs.length)).toArray, by
      simp
      omega⟩
  else none

/-- The elements from `off` on are those of `xs`. -/
def Holds (v : Buf α n) (off : Nat) (xs : List α) : Prop :=
  off + xs.length ≤ n ∧ ∀ i < xs.length, v[off + i]? = xs[i]?

/-! ## Reading -/

theorem Holds.load {v : Buf α n} {off i : Nat} {xs : List α} (h : Holds v off xs)
    (hi : i < xs.length) : v.load (off + i) = some xs[i] := by
  rw [Buf.load, h.2 i hi, List.getElem?_eq_getElem hi]

theorem Holds.load_head {v : Buf α n} {off : Nat} {x : α} {xs : List α}
    (h : Holds v off (x :: xs)) : v.load off = some x := by
  have h0 := h.load (i := 0) (Nat.succ_pos _)
  exact h0

theorem Holds.read {v : Buf α n} {off : Nat} {xs : List α} (h : Holds v off xs) :
    v.read off xs.length = some xs := by
  rw [Buf.read, if_pos h.1]
  congr 1
  apply List.ext_getElem?
  intro i
  by_cases hi : i < xs.length
  · rw [List.getElem?_take_of_lt hi, List.getElem?_drop, ← h.2 i hi]
    simp
  · rw [List.getElem?_eq_none (by simp; omega), List.getElem?_eq_none (by omega)]

theorem holds_of_read {v : Buf α n} {off len : Nat} {xs : List α}
    (h : v.read off len = some xs) : xs.length = len ∧ Holds v off xs := by
  unfold Buf.read at h
  split at h
  · rename_i hle
    cases h
    have hlen : ((v.toList.drop off).take len).length = len := by simp; omega
    refine ⟨hlen, by omega, ?_⟩
    intro i hi
    rw [List.getElem?_take_of_lt (by omega), List.getElem?_drop]
    simp
  · cases h

/-- What an object of enough elements holds can be read. -/
theorem exists_read (v : Buf α n) (off len : Nat) (h : off + len ≤ n) :
    ∃ xs, v.read off len = some xs ∧ xs.length = len ∧ Holds v off xs := by
  obtain ⟨xs, hxs⟩ : ∃ xs, v.read off len = some xs := ⟨_, by rw [Buf.read, if_pos h]⟩
  exact ⟨xs, hxs, holds_of_read hxs⟩

theorem Holds.unique {v : Buf α n} {off : Nat} {xs ys : List α} (hx : Holds v off xs)
    (hy : Holds v off ys) (hlen : xs.length = ys.length) : xs = ys := by
  have h := hx.read
  rw [hlen, hy.read] at h
  exact (Option.some.inj h).symm

/-- Objects that hold the same agree there. -/
theorem Holds.agree {v w : Buf α n} {off i : Nat} {xs : List α} (hv : Holds v off xs)
    (hw : Holds w off xs) (hoff : off ≤ i) (hi : i < off + xs.length) : v[i]? = w[i]? := by
  obtain ⟨j, rfl⟩ := Nat.exists_eq_add_of_le hoff
  rw [hv.2 j (by omega), hw.2 j (by omega)]

/-! ## Parts of what is held -/

theorem Holds.left {v : Buf α n} {off : Nat} {xs ys : List α} (h : Holds v off (xs ++ ys)) :
    Holds v off xs := by
  have hlen := h.1
  rw [List.length_append] at hlen
  refine ⟨by omega, fun i hi => ?_⟩
  rw [h.2 i (by rw [List.length_append]; omega), List.getElem?_append_left hi]

theorem Holds.right {v : Buf α n} {off : Nat} {xs ys : List α} (h : Holds v off (xs ++ ys)) :
    Holds v (off + xs.length) ys := by
  have hlen := h.1
  rw [List.length_append] at hlen
  refine ⟨by omega, fun i hi => ?_⟩
  rw [Nat.add_assoc, h.2 _ (by rw [List.length_append]; omega),
    List.getElem?_append_right (by omega), Nat.add_sub_cancel_left]

theorem Holds.append {v : Buf α n} {off : Nat} {xs ys : List α} (hx : Holds v off xs)
    (hy : Holds v (off + xs.length) ys) : Holds v off (xs ++ ys) := by
  have hlen := hy.1
  refine ⟨by rw [List.length_append]; omega, fun i hi => ?_⟩
  by_cases h : i < xs.length
  · rw [hx.2 i h, List.getElem?_append_left h]
  · obtain ⟨j, rfl⟩ : ∃ j, i = xs.length + j := ⟨i - xs.length, by omega⟩
    rw [List.length_append] at hi
    rw [← Nat.add_assoc, hy.2 j (by omega), List.getElem?_append_right (by omega),
      Nat.add_sub_cancel_left]

theorem Holds.tail {v : Buf α n} {off : Nat} {x : α} {xs : List α} (h : Holds v off (x :: xs)) :
    Holds v (off + 1) xs :=
  Holds.right (show Holds v off ([x] ++ xs) from h)

theorem holds_nil {v : Buf α n} {off : Nat} (h : off ≤ n) : Holds v off [] :=
  ⟨by simpa using h, by simp⟩

/-! ## Writing -/

theorem store_of_lt (v : Buf α n) {i : Nat} (x : α) (h : i < n) :
    v.store i x = some (v.set i x h) := by
  rw [Buf.store, dif_pos h]

theorem store_none (v : Buf α n) {i : Nat} (x : α) (h : n ≤ i) : v.store i x = none := by
  rw [Buf.store, dif_neg (by omega)]

theorem load_none (v : Buf α n) {i : Nat} (h : n ≤ i) : v.load i = none := by
  simp [Buf.load, h]

theorem holds_set_same (v : Buf α n) {i : Nat} (x : α) (h : i < n) :
    Holds (v.set i x h) i [x] := by
  refine ⟨by rw [List.length_singleton]; omega, fun j hj => ?_⟩
  have hj0 : j = 0 := by simpa using hj
  subst hj0
  simp [h]

/-- Writing outside what is held does not change it. -/
theorem Holds.set_of_disjoint {v : Buf α n} {off i : Nat} {xs : List α} (h : Holds v off xs)
    (x : α) (hi : i < n) (hd : i < off ∨ off + xs.length ≤ i) :
    Holds (v.set i x hi) off xs := by
  refine ⟨h.1, fun j hj => ?_⟩
  rw [← h.2 j hj, Vector.getElem?_set_ne]
  omega

/-- Writing right after what is held extends it. -/
theorem Holds.snoc {v : Buf α n} {off i : Nat} {xs : List α} (h : Holds v off xs) (x : α)
    (hi : i < n) (hoff : i = off + xs.length) : Holds (v.set i x hi) off (xs ++ [x]) := by
  subst hoff
  exact (h.set_of_disjoint x hi (Or.inr le_rfl)).append (holds_set_same v x hi)

theorem exists_write (v : Buf α n) {off : Nat} {xs : List α} (h : off + xs.length ≤ n) :
    ∃ w, v.write off xs = some w := ⟨_, by rw [Buf.write, dif_pos h]⟩

/-- The same for an offset and a list that are given. -/
theorem exists_write_at (v : Buf α n) (off : Nat) (xs : List α) (h : off + xs.length ≤ n) :
    ∃ w, v.write off xs = some w := exists_write v h

theorem getElem?_write {v w : Buf α n} {off : Nat} {xs : List α} (h : v.write off xs = some w)
    (i : Nat) :
    w[i]? = if i < off then v[i]? else if i < off + xs.length then xs[i - off]? else v[i]? := by
  unfold Buf.write at h
  split at h
  · rename_i hle
    cases h
    have htake : (v.toList.take off).length = off := by simp; omega
    simp only [Vector.getElem?_mk, List.getElem?_toArray, List.append_assoc]
    split
    · rename_i hi
      rw [List.getElem?_append_left (by omega), List.getElem?_take_of_lt hi]
      simp
    · rw [List.getElem?_append_right (by omega), htake]
      split
      · rw [List.getElem?_append_left (by omega)]
      · rw [List.getElem?_append_right (by omega), List.getElem?_drop,
          show off + xs.length + (i - off - xs.length) = i by omega]
        simp
  · cases h

theorem write_length_le {v w : Buf α n} {off : Nat} {xs : List α}
    (h : v.write off xs = some w) : off + xs.length ≤ n := by
  unfold Buf.write at h
  split at h
  · assumption
  · cases h

theorem holds_write {v w : Buf α n} {off : Nat} {xs : List α} (h : v.write off xs = some w) :
    Holds w off xs := by
  refine ⟨write_length_le h, fun i hi => ?_⟩
  rw [getElem?_write h, if_neg (by omega), if_pos (by omega), Nat.add_sub_cancel_left]

/-- Copying nothing. -/
theorem write_nil (v : Buf α n) {off : Nat} (h : off ≤ n) : v.write off [] = some v := by
  obtain ⟨w, hw⟩ := exists_write_at v off [] (by simpa using h)
  have hsame : w = v := by
    apply Vector.ext
    intro i hi
    have hget := getElem?_write hw i
    rw [List.length_nil, Nat.add_zero] at hget
    split at hget
    · simpa [hi] using hget
    · simpa [hi] using hget
  rw [hw, hsame]

/-- Copying outside what is held does not change it. -/
theorem Holds.write_of_disjoint {v w : Buf α n} {off off' : Nat} {xs ys : List α}
    (hx : Holds v off xs) (h : v.write off' ys = some w)
    (hd : off' + ys.length ≤ off ∨ off + xs.length ≤ off') : Holds w off xs := by
  refine ⟨hx.1, fun i hi => ?_⟩
  rw [getElem?_write h, ← hx.2 i hi]
  split
  · rfl
  · rw [if_neg (by omega)]

/-- Nothing was written outside the `len` elements from `off` on. -/
def SameOutside (v w : Buf α n) (off len : Nat) : Prop :=
  ∀ i, i < off ∨ off + len ≤ i → w[i]? = v[i]?

theorem SameOutside.refl (v : Buf α n) (off len : Nat) : SameOutside v v off len :=
  fun _ _ => rfl

theorem SameOutside.trans {u v w : Buf α n} {off len : Nat} (h₁ : SameOutside u v off len)
    (h₂ : SameOutside v w off len) : SameOutside u w off len :=
  fun i hi => (h₂ i hi).trans (h₁ i hi)

theorem SameOutside.mono {v w : Buf α n} {off len off' len' : Nat}
    (h : SameOutside v w off' len') (hoff : off ≤ off') (hlen : off' + len' ≤ off + len) :
    SameOutside v w off len :=
  fun i hi => h i (by omega)

theorem sameOutside_write {v w : Buf α n} {off : Nat} {xs : List α}
    (h : v.write off xs = some w) : SameOutside v w off xs.length := by
  intro i hi
  rw [getElem?_write h]
  split
  · rfl
  · rw [if_neg (by omega)]

theorem Holds.of_sameOutside {v w : Buf α n} {off off' len : Nat} {xs : List α}
    (h : Holds v off xs) (hs : SameOutside v w off' len)
    (hd : off' + len ≤ off ∨ off + xs.length ≤ off') : Holds w off xs :=
  ⟨h.1, fun i hi => by rw [hs _ (by omega), h.2 i hi]⟩

/-- An object that holds a list of its own length is that list. -/
theorem Holds.toList {v : Buf α n} {xs : List α} (h : Holds v 0 xs) (hlen : xs.length = n) :
    v.toList = xs := by
  have hr := h.read
  rw [hlen, Buf.read, if_pos (by omega), List.drop_zero, List.take_of_length_le (by simp)] at hr
  exact Option.some.inj hr

/-- What is held from the beginning on are the first elements. -/
theorem Holds.take_toList {v : Buf α n} {xs : List α} (h : Holds v 0 xs) :
    v.toList.take xs.length = xs := by
  have hr := h.read
  have hfit := h.1
  rw [Buf.read, if_pos (by omega), List.drop_zero] at hr
  exact Option.some.inj hr

theorem holds_toList (v : Buf α n) : Holds v 0 v.toList :=
  ⟨by simp, fun i _ => by simp⟩

/-! ## Two objects that agree up to a place -/

section Agree

variable {v w v' w' : Buf α n} {b : Nat}

theorem read_congr {off len : Nat} (h : ∀ i < b, v[i]? = w[i]?) (hle : off + len ≤ b) :
    v.read off len = w.read off len := by
  have hlist : (v.toList.drop off).take len = (w.toList.drop off).take len := by
    apply List.ext_getElem?
    intro i
    rw [List.getElem?_take, List.getElem?_take]
    split
    · rw [List.getElem?_drop, List.getElem?_drop, Vector.getElem?_toList, Vector.getElem?_toList,
        h _ (by omega)]
    · rfl
  rw [Buf.read, Buf.read, hlist]

theorem write_congr {off : Nat} {xs : List α} (h : ∀ i < b, v[i]? = w[i]?) (hv : v.write off xs = some v')
    (hw : w.write off xs = some w') : ∀ i < b, v'[i]? = w'[i]? := by
  intro i hi
  rw [getElem?_write hv, getElem?_write hw, h i hi]

theorem set_congr {k : Nat} (h : ∀ i < b, v[i]? = w[i]?) (hk : k < n) (x : α) :
    ∀ i < b, (v.set k x hk)[i]? = (w.set k x hk)[i]? := by
  intro i hi
  rw [Vector.getElem?_set, Vector.getElem?_set, h i hi]

end Agree

end Buf

/-! ## Counted loops -/

section Loops

variable {σ : Type u} {f : σ → Nat → Option σ} (P : Nat → σ → Prop)

/-- A loop from `a` on, of `k` rounds, is defined and establishes what its rounds
preserve. -/
theorem foldlM_range' (a k : Nat) (s : σ) (h0 : P a s)
    (hstep : ∀ i, a ≤ i → i < a + k → ∀ s, P i s → ∃ s', f s i = some s' ∧ P (i + 1) s') :
    ∃ s', (List.range' a k).foldlM f s = some s' ∧ P (a + k) s' := by
  induction k generalizing a s with
  | zero => exact ⟨s, rfl, h0⟩
  | succ k ih =>
    obtain ⟨s₁, hf, h1⟩ := hstep a le_rfl (by omega) s h0
    obtain ⟨s₂, hrun, h2⟩ := ih (a + 1) s₁ h1 fun i hi hik => hstep i (by omega) (by omega)
    refine ⟨s₂, ?_, by rwa [Nat.add_right_comm] at h2⟩
    rw [List.range'_succ, List.foldlM_cons, hf]
    exact hrun

theorem foldlM_range (k : Nat) (s : σ) (h0 : P 0 s)
    (hstep : ∀ i < k, ∀ s, P i s → ∃ s', f s i = some s' ∧ P (i + 1) s') :
    ∃ s', (List.range k).foldlM f s = some s' ∧ P k s' := by
  obtain ⟨s', hrun, h⟩ := foldlM_range' P 0 k s h0 fun i _ hi => hstep i (by omega)
  exact ⟨s', by rw [List.range_eq_range', hrun], by rwa [Nat.zero_add] at h⟩

end Loops

end Drew.Memory
