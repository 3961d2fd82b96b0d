import Mathlib.Tactic
import Mathlib.Data.List.Basic

/-!
# Texts cut into blocks

A text is cut into blocks of `n` elements (`chunks`), which are fed one after the other to a
function on a state (`absorb`). The rules say which blocks a longer text adds.
-/

namespace Drew.Stream

universe u v

variable {α : Type u} {σ : Type v} {n k : Nat} {xs ys : List α}

/-- The first `k` blocks of `n` elements. -/
def chunks (n : Nat) : Nat → List α → List (List α)
  | 0, _ => []
  | k + 1, xs => xs.take n :: chunks n k (xs.drop n)

/-- Feed the first `k` blocks of `n` elements to a function. -/
def absorb (n : Nat) (f : σ → List α → σ) : Nat → σ → List α → σ
  | 0, s, _ => s
  | k + 1, s, xs => absorb n f k (f s (xs.take n)) (xs.drop n)

theorem absorb_eq_foldl (f : σ → List α → σ) (k : Nat) (s : σ) (xs : List α) :
    absorb n f k s xs = (chunks n k xs).foldl f s := by
  induction k generalizing s xs with
  | zero => rfl
  | succ k ih => rw [absorb, chunks, ih, List.foldl_cons]

@[simp] theorem chunks_zero (xs : List α) : chunks n 0 xs = [] := rfl

theorem chunks_one (h : xs.length ≤ n) : chunks n 1 xs = [xs] := by
  rw [chunks, chunks, List.take_of_length_le h]

/-- Only the elements of the blocks matter. -/
theorem chunks_append_left (h : k * n ≤ xs.length) (ys : List α) :
    chunks n k (xs ++ ys) = chunks n k xs := by
  induction k generalizing xs with
  | zero => rfl
  | succ k ih =>
    rw [Nat.add_mul, Nat.one_mul] at h
    rw [chunks, chunks, List.take_append_of_le_length (by omega),
      List.drop_append_of_le_length (by omega), ih (by rw [List.length_drop]; omega)]

theorem chunks_append (h : xs.length = k * n) (j : Nat) (ys : List α) :
    chunks n (k + j) (xs ++ ys) = chunks n k xs ++ chunks n j ys := by
  induction k generalizing xs with
  | zero =>
    have hnil : xs = [] := List.eq_nil_of_length_eq_zero (by omega)
    rw [hnil, List.nil_append, Nat.zero_add, chunks_zero, List.nil_append]
  | succ k ih =>
    rw [Nat.add_mul, Nat.one_mul] at h
    rw [show k + 1 + j = (k + j) + 1 by omega, chunks, chunks,
      List.take_append_of_le_length (by omega), List.drop_append_of_le_length (by omega),
      ih (by rw [List.length_drop]; omega), List.cons_append]

/-- The blocks from the `k`-th on are those of the rest of the text. -/
theorem chunks_add (h : k * n ≤ xs.length) (j : Nat) :
    chunks n (k + j) xs = chunks n k xs ++ chunks n j (xs.drop (k * n)) := by
  have htake : (xs.take (k * n)).length = k * n := by
    rw [List.length_take]
    omega
  have hsplit := chunks_append htake j (xs.drop (k * n))
  rwa [List.take_append_drop, ← chunks_append_left htake.ge (xs.drop (k * n)),
    List.take_append_drop] at hsplit

theorem flatten_chunks (h : k * n ≤ xs.length) : (chunks n k xs).flatten = xs.take (k * n) := by
  induction k generalizing xs with
  | zero => simp
  | succ k ih =>
    rw [Nat.add_mul, Nat.one_mul] at h
    rw [chunks, List.flatten_cons, ih (by rw [List.length_drop]; omega), ← List.take_add]
    congr 1
    rw [Nat.add_mul, Nat.one_mul, Nat.add_comm]

theorem length_of_mem_chunks {b : List α} (hk : k * n ≤ xs.length) (hb : b ∈ chunks n k xs) : b.length = n := by
  induction k generalizing xs with
  | zero => cases hb
  | succ k ih =>
    rw [Nat.succ_mul] at hk
    rcases List.mem_cons.mp hb with rfl | hb
    · rw [List.length_take]
      omega
    · exact ih (by rw [List.length_drop]; omega) hb

/-- Noting the elements of a list gives the list. -/
theorem foldl_snoc (bs cs : List α) : cs.foldl (fun s b => s ++ [b]) bs = bs ++ cs := by
  induction cs generalizing bs with
  | nil => rw [List.foldl_nil, List.append_nil]
  | cons c cs ih => rw [List.foldl_cons, ih, List.append_assoc, List.singleton_append]

end Drew.Stream

/-!
## Masking with an infinite keystream

A keystream is a function from positions to bytes. A text is combined with its beginning, and what
follows is combined with the rest, which is the keystream from a later position on.
-/

namespace Drew.Stream

variable {k k' : Nat → UInt8} {xs ys : List UInt8} {n : Nat}

/-- Combine a text with the first bytes of a keystream. -/
def maskWith (k : Nat → UInt8) (xs : List UInt8) : List UInt8 := xs.mapIdx fun i x => k i ^^^ x

/-- The keystream from a position on. -/
def advance (k : Nat → UInt8) (n : Nat) (i : Nat) : UInt8 := k (n + i)

@[simp] theorem maskWith_nil (k : Nat → UInt8) : maskWith k [] = [] := rfl

@[simp] theorem length_maskWith (k : Nat → UInt8) (xs : List UInt8) :
    (maskWith k xs).length = xs.length := List.length_mapIdx

@[simp] theorem advance_zero (k : Nat → UInt8) : advance k 0 = k := by
  funext i
  rw [advance, Nat.zero_add]

theorem advance_advance (k : Nat → UInt8) (m n : Nat) : advance (advance k m) n = advance k (m + n) := by
  funext i
  rw [advance, advance, advance, Nat.add_assoc]

theorem maskWith_append (k : Nat → UInt8) (xs ys : List UInt8) :
    maskWith k (xs ++ ys) = maskWith k xs ++ maskWith (advance k xs.length) ys := by
  rw [maskWith, List.mapIdx_append]
  congr 2
  funext i x
  rw [advance, Nat.add_comm]

theorem maskWith_congr (h : ∀ i < xs.length, k i = k' i) : maskWith k xs = maskWith k' xs := by
  apply List.ext_getElem?
  intro i
  rw [maskWith, maskWith, List.getElem?_mapIdx, List.getElem?_mapIdx]
  by_cases hi : i < xs.length
  · rw [h i hi]
  · rw [List.getElem?_eq_none (by omega)]
    rfl

/-- Masking again gives the text back. -/
theorem maskWith_maskWith (k : Nat → UInt8) (xs : List UInt8) : maskWith k (maskWith k xs) = xs := by
  apply List.ext_getElem?
  intro i
  rw [maskWith, maskWith, List.getElem?_mapIdx, List.getElem?_mapIdx]
  cases xs[i]? with
  | none => rfl
  | some x => rw [Option.map_some, Option.map_some, ← UInt8.xor_assoc, UInt8.xor_self, UInt8.zero_xor]

/-- A text that is cut in two. -/
theorem maskWith_split (k : Nat → UInt8) (hn : n ≤ xs.length) :
    maskWith k xs = maskWith k (xs.take n) ++ maskWith (advance k n) (xs.drop n) := by
  have hlen : (xs.take n).length = n := by
    rw [List.length_take]
    omega
  have h := maskWith_append k (xs.take n) (xs.drop n)
  rwa [List.take_append_drop, hlen] at h

/-- The bytes of the keystream as a list. -/
theorem zipWith_eq_maskWith {bs : List UInt8} (hk : ∀ i < xs.length, bs[i]? = some (k i)) :
    List.zipWith (· ^^^ ·) bs xs = maskWith k xs := by
  apply List.ext_getElem?
  intro i
  rw [maskWith, List.getElem?_mapIdx, List.getElem?_zipWith]
  by_cases hi : i < xs.length
  · rw [hk i hi, List.getElem?_eq_getElem hi]
    rfl
  · rw [List.getElem?_eq_none (by omega : xs.length ≤ i)]
    cases bs[i]? <;> rfl

end Drew.Stream
