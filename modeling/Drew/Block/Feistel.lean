import Drew.Memory.Endian

/-!
# Networks of halves

A round combines one half of the state with a function of the other half and exchanges the halves. The function
needs no inverse: with the halves exchanged, the functions in the opposite order undo the rounds.
-/

namespace Drew.Block.Feistel

variable {α : Type} (combine separate : α → α → α)

/-- A round, behind which the halves change places. -/
def round (f : α → α) (x : α × α) : α × α := (x.2, combine x.1 (f x.2))

/-- `n` rounds, each with a function of its own. -/
def rounds (f : Nat → α → α) (n : Nat) (x : α × α) : α × α :=
  (List.range n).foldl (fun x i => round combine (f i) x) x

section Rounds

variable {f g : Nat → α → α}

theorem rounds_succ (n : Nat) (x : α × α) :
    rounds combine f (n + 1) x = round combine (f n) (rounds combine f n x) := by
  rw [rounds, List.range_succ, List.foldl_append]
  rfl

theorem rounds_succ_first (n : Nat) (x : α × α) :
    rounds combine f (n + 1) x = rounds combine (fun i => f (i + 1)) n (round combine (f 0) x) := by
  rw [rounds, List.range_succ_eq_map, List.foldl_cons, List.foldl_map]
  rfl

/-- Some rounds and some more. -/
theorem rounds_add (m n : Nat) (x : α × α) :
    rounds combine f (m + n) x = rounds combine (fun i => f (m + i)) n (rounds combine f m x) := by
  rw [rounds, List.range_add, List.foldl_append, List.foldl_map]
  rfl

theorem rounds_congr {n : Nat} (h : ∀ i < n, f i = g i) (x : α × α) :
    rounds combine f n x = rounds combine g n x := by
  apply List.foldl_ext
  intro y i hi
  rw [h i (List.mem_range.mp hi)]

variable {combine separate}

theorem round_round (h : ∀ x y, separate (combine x y) y = x) (f : α → α) (x : α × α) :
    round separate f (round combine f x).swap = x.swap :=
  Prod.ext rfl (h x.1 (f x.2))

/-- The functions in the opposite order undo the rounds. -/
theorem rounds_reverse (h : ∀ x y, separate (combine x y) y = x) (n : Nat) (x : α × α)
    (hg : ∀ i < n, g i = f (n - 1 - i)) : rounds separate g n (rounds combine f n x).swap = x.swap := by
  induction n generalizing g with
  | zero => rfl
  | succ n ih =>
    have hfirst : g 0 = f n := hg 0 (Nat.succ_pos n)
    have hrest : ∀ i < n, g (i + 1) = f (n - 1 - i) := by
      intro i hi
      rw [hg (i + 1) (Nat.succ_lt_succ hi)]
      congr 1
      omega
    rw [rounds_succ_first, rounds_succ, hfirst, round_round h]
    exact ih hrest

end Rounds

end Drew.Block.Feistel

namespace Drew.Block

open Drew.Memory

/-- Functions of two words that undo one another, on the bytes of a block. -/
theorem onWords_pair {W : Type} {T : WordType W} {e : Endian} {g h : W × W → W × W} (hinv : ∀ x, h (g x) = x)
    {block : List UInt8} (hlen : block.length = T.size * 2) :
    onWords T e (fun v : Vector W 2 => #v[(h (v.get 0, v.get 1)).1, (h (v.get 0, v.get 1)).2])
      (onWords T e (fun v : Vector W 2 => #v[(g (v.get 0, v.get 1)).1, (g (v.get 0, v.get 1)).2]) block) =
      block := by
  apply onWords_onWords _ hlen
  intro v
  have hwords : h (g (v.get 0, v.get 1)) = (v.get 0, v.get 1) := hinv _
  apply Vector.ext
  intro i hi
  match i, hi with
  | 0, _ => exact congrArg Prod.fst hwords
  | 1, _ => exact congrArg Prod.snd hwords

end Drew.Block

/-!
## Steps that can fail and are undone

Where a step reads an array at a computed index, the model lets it fail if there is no such element. Such a step
is undone by another if it never fails, and the other one does not fail on its result and takes it back.
-/

namespace Drew.Block

open Drew.Memory

variable {α ι : Type}

/-- The first step does not fail, and the second takes back what it did. -/
def Undone (f g : α → Option α) : Prop := ∀ x, ∃ y, f x = some y ∧ g y = some x

namespace Undone

/-- Two steps are undone in the opposite order. -/
theorem comp {f g f' g' : α → Option α} (h : Undone f g) (h' : Undone f' g') :
    Undone (fun x => (f x).bind f') (fun y => (g' y).bind g) := by
  intro x
  obtain ⟨y, hf, hg⟩ := h x
  obtain ⟨z, hf', hg'⟩ := h' y
  refine ⟨z, ?_, ?_⟩
  · show (f x).bind f' = some z
    rw [hf, Option.bind_some, hf']
  · show (g' z).bind g = some x
    rw [hg', Option.bind_some, hg]

/-- So are the passes of a loop. -/
theorem loop {f g : α → ι → Option α} {l : List ι} (h : ∀ i ∈ l, Undone (fun x => f x i) (fun x => g x i)) :
    Undone (fun x => l.foldlM f x) (fun y => l.reverse.foldlM g y) := by
  induction l with
  | nil => exact fun x => ⟨x, rfl, rfl⟩
  | cons i l ih =>
    have hrest := ih fun j hj => h j (List.mem_cons_of_mem i hj)
    have hboth := (h i List.mem_cons_self).comp hrest
    intro x
    obtain ⟨y, hf, hg⟩ := hboth x
    refine ⟨y, hf, ?_⟩
    show (i :: l).reverse.foldlM g y = some x
    rw [List.reverse_cons, List.foldlM_append]
    simp only [List.foldlM_cons, List.foldlM_nil, bind_pure]
    exact hg

end Undone

/-! ## Blocks -/

section Blocks

variable {W : Type} {n : Nat} (T : WordType W) (e : Endian)

/-- A step on the words of a block, on its bytes. -/
def onWordsOption (g : Vector W n → Option (Vector W n)) (block : List UInt8) : Option (List UInt8) :=
  (g (copyIn T e n block)).map (copyOut T e)

theorem Undone.onWords {g h : Vector W n → Option (Vector W n)} (hundo : Undone g h) {block : List UInt8}
    (hlen : block.length = T.size * n) :
    ∃ out, onWordsOption T e g block = some out ∧ out.length = T.size * n ∧
      onWordsOption T e h out = some block := by
  obtain ⟨v, hg, hh⟩ := hundo (copyIn T e n block)
  refine ⟨copyOut T e v, by rw [onWordsOption, hg]; rfl, length_copyOut v, ?_⟩
  rw [onWordsOption, copyIn_copyOut, hh]
  exact congrArg some (copyOut_copyIn hlen)

end Blocks

end Drew.Block
