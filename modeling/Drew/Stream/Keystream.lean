import Drew.Stream.Run
import Drew.Stream.Units
import Drew.Memory.Buffer

/-!
# Masking with feedback of the masked text

The general shape of a stream mode of operation. A text is masked element by element;
the mask of an element is a function `k` of the masked text so far. `seal` masks and
appends what it wrote to the history, `open'` unmasks and appends what it read. Because
both sides extend the same history, unmasking inverts masking for every `k`
(`open_seal`), whatever the feedback is.

When the mask only depends on how long the history is, the text is combined with one
fixed sequence (`seal_eq_zipWith`).
-/

namespace Drew.Stream

universe u

variable {α κ : Type u}

/-- Mask one element and extend the history by the result. -/
def sealStep (mask : κ → α → α) (k : List α → κ) (C : List α) (x : α) : List α × α :=
  (C ++ [mask (k C) x], mask (k C) x)

/-- Unmask one element and extend the history by the element read. -/
def openStep (mask : κ → α → α) (k : List α → κ) (C : List α) (y : α) : List α × α :=
  (C ++ [y], mask (k C) y)

variable {mask : κ → α → α} {k : List α → κ}

theorem trace_seal_history (C xs : List α) :
    (trace (sealStep mask k) C xs).1 = C ++ (trace (sealStep mask k) C xs).2 := by
  induction xs generalizing C with
  | nil => simp
  | cons x xs ih => simp [sealStep, ih (C ++ [mask (k C) x])]

theorem trace_open_history (C ys : List α) :
    (trace (openStep mask k) C ys).1 = C ++ ys := by
  induction ys generalizing C with
  | nil => simp
  | cons y ys ih => simp [openStep, ih (C ++ [y])]

/-- Unmasking what was masked gives the text back, for every feedback. -/
theorem open_seal (hmask : ∀ c x, mask c (mask c x) = x) (C xs : List α) :
    (trace (openStep mask k) C (trace (sealStep mask k) C xs).2).2 = xs := by
  induction xs generalizing C with
  | nil => rfl
  | cons x xs ih => simp [sealStep, openStep, hmask, ih (C ++ [mask (k C) x])]

/-! ## Masks that only depend on the position -/

/-- If from the history `B` on the mask is the entry of `ks` at the length of what came after
`B`, masking combines the text with `ks` from there on. -/
theorem seal_eq_zipWith (ks : List κ) (B C xs : List α)
    (hk : ∀ D : List α, ∀ c, ks[D.length]? = some c → k (B ++ D) = c)
    (hlen : C.length + xs.length ≤ ks.length) :
    (trace (sealStep mask k) (B ++ C) xs).2 = List.zipWith mask (ks.drop C.length) xs := by
  induction xs generalizing C with
  | nil => simp
  | cons x xs ih =>
    have hC : C.length < ks.length := by simp at hlen; omega
    have hkC : k (B ++ C) = ks[C.length] := hk C _ (List.getElem?_eq_getElem hC)
    rw [List.drop_eq_getElem_cons hC, List.zipWith_cons_cons, trace_cons]
    simp only [sealStep]
    rw [List.append_assoc, ih (C ++ [mask (k (B ++ C)) x]) (by simp at hlen ⊢; omega), hkC]
    simp

/-- The same for unmasking. -/
theorem open_eq_zipWith (ks : List κ) (B C xs : List α)
    (hk : ∀ D : List α, ∀ c, ks[D.length]? = some c → k (B ++ D) = c)
    (hlen : C.length + xs.length ≤ ks.length) :
    (trace (openStep mask k) (B ++ C) xs).2 = List.zipWith mask (ks.drop C.length) xs := by
  induction xs generalizing C with
  | nil => simp
  | cons x xs ih =>
    have hC : C.length < ks.length := by simp at hlen; omega
    have hkC : k (B ++ C) = ks[C.length] := hk C _ (List.getElem?_eq_getElem hC)
    rw [List.drop_eq_getElem_cons hC, List.zipWith_cons_cons, trace_cons]
    simp only [openStep]
    rw [List.append_assoc, ih (C ++ [x]) (by simp at hlen ⊢; omega), hkC]
    simp

end Drew.Stream

/-!
## Keystreams made block by block

A keystream is the concatenation of blocks `blk 0`, `blk 1`, … of `n` elements each. The
element used for a text at a position is found by division (`keyAt`), and masking with it
is the same as combining the text with a long enough part of the keystream
(`seal_blocks`).

A buffering routine that fills a buffer with the next block, masks with the elements of
the buffer, and fills it again when the block is used up refines masking with the
keystream (`refines_blocks`).
-/

namespace Drew.Stream

universe u

variable {σ α κ : Type u} {blk : Nat → List κ} {n : Nat}

/-- The first `m` blocks. -/
def blocks (blk : Nat → List κ) (m : Nat) : List κ := (List.range m).flatMap blk

theorem blocks_succ (blk : Nat → List κ) (m : Nat) : blocks blk (m + 1) = blocks blk m ++ blk m := by
  simp [blocks, List.range_succ]

theorem blocks_add (blk : Nat → List κ) (k m : Nat) :
    blocks blk (k + m) = blocks blk k ++ blocks (fun q => blk (k + q)) m := by
  simp [blocks, List.range_add, List.flatMap_map]

theorem blocks_one (blk : Nat → List κ) : blocks blk 1 = blk 0 := by
  simp [blocks]

theorem length_blocks (hblk : ∀ q, (blk q).length = n) (m : Nat) :
    (blocks blk m).length = m * n := by
  induction m with
  | zero => simp [blocks]
  | succ m ih => rw [blocks_succ, List.length_append, ih, hblk, Nat.add_mul, Nat.one_mul]

/-- The element at a position is that of its block. -/
theorem getElem?_blocks (hblk : ∀ q, (blk q).length = n) {m p : Nat} (hp : p < m * n) :
    (blocks blk m)[p]? = (blk (p / n))[p % n]? := by
  induction m with
  | zero => simp at hp
  | succ m ih =>
    have hlen := length_blocks hblk m
    rw [blocks_succ]
    by_cases hlt : p < m * n
    · rw [List.getElem?_append_left (by omega), ih hlt]
    · rw [Nat.add_mul, Nat.one_mul] at hp
      obtain ⟨i, rfl⟩ : ∃ i, p = m * n + i := ⟨p - m * n, by omega⟩
      have hi : i < n := by omega
      rw [List.getElem?_append_right (by omega), hlen, Nat.add_sub_cancel_left,
        Nat.add_comm (m * n), Nat.add_mul_div_right _ _ (by omega), Nat.div_eq_of_lt hi,
        Nat.zero_add, Nat.add_mul_mod_self_right, Nat.mod_eq_of_lt hi]

/-- The element of the keystream for the next element of a text. -/
def keyAt [Inhabited κ] (blk : Nat → List κ) (n : Nat) (C : List α) : κ :=
  ((blk (C.length / n))[C.length % n]?).getD default

section Key

variable [Inhabited κ] {mask : κ → α → α}

theorem keyAt_eq {C : List α} {q i : Nat} {c : κ} (hi : i < n) (hC : C.length = q * n + i)
    (hc : (blk q)[i]? = some c) : keyAt blk n C = c := by
  have hdiv : C.length / n = q := by
    rw [hC, Nat.add_comm, Nat.add_mul_div_right _ _ (by omega), Nat.div_eq_of_lt hi, Nat.zero_add]
  have hmod : C.length % n = i := by
    rw [hC, Nat.add_comm, Nat.add_mul_mod_self_right, Nat.mod_eq_of_lt hi]
  rw [keyAt, hdiv, hmod, hc]
  rfl

/-- Masking from the beginning combines the text with enough blocks of the keystream. -/
theorem seal_blocks (hblk : ∀ q, (blk q).length = n) {m : Nat} {xs : List α}
    (hm : xs.length ≤ m * n) :
    (trace (sealStep mask (keyAt blk n)) [] xs).2 = List.zipWith mask (blocks blk m) xs := by
  have hlen := length_blocks hblk m
  have hkey : ∀ D : List α, ∀ c, (blocks blk m)[D.length]? = some c → keyAt blk n ([] ++ D) = c := by
    intro D c hD
    have hlt : D.length < m * n := by
      have h := (List.getElem?_eq_some_iff.mp hD).1
      omega
    rw [List.nil_append, keyAt, ← getElem?_blocks hblk hlt, hD]
    rfl
  have hzip : (trace (sealStep mask (keyAt blk n)) ([] ++ []) xs).2 = _ :=
    seal_eq_zipWith (blocks blk m) [] [] xs hkey (by simpa [hlen] using hm)
  simpa using hzip

/-- The same for unmasking. -/
theorem open_blocks (hblk : ∀ q, (blk q).length = n) {m : Nat} {xs : List α}
    (hm : xs.length ≤ m * n) :
    (trace (openStep mask (keyAt blk n)) [] xs).2 = List.zipWith mask (blocks blk m) xs := by
  have hlen := length_blocks hblk m
  have hkey : ∀ D : List α, ∀ c, (blocks blk m)[D.length]? = some c → keyAt blk n ([] ++ D) = c := by
    intro D c hD
    have hlt : D.length < m * n := by
      have h := (List.getElem?_eq_some_iff.mp hD).1
      omega
    rw [List.nil_append, keyAt, ← getElem?_blocks hblk hlt, hD]
    rfl
  have hzip : (trace (openStep mask (keyAt blk n)) ([] ++ []) xs).2 = _ :=
    open_eq_zipWith (blocks blk m) [] [] xs hkey (by simpa [hlen] using hm)
  simpa using hzip

section Block

variable {C xs : List α} {q : Nat}

theorem keyAt_append (hC : C.length = q * n) (hblk : (blk q).length = n) (D : List α) (c : κ)
    (hc : (blk q)[D.length]? = some c) : keyAt blk n (C ++ D) = c := by
  have hlt := (List.getElem?_eq_some_iff.mp hc).1
  exact keyAt_eq (by omega) (by rw [List.length_append, hC]) hc

/-- Masking at most one block, from the beginning of a block. -/
theorem seal_block (hC : C.length = q * n) (hblk : (blk q).length = n) (hxs : xs.length ≤ n) :
    (trace (sealStep mask (keyAt blk n)) C xs).2 = List.zipWith mask (blk q) xs := by
  have h : (trace (sealStep mask (keyAt blk n)) (C ++ []) xs).2 = _ :=
    seal_eq_zipWith (blk q) C [] xs (keyAt_append hC hblk) (by simpa [hblk])
  rwa [List.append_nil] at h

theorem open_block (hC : C.length = q * n) (hblk : (blk q).length = n) (hxs : xs.length ≤ n) :
    (trace (openStep mask (keyAt blk n)) C xs).2 = List.zipWith mask (blk q) xs := by
  have h : (trace (openStep mask (keyAt blk n)) (C ++ []) xs).2 = _ :=
    open_eq_zipWith (blk q) C [] xs (keyAt_append hC hblk) (by simpa [hblk])
  rwa [List.append_nil] at h

end Block

/-- Nothing is left of the blocks that a text used. `Ready s q`: the next block to be made
is block `q`. -/
def Between (n : Nat) (Ready : σ → Nat → Prop) (s : σ) (C : List α) : Prop :=
  ∃ q, C.length = q * n ∧ Ready s q

/-- A text used the current block as far as `i`. `Full s q`: the buffer has block `q`. -/
def Within (n : Nat) (Full : σ → Nat → Prop) (s : σ) (i : Nat) (C : List α) : Prop :=
  ∃ q, C.length = q * n + i ∧ Full s q

/-- A routine that masks with the elements of a buffer. -/
theorem refines_blocks {M : UnitOps σ α α} {Ready Full : σ → Nat → Prop}
    (hblk : ∀ q, (blk q).length = n)
    (hrefill : ∀ s q, Ready s q → ∃ s', M.refill s = some s' ∧ Full s' q)
    (hbody : ∀ s q i c x, Full s q → (blk q)[i]? = some c → M.body i s x = some (s, mask c x))
    (hclose : ∀ s q, Full s q → ∃ s', M.close s = some s' ∧ Ready s' (q + 1))
    (hwhole : M.whole = M.wholeByLoop) :
    Refines M n (sealStep mask (keyAt blk n)) (Between n Ready) (Within n Full) := by
  have hrefill' : ∀ (s : σ) (C : List α), Between n Ready s C →
      ∃ s', M.refill s = some s' ∧ Within n Full s' 0 C := by
    rintro s C ⟨q, hC, hReady⟩
    obtain ⟨s', hs', hFull⟩ := hrefill s q hReady
    exact ⟨s', hs', q, hC, hFull⟩
  have hbody' : ∀ (s : σ) (i : Nat) (C : List α) (x : α),
      Within n Full s i C → i < n →
      ∃ s', M.body i s x = some (s', (sealStep mask (keyAt blk n) C x).2) ∧
        Within n Full s' (i + 1) (sealStep mask (keyAt blk n) C x).1 := by
    rintro s i C x ⟨q, hC, hFull⟩ hi
    have hi' : i < (blk q).length := by rwa [hblk]
    have hc : (blk q)[i]? = some (blk q)[i] := List.getElem?_eq_getElem hi'
    refine ⟨s, ?_, q, ?_, hFull⟩
    · rw [hbody s q i _ x hFull hc, sealStep, keyAt_eq hi hC hc]
    · simp only [sealStep, List.length_append, List.length_singleton, hC]
      omega
  have hclose' : ∀ (s : σ) (C : List α), Within n Full s n C →
      ∃ s', M.close s = some s' ∧ Between n Ready s' C := by
    rintro s C ⟨q, hC, hFull⟩
    obtain ⟨s', hs', hReady⟩ := hclose s q hFull
    exact ⟨s', hs', q + 1, by rw [hC, Nat.add_mul, Nat.one_mul], hReady⟩
  refine ⟨hrefill', hbody', hclose', ?_⟩
  intro s C xs hIdle hlen
  rw [hwhole]
  exact wholeByLoop_spec hrefill' hbody' hclose' xs hIdle hlen

end Key

/-! ## The offset -/

section Offset

variable {Ready Full : σ → Nat → Prop} {boff : σ → Nat} {s : σ} {C : List α}

theorem AtOffset.boff_eq (h : AtOffset n (Between n Ready) (Within n Full) boff s C) :
    boff s = C.length % n := by
  obtain ⟨hlt, h⟩ := h
  unfold At at h
  split at h
  · rename_i h0
    obtain ⟨q, hC, -⟩ := h
    rw [h0, hC, Nat.mul_mod_left]
  · obtain ⟨-, q, hC, -⟩ := h
    rw [hC, Nat.mul_add_mod_self_right, Nat.mod_eq_of_lt hlt]

/-- After whole blocks the next block is ready to be made. -/
theorem AtOffset.ready {m : Nat} (h : AtOffset n (Between n Ready) (Within n Full) boff s C)
    (hC : C.length = m * n) : boff s = 0 ∧ Ready s m := by
  have h0 : boff s = 0 := by rw [h.boff_eq, hC, Nat.mul_mod_left]
  have hn : 0 < n := by have := h.1; omega
  obtain ⟨-, hAt⟩ := h
  rw [h0, at_zero] at hAt
  obtain ⟨q, hq, hReady⟩ := hAt
  obtain rfl : m = q := Nat.eq_of_mul_eq_mul_right hn (hC.symm.trans hq)
  exact ⟨h0, hReady⟩

/-- What holds in both kinds of states holds between two calls. -/
theorem AtOffset.elim {P : Prop} (h : AtOffset n (Between n Ready) (Within n Full) boff s C)
    (hReady : ∀ q, Ready s q → P) (hFull : ∀ q, Full s q → P) : P := by
  obtain ⟨-, h⟩ := h
  unfold At at h
  split at h
  · obtain ⟨q, -, hq⟩ := h
    exact hReady q hq
  · obtain ⟨-, q, -, hq⟩ := h
    exact hFull q hq

end Offset

end Drew.Stream

/-!
## Texts cut off after some blocks

`firstOf g len` takes the first `len` elements of the blocks `g 0`, `g 1`, ... If all blocks
have the same length, it does not matter how many more of them are made. A loop may write them one
after the other to an array, the last one as far as there is room.
-/

namespace Drew.Stream

open Drew.Memory

universe u

variable {α : Type u} {g : Nat → List α} {h : Nat}

/-- The first `len` elements of a sequence of blocks, none of which is empty. -/
def firstOf (g : Nat → List α) (len : Nat) : List α := (blocks g len).take len

theorem take_blocks (hg : ∀ i, (g i).length = h) {k m len : Nat} (hk : len ≤ k * h)
    (hkm : k ≤ m) : (blocks g m).take len = (blocks g k).take len := by
  obtain ⟨n, rfl⟩ := Nat.exists_eq_add_of_le hkm
  rw [blocks_add, List.take_append_of_le_length]
  rw [length_blocks hg]
  exact hk

/-- Any number of blocks that is large enough will do. -/
theorem firstOf_eq (hg : ∀ i, (g i).length = h) (hh : 0 < h) {k len : Nat} (hk : len ≤ k * h) :
    firstOf g len = (blocks g k).take len := by
  have hlen : len ≤ len * h := Nat.le_mul_of_pos_right len hh
  rcases Nat.le_total k len with hle | hle
  · exact take_blocks hg hk hle
  · exact (take_blocks hg hlen hle).symm

theorem length_firstOf (hg : ∀ i, (g i).length = h) (hh : 0 < h) (len : Nat) :
    (firstOf g len).length = len := by
  have hlen : len ≤ len * h := Nat.le_mul_of_pos_right len hh
  rw [firstOf, List.length_take, length_blocks hg, Nat.min_eq_left hlen]

/-- The first element is that of the first block. -/
theorem head_firstOf {x : α} {len : Nat} (hlen : 0 < len) (hx : (g 0).head? = some x) :
    (firstOf g len).head? = some x := by
  obtain ⟨m, rfl⟩ : ∃ m, len = 1 + m := ⟨len - 1, by omega⟩
  rw [firstOf, List.head?_take, if_neg (by omega), blocks_add, blocks_one, List.head?_append, hx]
  rfl

/-! ## How many blocks it takes -/

theorem mul_lt_of_lt_rounds {i len : Nat} (hh : 0 < h) (hi : i < (len + (h - 1)) / h) :
    i * h < len := by
  have hle := (Nat.le_div_iff_mul_le hh).mp hi
  rw [Nat.succ_mul] at hle
  omega

theorem le_rounds_mul (hh : 0 < h) (len : Nat) : len ≤ (len + (h - 1)) / h * h := by
  have hlt := Nat.lt_div_mul_add (a := len + (h - 1)) hh
  omega

/-! ## Writing them to an array -/

section Writing

variable {n : Nat} {data : Buf α n}

/-- A block is written after the ones before it, as far as there is room. -/
theorem write_block (hg : ∀ i, (g i).length = h) {i : Nat} (hi : i * h < n)
    (hdata : data.Holds 0 ((blocks g i).take n)) :
    ∃ data', data.write (i * h) ((g i).take (n - i * h)) = some data' ∧
      data'.Holds 0 ((blocks g (i + 1)).take n) := by
  have hbefore : (blocks g i).length = i * h := length_blocks hg i
  have htake : (blocks g i).take n = blocks g i := List.take_of_length_le (by omega)
  rw [htake] at hdata
  obtain ⟨data', hwrite⟩ := Buf.exists_write_at data (i * h) ((g i).take (n - i * h))
    (by rw [List.length_take]; omega)
  refine ⟨data', hwrite, ?_⟩
  rw [blocks_succ, List.take_append, htake, hbefore]
  refine (hdata.write_of_disjoint hwrite (Or.inr (by omega))).append ?_
  rw [Nat.zero_add, hbefore]
  exact Buf.holds_write hwrite

/-- An array that enough blocks were written to. -/
theorem toList_of_blocks (hg : ∀ i, (g i).length = h) (hh : 0 < h) {k : Nat} (hk : n ≤ k * h)
    (hdata : data.Holds 0 ((blocks g k).take n)) : data.toList = firstOf g n := by
  rw [firstOf_eq hg hh hk]
  refine hdata.toList ?_
  rw [List.length_take, length_blocks hg, Nat.min_eq_left hk]

end Writing

end Drew.Stream
