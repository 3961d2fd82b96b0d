import Drew.Memory.Buffer
import Drew.Stream.Chunks

/-!
# A buffer for the last block

The whole blocks of a text go through a function, and the elements behind them are in a buffer (`Fed`). The rules
say what that is after elements were added to the buffer, after the full buffer went through the function, and
after whole blocks did that themselves.
-/

namespace Drew.Stream

open Drew.Memory

variable {α σ : Type} {N bs : Nat}

/-- The first `q` blocks of a text went through `f`, and the buffer begins with the other `off` elements. -/
structure Fed (bs : Nat) (f : σ → List α → σ) (s : σ) (t : List α) (q off : Nat) (x : σ) (buf : Buf α N) :
    Prop where
  state : x = (chunks bs q t).foldl f s
  holds : buf.Holds 0 (t.drop (q * bs))
  length : t.length = q * bs + off
  off_le : off ≤ bs

variable {f : σ → List α → σ} {s x : σ} {t xs : List α} {q off : Nat} {buf w : Buf α N}

namespace Fed

theorem nil (f : σ → List α → σ) (s : σ) (buf : Buf α N) : Fed bs f s [] 0 0 s buf where
  state := by rw [chunks_zero, List.foldl_nil]
  holds := by
    rw [List.drop_nil]
    exact Buf.holds_nil (Nat.zero_le _)
  length := by rw [List.length_nil, Nat.zero_mul]
  off_le := Nat.zero_le _

theorem length_rest (h : Fed bs f s t q off x buf) : (t.drop (q * bs)).length = off := by
  rw [List.length_drop, h.length, Nat.add_sub_cancel_left]

theorem blocks_le (h : Fed bs f s t q off x buf) : q * bs ≤ t.length := by
  rw [h.length]
  exact Nat.le_add_right _ _

/-- Elements are added to the buffer. -/
theorem write (h : Fed bs f s t q off x buf) (hwrite : buf.write off xs = some w) (hfit : off + xs.length ≤ bs) :
    Fed bs f s (t ++ xs) q (off + xs.length) x w where
  state := by
    rw [chunks_append_left h.blocks_le]
    exact h.state
  holds := by
    rw [List.drop_append_of_le_length h.blocks_le]
    apply Buf.Holds.append
    · exact h.holds.write_of_disjoint hwrite (Or.inr (by rw [Nat.zero_add, h.length_rest]))
    · rw [Nat.zero_add, h.length_rest]
      exact Buf.holds_write hwrite
  length := by rw [List.length_append, h.length, Nat.add_assoc]
  off_le := hfit

theorem exists_write (h : Fed bs f s t q off x buf) (hN : bs ≤ N) (xs : List α) (hfit : off + xs.length ≤ bs) :
    ∃ w, buf.write off xs = some w ∧ Fed bs f s (t ++ xs) q (off + xs.length) x w := by
  obtain ⟨w, hwrite⟩ := Buf.exists_write_at buf off xs (hfit.trans hN)
  exact ⟨w, hwrite, h.write hwrite hfit⟩

theorem exists_store (h : Fed bs f s t q off x buf) (hN : bs ≤ N) (a : α) (hoff : off < bs) :
    ∃ w, buf.store off a = some w ∧ Fed bs f s (t ++ [a]) q (off + 1) x w := by
  refine ⟨_, Buf.store_of_lt buf a (hoff.trans_le hN), ?_, ?_, ?_, hoff⟩
  · rw [chunks_append_left h.blocks_le]
    exact h.state
  · rw [List.drop_append_of_le_length h.blocks_le]
    exact h.holds.snoc a _ (by rw [Nat.zero_add, h.length_rest])
  · rw [List.length_append, h.length, Nat.add_assoc, List.length_singleton]

/-- The buffer is the last block. -/
theorem take_buf (h : Fed bs f s t q bs x buf) : buf.toList.take bs = t.drop (q * bs) := by
  have htake := h.holds.take_toList
  rwa [h.length_rest] at htake

/-- The full buffer goes through the function. -/
theorem flush (h : Fed bs f s t q bs x buf) (w : Buf α N) :
    Fed bs f s t (q + 1) 0 (f x (buf.toList.take bs)) w where
  state := by
    rw [chunks_add h.blocks_le, chunks_one h.length_rest.le, List.foldl_append, ← h.state, h.take_buf]
    rfl
  holds := by
    rw [List.drop_eq_nil_of_le (by rw [h.length, Nat.add_mul, Nat.one_mul])]
    exact Buf.holds_nil (Nat.zero_le _)
  length := by rw [h.length, Nat.add_mul, Nat.one_mul, Nat.add_zero]
  off_le := Nat.zero_le _

/-- Whole blocks go through the function. -/
theorem absorb (h : Fed bs f s t q 0 x buf) {k : Nat} (hk : k * bs ≤ xs.length) :
    Fed bs f s (t ++ xs.take (k * bs)) (q + k) 0 (Stream.absorb bs f k x xs) buf where
  state := by
    have htake : chunks bs k (xs.take (k * bs)) = chunks bs k xs := by
      have hle : k * bs ≤ (xs.take (k * bs)).length := by
        rw [List.length_take]
        omega
      have hsplit := chunks_append_left hle (xs.drop (k * bs))
      rwa [List.take_append_drop, eq_comm] at hsplit
    rw [absorb_eq_foldl, h.state, chunks_append (by rw [h.length, Nat.add_zero]), htake, List.foldl_append]
  holds := by
    rw [List.drop_eq_nil_of_le (by rw [List.length_append, List.length_take, h.length, Nat.add_mul]; omega)]
    exact Buf.holds_nil (Nat.zero_le _)
  length := by
    rw [List.length_append, List.length_take, h.length, Nat.add_mul]
    omega
  off_le := Nat.zero_le _

/-- Elements that make up whole blocks, and the others, which come into the buffer. -/
theorem feed (h : Fed bs f s t q 0 x buf) (hN : bs ≤ N) (hpos : 0 < bs) (xs : List α) :
    ∃ w, buf.write 0 (xs.drop (xs.length / bs * bs)) = some w ∧
      Fed bs f s (t ++ xs) (q + xs.length / bs) (xs.length % bs)
        (Stream.absorb bs f (xs.length / bs) x xs) w := by
  have hdiv := Nat.div_add_mod' xs.length bs
  have hmod := Nat.mod_lt xs.length hpos
  have hrest : (xs.drop (xs.length / bs * bs)).length = xs.length % bs := by
    rw [List.length_drop]
    omega
  have hle : xs.length / bs * bs ≤ xs.length := Nat.div_mul_le_self _ _
  obtain ⟨w, hwrite, hfed⟩ := (h.absorb hle).exists_write hN (xs.drop (xs.length / bs * bs)) (by omega)
  rw [List.append_assoc, List.take_append_drop, hrest, Nat.zero_add] at hfed
  exact ⟨w, hwrite, hfed⟩

/-- The numbers of blocks and of other elements are those of the text, unless the buffer is full. -/
theorem counts (h : Fed bs f s t q off x buf) (hoff : off < bs) : q = t.length / bs ∧ off = t.length % bs := by
  have hpos : 0 < bs := Nat.zero_lt_of_lt hoff
  rw [h.length, Nat.add_comm, Nat.add_mul_div_right _ _ hpos, Nat.add_mul_mod_self_right,
    Nat.div_eq_of_lt hoff, Nat.mod_eq_of_lt hoff, Nat.zero_add]
  exact ⟨rfl, rfl⟩

end Fed

end Drew.Stream
