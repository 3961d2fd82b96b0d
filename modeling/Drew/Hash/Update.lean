import Drew.Hash.Template

/-!
# Updates of the template

After a message `m` its whole blocks went through `Transform`, the rest of it is in the buffer,
and the low word of the length counts its bytes (`After`). Each call keeps this, however the
message is cut (`update_spec`). The high word is not part of it: it misses what a call has
beyond the range of one word.
-/

namespace Drew.Hash

open Drew.Memory Drew.Stream

variable {P : Params} {σ : Type} {f : σ → List UInt8 → σ} {s : σ} {m data : List UInt8}
  {h h' : Hash P σ} {q : Nat}

/-- The state after a message, but for the high word of its length. -/
structure After (f : σ → List UInt8 → σ) (s : σ) (m : List UInt8) (h : Hash P σ) : Prop where
  len0 : h.len0.toNat = m.length % 2 ^ P.wordBits
  hash : h.hash = (chunks P.blkSize (m.length / P.blkSize) m).foldl f s
  buf : h.buf.Holds 0 (m.drop (m.length / P.blkSize * P.blkSize))

theorem after_nil (f : σ → List UInt8 → σ) (s : σ) : After f s [] (init s : Hash P σ) := by
  refine ⟨rfl, ?_, ?_⟩
  · rw [List.length_nil, Nat.zero_div, chunks_zero]
    rfl
  · rw [List.drop_nil]
    exact Buf.holds_nil (Nat.zero_le _)

/-- The offset in the buffer is that of the message. -/
theorem After.off_eq (h' : After f s m h) : h.len0.toNat % P.blkSize = m.length % P.blkSize := by
  rw [h'.len0, Params.wordBits, Nat.mod_mod_of_dvd _ P.blkSize_dvd]

/-- The number of whole blocks. -/
theorem div_eq {len bs : Nat} (hlo : q * bs ≤ len) (hhi : len < (q + 1) * bs) : len / bs = q :=
  Nat.div_eq_of_lt_le hlo hhi

theorem after_of (hlo : q * P.blkSize ≤ m.length) (hhi : m.length < (q + 1) * P.blkSize)
    (hlen : h.len0.toNat = m.length % 2 ^ P.wordBits) (hhash : h.hash = (chunks P.blkSize q m).foldl f s)
    (hbuf : h.buf.Holds 0 (m.drop (q * P.blkSize))) : After f s m h := by
  have hq := div_eq hlo hhi
  exact ⟨hlen, by rwa [hq], by rwa [hq]⟩

theorem count_len0 (h : After f s m h') (data : List UInt8) :
    (h'.count data.length).len0.toNat = (m ++ data).length % 2 ^ P.wordBits := by
  rw [count]
  simp only [BitVec.toNat_add, BitVec.toNat_ofNat, h.len0, List.length_append, Nat.add_mod_mod,
    Nat.mod_add_mod]

/-! ## Filling up a block -/

section Fill

variable {off i : Nat} {w : Buf UInt8 P.blkSize} (hoff : off ≠ 0)
  (hi : min (P.blkSize - off) data.length = i) (hwrite : h.buf.write off (data.take i) = some w)
include hoff hi hwrite

theorem fill_part (hpart : i + off ≠ P.blkSize) :
    fill f h off data = some ({ h with buf := w }, data.drop i) := by
  rw [fill, if_pos hoff]
  simp only [hi, hwrite, Option.bind_eq_bind, Option.bind_some, if_neg hpart, pure]

theorem fill_full (hfull : i + off = P.blkSize) :
    fill f h off data = some ({ h with buf := w, hash := f h.hash w.toList }, data.drop i) := by
  rw [fill, if_pos hoff]
  simp only [hi, hwrite, Option.bind_eq_bind, Option.bind_some, if_pos hfull, pure]

end Fill

/-- Some blocks of the text went through `Transform`, and `rest` is still to be handled. -/
def Pending (f : σ → List UInt8 → σ) (s : σ) (m : List UInt8) (h : Hash P σ) (rest : List UInt8) : Prop :=
  ∃ q, q * P.blkSize ≤ m.length ∧ rest = m.drop (q * P.blkSize) ∧
    h.hash = (chunks P.blkSize q m).foldl f s

/-- What becomes of the incomplete block, once the length is counted. -/
theorem fill_spec (ha : After f s m h) (data : List UInt8) :
    ∃ h' rest, fill f (h.count data.length) (h.len0.toNat % P.blkSize) data = some (h', rest) ∧
      h'.len0 = (h.count data.length).len0 ∧ h'.len1 = (h.count data.length).len1 ∧
      (Pending f s (m ++ data) h' rest ∨ rest = [] ∧ After f s (m ++ data) h') := by
  obtain ⟨q, hq⟩ : ∃ q, q = m.length / P.blkSize := ⟨_, rfl⟩
  obtain ⟨r, hr⟩ : ∃ r, r = m.length % P.blkSize := ⟨_, rfl⟩
  have hrlt : r < P.blkSize := hr ▸ Nat.mod_lt _ P.blkSize_pos
  have hlen : m.length = q * P.blkSize + r := by
    rw [hq, hr, Nat.div_add_mod']
  have hhash := ha.hash
  have hbuf := ha.buf
  rw [ha.off_eq, ← hr]
  rw [← hq] at hhash hbuf
  rw [← chunks_append_left (by omega) data] at hhash
  by_cases h0 : r = 0
  · rw [h0]
    refine ⟨h.count data.length, data, rfl, rfl, rfl, Or.inl ⟨q, ?_, ?_, hhash⟩⟩
    · rw [List.length_append]
      omega
    · rw [show q * P.blkSize = m.length by omega, List.drop_left]
  · obtain ⟨i, hi⟩ : ∃ i, i = min (P.blkSize - r) data.length := ⟨_, rfl⟩
    obtain ⟨w, hwrite⟩ := Buf.exists_write_at h.buf r (data.take i) (by
      rw [List.length_take]
      omega)
    have hrest : (m.drop (q * P.blkSize)).length = r := by
      rw [List.length_drop]
      omega
    have hw : w.Holds 0 (m.drop (q * P.blkSize) ++ data.take i) := by
      apply Buf.Holds.append
      · exact hbuf.write_of_disjoint hwrite (Or.inr (by omega))
      · rw [hrest, Nat.zero_add]
        exact Buf.holds_write hwrite
    have hdrop : (m ++ data).drop (q * P.blkSize) = m.drop (q * P.blkSize) ++ data :=
      List.drop_append_of_le_length (by omega)
    by_cases hfull : i + r = P.blkSize
    · -- The block is complete.
      refine ⟨_, _, fill_full (h := h.count data.length) h0 hi.symm hwrite hfull, rfl, rfl,
        Or.inl ⟨q + 1, ?_, ?_, ?_⟩⟩
      · rw [List.length_append, Nat.add_mul, Nat.one_mul]
        omega
      · have hidx : (q + 1) * P.blkSize = m.length + i := by
          rw [Nat.add_mul, Nat.one_mul]
          omega
        rw [hidx, ← List.drop_drop, List.drop_left]
      · have hblock : chunks P.blkSize 1 ((m ++ data).drop (q * P.blkSize)) = [w.toList] := by
          have hwl := hw.toList (by rw [List.length_append, hrest, List.length_take]; omega)
          rw [hwl, hdrop, chunks, chunks_zero, ← List.take_append_drop i data, ← List.append_assoc,
            List.take_append_of_le_length, List.take_of_length_le, List.take_append_drop]
          all_goals
            rw [List.length_append, hrest, List.length_take]
            omega
        rw [chunks_add (by rw [List.length_append]; omega), hblock, List.foldl_append, ← hhash]
        rfl
    · -- The block stays incomplete, and nothing is left.
      have hil : i = data.length := by omega
      refine ⟨_, _, fill_part (h := h.count data.length) h0 hi.symm hwrite hfull, rfl, rfl,
        Or.inr ⟨by simp [hil], ?_⟩⟩
      apply after_of (q := q)
      · rw [List.length_append]
        omega
      · rw [List.length_append, Nat.add_mul, Nat.one_mul]
        omega
      · exact count_len0 ha data
      · exact hhash
      · rw [hdrop]
        rwa [hil, List.take_length] at hw

/-! ## Calls -/

theorem update_spec (ha : After f s m h) (data : List UInt8) :
    ∃ h', update f h data = some h' ∧ After f s (m ++ data) h' ∧
      h'.len1 = (h.count data.length).len1 := by
  have hpos := P.blkSize_pos
  obtain ⟨h₁, rest, hfill, hlen0, hlen1, hcase⟩ := fill_spec ha data
  rcases hcase with ⟨q, hq, hrest, hhash⟩ | ⟨rfl, hafter⟩
  · obtain ⟨k, hk⟩ : ∃ k, k = rest.length / P.blkSize := ⟨_, rfl⟩
    have hmod := Nat.mod_lt rest.length hpos
    have hdiv := Nat.div_add_mod' rest.length P.blkSize
    rw [← hk] at hdiv
    have hrlen := congrArg List.length hrest
    rw [List.length_drop] at hrlen
    obtain ⟨w, hwrite⟩ := Buf.exists_write_at h₁.buf 0 (rest.drop (k * P.blkSize)) (by
      rw [List.length_drop]
      omega)
    refine ⟨{ h₁ with hash := absorb P.blkSize f k h₁.hash rest, buf := w }, ?_, ?_, hlen1⟩
    · simp only [update, hfill, ← hk, hwrite, Option.bind_eq_bind, Option.bind_some, pure]
    · apply after_of (q := q + k)
      · rw [Nat.add_mul]
        omega
      · rw [Nat.add_mul, Nat.add_mul, Nat.one_mul]
        omega
      · rw [← count_len0 ha data, ← hlen0]
      · rw [chunks_add hq, List.foldl_append, ← hhash, ← hrest]
        exact absorb_eq_foldl f k h₁.hash rest
      · have hw := Buf.holds_write hwrite
        rwa [hrest, List.drop_drop, ← Nat.add_mul] at hw
  · refine ⟨h₁, ?_, hafter, hlen1⟩
    have hwrite := Buf.write_nil h₁.buf (Nat.zero_le _)
    simp only [update, hfill, List.length_nil, Nat.zero_div, List.drop_nil, hwrite,
      Option.bind_eq_bind, Option.bind_some, pure, absorb]

/-- From the beginning of a block on, the fast function is the plain one. -/
theorem updateFast_eq (ha : After f s m h) (halign : m.length % P.blkSize = 0)
    (hlen : data.length % P.blkSize = 0) : update f h data = some (updateFast f h data) := by
  have hdrop : data.drop (data.length / P.blkSize * P.blkSize) = [] := by
    apply List.drop_eq_nil_of_le
    have hdiv := Nat.div_add_mod' data.length P.blkSize
    omega
  have hoff : h.len0.toNat % P.blkSize = 0 := by rw [ha.off_eq, halign]
  have hwrite : (h.count data.length).buf.write 0 [] = some h.buf :=
    Buf.write_nil h.buf (Nat.zero_le _)
  simp only [update, hoff, fill, ne_eq, not_true_eq_false, if_false, hdrop, hwrite,
    Option.bind_eq_bind, Option.bind_some, pure, updateFast]
  rfl

/-- However a message is cut. -/
theorem run_spec (ha : After f s m h) (pieces : List (List UInt8)) :
    ∃ h', pieces.foldlM (update f) h = some h' ∧ After f s (m ++ pieces.flatten) h' := by
  induction pieces generalizing m h with
  | nil => exact ⟨h, rfl, by rwa [List.flatten_nil, List.append_nil]⟩
  | cons p ps ih =>
    obtain ⟨h₁, hupdate, ha₁, -⟩ := update_spec ha p
    obtain ⟨h', hrun, ha'⟩ := ih ha₁
    refine ⟨h', ?_, ?_⟩
    · rw [List.foldlM_cons, hupdate]
      exact hrun
    · rwa [List.flatten_cons, ← List.append_assoc]

end Drew.Hash
