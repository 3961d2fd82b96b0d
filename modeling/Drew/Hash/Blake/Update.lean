import Drew.Hash.Blake.Model

/-!
# Updates of BLAKE

After a message its whole blocks are compressed, each with the number of bytes up to its end as the
counter, and the rest is in the buffer (`After`). Every call keeps this (`update_spec`).
-/

namespace Drew.Blake

open Drew.Memory Drew.Stream Drew.Hash

variable {P : Hash.Params} {σ : Type} {f : σ → Compression P → σ} {s : σ} {m data rest : List UInt8}
  {h : Hash P σ} {q n k : Nat}

/-! ## The counter -/

/-- `n` bytes are counted, modulo the range of the two words. -/
def Counts (h : Hash P σ) (n : Nat) : Prop := h.counter = n % 2 ^ (2 * P.wordBits)

/-- The compression of a block when `n` bytes are counted. -/
def compression (block : List UInt8) (n : Nat) : Compression P :=
  ⟨block, BitVec.ofNat _ n, BitVec.ofNat _ (n / 2 ^ P.wordBits)⟩

theorem counts_zero (s : σ) : Counts (Hash.init s : Hash P σ) 0 := counter_init s

theorem Counts.count (hc : Counts h n) {i : Nat} (hi : i < 2 ^ P.wordBits) :
    Counts (h.count i) (n + i) := by
  rw [Counts, counter_count, hc, Nat.mod_eq_of_lt hi, Nat.mod_add_mod]

theorem Counts.words (hc : Counts h n) :
    h.len0 = BitVec.ofNat _ n ∧ h.len1 = BitVec.ofNat _ (n / 2 ^ P.wordBits) := by
  obtain ⟨N, hN⟩ : ∃ N, N = 2 ^ P.wordBits := ⟨_, rfl⟩
  have hpos : 0 < N := hN ▸ Nat.two_pow_pos _
  have h0 : h.len0.toNat < N := hN ▸ h.len0.isLt
  have h1 : h.len1.toNat < N := hN ▸ h.len1.isLt
  have hval : h.len1.toNat * N + h.len0.toNat = n % (N * N) := by
    rw [hN, ← pow_add, ← Nat.two_mul]
    exact hc
  have hlow : n % (N * N) % N = n % N := Nat.mod_mul_right_mod n N N
  have hhigh : n % (N * N) / N = n / N % N := Nat.mod_mul_right_div_self n N N
  rw [← hval] at hlow hhigh
  rw [Nat.mul_comm, Nat.mul_add_mod, Nat.mod_eq_of_lt h0] at hlow
  rw [Nat.mul_comm, Nat.mul_add_div hpos, Nat.div_eq_of_lt h0, Nat.add_zero] at hhigh
  constructor
  · apply BitVec.eq_of_toNat_eq
    rw [BitVec.toNat_ofNat, ← hN, hlow]
  · apply BitVec.eq_of_toNat_eq
    rw [BitVec.toNat_ofNat, ← hN, hhigh]

theorem Counts.off_eq (hc : Counts h n) : h.len0.toNat % P.blkSize = n % P.blkSize := by
  rw [hc.words.1, BitVec.toNat_ofNat]
  exact Nat.mod_mod_of_dvd n P.blkSize_dvd

theorem Counts.compression_eq (hc : Counts h n) (block : List UInt8) :
    ⟨block, h.len0, h.len1⟩ = (compression block n : Compression P) := by
  rw [compression, ← hc.words.1, ← hc.words.2]

theorem Counts.compress_eq (hc : Counts h n) (block : List UInt8) :
    compress f h block = { h with hash := f h.hash (compression block n) } := by
  rw [compress, hc.compression_eq]

/-! ## The compressions of whole blocks -/

/-- The compressions of the first `q` blocks of a message. -/
def steps (P : Hash.Params) (q : Nat) (m : List UInt8) : List (Compression P) :=
  (List.range q).map fun i =>
    compression ((m.drop (i * P.blkSize)).take P.blkSize) ((i + 1) * P.blkSize)

theorem steps_succ (q : Nat) (m : List UInt8) :
    steps P (q + 1) m =
      steps P q m ++ [compression ((m.drop (q * P.blkSize)).take P.blkSize) ((q + 1) * P.blkSize)] := by
  simp [steps, List.range_succ]

/-- The first blocks of a text do not depend on what follows. -/
theorem steps_append (h : q * P.blkSize ≤ m.length) (x : List UInt8) :
    steps P q (m ++ x) = steps P q m := by
  apply List.map_congr_left
  intro i hi
  have hi' : i < q := List.mem_range.mp hi
  have hle : (i + 1) * P.blkSize ≤ q * P.blkSize := Nat.mul_le_mul_right _ hi'
  rw [Nat.add_mul, Nat.one_mul] at hle
  rw [List.drop_append_of_le_length (by omega),
    List.take_append_of_le_length (by rw [List.length_drop]; omega)]

/-- The state after a message. -/
structure After (f : σ → Compression P → σ) (s : σ) (m : List UInt8) (h : Hash P σ) : Prop where
  counts : Counts h m.length
  hash : h.hash = (steps P (m.length / P.blkSize) m).foldl f s
  buf : h.buf.Holds 0 (m.drop (m.length / P.blkSize * P.blkSize))

theorem after_nil (f : σ → Compression P → σ) (s : σ) : After f s [] (Hash.init s) := by
  refine ⟨counts_zero s, ?_, ?_⟩
  · rw [List.length_nil, Nat.zero_div]
    rfl
  · rw [List.drop_nil]
    exact Buf.holds_nil (Nat.zero_le _)

theorem after_of (hlo : q * P.blkSize ≤ m.length) (hhi : m.length < (q + 1) * P.blkSize)
    (hcounts : Counts h m.length) (hhash : h.hash = (steps P q m).foldl f s)
    (hbuf : h.buf.Holds 0 (m.drop (q * P.blkSize))) : After f s m h := by
  have hq := div_eq hlo hhi
  exact ⟨hcounts, by rwa [hq], by rwa [hq]⟩

/-- The first `q` blocks are compressed, and nothing else was given yet. -/
structure Pending (f : σ → Compression P → σ) (s : σ) (m : List UInt8) (q : Nat) (h : Hash P σ) :
    Prop where
  counts : Counts h (q * P.blkSize)
  hash : h.hash = (steps P q m).foldl f s
  lo : q * P.blkSize ≤ m.length

section Calls

variable (hbs : P.blkSize < 2 ^ P.wordBits)
include hbs

/-- The loop over whole blocks. -/
theorem wholeBlocks_spec (hp : Pending f s m q h) (hk : (q + k) * P.blkSize ≤ m.length) :
    ∃ h', wholeBlocks f k h (m.drop (q * P.blkSize)) = (h', m.drop ((q + k) * P.blkSize)) ∧
      Pending f s m (q + k) h' := by
  induction k generalizing q h with
  | zero => exact ⟨h, rfl, hp⟩
  | succ k ih =>
      have hsum : q + (k + 1) = q + 1 + k := by omega
      have hnext : (q + 1) * P.blkSize ≤ (q + (k + 1)) * P.blkSize :=
        Nat.mul_le_mul_right _ (by omega)
      have hcount := hp.counts.count hbs
      rw [← Nat.succ_mul] at hcount
      have hstep : Pending f s m (q + 1)
          (compress f (h.count P.blkSize) ((m.drop (q * P.blkSize)).take P.blkSize)) := by
        refine ⟨hcount, ?_, hnext.trans hk⟩
        rw [hcount.compress_eq, steps_succ, List.foldl_append, ← hp.hash]
        rfl
      rw [hsum] at hk ⊢
      obtain ⟨h', hrun, hp'⟩ := ih hstep hk
      refine ⟨h', ?_, hp'⟩
      rw [← hrun, wholeBlocks, List.drop_drop, Nat.succ_mul]

/-- From the end of a block on. -/
theorem finish_spec (hp : Pending f s m q h) :
    ∃ h' h'' w, wholeBlocks f ((m.drop (q * P.blkSize)).length / P.blkSize) h (m.drop (q * P.blkSize)) =
        (h', m.drop (m.length / P.blkSize * P.blkSize)) ∧
      h'.buf.write 0 (m.drop (m.length / P.blkSize * P.blkSize)) = some w ∧
      h'' = Hash.count { h' with buf := w } (m.drop (m.length / P.blkSize * P.blkSize)).length ∧
      After f s m h'' := by
  have hpos := P.blkSize_pos
  obtain ⟨k, hk⟩ : ∃ k, k = (m.drop (q * P.blkSize)).length / P.blkSize := ⟨_, rfl⟩
  have hlo := hp.lo
  have hdivk := Nat.div_add_mod' (m.drop (q * P.blkSize)).length P.blkSize
  have hmodk := Nat.mod_lt (m.drop (q * P.blkSize)).length hpos
  rw [← hk, List.length_drop] at hdivk
  rw [List.length_drop] at hmodk
  have hsum : (q + k) * P.blkSize = q * P.blkSize + k * P.blkSize := Nat.add_mul ..
  have hlast : m.length / P.blkSize = q + k := by
    apply div_eq
    · omega
    · rw [Nat.succ_mul]
      omega
  obtain ⟨h', hrun, hp'⟩ := wholeBlocks_spec hbs hp (k := k) (by omega)
  have hlen : (m.drop ((q + k) * P.blkSize)).length < P.blkSize := by
    rw [List.length_drop]
    omega
  obtain ⟨w, hwrite⟩ := Buf.exists_write_at h'.buf 0 (m.drop ((q + k) * P.blkSize)) (by omega)
  rw [← hk, hlast]
  refine ⟨h', _, w, hrun, hwrite, rfl, ?_⟩
  have hcount : Counts { h' with buf := w } ((q + k) * P.blkSize) := hp'.counts
  apply after_of hp'.lo
  · rw [Nat.succ_mul]
    omega
  · have hall : m.length = (q + k) * P.blkSize + (m.drop ((q + k) * P.blkSize)).length := by
      rw [List.length_drop]
      omega
    have hcounts := hcount.count (hlen.trans hbs)
    rwa [← hall] at hcounts
  · exact hp'.hash
  · exact Buf.holds_write hwrite

/-- What becomes of an incomplete block: with data for it the block is compressed, and with less it
is kept. -/
theorem fill_spec (ha : After f s m h) (data : List UInt8) :
    ∃ h' q, (fill f h data = some (h', (m ++ data).drop (q * P.blkSize)) ∧
        Pending f s (m ++ data) q h') ∨
      fill f h data = some (h', []) ∧ After f s (m ++ data) h' := by
  obtain ⟨q, hq⟩ : ∃ q, q = m.length / P.blkSize := ⟨_, rfl⟩
  obtain ⟨r, hr⟩ : ∃ r, r = m.length % P.blkSize := ⟨_, rfl⟩
  have hrlt : r < P.blkSize := hr ▸ Nat.mod_lt _ P.blkSize_pos
  have hlen : m.length = q * P.blkSize + r := by
    rw [hq, hr, Nat.div_add_mod']
  have hhash := ha.hash
  have hbuf := ha.buf
  have hoff := ha.counts.off_eq
  rw [← hr] at hoff
  rw [← hq] at hhash hbuf
  rw [← steps_append (by omega) data] at hhash
  by_cases h0 : r = 0
  · have hm : m.length = q * P.blkSize := by omega
    refine ⟨h, q, Or.inl ⟨?_, ?_, hhash, ?_⟩⟩
    · rw [fill, hoff, if_neg (not_not.mpr h0), ← hm, List.drop_left]
    · exact hm ▸ ha.counts
    · rw [List.length_append]
      omega
  · obtain ⟨i, hi⟩ : ∃ i, i = min (P.blkSize - r) data.length := ⟨_, rfl⟩
    obtain ⟨w, hwrite⟩ := Buf.exists_write_at h.buf r (data.take i) (by
      rw [List.length_take]
      omega)
    have hrest : (m.drop (q * P.blkSize)).length = r := by
      rw [List.length_drop]
      omega
    have hw : w.Holds 0 (m.drop (q * P.blkSize) ++ data.take i) := by
      apply Buf.Holds.append
      · exact hbuf.write_of_disjoint hwrite (Or.inr (by omega))
      · rw [hrest, Nat.zero_add]
        exact Buf.holds_write hwrite
    have hdrop : (m ++ data).drop (q * P.blkSize) = m.drop (q * P.blkSize) ++ data :=
      List.drop_append_of_le_length (by omega)
    have hcounts : Counts { h with buf := w } m.length := ha.counts
    have hcount := hcounts.count (show i < 2 ^ P.wordBits by omega)
    have hfill : fill f h data = some (if i + r = P.blkSize
        then compress f (Hash.count { h with buf := w } i) w.toList
        else Hash.count { h with buf := w } i, data.drop i) := by
      rw [fill, hoff, if_pos h0]
      simp only [← hi, hwrite, Option.bind_eq_bind, Option.bind_some, pure]
    by_cases hfull : i + r = P.blkSize
    · -- The block is complete.
      have hidx : (q + 1) * P.blkSize = m.length + i := by
        rw [Nat.succ_mul]
        omega
      have hblock : w.toList = ((m ++ data).drop (q * P.blkSize)).take P.blkSize := by
        have hlast : (m.drop (q * P.blkSize) ++ data.take i).length = P.blkSize := by
          rw [List.length_append, hrest, List.length_take]
          omega
        rw [hw.toList hlast, hdrop, ← List.take_append_drop i data, ← List.append_assoc,
          List.take_left' hlast, List.take_append_drop]
      rw [if_pos hfull] at hfill
      refine ⟨compress f (Hash.count { h with buf := w } i) w.toList, q + 1, Or.inl ⟨?_, ?_, ?_, ?_⟩⟩
      · rw [hfill, hidx, ← List.drop_drop, List.drop_left]
      · rw [hidx]
        exact hcount
      · rw [hcount.compress_eq, steps_succ, List.foldl_append, ← hhash, ← hblock, hidx]
        rfl
      · rw [hidx, List.length_append]
        omega
    · -- The block stays incomplete, and nothing is left.
      have hil : i = data.length := by omega
      rw [if_neg hfull, hil, List.drop_length] at hfill
      refine ⟨Hash.count { h with buf := w } data.length, q, Or.inr ⟨hfill, ?_⟩⟩
      rw [hil] at hcount hw
      rw [List.take_length] at hw
      apply after_of (q := q)
      · rw [List.length_append]
        omega
      · rw [List.length_append, Nat.succ_mul]
        omega
      · rw [List.length_append]
        exact hcount
      · exact hhash
      · rw [hdrop]
        exact hw

theorem update_spec (ha : After f s m h) (data : List UInt8) :
    ∃ h', update f h data = some h' ∧ After f s (m ++ data) h' := by
  obtain ⟨h₁, q, hcase⟩ := fill_spec hbs ha data
  rcases hcase with ⟨hfill, hp⟩ | ⟨hfill, hafter⟩
  · obtain ⟨h₂, h', w, hrun, hwrite, rfl, hafter⟩ := finish_spec hbs hp
    refine ⟨_, ?_, hafter⟩
    simp only [update, hfill, hrun, hwrite, Option.bind_eq_bind, Option.bind_some, pure]
  · have hwrite := Buf.write_nil h₁.buf (Nat.zero_le _)
    have hcount : Hash.count h₁ 0 = h₁ := by
      rw [Hash.count, BitVec.add_zero, if_neg (BitVec.lt_irrefl _)]
    refine ⟨h₁, ?_, hafter⟩
    simp only [update, hfill, List.length_nil, Nat.zero_div, wholeBlocks, hwrite, Option.bind_eq_bind,
      Option.bind_some, pure, hcount]

/-- However a message is given in calls. -/
theorem run_spec {digest : Hash P σ → Option (List UInt8)} (ha : After f s m h) (cs : List HashClass.Call) :
    ∃ h', cs.foldlM (hashClass f digest s).step h = some h' ∧
      After f s (m ++ (cs.map HashClass.Call.data).flatten) h' := by
  induction cs generalizing m h with
  | nil => exact ⟨h, rfl, by rwa [List.map_nil, List.flatten_nil, List.append_nil]⟩
  | cons c cs ih =>
      obtain ⟨h₁, hupdate, ha₁⟩ := update_spec hbs ha c.data
      obtain ⟨h', hrun, ha'⟩ := ih ha₁
      have hstep : (hashClass f digest s).step h c = some h₁ := by
        rw [HashClass.step, ← hupdate]
        cases c.fast <;> rfl
      refine ⟨h', ?_, ?_⟩
      · rw [List.foldlM_cons, hstep]
        exact hrun
      · rwa [List.map_cons, List.flatten_cons, ← List.append_assoc]

end Calls

end Drew.Blake
