import Drew.Hash.Blake2b.Model
import Drew.Hash.Length

/-!
# Updates of BLAKE2b

What an update compresses is determined by the number of bytes before it, whatever the buffer
has (`update_cases`). With the bytes that earlier calls left there (`Held`) it continues the
compressions of the message, unless it leaves a whole block in the buffer (`Loses`): the next
call takes the buffer for empty.
-/

namespace Drew.Blake2b

open Drew.Memory Drew.Stream Drew.Hash

variable {σ : Type} {f : σ → Compression → σ} {s : σ} {m data rest : List UInt8} {h : Ctx σ}
  {q n k : Nat}

/-! ## The counter -/

/-- `n` bytes are counted, modulo the range of the two words. -/
def Counts (h : Ctx σ) (n : Nat) : Prop := h.counter = n % 2 ^ 128

theorem Counts.count (hc : Counts h n) {i : Nat} (hi : i < 2 ^ 64) : Counts (h.count i) (n + i) := by
  have hcount := counter_count h i
  change (h.count i).counter = (h.counter + i % 2 ^ 64) % 2 ^ 128 at hcount
  rw [Counts, hcount, hc, Nat.mod_eq_of_lt hi, Nat.mod_add_mod]

theorem Counts.words (hc : Counts h n) :
    h.len0 = BitVec.ofNat _ n ∧ h.len1 = BitVec.ofNat _ (n / 2 ^ 64) := by
  have h0 : h.len0.toNat < 2 ^ 64 := h.len0.isLt
  have h1 : h.len1.toNat < 2 ^ 64 := h.len1.isLt
  have hval : h.len1.toNat * 2 ^ 64 + h.len0.toNat = n % 2 ^ 128 := hc
  constructor
  · apply BitVec.eq_of_toNat_eq
    rw [BitVec.toNat_ofNat]
    change h.len0.toNat = n % 2 ^ 64
    omega
  · apply BitVec.eq_of_toNat_eq
    rw [BitVec.toNat_ofNat]
    change h.len1.toNat = n / 2 ^ 64 % 2 ^ 64
    omega

theorem Counts.off_eq (hc : Counts h n) : h.len0.toNat % 128 = n % 128 := by
  rw [hc.words.1, BitVec.toNat_ofNat]
  change n % 2 ^ 64 % 128 = n % 128
  omega

theorem Counts.compress_eq (hc : Counts h n) (block : List UInt8) (isFinal : Bool) :
    compress f h block isFinal = { h with hash := f h.hash (compression block n isFinal) } := by
  rw [compress, compression, hc.words.1, hc.words.2]

theorem counts_zero (s : σ) : Counts (Hash.init s : Ctx σ) 0 := counter_init s

/-! ## The calls of an update -/

/-- The compressions of `k` blocks of a text when `n` bytes were counted before it. -/
def blockCalls (n : Nat) (text : List UInt8) (k : Nat) : List Compression :=
  (List.range k).map fun j => compression ((text.drop (j * 128)).take 128) (n + (j + 1) * 128) false

theorem blockCalls_succ (n : Nat) (text : List UInt8) (k : Nat) :
    blockCalls n text (k + 1) =
      compression (text.take 128) (n + 128) false :: blockCalls (n + 128) (text.drop 128) k := by
  simp only [blockCalls, List.range_succ_eq_map, List.map_cons, List.map_map, Nat.zero_mul,
    List.drop_zero, Nat.zero_add, Nat.one_mul, List.cons.injEq, true_and]
  apply List.map_congr_left
  intro j _
  rw [Function.comp_apply, List.drop_drop, Nat.succ_eq_add_one]
  congr 1
  · congr 2
    ring
  · ring

@[simp] theorem length_blockCalls (n : Nat) (text : List UInt8) (k : Nat) :
    (blockCalls n text k).length = k := by
  simp [blockCalls]

theorem wholeBlocks_spec (hc : Counts h n) (k : Nat) (text : List UInt8) :
    ∃ h', wholeBlocks f k h text = (h', text.drop (k * 128)) ∧ Counts h' (n + k * 128) ∧
      h'.hash = (blockCalls n text k).foldl f h.hash ∧ h'.buf = h.buf := by
  induction k generalizing h n text with
  | zero => exact ⟨h, by simp [wholeBlocks], by simpa using hc, by simp [blockCalls], rfl⟩
  | succ k ih =>
    have hc' := hc.count (show 128 < 2 ^ 64 by norm_num)
    have hcomp : Counts (compress f (h.count 128) (text.take 128) false) (n + 128) := hc'
    obtain ⟨h', hrun, hcount, hhash, hbuf⟩ := ih hcomp (text.drop 128)
    refine ⟨h', ?_, ?_, ?_, hbuf⟩
    · rw [wholeBlocks, hrun, List.drop_drop]
      congr 2
      ring
    · rwa [Nat.add_mul, Nat.one_mul, Nat.add_comm (k * 128), ← Nat.add_assoc]
    · rw [blockCalls_succ, List.foldl_cons, hhash, hc'.compress_eq]
      rfl

/-- Blocks as long as more than a block is left, and the rest to the buffer. -/
theorem finish_spec (hc : Counts h n) (text : List UInt8) :
    ∃ h' w, wholeBlocks f ((text.length - 1) / 128) h text =
        (h', text.drop ((text.length - 1) / 128 * 128)) ∧
      h'.buf.write 0 (text.drop ((text.length - 1) / 128 * 128)) = some w ∧
      h.buf.write 0 (text.drop ((text.length - 1) / 128 * 128)) = some w ∧
      Counts (Hash.count { h' with buf := w } (text.drop ((text.length - 1) / 128 * 128)).length)
        (n + text.length) ∧
      h'.hash = (blockCalls n text ((text.length - 1) / 128)).foldl f h.hash := by
  obtain ⟨k, hk⟩ : ∃ k, k = (text.length - 1) / 128 := ⟨_, rfl⟩
  rw [← hk]
  obtain ⟨h', hrun, hcount, hhash, hbuf⟩ := wholeBlocks_spec (f := f) hc k text
  have hlen : (text.drop (k * 128)).length ≤ 128 := by
    rw [List.length_drop]
    omega
  obtain ⟨w, hwrite⟩ := Buf.exists_write_at h.buf 0 (text.drop (k * 128)) (by
    change 0 + (text.drop (k * 128)).length ≤ 128
    omega)
  refine ⟨h', w, hrun, by rwa [hbuf], hwrite, ?_, hhash⟩
  have hcount' : Counts { h' with buf := w } (n + k * 128) := hcount
  have hsum : n + k * 128 + (text.drop (k * 128)).length = n + text.length := by
    rw [List.length_drop]
    omega
  rw [← hsum]
  exact hcount'.count (by omega)

/-- What an update does at the beginning of a block, within one, and at its end. -/
theorem update_cases (hc : Counts h n) (data : List UInt8) :
    ∃ h', update f h data = some h' ∧ Counts h' (n + data.length) ∧
      ((n % 128 = 0 ∧ h'.hash = (blockCalls n data ((data.length - 1) / 128)).foldl f h.hash ∧
          h.buf.write 0 (data.drop ((data.length - 1) / 128 * 128)) = some h'.buf) ∨
        (n % 128 ≠ 0 ∧ n % 128 + data.length < 128 ∧ h'.hash = h.hash ∧
          h.buf.write (n % 128) data = some h'.buf) ∨
        (n % 128 ≠ 0 ∧ 128 ≤ n % 128 + data.length ∧
          ∃ w i rest, i = 128 - n % 128 ∧ rest = data.drop i ∧
            h.buf.write (n % 128) (data.take i) = some w ∧
            h'.hash = (blockCalls (n + i) rest ((rest.length - 1) / 128)).foldl f
              (f h.hash (compression w.toList (n + i) false)) ∧
            w.write 0 (rest.drop ((rest.length - 1) / 128 * 128)) = some h'.buf)) := by
  have hoff := hc.off_eq
  have hlt : n % 128 < 128 := Nat.mod_lt _ (by norm_num)
  by_cases h0 : n % 128 = 0
  · obtain ⟨h', w, hrun, hwrite', hwrite, hcount, hhash⟩ := finish_spec (f := f) hc data
    refine ⟨_, ?_, hcount, Or.inl ⟨h0, hhash, hwrite⟩⟩
    have hfill : fill f h data = some (h, data) := by rw [fill, hoff, if_neg (not_not.mpr h0)]
    simp only [update, hfill, hrun, hwrite', Option.bind_eq_bind, Option.bind_some, pure]
  · obtain ⟨i, hi⟩ : ∃ i, i = min (128 - n % 128) data.length := ⟨_, rfl⟩
    obtain ⟨w, hwrite⟩ := Buf.exists_write_at h.buf (n % 128) (data.take i) (by
      change n % 128 + (data.take i).length ≤ 128
      rw [List.length_take]
      omega)
    have hbuf : Counts { h with buf := w } n := hc
    have hcount := hbuf.count (show i < 2 ^ 64 by omega)
    have hfill : fill f h data = some (if i + n % 128 = 128
        then compress f (Hash.count { h with buf := w } i) w.toList false
        else Hash.count { h with buf := w } i, data.drop i) := by
      rw [fill, hoff, if_pos h0]
      simp only [← hi, hwrite, Option.bind_eq_bind, Option.bind_some, pure]
    by_cases hpart : n % 128 + data.length < 128
    · have hil : i = data.length := by omega
      subst hil
      obtain ⟨h', w', hrun, hwrite', hwrite'', hcount', hhash⟩ := finish_spec (f := f) hcount []
      rw [if_neg (by omega), List.drop_length] at hfill
      rw [List.take_length] at hwrite
      rw [List.drop_nil] at hrun hwrite' hwrite'' hcount'
      have hsame : w' = w := by
        have hnil : w.write 0 [] = some w := Buf.write_nil w (Nat.zero_le _)
        exact Option.some.inj (hwrite''.symm.trans hnil)
      refine ⟨_, ?_, hcount', Or.inr (Or.inl ⟨h0, hpart, hhash, ?_⟩)⟩
      · simp only [update, hfill, hrun, hwrite', Option.bind_eq_bind, Option.bind_some, pure]
      · rw [hsame] at *
        exact hwrite
    · have hie : i = 128 - n % 128 := by omega
      obtain ⟨h₁, hh₁⟩ : ∃ h₁, h₁ = compress f (Hash.count { h with buf := w } i) w.toList false :=
        ⟨_, rfl⟩
      have hcount₁ : Counts h₁ (n + i) := by
        rw [hh₁]
        exact hcount
      have hhash₁ : h₁.hash = f h.hash (compression w.toList (n + i) false) := by
        rw [hh₁, hcount.compress_eq]
        rfl
      have hbuf₁ : h₁.buf = w := by
        rw [hh₁]
        rfl
      rw [if_pos (by omega), ← hh₁] at hfill
      obtain ⟨h', w', hrun, hwrite', hwrite'', hcount', hhash⟩ :=
        finish_spec (f := f) hcount₁ (data.drop i)
      have hsum : n + i + (data.drop i).length = n + data.length := by
        rw [List.length_drop]
        omega
      rw [hsum] at hcount'
      rw [hhash₁] at hhash
      rw [hbuf₁] at hwrite''
      refine ⟨Hash.count { h' with buf := w' } _, ?_, hcount', Or.inr (Or.inr ⟨h0, by omega, w, i,
        data.drop i, hie, rfl, hwrite, hhash, hwrite''⟩)⟩
      simp only [update, hfill, hrun, hwrite', Option.bind_eq_bind, Option.bind_some, pure]

/-! ## The compressions of a message -/

@[simp] theorem length_steps (q : Nat) (m : List UInt8) : (steps q m).length = q := by
  simp [steps]

theorem steps_succ (q : Nat) (m : List UInt8) :
    steps (q + 1) m = steps q m ++ [compression ((m.drop (q * 128)).take 128) ((q + 1) * 128) false] := by
  simp [steps, List.range_succ]

/-- The first blocks of a text do not depend on what follows. -/
theorem steps_append (h : q * 128 ≤ m.length) (x : List UInt8) : steps q (m ++ x) = steps q m := by
  apply List.map_congr_left
  intro i hi
  have hi' : i < q := List.mem_range.mp hi
  have hle : (i + 1) * 128 ≤ q * 128 := Nat.mul_le_mul_right _ hi'
  rw [Nat.add_mul, Nat.one_mul] at hle
  rw [List.drop_append_of_le_length (by omega),
    List.take_append_of_le_length (by rw [List.length_drop]; omega)]

/-- The next blocks are those of what follows whole blocks. -/
theorem steps_add (h : m.length = q * 128) (x : List UInt8) (k : Nat) :
    steps (q + k) (m ++ x) = steps q m ++ blockCalls m.length x k := by
  rw [← steps_append h.ge x, steps, List.range_add, List.map_append, List.map_map]
  congr 1
  apply List.map_congr_left
  intro j _
  rw [Function.comp_apply, Nat.add_mul q j, ← h, ← List.drop_drop, List.drop_left, h]
  congr 1
  ring

/-! ## The state after a message -/

/-- `q` blocks of the message are compressed, and at most a block more is in the buffer. -/
structure Held (f : σ → Compression → σ) (s : σ) (q : Nat) (m : List UInt8) (h : Ctx σ) : Prop where
  counts : Counts h m.length
  hash : h.hash = (steps q m).foldl f s
  buf : h.buf.Holds 0 (m.drop (q * 128))
  lo : q * 128 ≤ m.length
  hi : m.length ≤ (q + 1) * 128

theorem held_nil (f : σ → Compression → σ) (s : σ) : Held f s 0 [] (Hash.init s) := by
  refine ⟨counts_zero s, rfl, ?_, Nat.zero_le _, Nat.zero_le _⟩
  rw [List.drop_nil]
  exact Buf.holds_nil (Nat.zero_le _)

/-- A call leaves a whole block in the buffer. `n` bytes were given before. -/
def Loses (n len : Nat) : Prop :=
  0 < len ∧ (n + len) % 128 = 0 ∧ (n % 128 = 0 ∨ n % 128 + len ≠ 128)

/-- A call completes a block that an earlier call began, and ends there. -/
def Completes (n len : Nat) : Prop := n % 128 ≠ 0 ∧ n % 128 + len = 128

instance (n len : Nat) : Decidable (Loses n len) := inferInstanceAs (Decidable (_ ∧ _ ∧ _))

instance (n len : Nat) : Decidable (Completes n len) := inferInstanceAs (Decidable (_ ∧ _))

/-- From the end of a block on. -/
theorem held_blocks {h' : Ctx σ} (hm : m.length = q * 128) (x : List UInt8)
    (hcount : Counts h' (m ++ x).length)
    (hhash : h'.hash = (blockCalls m.length x ((x.length - 1) / 128)).foldl f ((steps q m).foldl f s))
    (hbuf : h'.buf.Holds 0 (x.drop ((x.length - 1) / 128 * 128))) :
    Held f s (q + (x.length - 1) / 128) (m ++ x) h' := by
  obtain ⟨k, hk⟩ : ∃ k, k = (x.length - 1) / 128 := ⟨_, rfl⟩
  rw [← hk] at hhash hbuf ⊢
  refine ⟨hcount, ?_, ?_, ?_, ?_⟩
  · rw [steps_add hm, List.foldl_append, hhash]
  · rwa [Nat.add_mul, ← hm, ← List.drop_drop, List.drop_left]
  · rw [List.length_append, Nat.add_mul]
    omega
  · rw [List.length_append, Nat.add_mul, Nat.add_mul, Nat.one_mul]
    omega

/-- An update that does not follow a whole block in the buffer. -/
theorem Held.update (hh : Held f s q m h) (hlt : m.length < (q + 1) * 128) (hne : data ≠ []) :
    ∃ h' q', Blake2b.update f h data = some h' ∧ Held f s q' (m ++ data) h' ∧
      (¬ Loses m.length data.length ∧ (m ++ data).length < (q' + 1) * 128 ∨
        Loses m.length data.length ∧ (m ++ data).length = (q' + 1) * 128) := by
  have hpos := List.length_pos_of_ne_nil hne
  have hlo := hh.lo
  have hbufrest : (m.drop (q * 128)).length = m.length - q * 128 := List.length_drop
  obtain ⟨h', hupdate, hcount, hcase⟩ := update_cases (f := f) hh.counts data
  rw [← List.length_append] at hcount
  rw [Nat.add_mul, Nat.one_mul] at hlt
  rcases hcase with ⟨h0, hhash, hwrite⟩ | ⟨h0, hpart, hhash, hwrite⟩ |
    ⟨h0, hfull, w, i, rest, hi, hrest, hwrite, hhash, hwrite'⟩
  · have hm : m.length = q * 128 := by omega
    rw [hh.hash] at hhash
    refine ⟨h', _, hupdate, held_blocks hm data hcount hhash (Buf.holds_write hwrite), ?_⟩
    rw [List.length_append, Loses, Nat.add_mul, Nat.add_mul, Nat.one_mul]
    omega
  · have hoff : m.length % 128 = m.length - q * 128 := by omega
    rw [hoff] at hwrite
    refine ⟨h', q, hupdate, ⟨hcount, ?_, ?_, ?_, ?_⟩, Or.inl ⟨?_, ?_⟩⟩
    · rw [hhash, hh.hash, steps_append hh.lo]
    · rw [List.drop_append_of_le_length hh.lo]
      apply Buf.Holds.append
      · exact hh.buf.write_of_disjoint hwrite (Or.inr (by omega))
      · rw [Nat.zero_add, hbufrest]
        exact Buf.holds_write hwrite
    · rw [List.length_append]
      omega
    · rw [List.length_append, Nat.add_mul, Nat.one_mul]
      omega
    · rintro ⟨-, hmod, -⟩
      omega
    · rw [List.length_append, Nat.add_mul, Nat.one_mul]
      omega
  · have hoff : m.length % 128 = m.length - q * 128 := by omega
    have htake : (data.take i).length = i := by
      rw [List.length_take]
      omega
    have hm : (m ++ data.take i).length = (q + 1) * 128 := by
      rw [List.length_append, htake, Nat.add_mul, Nat.one_mul]
      omega
    have hblock : w.toList = ((m ++ data.take i).drop (q * 128)).take 128 := by
      have hholds : w.Holds 0 ((m ++ data.take i).drop (q * 128)) := by
        rw [List.drop_append_of_le_length hh.lo]
        apply Buf.Holds.append
        · exact hh.buf.write_of_disjoint hwrite (Or.inr (by omega))
        · rw [Nat.zero_add, hbufrest, ← hoff]
          exact Buf.holds_write hwrite
      have hlen : ((m ++ data.take i).drop (q * 128)).length = 128 := by
        rw [List.length_drop, hm, Nat.add_mul, Nat.one_mul]
        omega
      rw [hholds.toList hlen, List.take_of_length_le hlen.le]
    have hn : m.length + i = (m ++ data.take i).length := by rw [List.length_append, htake]
    have hsteps : f h.hash (compression w.toList (m.length + i) false) =
        (steps (q + 1) (m ++ data.take i)).foldl f s := by
      rw [steps_succ, List.foldl_append, steps_append hh.lo, ← hh.hash, hblock, hn, hm]
      rfl
    rw [hsteps, hn] at hhash
    have htext : m ++ data = (m ++ data.take i) ++ rest := by
      rw [hrest, List.append_assoc, List.take_append_drop]
    have hrlen : rest.length = data.length - i := by rw [hrest, List.length_drop]
    rw [htext] at hcount ⊢
    refine ⟨h', _, hupdate, held_blocks hm rest hcount hhash (Buf.holds_write hwrite'), ?_⟩
    rw [List.length_append, hm, Loses, Nat.add_mul, Nat.add_mul, Nat.one_mul]
    omega

/-- The rest of the buffer is filled up, from the offset on that the counter gives. -/
theorem pad_spec (hc : Counts h n) :
    ∃ h' w, pad f h = some h' ∧ h.buf.write (n % 128) (List.replicate (128 - n % 128) 0) = some w ∧
      h'.hash = f h.hash (compression w.toList n true) := by
  obtain ⟨w, hwrite⟩ := Buf.exists_write_at h.buf (n % 128) (List.replicate (128 - n % 128) 0) (by
    change n % 128 + (List.replicate (128 - n % 128) (0 : UInt8)).length ≤ 128
    rw [List.length_replicate]
    omega)
  have hbuf : Counts { h with buf := w } n := hc
  refine ⟨compress f { h with buf := w } w.toList true, w, ?_, hwrite, ?_⟩
  · simp only [pad, hc.off_eq, hwrite, Option.bind_eq_bind, Option.bind_some, pure]
  · rw [hbuf.compress_eq]

/-- What is in the buffer is compressed with zeros after it, if it is not a whole block. -/
theorem Held.pad (hh : Held f s q m h) (hlt : m.length < (q + 1) * 128) :
    ∃ h', Blake2b.pad f h = some h' ∧ h'.hash = (steps q m ++ [compression
      (m.drop (q * 128) ++ List.replicate (128 - (m.length - q * 128)) 0) m.length true]).foldl f s := by
  rw [Nat.add_mul, Nat.one_mul] at hlt
  have hlo := hh.lo
  have hoff : m.length % 128 = m.length - q * 128 := by omega
  obtain ⟨h', w, hpad, hwrite, hhash⟩ := pad_spec (f := f) hh.counts
  have hrest : (m.drop (q * 128)).length = m.length % 128 := by rw [List.length_drop, hoff]
  have hw : w.toList = m.drop (q * 128) ++ List.replicate (128 - (m.length - q * 128)) 0 := by
    rw [← hoff]
    apply Buf.Holds.toList
    · apply Buf.Holds.append
      · exact hh.buf.write_of_disjoint hwrite (Or.inr (by omega))
      · rw [Nat.zero_add, hrest]
        exact Buf.holds_write hwrite
    · rw [List.length_append, hrest, List.length_replicate]
      change m.length % 128 + (128 - m.length % 128) = 128
      omega
  refine ⟨h', hpad, ?_⟩
  rw [hhash, hw, hh.hash, List.foldl_append]
  rfl

/-- A whole block in the buffer is overwritten with zeros. -/
theorem Held.pad_full (hh : Held f s q m h) (hfull : m.length = (q + 1) * 128) :
    ∃ h', Blake2b.pad f h = some h' ∧ h'.hash = (steps q m ++
      [compression (List.replicate 128 0) m.length true]).foldl f s := by
  obtain ⟨h', w, hpad, hwrite, hhash⟩ := pad_spec (f := f) hh.counts
  have hoff : m.length % 128 = 0 := by omega
  rw [hoff] at hwrite
  have hw : w.toList = List.replicate 128 0 := (Buf.holds_write hwrite).toList (by simp; rfl)
  refine ⟨h', hpad, ?_⟩
  rw [hhash, hw, hh.hash, List.foldl_append]
  rfl

/-- An empty call changes nothing. -/
theorem update_nil (hc : Counts h n) : update f h [] = some h := by
  obtain ⟨h', hupdate, hcount, hcase⟩ := update_cases (f := f) hc []
  have hoff : n % 128 < 128 := Nat.mod_lt _ (by norm_num)
  have hsame : h'.hash = h.hash ∧ h'.buf = h.buf := by
    rcases hcase with ⟨-, hhash, hwrite⟩ | ⟨-, -, hhash, hwrite⟩ | ⟨-, hfull, -⟩
    · exact ⟨hhash, (Option.some.inj (hwrite.symm.trans (Buf.write_nil h.buf (Nat.zero_le _)))).symm ▸ rfl⟩
    · exact ⟨hhash, (Option.some.inj (hwrite.symm.trans (Buf.write_nil h.buf hoff.le))).symm ▸ rfl⟩
    · rw [List.length_nil] at hfull
      omega
  rw [List.length_nil, Nat.add_zero] at hcount
  have hwords := hcount.words
  rw [← hc.words.1, ← hc.words.2] at hwords
  rw [hupdate]
  obtain ⟨hash, buf, len0, len1⟩ := h
  obtain ⟨hash', buf', len0', len1'⟩ := h'
  obtain ⟨rfl, rfl⟩ := hsame
  obtain ⟨rfl, rfl⟩ := hwords
  rfl

end Drew.Blake2b
