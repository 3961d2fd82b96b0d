import Drew.Hash.Blake.Update

/-!
# Streams of BLAKE

`Pad` compresses the blocks of the padded message that are left, with the counters that the
specification has: all bits of the message for a block that has some of them, and zero for others
(`pad_spec`). So every stream of calls gives the hash of the message.
-/

namespace Drew.Blake

open Drew.Memory Drew.Stream Drew.Hash

variable {P : Hash.Params} {σ : Type} {f : σ → Compression P → σ} {s : σ} {m xs ys : List UInt8}
  {h : Hash P σ} {q n : Nat} {b : UInt8}

/-! ## The padded message in bytes -/

/-- Bits are set in the last byte. -/
def mark (b : UInt8) (xs : List UInt8) : List UInt8 :=
  xs.take (xs.length - 1) ++ (xs.drop (xs.length - 1)).map (· ||| b)

theorem mark_snoc (b y : UInt8) (xs : List UInt8) : mark b (xs ++ [y]) = xs ++ [y ||| b] := by
  have hlen : (xs ++ [y]).length - 1 = xs.length := by simp
  rw [mark, hlen, List.take_left, List.drop_left, List.map_singleton]

theorem mark_append (b : UInt8) (xs : List UInt8) (hys : ys ≠ []) :
    mark b (xs ++ ys) = xs ++ mark b ys := by
  obtain ⟨zs, z, rfl⟩ : ∃ zs z, ys = zs ++ [z] := ⟨_, _, (List.dropLast_append_getLast hys).symm⟩
  rw [← List.append_assoc, mark_snoc, mark_snoc, List.append_assoc]

@[simp] theorem length_mark (b : UInt8) (xs : List UInt8) : (mark b xs).length = xs.length := by
  simp [mark]

/-- How many zeros there are after the byte that follows a message of `n` bytes. -/
def zeroBytes (P : Hash.Params) (n : Nat) : Nat :=
  (P.blkSize + trip P - 1 - n % P.blkSize) % P.blkSize

/-- A message and its padding. -/
def paddedBytes (P : Hash.Params) (b : UInt8) (m : List UInt8) : List UInt8 :=
  m ++ mark b (0x80 :: List.replicate (zeroBytes P m.length) 0) ++
    beBytes (2 * P.wordBytes) (8 * m.length)

/-- The counter of block `i` in bytes. -/
def counted (P : Hash.Params) (n i : Nat) : Nat :=
  if i * P.blkSize < n then min n ((i + 1) * P.blkSize) else 0

/-- The compressions of the first `k` blocks of a padded message `t`. -/
def calls (P : Hash.Params) (m t : List UInt8) (k : Nat) : List (Compression P) :=
  (List.range k).map fun i => compression ((t.drop (i * P.blkSize)).take P.blkSize) (counted P m.length i)

theorem calls_succ (m t : List UInt8) (k : Nat) :
    calls P m t (k + 1) = calls P m t k ++
      [compression ((t.drop (k * P.blkSize)).take P.blkSize) (counted P m.length k)] := by
  simp [calls, List.range_succ]

/-- The whole blocks of the message. -/
theorem calls_append (hq : q * P.blkSize ≤ m.length) (x : List UInt8) :
    calls P m (m ++ x) q = steps P q m := by
  rw [← steps_append hq x]
  apply List.map_congr_left
  intro i hi
  have hi' : i < q := List.mem_range.mp hi
  have hle : (i + 1) * P.blkSize ≤ q * P.blkSize := Nat.mul_le_mul_right _ hi'
  have hpos := P.blkSize_pos
  have hcounted : counted P m.length i = (i + 1) * P.blkSize := by
    rw [Nat.succ_mul] at hle
    rw [counted, if_pos (by omega), Nat.min_eq_right (by rw [Nat.succ_mul]; omega)]
  rw [hcounted]

/-- The two words of the length are the number of bits. -/
theorem lenBytes_eq (hc : Counts h n) : lenBytes h = beBytes (2 * P.wordBytes) (8 * n) := by
  have hw : 3 ≤ P.wordBits := by
    have hpos := P.wordBytes_pos
    unfold Params.wordBits
    omega
  have hwords := hc.words
  have hbits := lenWords_eq hw n
  rw [← hwords.1, ← hwords.2] at hbits
  have hrange : 256 ^ (2 * P.wordBytes) = 2 ^ P.wordBits * 2 ^ P.wordBits := by
    rw [← pow_add, Params.wordBits, show (256 : Nat) = 2 ^ 8 by norm_num, ← pow_mul]
    congr 1
    ring
  have hval : 8 * n % (2 ^ P.wordBits * 2 ^ P.wordBits) =
      8 * n / 2 ^ P.wordBits % 2 ^ P.wordBits * 2 ^ P.wordBits + 8 * n % 2 ^ P.wordBits := by
    rw [Nat.mod_mul, Nat.mul_comm (2 ^ P.wordBits), Nat.add_comm]
  rw [← beBytes_mod, hrange, hval, lenBytes, hbits.1, hbits.2, BitVec.toNat_ofNat, BitVec.toNat_ofNat]

/-- A block that begins after the message has no bits of it. -/
theorem counted_zero {n i : Nat} (h : n ≤ i * P.blkSize) : counted P n i = 0 :=
  if_neg (Nat.not_lt.mpr h)

/-- All bytes are counted for the block in which the message ends. -/
theorem counted_last {n i : Nat} (hlo : i * P.blkSize < n) (hhi : n ≤ (i + 1) * P.blkSize) :
    counted P n i = n := by
  rw [counted, if_pos hlo, Nat.min_eq_left hhi]

theorem compression_zero (block : List UInt8) :
    (⟨block, 0, 0⟩ : Compression P) = compression block 0 := by
  rw [compression, Nat.zero_div]
  rfl

section Padding

variable (hfit : 2 * P.wordBytes < P.blkSize)
include hfit

theorem zeroBytes_eq (n : Nat) :
    zeroBytes P n = if trip P ≤ n % P.blkSize then P.blkSize + trip P - 1 - n % P.blkSize
      else trip P - 1 - n % P.blkSize := by
  have hlt := Nat.mod_lt n P.blkSize_pos
  have htrip : trip P ≤ P.blkSize := Nat.sub_le ..
  unfold zeroBytes
  split
  · exact Nat.mod_eq_of_lt (by omega)
  · have hsum : P.blkSize + trip P - 1 - n % P.blkSize = (trip P - 1 - n % P.blkSize) + P.blkSize := by
      omega
    rw [hsum, Nat.add_mod_right, Nat.mod_eq_of_lt (by omega)]

theorem length_paddedBytes (b : UInt8) (m : List UInt8) :
    (paddedBytes P b m).length =
      (m.length / P.blkSize + if trip P ≤ m.length % P.blkSize then 2 else 1) * P.blkSize := by
  have hlt := Nat.mod_lt m.length P.blkSize_pos
  have hdiv := Nat.div_add_mod' m.length P.blkSize
  have hz := zeroBytes_eq hfit m.length
  have htrip : trip P = P.blkSize - 2 * P.wordBytes := rfl
  have hlen : (paddedBytes P b m).length =
      m.length + (zeroBytes P m.length + 1) + 2 * P.wordBytes := by
    simp [paddedBytes, Nat.add_assoc]
  rw [hlen, hz, Nat.add_mul]
  split <;> omega

/-! ## The last blocks -/

/-- The block that is completed last. -/
theorem finish_block {buf : Buf UInt8 P.blkSize} {L : List UInt8} (hbuf : buf.Holds 0 xs)
    (hxs : xs.length ≤ trip P) (hL : L.length = 2 * P.wordBytes) :
    ∃ w y w₁ w₂, buf.write xs.length (List.replicate (trip P - xs.length) 0) = some w ∧
      w.load (trip P - 1) = some y ∧ w.store (trip P - 1) (y ||| b) = some w₁ ∧
      w₁.write (trip P) L = some w₂ ∧
      w₂.toList = mark b (xs ++ List.replicate (trip P - xs.length) 0) ++ L := by
  have htrip : trip P = P.blkSize - 2 * P.wordBytes := rfl
  obtain ⟨w, hwrite⟩ := Buf.exists_write_at buf xs.length (List.replicate (trip P - xs.length) 0) (by
    rw [List.length_replicate]
    omega)
  have hlen : (xs ++ List.replicate (trip P - xs.length) (0 : UInt8)).length = trip P := by
    rw [List.length_append, List.length_replicate]
    omega
  have hw : w.Holds 0 (xs ++ List.replicate (trip P - xs.length) 0) := by
    apply Buf.Holds.append
    · exact hbuf.write_of_disjoint hwrite (Or.inr (by omega))
    · rw [Nat.zero_add]
      exact Buf.holds_write hwrite
  obtain ⟨zs, y, hzs⟩ : ∃ zs y, xs ++ List.replicate (trip P - xs.length) (0 : UInt8) = zs ++ [y] := by
    have hne : xs ++ List.replicate (trip P - xs.length) (0 : UInt8) ≠ [] := by
      apply List.ne_nil_of_length_pos
      omega
    exact ⟨_, _, (List.dropLast_append_getLast hne).symm⟩
  rw [hzs] at hw hlen ⊢
  rw [List.length_append, List.length_singleton] at hlen
  have hlast : trip P - 1 = zs.length := by omega
  have hlt : zs.length < P.blkSize := by omega
  have hload : w.load zs.length = some y := by
    have hy := hw.right.load_head
    rwa [Nat.zero_add] at hy
  have hstore := Buf.store_of_lt w (y ||| b) hlt
  have hw₁ : Buf.Holds (w.set zs.length (y ||| b) hlt) 0 (zs ++ [y ||| b]) :=
    hw.left.snoc _ hlt (Nat.zero_add _).symm
  obtain ⟨w₂, hwrite₂⟩ := Buf.exists_write_at (w.set zs.length (y ||| b) hlt) (trip P) L (by omega)
  rw [hlast]
  refine ⟨w, y, _, w₂, hwrite, hload, hstore, hwrite₂, ?_⟩
  rw [mark_snoc]
  apply Buf.Holds.toList
  · apply Buf.Holds.append
    · apply hw₁.write_of_disjoint hwrite₂
      rw [List.length_append, List.length_singleton]
      omega
    · rw [Nat.zero_add, List.length_append, List.length_singleton, hlen]
      exact Buf.holds_write hwrite₂
  · rw [List.length_append, List.length_append, List.length_singleton]
    omega

/-- The padding compresses the blocks that are left. -/
theorem pad_spec {size : Nat} (ha : After f s m h) :
    ∃ h', pad f size h = some h' ∧
      h'.hash = (calls P m (paddedBytes P (marker P size) m)
        ((paddedBytes P (marker P size) m).length / P.blkSize)).foldl f s := by
  obtain ⟨b, hb⟩ : ∃ b, b = marker P size := ⟨_, rfl⟩
  obtain ⟨q, hq⟩ : ∃ q, q = m.length / P.blkSize := ⟨_, rfl⟩
  obtain ⟨r, hr⟩ : ∃ r, r = m.length % P.blkSize := ⟨_, rfl⟩
  obtain ⟨L, hL⟩ : ∃ L, L = beBytes (2 * P.wordBytes) (8 * m.length) := ⟨_, rfl⟩
  have htrip : trip P = P.blkSize - 2 * P.wordBytes := rfl
  have hLlen : L.length = 2 * P.wordBytes := by rw [hL, length_beBytes]
  have hrlt : r < P.blkSize := hr ▸ Nat.mod_lt _ P.blkSize_pos
  have hmlen : m.length = q * P.blkSize + r := by rw [hq, hr, Nat.div_add_mod']
  have hrest : (m.drop (q * P.blkSize)).length = r := by
    rw [List.length_drop]
    omega
  have hbuf := ha.buf
  have hhash := ha.hash
  have hoff := ha.counts.off_eq
  have hplen := length_paddedBytes hfit b m
  have hzeros := zeroBytes_eq hfit m.length
  have hlenBytes := lenBytes_eq ha.counts
  rw [← hq] at hbuf hhash hplen
  rw [← hr] at hoff hplen hzeros
  rw [← hL] at hlenBytes
  rw [← hb]
  have hstore := Buf.store_of_lt h.buf 0x80 hrlt
  have hpadded : Buf.Holds (h.buf.set r 0x80 hrlt) 0 (m.drop (q * P.blkSize) ++ [0x80]) :=
    hbuf.snoc _ hrlt (by omega)
  have hplen' : (m.drop (q * P.blkSize) ++ [(0x80 : UInt8)]).length = r + 1 := by
    rw [List.length_append, hrest, List.length_singleton]
  have hmlo : q * P.blkSize ≤ m.length := by omega
  have hcalls : calls P m (paddedBytes P b m) q = steps P q m := by
    rw [paddedBytes, List.append_assoc, calls_append hmlo]
  by_cases hspill : trip P ≤ r
  · rw [if_pos hspill] at hplen hzeros
    obtain ⟨w, hwrite⟩ := Buf.exists_write_at (h.buf.set r 0x80 hrlt) (r + 1)
      (List.replicate (P.blkSize - (r + 1)) 0) (by
        rw [List.length_replicate]
        omega)
    obtain ⟨first, hfirst⟩ : ∃ first, first =
      m.drop (q * P.blkSize) ++ [0x80] ++ List.replicate (P.blkSize - (r + 1)) 0 := ⟨_, rfl⟩
    have hfirstlen : first.length = P.blkSize := by
      rw [hfirst, List.length_append, hplen', List.length_replicate]
      omega
    have hw : w.toList = first := by
      apply Buf.Holds.toList _ hfirstlen
      rw [hfirst]
      apply Buf.Holds.append
      · exact hpadded.write_of_disjoint hwrite (Or.inr (by omega))
      · rw [hplen', Nat.zero_add]
        exact Buf.holds_write hwrite
    obtain ⟨w₀, y, w₁, w₂, hwrite₀, hload, hstore₁, hwrite₂, hw₂⟩ :=
      finish_block hfit (b := b) (Buf.holds_nil (v := w) (Nat.zero_le _)) (Nat.zero_le _) hLlen
    rw [List.length_nil] at hwrite₀ hw₂
    rw [List.nil_append] at hw₂
    have hlenBytes' : ∀ st : σ, lenBytes (⟨st, w, h.len0, h.len1⟩ : Hash P σ) = L := fun _ => hlenBytes
    refine ⟨⟨f (f h.hash ⟨w.toList, h.len0, h.len1⟩) ⟨w₂.toList, 0, 0⟩, w₂, h.len0, h.len1⟩, ?_, ?_⟩
    · have hzero : ¬(r ≠ 0 ∧ 0 ≠ 0) := fun h => h.2 rfl
      simp only [pad, hoff, hstore, spill, if_pos hspill, hwrite, compress, hwrite₀, hload, ← hb, hstore₁,
        hlenBytes', hwrite₂, if_neg hzero, Option.bind_eq_bind, Option.bind_some, pure]
    · have hsplit : mark b (0x80 :: List.replicate (zeroBytes P m.length) 0) =
          [0x80] ++ List.replicate (P.blkSize - (r + 1)) 0 ++ mark b (List.replicate (trip P) 0) := by
        have hne : List.replicate (trip P) (0 : UInt8) ≠ [] := by
          apply List.ne_nil_of_length_pos
          rw [List.length_replicate]
          omega
        rw [hzeros, show P.blkSize + trip P - 1 - r = P.blkSize - (r + 1) + trip P by omega,
          List.replicate_add, ← mark_append b _ hne]
        simp
      have htail : (paddedBytes P b m).drop (q * P.blkSize) = first ++ w₂.toList := by
        rw [paddedBytes, List.append_assoc, List.drop_append_of_le_length hmlo, hsplit, hw₂, ← hL, hfirst]
        simp
      have hone : (q + 1) * P.blkSize = q * P.blkSize + P.blkSize := Nat.succ_mul ..
      have hnext : (paddedBytes P b m).drop ((q + 1) * P.blkSize) = w₂.toList := by
        rw [hone, ← List.drop_drop, htail, List.drop_left' hfirstlen]
      have hw₂len : w₂.toList.length = P.blkSize := Vector.length_toList
      rw [hplen, Nat.mul_div_cancel _ P.blkSize_pos, calls_succ, calls_succ, hnext, htail,
        List.take_left' hfirstlen, List.take_of_length_le hw₂len.le, counted_last (by omega) (by omega),
        counted_zero (by omega), hcalls, List.foldl_append, List.foldl_append, ← hhash,
        ← compression_zero, ← hw, ← ha.counts.compression_eq]
      rfl
  · rw [if_neg hspill] at hplen hzeros
    obtain ⟨w₀, y, w₁, w₂, hwrite₀, hload, hstore₁, hwrite₂, hw₂⟩ :=
      finish_block hfit (b := b) hpadded (by omega) hLlen
    rw [hplen'] at hwrite₀ hw₂
    have hlenBytes' : lenBytes (⟨h.hash, h.buf.set r 0x80 hrlt, h.len0, h.len1⟩ : Hash P σ) = L :=
      hlenBytes
    refine ⟨⟨f h.hash (if r ≠ 0 ∧ r + 1 ≠ 0 then ⟨w₂.toList, h.len0, h.len1⟩ else ⟨w₂.toList, 0, 0⟩),
      w₂, h.len0, h.len1⟩, ?_, ?_⟩
    · simp only [pad, hoff, hstore, spill, if_neg hspill, hwrite₀, hload, ← hb, hstore₁, hlenBytes',
        hwrite₂, Option.bind_eq_bind, Option.bind_some, pure]
    · have hblock : (paddedBytes P b m).drop (q * P.blkSize) = w₂.toList := by
        rw [paddedBytes, List.append_assoc, List.drop_append_of_le_length hmlo, hzeros, hw₂, ← hL,
          show trip P - 1 - r = trip P - (r + 1) by omega, List.append_assoc, mark_append b _ (by simp)]
        simp
      have hw₂len : w₂.toList.length = P.blkSize := Vector.length_toList
      have hcounted : (if r ≠ 0 ∧ r + 1 ≠ 0 then ⟨w₂.toList, h.len0, h.len1⟩ else ⟨w₂.toList, 0, 0⟩) =
          (compression w₂.toList (counted P m.length q) : Compression P) := by
        by_cases h0 : r = 0
        · rw [if_neg (by omega), counted_zero (by omega), compression_zero]
        · rw [if_pos (by omega), counted_last (by omega) (by rw [Nat.succ_mul]; omega),
            ha.counts.compression_eq]
      rw [hplen, Nat.mul_div_cancel _ P.blkSize_pos, calls_succ, hblock,
        List.take_of_length_le hw₂len.le, hcalls, List.foldl_append, ← hhash, hcounted]
      rfl

end Padding

/-! ## The specification -/

namespace Variant

theorem core_fits (V : Variant) : V.core.Fits := by
  cases V
  · exact blake256Transform_fits
  · exact blake256Transform_fits
  · exact blake512Transform_fits
  · exact blake512Transform_fits

theorem blkSize_lt (V : Variant) : V.core.P.blkSize < 2 ^ V.core.P.wordBits := by
  cases V <;> decide

end Variant

section Specification

variable (V : Variant)

theorem blockBits_eq : Spec.blockBits V.core = 8 * V.core.P.blkSize := by
  rw [Spec.blockBits, Params.wordBits, V.core_fits.blkSize_eq]
  ring

theorem length_fits : 2 * V.core.P.wordBytes < V.core.P.blkSize := by
  have hpos := V.core.P.wordBytes_pos
  rw [V.core_fits.blkSize_eq]
  omega

/-- The marker is set in the variants whose digest has all words. -/
theorem marker_eq : marker V.core.P V.size = if Spec.markerBit V then 1 else 0 := by
  cases V <;> rfl

theorem zeros_eq (n : Nat) :
    Spec.zeros V.core (8 * n) = 8 * zeroBytes V.core.P n + 6 := by
  obtain ⟨k, hk⟩ : ∃ k, k = V.core.P.wordBytes := ⟨_, rfl⟩
  have hpos : 0 < k := hk ▸ V.core.P.wordBytes_pos
  have hbs := V.core_fits.blkSize_eq
  have htrip : trip V.core.P = V.core.P.blkSize - 2 * V.core.P.wordBytes := rfl
  have hlt := Nat.mod_lt n V.core.P.blkSize_pos
  have hdiv := Nat.div_add_mod n V.core.P.blkSize
  have hz := zeroBytes_eq (length_fits V) n
  rw [← hk] at hbs htrip
  rw [htrip, hbs] at hz
  rw [hbs] at hlt hdiv
  have hwords : 8 * n + 2 + 2 * V.core.P.wordBits =
      8 * (n % (16 * k)) + 2 + 16 * k + 8 * (16 * k) * (n / (16 * k)) := by
    rw [Params.wordBits, ← hk]
    nth_rewrite 1 [← hdiv]
    ring
  rw [Spec.zeros, blockBits_eq, hbs, hwords, Nat.add_mul_mod_self_left, hz]
  split
  · have hmod : (8 * (n % (16 * k)) + 2 + 16 * k) % (8 * (16 * k)) =
        8 * (n % (16 * k)) + 2 + 16 * k - 8 * (16 * k) := by
      rw [Nat.mod_eq_sub_mod (by omega), Nat.mod_eq_of_lt (by omega)]
    rw [hmod, Nat.mod_eq_of_lt (by omega)]
    omega
  · rw [Nat.mod_eq_of_lt (show 8 * (n % (16 * k)) + 2 + 16 * k < 8 * (16 * k) by omega),
      Nat.mod_eq_of_lt (by omega)]
    omega

/-- A one bit, zeros and the marker bit. -/
theorem bits_mark (c : Bool) (z : Nat) :
    bits (mark (if c then 1 else 0) (0x80 :: List.replicate z 0)) =
      true :: List.replicate (8 * z + 6) false ++ [c] := by
  cases z with
  | zero => cases c <;> decide
  | succ z =>
      have hsnoc : (0x80 : UInt8) :: List.replicate (z + 1) 0 = (0x80 :: List.replicate z 0) ++ [0] := by
        rw [List.replicate_succ', List.cons_append]
      have hlast : bits [0 ||| (if c then 1 else 0)] = List.replicate 7 false ++ [c] := by
        cases c <;> decide
      have hfirst : natBits 8 (0x80 : UInt8).toNat = true :: List.replicate 7 false := by decide
      have hcount : 8 * (z + 1) + 6 = 7 + (8 * z + 7) := by ring
      rw [hsnoc, mark_snoc, bits_append, hlast, bits_cons, hfirst, bits_replicate_zero, hcount,
        List.replicate_add, List.replicate_add]
      simp

theorem padded_eq (m : List UInt8) :
    Spec.padded V (bits m) = bits (paddedBytes V.core.P (marker V.core.P V.size) m) := by
  have hlen : 2 * V.core.P.wordBits = 8 * (2 * V.core.P.wordBytes) := by
    rw [Params.wordBits]
    ring
  rw [Spec.padded, length_bits, zeros_eq, hlen, paddedBytes, bits_append, bits_append, bits_beBytes,
    marker_eq, bits_mark]
  simp

theorem counter_eq (n i : Nat) : Spec.counter V.core (8 * n) i = 8 * counted V.core.P n i := by
  have hblock : ∀ j, j * Spec.blockBits V.core = 8 * (j * V.core.P.blkSize) := by
    intro j
    rw [blockBits_eq]
    ring
  rw [Spec.counter, counted, hblock, hblock]
  split
  · rw [if_pos (by omega), Nat.mul_min_mul_left]
  · rw [if_neg (by omega)]

end Specification

/-! ## Streams -/

/-- The message that calls give. -/
def message (cs : List HashClass.Call) : List UInt8 := (cs.map HashClass.Call.data).flatten

/-- The blocks of the specification are those of the padded message. -/
theorem blocks_eq (V : Variant) (m : List UInt8) :
    Spec.blocks V (bits m) =
      (List.range ((paddedBytes V.core.P (marker V.core.P V.size) m).length / V.core.P.blkSize)).map
        fun i => (bits (((paddedBytes V.core.P (marker V.core.P V.size) m).drop
          (i * V.core.P.blkSize)).take V.core.P.blkSize), 8 * counted V.core.P m.length i) := by
  have hblock : ∀ j, j * Spec.blockBits V.core = 8 * (j * V.core.P.blkSize) := by
    intro j
    rw [blockBits_eq]
    ring
  rw [Spec.blocks, padded_eq, length_bits, length_bits]
  simp only [hblock, drop_bits, counter_eq]
  rw [blockBits_eq, Nat.mul_div_mul_left _ _ (by norm_num)]
  simp only [take_bits]

theorem bits_words (wb : Nat) (ws : List (BitVec (8 * wb))) :
    bits (ws.flatMap fun x => beBytes wb x.toNat) = ws.flatMap fun x => natBits (8 * wb) x.toNat := by
  induction ws with
  | nil => rfl
  | cons x ws ih =>
      rw [List.flatMap_cons, List.flatMap_cons, bits_append, ih, bits_beBytes]

/-- What a class does with a function for the blocks. -/
theorem hash_calls (V : Variant) (f : σ → Compression V.core.P → σ) (s : σ)
    (digest : Hash V.core.P σ → Option (List UInt8)) (cs : List HashClass.Call) :
    ∃ h h', cs.foldlM (hashClass f digest s).step (Hash.init s) = some h ∧ pad f V.size h = some h' ∧
      h'.hash = (calls V.core.P (message cs) (paddedBytes V.core.P (marker V.core.P V.size) (message cs))
        ((paddedBytes V.core.P (marker V.core.P V.size) (message cs)).length /
          V.core.P.blkSize)).foldl f s := by
  obtain ⟨h, hrun, hafter⟩ : ∃ h, cs.foldlM (hashClass f digest s).step (Hash.init s) = some h ∧ After f s (message cs) h :=
    run_spec V.blkSize_lt (after_nil f s) cs
  obtain ⟨h', hpad, hhash⟩ := @pad_spec V.core.P _ _ _ _ _ (length_fits V) V.size hafter
  exact ⟨h, h', hrun, hpad, hhash⟩

/-- However a message is given in calls, its blocks are compressed with the padding and the counters
of the specification, and the digest is its hash. -/
theorem blake_stream (V : Variant) (cs : List HashClass.Call) :
    (∃ es, compressions V cs = some es ∧
      es.map (fun e => (bits e.block, lenBits V.core e.len0 e.len1)) =
        (Spec.blocks V (bits (message cs))).map fun b =>
          (b.1, BitVec.ofNat _ b.2, BitVec.ofNat _ (b.2 / 2 ^ V.core.P.wordBits))) ∧
    ∃ d, (blake V).digest cs = some d ∧ bits d = Spec.hash V (bits (message cs)) := by
  have hw : 3 ≤ V.core.P.wordBits := by
    have hpos := V.core.P.wordBytes_pos
    unfold Params.wordBits
    omega
  constructor
  · obtain ⟨h, h', hrun, hpad, hhash⟩ :=
      hash_calls V (fun es e => es ++ [e]) [] (fun _ => none) cs
    refine ⟨h'.hash, ?_, ?_⟩
    · simp only [compressions, hrun, hpad, Option.bind_eq_bind, Option.bind_some, pure]
    · rw [hhash, foldl_snoc, List.nil_append, blocks_eq, calls, List.map_map, List.map_map]
      apply List.map_congr_left
      intro i _
      exact congrArg _ (lenBits_eq hw _)
  · obtain ⟨h, h', hrun, hpad, hhash⟩ :=
      hash_calls V (transform V.core) V.iv (getDigest V.core V.size) cs
    refine ⟨(h'.hash.toList.flatMap fun w => beBytes V.core.P.wordBytes w.toNat).take V.size, ?_, ?_⟩
    · simp only [HashClass.digest, hrun, getDigest, hpad, Option.bind_some, Option.map_some]
    · have hchain : h'.hash = (Spec.blocks V (bits (message cs))).foldl
          (fun h b => Spec.compress V.core h (Spec.words V.core b.1) b.2) V.iv := by
        rw [hhash, blocks_eq, calls, List.foldl_map, List.foldl_map]
        congr 1
        ext st i : 2
        exact transform_eq V.core_fits hw st _ _
      rw [Spec.hash, ← hchain, ← take_bits]
      exact congrArg _ (bits_words V.core.P.wordBytes h'.hash.toList)

end Drew.Blake
