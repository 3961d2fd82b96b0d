import Drew.Hash.Length

/-!
# The blocks of a padded message

What the blocks that go through `Transform` are, without the number of zeros: whole blocks which make up the
message, a byte, zeros and the length. They are that exactly if the length that `Pad` writes is the right one
(`completed_iff`). The words of `Tiger::Pad` are too small for it from `2 ^ 29` bytes on.
-/

namespace Drew.Hash

open Drew.Memory Drew.Stream

variable {P : Params} {pieces : List (List UInt8)}

/-- Whole blocks of a message, the byte behind it, fewer zeros than a block has bytes, and its length in bits. -/
def Padding.Completes (D : Padding P) (m : List UInt8) (blocks : List (List UInt8)) : Prop :=
  (∀ b ∈ blocks, b.length = P.blkSize) ∧
    ∃ z < P.blkSize, blocks.flatten = m ++ D.padByte :: List.replicate z 0 ++
      (List.replicate D.zeroBytes 0 ++ D.copyLength (8 * m.length))

theorem length_of_mem_blocksOf {t b : List UInt8} (hb : b ∈ blocksOf P t) : b.length = P.blkSize :=
  length_of_mem_chunks (Nat.div_mul_le_self _ _) hb

/-- The last bytes decide. -/
theorem completes_paddedWith_iff (D : Padding P) (m : List UInt8) (len : Nat) :
    D.Completes m (blocksOf P (D.paddedWith m len)) ↔ D.copyLength len = D.copyLength (8 * m.length) := by
  rw [Padding.Completes, flatten_blocksOf_paddedWith]
  constructor
  · rintro ⟨-, z, -, hflat⟩
    have htails := (List.append_inj' hflat (by simp)).2
    exact List.append_cancel_left htails
  · intro hcopy
    refine ⟨fun b => length_of_mem_blocksOf, D.zeros m.length, Nat.mod_lt _ P.blkSize_pos, ?_⟩
    rw [Padding.paddedWith, hcopy]

/-- With the length that `Pad` takes from `m_len`. -/
theorem blocksPassed_eq (D : Padding P) (hcall : ∀ p ∈ pieces, p.length < 2 ^ P.wordBits) :
    blocksPassed D pieces = some (blocksOf P (D.paddedWith pieces.flatten
      (8 * pieces.flatten.length / 2 ^ P.wordBits % 2 ^ (8 * D.lenBytes) * 2 ^ (8 * D.lenBytes) +
        8 * pieces.flatten.length % 2 ^ (8 * D.lenBytes)))) := by
  obtain ⟨h, hrun, ha⟩ := run_spec (after_nil (P := P) note []) pieces
  obtain ⟨h', hpad, hhash⟩ := pad_spec D ha
  have hshort : ∀ p ∈ pieces, p.length % 2 ^ (2 * P.wordBits) < 2 ^ P.wordBits := fun p hp =>
    (Nat.mod_le _ _).trans_lt (hcall p hp)
  have hlen := counter_run (after_nil (P := P) note []) (counter_init _) hshort hrun
  have hfold : ∀ bs : List (List UInt8), bs.foldl note [] = bs := fun bs => foldl_snoc [] bs
  rw [bitLength_spec D hlen, List.nil_append, hfold] at hhash
  simp only [blocksPassed, hrun, hpad, hhash, Option.bind_eq_bind, Option.bind_some, pure]

theorem completed_iff (D : Padding P) (hcall : ∀ p ∈ pieces, p.length < 2 ^ P.wordBits) :
    (∃ blocks, blocksPassed D pieces = some blocks ∧ D.Completes pieces.flatten blocks) ↔
      D.LengthFits pieces.flatten.length := by
  rw [← copyLength_eq_iff, ← completes_paddedWith_iff, blocksPassed_eq D hcall]
  constructor
  · rintro ⟨blocks, hblocks, hcompletes⟩
    rwa [Option.some.inj hblocks]
  · exact fun h => ⟨_, rfl, h⟩

/-! ## Tiger -/

/-- The two words of `len` in `Tiger::Pad` get bits 64 to 95 and 0 to 31 of the length in bits. That is its
length in 64 bits exactly if bits 32 to 63 are the same as bits 64 to 95. -/
theorem tiger_blocks_iff (pieces : List (List UInt8)) (hcall : ∀ p ∈ pieces, p.length < 2 ^ 64) :
    ((∃ blocks, blocksPassed .tiger pieces = some blocks ∧ (∀ b ∈ blocks, b.length = 64) ∧
        ∃ z < 64, blocks.flatten = pieces.flatten ++ 0x01 :: List.replicate z 0 ++
          (beBytes 8 (8 * pieces.flatten.length)).reverse) ↔
      8 * pieces.flatten.length / 2 ^ 64 % 2 ^ 32 = 8 * pieces.flatten.length / 2 ^ 32 % 2 ^ 32) ∧
    (pieces.flatten.length < 2 ^ 61 →
      (8 * pieces.flatten.length / 2 ^ 64 % 2 ^ 32 = 8 * pieces.flatten.length / 2 ^ 32 % 2 ^ 32 ↔
        pieces.flatten.length < 2 ^ 29)) :=
  ⟨completed_iff .tiger hcall, fun hlen => by omega⟩

theorem tiger_blocks_iff_one :
    ((∃ blocks, blocksPassed .tiger [[0x61]] = some blocks ∧ (∀ b ∈ blocks, b.length = 64) ∧
        ∃ z < 64, blocks.flatten = [0x61] ++ 0x01 :: List.replicate z 0 ++ (beBytes 8 (8 * 1)).reverse) ↔
      8 * 1 / 2 ^ 64 % 2 ^ 32 = 8 * 1 / 2 ^ 32 % 2 ^ 32) ∧
    (1 < 2 ^ 61 → (8 * 1 / 2 ^ 64 % 2 ^ 32 = 8 * 1 / 2 ^ 32 % 2 ^ 32 ↔ 1 < 2 ^ 29)) :=
  tiger_blocks_iff [[0x61]] (by simp)

/-- A message of `2 ^ 29` bytes. -/
theorem tiger_long_message :
    ¬ ∃ blocks, blocksPassed .tiger [List.replicate (2 ^ 29) 0] = some blocks ∧ (∀ b ∈ blocks, b.length = 64) ∧
      ∃ z < 64, blocks.flatten = [List.replicate (2 ^ 29) 0].flatten ++ 0x01 :: List.replicate z 0 ++
        (beBytes 8 (8 * [List.replicate (2 ^ 29) (0 : UInt8)].flatten.length)).reverse := by
  have hcall : ∀ p ∈ [List.replicate (2 ^ 29) (0 : UInt8)], p.length < 2 ^ 64 := by
    intro p hp
    rw [List.mem_singleton.mp hp, List.length_replicate]
    norm_num
  intro hblocks
  have hfits : Padding.tiger.LengthFits _ := (completed_iff .tiger hcall).mp hblocks
  rw [List.flatten_singleton, List.length_replicate] at hfits
  exact absurd hfits (show ¬ 8 * 2 ^ 29 / 2 ^ 64 % 2 ^ 32 = 8 * 2 ^ 29 / 2 ^ 32 % 2 ^ 32 by norm_num)

end Drew.Hash

/-!
## The padding of JH

`JH::Pad` writes its zeros in a loop, which puts a block through `Transform` whenever it is full, also one that the
byte behind the message fills. At most two passes are made, and the last one ends where the length begins.
-/

namespace Drew.Jh

open Drew.Memory Drew.Stream Drew.Hash

variable {σ : Type} (f : σ → List UInt8 → σ)

/-! ## The function -/

theorem lenBytes_le : 8 ≤ Hash.Params.tiger.wordBytes := by decide

theorem lenBytes_fits : 0 + 2 * 8 ≤ Hash.Params.tiger.blkSize := by decide

/-- The length of JH has 128 bits and the byte order `BigEndian`, although that of the class is another one. -/
def padding : Hash.Padding .tiger where
  bigEndian := true
  padByte := 0x80
  lenBytes := 8
  zeroBytes := 0
  lenBytes_le := lenBytes_le
  fits := lenBytes_fits

/-- `totalpad`. The remainder is taken of a `size_t`, so that `modval` is not negative. -/
def totalpad (len0 : BitVec 64) : Nat :=
  let modval : Int := ((-len0) % 64).toNat
  (48 - 1 + if modval < 0 then modval + 64 else modval).toNat

/-- The variables of the loop: the object, `off` and `totalpad`. -/
structure Pass (σ : Type) where
  h : Hash .tiger σ
  off : Nat
  total : Nat

/-- The body of the loop. -/
def pass (x : Pass σ) : Option (Pass σ) := do
  let npadded := min x.total (64 - x.off)
  let buf ← x.h.buf.write x.off (List.replicate npadded 0)
  let off := x.off + npadded
  let h := { x.h with buf := buf }
  if off = 64 then some ⟨{ h with hash := f h.hash buf.toList }, 0, x.total - npadded⟩
  else some ⟨h, off, x.total - npadded⟩

/-- The loop, if it ends after at most that many passes. -/
def loop : Nat → Pass σ → Option (Pass σ)
  | 0, x => if x.total = 0 then some x else none
  | n + 1, x => if x.total = 0 then some x else (pass f x).bind (loop n)

/-- `Pad`. A number of bytes below zero would be taken as a large one. -/
def pad (passes : Nat) (h : Hash .tiger σ) : Option (Hash .tiger σ) := do
  let noff := h.len0.toNat % 64
  let (hi, lo) := h.bitLength padding
  let buf ← h.buf.store noff 0x80
  let x ← loop f passes ⟨{ h with buf := buf }, noff + 1, totalpad h.len0⟩
  if 48 < x.off then none
  else do
    let buf ← x.h.buf.write x.off (List.replicate (48 - x.off) 0)
    let buf ← buf.write 48 (padding.copyLength (hi * 2 ^ 64 + lo))
    return { x.h with hash := f x.h.hash buf.toList, buf := buf }

/-! ## The loop -/

/-- The blocks of a text went through `Transform`, except for the last `off` bytes, which are in the buffer. -/
structure Fed (s : σ) (t : List UInt8) (q off : Nat) (h : Hash .tiger σ) : Prop where
  hash : h.hash = (chunks 64 q t).foldl f s
  buf : h.buf.Holds 0 (t.drop (q * 64))
  length : t.length = q * 64 + off
  off_le : off ≤ 64

variable {f} {s : σ} {t : List UInt8} {q : Nat}

theorem Fed.length_rest {off : Nat} {h : Hash .tiger σ} (hfed : Fed f s t q off h) :
    (t.drop (q * 64)).length = off := by
  rw [List.length_drop, hfed.length, Nat.add_sub_cancel_left]

/-- Every pass feeds some zeros. -/
theorem pass_spec {x : Pass σ} (hfed : Fed f s t q x.off x.h) :
    ∃ x' q', pass f x = some x' ∧ x'.total = x.total - min x.total (64 - x.off) ∧
      (x'.total = 0 ∨ x'.off + x'.total + 64 = x.off + x.total) ∧
      Fed f s (t ++ List.replicate (min x.total (64 - x.off)) 0) q' x'.off x'.h := by
  obtain ⟨k, hk⟩ : ∃ k, k = min x.total (64 - x.off) := ⟨_, rfl⟩
  have hlen : (List.replicate k (0 : UInt8)).length = k := List.length_replicate
  have hoff := hfed.off_le
  have hrest := hfed.length_rest
  have hq : q * 64 ≤ t.length := by
    rw [hfed.length]
    exact Nat.le_add_right _ _
  obtain ⟨w, hwrite⟩ := Buf.exists_write_at x.h.buf x.off (List.replicate k 0) (by
    rw [hlen]
    exact show x.off + k ≤ 64 by omega)
  have hw : w.Holds 0 (t.drop (q * 64) ++ List.replicate k 0) := by
    apply Buf.Holds.append
    · exact hfed.buf.write_of_disjoint hwrite (Or.inr (by omega))
    · rw [Nat.zero_add, hrest]
      exact Buf.holds_write hwrite
  have hnext : (t ++ List.replicate k 0).length = q * 64 + (x.off + k) := by
    rw [List.length_append, hfed.length, hlen, Nat.add_assoc]
  rw [← hk]
  by_cases hfull : x.off + k = 64
  · refine ⟨⟨{ x.h with buf := w, hash := f x.h.hash w.toList }, 0, x.total - k⟩, q + 1, ?_, rfl, ?_, ?_⟩
    · simp only [pass, ← hk, hwrite, hfull, Option.bind_eq_bind, Option.bind_some, if_true]
    · right
      show 0 + (x.total - k) + 64 = x.off + x.total
      omega
    · have hsize : (t.drop (q * 64) ++ List.replicate k 0).length = 64 := by
        rw [List.length_append, hrest, hlen, hfull]
      have hend : (t ++ List.replicate k 0).length = (q + 1) * 64 + 0 := by omega
      refine ⟨?_, ?_, hend, Nat.zero_le _⟩
      · rw [chunks_last hq hsize, ← hw.toList hsize, List.foldl_append, ← hfed.hash]
        rfl
      · rw [List.drop_eq_nil_of_le (by omega)]
        exact Buf.holds_nil (Nat.zero_le _)
  · refine ⟨⟨{ x.h with buf := w }, x.off + k, x.total - k⟩, q, ?_, rfl, ?_, ?_⟩
    · simp only [pass, ← hk, hwrite, if_neg hfull, Option.bind_eq_bind, Option.bind_some]
    · left
      show x.total - k = 0
      omega
    · have hfits : x.off + k ≤ 64 := by omega
      refine ⟨?_, ?_, hnext, hfits⟩
      · rw [chunks_append_left hq]
        exact hfed.hash
      · rw [List.drop_append_of_le_length hq]
        exact hw

/-- The loop feeds `totalpad` zeros and ends. -/
theorem loop_spec {n : Nat} {x : Pass σ} (hfed : Fed f s t q x.off x.h)
    (hpasses : x.total = 0 ∨ x.off + x.total ≤ 64 * n) :
    ∃ x' q', loop f n x = some x' ∧ Fed f s (t ++ List.replicate x.total 0) q' x'.off x'.h := by
  induction n generalizing x t q with
  | zero =>
    have htotal : x.total = 0 := by omega
    exact ⟨x, q, by rw [loop, if_pos htotal], by rwa [htotal, List.replicate_zero, List.append_nil]⟩
  | succ n ih =>
    by_cases htotal : x.total = 0
    · exact ⟨x, q, by rw [loop, if_pos htotal], by rwa [htotal, List.replicate_zero, List.append_nil]⟩
    obtain ⟨x₁, q₁, hpass, hleft, hprogress, hfed₁⟩ := pass_spec hfed
    obtain ⟨x₂, q₂, hloop, hfed₂⟩ := ih hfed₁ (by omega)
    refine ⟨x₂, q₂, by rw [loop, if_neg htotal, hpass, Option.bind_some, hloop], ?_⟩
    rw [List.append_assoc, ← List.replicate_add, hleft] at hfed₂
    rwa [Nat.add_sub_cancel' (Nat.min_le_left _ _)] at hfed₂

/-! ## The blocks -/

/-- The zeros behind the byte `0x80`. -/
def zeros (n : Nat) : Nat := 48 - 1 + (64 - n % 64) % 64

/-- A message and its padding, with `len` as the length in bits. -/
def paddedWith (m : List UInt8) (len : Nat) : List UInt8 :=
  m ++ [0x80] ++ List.replicate (zeros m.length) 0 ++ padding.copyLength len

theorem totalpad_eq {len0 : BitVec 64} {n : Nat} (h : len0.toNat % 64 = n % 64) : totalpad len0 = zeros n := by
  have hmodval : ((-len0) % 64).toNat = (64 - len0.toNat % 64) % 64 := by
    have hlt := len0.isLt
    rw [BitVec.toNat_umod, BitVec.toNat_neg]
    show (2 ^ 64 - len0.toNat) % 2 ^ 64 % 64 = _
    omega
  unfold totalpad
  rw [hmodval, h, zeros]
  simp only
  rw [if_neg (by omega)]
  omega

/-- Blocks of which the last one has only room for the length. -/
theorem length_before_length (m : List UInt8) :
    (m ++ [0x80] ++ List.replicate (zeros m.length) 0).length % 64 = 48 := by
  rw [List.length_append, List.length_append, List.length_replicate, List.length_singleton, zeros]
  omega

theorem fed_of_after {m : List UInt8} {h : Hash .tiger σ} (ha : After f s m h) :
    ∃ w, h.buf.store (h.len0.toNat % 64) 0x80 = some w ∧
      Fed f s (m ++ [0x80]) (m.length / 64) (m.length % 64 + 1) { h with buf := w } := by
  have hoff : h.len0.toNat % 64 = m.length % 64 := ha.off_eq
  have hlt := Nat.mod_lt m.length pos_64
  have hdiv := Nat.div_add_mod' m.length 64
  have hq : m.length / 64 * 64 ≤ m.length := Nat.div_mul_le_self _ _
  have hrest : (m.drop (m.length / 64 * 64)).length = m.length % 64 := by
    rw [List.length_drop]
    omega
  rw [hoff]
  refine ⟨_, Buf.store_of_lt h.buf 0x80 hlt, ?_, ?_, ?_, hlt⟩
  · rw [chunks_append_left hq]
    exact ha.hash
  · rw [List.drop_append_of_le_length hq]
    exact ha.buf.snoc _ hlt (by rw [Nat.zero_add]; exact hrest.symm)
  · rw [List.length_append, List.length_singleton]
    omega

/-- `Pad` completes the blocks of the message, in at most two passes. -/
theorem pad_spec {m : List UInt8} {h : Hash .tiger σ} (ha : After f s m h) {passes : Nat} (hpasses : 2 ≤ passes) :
    ∃ h', pad f passes h = some h' ∧ h'.hash = (blocksOf .tiger (paddedWith m
      ((h.bitLength padding).1 * 2 ^ 64 + (h.bitLength padding).2))).foldl f s := by
  obtain ⟨len, hlen⟩ : ∃ len, len = (h.bitLength padding).1 * 2 ^ 64 + (h.bitLength padding).2 := ⟨_, rfl⟩
  obtain ⟨w, hstore, hfed⟩ := fed_of_after ha
  have hoff : h.len0.toNat % 64 = m.length % 64 := ha.off_eq
  have htotal : totalpad h.len0 = zeros m.length := totalpad_eq hoff
  have hbound : m.length % 64 + 1 + zeros m.length ≤ 64 * passes := by
    rw [zeros]
    omega
  obtain ⟨x, q, hloop, hfed'⟩ := loop_spec
    (x := ⟨{ h with buf := w }, m.length % 64 + 1, zeros m.length⟩) hfed (Or.inr hbound)
  obtain ⟨t, ht⟩ : ∃ t, t = m ++ [0x80] ++ List.replicate (zeros m.length) 0 := ⟨_, rfl⟩
  rw [← ht] at hfed'
  have hend : x.off = 48 := by
    have hmod := length_before_length m
    have hlength := hfed'.length
    have hle := hfed'.off_le
    rw [← ht] at hmod
    omega
  have hrest := hfed'.length_rest
  have hroom : Params.tiger.blkSize - (padding.zeroBytes + 2 * padding.lenBytes) = 48 := rfl
  obtain ⟨w₁, w₂, hwrite1, hwrite2, hlast⟩ := finish_spec padding len hfed'.buf (by rw [hrest, hend, hroom])
  -- There are no zeros left.
  have hnone : List.replicate padding.zeroBytes (0 : UInt8) = [] := rfl
  rw [hrest, hend, hroom] at hwrite1
  rw [hroom, hnone, List.nil_append] at hwrite2
  rw [hrest, hend, hroom, hnone, Nat.sub_self, List.replicate_zero, List.nil_append, List.nil_append] at hlast
  have hq : q * 64 ≤ t.length := by
    rw [hfed'.length]
    exact Nat.le_add_right _ _
  refine ⟨{ x.h with hash := f x.h.hash w₂.toList, buf := w₂ }, ?_, ?_⟩
  · rw [pad, hstore, htotal]
    simp only [hoff, Option.bind_eq_bind, Option.bind_some, hloop, hend, lt_irrefl, if_false, ← hlen,
      hwrite1, hwrite2, pure]
  · have hsize : (t.drop (q * 64) ++ padding.copyLength len).length = 64 := by
      rw [← hlast, Vector.length_toList]
      rfl
    have hblocks : (paddedWith m len).length / 64 = q + 1 := by
      have htext : (paddedWith m len).length = t.length + 16 := by
        rw [paddedWith, ← ht, List.length_append, length_copyLength]
        rfl
      rw [htext, hfed'.length, hend]
      omega
    show f x.h.hash w₂.toList = (chunks 64 ((paddedWith m _).length / 64) (paddedWith m _)).foldl f s
    rw [← hlen, hblocks, paddedWith, ← ht, chunks_last hq hsize, ← hlast, List.foldl_append, ← hfed'.hash]
    rfl

/-- The blocks that go through `Transform` for a message in pieces. -/
def blocksPassed (passes : Nat) (pieces : List (List UInt8)) : Option (List (List UInt8)) := do
  let h ← pieces.foldlM (update note) (init [] : Hash .tiger _)
  let h ← pad note passes h
  return h.hash

theorem blocksPassed_eq {passes : Nat} (hpasses : 2 ≤ passes) {pieces : List (List UInt8)}
    (hcall : ∀ p ∈ pieces, p.length < 2 ^ 64) (hlen : pieces.flatten.length < 2 ^ 125) :
    blocksPassed passes pieces =
      some (blocksOf .tiger (paddedWith pieces.flatten (8 * pieces.flatten.length))) := by
  obtain ⟨h, hrun, ha⟩ := run_spec (after_nil (P := .tiger) note []) pieces
  obtain ⟨h', hpad, hhash⟩ := pad_spec ha hpasses
  have hshort : ∀ p ∈ pieces, p.length % 2 ^ (2 * 64) < 2 ^ 64 := fun p hp =>
    (Nat.mod_le _ _).trans_lt (hcall p hp)
  have hcounter := counter_run (after_nil (P := .tiger) note []) (counter_init _) hshort hrun
  have hfold : ∀ bs : List (List UInt8), bs.foldl note [] = bs := fun bs => foldl_snoc [] bs
  have hbits : 8 * pieces.flatten.length / 2 ^ 64 % 2 ^ 64 * 2 ^ 64 + 8 * pieces.flatten.length % 2 ^ 64 =
      8 * pieces.flatten.length := by omega
  have hlength : (h.bitLength padding).1 * 2 ^ 64 + (h.bitLength padding).2 = 8 * pieces.flatten.length := by
    rw [bitLength_spec padding hcounter, List.nil_append]
    exact hbits
  rw [hlength, List.nil_append, hfold] at hhash
  simp only [blocksPassed, hrun, hpad, hhash, Option.bind_eq_bind, Option.bind_some, pure]

theorem length_paddedWith (m : List UInt8) (len : Nat) : 64 ∣ (paddedWith m len).length := by
  have hmod := length_before_length m
  have htext : (paddedWith m len).length = (m ++ [0x80] ++ List.replicate (zeros m.length) 0).length + 16 := by
    rw [paddedWith, List.length_append, length_copyLength]
    rfl
  omega

theorem flatten_blocksOf {t : List UInt8} (ht : 64 ∣ t.length) : (blocksOf .tiger t).flatten = t := by
  have hall : t.length / 64 * 64 = t.length := Nat.div_mul_cancel ht
  show (chunks 64 (t.length / 64) t).flatten = t
  rw [flatten_chunks hall.le, hall, List.take_length]

theorem dvd_length_flatten {n : Nat} {blocks : List (List UInt8)} (h : ∀ b ∈ blocks, b.length = n) :
    n ∣ blocks.flatten.length := by
  rw [List.length_flatten]
  apply List.dvd_sum
  intro k hk
  obtain ⟨b, hb, rfl⟩ := List.mem_map.mp hk
  rw [h b hb]

/-! ## Whirlpool and JH -/

/-- For a message of less than `2 ^ 125` bytes in pieces both write inside their buffers, and the blocks are those
of the padded message. Whirlpool has no more zeros than needed. The loop of JH ends, if two passes are allowed. -/
theorem whirlpool_jh_blocks (pieces : List (List UInt8)) (hcall : ∀ p ∈ pieces, p.length < 2 ^ 64)
    (hlen : pieces.flatten.length < 2 ^ 125) :
    (∃ blocks, Hash.blocksPassed .whirlpool pieces = some blocks ∧ (∀ b ∈ blocks, b.length = 64) ∧
      ∃ z, (∀ z', 64 ∣ pieces.flatten.length + 1 + z' + 32 → z ≤ z') ∧
        blocks.flatten = pieces.flatten ++ 0x80 :: List.replicate z 0 ++ beBytes 32 (8 * pieces.flatten.length)) ∧
    ∀ passes, 2 ≤ passes → ∃ blocks, blocksPassed passes pieces = some blocks ∧ (∀ b ∈ blocks, b.length = 64) ∧
      ∃ z : Nat, (7 + 8 * z : Int) = 384 - 1 + -(8 * pieces.flatten.length : Int) % 512 ∧
        blocks.flatten = pieces.flatten ++ 0x80 :: List.replicate z 0 ++ beBytes 16 (8 * pieces.flatten.length) := by
  have hbits : 8 * pieces.flatten.length < 256 ^ 16 := by
    rw [show 256 ^ 16 = 2 ^ 128 by norm_num]
    omega
  constructor
  · obtain ⟨blocks, hblocks, hsize, z, hz, hflat⟩ := (completed_iff .whirlpool hcall).mpr rfl
    have htext : blocks.flatten = pieces.flatten ++ 0x80 :: List.replicate z 0 ++
        beBytes 32 (8 * pieces.flatten.length) := by
      rw [beBytes_of_lt hbits 16]
      exact hflat
    refine ⟨blocks, hblocks, hsize, z, ?_, htext⟩
    have hwhole : 64 ∣ blocks.flatten.length := dvd_length_flatten hsize
    rw [htext] at hwhole
    simp only [List.length_append, List.length_cons, List.length_replicate, length_beBytes] at hwhole
    have hz64 : z < 64 := hz
    intro z' hz'
    omega
  · intro passes hpasses
    refine ⟨_, blocksPassed_eq hpasses hcall hlen, fun b => length_of_mem_blocksOf,
      zeros pieces.flatten.length, ?_, ?_⟩
    · rw [zeros]
      omega
    · rw [flatten_blocksOf (length_paddedWith _ _), paddedWith]
      simp only [List.append_assoc, List.cons_append, List.nil_append]
      rfl

theorem whirlpool_jh_blocks_one :
    (∃ blocks, Hash.blocksPassed .whirlpool [[0x61]] = some blocks ∧ (∀ b ∈ blocks, b.length = 64) ∧
      ∃ z, (∀ z', 64 ∣ 1 + 1 + z' + 32 → z ≤ z') ∧
        blocks.flatten = [0x61] ++ 0x80 :: List.replicate z 0 ++ beBytes 32 (8 * 1)) ∧
    ∀ passes, 2 ≤ passes → ∃ blocks, blocksPassed passes [[0x61]] = some blocks ∧ (∀ b ∈ blocks, b.length = 64) ∧
      ∃ z : Nat, (7 + 8 * z : Int) = 384 - 1 + -(8 * (1 : Nat) : Int) % 512 ∧
        blocks.flatten = [0x61] ++ 0x80 :: List.replicate z 0 ++ beBytes 16 (8 * 1) :=
  whirlpool_jh_blocks [[0x61]] (by simp) (by simp)

end Drew.Jh
