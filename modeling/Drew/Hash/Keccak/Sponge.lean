import Drew.Hash.Keccak.Variants

/-!
# The sponge

The padded message is cut into blocks of `rate` bytes. A block is added to the first bytes of the
state before each permutation (`blockLanes`), and the digest is taken from the first bytes after
the last one (`sponge`).

As long as the offset in the buffer is that of the message, the blocks of the message go through
`Transform` (`Held`, `update_spec`), and `Pad` makes the last one (`pad_spec`).
-/

namespace Drew.Keccak

open Drew.Memory Drew.Stream Drew.HashClass KeccakF

/-! ## The specification -/

/-- What follows a message that ends `r` bytes after the beginning of a block of `n` bytes. -/
def padding (n r : Nat) : List UInt8 :=
  if r + 1 = n then [0x81] else 0x01 :: (List.replicate (n - r - 2) 0 ++ [0x80])

def padded (n : Nat) (m : List UInt8) : List UInt8 := m ++ padding n (m.length % n)

/-- The blocks of the padded message. -/
def blocks (n : Nat) (m : List UInt8) : List (List UInt8) := chunks n (m.length / n + 1) (padded n m)

/-- A block in the first bytes of a state that is zero elsewhere. -/
def blockLanes (b : List UInt8) : State := Vector.ofFn fun i => blockWord b i.val

def addState (s t : State) : State := Vector.ofFn fun i => s.get i ^^^ t.get i

/-- The state that has some bits. -/
def ofBits (A : Bits) : State := Vector.ofFn fun i => 
  (BitVec.ofBoolListLE ((List.finRange 64).map fun z => A (column i) (row i) z)).setWidth 64

/-- The state after a message, with a permutation of the bits. -/
def spongeState (n : Nat) (m : List UInt8) : State :=
  (blocks n m).foldl (fun s b => ofBits (permutation (bits (addState s (blockLanes b)))))
    (Vector.replicate 25 0)

def stateBytes (s : State) : List UInt8 := s.toList.flatMap laneBytes

/-- The digest has no more bytes than a block. -/
def sponge (d : DigestSize) (m : List UInt8) : List UInt8 :=
  (stateBytes (spongeState d.rate m)).take d.size

theorem length_padding {n r : Nat} (hr : r < n) : (padding n r).length = n - r := by
  unfold padding
  split
  · rw [List.length_singleton]
    omega
  · simp
    omega

/-- The last block is what is left of the message and the padding. -/
theorem blocks_eq {n : Nat} (hn : 0 < n) (m : List UInt8) :
    blocks n m = chunks n (m.length / n) m ++ [m.drop (m.length / n * n) ++ padding n (m.length % n)] ∧
      (m.drop (m.length / n * n) ++ padding n (m.length % n)).length = n := by
  have hmod := Nat.mod_lt m.length hn
  have hdiv := Nat.div_add_mod' m.length n
  have hlen : (m.drop (m.length / n * n) ++ padding n (m.length % n)).length = n := by
    rw [List.length_append, length_padding hmod, List.length_drop]
    omega
  have hle : m.length / n * n ≤ m.length := by omega
  refine ⟨?_, hlen⟩
  rw [blocks, padded, chunks_add (by rw [List.length_append]; omega), chunks_append_left hle,
    List.drop_append_of_le_length hle, chunks_one hlen.le]

theorem length_of_mem_blocks {n : Nat} (hn : 0 < n) {m b : List UInt8} (hb : b ∈ blocks n m) :
    b.length = n := by
  obtain ⟨hblocks, hlen⟩ := blocks_eq hn m
  rw [hblocks] at hb
  rcases List.mem_append.mp hb with hb | hb
  · exact length_of_mem_chunks (Nat.div_mul_le_self m.length n) hb
  · rw [List.mem_singleton.mp hb, hlen]

/-! ## Updates -/

section Update

variable {σ : Type} {f : σ → List UInt8 → σ} {s : σ} {m data : List UInt8} {h : Keccak σ} {n q : Nat}

/-- The whole blocks of a message are processed, and the rest of it is in the buffer. -/
structure Held (f : σ → List UInt8 → σ) (n : Nat) (s : σ) (m : List UInt8) (h : Keccak σ) : Prop where
  len : h.len = BitVec.ofNat 64 m.length
  hash : h.hash = (chunks n (m.length / n) m).foldl f s
  buf : h.buf.Holds 0 (m.drop (m.length / n * n))

theorem held_nil (f : σ → List UInt8 → σ) (n : Nat) (s : σ) : Held f n s [] (reset s) := by
  refine ⟨rfl, ?_, ?_⟩
  · rw [List.length_nil, Nat.zero_div, chunks_zero]
    rfl
  · rw [List.drop_nil]
    exact Buf.holds_nil (Nat.zero_le _)

theorem held_of (hlo : q * n ≤ m.length) (hhi : m.length < (q + 1) * n)
    (hlen : h.len = BitVec.ofNat 64 m.length) (hhash : h.hash = (chunks n q m).foldl f s)
    (hbuf : h.buf.Holds 0 (m.drop (q * n))) : Held f n s m h := by
  have hq : m.length / n = q := Nat.div_eq_of_lt_le hlo hhi
  exact ⟨hlen, by rwa [hq], by rwa [hq]⟩

/-- Some blocks of the message are processed, and the rest of it is still to come. -/
def Pending (f : σ → List UInt8 → σ) (n : Nat) (s : σ) (m rest : List UInt8) (h : Keccak σ) : Prop :=
  h.len = BitVec.ofNat 64 m.length ∧
    ∃ q, q * n ≤ m.length ∧ rest = m.drop (q * n) ∧ h.hash = (chunks n q m).foldl f s

/-- The offset that the length gives. -/
def OffsetRight (n : Nat) (len : Nat) : Prop := len % 2 ^ 64 % n = len % n

instance (n len : Nat) : Decidable (OffsetRight n len) :=
  inferInstanceAs (Decidable (len % 2 ^ 64 % n = len % n))

section Steps

variable (hpos : 0 < n) (hn : n ≤ 144)
include hpos hn

/-- What becomes of the block that was begun, once the length is counted. -/
theorem fill_spec (hh : Held f n s m h) (data : List UInt8) :
    ∃ h' rest, fill f n { h with len := h.len + BitVec.ofNat 64 data.length } (m.length % n) data =
        some (h', rest) ∧
      (Pending f n s (m ++ data) rest h' ∨ rest = [] ∧ Held f n s (m ++ data) h') := by
  obtain ⟨q, hq⟩ : ∃ q, q = m.length / n := ⟨_, rfl⟩
  obtain ⟨r, hr⟩ : ∃ r, r = m.length % n := ⟨_, rfl⟩
  have hrlt : r < n := hr ▸ Nat.mod_lt _ hpos
  have hlen : m.length = q * n + r := by
    rw [hq, hr, Nat.div_add_mod']
  have hcount : h.len + BitVec.ofNat 64 data.length = BitVec.ofNat 64 (m ++ data).length := by
    rw [hh.len, List.length_append, BitVec.ofNat_add]
  have hhash := hh.hash
  have hbuf := hh.buf
  rw [← hr]
  rw [← hq] at hhash hbuf
  rw [← chunks_append_left (by omega) data] at hhash
  by_cases h0 : r = 0
  · refine ⟨{ h with len := h.len + BitVec.ofNat 64 data.length }, data, ?_, Or.inl ⟨hcount, q, ?_, ?_, hhash⟩⟩
    · rw [h0, fill, if_neg (not_not.mpr rfl)]
    · rw [List.length_append]
      omega
    · rw [show q * n = m.length by omega, List.drop_left]
  · obtain ⟨i, hi⟩ : ∃ i, i = min (n - r) data.length := ⟨_, rfl⟩
    obtain ⟨w, hwrite⟩ := Buf.exists_write_at h.buf r (data.take i) (by
      rw [List.length_take]
      omega)
    have hrest : (m.drop (q * n)).length = r := by
      rw [List.length_drop]
      omega
    have hw : w.Holds 0 (m.drop (q * n) ++ data.take i) := by
      apply Buf.Holds.append
      · exact hbuf.write_of_disjoint hwrite (Or.inr (by omega))
      · rw [hrest, Nat.zero_add]
        exact Buf.holds_write hwrite
    have hdrop : (m ++ data).drop (q * n) = m.drop (q * n) ++ data :=
      List.drop_append_of_le_length (by omega)
    have hfill : fill f n { h with len := h.len + BitVec.ofNat 64 data.length } r data =
        some ({ hash := if i + r = n then f h.hash (w.toList.take n) else h.hash, buf := w,
                len := h.len + BitVec.ofNat 64 data.length }, data.drop i) := by
      rw [fill, if_pos h0]
      simp only [← hi, hwrite, Option.bind_eq_bind, Option.bind_some, pure]
    refine ⟨_, _, hfill, ?_⟩
    by_cases hfull : i + r = n
    · -- The block is complete.
      have hidx : (q + 1) * n = m.length + i := by
        rw [Nat.succ_mul]
        omega
      have hlast : (m.drop (q * n) ++ data.take i).length = n := by
        rw [List.length_append, hrest, List.length_take]
        omega
      have htake : w.toList.take n = m.drop (q * n) ++ data.take i := by
        have hheld := hw.take_toList
        rwa [hlast] at hheld
      have hblock : chunks n 1 ((m ++ data).drop (q * n)) = [w.toList.take n] := by
        rw [chunks, chunks_zero, htake, hdrop]
        conv_lhs => rw [← List.take_append_drop i data, ← List.append_assoc]
        rw [List.take_left' hlast]
      refine Or.inl ⟨hcount, q + 1, ?_, ?_, ?_⟩
      · rw [hidx, List.length_append]
        omega
      · rw [hidx, ← List.drop_drop, List.drop_left]
      · rw [if_pos hfull, chunks_add (by rw [List.length_append]; omega), hblock, List.foldl_append,
          ← hhash]
        rfl
    · -- The block stays incomplete, and nothing is left.
      have hil : i = data.length := by omega
      refine Or.inr ⟨by rw [hil, List.drop_length], ?_⟩
      rw [if_neg hfull]
      rw [hil, List.take_length] at hw
      apply held_of (q := q)
      · rw [List.length_append]
        omega
      · rw [List.length_append, Nat.succ_mul]
        omega
      · exact hcount
      · exact hhash
      · rwa [hdrop]

theorem update_spec (hh : Held f n s m h) (hoff : OffsetRight n m.length) (data : List UInt8) :
    ∃ h', update f n h data = some h' ∧ Held f n s (m ++ data) h' := by
  have hoff' : h.len.toNat % n = m.length % n := by
    rw [hh.len, BitVec.toNat_ofNat]
    exact hoff
  obtain ⟨h₁, rest, hfill, hcase⟩ := fill_spec hpos hn hh data
  rw [update, hoff']
  simp only [hfill, Option.bind_eq_bind, Option.bind_some, pure]
  rcases hcase with ⟨hlen, q, hq, hrest, hhash⟩ | ⟨rfl, hheld⟩
  · obtain ⟨k, hk⟩ : ∃ k, k = rest.length / n := ⟨_, rfl⟩
    have hmod := Nat.mod_lt rest.length hpos
    have hdiv := Nat.div_add_mod' rest.length n
    have hrlen := congrArg List.length hrest
    rw [← hk] at hdiv
    rw [List.length_drop] at hrlen
    obtain ⟨w, hwrite⟩ := Buf.exists_write_at h₁.buf 0 (rest.drop (k * n)) (by
      rw [List.length_drop]
      omega)
    rw [← hk, hwrite]
    refine ⟨_, rfl, ?_⟩
    apply held_of (q := q + k)
    · rw [Nat.add_mul]
      omega
    · rw [Nat.succ_mul, Nat.add_mul]
      omega
    · exact hlen
    · rw [chunks_add hq, List.foldl_append, ← hhash, ← hrest]
      exact absorb_eq_foldl f k h₁.hash rest
    · have hw := Buf.holds_write hwrite
      rwa [hrest, List.drop_drop, ← Nat.add_mul] at hw
  · have hwrite := Buf.write_nil h₁.buf (Nat.zero_le _)
    rw [List.length_nil, Nat.zero_div, Nat.zero_mul, List.drop_nil, hwrite]
    exact ⟨h₁, rfl, hheld⟩

/-! ## The last block -/

/-- Bits are set in the last byte of a block. -/
theorem mark_last {w : Buf UInt8 144} {A : List UInt8} {y : UInt8} (hw : w.Holds 0 (A ++ [y]))
    (hA : A.length + 1 = n) (b : UInt8) :
    ∃ w', w.load (n - 1) = some y ∧ w.store (n - 1) (y ||| b) = some w' ∧
      w'.toList.take n = A ++ [y ||| b] := by
  have hidx : n - 1 = 0 + A.length := by omega
  have hlast : w.Holds (n - 1) [y] := by
    rw [hidx]
    exact hw.right
  have hset : Buf.Holds (w.set (n - 1) (y ||| b) (by omega)) 0 (A ++ [y ||| b]) :=
    hw.left.snoc _ _ hidx
  refine ⟨_, hlast.load_head, Buf.store_of_lt w _ (by omega), ?_⟩
  have htake := hset.take_toList
  rwa [List.length_append, List.length_singleton, hA] at htake

/-- The rest of the block is cleared, and the byte after the message is set. -/
theorem pad_block {xs : List UInt8} {r : Nat} (hbuf : h.buf.Holds 0 xs) (hxs : xs.length = r)
    (hr : r < n) :
    ∃ w w', h.buf.write r (List.replicate (n - r) 0) = some w ∧ w.store r 0x01 = some w' ∧
      w'.Holds 0 (xs ++ 0x01 :: List.replicate (n - r - 1) 0) := by
  obtain ⟨w, hwrite⟩ := Buf.exists_write_at h.buf r (List.replicate (n - r) 0) (by
    rw [List.length_replicate]
    omega)
  have hzeros : w.Holds (r + 1) (List.replicate (n - r - 1) 0) := by
    have hw := Buf.holds_write hwrite
    have hsucc : n - r = (n - r - 1) + 1 := by omega
    rw [hsucc, List.replicate_succ] at hw
    exact hw.tail
  have hkeep : w.Holds 0 xs := hbuf.write_of_disjoint hwrite (Or.inr (by omega))
  have hidx : r = 0 + xs.length := by omega
  have hset := hkeep.snoc 0x01 (show r < 144 by omega) hidx
  refine ⟨w, _, hwrite, Buf.store_of_lt w _ (by omega), ?_⟩
  have hrest := hzeros.set_of_disjoint 0x01 (show r < 144 by omega) (Or.inl (Nat.lt_succ_self r))
  have hlen : r + 1 = 0 + (xs ++ [0x01]).length := by
    rw [List.length_append, hxs, List.length_singleton, Nat.zero_add]
  rw [hlen] at hrest
  have hall := hset.append hrest
  rwa [List.append_assoc, List.singleton_append] at hall

/-- The last block is what is left of the message and the padding. -/
theorem pad_spec (hh : Held f n s m h) (hoff : OffsetRight n m.length) :
    ∃ h', pad 0x01 f n h = some h' ∧ h'.hash = (blocks n m).foldl f s := by
  obtain ⟨r, hr⟩ : ∃ r, r = m.length % n := ⟨_, rfl⟩
  have hrlt : r < n := hr ▸ Nat.mod_lt _ hpos
  have hdiv := Nat.div_add_mod' m.length n
  have hoff' : h.len.toNat % n = r := by
    rw [hh.len, BitVec.toNat_ofNat, hr]
    exact hoff
  have hrest : (m.drop (m.length / n * n)).length = r := by
    rw [List.length_drop]
    omega
  obtain ⟨w, w', hwrite, hstore, hw'⟩ := pad_block hpos hn hh.buf hrest hrlt
  obtain ⟨w'', y, hload, hstore', hlast⟩ : ∃ w'' y, w'.load (n - 1) = some y ∧
      w'.store (n - 1) (y ||| 0x80) = some w'' ∧
      w''.toList.take n = m.drop (m.length / n * n) ++ padding n r := by
    by_cases hend : r + 1 = n
    · have hnone : n - r - 1 = 0 := by omega
      rw [hnone, List.replicate_zero] at hw'
      obtain ⟨w'', hload, hstore', htake⟩ := mark_last hpos hn hw' (by omega) 0x80
      refine ⟨w'', _, hload, hstore', ?_⟩
      rw [htake, padding, if_pos hend]
      rfl
    · have hsome : n - r - 1 = (n - r - 2) + 1 := by omega
      rw [hsome, List.replicate_succ', ← List.cons_append, ← List.append_assoc] at hw'
      obtain ⟨w'', hload, hstore', htake⟩ := mark_last hpos hn hw' (by simp; omega) 0x80
      refine ⟨w'', _, hload, hstore', ?_⟩
      rw [htake, padding, if_neg hend, List.append_assoc]
      rfl
  refine ⟨{ h with hash := f h.hash (w''.toList.take n), buf := w'' }, ?_, ?_⟩
  · rw [pad, hoff']
    simp only [hwrite, hstore, hload, hstore', Option.bind_eq_bind, Option.bind_some, pure]
  · rw [(blocks_eq hpos m).1, List.foldl_append, ← hh.hash, hlast, hr]
    rfl

end Steps

end Update

end Drew.Keccak
