import Drew.Block.LongBytes
import Drew.Block.Recurrence
import Drew.Hash.Groestl
import Drew.Memory.Endian
import Drew.Stream.Buffered

/-!
# The permutations of Grøstl

The functions `Transform` and `GetDigest` of `Grøstl256` and `Grøstl512`, and their `Reset`. The array `table` is a
parameter, with its index taken apart: nothing that is proved about the hash depends on what it holds.
-/

namespace Drew.Groestl

open Drew.Memory Drew.Block

/-- The class that the constructor takes for a digest size, `Grøstl512` or `Grøstl256`. -/
def isLong (size : Nat) : Bool := decide (32 < size)

/-- The words of `m_hash` that the class uses. -/
def words (long : Bool) : Nat := if long then 16 else 8

instance neZero_words (long : Bool) : NeZero (words long) := ⟨by cases long <;> decide⟩

abbrev Words (long : Bool) := Vector UInt64 (words long)

abbrev Table := Fin 8 → UInt8 → UInt64

/-! ## The functions -/

section Functions

variable (table : Table) {long : Bool}

/-- `CombineP`, for all words. -/
def combineP (rc : UInt64) (x : Words long) : Words long :=
  Vector.ofFn fun off => x.get off ^^^ (UInt64.ofNat off <<< 60 ^^^ rc)

/-- `CombineQ`, for all words. -/
def combineQ (rc : UInt64) (x : Words long) : Words long :=
  Vector.ofFn fun off => x.get off ^^^ (~~~(UInt64.ofNat off <<< 4) ^^^ rc)

/-- `ComputeColumn`. Behind the last word comes the first one again. -/
def computeColumn (x : Words long) (c : Vector Nat 8) : UInt64 :=
  (List.finRange 8).foldl (fun y i => y ^^^ table i (longByte (wordAt x (c.get i)) (7 - i))) 0

def computeP (rc : UInt64) (x : Words long) : Words long :=
  let x := combineP rc x
  Vector.ofFn fun j => computeColumn table x
    #v[j, j + 1, j + 2, j + 3, j + 4, j + 5, j + 6, j + if long then 11 else 7]

def computeQ (rc : UInt64) (x : Words long) : Words long :=
  let x := combineQ rc x
  Vector.ofFn fun j => computeColumn table x
    #v[j + 1, j + 3, j + 5, j + if long then 11 else 7, j, j + 2, j + 4, j + 6]

def numRounds (long : Bool) : Nat := if long then 14 else 10

/-- The calls of `ComputeP`. -/
def permuteP (x : Words long) : Words long :=
  (List.range (numRounds long)).foldl (fun x r => computeP table (UInt64.ofNat r <<< 56) x) x

/-- The calls of `ComputeQ`. -/
def permuteQ (x : Words long) : Words long :=
  (List.range (numRounds long)).foldl (fun x r => computeQ table (UInt64.ofNat r) x) x

def xorWords (x y : Words long) : Words long := Vector.zipWith (· ^^^ ·) x y

/-- `Transform`. -/
def compress (state : Words long) (block : List UInt8) : Words long :=
  let b := copyIn word64 .big (words long) block
  xorWords state (xorWords (permuteQ table b) (permuteP table (xorWords state b)))

/-- What `GetDigest` copies from the end of its array `buf`. -/
def lastBytes (size : Nat) (x : Words long) : List UInt8 :=
  ((copyOut word64 .big x).drop (8 * words long - size)).take size

/-- `GetDigest`, behind the padding. -/
def digestOf (size : Nat) (hash : Words long) : List UInt8 :=
  lastBytes size (xorWords hash (permuteP table hash))

end Functions

/-! ## Objects -/

/-- `m_hash` behind `Reset`. -/
def initialHash (size : Nat) : Words (isLong size) :=
  (Vector.replicate _ 0).setIfInBounds (words (isLong size) - 1) (UInt64.ofNat (size * 8))

variable {σ : Type}

/-- `Initialize`. -/
def initMembers (h : Groestl σ) : Groestl σ := { h with buf := Vector.replicate 128 0, off := 0 }

/-- `Reset`, which sets `m_hash` to some value. The constructor calls it for an object that can hold anything. -/
def resetTo (s : σ) (h : Groestl σ) : Groestl σ := initMembers { h with hash := s, nblocks := 0 }

theorem resetTo_eq (s : σ) (h : Groestl σ) : resetTo s h = reset s := rfl

theorem length_lastBytes {size : Nat} (hsize : size ≤ 64) (x : Words (isLong size)) :
    (lastBytes size x).length = size := by
  have hwords : size ≤ 8 * words (isLong size) := by
    unfold words
    split
    · omega
    · rename_i hshort
      have hle : ¬ 32 < size := fun h => hshort (decide_eq_true h)
      omega
  have hall : (copyOut word64 .big x).length = 8 * words (isLong size) := length_copyOut x
  rw [lastBytes, List.length_take, List.length_drop, hall]
  omega

end Drew.Groestl

/-!
## Streams of Grøstl

After a message its whole blocks are compressed and counted, and the buffer begins with the rest (`After`). `Update`
keeps this, and so does `UpdateFast` at the end of a block, although it leaves the number of bytes as it is. `Pad`
adds the blocks of the padding to the same count (`pad_spec`), so that the number it writes is that of all blocks.
-/

namespace Drew.Groestl

open Drew.Memory Drew.Stream Drew.HashClass

variable {σ : Type}

/-- Put a block through a function, and count it. -/
def counted (f : σ → List UInt8 → σ) (x : σ × BitVec 64) (block : List UInt8) : σ × BitVec 64 :=
  (f x.1 block, x.2 + 1)

/-- The members that `Transform` changes. -/
def members (h : Groestl σ) : σ × BitVec 64 := (h.hash, h.nblocks)

theorem foldl_counted (f : σ → List UInt8 → σ) (s : σ) (n : Nat) (blocks : List (List UInt8)) :
    blocks.foldl (counted f) (s, BitVec.ofNat 64 n) = (blocks.foldl f s, BitVec.ofNat 64 (n + blocks.length)) := by
  induction blocks generalizing s n with
  | nil => rfl
  | cons b bs ih =>
    rw [List.foldl_cons, List.foldl_cons, List.length_cons, counted, ← Nat.add_assoc, Nat.add_right_comm, ← ih]
    congr 2
    exact (BitVec.ofNat_add n 1).symm

theorem length_chunks {α : Type} (n k : Nat) (xs : List α) : (chunks n k xs).length = k := by
  induction k generalizing xs with
  | zero => rfl
  | succ k ih => rw [chunks, List.length_cons, ih]

/-- A message and its padding. -/
def zeros (long : Bool) (n : Nat) : Nat := (2 * blockSize long - 9 - n % blockSize long) % blockSize long

def count (long : Bool) (n : Nat) : Nat := (n + 1 + zeros long n + 8) / blockSize long

def paddedMessage (long : Bool) (m : List UInt8) : List UInt8 :=
  m ++ [0x80] ++ List.replicate (zeros long m.length) 0 ++ beBytes 8 (count long m.length)

/-- The blocks of a message. -/
def blocksOf (long : Bool) (m : List UInt8) : List (List UInt8) :=
  chunks (blockSize long) (count long m.length) (paddedMessage long m)

variable {f : σ → List UInt8 → σ} {long : Bool} {s : σ} {m data : List UInt8} {h : Groestl σ}

/-! ## Updates -/

/-- The state after a message. -/
structure After (f : σ → List UInt8 → σ) (long : Bool) (s : σ) (m : List UInt8) (h : Groestl σ) : Prop where
  fed : Fed (blockSize long) (counted f) (s, 0) m (m.length / blockSize long) (m.length % blockSize long)
    (members h) h.buf
  offset_eq : offset long h = m.length % blockSize long

theorem After.of_fed {q off : Nat} (hfed : Fed (blockSize long) (counted f) (s, 0) m q off (members h) h.buf)
    (hlt : off < blockSize long) (hoff : offset long h = m.length % blockSize long) : After f long s m h := by
  obtain ⟨hq, hr⟩ := hfed.counts hlt
  rw [hq, hr] at hfed
  exact ⟨hfed, hoff⟩

theorem after_resetTo (f : σ → List UInt8 → σ) (long : Bool) (s : σ) (earlier : Groestl σ) :
    After f long s [] (resetTo s earlier) := by
  refine After.of_fed (Fed.nil _ _ _) (blockSize_pos long) ?_
  rw [Groestl.offset_eq]
  rfl

theorem members_absorb (k : Nat) (h : Groestl σ) (data : List UInt8) :
    members (absorb (blockSize long) (transform f) k h data) =
      absorb (blockSize long) (counted f) k (members h) data := by
  induction k generalizing h data with
  | zero => rfl
  | succ k ih => exact ih (transform f h (data.take (blockSize long))) (data.drop (blockSize long))

theorem frame_absorb (f : σ → List UInt8 → σ) (bs k : Nat) (h : Groestl σ) (data : List UInt8) :
    (absorb bs (transform f) k h data).buf = h.buf ∧ (absorb bs (transform f) k h data).off = h.off := by
  induction k generalizing h data with
  | zero => exact ⟨rfl, rfl⟩
  | succ k ih => exact ih (transform f h (data.take bs)) (data.drop bs)

theorem blockSize_le (long : Bool) : blockSize long ≤ 128 := by cases long <;> decide

/-- What becomes of a block that an earlier call began: it is complete, or nothing is left for others. -/
theorem fill_spec {q r : Nat} (hfed : Fed (blockSize long) (counted f) (s, 0) m q r (members h) h.buf)
    (hr : r < blockSize long) (data : List UInt8) :
    ∃ h' first rest q' off, fill f long h r data = some (h', rest) ∧ h'.off = h.off ∧ data = first ++ rest ∧
      Fed (blockSize long) (counted f) (s, 0) (m ++ first) q' off (members h') h'.buf ∧
      off < blockSize long ∧ (off = 0 ∨ rest = []) := by
  by_cases h0 : r = 0
  · refine ⟨h, [], data, q, r, ?_, rfl, rfl, ?_, hr, Or.inl h0⟩
    · rw [fill, if_neg (not_not.mpr h0)]
    · rwa [List.append_nil]
  obtain ⟨i, hi⟩ : ∃ i, i = min (blockSize long - r) data.length := ⟨_, rfl⟩
  have hlen : (data.take i).length = i := by
    rw [List.length_take]
    omega
  obtain ⟨w, hwrite, hfed'⟩ := hfed.exists_write (blockSize_le long) (data.take i) (by omega)
  rw [hlen] at hfed'
  have hfill : fill f long h r data = some (if i + r = blockSize long then transformBuf f long { h with buf := w }
      else { h with buf := w }, data.drop i) := by
    rw [fill, if_pos h0]
    simp only [← hi, hwrite, Option.bind_eq_bind, Option.bind_some, pure]
  by_cases hfull : i + r = blockSize long
  · rw [if_pos hfull] at hfill
    rw [Nat.add_comm, hfull] at hfed'
    exact ⟨_, data.take i, data.drop i, q + 1, 0, hfill, rfl, (List.take_append_drop i data).symm, hfed'.flush w,
      blockSize_pos long, Or.inl rfl⟩
  · rw [if_neg hfull] at hfill
    have hall : i = data.length := by omega
    exact ⟨_, data.take i, data.drop i, q, r + i, hfill, rfl, (List.take_append_drop i data).symm, hfed', by omega,
      Or.inr (by rw [hall, List.drop_length])⟩

/-- The whole blocks of what is left, and the rest of it. -/
theorem finish_spec {q off : Nat} {rest : List UInt8}
    (hfed : Fed (blockSize long) (counted f) (s, 0) m q off (members h) h.buf) (hlt : off < blockSize long)
    (hend : off = 0 ∨ rest = []) :
    ∃ w q' off', (absorb (blockSize long) (transform f) (rest.length / blockSize long) h rest).buf.write 0
        (rest.drop (rest.length / blockSize long * blockSize long)) = some w ∧ off' < blockSize long ∧
      Fed (blockSize long) (counted f) (s, 0) (m ++ rest) q' off'
        (members (absorb (blockSize long) (transform f) (rest.length / blockSize long) h rest)) w := by
  rcases hend with hzero | hnil
  · rw [hzero] at hfed
    obtain ⟨w, hwrite, hfed'⟩ := hfed.feed (blockSize_le long) (blockSize_pos long) rest
    rw [← members_absorb] at hfed'
    rw [← (frame_absorb f (blockSize long) (rest.length / blockSize long) h rest).1] at hwrite
    exact ⟨w, _, _, hwrite, Nat.mod_lt _ (blockSize_pos long), hfed'⟩
  · refine ⟨h.buf, q, off, ?_, hlt, ?_⟩
    · rw [hnil, List.length_nil, Nat.zero_div, List.drop_nil]
      exact Buf.write_nil h.buf (Nat.zero_le _)
    · rw [hnil, List.length_nil, Nat.zero_div, List.append_nil]
      exact hfed

theorem update_spec (ha : After f long s m h) (data : List UInt8) :
    ∃ h', update f long h data = some h' ∧ After f long s (m ++ data) h' := by
  obtain ⟨h₀, hh₀⟩ : ∃ h₀, h₀ = setOff (h.off + BitVec.ofNat 64 data.length) h := ⟨_, rfl⟩
  have hfed₀ : Fed (blockSize long) (counted f) (s, 0) m (m.length / blockSize long) (m.length % blockSize long)
      (members h₀) h₀.buf := by
    rw [hh₀]
    exact ha.fed
  obtain ⟨h₁, first, rest, q, off, hfill, ho₁, hdata, hfed₁, hlt, hend⟩ :=
    fill_spec hfed₀ (Nat.mod_lt _ (blockSize_pos long)) data
  obtain ⟨w, q', off', hwrite, hlt', hfed₂⟩ := finish_spec hfed₁ hlt hend
  have hoff := (frame_absorb f (blockSize long) (rest.length / blockSize long) h₁ rest).2
  obtain ⟨h₂, hh₂⟩ : ∃ h₂, h₂ = absorb (blockSize long) (transform f) (rest.length / blockSize long) h₁ rest :=
    ⟨_, rfl⟩
  rw [← hh₂] at hwrite hfed₂ hoff
  rw [List.append_assoc, ← hdata] at hfed₂
  have hrun : update f long h data = some { h₂ with buf := w } := by
    change updateAt f long (offset long h) (setOff _ h) data = _
    rw [← hh₀, ha.offset_eq]
    simp only [updateAt, hfill, ← hh₂, hwrite, Option.bind_eq_bind, Option.bind_some, pure]
  have hset : ({ h₂ with buf := w } : Groestl σ) =
      setOff (h.off + BitVec.ofNat 64 data.length) { h₂ with buf := w } := by
    have ho : h₂.off = h.off + BitVec.ofNat 64 data.length := by
      rw [hoff, ho₁, hh₀]
      rfl
    rw [← ho]
    rfl
  refine ⟨_, hrun, After.of_fed hfed₂ hlt' ?_⟩
  rw [hset, offset_count, ha.offset_eq, Nat.mod_add_mod, List.length_append]

/-- The fast update, which does not count the bytes. -/
theorem updateFast_spec (ha : After f long s m h) (hm : m.length % blockSize long = 0)
    (hdata : data.length % blockSize long = 0) : After f long s (m ++ data) (updateFast f long h data) := by
  have hdiv := Nat.div_add_mod' data.length (blockSize long)
  have hfed := ha.fed
  rw [hm] at hfed
  have hwhole : data.length / blockSize long * blockSize long ≤ data.length := by omega
  have hfed' := hfed.absorb hwhole
  rw [List.take_of_length_le (by omega), ← members_absorb] at hfed'
  obtain ⟨hbuf, hoff⟩ := frame_absorb f (blockSize long) (data.length / blockSize long) h data
  rw [← hbuf] at hfed'
  refine After.of_fed hfed' (blockSize_pos long) ?_
  rw [Groestl.offset_eq, updateFast, hoff, ← Groestl.offset_eq, ha.offset_eq, List.length_append, Nat.add_mod, hdata,
    Nat.add_zero, Nat.mod_mod]

/-- However a message is given in calls. -/
theorem run_spec (copy : σ → List UInt8) {cs : List Call} (ha : After f long s m h)
    (hcs : Admissible (blockSize long) m.length cs) :
    ∃ h', cs.foldlM (hashClass f long copy s).step h = some h' ∧
      After f long s (m ++ (cs.map Call.data).flatten) h' := by
  induction cs generalizing m h with
  | nil => exact ⟨h, rfl, by rwa [List.map_nil, List.flatten_nil, List.append_nil]⟩
  | cons c cs ih =>
    obtain ⟨-, hfast, hrest⟩ := hcs
    obtain ⟨h₁, hstep, ha₁⟩ : ∃ h₁, (hashClass f long copy s).step h c = some h₁ ∧
        After f long s (m ++ c.data) h₁ := by
      cases hc : c.fast with
      | false =>
        obtain ⟨h₁, hupdate, ha₁⟩ := update_spec ha c.data
        exact ⟨h₁, by rw [HashClass.step, hc, ← hupdate]; rfl, ha₁⟩
      | true =>
        obtain ⟨hm, hdata⟩ := hfast hc
        exact ⟨_, by rw [HashClass.step, hc]; rfl, updateFast_spec ha hm hdata⟩
    rw [← List.length_append] at hrest
    obtain ⟨h', hrun, ha'⟩ := ih ha₁ hrest
    refine ⟨h', ?_, ?_⟩
    · rw [List.foldlM_cons, hstep]
      exact hrun
    · rwa [List.map_cons, List.flatten_cons, ← List.append_assoc]

/-! ## The padding -/

theorem blockSize_ge (long : Bool) : 64 ≤ blockSize long := by cases long <;> decide

/-- The number of blocks, where each one went through `Transform`. -/
theorem count_of_fed {t : List UInt8} {q off : Nat}
    (hfed : Fed (blockSize long) (counted f) (s, 0) t q off (members h) h.buf) :
    h.hash = (chunks (blockSize long) q t).foldl f s ∧ h.nblocks = BitVec.ofNat 64 q := by
  have hstate : members h = ((chunks (blockSize long) q t).foldl f s, BitVec.ofNat 64 (0 + q)) := by
    have hfold := foldl_counted f s 0 (chunks (blockSize long) q t)
    rw [length_chunks] at hfold
    exact hfed.state.trans hfold
  rw [Nat.zero_add] at hstate
  exact ⟨congrArg Prod.fst hstate, congrArg Prod.snd hstate⟩

/-- Zeros complete the block in the buffer if it has no room for the count. -/
theorem spill_spec {t : List UInt8} {q r : Nat}
    (hfed : Fed (blockSize long) (counted f) (s, 0) t q (r + 1) (members h) h.buf) :
    ∃ h' off z q', spill f long h r = some (h', off) ∧ off ≤ blockSize long - 8 ∧
      z + (blockSize long - 8 - off) = (2 * blockSize long - 9 - r) % blockSize long ∧
      Fed (blockSize long) (counted f) (s, 0) (t ++ List.replicate z 0) q' off (members h') h'.buf := by
  have hle := hfed.off_le
  have hge := blockSize_ge long
  by_cases hroom : blockSize long - 8 ≤ r
  · obtain ⟨w, hwrite, hfed'⟩ := hfed.exists_write (blockSize_le long)
      (List.replicate (blockSize long - (r + 1)) 0) (by
        rw [List.length_replicate]
        omega)
    rw [List.length_replicate, Nat.add_sub_cancel' hle] at hfed'
    refine ⟨transformBuf f long { h with buf := w }, 0, blockSize long - (r + 1), q + 1, ?_, Nat.zero_le _, ?_,
      hfed'.flush w⟩
    · simp only [spill, if_pos hroom, hwrite, Option.bind_eq_bind, Option.bind_some, pure]
    · rw [Nat.mod_eq_of_lt (by omega)]
      omega
  · refine ⟨h, r + 1, 0, q, ?_, by omega, ?_, ?_⟩
    · rw [spill, if_neg hroom]
    · rw [Nat.mod_eq_sub_mod (by omega), Nat.mod_eq_of_lt (by omega)]
      omega
    · rwa [List.replicate_zero, List.append_nil]

/-- `Pad` puts the blocks through `Transform` that are left. -/
theorem pad_spec (ha : After f long s m h) :
    ∃ h', pad f long h = some h' ∧ h'.hash = (blocksOf long m).foldl f s := by
  have hge := blockSize_ge long
  obtain ⟨w₁, hstore, hfed₁⟩ :=
    ha.fed.exists_store (blockSize_le long) 0x80 (Nat.mod_lt _ (blockSize_pos long))
  obtain ⟨h₁, off, z, q, hspill, hoff, hzeros, hfed₂⟩ := spill_spec (h := { h with buf := w₁ }) hfed₁
  obtain ⟨w₂, hwrite₂, hfed₃⟩ := hfed₂.exists_write (blockSize_le long)
    (List.replicate (blockSize long - 8 - off) 0) (by
      rw [List.length_replicate]
      omega)
  rw [List.length_replicate, Nat.add_sub_cancel' hoff, List.append_assoc, ← List.replicate_add, hzeros] at hfed₃
  obtain ⟨w₃, hwrite₃, hfed₄⟩ := hfed₃.exists_write (blockSize_le long) (beBytes 8 (h₁.nblocks + 1).toNat) (by
    rw [length_beBytes]
    omega)
  rw [length_beBytes, Nat.sub_add_cancel (by omega)] at hfed₄
  -- The block that is made now is the last one.
  have hcount : count long m.length = q + 1 := by
    have hlen := hfed₄.length
    rw [List.length_append, List.length_append, List.length_append, List.length_replicate, length_beBytes,
      List.length_singleton, ← Nat.succ_mul] at hlen
    rw [count, zeros, hlen, Nat.mul_div_cancel _ (blockSize_pos long)]
  have hnumber : beBytes 8 (h₁.nblocks + 1).toNat = beBytes 8 (count long m.length) := by
    have hsum : BitVec.ofNat 64 q + 1 = BitVec.ofNat 64 (q + 1) := (BitVec.ofNat_add q 1).symm
    rw [(count_of_fed hfed₂).2, hcount, hsum, BitVec.toNat_ofNat]
    exact beBytes_mod 8 (q + 1)
  rw [hnumber] at hfed₄ hwrite₃
  refine ⟨transformBuf f long { h₁ with buf := w₃, nblocks := h₁.nblocks + 1 }, ?_, ?_⟩
  · rw [pad, padAt, ha.offset_eq]
    simp only [hstore, hspill, hwrite₂, hnumber, hwrite₃, Option.bind_eq_bind, Option.bind_some, pure]
  · have hlast := (count_of_fed (h := transformBuf f long { h₁ with buf := w₃ }) (hfed₄.flush w₃)).1
    rw [blocksOf, hcount]
    exact hlast

/-! ## Digests -/

theorem zeros_lt (long : Bool) (n : Nat) : zeros long n < blockSize long := Nat.mod_lt _ (blockSize_pos long)

theorem length_paddedMessage (long : Bool) (m : List UInt8) :
    (paddedMessage long m).length = count long m.length * blockSize long := by
  have hlen : (paddedMessage long m).length = m.length + 1 + zeros long m.length + 8 := by
    rw [paddedMessage, List.length_append, List.length_append, List.length_append, List.length_replicate,
      length_beBytes, List.length_singleton]
  rw [hlen]
  unfold count zeros blockSize
  split <;> omega

theorem flatten_blocksOf (long : Bool) (m : List UInt8) : (blocksOf long m).flatten = paddedMessage long m := by
  have hlen := length_paddedMessage long m
  rw [blocksOf, flatten_chunks hlen.ge, List.take_of_length_le hlen.le]

/-- The message that calls give. -/
def message (cs : List Call) : List UInt8 := (cs.map Call.data).flatten

/-- The blocks that go through `Transform`. -/
def blocksPassed (long : Bool) (earlier : Groestl (List (List UInt8))) (cs : List Call) :
    Option (List (List UInt8)) := do
  let h ← cs.foldlM (hashClass (fun bs b => bs ++ [b]) long List.flatten []).step (resetTo [] earlier)
  let h ← pad (fun bs b => bs ++ [b]) long h
  return h.hash

/-- The class, for a digest size. -/
abbrev groestl (table : Table) (size : Nat) : HashClass :=
  hashClass (compress table) (isLong size) (digestOf table size) (initialHash size)

/-- Whatever the object was used for before it was reset, the blocks are those of the message with its padding, and
the count at their end is that of all of them. So the digest depends only on the message and the digest size. -/
theorem groestl_stream (table : Table) {size : Nat} (hsize : 1 ≤ size ∧ size ≤ 64)
    (earlier : Groestl (Words (isLong size))) (noted : Groestl (List (List UInt8))) {cs : List Call}
    (hcs : Admissible (blockSize (isLong size)) 0 cs) :
    blocksPassed (isLong size) noted cs = some (blocksOf (isLong size) (message cs)) ∧
      (∀ b ∈ blocksOf (isLong size) (message cs), b.length = blockSize (isLong size)) ∧
      (∃ z < blockSize (isLong size), (blocksOf (isLong size) (message cs)).flatten =
        message cs ++ [0x80] ++ List.replicate z 0 ++ beBytes 8 (blocksOf (isLong size) (message cs)).length) ∧
      ∃ digest, (cs.foldlM (groestl table size).step (resetTo (initialHash size) earlier)).bind
          (groestl table size).getDigest = some digest ∧ digest.length = size ∧
        digest = digestOf table size
          ((blocksOf (isLong size) (message cs)).foldl (compress table) (initialHash size)) := by
  have hlen := length_paddedMessage (isLong size) (message cs)
  refine ⟨?_, ?_, ?_, ?_⟩
  · obtain ⟨h, hrun, ha⟩ := run_spec List.flatten
      (after_resetTo (fun bs b => bs ++ [b]) (isLong size) [] noted) hcs
    obtain ⟨h', hpad, hhash⟩ := pad_spec ha
    rw [blocksPassed, hrun]
    change (pad _ _ h).bind _ = _
    rw [hpad, Option.bind_some, hhash, foldl_snoc, List.nil_append]
    rfl
  · intro b hb
    exact length_of_mem_chunks hlen.ge hb
  · refine ⟨zeros (isLong size) (message cs).length, zeros_lt _ _, ?_⟩
    rw [flatten_blocksOf, blocksOf, length_chunks]
    rfl
  · obtain ⟨h, hrun, ha⟩ := run_spec (digestOf table size)
      (after_resetTo (compress table) (isLong size) (initialHash size) earlier) hcs
    obtain ⟨h', hpad, hhash⟩ := pad_spec ha
    refine ⟨digestOf table size h'.hash, ?_, length_lastBytes hsize.2 _, by rw [hhash]; rfl⟩
    rw [hrun, Option.bind_some]
    change (pad _ _ h).bind _ = _
    rw [hpad]
    rfl

/-- A message of one byte, for an object that was used before. -/
theorem groestl_stream_one :
    blocksPassed false ⟨[[1]], Vector.replicate 128 2, 3, 5⟩ [⟨false, [0x61]⟩] = some (blocksOf false [0x61]) ∧
      (∀ b ∈ blocksOf false [0x61], b.length = 64) ∧
      (∃ z < 64, (blocksOf false [0x61]).flatten =
        [0x61] ++ [0x80] ++ List.replicate z 0 ++ beBytes 8 (blocksOf false [0x61]).length) ∧
      ∃ digest, ([⟨false, [0x61]⟩].foldlM (groestl (fun _ b => b.toUInt64) 32).step
          (resetTo (initialHash 32) ⟨initialHash 32, Vector.replicate 128 2, 3, 5⟩)).bind
          (groestl (fun _ b => b.toUInt64) 32).getDigest = some digest ∧ digest.length = 32 ∧
        digest = digestOf (fun _ b => b.toUInt64) 32
          ((blocksOf false [0x61]).foldl (compress fun _ b => b.toUInt64) (initialHash 32)) :=
  groestl_stream (fun _ b => b.toUInt64) (show 1 ≤ 32 ∧ 32 ≤ 64 by decide)
    ⟨initialHash 32, Vector.replicate 128 2, 3, 5⟩ ⟨[[1]], Vector.replicate 128 2, 3, 5⟩
    ⟨by decide, by decide, trivial⟩

end Drew.Groestl
