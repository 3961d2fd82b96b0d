import Drew.Block.Cipher
import Drew.Stream.Chunks
import Drew.Stream.Units

/-!
# The buffering of stream ciphers

The model of `CopyAndXor` and `CopyAndXorAligned` of `util.hh`. A cipher has a buffer for a block of
its keystream, of which the last `nbytes` bytes are not used yet, and the function `FillBuffer` for
the next block. The first function takes texts of any length. The second one knows whole blocks
only, and does not look at the buffer.

All the members but `m_buf` and `m_nbytes` are together in `m`. `out` and `in` have the size that
is given, and may be the same.
-/

namespace Drew.StreamCipher

open Drew.Memory Drew.Block Drew.Stream

/-- The members of a cipher. -/
structure Ctx (M : Type) (n : Nat) where
  m : M
  buf : Buf UInt8 n
  nbytes : Nat

variable {M : Type} {n : Nat}

/-! ## The code -/

section

variable (fillBuffer : M → Buf UInt8 n × M)

/-- Use up what is left in the buffer. Gives `boff`, the output, and the rest of the text. -/
def leftover (c : Ctx M n) (data : List UInt8) : Option (Nat × List UInt8 × List UInt8) :=
  let boff := subSize n c.nbytes % n
  if c.nbytes ≠ 0 then do
    let b := min c.nbytes data.length
    let key ← c.buf.read boff b
    return (if boff + b = n then 0 else boff + b, xorBytes key (data.take b), data.drop b)
  else some (boff, [], data)

/-- `k` whole blocks. Gives the members, the buffer, the output, and the rest of the text. -/
def wholes : Nat → M → Buf UInt8 n → List UInt8 → M × Buf UInt8 n × List UInt8 × List UInt8
  | 0, m, buf, data => (m, buf, [], data)
  | k + 1, m, _, data =>
      let (buf, m) := fillBuffer m
      let out := xorBytes buf.toList (data.take n)
      let (m, buf, outs, rest) := wholes k m buf (data.drop n)
      (m, buf, out ++ outs, rest)

/-- Begin a block, if some of the text is left. -/
def begun (m : M) (buf : Buf UInt8 n) (boff : Nat) (data : List UInt8) :
    M × Buf UInt8 n × Nat × List UInt8 :=
  if data.length ≠ 0 then
    let (buf, m) := fillBuffer m
    (m, buf, data.length, xorBytes (buf.toList.take data.length) data)
  else (m, buf, boff, [])

/-- `CopyAndXor`. -/
def copyAndXor (c : Ctx M n) (data : List UInt8) : Option (Ctx M n × List UInt8) := do
  let (boff, out₁, data) ← leftover c data
  let (m, buf, out₂, data) := wholes fillBuffer (data.length / n) c.m c.buf data
  let (m, buf, boff, out₃) := begun fillBuffer m buf boff data
  return ({ m := m, buf := buf, nbytes := subSize n boff % n }, out₁ ++ out₂ ++ out₃)

/-- The rounds of `CopyAndXorAligned`, each of which has a whole block. -/
def alignedBlocks : Nat → Ctx M n → List UInt8 → Option (Ctx M n × List UInt8)
  | 0, c, _ => some (c, [])
  | k + 1, c, data =>
      if data.length < n then none else do
        let (buf, m) := fillBuffer c.m
        let (c, outs) ← alignedBlocks k { c with m := m, buf := buf } (data.drop n)
        return (c, xorBytes buf.toList (data.take n) ++ outs)

/-- `CopyAndXorAligned`. -/
def copyAndXorAligned (c : Ctx M n) (data : List UInt8) : Option (Ctx M n × List UInt8) :=
  alignedBlocks fillBuffer ((data.length + n - 1) / n) c data

/-! ## The keystream -/

/-- The members after `q` blocks. -/
def membersAt (m : M) (q : Nat) : M := (fun m => (fillBuffer m).2)^[q] m

/-- A byte of the blocks that are still to be made. -/
def blockByte (m : M) (i : Nat) : UInt8 :=
  ((fillBuffer (membersAt fillBuffer m (i / n))).1[i % n]?).getD 0

/-- What is left in the buffer, and then the blocks. -/
def keystream (c : Ctx M n) (i : Nat) : UInt8 :=
  if i < c.nbytes then (c.buf[n - c.nbytes + i]?).getD 0
  else blockByte fillBuffer c.m (i - c.nbytes)

end

variable {f : M → Buf UInt8 n × M} {c : Ctx M n} {data : List UInt8} {m : M}

theorem membersAt_add (m : M) (p q : Nat) :
    membersAt f (membersAt f m p) q = membersAt f m (p + q) := by
  rw [membersAt, membersAt, membersAt, Nat.add_comm, Function.iterate_add_apply]

theorem membersAt_one (m : M) : (f m).2 = membersAt f m 1 := rfl

/-- The blocks after `q` others. -/
theorem blockByte_membersAt (hn : 0 < n) (m : M) (q : Nat) :
    blockByte f (membersAt f m q) = advance (blockByte f m) (q * n) := by
  funext i
  rw [advance, blockByte, blockByte, membersAt_add, Nat.add_comm (q * n),
    Nat.add_mul_div_right _ _ hn, Nat.add_mul_mod_self_right, Nat.add_comm (i / n)]

theorem blockByte_lt {i : Nat} (m : M) (hi : i < n) :
    blockByte f m i = (f m).1[i] := by
  rw [blockByte, Nat.div_eq_of_lt hi, Nat.mod_eq_of_lt hi, membersAt, Function.iterate_zero_apply,
    Vector.getElem?_eq_getElem hi]
  rfl

/-- With an empty buffer the keystream begins with a block. -/
theorem keystream_zero (h0 : c.nbytes = 0) : keystream f c = blockByte f c.m := by
  funext i
  rw [keystream, h0, if_neg (Nat.not_lt_zero i), Nat.sub_zero]

/-- From the end of the buffer on. -/
theorem advance_keystream (c : Ctx M n) :
    advance (keystream f c) c.nbytes = blockByte f c.m := by
  funext i
  rw [advance, keystream, if_neg (by omega), Nat.add_sub_cancel_left]

/-- A text within a block. -/
theorem xor_block (m : M) (hlen : data.length ≤ n) :
    xorBytes ((f m).1.toList.take data.length) data =
      maskWith (blockByte f m) data := by
  apply zipWith_eq_maskWith
  intro i hi
  rw [List.getElem?_take_of_lt hi, Vector.getElem?_toList, blockByte_lt m (by omega)]
  exact Vector.getElem?_eq_getElem (by omega)

/-! ## The phases -/

theorem wholes_succ (k : Nat) (m : M) (buf : Buf UInt8 n) (data : List UInt8) :
    wholes f (k + 1) m buf data =
      let r := wholes f k (membersAt f m 1) (f m).1 (data.drop n)
      (r.1, r.2.1, xorBytes (f m).1.toList (data.take n) ++ r.2.2.1, r.2.2.2) := rfl

theorem wholes_spec (hn : 0 < n) (k : Nat) (m : M) (buf : Buf UInt8 n) (hk : k * n ≤ data.length) :
    ∃ buf', wholes f k m buf data =
      (membersAt f m k, buf', maskWith (blockByte f m) (data.take (k * n)),
        data.drop (k * n)) ∧ (k = 0 → buf' = buf) := by
  induction k generalizing m buf data with
  | zero => exact ⟨buf, by simp [wholes, membersAt], fun _ => rfl⟩
  | succ k ih =>
    rw [Nat.add_mul, Nat.one_mul] at hk
    have hlen : (data.take n).length = n := by
      rw [List.length_take]
      omega
    have hrest : k * n ≤ (data.drop n).length := by
      rw [List.length_drop]
      omega
    obtain ⟨buf', hwholes, -⟩ := ih (f m).2 (f m).1 hrest
    refine ⟨buf', ?_, fun h => absurd h (Nat.succ_ne_zero k)⟩
    have hout : xorBytes (f m).1.toList (data.take n) =
        maskWith (blockByte f m) (data.take n) := by
      have h := xor_block (f := f) m hlen.le
      rwa [hlen, List.take_of_length_le (Vector.length_toList).le] at h
    have hsplit : data.take ((k + 1) * n) = data.take n ++ (data.drop n).take (k * n) := by
      rw [← List.take_add, Nat.add_mul, Nat.one_mul, Nat.add_comm]
    rw [membersAt_one, membersAt_add, blockByte_membersAt hn, Nat.one_mul, Nat.add_comm 1 k,
      List.drop_drop] at hwholes
    rw [wholes_succ, hwholes, hout]
    dsimp only
    rw [hsplit, maskWith_append, hlen, Nat.add_mul, Nat.one_mul, Nat.add_comm n]

theorem read_leftover (hn : c.nbytes ≤ n) {b : Nat} (hb : b ≤ c.nbytes) (hlen : b ≤ data.length) :
    ∃ key, c.buf.read (n - c.nbytes) b = some key ∧
      xorBytes key (data.take b) = maskWith (keystream f c) (data.take b) := by
  obtain ⟨key, hread, hkey, hholds⟩ := Buf.exists_read c.buf (n - c.nbytes) b (by omega)
  refine ⟨key, hread, ?_⟩
  have htake : (data.take b).length = b := by
    rw [List.length_take]
    omega
  apply zipWith_eq_maskWith
  intro i hi
  rw [htake] at hi
  have hlt : i < key.length := by omega
  rw [← hholds.2 i hlt, keystream, if_pos (by omega), Vector.getElem?_eq_getElem (by omega)]
  rfl


/-- The whole of what is left in the buffer is used. -/
theorem leftover_all (hc : c.nbytes ≤ n) (hn : n < 2 ^ 64) (hlen : c.nbytes ≤ data.length) :
    leftover c data = some (0, maskWith (keystream f c) (data.take c.nbytes),
      data.drop c.nbytes) := by
  have hsub : subSize n c.nbytes = n - c.nbytes := subSize_of_le hc hn
  by_cases h0 : c.nbytes = 0
  · rw [leftover, if_neg (not_not.mpr h0), hsub, h0, Nat.sub_zero, Nat.mod_self, List.take_zero,
      List.drop_zero]
    rfl
  · obtain ⟨key, hread, hkey⟩ := read_leftover (f := f) hc le_rfl hlen
    have hmod : (n - c.nbytes) % n = n - c.nbytes := Nat.mod_eq_of_lt (by omega)
    rw [leftover, if_pos h0, hsub, hmod]
    simp only [Nat.min_eq_left hlen, hread, Option.bind_eq_bind, Option.bind_some, pure]
    rw [if_pos (by omega), hkey]

/-- A part of it is used. -/
theorem leftover_part (hc : c.nbytes ≤ n) (hn : n < 2 ^ 64) (hlen : data.length < c.nbytes) :
    leftover c data =
      some (n - (c.nbytes - data.length), maskWith (keystream f c) data, []) := by
  have hsub : subSize n c.nbytes = n - c.nbytes := subSize_of_le hc hn
  have hmod : (n - c.nbytes) % n = n - c.nbytes := Nat.mod_eq_of_lt (by omega)
  obtain ⟨key, hread, hkey⟩ := read_leftover (f := f) hc hlen.le le_rfl
  rw [List.take_length] at hkey
  rw [leftover, if_pos (by omega), hsub, hmod]
  simp only [Nat.min_eq_right hlen.le, hread, Option.bind_eq_bind, Option.bind_some, pure,
    List.take_length, List.drop_length, hkey]
  rw [if_neg (by omega), show n - c.nbytes + data.length = n - (c.nbytes - data.length) by omega]

/-- Less than a block, from the beginning of one on. -/
theorem begun_spec (hsize : n < 2 ^ 64) (m : M) (buf : Buf UInt8 n) (hlen : data.length < n) :
    ∃ m' buf' boff, begun f m buf 0 data =
        (m', buf', boff, maskWith (blockByte f m) data) ∧ subSize n boff % n < n ∧
      keystream f ⟨m', buf', subSize n boff % n⟩ =
        advance (blockByte f m) data.length := by
  have hn : 0 < n := by omega
  have hlt : ∀ i, i % n < n := fun i => Nat.mod_lt i hn
  by_cases h0 : data.length = 0
  · obtain rfl := List.eq_nil_of_length_eq_zero h0
    refine ⟨m, buf, 0, rfl, hlt _, ?_⟩
    rw [subSize_of_le (Nat.zero_le n) hsize, Nat.sub_zero, Nat.mod_self, List.length_nil, advance_zero]
    exact keystream_zero rfl
  · refine ⟨(f m).2, (f m).1, data.length, ?_, hlt _, ?_⟩
    · rw [begun, if_pos h0]
      simp only [xor_block m hlen.le]
    · have hrem : subSize n data.length % n = n - data.length := by
        rw [subSize_of_le hlen.le hsize, Nat.mod_eq_of_lt (by omega)]
      rw [hrem]
      funext i
      rw [advance]
      by_cases hi : i < n - data.length
      · rw [keystream, if_pos hi, blockByte_lt m (by omega)]
        have hidx : n - (n - data.length) + i = data.length + i := by omega
        simp only [hidx]
        rw [Vector.getElem?_eq_getElem (by omega)]
        rfl
      · have hnext := blockByte_membersAt (f := f) hn m 1
        rw [Nat.one_mul] at hnext
        rw [keystream, if_neg hi, membersAt_one, hnext, advance]
        change blockByte f m (n + (i - (n - data.length))) = _
        congr 1
        omega

/-! ## Calls -/

/-- A call combines its text with the keystream, and the next one goes on where it stopped. A full
buffer must not meet an empty text: the offset would be that of an empty buffer. -/
theorem copyAndXor_spec (hn : 0 < n) (hsize : n < 2 ^ 64) (hc : c.nbytes ≤ n)
    (hne : c.nbytes = n → data ≠ []) :
    ∃ c', copyAndXor f c data = some (c', maskWith (keystream f c) data) ∧
      c'.nbytes < n ∧ keystream f c' = advance (keystream f c) data.length := by
  by_cases hlen : data.length < c.nbytes
  · -- The buffer has more than is needed.
    have hleft := leftover_part (f := f) hc hsize hlen
    have hboff : subSize n (n - (c.nbytes - data.length)) % n = c.nbytes - data.length := by
      have hlt : c.nbytes - data.length < n := by
        rcases Nat.lt_or_eq_of_le hc with hc | hc
        · omega
        · have hpos := List.length_pos_of_ne_nil (hne hc)
          omega
      rw [subSize_of_le (by omega) hsize, Nat.sub_sub_self (by omega), Nat.mod_eq_of_lt hlt]
    refine ⟨{ c with nbytes := c.nbytes - data.length }, ?_, ?_, ?_⟩
    · simp only [copyAndXor, hleft, List.length_nil, Nat.zero_div, wholes, begun, ne_eq,
        not_true_eq_false, if_false, Option.bind_eq_bind, Option.bind_some, pure, hboff,
        List.append_nil]
    · rw [← hboff]
      exact Nat.mod_lt _ hn
    · funext i
      rw [advance, keystream, keystream]
      by_cases hi : i < c.nbytes - data.length
      · have hidx : n - (c.nbytes - data.length) + i = n - c.nbytes + (data.length + i) := by omega
        rw [if_pos hi, if_pos (by omega), hidx]
      · rw [if_neg hi, if_neg (by omega)]
        change blockByte f c.m (i - (c.nbytes - data.length)) = _
        congr 1
        omega
  · have hleft := leftover_all (f := f) hc hsize (Nat.le_of_not_lt hlen)
    obtain ⟨rest, hrest⟩ : ∃ rest, rest = data.drop c.nbytes := ⟨_, rfl⟩
    have hkn : rest.length / n * n ≤ rest.length := Nat.div_mul_le_self _ _
    obtain ⟨buf₁, hwholes, -⟩ := wholes_spec (f := f) hn
      (rest.length / n) c.m c.buf hkn
    have htail : (rest.drop (rest.length / n * n)).length < n := by
      have hmod := Nat.mod_lt rest.length hn
      have hdiv := Nat.div_add_mod' rest.length n
      rw [List.length_drop]
      omega
    obtain ⟨m₂, buf₂, boff, hbegun, hlt, hkey⟩ := begun_spec (f := f) hsize
      (membersAt f c.m (rest.length / n)) buf₁ htail
    have hrestLen : rest.length = data.length - c.nbytes := by
      rw [hrest, List.length_drop]
    rw [blockByte_membersAt hn] at hbegun hkey
    have hmask : maskWith (keystream f c) data =
        maskWith (keystream f c) (data.take c.nbytes) ++
          (maskWith (blockByte f c.m) (rest.take (rest.length / n * n)) ++
            maskWith (advance (blockByte f c.m) (rest.length / n * n))
              (rest.drop (rest.length / n * n))) := by
      rw [← maskWith_split _ (by omega), ← advance_keystream c, hrest]
      exact maskWith_split _ (Nat.le_of_not_lt hlen)
    refine ⟨⟨m₂, buf₂, subSize n boff % n⟩, ?_, hlt, ?_⟩
    · rw [hmask]
      simp only [copyAndXor, hleft, ← hrest, hwholes, hbegun, Option.bind_eq_bind, Option.bind_some,
        pure, List.append_assoc]
    · rw [hkey, advance_advance, ← advance_keystream c, advance_advance, List.length_drop]
      congr 1
      omega

/-- The rounds of the fast function, for whole blocks. -/
theorem alignedBlocks_spec (hn : 0 < n) (k : Nat) (c : Ctx M n) (hlen : data.length = k * n) :
    ∃ c', alignedBlocks f k c data =
        some (c', maskWith (blockByte f c.m) data) ∧ c'.nbytes = c.nbytes ∧
      c'.m = membersAt f c.m k := by
  induction k generalizing c data with
  | zero =>
    rw [Nat.zero_mul] at hlen
    obtain rfl := List.eq_nil_of_length_eq_zero hlen
    exact ⟨c, rfl, rfl, rfl⟩
  | succ k ih =>
    rw [Nat.add_mul, Nat.one_mul] at hlen
    have htake : (data.take n).length = n := by
      rw [List.length_take]
      omega
    obtain ⟨c', hrun, hnbytes, hm⟩ := ih { c with m := (f c.m).2, buf := (f c.m).1 }
      (show (data.drop n).length = k * n by rw [List.length_drop]; omega)
    refine ⟨c', ?_, hnbytes, ?_⟩
    · have hout := xor_block (f := f) c.m htake.le
      rw [htake, List.take_of_length_le (Vector.length_toList).le] at hout
      have hnext := blockByte_membersAt (f := f) hn c.m 1
      rw [Nat.one_mul] at hnext
      rw [maskWith_split _ (show n ≤ data.length by omega), ← hnext, ← hout]
      change alignedBlocks f k _ _ = some (c', maskWith (blockByte f (f c.m).2) _)
        at hrun
      rw [alignedBlocks, if_neg (by omega)]
      simp only [hrun, Option.bind_eq_bind, Option.bind_some, pure]
      rfl
    · rw [hm, membersAt_one, membersAt_add, Nat.add_comm]

/-- Whole blocks, with an empty buffer. -/
theorem copyAndXorAligned_spec (hn : 0 < n) (h0 : c.nbytes = 0) (hlen : data.length % n = 0) :
    ∃ c', copyAndXorAligned f c data = some (c', maskWith (keystream f c) data) ∧
      c'.nbytes < n ∧ keystream f c' = advance (keystream f c) data.length := by
  have hdiv := Nat.div_add_mod' data.length n
  have hk : (data.length + n - 1) / n = data.length / n :=
    Nat.div_eq_of_lt_le (by omega) (by rw [Nat.add_mul, Nat.one_mul]; omega)
  have hblocks : data.length = data.length / n * n := by omega
  obtain ⟨c', hrun, hnbytes, hm⟩ := alignedBlocks_spec (f := f) hn _ c hblocks
  refine ⟨c', ?_, by omega, ?_⟩
  · rw [copyAndXorAligned, hk, hrun, keystream_zero h0]
  · rw [keystream_zero h0, keystream_zero (hnbytes.trans h0), hm, blockByte_membersAt hn, ← hblocks]

/-! ## The members after a call -/

/-- Only `FillBuffer` changes them. -/
theorem wholes_members (k : Nat) (m : M) (buf : Buf UInt8 n) (data : List UInt8) :
    (wholes f k m buf data).1 = membersAt f m k := by
  induction k generalizing m buf data with
  | zero => rfl
  | succ k ih => rw [wholes_succ, ih, membersAt_add, Nat.add_comm]

theorem begun_members (m : M) (buf : Buf UInt8 n) (boff : Nat) (data : List UInt8) :
    ∃ q, (begun f m buf boff data).1 = membersAt f m q := by
  by_cases h0 : data.length ≠ 0
  · exact ⟨1, by rw [begun, if_pos h0]; rfl⟩
  · exact ⟨0, by rw [begun, if_neg h0]; rfl⟩

/-- The phases after the first one. -/
theorem copyAndXor_eq {boff : Nat} {out rest : List UInt8}
    (h : leftover c data = some (boff, out, rest)) :
    copyAndXor f c data =
      let w := wholes f (rest.length / n) c.m c.buf rest
      let b := begun f w.1 w.2.1 boff w.2.2.2
      some (⟨b.1, b.2.1, subSize n b.2.2.1 % n⟩, out ++ w.2.2.1 ++ b.2.2.2) := by
  rw [copyAndXor, h]
  rfl

theorem copyAndXor_members {c' : Ctx M n} {out : List UInt8}
    (h : copyAndXor f c data = some (c', out)) : ∃ q, c'.m = membersAt f c.m q := by
  cases hleft : leftover c data with
  | none =>
    rw [copyAndXor, hleft] at h
    cases h
  | some r =>
    obtain ⟨boff, out₁, rest⟩ := r
    rw [copyAndXor_eq hleft] at h
    have hm := congrArg (fun p => p.1.m) (Option.some.inj h)
    obtain ⟨q, hq⟩ := begun_members (f := f) (wholes f (rest.length / n) c.m c.buf rest).1
      (wholes f (rest.length / n) c.m c.buf rest).2.1 boff
      (wholes f (rest.length / n) c.m c.buf rest).2.2.2
    have hmembers := hm.symm.trans hq
    rw [wholes_members, membersAt_add] at hmembers
    exact ⟨_, hmembers⟩

/-- Less than a block is left, whatever was there before. -/
theorem copyAndXor_nbytes (hn : 0 < n) {c' : Ctx M n} {out : List UInt8}
    (h : copyAndXor f c data = some (c', out)) : c'.nbytes < n := by
  cases hleft : leftover c data with
  | none =>
    rw [copyAndXor, hleft] at h
    cases h
  | some r =>
    rw [copyAndXor_eq hleft] at h
    have hnbytes := congrArg (fun p => p.1.nbytes) (Option.some.inj h)
    rw [← hnbytes]
    exact Nat.mod_lt _ hn

theorem alignedBlocks_members {k : Nat} {c' : Ctx M n} {out : List UInt8}
    (h : alignedBlocks f k c data = some (c', out)) :
    c'.m = membersAt f c.m k ∧ c'.nbytes = c.nbytes := by
  induction k generalizing c data out with
  | zero =>
    cases h
    exact ⟨rfl, rfl⟩
  | succ k ih =>
    unfold alignedBlocks at h
    split at h
    · cases h
    · obtain ⟨⟨c₁, outs⟩, hrun, h⟩ := Option.bind_eq_some_iff.mp h
      cases h
      obtain ⟨hm, hnbytes⟩ := ih hrun
      exact ⟨by rw [hm, membersAt_one, membersAt_add, Nat.add_comm], hnbytes⟩

/-! ## Two contexts -/

section Rel

variable {S : M → M → Prop} {d : Ctx M n}

/-- Members that make the same blocks. -/
def MakesSame (f : M → Buf UInt8 n × M) (S : M → M → Prop) : Prop :=
  ∀ m m', S m m' → (f m).1 = (f m').1 ∧ S (f m).2 (f m').2

/-- The contexts have the same keystream, whatever the buffers have if they are used up. -/
structure Alike (S : M → M → Prop) (c d : Ctx M n) : Prop where
  m : S c.m d.m
  nbytes : c.nbytes = d.nbytes
  buf : c.nbytes ≠ 0 → c.buf = d.buf

theorem MakesSame.membersAt (hS : MakesSame f S) {m m' : M} (hm : S m m') (q : Nat) :
    S (StreamCipher.membersAt f m q) (StreamCipher.membersAt f m' q) := by
  induction q generalizing m m' with
  | zero => exact hm
  | succ q ih =>
    rw [Nat.add_comm, ← membersAt_add, ← membersAt_add]
    exact ih (hS m m' hm).2

/-- The keystream is that of what is left in the buffer and of the blocks. -/
theorem keystream_congr (hS : MakesSame f S) (hm : S c.m d.m) (hnbytes : c.nbytes = d.nbytes)
    (hbuf : ∀ i < c.nbytes, c.buf[n - c.nbytes + i]? = d.buf[n - c.nbytes + i]?) :
    keystream f c = keystream f d := by
  funext i
  rw [keystream, keystream, ← hnbytes]
  split
  · rw [hbuf i ‹_›]
  · rw [blockByte, blockByte, (hS _ _ (hS.membersAt hm _)).1]

theorem Alike.keystream (hS : MakesSame f S) (h : Alike S c d) :
    StreamCipher.keystream f c = StreamCipher.keystream f d := by
  apply keystream_congr hS h.m h.nbytes
  intro i hi
  rw [h.buf (by omega)]

theorem MakesSame.wholes (hS : MakesSame f S) (k : Nat) {m m' : M} (hm : S m m')
    (buf buf' : Buf UInt8 n) (data : List UInt8) :
    S (StreamCipher.wholes f k m buf data).1 (StreamCipher.wholes f k m' buf' data).1 ∧
      (StreamCipher.wholes f k m buf data).2.2 = (StreamCipher.wholes f k m' buf' data).2.2 ∧
      (k ≠ 0 ∨ buf = buf' →
        (StreamCipher.wholes f k m buf data).2.1 = (StreamCipher.wholes f k m' buf' data).2.1) := by
  induction k generalizing m m' buf buf' data with
  | zero =>
    refine ⟨hm, rfl, ?_⟩
    rintro (h | rfl)
    · exact absurd rfl h
    · rfl
  | succ k ih =>
    obtain ⟨hblock, hnext⟩ := hS m m' hm
    obtain ⟨hm₁, hout, hbuf⟩ := ih hnext (f m).1 (f m').1 (data.drop n)
    refine ⟨hm₁, ?_, fun _ => hbuf (Or.inr hblock)⟩
    obtain ⟨houts, hrest⟩ := Prod.ext_iff.mp hout
    change (xorBytes (f m).1.toList (data.take n) ++ _, _) = (_, _)
    rw [houts, hrest, hblock]

theorem MakesSame.begun (hS : MakesSame f S) {m m' : M} (hm : S m m') (buf buf' : Buf UInt8 n)
    (boff : Nat) (data : List UInt8) :
    S (StreamCipher.begun f m buf boff data).1 (StreamCipher.begun f m' buf' boff data).1 ∧
      (StreamCipher.begun f m buf boff data).2.2 = (StreamCipher.begun f m' buf' boff data).2.2 ∧
      (data.length ≠ 0 ∨ buf = buf' → (StreamCipher.begun f m buf boff data).2.1 =
        (StreamCipher.begun f m' buf' boff data).2.1) ∧
      (data.length = 0 → (StreamCipher.begun f m buf boff data).2.2.1 = boff) := by
  obtain ⟨hblock, hnext⟩ := hS m m' hm
  unfold StreamCipher.begun
  by_cases h0 : data.length ≠ 0
  · rw [if_pos h0, if_pos h0]
    exact ⟨hnext, by simp only [hblock], fun _ => hblock, fun h => absurd h h0⟩
  · rw [if_neg h0, if_neg h0]
    refine ⟨hm, rfl, ?_, fun _ => rfl⟩
    rintro (h | h)
    · exact absurd h h0
    · exact h

/-- The same calls on both. -/
theorem Alike.copyAndXor (hS : MakesSame f S) (hsize : n < 2 ^ 64) (h : Alike S c d)
    (data : List UInt8) :
    Option.Rel (fun p q => Alike S p.1 q.1 ∧ p.2 = q.2) (StreamCipher.copyAndXor f c data)
      (StreamCipher.copyAndXor f d data) := by
  have hleft : leftover c data = leftover d data := by
    unfold leftover
    by_cases h0 : c.nbytes = 0
    · simp only [← h.nbytes, h0, ne_eq, not_true_eq_false, if_false]
    · rw [h.nbytes, h.buf h0]
  cases hl : leftover c data with
  | none =>
    unfold StreamCipher.copyAndXor
    rw [← hleft, hl]
    exact .none
  | some r =>
    obtain ⟨boff, out₁, rest⟩ := r
    obtain ⟨hm₁, hout, hbuf₁⟩ := hS.wholes (rest.length / n) h.m c.buf d.buf rest
    obtain ⟨hm₂, hout₂, hbuf₂, hboff⟩ := hS.begun hm₁
      (StreamCipher.wholes f (rest.length / n) c.m c.buf rest).2.1
      (StreamCipher.wholes f (rest.length / n) d.m d.buf rest).2.1 boff
      (StreamCipher.wholes f (rest.length / n) c.m c.buf rest).2.2.2
    obtain ⟨houts, hrest⟩ := Prod.ext_iff.mp hout
    obtain ⟨hboff₂, hout₃⟩ := Prod.ext_iff.mp hout₂
    rw [copyAndXor_eq hl, copyAndXor_eq (hleft ▸ hl)]
    dsimp only
    rw [← hrest, ← houts, ← hboff₂, ← hout₃]
    refine .some ⟨⟨hm₂, rfl, ?_⟩, rfl⟩
    · intro hne
      apply hbuf₂
      by_cases h0 : c.nbytes = 0
      · -- Nothing of the old buffer is left, so the rest of the text has filled the new one.
        refine Or.inl fun hrest => hne ?_
        have hzero : boff = 0 := by
          rw [leftover, if_neg (not_not.mpr h0), h0, subSize_of_le (Nat.zero_le n) hsize, Nat.sub_zero,
            Nat.mod_self] at hl
          exact (congrArg Prod.fst (Option.some.inj hl)).symm
        dsimp only
        rw [hboff hrest, hzero, subSize_of_le (Nat.zero_le n) hsize, Nat.sub_zero, Nat.mod_self]
      · exact Or.inr (hbuf₁ (Or.inr (h.buf h0)))

theorem Alike.alignedBlocks (hS : MakesSame f S) (k : Nat) (h : Alike S c d) (data : List UInt8) :
    Option.Rel (fun p q => Alike S p.1 q.1 ∧ p.2 = q.2) (StreamCipher.alignedBlocks f k c data)
      (StreamCipher.alignedBlocks f k d data) := by
  induction k generalizing c d data with
  | zero => exact .some ⟨h, rfl⟩
  | succ k ih =>
    unfold StreamCipher.alignedBlocks
    by_cases hlen : data.length < n
    · rw [if_pos hlen, if_pos hlen]
      exact .none
    · obtain ⟨hblock, hnext⟩ := hS _ _ h.m
      rw [if_neg hlen, if_neg hlen]
      have hrest := ih (c := ⟨(f c.m).2, (f c.m).1, c.nbytes⟩) (d := ⟨(f d.m).2, (f d.m).1, d.nbytes⟩)
        ⟨hnext, h.nbytes, fun _ => hblock⟩ (data.drop n)
      dsimp only
      rw [hblock]
      rw [hblock] at hrest
      generalize StreamCipher.alignedBlocks f k _ (data.drop n) = r at hrest ⊢
      generalize StreamCipher.alignedBlocks f k _ (data.drop n) = r' at hrest ⊢
      cases hrest with
      | none => exact .none
      | some hp => exact .some ⟨hp.1, by rw [hp.2]⟩

end Rel

end Drew.StreamCipher
