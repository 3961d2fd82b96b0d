import Drew.Hash.Update

/-!
# MD2

The model of `md2.cc`. The member `m_hash` has 64 bytes: the 48 bytes that RFC 1319 works on and the checksum.
`Pad` hands the checksum to `Update` where it is, so the last `Transform` reads its block from the bytes that it
changes. Every byte is read before it is changed (`transform_spec`), and the block is complete when the checksum
is handed over, so the digest is the one of RFC 1319 for every message.
-/

namespace Drew.Md2

open Drew.Memory Drew.Stream Drew.Hash

/-! ## The class -/

theorem blkSize_dvd : 16 ∣ 2 ^ (8 * 1) := by decide

/-- `Hash<uint8_t, 16, 64, 16, NonEndian>`. The words of `m_len` have a byte. -/
def params : Hash.Params := ⟨1, 16, Nat.one_pos, pos_16, blkSize_dvd⟩

def sbox : List UInt8 := [
  41, 46, 67, 201, 162, 216, 124, 1, 61, 54, 84, 161, 236, 240, 6,
  19, 98, 167, 5, 243, 192, 199, 115, 140, 152, 147, 43, 217, 188,
  76, 130, 202, 30, 155, 87, 60, 253, 212, 224, 22, 103, 66, 111, 24,
  138, 23, 229, 18, 190, 78, 196, 214, 218, 158, 222, 73, 160, 251,
  245, 142, 187, 47, 238, 122, 169, 104, 121, 145, 21, 178, 7, 63,
  148, 194, 16, 137, 11, 34, 95, 33, 128, 127, 93, 154, 90, 144, 50,
  39, 53, 62, 204, 231, 191, 247, 151, 3, 255, 25, 48, 179, 72, 165,
  181, 209, 215, 94, 146, 42, 172, 86, 170, 198, 79, 184, 56, 210,
  150, 164, 125, 182, 118, 252, 107, 226, 156, 116, 4, 241, 69, 157,
  112, 89, 100, 113, 135, 32, 134, 91, 207, 101, 230, 45, 168, 2, 27,
  96, 37, 173, 174, 176, 185, 246, 28, 70, 97, 105, 52, 64, 126, 15,
  85, 71, 163, 35, 221, 81, 175, 58, 195, 92, 249, 206, 186, 197,
  234, 38, 44, 83, 13, 110, 133, 40, 132, 9, 211, 223, 205, 244, 65,
  129, 77, 82, 106, 220, 55, 200, 108, 193, 171, 250, 36, 225, 123,
  8, 12, 189, 177, 74, 120, 136, 149, 139, 227, 99, 232, 109, 233,
  203, 213, 254, 59, 0, 29, 57, 242, 239, 183, 14, 102, 88, 208, 228,
  166, 119, 114, 248, 235, 117, 75, 10, 49, 68, 80, 180, 143, 237,
  31, 26, 219, 153, 141, 51, 159, 17, 131, 20]

def sub (x : UInt8) : UInt8 := sbox.getD x.toNat 0

/-- Where the bytes of a block are: in an object of the caller, or in `m_hash` from `off` on. -/
inductive Block
  | data (bs : List UInt8)
  | hash (off : Nat)

def Block.load (state : Buf UInt8 64) : Block → Nat → Option UInt8
  | .data bs, i => bs[i]?
  | .hash off, i => state.load (off + i)

/-- The body of the first loop of `Transform`. -/
def mixByte (block : Block) (sl : Buf UInt8 64 × UInt8) (i : Nat) : Option (Buf UInt8 64 × UInt8) := do
  let (state, l) := sl
  let b ← block.load state i
  let state ← state.store (i + 16) b
  let x ← state.load i
  let state ← state.store (i + 32) (b ^^^ x)
  let b ← block.load state i
  let c ← state.load (48 + i)
  let l := c ^^^ sub (b ^^^ l)
  let state ← state.store (48 + i) l
  return (state, l)

def passByte (st : Buf UInt8 64 × UInt8) (j : Nat) : Option (Buf UInt8 64 × UInt8) := do
  let (state, t) := st
  let x ← state.load j
  let t := x ^^^ sub t
  let state ← state.store j t
  return (state, t)

/-- The body of the second loop of `Transform`. -/
def pass (st : Buf UInt8 64 × UInt8) (i : Nat) : Option (Buf UInt8 64 × UInt8) := do
  let (state, t) ← (List.range 48).foldlM passByte st
  return (state, t + UInt8.ofNat i)

/-- `Transform`. -/
def transform (block : Block) (state : Buf UInt8 64) : Option (Buf UInt8 64) := do
  let l ← state.load (48 + 15)
  let (state, _) ← (List.range 16).foldlM (mixByte block) (state, l)
  let (state, _) ← (List.range 18).foldlM pass (state, 0)
  return state

/-- `Transform` as the template calls it, with whole blocks (`step_of`). -/
def step (state : Buf UInt8 64) (block : List UInt8) : Buf UInt8 64 := (transform (.data block) state).getD state

/-- A new object. -/
def reset : Hash params (Buf UInt8 64) := init (Vector.replicate 64 0)

/-- `Update(m_hash + 48, 16)`. What is left after the first block is completed is read when `Transform` has
changed it. -/
def updateChecksum (h : Hash params (Buf UInt8 64)) : Option (Hash params (Buf UInt8 64)) := do
  let off := h.len0.toNat % 16
  let h := h.count 16
  if off ≠ 0 then
    let i := min (16 - off) 16
    let bs ← h.hash.read 48 i
    let buf ← h.buf.write off bs
    let hash ← if i + off = 16 then transform (.data buf.toList) h.hash else some h.hash
    let rest ← hash.read (48 + i) (16 - i)
    let buf ← buf.write 0 rest
    return { h with hash := hash, buf := buf }
  else
    let hash ← transform (.hash 48) h.hash
    let buf ← h.buf.write 0 []
    return { h with hash := hash, buf := buf }

/-- `Pad`. -/
def pad (h : Hash params (Buf UInt8 64)) : Option (Hash params (Buf UInt8 64)) := do
  let off := h.len0.toNat % 16
  let val := 16 - off
  let h ← update step h (List.replicate val (UInt8.ofNat val))
  updateChecksum h

/-- `GetDigest`, which copies the first bytes. -/
def getDigest (h : Hash params (Buf UInt8 64)) (len : Nat) : Option (List UInt8) := do
  let h ← pad h
  h.hash.read 0 len

/-! ## RFC 1319 -/

/-- As many bytes as complete a block, each equal to their number. -/
def paddingFor (n : Nat) : List UInt8 := List.replicate (16 - n % 16) (UInt8.ofNat (16 - n % 16))

/-- A byte of the checksum. The last byte that was computed is used for the next one. -/
def checkByte (done : List UInt8 × UInt8) (cb : UInt8 × UInt8) : List UInt8 × UInt8 :=
  let l := cb.1 ^^^ sub (cb.2 ^^^ done.2)
  (done.1 ++ [l], l)

/-- The checksum after a block. -/
def checkBlock (C : List UInt8 × UInt8) (block : List UInt8) : List UInt8 × UInt8 :=
  (C.1.zip block).foldl checkByte ([], C.2)

/-- The checksum of some blocks. -/
def checksum (blocks : List (List UInt8)) : List UInt8 := (blocks.foldl checkBlock (List.replicate 16 0, 0)).1

/-- A byte of the state in a round. -/
def roundByte (done : List UInt8 × UInt8) (x : UInt8) : List UInt8 × UInt8 :=
  let t := x ^^^ sub done.2
  (done.1 ++ [t], t)

def round (xt : List UInt8 × UInt8) (j : Nat) : List UInt8 × UInt8 :=
  let r := xt.1.foldl roundByte ([], xt.2)
  (r.1, r.2 + UInt8.ofNat j)

/-- The state after a block. -/
def compress (X block : List UInt8) : List UInt8 :=
  ((List.range 18).foldl round (X.take 16 ++ block ++ List.zipWith (· ^^^ ·) block (X.take 16), 0)).1

def blocksOf (t : List UInt8) : List (List UInt8) := chunks 16 (t.length / 16) t

/-- The digest of a message. -/
def md2 (m : List UInt8) : List UInt8 :=
  let padded := m ++ paddingFor m.length
  ((blocksOf (padded ++ checksum (blocksOf padded))).foldl compress (List.replicate 48 0)).take 16

/-! ## `Transform` -/

section Transform

variable {state : Buf UInt8 64} {X C b x : List UInt8} {l : UInt8}

/-- A byte in the middle of what is held is replaced. -/
theorem holds_set_middle {ys zs : List UInt8} {y z : UInt8} {off i : Nat} (h : state.Holds off (ys ++ y :: zs))
    (hi : i < 64) (hoff : i = off + ys.length) : Buf.Holds (state.set i z hi) off (ys ++ z :: zs) := by
  have hrest : state.Holds (i + 1) zs := by
    rw [hoff]
    exact h.right.tail
  have hleft := h.left.snoc z hi hoff
  have hright := hrest.set_of_disjoint z hi (Or.inl (Nat.lt_succ_self i))
  rw [List.append_cons]
  refine hleft.append ?_
  rw [List.length_append, List.length_singleton, ← Nat.add_assoc, ← hoff]
  exact hright

theorem length_foldl_checkByte (cbs : List (UInt8 × UInt8)) (done : List UInt8 × UInt8) :
    (cbs.foldl checkByte done).1.length = done.1.length + cbs.length := by
  induction cbs generalizing done with
  | nil => rfl
  | cons cb cbs ih =>
    rw [List.foldl_cons, ih, checkByte, List.length_append, List.length_singleton, List.length_cons]
    omega

theorem length_foldl_roundByte (xs : List UInt8) (done : List UInt8 × UInt8) :
    (xs.foldl roundByte done).1.length = done.1.length + xs.length := by
  induction xs generalizing done with
  | nil => rfl
  | cons x xs ih =>
    rw [List.foldl_cons, ih, roundByte, List.length_append, List.length_singleton, List.length_cons]
    omega

/-- The state in the first loop, when `i` bytes are handled: those of the checksum from `48 + i` on are still
the old ones. -/
structure Mixing (C b x : List UInt8) (l : UInt8) (i : Nat) (sl : Buf UInt8 64 × UInt8) : Prop where
  front : sl.1.Holds 0 x
  block : sl.1.Holds 16 (b.take i)
  mixed : sl.1.Holds 32 ((List.zipWith (· ^^^ ·) b x).take i)
  check : sl.1.Holds 48 ((((C.zip b).take i).foldl checkByte ([], l)).1 ++ C.drop i)
  last : sl.2 = (((C.zip b).take i).foldl checkByte ([], l)).2

/-- The block is one of the caller, or the checksum. -/
def Supplies (C b : List UInt8) (block : Block) : Prop := block = .data b ∨ block = .hash 48 ∧ b = C

theorem Supplies.load {block : Block} {i : Nat} {done : List UInt8} (hb : Supplies C b block) (hi : i < C.length)
    (hdone : done.length = i) (h : state.Holds 48 (done ++ C.drop i)) : block.load state i = b[i]? := by
  rcases hb with rfl | ⟨rfl, rfl⟩
  · rfl
  · have hold := h.right
    rw [List.drop_eq_getElem_cons hi, hdone] at hold
    rw [List.getElem?_eq_getElem hi]
    exact hold.load_head

/-- A byte of the block goes to two places, and changes a byte of the checksum. -/
theorem mixByte_spec {block : Block} {sl : Buf UInt8 64 × UInt8} {i : Nat} (hb : Supplies C b block)
    (hC : C.length = 16) (hblen : b.length = 16) (hx : x.length = 16) (hi : i < 16) (h : Mixing C b x l i sl) :
    ∃ sl', mixByte block sl i = some sl' ∧ Mixing C b x l (i + 1) sl' := by
  obtain ⟨state, t⟩ := sl
  obtain ⟨hfront, hblock, hmixed, hcheck, hlast⟩ := h
  obtain ⟨done, hdone⟩ : ∃ done, done = ((C.zip b).take i).foldl checkByte ([], l) := ⟨_, rfl⟩
  rw [← hdone] at hcheck hlast
  dsimp only at hfront hblock hmixed hcheck hlast
  have h16 : i + 16 < 64 := by omega
  have h32 : i + 32 < 64 := by omega
  have h48 : 48 + i < 64 := by omega
  have hlen : done.1.length = i := by
    rw [hdone, length_foldl_checkByte, List.length_take, List.length_zip, hC, hblen]
    simp only [List.length_nil]
    omega
  have hbi : b[i]? = some b[i] := List.getElem?_eq_getElem (by omega)
  have hload := (hb.load (by omega) hlen hcheck).trans hbi
  have hdrop : C.drop i = C[i] :: C.drop (i + 1) := List.drop_eq_getElem_cons (by omega)
  obtain ⟨mixed, hmix⟩ : ∃ mixed, mixed = List.zipWith (· ^^^ ·) b x := ⟨_, rfl⟩
  have hmlen : mixed.length = 16 := by
    rw [hmix, List.length_zipWith, hblen, hx, min_self]
  have hmi : mixed[i]? = some (b[i] ^^^ x[i]) := by
    rw [hmix, List.getElem?_zipWith, hbi, List.getElem?_eq_getElem (by omega)]
  rw [← hmix] at hmixed
  have hsucc : ∀ {ys : List UInt8} {y : UInt8}, ys[i]? = some y → ys.take (i + 1) = ys.take i ++ [y] := by
    intro ys y hy
    rw [List.take_add_one, hy, Option.toList_some]
  have htake : ∀ {ys : List UInt8}, ys.length = 16 → (ys.take i).length = i := by
    intro ys hys
    rw [List.length_take]
    omega
  have hclen : (done.1 ++ C.drop i).length = 16 := by
    rw [List.length_append, List.length_drop]
    omega
  -- The byte of the block.
  have hfront₁ := hfront.set_of_disjoint b[i] h16 (Or.inr (by omega))
  have hblock₁ := hblock.snoc b[i] h16 (by rw [htake hblen]; omega)
  have hmixed₁ := hmixed.set_of_disjoint b[i] h16 (Or.inl (by omega))
  have hcheck₁ := hcheck.set_of_disjoint b[i] h16 (Or.inl (by omega))
  have hxi := hfront₁.load (show i < x.length by omega)
  rw [Nat.zero_add] at hxi
  -- Its sum with the first part.
  have hfront₂ := hfront₁.set_of_disjoint (b[i] ^^^ x[i]) h32 (Or.inr (by omega))
  have hblock₂ := hblock₁.set_of_disjoint (b[i] ^^^ x[i]) h32 (Or.inr (by
    rw [List.length_append, htake hblen, List.length_singleton]
    omega))
  have hmixed₂ := hmixed₁.snoc (b[i] ^^^ x[i]) h32 (by rw [htake hmlen]; omega)
  have hcheck₂ := hcheck₁.set_of_disjoint (b[i] ^^^ x[i]) h32 (Or.inl (by omega))
  have hload₂ := (hb.load (by omega) hlen hcheck₂).trans hbi
  have hci := hcheck₂
  rw [hdrop] at hci
  have hold := hci.right.load_head
  rw [hlen] at hold
  -- The byte of the checksum.
  obtain ⟨c, hc⟩ : ∃ c, c = C[i] ^^^ sub (b[i] ^^^ t) := ⟨_, rfl⟩
  have hnext : ((C.zip b).take (i + 1)).foldl checkByte ([], l) = (done.1 ++ [c], c) := by
    have hzip : (C.zip b)[i]? = some (C[i], b[i]) := by
      rw [List.getElem?_zip_eq_some]
      exact ⟨List.getElem?_eq_getElem (by omega), hbi⟩
    rw [List.take_add_one, hzip, Option.toList_some, List.foldl_append, ← hdone, List.foldl_cons, List.foldl_nil,
      checkByte, ← hlast, ← hc]
  have hcheck₃ := holds_set_middle (z := c) hci h48 (by rw [hlen])
  have hrun : mixByte block (state, t) i =
      some (((state.set (i + 16) b[i] h16).set (i + 32) (b[i] ^^^ x[i]) h32).set (48 + i) c h48, c) := by
    simp only [mixByte, hload, Option.bind_eq_bind, Option.bind_some, Buf.store_of_lt _ _ h16, hxi,
      Buf.store_of_lt _ _ h32, hload₂, hold, ← hc, Buf.store_of_lt _ _ h48]
    rfl
  refine ⟨_, hrun, ⟨?_, ?_, ?_, ?_, ?_⟩⟩
  · exact hfront₂.set_of_disjoint c h48 (Or.inr (by omega))
  · rw [hsucc hbi]
    exact hblock₂.set_of_disjoint c h48 (Or.inr (by
      rw [List.length_append, htake hblen, List.length_singleton]
      omega))
  · rw [← hmix, hsucc hmi]
    exact hmixed₂.set_of_disjoint c h48 (Or.inr (by
      rw [List.length_append, htake hmlen, List.length_singleton]
      omega))
  · rw [hnext, ← List.append_cons]
    exact hcheck₃
  · rw [hnext]

/-- The state in a round of the second loop, when `j` bytes are handled. -/
structure Passing (X C : List UInt8) (t : UInt8) (j : Nat) (st : Buf UInt8 64 × UInt8) : Prop where
  front : st.1.Holds 0 (((X.take j).foldl roundByte ([], t)).1 ++ X.drop j)
  check : st.1.Holds 48 C
  last : st.2 = ((X.take j).foldl roundByte ([], t)).2

theorem passByte_spec {st : Buf UInt8 64 × UInt8} {t : UInt8} {j : Nat} (hX : X.length = 48) (hj : j < 48)
    (h : Passing X C t j st) : ∃ st', passByte st j = some st' ∧ Passing X C t (j + 1) st' := by
  obtain ⟨state, u⟩ := st
  obtain ⟨hfront, hcheck, hlast⟩ := h
  obtain ⟨done, hdone⟩ : ∃ done, done = (X.take j).foldl roundByte ([], t) := ⟨_, rfl⟩
  rw [← hdone] at hfront hlast
  dsimp only at hfront hcheck hlast
  have h64 : j < 64 := by omega
  have hlen : done.1.length = j := by
    rw [hdone, length_foldl_roundByte, List.length_take, hX]
    simp only [List.length_nil]
    omega
  rw [List.drop_eq_getElem_cons (by omega)] at hfront
  have hload := hfront.right.load_head
  rw [Nat.zero_add, hlen] at hload
  obtain ⟨y, hy⟩ : ∃ y, y = X[j] ^^^ sub u := ⟨_, rfl⟩
  have hnext : (X.take (j + 1)).foldl roundByte ([], t) = (done.1 ++ [y], y) := by
    rw [List.take_add_one, List.getElem?_eq_getElem (by omega), Option.toList_some, List.foldl_append, ← hdone,
      List.foldl_cons, List.foldl_nil, roundByte, ← hlast, ← hy]
  have hfront' := holds_set_middle (z := y) hfront h64 (by rw [hlen, Nat.zero_add])
  have hrun : passByte (state, u) j = some (state.set j y h64, y) := by
    simp only [passByte, hload, Option.bind_eq_bind, Option.bind_some, ← hy, Buf.store_of_lt _ _ h64]
    rfl
  refine ⟨_, hrun, ⟨?_, ?_, ?_⟩⟩
  · rw [hnext, ← List.append_cons]
    exact hfront'
  · exact hcheck.set_of_disjoint y h64 (Or.inl (by omega))
  · rw [hnext]

/-- The state between two rounds of the second loop. -/
structure Between (xt : List UInt8 × UInt8) (C : List UInt8) (st : Buf UInt8 64 × UInt8) : Prop where
  length : xt.1.length = 48
  front : st.1.Holds 0 xt.1
  check : st.1.Holds 48 C
  last : st.2 = xt.2

theorem pass_spec {xt : List UInt8 × UInt8} {st : Buf UInt8 64 × UInt8} (h : Between xt C st) (i : Nat) :
    ∃ st', pass st i = some st' ∧ Between (round xt i) C st' := by
  obtain ⟨state, t⟩ := st
  obtain ⟨hlen, hfront, hcheck, rfl⟩ := h
  have hstart : Passing xt.1 C xt.2 0 (state, xt.2) := ⟨hfront, hcheck, rfl⟩
  obtain ⟨⟨state', t'⟩, hrun, hend⟩ := foldlM_range (Passing xt.1 C xt.2) 48 _ hstart fun j hj _ h =>
    passByte_spec hlen hj h
  obtain ⟨hfront', hcheck', hlast'⟩ := hend
  rw [List.take_of_length_le hlen.le, List.drop_eq_nil_of_le hlen.le, List.append_nil] at hfront'
  rw [List.take_of_length_le hlen.le] at hlast'
  refine ⟨(state', t' + UInt8.ofNat i), ?_, ⟨?_, hfront', hcheck', ?_⟩⟩
  · simp only [pass, hrun, Option.bind_eq_bind, Option.bind_some]
    rfl
  · rw [round, length_foldl_roundByte, hlen, List.length_nil]
  · rw [round, ← hlast']

/-- The members of `m_hash`. The last byte of the checksum is the one that the next block uses first. -/
structure Rep (X : List UInt8) (C : List UInt8 × UInt8) (state : Buf UInt8 64) : Prop where
  length : X.length = 48
  lengthCheck : C.1.length = 16
  front : state.Holds 0 X
  check : state.Holds 48 C.1
  last : C.1[15]? = some C.2

theorem checkBlock_spec {C : List UInt8 × UInt8} (hC : C.1.length = 16) (hb : b.length = 16) :
    (checkBlock C b).1.length = 16 ∧ (checkBlock C b).1[15]? = some (checkBlock C b).2 := by
  obtain ⟨cbs, hcbs⟩ : ∃ cbs, cbs = C.1.zip b := ⟨_, rfl⟩
  have hlen : cbs.length = 16 := by
    rw [hcbs, List.length_zip, hC, hb, min_self]
  have hall : cbs = cbs.take 15 ++ [cbs[15]] := by
    have htake := List.take_add_one (l := cbs) (i := 15)
    rw [List.getElem?_eq_getElem (by omega), Option.toList_some, List.take_of_length_le (by omega)] at htake
    exact htake
  have hdone : ((cbs.take 15).foldl checkByte ([], C.2)).1.length = 15 := by
    rw [length_foldl_checkByte, List.length_take, hlen]
    rfl
  refine ⟨?_, ?_⟩
  · rw [checkBlock, ← hcbs, length_foldl_checkByte, hlen]
    rfl
  · rw [checkBlock, ← hcbs, hall, List.foldl_append, List.foldl_cons, List.foldl_nil]
    simp only [checkByte]
    rw [List.getElem?_append_right (by omega), hdone]
    rfl

/-- The first loop. -/
theorem mix_spec {block : Block} {C : List UInt8 × UInt8} (hb : Supplies C.1 b block) (hblen : b.length = 16)
    (h : Rep X C state) : ∃ state' l, (List.range 16).foldlM (mixByte block) (state, C.2) = some (state', l) ∧
      state'.Holds 0 (X.take 16 ++ b ++ List.zipWith (· ^^^ ·) b (X.take 16)) ∧
      state'.Holds 48 (checkBlock C b).1 := by
  have hx : (X.take 16).length = 16 := by
    rw [List.length_take, h.length]
    rfl
  have hstart : Mixing C.1 b (X.take 16) C.2 0 (state, C.2) := by
    refine ⟨?_, Buf.holds_nil (by decide), Buf.holds_nil (by decide), h.check, rfl⟩
    have hfront := h.front
    rw [← List.take_append_drop 16 X] at hfront
    exact hfront.left
  obtain ⟨⟨state', l⟩, hrun, hend⟩ := foldlM_range (Mixing C.1 b (X.take 16) C.2) 16 _ hstart fun i hi _ h' =>
    mixByte_spec hb h.lengthCheck hblen hx hi h'
  obtain ⟨hfront, hblock, hmixed, hcheck, -⟩ := hend
  have hzip : (C.1.zip b).length ≤ 16 := by
    rw [List.length_zip, hblen]
    exact min_le_right _ _
  have hxor : (List.zipWith (· ^^^ ·) b (X.take 16)).length ≤ 16 := by
    rw [List.length_zipWith, hblen]
    exact min_le_left _ _
  rw [List.take_of_length_le hblen.le] at hblock
  rw [List.take_of_length_le hxor] at hmixed
  rw [List.take_of_length_le hzip, List.drop_eq_nil_of_le h.lengthCheck.le, List.append_nil] at hcheck
  refine ⟨state', l, hrun, (hfront.append ?_).append ?_, hcheck⟩
  · rw [hx]
    exact hblock
  · rw [List.length_append, hx, hblen]
    exact hmixed

/-- A block of the caller, or the checksum itself. -/
theorem transform_spec {block : Block} {C : List UInt8 × UInt8} (hb : Supplies C.1 b block) (hblen : b.length = 16)
    (h : Rep X C state) :
    ∃ state', transform block state = some state' ∧ Rep (compress X b) (checkBlock C b) state' := by
  obtain ⟨hclen, hclast⟩ := checkBlock_spec h.lengthCheck hblen
  have hload : state.load (48 + 15) = some C.2 := by
    rw [h.check.load (show 15 < C.1.length by rw [h.lengthCheck]; decide), ← h.last]
    exact (List.getElem?_eq_getElem _).symm
  obtain ⟨state₁, l, hmix, hfront, hcheck⟩ := mix_spec hb hblen h
  obtain ⟨Y, hY⟩ : ∃ Y, Y = X.take 16 ++ b ++ List.zipWith (· ^^^ ·) b (X.take 16) := ⟨_, rfl⟩
  rw [← hY] at hfront
  have hYlen : Y.length = 48 := by
    simp [hY, hblen, h.length]
  obtain ⟨⟨state₂, t⟩, hpass, hend⟩ := foldlM_range
    (fun i st => Between ((List.range i).foldl round (Y, 0)) (checkBlock C b).1 st) 18 (state₁, 0)
    ⟨hYlen, hfront, hcheck, rfl⟩ fun i _ st hst => by
      rw [List.range_succ, List.foldl_append]
      exact pass_spec hst i
  refine ⟨state₂, ?_, ⟨?_, hclen, ?_, hend.check, hclast⟩⟩
  · simp only [transform, hload, hmix, hpass, Option.bind_eq_bind, Option.bind_some]
    rfl
  · rw [compress, ← hY]
    exact hend.length
  · rw [compress, ← hY]
    exact hend.front

end Transform

/-! ## Messages -/

section Messages

variable {h h₁ : Hash params (Buf UInt8 64)} {m : List UInt8}

theorem step_of {state : Buf UInt8 64} {X b : List UInt8} {C : List UInt8 × UInt8} (hb : b.length = 16)
    (h : Rep X C state) : transform (.data b) state = some (step state b) ∧
      Rep (compress X b) (checkBlock C b) (step state b) := by
  obtain ⟨state', hrun, hrep⟩ := transform_spec (Or.inl rfl : Supplies C.1 b (.data b)) hb h
  have hstep : step state b = state' := by
    rw [step, hrun, Option.getD_some]
  rw [hstep]
  exact ⟨hrun, hrep⟩

theorem rep_foldl {state : Buf UInt8 64} {X : List UInt8} {C : List UInt8 × UInt8} {blocks : List (List UInt8)}
    (hblocks : ∀ b ∈ blocks, b.length = 16) (h : Rep X C state) :
    Rep (blocks.foldl compress X) (blocks.foldl checkBlock C) (blocks.foldl step state) := by
  induction blocks generalizing state X C with
  | nil => exact h
  | cons b blocks ih =>
    have hb := (step_of (hblocks b List.mem_cons_self) h).2
    rw [List.foldl_cons, List.foldl_cons, List.foldl_cons]
    exact ih (fun b' hb' => hblocks b' (List.mem_cons_of_mem b hb')) hb

theorem rep_reset : Rep (List.replicate 48 0) (List.replicate 16 0, 0) (Vector.replicate 64 0) := by
  have hall : (Vector.replicate 64 (0 : UInt8)).toList = List.replicate 48 0 ++ List.replicate 16 0 := by
    rw [Vector.toList_replicate, List.replicate_append_replicate]
  have hholds := Buf.holds_toList (Vector.replicate 64 (0 : UInt8))
  rw [hall] at hholds
  exact ⟨by simp, by simp, hholds.left, hholds.right, rfl⟩

/-- What is in `m_hash` after some whole blocks. -/
theorem rep_after (ha : After step (Vector.replicate 64 0) m h) :
    Rep ((blocksOf m).foldl compress (List.replicate 48 0))
      ((blocksOf m).foldl checkBlock (List.replicate 16 0, 0)) h.hash := by
  rw [ha.hash]
  refine rep_foldl (fun b hb => ?_) rep_reset
  exact length_of_mem_chunks (Nat.div_mul_le_self _ _) hb

theorem blocksOf_append {t b : List UInt8} (ht : t.length % 16 = 0) (hb : b.length = 16) :
    blocksOf (t ++ b) = blocksOf t ++ [b] := by
  obtain ⟨k, hk⟩ : ∃ k, k = t.length / 16 := ⟨_, rfl⟩
  have hlen : t.length = k * 16 := by omega
  have hdiv : (t ++ b).length / 16 = k + 1 := by
    rw [List.length_append]
    omega
  rw [blocksOf, hdiv, chunks_append hlen 1 b, chunks_one hb.le, blocksOf, ← hk]

theorem length_padded (m : List UInt8) : (m ++ paddingFor m.length).length % 16 = 0 := by
  rw [List.length_append, paddingFor, List.length_replicate]
  omega

/-- The checksum is handed over where no block is begun. -/
theorem updateChecksum_spec {X : List UInt8} {C : List UInt8 × UInt8} (hoff : h.len0.toNat % 16 = 0)
    (hrep : Rep X C h.hash) :
    ∃ h', updateChecksum h = some h' ∧ h'.hash.read 0 16 = some ((compress X C.1).take 16) := by
  obtain ⟨state, hrun, hrep'⟩ :=
    transform_spec (Or.inr ⟨rfl, rfl⟩ : Supplies C.1 C.1 (.hash 48)) hrep.lengthCheck hrep
  have hhash : (h.count 16).hash = h.hash := rfl
  refine ⟨{ h.count 16 with hash := state, buf := (h.count 16).buf }, ?_, ?_⟩
  · have hrun' : transform (.hash 48) (h.count 16).hash = some state := hrun
    have hoff' : ¬h.len0.toNat % 16 ≠ 0 := fun hne => hne hoff
    simp only [updateChecksum, if_neg hoff', hrun', Buf.write_nil _ (Nat.zero_le _), Option.bind_eq_bind,
      Option.bind_some]
    rfl
  · have hfront := hrep'.front
    rw [← List.take_append_drop 16 (compress X C.1)] at hfront
    have hread := hfront.left.read
    rw [List.length_take, hrep'.length] at hread
    exact hread

/-- The last two calls of `Update`. -/
theorem pad_spec (ha : After step (Vector.replicate 64 0) m h) :
    ∃ h₁ h', update step h (paddingFor m.length) = some h₁ ∧
      h₁.hash.read 48 16 = some (checksum (blocksOf (m ++ paddingFor m.length))) ∧
      pad h = updateChecksum h₁ ∧ updateChecksum h₁ = some h' ∧ h'.hash.read 0 16 = some (md2 m) := by
  obtain ⟨h₁, hupdate, ha₁, -⟩ := update_spec ha (paddingFor m.length)
  have hrep := rep_after ha₁
  have hoff : h₁.len0.toNat % 16 = 0 := ha₁.off_eq.trans (length_padded m)
  obtain ⟨h', hrun, hread⟩ := updateChecksum_spec hoff hrep
  have hcheck := hrep.check.read
  rw [hrep.lengthCheck] at hcheck
  refine ⟨h₁, h', hupdate, hcheck, ?_, hrun, ?_⟩
  · have hval : h.len0.toNat % 16 = m.length % 16 := ha.off_eq
    rw [paddingFor, ← hval] at hupdate
    simp only [pad, hupdate, Option.bind_eq_bind, Option.bind_some]
  · rw [hread, md2, checksum, blocksOf_append (length_padded m) hrep.lengthCheck, List.foldl_append]
    rfl

/-- The digest of a message that is given in pieces. A byte from 1 to 16 is appended as often as it says, then
the checksum of all that. -/
theorem md2_rfc1319 (pieces : List (List UInt8)) :
    ∃ h h₁ n, pieces.foldlM (update step) reset = some h ∧ 1 ≤ n ∧ n ≤ 16 ∧
      update step h (List.replicate n (UInt8.ofNat n)) = some h₁ ∧
      h₁.hash.read 48 16 = some (checksum (blocksOf (pieces.flatten ++ List.replicate n (UInt8.ofNat n)))) ∧
      pad h = updateChecksum h₁ ∧ getDigest h 16 = some (md2 pieces.flatten) := by
  obtain ⟨h, hrun, ha⟩ := run_spec (after_nil step (Vector.replicate 64 0)) pieces
  rw [List.nil_append] at ha
  obtain ⟨h₁, h', hupdate, hcheck, hpad, hlast, hread⟩ := pad_spec ha
  refine ⟨h, h₁, 16 - pieces.flatten.length % 16, hrun, by omega, by omega, hupdate, hcheck, hpad, ?_⟩
  simp only [getDigest, hpad, hlast, hread, Option.bind_eq_bind, Option.bind_some]

example : md2 [] = [0x83, 0x50, 0xe5, 0xa3, 0xe2, 0x4c, 0x15, 0x3d, 0xf2, 0x27, 0x5c, 0x9f, 0x80, 0x69, 0x27,
    0x73] := by decide +kernel

end Messages

end Drew.Md2
