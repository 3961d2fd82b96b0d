import Drew.Mode.Gcm.Bytes

/-!
# Setting up GCM

What `gcm_setiv` and `gcm_setdata` leave behind. A vector is accepted if it has 12 bytes or
if the tag has 16; then the counter is the specified one. The additional data is hashed in
whole blocks, and always another one for the bytes that are left, even if there are none.
-/

namespace Drew.Mode.Gcm

open Drew.Memory Drew.Block Drew.Field Drew.Stream

section Setup

variable {E : BlockCipher} {c : Gcm} {iv : List UInt8}

/-! ## The vector -/

/-- A context that uses the table has one. -/
def Equipped (c : Gcm) : Prop := ∀ order, c.multiplier = .mulFl order → ∃ table, c.table = some table

/-- Preparing the table makes the routine that of the current `h`. -/
theorem prepareTable_spec (hc : Equipped c) (hhv : c.hv = copyToVector c.h) :
    ∃ table, c.prepareTable = some { c with table := table } ∧
      Multiplies { c with table := table } (ofBytes c.h.toList) := by
  obtain ⟨m, hm⟩ : ∃ m, c.multiplier = m := ⟨_, rfl⟩
  cases m with
  | mul =>
    have hprep : c.prepareTable = some c := by rw [prepareTable, hm]
    have hmul : ∀ buf, c.multiply buf = some (mul c.h buf) := by
      intro buf
      rw [multiply, hm]
    exact ⟨c.table, hprep, fun buf => ⟨_, hmul buf, ofBytes_mul _ _⟩⟩
  | mulPclmulqdq =>
    have hprep : c.prepareTable = some c := by rw [prepareTable, hm]
    have hmul : ∀ buf, c.multiply buf = some (mulPclmulqdq c.hv buf) := by
      intro buf
      rw [multiply, hm]
    refine ⟨c.table, hprep, fun buf => ⟨_, hmul buf, ?_⟩⟩
    rw [ofBytes_mulPclmulqdq, hhv, copyToVector]
  | mulFl order =>
    obtain ⟨table, htable⟩ := hc order hm
    obtain ⟨table', hgen, hright⟩ := genTableFl_spec c.h table
    have hprep : c.prepareTable = some { c with table := some table' } := by
      unfold prepareTable
      split
      · rw [htable, Option.bind_eq_bind, Option.bind_some, hgen]
        rfl
      · rename_i hno
        exact absurd hm (hno order)
    refine ⟨some table', hprep, fun buf => ?_⟩
    obtain ⟨out, hrun, hout⟩ := ofBytes_mulFl order hright buf
    have hmul : Gcm.multiply { c with table := some table' } buf = mulFl order table' buf := by
      unfold multiply
      split
      · rename_i h
        exact absurd (h.symm.trans hm) (by simp)
      · rename_i order' h
        have horder : order' = order := by
          have := h.symm.trans hm
          cases this
          rfl
        rw [horder]
        rfl
      · rename_i h
        exact absurd (h.symm.trans hm) (by simp)
    exact ⟨out, by rw [hmul, hrun], hout⟩

/-- The key of the hash is the encryption of zero. -/
theorem encryptfast_zero (hE : E.blksize = 16) :
    ∃ h, E.encryptfast zeroBlock 0 zeroBlock 0 1 = some h ∧ ofBytes h.toList = hashKey E := by
  have hfast : E.fastBlocks 1 = 1 := by rw [BlockCipher.fastBlocks, if_neg (by omega)]
  have hzero : zeroBlock.toList = List.replicate 16 0 := by simp [zeroBlock]
  have hlen : zeroBlock.toList.length = E.blksize := by rw [hzero, List.length_replicate, hE]
  obtain ⟨h, hrun, hwrite⟩ := BlockCipher.encryptfast_spec (E := E) (n := 1) zeroBlock 0
    (by rw [hfast, hlen, Nat.one_mul]) (Buf.holds_toList zeroBlock) (by simp)
  rw [hfast, mapBlocks_one hlen] at hwrite
  refine ⟨h, hrun, ?_⟩
  rw [(Buf.holds_write hwrite).toList (by rw [E.length_encrypt _ hlen, hE]), hzero, hashKey]

/-- The blocks that a text has, whole ones and the rest. -/
theorem padBlocks_eq (data : List UInt8) :
    padBlocks data = toBlocks (data.length / 16) data ++
      (if data.length % 16 = 0 then []
        else [ofBytes (padBlock (data.drop (16 * (data.length / 16))))]) := by
  have hsplit := List.take_append_drop (16 * (data.length / 16)) data
  have htake : (data.take (16 * (data.length / 16))).length = 16 * (data.length / 16) := by
    rw [List.length_take]
    omega
  have hdrop : (data.drop (16 * (data.length / 16))).length = data.length % 16 := by
    rw [List.length_drop]
    omega
  have hpad := padBlocks_append htake (b := data.drop (16 * (data.length / 16))) (by omega)
  have hprefix := toBlocks_append_left htake.ge (data.drop (16 * (data.length / 16)))
  rw [hsplit] at hpad hprefix
  rw [hpad, hprefix, hdrop]

/-- The rest of a text, if there is any. -/
theorem hashRest_spec (hc : Keyed E c) (y : Buf UInt8 16) {rest : List UInt8} {len : Nat}
    (hlen : len < 16) (hrest : rest.length = len) :
    ∃ y', c.hashRest y rest len = some y' ∧ ofBytes y'.toList =
      ghash (hashKey E) (ofBytes y.toList) (if len = 0 then [] else [ofBytes (padBlock rest)]) := by
  by_cases h0 : len = 0
  · exact ⟨y, by simp [hashRest, h0], by rw [if_pos h0]; rfl⟩
  · obtain ⟨buf, hcopy, hbuf⟩ := copyPadded_spec hlen hrest
    obtain ⟨y', hhash, hy'⟩ := hash_block hc y buf.toList (by simp)
    exact ⟨y', by simp [hashRest, h0, hcopy, hhash], by rw [hy', if_neg h0, hbuf]⟩

/-- The initial counter for a vector that has not 12 bytes. -/
theorem hashIv_spec (hc : Keyed E c) (hlen : c.iv.length ≠ 12) :
    ∃ y0, c.hashIv = some { c with y0 := y0, buf := lengthBuf 0 c.iv.length } ∧
      y0.toList = initialCounter E c.iv := by
  have hdrop : (c.iv.drop (16 * (c.iv.length / 16))).length = c.iv.length % 16 := by
    rw [List.length_drop]
    omega
  obtain ⟨y₁, hblocks, hy₁⟩ := hashBlocks_spec hc (c.iv.length / 16) zeroBlock c.iv (by omega)
  obtain ⟨y₂, hrest, hy₂⟩ := hashRest_spec hc y₁ (Nat.mod_lt _ (by omega)) hdrop
  obtain ⟨y0, hhash, hy0⟩ := hash_block hc y₂ (lengthBuf 0 c.iv.length).toList (by simp)
  refine ⟨y0, by simp [hashIv, hblocks, hrest, hhash], ?_⟩
  have hval : ofBytes y0.toList = ghash (hashKey E) 0#128
      (padBlocks c.iv ++ [ofBytes (lengthBlock 0 c.iv.length)]) := by
    rw [hy0, hy₂, hy₁, ofBytes_zeroBlock, padBlocks_eq, ghash_append, ghash_append, toList_lengthBuf]
  rw [initialCounter, if_neg hlen, ← hval, toBytes_ofBytes (by simp)]

theorem startCounter_spec (hblk : c.blksize = 16) :
    c.startCounter = some ({ c with y := c.y0, alen := 0, clen := 0 }, 0) := by
  have hread := (Buf.holds_toList c.y0).read
  rw [Vector.length_toList] at hread
  obtain ⟨y, hy⟩ := Buf.exists_write_at c.y 0 c.y0.toList (by simp)
  have hyy : y = c.y0 := Vector.toList_inj.mp ((Buf.holds_write hy).toList (by simp))
  simp [startCounter, hblk, hread, hy, hyy]

/-- The vectors that are accepted. -/
def Accepts (taglen : Nat) (iv : List UInt8) : Prop := iv.length = 12 ∨ taglen = 16

theorem Keyed.equipped (h : Keyed E c) : Equipped c := by
  intro order horder
  obtain ⟨out, hout, -⟩ := h.multiplies zeroBlock
  rw [multiply, horder, Option.bind_eq_bind, Option.bind_eq_some_iff] at hout
  obtain ⟨table, htable, -⟩ := hout
  exact ⟨table, htable⟩

/-- The context `c` after a vector was accepted by `c₀`. -/
structure Started (E : BlockCipher) (iv : List UInt8) (c₀ c : Gcm) : Prop where
  keyed : Keyed E c
  y0 : c.y0.toList = initialCounter E iv
  y : c.y.toList = initialCounter E iv
  x : c.x = zeroBlock
  iv : c.iv = iv
  alen : c.alen = 0
  clen : c.clen = 0
  boff : c.boff = c₀.boff
  taglen : c.taglen = c₀.taglen

/-- The context in which the counter is computed. -/
def prepared (c : Gcm) (h : Buf UInt8 16) (table : Option Table) (iv : List UInt8) : Gcm :=
  { c with
    h := h, y := zeroBlock, y0 := zeroBlock, x := zeroBlock, buf := zeroBlock, cbuf := zeroBlock,
    hv := copyToVector h, table := table, iv := iv }

/-- The counter for a vector of 12 bytes. -/
def shortCounter (iv : List UInt8) : Option (Buf UInt8 16) := do
  let y0 ← zeroBlock.write 0 iv
  let y0 ← y0.write 12 [0, 0, 0]
  y0.store 15 1

theorem setiv_eq (hc : Equipped c) (halgo : c.algo = some E) (hblk : c.blksize = 16)
    (hE : E.blksize = 16) (iv : List UInt8) :
    ∃ h table, Keyed E (c.prepared h table iv) ∧ c.setiv iv =
      if iv.length = 12 then
        (shortCounter iv).bind fun y0 => startCounter { c.prepared h table iv with y0 := y0 }
      else if c.taglen ≠ 16 then some (c.prepared h table iv, -drewErrInvalid)
      else (c.prepared h table iv).hashIv.bind startCounter := by
  obtain ⟨h, henc, hh⟩ := encryptfast_zero hE
  obtain ⟨table, hprep, hmul⟩ := prepareTable_spec (c := c.prepared h c.table c.iv) hc rfl
  have hkey : ofBytes (c.prepared h c.table c.iv).h.toList = hashKey E := hh
  rw [hkey] at hmul
  refine ⟨h, table, ⟨halgo, hblk, hE, hmul⟩, ?_⟩
  have hstart : c.setiv iv = (c.prepared h c.table c.iv).prepareTable.bind fun c =>
      if iv.length = 12 then
        (c.y0.write 0 iv).bind fun y0 => (y0.write 12 [0, 0, 0]).bind fun y0 =>
          (y0.store 15 1).bind fun y0 => startCounter { c with iv := iv, y0 := y0 }
      else if c.taglen ≠ 16 then some ({ c with iv := iv }, -drewErrInvalid)
      else (hashIv { c with iv := iv }).bind startCounter := by
    simp only [setiv, prepared, halgo, henc, Option.bind_eq_bind, Option.bind_some]
    rfl
  rw [hstart, hprep, Option.bind_some, shortCounter]
  simp only [Option.bind_eq_bind, Option.bind_assoc]
  rfl

theorem shortCounter_spec (h12 : iv.length = 12) :
    ∃ y0, shortCounter iv = some y0 ∧ y0.toList = initialCounter E iv := by
  obtain ⟨y₁, hy₁⟩ := Buf.exists_write_at zeroBlock 0 iv (by omega)
  obtain ⟨y₂, hy₂⟩ := Buf.exists_write_at y₁ 12 [0, 0, 0] (by simp)
  have hy₃ := Buf.store_of_lt y₂ (i := 15) 1 (by omega)
  have h₁ : y₂.Holds 0 iv := (Buf.holds_write hy₁).write_of_disjoint hy₂ (Or.inr (by omega))
  have h₂ : y₂.Holds 0 (iv ++ [0, 0, 0]) := h₁.append (by rw [h12]; exact Buf.holds_write hy₂)
  have hcounter := (h₂.snoc 1 (i := 15) (by omega) (by simp [h12])).toList (by simp [h12])
  refine ⟨y₂.set 15 1, by simp [shortCounter, hy₁, hy₂, hy₃], ?_⟩
  rw [hcounter, initialCounter, if_pos h12, List.append_assoc]
  rfl

theorem setiv_spec (hc : Equipped c) (halgo : c.algo = some E) (hblk : c.blksize = 16)
    (hE : E.blksize = 16) (haccept : Accepts c.taglen iv) :
    ∃ c', c.setiv iv = some (c', 0) ∧ Started E iv c c' := by
  obtain ⟨h, table, hkeyed, hset⟩ := setiv_eq hc halgo hblk hE iv
  -- In both cases a counter is computed, and `buf` is used for it.
  obtain ⟨y0, buf, hset', hy0⟩ : ∃ y0 buf, c.setiv iv =
      startCounter { c.prepared h table iv with y0 := y0, buf := buf } ∧
      y0.toList = initialCounter E iv := by
    by_cases h12 : iv.length = 12
    · obtain ⟨y0, hshort, hy0⟩ := shortCounter_spec (E := E) h12
      exact ⟨y0, zeroBlock, by rw [hset, if_pos h12, hshort]; rfl, hy0⟩
    · obtain ⟨y0, hhash, hy0⟩ := hashIv_spec hkeyed h12
      refine ⟨y0, lengthBuf 0 iv.length, ?_, hy0⟩
      rw [hset, if_neg h12, if_neg (not_not.mpr (haccept.resolve_left h12)), hhash]
      rfl
  exact ⟨_, hset'.trans (startCounter_spec hblk), ⟨hkeyed.algo, hkeyed.blksize, hE, hkeyed.multiplies⟩, hy0, hy0, rfl, rfl, rfl,
    rfl, rfl, rfl⟩

/-- A vector that is not accepted gives an error. -/
theorem setiv_refused (hc : Equipped c) (halgo : c.algo = some E) (hblk : c.blksize = 16)
    (hE : E.blksize = 16) (hrefuse : ¬Accepts c.taglen iv) :
    ∃ c', c.setiv iv = some (c', -drewErrInvalid) := by
  obtain ⟨h, table, -, hset⟩ := setiv_eq hc halgo hblk hE iv
  have h12 : iv.length ≠ 12 := fun h => hrefuse (Or.inl h)
  have h16 : c.taglen ≠ 16 := fun h => hrefuse (Or.inr h)
  exact ⟨_, by rw [hset, if_neg h12, if_pos h16]⟩

/-! ## The additional data -/

/-- The blocks that are hashed for additional data: a block follows the whole ones in any case. -/
def dataBlocks (data : List UInt8) : List (BitVec 128) :=
  toBlocks (data.length / 16) data ++ [ofBytes (padBlock (data.drop (16 * (data.length / 16))))]

theorem setdata_spec (hc : Keyed E c) (data : List UInt8) :
    ∃ x buf, c.setdata data = some ({ c with x := x, buf := buf, alen := data.length }, 0) ∧
      ofBytes x.toList = ghash (hashKey E) 0#128 (dataBlocks data) := by
  have hdrop : (data.drop (16 * (data.length / 16))).length = data.length % 16 := by
    rw [List.length_drop]
    omega
  obtain ⟨x₁, hblocks, hx₁⟩ := hashBlocks_spec hc (data.length / 16) zeroBlock data (by omega)
  obtain ⟨buf, hcopy, hbuf⟩ := copyPadded_spec (Nat.mod_lt _ (by omega)) hdrop
  obtain ⟨x, hhash, hx⟩ := hash_block hc x₁ buf.toList (by simp)
  refine ⟨x, buf, by simp [setdata, hblocks, hcopy, hhash], ?_⟩
  rw [hx, hx₁, ofBytes_zeroBlock, dataBlocks, ghash_append, hbuf]

/-- Those are the specified blocks, except for a zero block after whole ones. -/
theorem dataBlocks_eq (data : List UInt8) :
    dataBlocks data = padBlocks data ++ (if data.length % 16 = 0 then [0#128] else []) := by
  rw [dataBlocks, padBlocks_eq]
  by_cases h0 : data.length % 16 = 0
  · have hnil : data.drop (16 * (data.length / 16)) = [] := by
      apply List.drop_eq_nil_of_le
      omega
    have hzero : ofBytes (padBlock []) = 0#128 := by decide +kernel
    rw [if_pos h0, if_pos h0, hnil, hzero, List.append_nil]
  · rw [if_neg h0, if_neg h0, List.append_nil]

/-- The hash of the additional data is the specified one if it does not end with a whole block. -/
theorem ghash_dataBlocks {data : List UInt8} (H : BitVec 128)
    (h : data.length = 0 ∨ data.length % 16 ≠ 0) :
    ghash H 0#128 (dataBlocks data) = ghash H 0#128 (padBlocks data) := by
  rw [dataBlocks_eq]
  rcases h with h | h
  · have hnil : data = [] := List.eq_nil_of_length_eq_zero h
    rw [hnil]
    simp [padBlocks, toBlocks, ghash, product_zero]
  · rw [if_neg h, List.append_nil]

end Setup

end Drew.Mode.Gcm
