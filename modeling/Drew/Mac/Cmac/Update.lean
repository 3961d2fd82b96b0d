import Drew.Mac.Cmac.Subkeys

/-!
# Updates of CMAC

After a message `m` the blocks before the last one are chained and the last one is held
back, be it whole or not (`After`). An update keeps this (`update_spec`), unless it completes
the block that is held back and ends there: then the offset becomes 16, whatever the size of
the blocks. With blocks of 8 bytes no later update or final is defined (`Broken`).
-/

namespace Drew.Mac.Cmac

open Drew.Memory Drew.Block Drew.Stream Drew.Mode

variable {E : BlockCipher} {m x data : List UInt8} {c c' : Cmac} {q : Nat}

/-! ## Chains -/

theorem length_chain (E : BlockCipher) {m : List UInt8} {q : Nat} (h : q * E.blksize ≤ m.length) :
    (chain E m q).length = E.blksize := by
  induction q with
  | zero => simp [chain]
  | succ q ih =>
    rw [Nat.add_mul, Nat.one_mul] at h
    apply E.length_encrypt
    rw [length_xorBytes, ih (by omega), List.length_take, List.length_drop]
    omega

/-- The first blocks of a text do not depend on what follows. -/
theorem chain_append (x : List UInt8) (h : q * E.blksize ≤ m.length) :
    chain E (m ++ x) q = chain E m q := by
  induction q with
  | zero => rfl
  | succ q ih =>
    rw [Nat.add_mul, Nat.one_mul] at h
    rw [chain, chain, ih (by omega), List.drop_append_of_le_length (by omega),
      List.take_append_of_le_length (by rw [List.length_drop]; omega)]

/-- A text whose last block is the `q`-th. -/
theorem before_eq {bs : Nat} (hne : m ≠ []) (hlo : q * bs < m.length)
    (hhi : m.length ≤ (q + 1) * bs) : before bs m = q := by
  rw [Nat.add_mul, Nat.one_mul] at hhi
  unfold before
  apply Nat.div_eq_of_lt_le
  · omega
  · rw [Nat.add_mul, Nat.one_mul]
    have hpos := List.length_pos_of_ne_nil hne
    omega

theorem before_mul_le (bs : Nat) (m : List UInt8) : before bs m * bs ≤ m.length := by
  have h := Nat.div_mul_le_self (m.length - 1) bs
  unfold before
  omega

/-- The last block is not longer than a block. -/
theorem length_rest_le {bs : Nat} (hbs : 0 < bs) (m : List UInt8) :
    (m.drop (before bs m * bs)).length ≤ bs := by
  have h := Nat.lt_div_mul_add (a := m.length - 1) hbs
  rw [List.length_drop, before]
  omega

theorem length_rest_pos (bs : Nat) (hne : m ≠ []) : 0 < (m.drop (before bs m * bs)).length := by
  have hpos := List.length_pos_of_ne_nil hne
  have h := Nat.div_mul_le_self (m.length - 1) bs
  rw [List.length_drop, before]
  omega

/-! ## What an update leaves alone -/

/-- Cipher, subkeys and sizes are the same. -/
structure SameKey (c c' : Cmac) : Prop where
  block : c'.block = c.block
  blksize : c'.blksize = c.blksize
  taglen : c'.taglen = c.taglen
  k1 : c'.k1 = c.k1
  k2 : c'.k2 = c.k2

theorem SameKey.refl (c : Cmac) : SameKey c c := ⟨rfl, rfl, rfl, rfl, rfl⟩

theorem SameKey.trans {a b c : Cmac} (h : SameKey a b) (h' : SameKey b c) : SameKey a c :=
  ⟨h'.block.trans h.block, h'.blksize.trans h.blksize, h'.taglen.trans h.taglen,
    h'.k1.trans h.k1, h'.k2.trans h.k2⟩

theorem Keyed.of_sameKey (h : Keyed E c) (hs : SameKey c c') : Keyed E c' :=
  ⟨by rw [hs.block, h.block], by rw [hs.blksize, h.blksize], h.size, by rw [hs.k1]; exact h.k1,
    by rw [hs.k2]; exact h.k2⟩

theorem processBlock_sameKey (h : processBlock c data = some c') : SameKey c c' := by
  obtain ⟨xs, -, h⟩ := Option.bind_eq_some_iff.mp h
  split at h
  · simp only [Option.bind_eq_bind, Option.bind_eq_some_iff] at h
    obtain ⟨hash, -, E, -, hash', -, h⟩ := h
    cases h
    exact ⟨rfl, rfl, rfl, rfl, rfl⟩
  · cases h

theorem fill_sameKey {rest : List UInt8} (h : fill c data = some (c', rest)) : SameKey c c' := by
  unfold fill at h
  split at h
  · obtain ⟨buf, -, h⟩ := Option.bind_eq_some_iff.mp h
    dsimp only at h
    split at h
    · split at h
      · obtain ⟨c₁, hc₁, h⟩ := Option.bind_eq_some_iff.mp h
        cases h
        obtain ⟨hb, hs, ht, h1, h2⟩ := processBlock_sameKey hc₁
        exact ⟨hb, hs, ht, h1, h2⟩
      · cases h
        exact ⟨rfl, rfl, rfl, rfl, rfl⟩
    · cases h
      exact ⟨rfl, rfl, rfl, rfl, rfl⟩
  · cases h
    exact SameKey.refl c

theorem processWhole_sameKey {rest : List UInt8} {k : Nat}
    (h : processWhole k c data = some (c', rest)) : SameKey c c' := by
  induction k generalizing c data with
  | zero =>
    cases h
    exact SameKey.refl _
  | succ k ih =>
    unfold processWhole at h
    split at h
    · cases h
      exact SameKey.refl _
    · obtain ⟨c₁, hc₁, hrest⟩ := Option.bind_eq_some_iff.mp h
      exact (processBlock_sameKey hc₁).trans (ih hrest)

theorem update_sameKey (h : update c data = some c') : SameKey c c' := by
  unfold update at h
  split at h
  · cases h
    exact SameKey.refl c
  · simp only [Option.bind_eq_bind, Option.bind_eq_some_iff, Prod.exists] at h
    obtain ⟨c₁, r₁, hfill, c₂, r₂, hwhole, hrest⟩ := h
    have hmark : SameKey c { c with nonzeroLen := true } := ⟨rfl, rfl, rfl, rfl, rfl⟩
    have h₂ := (hmark.trans (fill_sameKey hfill)).trans (processWhole_sameKey hwhole)
    split at hrest
    · obtain ⟨buf, -, hc'⟩ := Option.bind_eq_some_iff.mp hrest
      cases hc'
      exact ⟨h₂.block, h₂.blksize, h₂.taglen, h₂.k1, h₂.k2⟩
    · cases hrest
      exact h₂

/-! ## Blocks -/

/-- A block is combined with the chaining value and enciphered. -/
theorem processBlock_holds {v b : List UInt8} (hk : Keyed E c) (hhash : c.hash.Holds 0 v)
    (hv : v.length = E.blksize) (hb : b.length = E.blksize) (hdata : data.take E.blksize = b) :
    ∃ hash, processBlock c data = some { c with hash := hash } ∧
      hash.Holds 0 (E.encrypt (xorBytes v b)) := by
  have hsize := hk.size
  have hdlen : c.blksize ≤ data.length := by
    have h := congrArg List.length hdata
    rw [hb, List.length_take] at h
    rw [hk.blksize]
    omega
  have hread := hhash.read
  rw [hv, ← hk.blksize] at hread
  have hxlen : (xorBytes v b).length = E.blksize := by rw [length_xorBytes, hv, hb, Nat.min_self]
  obtain ⟨w, hwrite⟩ := Buf.exists_write_at c.hash 0 (xorBytes v b) (by omega)
  obtain ⟨w', henc, hwrite'⟩ :=
    BlockCipher.encryptTo_spec w 0 hxlen (Buf.holds_write hwrite) (by omega)
  refine ⟨w', ?_, Buf.holds_write hwrite'⟩
  rw [← hdata, ← hk.blksize] at hwrite
  simp only [processBlock, hread, if_pos hdlen, hwrite, hk.block, henc, Option.bind_eq_bind,
    Option.bind_some, pure]

/-- The next block of a text is chained. -/
theorem processBlock_spec (hk : Keyed E c) (hhash : c.hash.Holds 0 (chain E m q))
    (hq : (q + 1) * E.blksize ≤ m.length)
    (hdata : data.take E.blksize = (m.drop (q * E.blksize)).take E.blksize) :
    ∃ hash, processBlock c data = some { c with hash := hash } ∧
      hash.Holds 0 (chain E m (q + 1)) := by
  rw [Nat.add_mul, Nat.one_mul] at hq
  apply processBlock_holds hk hhash
  · exact length_chain E (by omega)
  · rw [List.length_take, List.length_drop]
    omega
  · exact hdata

/-- Some blocks of a text are chained, and its other bytes are still to be handled. -/
structure Chained (E : BlockCipher) (m : List UInt8) (c : Cmac) (rest : List UInt8) : Prop where
  keyed : Keyed E c
  rest_ne : rest ≠ []
  chain : ∃ q, q * E.blksize ≤ m.length ∧ rest = m.drop (q * E.blksize) ∧
    c.hash.Holds 0 (chain E m q)

/-- At most one block is left. -/
theorem processWhole_spec {rest : List UInt8} (k : Nat) (h : Chained E m c rest)
    (hk : rest.length ≤ k) :
    ∃ c' rest', processWhole k c rest = some (c', rest') ∧ Chained E m c' rest' ∧
      rest'.length ≤ E.blksize ∧ c'.nonzeroLen = c.nonzeroLen := by
  have hpos := E.blksize_pos
  induction k generalizing c rest with
  | zero => exact absurd (List.eq_nil_of_length_eq_zero (by omega)) h.rest_ne
  | succ k ih =>
    unfold processWhole
    split
    · rename_i hlt
      rw [h.keyed.blksize] at hlt
      exact ⟨c, rest, rfl, h, by omega, rfl⟩
    · rename_i hlt
      rw [h.keyed.blksize] at hlt
      obtain ⟨hkeyed, hne, q, hq, rfl, hhash⟩ := h
      rw [List.length_drop] at hlt hk
      obtain ⟨hash, hblock, hhash'⟩ :=
        processBlock_spec hkeyed hhash (by rw [Nat.add_mul, Nat.one_mul]; omega) rfl
      have hnext : Chained E m { c with hash := hash }
          ((m.drop (q * E.blksize)).drop E.blksize) := by
        refine ⟨⟨hkeyed.block, hkeyed.blksize, hkeyed.size, hkeyed.k1, hkeyed.k2⟩, ?_, q + 1, ?_, ?_, hhash'⟩
        · apply List.ne_nil_of_length_pos
          rw [List.length_drop, List.length_drop]
          omega
        · rw [Nat.add_mul, Nat.one_mul]
          omega
        · rw [List.drop_drop, Nat.add_mul, Nat.one_mul]
      obtain ⟨c', rest', hrun, hchained, hlen, hflag⟩ :=
        ih hnext (by rw [List.length_drop, List.length_drop]; omega)
      refine ⟨c', rest', ?_, hchained, hlen, hflag⟩
      rw [← hkeyed.blksize] at hblock hrun ⊢
      rw [hblock]
      exact hrun

/-! ## The state after a message -/

structure After (E : BlockCipher) (m : List UInt8) (c : Cmac) : Prop where
  keyed : Keyed E c
  hash : c.hash.Holds 0 (chain E m (before E.blksize m))
  buf : c.buf.Holds 0 (m.drop (before E.blksize m * E.blksize))
  boff : c.boff = (m.drop (before E.blksize m * E.blksize)).length
  nonzeroLen : c.nonzeroLen = decide (m ≠ [])

/-- The last block of the message is the one after the `q` blocks that are chained. -/
theorem after_of (hk : Keyed E c) (hlo : q * E.blksize < m.length)
    (hhi : m.length ≤ (q + 1) * E.blksize) (hhash : c.hash.Holds 0 (chain E m q))
    (hbuf : c.buf.Holds 0 (m.drop (q * E.blksize)))
    (hboff : c.boff = (m.drop (q * E.blksize)).length) (hflag : c.nonzeroLen = true) :
    After E m c := by
  have hne : m ≠ [] := List.ne_nil_of_length_pos (by omega)
  have hq := before_eq hne hlo hhi
  exact ⟨hk, by rwa [hq], by rwa [hq], by rwa [hq], by simp [hflag, hne]⟩

/-- Nothing was given to a context yet. -/
theorem after_nil (hk : Keyed E c) (hhash : c.hash = zeros) (hboff : c.boff = 0)
    (hlen : c.nonzeroLen = false) : After E [] c := by
  have hzeros : zeros.toList = List.replicate E.blksize 0 ++ List.replicate (16 - E.blksize) 0 := by
    have hsize := hk.size
    rw [zeros, Vector.toList_replicate, List.replicate_append_replicate]
    congr 1
    omega
  have hall := Buf.holds_toList zeros
  rw [hzeros] at hall
  refine ⟨hk, ?_, ?_, by simp [hboff], by simp [hlen]⟩
  · rw [hhash]
    simpa [before, chain] using hall.left
  · rw [List.drop_nil]
    exact Buf.holds_nil (Nat.zero_le _)

/-- A call completes a block of 8 bytes that an earlier call began, and ends there. `n` bytes
were given before. -/
def Spoils (bs n len : Nat) : Prop := bs = 8 ∧ n % 8 ≠ 0 ∧ n % 8 + len = 8

instance (bs n len : Nat) : Decidable (Spoils bs n len) := inferInstanceAs (Decidable (_ ∧ _))

/-- The offset is 16 although blocks have 8 bytes. -/
structure Broken (c : Cmac) : Prop where
  blksize : c.blksize = 8
  boff : c.boff = 16
  nonzeroLen : c.nonzeroLen = true

/-- The offset modulo the block size is that of the whole message. -/
theorem rest_mod {bs : Nat} (m : List UInt8) :
    (m.drop (before bs m * bs)).length % bs = m.length % bs := by
  have hle := before_mul_le bs m
  obtain ⟨r, hr⟩ : ∃ r, m.length = before bs m * bs + r := ⟨_, (Nat.add_sub_cancel' hle).symm⟩
  rw [List.length_drop, hr, Nat.add_sub_cancel_left, Nat.mul_add_mod_self_right]

/-! ## Filling up the block that is held back -/

section Fill

variable {b : Nat} {w : Buf UInt8 16} (h0 : c.boff ≠ 0)
  (hb : min (subSize c.blksize c.boff) data.length = b)
  (hwrite : c.buf.write c.boff (data.take b) = some w)
include h0 hb hwrite

theorem fill_part (hpart : c.boff + b ≠ c.blksize) :
    fill c data = some ({ c with buf := w, boff := c.boff + b }, data.drop b) := by
  rw [fill, if_pos h0]
  simp only [hb, hwrite, Option.bind_eq_bind, Option.bind_some, if_neg hpart, pure]

theorem fill_exact (hfull : c.boff + b = c.blksize) (hend : data.length = b) :
    fill c data = some ({ c with buf := w, boff := 16 }, data.drop b) := by
  rw [fill, if_pos h0]
  simp only [hb, hwrite, Option.bind_eq_bind, Option.bind_some, if_pos hfull, if_neg (not_not.mpr hend),
    pure]

theorem fill_more (hfull : c.boff + b = c.blksize) (hmore : data.length ≠ b)
    (hblock : processBlock { c with buf := w, boff := c.boff + b } w.toList = some c') :
    fill c data = some ({ c' with boff := 0 }, data.drop b) := by
  rw [fill, if_pos h0]
  simp only [hb, hwrite, Option.bind_eq_bind, Option.bind_some, if_pos hfull, if_pos hmore, hblock,
    pure]

end Fill

/-- The bytes that `fill` copies follow the block that is held back. -/
theorem After.exists_write (h : After E m c) (data : List UInt8) :
    ∃ b w, min (subSize c.blksize c.boff) data.length = b ∧ c.boff ≤ E.blksize ∧
      b = min (E.blksize - c.boff) data.length ∧
      m.length = before E.blksize m * E.blksize + c.boff ∧
      c.buf.write c.boff (data.take b) = some w ∧
      w.Holds 0 ((m ++ data.take b).drop (before E.blksize m * E.blksize)) := by
  have hsize := h.keyed.size
  have hle := length_rest_le E.blksize_pos m
  have hbefore := before_mul_le E.blksize m
  have hboff := h.boff
  have hlen := List.length_drop (i := before E.blksize m * E.blksize) (l := m)
  obtain ⟨b, hb⟩ : ∃ b, b = min (E.blksize - c.boff) data.length := ⟨_, rfl⟩
  obtain ⟨w, hwrite⟩ := Buf.exists_write_at c.buf c.boff (data.take b) (by
    rw [List.length_take]
    omega)
  refine ⟨b, w, ?_, by omega, hb, by omega, hwrite, ?_⟩
  · rw [h.keyed.blksize, subSize_of_le (by omega) (by omega), hb]
  · rw [List.drop_append_of_le_length hbefore]
    apply Buf.Holds.append
    · exact h.buf.write_of_disjoint hwrite (Or.inr (by omega))
    · rw [Nat.zero_add, ← hboff]
      exact Buf.holds_write hwrite

/-- What becomes of the block that is held back. -/
theorem fill_spec (h : After E m c) (hne : data ≠ []) :
    ∃ c' rest, fill { c with nonzeroLen := true } data = some (c', rest) ∧
      c'.nonzeroLen = true ∧
      (Chained E (m ++ data) c' rest ∧ ¬ Spoils E.blksize m.length data.length ∨
        rest = [] ∧ After E (m ++ data) c' ∧ ¬ Spoils E.blksize m.length data.length ∨
        rest = [] ∧ Broken c' ∧ Spoils E.blksize m.length data.length) := by
  have hkeyed : Keyed E { c with nonzeroLen := true } :=
    ⟨h.keyed.block, h.keyed.blksize, h.keyed.size, h.keyed.k1, h.keyed.k2⟩
  have hsize := h.keyed.size
  have hdpos := List.length_pos_of_ne_nil hne
  by_cases h0 : c.boff = 0
  · -- Nothing is held back, so the message is empty.
    have hm : m = [] := by
      by_contra hm
      have hpos := length_rest_pos E.blksize hm
      rw [← h.boff] at hpos
      omega
    subst hm
    refine ⟨_, data, if_neg (not_not.mpr h0), rfl, Or.inl ⟨⟨hkeyed, hne, 0, by omega, by simp, ?_⟩, ?_⟩⟩
    · simpa [before, chain] using h.hash
    · rintro ⟨-, hmod, -⟩
      exact hmod rfl
  · obtain ⟨b, w, hb, hle, hbmin, hlen, hwrite, hw⟩ := h.exists_write data
    obtain ⟨q, hq⟩ : ∃ q, q = before E.blksize m := ⟨_, rfl⟩
    have hhash := h.hash
    rw [← hq] at hlen hw hhash
    have hchain := chain_append (E := E) (m := m) (q := q) data (by omega)
    rw [← hchain] at hhash
    have hmod : ∀ k, E.blksize = 8 → m.length % 8 + k = c.boff % 8 + k := by
      intro k h8
      rw [h8] at hlen
      omega
    by_cases hfull : c.boff + b = E.blksize
    · by_cases hend : data.length = b
      · -- The block is completed and may be the last one.
        subst hend
        rw [List.take_length] at hw
        refine ⟨_, _, fill_exact h0 hb hwrite (by rw [hfull, hkeyed.blksize]) rfl, rfl, Or.inr ?_⟩
        rcases hsize with h8 | h16
        · refine Or.inr ⟨by simp, ⟨by rw [← h8]; exact hkeyed.blksize, rfl, rfl⟩, h8, ?_, ?_⟩
          · have := hmod 0 h8
            omega
          · rw [hmod _ h8]
            omega
        · refine Or.inl ⟨by simp, ?_, fun hs => by have := hs.1; omega⟩
          apply after_of (q := q)
          · exact ⟨hkeyed.block, hkeyed.blksize, hkeyed.size, hkeyed.k1, hkeyed.k2⟩
          · rw [List.length_append]
            omega
          · rw [List.length_append, Nat.add_mul, Nat.one_mul]
            omega
          · exact hhash
          · exact hw
          · rw [List.length_drop, List.length_append]
            dsimp only
            omega
          · rfl
      · -- More data follow, so the block is chained.
        obtain ⟨hash, hblock, hhash'⟩ : ∃ hash, processBlock
            { c with nonzeroLen := true, buf := w, boff := c.boff + b } w.toList = some
              { c with nonzeroLen := true, buf := w, boff := c.boff + b, hash := hash } ∧
            hash.Holds 0 (chain E (m ++ data) (q + 1)) := by
          apply processBlock_spec (E := E) (m := m ++ data) (q := q)
          · exact ⟨hkeyed.block, hkeyed.blksize, hkeyed.size, hkeyed.k1, hkeyed.k2⟩
          · exact hhash
          · rw [List.length_append, Nat.add_mul, Nat.one_mul]
            omega
          · have hlen' : ((m ++ data.take b).drop (q * E.blksize)).length = E.blksize := by
              rw [List.length_drop, List.length_append, List.length_take]
              omega
            have htake := hw.take_toList
            rw [hlen'] at htake
            have hsplit : (m ++ data).drop (q * E.blksize) =
                (m ++ data.take b).drop (q * E.blksize) ++ data.drop b := by
              rw [← List.drop_append_of_le_length (by rw [List.length_append]; omega),
                List.append_assoc, List.take_append_drop]
            rw [htake, hsplit, List.take_append_of_le_length hlen'.ge, List.take_of_length_le hlen'.le]
        refine ⟨_, _, fill_more h0 hb hwrite (by rw [hfull, hkeyed.blksize]) hend hblock, rfl,
          Or.inl ⟨⟨⟨hkeyed.block, hkeyed.blksize, hkeyed.size, hkeyed.k1, hkeyed.k2⟩, ?_, q + 1, ?_, ?_,
            hhash'⟩, ?_⟩⟩
        · apply List.ne_nil_of_length_pos
          rw [List.length_drop]
          omega
        · rw [List.length_append, Nat.add_mul, Nat.one_mul]
          omega
        · have hidx : (q + 1) * E.blksize = m.length + b := by
            rw [Nat.add_mul, Nat.one_mul]
            omega
          rw [hidx, ← List.drop_drop, List.drop_left]
        · rintro ⟨h8, hne8, hsum⟩
          have := hmod 0 h8
          omega
    · -- The call ends within the block.
      have hbl : b = data.length := by omega
      subst hbl
      rw [List.take_length] at hw
      refine ⟨_, _, fill_part h0 hb hwrite (by rwa [hkeyed.blksize]), rfl,
        Or.inr (Or.inl ⟨by simp, ?_, ?_⟩)⟩
      · apply after_of (q := q)
        · exact ⟨hkeyed.block, hkeyed.blksize, hkeyed.size, hkeyed.k1, hkeyed.k2⟩
        · rw [List.length_append]
          omega
        · rw [List.length_append, Nat.add_mul, Nat.one_mul]
          omega
        · exact hhash
        · exact hw
        · rw [List.length_drop, List.length_append]
          dsimp only
          omega
        · rfl
      · rintro ⟨h8, hne8, hsum⟩
        have := hmod 0 h8
        omega

/-! ## Updates -/

theorem update_spec (h : After E m c) (data : List UInt8) :
    ∃ c', update c data = some c' ∧
      (After E (m ++ data) c' ∧ ¬ Spoils E.blksize m.length data.length ∨
        Broken c' ∧ Spoils E.blksize m.length data.length) := by
  by_cases hne : data = []
  · subst hne
    refine ⟨c, rfl, Or.inl ⟨by rwa [List.append_nil], ?_⟩⟩
    rintro ⟨-, hmod, hsum⟩
    rw [List.length_nil] at hsum
    omega
  · have hlen : data.length ≠ 0 := fun h => hne (List.eq_nil_of_length_eq_zero h)
    obtain ⟨c₁, rest, hfill, hflag, hcase⟩ := fill_spec h hne
    rcases hcase with ⟨hchained, hok⟩ | ⟨rfl, hafter, hok⟩ | ⟨rfl, hbroken, hbad⟩
    · obtain ⟨c₂, rest', hwhole, ⟨hkeyed, hrest, q, hq, hdrop, hhash⟩, hle, hflag'⟩ :=
        processWhole_spec rest.length hchained le_rfl
      have hsize := hkeyed.size
      have hpos := List.length_pos_of_ne_nil hrest
      obtain ⟨w, hwrite⟩ := Buf.exists_write_at c₂.buf 0 rest' (by omega)
      have hlen' := congrArg List.length hdrop
      rw [List.length_drop] at hlen'
      refine ⟨{ c₂ with buf := w, boff := rest'.length }, ?_, Or.inl ⟨?_, hok⟩⟩
      · rw [update, if_neg hlen]
        simp only [hfill, hwhole, if_pos (show rest'.length ≠ 0 by omega), hwrite,
          Option.bind_eq_bind, Option.bind_some, pure]
      · apply after_of (q := q)
        · exact ⟨hkeyed.block, hkeyed.blksize, hkeyed.size, hkeyed.k1, hkeyed.k2⟩
        · omega
        · rw [Nat.add_mul, Nat.one_mul]
          omega
        · exact hhash
        · rw [← hdrop]
          exact Buf.holds_write hwrite
        · rw [← hdrop]
        · exact hflag'.trans hflag
    · refine ⟨c₁, ?_, Or.inl ⟨hafter, hok⟩⟩
      rw [update, if_neg hlen]
      simp only [hfill, processWhole, List.length_nil, Option.bind_eq_bind, Option.bind_some,
        ne_eq, not_true_eq_false, if_false, pure]
    · refine ⟨c₁, ?_, Or.inr ⟨hbroken, hbad⟩⟩
      rw [update, if_neg hlen]
      simp only [hfill, processWhole, List.length_nil, Option.bind_eq_bind, Option.bind_some,
        ne_eq, not_true_eq_false, if_false, pure]

/-- A broken context takes nothing any more. -/
theorem update_broken (h : Broken c) (data : List UInt8) :
    update c data = if data = [] then some c else none := by
  split
  · rename_i hnil
    rw [hnil]
    rfl
  · rename_i hne
    have hpos := List.length_pos_of_ne_nil hne
    have hwrite : c.buf.write 16 (data.take (min (subSize 8 16) data.length)) = none := by
      have hsub := subSize_of_lt (a := 8) (b := 16) (by norm_num) (by norm_num)
      rw [Buf.write, dif_neg]
      rw [List.length_take, hsub]
      omega
    rw [update, if_neg (by omega), fill, if_pos (by simp [h.boff])]
    simp only [h.blksize, h.boff, hwrite, Option.bind_eq_bind, Option.bind_none]

end Drew.Mac.Cmac
