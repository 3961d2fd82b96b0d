import Drew.Hash.Keccak.Absorb

/-!
# When the sponge is complete

If the size of the digest is below 28, a block is larger than the arrays. If it is not a multiple
of 4, a block is not a number of whole lanes, and the last bytes of each block are not added to
the state; the last byte of the padding is always one of them (`not_absorbs_of_not_dvd`).

The length is counted modulo `2 ^ 64`, which is a multiple of few sizes of blocks. A call that
comes at a wrong offset leaves its first byte at a wrong place. So for some content of the same
lengths that byte is missing from everything that is added (`exists_missed`).
-/

namespace Drew.Keccak

open Drew.Memory Drew.Stream Drew.HashClass

variable {d : DigestSize}

/-! ## What the functions do if they are defined -/

section Cases

variable {σ : Type} {f : σ → List UInt8 → σ} {h h' : Keccak σ} {n : Nat}

theorem fill_cases {off : Nat} {data : List UInt8} {p : Keccak σ × List UInt8}
    (hfill : fill f n h off data = some p) :
    (off = 0 ∧ p = (h, data)) ∨
    (off ≠ 0 ∧ ∃ w, h.buf.write off (data.take (min (n - off) data.length)) = some w ∧
      p = ({ h with hash := if min (n - off) data.length + off = n then f h.hash (w.toList.take n) else h.hash, buf := w },
        data.drop (min (n - off) data.length))) := by
  unfold fill at hfill
  split at hfill
  · rename_i hoff
    obtain ⟨w, hwrite, hp⟩ := Option.bind_eq_some_iff.mp hfill
    exact Or.inr ⟨hoff, w, hwrite, (Option.some.inj hp).symm⟩
  · rename_i hoff
    exact Or.inl ⟨not_not.mp hoff, (Option.some.inj hfill).symm⟩

theorem update_cases {data : List UInt8} (hupdate : update f n h data = some h') :
    ∃ h₁ rest w, fill f n { h with len := h.len + BitVec.ofNat 64 data.length } (h.len.toNat % n) data = some (h₁, rest) ∧
      h₁.buf.write 0 (rest.drop (rest.length / n * n)) = some w ∧
      h' = { h₁ with hash := absorb n f (rest.length / n) h₁.hash rest, buf := w } := by
  unfold update at hupdate
  obtain ⟨⟨h₁, rest⟩, hfill, hrest⟩ := Option.bind_eq_some_iff.mp hupdate
  obtain ⟨w, hwrite, hh'⟩ := Option.bind_eq_some_iff.mp hrest
  exact ⟨h₁, rest, w, hfill, hwrite, (Option.some.inj hh').symm⟩

theorem pad_cases {m_pad : UInt8} (hpad : pad m_pad f n h = some h') :
    ∃ w w₁ w₂ y, h.buf.write (h.len.toNat % n) (List.replicate (n - h.len.toNat % n) 0) = some w ∧
      w.store (h.len.toNat % n) m_pad = some w₁ ∧ w₁.load (n - 1) = some y ∧
      w₁.store (n - 1) (y ||| 0x80) = some w₂ ∧
      h' = { h with hash := f h.hash (w₂.toList.take n), buf := w₂ } := by
  unfold pad at hpad
  obtain ⟨w, hwrite, hpad⟩ := Option.bind_eq_some_iff.mp hpad
  obtain ⟨w₁, hstore, hpad⟩ := Option.bind_eq_some_iff.mp hpad
  obtain ⟨y, hload, hpad⟩ := Option.bind_eq_some_iff.mp hpad
  obtain ⟨w₂, hstore', hpad⟩ := Option.bind_eq_some_iff.mp hpad
  exact ⟨w, w₁, w₂, y, hwrite, hstore, hload, hstore', (Option.some.inj hpad).symm⟩
/-- What `Transform` preserves. -/
theorem absorb_hash {Q : σ → Prop} (hQ : ∀ s b, Q s → Q (f s b)) (k : Nat) {s : σ} (hs : Q s)
    (data : List UInt8) : Q (absorb n f k s data) := by
  induction k generalizing s data with
  | zero => exact hs
  | succ k ih => exact ih (hQ s _ hs) _

theorem update_hash {Q : σ → Prop} (hQ : ∀ s b, Q s → Q (f s b)) {data : List UInt8} (hh : Q h.hash)
    (hupdate : update f n h data = some h') : Q h'.hash := by
  obtain ⟨h₁, rest, w, hfill, -, rfl⟩ := update_cases hupdate
  apply absorb_hash hQ
  rcases fill_cases hfill with ⟨-, hp⟩ | ⟨-, w₁, -, hp⟩
  · obtain ⟨rfl, -⟩ := Prod.mk.inj hp
    exact hh
  · obtain ⟨rfl, -⟩ := Prod.mk.inj hp
    change Q (if _ then _ else _)
    split
    · exact hQ _ _ hh
    · exact hh

theorem pad_hash {Q : σ → Prop} (hQ : ∀ s b, Q s → Q (f s b)) {m_pad : UInt8} (hh : Q h.hash)
    (hpad : pad m_pad f n h = some h') : Q h'.hash := by
  obtain ⟨-, -, w₂, -, -, -, -, -, rfl⟩ := pad_cases hpad
  exact hQ _ _ hh

end Cases

/-- What a run of calls preserves. -/
theorem run_inv {σ : Type} {f : σ → List UInt8 → σ} {n : Nat} {digest : Keccak σ → Option (List UInt8)}
    {s : σ} {I : Keccak σ → Prop} {calls : List Call}
    (hstep : ∀ c ∈ calls, ∀ h h', I h → update f n h c.data = some h' → I h') {h h' : Keccak σ} (hh : I h)
    (hrun : calls.foldlM (hashClass f n digest s).step h = some h') : I h' := by
  induction calls generalizing h with
  | nil =>
    obtain rfl := Option.some.inj hrun
    exact hh
  | cons c cs ih =>
    rw [List.foldlM_cons] at hrun
    obtain ⟨h₁, hupdate, hrest⟩ := Option.bind_eq_some_iff.mp hrun
    rw [step_eq] at hupdate
    exact ih (fun c' hc' => hstep c' (List.mem_cons_of_mem c hc'))
      (hstep c List.mem_cons_self h h₁ hh hupdate) hrest

/-- From some members on. -/
def absorbedFrom (d : DigestSize) (h : Keccak (Option (List State))) (calls : List Call) :
    Option (List State) := do
  let h ← calls.foldlM (hashClass (noteLanes d) d.rate (fun _ => none) (some [])).step h
  let h ← pad 0x01 (noteLanes d) d.rate h
  h.hash

theorem absorbedFrom_cases {h : Keccak (Option (List State))} {calls : List Call} {l : List State}
    (habsorbed : absorbedFrom d h calls = some l) :
    ∃ h₁ h₂, calls.foldlM (hashClass (noteLanes d) d.rate (fun _ => none) (some [])).step h = some h₁ ∧
      pad 0x01 (noteLanes d) d.rate h₁ = some h₂ ∧ h₂.hash = some l := by
  obtain ⟨h₁, hrun, hrest⟩ := Option.bind_eq_some_iff.mp habsorbed
  obtain ⟨h₂, hpad, hhash⟩ := Option.bind_eq_some_iff.mp hrest
  exact ⟨h₁, h₂, hrun, hpad, hhash⟩

/-! ## Sizes -/

/-- The last block fits into the buffer. -/
theorem size_of_absorbed {calls : List Call} {l : List State} (habsorbed : absorbed d calls = some l) :
    28 ≤ d.size := by
  obtain ⟨h₁, h₂, -, hpad, -⟩ := absorbedFrom_cases habsorbed
  obtain ⟨w, -, -, -, hwrite, -⟩ := pad_cases hpad
  have hfit := Buf.write_length_le hwrite
  have hmod := Nat.mod_lt h₁.len.toNat d.rate_pos
  have hrate := d.rate_add
  rw [List.length_replicate] at hfit
  omega

/-- The noted lanes are zero at an index. -/
def ZeroAt (i : Fin 25) (noted : Option (List State)) : Prop := ∀ l, noted = some l → ∀ t ∈ l, t.get i = 0

theorem zeroAt_noteLanes {i : Fin 25} (hi : d.words ≤ i.val) (noted : Option (List State))
    (block : List UInt8) (h : ZeroAt i noted) : ZeroAt i (noteLanes d noted block) := by
  intro l hl t ht
  obtain ⟨l₀, rfl, hl₀⟩ := Option.bind_eq_some_iff.mp hl
  obtain ⟨blk, -, hblk⟩ := Option.bind_eq_some_iff.mp hl₀
  obtain rfl := Option.some.inj hblk
  rcases List.mem_append.mp ht with ht | ht
  · exact h l₀ rfl t ht
  · rw [List.mem_singleton.mp ht, get_addedLanes, if_neg (by omega)]

/-- No byte behind the last whole lane is added. -/
theorem zeroAt_absorbed {i : Fin 25} (hi : d.words ≤ i.val) (calls : List Call) :
    ZeroAt i (absorbed d calls) := by
  intro l hl
  obtain ⟨h₁, h₂, hrun, hpad, hhash⟩ := absorbedFrom_cases hl
  have hstart : ZeroAt i (reset (some []) : Keccak (Option (List State))).hash := by
    intro l hl t ht
    obtain rfl := Option.some.inj hl
    cases ht
  have hbefore : ZeroAt i h₁.hash :=
    run_inv (I := fun h => ZeroAt i h.hash)
      (fun c _ h h' hh hupdate => update_hash (zeroAt_noteLanes hi) hh hupdate) hstart hrun
  exact pad_hash (zeroAt_noteLanes hi) hbefore hpad l hhash

theorem padding_last {n r : Nat} : ∃ x z, padding n r = x ++ [z] ∧ 0 < z.toNat := by
  unfold padding
  split
  · exact ⟨[], 0x81, rfl, by decide⟩
  · exact ⟨0x01 :: List.replicate (n - r - 2) 0, 0x80, rfl, by decide⟩

/-- The word with the last byte of a block is not zero. -/
theorem blockWord_last_ne {b : List UInt8} {i : Nat} {z : UInt8} (hlo : 8 * i ≤ b.length)
    (hhi : b.length < 8 * i + 8) (hz : 0 < z.toNat) : blockWord (b ++ [z]) i ≠ 0 := by
  have htake : ((b ++ [z]).drop (8 * i)).take 8 = b.drop (8 * i) ++ [z] := by
    rw [List.drop_append_of_le_length hlo, List.take_of_length_le]
    rw [List.length_append, List.length_drop, List.length_singleton]
    omega
  have hlt := beNat_lt (b.drop (8 * i) ++ [z]).reverse
  have hpos : 0 < beNat (b.drop (8 * i) ++ [z]).reverse := by
    rw [List.reverse_append, beNat_append]
    have hhead : beNat [z].reverse = z.toNat := beVal_singleton z
    rw [hhead]
    positivity
  have hle : 256 ^ (b.drop (8 * i) ++ [z]).reverse.length ≤ 2 ^ 64 := by
    have hexp : (b.drop (8 * i) ++ [z]).reverse.length ≤ 8 := by
      rw [List.length_reverse, List.length_append, List.length_drop, List.length_singleton]
      omega
    exact (Nat.pow_le_pow_right (by decide) hexp).trans (by decide)
  rw [blockWord, htake]
  intro hzero
  have hval := congrArg BitVec.toNat hzero
  rw [BitVec.toNat_ofNat, Nat.mod_eq_of_lt (hlt.trans_le hle)] at hval
  have hzero' : (0 : Lane).toNat = 0 := rfl
  omega

theorem not_absorbs_of_not_dvd (hdvd : ¬4 ∣ d.size) (calls : List Call) : ¬Absorbs d calls := by
  intro habsorbs
  have hrate := d.rate_add
  have hpos := d.rate_pos
  have hw : d.words = d.rate / 8 := rfl
  obtain ⟨hblocks, hlen⟩ := blocks_eq hpos (message calls)
  obtain ⟨x, z, hpadding, hz⟩ := padding_last (n := d.rate) (r := (message calls).length % d.rate)
  rw [hpadding, ← List.append_assoc] at hblocks hlen
  have hmem : blockLanes (((message calls).drop ((message calls).length / d.rate * d.rate) ++ x) ++ [z]) ∈
      (blocks d.rate (message calls)).map blockLanes := by
    rw [hblocks]
    exact List.mem_map_of_mem (List.mem_append_right _ (List.mem_singleton_self _))
  have hindex : d.words < 25 := by omega
  have hzero := zeroAt_absorbed (i := ⟨d.words, hindex⟩) le_rfl calls _ habsorbs.1 _ hmem
  rw [get_blockLanes] at hzero
  rw [List.length_append, List.length_singleton] at hlen
  exact blockWord_last_ne (i := d.words) (by omega) (by omega) hz hzero

/-! ## Missing bytes -/

/-- No byte that is noted for the place `j` is bad. -/
def NotedClear (bad : UInt8 → Prop) (j : Nat) (noted : Option (List State)) : Prop :=
  ∀ l, noted = some l → ∀ t ∈ l, ∀ x, (stateBytes t)[j]? = some x → ¬bad x

/-- Nor is the byte that is there in the buffer. -/
structure Clear (bad : UInt8 → Prop) (j : Nat) (h : Keccak (Option (List State))) : Prop where
  noted : NotedClear bad j h.hash
  buf : ∀ x, h.buf[j]? = some x → ¬bad x

theorem Clear.mono {bad bad' : UInt8 → Prop} {j : Nat} {h : Keccak (Option (List State))}
    (hc : Clear bad' j h) (hbad : ∀ x, bad x → bad' x) : Clear bad j h :=
  ⟨fun l hl t ht x hx hb => hc.noted l hl t ht x hx (hbad x hb), fun x hx hb => hc.buf x hx (hbad x hb)⟩

/-- The bytes that are added are those of the block. -/
theorem stateBytes_addedLanes {nwords j : Nat} {blk : List UInt8} (hn : nwords ≤ 25)
    (hblk : 8 * nwords ≤ blk.length) (hj : j < 8 * nwords) :
    (stateBytes (addedLanes nwords blk))[j]? = blk[j]? := by
  have hlanes : (addedLanes nwords blk).toList.take nwords = (List.range nwords).map (blockWord blk) := by
    apply List.ext_getElem
    · simp
      omega
    · intro i hi hi'
      have hin : i < nwords := by simpa using hi'
      have hget := get_addedLanes nwords blk ⟨i, by omega⟩
      rw [if_pos hin] at hget
      rw [List.getElem_take, List.getElem_map, List.getElem_range]
      exact hget
  have hbytes := flatMap_blockWord hblk
  rw [← hlanes] at hbytes
  have hlen : (((addedLanes nwords blk).toList.take nwords).flatMap laneBytes).length = 8 * nwords := by
    rw [hbytes, List.length_take]
    omega
  rw [stateBytes]
  conv_lhs => rw [← List.take_append_drop nwords (addedLanes nwords blk).toList, List.flatMap_append]
  rw [List.getElem?_append_left (by omega), hbytes, List.getElem?_take_of_lt hj]

section Bytes

variable {bad : UInt8 → Prop} {j : Nat} {h h' : Keccak (Option (List State))} {data : List UInt8}

/-- The places of bad bytes in a text are not that of the byte that is missing. -/
def Elsewhere (bad : UInt8 → Prop) (n j off : Nat) (data : List UInt8) : Prop :=
  ∀ i x, data[i]? = some x → bad x → (off + i) % n ≠ j

theorem elsewhere_of_clear {n off : Nat} (hdata : ∀ x ∈ data, ¬bad x) : Elsewhere bad n j off data :=
  fun _ x hx hb _ => hdata x (List.mem_of_getElem? hx) hb

/-- A text in front of which whole blocks were taken. -/
theorem Elsewhere.drop {n off i : Nat} (he : Elsewhere bad n j off data) (hi : (off + i) % n = 0) :
    Elsewhere bad n j 0 (data.drop i) := by
  intro t x hx hb
  rw [List.getElem?_drop] at hx
  have hplace := he (i + t) x hx hb
  rwa [← Nat.add_assoc, Nat.add_mod, hi, Nat.zero_add, Nat.mod_mod, ← Nat.zero_add t] at hplace

section Place

variable (hlanes : 4 ∣ d.size) (hsize : 28 ≤ d.size) (hj : j < d.rate) (hzero : ¬bad 0)
include hlanes hsize hj hzero

theorem notedClear_noteLanes {noted : Option (List State)} {b : List UInt8}
    (hnoted : NotedClear bad j noted) (hb : ∀ x, b[j]? = some x → ¬bad x) :
    NotedClear bad j (noteLanes d noted b) := by
  have hwords := words_eq hlanes
  have hfit := rate_le hlanes hsize
  intro l hl t ht x hx
  obtain ⟨l₀, rfl, hl₀⟩ := Option.bind_eq_some_iff.mp hl
  obtain ⟨blk, hwrite, hblk⟩ := Option.bind_eq_some_iff.mp hl₀
  obtain rfl := Option.some.inj hblk
  rcases List.mem_append.mp ht with ht | ht
  · exact hnoted l₀ rfl t ht x hx
  · rw [List.mem_singleton.mp ht, stateBytes_addedLanes (by omega) (by rw [Vector.length_toList]; omega)
      (by omega), Vector.getElem?_toList, Buf.getElem?_write hwrite, if_neg (Nat.not_lt_zero j)] at hx
    split at hx
    · exact hb x hx
    · have hempty : x = 0 := by
        rw [emptyBlock, Vector.getElem?_replicate, if_pos (by omega)] at hx
        exact (Option.some.inj hx).symm
      rwa [hempty]

theorem absorb_clear (k : Nat) {noted : Option (List State)} (hnoted : NotedClear bad j noted)
    (he : Elsewhere bad d.rate j 0 data) :
    NotedClear bad j (absorb d.rate (noteLanes d) k noted data) := by
  induction k generalizing noted data with
  | zero => exact hnoted
  | succ k ih =>
    refine ih (notedClear_noteLanes hlanes hsize hj hzero hnoted ?_) (he.drop ?_)
    · intro x hx hb
      rw [List.getElem?_take_of_lt hj] at hx
      exact he j x hx hb (by rw [Nat.zero_add, Nat.mod_eq_of_lt hj])
    · rw [Nat.zero_add, Nat.mod_self]

theorem update_clear (hc : Clear bad j h) (he : Elsewhere bad d.rate j (h.len.toNat % d.rate) data)
    (hupdate : update (noteLanes d) d.rate h data = some h') : Clear bad j h' := by
  obtain ⟨h₁, rest, w, hfill, hwrite, rfl⟩ := update_cases hupdate
  have hmod := Nat.mod_lt h.len.toNat d.rate_pos
  have hfilled : Clear bad j h₁ ∧ Elsewhere bad d.rate j 0 rest := by
    rcases fill_cases hfill with ⟨hoff, hp⟩ | ⟨hoff, w₁, hwrite₁, hp⟩
    · obtain ⟨rfl, rfl⟩ := Prod.mk.inj hp
      rw [hoff] at he
      exact ⟨⟨hc.noted, hc.buf⟩, he⟩
    · obtain ⟨rfl, rfl⟩ := Prod.mk.inj hp
      obtain ⟨i, hi⟩ : ∃ i, i = min (d.rate - h.len.toNat % d.rate) data.length := ⟨_, rfl⟩
      rw [← hi] at hwrite₁ ⊢
      have hbuf : ∀ x, w₁[j]? = some x → ¬bad x := by
        intro x hx hb
        rw [Buf.getElem?_write hwrite₁] at hx
        split at hx
        · exact hc.buf x hx hb
        · rename_i hlo
          split at hx
          · rename_i hhi
            rw [List.length_take] at hhi
            rw [List.getElem?_take_of_lt (by omega)] at hx
            refine he _ x hx hb ?_
            rw [Nat.add_sub_cancel' (by omega), Nat.mod_eq_of_lt hj]
          · exact hc.buf x hx hb
      refine ⟨⟨?_, hbuf⟩, ?_⟩
      · change NotedClear bad j (if _ then _ else _)
        split
        · apply notedClear_noteLanes hlanes hsize hj hzero hc.noted
          intro x hx
          rw [List.getElem?_take_of_lt hj, Vector.getElem?_toList] at hx
          exact hbuf x hx
        · exact hc.noted
      · by_cases hfull : i + h.len.toNat % d.rate = d.rate
        · apply he.drop
          rw [Nat.add_comm, hfull, Nat.mod_self]
        · have hnil : data.drop i = [] := List.drop_eq_nil_of_le (by omega)
          rw [hnil]
          exact elsewhere_of_clear fun x hx => (List.not_mem_nil hx).elim
  obtain ⟨hc₁, he₁⟩ := hfilled
  refine ⟨absorb_clear hlanes hsize hj hzero _ hc₁.noted he₁, ?_⟩
  intro x hx hb
  have hlast : Elsewhere bad d.rate j 0 (rest.drop (rest.length / d.rate * d.rate)) :=
    he₁.drop (by rw [Nat.zero_add, Nat.mul_mod_left])
  rw [Buf.getElem?_write hwrite, if_neg (Nat.not_lt_zero j)] at hx
  split at hx
  · exact hlast _ x hx hb (by rw [Nat.sub_zero, Nat.zero_add, Nat.mod_eq_of_lt hj])
  · exact hc₁.buf x hx hb

/-- The padding sets the byte at the offset, and a bit of the last byte. -/
theorem pad_clear (hmark : ∀ y, bad (y ||| 0x80) → bad y) (hone : bad 0x01 → h.len.toNat % d.rate ≠ j)
    (hc : Clear bad j h) (hpad : pad 0x01 (noteLanes d) d.rate h = some h') : NotedClear bad j h'.hash := by
  obtain ⟨w, w₁, w₂, y, hwrite, hstore, hload, hstore', rfl⟩ := pad_cases hpad
  have hset : ∀ {v v' : Buf UInt8 144} {i : Nat} {y : UInt8}, v.store i y = some v' → ∀ x,
      v'[j]? = some x → (i = j ∧ x = y) ∨ v[j]? = some x := by
    intro v v' i y hs x hx
    unfold Buf.store at hs
    split at hs
    · rename_i hlt
      obtain rfl := Option.some.inj hs
      by_cases hij : i = j
      · subst hij
        rw [Vector.getElem?_set_self hlt] at hx
        exact Or.inl ⟨rfl, (Option.some.inj hx).symm⟩
      · rw [Vector.getElem?_set_ne _ hij] at hx
        exact Or.inr hx
    · cases hs
  have hw : ∀ x, w[j]? = some x → ¬bad x := by
    intro x hx hb
    rw [Buf.getElem?_write hwrite] at hx
    split at hx
    · exact hc.buf x hx hb
    · split at hx
      · rw [List.getElem?_replicate] at hx
        split at hx
        · exact hzero (Option.some.inj hx ▸ hb)
        · cases hx
      · exact hc.buf x hx hb
  have hw₁ : ∀ x, w₁[j]? = some x → ¬bad x := by
    intro x hx hb
    rcases hset hstore x hx with ⟨hoff, rfl⟩ | hx
    · exact hone hb hoff
    · exact hw x hx hb
  have hw₂ : ∀ x, w₂[j]? = some x → ¬bad x := by
    intro x hx hb
    rcases hset hstore' x hx with ⟨hlast, rfl⟩ | hx
    · rw [hlast] at hload
      exact hw₁ y hload (hmark y hb)
    · exact hw₁ x hx hb
  apply notedClear_noteLanes hlanes hsize hj hzero hc.noted
  intro x hx
  rw [List.getElem?_take_of_lt hj, Vector.getElem?_toList] at hx
  exact hw₂ x hx

/-- Calls without bad bytes. -/
theorem run_clear {calls : List Call} {digest : Keccak (Option (List State)) → Option (List UInt8)}
    {s : Option (List State)} (hcalls : ∀ c ∈ calls, ∀ x ∈ c.data, ¬bad x) (hc : Clear bad j h)
    (hrun : calls.foldlM (hashClass (noteLanes d) d.rate digest s).step h = some h') : Clear bad j h' :=
  run_inv (I := Clear bad j)
    (fun c hmem _ _ hh hupdate =>
      update_clear hlanes hsize hj hzero hh (elsewhere_of_clear (hcalls c hmem)) hupdate) hc hrun

end Place

end Bytes

/-! ## Bytes of the blocks -/

theorem mem_chunks {α : Type} {n k i : Nat} (hi : i < k) (xs : List α) :
    (xs.drop (i * n)).take n ∈ chunks n k xs := by
  induction k generalizing i xs with
  | zero => omega
  | succ k ih =>
    cases i with
    | zero =>
      rw [Nat.zero_mul, List.drop_zero]
      exact List.mem_cons_self
    | succ i =>
      have htail := ih (Nat.lt_of_succ_lt_succ hi) (xs.drop n)
      rw [List.drop_drop, Nat.add_comm, ← Nat.succ_mul] at htail
      exact List.mem_cons_of_mem _ htail

/-- Every byte of the padded message is in its place in a block. -/
theorem exists_block {n p : Nat} (hn : 0 < n) {m : List UInt8} (hp : p / n ≤ m.length / n) :
    ∃ b ∈ blocks n m, b[p % n]? = (padded n m)[p]? := by
  refine ⟨_, mem_chunks (Nat.lt_succ_of_le hp) (padded n m), ?_⟩
  rw [List.getElem?_take_of_lt (Nat.mod_lt p hn), List.getElem?_drop, Nat.div_add_mod']

theorem getElem?_padded_of_lt {n p : Nat} {m : List UInt8} (hp : p < m.length) :
    (padded n m)[p]? = m[p]? := List.getElem?_append_left hp

/-- The first byte of the padding is odd. -/
theorem getElem?_padded_length (n : Nat) (m : List UInt8) :
    ∃ x, (padded n m)[m.length]? = some x ∧ x.toNat % 2 = 1 := by
  rw [padded, List.getElem?_append_right le_rfl, Nat.sub_self]
  unfold padding
  split
  · exact ⟨0x81, rfl, by decide⟩
  · exact ⟨0x01, rfl, by decide⟩

theorem odd_of_mark {y : UInt8} (hy : (y ||| 0x80).toNat % 2 = 1) : y.toNat % 2 = 1 := by
  rw [UInt8.toNat_or, Nat.or_mod_two_eq_one] at hy
  rcases hy with hy | hy
  · exact hy
  · cases hy

theorem mark_ne_two (y : UInt8) : y ||| 0x80 ≠ 2 := by
  intro hy
  have hval := congrArg UInt8.toNat hy
  have hle : 128 ≤ y.toNat ||| 128 := Nat.right_le_or
  have h128 : (0x80 : UInt8).toNat = 128 := rfl
  have h2 : (2 : UInt8).toNat = 2 := rfl
  rw [UInt8.toNat_or, h128, h2] at hval
  omega

/-! ## Wrong offsets -/

section Wrong

variable {h h' : Keccak (Option (List State))}

theorem update_len {data : List UInt8} (hupdate : update (noteLanes d) d.rate h data = some h') :
    h'.len = h.len + BitVec.ofNat 64 data.length := by
  obtain ⟨h₁, rest, w, hfill, -, rfl⟩ := update_cases hupdate
  rcases fill_cases hfill with ⟨-, hp⟩ | ⟨-, w₁, -, hp⟩
  · rw [(Prod.mk.inj hp).1]
  · rw [(Prod.mk.inj hp).1]

/-- A call of zeros. -/
def zeroCall (l : Nat) : Call := ⟨false, List.replicate l 0⟩

theorem lengths_zeroCalls (ls : List Nat) : lengths (ls.map zeroCall) = ls := by
  rw [lengths, List.map_map]
  refine List.map_id'' (fun l => ?_) ls
  simp [zeroCall]

variable (hlanes : 4 ∣ d.size) (hsize : 28 ≤ d.size)
include hlanes hsize

theorem stateBytes_blockLanes {b : List UInt8} (hb : b.length = d.rate) {j : Nat} (hj : j < d.rate) :
    (stateBytes (blockLanes b))[j]? = b[j]? := by
  have hwords := words_eq hlanes
  have hfit := rate_le hlanes hsize
  have hadded := addedLanes_eq hlanes hb []
  rw [List.append_nil] at hadded
  rw [← hadded, stateBytes_addedLanes (by omega) (by omega) (by omega)]

/-- A byte of the padded message is noted if all of them are. -/
theorem not_clear {bad : UInt8 → Prop} {m : List UInt8} {p : Nat} {x : UInt8}
    (hp : p / d.rate ≤ m.length / d.rate) (hx : (padded d.rate m)[p]? = some x) (hbad : bad x) :
    ¬NotedClear bad (p % d.rate) (some ((blocks d.rate m).map blockLanes)) := by
  intro hclear
  obtain ⟨b, hb, hbyte⟩ := exists_block d.rate_pos hp
  refine hclear _ rfl _ (List.mem_map_of_mem hb) x ?_ hbad
  rw [stateBytes_blockLanes hlanes hsize (length_of_mem_blocks d.rate_pos hb) (Nat.mod_lt p d.rate_pos),
    hbyte, hx]

/-- If an offset is wrong, some content of the same lengths is not absorbed. Before that offset all
bytes are zero. -/
theorem exists_missed {ls : List Nat} {len : Nat} (hlen : h.len = BitVec.ofNat 64 len)
    (hclear : ∀ j < d.rate, Clear (· ≠ 0) j h) (hwrong : ¬OffsetsRight d.rate len ls) :
    ∃ calls, lengths calls = ls ∧ absorbedFrom d h calls ≠
      some ((blocks d.rate (List.replicate len 0 ++ message calls)).map blockLanes) := by
  have hpos := d.rate_pos
  have hzero : ¬(0 : UInt8) ≠ 0 := not_not.mpr rfl
  have hoff : h.len.toNat % d.rate = len % 2 ^ 64 % d.rate := by
    rw [hlen, BitVec.toNat_ofNat]
  induction ls generalizing len h with
  | nil =>
    -- The first byte of the padding comes at the wrong offset.
    refine ⟨[], rfl, fun habsorbed => ?_⟩
    obtain ⟨h₁, h₂, hrun, hpad, hhash⟩ := absorbedFrom_cases habsorbed
    obtain rfl := Option.some.inj hrun
    have hj := Nat.mod_lt len hpos
    have hstart : Clear (fun x => x.toNat % 2 = 1) (len % d.rate) h :=
      (hclear _ hj).mono fun x hx h0 => by rw [h0] at hx; cases hx
    have hnoted := pad_clear hlanes hsize hj (by decide)
      (fun y hy => odd_of_mark hy)
      (fun _ hoff' => hwrong (hoff.symm.trans hoff')) hstart hpad
    rw [hhash] at hnoted
    have hnil : List.replicate len (0 : UInt8) ++ message [] = List.replicate len 0 := List.append_nil _
    rw [hnil] at hnoted
    obtain ⟨x, hx, hodd⟩ := getElem?_padded_length d.rate (List.replicate len 0)
    rw [List.length_replicate] at hx
    exact not_clear hlanes hsize (by rw [List.length_replicate]) hx hodd hnoted
  | cons l ls ih =>
    by_cases hnext : OffsetRight d.rate len ∨ l = 0
    · -- The call has zeros, and the wrong offset is still to come.
      have hlater : ¬OffsetsRight d.rate (len + l) ls := by
        rcases hnext with hright | rfl
        · exact fun hls => hwrong ⟨hright, hls⟩
        · intro hls
          refine hwrong ⟨?_, hls⟩
          cases ls with
          | nil => exact hls
          | cons l' ls' => exact hls.1
      cases hupdate : update (noteLanes d) d.rate h (zeroCall l).data with
      | none =>
        refine ⟨(l :: ls).map zeroCall, lengths_zeroCalls _, fun habsorbed => ?_⟩
        obtain ⟨h₁, h₂, hrun, -⟩ := absorbedFrom_cases habsorbed
        rw [List.map_cons, List.foldlM_cons, step_eq, hupdate] at hrun
        cases hrun
      | some h₁ =>
        have hlen₁ : h₁.len = BitVec.ofNat 64 (len + l) := by
          rw [update_len hupdate, hlen, BitVec.ofNat_add, zeroCall, List.length_replicate]
        have hclear₁ : ∀ j < d.rate, Clear (· ≠ 0) j h₁ := fun j hj =>
          update_clear hlanes hsize hj hzero (hclear j hj)
            (elsewhere_of_clear fun x hx => not_not.mpr (List.eq_of_mem_replicate hx)) hupdate
        obtain ⟨calls, hls, habsorbed⟩ := ih hlen₁ hclear₁ hlater (by rw [hlen₁, BitVec.toNat_ofNat])
        refine ⟨zeroCall l :: calls, ?_, ?_⟩
        · rw [← hls]
          simp [lengths, zeroCall]
        · have hmsg : List.replicate len 0 ++ message (zeroCall l :: calls) =
              List.replicate (len + l) 0 ++ message calls := by
            rw [message_cons, ← List.append_assoc, List.replicate_add]
            rfl
          rw [hmsg]
          intro habs
          apply habsorbed
          rw [← habs]
          unfold absorbedFrom
          rw [List.foldlM_cons, step_eq, hupdate]
          rfl
    · -- The first byte of the call is not zero.
      obtain ⟨hnow, hl⟩ := not_or.mp hnext
      obtain ⟨k, rfl⟩ := Nat.exists_eq_succ_of_ne_zero hl
      have hj := Nat.mod_lt len hpos
      obtain ⟨c, hc⟩ : ∃ c : Call, c = ⟨false, 2 :: List.replicate k 0⟩ := ⟨_, rfl⟩
      refine ⟨c :: ls.map zeroCall, ?_, fun habsorbed => ?_⟩
      · have hls := lengths_zeroCalls ls
        rw [lengths] at hls
        rw [lengths, List.map_cons, hls, hc]
        simp
      · obtain ⟨h₁, h₂, hrun, hpad, hhash⟩ := absorbedFrom_cases habsorbed
        rw [List.foldlM_cons] at hrun
        obtain ⟨h₃, hupdate, hrun⟩ := Option.bind_eq_some_iff.mp hrun
        rw [step_eq] at hupdate
        have htwo : ¬(0 : UInt8) = 2 := by decide
        have hstart : Clear (· = 2) (len % d.rate) h :=
          (hclear _ hj).mono fun x hx h0 => by rw [h0] at hx; cases hx
        have hplace : Elsewhere (· = 2) d.rate (len % d.rate) (h.len.toNat % d.rate) c.data := by
          intro i x hx h2
          rw [hc] at hx
          cases i with
          | zero =>
            rw [Nat.add_zero, Nat.mod_mod, hoff]
            exact hnow
          | succ i =>
            rw [List.getElem?_cons_succ, List.getElem?_replicate] at hx
            split at hx
            · exact absurd ((Option.some.inj hx).trans h2) htwo
            · cases hx
        have hnoted := pad_clear hlanes hsize hj htwo (fun y hy => absurd hy (mark_ne_two y)) (fun h1 => by cases h1)
          (run_clear hlanes hsize hj htwo
            (fun c' hc' x hx => by
              obtain ⟨l', -, rfl⟩ := List.mem_map.mp hc'
              rw [List.eq_of_mem_replicate hx]
              exact htwo)
            (update_clear hlanes hsize hj htwo hstart hplace hupdate) hrun) hpad
        rw [hhash] at hnoted
        have hmsg : (List.replicate len 0 ++ message (c :: ls.map zeroCall))[len]? = some 2 := by
          rw [message_cons, hc, List.getElem?_append_right (by simp)]
          simp
        have hlt : len < (List.replicate len 0 ++ message (c :: ls.map zeroCall)).length := by
          by_contra hge
          rw [List.getElem?_eq_none (Nat.le_of_not_lt hge)] at hmsg
          cases hmsg
        exact absurd hnoted (not_clear hlanes hsize (Nat.div_le_div_right hlt.le)
          (by rw [getElem?_padded_of_lt hlt, hmsg]) rfl)

end Wrong

/-- For given lengths of the calls, the sponge is complete for every content exactly if a block has
whole lanes and fits into the arrays, and the offsets are right. -/
theorem absorbs_iff (d : DigestSize) (ls : List Nat) :
    (∀ calls, lengths calls = ls → Absorbs d calls) ↔
      28 ≤ d.size ∧ 4 ∣ d.size ∧ OffsetsRight d.rate 0 ls := by
  constructor
  · intro habsorbs
    have hzeros := habsorbs _ (lengths_zeroCalls ls)
    have hsize := size_of_absorbed hzeros.1
    have hlanes : 4 ∣ d.size := by
      by_contra hdvd
      exact not_absorbs_of_not_dvd hdvd _ hzeros
    refine ⟨hsize, hlanes, ?_⟩
    by_contra hwrong
    have hclear : ∀ j < d.rate, Clear (· ≠ 0) j (reset (some [])) := by
      intro j _
      refine ⟨?_, ?_⟩
      · intro l hl t ht
        obtain rfl := Option.some.inj hl
        cases ht
      · intro x hx
        rw [reset, Vector.getElem?_replicate] at hx
        split at hx
        · exact not_not.mpr (Option.some.inj hx).symm
        · cases hx
    obtain ⟨calls, hls, hmissed⟩ := exists_missed hlanes hsize rfl hclear hwrong
    exact hmissed (habsorbs calls hls).1
  · rintro ⟨hsize, hlanes, hoff⟩ calls hls
    rw [← hls] at hoff
    exact absorbs_of_right hsize hlanes hoff

theorem pos_30 : 0 < 30 := by decide

theorem le_30 : 30 ≤ 64 := by decide

/-- Blocks have 140 bytes. -/
def digestSize30 : DigestSize := ⟨30, pos_30, le_30⟩

/-- The last four bytes of the only block of the empty message are not added. -/
theorem not_absorbs_nil : ¬Absorbs digestSize30 [] := not_absorbs_of_not_dvd (by decide) []

end Drew.Keccak
