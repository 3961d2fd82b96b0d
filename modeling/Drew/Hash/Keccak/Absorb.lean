import Drew.Hash.Keccak.Sponge

/-!
# What the sponge absorbs

The lanes that are added to the state are noted (`absorbed`); they do not depend on the
permutation, and a digest is that of the noted lanes (`digest_absorbed`). If a block is a number of
whole lanes and fits into the arrays, these are the blocks of the padded message
(`absorbs_of_right`).
-/

namespace Drew.Keccak

open Drew.Memory Drew.Stream Drew.HashClass KeccakF

/-- What `Transform` adds to a state. -/
def addedLanes (nwords : Nat) (blk : List UInt8) : State := addBlock nwords (Vector.replicate 25 0) blk

/-- The lanes are noted, and there is no permutation. -/
def noteLanes (d : DigestSize) (noted : Option (List State)) (block : List UInt8) :
    Option (List State) := do
  let l ← noted
  let blk ← Buf.write emptyBlock 0 block
  return l ++ [addedLanes d.words blk.toList]

/-- Everything that is added for a message given in calls. -/
def absorbed (d : DigestSize) (calls : List Call) : Option (List State) := do
  let h ← calls.foldlM (hashClass (noteLanes d) d.rate (fun _ => none) (some [])).step (reset (some []))
  let h ← pad 0x01 (noteLanes d) d.rate h
  h.hash

def message (calls : List Call) : List UInt8 := (calls.map Call.data).flatten

/-- All bytes of the padded message are absorbed, no array is left, and all configurations have
the digest of the sponge. -/
def Absorbs (d : DigestSize) (calls : List Call) : Prop :=
  absorbed d calls = some ((blocks d.rate (message calls)).map blockLanes) ∧
    ∀ V ∈ [keccak, keccakWithLimitedNots, keccakCompact],
      (variantClass V d 0x01 d.size false).digest calls = some (sponge d (message calls))

variable {d : DigestSize}

/-! ## Digests of noted lanes -/

section Noted

variable (V : Variant)

/-- The state after some lanes were added. -/
def stateAfter (l : List State) : State := l.foldl (fun s t => V.permute (addState s t)) V.initial

theorem get_addState (s t : State) (i : Fin 25) : (addState s t).get i = s.get i ^^^ t.get i :=
  get_ofFn _ i

theorem get_zero (i : Fin 25) : (Vector.replicate 25 (0 : Lane)).get i = 0 := by
  revert i
  decide

theorem addBlock_eq (nwords : Nat) (s : State) (blk : List UInt8) :
    addBlock nwords s blk = addState s (addedLanes nwords blk) := by
  apply state_ext
  intro x y
  rw [get_addState, addedLanes, get_addBlock, get_addBlock, get_zero]
  split
  · exact congrArg _ BitVec.zero_xor.symm
  · exact BitVec.xor_zero.symm

theorem stateAfter_noteLanes (noted : Option (List State)) (block : List UInt8) :
    (noteLanes d noted block).map (stateAfter V) = transformAll V d (noted.map (stateAfter V)) block := by
  cases noted with
  | none => rfl
  | some l =>
    change Option.map _ (Option.bind _ _) = transform V d (stateAfter V l) block
    unfold transform
    cases Buf.write emptyBlock 0 block with
    | none => rfl
    | some blk =>
      have hnext : stateAfter V (l ++ [addedLanes d.words blk.toList]) =
          V.permute (addBlock d.words (stateAfter V l) blk.toList) := by
        rw [stateAfter, List.foldl_append, addBlock_eq]
        rfl
      exact congrArg some hnext

/-- The digest is that of the noted lanes. -/
theorem digest_absorbed (len : Nat) (calls : List Call) :
    (variantClass V d 0x01 len false).digest calls =
      (absorbed d calls).bind fun l => squeeze d len (V.correct (stateAfter V l)) := by
  have hdigest : ∀ h : Keccak (Option (List State)),
      getDigest V d 0x01 len false (mapHash (Option.map (stateAfter V)) h) =
        ((pad 0x01 (noteLanes d) d.rate h).bind Keccak.hash).bind
          fun l => squeeze d len (V.correct (stateAfter V l)) := by
    intro h
    change (pad 0x01 (transformAll V d) d.rate (mapHash _ h)).bind _ = _
    rw [pad_map (Option.map (stateAfter V)) (stateAfter_noteLanes V)]
    cases pad 0x01 (noteLanes d) d.rate h with
    | none => rfl
    | some h' =>
      change Option.bind (Option.map _ h'.hash) _ = Option.bind h'.hash _
      cases h'.hash <;> rfl
  have hmap := digest_map (Option.map (stateAfter V)) (stateAfter_noteLanes (d := d) V) hdigest d.rate
    (some []) calls
  refine hmap.trans ?_
  unfold HashClass.digest absorbed
  simp only [Option.bind_eq_bind, Option.bind_assoc]
  rfl

end Noted

/-! ## Bytes of lanes -/

theorem length_laneBytes (x : Lane) : (laneBytes x).length = 8 := by
  rw [laneBytes, List.length_reverse, length_beBytes]

theorem length_flatMap_laneBytes (l : List Lane) : (l.flatMap laneBytes).length = 8 * l.length := by
  induction l with
  | nil => rfl
  | cons x l ih =>
    rw [List.flatMap_cons, List.length_append, length_laneBytes, ih, List.length_cons]
    omega

theorem laneBytes_blockWord {b : List UInt8} {i : Nat} (hi : 8 * i + 8 ≤ b.length) :
    laneBytes (blockWord b i) = (b.drop (8 * i)).take 8 := by
  have hlen : ((b.drop (8 * i)).take 8).reverse.length = 8 := by
    rw [List.length_reverse, List.length_take, List.length_drop]
    omega
  have hlt := beNat_lt ((b.drop (8 * i)).take 8).reverse
  have hbytes := beBytes_beNat ((b.drop (8 * i)).take 8).reverse
  rw [hlen] at hlt hbytes
  rw [laneBytes, blockWord, BitVec.toNat_ofNat, Nat.mod_eq_of_lt (by simpa using hlt), hbytes,
    List.reverse_reverse]

/-- A block whose bytes are read as lanes. -/
theorem flatMap_blockWord {b : List UInt8} {k : Nat} (hk : 8 * k ≤ b.length) :
    ((List.range k).map (blockWord b)).flatMap laneBytes = b.take (8 * k) := by
  induction k with
  | zero => rfl
  | succ k ih =>
    rw [List.range_succ, List.map_append, List.flatMap_append, ih (by omega), List.map_singleton,
      List.flatMap_singleton, laneBytes_blockWord (by omega), Nat.mul_succ, List.take_add]

theorem get_addedLanes (nwords : Nat) (blk : List UInt8) (i : Fin 25) :
    (addedLanes nwords blk).get i = if i.val < nwords then blockWord blk i.val else 0 := by
  rw [addedLanes, get_addBlock, get_zero]
  split
  · exact BitVec.zero_xor
  · rfl

theorem get_blockLanes (b : List UInt8) (i : Fin 25) : (blockLanes b).get i = blockWord b i.val :=
  get_ofFn _ i

/-- Beyond the block there are no bytes. -/
theorem blockWord_beyond {b : List UInt8} {i : Nat} (hi : b.length ≤ 8 * i) : blockWord b i = 0 := by
  rw [blockWord, List.drop_eq_nil_of_le hi]
  rfl

/-- Bytes behind a word do not matter to it. -/
theorem blockWord_append {b : List UInt8} {i : Nat} (hi : 8 * i + 8 ≤ b.length) (x : List UInt8) :
    blockWord (b ++ x) i = blockWord b i := by
  rw [blockWord, blockWord, List.drop_append_of_le_length (by omega),
    List.take_append_of_le_length (by rw [List.length_drop]; omega)]

/-- What is in the array after the block. -/
theorem write_emptyBlock {b : List UInt8} (hb : b.length ≤ 144) :
    ∃ blk : Buf UInt8 144, Buf.write emptyBlock 0 b = some blk ∧ ∃ x, blk.toList = b ++ x := by
  obtain ⟨blk, hwrite⟩ := Buf.exists_write_at emptyBlock 0 b (by omega)
  have htake := (Buf.holds_write hwrite).take_toList
  refine ⟨blk, hwrite, blk.toList.drop b.length, ?_⟩
  conv_lhs => rw [← List.take_append_drop b.length blk.toList, htake]

/-! ## Whole lanes -/

section Whole

variable (hlanes : 4 ∣ d.size)
include hlanes

theorem words_eq : 8 * d.words = d.rate := by
  have hrate := d.rate_add
  unfold DigestSize.words
  omega

theorem addedLanes_eq {b : List UInt8} (hb : b.length = d.rate) (x : List UInt8) :
    addedLanes d.words (b ++ x) = blockLanes b := by
  have hwords := words_eq hlanes
  apply state_ext
  intro c r
  rw [get_addedLanes, get_blockLanes]
  split
  · exact blockWord_append (by omega) x
  · exact (blockWord_beyond (by omega)).symm

variable (hsize : 28 ≤ d.size)
include hsize

theorem rate_le : d.rate ≤ 144 := by
  have hrate := d.rate_add
  omega

theorem noteLanes_eq (l : List State) {b : List UInt8} (hb : b.length = d.rate) :
    noteLanes d (some l) b = some (l ++ [blockLanes b]) := by
  obtain ⟨blk, hwrite, x, hx⟩ := write_emptyBlock (hb.trans_le (rate_le hlanes hsize))
  unfold noteLanes
  simp only [Option.bind_eq_bind, Option.bind_some, hwrite, pure, hx, addedLanes_eq hlanes hb]

theorem foldl_noteLanes (l : List State) {bs : List (List UInt8)} (hbs : ∀ b ∈ bs, b.length = d.rate) :
    bs.foldl (noteLanes d) (some l) = some (l ++ bs.map blockLanes) := by
  induction bs generalizing l with
  | nil => rw [List.map_nil, List.append_nil, List.foldl_nil]
  | cons b bs ih =>
    rw [List.foldl_cons, noteLanes_eq hlanes hsize l (hbs b List.mem_cons_self),
      ih _ fun c hc => hbs c (List.mem_cons_of_mem b hc), List.append_assoc]
    rfl

/-- The bytes are taken from one block. -/
theorem squeeze_eq (s : State) : squeeze d d.size s = some ((stateBytes s).take d.size) := by
  have hpos := d.pos
  have hle := d.le
  have hrate := d.rate_add
  have hfit := rate_le hlanes hsize
  have hwords := words_eq hlanes
  have hlen : ((s.toList.take d.words).flatMap laneBytes).length = d.rate := by
    rw [length_flatMap_laneBytes, List.length_take, Vector.length_toList]
    omega
  have hone : (d.size + d.rate - 1) / d.rate = 1 :=
    Nat.div_eq_of_lt_le (by omega) (by omega)
  have hmin : min d.rate (d.size - 0 * d.rate) = d.size := by omega
  obtain ⟨w, hwrite⟩ := Buf.exists_write_at emptyBlock 0 ((s.toList.take d.words).flatMap laneBytes) (by
    rw [hlen]
    omega)
  have hbytes : (stateBytes s).take d.size = ((s.toList.take d.words).flatMap laneBytes).take d.size := by
    rw [stateBytes]
    conv_lhs => rw [← List.take_append_drop d.words s.toList, List.flatMap_append]
    rw [List.take_append_of_le_length (by rw [hlen]; omega)]
  have hblock : squeezeBlock d d.size s = some ((stateBytes s).take d.size) := by
    unfold squeezeBlock
    simp only [Option.bind_eq_bind, hwrite, Option.bind_some, hlen, hbytes]
    rw [if_pos (by omega)]
  rw [squeeze, hone, List.range_one, List.foldlM_cons, hmin, hblock]
  rfl

end Whole

/-! ## Right runs -/

/-- The offsets are right before every call and before the padding. -/
def OffsetsRight (n : Nat) : Nat → List Nat → Prop
  | len, [] => OffsetRight n len
  | len, l :: ls => OffsetRight n len ∧ OffsetsRight n (len + l) ls

instance instDecidableOffsetsRight (n : Nat) : (len : Nat) → (ls : List Nat) → Decidable (OffsetsRight n len ls)
  | len, [] => inferInstanceAs (Decidable (OffsetRight n len))
  | len, l :: ls =>
      haveI := instDecidableOffsetsRight n (len + l) ls
      inferInstanceAs (Decidable (OffsetRight n len ∧ OffsetsRight n (len + l) ls))

/-- The lengths of the calls. -/
def lengths (calls : List Call) : List Nat := calls.map fun c => c.data.length

section Run

variable {σ : Type} {f : σ → List UInt8 → σ} {s : σ} {m : List UInt8} {h : Keccak σ} {n : Nat}
  {digest : Keccak σ → Option (List UInt8)}

theorem step_eq (h : Keccak σ) (c : Call) : (hashClass f n digest s).step h c = update f n h c.data := by
  unfold HashClass.step
  split <;> rfl

theorem message_cons (c : Call) (cs : List Call) : message (c :: cs) = c.data ++ message cs := rfl

theorem run_spec (hpos : 0 < n) (hn : n ≤ 144) (hh : Held f n s m h) {calls : List Call}
    (hoff : OffsetsRight n m.length (lengths calls)) :
    ∃ h', calls.foldlM (hashClass f n digest s).step h = some h' ∧ Held f n s (m ++ message calls) h' ∧
      OffsetRight n (m ++ message calls).length := by
  induction calls generalizing m h with
  | nil =>
    have hnil : message [] = [] := rfl
    rw [hnil, List.append_nil]
    exact ⟨h, rfl, hh, hoff⟩
  | cons c cs ih =>
    obtain ⟨hc, hcs⟩ := hoff
    obtain ⟨h₁, hupdate, hh₁⟩ := update_spec hpos hn hh hc c.data
    rw [← List.length_append] at hcs
    obtain ⟨h', hrun, hh', hlast⟩ := ih hh₁ hcs
    rw [message_cons, ← List.append_assoc]
    refine ⟨h', ?_, hh', hlast⟩
    rw [List.foldlM_cons, step_eq, hupdate]
    exact hrun

end Run

theorem bits_ofBits (A : Bits) : bits (ofBits A) = A := by
  funext x y z
  rw [bits, ofBits, get_ofFn, BitVec.getLsbD_setWidth, BitVec.getLsbD_ofBoolListLE, column_lane, row_lane]
  simp

theorem ofBits_permutation (s : State) : ofBits (permutation (bits s)) = keccakF s := by
  apply bits_injective
  rw [bits_ofBits, bits_keccakF]

theorem keccak_correct (s : State) : keccak.correct s = s := rfl

/-- The state of the sponge is that after the lanes of the blocks. -/
theorem stateAfter_blocks (n : Nat) (m : List UInt8) :
    stateAfter keccak ((blocks n m).map blockLanes) = spongeState n m := by
  rw [stateAfter, List.foldl_map, spongeState]
  simp only [ofBits_permutation]
  rfl

theorem absorbs_of_right (hsize : 28 ≤ d.size) (hlanes : 4 ∣ d.size) {calls : List Call}
    (hoff : OffsetsRight d.rate 0 (lengths calls)) : Absorbs d calls := by
  have hpos := d.rate_pos
  have hn := rate_le hlanes hsize
  obtain ⟨h, hrun, hh, hlast⟩ := @run_spec _ (noteLanes d) (some []) [] _ d.rate (fun _ => none) hpos hn
    (held_nil (noteLanes d) d.rate (some [])) calls hoff
  rw [List.nil_append] at hh hlast
  obtain ⟨h', hpad, hhash⟩ := pad_spec hpos hn hh hlast
  have habsorbed : absorbed d calls = some ((blocks d.rate (message calls)).map blockLanes) := by
    rw [foldl_noteLanes hlanes hsize [] (fun b hb => length_of_mem_blocks hpos hb)] at hhash
    unfold absorbed
    simp only [Option.bind_eq_bind, hrun, Option.bind_some, hpad, hhash, List.nil_append]
  have hkeccak : (variantClass keccak d 0x01 d.size false).digest calls = some (sponge d (message calls)) := by
    rw [digest_absorbed, habsorbed, Option.bind_some, stateAfter_blocks, keccak_correct,
      squeeze_eq hlanes hsize, sponge]
  refine ⟨habsorbed, fun V hV => ?_⟩
  rcases List.mem_cons.mp hV with rfl | hV
  · exact hkeccak
  rcases List.mem_cons.mp hV with rfl | hV
  · rw [limitedNots_digest, hkeccak]
  · rw [List.mem_singleton.mp hV, compact_eq, hkeccak]

end Drew.Keccak
