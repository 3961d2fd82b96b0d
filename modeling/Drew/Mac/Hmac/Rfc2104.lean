import Drew.Mac.Hmac.Tag

/-!
# When HMAC computes its tags

The pads have the size that the hash algorithm reports, which has to be the size of the blocks
it absorbs. A reset leaves out the pads of the empty key. It also hashes a digest again that is
longer than a block, so that the key bytes change with every reset.
-/

namespace Drew.Mac.Hmac

open Drew.Memory Drew.Mode

variable {A : HashAlgorithm} {t : Nat} {c c' : Hmac A} {k : Option (List UInt8)}
  {key : List UInt8}

/-! ## Any calls -/

/-- The key bytes of this key are kept as they are when they are set again. -/
def Stable (A : HashAlgorithm) (key : List UInt8) : Prop :=
  A.size ≤ A.blksize ∨ key.length ≤ A.blksize

theorem keyBytes_keyBytes (h : Stable A key) :
    keyBytes A (keyBytes A key) = keyBytes A key := by
  by_cases hlong : A.blksize < key.length
  · have hsize : A.size ≤ A.blksize := h.resolve_right (by omega)
    rw [show keyBytes A key = A.digest key from if_pos hlong]
    exact if_neg (by rw [A.length_digest]; omega)
  · rw [show keyBytes A key = key from if_neg hlong]
    exact if_neg hlong

theorem keyBytes_nil : keyBytes A [] = [] := if_neg (by simp)

theorem keyBytes_ne_nil (h : key ≠ []) : keyBytes A key ≠ [] := by
  unfold keyBytes
  split
  · intro hnil
    have hlen := A.length_digest key
    rw [hnil] at hlen
    have hpos := A.size_pos
    rw [← hlen] at hpos
    cases hpos
  · exact h

/-- The members that no function changes, and the key bytes of the key last set. -/
structure Kept (A : HashAlgorithm) (t : Nat) (k : Option (List UInt8)) (c : Hmac A) : Prop where
  sized : Sized t c
  bytes : ∃ kb, HasKey kb c ∧ ∀ key, k = some key → Stable A key → kb = keyBytes A key

theorem Kept.of_eq (h : Kept A t k c) (hbuf : c'.keybuf = c.keybuf)
    (hsz : c'.keybufsz = c.keybufsz) (hblk : c'.blksz = c.blksz)
    (hdig : c'.digestsz = c.digestsz) (htag : c'.taglen = c.taglen) : Kept A t k c' := by
  obtain ⟨hs, kb, hkb, heq⟩ := h
  refine ⟨⟨hblk.trans hs.blksz, hs.blksz_le, hdig.trans hs.digestsz, hs.size_le,
    htag.trans hs.taglen⟩, kb, ⟨?_, hsz.trans hkb.keybufsz⟩, heq⟩
  rw [hbuf]
  exact hkb.holds

theorem reset_kept (h : Kept A t k c) (hreset : c.reset = some c') : Kept A t k c' := by
  obtain ⟨hs, kb, hkb, heq⟩ := h
  by_cases hnil : kb = []
  · subst hnil
    obtain ⟨c₁, hc₁, hs₁, hk₁, -⟩ := reset_of_nil hs hkb
    obtain rfl := Option.some.inj (hc₁.symm.trans hreset)
    exact ⟨hs₁, [], hk₁, heq⟩
  · obtain ⟨c₁, hc₁, hs₁, hk₁, -⟩ := reset_of_ne_nil hs hkb hnil
    obtain rfl := Option.some.inj (hc₁.symm.trans hreset)
    refine ⟨hs₁, _, hk₁, fun key hkey hstable => ?_⟩
    rw [heq key hkey hstable, keyBytes_keyBytes hstable]

theorem step_kept {op : Op} (h : Kept A t k c) (hstep : step c op = some c') :
    Kept A t (nextKey k op) c' := by
  cases op with
  | setkey key =>
    obtain ⟨c₁, hset, hs, hkey, -⟩ := setkey_spec h.sized key
    obtain rfl := Option.some.inj (hset.symm.trans hstep)
    refine ⟨hs, _, hkey, fun key' hkey' _ => ?_⟩
    cases hkey'
    rfl
  | reset => exact reset_kept h hstep
  | update data =>
    cases hstep
    exact h.of_eq rfl rfl rfl rfl rfl
  | final stale =>
    obtain ⟨⟨c₁, tag⟩, hfinal, rfl⟩ := Option.map_eq_some_iff.mp hstep
    obtain ⟨v, -, hfinal⟩ := Option.bind_eq_some_iff.mp hfinal
    obtain ⟨d, -, hfinal⟩ := Option.bind_eq_some_iff.mp hfinal
    obtain ⟨w, -, hfinal⟩ := Option.bind_eq_some_iff.mp hfinal
    obtain ⟨digest, -, hfinal⟩ := Option.bind_eq_some_iff.mp hfinal
    cases hfinal
    exact h.of_eq rfl rfl rfl rfl rfl

theorem run_kept {ops : List Op} (h : Kept A t k c) (hrun : ops.foldlM step c = some c') :
    Kept A t (ops.foldl nextKey k) c' := by
  induction ops generalizing c k with
  | nil =>
    cases hrun
    exact h
  | cons op ops ih =>
    obtain ⟨c₁, hstep, hrest⟩ := Option.bind_eq_some_iff.mp hrun
    exact ih (step_kept h hstep) hrest

/-- The length of the tags of a context, for digests of `size` bytes. -/
def tagSize (size taglen : Nat) : Nat := if taglen ≠ 0 then taglen else size

theorem init_kept {algo : A.Ctx} {taglen : Nat} (h : init algo taglen = .ok c) :
    Kept A (tagSize A.size taglen) none c := by
  unfold init at h
  split at h
  · cases h
  · rename_i hsize
    cases h
    exact ⟨⟨rfl, by omega, rfl, by omega, rfl⟩, [], ⟨Buf.holds_nil (Nat.zero_le _), rfl⟩,
      fun key hkey => by cases hkey⟩

/-! ## Contexts that are ready -/

/-- The pads that are absorbed, with the reset being the first one. -/
def absorbedPad (A : HashAlgorithm) (x : UInt8) (key : List UInt8) : Start → List UInt8
  | .keyed => padded A x (keyBytes A key)
  | .reset => if key = [] then [] else padded A x (keyBytes A (keyBytes A key))

theorem Ready.spec {taglen : Nat} {how : Start} (h : Ready A taglen key how c)
    (hstable : how = .reset → Stable A key) : Sized (tagSize A.size taglen) c ∧
      Absorbed (absorbedPad A 0x5c key how) (absorbedPad A 0x36 key how) c := by
  cases h with
  | keyed hinit hrun hset =>
    obtain ⟨c₁, hset', hs, -, ha⟩ := setkey_spec (run_kept (init_kept hinit) hrun).sized key
    obtain rfl := Option.some.inj (hset'.symm.trans hset)
    exact ⟨hs, ha⟩
  | reset hinit hrun hkey hreset =>
    obtain ⟨hs, kb, hkb, heq⟩ := run_kept (init_kept hinit) hrun
    obtain rfl := heq key hkey (hstable rfl)
    by_cases hnil : key = []
    · subst hnil
      rw [keyBytes_nil] at hkb
      obtain ⟨c₁, hreset', hs', -, ha⟩ := reset_of_nil hs hkb
      obtain rfl := Option.some.inj (hreset'.symm.trans hreset)
      exact ⟨hs', ha⟩
    · obtain ⟨c₁, hreset', hs', -, ha⟩ := reset_of_ne_nil hs hkb (keyBytes_ne_nil hnil)
      obtain rfl := Option.some.inj (hreset'.symm.trans hreset)
      refine ⟨hs', ?_⟩
      simpa only [absorbedPad, if_neg hnil] using ha

/-- A context that was created, got its key and, possibly, was reset. -/
theorem exists_ready (algo : A.Ctx) (hb : A.blksize ≤ bufferSize) (hd : A.size ≤ bufferSize)
    (taglen : Nat) (key : List UInt8) (how : Start) :
    ∃ c, Ready A taglen key how c ∧ Sized (tagSize A.size taglen) c ∧
      Absorbed (absorbedPad A 0x5c key how) (absorbedPad A 0x36 key how) c := by
  obtain ⟨c₀, hinit⟩ : ∃ c, init algo taglen = .ok c := ⟨_, if_neg (by omega)⟩
  obtain ⟨c₁, hset, hs, hkey, ha⟩ := setkey_spec (init_kept hinit).sized key
  have hrun : [Op.setkey key].foldlM step c₀ = some c₁ := by
    rw [List.foldlM_cons]
    change (c₀.setkey key).bind _ = _
    rw [hset]
    rfl
  cases how with
  | keyed => exact ⟨c₁, .keyed hinit (show [].foldlM step c₀ = some c₀ from rfl) hset, hs, ha⟩
  | reset =>
    by_cases hnil : key = []
    · subst hnil
      rw [keyBytes_nil] at hkey
      obtain ⟨c₂, hreset, hs', -, ha'⟩ := reset_of_nil hs hkey
      exact ⟨c₂, .reset hinit hrun rfl hreset, hs', ha'⟩
    · obtain ⟨c₂, hreset, hs', -, ha'⟩ := reset_of_ne_nil hs hkey (keyBytes_ne_nil hnil)
      refine ⟨c₂, .reset hinit hrun rfl hreset, hs', ?_⟩
      simpa only [absorbedPad, if_neg hnil] using ha'

/-! ## Where the tags are right -/

theorem map_blockKey (x : UInt8) (hb : A.blksize = A.rate) (key : List UInt8) :
    (blockKey A key).map (x ^^^ ·) = padded A x (keyBytes A key) := by
  have hk : (if A.rate < key.length then A.digest key else key) = keyBytes A key := by
    rw [keyBytes, hb]
  unfold blockKey padded
  dsimp only
  rw [hk, hb, List.take_append, List.map_append, List.take_replicate, Nat.min_self,
    List.map_replicate, UInt8.xor_zero]

theorem tagOf_eq {taglen : Nat} {how : Start} (h : Ready A taglen key how c)
    (hb : A.blksize = A.rate) (ht : tagSize A.size taglen ≤ A.size)
    (hreset : how = .reset → key ≠ [] ∧ Stable A key) (stale : Buf UInt8 256)
    (pieces : List (List UInt8)) : tagOf stale c pieces =
      some ((hmac A key pieces.flatten).take (tagSize A.size taglen)) := by
  obtain ⟨hs, ha⟩ := h.spec fun hhow => (hreset hhow).2
  have hpad : ∀ x, absorbedPad A x key how = padded A x (keyBytes A key) := by
    intro x
    cases how with
    | keyed => rfl
    | reset =>
      obtain ⟨hne, hstable⟩ := hreset rfl
      rw [absorbedPad, if_neg hne, keyBytes_keyBytes hstable]
  rw [tagOf_spec hs ha stale pieces ht, hmac, map_blockKey _ hb, map_blockKey _ hb, hpad, hpad]

/-! ## Where they are not -/

/-- The algorithm whose contexts are the texts they have absorbed. Its digests repeat one byte. -/
def textAlgorithm (b r d : Nat) (hr : 0 < r) (hd : 0 < d) (f : List UInt8 → UInt8) :
    HashAlgorithm where
  Ctx := List UInt8
  rate := r
  rate_pos := hr
  digest m := List.replicate d (f m)
  size := d
  size_pos := hd
  length_digest _ := List.length_replicate
  blksize := b
  clone s := s
  reset _ := []
  update s data := s ++ data
  final s _ := (s, List.replicate d (f s))
  Absorbed s m := s = m
  absorbed_clone h := h
  absorbed_reset _ := rfl
  absorbed_update _ h := by rw [h]
  final_of_absorbed h := by rw [h]

/-- The property, for every algorithm of the given sizes. -/
def TagsRight (b r d taglen : Nat) (key : List UInt8) (how : Start) : Prop :=
  ∀ A : HashAlgorithm, A.blksize = b → A.rate = r → A.size = d →
    ∀ c, Ready A taglen key how c → ∀ stale pieces, tagOf stale c pieces =
      some ((hmac A key pieces.flatten).take (tagSize A.size taglen))

variable {b r d taglen : Nat} {how : Start}

theorem tagSize_pos (hd : 0 < d) : 0 < tagSize d taglen := by
  unfold tagSize
  split <;> omega

/-- Where all tags are right, so are the first bytes of the tags of the empty message. -/
theorem TagsRight.first_byte (h : TagsRight b r d taglen key how) (hb : b ≤ bufferSize)
    (hd : d ≤ bufferSize) (hr : 0 < r) (hd0 : 0 < d) (ht : tagSize d taglen ≤ d)
    (f : List UInt8 → UInt8) : ∃ x y,
      f (absorbedPad (textAlgorithm b r d hr hd0 f) 0x5c key how ++ List.replicate d x) =
        f ((blockKey (textAlgorithm b r d hr hd0 f) key).map (0x5c ^^^ ·) ++
          List.replicate d y) := by
  obtain ⟨c, hready, hs, ha⟩ :=
    exists_ready (A := textAlgorithm b r d hr hd0 f) ([] : List UInt8) hb hd taglen key how
  have htag := h (textAlgorithm b r d hr hd0 f) rfl rfl rfl c hready (Vector.replicate 256 0) []
  have hpos : tagSize (textAlgorithm b r d hr hd0 f).size taglen ≠ 0 :=
    Nat.ne_of_gt (tagSize_pos hd0)
  rw [tagOf_spec hs ha _ _ ht] at htag
  have hhead := congrArg List.head? (Option.some.inj htag)
  rw [List.head?_take, List.head?_take, if_neg hpos, if_neg hpos] at hhead
  change List.head? (List.replicate d (f _)) = List.head? (List.replicate d (f _)) at hhead
  rw [List.head?_replicate, List.head?_replicate, if_neg (Nat.ne_of_gt hd0),
    if_neg (Nat.ne_of_gt hd0)] at hhead
  exact ⟨_, _, Option.some.inj hhead⟩

theorem TagsRight.tagSize_le (h : TagsRight b r d taglen key how) (hb : b ≤ bufferSize)
    (hd : d ≤ bufferSize) (hr : 0 < r) (hd0 : 0 < d) : tagSize d taglen ≤ d := by
  by_contra hlong
  obtain ⟨c, hready, hs, ha⟩ := exists_ready (A := textAlgorithm b r d hr hd0 fun _ => 0)
    ([] : List UInt8) hb hd taglen key how
  apply tagOf_ne hs ha (Vector.replicate 256 0) [] (Nat.lt_of_not_le hlong)
    (HashAlgorithm.length_digest _ _)
  exact h _ rfl rfl rfl c hready (Vector.replicate 256 0) []

theorem length_blockKey (key : List UInt8) : (blockKey A key).length = A.rate := by
  unfold blockKey
  rw [List.length_take, List.length_append, List.length_replicate]
  omega

/-- The outside context has absorbed a block before it gets a digest. -/
theorem TagsRight.length_absorbedPad (h : TagsRight b r d taglen key how) (hb : b ≤ bufferSize)
    (hd : d ≤ bufferSize) (hr : 0 < r) (hd0 : 0 < d) : b = r ∧ (how = .reset → key ≠ []) := by
  obtain ⟨x, y, hbyte⟩ := h.first_byte hb hd hr hd0 (h.tagSize_le hb hd hr hd0)
    fun m => if m.length = r + d then 1 else 0
  have hspec := length_blockKey
    (A := textAlgorithm b r d hr hd0 fun m => if m.length = r + d then 1 else 0) key
  change _ = r at hspec
  rw [List.length_append, List.length_append, List.length_map, hspec, List.length_replicate,
    List.length_replicate, if_pos rfl] at hbyte
  have hlen : (absorbedPad (textAlgorithm b r d hr hd0 fun m => if m.length = r + d then 1 else 0)
      0x5c key how).length = r := by
    by_contra hne
    rw [if_neg (by omega)] at hbyte
    exact absurd hbyte (by decide)
  cases how with
  | keyed =>
    rw [absorbedPad, length_padded] at hlen
    exact ⟨hlen, fun hhow => by cases hhow⟩
  | reset =>
    by_cases hnil : key = []
    · rw [absorbedPad, if_pos hnil, List.length_nil] at hlen
      omega
    · rw [absorbedPad, if_neg hnil, length_padded] at hlen
      exact ⟨hlen, fun _ => hnil⟩

/-- A byte that is neither at the head of the key nor becomes it in the outer pad. -/
theorem exists_byte (h : UInt8) :
    ∃ a : UInt8, a ≠ h ∧ 0x5c ^^^ a ≠ h ∧ a ≠ 2 ∧ a ≠ 3 ∧ (0x5c ^^^ 2 : UInt8) ≠ 0x5c ^^^ a ∧
      a ≠ 0x5c ^^^ a := by
  by_cases h0 : h = 0 ∨ h = 0x5c
  · refine ⟨1, ?_⟩
    rcases h0 with rfl | rfl <;> decide
  · refine ⟨0, fun he => h0 (Or.inl he.symm), fun he => h0 (Or.inr ?_), by decide⟩
    rw [← he]
    decide

theorem exists_padded_cons (hb : 0 < A.blksize) {n : Nat} (hn : 0 < n) (x y : UInt8) :
    ∃ zs, padded A x (List.replicate n y) = (x ^^^ y) :: zs := by
  obtain ⟨m, hm⟩ : ∃ m, min A.blksize n = m + 1 := ⟨min A.blksize n - 1, by omega⟩
  refine ⟨List.replicate m (x ^^^ y) ++ List.replicate (A.blksize - n) x, ?_⟩
  rw [padded, List.take_replicate, hm, List.map_replicate, List.length_replicate,
    List.replicate_succ, List.cons_append]

/-- A digest that is longer than a block is hashed again: the algorithm here marks the right
outer pad, and the key byte in the pad after a reset is another one. -/
theorem TagsRight.stable (h : TagsRight b r d taglen key .reset) (hb : b ≤ bufferSize)
    (hd : d ≤ bufferSize) (hr : 0 < r) (hd0 : 0 < d) : d ≤ b ∨ key.length ≤ b := by
  obtain ⟨rfl, hne⟩ := h.length_absorbedPad hb hd hr hd0
  by_contra hlong
  obtain ⟨h0, rest, hkey⟩ := List.exists_cons_of_ne_nil (hne rfl)
  obtain ⟨a, ha, hpad, ha2, ha3, h2, hself⟩ := exists_byte h0
  let f : List UInt8 → UInt8 := fun m =>
    if m = key then a else if m.head? = some (0x5c ^^^ a) then 3 else 2
  have hf : ∀ z zs, z ≠ h0 → f (z :: zs) = if z = 0x5c ^^^ a then 3 else 2 := by
    intro z zs hz
    have hdiff : z :: zs ≠ key := by
      rw [hkey]
      exact fun he => hz (List.cons.inj he).1
    simp only [f, if_neg hdiff, List.head?_cons, Option.some.injEq]
  have hbytes : keyBytes (textAlgorithm b b d hr hd0 f) key = List.replicate d a := by
    have hlen : b < key.length := by omega
    rw [keyBytes]
    refine (if_pos hlen).trans ?_
    change List.replicate d (f key) = _
    rw [show f key = a from if_pos rfl]
  have hbytes2 : keyBytes (textAlgorithm b b d hr hd0 f) (List.replicate d a) =
      List.replicate d 2 := by
    have hlen : b < (List.replicate d a).length := by rw [List.length_replicate]; omega
    obtain ⟨n, rfl⟩ : ∃ n, d = n + 1 := ⟨d - 1, by omega⟩
    rw [keyBytes]
    refine (if_pos hlen).trans ?_
    change List.replicate (n + 1) (f (a :: List.replicate n a)) = _
    rw [hf _ _ ha, if_neg hself]
  obtain ⟨x, y, hbyte⟩ := h.first_byte hb hd hr hd0 (h.tagSize_le hb hd hr hd0) f
  obtain ⟨zs, hzs⟩ := exists_padded_cons (A := textAlgorithm b b d hr hd0 f) hr hd0 0x5c 2
  obtain ⟨ws, hws⟩ := exists_padded_cons (A := textAlgorithm b b d hr hd0 f) hr hd0 0x5c a
  rw [absorbedPad, if_neg (hne rfl), map_blockKey _ rfl, hbytes, hbytes2, hzs, hws,
    List.cons_append, List.cons_append, hf _ _ hpad, if_pos rfl] at hbyte
  -- the left side may still be the key itself
  by_cases hself' : (0x5c ^^^ 2) :: (zs ++ List.replicate d x) = key
  · rw [show f _ = a from if_pos hself'] at hbyte
    exact ha3 hbyte
  · simp only [f, if_neg hself', List.head?_cons, Option.some.injEq, if_neg h2] at hbyte
    exact absurd hbyte (by decide)

/-- The tags are right exactly if the algorithm reports the size of its blocks, a tag is not
longer than a digest, and, after a reset, the key is not empty and was not replaced by a digest
that is longer than a block. -/
theorem hmac_rfc2104_iff {b r d : Nat} (hb : b ≤ bufferSize) (hd : d ≤ bufferSize) (hr : 0 < r)
    (hd0 : 0 < d) (taglen : Nat) (key : List UInt8) (how : Start) :
    TagsRight b r d taglen key how ↔
      b = r ∧ tagSize d taglen ≤ d ∧
        (how = .reset → key ≠ [] ∧ (d ≤ b ∨ key.length ≤ b)) := by
  constructor
  · intro h
    obtain ⟨hbr, hne⟩ := h.length_absorbedPad hb hd hr hd0
    refine ⟨hbr, h.tagSize_le hb hd hr hd0, fun hhow => ⟨hne hhow, ?_⟩⟩
    subst hhow
    exact h.stable hb hd hr hd0
  · rintro ⟨hbr, ht, hreset⟩ A rfl rfl rfl c hready stale pieces
    exact tagOf_eq hready hbr ht hreset stale pieces

theorem hmac_rfc2104_iff_md5 : TagsRight 64 64 16 0 [1, 2, 3] .reset :=
  (hmac_rfc2104_iff (by decide) (by decide) (by decide) (by decide) 0 [1, 2, 3] .reset).mpr
    ⟨rfl, by decide, fun _ => ⟨by decide, Or.inl (by decide)⟩⟩

/-- The sizes of MD5, with digests that tell the length of the text. -/
def lengthAlgorithm : HashAlgorithm :=
  textAlgorithm 64 64 16 Memory.pos_64 Memory.pos_16 fun m => UInt8.ofNat m.length

/-- After the empty key was set and the context was reset, the pads are missing in the tag. -/
theorem hmac_reset_empty_key :
    ∃ c, Ready lengthAlgorithm 0 [] .reset c ∧
      tagOf (Vector.replicate 256 0) c [[1]] =
        some (lengthAlgorithm.digest (lengthAlgorithm.digest [1])) ∧
      tagOf (Vector.replicate 256 0) c [[1]] ≠ some (hmac lengthAlgorithm [] [1]) := by
  obtain ⟨c, hready, hs, ha⟩ := exists_ready (A := lengthAlgorithm) ([] : List UInt8)
    (by decide) (by decide) 0 [] .reset
  have htag := tagOf_spec hs ha (Vector.replicate 256 0) [[1]] le_rfl
  have hplain : tagOf (Vector.replicate 256 0) c [[1]] =
      some (lengthAlgorithm.digest (lengthAlgorithm.digest [1])) := htag
  refine ⟨c, hready, hplain, ?_⟩
  rw [hplain]
  decide

end Drew.Mac.Hmac
