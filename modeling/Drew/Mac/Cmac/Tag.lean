import Drew.Mac.Cmac.Update

/-!
# Tags of CMAC

The last block is filled up and combined with a subkey in place (`finishBlock_spec`), so a
final gives the specified tag (`final_spec`). A context can be used again after a reset,
whatever was done with it before (`step_kept`). The tag of a message is the specified one
exactly if no call spoils the context (`cmac_nist_iff`).
-/

namespace Drew.Mac.Cmac

open Drew.Memory Drew.Block Drew.Stream Drew.Mode

variable {E : BlockCipher} {m data : List UInt8} {c c' : Cmac}

/-! ## The last block -/

/-- Whole buffers are combined, of which only the first block matters. -/
theorem xor_first {v k : Buf UInt8 16} {xs ys : List UInt8} (hv : v.Holds 0 xs)
    (hk : k.Holds 0 ys) (hlen : xs.length = ys.length) :
    ∃ w, xorAligned v 0 v 0 k 0 bufferSize = some w ∧ w.Holds 0 (xorBytes xs ys) := by
  have h16 : 16 ∣ bufferSize := by decide
  obtain ⟨w, hxor, hwrite⟩ := xorAligned_spec v 0 h16 Vector.length_toList Vector.length_toList
    (Buf.holds_toList v) (Buf.holds_toList k) le_rfl
  refine ⟨w, hxor, ?_⟩
  have hw := Buf.holds_write hwrite
  rw [← List.take_append_drop xs.length v.toList, ← List.take_append_drop ys.length k.toList,
    hv.take_toList, hk.take_toList, xorBytes_append hlen] at hw
  exact hw.left

/-- Fill up the block with a bit and zeros. -/
theorem pad_spec {v : Buf UInt8 16} {xs : List UInt8} {bs : Nat} (hv : v.Holds 0 xs)
    (hlt : xs.length < bs) (hbs : bs ≤ 16) :
    ∃ w w', v.write xs.length (List.replicate (bs - xs.length) 0) = some w ∧
      w.store xs.length 0x80 = some w' ∧
      w'.Holds 0 (xs ++ 0x80 :: List.replicate (bs - xs.length - 1) 0) := by
  obtain ⟨w, hwrite⟩ := Buf.exists_write_at v xs.length (List.replicate (bs - xs.length) 0) (by
    rw [List.length_replicate]
    omega)
  have hzeros := Buf.holds_write hwrite
  obtain ⟨k, hk⟩ : ∃ k, bs - xs.length = k + 1 := ⟨bs - xs.length - 1, by omega⟩
  rw [hk, List.replicate_succ] at hzeros
  refine ⟨w, _, hwrite, Buf.store_of_lt _ _ (by omega), ?_⟩
  rw [hk, Nat.add_sub_cancel, ← List.singleton_append]
  apply Buf.Holds.append
  · exact (hv.write_of_disjoint hwrite (Or.inr (by omega))).set_of_disjoint _ _ (Or.inr (by omega))
  · rw [Nat.zero_add]
    exact (Buf.holds_set_same _ _ _).append
      (hzeros.tail.set_of_disjoint _ _ (Or.inl (by simp)))

theorem finishBlock_spec (h : After E m c) :
    ∃ w, finishBlock c = some w ∧
      w.Holds 0 (lastBlock E (m.drop (before E.blksize m * E.blksize))) := by
  have hsize := h.keyed.size
  have hlen1 : (subkey1 E).length = E.blksize := by
    rw [subkey1, length_double, E.length_encrypt _ (by simp)]
  have hlen2 : (subkey2 E).length = E.blksize := by rw [subkey2, length_double, hlen1]
  have hle := length_rest_le E.blksize_pos m
  have hboff := h.boff
  have hbuf := h.buf
  obtain ⟨rest, hrest⟩ : ∃ rest, rest = m.drop (before E.blksize m * E.blksize) := ⟨_, rfl⟩
  rw [← hrest] at hle hboff hbuf ⊢
  unfold finishBlock lastBlock
  by_cases hm : m = []
  · -- The empty message: the buffer is filled up from its second byte on.
    have hnil : rest = [] := by rw [hrest, hm, List.drop_nil]
    subst hnil
    rw [List.length_nil] at hboff
    have hflag : c.nonzeroLen = false := by simp [h.nonzeroLen, hm]
    obtain ⟨w, hwrite⟩ := Buf.exists_write_at c.buf 1 (List.replicate (E.blksize - 1) 0) (by
      rw [List.length_replicate]
      omega)
    have hstore := Buf.store_of_lt w (i := 0) 0x80 (by norm_num)
    have hpad : Buf.Holds (w.set 0 0x80 (by norm_num)) 0 ([0x80] ++ List.replicate (E.blksize - 1) 0) := by
      apply Buf.Holds.append
      · exact Buf.holds_set_same _ _ _
      · exact (Buf.holds_write hwrite).set_of_disjoint _ _ (Or.inl (by simp))
    obtain ⟨w', hxor, hw'⟩ := xor_first hpad h.keyed.k2 (by
      rw [hlen2, List.length_append, List.length_replicate, List.length_singleton]
      omega)
    refine ⟨w', ?_, ?_⟩
    · rw [if_pos hflag, h.keyed.blksize, subSize_of_le (by omega) (by omega), hwrite, hboff]
      simp only [Option.bind_eq_bind, Option.bind_some, hstore, hxor]
    · rw [if_neg (by rw [List.length_nil]; omega)]
      exact hw'
  · have hflag : ¬ c.nonzeroLen = false := by simp [h.nonzeroLen, hm]
    rw [if_neg hflag, h.keyed.blksize, hboff]
    split
    · rename_i hfull
      exact xor_first hbuf h.keyed.k1 (by rw [hlen1, hfull])
    · rename_i hpart
      obtain ⟨w, w', hwrite, hstore, hw'⟩ := pad_spec hbuf (by omega) (show E.blksize ≤ 16 by omega)
      obtain ⟨w'', hxor, hw''⟩ := xor_first hw' h.keyed.k2 (by
        rw [hlen2, List.length_append, List.length_cons, List.length_replicate]
        omega)
      refine ⟨w'', ?_, hw''⟩
      rw [subSize_of_le hle (by omega), hwrite]
      simp only [Option.bind_eq_bind, Option.bind_some, hstore, hxor]

theorem length_lastBlock (E : BlockCipher) {b : List UInt8} (h : b.length ≤ E.blksize) :
    (lastBlock E b).length = E.blksize := by
  have hlen1 : (subkey1 E).length = E.blksize := by
    rw [subkey1, length_double, E.length_encrypt _ (by simp)]
  have hlen2 : (subkey2 E).length = E.blksize := by rw [subkey2, length_double, hlen1]
  unfold lastBlock
  split
  · rw [length_xorBytes]
    omega
  · rw [length_xorBytes, List.length_append, List.length_cons, List.length_replicate]
    omega

theorem length_cmac (E : BlockCipher) (m : List UInt8) : (cmac E m).length = E.blksize := by
  apply E.length_encrypt
  rw [length_xorBytes, length_chain E (before_mul_le _ _),
    length_lastBlock E (length_rest_le E.blksize_pos m), Nat.min_self]

/-! ## Tags -/

theorem final_spec (h : After E m c) (htag : c.taglen ≤ E.blksize) :
    ∃ c', final c = some (c', (cmac E m).take c.taglen) := by
  obtain ⟨w, hfinish, hw⟩ := finishBlock_spec h
  have hlast := length_lastBlock E (length_rest_le E.blksize_pos m)
  have htake := hw.take_toList
  rw [hlast] at htake
  obtain ⟨hash, hblock, hhash⟩ := processBlock_holds (c := { c with buf := w })
    ⟨h.keyed.block, h.keyed.blksize, h.keyed.size, h.keyed.k1, h.keyed.k2⟩ h.hash
    (length_chain E (before_mul_le _ _)) hlast htake
  have hdigest : hash.read 0 c.taglen = some ((cmac E m).take c.taglen) := by
    have hlen : ((cmac E m).take c.taglen).length = c.taglen := by
      rw [List.length_take, length_cmac]
      omega
    have hall : hash.Holds 0 ((cmac E m).take c.taglen ++ (cmac E m).drop c.taglen) := by
      rw [List.take_append_drop]
      exact hhash
    have hread := hall.left.read
    rwa [hlen] at hread
  refine ⟨{ c with buf := w, hash := hash }, ?_⟩
  simp only [final, hfinish, hblock, hdigest, Option.bind_eq_bind, Option.bind_some, pure]

theorem length_final {tag : List UInt8} (h : final c = some (c', tag)) : tag.length = c.taglen := by
  obtain ⟨w, -, h⟩ := Option.bind_eq_some_iff.mp h
  obtain ⟨c₁, hblock, h⟩ := Option.bind_eq_some_iff.mp h
  obtain ⟨digest, hread, h⟩ := Option.bind_eq_some_iff.mp h
  cases h
  rw [← (processBlock_sameKey hblock).taglen]
  exact (Buf.holds_of_read hread).1

/-- The offset behind the block would be filled up backwards. -/
theorem final_broken (h : Broken c) : final c = none := by
  have hwrite : c.buf.write 16 (List.replicate (subSize 8 16) 0) = none := by
    have hsub := subSize_of_lt (a := 8) (b := 16) (by norm_num) (by norm_num)
    rw [Buf.write, dif_neg]
    rw [List.length_replicate, hsub]
    omega
  have hfinish : finishBlock c = none := by
    rw [finishBlock, if_neg (by simp [h.nonzeroLen]), h.blksize, h.boff, if_neg (by norm_num)]
    simp only [hwrite, Option.bind_eq_bind, Option.bind_none]
  simp only [final, hfinish, Option.bind_eq_bind, Option.bind_none]

/-! ## Messages in pieces -/

/-- The tag of a message that comes in pieces. -/
def tagOf (c : Cmac) (pieces : List (List UInt8)) : Option (List UInt8) := do
  let c ← pieces.foldlM update c
  let (_, tag) ← final c
  return tag

/-- Some call completes a block of 8 bytes that an earlier one began, and ends there. `n` bytes
were given before the pieces. -/
def Spoiled (bs : Nat) : Nat → List (List UInt8) → Prop
  | _, [] => False
  | n, p :: ps => Spoils bs n p.length ∨ Spoiled bs (n + p.length) ps

instance (bs : Nat) : ∀ n pieces, Decidable (Spoiled bs n pieces)
  | _, [] => inferInstanceAs (Decidable False)
  | n, p :: ps =>
      have : Decidable (Spoiled bs (n + p.length) ps) := instDecidableSpoiled bs (n + p.length) ps
      inferInstanceAs (Decidable (_ ∨ _))

theorem tagOf_nil (c : Cmac) : tagOf c [] = (final c).map Prod.snd := by
  cases h : final c <;> simp [tagOf, h]

theorem tagOf_cons {p : List UInt8} (ps : List (List UInt8)) (h : update c p = some c') :
    tagOf c (p :: ps) = tagOf c' ps := by
  simp only [tagOf, List.foldlM_cons, h, Option.bind_eq_bind, Option.bind_some]

theorem tagOf_broken (h : Broken c) (pieces : List (List UInt8)) : tagOf c pieces = none := by
  induction pieces with
  | nil => rw [tagOf_nil, final_broken h, Option.map_none]
  | cons p ps ih =>
    have hupdate := update_broken h p
    split at hupdate
    · rw [tagOf_cons ps hupdate, ih]
    · simp only [tagOf, List.foldlM_cons, hupdate, Option.bind_eq_bind, Option.bind_none]

theorem tagOf_spoiled (h : After E m c) {pieces : List (List UInt8)}
    (hbad : Spoiled E.blksize m.length pieces) : tagOf c pieces = none := by
  induction pieces generalizing c m with
  | nil => exact hbad.elim
  | cons p ps ih =>
    obtain ⟨c', hupdate, hcase⟩ := update_spec h p
    rw [tagOf_cons ps hupdate]
    rcases hcase with ⟨hafter, hok⟩ | ⟨hbroken, -⟩
    · apply ih hafter
      rw [List.length_append]
      exact hbad.resolve_left hok
    · exact tagOf_broken hbroken ps

theorem tagOf_unspoiled (h : After E m c) {pieces : List (List UInt8)}
    (hok : ¬ Spoiled E.blksize m.length pieces) :
    ∃ c', tagOf c pieces = (final c').map Prod.snd ∧ After E (m ++ pieces.flatten) c' ∧
      c'.taglen = c.taglen := by
  induction pieces generalizing c m with
  | nil => exact ⟨c, tagOf_nil c, by rwa [List.flatten_nil, List.append_nil], rfl⟩
  | cons p ps ih =>
    obtain ⟨c₁, hupdate, hcase⟩ := update_spec h p
    rcases hcase with ⟨hafter, -⟩ | ⟨-, hspoils⟩
    · obtain ⟨c', htag, hafter', hlen⟩ := ih hafter (by
        rw [List.length_append]
        exact fun hbad => hok (Or.inr hbad))
      refine ⟨c', by rw [tagOf_cons ps hupdate, htag], ?_, ?_⟩
      · rwa [List.flatten_cons, ← List.append_assoc]
      · rw [hlen, (update_sameKey hupdate).taglen]
    · exact absurd (Or.inl hspoils) hok

theorem tagOf_iff (h : After E [] c) (pieces : List (List UInt8)) :
    tagOf c pieces = some ((cmac E pieces.flatten).take c.taglen) ↔
      c.taglen ≤ E.blksize ∧ ¬ Spoiled E.blksize 0 pieces := by
  by_cases hbad : Spoiled E.blksize 0 pieces
  · rw [tagOf_spoiled h hbad]
    simp [hbad]
  · obtain ⟨c', htag, hafter, hlen⟩ := tagOf_unspoiled h hbad
    rw [List.nil_append] at hafter
    rw [htag, ← hlen]
    constructor
    · intro hfinal
      obtain ⟨⟨c₁, tag⟩, hc₁, htag'⟩ := Option.map_eq_some_iff.mp hfinal
      have hlen' := length_final hc₁
      rw [show tag = (cmac E pieces.flatten).take c'.taglen from htag', List.length_take,
        length_cmac] at hlen'
      exact ⟨by omega, hbad⟩
    · rintro ⟨hle, -⟩
      obtain ⟨c₁, hfinal⟩ := final_spec hafter hle
      rw [hfinal]
      rfl

/-! ## Histories -/

/-- The functions that are called on a context. -/
inductive Op where
  | setkey (key : List UInt8)
  | update (data : List UInt8)
  | final
  | reset

def step (F : CipherFamily) (c : Cmac) : Op → Option Cmac
  | .setkey key => setkey F c key
  | .update data => update c data
  | .final => (final c).map Prod.fst
  | .reset => some (reset c)

/-- The key after a call. -/
def nextKey (k : Option (List UInt8)) : Op → Option (List UInt8)
  | .setkey key => some key
  | _ => k

/-- Contexts that are ready for a message: the key was just set for the first time, or the
context was reset after any calls. -/
inductive Ready (F : CipherFamily) (taglen : Nat) (key : List UInt8) : Cmac → Prop
  | fresh {c c' : Cmac} : init (some F) taglen = .ok c → setkey F c key = some c' →
      Ready F taglen key c'
  | again {c c' : Cmac} {ops : List Op} : init (some F) taglen = .ok c →
      ops.foldlM (step F) c = some c' → ops.foldl nextKey none = some key →
      Ready F taglen key (reset c')

/-- What no call changes. -/
structure Kept (F : CipherFamily) (t : Nat) (k : Option (List UInt8)) (c : Cmac) : Prop where
  blksize : c.blksize = F.blksize
  size : F.blksize = 8 ∨ F.blksize = 16
  taglen : c.taglen = t
  keyed : ∀ key, k = some key → Keyed (F.setkey key) c

variable {F : CipherFamily} {t taglen : Nat} {k : Option (List UInt8)} {key : List UInt8}

/-- The length of the tags of a context. -/
def tagSize (F : CipherFamily) (taglen : Nat) : Nat := if taglen ≠ 0 then taglen else F.blksize

theorem init_spec (h : init (some F) taglen = .ok c) :
    Kept F (tagSize F taglen) none c ∧ c.hash = zeros ∧ c.boff = 0 ∧ c.nonzeroLen = false := by
  unfold init at h
  dsimp only at h
  split at h
  · cases h
  · rename_i hsize
    cases h
    exact ⟨⟨rfl, by omega, rfl, fun key hkey => by cases hkey⟩, rfl, rfl, rfl⟩

theorem Kept.of_sameKey (h : Kept F t k c) (hs : SameKey c c') : Kept F t k c' :=
  ⟨by rw [hs.blksize, h.blksize], h.size, by rw [hs.taglen, h.taglen],
    fun key hkey => (h.keyed key hkey).of_sameKey hs⟩

theorem step_kept {op : Op} (h : Kept F t k c) (hstep : step F c op = some c') :
    Kept F t (nextKey k op) c' := by
  cases op with
  | setkey key =>
    obtain ⟨k1, k2, hset, hkeyed⟩ := setkey_spec F h.blksize h.size key
    obtain rfl := Option.some.inj (hset.symm.trans hstep)
    refine ⟨h.blksize, h.size, h.taglen, fun key' hkey' => ?_⟩
    cases hkey'
    exact hkeyed
  | update data => exact h.of_sameKey (update_sameKey hstep)
  | final =>
    obtain ⟨⟨c₁, tag⟩, hfinal, rfl⟩ := Option.map_eq_some_iff.mp hstep
    obtain ⟨w, -, hfinal⟩ := Option.bind_eq_some_iff.mp hfinal
    obtain ⟨c₂, hblock, hfinal⟩ := Option.bind_eq_some_iff.mp hfinal
    obtain ⟨digest, -, hfinal⟩ := Option.bind_eq_some_iff.mp hfinal
    cases hfinal
    have hbuf : SameKey c { c with buf := w } := ⟨rfl, rfl, rfl, rfl, rfl⟩
    exact h.of_sameKey (hbuf.trans (processBlock_sameKey hblock))
  | reset =>
    cases hstep
    exact h.of_sameKey ⟨rfl, rfl, rfl, rfl, rfl⟩

theorem run_kept {ops : List Op} (h : Kept F t k c) (hrun : ops.foldlM (step F) c = some c') :
    Kept F t (ops.foldl nextKey k) c' := by
  induction ops generalizing c k with
  | nil =>
    cases hrun
    exact h
  | cons op ops ih =>
    obtain ⟨c₁, hstep, hrest⟩ := Option.bind_eq_some_iff.mp hrun
    exact ih (step_kept h hstep) hrest

theorem Ready.after (h : Ready F taglen key c) :
    After (F.setkey key) [] c ∧ c.taglen = tagSize F taglen := by
  cases h with
  | fresh hinit hset =>
    obtain ⟨hkept, hhash, hboff, hflag⟩ := init_spec hinit
    obtain ⟨k1, k2, hset', hkeyed⟩ := setkey_spec F hkept.blksize hkept.size key
    obtain rfl := Option.some.inj (hset'.symm.trans hset)
    exact ⟨after_nil hkeyed hhash hboff hflag, hkept.taglen⟩
  | again hinit hrun hkey =>
    have hkept := run_kept (init_spec hinit).1 hrun
    have hkeyed := hkept.keyed key hkey
    refine ⟨after_nil ?_ rfl rfl rfl, hkept.taglen⟩
    exact hkeyed.of_sameKey ⟨rfl, rfl, rfl, rfl, rfl⟩

/-- The tag is the specified one exactly if it is not longer than a block and no call
completes a block of 8 bytes that an earlier one began and ends there. -/
theorem cmac_nist_iff (h : Ready F taglen key c) (pieces : List (List UInt8)) :
    tagOf c pieces = some ((cmac (F.setkey key) pieces.flatten).take (tagSize F taglen)) ↔
      tagSize F taglen ≤ F.blksize ∧ ¬ Spoiled F.blksize 0 pieces := by
  obtain ⟨hafter, htag⟩ := h.after
  rw [← htag, ← F.blksize_setkey key]
  exact tagOf_iff hafter pieces

/-- A cipher with blocks of 8 bytes. -/
def eightBytes : CipherFamily := ⟨8, fun _ => BlockCipher.identity 7, fun _ => rfl⟩

theorem exists_ready_eightBytes : ∃ c, Ready eightBytes 0 [] c := by
  obtain ⟨c, hinit⟩ : ∃ c, init (some eightBytes) 0 = .ok c := ⟨_, rfl⟩
  obtain ⟨k1, k2, hset, -⟩ := setkey_spec eightBytes (init_spec hinit).1.blksize (Or.inl rfl) []
  exact ⟨_, .fresh hinit hset⟩

theorem cmac_nist_iff_two_calls :
    ∃ c, Ready eightBytes 0 [] c ∧ tagOf c [[1, 2], [3, 4, 5, 6, 7, 8, 9]] =
      some ((cmac (BlockCipher.identity 7) [1, 2, 3, 4, 5, 6, 7, 8, 9]).take 8) := by
  obtain ⟨c, hready⟩ := exists_ready_eightBytes
  exact ⟨c, hready, (cmac_nist_iff hready _).mpr ⟨le_rfl, by decide⟩⟩

/-- A message of one block, of which the first call gives one byte: there is no tag. -/
theorem cmac_exact_fill_no_tag :
    ∃ c, Ready eightBytes 0 [] c ∧ tagOf c [[1], [2, 3, 4, 5, 6, 7, 8]] = none ∧
      tagOf c [[1], [2, 3, 4, 5, 6, 7, 8]] ≠
        some ((cmac (BlockCipher.identity 7) [1, 2, 3, 4, 5, 6, 7, 8]).take 8) := by
  obtain ⟨c, hready⟩ := exists_ready_eightBytes
  have hafter : After (BlockCipher.identity 7) [] c := hready.after.1
  have hnone : tagOf c [[1], [2, 3, 4, 5, 6, 7, 8]] = none := tagOf_spoiled hafter (by decide)
  refine ⟨c, hready, hnone, ?_⟩
  rw [hnone]
  exact Option.some_ne_none _ ∘ Eq.symm

end Drew.Mac.Cmac
