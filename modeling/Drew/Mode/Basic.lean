import Drew.Block.Cipher
import Drew.Memory.BigEndian
import Drew.Stream.Keystream

/-!
# What the modes share

Error numbers, the two function tables of a mode, and the slices of counter blocks from
which the fast functions of CTR and GCM make their keystream.
-/

namespace Drew.Mode

open Drew.Memory Drew.Block Drew.Stream

/-! ## Return values -/

/-- Functions return zero or a size on success, and the negation of one of these numbers
otherwise. -/
def drewErrNotAllowed : Int := 0x10004
def drewErrNotImpl : Int := 0x10005
def drewErrInvalid : Int := 0x10006
def drewErrMoreInfo : Int := 0x10007
def drewErrVerifyFailed : Int := 0x1000b

/-- The table of functions that a mode object points to. -/
inductive Functbl where
  | plain
  | fast
  deriving DecidableEq, Repr

/-- What the buffers of the fast functions are aligned to, and their lengths a multiple of. -/
def fastAlignment : Nat := 16

/-- The same number, under the name that the modes in C use. -/
def modeAlignment : Nat := 16

/-- The size of the slices of a fast function. -/
abbrev sliceSize : Nat := 4096

/-! ## Slices of counter blocks -/

/-- `increment_fast`: the counter as four words. -/
def incrementFast (ctr : Buf UInt32 4) : Option (Buf UInt32 4) := increment 0 3 ctr

/-- `E::Copy` of 16 bytes to four words. -/
def copyToWords {n : Nat} (v : Buf UInt8 n) (off : Nat) : Option (Buf UInt32 4) := do
  let bs ← v.read off 16
  Buf.write (Vector.replicate 4 0) 0 (beWords bs)

/-- `E::Copy` of four words to 16 bytes. -/
def copyFromWords {n : Nat} (v : Buf UInt8 n) (off : Nat) (ws : Buf UInt32 4) :
    Option (Buf UInt8 n) :=
  v.write off (ws.toList.flatMap fun w => beBytes 4 w.toNat)

/-- Write `k` successive counter blocks from `off` on. -/
def fillCounters {n : Nat} : Nat → Nat → Buf UInt8 n → Buf UInt32 4 →
    Option (Buf UInt8 n × Buf UInt32 4)
  | 0, _, tmp, ctr => some (tmp, ctr)
  | k + 1, off, tmp, ctr => do
      let tmp ← copyFromWords tmp off ctr
      let ctr ← incrementFast ctr
      fillCounters k (off + fastAlignment) tmp ctr

theorem flatMap_words_eq (ws : Buf UInt32 4) :
    (ws.toList.flatMap fun w => beBytes 4 w.toNat) = beBytes 16 (wordsVal ws.toList) := by
  have hlen : (ws.toList.flatMap fun w => beBytes 4 w.toNat).length = 16 := by
    simp [List.length_flatMap]
  apply beNat_inj (by simp [hlen])
  have hlt := beNat_lt (ws.toList.flatMap fun w => beBytes 4 w.toNat)
  rw [beNat_flatMap_word, hlen] at hlt
  rw [beNat_beBytes, beNat_flatMap_word, Nat.mod_eq_of_lt hlt]

theorem copyToWords_spec {n off : Nat} {v : Buf UInt8 n} {bs : List UInt8} (h : v.Holds off bs)
    (hbs : bs.length = 16) :
    ∃ ws, copyToWords v off = some ws ∧ wordsVal ws.toList = beNat bs := by
  have hlen : (beWords bs).length = 4 := by rw [length_beWords, hbs]
  have hfit : 0 + (beWords bs).length ≤ 4 := by omega
  obtain ⟨ws, hws⟩ := Buf.exists_write (Vector.replicate 4 0) hfit
  have hread := h.read
  rw [hbs] at hread
  refine ⟨ws, by simp [copyToWords, hread, hws], ?_⟩
  rw [(Buf.holds_write hws).toList hlen, wordsVal_beWords (by omega)]

theorem copyFromWords_spec {n : Nat} (v : Buf UInt8 n) (off : Nat) {ws : Buf UInt32 4} {N : Nat}
    (hoff : off + 16 ≤ n) (hws : wordsVal ws.toList = N % 256 ^ 16) :
    ∃ w, copyFromWords v off ws = some w ∧ v.write off (beBytes 16 N) = some w := by
  have hfit : off + (beBytes 16 N).length ≤ n := by simpa using hoff
  obtain ⟨w, hw⟩ := Buf.exists_write v hfit
  refine ⟨w, ?_, hw⟩
  rw [copyFromWords, flatMap_words_eq, hws, beBytes_mod, hw]

theorem incrementFast_spec {ctr : Buf UInt32 4} {N : Nat}
    (h : wordsVal ctr.toList = N % 256 ^ 16) :
    ∃ ctr', incrementFast ctr = some ctr' ∧ wordsVal ctr'.toList = (N + 1) % 256 ^ 16 := by
  obtain ⟨ctr', hrun, hval⟩ := increment_words ctr
  refine ⟨ctr', hrun, ?_⟩
  rw [hval, h]
  norm_num

/-- The blocks are the numbers from the value of the counter on. -/
theorem fillCounters_spec {n : Nat} (k off : Nat) {N : Nat} {tmp : Buf UInt8 n}
    {ctr : Buf UInt32 4} {xs : List UInt8} (htmp : tmp.Holds 0 xs) (hxs : xs.length = off)
    (hctr : wordsVal ctr.toList = N % 256 ^ 16) (hfit : off + k * 16 ≤ n) :
    ∃ tmp' ctr', fillCounters k off tmp ctr = some (tmp', ctr') ∧
      tmp'.Holds 0 (xs ++ blocks (fun q => beBytes 16 (N + q)) k) ∧
      wordsVal ctr'.toList = (N + k) % 256 ^ 16 := by
  induction k generalizing off N tmp ctr xs with
  | zero => exact ⟨tmp, ctr, rfl, by simpa [blocks] using htmp, hctr⟩
  | succ k ih =>
    obtain ⟨tmp₁, hcopy, hwrite⟩ := copyFromWords_spec tmp off (by omega) hctr
    obtain ⟨ctr₁, hinc, hctr₁⟩ := incrementFast_spec hctr
    have htmp₁ : tmp₁.Holds 0 (xs ++ beBytes 16 N) := by
      refine (htmp.write_of_disjoint hwrite (Or.inr (by omega))).append ?_
      rw [Nat.zero_add, hxs]
      exact Buf.holds_write hwrite
    obtain ⟨tmp₂, ctr₂, hfill, htmp₂, hctr₂⟩ :=
      ih (off + 16) htmp₁ (by simp [hxs]) hctr₁ (by omega)
    refine ⟨tmp₂, ctr₂, ?_, ?_, ?_⟩
    · simp [fillCounters, hcopy, hinc, fastAlignment, hfill]
    · have hblocks : blocks (fun q => beBytes 16 (N + q)) (k + 1) =
          beBytes 16 N ++ blocks (fun q => beBytes 16 (N + 1 + q)) k := by
        rw [Nat.add_comm k, blocks_add, blocks_one, Nat.add_zero]
        simp only [Nat.add_assoc]
      rw [hblocks, ← List.append_assoc]
      exact htmp₂
    · rw [hctr₂, Nat.add_assoc, Nat.add_comm 1]

theorem mapBlocks_blocks {bs : Nat} (f : List UInt8 → List UInt8) {blk : Nat → List UInt8}
    (hblk : ∀ q, (blk q).length = bs) (m : Nat) :
    mapBlocks bs f m (blocks blk m) = blocks (fun q => f (blk q)) m := by
  induction m with
  | zero => simp [blocks]
  | succ m ih =>
    rw [blocks_succ, mapBlocks_append (length_blocks hblk m), ih, mapBlocks_one (hblk m),
      blocks_succ]

/-- A slice of `x` bytes of keystream: its counter blocks are written and enciphered. -/
theorem slice_spec {E : BlockCipher} (hE : E.blksize = 16) {x N : Nat} (hx : 16 ∣ x)
    (hle : x ≤ sliceSize) (tmp : Buf UInt8 sliceSize) {ctr : Buf UInt32 4}
    (hctr : wordsVal ctr.toList = N % 256 ^ 16) :
    ∃ tmp₁ tmp₂ ctr', fillCounters ((x + (fastAlignment - 1)) / fastAlignment) 0 tmp ctr =
        some (tmp₁, ctr') ∧
      E.encryptfast tmp₁ 0 tmp₁ 0 (x / fastAlignment) = some tmp₂ ∧
      tmp₂.Holds 0 (blocks (fun q => E.encrypt (beBytes 16 (N + q))) (x / 16)) ∧
      wordsVal ctr'.toList = (N + x / 16) % 256 ^ 16 := by
  obtain ⟨m, rfl⟩ := hx
  have hdiv : 16 * m / 16 = m := by omega
  have hsteps : (16 * m + (fastAlignment - 1)) / fastAlignment = m := by
    unfold fastAlignment
    omega
  have hlen : ∀ q, (beBytes 16 (N + q)).length = 16 := fun q => length_beBytes _ _
  obtain ⟨tmp₁, ctr', hfill, htmp₁, hctr'⟩ := fillCounters_spec m 0
    (Buf.holds_nil (v := tmp) (Nat.zero_le _)) rfl hctr (by simp at hle ⊢; omega)
  have hfast : E.fastBlocks m = m := by
    rw [BlockCipher.fastBlocks, if_neg (by omega)]
  have hblocks := length_blocks hlen m
  rw [List.nil_append] at htmp₁
  obtain ⟨tmp₂, henc, hwrite⟩ := BlockCipher.encryptfast_spec (E := E) (n := m) tmp₁ 0
    (by rw [hfast, hE, hblocks]) htmp₁ (by rw [hblocks]; simp at hle ⊢; omega)
  rw [hfast, hE, mapBlocks_blocks _ hlen] at hwrite
  refine ⟨tmp₁, tmp₂, ctr', by rw [hsteps]; exact hfill, ?_, ?_, by rw [hdiv, hctr']⟩
  · rw [fastAlignment, hdiv, henc]
  · rw [hdiv]
    exact Buf.holds_write hwrite

end Drew.Mode
