import Drew.Block.Cipher

/-!
# Several blocks in one call

The model of `EncryptFast` and `DecryptFast` of the class `BlockCipher`. Both pointers are indices into
one memory, so the ranges may overlap, and a call of `Encrypt` or `Decrypt` is a parameter of the loops.
-/

namespace Drew.Block

open Drew.Memory

variable {m : Nat}

/-- A call with a pointer for the output and one for the input. -/
abbrev Call (m : Nat) := Buf UInt8 m → Nat → Nat → Option (Buf UInt8 m)

/-- `sizeof(FastBlock)`: the bytes of a block, up to the next multiple of `FAST_ALIGNMENT`. -/
def sizeofFastBlock (bs : Nat) : Nat := (bs + 15) / 16 * 16

/-- Calls at blocks that are `stride` bytes apart. -/
def blockLoop (call : Call m) (stride : Nat) : Nat → Nat → Nat → Buf UInt8 m → Option (Buf UInt8 m)
  | 0, _, _, mem => some mem
  | n + 1, o, i, mem => do
    let mem ← call mem o i
    blockLoop call stride n (o + stride) (i + stride) mem

/-- The loop for blocks of 8 bytes: two calls at each position of the pointers. -/
def pairLoop (call : Call m) (stride : Nat) : Nat → Nat → Nat → Buf UInt8 m → Option (Buf UInt8 m)
  | 0, _, _, mem => some mem
  | n + 1, o, i, mem => do
    let mem ← call mem o i
    let mem ← call mem (o + 8) (i + 8)
    pairLoop call stride n (o + stride) (i + stride) mem

/-- The loop for other sizes: the pointers stay where they are, and `off` grows. -/
def offsetLoop (call : Call m) (bs o i : Nat) : Nat → Nat → Buf UInt8 m → Option (Buf UInt8 m)
  | 0, _, mem => some mem
  | n + 1, off, mem => do
    let mem ← call mem (o + off) (i + off)
    offsetLoop call bs o i n (off + bs) mem

/-- What `EncryptFast` and `DecryptFast` have in common. -/
def cryptFast (bs : Nat) (call : Call m) (mem : Buf UInt8 m) (o i n : Nat) : Option (Buf UInt8 m) :=
  if bs = 8 then pairLoop call (sizeofFastBlock bs) (n / 2) o i mem
  else if bs = 16 then blockLoop call (sizeofFastBlock bs) n o i mem
  else offsetLoop call bs o i n 0 mem

/-- A function of one block as a call. -/
def cryptTo (f : List UInt8 → List UInt8) (bs : Nat) : Call m := fun mem o i => do
  let b ← mem.read i bs
  mem.write o (f b)

namespace BlockCipher

variable (E : BlockCipher)

/-- `EncryptFast`. -/
def encryptFast (mem : Buf UInt8 m) (o i n : Nat) : Option (Buf UInt8 m) :=
  cryptFast E.blksize (cryptTo E.encrypt E.blksize) mem o i n

/-- `DecryptFast`. -/
def decryptFast (mem : Buf UInt8 m) (o i n : Nat) : Option (Buf UInt8 m) :=
  cryptFast E.blksize (cryptTo E.decrypt E.blksize) mem o i n

end BlockCipher

/-! ## Adjacent blocks -/

section Calls

variable (call : Call m)

theorem pairLoop_eq (n o i : Nat) (mem : Buf UInt8 m) :
    pairLoop call 16 n o i mem = blockLoop call 8 (n * 2) o i mem := by
  induction n generalizing o i mem with
  | zero => rw [Nat.zero_mul]; rfl
  | succ n ih =>
    rw [Nat.succ_mul, pairLoop]
    show _ = (call mem o i).bind fun mem =>
      (call mem (o + 8) (i + 8)).bind (blockLoop call 8 (n * 2) (o + 8 + 8) (i + 8 + 8))
    exact congrArg _ (funext fun mem => congrArg _ (funext fun mem => ih (o + 16) (i + 16) mem))

theorem offsetLoop_eq (bs o i n off : Nat) (mem : Buf UInt8 m) :
    offsetLoop call bs o i n off mem = blockLoop call bs n (o + off) (i + off) mem := by
  induction n generalizing off mem with
  | zero => rfl
  | succ n ih =>
    rw [offsetLoop, blockLoop, Nat.add_assoc, Nat.add_assoc]
    exact congrArg _ (funext fun mem => ih (off + bs) mem)

/-- The three loops are calls at adjacent blocks, but an odd block of 8 bytes at the end is left out. -/
theorem cryptFast_eq (bs : Nat) (mem : Buf UInt8 m) (o i n : Nat) :
    cryptFast bs call mem o i n = blockLoop call bs (if bs = 8 then n / 2 * 2 else n) o i mem := by
  unfold cryptFast
  by_cases h8 : bs = 8
  · subst h8
    exact pairLoop_eq call (n / 2) o i mem
  · rw [if_neg h8, if_neg h8]
    by_cases h16 : bs = 16
    · subst h16
      rfl
    · rw [if_neg h16, offsetLoop_eq]
      rfl

theorem cryptFast_eq_calls {bs : Nat} (mem : Buf UInt8 m) (o i : Nat) {n : Nat} (h : 16 ∣ n * bs) :
    cryptFast bs call mem o i n = blockLoop call bs n o i mem := by
  rw [cryptFast_eq]
  by_cases h8 : bs = 8
  · subst h8
    have heven : n / 2 * 2 = n := by omega
    rw [if_pos rfl, heven]
  · rw [if_neg h8]

end Calls

/-! ## Functions of one block -/

section CryptTo

variable {bs : Nat} {f : List UInt8 → List UInt8}

theorem cryptTo_spec (hf : ∀ b, b.length = bs → (f b).length = bs) {mem : Buf UInt8 m} {o i : Nat}
    {b : List UInt8} (hb : b.length = bs) (hin : mem.Holds i b) (hout : o + bs ≤ m) :
    ∃ mem', cryptTo f bs mem o i = some mem' ∧ mem.SameOutside mem' o bs ∧ mem'.Holds o (f b) := by
  obtain ⟨mem', hwrite⟩ := Buf.exists_write_at mem o (f b) (by rw [hf b hb]; exact hout)
  have hread := hin.read
  rw [hb] at hread
  refine ⟨mem', ?_, ?_, Buf.holds_write hwrite⟩
  · simp [cryptTo, hread, hwrite]
  · rw [← hf b hb]
    exact Buf.sameOutside_write hwrite

/-- Blocks are read before they are overwritten if the output does not begin inside of the input. -/
theorem blockLoop_spec (hf : ∀ b, b.length = bs → (f b).length = bs) {n : Nat} {mem : Buf UInt8 m} {o i : Nat}
    (hout : o + n * bs ≤ m) (hin : i + n * bs ≤ m) :
    ∃ mem', blockLoop (cryptTo f bs) bs n o i mem = some mem' ∧ mem.SameOutside mem' o (n * bs) ∧
      (o ≤ i ∨ i + n * bs ≤ o → ∀ xs, xs.length = n * bs → mem.Holds i xs →
        mem'.Holds o (mapBlocks bs f n xs)) := by
  induction n generalizing mem o i with
  | zero =>
    refine ⟨mem, rfl, Buf.SameOutside.refl _ _ _, ?_⟩
    intro _ xs _ _
    exact Buf.holds_nil (by omega)
  | succ n ih =>
    rw [Nat.succ_mul] at hout hin ⊢
    obtain ⟨b, -, hb, hheld⟩ := Buf.exists_read mem i bs (by omega)
    obtain ⟨mem₁, hcall, hsame₁, hfirst⟩ := cryptTo_spec hf hb hheld (show o + bs ≤ m by omega)
    obtain ⟨mem', hrest, hsame, hblocks⟩ := @ih mem₁ (o + bs) (i + bs) (by omega) (by omega)
    refine ⟨mem', ?_, ?_, ?_⟩
    · rw [blockLoop, hcall]
      exact hrest
    · apply Buf.SameOutside.trans (hsame₁.mono le_rfl (by omega))
      exact hsame.mono (by omega) (by omega)
    · intro hplace xs hlen hxs
      obtain ⟨a, ys, rfl, ha⟩ : ∃ a ys, xs = a ++ ys ∧ a.length = bs :=
        ⟨xs.take bs, xs.drop bs, (List.take_append_drop bs xs).symm, by simp; omega⟩
      obtain rfl : a = b := hxs.left.unique hheld (ha.trans hb.symm)
      rw [List.length_append] at hlen
      have hright := hxs.right
      rw [ha] at hright
      -- the first block of the output is not a later one of the input
      have hkept : mem₁.Holds (i + bs) ys := hright.of_sameOutside hsame₁ (by omega)
      have htail := hblocks (by omega) ys (by omega) hkept
      rw [mapBlocks_cons ha]
      apply Buf.Holds.append (hfirst.of_sameOutside hsame (by rw [hf a ha]; omega))
      rwa [hf a ha]

end CryptTo

/-- What a function for `n` blocks has to do. It makes the calls one after the other. Where the ranges are
in the memory it returns, nothing outside of the output has changed, and if the output does not begin
inside of the input, each block of it is the image of the same block of the input. -/
structure Transforms (bs : Nat) (f : List UInt8 → List UInt8) (n : Nat) (mem : Buf UInt8 m) (o i : Nat)
    (r : Option (Buf UInt8 m)) : Prop where
  calls : r = blockLoop (cryptTo f bs) bs n o i mem
  within : o + n * bs ≤ m → i + n * bs ≤ m → ∃ mem', r = some mem' ∧ mem.SameOutside mem' o (n * bs) ∧
    (o ≤ i ∨ i + n * bs ≤ o → ∀ xs, xs.length = n * bs → mem.Holds i xs → mem'.Holds o (mapBlocks bs f n xs))

theorem transforms_of_calls {bs n : Nat} {f : List UInt8 → List UInt8} (hf : ∀ b, b.length = bs → (f b).length = bs)
    {mem : Buf UInt8 m} {o i : Nat} {r : Option (Buf UInt8 m)} (h : r = blockLoop (cryptTo f bs) bs n o i mem) :
    Transforms bs f n mem o i r :=
  ⟨h, fun hout hin => h ▸ blockLoop_spec hf hout hin⟩

namespace BlockCipher

variable (E : BlockCipher) (mem : Buf UInt8 m) (o i : Nat) {n : Nat}

theorem encryptFast_transforms (h : 16 ∣ n * E.blksize) :
    Transforms E.blksize E.encrypt n mem o i (E.encryptFast mem o i n) :=
  transforms_of_calls E.length_encrypt (cryptFast_eq_calls _ mem o i h)

theorem decryptFast_transforms (h : 16 ∣ n * E.blksize) :
    Transforms E.blksize E.decrypt n mem o i (E.decryptFast mem o i n) :=
  transforms_of_calls E.length_decrypt (cryptFast_eq_calls _ mem o i h)

/-- The loops do what the modes expect of them. -/
theorem encryptFast_eq_encryptfast (hout : o + E.fastBlocks n * E.blksize ≤ m) (hin : i + E.fastBlocks n * E.blksize ≤ m)
    (hplace : o ≤ i ∨ i + E.fastBlocks n * E.blksize ≤ o) :
    E.encryptFast mem o i n = E.encryptfast mem o mem i n := by
  obtain ⟨xs, -, hlen, hxs⟩ := Buf.exists_read mem i (E.fastBlocks n * E.blksize) hin
  obtain ⟨mem', hloop, hsame, hblocks⟩ := @blockLoop_spec m E.blksize E.encrypt E.length_encrypt _ mem o i hout hin
  obtain ⟨w, hfast, hwrite⟩ := E.encryptfast_spec mem o hlen hxs (by omega)
  have hheld := hblocks hplace xs hlen hxs
  have hmapped : (mapBlocks E.blksize E.encrypt (E.fastBlocks n) xs).length = E.fastBlocks n * E.blksize :=
    length_mapBlocks E.length_encrypt hlen.ge
  have heq : mem' = w := by
    apply Vector.ext
    intro k hk
    have hget : mem'[k]? = w[k]? := by
      by_cases hrange : o ≤ k ∧ k < o + E.fastBlocks n * E.blksize
      · exact hheld.agree (Buf.holds_write hwrite) hrange.1 (by omega)
      · rw [hsame k (by omega), Buf.sameOutside_write hwrite k (by omega)]
    simpa [hk] using hget
  rw [encryptFast, cryptFast_eq, hfast, ← heq]
  exact hloop

end BlockCipher

end Drew.Block
