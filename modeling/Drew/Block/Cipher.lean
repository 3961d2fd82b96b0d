import Drew.Memory.Buffer

/-!
# Block ciphers as the modes use them

A keyed block cipher is a pair of functions on blocks of `blksize` bytes. What a mode
needs from `drew_block_t` is the block size, `encrypt` and `decrypt` on one block, and
`encryptfast` and `decryptfast`, which handle several adjacent blocks. The last two take
the blocks of eight bytes in pairs, so an odd block at the end is left out.

The file also has the helper `xor_aligned`, which combines whole groups of 16 bytes.
-/

namespace Drew.Block

open Drew.Memory

structure BlockCipher where
  blksize : Nat
  encrypt : List UInt8 → List UInt8
  decrypt : List UInt8 → List UInt8
  blksize_pos : 0 < blksize
  length_encrypt : ∀ b, b.length = blksize → (encrypt b).length = blksize
  length_decrypt : ∀ b, b.length = blksize → (decrypt b).length = blksize

/-- Decryption inverts encryption. -/
def BlockCipher.Inverts (E : BlockCipher) : Prop :=
  ∀ b, b.length = E.blksize → E.decrypt (E.encrypt b) = b

theorem BlockCipher.Inverts.inj {E : BlockCipher} (h : E.Inverts) {a b : List UInt8}
    (ha : a.length = E.blksize) (hb : b.length = E.blksize) (he : E.encrypt a = E.encrypt b) :
    a = b := by
  rw [← h a ha, he, h b hb]

/-- The cipher that leaves every block of `n + 1` bytes as it is. -/
def BlockCipher.identity (n : Nat) : BlockCipher where
  blksize := n + 1
  encrypt := id
  decrypt := id
  blksize_pos := Nat.succ_pos n
  length_encrypt _ h := h
  length_decrypt _ h := h

theorem BlockCipher.identity_inverts (n : Nat) : (BlockCipher.identity n).Inverts := fun _ _ => rfl

/-- A cipher before its key is set. -/
structure CipherFamily where
  blksize : Nat
  setkey : List UInt8 → BlockCipher
  blksize_setkey : ∀ key, (setkey key).blksize = blksize

/-! ## Several blocks -/

/-- Apply a function to `n` adjacent blocks. -/
def mapBlocks (bs : Nat) (f : List UInt8 → List UInt8) : Nat → List UInt8 → List UInt8
  | 0, _ => []
  | n + 1, xs => f (xs.take bs) ++ mapBlocks bs f n (xs.drop bs)

section Blocks

variable {bs : Nat} {f : List UInt8 → List UInt8}

@[simp] theorem mapBlocks_zero (xs : List UInt8) : mapBlocks bs f 0 xs = [] := rfl

theorem mapBlocks_cons {b : List UInt8} (hb : b.length = bs) (n : Nat) (xs : List UInt8) :
    mapBlocks bs f (n + 1) (b ++ xs) = f b ++ mapBlocks bs f n xs := by
  subst hb
  simp [mapBlocks]

theorem mapBlocks_one {b : List UInt8} (hb : b.length = bs) : mapBlocks bs f 1 b = f b := by
  have h := mapBlocks_cons (f := f) hb 0 []
  simpa using h

theorem length_mapBlocks (hf : ∀ b, b.length = bs → (f b).length = bs) {n : Nat}
    {xs : List UInt8} (h : n * bs ≤ xs.length) : (mapBlocks bs f n xs).length = n * bs := by
  induction n generalizing xs with
  | zero => simp
  | succ n ih =>
    rw [Nat.add_mul, Nat.one_mul] at h
    rw [mapBlocks, List.length_append, hf _ (by simp; omega), ih (by simp; omega), Nat.add_mul,
      Nat.one_mul, Nat.add_comm]

theorem mapBlocks_append {n m : Nat} {xs : List UInt8} (h : xs.length = n * bs)
    (ys : List UInt8) :
    mapBlocks bs f (n + m) (xs ++ ys) = mapBlocks bs f n xs ++ mapBlocks bs f m ys := by
  induction n generalizing xs with
  | zero =>
    have hnil : xs = [] := List.eq_nil_of_length_eq_zero (by simpa using h)
    simp [hnil]
  | succ n ih =>
    rw [Nat.add_mul, Nat.one_mul] at h
    obtain ⟨b, zs, rfl, hb⟩ : ∃ b zs, xs = b ++ zs ∧ b.length = bs :=
      ⟨xs.take bs, xs.drop bs, (List.take_append_drop bs xs).symm, by simp; omega⟩
    rw [List.length_append, hb] at h
    rw [show n + 1 + m = (n + m) + 1 by omega, List.append_assoc, mapBlocks_cons hb,
      mapBlocks_cons hb, ih (by omega), List.append_assoc]

theorem mapBlocks_two {a b : List UInt8} (ha : a.length = bs) (hb : b.length = bs) :
    mapBlocks bs f 2 (a ++ b) = f a ++ f b := by
  rw [mapBlocks_cons ha, mapBlocks_one hb]

end Blocks

namespace BlockCipher

variable (E : BlockCipher)

/-- How many of `n` blocks the `fast` functions handle. -/
def fastBlocks (n : Nat) : Nat := if E.blksize = 8 then n / 2 * 2 else n

section Calls

variable {p q : Nat}

/-- One block is read at `inp + i` and its encryption written at `out + o`. -/
def encryptTo (out : Buf UInt8 p) (o : Nat) (inp : Buf UInt8 q) (i : Nat) : Option (Buf UInt8 p) := do
  let b ← inp.read i E.blksize
  out.write o (E.encrypt b)

/-- Adjacent blocks one after the other, also where input and output are the same object. -/
def encryptfast (out : Buf UInt8 p) (o : Nat) (inp : Buf UInt8 q) (i n : Nat) :
    Option (Buf UInt8 p) := do
  let bs ← inp.read i (E.fastBlocks n * E.blksize)
  out.write o (mapBlocks E.blksize E.encrypt (E.fastBlocks n) bs)

variable {E}

theorem encryptTo_spec (out : Buf UInt8 p) (o : Nat) {inp : Buf UInt8 q} {i : Nat}
    {b : List UInt8} (hb : b.length = E.blksize) (h : inp.Holds i b) (hout : o + E.blksize ≤ p) :
    ∃ w, E.encryptTo out o inp i = some w ∧ out.write o (E.encrypt b) = some w := by
  have hfit : o + (E.encrypt b).length ≤ p := by rw [E.length_encrypt b hb]; exact hout
  obtain ⟨w, hw⟩ := Buf.exists_write out hfit
  have hread := h.read
  rw [hb] at hread
  exact ⟨w, by simp [encryptTo, hread, hw], hw⟩

theorem encryptfast_spec (out : Buf UInt8 p) (o : Nat) {inp : Buf UInt8 q} {i n : Nat}
    {bs : List UInt8} (hbs : bs.length = E.fastBlocks n * E.blksize) (h : inp.Holds i bs)
    (hout : o + bs.length ≤ p) :
    ∃ w, E.encryptfast out o inp i n = some w ∧
      out.write o (mapBlocks E.blksize E.encrypt (E.fastBlocks n) bs) = some w := by
  have hfit : o + (mapBlocks E.blksize E.encrypt (E.fastBlocks n) bs).length ≤ p := by
    rw [length_mapBlocks E.length_encrypt hbs.ge, ← hbs]
    exact hout
  obtain ⟨w, hw⟩ := Buf.exists_write out hfit
  have hread := h.read
  rw [hbs] at hread
  exact ⟨w, by simp [encryptfast, hread, hw], hw⟩

end Calls

end BlockCipher

/-! ## Combining bytes -/

theorem xor_byte_cancel (a b : UInt8) : a ^^^ (a ^^^ b) = b := by
  rw [← UInt8.xor_assoc, UInt8.xor_self, UInt8.zero_xor]

theorem xor_byte_inj {a b x : UInt8} (h : a ^^^ x = b ^^^ x) : a = b := by
  rw [← xor_byte_cancel x a, ← xor_byte_cancel x b, UInt8.xor_comm x a, UInt8.xor_comm x b, h]

/-- Two texts combined byte by byte. -/
def xorBytes (xs ys : List UInt8) : List UInt8 := List.zipWith (· ^^^ ·) xs ys

@[simp] theorem length_xorBytes (xs ys : List UInt8) :
    (xorBytes xs ys).length = min xs.length ys.length := by
  simp [xorBytes]

theorem xorBytes_append {xs xs' ys ys' : List UInt8} (h : xs.length = ys.length) :
    xorBytes (xs ++ xs') (ys ++ ys') = xorBytes xs ys ++ xorBytes xs' ys' :=
  List.zipWith_append h

theorem xorBytes_comm (xs ys : List UInt8) : xorBytes xs ys = xorBytes ys xs :=
  List.zipWith_comm_of_comm fun x y => UInt8.xor_comm x y

theorem xorBytes_cancel {xs ys : List UInt8} (h : xs.length = ys.length) :
    xorBytes xs (xorBytes xs ys) = ys := by
  induction xs generalizing ys with
  | nil => simp [xorBytes, List.eq_nil_of_length_eq_zero h.symm]
  | cons x xs ih =>
    cases ys with
    | nil => simp at h
    | cons y ys =>
      have hxs : xorBytes xs (xorBytes xs ys) = ys := ih (by simpa using h)
      simp only [xorBytes, List.zipWith_cons_cons] at hxs ⊢
      rw [hxs, xor_byte_cancel]

theorem xorBytes_left_inj {xs ys zs : List UInt8} (hx : xs.length = zs.length)
    (hy : ys.length = zs.length) (h : xorBytes xs zs = xorBytes ys zs) : xs = ys := by
  rw [← xorBytes_cancel hx.symm, ← xorBytes_cancel hy.symm, xorBytes_comm zs xs,
    xorBytes_comm zs ys, h]

section Aligned

variable {p q r : Nat}

/-- `out = in ^ x` on the whole groups of 16 bytes among the first `len`. -/
def xorAligned (out : Buf UInt8 p) (o : Nat) (inp : Buf UInt8 q) (i : Nat) (x : Buf UInt8 r)
    (k len : Nat) : Option (Buf UInt8 p) := do
  let xs ← inp.read i (len / 16 * 16)
  let ys ← x.read k (len / 16 * 16)
  out.write o (xorBytes xs ys)

theorem xorAligned_spec (out : Buf UInt8 p) (o : Nat) {inp : Buf UInt8 q} {i : Nat}
    {x : Buf UInt8 r} {k len : Nat} {xs ys : List UInt8} (hlen : 16 ∣ len)
    (hxs : xs.length = len) (hys : ys.length = len) (hin : inp.Holds i xs) (hx : x.Holds k ys)
    (hout : o + len ≤ p) :
    ∃ w, xorAligned out o inp i x k len = some w ∧ out.write o (xorBytes xs ys) = some w := by
  have hfit : o + (xorBytes xs ys).length ≤ p := by
    rw [length_xorBytes]
    omega
  obtain ⟨w, hw⟩ := Buf.exists_write out hfit
  have hin' := hin.read
  have hx' := hx.read
  rw [hxs] at hin'
  rw [hys] at hx'
  exact ⟨w, by simp [xorAligned, Nat.div_mul_cancel hlen, hin', hx', hw], hw⟩

/-- Reading more than an object has is undefined. -/
theorem xorAligned_none (out : Buf UInt8 p) (o : Nat) {inp : Buf UInt8 q} {i : Nat}
    {x : Buf UInt8 r} {k len : Nat} (h : q < i + len / 16 * 16) :
    xorAligned out o inp i x k len = none := by
  have hread : inp.read i (len / 16 * 16) = none := by
    rw [Buf.read, if_neg (by omega)]
  simp [xorAligned, hread]

end Aligned

end Drew.Block
