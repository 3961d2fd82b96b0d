import Drew.Block.Bytes
import Drew.Block.Aes.Tables

/-!
# Round keys of four words

The expanded key is an array of words. For decryption it is taken as one of round keys, which are put in
opposite order by exchanging them from both ends.
-/

namespace Drew.Aes

/-- A round key, or a block. -/
abbrev Quad := Vector UInt32 4

def xorQuad (v w : Quad) : Quad := Vector.zipWith (· ^^^ ·) v w

section Arrays

variable {α : Type} {n : Nat} [NeZero n]

/-- `rk[k]`. -/
def entryAt (rk : Vector α n) (k : Nat) : α := rk.get (Fin.ofNat n k)

/-- `rk[k] = x`. -/
def put (rk : Vector α n) (k : Nat) (x : α) : Vector α n := rk.setIfInBounds k x

theorem entryAt_put (rk : Vector α n) {k m : Nat} (x : α) (hm : m < n) :
    entryAt (put rk k x) m = if k = m then x else entryAt rk m := by
  have hval : (Fin.ofNat n m).val = m := Nat.mod_eq_of_lt hm
  show (rk.setIfInBounds k x)[(Fin.ofNat n m).val] = _
  by_cases h : k = m
  · rw [if_pos h, Vector.getElem_setIfInBounds, if_pos (h.trans hval.symm)]
  · rw [if_neg h, Vector.getElem_setIfInBounds_ne _ (by omega)]
    rfl

/-- `std::swap` of two entries. -/
def swap (rk : Vector α n) (i j : Nat) : Vector α n := put (put rk i (entryAt rk j)) j (entryAt rk i)

/-- The loop `for (i = 0, j = last; i < j; i++, j--)`. -/
def swapEnds (last : Nat) (rk : Vector α n) : Vector α n :=
  (List.range ((last + 1) / 2)).foldl (fun rk i => swap rk i (last - i)) rk

theorem entryAt_swapEnds_loop {last : Nat} (hlast : last < n) (rk : Vector α n) {m : Nat}
    (hm : m ≤ (last + 1) / 2) {i : Nat} (hi : i ≤ last) :
    entryAt ((List.range m).foldl (fun rk i => swap rk i (last - i)) rk) i =
      if i < m ∨ last - m < i then entryAt rk (last - i) else entryAt rk i := by
  induction m generalizing i with
  | zero => rw [if_neg (by omega)]; rfl
  | succ m ih =>
    have hlow := ih (by omega) (show m ≤ last by omega)
    have hhigh := ih (by omega) (show last - m ≤ last by omega)
    rw [if_neg (by omega)] at hlow hhigh
    rw [List.range_succ, List.foldl_append, List.foldl_cons, List.foldl_nil, swap, entryAt_put _ _ (by omega),
      entryAt_put _ _ (by omega), hlow, hhigh, ih (by omega) hi]
    by_cases h : last - m = i
    · rw [if_pos h, if_pos (by omega)]
      exact congrArg _ (by omega)
    · rw [if_neg h]
      by_cases h' : m = i
      · rw [if_pos h', if_pos (by omega), h']
      · rw [if_neg h']
        by_cases hin : i < m ∨ last - m < i
        · rw [if_pos hin, if_pos (by omega)]
        · rw [if_neg hin, if_neg (by omega)]

/-- The entries in opposite order. -/
theorem entryAt_swapEnds {last : Nat} (hlast : last < n) (rk : Vector α n) {i : Nat} (hi : i ≤ last) :
    entryAt (swapEnds last rk) i = entryAt rk (last - i) := by
  rw [swapEnds, entryAt_swapEnds_loop hlast rk (Nat.le_refl _) hi]
  by_cases h : i < (last + 1) / 2 ∨ last - (last + 1) / 2 < i
  · rw [if_pos h]
  · rw [if_neg h]
    exact congrArg _ (by omega)

/-- The entries from 1 on below `m`, changed by `f`. -/
def mapBetween (f : α → α) (m : Nat) (rk : Vector α n) : Vector α n :=
  (List.range (m - 1)).foldl (fun rk i => put rk (i + 1) (f (entryAt rk (i + 1)))) rk

theorem entryAt_mapBetween (f : α → α) {m : Nat} (hm : m ≤ n) (rk : Vector α n) {i : Nat} (hi : i < n) :
    entryAt (mapBetween f m rk) i = if 0 < i ∧ i < m then f (entryAt rk i) else entryAt rk i := by
  have hloop : ∀ k ≤ m - 1, ∀ i < n,
      entryAt ((List.range k).foldl (fun rk i => put rk (i + 1) (f (entryAt rk (i + 1)))) rk) i =
        if 0 < i ∧ i ≤ k then f (entryAt rk i) else entryAt rk i := by
    intro k
    induction k with
    | zero =>
      intro _ i _
      rw [if_neg (by omega)]
      rfl
    | succ k ih =>
      intro hk i hi
      have hnext := ih (by omega) (k + 1) (by omega)
      rw [if_neg (by omega)] at hnext
      rw [List.range_succ, List.foldl_append, List.foldl_cons, List.foldl_nil, entryAt_put _ _ hi, hnext,
        ih (by omega) i hi]
      by_cases h : k + 1 = i
      · rw [if_pos h, if_pos (by omega), h]
      · rw [if_neg h]
        by_cases hin : 0 < i ∧ i ≤ k
        · rw [if_pos hin, if_pos (by omega)]
        · rw [if_neg hin, if_neg (by omega)]
  rw [mapBetween, hloop (m - 1) (Nat.le_refl _) i hi]
  by_cases h : 0 < i ∧ i < m
  · rw [if_pos h, if_pos (by omega)]
  · rw [if_neg h, if_neg (by omega)]

end Arrays

section Words

variable {n : Nat} [NeZero n]

/-- `rk[k] = rk[a] ^ rk[b]`. -/
def putXor (rk : Vector UInt32 n) (k a b : Nat) : Vector UInt32 n :=
  put rk k (entryAt rk a ^^^ entryAt rk b)

/-- The second to the fourth word of a pass that expands a key of `nk` words at `o`. -/
def threeWords (nk o : Nat) (rk : Vector UInt32 n) : Vector UInt32 n :=
  let rk := putXor rk (o + nk + 1) (o + 1) (o + nk)
  let rk := putXor rk (o + nk + 2) (o + 2) (o + nk + 1)
  putXor rk (o + nk + 3) (o + 3) (o + nk + 2)

/-- Four words of an array, from `4 * i` on. -/
def quadAt (rk : Vector UInt32 n) (i : Nat) : Quad :=
  Vector.ofFn fun j => entryAt rk (4 * i + j)

end Words

end Drew.Aes

/-!
## AES with tables

The model of the class `AES`. The members `m_rk` and `m_rkd` have 72 words, of which the rounds use the
first four for each round key.
-/

namespace Drew

open Drew.Memory Drew.Block

/-- The members. The constructor leaves them as they are. -/
structure Aes where
  nr : Nat
  nri : Nat
  rk : Vector UInt32 72
  rkd : Vector Aes.Quad 18

namespace Aes

/-! ## The key schedule -/

/-- The bytes of a word, substituted and moved up by one place. -/
def subRotated (temp : UInt32) : UInt32 :=
  (te4.entry (getByte temp 2) &&& 0xff000000) ^^^ (te4.entry (getByte temp 1) &&& 0x00ff0000) ^^^
    (te4.entry (getByte temp 0) &&& 0x0000ff00) ^^^ (te4.entry (getByte temp 3) &&& 0x000000ff)

/-- The bytes of a word, substituted. -/
def subWord (temp : UInt32) : UInt32 :=
  (te4.entry (getByte temp 3) &&& 0xff000000) ^^^ (te4.entry (getByte temp 2) &&& 0x00ff0000) ^^^
    (te4.entry (getByte temp 1) &&& 0x0000ff00) ^^^ (te4.entry (getByte temp 0) &&& 0x000000ff)

/-- `rk[o + nk]`, and the three words after it. -/
def fourWords (nk o i : Nat) (rk : Vector UInt32 72) : Vector UInt32 72 :=
  threeWords nk o (put rk (o + nk)
    (entryAt rk o ^^^ subRotated (entryAt rk (o + (nk - 1))) ^^^ rcon.getD i 0))

/-- The pass `i` for a key of 16 bytes. -/
def pass128 (rk : Vector UInt32 72) (i : Nat) : Vector UInt32 72 := fourWords 4 (4 * i) i rk

/-- The pass `i` for a key of 24 bytes. The last one ends after four words. -/
def pass192 (rk : Vector UInt32 72) (i : Nat) : Vector UInt32 72 :=
  let o := 6 * i
  let rk := fourWords 6 o i rk
  if i + 1 = 8 then rk
  else
    let rk := putXor rk (o + 10) (o + 4) (o + 9)
    putXor rk (o + 11) (o + 5) (o + 10)

/-- The pass `i` for a key of 32 bytes. -/
def pass256 (rk : Vector UInt32 72) (i : Nat) : Vector UInt32 72 :=
  let o := 8 * i
  let rk := fourWords 8 o i rk
  if i + 1 = 7 then rk
  else
    let rk := put rk (o + 12) (entryAt rk (o + 4) ^^^ subWord (entryAt rk (o + 11)))
    let rk := putXor rk (o + 13) (o + 5) (o + 12)
    let rk := putXor rk (o + 14) (o + 6) (o + 13)
    putXor rk (o + 15) (o + 7) (o + 14)

/-- The words of the key. -/
def loadKey (key : List UInt8) (rk : Vector UInt32 72) : Vector UInt32 72 :=
  (List.range (key.length / 4)).foldl
    (fun rk j => put rk j (convert word32 .big ((key.drop (4 * j)).take 4))) rk

/-- `SetKeyEncrypt`. -/
def setKeyEncrypt (key : List UInt8) (rk : Vector UInt32 72) : Vector UInt32 72 :=
  let rk := loadKey key rk
  if key.length = 16 then (List.range 10).foldl pass128 rk
  else if key.length = 24 then (List.range 8).foldl pass192 rk
  else (List.range 7).foldl pass256 rk

/-- The inverse of the mixing, through `Te4`, which is undone in `Td0` to `Td3`. -/
def unmixWord (x : UInt32) : UInt32 :=
  td0.entry (te4.entry (getByte x 3)).toUInt8 ^^^ td1.entry (te4.entry (getByte x 2)).toUInt8 ^^^
    td2.entry (te4.entry (getByte x 1)).toUInt8 ^^^ td3.entry (te4.entry (getByte x 0)).toUInt8

/-- `SetKeyDecrypt`. -/
def setKeyDecrypt (nr : Nat) (rk : Vector UInt32 72) : Vector Quad 18 :=
  mapBetween (Vector.map unmixWord) nr (swapEnds nr (Vector.ofFn fun i => quadAt rk i))

/-- `SetKeyInternal`. Keys of other lengths are refused. -/
def setKeyInternal (c : Aes) (key : List UInt8) : Option Aes :=
  if key.length = 16 ∨ key.length = 24 ∨ key.length = 32 then
    let nr := 6 + max 4 (key.length / 4)
    let rk := setKeyEncrypt key c.rk
    some { nr, nri := (nr - 10) / 2, rk, rkd := setKeyDecrypt nr rk }
  else none

/-! ## Encryption and decryption -/

def encryptWord (s0 s1 s2 s3 rk : UInt32) : UInt32 :=
  te0.entry (getByte s0 3) ^^^ te1.entry (getByte s1 2) ^^^ te2.entry (getByte s2 1) ^^^ te3.entry (getByte s3 0) ^^^ rk

/-- `EncryptRound`. -/
def encryptRound (s rk : Quad) : Quad :=
  #v[encryptWord (s.get 0) (s.get 1) (s.get 2) (s.get 3) (rk.get 0),
    encryptWord (s.get 1) (s.get 2) (s.get 3) (s.get 0) (rk.get 1),
    encryptWord (s.get 2) (s.get 3) (s.get 0) (s.get 1) (rk.get 2),
    encryptWord (s.get 3) (s.get 0) (s.get 1) (s.get 2) (rk.get 3)]

def decryptWord (s0 s1 s2 s3 rk : UInt32) : UInt32 :=
  td0.entry (getByte s0 3) ^^^ td1.entry (getByte s1 2) ^^^ td2.entry (getByte s2 1) ^^^ td3.entry (getByte s3 0) ^^^ rk

/-- `DecryptRound`. -/
def decryptRound (s rk : Quad) : Quad :=
  #v[decryptWord (s.get 0) (s.get 3) (s.get 2) (s.get 1) (rk.get 0),
    decryptWord (s.get 1) (s.get 0) (s.get 3) (s.get 2) (rk.get 1),
    decryptWord (s.get 2) (s.get 1) (s.get 0) (s.get 3) (rk.get 2),
    decryptWord (s.get 3) (s.get 2) (s.get 1) (s.get 0) (rk.get 3)]

/-- A word of the last round, with the table `Te4` or `Td4`. -/
def lastWord (box : WordTable) (t0 t1 t2 t3 rk : UInt32) : UInt32 :=
  (box.entry (getByte t0 3) &&& 0xff000000) ^^^ (box.entry (getByte t1 2) &&& 0x00ff0000) ^^^
    (box.entry (getByte t2 1) &&& 0x0000ff00) ^^^ (box.entry (getByte t3 0) &&& 0x000000ff) ^^^ rk

def encryptLast (t rk : Quad) : Quad :=
  #v[lastWord te4 (t.get 0) (t.get 1) (t.get 2) (t.get 3) (rk.get 0),
    lastWord te4 (t.get 1) (t.get 2) (t.get 3) (t.get 0) (rk.get 1),
    lastWord te4 (t.get 2) (t.get 3) (t.get 0) (t.get 1) (rk.get 2),
    lastWord te4 (t.get 3) (t.get 0) (t.get 1) (t.get 2) (rk.get 3)]

def decryptLast (t rk : Quad) : Quad :=
  #v[lastWord td4 (t.get 0) (t.get 3) (t.get 2) (t.get 1) (rk.get 0),
    lastWord td4 (t.get 1) (t.get 0) (t.get 3) (t.get 2) (rk.get 1),
    lastWord td4 (t.get 2) (t.get 1) (t.get 0) (t.get 3) (rk.get 2),
    lastWord td4 (t.get 3) (t.get 2) (t.get 1) (t.get 0) (rk.get 3)]

/-- The rounds before the last one, from the `switch` on `m_nri`. -/
def fullRounds (nri : Nat) : Nat :=
  match nri % 4 with
  | 0 => 9
  | 1 => 11
  | _ => 13

/-- What `Encrypt` and `Decrypt` have in common: the round keys `k` in turn. -/
def crypt (full last : Quad → Quad → Quad) (n : Nat) (k : Nat → Quad) (b : List UInt8) : List UInt8 :=
  let s := xorQuad (copyIn word32 .big 4 b) (k 0)
  let t := (List.range n).foldl (fun s i => full s (k (i + 1))) s
  copyOut word32 .big (last t (k (n + 1)))

/-- `Encrypt`. -/
def encrypt (c : Aes) (b : List UInt8) : List UInt8 :=
  crypt encryptRound encryptLast (fullRounds c.nri) (quadAt c.rk) b

/-- `Decrypt`. -/
def decrypt (c : Aes) (b : List UInt8) : List UInt8 :=
  crypt decryptRound decryptLast (fullRounds c.nri) (entryAt c.rkd) b

end Aes

end Drew
