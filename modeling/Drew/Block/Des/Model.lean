import Drew.Memory.Endian
import Drew.Block.Recurrence
import Drew.StreamCipher.Words
import Drew.Block.Rounds
import Drew.Block.Feistel

/-!
# DES and Triple DES

The model of the classes `DES` and `TripleDES`. The table `Spbox` is a parameter: nothing that is proved about
the ciphers depends on what it holds.
-/

namespace Drew

open Drew.Memory Drew.StreamCipher Drew.Block

/-- The members `m_k` and `m_kd`. -/
structure Des where
  k : Vector UInt32 32
  kd : Vector UInt32 32

namespace Des

/-- `static const uint32_t Spbox[8][64]`. -/
abbrev Boxes := Fin 8 → UInt32 → UInt32

/-! ## The key schedule -/

/-- `static const uint8_t pc1[]`. -/
def pc1 : Vector Nat 56 :=
  #v[57, 49, 41, 33, 25, 17, 9, 1, 58, 50, 42, 34, 26, 18,
    10, 2, 59, 51, 43, 35, 27, 19, 11, 3, 60, 52, 44, 36,
    63, 55, 47, 39, 31, 23, 15, 7, 62, 54, 46, 38, 30, 22,
    14, 6, 61, 53, 45, 37, 29, 21, 13, 5, 28, 20, 12, 4]

/-- `static const uint8_t totrot[]`. -/
def totrot : Vector Nat 16 := #v[1, 2, 4, 6, 8, 10, 12, 14, 15, 17, 19, 21, 23, 25, 27, 28]

/-- `static const uint8_t pc2[]`. -/
def pc2 : Vector Nat 48 :=
  #v[14, 17, 11, 24, 1, 5, 3, 28, 15, 6, 21, 10,
    23, 19, 12, 4, 26, 8, 16, 7, 27, 20, 13, 2,
    41, 52, 31, 37, 47, 55, 30, 40, 51, 45, 33, 48,
    44, 49, 39, 56, 34, 53, 46, 42, 50, 36, 29, 32]

/-- `static const int bytebit[]`. -/
def bytebit : Vector UInt8 8 := #v[0x80, 0x40, 0x20, 0x10, 0x08, 0x04, 0x02, 0x01]

/-- The array `pc1m`. -/
def pc1m (key : List UInt8) (j : Nat) : Bool :=
  let l := wordAt pc1 j - 1
  key.getD (l / 8) 0 &&& wordAt bytebit (l % 8) != 0

/-- The array `pcr` of a round. -/
def pcr (key : List UInt8) (i j : Nat) : Bool :=
  let l := j + wordAt totrot i
  pc1m key (if l < (if j < 28 then 28 else 56) then l else l - 28)

/-- The array `ks` of a round. -/
def ks (key : List UInt8) (i : Nat) : Vector UInt8 8 :=
  (List.range 48).foldl (fun ks j =>
    if pcr key i (wordAt pc2 j - 1) then ks.setIfInBounds (j / 6) (wordAt ks (j / 6) ||| wordAt bytebit (j % 6) >>> 2)
    else ks) (Vector.replicate 8 0)

/-- Bytes of `ks` in a word. -/
def keyWord (ks : Vector UInt8 8) (n : Nat) : UInt32 :=
  (wordAt ks n).toUInt32 <<< 24 ||| (wordAt ks (n + 2)).toUInt32 <<< 16 ||| (wordAt ks (n + 4)).toUInt32 <<< 8 |||
    (wordAt ks (n + 6)).toUInt32

/-- The words `m_k[2*i]` and `m_k[2*i+1]`. -/
def encryptKeys (key : List UInt8) : Vector UInt32 32 :=
  Vector.ofFn fun n => keyWord (ks key (n / 2)) (n % 2)

/-- The last loop, which exchanges the pairs of words. -/
def decryptKeys (k : Vector UInt32 32) : Vector UInt32 32 :=
  (List.range 8).foldl (fun kd n =>
    let i := 2 * n
    let kd := (kd.setIfInBounds i (wordAt kd (30 - i))).setIfInBounds (30 - i) (wordAt kd i)
    (kd.setIfInBounds (i + 1) (wordAt kd (31 - i))).setIfInBounds (31 - i) (wordAt kd (i + 1))) k

/-- `SetKeyInternal`. It reads eight bytes of the key, whatever its length is said to be. -/
def setKeyInternal (_c : Des) (key : List UInt8) : Option Des :=
  if key.length < 8 then none
  else
    let k := encryptKeys key
    some ⟨k, decryptKeys k⟩

/-! ## Encryption -/

/-- `x[0]` and `x[1]`. -/
abbrev Halves := UInt32 × UInt32

/-- The bits of the mask where the halves differ are exchanged, by way of `work`. -/
def exchange (mask : UInt32) (x : Halves) : Halves :=
  let work := (x.1 ^^^ x.2) &&& mask
  (x.1 ^^^ work, x.2 ^^^ work)

def onLeft (g : UInt32 → UInt32) (x : Halves) : Halves := (g x.1, x.2)

def onRight (g : UInt32 → UInt32) (x : Halves) : Halves := (x.1, g x.2)

/-- `IPERM`. -/
def iperm (x : Halves) : Halves :=
  let x := onRight (rotateLeft · 4) x
  let x := onRight (rotateRight · 20) (exchange 0xf0f0f0f0 x)
  let x := onRight (rotateRight · 18) (exchange 0xffff0000 x)
  let x := onRight (rotateRight · 6) (exchange 0x33333333 x)
  let x := onRight (rotateLeft · 9) (exchange 0x00ff00ff x)
  onLeft (rotateLeft · 1) (exchange 0xaaaaaaaa x)

/-- `FPERM`. -/
def fperm (x : Halves) : Halves :=
  let x := onRight (rotateRight · 1) x
  let x := onLeft (rotateRight · 9) (exchange 0xaaaaaaaa x)
  let x := onLeft (rotateLeft · 6) (exchange 0x00ff00ff x)
  let x := onLeft (rotateLeft · 18) (exchange 0x33333333 x)
  let x := onLeft (rotateLeft · 20) (exchange 0xffff0000 x)
  onLeft (rotateRight · 4) (exchange 0xf0f0f0f0 x)

section Cipher

variable (s : Boxes)

/-- What a round combines one half with: eight entries of the table, at bits of the other half. -/
def entries (k0 k1 r : UInt32) : UInt32 :=
  let work := rotateRight r 4 ^^^ k0
  let f := s 6 (work &&& 0x3f) ^^^ s 4 (work >>> 8 &&& 0x3f) ^^^ s 2 (work >>> 16 &&& 0x3f) ^^^
    s 0 (work >>> 24 &&& 0x3f)
  let work := r ^^^ k1
  f ^^^ (s 7 (work &&& 0x3f) ^^^ s 5 (work >>> 8 &&& 0x3f) ^^^ s 3 (work >>> 16 &&& 0x3f) ^^^
    s 1 (work >>> 24 &&& 0x3f))

/-- The body of the loop of `ProcessBlock`. -/
def twoRounds (k : Vector UInt32 32) (x : Halves) (i : Nat) : Halves :=
  let l := x.1 ^^^ entries s (wordAt k (4 * i)) (wordAt k (4 * i + 1)) x.2
  let r := x.2 ^^^ entries s (wordAt k (4 * i + 2)) (wordAt k (4 * i + 3)) l
  (l, r)

/-- `ProcessBlock`. -/
def processBlock (k : Vector UInt32 32) (x : Halves) : Halves := (List.range 8).foldl (twoRounds s k) x

/-- A function of the array `x`, on the bytes of a block. -/
def onBlock (g : Halves → Halves) (block : List UInt8) : List UInt8 :=
  onWords (n := 2) word32 .big (fun v =>
    let r := g (v.get 0, v.get 1)
    #v[r.1, r.2]) block

variable (c : Des)

def encryptHalves (x : Halves) : Halves := (fperm (processBlock s c.k (iperm x))).swap

def decryptHalves (x : Halves) : Halves := (fperm (processBlock s c.kd (iperm x))).swap

/-- `Encrypt`. -/
def encrypt (block : List UInt8) : List UInt8 := onBlock (c.encryptHalves s) block

/-- `Decrypt`. -/
def decrypt (block : List UInt8) : List UInt8 := onBlock (c.decryptHalves s) block

end Cipher

end Des

/-- The members `m_des1`, `m_des2` and `m_des3`. -/
structure TripleDes where
  des1 : Des
  des2 : Des
  des3 : Des

namespace TripleDes

open Des

/-- `SetKeyInternal`. -/
def setKeyInternal (c : TripleDes) (key : List UInt8) : Option TripleDes := do
  let des1 ← c.des1.setKeyInternal (key.take 8)
  let des2 ← c.des2.setKeyInternal ((key.drop 8).take 8)
  let des3 ← c.des3.setKeyInternal ((key.drop (if key.length = 24 then 16 else 0)).take 8)
  some ⟨des1, des2, des3⟩

section Cipher

variable (s : Boxes)

/-- `ProcessBlock` with `x[1]` in the place of `x[0]`. -/
def processSwapped (k : Vector UInt32 32) (x : Halves) : Halves := (processBlock s k x.swap).swap

variable (c : TripleDes)

def encryptHalves (x : Halves) : Halves :=
  let x := iperm x
  let x := processBlock s c.des1.k x
  let x := processSwapped s c.des2.kd x
  let x := processBlock s c.des3.k x
  (fperm x).swap

def decryptHalves (x : Halves) : Halves :=
  let x := iperm x
  let x := processBlock s c.des3.kd x
  let x := processSwapped s c.des2.k x
  let x := processBlock s c.des1.kd x
  (fperm x).swap

/-- `Encrypt`. -/
def encrypt (block : List UInt8) : List UInt8 := onBlock (c.encryptHalves s) block

/-- `Decrypt`. -/
def decrypt (block : List UInt8) : List UInt8 := onBlock (c.decryptHalves s) block

end Cipher

end TripleDes

end Drew

/-!
## The permutations of DES

`FPERM` with the halves exchanged undoes `IPERM`, and the reversed schedule undoes the rounds. Between the three
parts of Triple DES the permutations and the exchanges therefore cancel.
-/

namespace Drew.Des

open Drew.Memory Drew.StreamCipher Drew.Block

/-! ## The permutations -/

@[simp] theorem swap_onLeft (g : UInt32 → UInt32) (x : Halves) : (onLeft g x).swap = onRight g x.swap := rfl

@[simp] theorem swap_onRight (g : UInt32 → UInt32) (x : Halves) : (onRight g x).swap = onLeft g x.swap := rfl

@[simp] theorem swap_exchange (mask : UInt32) (x : Halves) : (exchange mask x).swap = exchange mask x.swap := by
  simp only [exchange, Prod.swap, UInt32.xor_comm x.1 x.2]

@[simp] theorem exchange_exchange (mask : UInt32) (x : Halves) : exchange mask (exchange mask x) = x := by
  have hdiff : x.1 ^^^ (x.1 ^^^ x.2) &&& mask ^^^ (x.2 ^^^ (x.1 ^^^ x.2) &&& mask) = x.1 ^^^ x.2 := by
    rw [UInt32.xor_assoc, UInt32.xor_comm _ (x.2 ^^^ _), UInt32.xor_assoc, UInt32.xor_self, UInt32.xor_zero]
  simp only [exchange, hdiff, xor32_cancel_right]

theorem onLeft_onLeft {g h : UInt32 → UInt32} (hinv : ∀ w, g (h w) = w) (x : Halves) : onLeft g (onLeft h x) = x :=
  Prod.ext (hinv x.1) rfl

theorem onRight_onRight {g h : UInt32 → UInt32} (hinv : ∀ w, g (h w) = w) (x : Halves) :
    onRight g (onRight h x) = x :=
  Prod.ext rfl (hinv x.2)

/-- `FPERM` undoes `IPERM` when it is given the halves the other way around. -/
theorem fperm_swap_iperm (x : Halves) : fperm (iperm x).swap = x.swap := by
  have hleft (n : UInt32) (h0 : 0 < n.toNat) (h : n.toNat < 32) (w : UInt32) :
      rotateRight (rotateLeft w n) n = w := rotateRight_rotateLeft w h0 h
  have hright (n : UInt32) (h0 : 0 < n.toNat) (h : n.toNat < 32) (w : UInt32) :
      rotateLeft (rotateRight w n) n = w := rotateLeft_rotateRight w h0 h
  simp only [iperm, fperm, swap_onLeft, swap_onRight, swap_exchange]
  rw [onRight_onRight (hleft 1 (by decide) (by decide)), exchange_exchange,
    onLeft_onLeft (hleft 9 (by decide) (by decide)), exchange_exchange,
    onLeft_onLeft (hright 6 (by decide) (by decide)), exchange_exchange,
    onLeft_onLeft (hright 18 (by decide) (by decide)), exchange_exchange,
    onLeft_onLeft (hright 20 (by decide) (by decide)), exchange_exchange,
    onLeft_onLeft (hleft 4 (by decide) (by decide))]

/-- The permutation at the end of a cipher and the one at the beginning of the next exchange the halves. -/
theorem iperm_swap_fperm (x : Halves) : iperm (fperm x).swap = x.swap := by
  have hback : ∀ y : Halves, fperm ((iperm y.swap).swap) = y := fun y => fperm_swap_iperm y.swap
  have hboth := undo_both (f := fun y : Halves => (iperm y.swap).swap) (g := fperm) hback x
  exact congrArg Prod.swap hboth

/-! ## The rounds -/

/-- The function of a round. -/
def roundFunction (s : Boxes) (k : Vector UInt32 32) (n : Nat) (r : UInt32) : UInt32 :=
  entries s (wordAt k (2 * n)) (wordAt k (2 * n + 1)) r

theorem processBlock_eq (s : Boxes) (k : Vector UInt32 32) (x : Halves) :
    processBlock s k x = Feistel.rounds (· ^^^ ·) (roundFunction s k) 16 x := by
  have hpasses := foldl_range_mul (fun x n => Feistel.round (· ^^^ ·) (roundFunction s k n) x) 2 8 x
  refine Eq.trans ?_ hpasses.symm
  apply List.foldl_ext
  intro y i _
  have hindex : 2 * (2 * i) = 4 * i := by omega
  have hindex' : 2 * (2 * i + 1) = 4 * i + 2 := by omega
  show twoRounds s k y i = Feistel.round (· ^^^ ·) (roundFunction s k (2 * i + 1))
    (Feistel.round (· ^^^ ·) (roundFunction s k (2 * i + 0)) y)
  simp only [twoRounds, Feistel.round, roundFunction, Nat.add_zero, hindex, hindex']

/-! ## The schedule backwards -/

section Keys

/-- Where the element at `n` comes from when those at `i` and `j` are exchanged. -/
def source (i j n : Nat) : Nat := if n = j then i else if n = i then j else n

theorem wordAt_exchanged (v : Vector UInt32 32) (i j : Nat) {n : Nat} (hn : n < 32) :
    wordAt ((v.setIfInBounds i (wordAt v j)).setIfInBounds j (wordAt v i)) n = wordAt v (source i j n) := by
  rw [wordAt_store _ _ hn, wordAt_store _ _ hn, source]
  split_ifs
  · rfl
  · rfl
  · rfl

/-- Where a pass of the loop takes an element from. -/
def passSource (m n : Nat) : Nat := source (2 * m) (30 - 2 * m) (source (2 * m + 1) (31 - 2 * m) n)

theorem source_lt {i j n : Nat} (hi : i < 32) (hj : j < 32) (hn : n < 32) : source i j n < 32 := by
  unfold source
  split_ifs
  · exact hi
  · exact hj
  · exact hn

theorem wordAt_decryptKeys (k : Vector UInt32 32) {n : Nat} (hn : n < 32) :
    wordAt (decryptKeys k) n = wordAt k ((List.range 8).foldr passSource n) := by
  have hpasses : ∀ (l : List Nat), (∀ m ∈ l, m < 8) → ∀ v : Vector UInt32 32, l.foldr passSource n < 32 ∧
      wordAt (l.foldl (fun kd m =>
        let i := 2 * m
        let kd := (kd.setIfInBounds i (wordAt kd (30 - i))).setIfInBounds (30 - i) (wordAt kd i)
        (kd.setIfInBounds (i + 1) (wordAt kd (31 - i))).setIfInBounds (31 - i) (wordAt kd (i + 1))) v) n =
      wordAt v (l.foldr passSource n) := by
    intro l
    induction l with
    | nil => exact fun _ v => ⟨hn, rfl⟩
    | cons m l ih =>
      intro hl v
      have hm : m < 8 := hl m List.mem_cons_self
      obtain ⟨hlt, hword⟩ := ih (fun j hj => hl j (List.mem_cons_of_mem m hj)) _
      have hsecond : source (2 * m + 1) (31 - 2 * m) (l.foldr passSource n) < 32 :=
        source_lt (by omega) (by omega) hlt
      refine ⟨source_lt (by omega) (by omega) hsecond, ?_⟩
      rw [List.foldl_cons, hword, wordAt_exchanged _ _ _ hlt, wordAt_exchanged _ _ _ hsecond]
      rfl
  exact (hpasses (List.range 8) (fun m hm => List.mem_range.mp hm) k).2

theorem foldr_passSource : ∀ n : Fin 32, (List.range 8).foldr passSource n = 30 - 2 * (n / 2) + n % 2 := by
  decide

variable (s : Boxes) (k : Vector UInt32 32)

theorem roundFunction_decryptKeys {n : Nat} (hn : n < 16) :
    roundFunction s (decryptKeys k) n = roundFunction s k (15 - n) := by
  have hsource := foldr_passSource
  have heven := wordAt_decryptKeys k (show 2 * n < 32 by omega)
  have hodd := wordAt_decryptKeys k (show 2 * n + 1 < 32 by omega)
  rw [hsource ⟨2 * n, by omega⟩] at heven
  rw [hsource ⟨2 * n + 1, by omega⟩] at hodd
  simp only [show 30 - 2 * (2 * n / 2) + 2 * n % 2 = 2 * (15 - n) by omega] at heven
  simp only [show 30 - 2 * ((2 * n + 1) / 2) + (2 * n + 1) % 2 = 2 * (15 - n) + 1 by omega] at hodd
  funext r
  rw [roundFunction, roundFunction, heven, hodd]

/-- The reversed schedule, with the halves exchanged, undoes the rounds. -/
theorem processBlock_decryptKeys (x : Halves) :
    processBlock s (decryptKeys k) (processBlock s k x).swap = x.swap := by
  rw [processBlock_eq, processBlock_eq]
  apply Feistel.rounds_reverse xor32_cancel_right
  intro n hn
  exact roundFunction_decryptKeys s k hn

/-- The other way around. -/
theorem processBlock_of_decryptKeys (x : Halves) :
    processBlock s k (processBlock s (decryptKeys k) x).swap = x.swap := by
  have hback : ∀ y : Halves, (processBlock s (decryptKeys k) (processBlock s k y).swap).swap = y := fun y =>
    congrArg Prod.swap (processBlock_decryptKeys s k y)
  have hboth := undo_both (f := fun y : Halves => (processBlock s k y).swap)
    (g := fun y => (processBlock s (decryptKeys k) y).swap) hback x
  exact congrArg Prod.swap hboth

end Keys

end Drew.Des
