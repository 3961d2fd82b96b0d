import Drew.StreamCipher.Words
import Drew.Block.Feistel

/-!
# RC2

The model of the class `RC2`. The table `pitable` is a parameter: nothing that is proved about the cipher depends
on what it holds. Elements of the arrays are read where there are any, so that a result shows that all indices
were in range.
-/

namespace Drew

open Drew.Memory Drew.Block

/-- The member `m_k`. -/
structure Rc2 where
  k : Vector UInt16 64

namespace Rc2

/-- `uint16_t`. -/
def word16 : WordType UInt16 where
  size := 2
  toNat := UInt16.toNat
  ofNat := UInt16.ofNat
  toNat_lt w := w.toNat_lt
  ofNat_toNat _ := UInt16.ofNat_toNat
  toNat_ofNat h := UInt16.toNat_ofNat_of_lt' h

/-! ## The key schedule -/

section Schedule

/-- The array `k`. -/
abbrev Expanded := Vector UInt8 128

def load (k : Expanded) (i : Int) : Option UInt8 := if 0 ≤ i then k[i.toNat]? else none

def store (k : Expanded) (i : Int) (x : UInt8) : Option Expanded :=
  if 0 ≤ i ∧ i < 128 then some (k.setIfInBounds i.toNat x) else none

variable (pitable : Vector UInt8 256)

/-- `pitable[x]`. -/
def pi (x : UInt8) : Option UInt8 := pitable[x.toNat]?

/-- The body of the first loop. -/
def fill (len : Nat) (k : Expanded) (i : Nat) : Option Expanded := do
  let a ← load k (i - 1)
  let b ← load k (i - len)
  let x ← pi pitable (a + b)
  store k i x

/-- The body of the second loop. -/
def refill (t8 : Nat) (k : Expanded) (i : Nat) : Option Expanded := do
  let a ← load k (i + 1)
  let b ← load k (i + t8)
  let x ← pi pitable (a ^^^ b)
  store k i x

/-- `SetKeyInternal`. The elements of `k` behind the key are set before they are read. -/
def setKeyInternal (_c : Rc2) (key : List UInt8) : Option Rc2 :=
  if 128 < key.length then none
  else do
    let len := key.length
    let k : Expanded := Vector.ofFn fun i => key.getD i 0
    let k ← (List.range' len (128 - len)).foldlM (fill pitable len) k
    let x ← load k (128 - len)
    let x ← pi pitable (x &&& 0xff)
    let k ← store k (128 - len) x
    let k ← (List.range (128 - len)).reverse.foldlM (refill pitable len) k
    some ⟨copyIn word16 .little 64 k.toList⟩

theorem exists_load (k : Expanded) {i : Int} (h0 : 0 ≤ i) (h : i < 128) : ∃ x, load k i = some x := by
  have hlt : i.toNat < 128 := by omega
  exact ⟨_, by rw [load, if_pos h0, Vector.getElem?_eq_getElem hlt]⟩

theorem exists_store (k : Expanded) (x : UInt8) {i : Int} (h0 : 0 ≤ i) (h : i < 128) :
    ∃ k', store k i x = some k' :=
  ⟨_, if_pos ⟨h0, h⟩⟩

theorem exists_pi (x : UInt8) : ∃ y, pi pitable x = some y :=
  ⟨_, Vector.getElem?_eq_getElem x.toNat_lt⟩

theorem exists_foldlM {f : Expanded → Nat → Option Expanded} {l : List Nat}
    (h : ∀ i ∈ l, ∀ k, ∃ k', f k i = some k') (k : Expanded) : ∃ k', l.foldlM f k = some k' := by
  induction l generalizing k with
  | nil => exact ⟨k, rfl⟩
  | cons i l ih =>
    obtain ⟨k₁, hk₁⟩ := h i List.mem_cons_self k
    obtain ⟨k₂, hk₂⟩ := ih (fun j hj => h j (List.mem_cons_of_mem i hj)) k₁
    exact ⟨k₂, by rw [List.foldlM_cons, hk₁]; exact hk₂⟩

theorem exists_fill {len : Nat} (hlen : 0 < len) {i : Nat} (hi : len ≤ i) (hlt : i < 128) (k : Expanded) :
    ∃ k', fill pitable len k i = some k' := by
  obtain ⟨a, ha⟩ := exists_load k (i := i - 1) (by omega) (by omega)
  obtain ⟨b, hb⟩ := exists_load k (i := i - len) (by omega) (by omega)
  obtain ⟨x, hx⟩ := exists_pi pitable (a + b)
  obtain ⟨k', hk'⟩ := exists_store k x (i := i) (by omega) (by omega)
  exact ⟨k', by simp only [fill, ha, hb, hx, Option.bind_eq_bind, Option.bind_some, hk']⟩

theorem exists_refill {t8 : Nat} (ht8 : 0 < t8) {i : Nat} (hi : i < 128 - t8) (k : Expanded) :
    ∃ k', refill pitable t8 k i = some k' := by
  obtain ⟨a, ha⟩ := exists_load k (i := i + 1) (by omega) (by omega)
  obtain ⟨b, hb⟩ := exists_load k (i := i + t8) (by omega) (by omega)
  obtain ⟨x, hx⟩ := exists_pi pitable (a ^^^ b)
  obtain ⟨k', hk'⟩ := exists_store k x (i := i) (by omega) (by omega)
  exact ⟨k', by simp only [refill, ha, hb, hx, Option.bind_eq_bind, Option.bind_some, hk']⟩

/-- All indices of the key schedule are in range. -/
theorem exists_setKeyInternal (c : Rc2) {key : List UInt8} (hpos : 0 < key.length) (hmax : key.length ≤ 128) :
    ∃ c', setKeyInternal pitable c key = some c' := by
  obtain ⟨k₁, hk₁⟩ := exists_foldlM (l := List.range' key.length (128 - key.length))
    (fun i hi k => exists_fill pitable hpos (List.mem_range'_1.mp hi).1
      (by have := (List.mem_range'_1.mp hi).2; omega) k) (Vector.ofFn fun i : Fin 128 => key.getD i 0)
  obtain ⟨x, hx⟩ := exists_load k₁ (i := 128 - key.length) (by omega) (by omega)
  obtain ⟨y, hy⟩ := exists_pi pitable (x &&& 0xff)
  obtain ⟨k₂, hk₂⟩ := exists_store k₁ y (i := 128 - key.length) (by omega) (by omega)
  obtain ⟨k₃, hk₃⟩ := exists_foldlM (l := (List.range (128 - key.length)).reverse)
    (fun i hi k => exists_refill pitable hpos (List.mem_range.mp (List.mem_reverse.mp hi)) k) k₂
  refine ⟨⟨copyIn word16 .little 64 k₃.toList⟩, ?_⟩
  rw [setKeyInternal, if_neg (Nat.not_lt.mpr hmax)]
  simp only [Option.bind_eq_bind, hk₁, hx, hy, hk₂, hk₃, Option.bind_some]

end Schedule

/-! ## Encryption and decryption -/

/-- The array `r`. -/
abbrev Regs := Vector UInt16 4

/-- `RotateLeft` and `RotateRight`. -/
def rotateLeft (x s : UInt16) : UInt16 := x <<< s ||| x >>> (16 - s)

def rotateRight (x s : UInt16) : UInt16 := x >>> s ||| x <<< (16 - s)

/-- `R(i, x)`. -/
def at4 (r : Regs) (i : Fin 4) (x : Nat) : UInt16 := r.get (Fin.ofNat 4 (i + x))

section Cipher

variable (c : Rc2)

/-- What `Mix` adds, and `RMix` subtracts. -/
def addend (r : Regs) (i : Fin 4) (k : UInt16) : UInt16 :=
  k + (at4 r i 3 &&& at4 r i 2) + (~~~at4 r i 3 &&& at4 r i 1)

def mix (i : Fin 4) (j : Nat) (s : UInt16) (r : Regs) : Option Regs := do
  let k ← c.k[j]?
  some (r.setIfInBounds i (rotateLeft (r.get i + addend r i k) s))

def mixRound (r : Regs) (j : Nat) : Option Regs :=
  (((c.mix 0 j 1 r).bind (c.mix 1 (j + 1) 2)).bind (c.mix 2 (j + 2) 3)).bind (c.mix 3 (j + 3) 5)

def mash (i : Fin 4) (r : Regs) : Option Regs := do
  let k ← c.k[(at4 r i 3 &&& 63).toNat]?
  some (r.setIfInBounds i (r.get i + k))

def mashRound (r : Regs) : Option Regs := (((c.mash 0 r).bind (c.mash 1)).bind (c.mash 2)).bind (c.mash 3)

def encryptRegs (r : Regs) : Option Regs :=
  (((([0, 4, 8, 12, 16].foldlM c.mixRound r).bind c.mashRound).bind fun r =>
    [20, 24, 28, 32, 36, 40].foldlM c.mixRound r).bind c.mashRound).bind fun r =>
    [44, 48, 52, 56, 60].foldlM c.mixRound r

def rmix (i : Fin 4) (j : Nat) (s : UInt16) (r : Regs) : Option Regs := do
  let k ← c.k[j]?
  let r := r.setIfInBounds i (rotateRight (r.get i) s)
  some (r.setIfInBounds i (r.get i - addend r i k))

def rmixRound (r : Regs) (j : Nat) : Option Regs :=
  (c.rmix 3 (j + 3) 5 r).bind fun r => (c.rmix 2 (j + 2) 3 r).bind fun r =>
    (c.rmix 1 (j + 1) 2 r).bind fun r => c.rmix 0 j 1 r

def rmash (i : Fin 4) (r : Regs) : Option Regs := do
  let k ← c.k[(at4 r i 3 &&& 63).toNat]?
  some (r.setIfInBounds i (r.get i - k))

def rmashRound (r : Regs) : Option Regs :=
  (c.rmash 3 r).bind fun r => (c.rmash 2 r).bind fun r => (c.rmash 1 r).bind fun r => c.rmash 0 r

def decryptRegs (r : Regs) : Option Regs :=
  ([60, 56, 52, 48, 44].foldlM c.rmixRound r).bind fun r => (c.rmashRound r).bind fun r =>
    ([40, 36, 32, 28, 24, 20].foldlM c.rmixRound r).bind fun r => (c.rmashRound r).bind fun r =>
      [16, 12, 8, 4, 0].foldlM c.rmixRound r

/-- `Encrypt`. -/
def encrypt (block : List UInt8) : Option (List UInt8) := onWordsOption word16 .little c.encryptRegs block

/-- `Decrypt`. -/
def decrypt (block : List UInt8) : Option (List UInt8) := onWordsOption word16 .little c.decryptRegs block

end Cipher

/-! ## Decryption inverts encryption -/

section Inverse

variable (c : Rc2)

theorem rotateRight_rotateLeft (x : UInt16) {s : UInt16} (h0 : 0 < s.toNat) (h : s.toNat < 16) :
    rotateRight (rotateLeft x s) s = x := by
  have hs : (s.toBitVec % 16).toNat = s.toNat := Nat.mod_eq_of_lt h
  have hsub : (16 - s).toNat = 16 - s.toNat := by
    rw [UInt16.toNat_sub_of_le _ _ (UInt16.le_iff_toNat_le.mpr h.le)]
    rfl
  have hs' : ((16 - s).toBitVec % 16).toNat = 16 - s.toNat := by
    rw [BitVec.toNat_umod, UInt16.toNat_toBitVec, hsub]
    exact Nat.mod_eq_of_lt (show 16 - s.toNat < 16 by omega)
  have hleft : (rotateLeft x s).toBitVec = x.toBitVec.rotateLeft s.toNat := by
    rw [rotateLeft, UInt16.toBitVec_or, UInt16.toBitVec_shiftLeft, UInt16.toBitVec_shiftRight,
      BitVec.shiftLeft_eq', BitVec.ushiftRight_eq', hs, hs', BitVec.rotateLeft_def, Nat.mod_eq_of_lt h]
  have hback := bitVec_rotateRight_rotateLeft h x.toBitVec
  rw [BitVec.rotateRight_def, Nat.mod_eq_of_lt h] at hback
  apply UInt16.eq_of_toBitVec_eq
  rw [rotateRight, UInt16.toBitVec_or, UInt16.toBitVec_shiftLeft, UInt16.toBitVec_shiftRight,
    BitVec.shiftLeft_eq', BitVec.ushiftRight_eq', hs, hs', hleft, hback]

theorem get_store_self (r : Regs) (i : Fin 4) (x : UInt16) : (r.setIfInBounds i x).get i = x :=
  Vector.getElem_setIfInBounds_self i.isLt

theorem store_store (r : Regs) (i : Fin 4) (x y : UInt16) :
    (r.setIfInBounds i x).setIfInBounds i y = r.setIfInBounds i y := by
  ext j hj
  rw [Vector.getElem_setIfInBounds hj, Vector.getElem_setIfInBounds hj, Vector.getElem_setIfInBounds hj]
  split_ifs
  · rfl
  · rfl

theorem store_get (r : Regs) (i : Fin 4) : r.setIfInBounds i (r.get i) = r := by
  ext j hj
  rw [Vector.getElem_setIfInBounds hj]
  split_ifs with hij
  · subst hij
    rfl
  · rfl

/-- The other elements. -/
theorem at4_store (r : Regs) (i : Fin 4) (y : UInt16) {x : Nat} (h0 : 0 < x) (h : x < 4) :
    at4 (r.setIfInBounds i y) i x = at4 r i x := by
  have hne : i.val ≠ (i.val + x) % 4 := by
    have := i.isLt
    omega
  exact Vector.getElem_setIfInBounds_ne _ hne

theorem addend_store (r : Regs) (i : Fin 4) (y k : UInt16) : addend (r.setIfInBounds i y) i k = addend r i k := by
  have h3 := at4_store r i y (x := 3) (by decide) (by decide)
  have h2 := at4_store r i y (x := 2) (by decide) (by decide)
  have h1 := at4_store r i y (x := 1) (by decide) (by decide)
  rw [addend, addend, h3, h2, h1]

theorem mix_rmix (i : Fin 4) {j : Nat} (hj : j < 64) {s : UInt16} (h0 : 0 < s.toNat) (h : s.toNat < 16) :
    Undone (c.mix i j s) (c.rmix i j s) := by
  intro r
  have hk : c.k[j]? = some c.k[j] := Vector.getElem?_eq_getElem hj
  refine ⟨_, by rw [mix, hk]; rfl, ?_⟩
  rw [rmix, hk]
  simp only [Option.bind_eq_bind, Option.bind_some, get_store_self, rotateRight_rotateLeft _ h0 h, addend_store,
    UInt16.add_sub_cancel, store_store, store_get]

theorem mash_rmash (i : Fin 4) : Undone (c.mash i) (c.rmash i) := by
  intro r
  have hlt : (at4 r i 3 &&& 63).toNat < 64 := by
    rw [UInt16.toNat_and]
    exact Nat.lt_succ_of_le Nat.and_le_right
  have hk : c.k[(at4 r i 3 &&& 63).toNat]? = some c.k[(at4 r i 3 &&& 63).toNat] :=
    Vector.getElem?_eq_getElem hlt
  refine ⟨_, by rw [mash, hk]; rfl, ?_⟩
  have hsame := at4_store r i (r.get i + c.k[(at4 r i 3 &&& 63).toNat]) (x := 3) (by decide) (by decide)
  rw [rmash, hsame, hk]
  simp only [Option.bind_eq_bind, Option.bind_some, get_store_self, UInt16.add_sub_cancel, store_store,
    store_get]

theorem mixRound_rmixRound {j : Nat} (hj : j + 3 < 64) : Undone (fun r => c.mixRound r j) (fun r => c.rmixRound r j) := by
  have h0 := c.mix_rmix 0 (j := j) (by omega) (s := 1) (by decide) (by decide)
  have h1 := c.mix_rmix 1 (j := j + 1) (by omega) (s := 2) (by decide) (by decide)
  have h2 := c.mix_rmix 2 (j := j + 2) (by omega) (s := 3) (by decide) (by decide)
  have h3 := c.mix_rmix 3 hj (s := 5) (by decide) (by decide)
  exact ((h0.comp h1).comp h2).comp h3

theorem mashRound_rmashRound : Undone c.mashRound c.rmashRound :=
  (((c.mash_rmash 0).comp (c.mash_rmash 1)).comp (c.mash_rmash 2)).comp (c.mash_rmash 3)

theorem encryptRegs_decryptRegs : Undone c.encryptRegs c.decryptRegs := by
  have hloop : ∀ l : List Nat, (∀ j ∈ l, j + 3 < 64) →
      Undone (fun r => l.foldlM c.mixRound r) (fun r => l.reverse.foldlM c.rmixRound r) :=
    fun l hl => Undone.loop fun j hj => c.mixRound_rmixRound (hl j hj)
  have h0 := hloop [0, 4, 8, 12, 16] (by decide)
  have h20 := hloop [20, 24, 28, 32, 36, 40] (by decide)
  have h44 := hloop [44, 48, 52, 56, 60] (by decide)
  exact (((h0.comp c.mashRound_rmashRound).comp h20).comp c.mashRound_rmashRound).comp h44

end Inverse

end Rc2

end Drew
