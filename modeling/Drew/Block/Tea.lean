import Drew.Block.Feistel
import Drew.Memory.Endian

/-!
# TEA and XTEA

The models of the classes `TEA` and `XTEA`. XTEA chooses the words of the key by its running sum; they are read
where there are any, so that a result shows that the indices were in range.
-/

namespace Drew

open Drew.Memory Drew.Block

/-- The member `m_k`. -/
structure Tea where
  k : Vector UInt32 4

/-- `const uint32_t delta`. -/
def Tea.delta : UInt32 := 0x9e3779b9

/-- The variables of a loop: the two words of the block and the sum. -/
@[ext] structure Tea.Words where
  y : UInt32
  z : UInt32
  sum : UInt32

/-! ## TEA -/

namespace Tea

/-- `SetKeyInternal`. Keys of another length do not fill `m_k`, or do not fit into it. -/
def setKeyInternal (_c : Tea) (key : List UInt8) : Option Tea :=
  if key.length = 16 then some ⟨copyIn word32 .big 4 key⟩ else none

variable (c : Tea)

/-- What is added to `v[0]`. -/
def first (v sum : UInt32) : UInt32 := ((v <<< 4) + c.k.get 0) ^^^ (v + sum) ^^^ ((v >>> 5) + c.k.get 1)

/-- What is added to `v[1]`. -/
def second (v sum : UInt32) : UInt32 := ((v <<< 4) + c.k.get 2) ^^^ (v + sum) ^^^ ((v >>> 5) + c.k.get 3)

def round (x : Words) : Words :=
  let sum := x.sum + delta
  let v0 := x.y + c.first x.z sum
  let v1 := x.z + c.second v0 sum
  ⟨v0, v1, sum⟩

def unround (x : Words) : Words :=
  let v1 := x.z - c.second x.y x.sum
  let v0 := x.y - c.first v1 x.sum
  ⟨v0, v1, x.sum - delta⟩

def encryptPair (v : UInt32 × UInt32) : UInt32 × UInt32 :=
  let x := (List.range 16).foldl (fun x _ => c.round (c.round x)) ⟨v.1, v.2, 0⟩
  (x.y, x.z)

def decryptPair (v : UInt32 × UInt32) : UInt32 × UInt32 :=
  let x := (List.range 16).foldl (fun x _ => c.unround (c.unround x)) ⟨v.1, v.2, delta <<< 5⟩
  (x.y, x.z)

/-- A function of the array `v`, on the bytes of a block. -/
def onBlock (g : UInt32 × UInt32 → UInt32 × UInt32) (block : List UInt8) : List UInt8 :=
  onWords (n := 2) word32 .big (fun v => #v[(g (v.get 0, v.get 1)).1, (g (v.get 0, v.get 1)).2]) block

/-- `Encrypt`. -/
def encrypt (block : List UInt8) : List UInt8 := onBlock c.encryptPair block

/-- `Decrypt`. -/
def decrypt (block : List UInt8) : List UInt8 := onBlock c.decryptPair block

theorem unround_round (x : Words) : c.unround (c.round x) = x := by
  simp only [unround, round, UInt32.add_sub_cancel]

theorem sum_iterate (n : Nat) (x : Words) : (c.round^[n] x).sum = x.sum + UInt32.ofNat n * delta := by
  induction n with
  | zero => simp
  | succ n ih =>
    rw [Function.iterate_succ_apply']
    show (c.round^[n] x).sum + delta = _
    rw [ih, UInt32.ofNat_add, UInt32.add_mul, UInt32.add_assoc]
    congr 2

/-- Both loops make 32 rounds, and decryption starts with the sum that encryption ended with. -/
theorem decryptPair_encryptPair (v : UInt32 × UInt32) : c.decryptPair (c.encryptPair v) = v := by
  have hloop : ∀ (f : Words → Words) (x : Words), (List.range 16).foldl (fun x _ => f (f x)) x = f^[32] x := by
    intro f x
    rw [List.foldl_const, List.length_range]
    exact congrFun (Function.iterate_mul f 2 16).symm x
  have hundo : c.unround^[32] (c.round^[32] ⟨v.1, v.2, 0⟩) = ⟨v.1, v.2, 0⟩ :=
    (Function.LeftInverse.iterate c.unround_round 32) _
  have hproduct : (0 : UInt32) + UInt32.ofNat 32 * delta = delta <<< 5 := by decide
  have hsum := (c.sum_iterate 32 ⟨v.1, v.2, 0⟩).trans hproduct
  have hstart : (⟨(c.round^[32] ⟨v.1, v.2, 0⟩).y, (c.round^[32] ⟨v.1, v.2, 0⟩).z, delta <<< 5⟩ : Words) =
      c.round^[32] ⟨v.1, v.2, 0⟩ := Words.ext rfl rfl hsum.symm
  rw [decryptPair, encryptPair, hloop c.round]
  simp only
  rw [hstart, hloop c.unround, hundo]

end Tea

/-! ## XTEA -/

/-- The members `m_k` and `rounds`. -/
structure Xtea where
  k : Vector UInt32 4
  rounds : UInt64

namespace Xtea

open Tea (Words delta)

/-- `SetKeyInternal`. -/
def setKeyInternal (c : Xtea) (key : List UInt8) : Option Xtea :=
  if key.length = 16 then some { c with k := copyIn word32 .big 4 key } else none

variable (c : Xtea)

/-- `m_k[i & 3]`. -/
def keyAt (i : UInt32) : Option UInt32 := c.k[(i &&& 3).toNat]?

/-- What is added to one word, from the other one. -/
def mixed (v sum k : UInt32) : UInt32 := ((v <<< 4 ^^^ v >>> 5) + v) ^^^ (sum + k)

def round (x : Words) : Option Words := do
  let k ← c.keyAt x.sum
  let y := x.y + mixed x.z x.sum k
  let sum := x.sum + delta
  let k ← c.keyAt (sum >>> 11)
  let z := x.z + mixed y sum k
  some ⟨y, z, sum⟩

def unround (x : Words) : Option Words := do
  let k ← c.keyAt (x.sum >>> 11)
  let z := x.z - mixed x.y x.sum k
  let sum := x.sum - delta
  let k ← c.keyAt sum
  let y := x.y - mixed z sum k
  some ⟨y, z, sum⟩

def encryptPair (v : UInt32 × UInt32) : Option (UInt32 × UInt32) := do
  let x ← (List.range c.rounds.toNat).foldlM (fun x _ => c.round x) ⟨v.1, v.2, 0⟩
  some (x.y, x.z)

/-- The product with the number of rounds has 64 bits. -/
def decryptPair (v : UInt32 × UInt32) : Option (UInt32 × UInt32) := do
  let x ← (List.range c.rounds.toNat).reverse.foldlM (fun x _ => c.unround x)
    ⟨v.1, v.2, (delta.toUInt64 * c.rounds).toUInt32⟩
  some (x.y, x.z)

/-- A step on the array `v`. -/
def onArray (g : UInt32 × UInt32 → Option (UInt32 × UInt32)) (v : Vector UInt32 2) : Option (Vector UInt32 2) := do
  let r ← g (v.get 0, v.get 1)
  some #v[r.1, r.2]

/-- `Encrypt`. -/
def encrypt (block : List UInt8) : Option (List UInt8) := onWordsOption word32 .big (onArray c.encryptPair) block

/-- `Decrypt`. -/
def decrypt (block : List UInt8) : Option (List UInt8) := onWordsOption word32 .big (onArray c.decryptPair) block

theorem exists_keyAt (i : UInt32) : ∃ k, c.keyAt i = some k := by
  have hlt : (i &&& 3).toNat < 4 := by
    rw [UInt32.toNat_and]
    exact Nat.lt_succ_of_le Nat.and_le_right
  exact ⟨_, Vector.getElem?_eq_getElem hlt⟩

theorem round_spec (x : Words) : ∃ y, c.round x = some y ∧ c.unround y = some x ∧ y.sum = x.sum + delta := by
  obtain ⟨k₁, hk₁⟩ := c.exists_keyAt x.sum
  obtain ⟨k₂, hk₂⟩ := c.exists_keyAt ((x.sum + delta) >>> 11)
  let y := x.y + mixed x.z x.sum k₁
  refine ⟨⟨y, x.z + mixed y (x.sum + delta) k₂, x.sum + delta⟩, ?_, ?_, rfl⟩
  · simp only [y, round, hk₁, hk₂, Option.bind_eq_bind, Option.bind_some]
  · simp only [y, unround, hk₁, hk₂, Option.bind_eq_bind, Option.bind_some, UInt32.add_sub_cancel]

/-- The loop of `Encrypt` is undone and ends with a known sum. -/
theorem rounds_spec (n : Nat) (x : Words) :
    ∃ y, (List.range n).foldlM (fun x _ => c.round x) x = some y ∧
      (List.range n).reverse.foldlM (fun x _ => c.unround x) y = some x ∧
      y.sum = x.sum + UInt32.ofNat n * delta := by
  have hundone : Undone (fun x => (List.range n).foldlM (fun x _ => c.round x) x)
      (fun y => (List.range n).reverse.foldlM (fun x _ => c.unround x) y) := by
    apply Undone.loop
    intro _ _ x
    obtain ⟨y, hround, hback, -⟩ := c.round_spec x
    exact ⟨y, hround, hback⟩
  have hsum : ∀ m y, (List.range m).foldlM (fun x _ => c.round x) x = some y →
      y.sum = x.sum + UInt32.ofNat m * delta := by
    intro m
    induction m with
    | zero =>
      intro y hy
      rw [← Option.some.inj hy]
      simp
    | succ m ih =>
      intro y hy
      rw [List.range_succ, List.foldlM_append] at hy
      obtain ⟨z, hz, hy⟩ := Option.bind_eq_some_iff.mp hy
      obtain ⟨y', hround, -, hsum⟩ := c.round_spec z
      have hlast : c.round z = some y := by simpa using hy
      rw [hround] at hlast
      rw [← Option.some.inj hlast, hsum, ih z hz, UInt32.ofNat_add, UInt32.add_mul, UInt32.add_assoc]
      congr 2
  obtain ⟨y, hrun, hback⟩ := hundone x
  exact ⟨y, hrun, hback, hsum n y hrun⟩

theorem sum_eq : (delta.toUInt64 * c.rounds).toUInt32 = 0 + UInt32.ofNat c.rounds.toNat * delta := by
  rw [UInt64.toUInt32_mul, UInt32.toUInt32_toUInt64, UInt32.zero_add, UInt32.mul_comm]
  congr 1

theorem encryptPair_decryptPair (v : UInt32 × UInt32) :
    ∃ w, c.encryptPair v = some w ∧ c.decryptPair w = some v := by
  obtain ⟨y, hrun, hback, hsum⟩ := c.rounds_spec c.rounds.toNat ⟨v.1, v.2, 0⟩
  have hstart : (⟨y.y, y.z, (delta.toUInt64 * c.rounds).toUInt32⟩ : Words) = y :=
    Words.ext rfl rfl (c.sum_eq.trans hsum.symm)
  refine ⟨(y.y, y.z), ?_, ?_⟩
  · rw [encryptPair, hrun]
    rfl
  · rw [decryptPair]
    simp only
    rw [hstart, hback]
    rfl

theorem undone_onArray : Undone (onArray c.encryptPair) (onArray c.decryptPair) := by
  intro v
  obtain ⟨w, hencrypt, hdecrypt⟩ := c.encryptPair_decryptPair (v.get 0, v.get 1)
  refine ⟨#v[w.1, w.2], by rw [onArray, hencrypt]; rfl, ?_⟩
  show (c.decryptPair (w.1, w.2)).bind _ = _
  rw [hdecrypt, Option.bind_some]
  congr 1
  apply Vector.ext
  intro i hi
  match i, hi with
  | 0, _ => rfl
  | 1, _ => rfl

end Xtea

end Drew
