import Drew.Block.Bytes
import Drew.Block.Rounds
import Drew.Block.Feistel
import Drew.Block.Recurrence

/-!
# SEED

The model of the class `SEED`. The tables `ss0` to `ss3` are a parameter: nothing that is proved about the cipher
depends on what they hold.
-/

namespace Drew

open Drew.Memory Drew.StreamCipher Drew.Block

/-- The member `m_k`. -/
structure Seed where
  k : Vector UInt64 16

namespace Seed

/-- `ss0` to `ss3`. -/
abbrev Boxes := Fin 4 → UInt8 → UInt32

/-- Two words in one. -/
def join (hi lo : UInt32) : UInt64 := hi.toUInt64 <<< 32 ||| lo.toUInt64

section Functions

variable (ss : Boxes)

/-- `g`. -/
def g (x : UInt32) : UInt32 :=
  ss 0 (getByte x 0) ^^^ ss 1 (getByte x 1) ^^^ ss 2 (getByte x 2) ^^^ ss 3 (getByte x 3)

/-- `f`. -/
def f (k r : UInt64) : UInt64 :=
  let r0 := (r >>> 32).toUInt32
  let r1 := r.toUInt32
  let k0 := (k >>> 32).toUInt32
  let k1 := k.toUInt32
  let aa := r0 ^^^ k0 ^^^ r1 ^^^ k1
  let a0 := r0 ^^^ k0
  let ga := g ss aa
  let g0 := ga + a0
  let r0p := g ss (g ss g0 + ga) + g ss g0
  let r1p := g ss (g ss g0 + ga)
  join r0p r1p

/-- `GenerateSubkey`. -/
def generateSubkey (k : Vector UInt32 4) (kci : UInt32) : UInt64 :=
  let ki0 := g ss (k.get 0 + k.get 2 - kci)
  let ki1 := g ss (k.get 1 - k.get 3 + kci)
  join ki0 ki1

/-- What `OddKey` does to `k`. -/
def turnOdd (k : Vector UInt32 4) : Vector UInt32 4 :=
  let sk := join (k.get 0) (k.get 1)
  let sk := sk >>> 8 ||| sk <<< 56
  #v[(sk >>> 32).toUInt32, sk.toUInt32, k.get 2, k.get 3]

/-- What `EvenKey` does to `k`. -/
def turnEven (k : Vector UInt32 4) : Vector UInt32 4 :=
  let sk := join (k.get 2) (k.get 3)
  let sk := sk <<< 8 ||| sk >>> 56
  #v[k.get 0, k.get 1, (sk >>> 32).toUInt32, sk.toUInt32]

/-- The constants of `SetKeyInternal`. -/
def constants : Vector UInt32 16 :=
  #v[0x9e3779b9, 0x3c6ef373, 0x78dde6e6, 0xf1bbcdcc, 0xe3779b99, 0xc6ef3733, 0x8dde6e67, 0x1bbcdccf,
    0x3779b99e, 0x6ef3733c, 0xdde6e678, 0xbbcdccf1, 0x779b99e3, 0xef3733c6, 0xde6e678d, 0xbcdccf1b]

/-- The next subkey, by `OddKey` and `EvenKey` in turn. -/
def nextKey (st : Vector UInt32 4 × Vector UInt64 16) (i : Nat) : Vector UInt32 4 × Vector UInt64 16 :=
  (if i % 2 = 0 then turnOdd st.1 else turnEven st.1,
    st.2.setIfInBounds i (generateSubkey ss st.1 (wordAt constants i)))

/-- `SetKeyInternal`. Keys of another length do not fill the array `k`, or do not fit into it. -/
def setKeyInternal (c : Seed) (key : List UInt8) : Option Seed :=
  if key.length = 16 then
    some ⟨((List.range 16).foldl (nextKey ss) (copyIn word32 .big 4 key, c.k)).2⟩
  else none

/-! ## Encryption and decryption -/

/-- `l` and `r`. -/
abbrev Halves := UInt64 × UInt64

variable (c : Seed)

/-- `l ^= f(m_k[i], r)`. -/
def combine (x : Halves) (i : Nat) : Halves := (x.1 ^^^ f ss (wordAt c.k i) x.2, x.2)

def encryptHalves (x : Halves) : Halves :=
  c.combine ss ((List.range 15).foldl (fun x i => (c.combine ss x i).swap) x) 15

def decryptHalves (x : Halves) : Halves :=
  (List.range 15).foldl (fun x n => c.combine ss x.swap (14 - n)) (c.combine ss x 15)

/-- A function of `l` and `r`, on the bytes of a block. -/
def onBlock (h : Halves → Halves) (block : List UInt8) : List UInt8 :=
  onWords (n := 2) word64 .big (fun v =>
    let r := h (v.get 0, v.get 1)
    #v[r.1, r.2]) block

/-- `Encrypt`. -/
def encrypt (block : List UInt8) : List UInt8 := onBlock (c.encryptHalves ss) block

/-- `Decrypt`. -/
def decrypt (block : List UInt8) : List UInt8 := onBlock (c.decryptHalves ss) block

/-! ## Decryption inverts encryption -/

/-- The function of a round. -/
def roundFunction (i : Nat) (r : UInt64) : UInt64 := f ss (wordAt c.k i) r

theorem encryptHalves_eq (x : Halves) :
    c.encryptHalves ss x = (Feistel.rounds (· ^^^ ·) (c.roundFunction ss) 16 x).swap := by
  rw [Feistel.rounds_succ]
  rfl

theorem decryptHalves_eq (x : Halves) :
    c.decryptHalves ss x = (Feistel.rounds (· ^^^ ·) (fun i => c.roundFunction ss (15 - i)) 16 x).swap := by
  have hconj : ∀ (l : List Nat) (y : Halves),
      (l.foldl (fun x n => Feistel.round (· ^^^ ·) (c.roundFunction ss (14 - n)) x) y.swap).swap =
        l.foldl (fun x n => c.combine ss x.swap (14 - n)) y := by
    intro l y
    have hswap := foldl_conj (f := fun x n => Feistel.round (· ^^^ ·) (c.roundFunction ss (14 - n)) x)
      (g := fun x n => c.combine ss x.swap (14 - n)) (p := Prod.swap) (fun _ _ => rfl) l y.swap
    rwa [Prod.swap_swap] at hswap
  have hindex : (fun i => c.roundFunction ss (15 - (i + 1))) = fun i => c.roundFunction ss (14 - i) := by
    funext i
    rw [Nat.add_comm, ← Nat.sub_sub]
  rw [Feistel.rounds_succ_first, hindex]
  exact (hconj (List.range 15) (c.combine ss x 15)).symm

theorem decryptHalves_encryptHalves (x : Halves) : c.decryptHalves ss (c.encryptHalves ss x) = x := by
  rw [decryptHalves_eq, encryptHalves_eq, Feistel.rounds_reverse xor64_cancel_right 16 x fun _ _ => rfl,
    Prod.swap_swap]

end Functions

end Seed

end Drew
