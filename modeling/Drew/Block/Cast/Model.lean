import Drew.Block.Bytes
import Drew.Block.Rounds
import Drew.Block.Feistel
import Drew.Block.Recurrence

/-!
# CAST-128

The model of the classes `CAST` and `CAST5`. The tables `m_s` are a parameter: nothing that is proved
about the cipher depends on what they hold. A rotation can be by 0, where `RotateLeft` shifts by the whole
width; a shift by 32 is then by 0.
-/

namespace Drew

open Drew.Memory Drew.StreamCipher Drew.Block

namespace Cast

/-- `static const uint32_t m_s[8][256]`. -/
abbrev Tables := Fin 8 → UInt8 → UInt32

section Functions

variable (s : Tables) (x km : UInt32) (kr : UInt8)

def f1 : UInt32 :=
  let val := rotateLeft (km + x) kr.toUInt32
  ((s 0 (getByte val 3) ^^^ s 1 (getByte val 2)) - s 2 (getByte val 1)) + s 3 (getByte val 0)

def f2 : UInt32 :=
  let val := rotateLeft (km ^^^ x) kr.toUInt32
  ((s 0 (getByte val 3) - s 1 (getByte val 2)) + s 2 (getByte val 1)) ^^^ s 3 (getByte val 0)

def f3 : UInt32 :=
  let val := rotateLeft (km - x) kr.toUInt32
  ((s 0 (getByte val 3) + s 1 (getByte val 2)) ^^^ s 2 (getByte val 1)) - s 3 (getByte val 0)

end Functions

end Cast

/-- The members of the class `CAST5`. The constructor leaves them as they are. -/
structure Cast5 where
  km : Vector UInt32 16
  kr : Vector UInt8 16
  longkey : Bool

namespace Cast5

open Drew.Cast

/-! ## The key schedule -/

/-- The arrays `x` and `z`. -/
abbrev Words := Vector UInt32 4

/-- `GetArrayByte`. -/
def getArrayByte (p : Words) (n : Nat) : UInt8 := getByte (p.get (Fin.ofNat 4 (n / 4))) (UInt32.ofNat (n % 4))

section Schedule

variable (s : Tables)

/-- The macros `sx` and `sz`. -/
def sub (p : Words) (a : Fin 8) (b : Nat) : UInt32 := s a (getArrayByte p (b ^^^ 3))

/-- `ComputeZSet`. A word of `z` that has not been set is not read. -/
def computeZSet (x : Words) : Words :=
  let z0 := x.get 0 ^^^ sub s x 4 13 ^^^ sub s x 5 15 ^^^ sub s x 6 12 ^^^ sub s x 7 14 ^^^ sub s x 6 8
  let z : Words := #v[z0, 0, 0, 0]
  let z1 := x.get 2 ^^^ sub s z 4 0 ^^^ sub s z 5 2 ^^^ sub s z 6 1 ^^^ sub s z 7 3 ^^^ sub s x 7 10
  let z : Words := #v[z0, z1, 0, 0]
  let z2 := x.get 3 ^^^ sub s z 4 7 ^^^ sub s z 5 6 ^^^ sub s z 6 5 ^^^ sub s z 7 4 ^^^ sub s x 4 9
  let z : Words := #v[z0, z1, z2, 0]
  let z3 := x.get 1 ^^^ sub s z 4 10 ^^^ sub s z 5 9 ^^^ sub s z 6 11 ^^^ sub s z 7 8 ^^^ sub s x 5 11
  #v[z0, z1, z2, z3]

/-- `ComputeXSet`. -/
def computeXSet (z : Words) : Words :=
  let x0 := z.get 2 ^^^ sub s z 4 5 ^^^ sub s z 5 7 ^^^ sub s z 6 4 ^^^ sub s z 7 6 ^^^ sub s z 6 0
  let x : Words := #v[x0, 0, 0, 0]
  let x1 := z.get 0 ^^^ sub s x 4 0 ^^^ sub s x 5 2 ^^^ sub s x 6 1 ^^^ sub s x 7 3 ^^^ sub s z 7 2
  let x : Words := #v[x0, x1, 0, 0]
  let x2 := z.get 1 ^^^ sub s x 4 7 ^^^ sub s x 5 6 ^^^ sub s x 6 5 ^^^ sub s x 7 4 ^^^ sub s z 4 1
  let x : Words := #v[x0, x1, x2, 0]
  let x3 := z.get 3 ^^^ sub s x 4 10 ^^^ sub s x 5 9 ^^^ sub s x 6 11 ^^^ sub s x 7 8 ^^^ sub s z 5 3
  #v[x0, x1, x2, x3]

/-- `ComputeSubkeySetA`: the four words that are written to `sk`. -/
def computeSubkeySetA (z : Words) (a b c d : Nat) : List UInt32 :=
  [sub s z 4 8 ^^^ sub s z 5 9 ^^^ sub s z 6 7 ^^^ sub s z 7 6 ^^^ sub s z 4 a,
    sub s z 4 10 ^^^ sub s z 5 11 ^^^ sub s z 6 5 ^^^ sub s z 7 4 ^^^ sub s z 5 b,
    sub s z 4 12 ^^^ sub s z 5 13 ^^^ sub s z 6 3 ^^^ sub s z 7 2 ^^^ sub s z 6 c,
    sub s z 4 14 ^^^ sub s z 5 15 ^^^ sub s z 6 1 ^^^ sub s z 7 0 ^^^ sub s z 7 d]

/-- `ComputeSubkeySetB`. -/
def computeSubkeySetB (z : Words) (a b c d : Nat) : List UInt32 :=
  [sub s z 4 3 ^^^ sub s z 5 2 ^^^ sub s z 6 12 ^^^ sub s z 7 13 ^^^ sub s z 4 a,
    sub s z 4 1 ^^^ sub s z 5 0 ^^^ sub s z 6 14 ^^^ sub s z 7 15 ^^^ sub s z 5 b,
    sub s z 4 7 ^^^ sub s z 5 6 ^^^ sub s z 6 8 ^^^ sub s z 7 9 ^^^ sub s z 6 c,
    sub s z 4 5 ^^^ sub s z 5 4 ^^^ sub s z 6 10 ^^^ sub s z 7 11 ^^^ sub s z 7 d]

/-- A pass of the loop of `ComputeSubkeys`: `x`, and 16 words of `sk`. -/
def subkeyPass (x : Words) : Words × List UInt32 :=
  let z := computeZSet s x
  let sk := computeSubkeySetA s z 2 6 9 12
  let x := computeXSet s z
  let sk := sk ++ computeSubkeySetB s x 8 13 3 7
  let z := computeZSet s x
  let sk := sk ++ computeSubkeySetB s z 9 12 2 6
  let x := computeXSet s z
  (x, sk ++ computeSubkeySetA s x 3 7 8 13)

/-- The array `sk` of `ComputeSubkeys`. -/
def subkeys (k : List UInt8) : List UInt32 :=
  let (x, sk) := subkeyPass s (copyIn word32 .big 4 k)
  sk ++ (subkeyPass s x).2

/-- `SetKeyInternal`. There is room for 16 bytes in `buf`. -/
def setKeyInternal (_c : Cast5) (key : List UInt8) : Option Cast5 :=
  if 16 < key.length then none
  else
    let buf := key ++ List.replicate (16 - key.length) 0
    let sk := subkeys s buf
    some
      { km := Vector.ofFn fun i => sk.getD i 0
        kr := Vector.ofFn fun i => (sk.getD (i + 16) 0 &&& 0x1f).toUInt8
        longkey := decide (10 < key.length) }

end Schedule

/-! ## Encryption and decryption -/

section Cipher

variable (s : Tables) (c : Cast5)

/-- A round with one of the functions, and `std::swap`. -/
def round (f : UInt32 → UInt32 → UInt8 → UInt32) (lr : UInt32 × UInt32) (i : Nat) : UInt32 × UInt32 :=
  (lr.2, lr.1 ^^^ f lr.2 (c.km.get (Fin.ofNat 16 i)) (c.kr.get (Fin.ofNat 16 i)))

/-- The body of the loop of `Encrypt`. -/
def encryptPass (lr : UInt32 × UInt32) (i : Nat) : UInt32 × UInt32 :=
  c.round (f3 s) (c.round (f2 s) (c.round (f1 s) lr i) (i + 1)) (i + 2)

/-- The body of the loop of `Decrypt`. -/
def decryptPass (lr : UInt32 × UInt32) (i : Nat) : UInt32 × UInt32 :=
  c.round (f1 s) (c.round (f2 s) (c.round (f3 s) lr i) (i - 1)) (i - 2)

/-- `Encrypt` of words: five or four passes. -/
def encryptWords (lr : UInt32 × UInt32) : UInt32 × UInt32 :=
  let lr := (List.range (if c.longkey then 5 else 4)).foldl (fun lr n => c.encryptPass s lr (3 * n)) lr
  if c.longkey then (c.round (f1 s) lr 15).swap else lr.swap

/-- `Decrypt` of words. -/
def decryptWords (lr : UInt32 × UInt32) : UInt32 × UInt32 :=
  let lr := if c.longkey then c.round (f1 s) lr 15 else lr
  let lr := (List.range (if c.longkey then 5 else 4)).foldl
    (fun lr n => c.decryptPass s lr ((if c.longkey then 14 else 11) - 3 * n)) lr
  lr.swap

theorem size_toArray (lr : UInt32 × UInt32) : #[lr.1, lr.2].size = 2 := rfl

/-- The array of the two words. -/
abbrev toArray (lr : UInt32 × UInt32) : Vector UInt32 2 := ⟨#[lr.1, lr.2], size_toArray lr⟩

/-- A function of two words on a block. -/
def onBlock (g : UInt32 × UInt32 → UInt32 × UInt32) (block : List UInt8) : List UInt8 :=
  onWords word32 .big (fun v => toArray (g (v.get 0, v.get 1))) block

def encrypt (block : List UInt8) : List UInt8 := onBlock (c.encryptWords s) block

def decrypt (block : List UInt8) : List UInt8 := onBlock (c.decryptWords s) block

end Cipher

end Cast5

end Drew

/-!
## The rounds of CAST-128

Encryption makes 16 rounds, or 12 with a short key, and decryption the same rounds from the last one on.
-/

namespace Drew.Cast5

open Drew.Memory Drew.StreamCipher Drew.Block Drew.Cast

variable (s : Tables) (c : Cast5)

/-- The three functions in turn. -/
def roundFunction (i : Nat) (r : UInt32) : UInt32 :=
  (if i % 3 = 0 then f1 s else if i % 3 = 1 then f2 s else f3 s) r (c.km.get (Fin.ofNat 16 i))
    (c.kr.get (Fin.ofNat 16 i))

/-- A round of the cipher is a round with one of the functions. -/
theorem round_eq (f : UInt32 → UInt32 → UInt8 → UInt32) (lr : UInt32 × UInt32) {i : Nat}
    (hf : f = if i % 3 = 0 then f1 s else if i % 3 = 1 then f2 s else f3 s) :
    c.round f lr i = Feistel.round (· ^^^ ·) (c.roundFunction s i) lr := by
  rw [hf]
  rfl

theorem encryptPass_eq (lr : UInt32 × UInt32) (n : Nat) : c.encryptPass s lr (3 * n) =
    (List.range 3).foldl (fun lr j => Feistel.round (· ^^^ ·) (c.roundFunction s (3 * n + j)) lr) lr := by
  have h0 : 3 * n % 3 = 0 := Nat.mul_mod_right 3 n
  have h1 : (3 * n + 1) % 3 = 1 := Nat.mul_add_mod 3 n 1
  have h2 : (3 * n + 2) % 3 = 2 := Nat.mul_add_mod 3 n 2
  rw [encryptPass, c.round_eq s (f1 s) lr (i := 3 * n) (by rw [if_pos h0]),
    c.round_eq s (f2 s) _ (i := 3 * n + 1) (by rw [if_neg (by omega), if_pos h1]),
    c.round_eq s (f3 s) _ (i := 3 * n + 2) (by rw [if_neg (by omega), if_neg (by omega)])]
  rfl

theorem decryptPass_eq (lr : UInt32 × UInt32) {i : Nat} (hi : i % 3 = 2) : c.decryptPass s lr i =
    (List.range 3).foldl (fun lr j => Feistel.round (· ^^^ ·) (c.roundFunction s (i - j)) lr) lr := by
  rw [decryptPass, c.round_eq s (f3 s) lr (by rw [if_neg (by omega), if_neg (by omega)]),
    c.round_eq s (f2 s) _ (i := i - 1) (by rw [if_neg (by omega), if_pos (by omega)]),
    c.round_eq s (f1 s) _ (i := i - 2) (by rw [if_pos (by omega)])]
  rfl

/-- The loop of `Encrypt`. -/
theorem encryptPasses_eq (k : Nat) (lr : UInt32 × UInt32) :
    (List.range k).foldl (fun lr n => c.encryptPass s lr (3 * n)) lr =
      Feistel.rounds (· ^^^ ·) (c.roundFunction s) (3 * k) lr := by
  rw [Feistel.rounds, foldl_range_mul]
  simp only [encryptPass_eq]

/-- The loop of `Decrypt`. -/
theorem decryptPasses_eq (k : Nat) (lr : UInt32 × UInt32) :
    (List.range k).foldl (fun lr n => c.decryptPass s lr (3 * k - 1 - 3 * n)) lr =
      Feistel.rounds (· ^^^ ·) (fun i => c.roundFunction s (3 * k - 1 - i)) (3 * k) lr := by
  rw [Feistel.rounds, foldl_range_mul]
  apply List.foldl_ext
  intro y n hn
  have hlt := List.mem_range.mp hn
  rw [c.decryptPass_eq s y (by omega)]
  simp only [Nat.sub_sub, Nat.add_assoc]

/-- The number of rounds. -/
def numRounds : Nat := if c.longkey then 16 else 12

theorem encryptWords_eq (lr : UInt32 × UInt32) :
    c.encryptWords s lr = (Feistel.rounds (· ^^^ ·) (c.roundFunction s) c.numRounds lr).swap := by
  rw [encryptWords, numRounds, encryptPasses_eq]
  cases c.longkey with
  | true => exact congrArg Prod.swap (Feistel.rounds_succ (· ^^^ ·) 15 lr).symm
  | false => rfl

theorem decryptWords_eq (lr : UInt32 × UInt32) : c.decryptWords s lr =
    (Feistel.rounds (· ^^^ ·) (fun i => c.roundFunction s (c.numRounds - 1 - i)) c.numRounds lr).swap := by
  rw [decryptWords, numRounds]
  cases c.longkey with
  | true =>
    have hpasses := c.decryptPasses_eq s 5 (c.round (f1 s) lr 15)
    have hindex : (fun i => c.roundFunction s (15 - (i + 1))) = fun i => c.roundFunction s (14 - i) := by
      funext i
      rw [Nat.add_comm, ← Nat.sub_sub]
    have hrounds := Feistel.rounds_succ_first (· ^^^ ·) (f := fun i => c.roundFunction s (15 - i)) 15 lr
    rw [hindex] at hrounds
    exact congrArg Prod.swap (hpasses.trans hrounds.symm)
  | false => exact congrArg Prod.swap (c.decryptPasses_eq s 4 lr)

theorem decryptWords_encryptWords (lr : UInt32 × UInt32) : c.decryptWords s (c.encryptWords s lr) = lr := by
  rw [decryptWords_eq, encryptWords_eq, Feistel.rounds_reverse xor32_cancel_right c.numRounds lr fun _ _ => rfl,
    Prod.swap_swap]

end Drew.Cast5

/-!
## CAST-256

The model of the class `CAST6`, with the functions of the class `CAST`. Each of its quad-rounds changes the four
words in turn; the backward quad-round makes the same changes in the opposite order.
-/

namespace Drew

open Drew.Memory Drew.StreamCipher Drew.Block

/-- The members `m_km` and `m_kr`. -/
structure Cast6 where
  km : Fin 4 → Vector UInt32 12
  kr : Fin 4 → Vector UInt8 12

namespace Cast6

open Drew.Cast

section Schedule

variable (s : Tables)

/-- `cm` after `n` steps, which is stored in `tm[n % 8][n / 8]`. -/
def cmAt : Nat → UInt32
  | 0 => 0x5a827999
  | n + 1 => cmAt n + 0x6ed9eba1

/-- `cr` after `n` steps, which is stored in `tr[n % 8][n / 8]`. -/
def crAt : Nat → UInt8
  | 0 => 19
  | n + 1 => (crAt n + 17) &&& 0x1f

def tm (j i : Nat) : UInt32 := cmAt (8 * i + j)

def tr (j i : Nat) : UInt8 := crAt (8 * i + j)

/-- `W(k, tr, tm, i)`. -/
def w (k : Vector UInt32 8) (i : Nat) : Vector UInt32 8 :=
  let k := k.setIfInBounds 6 (wordAt k 6 ^^^ f1 s (wordAt k 7) (tm 0 i) (tr 0 i))
  let k := k.setIfInBounds 5 (wordAt k 5 ^^^ f2 s (wordAt k 6) (tm 1 i) (tr 1 i))
  let k := k.setIfInBounds 4 (wordAt k 4 ^^^ f3 s (wordAt k 5) (tm 2 i) (tr 2 i))
  let k := k.setIfInBounds 3 (wordAt k 3 ^^^ f1 s (wordAt k 4) (tm 3 i) (tr 3 i))
  let k := k.setIfInBounds 2 (wordAt k 2 ^^^ f2 s (wordAt k 3) (tm 4 i) (tr 4 i))
  let k := k.setIfInBounds 1 (wordAt k 1 ^^^ f3 s (wordAt k 2) (tm 5 i) (tr 5 i))
  let k := k.setIfInBounds 0 (wordAt k 0 ^^^ f1 s (wordAt k 1) (tm 6 i) (tr 6 i))
  k.setIfInBounds 7 (wordAt k 7 ^^^ f2 s (wordAt k 0) (tm 7 i) (tr 7 i))

/-- The array `keys` behind the calls of `W` in pass `i` of the last loop. -/
def keysAt (keys : Vector UInt32 8) (i : Nat) : Vector UInt32 8 :=
  (List.range (i + 1)).foldl (fun k i => w s (w s k (2 * i)) (2 * i + 1)) keys

/-- `SetKeyInternal`. A key that does not consist of words, or of more than eight, is not copied right. -/
def setKeyInternal (_c : Cast6) (key : List UInt8) : Option Cast6 :=
  if key.length % 4 = 0 ∧ key.length ≤ 32 then
    let keys := copyIn word32 .big 8 key
    some
      { km := fun j => Vector.ofFn fun i => wordAt (keysAt s keys i) (7 - 2 * j)
        kr := fun j => Vector.ofFn fun i => (wordAt (keysAt s keys i) (2 * j) &&& 0x1f).toUInt8 }
  else none

end Schedule

/-! ## Encryption and decryption -/

/-- The array `data`. -/
@[ext] structure Words where
  a : UInt32
  b : UInt32
  c : UInt32
  d : UInt32

section Cipher

variable (s : Tables) (k : Cast6)

/-- The exclusive ors of `Q` and `Qbar`, one for each word. -/
def changeC (x : Words) (i : Nat) : Words :=
  { x with c := x.c ^^^ f1 s x.d (wordAt (k.km 0) i) (wordAt (k.kr 0) i) }

def changeB (x : Words) (i : Nat) : Words :=
  { x with b := x.b ^^^ f2 s x.c (wordAt (k.km 1) i) (wordAt (k.kr 1) i) }

def changeA (x : Words) (i : Nat) : Words :=
  { x with a := x.a ^^^ f3 s x.b (wordAt (k.km 2) i) (wordAt (k.kr 2) i) }

def changeD (x : Words) (i : Nat) : Words :=
  { x with d := x.d ^^^ f1 s x.a (wordAt (k.km 3) i) (wordAt (k.kr 3) i) }

/-- `Qi(data, i)`. -/
def q (x : Words) (i : Nat) : Words :=
  k.changeD s (k.changeA s (k.changeB s (k.changeC s x i) i) i) i

/-- `Qbari(data, i)`. -/
def qbar (x : Words) (i : Nat) : Words :=
  k.changeC s (k.changeB s (k.changeA s (k.changeD s x i) i) i) i

def encryptWords (x : Words) : Words :=
  [6, 7, 8, 9, 10, 11].foldl (k.qbar s) ([0, 1, 2, 3, 4, 5].foldl (k.q s) x)

def decryptWords (x : Words) : Words :=
  [5, 4, 3, 2, 1, 0].foldl (k.qbar s) ([11, 10, 9, 8, 7, 6].foldl (k.q s) x)

/-- A function of the array `data`, on the bytes of a block. -/
def onBlock (g : Words → Words) (block : List UInt8) : List UInt8 :=
  onWords (n := 4) word32 .big (fun v =>
    let r := g ⟨v.get 0, v.get 1, v.get 2, v.get 3⟩
    #v[r.a, r.b, r.c, r.d]) block

/-- `Encrypt`. -/
def encrypt (block : List UInt8) : List UInt8 := onBlock (k.encryptWords s) block

/-- `Decrypt`. -/
def decrypt (block : List UInt8) : List UInt8 := onBlock (k.decryptWords s) block

/-! ## Decryption inverts encryption -/

theorem qbar_q (x : Words) (i : Nat) : k.qbar s (k.q s x i) i = x := by
  simp only [q, qbar, changeA, changeB, changeC, changeD, xor32_cancel_right]

theorem q_qbar (x : Words) (i : Nat) : k.q s (k.qbar s x i) i = x := by
  simp only [q, qbar, changeA, changeB, changeC, changeD, xor32_cancel_right]

/-- The forward quad-rounds undo the backward ones and the other way around. -/
theorem decryptWords_encryptWords (x : Words) : k.decryptWords s (k.encryptWords s x) = x := by
  have hfirst := foldl_reverse_undo (k.qbar_q s) [0, 1, 2, 3, 4, 5] x
  have hlast := foldl_reverse_undo (k.q_qbar s) [6, 7, 8, 9, 10, 11] ([0, 1, 2, 3, 4, 5].foldl (k.q s) x)
  unfold decryptWords encryptWords
  simp only [List.reverse_cons, List.reverse_nil, List.nil_append, List.cons_append] at hfirst hlast
  rw [hlast, hfirst]

end Cipher

end Cast6

end Drew
