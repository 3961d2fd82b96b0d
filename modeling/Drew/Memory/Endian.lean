import Mathlib.Tactic
import Drew.Memory.BigEndian

/-!
# Words in memory

A word of some size is stored with its most or its least significant byte first. `Endian::Copy`
turns bytes into an array of words and an array of words into bytes.
-/

namespace Drew.Memory

/-- Unsigned integers of `size` bytes. -/
structure WordType (W : Type) where
  size : Nat
  toNat : W → Nat
  ofNat : Nat → W
  toNat_lt : ∀ w, toNat w < 256 ^ size
  ofNat_toNat : ∀ w, ofNat (toNat w) = w
  toNat_ofNat : ∀ {k}, k < 256 ^ size → toNat (ofNat k) = k

def word32 : WordType UInt32 where
  size := 4
  toNat := UInt32.toNat
  ofNat := UInt32.ofNat
  toNat_lt w := w.toNat_lt
  ofNat_toNat _ := UInt32.ofNat_toNat
  toNat_ofNat h := UInt32.toNat_ofNat_of_lt' h

def word64 : WordType UInt64 where
  size := 8
  toNat := UInt64.toNat
  ofNat := UInt64.ofNat
  toNat_lt w := w.toNat_lt
  ofNat_toNat _ := UInt64.ofNat_toNat
  toNat_ofNat h := UInt64.toNat_ofNat_of_lt' h

/-- Which byte of a word comes first. -/
inductive Endian
  | big
  | little

/-- The bytes of a word, most significant first, in the order in memory. The same step leads back. -/
def Endian.order : Endian → List UInt8 → List UInt8
  | big, bs => bs
  | little, bs => bs.reverse

@[simp] theorem Endian.length_order (e : Endian) (bs : List UInt8) :
    (e.order bs).length = bs.length := by
  cases e <;> simp [order]

@[simp] theorem Endian.order_order (e : Endian) (bs : List UInt8) : e.order (e.order bs) = bs := by
  cases e <;> simp [order]

/-- The bytes of a number. -/
theorem getElem?_beBytes (len k : Nat) {i : Nat} (hi : i < len) :
    (beBytes len k)[i]? = some (UInt8.ofNat (k / 256 ^ (len - 1 - i))) := by
  induction len generalizing k with
  | zero => exact absurd hi (Nat.not_lt_zero i)
  | succ len ih =>
    rw [beBytes]
    by_cases h : i = len
    · rw [h, List.getElem?_append_right (by rw [length_beBytes]), length_beBytes, Nat.sub_self,
        Nat.add_sub_cancel, Nat.sub_self, pow_zero, Nat.div_one]
      rfl
    · rw [List.getElem?_append_left (by rw [length_beBytes]; omega), ih _ (by omega),
        Nat.div_div_eq_div_mul, ← pow_succ', show len + 1 - 1 - i = len - 1 - i + 1 by omega]

section Lists

variable {α : Type} {f : α → List UInt8} {n : Nat}

theorem length_flatMap_of_length (hf : ∀ a, (f a).length = n) (l : List α) :
    (l.flatMap f).length = n * l.length := by
  simp [List.length_flatMap, hf, Nat.mul_comm]

/-- The piece that an element contributes. -/
theorem take_drop_flatMap (hf : ∀ a, (f a).length = n) (l : List α) :
    ∀ (i : Nat) (hi : i < l.length), ((l.flatMap f).drop (n * i)).take n = f l[i] := by
  induction l with
  | nil => exact fun i hi => absurd hi (Nat.not_lt_zero i)
  | cons a l ih =>
    intro i hi
    rw [List.flatMap_cons]
    cases i with
    | zero =>
      rw [Nat.mul_zero, List.drop_zero, ← hf a, List.take_left']
      · rfl
      · rfl
    | succ i =>
      rw [Nat.mul_succ, Nat.add_comm, ← List.drop_drop, List.drop_left' (hf a)]
      exact ih i (Nat.lt_of_succ_lt_succ hi)

theorem flatMap_chunks (n : Nat) (bs : List UInt8) :
    ∀ k, (List.range k).flatMap (fun i => (bs.drop (n * i)).take n) = bs.take (n * k) := by
  intro k
  induction k with
  | zero => simp
  | succ k ih =>
    rw [List.range_succ, List.flatMap_append, ih, List.flatMap_singleton, Nat.mul_succ, List.take_add]

theorem take_flatMap (hf : ∀ a, (f a).length = n) (l : List α) (c : Nat) :
    (l.flatMap f).take (n * c) = (l.take c).flatMap f := by
  induction l generalizing c with
  | nil => simp
  | cons a l ih =>
    cases c with
    | zero => simp
    | succ c =>
      rw [List.flatMap_cons, Nat.mul_succ, Nat.add_comm, List.take_append, hf, Nat.add_sub_cancel_left, ih,
        List.take_of_length_le (by rw [hf]; exact Nat.le_add_right _ _), List.take_succ_cons, List.flatMap_cons]

theorem drop_flatMap (hf : ∀ a, (f a).length = n) (l : List α) (c : Nat) :
    (l.flatMap f).drop (n * c) = (l.drop c).flatMap f := by
  have hsplit := congrArg (List.flatMap f) (List.take_append_drop c l)
  rw [List.flatMap_append, ← take_flatMap hf] at hsplit
  have hwhole := (List.take_append_drop (n * c) (l.flatMap f)).trans hsplit.symm
  exact List.append_cancel_left hwhole

end Lists

section Copy

variable {W : Type} (T : WordType W) (e : Endian)

/-- `Convert` of bytes to a word. -/
def convert (bs : List UInt8) : W := T.ofNat (beNat (e.order bs))

/-- `Convert` of a word to bytes. -/
def convertBytes (w : W) : List UInt8 := e.order (beBytes T.size (T.toNat w))

/-- `Copy` to `n` words. -/
def copyIn (n : Nat) (bs : List UInt8) : Vector W n :=
  Vector.ofFn fun i => convert T e ((bs.drop (T.size * i)).take T.size)

/-- `Copy` of words to bytes. -/
def copyOut {n : Nat} (v : Vector W n) : List UInt8 := v.toList.flatMap (convertBytes T e)

variable {T e}

@[simp] theorem length_convertBytes (w : W) : (convertBytes T e w).length = T.size := by
  rw [convertBytes, Endian.length_order, length_beBytes]

@[simp] theorem convert_convertBytes (w : W) : convert T e (convertBytes T e w) = w := by
  rw [convert, convertBytes, Endian.order_order, beNat_beBytes, Nat.mod_eq_of_lt (T.toNat_lt w),
    T.ofNat_toNat]

theorem convertBytes_convert {bs : List UInt8} (h : bs.length = T.size) :
    convertBytes T e (convert T e bs) = bs := by
  have hlen : (e.order bs).length = T.size := by rw [Endian.length_order, h]
  have hlt : beNat (e.order bs) < 256 ^ T.size := hlen ▸ beNat_lt (e.order bs)
  have hback : beBytes T.size (beNat (e.order bs)) = e.order bs := hlen ▸ beBytes_beNat (e.order bs)
  rw [convertBytes, convert, T.toNat_ofNat hlt, hback, Endian.order_order]

variable {n : Nat}

@[simp] theorem length_copyOut (v : Vector W n) : (copyOut T e v).length = T.size * n := by
  rw [copyOut, length_flatMap_of_length length_convertBytes, Vector.length_toList]

@[simp] theorem copyIn_copyOut (v : Vector W n) : copyIn T e n (copyOut T e v) = v := by
  ext i hi
  have hi' : i < v.toList.length := by simpa using hi
  rw [copyIn, Vector.getElem_ofFn, copyOut, take_drop_flatMap length_convertBytes _ i hi',
    convert_convertBytes, Vector.getElem_toList]

theorem copyOut_copyIn {bs : List UInt8} (h : bs.length = T.size * n) :
    copyOut T e (copyIn T e n bs) = bs := by
  have hpiece : ∀ i ∈ List.range n, convertBytes T e (convert T e ((bs.drop (T.size * i)).take T.size)) =
      (bs.drop (T.size * i)).take T.size := by
    intro i hi
    apply convertBytes_convert
    have hle : T.size * (i + 1) ≤ T.size * n := Nat.mul_le_mul_left _ (List.mem_range.mp hi)
    rw [Nat.mul_succ] at hle
    rw [List.length_take, List.length_drop]
    omega
  have hwords : (copyIn T e n bs).toList = (List.range n).map fun i =>
      convert T e ((bs.drop (T.size * i)).take T.size) := by
    apply List.ext_getElem
    · simp
    · intro i _ _
      simp [copyIn]
  rw [copyOut, hwords, List.flatMap_map, List.flatMap_congr hpiece, flatMap_chunks]
  exact List.take_of_length_le h.le

/-- A function of words on bytes. -/
def onWords (T : WordType W) (e : Endian) (g : Vector W n → Vector W n) (bs : List UInt8) : List UInt8 :=
  copyOut T e (g (copyIn T e n bs))

@[simp] theorem length_onWords (g : Vector W n → Vector W n) (bs : List UInt8) :
    (onWords T e g bs).length = T.size * n :=
  length_copyOut _

theorem onWords_onWords {g h : Vector W n → Vector W n} (hinv : ∀ v, h (g v) = v) {bs : List UInt8}
    (hlen : bs.length = T.size * n) : onWords T e h (onWords T e g bs) = bs := by
  rw [onWords, onWords, copyIn_copyOut, hinv, copyOut_copyIn hlen]

end Copy

end Drew.Memory

/-!
## Bits of bytes

Specifications of hash functions speak of strings of bits. A byte has its highest bit first, so the
bits of bytes and the bits of a number fit together: the bytes of a big-endian number have the bits
of the number (`bits_beBytes`), and bytes and their bits are the same number (`bitsVal_bits`).
-/

namespace Drew.Memory

/-- The `len` low bits of a number, highest bit first. -/
def natBits : Nat → Nat → List Bool
  | 0, _ => []
  | len + 1, k => k.testBit len :: natBits len k

/-- The bits of bytes. -/
def bits (bs : List UInt8) : List Bool :=
  bs.flatMap fun b => natBits 8 b.toNat

/-- The number that a list of bits is. -/
def bitsVal (μ : List Bool) : Nat := beVal Bool.toNat 2 μ

@[simp] theorem length_natBits (len k : Nat) : (natBits len k).length = len := by
  induction len with
  | zero => rfl
  | succ len ih => rw [natBits, List.length_cons, ih]

@[simp] theorem bits_nil : bits [] = [] := rfl

theorem bits_cons (b : UInt8) (bs : List UInt8) : bits (b :: bs) = natBits 8 b.toNat ++ bits bs :=
  List.flatMap_cons

theorem bits_append (xs ys : List UInt8) : bits (xs ++ ys) = bits xs ++ bits ys :=
  List.flatMap_append

@[simp] theorem length_bits (bs : List UInt8) : (bits bs).length = 8 * bs.length := by
  induction bs with
  | nil => rfl
  | cons b bs ih =>
      rw [bits_cons, List.length_append, length_natBits, ih, List.length_cons]
      ring

theorem drop_bits (bs : List UInt8) (k : Nat) : (bits bs).drop (8 * k) = bits (bs.drop k) := by
  induction k generalizing bs with
  | zero => rfl
  | succ k ih =>
      cases bs with
      | nil => simp
      | cons b bs =>
          have hbyte : (natBits 8 b.toNat).length = 8 := length_natBits ..
          rw [bits_cons, Nat.mul_succ, Nat.add_comm, ← List.drop_drop, List.drop_left' hbyte, ih,
            List.drop_succ_cons]

theorem take_bits (bs : List UInt8) (k : Nat) : (bits bs).take (8 * k) = bits (bs.take k) := by
  by_cases hk : k ≤ bs.length
  · have hlen : (bits (bs.take k)).length = 8 * k := by
      rw [length_bits, List.length_take, Nat.min_eq_left hk]
    have hsplit : bits bs = bits (bs.take k) ++ bits (bs.drop k) := by
      rw [← bits_append, List.take_append_drop]
    rw [hsplit, List.take_left' hlen]
  · rw [List.take_of_length_le (by rw [length_bits]; omega), List.take_of_length_le (by omega)]

/-- The high bits and the low bits. -/
theorem natBits_add (a b k : Nat) : natBits (a + b) k = natBits a (k / 2 ^ b) ++ natBits b k := by
  induction a with
  | zero => rw [Nat.zero_add, natBits, List.nil_append]
  | succ a ih =>
      have hhead : k.testBit (a + b) = (k / 2 ^ b).testBit a := by
        rw [Nat.testBit_div_two_pow]
      rw [Nat.succ_add, natBits, natBits, ih, hhead, List.cons_append]

theorem natBits_mod {len j : Nat} (h : len ≤ j) (k : Nat) : natBits len (k % 2 ^ j) = natBits len k := by
  induction len with
  | zero => rfl
  | succ len ih =>
      have hlt : len < j := h
      rw [natBits, natBits, ih hlt.le, Nat.testBit_mod_two_pow, decide_eq_true hlt, Bool.true_and]

theorem bitsVal_append (μ ν : List Bool) :
    bitsVal (μ ++ ν) = bitsVal μ * 2 ^ ν.length + bitsVal ν :=
  beVal_append μ ν

theorem bitsVal_natBits (len k : Nat) : bitsVal (natBits len k) = k % 2 ^ len := by
  induction len with
  | zero => rw [natBits, pow_zero, Nat.mod_one]; rfl
  | succ len ih =>
      have hcons : bitsVal (natBits (len + 1) k) =
          (k.testBit len).toNat * 2 ^ len + bitsVal (natBits len k) := by
        have h := @beVal_cons _ Bool.toNat 2 (k.testBit len) (natBits len k)
        rwa [length_natBits] at h
      have hbit : (k.testBit len).toNat = k / 2 ^ len % 2 := by
        rw [Nat.toNat_testBit]
      rw [hcons, ih, hbit, pow_succ, Nat.mod_mul]
      ring

/-- The bytes of a number have its bits. -/
theorem bits_beBytes (len k : Nat) : bits (beBytes len k) = natBits (8 * len) k := by
  induction len generalizing k with
  | zero => rfl
  | succ len ih =>
      have hbyte : (UInt8.ofNat k).toNat = k % 2 ^ 8 := UInt8.toNat_ofNat'
      rw [beBytes, bits_append, ih, bits_cons, bits_nil, List.append_nil, hbyte, natBits_mod (le_refl 8),
        Nat.mul_succ, natBits_add]
      rfl

/-- Bytes and their bits are the same number. -/
theorem bitsVal_bits (bs : List UInt8) : bitsVal (bits bs) = beNat bs := by
  induction bs with
  | nil => rfl
  | cons b bs ih =>
      have hbyte : b.toNat % 2 ^ 8 = b.toNat := Nat.mod_eq_of_lt b.toNat_lt
      rw [bits_cons, bitsVal_append, ih, bitsVal_natBits, hbyte, length_bits, pow_mul]
      exact (beVal_cons b bs).symm

theorem bits_replicate_zero (n : Nat) : bits (List.replicate n 0) = List.replicate (8 * n) false := by
  induction n with
  | zero => rfl
  | succ n ih =>
      rw [List.replicate_succ, bits_cons, ih, Nat.mul_succ, Nat.add_comm, List.replicate_add]
      rfl

end Drew.Memory
