import Drew.Block.LongBytes
import Drew.Field.Byte

/-!
# Matrices in tables

A matrix over the field of bytes with eight rows is applied to bytes by eight tables of words, one for each column: a
table has the multiples of its column, with the first row in the highest byte. The words that are looked up are added.
If the tables have the multiples of the values of an S-box, this is one, too (`longByte_lookups`). Where the matrix is
circulant, the words of the tables are those of the first one, with their bytes turned (`turned_multiples`).
-/

namespace Drew.Field

open Drew.Memory Drew.Block

/-! ## Small multiples -/

/-- The product with a number of four bits, by doubling. -/
def smallMultiple (p a : UInt8) (c : Nat) : UInt8 :=
  let b := timesX p a
  let d := timesX p b
  (if c.testBit 0 then a else 0) ^^^ (if c.testBit 1 then b else 0) ^^^ (if c.testBit 2 then d else 0) ^^^
    if c.testBit 3 then timesX p d else 0

theorem bits_of_small : ∀ c < 16, UInt8.ofNat c = (if c.testBit 0 then UInt8.ofNat (2 ^ 0) else 0) ^^^
    (if c.testBit 1 then UInt8.ofNat (2 ^ 1) else 0) ^^^ (if c.testBit 2 then UInt8.ofNat (2 ^ 2) else 0) ^^^
      if c.testBit 3 then UInt8.ofNat (2 ^ 3) else 0 := by
  decide

theorem smallMultiple_eq (p a : UInt8) {c : Nat} (hc : c < 16) : smallMultiple p a c = mulByte p a (UInt8.ofNat c) := by
  have hpower : ∀ k < 4, mulByte p a (if c.testBit k then UInt8.ofNat (2 ^ k) else 0) =
      if c.testBit k then (timesX p)^[k] a else 0 := by
    intro k hk
    split
    · exact mulByte_power p a (by omega)
    · exact mulByte_zero_right p a
  rw [bits_of_small c hc, mulByte_xor_right, mulByte_xor_right, mulByte_xor_right, hpower 0 (by decide),
    hpower 1 (by decide), hpower 2 (by decide), hpower 3 (by decide)]
  rfl

/-! ## Tables -/

/-- An array of words of 64 bits, in rows of 4. -/
abbrev LongTable := List (List UInt64)

namespace LongTable

variable {k n : Nat}

def entry (t : LongTable) (n : Nat) : UInt64 := (t[n / 4]?.bind (·[n % 4]?)).getD 0

/-- The array of the values of a function. -/
def ofFn (k : Nat) (f : Nat → UInt64) : LongTable :=
  (List.range k).map fun i => (List.range 4).map fun j => f (4 * i + j)

theorem entry_ofFn (f : Nat → UInt64) (hn : n < 4 * k) : (ofFn k f).entry n = f n := by
  have hrow : n / 4 < k := by omega
  have hplace : n % 4 < 4 := Nat.mod_lt _ (by decide)
  rw [entry, ofFn, List.getElem?_map, List.getElem?_range hrow, Option.map_some, Option.bind_some,
    List.getElem?_map, List.getElem?_range hplace, Option.map_some, Option.getD_some, Nat.div_add_mod]

theorem map_ofFn (g : UInt64 → UInt64) (f : Nat → UInt64) : (ofFn k f).map (·.map g) = ofFn k fun n => g (f n) := by
  simp only [ofFn, List.map_map, Function.comp_def]

end LongTable

/-! ## Columns -/

/-- The word of the multiples of a column by a byte. -/
def multiples (p : UInt8) (c : Nat → Nat) (a : UInt8) : UInt64 := rowOf 8 fun n => smallMultiple p a (c (7 - n))

/-- The bytes of a word move down, and the lowest ones come in at the top. -/
def turned (k : Nat) (w : UInt64) : UInt64 :=
  if k = 0 then w else w >>> UInt64.ofNat (8 * k) ||| w <<< UInt64.ofNat (8 * (8 - k))

section Columns

variable {p : UInt8} {c : Nat → Nat} {j k : Nat}

theorem longByte_multiples (hc : ∀ j, c j < 16) (a : UInt8) (hj : j < 8) :
    longByte (multiples p c a) (7 - j) = mulByte p a (UInt8.ofNat (c j)) := by
  rw [multiples, longByte_rowOf (le_refl 8) _ (by omega), if_pos (by omega), Nat.sub_sub_self (by omega),
    smallMultiple_eq p a (hc j)]

theorem longByte_turned (w : UInt64) (hk : k < 8) {n : Nat} (hn : n < 8) :
    longByte (turned k w) n = longByte w ((n + k) % 8) := by
  unfold turned
  split
  · rename_i hzero
    rw [hzero, Nat.add_zero, Nat.mod_eq_of_lt hn]
  · rw [longByte_or _ _ hn, longByte_shiftRight _ hk hn, longByte_shiftLeft _ (by omega) hn]
    by_cases hlow : n + k < 8
    · rw [if_pos hlow, if_neg (by omega), UInt8.or_zero, Nat.mod_eq_of_lt hlow]
    · rw [if_neg hlow, if_pos (by omega), UInt8.zero_or, Nat.mod_eq_sub_mod (by omega), Nat.mod_eq_of_lt (by omega)]
      exact congrArg _ (by omega)

/-- The next columns of a circulant matrix. -/
theorem turned_multiples (a : UInt8) (hk : k < 8) :
    turned k (multiples p c a) = multiples p (fun j => c ((j + 8 - k) % 8)) a := by
  apply long_ext
  intro n hn
  have hplace : (7 - n + 8 - k) % 8 = 7 - (n + k) % 8 := by omega
  rw [longByte_turned _ hk hn, multiples, multiples, longByte_rowOf (le_refl 8) _ (Nat.mod_lt _ (by decide)),
    longByte_rowOf (le_refl 8) _ hn, if_pos (Nat.mod_lt _ (by decide)), if_pos hn, hplace]

end Columns

/-! ## Lookups -/

section Lookups

variable {ι : Type} {p : UInt8} {c : ι → Nat → Nat} {S : UInt8 → UInt8} {T : ι → UInt8 → UInt64} {j : Nat}

/-- The sum of words has the sums of their bytes. -/
theorem longByte_foldl_xor (l : List ι) (f : ι → UInt64) (w : UInt64) (hj : j < 8) :
    longByte (l.foldl (fun w k => w ^^^ f k) w) j = longByte w j ^^^ xorSum l fun k => longByte (f k) j := by
  induction l generalizing w with
  | nil => exact (UInt8.xor_zero).symm
  | cons k l ih =>
    rw [List.foldl_cons, ih, longByte_xor _ _ hj, UInt8.xor_assoc]
    rfl

/-- What is looked up for some bytes adds up to the product of the matrix with the values of the S-box. -/
theorem longByte_lookups (hc : ∀ k j, c k j < 16) (hT : ∀ k x, T k x = multiples p (c k) (S x)) (l : List ι)
    (y : ι → UInt8) (hj : j < 8) :
    longByte (l.foldl (fun w k => w ^^^ T k (y k)) 0) (7 - j) =
      xorSum l fun k => mulByte p (S (y k)) (UInt8.ofNat (c k j)) := by
  rw [longByte_foldl_xor l (fun k => T k (y k)) 0 (by omega), longByte_zero, UInt8.zero_xor]
  refine congrArg (xorSum l) (funext fun k => ?_)
  rw [hT, longByte_multiples (hc k) _ hj]

end Lookups

/-! ## Words and their bytes -/

/-- Rows of eight bytes. -/
def Grid (n : Nat) : Type := Vector (Vector UInt8 8) n

namespace Grid

variable {n : Nat}

def cell (a : Grid n) (i : Fin n) (j : Fin 8) : UInt8 := (Vector.get a i).get j

def ofCells (f : Fin n → Fin 8 → UInt8) : Grid n := Vector.ofFn fun i => Vector.ofFn fun j => f i j

def add (a b : Grid n) : Grid n := ofCells fun i j => a.cell i j ^^^ b.cell i j

/-- The bytes of a block, row by row. -/
def ofBytes (n : Nat) (bs : List UInt8) : Grid n := ofCells fun i j => bs.getD (8 * i + j) 0

def bytes (a : Grid n) : List UInt8 := (Vector.toList a).flatMap Vector.toList

/-- The bytes of some words, the highest one first. -/
def ofWords (x : Vector UInt64 n) : Grid n := ofCells fun i j => longByte (x.get i) (7 - j)

@[simp] theorem cell_ofCells (f : Fin n → Fin 8 → UInt8) (i : Fin n) (j : Fin 8) : (ofCells f).cell i j = f i j := by
  have hrow : Vector.get (ofCells f) i = Vector.ofFn fun j => f i j := Vector.getElem_ofFn i.isLt
  rw [cell, hrow]
  exact Vector.getElem_ofFn j.isLt

theorem ext_cells {a b : Grid n} (h : ∀ i j, a.cell i j = b.cell i j) : a = b := by
  apply Vector.ext
  intro i hi
  apply Vector.ext
  intro j hj
  exact h ⟨i, hi⟩ ⟨j, hj⟩

@[simp] theorem cell_add (a b : Grid n) (i : Fin n) (j : Fin 8) : (a.add b).cell i j = a.cell i j ^^^ b.cell i j :=
  cell_ofCells _ i j

@[simp] theorem cell_ofWords (x : Vector UInt64 n) (i : Fin n) (j : Fin 8) :
    (ofWords x).cell i j = longByte (x.get i) (7 - j) := cell_ofCells _ i j

theorem ofWords_zipWith (x y : Vector UInt64 n) :
    ofWords (Vector.zipWith (· ^^^ ·) x y) = (ofWords x).add (ofWords y) := by
  apply ext_cells
  intro i j
  have hget : (Vector.zipWith (· ^^^ ·) x y).get i = x.get i ^^^ y.get i := Vector.getElem_zipWith i.isLt
  rw [cell_ofWords, hget, longByte_xor _ _ (by omega), cell_add, cell_ofWords, cell_ofWords]

/-- The bytes of a word that is read from memory. -/
theorem longByte_convert {bs : List UInt8} (hbs : bs.length = 8) {j : Nat} (hj : j < 8) :
    longByte (convert word64 .big bs) (7 - j) = bs.getD j 0 := by
  have hbytes : convertBytes word64 .big (convert word64 .big bs) = bs := convertBytes_convert hbs
  have hget : bs[j]? = some (longByte (convert word64 .big bs) (7 - j)) := by
    conv_lhs => rw [← hbytes, convertBytes_big_long, List.getElem?_map, List.getElem?_range hj]
    rfl
  rw [List.getD_eq_getElem?_getD, hget, Option.getD_some]

theorem ofWords_copyIn {block : List UInt8} (hblock : block.length = 8 * n) :
    ofWords (copyIn word64 .big n block) = ofBytes n block := by
  apply ext_cells
  intro i j
  have hi := i.isLt
  have hget : (copyIn word64 .big n block).get i = convert word64 .big ((block.drop (8 * i)).take 8) :=
    Vector.getElem_ofFn i.isLt
  have hlen : ((block.drop (8 * i)).take 8).length = 8 := by
    rw [List.length_take, List.length_drop, hblock]
    omega
  rw [cell_ofWords, ofBytes, cell_ofCells, hget, longByte_convert hlen j.isLt, List.getD_eq_getElem?_getD,
    List.getD_eq_getElem?_getD, List.getElem?_take_of_lt j.isLt, List.getElem?_drop]

theorem copyOut_eq (x : Vector UInt64 n) : copyOut word64 .big x = (ofWords x).bytes := by
  have hrow : ∀ w : UInt64, convertBytes word64 .big w = (Vector.ofFn fun j : Fin 8 => longByte w (7 - j)).toList := by
    intro w
    rw [convertBytes_big_long, Vector.toList_ofFn, List.ofFn_eq_map]
    rfl
  have hwords : x.toList = List.ofFn x.get := by
    apply List.ext_getElem
    · rw [Vector.length_toList, List.length_ofFn]
    · intro i hi hi'
      rw [List.getElem_ofFn, Vector.getElem_toList]
      rfl
  rw [copyOut, bytes, ofWords, ofCells, Vector.toList_ofFn, hwords, List.ofFn_eq_map, List.ofFn_eq_map,
    List.flatMap_map, List.flatMap_map]
  exact congrArg (List.flatMap · _) (funext fun i => hrow (x.get i))

end Grid

end Drew.Field
