import Drew.Block.Aria.Model

/-!
# The layers of ARIA

`Permute` and the diffusion `afunc` are linear and their own inverses, and the two substitution layers
are inverse to one another.
-/

namespace Drew.Aria

open Drew.Block

/-! ## Exclusive or -/

theorem get_xorBlock (x y : Block) (i : Fin 16) : (xorBlock x y).get i = x.get i ^^^ y.get i :=
  Vector.getElem_zipWith i.isLt

theorem block_ext {x y : Block} (h : ∀ i, x.get i = y.get i) : x = y :=
  Vector.ext fun i hi => h ⟨i, hi⟩

theorem xorBlock_comm (x y : Block) : xorBlock x y = xorBlock y x := by
  apply block_ext
  intro i
  rw [get_xorBlock, get_xorBlock, UInt8.xor_comm]

theorem xorBlock_cancel (x y : Block) : xorBlock (xorBlock x y) y = x := by
  apply block_ext
  intro i
  rw [get_xorBlock, get_xorBlock, Field.xor_byte_self_right]

/-! ## The permutation -/

theorem permute_permute (x : Block) : permute (permute x) = x := by
  apply block_ext
  intro i
  fin_cases i <;> rfl

theorem permute_xorBlock (x y : Block) : permute (xorBlock x y) = xorBlock (permute x) (permute y) := by
  apply block_ext
  intro i
  rw [get_xorBlock]
  fin_cases i <;> exact get_xorBlock x y _

/-! ## The diffusion -/

/-- The sum of the bytes at some places. -/
def xorSum (x : Block) (l : List (Fin 16)) : UInt8 := l.foldr (fun i a => x.get i ^^^ a) 0

/-- The places that `afunc` adds up. -/
def rows : List (List (Fin 16)) :=
  [[12, 1, 6, 11, 9, 7, 2], [8, 5, 2, 15, 0, 14, 11], [0, 13, 10, 7, 1, 15, 4],
    [4, 9, 14, 3, 8, 6, 13], [8, 5, 2, 15, 13, 3, 6], [12, 1, 6, 11, 4, 10, 15],
    [4, 9, 14, 3, 5, 11, 0], [0, 13, 10, 7, 12, 2, 9], [4, 9, 14, 3, 1, 15, 10],
    [0, 13, 10, 7, 8, 6, 3], [8, 5, 2, 15, 9, 7, 12], [12, 1, 6, 11, 0, 14, 5],
    [0, 13, 10, 7, 5, 11, 14], [4, 9, 14, 3, 12, 2, 7], [12, 1, 6, 11, 13, 3, 8],
    [8, 5, 2, 15, 4, 10, 1]]

def row (i : Fin 16) : List (Fin 16) := rows.getD i []

theorem get_afunc (x : Block) (i : Fin 16) : (afunc x).get i = xorSum x (row i) := by
  have hassoc : ∀ a b c d e f g : UInt8, a ^^^ b ^^^ c ^^^ d ^^^ (e ^^^ f) ^^^ g =
      a ^^^ (b ^^^ (c ^^^ (d ^^^ (e ^^^ (f ^^^ (g ^^^ 0)))))) := by
    intro a b c d e f g
    simp only [UInt8.xor_assoc, UInt8.xor_zero]
  fin_cases i <;> exact hassoc _ _ _ _ _ _ _

theorem xorSum_append (x : Block) (l m : List (Fin 16)) :
    xorSum x (l ++ m) = xorSum x l ^^^ xorSum x m := by
  induction l with
  | nil => exact UInt8.zero_xor.symm
  | cons i l ih =>
    show x.get i ^^^ xorSum x (l ++ m) = x.get i ^^^ xorSum x l ^^^ xorSum x m
    rw [ih, UInt8.xor_assoc]

theorem xorSum_xorBlock (x y : Block) (l : List (Fin 16)) :
    xorSum (xorBlock x y) l = xorSum x l ^^^ xorSum y l := by
  induction l with
  | nil => exact UInt8.xor_self.symm
  | cons i l ih =>
    show (xorBlock x y).get i ^^^ xorSum (xorBlock x y) l =
      x.get i ^^^ xorSum x l ^^^ (y.get i ^^^ xorSum y l)
    rw [ih, get_xorBlock, Field.xor_byte_comm_middle]

theorem afunc_xorBlock (x y : Block) : afunc (xorBlock x y) = xorBlock (afunc x) (afunc y) := by
  apply block_ext
  intro i
  rw [get_xorBlock, get_afunc, get_afunc, get_afunc, xorSum_xorBlock]

/-- Sums of sums. -/
theorem xorSum_afunc (x : Block) (l : List (Fin 16)) : xorSum (afunc x) l = xorSum x (l.flatMap row) := by
  induction l with
  | nil => rfl
  | cons i l ih =>
    show (afunc x).get i ^^^ xorSum (afunc x) l = _
    rw [ih, get_afunc, List.flatMap_cons, xorSum_append]

theorem xorSum_perm (x : Block) {l m : List (Fin 16)} (h : l.Perm m) : xorSum x l = xorSum x m := by
  induction h with
  | nil => rfl
  | cons i _ ih => exact congrArg (x.get i ^^^ ·) ih
  | swap i j l =>
    show x.get j ^^^ (x.get i ^^^ _) = x.get i ^^^ (x.get j ^^^ _)
    rw [← UInt8.xor_assoc, UInt8.xor_comm (x.get j), UInt8.xor_assoc]
  | trans _ _ h1 h2 => exact h1.trans h2

/-- Half of the occurrences of each place. -/
def halves (l : List (Fin 16)) : List (Fin 16) :=
  (List.finRange 16).flatMap fun j => List.replicate (l.count j / 2) j

/-- Two rows after one another have every place an even number of times, but one. -/
theorem rows_perm (i : Fin 16) :
    ((row i).flatMap row).Perm (i :: (halves ((row i).flatMap row) ++ halves ((row i).flatMap row))) := by
  revert i
  decide +kernel

theorem afunc_afunc (x : Block) : afunc (afunc x) = x := by
  apply block_ext
  intro i
  rw [get_afunc, xorSum_afunc, xorSum_perm x (rows_perm i)]
  show x.get i ^^^ xorSum x (_ ++ _) = x.get i
  rw [xorSum_append, UInt8.xor_self, UInt8.xor_zero]

/-! ## The substitutions -/

theorem sb3_sb1 (b : UInt8) : sb3.entry (sb1.entry b) = b ∧ sb1.entry (sb3.entry b) = b := by
  revert b
  apply Field.forall_byte
  decide +kernel

theorem sb4_sb2 (b : UInt8) : sb4.entry (sb2.entry b) = b ∧ sb2.entry (sb4.entry b) = b := by
  revert b
  apply Field.forall_byte
  decide +kernel

/-- The table at a place, in `sl1` and in `sl2`. -/
def box (second : Bool) (i : Nat) : Table :=
  (if second then [sb3, sb4, sb1, sb2] else [sb1, sb2, sb3, sb4]).getD (i / 4) []

/-- A layer after its key. -/
def substitute (second : Bool) (t : Block) : Block := Vector.ofFn fun i => (box second i).entry (t.get i)

theorem get_substitute (second : Bool) (t : Block) (i : Fin 16) :
    (substitute second t).get i = (box second i).entry (t.get i) :=
  Vector.getElem_ofFn i.isLt

theorem sl1_eq (inp x : Block) : sl1 inp x = substitute false (xorBlock inp x) := by
  apply block_ext
  intro i
  rw [get_substitute]
  fin_cases i <;> rfl

theorem sl2_eq (inp x : Block) : sl2 inp x = substitute true (xorBlock inp x) := by
  apply block_ext
  intro i
  rw [get_substitute]
  fin_cases i <;> rfl

/-- One layer undoes the other. -/
theorem substitute_substitute (second : Bool) (t : Block) :
    substitute second (substitute (!second) t) = t := by
  apply block_ext
  intro i
  rw [get_substitute, get_substitute]
  have hbox : ∀ n < 4, ∀ b : UInt8, ((if second then [sb3, sb4, sb1, sb2] else [sb1, sb2, sb3, sb4]).getD n []).entry
      (((if !second then [sb3, sb4, sb1, sb2] else [sb1, sb2, sb3, sb4]).getD n []).entry b) = b := by
    intro n hn b
    obtain ⟨h31, h13⟩ := sb3_sb1 b
    obtain ⟨h42, h24⟩ := sb4_sb2 b
    cases second with
    | false => interval_cases n <;> assumption
    | true => interval_cases n <;> assumption
  exact hbox (i / 4) (by omega) _

/-!
## Decryption with ARIA

`Decrypt` is `Encrypt` with the keys in opposite order, those between the first and the last one taken
through the diffusion. The number of rounds is even, so every layer of substitutions meets the other
kind on the way back.
-/

/-- Whether a round uses `sl2`. -/
def second (i : Nat) : Bool := i % 2 == 1

theorem second_back {n i : Nat} (hn : n % 2 = 0) (hi : i < n) : second (n - 1 - i) = !second i := by
  unfold second
  rcases Nat.mod_two_eq_zero_or_one i with h | h
  · rw [show (n - 1 - i) % 2 = 1 by omega, h]
    rfl
  · rw [show (n - 1 - i) % 2 = 0 by omega, h]
    rfl

/-- A round, without the distinction of cases. -/
theorem round_eq (sk : Vector Block 17) (x : Block) (i : Nat) :
    round sk x i = afunc (substitute (second i) (xorBlock x (keyAt sk i))) := by
  unfold round second
  rcases Nat.mod_two_eq_zero_or_one i with h | h
  · rw [if_pos h, h, fo, sl1_eq]
    rfl
  · rw [if_neg (by omega), h, fe, sl2_eq]
    rfl

/-- The state before a round. -/
def stateAt (sk : Vector Block 17) (x : Block) (i : Nat) : Block := (List.range i).foldl (round sk) x

theorem stateAt_succ (sk : Vector Block 17) (x : Block) (i : Nat) :
    stateAt sk x (i + 1) = afunc (substitute (second i) (xorBlock (stateAt sk x i) (keyAt sk i))) := by
  rw [stateAt, List.range_succ, List.foldl_append, List.foldl_cons, List.foldl_nil, round_eq]
  rfl

/-- The state after the substitutions of a round. -/
def middle (sk : Vector Block 17) (x : Block) (i : Nat) : Block :=
  substitute (second i) (xorBlock (stateAt sk x i) (keyAt sk i))

/-- The keys that undo `n` rounds. -/
structure Opposite (n : Nat) (ek dk : Vector Block 17) : Prop where
  first : keyAt dk 0 = keyAt ek n
  between : ∀ i, 0 < i → i < n → keyAt dk i = afunc (keyAt ek (n - i))
  last : keyAt dk n = keyAt ek 0

section Rounds

variable {n : Nat} {ek dk : Vector Block 17}

/-- The rounds on the way back pass through the same states. -/
theorem stateAt_back (hn : n % 2 = 0) (h : Opposite n ek dk) (x : Block) {i : Nat} (hi : i < n) :
    xorBlock (stateAt dk (xorBlock (middle ek x (n - 1)) (keyAt ek n)) i) (keyAt dk i) =
      middle ek x (n - 1 - i) := by
  induction i with
  | zero =>
    show xorBlock (xorBlock (middle ek x (n - 1)) (keyAt ek n)) (keyAt dk 0) = _
    rw [h.first, xorBlock_cancel]
    rfl
  | succ i ih =>
    have hstate : xorBlock (stateAt ek x (n - 1 - i)) (keyAt ek (n - 1 - i)) =
        substitute (second i) (middle ek x (n - 1 - i)) := by
      rw [middle, second_back hn (by omega), substitute_substitute]
    have hstep : stateAt ek x (n - 1 - i) = afunc (middle ek x (n - 1 - (i + 1))) := by
      rw [show n - 1 - i = n - 1 - (i + 1) + 1 by omega, stateAt_succ]
      rfl
    rw [stateAt_succ, ih (by omega), ← hstate, afunc_xorBlock, h.between (i + 1) (by omega) hi,
      show n - (i + 1) = n - 1 - i by omega, xorBlock_cancel, hstep, afunc_afunc]

theorem encryptRounds_eq (hn : n % 2 = 0) (hpos : 0 < n) (sk : Vector Block 17) (x : Block) :
    encryptRounds n sk x = permute (xorBlock (middle sk (permute x) (n - 1)) (keyAt sk n)) := by
  have hlast : second (n - 1) = true := by
    unfold second
    rw [show (n - 1) % 2 = 1 by omega]
    rfl
  rw [encryptRounds, sl2_eq, middle, hlast]
  rfl

/-- The same function with the opposite keys gives the block back. -/
theorem encryptRounds_opposite (hn : n % 2 = 0) (hpos : 0 < n) (h : Opposite n ek dk) (x : Block) :
    encryptRounds n dk (encryptRounds n ek x) = x := by
  have hback := stateAt_back hn h (permute x) (show n - 1 < n by omega)
  rw [encryptRounds_eq hn hpos, encryptRounds_eq hn hpos, permute_permute]
  have hfirst : middle dk (xorBlock (middle ek (permute x) (n - 1)) (keyAt ek n)) (n - 1) =
      xorBlock (permute x) (keyAt ek 0) := by
    have hlast : second (n - 1) = true := second_back hn hpos
    have hfirst : second 0 = !true := rfl
    rw [middle, hback, Nat.sub_self, middle, hlast, hfirst, substitute_substitute]
    rfl
  rw [hfirst, h.last, xorBlock_cancel, permute_permute]

end Rounds

/-! ## The keys for decryption -/

theorem keyAt_setIfInBounds (dk : Vector Block 17) {n : Nat} (b : Block) {i : Nat} (hn : n < 17) (hi : i < 17) :
    keyAt (dk.setIfInBounds n b) i = if n = i then b else keyAt dk i := by
  have hval : (Fin.ofNat 17 i).val = i := Nat.mod_eq_of_lt hi
  show (dk.setIfInBounds n b)[(Fin.ofNat 17 i).val] = _
  by_cases h : n = i
  · rw [if_pos h, Vector.getElem_setIfInBounds, if_pos (h.trans hval.symm)]
  · rw [if_neg h, Vector.getElem_setIfInBounds_ne _ (by omega)]
    rfl

theorem keyAt_loop (ek dk : Vector Block 17) {n m : Nat} (hm : m < 17) {i : Nat} (hi : i < 17) :
    keyAt ((List.range m).foldl (fun dk i => dk.setIfInBounds (i + 1) (afunc (keyAt ek (n - (i + 1))))) dk) i =
      if 0 < i ∧ i ≤ m then afunc (keyAt ek (n - i)) else keyAt dk i := by
  induction m with
  | zero => rw [if_neg (by omega)]; rfl
  | succ m ih =>
    rw [List.range_succ, List.foldl_append, List.foldl_cons, List.foldl_nil,
      keyAt_setIfInBounds _ _ (by omega) hi, ih (by omega)]
    by_cases h : m + 1 = i
    · rw [if_pos h, if_pos (by omega), h]
    · rw [if_neg h]
      by_cases hle : 0 < i ∧ i ≤ m
      · rw [if_pos hle, if_pos (by omega)]
      · rw [if_neg hle, if_neg (by omega)]

theorem decryptKeys_opposite (ek dk : Vector Block 17) {n : Nat} (hpos : 0 < n) (hn : n < 17) :
    Opposite n ek (decryptKeys n ek dk) := by
  have hkey : ∀ i < 17, keyAt (decryptKeys n ek dk) i =
      if n = i then keyAt ek 0 else if 0 < i ∧ i ≤ n - 1 then afunc (keyAt ek (n - i))
      else if 0 = i then keyAt ek n else keyAt dk i := by
    intro i hi
    rw [decryptKeys, keyAt_setIfInBounds _ _ hn hi, keyAt_loop _ _ (by omega) hi,
      keyAt_setIfInBounds _ _ (by omega) hi]
  constructor
  · rw [hkey 0 (by omega), if_neg (by omega), if_neg (by omega), if_pos rfl]
  · intro i h0 hlt
    rw [hkey i (by omega), if_neg (by omega), if_pos (by omega)]
  · rw [hkey n hn, if_pos rfl]

end Drew.Aria
