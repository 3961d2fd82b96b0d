import Drew.Block.Rijndael.Model

/-!
# Encryption with generic Rijndael

`Round` and `Final` are the layers of the standard, with tables for the products and for the positions.
-/

namespace Drew.Rijndael

open Drew.Memory Drew.Field Drew.Block

/-! ## Products -/

section Products

variable (a : UInt8)

theorem mul_power {k : Nat} (hk : k < 8) : mul (UInt8.ofNat (2 ^ k)) a = (timesX 0x1b)^[k] a :=
  mulByte_power 0x1b a hk

theorem mul_add (j k : UInt8) : mul (j ^^^ k) a = mul j a ^^^ mul k a := mulByte_xor_right 0x1b a j k

theorem mul_one : mul 1 a = a := by
  have h := mul_power a (show 0 < 8 by decide)
  rwa [Function.iterate_zero_apply] at h

theorem mul_two : mul 2 a = timesX 0x1b a := by
  have h := mul_power a (show 1 < 8 by decide)
  rwa [Function.iterate_one] at h

theorem mul_three : mul 3 a = timesX 0x1b a ^^^ a := by
  have h := mul_add a 2 1
  rwa [mul_one, mul_two] at h

/-- The columns that `Et0` to `Et3` have for a byte in each row. -/
theorem et_eq : et0.entry a = ofBytes (mul 2 a) a a (mul 3 a) ∧ et1.entry a = ofBytes (mul 3 a) (mul 2 a) a a ∧
    et2.entry a = ofBytes a (mul 3 a) (mul 2 a) a ∧ et3.entry a = ofBytes a a (mul 3 a) (mul 2 a) := by
  rw [mul_two, mul_three]
  apply forall_byte (P := fun a => et0.entry a = ofBytes (timesX 0x1b a) a a (timesX 0x1b a ^^^ a) ∧
    et1.entry a = ofBytes (timesX 0x1b a ^^^ a) (timesX 0x1b a) a a ∧
    et2.entry a = ofBytes a (timesX 0x1b a ^^^ a) (timesX 0x1b a) a ∧
    et3.entry a = ofBytes a a (timesX 0x1b a ^^^ a) (timesX 0x1b a))
  decide +kernel

end Products

/-- The sum of the four columns is the mixed column. -/
theorem et_xor (a b c d : UInt8) : et0.entry a ^^^ et1.entry b ^^^ et2.entry c ^^^ et3.entry d =
    ofBytes (mixRow a b c d) (mixRow b c d a) (mixRow c d a b) (mixRow d a b c) := by
  rw [(et_eq a).1, (et_eq b).2.1, (et_eq c).2.2.1, (et_eq d).2.2.2, ofBytes_xor, ofBytes_xor, ofBytes_xor]
  congr 1
  · unfold mixRow
    ac_rfl
  · unfold mixRow
    ac_rfl
  · unfold mixRow
    ac_rfl

/-! ## Positions -/

instance (C : Class) : NeZero C.nb := ⟨by cases C <;> decide⟩

/-- How many columns the rows are shifted by. -/
def Class.shifts : Class → Shifts
  | rijndael224 => ⟨1, 2, 4⟩
  | rijndael256 => ⟨1, 3, 4⟩
  | _ => ⟨1, 2, 3⟩

theorem Class.shifts_le (C : Class) : C.shifts.s1 ≤ C.nb ∧ C.shifts.s2 ≤ C.nb ∧ C.shifts.s3 ≤ C.nb := by
  cases C <;> decide

theorem Class.nb_le (C : Class) : C.nb ≤ 8 := by
  cases C <;> decide

/-- The layers of a subclass. -/
def Class.net (C : Class) : Network (State C.nb) := network C.shifts_le

/-- The arguments of `R128R` for a column. -/
def Class.lineFor (C : Class) (c : Nat) : Line :=
  let c1 := (c + C.shifts.s1) % C.nb
  let c2 := (c + C.shifts.s2) % C.nb
  let c3 := (c + C.shifts.s3) % C.nb
  { i := 4 * c, e := 4 * c, f := 4 * c1 + 1, g := 4 * c2 + 2, h := 4 * c3 + 3,
    w := 7 - c, x := 15 - c1, y := 23 - c2, z := 31 - c3 }

/-- The arguments of `R128F` for the bytes of a column. -/
def Class.finalLinesFor (C : Class) (c : Nat) : List FinalLine :=
  let c1 := (c + C.shifts.s1) % C.nb
  let c2 := (c + C.shifts.s2) % C.nb
  let c3 := (c + C.shifts.s3) % C.nb
  [⟨4 * c, 7 - c, 4 * c, 7 - c⟩, ⟨4 * c + 1, 15 - c, 4 * c1 + 1, 15 - c1⟩,
    ⟨4 * c + 2, 23 - c, 4 * c2 + 2, 23 - c2⟩, ⟨4 * c + 3, 31 - c, 4 * c3 + 3, 31 - c3⟩]

/-- The tables of positions are those of the shifted rows. -/
theorem Class.lines_eq (C : Class) : C.lines = (List.range C.nb).map C.lineFor := by
  cases C <;> decide

theorem Class.finalLines_perm (C : Class) :
    C.finalLines.Perm ((List.range C.nb).flatMap C.finalLinesFor) := by
  cases C <;> decide

section Layers

variable {C : Class}

/-- The state in a buffer. -/
def bufState (C : Class) (buf : Buffer) : State C.nb := Vector.ofFn fun c =>
  ⟨byteAt buf (4 * c), byteAt buf (4 * c + 1), byteAt buf (4 * c + 2), byteAt buf (4 * c + 3)⟩

theorem get_bufState (buf : Buffer) (c : Fin C.nb) : (bufState C buf).get c =
    ⟨byteAt buf (4 * c), byteAt buf (4 * c + 1), byteAt buf (4 * c + 2), byteAt buf (4 * c + 3)⟩ :=
  Vector.getElem_ofFn c.isLt

/-- Where the bytes of a round key are in `m_rkb`. -/
structure KeyAt (rk : Nat → UInt8) (k : State C.nb) : Prop where
  row0 : ∀ c : Fin C.nb, rk (7 - c) = (k.get c).r0
  row1 : ∀ c : Fin C.nb, rk (15 - c) = (k.get c).r1
  row2 : ∀ c : Fin C.nb, rk (23 - c) = (k.get c).r2
  row3 : ∀ c : Fin C.nb, rk (31 - c) = (k.get c).r3

/-- The column that `R128R` and `R128F` work on. -/
theorem get_scramble (buf : Buffer) {rk : Nat → UInt8} {k : State C.nb} (hk : KeyAt rk k) (c : Fin C.nb) :
    (C.net.scramble (addKey (bufState C buf) k)).get c =
      ⟨S.entry (byteAt buf (C.lineFor c).e ^^^ rk (C.lineFor c).w),
        S.entry (byteAt buf (C.lineFor c).f ^^^ rk (C.lineFor c).x),
        S.entry (byteAt buf (C.lineFor c).g ^^^ rk (C.lineFor c).y),
        S.entry (byteAt buf (C.lineFor c).h ^^^ rk (C.lineFor c).z)⟩ := by
  have hrow : ∀ m : Nat, column ((addKey (bufState C buf) k).map (Column.map sbox)) c m =
      (((bufState C buf).get (Fin.ofNat C.nb (c + m))).xor (k.get (Fin.ofNat C.nb (c + m)))).map sbox := by
    intro m
    rw [column, get_map_state, get_addKey]
  show (shiftRows C.shifts ((addKey (bufState C buf) k).map (Column.map sbox))).get c = _
  rw [get_shiftRows, hrow, hrow, hrow, get_map_state, get_addKey]
  simp only [get_bufState, Column.map, Column.xor, ← hk.row0, ← hk.row1, ← hk.row2, ← hk.row3]
  rfl

theorem mem_writes_round {buf : Buffer} {rk : Nat → UInt8} (c : Fin C.nb) {w : Nat × UInt8}
    (hw : w ∈ r128r buf rk S (C.lineFor c)) : w ∈ C.lines.flatMap (r128r buf rk S) := by
  rw [C.lines_eq, List.mem_flatMap]
  exact ⟨_, List.mem_map_of_mem (List.mem_range.mpr c.isLt), hw⟩

/-- The positions that `Round` writes to. -/
theorem round_positions (buf : Buffer) (rk : Nat → UInt8) :
    (C.lines.flatMap (r128r buf rk S)).map Prod.fst = List.range (4 * C.nb) := by
  rw [← flatMap_range, C.lines_eq, List.flatMap_map, List.map_flatMap]
  rfl

theorem byteAt_round (obuf buf : Buffer) (rk : Nat → UInt8) (c : Fin C.nb) {p : Nat} {x : UInt8}
    (hp : p < 4 * c + 4) (hw : (p, x) ∈ r128r buf rk S (C.lineFor c)) :
    byteAt (round C obuf buf rk S) p = x := by
  have hc := c.isLt
  have hnb := C.nb_le
  have hval : (Fin.ofNat 32 p).val = p := Nat.mod_eq_of_lt (by omega)
  apply get_writes
  · rw [round_positions]
    exact List.nodup_range
  · rw [hval]
    exact mem_writes_round c hw

/-- `Round` is a round of the standard. -/
theorem bufState_round (obuf buf : Buffer) {rk : Nat → UInt8} {k : State C.nb} (hk : KeyAt rk k) :
    bufState C (round C obuf buf rk S) = C.net.mix (C.net.scramble (C.net.add (bufState C buf) k)) := by
  apply state_ext
  intro c
  show _ = ((C.net.scramble (addKey (bufState C buf) k)).map mixColumn).get c
  rw [get_bufState, get_map_state, get_scramble buf hk, mixColumn]
  have hx := et_xor (S.entry (byteAt buf (C.lineFor c).e ^^^ rk (C.lineFor c).w))
    (S.entry (byteAt buf (C.lineFor c).f ^^^ rk (C.lineFor c).x))
    (S.entry (byteAt buf (C.lineFor c).g ^^^ rk (C.lineFor c).y))
    (S.entry (byteAt buf (C.lineFor c).h ^^^ rk (C.lineFor c).z))
  apply Column.ext
  · apply byteAt_round obuf buf rk c (by omega)
    rw [r128r, hx, getByte_ofBytes_zero]
    exact List.mem_cons_self
  · apply byteAt_round obuf buf rk c (by omega)
    rw [r128r, hx, getByte_ofBytes_one]
    exact List.mem_cons_of_mem _ List.mem_cons_self
  · apply byteAt_round obuf buf rk c (by omega)
    rw [r128r, hx, getByte_ofBytes_two]
    exact List.mem_cons_of_mem _ (List.mem_cons_of_mem _ List.mem_cons_self)
  · apply byteAt_round obuf buf rk c (by omega)
    rw [r128r, hx, getByte_ofBytes_three]
    exact List.mem_cons_of_mem _ (List.mem_cons_of_mem _ (List.mem_cons_of_mem _ List.mem_cons_self))

/-- The positions that `Final` writes to. -/
theorem final_positions (buf : Buffer) (rk : Nat → UInt8) :
    ((C.finalLines.map (r128f buf rk S)).map Prod.fst).Perm (List.range (4 * C.nb)) := by
  rw [← flatMap_range, List.map_map]
  have hperm := C.finalLines_perm.map (Prod.fst ∘ r128f buf rk S)
  rw [List.map_flatMap] at hperm
  exact hperm

theorem byteAt_final (obuf buf : Buffer) (rk : Nat → UInt8) (c : Fin C.nb) {l : FinalLine}
    (hl : l ∈ C.finalLinesFor c) (hx : l.x < 4 * c + 4) :
    byteAt (final C obuf buf rk S) l.x = S.entry (byteAt buf l.y ^^^ rk l.w) ^^^ rk (l.z + 32) := by
  have hc := c.isLt
  have hnb := C.nb_le
  have hval : (Fin.ofNat 32 l.x).val = l.x := Nat.mod_eq_of_lt (by omega)
  apply get_writes
  · exact (final_positions buf rk).nodup_iff.mpr List.nodup_range
  · rw [hval]
    have hmem : l ∈ C.finalLines := by
      rw [C.finalLines_perm.mem_iff, List.mem_flatMap]
      exact ⟨c, List.mem_range.mpr c.isLt, hl⟩
    exact List.mem_map_of_mem (f := r128f buf rk S) hmem

/-- `Final` is the last round of the standard, with its two keys. -/
theorem bufState_final (obuf buf : Buffer) {rk : Nat → UInt8} {k k' : State C.nb} (hk : KeyAt rk k)
    (hk' : KeyAt (fun n => rk (n + 32)) k') :
    bufState C (final C obuf buf rk S) = C.net.add (C.net.scramble (C.net.add (bufState C buf) k)) k' := by
  apply state_ext
  intro c
  show _ = (addKey (C.net.scramble (addKey (bufState C buf) k)) k').get c
  rw [get_bufState, get_addKey, get_scramble buf hk]
  apply Column.ext
  · rw [Column.xor, ← hk'.row0]
    exact byteAt_final obuf buf rk c List.mem_cons_self (show 4 * c.val < 4 * c.val + 4 by omega)
  · rw [Column.xor, ← hk'.row1]
    exact byteAt_final obuf buf rk c (List.mem_cons_of_mem _ List.mem_cons_self)
      (show 4 * c.val + 1 < 4 * c.val + 4 by omega)
  · rw [Column.xor, ← hk'.row2]
    exact byteAt_final obuf buf rk c (List.mem_cons_of_mem _ (List.mem_cons_of_mem _ List.mem_cons_self))
      (show 4 * c.val + 2 < 4 * c.val + 4 by omega)
  · rw [Column.xor, ← hk'.row3]
    exact byteAt_final obuf buf rk c
      (List.mem_cons_of_mem _ (List.mem_cons_of_mem _ (List.mem_cons_of_mem _ List.mem_cons_self)))
      (show 4 * c.val + 3 < 4 * c.val + 4 by omega)

/-! ## The round keys -/

/-- The round key in the rows of `m_rk`. -/
def keyState (C : Class) (rk : Keys) (i : Nat) : State C.nb := Vector.ofFn fun c =>
  ⟨longByte ((wordsAt rk i).get 0) c, longByte ((wordsAt rk i).get 1) c, longByte ((wordsAt rk i).get 2) c,
    longByte ((wordsAt rk i).get 3) c⟩

theorem get_keyState (rk : Keys) (i : Nat) (c : Fin C.nb) : (keyState C rk i).get c =
    ⟨longByte ((wordsAt rk i).get 0) c, longByte ((wordsAt rk i).get 1) c, longByte ((wordsAt rk i).get 2) c,
      longByte ((wordsAt rk i).get 3) c⟩ :=
  Vector.getElem_ofFn c.isLt

/-- A byte of four words in memory. -/
theorem getD_copyOut (v : Vector UInt64 4) (r : Fin 4) {j : Nat} (hj : j < 8) :
    (copyOut word64 .big v).getD (8 * r + j) 0 = longByte (v.get r) (7 - j) := by
  have hr : r.val < v.toList.length := by
    rw [Vector.length_toList]
    exact r.isLt
  have htake := take_drop_flatMap (f := convertBytes word64 .big) (n := 8) length_convertBytes v.toList r.val hr
  have hget : (((copyOut word64 .big v).drop (8 * r)).take 8)[j]? = some (longByte (v.get r) (7 - j)) := by
    rw [copyOut, htake, Vector.getElem_toList, convertBytes_big_long, List.getElem?_map, List.getElem?_range hj]
    rfl
  rw [List.getElem?_take_of_lt hj, List.getElem?_drop] at hget
  rw [List.getD_eq_getElem?_getD, hget, Option.getD_some]

/-- `m_rkb` has the round keys in the order in which the tables of positions expect them. -/
theorem keyByte_copyKeys (rk : Keys) (rkb : Vector UInt8 480) {nr i : Nat} (hi : i ≤ nr) (hnr : nr ≤ 14)
    (r : Fin 4) {c : Nat} (hc : c < 8) :
    keyByte (copyKeys nr rk rkb) i (8 * r + (7 - c)) = longByte ((wordsAt rk i).get r) c := by
  have hr := r.isLt
  have hval : (Fin.ofNat 480 (32 * i + (8 * r + (7 - c)))).val = 32 * i + (8 * r + (7 - c)) :=
    Nat.mod_eq_of_lt (by omega)
  apply get_writes
  · have hpos : ((List.range (nr + 1)).flatMap fun i => (List.range 32).map fun j =>
        (32 * i + j, (copyOut word64 .big (wordsAt rk i)).getD j 0)).map Prod.fst = List.range (32 * (nr + 1)) := by
      rw [← flatMap_range, List.map_flatMap]
      simp only [List.map_map]
      rfl
    rw [hpos]
    exact List.nodup_range
  · rw [hval, List.mem_flatMap]
    refine ⟨i, List.mem_range.mpr (by omega), ?_⟩
    rw [show longByte ((wordsAt rk i).get r) c = (copyOut word64 .big (wordsAt rk i)).getD (8 * r + (7 - c)) 0 by
      rw [getD_copyOut _ r (by omega), show 7 - (7 - c) = c by omega]]
    exact List.mem_map_of_mem (f := fun j => (32 * i + j, (copyOut word64 .big (wordsAt rk i)).getD j 0))
      (List.mem_range.mpr (show 8 * r.val + (7 - c) < 32 by omega))

theorem keyAt_copyKeys (rk : Keys) (rkb : Vector UInt8 480) {nr i : Nat} (hi : i ≤ nr) (hnr : nr ≤ 14) :
    KeyAt (keyByte (copyKeys nr rk rkb) i) (keyState C rk i) := by
  have hnb := C.nb_le
  constructor <;> intro c <;> have hc := c.isLt <;> rw [get_keyState]
  · rw [← keyByte_copyKeys rk rkb hi hnr 0 (show c.val < 8 by omega)]
    exact congrArg _ (show 7 - c.val = 8 * 0 + (7 - c.val) by omega)
  · rw [← keyByte_copyKeys rk rkb hi hnr 1 (show c.val < 8 by omega)]
    exact congrArg _ (show 15 - c.val = 8 * 1 + (7 - c.val) by omega)
  · rw [← keyByte_copyKeys rk rkb hi hnr 2 (show c.val < 8 by omega)]
    exact congrArg _ (show 23 - c.val = 8 * 2 + (7 - c.val) by omega)
  · rw [← keyByte_copyKeys rk rkb hi hnr 3 (show c.val < 8 by omega)]
    exact congrArg _ (show 31 - c.val = 8 * 3 + (7 - c.val) by omega)

theorem keyByte_next (rkb : Vector UInt8 480) (i : Nat) :
    (fun n => keyByte rkb i (n + 32)) = keyByte rkb (i + 1) := by
  ext n : 1
  unfold keyByte
  congr 2
  omega

/-! ## Blocks -/

/-- The loop of `EncryptBlock`, where one of the two buffers has the state. -/
theorem bufState_rounds {c : Rijndael} {k : Nat → State C.nb} {n : Nat}
    (hk : ∀ i < n, KeyAt (keyByte c.rkb i) (k i)) (state buf : Buffer) :
    bufState C ((List.range n).foldl
        (fun (pq : Buffer × Buffer) i => (round C pq.2 pq.1 (keyByte c.rkb i) S, pq.1)) (state, buf)).1 =
      (List.range n).foldl (fun y i => C.net.mix (C.net.scramble (C.net.add y (k i)))) (bufState C state) := by
  induction n with
  | zero => rfl
  | succ n ih =>
    rw [List.range_succ, List.foldl_append, List.foldl_append, List.foldl_cons, List.foldl_nil, List.foldl_cons,
      List.foldl_nil, bufState_round _ _ (hk n (by omega)), ih fun i hi => hk i (by omega)]

/-- `EncryptBlock` is encryption with the network. -/
theorem bufState_encryptBlock {c : Rijndael} {k : Nat → State C.nb} {n : Nat} (hnr : c.nr = n + 1)
    (hk : ∀ i ≤ n + 1, KeyAt (keyByte c.rkb i) (k i)) (state : Buffer) :
    bufState C (encryptBlock C c state) = C.net.encrypt k n (bufState C state) := by
  have hlast : KeyAt (fun m => keyByte c.rkb n (m + 32)) (k (n + 1)) := by
    rw [keyByte_next]
    exact hk (n + 1) (by omega)
  rw [encryptBlock, hnr, Nat.add_sub_cancel]
  show bufState C (final C _ _ _ S) = _
  rw [bufState_final _ _ (hk n (by omega)) hlast, bufState_rounds (fun i hi => hk i (by omega)),
    Network.stateAt_eq_foldl]
  rfl

theorem byteAt_ofFn (b : List UInt8) {p : Nat} (hp : p < 32) :
    byteAt (Vector.ofFn fun p => b.getD p 0) p = b.getD p 0 := by
  have hval : (Fin.ofNat 32 p).val = p := Nat.mod_eq_of_lt hp
  show (Vector.ofFn fun p : Fin 32 => b.getD p 0)[(Fin.ofNat 32 p).val] = _
  rw [Vector.getElem_ofFn]
  exact congrArg (b.getD · 0) hval

theorem bufState_ofFn (b : List UInt8) : bufState C (Vector.ofFn fun p => b.getD p 0) = columnsOf C.nb b := by
  have hnb := C.nb_le
  apply state_ext
  intro c
  have hc := c.isLt
  rw [get_bufState, get_columnsOf, byteAt_ofFn b (by omega), byteAt_ofFn b (by omega), byteAt_ofFn b (by omega),
    byteAt_ofFn b (by omega)]
  rfl

/-- The bytes of a buffer that belong to a block. -/
theorem take_buffer (buf : Buffer) : buf.toList.take (4 * C.nb) = bytesOf (bufState C buf) := by
  have hnb := C.nb_le
  apply eq_bytesOf
  · rw [List.length_take, Vector.length_toList]
    omega
  · intro c
    have hc := c.isLt
    have hget : ∀ p < 4 * C.nb, (buf.toList.take (4 * C.nb)).getD p 0 = byteAt buf p := by
      intro p hp
      have hlen : p < buf.toList.length := by
        rw [Vector.length_toList]
        omega
      have hval : (Fin.ofNat 32 p).val = p := Nat.mod_eq_of_lt (by omega)
      rw [List.getD_eq_getElem?_getD, List.getElem?_take_of_lt hp, List.getElem?_eq_getElem hlen,
        Vector.getElem_toList, Option.getD_some]
      show buf[p] = buf[(Fin.ofNat 32 p).val]
      exact getElem_congr_idx hval.symm
    rw [get_bufState, keyColumn, hget _ (by omega), hget _ (by omega), hget _ (by omega), hget _ (by omega)]

/-- `Encrypt` is encryption with the network. -/
theorem encrypt_eq {c : Rijndael} {k : Nat → State C.nb} {n : Nat} (hnr : c.nr = n + 1)
    (hk : ∀ i ≤ n + 1, KeyAt (keyByte c.rkb i) (k i)) (b : List UInt8) :
    encrypt C c b = bytesOf (C.net.encrypt k n (columnsOf C.nb b)) := by
  rw [encrypt, take_buffer, bufState_encryptBlock hnr hk, bufState_ofFn]

end Layers

end Drew.Rijndael
