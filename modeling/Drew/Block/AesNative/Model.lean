import Drew.Block.Aes.Expansion
import Drew.Block.LongBytes
import Drew.Block.Aes.Schedule

/-!
# AES with the instructions of the processor

The model of the class `AESNI`. A register has four words, and a word in memory has its least significant
byte first. The instructions are those of the processor's manual, on the state that a register holds.
-/

namespace Drew

open Drew.Memory Drew.Block Drew.Aes Drew.Rijndael

/-- The members. The constructor leaves them as they are. Four words of `m_rk` are a register. -/
structure AesNi where
  nr : Nat
  nk : Nat
  rk : Vector UInt32 64
  rkd : Vector Quad 16

namespace AesNi

/-! ## Instructions -/

/-- The column of a word: the first byte in memory is the first row. -/
def column (x : UInt32) : Column := ⟨getByte x 0, getByte x 1, getByte x 2, getByte x 3⟩

/-- The word of a column. -/
def word (a : Column) : UInt32 := ofBytes a.r0 a.r1 a.r2 a.r3

/-- The register that holds a state. -/
def register (s : State 4) : Quad := s.map word

/-- `ShiftRows`. -/
def shifted (v : Quad) : State 4 := shiftRows ⟨1, 2, 3⟩ (stateOf column v)

/-- `InvShiftRows`. -/
def unshifted (v : Quad) : State 4 := shiftRows ⟨3, 2, 1⟩ (stateOf column v)

def aesenc (v k : Quad) : Quad :=
  xorQuad (register (((shifted v).map (Column.map sbox)).map mixColumn)) k

def aesenclast (v k : Quad) : Quad := xorQuad (register ((shifted v).map (Column.map sbox))) k

def aesdec (v k : Quad) : Quad :=
  xorQuad (register (((unshifted v).map (Column.map invSbox)).map unmixColumn)) k

def aesdeclast (v k : Quad) : Quad := xorQuad (register ((unshifted v).map (Column.map invSbox))) k

def aesimc (v : Quad) : Quad := register ((stateOf column v).map unmixColumn)

/-- `SubWord`. -/
def subWord (x : UInt32) : UInt32 := word ((column x).map sbox)

/-- `RotWord` after `SubWord`. -/
def rotSubWord (x : UInt32) : UInt32 := word ((column x).map sbox).rotate

def aeskeygenassist (v : Quad) (imm : UInt8) : Quad :=
  #v[subWord (v.get 1), rotSubWord (v.get 1) ^^^ imm.toUInt32, subWord (v.get 3), rotSubWord (v.get 3) ^^^ imm.toUInt32]

/-! ## The key schedule -/

def rcon : List UInt8 := [0x01, 0x02, 0x04, 0x08, 0x10, 0x20, 0x40, 0x80, 0x1b, 0x36]

/-- The loop of `SetKeyEncrypt`: `rk` is `o` words into the array, `t` is the last register of words, and
`i` counts the constants. It does not end where no pass ends with the last word. -/
def expandLoop (nr nk : Nat) : Nat → Nat → Nat → Quad → Vector UInt32 64 → Option (Vector UInt32 64)
  | 0, _, _, _, _ => none
  | n + 1, o, i, t, rk =>
    let t2 := aeskeygenassist t 0
    let rk := threeWords nk o
      (put rk (o + nk) (entryAt rk o ^^^ t2.get 3 ^^^ (rcon.getD i 0).toUInt32))
    if o + nk + 4 = 4 * (nr + 1) then some rk
    else if nk = 6 then
      let rk := putXor rk (o + 10) (o + 4) (o + 9)
      let rk := putXor rk (o + 11) (o + 5) (o + 10)
      expandLoop nr nk n (o + nk) (i + 1) (put t 3 (entryAt rk (o + 11))) rk
    else if nk = 8 then
      let t := put t 3 (entryAt rk (o + 11))
      let t2 := aeskeygenassist t 0
      let rk := put rk (o + 12) (entryAt rk (o + 4) ^^^ t2.get 2)
      let rk := putXor rk (o + 13) (o + 5) (o + 12)
      let rk := putXor rk (o + 14) (o + 6) (o + 13)
      let rk := putXor rk (o + 15) (o + 7) (o + 14)
      expandLoop nr nk n (o + nk) (i + 1) (put t 3 (entryAt rk (o + 15))) rk
    else expandLoop nr nk n (o + nk) (i + 1) (put t 3 (entryAt rk (o + 7))) rk

/-- The words of the key, copied to the array. -/
def loadKey (key : List UInt8) (rk : Vector UInt32 64) : Vector UInt32 64 :=
  (List.range (key.length / 4)).foldl
    (fun rk j => put rk j (convert word32 .little ((key.drop (4 * j)).take 4))) rk

/-- `SetKeyEncrypt`. There are at most 10 passes. -/
def setKeyEncrypt (nr : Nat) (key : List UInt8) (rk : Vector UInt32 64) : Option (Vector UInt32 64) :=
  expandLoop nr (key.length / 4) 10 0 0 (copyIn word32 .little 4 (key.drop (key.length - 16))) (loadKey key rk)

/-- `SetKeyDecrypt`. -/
def setKeyDecrypt (nr : Nat) (rk : Vector UInt32 64) : Vector Quad 16 :=
  mapBetween aesimc nr (swapEnds nr (Vector.ofFn fun i => quadAt rk i))

/-- The modes of `setkey`. -/
inductive KeyMode
  | both
  | encrypt
  | decrypt
deriving DecidableEq

/-- `SetKeyInternal`. Keys of other lengths are refused. -/
def setKeyInternal (c : AesNi) (key : List UInt8) (mode : KeyMode) : Option AesNi :=
  if key.length = 16 ∨ key.length = 24 ∨ key.length = 32 then do
    let nr := 6 + max 4 (key.length / 4)
    let rk ← setKeyEncrypt nr key c.rk
    some { nr, nk := key.length / 4, rk, rkd := if mode = .encrypt then c.rkd else setKeyDecrypt nr rk }
  else none

/-! ## Encryption and decryption -/

/-- What `Encrypt` and `Decrypt` have in common: a round instruction, the one for the last round, and the
round keys. -/
def crypt (full last : Quad → Quad → Quad) (nr : Nat) (k : Nat → Quad) (b : List UInt8) : List UInt8 :=
  let data := xorQuad (copyIn word32 .little 4 b) (k 0)
  let data := (List.range (nr - 1)).foldl (fun data i => full data (k (i + 1))) data
  copyOut word32 .little (last data (k nr))

/-- `Encrypt`. -/
def encrypt (c : AesNi) (b : List UInt8) : List UInt8 := crypt aesenc aesenclast c.nr (quadAt c.rk) b

/-- `Decrypt`. -/
def decrypt (c : AesNi) (b : List UInt8) : List UInt8 := crypt aesdec aesdeclast c.nr (entryAt c.rkd) b

end AesNi

end Drew

/-!
## AES with instructions is AES

The registers hold the states of the network, and the array of round keys the columns of the expanded
key.
-/

namespace Drew.AesNi

open Drew.Memory Drew.Block Drew.Rijndael Drew.Aes

/-! ## Words and registers -/

theorem column_word (a : Column) : column (word a) = a := by
  rw [column, word, getByte_ofBytes_zero, getByte_ofBytes_one, getByte_ofBytes_two, getByte_ofBytes_three]

theorem column_xor (x y : UInt32) : column (x ^^^ y) = (column x).xor (column y) := by
  apply Column.ext <;> exact getByte_xor x y _

theorem convertBytes_column (x : UInt32) : convertBytes word32 .little x = (column x).toList := convertBytes_little x

theorem column_convert {l : List UInt8} {a : Column} (h : l = a.toList) : column (convert word32 .little l) = a := by
  rw [h, Column.toList, convert_little]
  exact column_word a

theorem stateOf_register (s : State 4) : stateOf column (register s) = s := by
  apply state_ext
  intro c
  have hword : (register s).get c = word (s.get c) := Vector.getElem_map word c.isLt
  rw [get_stateOf, hword, column_word]

theorem stateOf_copyIn {b : List UInt8} (h : b.length = 16) :
    stateOf column (copyIn word32 .little 4 b) = columnsOf 4 b := by
  apply state_ext
  intro c
  have hc := c.isLt
  rw [get_stateOf, get_columnsOf,
    ← column_convert (take_drop_eq_keyColumn (show 4 * c.val + 4 ≤ b.length by omega))]
  exact congrArg column (Vector.getElem_ofFn hc)

theorem copyOut_register (q : Quad) : copyOut word32 .little q = bytesOf (stateOf column q) := by
  rw [copyOut, bytesOf, stateOf, Vector.toList_map, List.flatMap_map]
  exact List.flatMap_congr fun x _ => convertBytes_column x

/-! ## Instructions -/

section Instructions

variable (v k : Quad)

theorem shifted_sbox : (shifted v).map (Column.map sbox) = net.scramble (stateOf column v) :=
  (shiftRows_map ⟨1, 2, 3⟩ sbox (stateOf column v)).symm

theorem unshifted_invSbox : (unshifted v).map (Column.map invSbox) = net.unscramble (stateOf column v) :=
  (shiftRows_map ⟨3, 2, 1⟩ invSbox (stateOf column v)).symm

theorem stateOf_aesenc : stateOf column (aesenc v k) =
    net.add (net.mix (net.scramble (stateOf column v))) (stateOf column k) := by
  rw [aesenc, stateOf_xorQuad column_xor, stateOf_register, shifted_sbox]
  rfl

theorem stateOf_aesenclast : stateOf column (aesenclast v k) =
    net.add (net.scramble (stateOf column v)) (stateOf column k) := by
  rw [aesenclast, stateOf_xorQuad column_xor, stateOf_register, shifted_sbox]
  rfl

theorem stateOf_aesdec : stateOf column (aesdec v k) =
    net.add (net.unmix (net.unscramble (stateOf column v))) (stateOf column k) := by
  rw [aesdec, stateOf_xorQuad column_xor, stateOf_register, unshifted_invSbox]
  rfl

theorem stateOf_aesdeclast : stateOf column (aesdeclast v k) =
    net.add (net.unscramble (stateOf column v)) (stateOf column k) := by
  rw [aesdeclast, stateOf_xorQuad column_xor, stateOf_register, unshifted_invSbox]
  rfl

theorem stateOf_aesimc : stateOf column (aesimc v) = net.unmix (stateOf column v) := stateOf_register _

end Instructions

/-! ## The key schedule -/

theorem column_subWord (x : UInt32) : column (subWord x) = (column x).map sbox := column_word _

theorem column_rotSubWord (x : UInt32) : column (rotSubWord x) = (column x).rotate.map sbox := column_word _

theorem column_rcon {i : Nat} (hi : i < 10) : column (rcon.getD i 0).toUInt32 = ⟨roundConstant i, 0, 0, 0⟩ := by
  revert hi
  revert i
  decide

section Filled

variable {key : List UInt8} {rk : Vector UInt32 64}

/-- With no constant, the last word of the assistance is the rotated and substituted word. -/
theorem assist_three (t : Quad) : (aeskeygenassist t 0).get 3 = rotSubWord (t.get 3) := UInt32.xor_zero

/-- The first four words of a pass. -/
theorem filled_fourWords {i nk o : Nat} {t : Quad} (hkey : key.length / 4 = nk) (h4 : 4 ≤ nk) (hi : i < 10)
    (ho : o = nk * i) (hfit : o + nk + 4 ≤ 64) (h : Filled column key (o + nk) rk)
    (ht : column (t.get 3) = expanded key (o + (nk - 1))) :
    Filled column key (o + nk + 4) (threeWords nk o (put rk (o + nk)
      (entryAt rk o ^^^ (aeskeygenassist t 0).get 3 ^^^ (rcon.getD i 0).toUInt32))) := by
  apply filled_threeWords column_xor hkey ho h4 hfit
  apply filled_put h (by omega)
  rw [column_xor, column_xor, assist_three, column_rotSubWord, column_rcon hi, h _ (by omega), ht,
    expanded_start hkey ho (by omega)]

theorem assist_two (t : Quad) : (aeskeygenassist t 0).get 2 = subWord (t.get 3) := rfl

theorem get_put_three (t : Quad) (x : UInt32) : (put t 3 x).get 3 = x := by
  have h := entryAt_put t (k := 3) (m := 3) x (by decide)
  rwa [if_pos rfl] at h

/-- The word of a pass of eight that the assistance substitutes. -/
theorem filled_substituted {i : Nat} (hkey : key.length / 4 = 8) (hfit : 8 * i + 16 ≤ 64) (t : Quad)
    (h : Filled column key (8 * i + 12) rk) : Filled column key (8 * i + 13) (put rk (8 * i + 12)
      (entryAt rk (8 * i + 4) ^^^ (aeskeygenassist (put t 3 (entryAt rk (8 * i + 11))) 0).get 2)) := by
  apply filled_put h (by omega)
  rw [column_xor, assist_two, get_put_three, column_subWord, h _ (by omega), h _ (by omega)]
  exact (expanded_substituted hkey rfl (by omega)).symm

/-- The loop ends with the words of all round keys. -/
theorem expandLoop_filled {nr nk : Nat} (hkey : key.length / 4 = nk) (hnk : nk = 4 ∨ nk = 6 ∨ nk = 8)
    {passes : Nat} (hend : nk * passes + nk + 4 = 4 * (nr + 1)) (hpasses : passes < 10) (hfit : 4 * (nr + 1) ≤ 64) :
    ∀ (n i : Nat) (t : Quad) (rk : Vector UInt32 64), i ≤ passes → passes < i + n →
      Filled column key (nk * i + nk) rk → column (t.get 3) = expanded key (nk * i + (nk - 1)) →
      ∃ rk', expandLoop nr nk n (nk * i) i t rk = some rk' ∧ Filled column key (4 * (nr + 1)) rk'
  | 0, i, _, _, hi, hn, _, _ => absurd hn (by omega)
  | n + 1, i, t, rk, hi, hn, h, ht => by
    have hmono : nk * i ≤ nk * passes := Nat.mul_le_mul_left nk hi
    have hfour := filled_fourWords hkey (by omega) (show i < 10 by omega) rfl (by omega) h ht
    rw [expandLoop]
    by_cases hlast : i = passes
    · rw [hlast] at hfour ⊢
      rw [hend] at hfour
      exact ⟨_, if_pos hend, hfour⟩
    · have hsucc : nk * (i + 1) ≤ nk * passes := Nat.mul_le_mul_left nk (by omega)
      rw [Nat.mul_succ] at hsucc
      have hnot : ¬nk * i + nk + 4 = 4 * (nr + 1) := by omega
      have hrec := expandLoop_filled hkey hnk hend hpasses hfit n (i + 1)
      rw [Nat.mul_succ] at hrec
      rcases hnk with rfl | rfl | rfl
      · simp only [if_neg hnot]
        apply hrec _ _ (by omega) (by omega) hfour
        rw [get_put_three]
        exact hfour _ (by omega)
      · have h6 := filled_six column_xor hkey rfl (by omega) hfour
        simp only [if_neg hnot]
        apply hrec _ _ (by omega) (by omega) h6
        rw [get_put_three]
        exact h6 _ (by omega)
      · have h8 := filled_eight column_xor hkey rfl (by omega) (filled_substituted hkey (by omega) t hfour)
        simp only [if_neg hnot]
        apply hrec _ _ (by omega) (by omega) h8
        rw [get_put_three]
        exact h8 _ (by omega)

theorem filled_loadKey (key : List UInt8) (rk : Vector UInt32 64) (hkey : key.length ≤ 32) :
    Filled column key (key.length / 4) (loadKey key rk) :=
  filled_key (by omega) fun j hj =>
    column_convert (take_drop_eq_keyColumn (show 4 * j + 4 ≤ key.length by omega))

/-- The last word of the key, in the register that the loop starts with. -/
theorem column_lastWord (hkey : key.length ∈ Aes.keyLengths) :
    column ((copyIn word32 .little 4 (key.drop (key.length - 16))).get 3) = expanded key (key.length / 4 - 1) := by
  have hlen := length_cases hkey
  have hword : (copyIn word32 .little 4 (key.drop (key.length - 16))).get 3 =
      convert word32 .little (((key.drop (key.length - 16)).drop (4 * 3)).take 4) := Vector.getElem_ofFn (by decide)
  have hplace : key.length - 16 + 4 * 3 = 4 * (key.length / 4 - 1) := by omega
  have hpass := pass_eq_expanded (p := 0) (show key.length / 4 - 1 < key.length / 4 by omega)
  rw [Nat.zero_mul, Nat.zero_add] at hpass
  rw [hword, List.drop_drop, hplace,
    column_convert (take_drop_eq_keyColumn (show 4 * (key.length / 4 - 1) + 4 ≤ key.length by omega)), ← hpass]
  rfl

/-- `SetKeyEncrypt` returns, with the words of all round keys in the array. -/
theorem setKeyEncrypt_filled (hkey : key.length ∈ Aes.keyLengths) (rk : Vector UInt32 64) :
    ∃ rk', setKeyEncrypt (numRounds 4 (key.length / 4)) key rk = some rk' ∧
      Filled column key (4 * (numRounds 4 (key.length / 4) + 1)) rk' := by
  have hload := filled_loadKey key rk (by have h := length_cases hkey; omega)
  have hlast := column_lastWord hkey
  rw [setKeyEncrypt]
  generalize hnk : key.length / 4 = nk at hload hlast ⊢
  have hstart : Filled column key (nk * 0 + nk) (loadKey key rk) := by
    rwa [Nat.mul_zero, Nat.zero_add]
  have hfirst : column ((copyIn word32 .little 4 (key.drop (key.length - 16))).get 3) =
      expanded key (nk * 0 + (nk - 1)) := by
    rwa [Nat.mul_zero, Nat.zero_add]
  rcases length_cases hkey with h | h | h <;> rw [h] at hnk <;> subst hnk
  · exact expandLoop_filled (by rw [h]) (.inl rfl) (show 4 * 9 + 4 + 4 = 4 * (10 + 1) from rfl) (by decide) (by decide) 10 0 _ _ (by decide)
      (by decide) hstart hfirst
  · exact expandLoop_filled (by rw [h]) (.inr (.inl rfl)) (show 6 * 7 + 6 + 4 = 4 * (12 + 1) from rfl) (by decide) (by decide) 10 0 _ _
      (by decide) (by decide) hstart hfirst
  · exact expandLoop_filled (by rw [h]) (.inr (.inr rfl)) (show 8 * 6 + 8 + 4 = 4 * (14 + 1) from rfl) (by decide) (by decide) 10 0 _ _
      (by decide) (by decide) hstart hfirst

end Filled

/-! ## Blocks -/

section Blocks

variable {n : Nat} (k : Nat → Quad) {b : List UInt8}

/-- `Encrypt` is encryption with the network. -/
theorem crypt_encrypt (hb : b.length = 16) : crypt aesenc aesenclast (n + 1) k b =
    bytesOf (net.encrypt (fun i => stateOf column (k i)) n (columnsOf 4 b)) := by
  rw [crypt, Nat.add_sub_cancel, copyOut_register, stateOf_aesenclast,
    stateOf_rounds k (stateOf_xorQuad column_xor) stateOf_aesenc, stateOf_copyIn hb, Network.encrypt]

/-- `Decrypt` is the equivalent decryption. -/
theorem crypt_decrypt (hb : b.length = 16) : crypt aesdec aesdeclast (n + 1) k b =
    bytesOf (net.decryptMixed (fun i => stateOf column (k i)) n (columnsOf 4 b)) := by
  rw [crypt, Nat.add_sub_cancel, copyOut_register, stateOf_aesdeclast,
    stateOf_mixedRounds k (stateOf_xorQuad column_xor) stateOf_aesdec, stateOf_copyIn hb, Network.decryptMixed]

end Blocks

variable {key : List UInt8}

/-- What a key makes of a context, whatever was in it before. -/
theorem setKeyInternal_crypt (c : AesNi) (hkey : key.length ∈ Aes.keyLengths) {mode : KeyMode} (hmode : mode ≠ .encrypt) :
    ∃ c', setKeyInternal c key mode = some c' ∧ c'.nr = numRounds 4 (key.length / 4) ∧ ∀ b, b.length = 16 →
      encrypt c' b = bytesOf (net.encrypt (roundKey 4 key) (numRounds 4 (key.length / 4) - 1) (columnsOf 4 b)) ∧
      decrypt c' b = bytesOf (net.decrypt (roundKey 4 key) (numRounds 4 (key.length / 4) - 1) (columnsOf 4 b)) := by
  obtain ⟨rk, hset, hfilled⟩ := setKeyEncrypt_filled hkey c.rk
  have hle : numRounds 4 (key.length / 4) ≤ 14 := by
    have h := length_cases hkey
    unfold numRounds
    omega
  obtain ⟨n, hn⟩ : ∃ n, numRounds 4 (key.length / 4) = n + 1 := ⟨5 + max 4 (key.length / 4), by
    unfold numRounds
    omega⟩
  have hround : ∀ i ≤ n + 1, stateOf column (quadAt rk i) = roundKey 4 key i := by
    intro i hi
    exact stateOf_filled hfilled (by omega)
  have hmixed : net.Mixed (fun i => stateOf column (quadAt rk i))
      (fun i => stateOf column (entryAt (setKeyDecrypt (n + 1) rk) i)) n := mixed_keys _ stateOf_aesimc (by omega)
  have hrounds : 6 + max 4 (key.length / 4) = numRounds 4 (key.length / 4) := rfl
  refine ⟨⟨numRounds 4 (key.length / 4), key.length / 4, rk, setKeyDecrypt (numRounds 4 (key.length / 4)) rk⟩,
    ?_, rfl, ?_⟩
  · rw [setKeyInternal, if_pos (length_cases hkey)]
    simp only [hrounds, hset, Option.bind_eq_bind, Option.bind_some, if_neg hmode]
  · intro b hb
    rw [encrypt, decrypt, hn, Nat.add_sub_cancel, crypt_encrypt _ hb, crypt_decrypt _ hb,
      Network.decryptMixed_eq hmixed]
    exact ⟨congrArg bytesOf (Network.encrypt_congr hround _), congrArg bytesOf (Network.decrypt_congr hround _)⟩

end Drew.AesNi
