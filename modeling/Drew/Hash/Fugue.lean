import Drew.Hash.Fugue.Smix
import Drew.Hash.Length

/-!
# Fugue

The model of `fugue.cc`. A round turns the state by three words, adds some of them to others and mixes the first
four; the functions `ror3cmix` do the first two of these in one pass. `Pad` does not use the buffer of the template
for the end of the message but a block of its own, of two words.
-/

namespace Drew.Fugue

open Drew.Memory Drew.Stream Drew.Hash

variable {n : Nat}

/-! ## Words -/

/-- `s[i] ^= s[j]`. -/
def xorInto (s : Vector UInt32 n) (i j : Fin n) : Vector UInt32 n := s.set i (s.get i ^^^ s.get j)

def tix256 (s : Vector UInt32 30) (p : UInt32) : Vector UInt32 30 :=
  let s := xorInto s 10 0
  let s := s.set 0 p
  let s := xorInto s 8 0
  xorInto s 1 24

def tix384 (s : Vector UInt32 36) (p : UInt32) : Vector UInt32 36 :=
  let s := xorInto s 16 0
  let s := s.set 0 p
  let s := xorInto s 8 0
  let s := xorInto s 1 27
  xorInto s 4 30

def tix512 (s : Vector UInt32 36) (p : UInt32) : Vector UInt32 36 :=
  let s := xorInto s 22 0
  let s := s.set 0 p
  let s := xorInto s 8 0
  let s := xorInto s 1 24
  let s := xorInto s 4 27
  xorInto s 7 30

/-- The loop of the functions `ror`. -/
def ror (s : Vector UInt32 n) (off : Nat) : Vector UInt32 n :=
  Vector.ofFn fun i => s.get ⟨(i + n - off) % n, Nat.mod_lt _ i.pos⟩

def ror256 (s : Vector UInt32 30) (off : Nat) : Vector UInt32 30 := ror s off

/-- `ror_384` and `ror_512`. -/
def ror384 (s : Vector UInt32 36) (off : Nat) : Vector UInt32 36 := ror s off

def cmix256 (s : Vector UInt32 30) : Vector UInt32 30 :=
  let s := xorInto s 0 4
  let s := xorInto s 1 5
  let s := xorInto s 2 6
  let s := xorInto s 15 4
  let s := xorInto s 16 5
  xorInto s 17 6

def cmix384 (s : Vector UInt32 36) : Vector UInt32 36 :=
  let s := xorInto s 0 4
  let s := xorInto s 1 5
  let s := xorInto s 2 6
  let s := xorInto s 18 4
  let s := xorInto s 19 5
  xorInto s 20 6

def ror3cmix256 (s : Vector UInt32 30) : Vector UInt32 30 :=
  -- The word at `OFF(x, 3)`.
  let o (x : Nat) : UInt32 := s.get ⟨(x + 30 - 3) % 30, Nat.mod_lt _ (by decide)⟩
  #v[
    o 0 ^^^ o 4, o 1 ^^^ o 5, o 2 ^^^ o 6, o 3, o 4, o 5, o 6, o 7, o 8, o 9, o 10, o 11, o 12,
    o 13, o 14, o 15 ^^^ o 4, o 16 ^^^ o 5, o 17 ^^^ o 6, o 18, o 19, o 20, o 21, o 22, o 23,
    o 24, o 25, o 26, o 27, o 28, o 29]

/-- `ror3cmix_384` and `ror3cmix_512`. -/
def ror3cmix384 (s : Vector UInt32 36) : Vector UInt32 36 :=
  let o (x : Nat) : UInt32 := s.get ⟨(x + 36 - 3) % 36, Nat.mod_lt _ (by decide)⟩
  #v[
    o 0 ^^^ o 4, o 1 ^^^ o 5, o 2 ^^^ o 6, o 3, o 4, o 5, o 6, o 7, o 8, o 9, o 10, o 11, o 12,
    o 13, o 14, o 15, o 16, o 17, o 18 ^^^ o 4, o 19 ^^^ o 5, o 20 ^^^ o 6, o 21, o 22, o 23,
    o 24, o 25, o 26, o 27, o 28, o 29, o 30, o 31, o 32, o 33, o 34, o 35]

/-! ### The fused functions -/

theorem get_xorInto (s : Vector UInt32 n) (i j k : Fin n) :
    (xorInto s i j).get k = if i = k then s.get i ^^^ s.get j else s.get k := by
  show (s.set i.val _ i.isLt)[k.val] = _
  rw [Vector.getElem_set]
  simp only [Fin.val_inj]
  rfl

theorem get_ror (s : Vector UInt32 n) (off : Nat) (k : Fin n) :
    (ror s off).get k = s.get ⟨(k + n - off) % n, Nat.mod_lt _ k.pos⟩ := by
  show (ror s off)[k.val] = _
  rw [ror, Vector.getElem_ofFn]

theorem ror3cmix256_eq (s : Vector UInt32 30) : ror3cmix256 s = cmix256 (ror256 s 3) := by
  apply Vector.ext
  intro k hk
  show _ = (cmix256 (ror s 3)).get ⟨k, hk⟩
  simp only [cmix256, get_xorInto, get_ror]
  interval_cases k <;> rfl

theorem ror3cmix384_eq (s : Vector UInt32 36) : ror3cmix384 s = cmix384 (ror384 s 3) := by
  apply Vector.ext
  intro k hk
  show _ = (cmix384 (ror s 3)).get ⟨k, hk⟩
  simp only [cmix384, get_xorInto, get_ror]
  interval_cases k <;> rfl

/-! ## The classes -/

theorem blkSize_dvd : 4 ∣ 2 ^ (8 * 4) := by decide

/-- `Hash<uint32_t, Size, BufSize, 4, BigEndian>`. -/
def params : Hash.Params := ⟨4, 4, pos_4, pos_4, blkSize_dvd⟩

section Pad

variable {σ : Type} (f : σ → List UInt8 → σ)

/-- The end of the message in the buffer, if it has no whole word there. -/
def padWord (h : Hash params σ) (off : Nat) : Option (Buf UInt8 8 × σ) :=
  let block : Buf UInt8 8 := Vector.replicate 8 0
  if off ≠ 0 then do
    let bs ← h.buf.read 0 off
    let block ← block.write 0 bs
    return (block, f h.hash (block.toList.take 4))
  else some (block, h.hash)

/-- `Pad`, which the classes share but for `Transform`. -/
def pad (h : Hash params σ) : Option (Hash params σ) := do
  let off := (h.len0 &&& 3).toNat
  let (block, state) ← padWord f h off
  let hi := h.len1 <<< 3 ||| h.len0 >>> (32 - 3)
  let lo := h.len0 <<< 3
  let block ← block.write 0 (beBytes 8 (hi.toNat * 2 ^ 32 + lo.toNat))
  let state := f state (block.toList.take 4)
  return { h with hash := f state (block.toList.drop 4), len0 := hi, len1 := lo }

end Pad

/-- `CopyCarefully` of words from word `k` on. -/
def copyCarefully (s : Vector UInt32 n) (k len : Nat) : List UInt8 :=
  ((s.toList.drop k).flatMap (convertBytes word32 .big)).take len

/-- The copies of `GetDigest`, with the first word and the largest number of bytes of each. -/
def copyDigest (s : Vector UInt32 n) : List (Nat × Nat) → Nat → List UInt8
  | [], _ => []
  | (k, size) :: parts, len =>
    copyCarefully s k (min len size) ++ if 16 < len then copyDigest s parts (len - 16) else []

/-- `GetDigest`. -/
def getDigest (f : Vector UInt32 n → List UInt8 → Vector UInt32 n) (final : Vector UInt32 n → Vector UInt32 n)
    (parts : List (Nat × Nat)) (h : Hash params (Vector UInt32 n)) (len : Nat) (nopad : Bool) :
    Option (List UInt8) := do
  let h ← if nopad then some h else pad f h
  return copyDigest (final h.hash) parts len

section Classes

variable (e : Endian)

/-! ### Fugue-256 and Fugue-224 -/

/-- `ror3cmix_256` and `smix_256`. -/
def round256 (s : Vector UInt32 30) : Vector UInt32 30 := smix256 e s (ror3cmix256 s)

/-- `Fugue256Transform::Transform`. -/
def transform256 (s : Vector UInt32 30) (block : List UInt8) : Vector UInt32 30 :=
  let p := convert word32 .big block
  let s := tix256 s p
  let s := round256 e s
  round256 e s

/-- The body of the second loop of `Fugue256Transform::Final`. -/
def turn256 (s : Vector UInt32 30) : Vector UInt32 30 :=
  let s := xorInto s 4 0
  let s := xorInto s 15 0
  let s := smix256 e s (ror256 s 15)
  let s := xorInto s 4 0
  let s := xorInto s 16 0
  smix256 e s (ror256 s 14)

/-- `Fugue256Transform::Final`. -/
def final256 (s : Vector UInt32 30) : Vector UInt32 30 :=
  let s := (round256 e)^[10] s
  let s := (turn256 e)^[13] s
  let s := xorInto s 4 0
  xorInto s 15 0

/-- `Fugue256::Reset`. -/
def reset256 : Vector UInt32 30 :=
  Vector.replicate 22 (0 : UInt32) ++ (#v[
    0xe952bdde, 0x6671135f, 0xe0d4f668, 0xd2b0b594, 0xf96c621d, 0xfbf929de, 0x9149e899, 0x34f8c248] :
    Vector UInt32 8)

/-- `Fugue224::Reset`. -/
def reset224 : Vector UInt32 30 :=
  Vector.replicate 23 (0 : UInt32) ++ (#v[
    0xf4c9120d, 0x6286f757, 0xee39e01c, 0xe074e3cb, 0xa1127c62, 0x9a43d215, 0xbd8d679a] :
    Vector UInt32 7)

def getDigest256 (h : Hash params (Vector UInt32 30)) (len : Nat) (nopad : Bool) : Option (List UInt8) :=
  getDigest (transform256 e) (final256 e) [(1, 16), (15, 16)] h len nopad

def getDigest224 (h : Hash params (Vector UInt32 30)) (len : Nat) (nopad : Bool) : Option (List UInt8) :=
  getDigest (transform256 e) (final256 e) [(1, 16), (15, 12)] h len nopad

/-! ### Fugue-384 -/

def round384 (s : Vector UInt32 36) : Vector UInt32 36 := smix384 e s (ror3cmix384 s)

/-- `Fugue384::Transform`. -/
def transform384 (s : Vector UInt32 36) (block : List UInt8) : Vector UInt32 36 :=
  let p := convert word32 .big block
  let s := tix384 s p
  let s := round384 e s
  let s := round384 e s
  round384 e s

def turn384 (s : Vector UInt32 36) : Vector UInt32 36 :=
  let s := xorInto s 4 0
  let s := xorInto s 12 0
  let s := xorInto s 24 0
  let s := smix384 e s (ror384 s 12)
  let s := xorInto s 4 0
  let s := xorInto s 13 0
  let s := xorInto s 24 0
  let s := smix384 e s (ror384 s 12)
  let s := xorInto s 4 0
  let s := xorInto s 13 0
  let s := xorInto s 25 0
  smix384 e s (ror384 s 11)

/-- `Fugue384::Final`. -/
def final384 (s : Vector UInt32 36) : Vector UInt32 36 :=
  let s := (round384 e)^[18] s
  let s := (turn384 e)^[13] s
  let s := xorInto s 4 0
  let s := xorInto s 12 0
  xorInto s 24 0

/-- `Fugue384::Reset`. -/
def reset384 : Vector UInt32 36 :=
  Vector.replicate 24 (0 : UInt32) ++ (#v[
    0xaa61ec0d, 0x31252e1f, 0xa01db4c7, 0x00600985, 0x215ef44a, 0x741b5e9c, 0xfa693e9a, 0x473eb040,
    0xe502ae8a, 0xa99c25e0, 0xbc95517c, 0x5c1095a1] :
    Vector UInt32 12)

def getDigest384 (h : Hash params (Vector UInt32 36)) (len : Nat) (nopad : Bool) : Option (List UInt8) :=
  getDigest (transform384 e) (final384 e) [(1, 16), (12, 16), (24, 16)] h len nopad

/-! ### Fugue-512 -/

/-- `Fugue512::Transform`. -/
def transform512 (s : Vector UInt32 36) (block : List UInt8) : Vector UInt32 36 :=
  let p := convert word32 .big block
  let s := tix512 s p
  let s := round384 e s
  let s := round384 e s
  let s := round384 e s
  round384 e s

def turn512 (s : Vector UInt32 36) : Vector UInt32 36 :=
  let s := xorInto s 4 0
  let s := xorInto s 9 0
  let s := xorInto s 18 0
  let s := xorInto s 27 0
  let s := smix384 e s (ror384 s 9)
  let s := xorInto s 4 0
  let s := xorInto s 10 0
  let s := xorInto s 18 0
  let s := xorInto s 27 0
  let s := smix384 e s (ror384 s 9)
  let s := xorInto s 4 0
  let s := xorInto s 10 0
  let s := xorInto s 19 0
  let s := xorInto s 27 0
  let s := smix384 e s (ror384 s 9)
  let s := xorInto s 4 0
  let s := xorInto s 10 0
  let s := xorInto s 19 0
  let s := xorInto s 28 0
  smix384 e s (ror384 s 8)

/-- `Fugue512::Final`. -/
def final512 (s : Vector UInt32 36) : Vector UInt32 36 :=
  let s := (round384 e)^[32] s
  let s := (turn512 e)^[13] s
  let s := xorInto s 4 0
  let s := xorInto s 9 0
  let s := xorInto s 18 0
  xorInto s 27 0

/-- `Fugue512::Reset`. -/
def reset512 : Vector UInt32 36 :=
  Vector.replicate 20 (0 : UInt32) ++ (#v[
    0x8807a57e, 0xe616af75, 0xc5d3e4db, 0xac9ab027, 0xd915f117, 0xb6eecc54, 0x06e8020b, 0x4a92efd1,
    0xaac6e2c9, 0xddb21398, 0xcae65838, 0x437f203f, 0x25ea78e7, 0x951fddd6, 0xda6ed11d, 0xe13e3567] :
    Vector UInt32 16)

def getDigest512 (h : Hash params (Vector UInt32 36)) (len : Nat) (nopad : Bool) : Option (List UInt8) :=
  getDigest (transform512 e) (final512 e) [(1, 16), (9, 16), (18, 16), (27, 16)] h len nopad

end Classes

/-! ## What is meant -/

/-- A member of the family without fused rounds. -/
structure Variant (n : Nat) where
  four_le : 4 ≤ n
  start : Vector UInt32 n
  tix : Vector UInt32 n → UInt32 → Vector UInt32 n
  cmix : Vector UInt32 n → Vector UInt32 n
  /-- The rounds for a word of the message. -/
  rounds : Nat
  /-- The rounds after all words. -/
  closing : Nat
  /-- Which words the first one is added to, and how far the state is turned then, 13 times. -/
  turns : List (List (Fin n) × Nat)
  /-- Which words the first one is added to in the end. -/
  last : List (Fin n)
  /-- The first word and the number of words of each part of the digest. -/
  output : List (Nat × Nat)

namespace Variant

/-- The first word is added to others. -/
def addFirst (s : Vector UInt32 n) (is : List (Fin n)) : Vector UInt32 n :=
  is.foldl (fun s i => xorInto s i ⟨0, i.pos⟩) s

variable (v : Variant n)

def round (s : Vector UInt32 n) : Vector UInt32 n := superMixWords v.four_le (v.cmix (ror s 3))

/-- A word of the message. -/
def input (s : Vector UInt32 n) (p : UInt32) : Vector UInt32 n := v.round^[v.rounds] (v.tix s p)

def turn (s : Vector UInt32 n) (t : List (Fin n) × Nat) : Vector UInt32 n :=
  superMixWords v.four_le (ror (addFirst s t.1) t.2)

def finish (s : Vector UInt32 n) : Vector UInt32 n :=
  addFirst ((fun s => v.turns.foldl v.turn s)^[13] (v.round^[v.closing] s)) v.last

/-- The words of the digest, most significant byte first. -/
def outputBytes (s : Vector UInt32 n) : List UInt8 :=
  v.output.flatMap fun p => ((s.toList.drop p.1).take p.2).flatMap fun w => beBytes 4 w.toNat

end Variant

/-- A message with zeros up to whole words, and its length in bits. -/
def padded (m : List UInt8) : List UInt8 :=
  m ++ List.replicate ((4 - m.length % 4) % 4) 0 ++ beBytes 8 (8 * m.length)

/-- The digest of a message. -/
def Variant.digest (v : Variant n) (m : List UInt8) : List UInt8 :=
  v.outputBytes (v.finish ((blocksOf params (padded m)).foldl
    (fun s b => v.input s (UInt32.ofNat (beNat b))) v.start))

def fugue256 : Variant 30 where
  four_le := by decide
  start := reset256
  tix := tix256
  cmix := cmix256
  rounds := 2
  closing := 10
  turns := [([4, 15], 15), ([4, 16], 14)]
  last := [4, 15]
  output := [(1, 4), (15, 4)]

def fugue224 : Variant 30 := { fugue256 with start := reset224, output := [(1, 4), (15, 3)] }

def fugue384 : Variant 36 where
  four_le := by decide
  start := reset384
  tix := tix384
  cmix := cmix384
  rounds := 3
  closing := 18
  turns := [([4, 12, 24], 12), ([4, 13, 24], 12), ([4, 13, 25], 11)]
  last := [4, 12, 24]
  output := [(1, 4), (12, 4), (24, 4)]

def fugue512 : Variant 36 where
  four_le := by decide
  start := reset512
  tix := tix512
  cmix := cmix384
  rounds := 4
  closing := 32
  turns := [([4, 9, 18, 27], 9), ([4, 10, 18, 27], 9), ([4, 10, 19, 27], 9), ([4, 10, 19, 28], 8)]
  last := [4, 9, 18, 27]
  output := [(1, 4), (9, 4), (18, 4), (27, 4)]

/-! ## The functions of the state -/

/-- What a class does with the state is what the unfused member does. -/
structure Agrees (v : Variant n) (f : Vector UInt32 n → List UInt8 → Vector UInt32 n)
    (final : Vector UInt32 n → Vector UInt32 n) : Prop where
  transform : ∀ s block, f s block = v.input s (UInt32.ofNat (beNat block))
  final : ∀ s, final s = v.finish s

section Agrees

variable (e : Endian)

theorem round256_eq : round256 e = fugue256.round := by
  funext s
  exact (smixWith_eq e fugue256.four_le s _).trans (congrArg _ (ror3cmix256_eq s))

theorem turn256_eq : turn256 e = fun s => fugue256.turns.foldl fugue256.turn s := by
  funext s
  rw [turn256, smix256, smixWith_eq e fugue256.four_le, smix256, smixWith_eq e fugue256.four_le]
  rfl

theorem agrees256 : Agrees fugue256 (transform256 e) (final256 e) := by
  constructor
  · intro s block
    rw [transform256, round256_eq]
    rfl
  · intro s
    rw [final256, round256_eq, turn256_eq]
    rfl

theorem round384_eq : round384 e = fugue384.round := by
  funext s
  exact (smixWith_eq e fugue384.four_le s _).trans (congrArg _ (ror3cmix384_eq s))

theorem turn384_eq : turn384 e = fun s => fugue384.turns.foldl fugue384.turn s := by
  funext s
  simp only [turn384, smix384, smixWith_eq e fugue384.four_le]
  rfl

theorem turn512_eq : turn512 e = fun s => fugue512.turns.foldl fugue512.turn s := by
  funext s
  simp only [turn512, smix384, smixWith_eq e fugue512.four_le]
  rfl

theorem agrees224 : Agrees fugue224 (transform256 e) (final256 e) :=
  ⟨(agrees256 e).transform, (agrees256 e).final⟩

theorem agrees384 : Agrees fugue384 (transform384 e) (final384 e) := by
  constructor
  · intro s block
    rw [transform384, round384_eq]
    rfl
  · intro s
    rw [final384, round384_eq, turn384_eq]
    rfl

theorem agrees512 : Agrees fugue512 (transform512 e) (final512 e) := by
  have hround : round384 e = fugue512.round := round384_eq e
  constructor
  · intro s block
    rw [transform512, hround]
    rfl
  · intro s
    rw [final512, hround, turn512_eq]
    rfl

end Agrees

/-! ## The padding -/

section Padding

variable {σ : Type} {f : σ → List UInt8 → σ} {s : σ} {m : List UInt8} {h : Hash params σ}

theorem write_replicate {k : Nat} (bs : List UInt8) (hlen : bs.length ≤ k) :
    ∃ w, Buf.write (Vector.replicate k 0) 0 bs = some w ∧
      w.toList = bs ++ List.replicate (k - bs.length) 0 := by
  refine ⟨_, dif_pos (by omega), ?_⟩
  simp

/-- The words of the message, the last of them with zeros. -/
theorem padWord_spec (ha : After f s m h) :
    ∃ block, padWord f h (m.length % 4) = some (block,
      (blocksOf params (m ++ List.replicate ((4 - m.length % 4) % 4) 0)).foldl f s) := by
  obtain ⟨q, hq⟩ : ∃ q, q = m.length / 4 := ⟨_, rfl⟩
  obtain ⟨r, hr⟩ : ∃ r, r = m.length % 4 := ⟨_, rfl⟩
  have hmlen : m.length = q * 4 + r := by omega
  have hhash : h.hash = (chunks 4 q m).foldl f s := hq ▸ ha.hash
  have hbuf : h.buf.Holds 0 (m.drop (q * 4)) := hq ▸ ha.buf
  have hrest : (m.drop (q * 4)).length = r := by
    rw [List.length_drop]
    omega
  rw [← hr, blocksOf]
  by_cases h0 : r = 0
  · refine ⟨Vector.replicate 8 0, ?_⟩
    have hdiv : (m ++ List.replicate ((4 - r) % 4) (0 : UInt8)).length / 4 = q := by
      rw [h0, List.length_append, List.length_replicate]
      omega
    rw [padWord, if_neg (not_not.mpr h0), hhash]
    show _ = some (_, (chunks 4 (_ / 4) _).foldl f s)
    rw [hdiv, h0, Nat.sub_zero, Nat.mod_self, List.replicate_zero, List.append_nil]
  · have hread := hbuf.read
    rw [hrest] at hread
    obtain ⟨w, hwrite, hw⟩ := write_replicate (k := 8) (m.drop (q * 4)) (by omega)
    refine ⟨w, ?_⟩
    have hdiv : (m ++ List.replicate ((4 - r) % 4) (0 : UInt8)).length / 4 = q + 1 := by
      rw [List.length_append, List.length_replicate]
      omega
    have hword : w.toList.take 4 = m.drop (q * 4) ++ List.replicate ((4 - r) % 4) 0 := by
      rw [hw, List.take_append, hrest, List.take_of_length_le (by omega), List.take_replicate]
      congr 2
      omega
    have hlast : chunks 4 (q + 1) (m ++ List.replicate ((4 - r) % 4) 0) = chunks 4 q m ++ [w.toList.take 4] := by
      rw [hword]
      apply chunks_last (by omega)
      rw [List.length_append, hrest, List.length_replicate]
      omega
    show (if r ≠ 0 then _ else _) = some (_, (chunks 4 (_ / 4) _).foldl f s)
    rw [if_pos h0, hdiv, hlast, List.foldl_append, ← hhash]
    simp only [hread, hwrite, Option.bind_eq_bind, Option.bind_some, pure]
    rfl

/-- The length in bits. -/
theorem bitLength_bytes {k : Nat} (hm : h.counter = k % 2 ^ 64) :
    beBytes 8 ((h.len1 <<< 3 ||| h.len0 >>> (32 - 3)).toNat * 2 ^ 32 + (h.len0 <<< 3).toNat) =
      beBytes 8 (8 * k) := by
  have hcounter : h.counter = h.len1.toNat * 2 ^ 32 + h.len0.toNat := rfl
  have hhi : (h.len1 <<< 3 ||| h.len0 >>> (32 - 3)).toNat =
      8 * (h.len1.toNat * 2 ^ 32 + h.len0.toNat) / 2 ^ 32 % 2 ^ 32 := toNat_shift_or (w := 32) (by decide) _ _
  have hlo : (h.len0 <<< 3).toNat = h.len0.toNat * 2 ^ 3 % 2 ^ 32 := by
    rw [BitVec.toNat_shiftLeft, Nat.shiftLeft_eq]
    rfl
  rw [hhi, hlo, ← hcounter, ← beBytes_mod 8 (8 * k), ← beBytes_mod 8 (_ + _)]
  congr 1
  show _ % 2 ^ 64 = 8 * k % 2 ^ 64
  omega

theorem blocksOf_append {xs ys : List UInt8} (hxs : xs.length % 4 = 0) (hys : ys.length = 8) :
    blocksOf params (xs ++ ys) = blocksOf params xs ++ [ys.take 4, ys.drop 4] := by
  have hdiv : (xs ++ ys).length / 4 = xs.length / 4 + 2 := by
    rw [List.length_append, hys]
    omega
  have htwo : chunks 4 2 ys = [ys.take 4, ys.drop 4] := by
    rw [chunks, chunks_one (by rw [List.length_drop]; omega)]
  show chunks 4 (_ / 4) _ = chunks 4 (_ / 4) _ ++ _
  rw [hdiv, chunks_append (by omega), htwo]

/-- `Pad` completes the words of the message. -/
theorem pad_spec (ha : After f s m h) (hm : h.counter = m.length % 2 ^ 64) :
    ∃ h', pad f h = some h' ∧ h'.hash = (blocksOf params (padded m)).foldl f s := by
  obtain ⟨block, hpad⟩ := padWord_spec ha
  have hoff : (h.len0 &&& 3).toNat = m.length % 4 := by
    have hlen0 : h.len0.toNat % 4 = m.length % 4 := ha.off_eq
    rw [← hlen0, BitVec.toNat_and]
    exact Nat.and_two_pow_sub_one_eq_mod h.len0.toNat 2
  have hlen : (beBytes 8 (8 * m.length)).length = 8 := length_beBytes _ _
  obtain ⟨w, hwrite⟩ := Buf.exists_write_at block 0 (beBytes 8 (8 * m.length)) (by omega)
  have hw : w.toList = beBytes 8 (8 * m.length) := (Buf.holds_write hwrite).toList hlen
  have hwhole : (m ++ List.replicate ((4 - m.length % 4) % 4) (0 : UInt8)).length % 4 = 0 := by
    rw [List.length_append, List.length_replicate]
    omega
  refine ⟨{ h with
    hash := f (f ((blocksOf params (m ++ List.replicate ((4 - m.length % 4) % 4) 0)).foldl f s)
      ((beBytes 8 (8 * m.length)).take 4)) ((beBytes 8 (8 * m.length)).drop 4)
    len0 := h.len1 <<< 3 ||| h.len0 >>> (32 - 3)
    len1 := h.len0 <<< 3 }, ?_, ?_⟩
  · rw [pad]
    simp only [hoff, hpad, bitLength_bytes hm, hwrite, hw, Option.bind_eq_bind, Option.bind_some, pure]
  · rw [padded, blocksOf_append hwhole hlen, List.foldl_append]
    rfl

end Padding

/-! ## The digest -/

/-- The words of a part of the digest. -/
def partBytes (s : Vector UInt32 n) (p : Nat × Nat) : List UInt8 :=
  ((s.toList.drop p.1).take p.2).flatMap fun w => beBytes 4 w.toNat

theorem copyCarefully_eq (s : Vector UInt32 n) (k c len : Nat) :
    copyCarefully s k (min len (4 * c)) = (partBytes s (k, c)).take len := by
  have hbytes : ∀ w : UInt32, (convertBytes word32 .big w).length = 4 := fun w => length_convertBytes w
  rw [copyCarefully, ← List.take_take, take_flatMap hbytes]
  rfl

/-- All parts but the last one have four words. -/
def FullParts (n : Nat) : List (Nat × Nat) → Prop
  | [] => True
  | [_] => True
  | p :: q :: ps => p.1 + 4 ≤ n ∧ p.2 = 4 ∧ FullParts n (q :: ps)

theorem copyDigest_eq (s : Vector UInt32 n) {parts : List (Nat × Nat)} (hfull : FullParts n parts) (len : Nat) :
    copyDigest s (parts.map fun p => (p.1, 4 * p.2)) len = (parts.flatMap (partBytes s)).take len := by
  induction parts generalizing len with
  | nil => exact List.take_nil.symm
  | cons p ps ih =>
    rw [List.map_cons, copyDigest, copyCarefully_eq, List.flatMap_cons, List.take_append]
    congr 1
    cases ps with
    | nil =>
      rw [List.flatMap_nil, List.take_nil]
      split <;> rfl
    | cons q ps =>
      obtain ⟨hp, hp4, hps⟩ := hfull
      have hlen : (partBytes s p).length = 16 := by
        rw [partBytes, length_flatMap_of_length (n := 4) (fun w => length_beBytes 4 _), List.length_take,
          List.length_drop, Vector.length_toList, hp4]
        omega
      rw [hlen]
      split
      · exact ih hps (len - 16)
      · rw [show len - 16 = 0 by omega, List.take_zero]

/-- The digest of a message that is given in pieces. -/
theorem digest_spec {v : Variant n} {f : Vector UInt32 n → List UInt8 → Vector UInt32 n}
    {final : Vector UInt32 n → Vector UInt32 n} (hv : Agrees v f final) (hfull : FullParts n v.output)
    {pieces : List (List UInt8)} (hpieces : ∀ p ∈ pieces, p.length < 2 ^ 32) (len : Nat) :
    ∃ h, pieces.foldlM (update f) (init v.start : Hash params (Vector UInt32 n)) = some h ∧
      getDigest f final (v.output.map fun p => (p.1, 4 * p.2)) h len false =
        some ((v.digest pieces.flatten).take len) := by
  obtain ⟨h, hrun, ha⟩ := run_spec (after_nil (P := params) f v.start) pieces
  have hshort : ∀ p ∈ pieces, p.length % 2 ^ (2 * params.wordBits) < 2 ^ params.wordBits := fun p hp =>
    (Nat.mod_le _ _).trans_lt (hpieces p hp)
  have hcounter := counter_run (after_nil f v.start) (counter_init v.start) hshort hrun
  obtain ⟨h', hpad, hhash⟩ := pad_spec ha hcounter
  refine ⟨h, hrun, ?_⟩
  have hf : f = fun s b => v.input s (UInt32.ofNat (beNat b)) := by
    funext s b
    exact hv.transform s b
  rw [List.nil_append] at hhash
  rw [getDigest]
  simp only [Bool.false_eq_true, if_false, hpad, Option.bind_eq_bind, Option.bind_some, pure]
  rw [copyDigest_eq _ hfull, hv.final, hhash]
  conv_lhs => rw [hf]
  rfl

/-- Pieces given to a new object, and the digest. -/
def digestOf (f : Vector UInt32 n → List UInt8 → Vector UInt32 n) (start : Vector UInt32 n)
    (get : Hash params (Vector UInt32 n) → Option (List UInt8)) (pieces : List (List UInt8)) :
    Option (List UInt8) :=
  (pieces.foldlM (update f) (init start)).bind get

theorem digestOf_eq {v : Variant n} {f : Vector UInt32 n → List UInt8 → Vector UInt32 n}
    {final : Vector UInt32 n → Vector UInt32 n} (hv : Agrees v f final) (hfull : FullParts n v.output)
    {pieces : List (List UInt8)} (hpieces : ∀ p ∈ pieces, p.length < 2 ^ 32) (len : Nat) :
    digestOf f v.start (fun h => getDigest f final (v.output.map fun p => (p.1, 4 * p.2)) h len false) pieces =
      some ((v.digest pieces.flatten).take len) := by
  obtain ⟨h, hrun, hdigest⟩ := digest_spec hv hfull hpieces len
  rw [digestOf, hrun]
  exact hdigest

/-- The fused rounds are Super-Mix, and a turn by three words with the addition of columns behind it. So the digest
of a message, however it is cut, is that of the member of the family without fused rounds. -/
theorem fused_rounds_right (e : Endian) :
    (∀ sb tb, smix256 e sb tb = superMixWords (by decide) tb) ∧
    (∀ sb tb, smix384 e sb tb = superMixWords (by decide) tb) ∧
    (∀ s, ror3cmix256 s = cmix256 (ror256 s 3)) ∧ (∀ s, ror3cmix384 s = cmix384 (ror384 s 3)) ∧
    ∀ pieces : List (List UInt8), (∀ p ∈ pieces, p.length < 2 ^ 32) → ∀ len,
      digestOf (transform256 e) reset224 (getDigest224 e · len false) pieces =
        some ((fugue224.digest pieces.flatten).take len) ∧
      digestOf (transform256 e) reset256 (getDigest256 e · len false) pieces =
        some ((fugue256.digest pieces.flatten).take len) ∧
      digestOf (transform384 e) reset384 (getDigest384 e · len false) pieces =
        some ((fugue384.digest pieces.flatten).take len) ∧
      digestOf (transform512 e) reset512 (getDigest512 e · len false) pieces =
        some ((fugue512.digest pieces.flatten).take len) := by
  refine ⟨smixWith_eq e _, smixWith_eq e _, ror3cmix256_eq, ror3cmix384_eq, fun pieces hpieces len => ?_⟩
  refine ⟨?_, ?_, ?_, ?_⟩
  · exact digestOf_eq (agrees224 e) (by simp [FullParts, fugue224, fugue256]) hpieces len
  · exact digestOf_eq (agrees256 e) (by simp [FullParts, fugue256]) hpieces len
  · exact digestOf_eq (agrees384 e) (by simp [FullParts, fugue384]) hpieces len
  · exact digestOf_eq (agrees512 e) (by simp [FullParts, fugue512]) hpieces len

theorem fused_rounds_right_one :
    digestOf (transform256 .little) reset256 (getDigest256 .little · 32 false) [[0xcc]] =
      some ((fugue256.digest [0xcc]).take 32) :=
  ((fused_rounds_right .little).2.2.2.2 [[0xcc]] (by simp) 32).2.1

end Drew.Fugue
