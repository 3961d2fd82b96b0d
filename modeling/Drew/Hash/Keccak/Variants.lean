import Drew.Hash.Keccak
import Drew.Hash.Keccak.Rounds
import Drew.Memory.BigEndian

/-!
# The three configurations of Keccak

The classes `Keccak`, `KeccakWithLimitedNots` and `KeccakCompact` have the same functions but for
the permutation, the lanes after a reset, and what is done with the lanes before the digest is
taken (`Variant`). A state is missing (`none`) if an array was left before.

A run of one configuration is a run of another one if the lanes are (`digest_map`).
-/

namespace Drew.Keccak

open Drew.Memory Drew.Stream Drew.HashClass KeccakF

/-! ## The sizes -/

/-- The sizes of digests that are accepted, in bytes. -/
structure DigestSize where
  size : Nat
  pos : 0 < size
  le : size ≤ 64

namespace DigestSize

variable (d : DigestSize)

/-- `m_r`. -/
def rate : Nat := 200 - 2 * d.size

theorem rate_add (d : DigestSize) : d.rate + 2 * d.size = 200 := by
  have hle := d.le
  unfold rate
  omega

theorem rate_pos : 0 < d.rate := by
  have hle := d.le
  have hrate := d.rate_add
  omega

/-- `nwords`. -/
def words : Nat := d.rate / 8

end DigestSize

/-- A parameter of the plugin. -/
structure Param where
  name : Option String
  number : Nat

inductive SizeError where
  | moreInfo
  | invalid
  deriving DecidableEq

/-- The first parameter of the right name that is not zero. -/
def getDigestSize (param : List Param) : Except SizeError DigestSize :=
  let result := param.foldl
    (fun digestsizeval p =>
      if p.name = some "digestSize" ∧ digestsizeval = 0 then p.number else digestsizeval) 0
  if hpos : 0 < result then
    if hle : result ≤ 64 then .ok ⟨result, hpos, hle⟩ else .error .invalid
  else .error .moreInfo

/-- Every such size can be asked for. -/
theorem getDigestSize_self (d : DigestSize) : getDigestSize [⟨some "digestSize", d.size⟩] = .ok d := by
  simp [getDigestSize, d.pos, d.le]

/-! ## The functions -/

/-- What distinguishes the classes. -/
structure Variant where
  permute : State → State
  initial : State
  correct : State → State

def keccak : Variant := ⟨keccakF, Vector.replicate 25 0, id⟩

def keccakWithLimitedNots : Variant where
  permute := keccakFLimitedNots
  initial := notLanes.foldl (fun s i => s.set i.val (~~~0) (lt_25 i)) (Vector.replicate 25 0)
  correct := complement

def keccakCompact : Variant := ⟨keccakFCompact, Vector.replicate 25 0, id⟩

/-- A word of the block, least significant byte first. -/
def blockWord (blk : List UInt8) (i : Nat) : Lane :=
  BitVec.ofNat 64 (beNat ((blk.drop (8 * i)).take 8).reverse)

def laneBytes (x : Lane) : List UInt8 := (beBytes 8 x.toNat).reverse

/-- The words of the block are added to the first lanes. -/
def addBlock (nwords : Nat) (state : State) (blk : List UInt8) : State := Vector.ofFn fun i =>
  if i.val < nwords then state.get i ^^^ blockWord blk i.val else state.get i

/-- An array of 18 words. -/
def emptyBlock : Buf UInt8 144 := Vector.replicate 144 0

section Class

variable (V : Variant) (d : DigestSize) (m_pad : UInt8)

/-- The block is copied to an array of 18 words before its words are used. -/
def transform (state : State) (block : List UInt8) : Option State := do
  let blk ← Buf.write emptyBlock 0 block
  return V.permute (addBlock d.words state blk.toList)

def transformAll (state : Option State) (block : List UInt8) : Option State :=
  state.bind fun s => transform V d s block

variable {σ : Type} (f : σ → List UInt8 → σ)

def pad (rate : Nat) (h : Keccak σ) : Option (Keccak σ) := do
  let noff := h.len.toNat % rate
  let buf ← h.buf.write noff (List.replicate (rate - noff) 0)
  let buf ← buf.store noff m_pad
  let last ← buf.load (rate - 1)
  let buf ← buf.store (rate - 1) (last ||| 0x80)
  return { h with hash := f h.hash (buf.toList.take rate), buf := buf }

/-- The first lanes are copied to an array of 18 words, and `n` bytes of it are taken. No more
bytes than the lanes have are defined. -/
def squeezeBlock (n : Nat) (s : State) : Option (List UInt8) := do
  let bytes := (s.toList.take d.words).flatMap laneBytes
  let _ ← Buf.write emptyBlock 0 bytes
  if n ≤ bytes.length then some (bytes.take n) else none

/-- Blocks are taken until there are `len` bytes. -/
def squeeze (len : Nat) (s : State) : Option (List UInt8) :=
  (List.range ((len + d.rate - 1) / d.rate)).foldlM
    (fun digest i => (squeezeBlock d (min d.rate (len - i * d.rate)) s).map (digest ++ ·)) []

def getDigest (len : Nat) (nopad : Bool) (h : Keccak (Option State)) : Option (List UInt8) := do
  let h ← if nopad then some h else pad m_pad (transformAll V d) d.rate h
  let s ← h.hash
  squeeze d len (V.correct s)

/-- The class, as the plugin uses it. -/
abbrev variantClass (len : Nat) (nopad : Bool) : HashClass :=
  hashClass (transformAll V d) d.rate (getDigest V d m_pad len nopad) (some V.initial)

end Class

/-! ## Runs of other states -/

section Map

variable {σ τ : Type} (g : σ → τ)

/-- The same members with another state. -/
def mapHash (h : Keccak σ) : Keccak τ := ⟨g h.hash, h.buf, h.len⟩

variable {f : σ → List UInt8 → σ} {f' : τ → List UInt8 → τ} (hg : ∀ s b, g (f s b) = f' (g s) b)
include hg

theorem absorb_map (n k : Nat) (s : σ) (data : List UInt8) :
    g (absorb n f k s data) = absorb n f' k (g s) data := by
  induction k generalizing s data with
  | zero => rfl
  | succ k ih => rw [absorb, absorb, ih, hg]

theorem fill_map (rate : Nat) (h : Keccak σ) (off : Nat) (data : List UInt8) :
    fill f' rate (mapHash g h) off data =
      (fill f rate h off data).map fun p => (mapHash g p.1, p.2) := by
  unfold fill
  split
  · cases hwrite : h.buf.write off (data.take (min (rate - off) data.length)) with
    | none => simp [mapHash, hwrite]
    | some buf =>
      simp only [mapHash, hwrite, Option.bind_eq_bind, Option.bind_some]
      split <;> simp [mapHash, hg]
  · rfl

theorem update_map (rate : Nat) (h : Keccak σ) (data : List UInt8) :
    update f' rate (mapHash g h) data = (update f rate h data).map (mapHash g) := by
  have hfill := fill_map g hg rate { h with len := h.len + BitVec.ofNat 64 data.length }
    (h.len.toNat % rate) data
  unfold update
  simp only [Option.bind_eq_bind, Option.map_bind]
  change (fill f' rate (mapHash g { h with len := h.len + BitVec.ofNat 64 data.length }) _ data).bind _ = _
  rw [show (mapHash g h).len = h.len from rfl, hfill, Option.bind_map]
  congr 1
  funext ⟨h₁, rest⟩
  simp [mapHash, Option.map_bind, Function.comp_def, absorb_map g hg]

theorem pad_map (m_pad : UInt8) (rate : Nat) (h : Keccak σ) :
    pad m_pad f' rate (mapHash g h) = (pad m_pad f rate h).map (mapHash g) := by
  unfold pad
  simp [mapHash, Option.map_bind, Function.comp_def, hg]

theorem step_map {digest : Keccak σ → Option (List UInt8)} {digest' : Keccak τ → Option (List UInt8)}
    {s : σ} {t : τ} (rate : Nat) (h : Keccak σ) (c : Call) :
    (hashClass f' rate digest' t).step (mapHash g h) c =
      ((hashClass f rate digest s).step h c).map (mapHash g) := by
  unfold HashClass.step
  split
  · exact update_map g hg rate h c.data
  · exact update_map g hg rate h c.data

/-- Two classes give the same digests if their states have. -/
theorem digest_map {digest : Keccak σ → Option (List UInt8)} {digest' : Keccak τ → Option (List UInt8)}
    (hdigest : ∀ h, digest' (mapHash g h) = digest h) (rate : Nat) (s : σ) (calls : List Call) :
    (hashClass f' rate digest' (g s)).digest calls = (hashClass f rate digest s).digest calls := by
  have hrun : ∀ h : Keccak σ, calls.foldlM (hashClass f' rate digest' (g s)).step (mapHash g h) =
      (calls.foldlM (hashClass f rate digest s).step h).map (mapHash g) := by
    induction calls with
    | nil => exact fun h => rfl
    | cons c cs ih =>
      intro h
      rw [List.foldlM_cons, List.foldlM_cons, step_map g hg]
      cases (hashClass f rate digest s).step h c with
      | none => rfl
      | some h₁ => exact ih h₁
  have hfinal : ∀ o : Option (Keccak σ), (o.map (mapHash g)).bind digest' = o.bind digest := by
    intro o
    cases o with
    | none => rfl
    | some h => exact hdigest h
  unfold HashClass.digest
  exact (congrArg (Option.bind · digest') (hrun (reset s))).trans (hfinal _)

end Map

/-! ## The configurations -/

section Agree

variable (d : DigestSize)

theorem get_addBlock (nwords : Nat) (s : State) (blk : List UInt8) (i : Fin 25) :
    (addBlock nwords s blk).get i =
      if i.val < nwords then s.get i ^^^ blockWord blk i.val else s.get i := get_ofFn _ i

theorem get_complement (s : State) (i : Fin 25) :
    (complement s).get i = if i ∈ notLanes then ~~~s.get i else s.get i :=
  get_foldl_not (by decide) s i

/-- It does not matter to the words of a block which lanes are inverted. -/
theorem addBlock_complement (nwords : Nat) (s : State) (blk : List UInt8) :
    addBlock nwords (complement s) blk = complement (addBlock nwords s blk) := by
  apply state_ext
  intro x y
  rw [get_addBlock, get_complement, get_complement, get_addBlock]
  split <;> split
  · exact BitVec.not_xor_left.symm
  · rfl
  · rfl
  · rfl

theorem permute_complement (s : State) :
    keccakWithLimitedNots.permute (complement s) = complement (keccak.permute s) := keccakFLimitedNots_eq s

theorem transformAll_complement (state : Option State) (block : List UInt8) :
    (transformAll keccak d state block).map complement =
      transformAll keccakWithLimitedNots d (state.map complement) block := by
  cases state with
  | none => rfl
  | some s =>
    have hadd : ∀ blk, keccakWithLimitedNots.permute (addBlock d.words (complement s) blk) =
        complement (keccak.permute (addBlock d.words s blk)) := by
      intro blk
      rw [addBlock_complement, permute_complement]
    change (transform keccak d s block).map complement = transform keccakWithLimitedNots d (complement s) block
    unfold transform
    cases Buf.write emptyBlock 0 block with
    | none => rfl
    | some blk => exact congrArg some (hadd blk.toList).symm

theorem initial_complement : keccakWithLimitedNots.initial = complement keccak.initial := by
  decide

theorem getDigest_complement (m_pad : UInt8) (len : Nat) (nopad : Bool) (h : Keccak (Option State)) :
    getDigest keccakWithLimitedNots d m_pad len nopad (mapHash (Option.map complement) h) =
      getDigest keccak d m_pad len nopad h := by
  have hsqueeze : ∀ h : Keccak (Option State),
      (h.hash.map complement).bind (fun s => squeeze d len (complement s)) =
        h.hash.bind fun s => squeeze d len s := by
    intro h
    cases h.hash with
    | none => rfl
    | some s => exact congrArg (squeeze d len) (complement_complement s)
  cases nopad with
  | true => exact hsqueeze h
  | false =>
    change (pad m_pad (transformAll keccakWithLimitedNots d) d.rate (mapHash _ h)).bind _ = Option.bind _ _
    rw [pad_map (Option.map complement) (transformAll_complement d)]
    cases pad m_pad (transformAll keccak d) d.rate h with
    | none => rfl
    | some h' => exact hsqueeze h'

theorem limitedNots_digest (m_pad : UInt8) (len : Nat) (nopad : Bool) (calls : List Call) :
    (variantClass keccakWithLimitedNots d m_pad len nopad).digest calls =
      (variantClass keccak d m_pad len nopad).digest calls := by
  have hmap := digest_map (Option.map complement) (transformAll_complement d)
    (getDigest_complement d m_pad len nopad) d.rate (some keccak.initial) calls
  rw [← hmap, variantClass, initial_complement]
  rfl

theorem compact_eq : keccakCompact = keccak :=
  congrArg (fun permute => Variant.mk permute (Vector.replicate 25 0) id) (funext keccakFCompact_eq)

/-- All configurations have the permutation, if lanes are inverted before and after it, and the
same digests. -/
theorem variants_agree (d : DigestSize) (m_pad : UInt8) (len : Nat) (nopad : Bool) (calls : List Call) :
    (∀ s, bits (keccak.permute s) = permutation (bits s) ∧
      bits (keccakWithLimitedNots.correct (keccakWithLimitedNots.permute (complement s))) =
        permutation (bits s) ∧
      bits (keccakCompact.permute s) = permutation (bits s)) ∧
    (variantClass keccakWithLimitedNots d m_pad len nopad).digest calls =
      (variantClass keccak d m_pad len nopad).digest calls ∧
    (variantClass keccakCompact d m_pad len nopad).digest calls =
      (variantClass keccak d m_pad len nopad).digest calls := by
  refine ⟨fun s => ⟨bits_keccakF s, ?_, bits_keccakFCompact s⟩, limitedNots_digest d m_pad len nopad calls, ?_⟩
  · change bits (complement (keccakFLimitedNots (complement s))) = _
    rw [keccakFLimitedNots_eq, complement_complement, bits_keccakF]
  · rw [compact_eq]

end Agree

end Drew.Keccak
