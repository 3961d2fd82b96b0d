import Drew.Hash.Skein.Threefish

/-!
# Skein as a chain of UBI

The specification processes three texts, one after the other: a configuration, the message, and
eight zeros for the output. A text is cut into blocks of 64 bytes, at least one, and the tweak of
a block has 128 bits: the number of bytes up to its end, the type of the text, and the flags for
the first and the last block (`tweak`).

The class keeps the position in one word. So its calls are those of the specification for messages
of less than `2 ^ 64` bytes (`followsUbi_iff`).
-/

namespace Drew.Skein

open Drew.Memory Drew.HashClass

/-! ## The specification -/

/-- The number of blocks of `n` bytes. -/
def blockCount (n : Nat) : Nat := max 1 ((n + 63) / 64)

/-- The tweak of the block `i` of a text of `n` bytes. -/
def tweak (type n i : Nat) : Nat :=
  min n ((i + 1) * 64) + type * 2 ^ 120 + (if i = 0 then 2 ^ 126 else 0) +
    if i + 1 = blockCount n then 2 ^ 127 else 0

/-- The block is filled up with zeros, and the tweak is cut into words. -/
def ubiStep (type : Nat) (m : List UInt8) (i : Nat) : Step where
  block := (m.drop (i * 64)).take 64 ++ List.replicate (64 - (m.length - i * 64)) 0
  position := BitVec.ofNat 64 (tweak type m.length i)
  flags := BitVec.ofNat 64 (tweak type m.length i / 2 ^ 64)

def ubiSteps (type : Nat) (m : List UInt8) : List Step :=
  (List.range (blockCount m.length)).map (ubiStep type m)

def ubiChain (type : Nat) (state : Vector UInt64 8) (m : List UInt8) : Vector UInt64 8 :=
  (ubiSteps type m).foldl ubiBlock state

/-- The identifier, the version, and the size of the output in bits. -/
def configuration (digestSize : Nat) : List UInt8 :=
  [0x53, 0x48, 0x41, 0x33, 0x01, 0x00, 0x00, 0x00] ++ (beBytes 8 (digestSize * 8)).reverse ++
    List.replicate 16 0

def specification (digestSize : Nat) (m : List UInt8) : List UInt8 :=
  let g := ubiChain 4 (Vector.replicate 8 0) (configuration digestSize)
  let h := ubiChain 48 g m
  (wordBytes (ubiChain 63 h (List.replicate 8 0))).take digestSize

/-! ## The function `UBI` -/

section Code

variable {σ : Type} (f : σ → Step → σ)

/-- The loop of `UBI`, with the words of its tweak. -/
def ubiLoop (m : List UInt8) (state : σ) (t0 t1 : BitVec 64) : σ × BitVec 64 × BitVec 64 :=
  (List.range (m.length / 64)).foldl
    (fun s i =>
      let t0 := s.2.1 + 64
      let t1 := if m.length &&& 64 = 0 ∧ i = m.length / 64 - 1 then s.2.2 ||| bitFinal else s.2.2
      (f s.1 ⟨(m.drop (i * 64)).take 64, t0, t1⟩, t0, t1 &&& ~~~bitFirst))
    (state, t0, t1)

/-- `UBI`, which `Reset` and `GetDigest` use for their short texts. -/
def ubi (state : σ) (m : List UInt8) (t0 t1 : BitVec 64) : σ :=
  let overflow := m.length % 64
  let s := ubiLoop f m state t0 (t1 &&& ~~~bitFinal ||| bitFirst)
  if overflow ≠ 0 then
    f s.1 ⟨m.drop (m.length / 64 * 64) ++ List.replicate (64 - overflow) 0,
      s.2.1 + BitVec.ofNat 64 overflow, s.2.2 ||| bitFinal⟩
  else s.1

theorem ubi_short {m : List UInt8} (hpos : 0 < m.length) (hlt : m.length < 64) (state : σ) (t1 : BitVec 64) :
    ubi f state m 0 t1 = f state ⟨m ++ List.replicate (64 - m.length) 0, BitVec.ofNat 64 m.length,
      t1 &&& ~~~bitFinal ||| bitFirst ||| bitFinal⟩ := by
  have hdiv : m.length / 64 = 0 := Nat.div_eq_of_lt hlt
  have hmod : m.length % 64 = m.length := Nat.mod_eq_of_lt hlt
  have hloop : ∀ t, ubiLoop f m state 0 t = (state, 0, t) := by
    intro t
    rw [ubiLoop, hdiv]
    rfl
  rw [ubi, hmod, if_pos (by omega), hloop, hdiv, Nat.zero_mul, List.drop_zero]
  congr 2
  exact BitVec.zero_add _

end Code

theorem length_config (d : Nat) : (config d).length = 32 := by
  simp [config]

/-- `Reset`. -/
theorem initialHash_eq (d : Nat) : initialHash d =
    ubi ubiBlock (Vector.replicate 8 0) (config d) 0 (typeCfg ||| bitFirst) := by
  rw [ubi_short ubiBlock (by rw [length_config]; decide) (by rw [length_config]; decide), length_config]
  rfl

/-- `GetDigest`. -/
theorem output_eq {σ : Type} (f : σ → Step → σ) (state : σ) : f state outStep =
    ubi f state (List.replicate 8 0) 0 (typeOut ||| bitFirst ||| bitFinal) := by
  rw [ubi_short f (by decide) (by decide)]
  congr 1

/-! ## Positions -/

variable {m : List UInt8} {i : Nat}

/-- The type and the flags. -/
def tweakFlags (type n i : Nat) : Nat :=
  type * 2 ^ 56 + (if i = 0 then 2 ^ 62 else 0) + if i + 1 = blockCount n then 2 ^ 63 else 0

theorem tweak_eq (type n i : Nat) :
    tweak type n i = min n ((i + 1) * 64) + tweakFlags type n i * 2 ^ 64 := by
  unfold tweak tweakFlags
  split <;> split <;> ring

theorem tweak_low {type n i : Nat} : BitVec.ofNat 64 (tweak type n i) = BitVec.ofNat 64 (min n ((i + 1) * 64)) := by
  apply BitVec.eq_of_toNat_eq
  rw [BitVec.toNat_ofNat, BitVec.toNat_ofNat, tweak_eq, Nat.add_mul_mod_self_right]

theorem tweak_high (type n i : Nat) :
    tweak type n i / 2 ^ 64 = min n ((i + 1) * 64) / 2 ^ 64 + tweakFlags type n i := by
  rw [tweak_eq, Nat.add_mul_div_right _ _ (by positivity)]

theorem blockCount_eq (m : List UInt8) : blockCount m.length = before m + 1 := by
  unfold blockCount before
  omega

/-- The flags of the calls. -/
def callFlags (m : List UInt8) (i : Nat) : BitVec 64 :=
  if i = before m then flagsAt i ||| bitFinal else flagsAt i

theorem callFlags_eq (m : List UInt8) (i : Nat) :
    callFlags m i = BitVec.ofNat 64 (tweakFlags 48 m.length i) := by
  have hlast : i + 1 = blockCount m.length ↔ i = before m := by
    rw [blockCount_eq, Nat.add_right_cancel_iff]
  rw [callFlags, tweakFlags, if_congr hlast rfl rfl, flagsAt]
  split <;> split <;> rfl

/-- The call for a block. -/
def callStep (m : List UInt8) (i : Nat) : Step where
  block := (m.drop (i * 64)).take 64 ++ List.replicate (64 - (m.length - i * 64)) 0
  position := BitVec.ofNat 64 (min m.length ((i + 1) * 64))
  flags := callFlags m i

theorem allSteps_eq (m : List UInt8) : allSteps m = (List.range (blockCount m.length)).map (callStep m) := by
  have hbefore : before m = (m.length - 1) / 64 := rfl
  have hfirst : steps (before m) m = (List.range (before m)).map (callStep m) := by
    apply List.map_congr_left
    intro i hi
    have hi' : i < before m := List.mem_range.mp hi
    have hzeros : 64 - (m.length - i * 64) = 0 := by omega
    have hmin : min m.length ((i + 1) * 64) = (i + 1) * 64 := by omega
    rw [stepAt, callStep, hzeros, hmin, List.replicate_zero, List.append_nil, callFlags, if_neg (by omega)]
  have hlast : lastStep (before m) m = callStep m (before m) := by
    have htake : (m.drop (before m * 64)).take 64 = m.drop (before m * 64) := by
      apply List.take_of_length_le
      rw [List.length_drop]
      omega
    have hmin : min m.length ((before m + 1) * 64) = m.length := by omega
    rw [lastStep, callStep, htake, hmin, callFlags, if_pos rfl]
  rw [allSteps, blockCount_eq, List.range_succ, List.map_append, hfirst, hlast, List.map_singleton]

/-- The calls are those of the specification if the position fits into a word. -/
theorem allSteps_eq_ubiSteps (hm : m.length < 2 ^ 64) : allSteps m = ubiSteps 48 m := by
  rw [allSteps_eq, ubiSteps]
  apply List.map_congr_left
  intro i _
  have hpos : min m.length ((i + 1) * 64) / 2 ^ 64 = 0 := Nat.div_eq_of_lt (by omega)
  rw [callStep, ubiStep, tweak_low, tweak_high, hpos, Nat.zero_add, callFlags_eq]

/-- Otherwise the block that ends after `2 ^ 64` bytes has another tweak. -/
theorem allSteps_ne_ubiSteps (hm : 2 ^ 64 ≤ m.length) : allSteps m ≠ ubiSteps 48 m := by
  intro h
  rw [allSteps_eq, ubiSteps] at h
  have hin : 2 ^ 58 - 1 ∈ List.range (blockCount m.length) := by
    rw [List.mem_range, blockCount]
    omega
  have hstep := List.map_inj_left.mp h _ hin
  have hflags := congrArg Step.flags hstep
  have hmin : min m.length ((2 ^ 58 - 1 + 1) * 64) = 2 ^ 64 := by omega
  change callFlags m (2 ^ 58 - 1) = BitVec.ofNat 64 (tweak 48 m.length (2 ^ 58 - 1) / 2 ^ 64) at hflags
  rw [tweak_high, hmin, Nat.div_self (by positivity), BitVec.ofNat_add, ← callFlags_eq] at hflags
  generalize callFlags m (2 ^ 58 - 1) = flags at hflags
  bv_omega

/-! ## Streams -/

/-- The calls of `UBIBlock` for a message that is given in pieces. -/
def processed (pieces : List (List UInt8)) : Option (List Step) := do
  let h ← pieces.foldlM (update note) (reset [])
  let h ← pad note h
  return h.hash

/-- The class, and the message in pieces. -/
def Follows (digestSize : Nat) (pieces : List (List UInt8)) : Prop :=
  processed pieces = some (ubiSteps 48 pieces.flatten) ∧
    (skein digestSize).digest (pieces.map (Call.mk false)) = some (specification digestSize pieces.flatten)

variable {d : Nat} {pieces : List (List UInt8)}

theorem processed_eq (pieces : List (List UInt8)) : processed pieces = some (allSteps pieces.flatten) := by
  have hrun : ∀ {m : List UInt8} {h : Skein (List Step)}, Held note [] (before m) m h →
      ∃ h', pieces.foldlM (update note) h = some h' ∧
        Held note [] (before (m ++ pieces.flatten)) (m ++ pieces.flatten) h' := by
    induction pieces with
    | nil => exact fun hh => ⟨_, rfl, by rwa [List.flatten_nil, List.append_nil]⟩
    | cons p ps ih =>
      intro m h hh
      obtain ⟨h₁, hupdate, hh₁⟩ := hh.update p
      obtain ⟨h', hrest, hh'⟩ := ih hh₁
      refine ⟨h', ?_, by rwa [List.flatten_cons, ← List.append_assoc]⟩
      rw [List.foldlM_cons, hupdate]
      exact hrest
  have hstart : Held note [] (before []) [] (reset []) := held_nil note []
  obtain ⟨h, hfold, hh⟩ := hrun hstart
  obtain ⟨h', hpad, hhash⟩ := hh.pad
  unfold processed
  rw [List.nil_append] at hhash
  simp only [hfold, hpad, Option.bind_eq_bind, Option.bind_some, pure, hhash, foldl_note]
  rfl

/-- The two bytes that are set are enough for the size. -/
theorem config_eq (hd : d ≤ 64) : config d = configuration d := by
  have hhigh : d * 8 / 256 / 256 = 0 := by omega
  have hbytes : (beBytes 8 (d * 8)).reverse = (beBytes 2 (d * 8)).reverse ++ List.replicate 6 0 := by
    have hsplit : beBytes 8 (d * 8) = beBytes 6 (d * 8 / 256 / 256) ++ beBytes 2 (d * 8) := by
      simp [beBytes]
    rw [hsplit, hhigh, List.reverse_append]
    rfl
  rw [config, configuration, hbytes, List.append_assoc, List.append_assoc, List.append_assoc]
  rfl

/-- A short text has one block. -/
theorem ubiChain_short (type : Nat) (state : Vector UInt64 8) (hpos : 0 < m.length) (hlt : m.length ≤ 64) :
    ubiChain type state m = ubiBlock state ⟨m ++ List.replicate (64 - m.length) 0,
      BitVec.ofNat 64 m.length, BitVec.ofNat 64 (tweakFlags type m.length 0)⟩ := by
  have hcount : blockCount m.length = 1 := by
    unfold blockCount
    omega
  have hmin : min m.length ((0 + 1) * 64) = m.length := by omega
  have hzero : m.length / 2 ^ 64 = 0 := Nat.div_eq_of_lt (by omega)
  rw [ubiChain, ubiSteps, hcount, List.range_one, List.map_singleton, List.foldl_cons, List.foldl_nil,
    ubiStep, tweak_low, tweak_high, hmin, hzero, Nat.zero_mul, List.drop_zero, List.take_of_length_le hlt,
    Nat.sub_zero, Nat.zero_add]

theorem initialHash_spec (hd : d ≤ 64) :
    initialHash d = ubiChain 4 (Vector.replicate 8 0) (configuration d) := by
  have hlen := length_config d
  rw [config_eq hd] at hlen
  rw [ubiChain_short 4 _ (by omega) (by omega), hlen, initialHash, config_eq hd]
  rfl

theorem output_spec (state : Vector UInt64 8) :
    ubiBlock state outStep = ubiChain 63 state (List.replicate 8 0) := by
  rw [ubiChain_short 63 state (by decide) (by decide)]
  rfl

theorem digest_eq (hd : d ≤ 64) (hm : pieces.flatten.length < 2 ^ 64) :
    (skein d).digest (pieces.map (Call.mk false)) = some (specification d pieces.flatten) := by
  have hplain : plain (pieces.map (Call.mk false)) = pieces.map (Call.mk false) := by
    rw [plain, List.map_map]
    rfl
  have hmsg : messageOf (pieces.map (Call.mk false)) = pieces.flatten := by
    rw [messageOf, List.map_map]
    exact congrArg List.flatten (List.map_id pieces)
  have hfirst := fastFirst_plain (pieces.map (Call.mk false))
  rw [hplain] at hfirst
  rw [digest_of_fastFirst hfirst, hmsg, allSteps_eq_ubiSteps hm, output_spec, initialHash_spec hd]
  rfl

/-- The calls of `UBIBlock` are those of the specification, and so is the digest, exactly for messages
whose length fits into a word. -/
theorem followsUbi_iff (hd : 0 < d ∧ d ≤ 64) : Follows d pieces ↔ pieces.flatten.length < 2 ^ 64 := by
  constructor
  · rintro ⟨hprocessed, -⟩
    rw [processed_eq] at hprocessed
    by_contra hlong
    exact allSteps_ne_ubiSteps (Nat.le_of_not_lt hlong) (Option.some.inj hprocessed)
  · intro hshort
    exact ⟨by rw [processed_eq, allSteps_eq_ubiSteps hshort], digest_eq hd.2 hshort⟩

theorem follows_iff_nil : (0 < 64 ∧ 64 ≤ 64) ∧ (Follows 64 [] ↔ ([] : List (List UInt8)).flatten.length < 2 ^ 64) :=
  ⟨by decide, followsUbi_iff (by decide)⟩

/-- Four pieces of `2 ^ 62` zeros. -/
theorem not_follows_zeros : ¬Follows 64 (List.replicate 4 (List.replicate (2 ^ 62) 0)) := by
  rintro ⟨hprocessed, -⟩
  rw [processed_eq] at hprocessed
  refine allSteps_ne_ubiSteps ?_ (Option.some.inj hprocessed)
  rw [List.length_flatten, List.map_replicate, List.length_replicate, List.sum_replicate]
  norm_num

end Drew.Skein
