import Drew.Block.Cast.Model
import Drew.Block.Safer.Rekey
import Drew.Block.Camellia.Inverse
import Drew.Block.Aria.Schedule
import Drew.Block.Twofish.Inverse
import Drew.Block.Rijndael.Schedule

/-!
# Rekeying

The ciphers with several lengths of a key. Apart from SAFER, what a key makes of a context does not depend
on what was in it, though some schedules leave the end of an array as it was.
-/

namespace Drew

open Drew.Memory Drew.Block

/-! ## Camellia -/

namespace Camellia

def keying (s : Tables) : Keying where
  Context := Camellia
  Block := List UInt8
  Fresh _ := True
  keysz := [16, 24, 32]
  setkey := setKeyInternal s
  encrypt := encrypt s
  decrypt := decrypt s

variable {n : Nat}

theorem get_fill (v w : Vector UInt64 n) {ps : List (Nat × Pair)} (j : Fin n)
    (hj : j.val / 2 * 2 ∈ ps.map Prod.fst) : (fill v ps).get j = (fill w ps).get j := by
  obtain ⟨p, hp, hfst⟩ := List.mem_map.mp hj
  exact get_foldl_stores j (fun p : Nat × Pair => p.1) (fun p => p.2.1) (fun p => p.2.2) hp (by omega) v w

/-- Contexts with the same variant, whitening keys and sequence. -/
structure Same (v : Variant) (c d : Camellia) : Prop where
  fenc : c.fenc = some v ∧ d.fenc = some v
  fdec : c.fdec = some v ∧ d.fdec = some v
  kw : ∀ j, c.kw.get j = d.kw.get j
  sequence : sequence c v = sequence d v

theorem Same.alike {s : Tables} {v : Variant} {c d : Camellia} (h : Same v c d) : (keying s).Alike c d := by
  have henc : encryptWith s c v = encryptWith s d v := by
    funext x
    rw [encryptWith_eq_network, encryptWith_eq_network, h.sequence, h.kw, h.kw, h.kw, h.kw]
  have hdec : decryptWith s c v = decryptWith s d v := by
    funext x
    rw [decryptWith_eq_network, decryptWith_eq_network, h.sequence, h.kw, h.kw, h.kw, h.kw]
  intro (b : List UInt8)
  constructor
  · show c.fenc.map (fun v => onBlock (encryptWith s c v) b) = d.fenc.map fun v => onBlock (encryptWith s d v) b
    rw [h.fenc.1, h.fenc.2, Option.map_some, Option.map_some, henc]
  · show c.fdec.map (fun v => onBlock (decryptWith s c v) b) = d.fdec.map fun v => onBlock (decryptWith s d v) b
    rw [h.fdec.1, h.fdec.2, Option.map_some, Option.map_some, hdec]

theorem sixRounds_congr {c d : Camellia} {n : Nat} (h : ∀ i < 6, c.roundKey (n + i) = d.roundKey (n + i)) :
    sixRounds c n = sixRounds d n :=
  List.map_congr_left fun i hi => congrArg Layer.round (h i (List.mem_range.mp hi))

/-- The short variant leaves the last six round keys and the last two of `kl` as they were, and does not use
them. -/
theorem setKey128_same (s : Tables) (c d : Camellia) (ko : Vector UInt64 4) :
    Same .short (setKey128 s c ko) (setKey128 s d ko) := by
  have hku : ∀ n < 18, (setKey128 s c ko).roundKey n = (setKey128 s d ko).roundKey n := by
    intro n hn
    apply get_fill
    show n % 24 / 2 * 2 ∈ [0, 2, 4, 6, 8, 10, 12, 14, 16]
    simp only [List.mem_cons, List.not_mem_nil, or_false]
    omega
  have hkl : ∀ j : Fin 6, j.val < 4 → (setKey128 s c ko).kl.get j = (setKey128 s d ko).kl.get j := by
    intro j hj
    apply get_fill
    show j.val / 2 * 2 ∈ [0, 2]
    simp only [List.mem_cons, List.not_mem_nil, or_false]
    omega
  refine ⟨⟨rfl, rfl⟩, ⟨rfl, rfl⟩, ?_, ?_⟩
  · intro j
    apply get_fill
    show j.val / 2 * 2 ∈ [0, 2]
    simp only [List.mem_cons, List.not_mem_nil, or_false]
    omega
  · rw [sequence, sequence, sixRounds_congr fun i hi => hku (0 + i) (by omega),
      sixRounds_congr fun i hi => hku (6 + i) (by omega), sixRounds_congr fun i hi => hku (12 + i) (by omega),
      hkl 0 (by decide), hkl 1 (by decide), hkl 2 (by decide), hkl 3 (by decide)]

theorem setKey256_same (s : Tables) (c d : Camellia) (ko : Vector UInt64 4) :
    Same .long (setKey256 s c ko) (setKey256 s d ko) := by
  have hku : ∀ n < 24, (setKey256 s c ko).roundKey n = (setKey256 s d ko).roundKey n := by
    intro n hn
    apply get_fill
    show n % 24 / 2 * 2 ∈ [0, 2, 4, 6, 8, 10, 12, 14, 16, 18, 20, 22]
    simp only [List.mem_cons, List.not_mem_nil, or_false]
    omega
  have hkl : ∀ j : Fin 6, (setKey256 s c ko).kl.get j = (setKey256 s d ko).kl.get j := by
    intro j
    apply get_fill
    show j.val / 2 * 2 ∈ [0, 2, 4]
    simp only [List.mem_cons, List.not_mem_nil, or_false]
    omega
  refine ⟨⟨rfl, rfl⟩, ⟨rfl, rfl⟩, ?_, ?_⟩
  · intro j
    apply get_fill
    show j.val / 2 * 2 ∈ [0, 2]
    simp only [List.mem_cons, List.not_mem_nil, or_false]
    omega
  · rw [sequence, sequence, sixRounds_congr fun i hi => hku (0 + i) (by omega),
      sixRounds_congr fun i hi => hku (6 + i) (by omega), sixRounds_congr fun i hi => hku (12 + i) (by omega),
      sixRounds_congr fun i hi => hku (18 + i) (by omega), hkl, hkl, hkl, hkl, hkl, hkl]

theorem setKeyInternal_alike {s : Tables} {c c' : Camellia} {key : List UInt8} (d : Camellia)
    (h : setKeyInternal s c key = some c') :
    ∃ d', setKeyInternal s d key = some d' ∧ (keying s).Alike c' d' := by
  by_cases h16 : key.length = 16
  · rw [setKeyInternal, if_pos h16] at h
    cases h
    exact ⟨_, by rw [setKeyInternal, if_pos h16], (setKey128_same s c d _).alike⟩
  · by_cases h24 : key.length = 24
    · rw [setKeyInternal, if_neg h16, if_pos h24] at h
      cases h
      exact ⟨setKey192 s d _, by rw [setKeyInternal, if_neg h16, if_pos h24], (setKey256_same s c d _).alike⟩
    · by_cases h32 : key.length = 32
      · rw [setKeyInternal, if_neg h16, if_neg h24, if_pos h32] at h
        cases h
        exact ⟨_, by rw [setKeyInternal, if_neg h16, if_neg h24, if_pos h32], (setKey256_same s c d _).alike⟩
      · rw [setKeyInternal, if_neg h16, if_neg h24, if_neg h32] at h
        cases h

end Camellia

/-! ## ARIA -/

namespace Aria

/-- Contexts of one of the two subclasses. -/
def keying (set : Aria → List UInt8 → Option Aria) : Keying where
  Context := Aria
  Block := Aria.Block
  Fresh _ := True
  keysz := [16, 24, 32]
  setkey := set
  encrypt := encrypt
  decrypt := decrypt

theorem encryptRounds_congr {n : Nat} {sk sk' : Vector Block 17} (h : ∀ i ≤ n, keyAt sk i = keyAt sk' i) (x : Block) :
    encryptRounds n sk x = encryptRounds n sk' x := by
  have hfold : (List.range (n - 1)).foldl (round sk) (permute x) =
      (List.range (n - 1)).foldl (round sk') (permute x) := by
    apply List.foldl_ext
    intro y i hi
    have hle : i ≤ n := by
      have hlt := List.mem_range.mp hi
      omega
    rw [round, round, h i hle]
  rw [encryptRounds, encryptRounds, hfold, h n le_rfl, h (n - 1) (Nat.sub_le n 1)]

/-- The keys for decryption that a shorter key leaves behind are not used. -/
theorem fillMembers_alike (set : Aria → List UInt8 → Option Aria) (a b : Aria) {off : Nat} (hoff : off < 3)
    (ek : Nat → Block) : (keying set).Alike (fillMembers a off ek) (fillMembers b off ek) := by
  intro (x : Block)
  constructor
  · rfl
  · show cryptWith off (fillMembers a off ek).dk x = cryptWith off (fillMembers b off ek).dk x
    rw [cryptWith_eq hoff, cryptWith_eq hoff]
    exact congrArg some (encryptRounds_congr (fun i hi => fillMembers_dk a b hoff ek hi) x)

theorem offFor_lt {len off : Nat} (h : offFor len = some off) : off < 3 := by
  unfold offFor at h
  split at h
  · cases h
    decide
  · split at h
    · cases h
      decide
    · split at h
      · cases h
        decide
      · cases h

theorem words_alike {a a' : Aria} {key : List UInt8} (b : Aria) (h : Words.setKeyInternal a key = some a') :
    ∃ b', Words.setKeyInternal b key = some b' ∧ (keying Words.setKeyInternal).Alike a' b' := by
  by_cases hlen : 32 < key.length
  · rw [Words.setKeyInternal, if_pos hlen] at h
    cases h
  · rw [Words.setKeyInternal, if_neg hlen] at h
    obtain ⟨off, hoff, rfl⟩ := Option.map_eq_some_iff.mp h
    refine ⟨_, ?_, fillMembers_alike Words.setKeyInternal a b (offFor_lt hoff) _⟩
    rw [Words.setKeyInternal, if_neg hlen, hoff, Option.map_some]

theorem bytewise_eq_words : Bytewise.setKeyInternal = Words.setKeyInternal := by
  funext a key
  exact setKeyInternal_eq a key

end Aria

/-! ## Twofish -/

namespace Twofish

def keying (T : Tables) : Keying where
  Context := Twofish
  Block := List UInt8
  Fresh _ := True
  keysz := [16, 24, 32]
  setkey := setKeyInternal T
  encrypt c b := some (c.encrypt b)
  decrypt c b := some (c.decrypt b)

variable (T : Tables)

theorem fillTables_eq (sv : Vector UInt32 8) (len : Nat) (s t : Vector (Vector UInt32 256) 4) :
    fillTables T sv len s = fillTables T sv len t := by
  ext j hj i hi : 2
  rw [fillTables, fillTables, Vector.getElem_ofFn, Vector.getElem_ofFn]
  have hentry : ∀ v : Vector UInt32 256, ((List.range 256).foldl (fun v i => v.setIfInBounds i
      (T.mds ⟨j, hj⟩ (getByte (h0 T (UInt32.ofNat i) (keyWord sv) len) (UInt32.ofNat j)))) v).get ⟨i, hi⟩ =
        T.mds ⟨j, hj⟩ (getByte (h0 T (UInt32.ofNat i) (keyWord sv) len) (UInt32.ofNat j)) := fun v =>
    foldl_set_get _ v ⟨i, hi⟩ hi
  exact (hentry _).trans (hentry _).symm

theorem subkeys_eq (m : Vector UInt32 8) (len : Nat) (k l : Vector UInt32 40) :
    (List.range 20).foldl (fun k i => subkeys T m len k (2 * i)) k =
      (List.range 20).foldl (fun k i => subkeys T m len k (2 * i)) l := by
  ext j hj : 1
  exact get_foldl_stores ⟨j, hj⟩ (fun i => 2 * i) _ _ (List.mem_range.mpr (show j / 2 < 20 by omega))
    (show j = 2 * (j / 2) ∨ j = 2 * (j / 2) + 1 by omega) k l

/-- All members are set. -/
theorem setKeyInternal_eq (c d : Twofish) (key : List UInt8) : setKeyInternal T c key = setKeyInternal T d key := by
  have hk := subkeys_eq T (copyIn word32 .little 8 key) (key.length / 8) c.k d.k
  have hs := fillTables_eq T (svec (copyIn word32 .little 8 key) (key.length / 8)) (key.length / 8) c.s d.s
  simp only [setKeyInternal, hk, hs]

end Twofish

/-! ## Rijndael and CAST-128 -/

namespace Rijndael

def keying (C : Class) : Keying where
  Context := Rijndael
  Block := List UInt8
  Fresh _ := True
  keysz := keyLengths
  setkey := setKeyInternal C
  encrypt c b := some (encrypt C c b)
  decrypt c b := some (decrypt C c b)

theorem setKeyInternal_alike {C : Class} {c c' : Rijndael} {key : List UInt8} (hkey : key.length ∈ keyLengths)
    (d : Rijndael) (h : setKeyInternal C c key = some c') :
    ∃ d', setKeyInternal C d key = some d' ∧ (keying C).Alike c' d' := by
  obtain ⟨c₁, hset, hnr, -, henc, hdec⟩ := setKeyInternal_crypt C c hkey
  obtain ⟨d', hset', hnr', -, henc', hdec'⟩ := setKeyInternal_crypt C d hkey
  obtain rfl : c₁ = c' := Option.some.inj (hset.symm.trans h)
  refine ⟨d', hset', fun (b : List UInt8) => ⟨congrArg some ?_, congrArg some ?_⟩⟩
  · rw [henc, henc', hnr, hnr']
  · rw [hdec, hdec', hnr, hnr']

end Rijndael

namespace Cast5

def keying (s : Cast.Tables) : Keying where
  Context := Cast5
  Block := List UInt8
  Fresh _ := True
  keysz := [5, 6, 7, 8, 9, 10, 11, 12, 13, 14, 15, 16]
  setkey := setKeyInternal s
  encrypt c b := some (c.encrypt s b)
  decrypt c b := some (c.decrypt s b)

end Cast5

/-! ## All of them -/

namespace Block

/-- The tables that the models leave open. -/
structure OpenTables where
  cast : Cast.Tables
  camellia : Camellia.Tables
  twofish : Twofish.Tables

/-- The classes, and for SAFER the number of rounds that the constructor was given. -/
inductive Rekeyed
  | safer (C : Safer.Class) (rounds : Nat)
  | cast5
  | camellia
  | ariaBytewise
  | aria128
  | twofish
  | rijndael (C : Rijndael.Class)

namespace Rekeyed

def keying (T : OpenTables) : Rekeyed → Keying
  | safer C rounds => Safer.keying C rounds
  | cast5 => Cast5.keying T.cast
  | camellia => Camellia.keying T.camellia
  | ariaBytewise => Aria.keying Aria.Bytewise.setKeyInternal
  | aria128 => Aria.keying Aria.Words.setKeyInternal
  | twofish => Twofish.keying T.twofish
  | rijndael C => Rijndael.keying C

/-- For SAFER, the number of rounds was given, or the first key had the length of the last one. -/
def RoundsAgree : Rekeyed → List (List UInt8) → List UInt8 → Prop
  | safer _ rounds, keys, key => rounds ≠ 0 ∨ ∀ first ∈ keys.head?, first.length = key.length
  | _, _, _ => True

/-- Only the last key counts, where the number of rounds does not depend on an earlier one. -/
theorem last_key_counts (T : OpenTables) (X : Rekeyed) {keys : List (List UInt8)} {key : List UInt8}
    (hkey : key.length ∈ (X.keying T).keysz) (h : X.RoundsAgree keys key) : (X.keying T).Forgets keys key := by
  cases X with
  | safer C rounds => exact Safer.forgets h
  | cast5 => exact Keying.forgets_of_setkey (fun c d c' hset => ⟨c', hset, fun b => ⟨rfl, rfl⟩⟩) keys
  | camellia => exact Keying.forgets_of_setkey (fun c d c' hset => Camellia.setKeyInternal_alike d hset) keys
  | ariaBytewise =>
    rw [keying, Aria.bytewise_eq_words]
    exact Keying.forgets_of_setkey (fun c d c' hset => Aria.words_alike d hset) keys
  | aria128 => exact Keying.forgets_of_setkey (fun c d c' hset => Aria.words_alike d hset) keys
  | twofish =>
    refine Keying.forgets_of_setkey (fun c d c' hset => ⟨c', ?_, fun b => ⟨rfl, rfl⟩⟩) keys
    exact (Twofish.setKeyInternal_eq T.twofish d c key).trans hset
  | rijndael C => exact Keying.forgets_of_setkey (fun c d c' hset => Rijndael.setKeyInternal_alike hkey d hset) keys

/-- Tables for an example. -/
def plainTables : OpenTables where
  cast _ b := b.toUInt32
  camellia _ b := b.toUInt64
  twofish := ⟨id, fun x => x + 1, fun _ x => x.toUInt32⟩

theorem last_key_counts_camellia :
    (camellia.keying plainTables).Forgets [List.replicate 32 1] (List.replicate 16 0) :=
  last_key_counts plainTables camellia (show (List.replicate 16 (0 : UInt8)).length ∈ [16, 24, 32] by
    rw [List.length_replicate]
    decide) trivial

/-- A context before its first key. -/
def blankSafer : Safer := ⟨.replicate 33 ⟨0, 0, 0, 0, 0, 0, 0, 0⟩, 0⟩

/-- What a context makes of a block after some keys. -/
def saferAfter (keys : List (List UInt8)) (b : List UInt8) : Option (List UInt8) :=
  ((Safer.keying .k 0).run blankSafer keys).map fun c => Safer.encrypt c b

/-- Six rounds, because of the first key. -/
theorem saferAfter_two : saferAfter [List.replicate 8 0, List.replicate 16 0] (List.replicate 8 0) =
    some [3, 40, 8, 201, 14, 231, 171, 127] := by
  decide +kernel

/-- Ten rounds. -/
theorem saferAfter_last : saferAfter [List.replicate 16 0] (List.replicate 8 0) =
    some [69, 198, 229, 246, 153, 67, 88, 82] := by
  decide +kernel

/-- After a key of 8 bytes, a key of 16 bytes is used with the rounds of the first one. -/
theorem not_forgets_safer : ¬((safer .k 0).keying plainTables).Forgets [List.replicate 8 0] (List.replicate 16 0) := by
  intro h
  obtain ⟨c₂, hrun, henc⟩ := Option.map_eq_some_iff.mp saferAfter_two
  obtain ⟨c₁, hfirst, hrest⟩ := Keying.run_cons hrun
  obtain ⟨c, hset, hnil⟩ := Keying.run_cons hrest
  obtain rfl : c = c₂ := Option.some.inj hnil
  obtain ⟨d, hset', halike⟩ := h blankSafer blankSafer c₁ c rfl rfl (Keying.run_of_setkey hfirst []) hset
  have hfresh : saferAfter [List.replicate 16 0] (List.replicate 8 0) =
      some (Safer.encrypt d (List.replicate 8 0)) := by
    exact Option.map_eq_some_iff.mpr ⟨d, Keying.run_of_setkey hset' [], rfl⟩
  have hsame : Safer.encrypt c (List.replicate 8 0) = Safer.encrypt d (List.replicate 8 0) :=
    Option.some.inj (halike (List.replicate 8 (0 : UInt8))).1
  rw [saferAfter_last, ← hsame, henc] at hfresh
  revert hfresh
  decide

end Rekeyed

end Block

end Drew
