import Drew.Block.Aes.Model
import Drew.Block.AesNative.Model
import Drew.Block.Aria.Model
import Drew.Block.Camellia.Model
import Drew.Block.Safer.Model
import Drew.Error
import Drew.Memory.Buffer

/-!
# Keys that are refused

`SetKey` of the class template `BlockCipher` notes the size of a key before the cipher looks at it. A refused
key leaves the members of the cipher alone, but the context reports its size from then on. Two of the ciphers
copy the key to a local buffer of 32 bytes before they look at its size.
-/

namespace Drew

open Drew.Memory

/-! ## The functions of the ciphers -/

/-- What `SetKeyInternal` of AES and of AES-NI gives for a size without a case of its own. -/
def Aes.refusal (len : Nat) : Int := if len = 20 ∨ len = 28 then -DREW_ERR_NOT_IMPL else -DREW_ERR_INVALID

def Aes.setKeyResult (c : Aes) (key : List UInt8) : Option (Aes × Int) :=
  match c.setKeyInternal key with
  | some c' => some (c', 0)
  | none => some (c, refusal key.length)

def AesNi.setKeyResult (mode : KeyMode) (c : AesNi) (key : List UInt8) : Option (AesNi × Int) :=
  if key.length = 16 ∨ key.length = 24 ∨ key.length = 32 then
    (c.setKeyInternal key mode).map fun c' => (c', 0)
  else some (c, Aes.refusal key.length)

/-- A key of the right size is refused if there are too many rounds. -/
def Safer.setKeyResult (C : Class) (c : Safer) (key : List UInt8) : Option (Safer × Int) :=
  match setKeyInternal C c key with
  | .undefined => none
  | .failed c' => some (c', if key.length = 8 ∨ key.length = 16 then -DREW_ERR_NOT_IMPL else -DREW_ERR_INVALID)
  | .done c' => some (c', 0)

/-- A local buffer for a key. -/
def Block.localBuf : Buf UInt8 32 := Vector.replicate 32 0

/-- A local array, whose contents do not matter. -/
def Camellia.localKo : Buf UInt64 4 := Vector.replicate 4 0

def Camellia.storeWord (key : List UInt8) (ko : Buf UInt64 4) (i : Nat) : Option (Buf UInt64 4) :=
  ko.store i (convert word64 .big ((key.drop (8 * i)).take 8))

/-- `E::Copy` to `ko`. Words are converted one by one, unless the bytes of a
word have the right order in memory. -/
def Camellia.copyKey (native : Endian) (key : List UInt8) : Option Unit :=
  match native with
  | .big => (Block.localBuf.write 0 key).map fun _ => ()
  | .little => ((List.range ((key.length + 7) / 8)).foldlM (storeWord key) localKo).map fun _ => ()

def Camellia.setKeyResult (s : Tables) (native : Endian) (c : Camellia) (key : List UInt8) :
    Option (Camellia × Int) := do
  copyKey native key
  match setKeyInternal s c key with
  | some c' => return (c', 0)
  | none => return (c, -DREW_ERR_INVALID)

/-- What the two classes of ARIA have in common: `set` is used for a key in `buf`. -/
def Aria.setKeyResult (set : Aria → List UInt8 → Option Aria) (c : Aria) (key : List UInt8) :
    Option (Aria × Int) := do
  let _ ← Block.localBuf.write 0 key
  match set c key with
  | some c' => return (c', 0)
  | none => return (c, -DREW_ERR_INVALID)

namespace Block

/-! ## The base class -/

/-- The members of the base class, and those of the cipher. -/
structure Keyed (σ : Type) where
  keysz : Nat
  cipher : σ

namespace Keyed

variable {σ : Type}

/-- `SetKey`, with what `SetKeyInternal` does to the cipher. It is undefined if that leaves a buffer. -/
def setKey (I : σ → List UInt8 → Option (σ × Int)) (c : Keyed σ) (key : List UInt8) : Option (Keyed σ × Int) := do
  let c := { c with keysz := key.length }
  let (cipher, res) ← I c.cipher key
  return ({ c with cipher }, res)

/-- A `size_t` that is returned as an `int`. -/
def toInt (n : Nat) : Int := (BitVec.ofNat 32 n).toInt

/-- `GetKeySize`. -/
def getKeySize (c : Keyed σ) : Int := toInt c.keysz

end Keyed

/-- A class of contexts. -/
structure CipherClass where
  Context : Type
  Text : Type
  setKeyInternal : Context → List UInt8 → Option (Context × Int)
  encrypt : Context → Text → Option Text
  decrypt : Context → Text → Option Text
  /-- The keys that it takes. -/
  Accepts : Context → List UInt8 → Prop
  /-- The keys that fit its buffers. -/
  Fits : List UInt8 → Prop

def threeSizes (key : List UInt8) : Prop := key.length = 16 ∨ key.length = 24 ∨ key.length = 32

/-- The classes that refuse keys by their size. -/
inductive Refusing
  | aes
  | aesNi (mode : AesNi.KeyMode)
  | safer (C : Safer.Class)
  | camellia (s : Camellia.Tables) (native : Endian)
  | ariaBytewise
  | aria128

namespace Refusing

def ariaClass (set : Aria → List UInt8 → Option Aria) : CipherClass where
  Context := Aria
  Text := Aria.Block
  setKeyInternal := Aria.setKeyResult set
  encrypt := Aria.encrypt
  decrypt := Aria.decrypt
  Accepts _ key := key.length / 8 = 2 ∨ key.length / 8 = 3 ∨ key.length / 8 = 4
  Fits key := key.length ≤ 32

def cipherClass : Refusing → CipherClass
  | aes => ⟨Aes, List UInt8, Aes.setKeyResult, fun c b => some (c.encrypt b), fun c b => some (c.decrypt b),
      fun _ key => threeSizes key, fun _ => True⟩
  | aesNi mode => ⟨AesNi, List UInt8, AesNi.setKeyResult mode, fun c b => some (c.encrypt b),
      fun c b => some (c.decrypt b), fun _ key => threeSizes key, fun _ => True⟩
  | safer C => ⟨Safer, List UInt8, Safer.setKeyResult C, fun c b => some (c.encrypt b),
      fun c b => some (c.decrypt b),
      fun c key => (key.length = 8 ∨ key.length = 16) ∧ c.rounds ≤ Safer.maxRounds, fun _ => True⟩
  | camellia s native => ⟨Camellia, List UInt8, Camellia.setKeyResult s native, Camellia.encrypt s,
      Camellia.decrypt s, fun _ key => threeSizes key, fun key => key.length ≤ 32⟩
  | ariaBytewise => ariaClass Aria.Bytewise.setKeyInternal
  | aria128 => ariaClass Aria.Words.setKeyInternal

end Refusing

namespace CipherClass

variable (X : CipherClass)

/-- The call stays in the buffers, fails, and nothing is different after it. -/
def FailsCleanly (c : Keyed X.Context) (key : List UInt8) : Prop :=
  ∃ c' res, c.setKey X.setKeyInternal key = some (c', res) ∧ res < 0 ∧
    (∀ b, X.encrypt c'.cipher b = X.encrypt c.cipher b ∧ X.decrypt c'.cipher b = X.decrypt c.cipher b) ∧
    c'.getKeySize = c.getKeySize

/-- What a refused key does to a cipher: nothing, or it does not fit a buffer. -/
def Refuses (c : X.Context) (key : List UInt8) : Prop :=
  (X.Fits key → ∃ res < 0, X.setKeyInternal c key = some (c, res)) ∧
    (¬X.Fits key → X.setKeyInternal c key = none)

variable {X} {c : Keyed X.Context} {key : List UInt8}

theorem failsCleanly_iff (h : X.Refuses c.cipher key) :
    X.FailsCleanly c key ↔ X.Fits key ∧ Keyed.toInt key.length = c.getKeySize := by
  by_cases hfits : X.Fits key
  · obtain ⟨res, hres, hset⟩ := h.1 hfits
    have hrun : c.setKey X.setKeyInternal key = some (⟨key.length, c.cipher⟩, res) := by
      rw [Keyed.setKey]
      simp only [hset, Option.bind_eq_bind, Option.bind_some]
      rfl
    constructor
    · rintro ⟨c', res', hrun', -, -, hsize⟩
      cases hrun.symm.trans hrun'
      exact ⟨hfits, hsize⟩
    · rintro ⟨-, hsize⟩
      exact ⟨_, res, hrun, hres, fun _ => ⟨rfl, rfl⟩, hsize⟩
  · have hrun : c.setKey X.setKeyInternal key = none := by
      rw [Keyed.setKey]
      simp only [h.2 hfits, Option.bind_eq_bind, Option.bind_none]
    constructor
    · rintro ⟨c', res', hrun', -⟩
      cases hrun.symm.trans hrun'
    · exact fun h => absurd h.1 hfits

end CipherClass

/-! ## The refusals -/

namespace Refusing

variable {key : List UInt8}

theorem aes_refusal_lt (len : Nat) : Aes.refusal len < 0 := by
  unfold Aes.refusal
  split <;> decide

theorem write_localBuf_of_le (h : key.length ≤ 32) : ∃ w, localBuf.write 0 key = some w :=
  Buf.exists_write_at localBuf 0 key (by omega)

theorem write_localBuf_of_lt (h : 32 < key.length) : localBuf.write 0 key = none := by
  rw [Buf.write, dif_neg (by omega)]

theorem storeWords_of_le {n : Nat} (h : n ≤ 4) :
    ∃ ko, (List.range n).foldlM (Camellia.storeWord key) Camellia.localKo = some ko := by
  obtain ⟨ko, hrun, -⟩ := foldlM_range (fun _ _ => True) n Camellia.localKo trivial fun i hi ko _ =>
    ⟨_, Buf.store_of_lt ko (convert word64 .big ((key.drop (8 * i)).take 8)) (show i < 4 by omega), trivial⟩
  exact ⟨ko, hrun⟩

theorem storeWords_of_lt {n : Nat} (h : 4 < n) :
    (List.range n).foldlM (Camellia.storeWord key) Camellia.localKo = none := by
  obtain ⟨ko, hko⟩ := @storeWords_of_le key _ (le_refl 4)
  obtain ⟨r, rfl⟩ : ∃ r, n = 4 + (r + 1) := ⟨n - 5, by omega⟩
  rw [List.range_add, List.foldlM_append, hko, List.range_succ_eq_map, List.map_cons]
  simp only [Option.bind_eq_bind, Option.bind_some, List.foldlM_cons, Camellia.storeWord, Nat.add_zero,
    Buf.store_none ko _ (le_refl 4), Option.bind_none]

theorem copyKey_of_le (native : Endian) (h : key.length ≤ 32) : Camellia.copyKey native key = some () := by
  cases native with
  | big =>
    obtain ⟨w, hw⟩ := write_localBuf_of_le h
    rw [Camellia.copyKey, hw]
    rfl
  | little =>
    obtain ⟨ko, hko⟩ := @storeWords_of_le key _ (show (key.length + 7) / 8 ≤ 4 by omega)
    rw [Camellia.copyKey, hko]
    rfl

theorem copyKey_of_lt (native : Endian) (h : 32 < key.length) : Camellia.copyKey native key = none := by
  cases native with
  | big =>
    rw [Camellia.copyKey, write_localBuf_of_lt h]
    rfl
  | little =>
    rw [Camellia.copyKey, storeWords_of_lt (by omega)]
    rfl

theorem refuses_aes {c : Aes} (h : ¬threeSizes key) : aes.cipherClass.Refuses c key := by
  refine ⟨fun _ => ⟨Aes.refusal key.length, aes_refusal_lt _, ?_⟩, fun hfits => absurd trivial hfits⟩
  show Aes.setKeyResult c key = _
  have hset : c.setKeyInternal key = none := if_neg h
  rw [Aes.setKeyResult, hset]
  rfl

theorem refuses_aesNi {c : AesNi} {mode : AesNi.KeyMode} (h : ¬threeSizes key) :
    (aesNi mode).cipherClass.Refuses c key := by
  refine ⟨fun _ => ⟨Aes.refusal key.length, aes_refusal_lt _, ?_⟩, fun hfits => absurd trivial hfits⟩
  show AesNi.setKeyResult mode c key = _
  exact if_neg h

theorem refuses_camellia {s : Camellia.Tables} {native : Endian} {c : Camellia} (h : ¬threeSizes key) :
    (camellia s native).cipherClass.Refuses c key := by
  have hset : Camellia.setKeyInternal s c key = none := by
    have h' := not_or.mp h
    have h'' := not_or.mp h'.2
    rw [Camellia.setKeyInternal, if_neg h'.1, if_neg h''.1, if_neg h''.2]
  refine ⟨fun hfits => ⟨-DREW_ERR_INVALID, by decide, ?_⟩, fun hfits => ?_⟩
  · show Camellia.setKeyResult s native c key = _
    rw [Camellia.setKeyResult, copyKey_of_le native hfits, hset]
    rfl
  · show Camellia.setKeyResult s native c key = _
    rw [Camellia.setKeyResult, copyKey_of_lt native (not_le.mp hfits)]
    rfl

theorem refuses_aria {set : Aria → List UInt8 → Option Aria} {c : Aria} (hset : set c key = none) :
    (ariaClass set).Refuses c key := by
  refine ⟨fun hfits => ⟨-DREW_ERR_INVALID, by decide, ?_⟩, fun hfits => ?_⟩
  · show Aria.setKeyResult set c key = _
    obtain ⟨w, hw⟩ := write_localBuf_of_le hfits
    rw [Aria.setKeyResult, hw, hset]
    rfl
  · show Aria.setKeyResult set c key = _
    rw [Aria.setKeyResult, write_localBuf_of_lt (not_le.mp hfits)]
    rfl

theorem offFor_of_not {len : Nat} (h : ¬(len / 8 = 2 ∨ len / 8 = 3 ∨ len / 8 = 4)) : Aria.offFor len = none := by
  have h' := not_or.mp h
  have h'' := not_or.mp h'.2
  rw [Aria.offFor, if_neg h'.1, if_neg h''.1, if_neg h''.2]

/-- With no number of rounds given, the one for the key is small enough. -/
theorem refuses_safer {C : Safer.Class} {c : Safer}
    (h : ¬((key.length = 8 ∨ key.length = 16) ∧ c.rounds ≤ Safer.maxRounds)) :
    (safer C).cipherClass.Refuses c key := by
  refine ⟨fun _ => ?_, fun hfits => absurd trivial hfits⟩
  show ∃ res < 0, Safer.setKeyResult C c key = some (c, res)
  by_cases hlen : key.length = 8 ∨ key.length = 16
  · have hrounds : Safer.maxRounds < c.rounds := not_le.mp fun hle => h ⟨hlen, hle⟩
    have hkept : Safer.roundsFor c.rounds key.length = c.rounds := if_neg (by
      rintro h0
      rw [h0] at hrounds
      exact absurd hrounds (Nat.not_lt_zero _))
    have hset : Safer.setKeyInternal C c key = .failed c := by
      rw [Safer.setKeyInternal, if_pos hlen]
      dsimp only
      rw [hkept, if_pos hrounds]
    refine ⟨-DREW_ERR_NOT_IMPL, by decide, ?_⟩
    rw [Safer.setKeyResult, hset]
    dsimp only
    rw [if_pos hlen]
  · have hset : Safer.setKeyInternal C c key = .failed c := if_neg hlen
    refine ⟨-DREW_ERR_INVALID, by decide, ?_⟩
    rw [Safer.setKeyResult, hset]
    dsimp only
    rw [if_neg hlen]

theorem refuses (X : Refusing) {c : X.cipherClass.Context} (h : ¬X.cipherClass.Accepts c key) :
    X.cipherClass.Refuses c key := by
  cases X with
  | aes => exact refuses_aes h
  | aesNi mode => exact refuses_aesNi h
  | safer C => exact refuses_safer h
  | camellia s native => exact refuses_camellia h
  | ariaBytewise =>
    refine refuses_aria ?_
    unfold Aria.Bytewise.setKeyInternal
    rw [offFor_of_not h]
    split <;> rfl
  | aria128 =>
    refine refuses_aria ?_
    unfold Aria.Words.setKeyInternal
    rw [offFor_of_not h]
    split <;> rfl

end Refusing

/-- A refused key leaves everything as it was if it fits into the local buffers and its size is the one that
the context reported already. -/
theorem refused_key_iff (X : Refusing) (c : Keyed X.cipherClass.Context) {key : List UInt8}
    (h : ¬X.cipherClass.Accepts c.cipher key) :
    X.cipherClass.FailsCleanly c key ↔ X.cipherClass.Fits key ∧ Keyed.toInt key.length = c.getKeySize :=
  CipherClass.failsCleanly_iff (Refusing.refuses X h)

/-- A context of ARIA that reports 16 bytes. -/
def ariaOf16 : Keyed Aria :=
  ⟨16, ⟨Vector.replicate 17 (Vector.replicate 16 0), Vector.replicate 17 (Vector.replicate 16 0), 0⟩⟩

theorem refused_key_fifteen : Refusing.ariaBytewise.cipherClass.FailsCleanly ariaOf16 (List.replicate 15 0) ↔
    Refusing.ariaBytewise.cipherClass.Fits (List.replicate 15 0) ∧
      Keyed.toInt (List.replicate 15 (0 : UInt8)).length = ariaOf16.getKeySize :=
  refused_key_iff .ariaBytewise ariaOf16 (show ¬((List.replicate 15 (0 : UInt8)).length / 8 = 2 ∨ _) by decide)

/-- A key of 15 bytes is refused, and its size is reported. -/
theorem refused_key_changes : ¬∀ (X : Refusing) (c : Keyed X.cipherClass.Context) (key : List UInt8),
    ¬X.cipherClass.Accepts c.cipher key → X.cipherClass.FailsCleanly c key := by
  intro h
  have hclean := h .ariaBytewise ariaOf16 (List.replicate 15 0)
    (show ¬((List.replicate 15 (0 : UInt8)).length / 8 = 2 ∨ _) by decide)
  obtain ⟨c', res, hrun, -, -, hsize⟩ := hclean
  cases hrun
  exact absurd hsize (by decide)

end Block

end Drew
