import Drew.Hash.Blake.Compress
import Drew.Hash.Blake2b.Model
import Drew.Hash.Groestl
import Drew.Hash.Keccak
import Drew.Hash.Skein.Threefish
import Drew.Hash.Update

/-!
# The fast update

The classes of the plugins, and whether a message that is given in plain and in fast calls has
the digest of the plain calls. For all classes but Skein it does. Skein inherits the fast update
of the template, but has its own `Update`, and there it depends on the calls (`Skein.FastFirst`).

The functions on a block are parameters, and so is what a class makes of its members in
`GetDigest`.
-/

namespace Drew

open Drew.Memory Drew.HashClass

/-! ## Classes of the template -/

namespace Hash

variable {P : Params} {σ : Type}

/-- A class that uses `Update` and `UpdateFast` of the template. -/
abbrev hashClass (f : σ → List UInt8 → σ) (digest : Hash P σ → Option (List UInt8)) (s : σ) :
    HashClass where
  State := Hash P σ
  blockSize := P.blkSize
  reset := init s
  update := update f
  updateFast h data := some (updateFast f h data)
  getDigest := digest

/-- The members are the same after all. -/
theorem agrees (f : σ → List UInt8 → σ) (digest : Hash P σ → Option (List UInt8)) (s : σ)
    {cs : List Call} (hcs : Admissible P.blkSize 0 cs) : (hashClass f digest s).Agrees cs := by
  apply agrees_of_rel (R := fun n h h' => h = h' ∧ ∃ m, m.length = n ∧ After f s m h) _ _ _ _ hcs
  · exact ⟨rfl, [], rfl, after_nil f s⟩
  · rintro n h _ data ⟨rfl, m, rfl, ha⟩
    obtain ⟨h', hupdate, ha', -⟩ := update_spec ha data
    change Option.Rel _ (update f h data) (update f h data)
    rw [hupdate]
    exact .some ⟨rfl, m ++ data, List.length_append, ha'⟩
  · rintro n h _ data ⟨rfl, m, rfl, ha⟩ halign hlen
    obtain ⟨h', hupdate, ha', -⟩ := update_spec ha data
    have hfast := updateFast_eq ha halign hlen
    change Option.Rel _ (some (updateFast f h data)) (update f h data)
    rw [hfast]
    obtain rfl := Option.some.inj (hfast.symm.trans hupdate)
    exact .some ⟨rfl, m ++ data, List.length_append, ha'⟩
  · rintro n h _ ⟨rfl, -⟩
    rfl

/-- MD2. -/
def Params.md2 : Params := ⟨1, 16, by decide, Memory.pos_16, by decide⟩

/-- The classes of Fugue. -/
def Params.fugue : Params := ⟨4, 4, Memory.pos_4, Memory.pos_4, by decide⟩

end Hash

namespace Blake2b

variable {σ : Type}

/-- The class, as the plugin uses it. Its fast update is the plain one. -/
abbrev hashClass (f : σ → Compression → σ) (digest : Ctx σ → Option (List UInt8)) (s : σ) :
    HashClass where
  State := Ctx σ
  blockSize := 128
  reset := Hash.init s
  update := update f
  updateFast := update f
  getDigest := digest

end Blake2b

/-! ## The classes of the plugins -/

/-- The names under which the plugins have their classes. -/
inductive HashName where
  | blake224 | blake256 | blake384 | blake512 | blake2b
  | fugue224 | fugue256 | fugue384 | fugue512
  | groestl | jh
  | keccak | sha3224 | sha3256 | sha3384 | sha3512
  | md2 | md4 | md5
  | rmd128 | rmd160 | rmd256 | rmd320
  | sha0 | sha1 | sha224 | sha256 | sha384 | sha512 | sha512t
  | skein | tiger | whirlpool
  deriving DecidableEq

namespace HashName

/-- A class of the template with these words and blocks. -/
def IsTemplate (P : Hash.Params) (K : HashClass) : Prop :=
  ∃ (σ : Type) (f : σ → List UInt8 → σ) (digest : Hash P σ → Option (List UInt8)) (s : σ),
    K = Hash.hashClass f digest s

def IsBlake (P : Hash.Params) (K : HashClass) : Prop :=
  ∃ (σ : Type) (f : σ → Blake.Compression P → σ) (digest : Hash P σ → Option (List UInt8)) (s : σ),
    K = Blake.hashClass f digest s

def IsBlake2b (K : HashClass) : Prop :=
  ∃ (σ : Type) (f : σ → Blake2b.Compression → σ) (digest : Blake2b.Ctx σ → Option (List UInt8))
    (s : σ), K = Blake2b.hashClass f digest s

def IsGroestl (K : HashClass) : Prop :=
  ∃ (σ : Type) (f : σ → List UInt8 → σ) (long : Bool) (copy : σ → List UInt8) (s : σ),
    K = Groestl.hashClass f long copy s

def IsKeccak (rate : Nat) (K : HashClass) : Prop :=
  ∃ (σ : Type) (f : σ → List UInt8 → σ) (digest : Keccak σ → Option (List UInt8)) (s : σ),
    K = Keccak.hashClass f rate digest s

def IsSkein (K : HashClass) : Prop :=
  ∃ (σ : Type) (ubi : σ → Skein.Step → σ) (copy : σ → List UInt8) (s : σ),
    K = Skein.hashClass ubi copy s

/-- The classes of a name, for any functions on a block. -/
def Is : HashName → HashClass → Prop
  | blake224 | blake256 => IsBlake .words32
  | blake384 | blake512 => IsBlake .words64
  | blake2b => IsBlake2b
  | fugue224 | fugue256 | fugue384 | fugue512 => IsTemplate .fugue
  | groestl => IsGroestl
  | keccak => fun K => ∃ size, 0 < size ∧ size ≤ 64 ∧ IsKeccak (200 - 2 * size) K
  | sha3224 => IsKeccak 144
  | sha3256 => IsKeccak 136
  | sha3384 => IsKeccak 104
  | sha3512 => IsKeccak 72
  | md2 => IsTemplate .md2
  | md4 | md5 | rmd128 | rmd160 | rmd256 | rmd320 => IsTemplate .words32
  | sha0 | sha1 | sha224 | sha256 => IsTemplate .words32
  | sha384 | sha512 | sha512t => IsTemplate .words64
  | jh | tiger | whirlpool => IsTemplate .tiger
  | skein => IsSkein

variable {P : Hash.Params} {K : HashClass} {cs : List Call}

theorem IsTemplate.agrees (hK : IsTemplate P K) (hcs : Admissible K.blockSize 0 cs) : K.Agrees cs := by
  obtain ⟨σ, f, digest, s, rfl⟩ := hK
  exact Hash.agrees f digest s hcs

theorem IsBlake.agrees (hK : IsBlake P K) : K.Agrees cs := by
  obtain ⟨σ, f, digest, s, rfl⟩ := hK
  exact Blake.agrees f digest s cs

theorem IsBlake2b.agrees (hK : IsBlake2b K) : K.Agrees cs := by
  obtain ⟨σ, f, digest, s, rfl⟩ := hK
  exact agrees_of_same rfl cs

theorem IsGroestl.agrees (hK : IsGroestl K) (hcs : Admissible K.blockSize 0 cs) : K.Agrees cs := by
  obtain ⟨σ, f, long, copy, s, rfl⟩ := hK
  exact Groestl.agrees f long copy s hcs

theorem IsKeccak.agrees {rate : Nat} (hK : IsKeccak rate K) : K.Agrees cs := by
  obtain ⟨σ, f, digest, s, rfl⟩ := hK
  exact Keccak.agrees f rate digest s cs

theorem IsSkein.agrees (hK : IsSkein K) (hcs : Skein.FastFirst false cs) : K.Agrees cs := by
  obtain ⟨σ, ubi, copy, s, rfl⟩ := hK
  exact Skein.agrees_of_fastFirst hcs

/-- Every class but Skein. -/
theorem agrees_of_ne_skein {name : HashName} (hname : name ≠ skein) (hK : name.Is K)
    (hcs : Admissible K.blockSize 0 cs) : K.Agrees cs := by
  cases name with
  | blake224 | blake256 | blake384 | blake512 => exact IsBlake.agrees hK
  | blake2b => exact IsBlake2b.agrees hK
  | groestl => exact IsGroestl.agrees hK hcs
  | keccak =>
    obtain ⟨size, -, -, hK⟩ := hK
    exact hK.agrees
  | sha3224 | sha3256 | sha3384 | sha3512 => exact IsKeccak.agrees hK
  | skein => exact absurd rfl hname
  | fugue224 | fugue256 | fugue384 | fugue512 | jh | md2 | md4 | md5 | rmd128 | rmd160 | rmd256 | rmd320
  | sha0 | sha1 | sha224 | sha256 | sha384 | sha512 | sha512t | tiger | whirlpool =>
    exact IsTemplate.agrees hK hcs

end HashName

/-- When the fast calls of a message make no difference to the digest. -/
theorem fast_update_iff (name : HashName) (calls : List Call) :
    (∀ K, name.Is K → Admissible K.blockSize 0 calls → K.Agrees calls) ↔
      (name = .skein → Admissible 64 0 calls → Skein.FastFirst false calls) := by
  constructor
  · rintro hagrees rfl hcalls
    apply (Skein.agrees_iff hcalls).mp
    intro σ ubi copy s
    exact hagrees (Skein.hashClass ubi copy s) ⟨σ, ubi, copy, s, rfl⟩ hcalls
  · intro hgood K hK hcalls
    by_cases hname : name = .skein
    · subst hname
      have hsize : K.blockSize = 64 := by
        obtain ⟨σ, ubi, copy, s, rfl⟩ := hK
        rfl
      rw [hsize] at hcalls
      exact HashName.IsSkein.agrees hK (hgood rfl hcalls)
    · exact HashName.agrees_of_ne_skein hname hK hcalls

/-- Skein with Threefish, and two blocks in a single fast call. -/
theorem skein_fast_two_blocks :
    HashName.skein.Is (Skein.skein 64) ∧
      Admissible (Skein.skein 64).blockSize 0 [⟨true, List.replicate 128 0⟩] ∧
      ¬ (Skein.skein 64).Agrees [⟨true, List.replicate 128 0⟩] := by
  refine ⟨⟨_, _, _, _, rfl⟩, ⟨?_, fun _ => ⟨rfl, ?_⟩, trivial⟩, ?_⟩
  · rw [List.length_replicate]
    decide
  · rw [List.length_replicate]
    rfl
  have hfirst : ((Skein.skein 64).digest [⟨true, List.replicate 128 0⟩]).map List.head? = some (some 116) := by
    decide +kernel
  have hplain : ((Skein.skein 64).digest (plain [⟨true, List.replicate 128 0⟩])).map List.head? =
      some (some 251) := by
    decide +kernel
  intro hagrees
  rw [Agrees] at hagrees
  rw [hagrees, hplain] at hfirst
  exact absurd hfirst (by decide)

end Drew
