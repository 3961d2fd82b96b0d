import Drew.Mode.Basic
import Drew.Mac.Hmac.Rfc2104

/-!
# Pseudorandom functions

A key derivation function is given another one, with which it computes a pseudorandom function.
`Algorithm` are the functions that are called through its function table. For one key, `IsPrf` says
what the caller may rely on: right after the key was set, or after a reset that follows, the
next call of `generate` computes the function. What the call after that computes without a
reset is left open.
-/

namespace Drew.Kdf

/-- The functions of a key derivation function. -/
structure Algorithm where
  Ctx : Type
  /-- The answer of `info` to `DREW_KDF_SIZE`. -/
  size : Nat
  size_pos : 0 < size
  clone : Ctx → Ctx
  reset : Ctx → Ctx
  setkey : Ctx → List UInt8 → Ctx
  generate : Ctx → Nat → List UInt8 → Ctx × List UInt8
  length_generate : ∀ s m, (generate s size m).2.length = size

/-- `Keyed` contexts have the key, `Fresh` ones are ready to be used. -/
structure Algorithm.Computes (P : Algorithm) (key : List UInt8) (f : List UInt8 → List UInt8)
    (Fresh Keyed : P.Ctx → Prop) : Prop where
  setkey : ∀ s, Fresh (P.setkey s key)
  reset : ∀ {s}, Keyed s → Fresh (P.reset s)
  clone : ∀ {s}, Fresh s → Fresh (P.clone s)
  keyed : ∀ {s}, Fresh s → Keyed s
  generate : ∀ {s} m, Fresh s →
    (P.generate s P.size m).2 = f m ∧ Keyed (P.generate s P.size m).1

/-- With this key, it is a pseudorandom function that computes `f`. -/
def Algorithm.IsPrf (P : Algorithm) (key : List UInt8) (f : List UInt8 → List UInt8) : Prop :=
  ∃ Fresh Keyed, P.Computes key f Fresh Keyed

theorem Algorithm.IsPrf.length {P : Algorithm} {key : List UInt8} {f : List UInt8 → List UInt8}
    (h : P.IsPrf key f) (s : P.Ctx) (m : List UInt8) : (f m).length = P.size := by
  obtain ⟨Fresh, Keyed, h⟩ := h
  rw [← (h.generate m (h.setkey s)).1, P.length_generate]

end Drew.Kdf

/-!
## HMAC as a pseudorandom function

The table of functions for key derivation shares its contexts with HMAC. For the keys for which
a reset leaves HMAC with the right pads, it is a pseudorandom function.
-/

namespace Drew.Mac.Hmac

open Drew.Memory Drew.Kdf

variable {A : HashAlgorithm} {c : Hmac A} {k key o i : List UInt8}

/-! ## Calls that are defined -/

/-- The functions are defined for such a context, and make tags of the size of the digest. -/
structure Usable (c : Hmac A) : Prop where
  sized : Sized A.size c
  hasKey : ∃ k, HasKey k c
  absorbed : ∃ o i, Absorbed o i c

theorem clone_absorbed (h : Absorbed o i c) : Absorbed o i c.clone :=
  ⟨A.absorbed_clone h.outside, A.absorbed_clone h.inside⟩

theorem clone_sized {t : Nat} (h : Sized t c) : Sized t c.clone :=
  ⟨h.blksz, h.blksz_le, h.digestsz, h.size_le, h.taglen⟩

theorem clone_hasKey (h : HasKey k c) : HasKey k c.clone := ⟨h.holds, h.keybufsz⟩

theorem Usable.clone (h : Usable c) : Usable c.clone := by
  obtain ⟨hs, ⟨k, hk⟩, ⟨o, i, ha⟩⟩ := h
  exact ⟨clone_sized hs, ⟨k, clone_hasKey hk⟩, ⟨o, i, clone_absorbed ha⟩⟩

theorem Usable.reset (h : Usable c) : ∃ c', Hmac.reset c = some c' ∧ Usable c' := by
  obtain ⟨hs, ⟨k, hk⟩, -⟩ := h
  by_cases hnil : k = []
  · subst hnil
    obtain ⟨c', hreset, hs', hk', ha'⟩ := reset_of_nil hs hk
    exact ⟨c', hreset, hs', ⟨_, hk'⟩, ⟨_, _, ha'⟩⟩
  · obtain ⟨c', hreset, hs', hk', ha'⟩ := reset_of_ne_nil hs hk hnil
    exact ⟨c', hreset, hs', ⟨_, hk'⟩, ⟨_, _, ha'⟩⟩

theorem Usable.setkey (h : Usable c) (key : List UInt8) :
    ∃ c', Hmac.setkey c key = some c' ∧ Usable c' := by
  obtain ⟨c', hset, hs', hk', ha'⟩ := setkey_spec h.sized key
  exact ⟨c', hset, hs', ⟨_, hk'⟩, ⟨_, _, ha'⟩⟩

/-- The bytes are those of the tag, and the key is kept. -/
theorem generate_spec (hs : Sized A.size c) (ha : Absorbed o i c) (stale : Buf UInt8 256)
    {outlen : Nat} (hout : outlen ≤ A.size) (m : List UInt8) :
    ∃ c', generate stale c outlen m =
        some (.ok (c', (A.digest (o ++ A.digest (i ++ m))).take outlen)) ∧
      Sized A.size c' ∧ Absorbed [] [] c' ∧ ∀ k, HasKey k c → HasKey k c' := by
  obtain ⟨hs', ha'⟩ := foldl_update hs ha [m]
  rw [List.flatten_singleton] at ha'
  obtain ⟨w, c', hw, hfinal, hsized, habs, hkey⟩ := final_spec hs' ha' stale
  have hread := hw.read
  rw [A.length_digest] at hread
  refine ⟨c', ?_, hsized, habs, fun k hk => hkey k ⟨hk.holds, hk.keybufsz⟩⟩
  rw [generate, if_neg (by rw [hs.digestsz]; omega)]
  change (Option.bind (final stale (c.update m)) _) = _
  rw [show final stale (c.update m) = _ from hfinal, hread]
  rfl

/-! ## The table of functions -/

/-- What a call of `hmack_generate` leaves, and the bytes it writes. -/
def written (c : Hmac A) : Option (Except Int (Hmac A × List UInt8)) → Hmac A × List UInt8
  | some (.ok r) => r
  | _ => (c, [])

theorem written_usable (h : Usable c) (stale : Buf UInt8 256) (outlen : Nat) (m : List UInt8) :
    Usable (written c (generate stale c outlen m)).1 := by
  by_cases hout : outlen ≤ A.size
  · obtain ⟨hs, ⟨k, hk⟩, ⟨o, i, ha⟩⟩ := h
    obtain ⟨c', hgen, hs', ha', hk'⟩ := generate_spec hs ha stale hout m
    rw [hgen]
    exact ⟨hs', ⟨k, hk' k hk⟩, ⟨_, _, ha'⟩⟩
  · rw [generate, if_pos (by rw [h.sized.digestsz]; omega)]
    exact h

/-- HMAC, as the function that others derive keys with. -/
def kdf (A : HashAlgorithm) (stale : Buf UInt8 256) : Algorithm where
  Ctx := {c : Hmac A // Usable c}
  size := A.size
  size_pos := A.size_pos
  clone c := ⟨c.1.clone, c.2.clone⟩
  reset c := ⟨(Hmac.reset c.1).getD c.1, by
    obtain ⟨c', hreset, h⟩ := c.2.reset
    rwa [hreset]⟩
  setkey c key := ⟨(Hmac.setkey c.1 key).getD c.1, by
    obtain ⟨c', hset, h⟩ := c.2.setkey key
    rwa [hset]⟩
  generate c outlen m :=
    (⟨(written c.1 (generate stale c.1 outlen m)).1, written_usable c.2 stale outlen m⟩,
      (written c.1 (generate stale c.1 outlen m)).2)
  length_generate c m := by
    obtain ⟨hs, -, ⟨o, i, ha⟩⟩ := c.2
    obtain ⟨c', hgen, -⟩ := generate_spec hs ha stale le_rfl m
    change (written c.1 (generate stale c.1 A.size m)).2.length = A.size
    rw [hgen, written, List.length_take, A.length_digest, Nat.min_self]

theorem init_usable {algo : A.Ctx} (h : init algo 0 = .ok c) : Usable c := by
  have hs := (init_kept h).sized
  unfold init at h
  split at h
  · cases h
  · cases h
    exact ⟨hs, ⟨[], Buf.holds_nil (Nat.zero_le _), rfl⟩,
      ⟨[], [], A.absorbed_reset _, A.absorbed_reset _⟩⟩

/-- The context that `hmack_init` makes, for an algorithm that it accepts. -/
def kdfInit (algo : A.Ctx) (hb : A.blksize ≤ bufferSize) (hd : A.size ≤ bufferSize) :
    {c : Hmac A // Usable c} :=
  match h : init algo 0 with
  | .ok c => ⟨c, init_usable h⟩
  | .error _ => absurd h (by simp [init, Nat.not_lt.mpr hb, Nat.not_lt.mpr hd])

/-- The pads of the key are absorbed. -/
def Primed (A : HashAlgorithm) (key : List UInt8) (c : Hmac A) : Prop :=
  HasKey (keyBytes A key) c ∧
    Absorbed (padded A 0x5c (keyBytes A key)) (padded A 0x36 (keyBytes A key)) c

theorem kdf_isPrf (stale : Buf UInt8 256) (hb : A.blksize = A.rate) (hkey : key ≠ [])
    (hstable : Stable A key) : (kdf A stale).IsPrf key (hmac A key) := by
  refine ⟨fun c => Primed A key c.1, fun c => HasKey (keyBytes A key) c.1, ?_⟩
  constructor
  case setkey =>
    intro c
    obtain ⟨c', hset, -, hk, ha⟩ := setkey_spec c.2.sized key
    change Primed A key ((Hmac.setkey c.1 key).getD c.1)
    rw [hset]
    exact ⟨hk, ha⟩
  case reset =>
    intro c hk
    obtain ⟨c', hreset, -, hk', ha'⟩ := reset_of_ne_nil c.2.sized hk (keyBytes_ne_nil hkey)
    rw [keyBytes_keyBytes hstable] at hk' ha'
    change Primed A key ((Hmac.reset c.1).getD c.1)
    rw [hreset]
    exact ⟨hk', ha'⟩
  case clone =>
    intro c h
    exact ⟨clone_hasKey h.1, clone_absorbed h.2⟩
  case keyed =>
    intro c h
    exact h.1
  case generate =>
    intro c m h
    obtain ⟨c', hgen, -, -, hk⟩ := generate_spec c.2.sized h.2 stale le_rfl m
    change (written c.1 (generate stale c.1 A.size m)).2 = hmac A key m ∧
      HasKey _ (written c.1 (generate stale c.1 A.size m)).1
    rw [hgen]
    refine ⟨?_, hk _ h.1⟩
    change (A.digest _).take A.size = _
    rw [List.take_of_length_le (A.length_digest _).le, hmac, map_blockKey _ hb, map_blockKey _ hb]

end Drew.Mac.Hmac
