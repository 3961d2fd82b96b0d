import Drew.Mac.Hmac.Model
import Drew.Prng.Model
import Drew.Mac.Hmac.Rfc2104
import Drew.Stream.Keystream

/-!
# HMAC_DRBG

The model of `HMACDRBG`. The key is in the HMAC context, `V` is an array of the size of a digest
(`outlen`). `GetBytes` takes the contents of the array that it is to fill as additional input.
-/

namespace Drew.Prng

open Drew.Memory Drew.Mode Drew.Mac

structure HmacDrbg (A : HashAlgorithm) where
  hmac : Hmac A
  V : Buf UInt8 A.size

namespace HmacDrbg

variable {A : HashAlgorithm} {n : Nat}

/-- `HMAC_BUFFER_SIZE`. -/
abbrev hmacBufferSize : Nat := 512

/-- `sp_hmac_init` for an algorithm, without further parameters, and the constructor. The other
members are what was in the memory. The table of functions that the context gets is the one of
CTR_DRBG; its functions call those of the object's own class. -/
def init (algo : A.Ctx) (V : Buf UInt8 A.size) (rc : UInt64) :
    Except Int (Drbg (HmacDrbg A)) := do
  let hmac ← Hmac.init algo 0
  if hmacBufferSize < A.size then .error (-drewErrInvalid)
  else return { inited := false, rc := rc, sub := { hmac := hmac, V := V } }

/-- One half of `Update`: a new key, made with the byte `sep`, and a new `V`. The array `stale` is
the one in `hmac_final`, `buf` the one in `Update`. -/
def half (stale : Buf UInt8 256) (sep : UInt8) (b : List (List UInt8))
    (s : Buf UInt8 hmacBufferSize × HmacDrbg A) :
    Option (Buf UInt8 hmacBufferSize × HmacDrbg A) := do
  let (buf, d) := s
  let hmac ← d.hmac.reset
  let (hmac, tag) ← (b.foldl Hmac.update ((hmac.update d.V.toList).update [sep])).final stale
  let buf ← buf.write 0 tag
  let hmac ← hmac.reset
  let key ← buf.read 0 A.size
  let hmac ← hmac.setkey key
  let (hmac, tag) ← (hmac.update d.V.toList).final stale
  let V ← d.V.write 0 tag
  return (buf, { hmac := hmac, V := V })

def update (env : Env) (b : List (List UInt8)) (d : HmacDrbg A) : Option (HmacDrbg A) := do
  let s ← half (env.array 256) 0 b (env.array hmacBufferSize, d)
  let totallen := (b.map List.length).sum
  let (_, d) ← if totallen ≠ 0 then half (env.array 256) 1 b s else some s
  let hmac ← d.hmac.reset
  return { d with hmac := hmac }

/-- The data is treated as a nonce. -/
def initializeWith (env : Env) (data : List UInt8) (d : Drbg (HmacDrbg A)) :
    Option (Except Int (Drbg (HmacDrbg A))) := do
  match ← env.reading.getBytes (env.array hmacBufferSize) 0 A.size with
  | .error res => return .error res
  | .ok (res, buf) =>
      let entropy ← buf.read 0 res
      let (nbytes, ps) ← env.generatePersonalizationString (env.array 96) 0 96
      let ps ← ps.read 0 nbytes
      let hmac ← d.sub.hmac.reset
      let hmac ← hmac.setkey (List.replicate A.size 0)
      let sub ← update env [entropy, data, ps] { hmac := hmac, V := Vector.replicate A.size 1 }
      return .ok { d with sub := sub, rc := 1 }

def reseed (env : Env) (data : List UInt8) (d : Drbg (HmacDrbg A)) :
    Option (Except Int (Drbg (HmacDrbg A))) := do
  match ← env.reading.getBytes (env.array hmacBufferSize) 0 A.size with
  | .error res => return .error res
  | .ok (res, buf) =>
      let entropy ← buf.read 0 res
      let sub ← update env [entropy, data] d.sub
      return .ok { d with sub := sub, rc := 1 }

/-- A round of the loop in `GetBytes`; `k` counts the rounds, and `i` is `k * outlen`. -/
def round (stale : Buf UInt8 256) (s : HmacDrbg A × Buf UInt8 n) (k : Nat) :
    Option (HmacDrbg A × Buf UInt8 n) := do
  let (d, data) := s
  let i := k * A.size
  let hmac ← d.hmac.reset
  let (hmac, tag) ← (hmac.update d.V.toList).final stale
  let V ← d.V.write 0 tag
  let data ← data.write i (if i + A.size < n then V.toList else V.toList.take (n - i))
  return ({ hmac := hmac, V := V }, data)

/-- `GetBytes` after the checks. The last update reads the array again. -/
def generate (env : Env) (d : Drbg (HmacDrbg A)) (data : Buf UInt8 n) :
    Option (Drbg (HmacDrbg A) × Buf UInt8 n) := do
  let sub ← if n ≠ 0 then update env [data.toList] d.sub else some d.sub
  let rounds := (n + (A.size - 1)) / A.size
  let (sub, data) ← (List.range rounds).foldlM (round (env.array 256)) (sub, data)
  let sub ← update env [data.toList] sub
  return ({ d with sub := sub, rc := d.rc + 1 }, data)

def table (A : HashAlgorithm) : Class (HmacDrbg A) where
  initializeWith := initializeWith
  reseed := reseed
  generate := generate

end HmacDrbg

end Drew.Prng

/-!
## What HMAC_DRBG generates

The key bytes in the HMAC context and `V` go through the steps of SP 800-90A, as long as no reset
changes the key bytes. The update at the end of a request takes the output where it should take
the additional input again, since both are in one array.
-/

namespace Drew.Prng

open Drew.Memory Drew.Mode Drew.Mac Drew.Stream

/-! ## The standard -/

section Standard

variable (f : List UInt8 → List UInt8 → List UInt8)

/-- A new key from a separator and the data, and a new chaining value. -/
def halfUpdate (sep : UInt8) (provided : List UInt8) (s : List UInt8 × List UInt8) :
    List UInt8 × List UInt8 :=
  let K := f s.1 (s.2 ++ sep :: provided)
  (K, f K s.2)

/-- HMAC_DRBG_Update, with the function `f` for HMAC. -/
def hmacDrbgUpdate (provided : List UInt8) (s : List UInt8 × List UInt8) :
    List UInt8 × List UInt8 :=
  if provided = [] then halfUpdate f 0 [] s
  else halfUpdate f 1 provided (halfUpdate f 0 provided s)

/-- The output is the first `n` bytes of the chaining values after the one at the beginning. -/
def hmacDrbgOutput (n : Nat) (s : List UInt8 × List UInt8) : List UInt8 :=
  firstOf (fun i => (f s.1)^[i + 1] s.2) n

/-- The state before the last update, with chaining values of `outlen` bytes. -/
def hmacDrbgAdvance (outlen n : Nat) (s : List UInt8 × List UInt8) : List UInt8 × List UInt8 :=
  (s.1, (f s.1)^[(n + (outlen - 1)) / outlen] s.2)

/-- The state from which the bytes are generated. -/
def hmacDrbgBegin (additional : List UInt8) (s : List UInt8 × List UInt8) :
    List UInt8 × List UInt8 :=
  if additional = [] then s else hmacDrbgUpdate f additional s

end Standard

namespace HmacDrbg

open Hmac

variable {A : HashAlgorithm} {n : Nat} {K V kb : List UInt8} {k : Option (List UInt8)}
  {c c' : Hmac A} {d : HmacDrbg A}

/-- HMAC with the block size that the hash algorithm reports. -/
def hmacOf (A : HashAlgorithm) (key m : List UInt8) : List UInt8 :=
  A.digest (padded A 0x5c (keyBytes A key) ++ A.digest (padded A 0x36 (keyBytes A key) ++ m))

theorem hmacOf_eq (h : A.blksize = A.rate) (key m : List UInt8) :
    hmacOf A key m = Hmac.hmac A key m := by
  rw [Hmac.hmac, map_blockKey _ h, map_blockKey _ h, hmacOf]

theorem length_hmacOf (key m : List UInt8) : (hmacOf A key m).length = A.size :=
  A.length_digest _

theorem hmacOf_ne_nil (key m : List UInt8) : hmacOf A key m ≠ [] := by
  intro hnil
  have hlen := length_hmacOf (A := A) key m
  rw [hnil, List.length_nil] at hlen
  exact Nat.lt_irrefl 0 (hlen ▸ A.size_pos)

/-! ## States -/

/-- The context was made by some calls, and the key last set is `k`. -/
def Made (k : Option (List UInt8)) (c : Hmac A) : Prop :=
  ∃ (algo : A.Ctx) (ops : List Op) (c₀ : Hmac A), Hmac.init algo 0 = .ok c₀ ∧
    ops.foldlM step c₀ = some c ∧ ops.foldl nextKey none = k

theorem Made.step (h : Made k c) {o : Op} (hstep : step c o = some c') :
    Made (nextKey k o) c' := by
  obtain ⟨algo, ops, c₀, hinit, hrun, hkey⟩ := h
  refine ⟨algo, ops ++ [o], c₀, hinit, ?_, ?_⟩
  · rw [List.foldlM_append, hrun]
    change ([o].foldlM Hmac.step c) = _
    rw [List.foldlM_cons, hstep]
    rfl
  · rw [List.foldl_append, hkey]
    rfl

theorem Made.reset (h : Made k c) (hreset : c.reset = some c') : Made k c' :=
  Made.step (o := .reset) h hreset

theorem Made.setkey (h : Made k c) (hset : c.setkey K = some c') : Made (some K) c' :=
  Made.step (o := .setkey K) h hset

theorem Made.foldl_update (h : Made k c) (pieces : List (List UInt8)) :
    Made k (pieces.foldl Hmac.update c) := by
  induction pieces generalizing c with
  | nil => exact h
  | cons data pieces ih => exact ih (Made.step (o := .update data) h rfl)

theorem Made.final (h : Made k c) {stale : Buf UInt8 256} {tag : List UInt8}
    (hfinal : c.final stale = some (c', tag)) : Made k c' := by
  refine Made.step (o := .final stale) h ?_
  rw [Hmac.step, hfinal]
  rfl

/-- A generator whose HMAC context was reset after any calls, with the key `K` and the chaining
value `V`. -/
structure State (K V : List UInt8) (d : HmacDrbg A) : Prop where
  ready : Ready A 0 K .reset d.hmac
  key : K.length = A.size
  chain : d.V.toList = V

/-- The key bytes that a reset takes, and the chaining value. -/
structure Has (kb V : List UInt8) (d : HmacDrbg A) : Prop where
  sized : Sized A.size d.hmac
  key : HasKey kb d.hmac
  ne_nil : kb ≠ []
  chain : d.V.toList = V

theorem foldl_update_key (h : HasKey kb c) (pieces : List (List UInt8)) :
    HasKey kb (pieces.foldl Hmac.update c) := by
  induction pieces generalizing c with
  | nil => exact h
  | cons data pieces ih => exact ih ⟨h.holds, h.keybufsz⟩

/-- The tag of a text, after a context got its pads. -/
theorem final_of_absorbed (hs : Sized A.size c) (hk : HasKey (keyBytes A kb) c)
    (ha : Absorbed (padded A 0x5c (keyBytes A kb)) (padded A 0x36 (keyBytes A kb)) c)
    (hmade : Made k c) (stale : Buf UInt8 256) (pieces : List (List UInt8)) :
    ∃ c', (pieces.foldl Hmac.update c).final stale = some (c', hmacOf A kb pieces.flatten) ∧
      Sized A.size c' ∧ HasKey (keyBytes A kb) c' ∧ Made k c' := by
  obtain ⟨hs', ha'⟩ := Hmac.foldl_update hs ha pieces
  obtain ⟨w, c', hw, hfinal, hsc', -, hkc'⟩ := final_spec hs' ha' stale
  have hread : w.read 0 A.size = some (hmacOf A kb pieces.flatten) := by
    rw [← length_hmacOf (A := A) kb pieces.flatten]
    exact hw.read
  rw [hread] at hfinal
  exact ⟨c', hfinal, hsc', hkc' _ (foldl_update_key hk pieces),
    (hmade.foldl_update pieces).final hfinal⟩

theorem reset_final (hs : Sized A.size c) (hk : HasKey kb c) (hne : kb ≠ []) (hmade : Made k c)
    (stale : Buf UInt8 256) (pieces : List (List UInt8)) :
    ∃ c₁ c', c.reset = some c₁ ∧
      (pieces.foldl Hmac.update c₁).final stale = some (c', hmacOf A kb pieces.flatten) ∧
      Sized A.size c' ∧ HasKey (keyBytes A kb) c' ∧ Made k c' := by
  obtain ⟨c₁, hreset, hs₁, hk₁, ha₁⟩ := reset_of_ne_nil hs hk hne
  obtain ⟨c', hfinal, hspec⟩ := final_of_absorbed hs₁ hk₁ ha₁ (hmade.reset hreset) stale pieces
  exact ⟨c₁, c', hreset, hfinal, hspec⟩

/-! ## Updates -/

theorem exists_write_all {α : Type} {m : Nat} (v : Buf α m) {xs : List α} (h : xs.length = m) :
    ∃ w, v.write 0 xs = some w ∧ w.toList = xs := by
  obtain ⟨w, hw⟩ := Buf.exists_write_at v 0 xs (by omega)
  exact ⟨w, hw, (Buf.holds_write hw).toList h⟩

theorem half_spec (h : Has kb V d) (hmade : Made k d.hmac) (stale : Buf UInt8 256) (sep : UInt8)
    (b : List (List UInt8)) (buf : Buf UInt8 hmacBufferSize) :
    ∃ buf' d', half stale sep b (buf, d) = some (buf', d') ∧
      Has (keyBytes A (halfUpdate (hmacOf A) sep b.flatten (kb, V)).1)
        (halfUpdate (hmacOf A) sep b.flatten (kb, V)).2 d' ∧
      Made (some (halfUpdate (hmacOf A) sep b.flatten (kb, V)).1) d'.hmac := by
  have hsize : A.size ≤ 256 := h.sized.size_le
  obtain ⟨c₁, c₂, hreset, hfinal, hs₂, hk₂, hm₂⟩ :=
    reset_final h.sized h.key h.ne_nil hmade stale (V :: [sep] :: b)
  have hflat : (V :: [sep] :: b).flatten = V ++ sep :: b.flatten := rfl
  rw [hflat] at hfinal
  let K := hmacOf A kb (V ++ sep :: b.flatten)
  have hK : K.length = A.size := length_hmacOf _ _
  obtain ⟨buf', hbuf⟩ := Buf.exists_write_at buf 0 K (by rw [hK]; unfold hmacBufferSize; omega)
  have hread : buf'.read 0 A.size = some K := by
    rw [← hK]
    exact (Buf.holds_write hbuf).read
  obtain ⟨c₃, hreset₃, hs₃, -, -⟩ := reset_of_ne_nil hs₂ hk₂ (keyBytes_ne_nil h.ne_nil)
  obtain ⟨c₄, hset, hs₄, hk₄, ha₄⟩ := setkey_spec hs₃ K
  have hm₄ : Made (some K) c₄ := (hm₂.reset hreset₃).setkey hset
  obtain ⟨c₅, hfinal₅, hs₅, hk₅, hm₅⟩ := final_of_absorbed hs₄ hk₄ ha₄ hm₄ stale [V]
  rw [List.flatten_cons, List.flatten_nil, List.append_nil] at hfinal₅
  obtain ⟨w, hw, hwV⟩ := exists_write_all d.V (length_hmacOf (A := A) K V)
  refine ⟨buf', { hmac := c₅, V := w }, ?_, ⟨hs₅, hk₅, ?_, hwV⟩, hm₅⟩
  · have hpieces : ((V :: [sep] :: b).foldl Hmac.update c₁) =
        b.foldl Hmac.update ((c₁.update V).update [sep]) := rfl
    rw [hpieces] at hfinal
    have hone : ([V].foldl Hmac.update c₄) = c₄.update V := rfl
    rw [hone] at hfinal₅
    simp only [half, h.chain, hreset, hfinal, Option.bind_eq_bind, Option.bind_some]
    change (buf.write 0 K).bind _ = _
    simp only [hbuf, hreset₃, hread, hset, hfinal₅, hw, Option.bind_some]
    rfl
  · exact keyBytes_ne_nil (hmacOf_ne_nil _ _)

/-- Setting the key bytes once more. -/
def rehash (A : HashAlgorithm) (s : List UInt8 × List UInt8) : List UInt8 × List UInt8 :=
  (keyBytes A s.1, s.2)

/-- What `Update` does to the key bytes, and which key it sets. -/
def codeUpdate (A : HashAlgorithm) (provided : List UInt8) (s : List UInt8 × List UInt8) :
    List UInt8 × List UInt8 :=
  if provided = [] then halfUpdate (hmacOf A) 0 [] s
  else halfUpdate (hmacOf A) 1 provided (rehash A (halfUpdate (hmacOf A) 0 provided s))

theorem sum_length_eq_zero (b : List (List UInt8)) :
    (b.map List.length).sum = 0 ↔ b.flatten = [] := by
  rw [← List.length_flatten, List.length_eq_zero_iff]

theorem update_spec (h : Has kb V d) (hmade : Made k d.hmac) (env : Env)
    (b : List (List UInt8)) :
    ∃ d', update env b d = some d' ∧
      Has (keyBytes A (keyBytes A (codeUpdate A b.flatten (kb, V)).1))
        (codeUpdate A b.flatten (kb, V)).2 d' ∧
      ∃ c, Made (some (codeUpdate A b.flatten (kb, V)).1) c ∧ c.reset = some d'.hmac := by
  obtain ⟨buf₁, d₁, hhalf, hd₁, hm₁⟩ :=
    half_spec h hmade (env.array 256) 0 b (env.array hmacBufferSize)
  have hlast : ∀ {K V : List UInt8} {d₂ : HmacDrbg A}, Has (keyBytes A K) V d₂ →
      Made (some K) d₂.hmac → ∃ c, d₂.hmac.reset = some c ∧
        Has (keyBytes A (keyBytes A K)) V { d₂ with hmac := c } := by
    intro K V d₂ hd₂ hm₂
    obtain ⟨c, hreset, hs, hk, -⟩ := reset_of_ne_nil hd₂.sized hd₂.key hd₂.ne_nil
    exact ⟨c, hreset, hs, hk, keyBytes_ne_nil hd₂.ne_nil, hd₂.chain⟩
  by_cases hnil : b.flatten = []
  · rw [codeUpdate, if_pos hnil]
    rw [hnil] at hd₁ hm₁
    obtain ⟨c, hreset, hhas⟩ := hlast hd₁ hm₁
    refine ⟨{ d₁ with hmac := c }, ?_, hhas, d₁.hmac, hm₁, hreset⟩
    simp only [update, hhalf, (sum_length_eq_zero b).mpr hnil, Option.bind_eq_bind,
      Option.bind_some, ne_eq, not_true_eq_false, if_false, hreset]
    rfl
  · rw [codeUpdate, if_neg hnil]
    obtain ⟨buf₂, d₂, hhalf₂, hd₂, hm₂⟩ := half_spec hd₁ hm₁ (env.array 256) 1 b buf₁
    obtain ⟨c, hreset, hhas⟩ := hlast hd₂ hm₂
    refine ⟨{ d₂ with hmac := c }, ?_, hhas, d₂.hmac, hm₂, hreset⟩
    have hsum : (b.map List.length).sum ≠ 0 := fun hz => hnil ((sum_length_eq_zero b).mp hz)
    simp only [update, hhalf, if_pos hsum, hhalf₂, Option.bind_eq_bind, Option.bind_some, hreset]
    rfl

/-! ## The loop -/

/-- A round of the loop: a chaining value is made, and the reset sets the key bytes again. -/
def roundStep (A : HashAlgorithm) (s : List UInt8 × List UInt8) : List UInt8 × List UInt8 :=
  (keyBytes A s.1, hmacOf A s.1 s.2)

/-- The block that the round `i` writes. -/
def roundBlock (A : HashAlgorithm) (s : List UInt8 × List UInt8) (i : Nat) : List UInt8 :=
  ((roundStep A)^[i + 1] s).2

theorem length_roundBlock (s : List UInt8 × List UInt8) (i : Nat) :
    (roundBlock A s i).length = A.size := by
  rw [roundBlock, Function.iterate_succ_apply']
  exact length_hmacOf _ _

/-- The loop before round `i`. -/
structure Looping (s : List UInt8 × List UInt8) (k : Option (List UInt8)) (i : Nat)
    (l : HmacDrbg A × Buf UInt8 n) : Prop where
  has : Has ((roundStep A)^[i] s).1 ((roundStep A)^[i] s).2 l.1
  made : Made k l.1.hmac
  holds : l.2.Holds 0 ((blocks (roundBlock A s) i).take n)

theorem round_spec {s : List UInt8 × List UInt8} {i : Nat} {l : HmacDrbg A × Buf UInt8 n}
    (h : Looping s k i l) (stale : Buf UInt8 256) (hi : i * A.size < n) :
    ∃ l', round stale l i = some l' ∧ Looping s k (i + 1) l' := by
  obtain ⟨d, data⟩ := l
  obtain ⟨hhas, hmade, hholds⟩ := h
  obtain ⟨c₁, c₂, hreset, hfinal, hs₂, hk₂, hm₂⟩ :=
    reset_final hhas.sized hhas.key hhas.ne_nil hmade stale [((roundStep A)^[i] s).2]
  rw [List.flatten_cons, List.flatten_nil, List.append_nil] at hfinal
  have hone : ([((roundStep A)^[i] s).2].foldl Hmac.update c₁) =
      c₁.update ((roundStep A)^[i] s).2 := rfl
  rw [hone] at hfinal
  have hblock : roundBlock A s i =
      hmacOf A ((roundStep A)^[i] s).1 ((roundStep A)^[i] s).2 := by
    rw [roundBlock, Function.iterate_succ_apply']
    rfl
  rw [← hblock] at hfinal
  have hlen := length_roundBlock (A := A) s i
  obtain ⟨w, hw, hwV⟩ := exists_write_all d.V hlen
  -- The part of the block that there is room for.
  have hpart : (if i * A.size + A.size < n then w.toList else w.toList.take (n - i * A.size)) =
      (roundBlock A s i).take (n - i * A.size) := by
    rw [hwV]
    split
    · rw [List.take_of_length_le (by omega)]
    · rfl
  obtain ⟨data', hdata, hholds'⟩ := write_block (length_roundBlock s) hi hholds
  refine ⟨({ hmac := c₂, V := w }, data'), ?_, ?_, hm₂, hholds'⟩
  · simp only [round, hhas.chain, hreset, Option.bind_eq_bind, Option.bind_some, hfinal, hw,
      hpart, hdata]
    rfl
  · rw [Function.iterate_succ_apply']
    refine ⟨hs₂, hk₂, keyBytes_ne_nil hhas.ne_nil, ?_⟩
    rw [hwV, hblock]
    rfl

theorem rounds_spec {s : List UInt8 × List UInt8} (h : Has s.1 s.2 d) (hmade : Made k d.hmac)
    (stale : Buf UInt8 256) (data : Buf UInt8 n) :
    ∃ d' out, (List.range ((n + (A.size - 1)) / A.size)).foldlM (round stale) (d, data) =
        some (d', out) ∧
      Has ((roundStep A)^[(n + (A.size - 1)) / A.size] s).1
        ((roundStep A)^[(n + (A.size - 1)) / A.size] s).2 d' ∧
      Made k d'.hmac ∧ out.toList = firstOf (roundBlock A s) n := by
  have hbegin : Looping s k 0 (d, data) := by
    refine ⟨h, hmade, ?_⟩
    rw [show blocks (roundBlock A s) 0 = [] from rfl, List.take_nil]
    exact Buf.holds_nil (Nat.zero_le _)
  obtain ⟨⟨d', out⟩, hrun, hhas, hm, hholds⟩ := foldlM_range (Looping s k) _ (d, data) hbegin
    fun i hi l hl => round_spec hl stale (mul_lt_of_lt_rounds A.size_pos hi)
  exact ⟨d', out, hrun, hhas, hm,
    toList_of_blocks (length_roundBlock s) A.size_pos (le_rounds_mul A.size_pos n) hholds⟩

/-! ## A request -/

/-- The key bytes and the chaining value from which the bytes are generated. -/
def codeBegin (A : HashAlgorithm) (additional : List UInt8) (s : List UInt8 × List UInt8) :
    List UInt8 × List UInt8 :=
  if additional = [] then s
  else rehash A (rehash A (codeUpdate A additional s))

/-- The state before the last update of a request. -/
def codeEnd (A : HashAlgorithm) (data : Buf UInt8 n) (s : List UInt8 × List UInt8) :
    List UInt8 × List UInt8 :=
  (roundStep A)^[(n + (A.size - 1)) / A.size] (codeBegin A data.toList s)

theorem generate_spec {g : Drbg (HmacDrbg A)} (h : Has kb V g.sub) (hmade : Made k g.sub.hmac)
    (env : Env) (data : Buf UInt8 n) :
    ∃ g' out, generate env g data = some (g', out) ∧
      out.toList = firstOf (roundBlock A (codeBegin A data.toList (kb, V))) n ∧
      Has (keyBytes A (keyBytes A (codeUpdate A out.toList (codeEnd A data (kb, V))).1))
        (codeUpdate A out.toList (codeEnd A data (kb, V))).2 g'.sub ∧
      ∃ c, Made (some (codeUpdate A out.toList (codeEnd A data (kb, V))).1) c ∧
        c.reset = some g'.sub.hmac := by
  obtain ⟨d₁, hd₁, hhas₁, k₁, hm₁⟩ : ∃ d₁, (if n ≠ 0 then update env [data.toList] g.sub
      else some g.sub) = some d₁ ∧ Has (codeBegin A data.toList (kb, V)).1
        (codeBegin A data.toList (kb, V)).2 d₁ ∧ ∃ k₁, Made k₁ d₁.hmac := by
    have hlen : data.toList.length = n := by simp
    by_cases hn : n = 0
    · have hnil : data.toList = [] := List.eq_nil_of_length_eq_zero (by omega)
      rw [codeBegin, if_pos hnil]
      exact ⟨g.sub, if_neg (by omega), h, k, hmade⟩
    · have hnil : data.toList ≠ [] := fun he => hn (by rw [← hlen, he, List.length_nil])
      obtain ⟨d₁, hupdate, hhas, c, hm, hreset⟩ := update_spec h hmade env [data.toList]
      rw [List.flatten_cons, List.flatten_nil, List.append_nil] at hhas hm
      rw [codeBegin, if_neg hnil]
      exact ⟨d₁, by rw [if_pos hn, hupdate], hhas, _, hm.reset hreset⟩
  obtain ⟨d₂, out, hloop, hhas₂, hm₂, hout⟩ := rounds_spec hhas₁ hm₁ (env.array 256) data
  obtain ⟨d₃, hupdate, hhas₃, c, hm₃, hreset⟩ := update_spec hhas₂ hm₂ env [out.toList]
  rw [List.flatten_cons, List.flatten_nil, List.append_nil] at hhas₃ hm₃
  refine ⟨{ g with sub := d₃, rc := g.rc + 1 }, out, ?_, hout, hhas₃, c, hm₃, hreset⟩
  by_cases hn : n ≠ 0
  · rw [if_pos hn] at hd₁
    simp only [generate, if_pos hn, hd₁, Option.bind_eq_bind, Option.bind_some, hloop, hupdate]
    rfl
  · rw [if_neg hn] at hd₁
    obtain rfl := Option.some.inj hd₁
    simp only [generate, if_neg hn, Option.bind_eq_bind, Option.bind_some, hloop, hupdate]
    rfl

end HmacDrbg

end Drew.Prng
