import Drew.Prng.HmacDrbg.Generate

/-!
# HMAC_DRBG against the standard

The bytes that a request gives are those of SP 800-90A for every hash algorithm whose digests are
not longer than a block. The state that it leaves is the standard's for the empty request only:
with any bytes to be written, there is an algorithm for which the last update, with the output,
makes another key than the additional input does.
-/

namespace Drew.Prng.HmacDrbg

open Drew.Memory Drew.Mode Drew.Mac Drew.Mac.Hmac Drew.Stream

variable {A : HashAlgorithm} {n : Nat} {K V : List UInt8} {d : HmacDrbg A}
  {g : Drbg (HmacDrbg A)} {s : List UInt8 × List UInt8}

/-- HMAC_DRBG_Generate: the bytes, and the key and the chaining value afterwards. -/
def hmacDrbgGenerate (f : List UInt8 → List UInt8 → List UInt8) (outlen n : Nat)
    (additional : List UInt8) (s : List UInt8 × List UInt8) :
    List UInt8 × List UInt8 × List UInt8 :=
  let s := hmacDrbgBegin f additional s
  (hmacDrbgOutput f n s, hmacDrbgUpdate f additional (hmacDrbgAdvance f outlen n s))

/-- The request gives the bytes of the standard and leaves its state. -/
def Follows (K V : List UInt8) (g : Drbg (HmacDrbg A)) (env : Env) (data : Buf UInt8 n) : Prop :=
  ∃ g' out, generate env g data = some (g', out) ∧
    out.toList = (hmacDrbgGenerate (hmacOf A) A.size n data.toList (K, V)).1 ∧
    State (hmacDrbgGenerate (hmacOf A) A.size n data.toList (K, V)).2.1
      (hmacDrbgGenerate (hmacOf A) A.size n data.toList (K, V)).2.2 g'.sub

/-! ## The states that are reached -/

section Reached

variable {k : Option (List UInt8)} {d' : HmacDrbg A} {g' : Drbg (HmacDrbg A)}

theorem ready_of_made {c c' : Hmac A} (h : Made (some K) c) (hreset : c.reset = some c') :
    Ready A 0 K .reset c' := by
  obtain ⟨algo, ops, c₀, hinit, hrun, hkey⟩ := h
  exact .reset hinit hrun hkey hreset

theorem made_of_ready {c : Hmac A} (h : Ready A 0 K .reset c) : Made (some K) c := by
  cases h with
  | reset hinit hrun hkey hreset => exact Made.reset ⟨_, _, _, hinit, hrun, hkey⟩ hreset

theorem half_made (h : Made k d.hmac) {stale : Buf UInt8 256} {sep : UInt8}
    {b : List (List UInt8)} {buf buf' : Buf UInt8 hmacBufferSize}
    (hrun : half stale sep b (buf, d) = some (buf', d')) :
    ∃ K, K.length = A.size ∧ Made (some K) d'.hmac := by
  obtain ⟨c₁, hreset, hrun⟩ := Option.bind_eq_some_iff.mp hrun
  obtain ⟨⟨c₂, tag⟩, hfinal, hrun⟩ := Option.bind_eq_some_iff.mp hrun
  obtain ⟨v, -, hrun⟩ := Option.bind_eq_some_iff.mp hrun
  obtain ⟨c₃, hreset₃, hrun⟩ := Option.bind_eq_some_iff.mp hrun
  obtain ⟨key, hkey, hrun⟩ := Option.bind_eq_some_iff.mp hrun
  obtain ⟨c₄, hset, hrun⟩ := Option.bind_eq_some_iff.mp hrun
  obtain ⟨⟨c₅, tag'⟩, hfinal', hrun⟩ := Option.bind_eq_some_iff.mp hrun
  obtain ⟨w, -, hrun⟩ := Option.bind_eq_some_iff.mp hrun
  cases hrun
  have hfed : Made k (b.foldl Hmac.update ((c₁.update d.V.toList).update [sep])) :=
    (h.reset hreset).foldl_update (d.V.toList :: [sep] :: b)
  have hm₄ : Made (some key) c₄ := ((hfed.final hfinal).reset hreset₃).setkey hset
  exact ⟨key, (Buf.holds_of_read hkey).1, (hm₄.foldl_update [d.V.toList]).final hfinal'⟩

theorem update_state (h : Made k d.hmac) {env : Env} {b : List (List UInt8)}
    (hrun : update env b d = some d') : ∃ K V, State K V d' := by
  obtain ⟨⟨buf₁, d₁⟩, hhalf, hrun⟩ := Option.bind_eq_some_iff.mp hrun
  obtain ⟨K₁, hK₁, hm₁⟩ := half_made h hhalf
  dsimp only at hrun
  split at hrun
  · obtain ⟨⟨buf₂, d₂⟩, hhalf₂, hrun⟩ := Option.bind_eq_some_iff.mp hrun
    obtain ⟨c, hreset, hrun⟩ := Option.bind_eq_some_iff.mp hrun
    obtain ⟨K₂, hK₂, hm₂⟩ := half_made hm₁ hhalf₂
    cases hrun
    exact ⟨K₂, _, ready_of_made hm₂ hreset, hK₂, rfl⟩
  · obtain ⟨s, hs, hrun⟩ := Option.bind_eq_some_iff.mp hrun
    cases hs
    obtain ⟨c, hreset, hrun⟩ := Option.bind_eq_some_iff.mp hrun
    cases hrun
    exact ⟨K₁, _, ready_of_made hm₁ hreset, hK₁, rfl⟩

theorem init_made {algo : A.Ctx} {V : Buf UInt8 A.size} {rc : UInt64}
    (h : init algo V rc = .ok g) : Made none g.sub.hmac := by
  unfold init at h
  cases hinit : Hmac.init algo 0 with
  | error e =>
    rw [hinit] at h
    cases h
  | ok c =>
    rw [hinit] at h
    simp only [bind, Except.bind] at h
    split at h
    · cases h
    · cases h
      exact ⟨algo, [], c, hinit, rfl, rfl⟩

/-- An instantiation leaves a key and a chaining value. -/
theorem initializeWith_state (h : Made k g.sub.hmac) {env : Env} {data : List UInt8}
    (hrun : initializeWith env data g = some (.ok g')) : ∃ K V, State K V g'.sub := by
  obtain ⟨r, -, hrun⟩ := Option.bind_eq_some_iff.mp hrun
  cases r with
  | error res => cases hrun
  | ok r =>
    obtain ⟨entropy, -, hrun⟩ := Option.bind_eq_some_iff.mp hrun
    obtain ⟨⟨nbytes, ps⟩, -, hrun⟩ := Option.bind_eq_some_iff.mp hrun
    obtain ⟨ps, -, hrun⟩ := Option.bind_eq_some_iff.mp hrun
    obtain ⟨c, hreset, hrun⟩ := Option.bind_eq_some_iff.mp hrun
    obtain ⟨c', hset, hrun⟩ := Option.bind_eq_some_iff.mp hrun
    obtain ⟨sub, hupdate, hrun⟩ := Option.bind_eq_some_iff.mp hrun
    cases hrun
    exact update_state ((h.reset hreset).setkey hset) hupdate

/-- So does a reseed. -/
theorem reseed_state (h : Made k g.sub.hmac) {env : Env} {data : List UInt8}
    (hrun : reseed env data g = some (.ok g')) : ∃ K V, State K V g'.sub := by
  obtain ⟨r, -, hrun⟩ := Option.bind_eq_some_iff.mp hrun
  cases r with
  | error res => cases hrun
  | ok r =>
    obtain ⟨entropy, -, hrun⟩ := Option.bind_eq_some_iff.mp hrun
    obtain ⟨sub, hupdate, hrun⟩ := Option.bind_eq_some_iff.mp hrun
    cases hrun
    exact update_state h hupdate

theorem rounds_made {stale : Buf UInt8 256} (rounds : List Nat)
    {l l' : HmacDrbg A × Buf UInt8 n} (h : Made k l.1.hmac)
    (hrun : rounds.foldlM (round stale) l = some l') : Made k l'.1.hmac := by
  induction rounds generalizing l with
  | nil =>
    cases hrun
    exact h
  | cons i rounds ih =>
    obtain ⟨l₁, hround, hrest⟩ := Option.bind_eq_some_iff.mp hrun
    obtain ⟨c₁, hreset, hround⟩ := Option.bind_eq_some_iff.mp hround
    obtain ⟨⟨c₂, tag⟩, hfinal, hround⟩ := Option.bind_eq_some_iff.mp hround
    obtain ⟨w, -, hround⟩ := Option.bind_eq_some_iff.mp hround
    obtain ⟨data, -, hround⟩ := Option.bind_eq_some_iff.mp hround
    cases hround
    exact ih (((h.reset hreset).foldl_update [l.1.V.toList]).final hfinal) hrest

/-- And so does a request. -/
theorem generate_state {K V : List UInt8} (h : State K V g.sub) {env : Env} {data out : Buf UInt8 n}
    (hrun : generate env g data = some (g', out)) : ∃ K V, State K V g'.sub := by
  have hrest : ∀ {K : List UInt8} {sub : HmacDrbg A}, Made (some K) sub.hmac →
      ((List.range ((n + (A.size - 1)) / A.size)).foldlM (round (env.array 256)) (sub, data)).bind
        (fun l => (update env [l.2.toList] l.1).bind
          fun sub => some ({ g with sub := sub, rc := g.rc + 1 }, l.2)) = some (g', out) →
      ∃ K V, State K V g'.sub := by
    intro K sub hm hrun
    obtain ⟨l, hloop, hrun⟩ := Option.bind_eq_some_iff.mp hrun
    obtain ⟨sub', hupdate, hrun⟩ := Option.bind_eq_some_iff.mp hrun
    cases hrun
    exact update_state (rounds_made _ hm hloop) hupdate
  unfold generate at hrun
  split at hrun
  · obtain ⟨sub, hupdate, hrun⟩ := Option.bind_eq_some_iff.mp hrun
    obtain ⟨K₁, V₁, hstate⟩ := update_state (made_of_ready h.ready) hupdate
    exact hrest (made_of_ready hstate.ready) hrun
  · exact hrest (made_of_ready h.ready) hrun

end Reached

/-! ## Digests that are not longer than a block -/

section Stable

variable (hst : A.size ≤ A.blksize)

include hst

theorem keyBytes_of_length (h : K.length = A.size) : keyBytes A K = K := if_neg (by omega)

theorem rehash_of_length (h : s.1.length = A.size) : rehash A s = s := by
  rw [rehash, keyBytes_of_length hst h]

theorem codeUpdate_eq (provided : List UInt8) :
    codeUpdate A provided s = hmacDrbgUpdate (hmacOf A) provided s := by
  have hlen : (halfUpdate (hmacOf A) 0 provided s).1.length = A.size := length_hmacOf _ _
  rw [codeUpdate, hmacDrbgUpdate, rehash_of_length hst hlen]

omit hst in
theorem length_hmacDrbgUpdate (provided : List UInt8) :
    (hmacDrbgUpdate (hmacOf A) provided s).1.length = A.size := by
  unfold hmacDrbgUpdate
  split
  · exact length_hmacOf _ _
  · exact length_hmacOf _ _

theorem codeBegin_eq (additional : List UInt8) :
    codeBegin A additional s = hmacDrbgBegin (hmacOf A) additional s := by
  have hlen := length_hmacDrbgUpdate (A := A) (s := s) additional
  rw [codeBegin, hmacDrbgBegin, codeUpdate_eq hst, rehash_of_length hst hlen,
    rehash_of_length hst hlen]

omit hst in
theorem length_hmacDrbgBegin (h : s.1.length = A.size) (additional : List UInt8) :
    (hmacDrbgBegin (hmacOf A) additional s).1.length = A.size := by
  unfold hmacDrbgBegin
  split
  · exact h
  · exact length_hmacDrbgUpdate additional

theorem roundStep_iterate (h : s.1.length = A.size) (i : Nat) :
    (roundStep A)^[i] s = (s.1, (hmacOf A s.1)^[i] s.2) := by
  induction i with
  | zero => rfl
  | succ i ih =>
    rw [Function.iterate_succ_apply', ih, roundStep, keyBytes_of_length hst h,
      Function.iterate_succ_apply']

theorem output_eq (h : s.1.length = A.size) :
    firstOf (roundBlock A s) n = hmacDrbgOutput (hmacOf A) n s := by
  have hblock : roundBlock A s = fun i => (hmacOf A s.1)^[i + 1] s.2 := by
    funext i
    rw [roundBlock, roundStep_iterate hst h]
  rw [hmacDrbgOutput, hblock]

theorem State.has (h : State K V d) : Has K V d ∧ Made (some K) d.hmac := by
  have hmade := made_of_ready h.ready
  obtain ⟨hready, hK, hV⟩ := h
  cases hready with
  | reset hinit hrun hkey hreset =>
    have hkept := reset_kept (run_kept (init_kept hinit) hrun) hreset
    obtain ⟨hs, kb, hkb, heq⟩ := hkept
    obtain rfl := heq K hkey (Or.inl hst)
    rw [keyBytes_of_length hst hK] at hkb
    have hne : K ≠ [] := by
      rintro rfl
      have hpos := A.size_pos
      rw [← hK] at hpos
      exact Nat.lt_irrefl 0 hpos
    exact ⟨⟨hs, hkb, hne, hV⟩, hmade⟩

omit hst in
theorem Has.unique {kb : List UInt8} {W : List UInt8} (h : Has K V d) (h' : Has kb W d) :
    (K, V) = (kb, W) := by
  have hlen : K.length = kb.length := by rw [← h.key.keybufsz, h'.key.keybufsz]
  rw [h.key.holds.unique h'.key.holds hlen, ← h.chain, h'.chain]

/-- The output is that of the standard, and the last update takes it. -/
theorem generate_stable (h : State K V g.sub) (env : Env) (data : Buf UInt8 n) :
    ∃ g' out, generate env g data = some (g', out) ∧
      out.toList = (hmacDrbgGenerate (hmacOf A) A.size n data.toList (K, V)).1 ∧
      State (hmacDrbgUpdate (hmacOf A) out.toList (hmacDrbgAdvance (hmacOf A) A.size n
          (hmacDrbgBegin (hmacOf A) data.toList (K, V)))).1
        (hmacDrbgUpdate (hmacOf A) out.toList (hmacDrbgAdvance (hmacOf A) A.size n
          (hmacDrbgBegin (hmacOf A) data.toList (K, V)))).2 g'.sub := by
  obtain ⟨hhas, hmade⟩ := State.has hst h
  obtain ⟨g', out, hrun, hout, hhas', c, hm, hreset⟩ := generate_spec hhas hmade env data
  have hbegin := length_hmacDrbgBegin (s := (K, V)) h.key data.toList
  have hend : codeEnd A data (K, V) = hmacDrbgAdvance (hmacOf A) A.size n
      (hmacDrbgBegin (hmacOf A) data.toList (K, V)) := by
    rw [codeEnd, codeBegin_eq hst, roundStep_iterate hst hbegin, hmacDrbgAdvance]
  rw [hend, codeUpdate_eq hst] at hhas' hm
  refine ⟨g', out, hrun, ?_, ready_of_made hm hreset, length_hmacDrbgUpdate _, hhas'.chain⟩
  rw [hout, codeBegin_eq hst, output_eq hst hbegin]
  rfl

/-- A request follows the standard exactly if updating with the output is updating with the
additional input. -/
theorem follows_iff (h : State K V g.sub) (env : Env) (data : Buf UInt8 n) :
    Follows K V g env data ↔
      hmacDrbgUpdate (hmacOf A) (hmacDrbgGenerate (hmacOf A) A.size n data.toList (K, V)).1
          (hmacDrbgAdvance (hmacOf A) A.size n (hmacDrbgBegin (hmacOf A) data.toList (K, V))) =
        (hmacDrbgGenerate (hmacOf A) A.size n data.toList (K, V)).2 := by
  obtain ⟨g', out, hrun, hout, hstate⟩ := generate_stable hst h env data
  rw [hout] at hstate
  constructor
  · rintro ⟨g₁, out₁, hrun₁, -, hstate₁⟩
    rw [hrun] at hrun₁
    cases hrun₁
    exact (State.has hst hstate).1.unique (State.has hst hstate₁).1
  · intro heq
    rw [heq] at hstate
    exact ⟨g', out, hrun, hout, hstate⟩

end Stable

/-! ## Any sizes -/

/-- For every hash algorithm with digests of `d` bytes and blocks of `b` bytes, every state and
every additional input, a request of `n` bytes follows the standard. -/
def GeneratesRight (b d n : Nat) : Prop :=
  ∀ A : HashAlgorithm, A.blksize = b → A.size = d → ∀ (K V : List UInt8)
    (g : Drbg (HmacDrbg A)), State K V g.sub → ∀ (env : Env) (data : Buf UInt8 n),
      Follows K V g env data

/-- A state with the given key and chaining value, and its key bytes. -/
theorem exists_state (algo : A.Ctx) (hb : A.blksize ≤ bufferSize) (hd : A.size ≤ bufferSize)
    (hK : K.length = A.size) (hV : V.length = A.size) :
    ∃ g : Drbg (HmacDrbg A), State K V g.sub ∧ Has (keyBytes A (keyBytes A K)) V g.sub ∧
      Made (some K) g.sub.hmac := by
  have hne : K ≠ [] := by
    rintro rfl
    have hpos := A.size_pos
    rw [← hK] at hpos
    exact Nat.lt_irrefl 0 hpos
  obtain ⟨c₀, hinit⟩ : ∃ c, Hmac.init algo 0 = .ok c := ⟨_, if_neg (by omega)⟩
  have hmade₀ : Made none c₀ := ⟨algo, [], c₀, hinit, rfl, rfl⟩
  obtain ⟨c₁, hset, hs₁, hk₁, -⟩ := setkey_spec (init_kept hinit).sized K
  obtain ⟨c₂, hreset, hs₂, hk₂, -⟩ := reset_of_ne_nil hs₁ hk₁ (keyBytes_ne_nil hne)
  have hmade₁ := hmade₀.setkey hset
  have hwV : (Buf.ofList V hV).toList = V := by simp [Buf.ofList]
  exact ⟨⟨false, 0, ⟨c₂, Buf.ofList V hV⟩⟩, ⟨ready_of_made hmade₁ hreset, hK, hwV⟩,
    ⟨hs₂, hk₂, keyBytes_ne_nil (keyBytes_ne_nil hne), hwV⟩, hmade₁.reset hreset⟩

theorem rounds_zero (A : HashAlgorithm) : (0 + (A.size - 1)) / A.size = 0 :=
  Nat.div_eq_of_lt (by have hpos := A.size_pos; omega)

/-- The state after an empty request. -/
theorem generate_nil (f : List UInt8 → List UInt8 → List UInt8) (s : List UInt8 × List UInt8) :
    (hmacDrbgGenerate f A.size 0 [] s).2 = halfUpdate f 0 [] s := by
  simp only [hmacDrbgGenerate, hmacDrbgBegin, hmacDrbgUpdate, hmacDrbgAdvance, rounds_zero, if_pos,
    Function.iterate_zero, id]

theorem codeEnd_nil (data : Buf UInt8 0) : codeEnd A data s = s := by
  have hdata : data.toList = [] := List.eq_nil_of_length_eq_zero (by simp)
  rw [codeEnd, codeBegin, rounds_zero, if_pos hdata]
  rfl

/-! ### Digests that are longer than a block -/

section Long

variable {b r : Nat} {size : Nat} (hr : 0 < r) (hs : 0 < size)

/-- The byte that the digests of the algorithm repeat. -/
def headNext (m : List UInt8) : UInt8 := m.headD 0 + 1

/-- The byte that a tag repeats for a key that repeats the byte `x`. -/
def tagByte (x : UInt8) : UInt8 := (0x5c ^^^ (x + 1)) + 1

theorem keyBytes_headNext (hlong : b < size) (x : UInt8) :
    keyBytes (textAlgorithm b r size hr hs headNext) (List.replicate size x) =
      List.replicate size (x + 1) := by
  have hlen : b < (List.replicate size x).length := by rw [List.length_replicate]; exact hlong
  obtain ⟨m, rfl⟩ : ∃ m, size = m + 1 := ⟨size - 1, by omega⟩
  rw [keyBytes]
  exact if_pos hlen

theorem hmacOf_headNext (hb : 0 < b) (hlong : b < size) (x : UInt8) (m : List UInt8) :
    hmacOf (textAlgorithm b r size hr hs headNext) (List.replicate size x) m =
      List.replicate size (tagByte x) := by
  obtain ⟨zs, hzs⟩ := exists_padded_cons (A := textAlgorithm b r size hr hs headNext) hb hs 0x5c
    (x + 1)
  rw [hmacOf, keyBytes_headNext hr hs hlong, hzs]
  rfl

theorem halfUpdate_headNext (hb : 0 < b) (hlong : b < size) (sep x : UInt8)
    (p V : List UInt8) :
    halfUpdate (hmacOf (textAlgorithm b r size hr hs headNext)) sep p
        (List.replicate size x, V) =
      (List.replicate size (tagByte x), List.replicate size (tagByte (tagByte x))) := by
  rw [halfUpdate, hmacOf_headNext hr hs hb hlong, hmacOf_headNext hr hs hb hlong]

theorem head_replicate_eq {x y : UInt8} (hs : 0 < size)
    (h : List.replicate size x = List.replicate size y) : x = y := by
  have hhead := congrArg List.head? h
  rw [List.head?_replicate, List.head?_replicate, if_neg (by omega), if_neg (by omega)] at hhead
  exact Option.some.inj hhead

/-- The key is hashed again with every reset, so that the standard's key is lost. -/
theorem GeneratesRight.size_le (h : GeneratesRight b size n) (hb : 0 < b) (hb' : b ≤ bufferSize)
    (hs : 0 < size) (hs' : size ≤ bufferSize) : size ≤ b := by
  by_contra hle
  have hlong : b < size := Nat.lt_of_not_le hle
  let A := textAlgorithm b 1 size Nat.one_pos hs headNext
  have hzero : (List.replicate size (0 : UInt8)).length = size := List.length_replicate
  obtain ⟨g, hstate, hhas, hmade⟩ :=
    exists_state (A := A) ([] : List UInt8) hb' hs' hzero hzero
  rw [keyBytes_headNext Nat.one_pos hs hlong, keyBytes_headNext Nat.one_pos hs hlong] at hhas
  let env : Env := ⟨.got [], fun _ => 0, Vector.replicate 96 0⟩
  let data : Buf UInt8 n := Vector.replicate n 0
  obtain ⟨g', out, hrun, hout, hstate'⟩ := h A rfl rfl _ _ g hstate env data
  obtain ⟨g₁, out₁, hrun₁, hout₁, hhas₁, -⟩ := generate_spec hhas hmade env data
  rw [hrun] at hrun₁
  cases hrun₁
  have hhalf : ∀ (sep x : UInt8) (p V : List UInt8), halfUpdate (hmacOf A) sep p
      (List.replicate size x, V) =
        (List.replicate size (tagByte x), List.replicate size (tagByte (tagByte x))) :=
    halfUpdate_headNext Nat.one_pos hs hb hlong
  by_cases hn : n = 0
  · -- nothing is written, and the chaining values differ
    subst hn
    have hdata : data.toList = [] := List.eq_nil_of_length_eq_zero (by simp)
    have hnil : out.toList = [] := List.eq_nil_of_length_eq_zero (by simp)
    have hspec := hstate'.chain
    rw [hdata, generate_nil, hhalf] at hspec
    have hcode := hhas₁.chain
    rw [hnil, codeEnd_nil, codeUpdate, if_pos rfl, hhalf] at hcode
    have hbyte := head_replicate_eq hs (hcode.symm.trans hspec)
    exact absurd hbyte (by decide)
  · -- the first bytes differ
    have hne : data.toList ≠ [] := fun he => hn (by simpa using congrArg List.length he)
    have hkey : ∀ x : UInt8, keyBytes A (List.replicate size x) = List.replicate size (x + 1) :=
      keyBytes_headNext Nat.one_pos hs hlong
    have htag : ∀ (x : UInt8) (m : List UInt8), hmacOf A (List.replicate size x) m =
        List.replicate size (tagByte x) := hmacOf_headNext Nat.one_pos hs hb hlong
    have hhead : ∀ x : UInt8, (List.replicate size x).head? = some x := by
      intro x
      rw [List.head?_replicate, if_neg (by omega)]
    have hspec : out.toList.head? = some (tagByte (tagByte (tagByte 0))) := by
      rw [hout]
      refine head_firstOf (Nat.pos_of_ne_zero hn) ?_
      simp only [hmacDrbgBegin, if_neg hne, hmacDrbgUpdate, hhalf, Function.iterate_succ,
        Function.iterate_zero, Function.comp_apply, id, htag, hhead]
    have hcode : out.toList.head? =
        some (tagByte (tagByte (tagByte (0 + 1 + 1) + 1) + 1 + 1)) := by
      rw [hout₁]
      refine head_firstOf (Nat.pos_of_ne_zero hn) ?_
      simp only [codeBegin, if_neg hne, codeUpdate, hhalf, rehash, hkey, roundBlock, roundStep,
        Function.iterate_succ, Function.iterate_zero, Function.comp_apply, id, htag, hhead]
    rw [hspec] at hcode
    exact absurd (Option.some.inj hcode) (by decide)

end Long

/-! ### Digests that fit in a block -/

section Short

variable {b size : Nat} (hs : 0 < size)

/-- The byte seven if the text has one, else zero. -/
def marks (m : List UInt8) : UInt8 := if 7 ∈ m then 7 else 0

/-- The algorithm whose digests say whether there is a seven in the text. -/
abbrev marking (b : Nat) (hs : 0 < size) : HashAlgorithm := textAlgorithm b 1 size Nat.one_pos hs marks

theorem marks_append (xs ys : List UInt8) (h : 7 ∉ xs) : marks (xs ++ ys) = marks ys := by
  simp only [marks, List.mem_append, h, false_or]

theorem marks_replicate {m : Nat} (hm : 0 < m) {y : UInt8} (hy : y = 0 ∨ y = 7) :
    marks (List.replicate m y) = y := by
  rcases hy with rfl | rfl
  · exact if_neg fun hmem => absurd (List.eq_of_mem_replicate hmem) (by decide)
  · exact if_pos (List.mem_replicate.mpr ⟨by omega, rfl⟩)

theorem marks_eq (m : List UInt8) : marks m = 0 ∨ marks m = 7 := by
  unfold marks
  split
  · exact Or.inr rfl
  · exact Or.inl rfl

/-- The pads have no seven. -/
theorem seven_not_mem_padded (A : HashAlgorithm) {x y : UInt8} (hx : x = 0x5c ∨ x = 0x36)
    (hy : y = 0 ∨ y = 7) : 7 ∉ padded A x (List.replicate size y) := by
  intro hmem
  rw [padded, List.mem_append, List.take_replicate, List.map_replicate] at hmem
  have hbytes : 7 = x ^^^ y ∨ 7 = x := by
    rcases hmem with hmem | hmem
    · exact Or.inl (List.eq_of_mem_replicate hmem)
    · exact Or.inr (List.eq_of_mem_replicate hmem)
  rcases hx with rfl | rfl <;> rcases hy with rfl | rfl <;> revert hbytes <;> decide

theorem hmacOf_marking (hle : size ≤ b) {y : UInt8} (hy : y = 0 ∨ y = 7) (m : List UInt8) :
    hmacOf (marking b hs) (List.replicate size y) m = List.replicate size (marks m) := by
  have hkey : keyBytes (marking b hs) (List.replicate size y) = List.replicate size y :=
    keyBytes_of_length hle List.length_replicate
  have hinner : (marking b hs).digest
      (padded (marking b hs) 0x36 (List.replicate size y) ++ m) =
        List.replicate size (marks m) := by
    change List.replicate size (marks _) = _
    rw [marks_append _ _ (seven_not_mem_padded _ (Or.inr rfl) hy)]
  rw [hmacOf, hkey, hinner]
  change List.replicate size (marks _) = _
  rw [marks_append _ _ (seven_not_mem_padded _ (Or.inl rfl) hy),
    marks_replicate hs (marks_eq m)]

theorem marks_separated {sep : UInt8} (hsep : sep ≠ 7) (p : List UInt8) :
    marks (List.replicate size 0 ++ sep :: p) = marks p := by
  have hzero : (7 : UInt8) ∉ List.replicate size 0 := fun hmem =>
    absurd (List.eq_of_mem_replicate hmem) (by decide)
  have hsep' : (7 : UInt8) ∉ [sep] := fun hmem => hsep (List.mem_singleton.mp hmem).symm
  rw [marks_append _ _ hzero, show sep :: p = [sep] ++ p from rfl, marks_append _ _ hsep']

/-- The chaining value stays zero, and the key says what the data is. -/
theorem update_marking (hle : size ≤ b) {y : UInt8} (hy : y = 0 ∨ y = 7) (p : List UInt8) :
    hmacDrbgUpdate (hmacOf (marking b hs)) p (List.replicate size y, List.replicate size 0) =
      (List.replicate size (marks p), List.replicate size 0) := by
  have hhalf : ∀ (sep y : UInt8) (p : List UInt8), sep ≠ 7 → (y = 0 ∨ y = 7) →
      halfUpdate (hmacOf (marking b hs)) sep p (List.replicate size y, List.replicate size 0) =
        (List.replicate size (marks p), List.replicate size 0) := by
    intro sep y p hsep hy
    rw [halfUpdate]
    simp only [hmacOf_marking hs hle hy, marks_separated hsep, hmacOf_marking hs hle (marks_eq p),
      marks_replicate hs (Or.inl rfl)]
  unfold hmacDrbgUpdate
  split
  · rename_i hnil
    rw [hhalf 0 y [] (by decide) hy, hnil]
  · rw [hhalf 0 y p (by decide) hy, hhalf 1 (marks p) p (by decide) (marks_eq p)]

theorem iterate_marking (hle : size ≤ b) {y : UInt8} (hy : y = 0 ∨ y = 7) (i : Nat) :
    (hmacOf (marking b hs) (List.replicate size y))^[i] (List.replicate size 0) =
      List.replicate size 0 := by
  induction i with
  | zero => rfl
  | succ i ih =>
    rw [Function.iterate_succ_apply', ih, hmacOf_marking hs hle hy,
      marks_replicate hs (Or.inl rfl)]

theorem output_marking (hle : size ≤ b) {y : UInt8} (hy : y = 0 ∨ y = 7) :
    hmacDrbgOutput (hmacOf (marking b hs)) n (List.replicate size y, List.replicate size 0) =
      List.replicate n 0 := by
  have hblock : (fun i => (hmacOf (marking b hs) (List.replicate size y))^[i + 1]
      (List.replicate size 0)) = fun _ => List.replicate size 0 := by
    funext i
    exact iterate_marking hs hle hy (i + 1)
  have hlen : ∀ i : Nat, ((fun _ => List.replicate size (0 : UInt8)) i).length = size :=
    fun _ => List.length_replicate
  rw [hmacDrbgOutput, hblock, List.eq_replicate_iff]
  refine ⟨length_firstOf hlen hs n, fun x hx => ?_⟩
  obtain ⟨i, -, hmem⟩ := List.mem_flatMap.mp (List.mem_of_mem_take hx)
  exact List.eq_of_mem_replicate hmem

/-- The additional input has sevens, the output has none. -/
theorem not_follows_marking (hle : size ≤ b) (hn : 0 < n) {g : Drbg (HmacDrbg (marking b hs))}
    (hstate : State (List.replicate size 0) (List.replicate size 0) g.sub) (env : Env) :
    ¬Follows (List.replicate size 0) (List.replicate size 0) g env
      (Vector.replicate n (7 : UInt8)) := by
  intro h
  have hdata : (Vector.replicate n (7 : UInt8)).toList = List.replicate n 7 := by simp
  have hne : List.replicate n (7 : UInt8) ≠ [] := by simpa using Nat.ne_of_gt hn
  have heq := (follows_iff (A := marking b hs) hle hstate env _).mp h
  rw [hdata] at heq
  have hbegin : hmacDrbgBegin (hmacOf (marking b hs)) (List.replicate n 7)
      (List.replicate size 0, List.replicate size 0) =
        (List.replicate size 7, List.replicate size 0) := by
    rw [hmacDrbgBegin, if_neg hne, update_marking hs hle (Or.inl rfl),
      marks_replicate hn (Or.inr rfl)]
  have hout : hmacDrbgOutput (hmacOf (marking b hs)) n
      (List.replicate size 7, List.replicate size 0) = List.replicate n 0 :=
    output_marking hs hle (Or.inr rfl)
  simp only [hmacDrbgGenerate, hbegin, hout, hmacDrbgAdvance,
    iterate_marking hs hle (Or.inr rfl), update_marking hs hle (Or.inr rfl),
    marks_replicate hn (Or.inl rfl), marks_replicate hn (Or.inr rfl)] at heq
  exact absurd (head_replicate_eq hs (Prod.mk.inj heq).1) (by decide)

end Short

/-! ### The condition -/

/-- Requests follow the standard exactly if they are empty and digests fit in a block. -/
theorem generatesRight_iff {b d : Nat} (hb : 0 < b) (hb' : b ≤ bufferSize) (hd : 0 < d)
    (hd' : d ≤ bufferSize) (n : Nat) : GeneratesRight b d n ↔ n = 0 ∧ d ≤ b := by
  constructor
  · intro h
    have hle := h.size_le hb hb' hd hd'
    refine ⟨?_, hle⟩
    by_contra hn
    have hzero : (List.replicate d (0 : UInt8)).length = d := List.length_replicate
    obtain ⟨g, hstate, -⟩ :=
      exists_state (A := marking b hd) ([] : List UInt8) hb' hd' hzero hzero
    exact not_follows_marking hd hle (Nat.pos_of_ne_zero hn) hstate
      ⟨.got [], fun _ => 0, Vector.replicate 96 0⟩
      (h (marking b hd) rfl rfl _ _ g hstate _ _)
  · rintro ⟨rfl, hle⟩ A rfl rfl K V g hstate env data
    rw [follows_iff hle hstate]
    have hdata : data.toList = [] := List.eq_nil_of_length_eq_zero (by simp)
    rw [hdata]
    rfl

theorem generatesRight_sha256 : GeneratesRight 64 32 0 :=
  (generatesRight_iff Memory.pos_64 (by decide) (by decide) (by decide) 0).mpr
    ⟨rfl, by decide⟩

/-- One byte of output, with the sizes of SHA-256. -/
theorem hmac_drbg_updates_with_output : ∃ g : Drbg (HmacDrbg (marking 64 Memory.pos_32)),
    State (List.replicate 32 0) (List.replicate 32 0) g.sub ∧
      ¬Follows (List.replicate 32 0) (List.replicate 32 0) g
        ⟨.got [], fun _ => 0, Vector.replicate 96 0⟩ (Vector.replicate 1 (7 : UInt8)) := by
  obtain ⟨g, hstate, -⟩ := exists_state (A := marking 64 Memory.pos_32) ([] : List UInt8)
    (K := List.replicate 32 0) (V := List.replicate 32 0) (by decide) (by decide)
    List.length_replicate List.length_replicate
  exact ⟨g, hstate, not_follows_marking Memory.pos_32 (by decide) Nat.one_pos hstate _⟩

end Drew.Prng.HmacDrbg
