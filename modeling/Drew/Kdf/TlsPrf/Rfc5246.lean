import Drew.Kdf.HmacKdf
import Drew.Stream.Keystream

/-!
# The PRF of TLS

The model of `tls-prf.c`. Two contexts of the pseudorandom function are used, one for the chain
of intermediate values and one for the output. The second one is the context of the caller.
-/

namespace Drew.Kdf

open Drew.Memory Drew.Mode

structure Tls (P : Algorithm) where
  prf : P.Ctx
  prfsz : Nat

namespace Tls

variable {P : Algorithm} {n : Nat}

/-- `BUFFER_SIZE`. -/
abbrev bufferSize : Nat := 256

/-- `tls_init`, with the value of the parameter `prf`, or the context of HMAC that was made for
the parameter `digest`. -/
def init : Option P.Ctx → Except Int (Tls P)
  | none => .error (-drewErrMoreInfo)
  | some algo => .ok { prf := P.reset (P.clone algo), prfsz := P.size }

def reset (c : Tls P) : Tls P := { c with prf := P.reset c.prf }

def setkey (c : Tls P) (key : List UInt8) : Tls P := { c with prf := P.setkey c.prf key }

/-- What the loop changes: both contexts, the local buffers and the output. -/
structure Loop (P : Algorithm) (n : Nat) where
  prf : P.Ctx
  aprf : P.Ctx
  ai : Buf UInt8 256
  buf : Buf UInt8 256
  out : Buf UInt8 n

/-- One round of the loop: the next `A(i)`, and a block of output. -/
def round (c : Tls P) (o outlen : Nat) (inp : List UInt8) (s : Loop P n) (i : Nat) :
    Option (Loop P n) := do
  let off := i * c.prfsz
  let a ← s.ai.read 0 c.prfsz
  let tmp := a ++ inp
  let (aprf, a) := P.generate (P.reset s.aprf) c.prfsz a
  let ai ← s.ai.write 0 a
  let (prf, b) := P.generate (P.reset s.prf) c.prfsz tmp
  let buf ← s.buf.write 0 b
  let b ← buf.read 0 (min c.prfsz (outlen - off))
  let out ← s.out.write (o + off) b
  return ⟨prf, aprf, ai, buf, out⟩

/-- `tls_generate`, with the output at `out + o`; `buf` and `ai` are what the local buffers
contain at first. -/
def generate (c : Tls P) (buf ai : Buf UInt8 256) (out : Buf UInt8 n) (o outlen : Nat)
    (inp : List UInt8) : Option (Tls P × Buf UInt8 n) := do
  -- generate A(1)
  let (aprf, a) := P.generate (P.clone c.prf) c.prfsz inp
  let ai ← ai.write 0 a
  let s ← (List.range ((outlen + c.prfsz - 1) / c.prfsz)).foldlM (round c o outlen inp)
    ⟨c.prf, aprf, ai, buf, out⟩
  return ({ c with prf := s.prf }, s.out)

end Tls

end Drew.Kdf

/-!
## What the PRF of TLS computes

The loop resets both contexts before it uses them, so that only `A(1)` depends on the state in
which the caller left the context. It is right if the context is fresh; a call that writes
output leaves it used.
-/

namespace Drew.Kdf.Tls

open Drew.Memory Drew.Stream Drew.Mode

/-! ## What is meant to be computed -/

/-- The intermediate values from `a` on, each computed from the one before. -/
def chain (f : List UInt8 → List UInt8) (a : List UInt8) : Nat → List UInt8
  | 0 => a
  | i + 1 => f (chain f a i)

/-- The blocks with the values from `a` on. -/
def blockFrom (f : List UInt8 → List UInt8) (a seed : List UInt8) (i : Nat) : List UInt8 :=
  f (chain f a i ++ seed)

/-- `P_hash`: the value `A(0)` is the seed, and the first block takes `A(1)`. -/
def pHash (f : List UInt8 → List UInt8) (seed : List UInt8) (outlen : Nat) : List UInt8 :=
  firstOf (fun i => f (chain f seed (i + 1) ++ seed)) outlen

theorem chain_succ (f : List UInt8 → List UInt8) (a : List UInt8) (i : Nat) :
    chain f (f a) i = chain f a (i + 1) := by
  induction i with
  | zero => rfl
  | succ i ih =>
    rw [chain, ih]
    rfl

theorem pHash_eq (f : List UInt8 → List UInt8) (seed : List UInt8) (outlen : Nat) :
    pHash f seed outlen = firstOf (blockFrom f (f seed) seed) outlen := by
  have hblock : (fun i => f (chain f seed (i + 1) ++ seed)) = blockFrom f (f seed) seed := by
    funext i
    rw [blockFrom, chain_succ]
  rw [pHash, hblock]

variable {P : Algorithm} {n : Nat} {f : List UInt8 → List UInt8} {c c' : Tls P}
  {key a seed : List UInt8} {Fresh Keyed : P.Ctx → Prop}

/-! ## The loop -/

/-- What the first `i` rounds have established, starting with `a` as the first value. -/
structure Written (f : List UInt8 → List UInt8) (a seed : List UInt8) (Keyed : P.Ctx → Prop)
    (out : Buf UInt8 n) (o outlen i : Nat) (s : Loop P n) : Prop where
  prf : Keyed s.prf
  aprf : Keyed s.aprf
  ai : s.ai.Holds 0 (chain f a i)
  holds : s.out.Holds o ((blocks (blockFrom f a seed) i).take outlen)
  same : Buf.SameOutside out s.out o outlen

theorem generate_spec (hP : P.Computes key f Fresh Keyed) (hsize : c.prfsz = P.size)
    {prf : P.Ctx} (m : List UInt8) (hprf : Fresh prf) :
    ∃ prf', P.generate prf c.prfsz m = (prf', f m) ∧ Keyed prf' := by
  obtain ⟨hval, hkeyed⟩ := hP.generate m hprf
  rw [← hsize] at hval hkeyed
  exact ⟨_, Prod.ext rfl hval, hkeyed⟩

theorem length_chain (hf : ∀ m, (f m).length = P.size) (ha : a.length = P.size) (i : Nat) :
    (chain f a i).length = P.size := by
  cases i with
  | zero => exact ha
  | succ i => exact hf _

theorem round_spec (hP : P.Computes key f Fresh Keyed) (hf : ∀ m, (f m).length = P.size)
    (hsize : c.prfsz = P.size) (hle : P.size ≤ bufferSize) (ha : a.length = P.size)
    {out : Buf UInt8 n} {o outlen i : Nat} {s : Loop P n} (hi : i * P.size < outlen)
    (hn : o + outlen ≤ n) (hs : Written f a seed Keyed out o outlen i s) :
    ∃ s', round c o outlen seed s i = some s' ∧
      Written f a seed Keyed out o outlen (i + 1) s' := by
  obtain ⟨prf, aprf, ai, buf, cur⟩ := s
  have hlen : ∀ i, (blockFrom f a seed i).length = P.size := fun i => hf _
  have hread : ai.read 0 c.prfsz = some (chain f a i) := by
    rw [hsize, ← length_chain hf ha i]
    exact hs.ai.read
  have hprf : Keyed prf := hs.prf
  have haprf : Keyed aprf := hs.aprf
  obtain ⟨aprf', hgenA, haprf'⟩ := generate_spec hP hsize (chain f a i) (hP.reset haprf)
  obtain ⟨prf', hgen, hprf'⟩ := generate_spec hP hsize (chain f a i ++ seed) (hP.reset hprf)
  obtain ⟨ai', hai'⟩ := Buf.exists_write_at ai 0 (f (chain f a i)) (by rw [hf]; simpa using hle)
  obtain ⟨buf', hbuf'⟩ := Buf.exists_write_at buf 0 (f (chain f a i ++ seed))
    (by rw [hf]; simpa using hle)
  obtain ⟨k, hk⟩ : ∃ k, min P.size (outlen - i * P.size) = k := ⟨_, rfl⟩
  have htake : ((blockFrom f a seed i).take k).length = k := by
    rw [List.length_take, hlen]
    omega
  have hreadB : buf'.read 0 (min c.prfsz (outlen - i * c.prfsz)) =
      some ((blockFrom f a seed i).take k) := by
    have hb : buf'.Holds 0 (blockFrom f a seed i) := Buf.holds_write hbuf'
    rw [← List.take_append_drop k (blockFrom f a seed i)] at hb
    have hr := hb.left.read
    rw [htake] at hr
    rwa [hsize, hk]
  obtain ⟨cur', hcur'⟩ := Buf.exists_write_at cur (o + i * P.size)
    ((blockFrom f a seed i).take k) (by rw [htake]; omega)
  have hsame := Buf.sameOutside_write hcur'
  rw [htake] at hsame
  have hblocks := length_blocks hlen i
  refine ⟨⟨prf', aprf', ai', buf', cur'⟩, ?_, ⟨hprf', haprf', Buf.holds_write hai', ?_,
    hs.same.trans (hsame.mono (by omega) (by omega))⟩⟩
  · rw [← hsize] at hcur'
    simp only [round, hread, hgenA, hai', hgen, hbuf', hreadB, Option.bind_eq_bind,
      Option.bind_some, hcur', pure]
  · have hprev := hs.holds
    rw [List.take_of_length_le (by rw [hblocks]; omega)] at hprev
    have hcut : (blockFrom f a seed i).take (outlen - i * P.size) =
        (blockFrom f a seed i).take k := by
      rw [List.take_eq_take_iff, hlen]
      omega
    rw [blocks_succ, List.take_append, List.take_of_length_le (by rw [hblocks]; omega), hblocks,
      hcut]
    apply Buf.Holds.append
    · exact hprev.of_sameOutside hsame (Or.inr (by rw [hblocks]))
    · rw [hblocks]
      exact Buf.holds_write hcur'

/-- The call, for any value that is used as `A(1)`. -/
theorem generate_writes (hP : P.Computes key f Fresh Keyed) (hf : ∀ m, (f m).length = P.size)
    (hsize : c.prfsz = P.size) (hle : P.size ≤ bufferSize) (hprf : Keyed c.prf) {aprf : P.Ctx}
    (hgenA : P.generate (P.clone c.prf) P.size seed = (aprf, a)) (haprf : Keyed aprf)
    (buf ai : Buf UInt8 256) (out : Buf UInt8 n) {o outlen : Nat} (hn : o + outlen ≤ n) :
    ∃ prf' out', generate c buf ai out o outlen seed = some ({ c with prf := prf' }, out') ∧
      Keyed prf' ∧ out'.Holds o (firstOf (blockFrom f a seed) outlen) ∧
      Buf.SameOutside out out' o outlen := by
  have ha : a.length = P.size := by
    have hlen := P.length_generate (P.clone c.prf) seed
    rwa [hgenA] at hlen
  have hlen : ∀ i, (blockFrom f a seed i).length = P.size := fun i => hf _
  obtain ⟨L, hL⟩ : ∃ L, L = (outlen + P.size - 1) / P.size := ⟨_, rfl⟩
  have hpos := P.size_pos
  have hbefore : ∀ i < L, i * P.size < outlen := by
    intro i hi
    rw [hL, ← Nat.succ_le_iff, Nat.le_div_iff_mul_le hpos, Nat.succ_mul] at hi
    omega
  have hafter : outlen ≤ L * P.size := by
    rw [hL]
    have hdiv := Nat.div_add_mod (outlen + P.size - 1) P.size
    have hmod := Nat.mod_lt (outlen + P.size - 1) hpos
    rw [Nat.mul_comm]
    omega
  obtain ⟨ai', hai'⟩ := Buf.exists_write_at ai 0 a (by rw [ha]; simpa using hle)
  obtain ⟨s, hrun, hs⟩ := foldlM_range
    (fun i s => Written f a seed Keyed out o outlen i s) L ⟨c.prf, aprf, ai', buf, out⟩
    ⟨hprf, haprf, Buf.holds_write hai', by simpa [blocks] using Buf.holds_nil (by omega),
      Buf.SameOutside.refl _ _ _⟩
    (fun i hi s hs => round_spec hP hf hsize hle ha (hbefore i hi) hn hs)
  refine ⟨s.prf, s.out, ?_, hs.prf, ?_, hs.same⟩
  · rw [generate, hsize, ← hL]
    simp only [hgenA, hai', hrun, Option.bind_eq_bind, Option.bind_some, pure]
  · rw [firstOf_eq hlen hpos hafter]
    exact hs.holds

/-- Without output, the context is left as it is. -/
theorem generate_zero (hsize : c.prfsz = P.size) (hle : P.size ≤ bufferSize)
    (buf ai : Buf UInt8 256) (out : Buf UInt8 n) (o : Nat) (seed : List UInt8) :
    generate c buf ai out o 0 seed = some (c, out) := by
  have hpos := P.size_pos
  obtain ⟨ai', hai'⟩ := Buf.exists_write_at ai 0 (P.generate (P.clone c.prf) P.size seed).2
    (by rw [P.length_generate]; simpa using hle)
  have hL : (0 + P.size - 1) / P.size = 0 := Nat.div_eq_of_lt (by omega)
  rw [generate, hsize, hL]
  simp only [hai', Option.bind_eq_bind, Option.bind_some, pure, List.range_zero, List.foldlM_nil]
  rw [← hsize]

/-! ## Any calls -/

inductive Op where
  | reset
  | setkey (key : List UInt8)
  | generate {n : Nat} (buf ai : Buf UInt8 256) (out : Buf UInt8 n) (o outlen : Nat)
      (inp : List UInt8)

def step (c : Tls P) : Op → Option (Tls P)
  | .reset => some c.reset
  | .setkey key => some (c.setkey key)
  | .generate buf ai out o outlen inp => (c.generate buf ai out o outlen inp).map (·.1)

/-- The key last set, and whether no output was made since it was set or the context was
reset. -/
def nextUse : Option (List UInt8) × Bool → Op → Option (List UInt8) × Bool
  | (k, _), .reset => (k, true)
  | _, .setkey key => (some key, true)
  | (k, fresh), .generate _ _ _ _ outlen _ => (k, fresh && outlen == 0)

/-- Any calls lead to a context with this key. -/
inductive Reaches (key : List UInt8) (fresh : Bool) : Tls P → Prop
  | intro {algo : Option P.Ctx} {ops : List Op} {c₀ c : Tls P} (hinit : init algo = .ok c₀)
      (hrun : ops.foldlM step c₀ = some c) (huse : ops.foldl nextUse (none, false) = (some key, fresh)) :
      Reaches key fresh c

/-- What is known of the context where the function is lawful for one key. -/
structure Kept (key : List UInt8) (Fresh Keyed : P.Ctx → Prop)
    (u : Option (List UInt8) × Bool) (c : Tls P) : Prop where
  prfsz : c.prfsz = P.size
  keyed : u.1 = some key → Keyed c.prf
  fresh : u.1 = some key → u.2 = true → Fresh c.prf

theorem round_keyed (hP : P.Computes key f Fresh Keyed) (hsize : c.prfsz = P.size)
    {o outlen i : Nat} {s s' : Loop P n} (hs : Keyed s.prf)
    (hround : round c o outlen seed s i = some s') : Keyed s'.prf := by
  obtain ⟨a, -, hround⟩ := Option.bind_eq_some_iff.mp hround
  obtain ⟨ai, -, hround⟩ := Option.bind_eq_some_iff.mp hround
  obtain ⟨buf, -, hround⟩ := Option.bind_eq_some_iff.mp hround
  obtain ⟨b, -, hround⟩ := Option.bind_eq_some_iff.mp hround
  obtain ⟨out, -, hround⟩ := Option.bind_eq_some_iff.mp hround
  cases hround
  dsimp only
  rw [hsize]
  exact (hP.generate _ (hP.reset hs)).2

theorem rounds_keyed (hP : P.Computes key f Fresh Keyed) (hsize : c.prfsz = P.size)
    {o outlen : Nat} {is : List Nat} {s s' : Loop P n} (hs : Keyed s.prf)
    (hrun : is.foldlM (round c o outlen seed) s = some s') : Keyed s'.prf := by
  induction is generalizing s with
  | nil =>
    cases hrun
    exact hs
  | cons i is ih =>
    obtain ⟨s₁, hround, hrest⟩ := Option.bind_eq_some_iff.mp hrun
    exact ih (round_keyed hP hsize hs hround) hrest

/-- A key stays, whatever state the context was in. -/
theorem generate_keyed (hP : P.Computes key f Fresh Keyed) (hsize : c.prfsz = P.size)
    (hprf : Keyed c.prf) {buf ai : Buf UInt8 256} {out out' : Buf UInt8 n} {o outlen : Nat}
    (hgen : generate c buf ai out o outlen seed = some (c', out')) : Keyed c'.prf := by
  obtain ⟨ai', -, hgen⟩ := Option.bind_eq_some_iff.mp hgen
  obtain ⟨s, hrun, hgen⟩ := Option.bind_eq_some_iff.mp hgen
  cases hgen
  exact rounds_keyed hP hsize (s := ⟨c.prf, _, ai', buf, out⟩) hprf hrun

theorem generate_prfsz {buf ai : Buf UInt8 256} {out out' : Buf UInt8 n} {o outlen : Nat}
    (hgen : generate c buf ai out o outlen seed = some (c', out')) : c'.prfsz = c.prfsz := by
  obtain ⟨ai', -, hgen⟩ := Option.bind_eq_some_iff.mp hgen
  obtain ⟨s, -, hgen⟩ := Option.bind_eq_some_iff.mp hgen
  cases hgen
  rfl

theorem step_kept (hP : P.Computes key f Fresh Keyed) (hle : P.size ≤ bufferSize)
    {u : Option (List UInt8) × Bool} {op : Op} (h : Kept key Fresh Keyed u c)
    (hstep : step c op = some c') : Kept key Fresh Keyed (nextUse u op) c' := by
  obtain ⟨k, fresh⟩ := u
  cases op with
  | reset =>
    cases hstep
    exact ⟨h.prfsz, fun hk => hP.keyed (hP.reset (h.keyed hk)), fun hk _ => hP.reset (h.keyed hk)⟩
  | setkey key' =>
    cases hstep
    refine ⟨h.prfsz, fun hk => ?_, fun hk _ => ?_⟩
    · obtain rfl := Option.some.inj hk
      exact hP.keyed (hP.setkey _)
    · obtain rfl := Option.some.inj hk
      exact hP.setkey _
  | generate buf ai out o outlen inp =>
    obtain ⟨⟨c₁, out'⟩, hgen, rfl⟩ := Option.map_eq_some_iff.mp hstep
    refine ⟨(generate_prfsz hgen).trans h.prfsz,
      fun hk => generate_keyed hP h.prfsz (h.keyed hk) hgen, fun hk hfresh => ?_⟩
    obtain ⟨hold, hzero⟩ := (Bool.and_eq_true _ _).mp hfresh
    obtain rfl := eq_of_beq hzero
    rw [generate_zero h.prfsz hle] at hgen
    cases hgen
    exact h.fresh hk hold

theorem run_kept (hP : P.Computes key f Fresh Keyed) (hle : P.size ≤ bufferSize)
    {u : Option (List UInt8) × Bool} {ops : List Op} (h : Kept key Fresh Keyed u c)
    (hrun : ops.foldlM step c = some c') : Kept key Fresh Keyed (ops.foldl nextUse u) c' := by
  induction ops generalizing c u with
  | nil =>
    cases hrun
    exact h
  | cons op ops ih =>
    obtain ⟨c₁, hstep, hrest⟩ := Option.bind_eq_some_iff.mp hrun
    exact ih (step_kept hP hle h hstep) hrest

theorem Reaches.kept {fresh : Bool} (h : Reaches key fresh c) (hP : P.Computes key f Fresh Keyed)
    (hle : P.size ≤ bufferSize) : Kept key Fresh Keyed (some key, fresh) c := by
  obtain @⟨algo, ops, c₀, _, hinit, hrun, huse⟩ := h
  rw [← huse]
  refine run_kept hP hle ?_ hrun
  cases algo with
  | none => cases hinit
  | some algo =>
    cases hinit
    exact ⟨rfl, fun hk => absurd hk (by simp), fun hk => absurd hk (by simp)⟩

/-! ## The contexts that are fresh -/

/-- A call writes the specified bytes, and no others. -/
def Generates (f : List UInt8 → List UInt8) (outlen : Nat) (c : Tls P) : Prop :=
  ∀ {n : Nat} (buf ai : Buf UInt8 256) (out : Buf UInt8 n) (o : Nat) (seed : List UInt8),
    o + outlen ≤ n → ∃ c' out', generate c buf ai out o outlen seed = some (c', out') ∧
      out'.Holds o (pHash f seed outlen) ∧ Buf.SameOutside out out' o outlen

theorem Reaches.generates_fresh (h : Reaches key true c) (hP : P.IsPrf key f)
    (hle : P.size ≤ bufferSize) (outlen : Nat) : Generates f outlen c := by
  intro n buf ai out o seed hn
  have hf := hP.length c.prf
  obtain ⟨Fresh, Keyed, hP⟩ := hP
  have hkept := h.kept hP hle
  have hfresh := hkept.fresh rfl rfl
  obtain ⟨hval, haprf⟩ := hP.generate seed (hP.clone hfresh)
  obtain ⟨prf', out', hgen, -, hholds, hsame⟩ := generate_writes (a := f seed) hP hf
    hkept.prfsz hle (hP.keyed hfresh) (Prod.ext rfl hval) haprf buf ai out hn
  rw [← pHash_eq] at hholds
  exact ⟨_, out', hgen, hholds, hsame⟩

theorem Reaches.generates_zero {fresh : Bool} (h : Reaches key fresh c) (hP : P.IsPrf key f)
    (hle : P.size ≤ bufferSize) : Generates f 0 c := by
  intro n buf ai out o seed hn
  obtain ⟨Fresh, Keyed, hP⟩ := hP
  refine ⟨c, out, generate_zero (h.kept hP hle).prfsz hle buf ai out o seed, ?_,
    Buf.SameOutside.refl _ _ _⟩
  exact Buf.holds_nil (by omega)

/-! ## The contexts that are not -/

/-- The function that repeats the successor of a byte. Its contexts tell whether they are fresh,
and what is computed with one that is not is another byte. -/
def forgetful (size : Nat) (hsize : 0 < size) : Algorithm where
  Ctx := Bool
  size := size
  size_pos := hsize
  clone s := s
  reset _ := true
  setkey _ _ := true
  generate s _ m := (false, List.replicate size (if s then m.headD 0 + 1 else 5))
  length_generate _ _ := List.length_replicate

/-- What it computes. -/
def successor (size : Nat) (m : List UInt8) : List UInt8 := List.replicate size (m.headD 0 + 1)

theorem forgetful_computes (size : Nat) (hsize : 0 < size) (key : List UInt8) :
    (forgetful size hsize).Computes key (successor size) (fun s => s = true) fun _ => True where
  setkey _ := rfl
  reset _ := rfl
  clone h := h
  keyed _ := trivial
  generate m h := ⟨by rw [h]; rfl, trivial⟩

/-- After output was made, the context is not fresh. -/
theorem exists_reaches_used {size : Nat} (hsize : 0 < size) (hle : size ≤ bufferSize)
    (key : List UInt8) :
    ∃ c : Tls (forgetful size hsize), Reaches key false c ∧ c.prfsz = size ∧ c.prf = false := by
  have hP := forgetful_computes size hsize key
  have hfresh : Reaches key true (⟨true, size⟩ : Tls (forgetful size hsize)) :=
    .intro (show init (some true) = .ok _ from rfl)
      (show [Op.setkey key].foldlM step _ = some _ from rfl) rfl
  obtain ⟨c, out', hgen, -⟩ := hfresh.generates_fresh ⟨_, _, hP⟩ hle 1 (Vector.replicate 256 0)
    (Vector.replicate 256 0) (Vector.replicate 1 0) 0 [] le_rfl
  refine ⟨c, ?_, generate_prfsz hgen, ?_⟩
  · refine .intro (show init (some true) = .ok _ from rfl) (show [Op.setkey key,
      .generate (Vector.replicate 256 0) (Vector.replicate 256 0) (Vector.replicate 1 0) 0 1
        []].foldlM step _ = some _ from ?_) rfl
    change (step (⟨true, size⟩ : Tls (forgetful size hsize)) _).bind _ = _
    rw [step, hgen]
    rfl
  · have hL : (1 + size - 1) / size = 1 := by
      rw [Nat.add_sub_cancel_left, Nat.div_self hsize]
    obtain ⟨ai', -, hgen⟩ := Option.bind_eq_some_iff.mp hgen
    obtain ⟨s, hrun, hgen⟩ := Option.bind_eq_some_iff.mp hgen
    cases hgen
    dsimp only at hrun
    rw [hL] at hrun
    obtain ⟨s₁, hround, hrest⟩ := Option.bind_eq_some_iff.mp hrun
    cases hrest
    obtain ⟨a, -, hround⟩ := Option.bind_eq_some_iff.mp hround
    obtain ⟨ai, -, hround⟩ := Option.bind_eq_some_iff.mp hround
    obtain ⟨buf, -, hround⟩ := Option.bind_eq_some_iff.mp hround
    obtain ⟨b, -, hround⟩ := Option.bind_eq_some_iff.mp hround
    obtain ⟨out, -, hround⟩ := Option.bind_eq_some_iff.mp hround
    cases hround
    rfl

/-- The property, for every pseudorandom function with outputs of `size` bytes. -/
def OutputRight (size : Nat) (key : List UInt8) (fresh : Bool) (outlen : Nat) : Prop :=
  ∀ P : Algorithm, P.size = size → ∀ f, P.IsPrf key f → ∀ c : Tls P, Reaches key fresh c →
    Generates f outlen c

theorem take_one_firstOf {g : Nat → List UInt8} {size outlen : Nat} (hsize : 0 < size)
    (hg : ∀ i, (g i).length = size) (hout : 1 ≤ outlen) :
    (firstOf g outlen).take 1 = (g 0).take 1 := by
  rw [firstOf, List.take_take, Nat.min_eq_left hout,
    take_blocks (k := 1) hg (by omega) hout, blocks_one]

theorem blockFrom_successor (size : Nat) (hsize : 0 < size) (x : UInt8) :
    (blockFrom (successor size) (List.replicate size x) [] 0).take 1 = [x + 1] := by
  obtain ⟨k, rfl⟩ : ∃ k, size = k + 1 := ⟨size - 1, by omega⟩
  rfl

/-- With a used context, `A(1)` is wrong. -/
theorem OutputRight.fresh {size outlen : Nat} {fresh : Bool}
    (h : OutputRight size key fresh outlen) (hsize : 0 < size) (hle : size ≤ bufferSize) :
    fresh = true ∨ outlen = 0 := by
  by_contra hboth
  obtain ⟨hused, hout⟩ := not_or.mp hboth
  obtain rfl := Bool.eq_false_of_not_eq_true hused
  have hlen : ∀ m, (successor size m).length = size := fun m => List.length_replicate
  have hP := forgetful_computes size hsize key
  obtain ⟨c, hc, hprfsz, hprf⟩ := exists_reaches_used hsize hle key
  obtain ⟨c₁, out₁, hgen₁, hspec, -⟩ := h _ rfl _ ⟨_, _, hP⟩ c hc (Vector.replicate 256 0)
    (Vector.replicate 256 0) (Vector.replicate outlen 0) 0 [] (by omega)
  have hA : (forgetful size hsize).generate ((forgetful size hsize).clone c.prf) size [] =
      (false, List.replicate size 5) := by
    rw [hprf]
    rfl
  have hn : 0 + outlen ≤ outlen := by omega
  obtain ⟨prf₂, out₂, hgen₂, -, hcode, -⟩ := generate_writes hP hlen hprfsz hle trivial hA trivial
    (Vector.replicate 256 0) (Vector.replicate 256 0) (Vector.replicate outlen 0) hn
  rw [hgen₁] at hgen₂
  cases hgen₂
  rw [pHash_eq] at hspec
  have hblock : ∀ a i, (blockFrom (successor size) a [] i).length = size := fun _ _ => hlen _
  have heq := congrArg (List.take 1) (hspec.unique hcode (by
    rw [length_firstOf (hblock _) hsize, length_firstOf (hblock _) hsize]))
  rw [take_one_firstOf hsize (hblock _) (by omega), take_one_firstOf hsize (hblock _) (by omega),
    blockFrom_successor size hsize 5, successor, blockFrom_successor size hsize] at heq
  exact absurd heq (by decide)

/-- HMAC with a hash algorithm of the sizes of MD5, whose digests repeat the successor of the
last byte. -/
def lastByte : Mac.HashAlgorithm :=
  Mac.Hmac.textAlgorithm 64 64 16 Memory.pos_64 Memory.pos_16 fun m => m.getLastD 0 + 1

def hmacLastByte : Algorithm := Mac.Hmac.kdf lastByte (Vector.replicate 256 0)

/-- The context of HMAC that is given to `tls_init`. -/
def hmacInit : hmacLastByte.Ctx :=
  Mac.Hmac.kdfInit (A := lastByte) ([] : List UInt8) (by decide) (by decide)

/-- The context after `tls_init` and `tls_setkey`. -/
def hmacTls : Tls hmacLastByte :=
  ⟨hmacLastByte.setkey (hmacLastByte.reset (hmacLastByte.clone hmacInit)) [1], 16⟩

/-- The outputs of one byte of two calls. -/
def twoCalls (c : Tls P) (seed : List UInt8) : Option (List UInt8 × List UInt8) := do
  let zeros := Vector.replicate 256 0
  let (c, out₁) ← generate c zeros zeros (Vector.replicate 1 0) 0 1 seed
  let (_, out₂) ← generate c zeros zeros (Vector.replicate 1 0) 0 1 seed
  return (out₁.toList, out₂.toList)

end Drew.Kdf.Tls
