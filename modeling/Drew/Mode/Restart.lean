import Drew.Mode.Cfb.Split
import Drew.Mode.Ctr
import Drew.Mode.Gcm.Fast
import Drew.Mode.Gcm.Message
import Drew.Mode.Ofb
import Drew.Stream.Match

/-!
# Setting a vector again

`setiv` of the four modes with a keystream sets everything but the offset in the current block. In the middle
of a block it leaves what is in `buf`, which is the vector itself in three of the modes, for the next bytes.
`reset` sets the offset as well.
-/

namespace Drew.Mode

open Drew.Memory Drew.Block Drew.Stream

/-! ## Runs of a mode -/

/-- The functions of a mode. The steps of all others are a relation. -/
structure Functions (σ : Type) where
  setiv : σ → List UInt8 → Option (σ × Int)
  reset : σ → Option (σ × Int)
  encrypt : σ → List UInt8 → Option (σ × List UInt8)
  decrypt : σ → List UInt8 → Option (σ × List UInt8)
  other : σ → σ → Prop

/-- A call that handles a text. -/
inductive Call
  | encrypt (inp : List UInt8)
  | decrypt (inp : List UInt8)

section Runs

variable {σ : Type} (M : Functions σ)

def Functions.crypt (c : σ) : Call → Option (σ × List UInt8)
  | .encrypt inp => M.encrypt c inp
  | .decrypt inp => M.decrypt c inp

/-- The outputs of a sequence of calls. -/
def Functions.outputs (c : σ) (calls : List Call) : Option (List (List UInt8)) :=
  (run M.crypt c calls).map Prod.snd

/-- The states of a context after any calls, where the vectors that are set meet a condition, with the vector
that was set last. -/
inductive Reach (new : σ → Prop) (fits : List UInt8 → Prop) : σ → Option (List UInt8) → Prop
  | new {c : σ} : new c → Reach new fits c none
  | setiv {c c' : σ} {last : Option (List UInt8)} {iv : List UInt8} {res : Int} :
      Reach new fits c last → fits iv → M.setiv c iv = some (c', res) →
        Reach new fits c' (if res = 0 then some iv else last)
  | reset {c c' : σ} {last : Option (List UInt8)} {res : Int} :
      Reach new fits c last → M.reset c = some (c', res) → Reach new fits c' last
  | crypt {c c' : σ} {last : Option (List UInt8)} {call : Call} {out : List UInt8} :
      Reach new fits c last → M.crypt c call = some (c', out) → Reach new fits c' last
  | other {c c' : σ} {last : Option (List UInt8)} :
      Reach new fits c last → M.other c c' → Reach new fits c' last

/-- `setiv` gives the same value as in a new context, and if it succeeds, the calls after it have the same
outputs. So does `reset`, compared with the vector that was set last. -/
structure Restarts (new cond : σ → Prop) (c : σ) (last : Option (List UInt8)) : Prop where
  setiv : cond c → ∀ iv d, new d → ∃ c' d' res, M.setiv c iv = some (c', res) ∧
    M.setiv d iv = some (d', res) ∧ (res = 0 → ∀ calls, M.outputs c' calls = M.outputs d' calls)
  reset : ∀ iv, last = some iv → ∀ d, new d → ∃ c' d', M.reset c = some (c', 0) ∧
    M.setiv d iv = some (d', 0) ∧ ∀ calls, M.outputs c' calls = M.outputs d' calls

variable {M}

/-- Related states have the same outputs. -/
theorem outputs_eq {R : σ → σ → Prop} (hR : ∀ c d call, R c d → Matches R (M.crypt c call) (M.crypt d call))
    {c d : σ} (h : R c d) (calls : List Call) : M.outputs c calls = M.outputs d calls := by
  have hrel : ∀ x y : Option (σ × List (List UInt8)),
      Option.Rel (fun p q => R p.1 q.1 ∧ p.2 = q.2) x y → x.map Prod.snd = y.map Prod.snd := by
    intro x y hxy
    cases hxy with
    | none => rfl
    | some hpq => exact congrArg some hpq.2
  exact hrel _ _ (run_bisim hR h calls)

/-- What a function preserves that refines a step. -/
theorem crypt_of_refines {I : σ → List UInt8 → Prop} {step : List UInt8 → UInt8 → List UInt8 × UInt8}
    {f : σ → List UInt8 → Option (σ × List UInt8)} (hf : CallRefines f step I) {c d : σ} {C : List UInt8}
    (hc : I c C) (hd : I d C) (inp : List UInt8) :
    Matches (fun c d => ∃ C, I c C ∧ I d C) (f c inp) (f d inp) := by
  obtain ⟨c', hrun, hc'⟩ := hf c C inp hc
  obtain ⟨d', hrun', hd'⟩ := hf d C inp hd
  rw [hrun, hrun']
  exact Matches.some ⟨_, hc', hd'⟩ _

/-- What the functions of a mode have to do: `K` is what the calls keep, and `B iv` are the states at the
beginning of the keystream for a vector that is accepted. -/
structure Sound (M : Functions σ) (new cond : σ → Prop) (fits ok : List UInt8 → Prop)
    (K : Option (List UInt8) → σ → Prop) (B : List UInt8 → σ → Prop) : Prop where
  new : ∀ c, new c → K none c ∧ cond c
  crypt : ∀ last c call, K last c → Preserves (K last) (M.crypt c call)
  other : ∀ last c c', K last c → M.other c c' → K last c'
  setiv : ∀ last c iv, K last c → ok iv →
    ∃ c', M.setiv c iv = some (c', 0) ∧ K (some iv) c' ∧ (cond c → B iv c')
  refused : ∀ last c iv, K last c → ¬ok iv →
    ∃ c', M.setiv c iv = some (c', -drewErrInvalid) ∧ (fits iv → K last c')
  reset : ∀ last c, K last c → Preserves (K last) (M.reset c)
  resets : ∀ c iv, K (some iv) c → ok iv ∧ ∃ c', M.reset c = some (c', 0) ∧ B iv c'
  same : ∀ iv c d, B iv c → B iv d → ∀ calls, M.outputs c calls = M.outputs d calls

section Sound

variable {new cond : σ → Prop} {fits ok : List UInt8 → Prop}
variable {K : Option (List UInt8) → σ → Prop} {B : List UInt8 → σ → Prop} {c : σ} {last : Option (List UInt8)}

theorem Sound.reach (hM : Sound M new cond fits ok K B) (h : Reach M new fits c last) : K last c := by
  induction h with
  | new hnew => exact (hM.new _ hnew).1
  | @setiv c c' last iv res _ hfits hrun ih =>
    by_cases hok : ok iv
    · obtain ⟨c₁, hset, hK, -⟩ := hM.setiv last c iv ih hok
      cases hset.symm.trans hrun
      exact hK
    · obtain ⟨c₁, hset, hK⟩ := hM.refused last c iv ih hok
      cases hset.symm.trans hrun
      exact hK hfits
  | reset _ hrun ih => exact hM.reset _ _ ih _ _ hrun
  | crypt _ hrun ih => exact hM.crypt _ _ _ ih _ _ hrun
  | other _ hrun ih => exact hM.other _ _ _ ih hrun

theorem Sound.restarts (hM : Sound M new cond fits ok K B) (h : Reach M new fits c last) :
    Restarts M new cond c last := by
  have hK := hM.reach h
  refine ⟨?_, ?_⟩
  · intro hcond iv d hnew
    obtain ⟨hd, hdcond⟩ := hM.new d hnew
    by_cases hok : ok iv
    · obtain ⟨c', hset, -, hc'⟩ := hM.setiv last c iv hK hok
      obtain ⟨d', hset', -, hd'⟩ := hM.setiv none d iv hd hok
      exact ⟨c', d', 0, hset, hset', fun _ => hM.same iv c' d' (hc' hcond) (hd' hdcond)⟩
    · obtain ⟨c', hset, -⟩ := hM.refused last c iv hK hok
      obtain ⟨d', hset', -⟩ := hM.refused none d iv hd hok
      exact ⟨c', d', _, hset, hset', fun hres => absurd hres (by decide)⟩
  · rintro iv rfl d hnew
    obtain ⟨hd, hdcond⟩ := hM.new d hnew
    obtain ⟨hok, c', hset, hc'⟩ := hM.resets c iv hK
    obtain ⟨d', hset', -, hd'⟩ := hM.setiv none d iv hd hok
    exact ⟨c', d', hset, hset', hM.same iv c' d' hc' (hd' hdcond)⟩

end Sound

end Runs

/-! ## Counter mode -/

namespace Ctr

/-- The steps of the fast function. -/
def Other (c c' : Ctr) : Prop :=
  ∃ n, ∃ tmp : Buf UInt8 sliceSize, ∃ out inp out' : Buf UInt8 n, c.encryptfast tmp out inp = some (c', out')

def functions : Functions Ctr := ⟨setiv, reset, encrypt, encrypt, Other⟩

/-- A new context with a cipher. -/
def New (E : BlockCipher) (c : Ctr) : Prop := c = (init.setblock (some E)).1

/-- No block is begun. -/
def AtBlock (c : Ctr) : Prop := c.boff = 0

/-- What the calls keep. -/
structure Kept (E : BlockCipher) (last : Option (List UInt8)) (c : Ctr) : Prop where
  algo : c.algo = some E
  blksize : c.blksize = E.blksize
  iv : ∀ iv, last = some iv → iv.length = E.blksize ∧ c.iv.Holds 0 iv

section Restart

variable {E : BlockCipher} {c c' d : Ctr} {last : Option (List UInt8)} {iv : List UInt8}

theorem refill_kept (h : Kept E last c) (hrun : c.refill = some c') : Kept E last c' := by
  simp only [refill, Option.bind_eq_bind, Option.bind_eq_some_iff] at hrun
  obtain ⟨algo, -, buf, -, ctr, -, hpure⟩ := hrun
  cases hpure
  exact ⟨h.algo, h.blksize, h.iv⟩

theorem maskByte_kept (i : Nat) (x : UInt8) (h : Kept E last c) : Preserves (Kept E last) (maskByte i c x) := by
  intro s y hrun
  simp only [maskByte, Option.bind_eq_bind, Option.bind_eq_some_iff] at hrun
  obtain ⟨b, -, hpure⟩ := hrun
  cases hpure
  exact h

theorem encrypt_kept (inp : List UInt8) (h : Kept E last c) : Preserves (Kept E last) (c.encrypt inp) := by
  intro s out hrun
  simp only [encrypt, Option.bind_eq_bind, Option.bind_eq_some_iff] at hrun
  obtain ⟨⟨c₁, boff, out₁⟩, hcall, hpure⟩ := hrun
  cases hpure
  have hpos : 0 < c.blksize := by
    rw [h.blksize]
    exact E.blksize_pos
  have hkept : Preserves (Kept E last) (unitOps.call c.blksize c c.boff inp) := by
    refine (alike_of_preserves (fun s s' hs => refill_kept hs) (fun i s x hs => maskByte_kept i x hs) ?_
      ?_).call_preserves hpos _ _ h
    · rintro s _ hs ⟨⟩
      exact hs
    · intro s xs hs s' ys hwhole
      simp only [unitOps, Option.bind_eq_bind, Option.bind_eq_some_iff] at hwhole
      obtain ⟨s₁, hrefill, hloop⟩ := hwhole
      exact loop_preserves (fun i s x hs => maskByte_kept i x hs) 0 xs (refill_kept hs hrefill) _ _ hloop
  have h₁ := hkept _ _ hcall
  exact ⟨h₁.algo, h₁.blksize, h₁.iv⟩

theorem encryptfast_kept (h : Kept E last c) (hrun : Other c c') : Kept E last c' := by
  obtain ⟨n, tmp, out, inp, out', hrun⟩ := hrun
  simp only [encryptfast, Option.bind_eq_bind, Option.bind_eq_some_iff] at hrun
  obtain ⟨algo, -, words, -, ⟨words', out₁⟩, -, ctr, -, hpure⟩ := hrun
  cases hpure
  exact ⟨h.algo, h.blksize, h.iv⟩

theorem setiv_begins (hsize : E.blksize ≤ 32) (h : Kept E last c) (hlen : iv.length = E.blksize) :
    ∃ c', c.setiv iv = some (c', 0) ∧ c'.boff = c.boff ∧ c'.ctr.Holds 0 iv ∧ Kept E (some iv) c' := by
  obtain ⟨ctr, buf, iv', hset, hctr, -, hiv'⟩ := setiv_spec h.blksize hlen hsize
  refine ⟨_, hset, rfl, hctr, h.algo, h.blksize, ?_⟩
  rintro _ ⟨⟩
  exact ⟨hlen, hiv'⟩

theorem setiv_invalid (h : Kept E last c) (hlen : iv.length ≠ E.blksize) :
    c.setiv iv = some (c, -drewErrInvalid) := by
  rw [setiv, if_pos (by rw [h.blksize]; exact fun h => hlen h.symm)]

/-- A context is given back the vector that it has. -/
theorem reset_begins (hsize : E.blksize ≤ 32) (h : Kept E (some iv) c) :
    ∃ c', c.reset = some (c', 0) ∧ c'.boff = 0 ∧ c'.ctr.Holds 0 iv ∧ Kept E (some iv) c' := by
  obtain ⟨hlen, hiv⟩ := h.iv iv rfl
  have hread := hiv.read
  rw [hlen, ← h.blksize] at hread
  obtain ⟨c₁, hset, -, hctr, hkept⟩ := setiv_begins hsize h hlen
  refine ⟨{ c₁ with boff := 0 }, ?_, rfl, hctr, hkept.algo, hkept.blksize, hkept.iv⟩
  simp only [reset, hread, hset, Option.bind_eq_bind, Option.bind_some]
  rfl

theorem reset_kept (hsize : E.blksize ≤ 32) (h : Kept E last c) : Preserves (Kept E last) c.reset := by
  intro c' res hrun
  obtain ⟨iv, -, hlen, hiv⟩ := Buf.exists_read c.iv 0 E.blksize (by omega)
  have hkept : Kept E (some iv) c := by
    refine ⟨h.algo, h.blksize, ?_⟩
    rintro _ ⟨⟩
    exact ⟨hlen, hiv⟩
  obtain ⟨c₁, hset, -, -, hkept'⟩ := reset_begins hsize hkept
  cases hset.symm.trans hrun
  refine ⟨hkept'.algo, hkept'.blksize, ?_⟩
  rintro iv' rfl
  obtain ⟨hlen', hiv'⟩ := h.iv iv' rfl
  rw [hiv'.unique hiv (hlen'.trans hlen.symm)]
  exact hkept'.iv iv rfl

/-- The beginning of the keystream for a vector. -/
structure Begins (E : BlockCipher) (iv : List UInt8) (c : Ctr) : Prop where
  algo : c.algo = some E
  blksize : c.blksize = E.blksize
  boff : c.boff = 0
  length : iv.length = E.blksize
  ctr : c.ctr.Holds 0 iv

theorem outputs_begins (hsize : E.blksize ≤ 32) (hc : Begins E iv c) (hd : Begins E iv d) (calls : List Call) :
    functions.outputs c calls = functions.outputs d calls := by
  have hafter : ∀ {c : Ctr}, Begins E iv c → After E iv c [] := fun h =>
    after_nil h.algo h.blksize h.boff hsize h.length h.ctr
  have hcrypt : ∀ (c d : Ctr) call, (∃ C, After E iv c C ∧ After E iv d C) →
      Matches (fun c d => ∃ C, After E iv c C ∧ After E iv d C) (functions.crypt c call)
        (functions.crypt d call) := by
    rintro c d call ⟨C, hc, hd⟩
    cases call with
    | encrypt inp => exact crypt_of_refines (encrypt_refines hsize) hc hd inp
    | decrypt inp => exact crypt_of_refines (encrypt_refines hsize) hc hd inp
  exact outputs_eq hcrypt ⟨[], hafter hc, hafter hd⟩ calls

theorem sound (hsize : E.blksize ≤ 32) :
    Sound functions (New E) AtBlock (fun _ => True) (fun iv => iv.length = E.blksize) (Kept E) (Begins E) where
  new := by
    rintro _ rfl
    exact ⟨⟨rfl, rfl, fun _ h => nomatch h⟩, rfl⟩
  crypt _ _ call h := by
    cases call with
    | encrypt inp => exact encrypt_kept inp h
    | decrypt inp => exact encrypt_kept inp h
  other _ _ _ h hrun := encryptfast_kept h hrun
  setiv _ _ iv h hlen := by
    obtain ⟨c', hset, hboff, hctr, hkept⟩ := setiv_begins hsize h hlen
    exact ⟨c', hset, hkept, fun hcond => ⟨hkept.algo, hkept.blksize, hboff.trans hcond, hlen, hctr⟩⟩
  refused _ c _ h hlen := ⟨c, setiv_invalid h hlen, fun _ => h⟩
  reset _ _ h := reset_kept hsize h
  resets _ iv h := by
    obtain ⟨c', hset, hboff, hctr, hkept⟩ := reset_begins hsize h
    exact ⟨(h.iv iv rfl).1, c', hset, hkept.algo, hkept.blksize, hboff, (h.iv iv rfl).1, hctr⟩
  same _ _ _ hc hd := outputs_begins hsize hc hd

end Restart

end Ctr

/-! ## Output feedback mode -/

namespace Ofb

/-- The steps of the fast function. -/
def Other (c c' : Ofb) : Prop :=
  ∃ n, ∃ out inp out' : Buf UInt8 n, c.encryptfast out inp = some (c', out')

def functions : Functions Ofb := ⟨setiv, reset, encrypt, encrypt, Other⟩

/-- A new context with a cipher, whose memory has some contents. -/
def New (E : BlockCipher) (c : Ofb) : Prop := ∃ mem, c = ((init mem).setblock (some E)).1

/-- No block is begun. -/
def AtBlock (c : Ofb) : Prop := c.boff = 0

/-- What the calls keep. -/
structure Kept (E : BlockCipher) (last : Option (List UInt8)) (c : Ofb) : Prop where
  algo : c.algo = some E
  blksize : c.blksize = E.blksize
  iv : ∀ iv, last = some iv → iv.length = E.blksize ∧ c.iv.Holds 0 iv

section Restart

variable {E : BlockCipher} {c c' d : Ofb} {last : Option (List UInt8)} {iv : List UInt8}

theorem refill_kept (h : Kept E last c) (hrun : c.refill = some c') : Kept E last c' := by
  simp only [refill, Option.bind_eq_bind, Option.bind_eq_some_iff] at hrun
  obtain ⟨algo, -, buf, -, hpure⟩ := hrun
  cases hpure
  exact ⟨h.algo, h.blksize, h.iv⟩

theorem maskByte_kept (i : Nat) (x : UInt8) (h : Kept E last c) : Preserves (Kept E last) (maskByte i c x) := by
  intro s y hrun
  simp only [maskByte, Option.bind_eq_bind, Option.bind_eq_some_iff] at hrun
  obtain ⟨b, -, hpure⟩ := hrun
  cases hpure
  exact h

theorem encrypt_kept (inp : List UInt8) (h : Kept E last c) : Preserves (Kept E last) (c.encrypt inp) := by
  intro s out hrun
  simp only [encrypt, Option.bind_eq_bind, Option.bind_eq_some_iff] at hrun
  obtain ⟨⟨c₁, boff, out₁⟩, hcall, hpure⟩ := hrun
  cases hpure
  have hpos : 0 < c.blksize := by
    rw [h.blksize]
    exact E.blksize_pos
  have hkept : Preserves (Kept E last) (unitOps.call c.blksize c c.boff inp) := by
    refine (alike_of_preserves (fun s s' hs => refill_kept hs) (fun i s x hs => maskByte_kept i x hs) ?_
      ?_).call_preserves hpos _ _ h
    · rintro s _ hs ⟨⟩
      exact hs
    · intro s xs hs s' ys hwhole
      simp only [unitOps, Option.bind_eq_bind, Option.bind_eq_some_iff] at hwhole
      obtain ⟨s₁, hrefill, hloop⟩ := hwhole
      exact loop_preserves (fun i s x hs => maskByte_kept i x hs) 0 xs (refill_kept hs hrefill) _ _ hloop
  have h₁ := hkept _ _ hcall
  exact ⟨h₁.algo, h₁.blksize, h₁.iv⟩

theorem encryptfast_kept (h : Kept E last c) (hrun : Other c c') : Kept E last c' := by
  obtain ⟨n, out, inp, out', hrun⟩ := hrun
  simp only [encryptfast, Option.bind_eq_bind, Option.bind_eq_some_iff] at hrun
  obtain ⟨algo, -, ⟨buf, out₁⟩, -, hpure⟩ := hrun
  cases hpure
  exact ⟨h.algo, h.blksize, h.iv⟩

theorem setiv_begins (hsize : E.blksize ≤ 32) (h : Kept E last c) (hlen : iv.length = E.blksize) :
    ∃ c', c.setiv iv = some (c', 0) ∧ c'.boff = c.boff ∧ c'.buf.Holds 0 iv ∧ Kept E (some iv) c' := by
  obtain ⟨buf, iv', hset, hbuf, hiv'⟩ := setiv_spec h.blksize hlen hsize
  refine ⟨_, hset, rfl, Buf.holds_write hbuf, h.algo, h.blksize, ?_⟩
  rintro _ ⟨⟩
  exact ⟨hlen, Buf.holds_write hiv'⟩

theorem setiv_invalid (h : Kept E last c) (hlen : iv.length ≠ E.blksize) :
    c.setiv iv = some (c, -drewErrInvalid) := by
  rw [setiv, if_pos (by rw [h.blksize]; exact fun h => hlen h.symm)]

/-- A context is given back the vector that it has. -/
theorem reset_begins (hsize : E.blksize ≤ 32) (h : Kept E (some iv) c) :
    ∃ c', c.reset = some (c', 0) ∧ c'.boff = 0 ∧ c'.buf.Holds 0 iv ∧ Kept E (some iv) c' := by
  obtain ⟨hlen, hiv⟩ := h.iv iv rfl
  have hread := hiv.read
  rw [hlen, ← h.blksize] at hread
  obtain ⟨c₁, hset, -, hbuf, hkept⟩ := setiv_begins hsize h hlen
  refine ⟨{ c₁ with boff := 0 }, ?_, rfl, hbuf, hkept.algo, hkept.blksize, hkept.iv⟩
  simp only [reset, hread, hset, Option.bind_eq_bind, Option.bind_some]
  rfl

theorem reset_kept (hsize : E.blksize ≤ 32) (h : Kept E last c) : Preserves (Kept E last) c.reset := by
  intro c' res hrun
  obtain ⟨iv, -, hlen, hiv⟩ := Buf.exists_read c.iv 0 E.blksize (by omega)
  have hkept : Kept E (some iv) c := by
    refine ⟨h.algo, h.blksize, ?_⟩
    rintro _ ⟨⟩
    exact ⟨hlen, hiv⟩
  obtain ⟨c₁, hset, -, -, hkept'⟩ := reset_begins hsize hkept
  cases hset.symm.trans hrun
  refine ⟨hkept'.algo, hkept'.blksize, ?_⟩
  rintro iv' rfl
  obtain ⟨hlen', hiv'⟩ := h.iv iv' rfl
  rw [hiv'.unique hiv (hlen'.trans hlen.symm)]
  exact hkept'.iv iv rfl

/-- The beginning of the keystream for a vector. -/
structure Begins (E : BlockCipher) (iv : List UInt8) (c : Ofb) : Prop where
  algo : c.algo = some E
  blksize : c.blksize = E.blksize
  boff : c.boff = 0
  length : iv.length = E.blksize
  buf : c.buf.Holds 0 iv

theorem outputs_begins (hsize : E.blksize ≤ 32) (hc : Begins E iv c) (hd : Begins E iv d) (calls : List Call) :
    functions.outputs c calls = functions.outputs d calls := by
  have hafter : ∀ {c : Ofb}, Begins E iv c → After E iv c [] := fun h =>
    after_nil h.algo h.blksize h.boff hsize h.buf
  have hcrypt : ∀ (c d : Ofb) call, (∃ C, After E iv c C ∧ After E iv d C) →
      Matches (fun c d => ∃ C, After E iv c C ∧ After E iv d C) (functions.crypt c call)
        (functions.crypt d call) := by
    rintro c d call ⟨C, hc', hd'⟩
    cases call with
    | encrypt inp => exact crypt_of_refines (encrypt_refines hc.length hsize) hc' hd' inp
    | decrypt inp => exact crypt_of_refines (encrypt_refines hc.length hsize) hc' hd' inp
  exact outputs_eq hcrypt ⟨[], hafter hc, hafter hd⟩ calls

theorem sound (hsize : E.blksize ≤ 32) :
    Sound functions (New E) AtBlock (fun _ => True) (fun iv => iv.length = E.blksize) (Kept E) (Begins E) where
  new := by
    rintro _ ⟨mem, rfl⟩
    obtain ⟨halgo, hblk, hboff⟩ := setblock_spec mem E
    exact ⟨⟨halgo, hblk, fun _ h => nomatch h⟩, hboff⟩
  crypt _ _ call h := by
    cases call with
    | encrypt inp => exact encrypt_kept inp h
    | decrypt inp => exact encrypt_kept inp h
  other _ _ _ h hrun := encryptfast_kept h hrun
  setiv _ _ iv h hlen := by
    obtain ⟨c', hset, hboff, hbuf, hkept⟩ := setiv_begins hsize h hlen
    exact ⟨c', hset, hkept, fun hcond => ⟨hkept.algo, hkept.blksize, hboff.trans hcond, hlen, hbuf⟩⟩
  refused _ c _ h hlen := ⟨c, setiv_invalid h hlen, fun _ => h⟩
  reset _ _ h := reset_kept hsize h
  resets _ iv h := by
    obtain ⟨c', hset, hboff, hbuf, hkept⟩ := reset_begins hsize h
    exact ⟨(h.iv iv rfl).1, c', hset, hkept.algo, hkept.blksize, hboff, (h.iv iv rfl).1, hbuf⟩
  same _ _ _ hc hd := outputs_begins hsize hc hd

end Restart

end Ofb

/-! ## Galois/counter mode -/

namespace Gcm

/-- The steps of the fast functions, of those for associated data, and of the last calls for a message. -/
inductive Other (c : Gcm) : Gcm → Prop
  | fast {n : Nat} {decrypts : Bool} {tmp : Buf UInt8 sliceSize} {out inp out' : Buf UInt8 n} {c' : Gcm} :
      cryptfast decrypts c tmp out inp = some (c', out') → Other c c'
  | data {data : List UInt8} {res : Int} {c' : Gcm} : c.setdata data = some (c', res) → Other c c'
  | encryptfinal {outlen : Nat} {inp out : List UInt8} {res : Int} {c' : Gcm} :
      c.encryptfinal outlen inp = some (c', out, res) → Other c c'
  | decryptfinal {outlen : Nat} {inp out : List UInt8} {res : Int} {c' : Gcm} :
      c.decryptfinal outlen inp = some (c', out, res) → Other c c'

def functions : Functions Gcm := ⟨setiv, reset, encrypt, decrypt, Other⟩

/-- A new context of one of the plugins with a cipher. -/
def New (params : List (String × Nat)) (E : BlockCipher) (c : Gcm) : Prop :=
  ∃ p : Plugin, c = ((p.init params).setblock (some E)).1

/-- No block is begun. -/
def AtBlock (c : Gcm) : Prop := c.boff = 0

/-- What the calls keep. -/
structure Kept (params : List (String × Nat)) (E : BlockCipher) (last : Option (List UInt8)) (c : Gcm) :
    Prop where
  algo : c.algo = some E
  blksize : c.blksize = 16
  taglen : c.taglen = tagLength params
  equipped : Equipped c
  iv : ∀ iv, last = some iv → c.iv = iv ∧ Accepts c.taglen iv

section Restart

variable {params : List (String × Nat)} {E : BlockCipher} {c c' d : Gcm} {last : Option (List UInt8)}
variable {iv : List UInt8}

/-- Only these members matter. -/
theorem Kept.frame (h : Kept params E last c) (y x buf cbuf : Buf UInt8 16) (boff clen : Nat) :
    Kept params E last { c with y := y, x := x, buf := buf, cbuf := cbuf, boff := boff, clen := clen } :=
  ⟨h.algo, h.blksize, h.taglen, h.equipped, h.iv⟩

theorem nextBlock_kept (h : Kept params E last c) (hrun : c.nextBlock = some c') : Kept params E last c' := by
  simp only [nextBlock, Option.bind_eq_bind, Option.bind_eq_some_iff] at hrun
  obtain ⟨y, -, algo, -, buf, -, hpure⟩ := hrun
  cases hpure
  exact h.frame y c.x buf c.cbuf c.boff c.clen

theorem hashCbuf_kept (h : Kept params E last c) (hrun : c.hashCbuf = some c') : Kept params E last c' := by
  simp only [hashCbuf, Option.bind_eq_bind, Option.bind_eq_some_iff] at hrun
  obtain ⟨x, -, hpure⟩ := hrun
  cases hpure
  exact h.frame c.y x c.buf c.cbuf c.boff c.clen

theorem encryptByte_kept (i : Nat) (b : UInt8) (h : Kept params E last c) :
    Preserves (Kept params E last) (encryptByte i c b) := by
  intro s y hrun
  simp only [encryptByte, Option.bind_eq_bind, Option.bind_eq_some_iff] at hrun
  obtain ⟨k, -, cbuf, -, hpure⟩ := hrun
  cases hpure
  exact h.frame c.y c.x c.buf cbuf c.boff c.clen

theorem decryptByte_kept (i : Nat) (b : UInt8) (h : Kept params E last c) :
    Preserves (Kept params E last) (decryptByte i c b) := by
  intro s y hrun
  simp only [decryptByte, Option.bind_eq_bind, Option.bind_eq_some_iff] at hrun
  obtain ⟨cbuf, -, k, -, hpure⟩ := hrun
  cases hpure
  exact h.frame c.y c.x c.buf cbuf c.boff c.clen

theorem encryptBlock_kept (inp : List UInt8) (h : Kept params E last c) :
    Preserves (Kept params E last) (c.encryptBlock inp) := by
  intro s out hrun
  simp only [encryptBlock, Option.bind_eq_bind, Option.bind_eq_some_iff] at hrun
  obtain ⟨c₁, hnext, key, -, x, -, hpure⟩ := hrun
  cases hpure
  have h₁ := nextBlock_kept h hnext
  exact h₁.frame c₁.y x c₁.buf c₁.cbuf c₁.boff c₁.clen

theorem decryptBlock_kept (inp : List UInt8) (h : Kept params E last c) :
    Preserves (Kept params E last) (c.decryptBlock inp) := by
  intro s out hrun
  simp only [decryptBlock, Option.bind_eq_bind, Option.bind_eq_some_iff] at hrun
  obtain ⟨c₁, hnext, x, -, key, -, hpure⟩ := hrun
  cases hpure
  have h₁ := nextBlock_kept h hnext
  exact h₁.frame c₁.y x c₁.buf c₁.cbuf c₁.boff c₁.clen

/-- A call keeps what its operations keep. -/
theorem crypt_kept {M : UnitOps Gcm UInt8 UInt8} (hrefill : M.refill = nextBlock) (hclose : M.close = hashCbuf)
    (hbody : ∀ i c b, Kept params E last c → Preserves (Kept params E last) (M.body i c b))
    (hwhole : ∀ c inp, Kept params E last c → Preserves (Kept params E last) (M.whole c inp))
    (inp : List UInt8) (h : Kept params E last c) : Preserves (Kept params E last) (crypt M c inp) := by
  intro s out hrun
  simp only [crypt, Option.bind_eq_bind, Option.bind_eq_some_iff] at hrun
  obtain ⟨⟨c₁, boff, out₁⟩, hcall, hpure⟩ := hrun
  cases hpure
  have hpos : 0 < c.blksize := by
    rw [h.blksize]
    decide
  have h₀ := h.frame c.y c.x c.buf c.cbuf c.boff ((c.clen + inp.length) % 2 ^ 64)
  have hkept := (alike_of_preserves (fun s s' hs hr => nextBlock_kept hs (hrefill ▸ hr)) hbody
    (fun s s' hs hr => hashCbuf_kept hs (hclose ▸ hr)) hwhole).call_preserves hpos c.boff inp h₀
  exact (hkept _ _ hcall).frame c₁.y c₁.x c₁.buf c₁.cbuf boff c₁.clen

theorem encrypt_kept (inp : List UInt8) (h : Kept params E last c) :
    Preserves (Kept params E last) (c.encrypt inp) :=
  crypt_kept rfl rfl (fun i _ b h => encryptByte_kept i b h) (fun _ inp h => encryptBlock_kept inp h) inp h

theorem decrypt_kept (inp : List UInt8) (h : Kept params E last c) :
    Preserves (Kept params E last) (c.decrypt inp) :=
  crypt_kept rfl rfl (fun i _ b h => decryptByte_kept i b h) (fun _ inp h => decryptBlock_kept inp h) inp h

theorem finishTag_kept (h : Kept params E last c) (hrun : c.finishTag = some c') : Kept params E last c' := by
  simp only [finishTag, Option.bind_eq_bind, Option.bind_eq_some_iff] at hrun
  obtain ⟨c₁, hfinish, x, -, algo, -, buf, -, x', -, hpure⟩ := hrun
  cases hpure
  have h₁ : Kept params E last c₁ := by
    unfold finishBlock at hfinish
    split at hfinish
    case isTrue =>
      simp only [Option.bind_eq_bind, Option.bind_eq_some_iff] at hfinish
      obtain ⟨cbuf, -, hhash⟩ := hfinish
      exact hashCbuf_kept (h.frame c.y c.x c.buf cbuf c.boff c.clen) hhash
    case isFalse =>
      cases hfinish
      exact h
  exact h₁.frame c₁.y x' buf c₁.cbuf c₁.boff c₁.clen

theorem other_kept (h : Kept params E last c) (hrun : Other c c') : Kept params E last c' := by
  cases hrun with
  | fast hrun =>
    simp only [cryptfast, Option.bind_eq_bind, Option.bind_eq_some_iff] at hrun
    obtain ⟨algo, -, words, -, ⟨words', x, out⟩, -, y, -, hpure⟩ := hrun
    cases hpure
    exact h.frame y x c.buf c.cbuf c.boff _
  | data hrun =>
    simp only [setdata, Option.bind_eq_bind, Option.bind_eq_some_iff] at hrun
    obtain ⟨⟨x, rest⟩, -, buf, -, x', -, hpure⟩ := hrun
    cases hpure
    exact ⟨h.algo, h.blksize, h.taglen, h.equipped, h.iv⟩
  | @encryptfinal outlen inp out res c' hrun =>
    unfold encryptfinal at hrun
    split at hrun
    case isTrue =>
      cases hrun
      exact h
    case isFalse =>
      simp only [Option.bind_eq_bind, Option.bind_eq_some_iff] at hrun
      obtain ⟨⟨c₁, out₁⟩, hcrypt, c₂, hfinish, tag, -, hpure⟩ := hrun
      cases hpure
      exact finishTag_kept (encrypt_kept inp h _ _ hcrypt) hfinish
  | decryptfinal hrun =>
    simp only [decryptfinal, Option.bind_eq_bind, Option.bind_eq_some_iff] at hrun
    obtain ⟨cipher, -, ⟨c₁, out₁⟩, hcrypt, c₂, hfinish, tag, -, received, -, hpure⟩ := hrun
    cases hpure
    exact finishTag_kept (decrypt_kept cipher h _ _ hcrypt) hfinish

/-- The beginning of the keystream for a vector. -/
structure Begins (E : BlockCipher) (iv : List UInt8) (c : Gcm) : Prop where
  keyed : Keyed E c
  boff : c.boff = 0
  clen : c.clen = 0
  y : c.y.toList = initialCounter E iv

theorem setiv_begins (hE : E.blksize = 16) (h : Kept params E last c) (haccept : Accepts c.taglen iv) :
    ∃ c', c.setiv iv = some (c', 0) ∧ Started E iv c c' ∧ Kept params E (some iv) c' := by
  obtain ⟨c', hset, hs⟩ := setiv_spec h.equipped h.algo h.blksize hE haccept
  refine ⟨c', hset, hs, hs.keyed.algo, hs.keyed.blksize, hs.taglen.trans h.taglen, hs.keyed.equipped, ?_⟩
  rintro _ ⟨⟩
  exact ⟨hs.iv, by rw [hs.taglen]; exact haccept⟩

theorem setiv_invalid (hE : E.blksize = 16) (h : Kept params E last c) (hrefuse : ¬Accepts c.taglen iv) :
    ∃ c', c.setiv iv = some (c', -drewErrInvalid) ∧ Kept params E none c' := by
  obtain ⟨h₁, table, hkeyed, hset⟩ := setiv_eq h.equipped h.algo h.blksize hE iv
  have h12 : iv.length ≠ 12 := fun h => hrefuse (Or.inl h)
  have h16 : c.taglen ≠ 16 := fun h => hrefuse (Or.inr h)
  refine ⟨_, by rw [hset, if_neg h12, if_pos h16], hkeyed.algo, hkeyed.blksize, h.taglen, hkeyed.equipped,
    fun _ h => nomatch h⟩

/-- A context is given back the vector that it has. -/
theorem reset_begins (hE : E.blksize = 16) (h : Kept params E (some iv) c) :
    ∃ c', c.reset = some (c', 0) ∧ Begins E iv c' ∧ Kept params E (some iv) c' := by
  obtain ⟨hiv, haccept⟩ := h.iv iv rfl
  obtain ⟨c₁, hset, hs, hkept⟩ := setiv_begins hE h haccept
  refine ⟨{ c₁ with boff := 0, clen := 0, alen := 0 }, ?_, ⟨⟨hs.keyed.algo, hs.keyed.blksize, hE,
    hs.keyed.multiplies⟩, rfl, rfl, hs.y⟩, hkept.algo, hkept.blksize, hkept.taglen, hkept.equipped, hkept.iv⟩
  simp only [reset, hiv, hset, Option.bind_eq_bind, Option.bind_some]
  rfl

theorem reset_kept (hE : E.blksize = 16) (h : Kept params E last c) :
    Preserves (Kept params E last) c.reset := by
  intro c' res hrun
  by_cases haccept : Accepts c.taglen c.iv
  · have hkept : Kept params E (some c.iv) c := by
      refine ⟨h.algo, h.blksize, h.taglen, h.equipped, ?_⟩
      rintro _ ⟨⟩
      exact ⟨rfl, haccept⟩
    obtain ⟨c₁, hset, -, hkept'⟩ := reset_begins hE hkept
    cases hset.symm.trans hrun
    refine ⟨hkept'.algo, hkept'.blksize, hkept'.taglen, hkept'.equipped, ?_⟩
    rintro iv rfl
    rw [← (h.iv iv rfl).1]
    exact hkept'.iv _ rfl
  · obtain ⟨c₁, hset, hkept⟩ := setiv_invalid hE h haccept
    have hreset : c.reset = some (c₁, -drewErrInvalid) := by
      simp only [reset, hset, Option.bind_eq_bind, Option.bind_some]
      rfl
    cases hreset.symm.trans hrun
    refine ⟨hkept.algo, hkept.blksize, hkept.taglen, hkept.equipped, ?_⟩
    rintro iv rfl
    obtain ⟨hiv, haccept'⟩ := h.iv iv rfl
    rw [← hiv] at haccept'
    exact absurd haccept' haccept

theorem outputs_begins (hc : Begins E iv c) (hd : Begins E iv d) (calls : List Call) :
    functions.outputs c calls = functions.outputs d calls := by
  have hafter : ∀ {c : Gcm}, Begins E iv c → After E c c [] := fun h =>
    after_nil h.boff (by rw [h.clen]; decide)
  have hy : c.y = d.y := Vector.toList_inj.mp (hc.y.trans hd.y.symm)
  have hcrypt : ∀ (a b : Gcm) call, (∃ C, After E c a C ∧ After E d b C) →
      Matches (fun a b => ∃ C, After E c a C ∧ After E d b C) (functions.crypt a call)
        (functions.crypt b call) := by
    rintro a b call ⟨C, ha, hb⟩
    cases call with
    | encrypt inp =>
      obtain ⟨a', hrun, ha'⟩ := encrypt_refines hc.keyed a C inp ha
      obtain ⟨b', hrun', hb'⟩ := encrypt_refines hd.keyed b C inp hb
      rw [sealGcm, ← hy] at hrun' hb'
      show Matches _ (a.encrypt inp) (b.encrypt inp)
      rw [hrun, hrun']
      exact Matches.some ⟨_, ha', hb'⟩ _
    | decrypt inp =>
      obtain ⟨a', hrun, ha'⟩ := decrypt_refines hc.keyed a C inp ha
      obtain ⟨b', hrun', hb'⟩ := decrypt_refines hd.keyed b C inp hb
      rw [openGcm, ← hy] at hrun' hb'
      show Matches _ (a.decrypt inp) (b.decrypt inp)
      rw [hrun, hrun']
      exact Matches.some ⟨_, ha', hb'⟩ _
  exact outputs_eq hcrypt ⟨[], hafter hc, hafter hd⟩ calls

theorem sound (hE : E.blksize = 16) :
    Sound functions (New params E) AtBlock (Accepts (tagLength params)) (Accepts (tagLength params))
      (Kept params E) (Begins E) where
  new := by
    rintro _ ⟨p, rfl⟩
    exact ⟨⟨rfl, hE, taglen_init p params, equipped_init p params, fun _ h => nomatch h⟩, boff_init p params⟩
  crypt _ _ call h := by
    cases call with
    | encrypt inp => exact encrypt_kept inp h
    | decrypt inp => exact decrypt_kept inp h
  other _ _ _ h hrun := other_kept h hrun
  setiv _ _ iv h haccept := by
    rw [← h.taglen] at haccept
    obtain ⟨c', hset, hs, hkept⟩ := setiv_begins hE h haccept
    exact ⟨c', hset, hkept, fun hcond => ⟨hs.keyed, hs.boff.trans hcond, hs.clen, hs.y⟩⟩
  refused _ c iv h hrefuse := by
    obtain ⟨c', hset, -⟩ := setiv_invalid hE h (by rw [h.taglen]; exact hrefuse)
    exact ⟨c', hset, fun haccept => absurd haccept hrefuse⟩
  reset _ _ h := reset_kept hE h
  resets _ iv h := by
    obtain ⟨c', hset, hbegins, -⟩ := reset_begins hE h
    exact ⟨h.taglen ▸ (h.iv iv rfl).2, c', hset, hbegins⟩
  same _ _ _ hc hd := outputs_begins hc hd

end Restart

end Gcm

/-! ## Cipher feedback mode -/

namespace Cfb

/-- The steps of the fast functions. -/
inductive Other (c : Cfb) : Cfb → Prop
  | encryptfast {n : Nat} {out inp out' : Buf UInt8 n} {c' : Cfb} :
      c.encryptfast out inp = some (c', out') → Other c c'
  | decryptfast {n : Nat} {buf : Buf UInt8 sliceSize} {out inp out' : Buf UInt8 n} {c' : Cfb} :
      c.decryptfast buf out inp = some (c', out') → Other c c'

def functions : Functions Cfb := ⟨setiv, reset, encrypt, decrypt, Other⟩

/-- A new context with a cipher. The memory and the object for the vector have some contents. -/
def New (params : List (String × Nat)) (E : BlockCipher) (c : Cfb) : Prop :=
  ∃ mem ivMem, ivMem.length = E.blksize ∧ c = ((init mem params).setblock (some ivMem) (some E)).1

/-- The size of the feedback that a context has with its cipher. -/
def feedbackFor (params : List (String × Nat)) (E : BlockCipher) : Nat :=
  if (init cleared params).feedback = 0 then E.blksize else (init cleared params).feedback

theorem feedbackFor_pos (params : List (String × Nat)) (E : BlockCipher) : 0 < feedbackFor params E := by
  unfold feedbackFor
  split
  case isTrue => exact E.blksize_pos
  case isFalse h => exact Nat.pos_of_ne_zero h

theorem setblock_feedback (mem : Cfb) (params : List (String × Nat)) (ivMem : List UInt8) (E : BlockCipher) :
    let c := ((init mem params).setblock (some ivMem) (some E)).1
    c.algo = some E ∧ c.blksize = E.blksize ∧ c.feedback = feedbackFor params E ∧ c.boff = 0 ∧
      c.iv = some ivMem := by
  have hfb : (if (init mem params).feedback = 0 then E.blksize else (init mem params).feedback) =
      feedbackFor params E := rfl
  unfold setblock
  dsimp only
  rw [hfb]
  split <;> exact ⟨rfl, rfl, rfl, rfl, rfl⟩

/-- No unit is begun. -/
def AtBlock (c : Cfb) : Prop := c.boff = 0

/-- What the calls keep. -/
structure Kept (E : BlockCipher) (f : Nat) (last : Option (List UInt8)) (c : Cfb) : Prop where
  setup : Setup E f c
  object : ∃ old, c.iv = some old ∧ old.length = E.blksize ∧ ∀ iv, last = some iv → old = iv

section Restart

variable {E : BlockCipher} {f : Nat} {c c' d d' : Cfb} {last : Option (List UInt8)} {iv : List UInt8}

/-- Only these members matter. -/
theorem Kept.frame (h : Kept E f last c) (buf prev : Buf UInt8 32) (boff : Nat) :
    Kept E f last { c with buf := buf, prev := prev, boff := boff } := by
  have hs := h.setup
  exact ⟨⟨hs.algo, hs.blksize, hs.feedback, hs.pos, hs.le, hs.fits⟩, h.object⟩

theorem refill_kept (h : Kept E f last c) (hrun : c.refill = some c') : Kept E f last c' := by
  simp only [refill, Option.bind_eq_bind, Option.bind_eq_some_iff] at hrun
  obtain ⟨algo, -, buf, -, kept, -, prev, -, hpure⟩ := hrun
  cases hpure
  exact h.frame buf prev c.boff

theorem encryptByte_kept (i : Nat) (x : UInt8) (h : Kept E f last c) :
    Preserves (Kept E f last) (encryptByte i c x) := by
  intro s y hrun
  simp only [encryptByte, Option.bind_eq_bind, Option.bind_eq_some_iff] at hrun
  obtain ⟨b, -, buf, -, prev, -, hpure⟩ := hrun
  cases hpure
  exact h.frame buf prev c.boff

theorem decryptByte_kept (i : Nat) (x : UInt8) (h : Kept E f last c) :
    Preserves (Kept E f last) (decryptByte i c x) := by
  intro s y hrun
  simp only [decryptByte, Option.bind_eq_bind, Option.bind_eq_some_iff] at hrun
  obtain ⟨b, -, prev, -, hpure⟩ := hrun
  cases hpure
  exact h.frame c.buf prev c.boff

theorem whole_kept {body : Nat → Cfb → UInt8 → Option (Cfb × UInt8)}
    (hbody : ∀ i c x, Kept E f last c → Preserves (Kept E f last) (body i c x)) (inp : List UInt8)
    (h : Kept E f last c) : Preserves (Kept E f last) ((unitOps body).whole c inp) := by
  intro s out hrun
  simp only [unitOps, Option.bind_eq_bind, Option.bind_eq_some_iff] at hrun
  obtain ⟨c₁, hrefill, hloop⟩ := hrun
  exact loop_preserves hbody 0 inp (refill_kept h hrefill) _ _ hloop

/-- The operations of a direction. -/
theorem ops_kept {body : Nat → Cfb → UInt8 → Option (Cfb × UInt8)}
    (hbody : ∀ i c x, Kept E f last c → Preserves (Kept E f last) (body i c x)) :
    (unitOps body).Alike f (fun s t => s = t ∧ Kept E f last s) fun _ => True := by
  refine alike_of_preserves (fun s s' hs => refill_kept hs) hbody ?_ fun s xs hs => whole_kept hbody xs hs
  rintro s _ hs ⟨⟩
  exact hs

theorem encrypt_kept (inp : List UInt8) (h : Kept E f last c) : Preserves (Kept E f last) (c.encrypt inp) := by
  intro s out hrun
  simp only [encrypt, h.setup.feedback, Option.bind_eq_bind, Option.bind_eq_some_iff] at hrun
  obtain ⟨⟨c₁, boff, out₁⟩, hcall, hpure⟩ := hrun
  cases hpure
  have hops := ops_kept fun i c x (hc : Kept E f last c) => encryptByte_kept i x hc
  have h₁ := hops.call_preserves h.setup.pos _ _ h _ _ hcall
  exact h₁.frame c₁.buf c₁.prev boff

theorem decrypt_kept (inp : List UInt8) (h : Kept E f last c) : Preserves (Kept E f last) (c.decrypt inp) := by
  intro s out hrun
  simp only [decrypt, h.setup.feedback, Option.bind_eq_bind, Option.bind_eq_some_iff] at hrun
  obtain ⟨⟨c₁, boff₁, out₁, rest⟩, hhead, ⟨c₂, out₂, rest'⟩, hwholes, ⟨c₃, boff₃, out₃⟩, htail, hpure⟩ := hrun
  cases hpure
  have hops := ops_kept fun i c x (hc : Kept E f last c) => decryptByte_kept i x hc
  have h₁ : Kept E f last c₁ := by
    unfold decryptHead at hhead
    split at hhead
    case isTrue =>
      cases hhead
      exact h
    case isFalse =>
      simp only [Option.bind_eq_bind, Option.bind_eq_some_iff] at hhead
      obtain ⟨⟨c₄, out₄⟩, hloop, hpure⟩ := hhead
      cases hpure
      exact loop_preserves (fun i c x hc => decryptByte_kept i x hc) _ _ h _ _ hloop
  have h₂ : Kept E f last c₂ := preserves_iff.mpr (hops.wholes _ _ ⟨rfl, h₁⟩) _ _ hwholes
  have hlen := wholes_rest h.setup.pos (le_refl _) hwholes
  have h₃ : Kept E f last c₃ := preserves_iff.mpr (hops.tail _ hlen.le ⟨rfl, h₂⟩) _ _ htail
  exact h₃.frame c₃.buf c₃.prev boff₃

theorem other_kept (h : Kept E f last c) (hrun : Other c c') : Kept E f last c' := by
  cases hrun with
  | encryptfast hrun =>
    simp only [encryptfast, Option.bind_eq_bind, Option.bind_eq_some_iff] at hrun
    obtain ⟨algo, -, ⟨cur, buf, out⟩, -, text, -, prev, -, hpure⟩ := hrun
    cases hpure
    exact h.frame buf prev c.boff
  | decryptfast hrun =>
    simp only [decryptfast, Option.bind_eq_bind, Option.bind_eq_some_iff] at hrun
    obtain ⟨algo, -, ⟨prev, out⟩, -, hpure⟩ := hrun
    cases hpure
    exact h.frame c.buf prev c.boff

/-- Two contexts that agree as far as a block goes. -/
structure Alike (E : BlockCipher) (f : Nat) (c d : Cfb) : Prop where
  left : Setup E f c
  right : Setup E f d
  buf : ∀ i < E.blksize, c.buf[i]? = d.buf[i]?
  prev : ∀ i < E.blksize, c.prev[i]? = d.prev[i]?

/-- An offset in a unit, or one past the end of the buffers. -/
def Inside (f i : Nat) : Prop := i < f ∨ 32 ≤ i

theorem Alike.boff (h : Alike E f c d) (boff : Nat) :
    Alike E f { c with boff := boff } { d with boff := boff } :=
  ⟨setup_boff h.left, setup_boff h.right, h.buf, h.prev⟩

theorem refill_alike (h : Alike E f c d) : Option.Rel (Alike E f) c.refill d.refill := by
  have hs := h.left
  have hfits := hs.fits
  have hle := hs.le
  obtain ⟨r, hr, hrlen, -⟩ := Buf.exists_read c.prev 0 E.blksize (by omega)
  have hr' : d.prev.read 0 E.blksize = some r := by
    rw [← hr]
    exact (Buf.read_congr h.prev (by omega)).symm
  have henc := E.length_encrypt r hrlen
  obtain ⟨buf, hbuf⟩ := Buf.exists_write_at c.buf 0 (E.encrypt r) (by omega)
  obtain ⟨buf', hbuf'⟩ := Buf.exists_write_at d.buf 0 (E.encrypt r) (by omega)
  obtain ⟨kept, hkept, hklen, -⟩ := Buf.exists_read c.prev f (E.blksize - f) (by omega)
  have hkept' : d.prev.read f (E.blksize - f) = some kept := by
    rw [← hkept]
    exact (Buf.read_congr h.prev (by omega)).symm
  obtain ⟨prev, hprev⟩ := Buf.exists_write_at c.prev 0 kept (by omega)
  obtain ⟨prev', hprev'⟩ := Buf.exists_write_at d.prev 0 kept (by omega)
  have hc : c.refill = some { c with buf := buf, prev := prev } := by
    simp [refill, hs.algo, BlockCipher.encryptTo, hr, hbuf, hs.feedback, hs.leftover, hkept, hprev]
  have hd : d.refill = some { d with buf := buf', prev := prev' } := by
    simp [refill, h.right.algo, BlockCipher.encryptTo, hr', hbuf', h.right.feedback, h.right.leftover, hkept',
      hprev']
  rw [hc, hd]
  have hright := h.right
  exact .some ⟨⟨hs.algo, hs.blksize, hs.feedback, hs.pos, hs.le, hs.fits⟩,
    ⟨hright.algo, hright.blksize, hright.feedback, hright.pos, hright.le, hright.fits⟩,
    Buf.write_congr h.buf hbuf hbuf', Buf.write_congr h.prev hprev hprev'⟩

/-- A byte of the buffer, which both contexts have or neither. -/
theorem load_alike (h : Alike E f c d) {i : Nat} (hi : Inside f i) :
    c.buf.load i = none ∧ d.buf.load i = none ∨
      i < f ∧ ∃ b, c.buf.load i = some b ∧ d.buf.load i = some b := by
  have hle := h.left.le
  have hfits := h.left.fits
  rcases hi with hlt | hge
  · have hi32 : i < 32 := by omega
    have hget : c.buf[i]? = some c.buf[i] := Vector.getElem?_eq_getElem hi32
    exact Or.inr ⟨hlt, c.buf[i], hget, (h.buf i (by omega)).symm.trans hget⟩
  · exact Or.inl ⟨Buf.load_none _ hge, Buf.load_none _ hge⟩

/-- A byte comes in. -/
theorem store_alike (h : Alike E f c d) {i : Nat} (hi : i < f) (y : UInt8) :
    ∃ prev prev', c.prev.store (c.leftover + i) y = some prev ∧ d.prev.store (d.leftover + i) y = some prev' ∧
      ∀ j < E.blksize, prev[j]? = prev'[j]? := by
  have hle := h.left.le
  have hfits := h.left.fits
  rw [h.left.leftover, h.right.leftover]
  have hlt : E.blksize - f + i < 32 := by omega
  exact ⟨_, _, Buf.store_of_lt _ y hlt, Buf.store_of_lt _ y hlt, Buf.set_congr h.prev hlt y⟩

theorem encryptByte_alike (h : Alike E f c d) {i : Nat} (hi : Inside f i) (x : UInt8) :
    Matches (Alike E f) (encryptByte i c x) (encryptByte i d x) := by
  have hs := h.left
  have hright := h.right
  have hle := hs.le
  have hfits := hs.fits
  rcases load_alike h hi with ⟨hc, hd⟩ | ⟨hlt, b, hc, hd⟩
  · simp only [encryptByte, hc, hd]
    exact Matches.none
  · obtain ⟨prev, prev', hprev, hprev', hagree⟩ := store_alike h hlt (b ^^^ x)
    have hi32 : i < 32 := by omega
    have hrun : encryptByte i c x =
        some ({ c with buf := c.buf.set i (b ^^^ x) hi32, prev := prev }, b ^^^ x) := by
      simp [encryptByte, hc, hprev, Buf.store_of_lt c.buf (b ^^^ x) hi32]
    have hrun' : encryptByte i d x =
        some ({ d with buf := d.buf.set i (b ^^^ x) hi32, prev := prev' }, b ^^^ x) := by
      simp [encryptByte, hd, hprev', Buf.store_of_lt d.buf (b ^^^ x) hi32]
    rw [hrun, hrun']
    exact Matches.some ⟨⟨hs.algo, hs.blksize, hs.feedback, hs.pos, hs.le, hs.fits⟩,
      ⟨hright.algo, hright.blksize, hright.feedback, hright.pos, hright.le, hright.fits⟩,
      Buf.set_congr h.buf hi32 _, hagree⟩ _

theorem decryptByte_alike (h : Alike E f c d) {i : Nat} (hi : Inside f i) (x : UInt8) :
    Matches (Alike E f) (decryptByte i c x) (decryptByte i d x) := by
  have hs := h.left
  have hright := h.right
  rcases load_alike h hi with ⟨hc, hd⟩ | ⟨hlt, b, hc, hd⟩
  · simp only [decryptByte, hc, hd]
    exact Matches.none
  · obtain ⟨prev, prev', hprev, hprev', hagree⟩ := store_alike h hlt x
    have hrun : decryptByte i c x = some ({ c with prev := prev }, b ^^^ x) := by
      simp [decryptByte, hc, hprev]
    have hrun' : decryptByte i d x = some ({ d with prev := prev' }, b ^^^ x) := by
      simp [decryptByte, hd, hprev']
    rw [hrun, hrun']
    exact Matches.some ⟨⟨hs.algo, hs.blksize, hs.feedback, hs.pos, hs.le, hs.fits⟩,
      ⟨hright.algo, hright.blksize, hright.feedback, hright.pos, hright.le, hright.fits⟩, h.buf, hagree⟩ _

/-- The operations of a direction. -/
theorem ops_alike {body : Nat → Cfb → UInt8 → Option (Cfb × UInt8)}
    (hbody : ∀ i c d x, Inside f i → Alike E f c d → Matches (Alike E f) (body i c x) (body i d x)) :
    (unitOps body).Alike f (Alike E f) (Inside f) where
  refill _ _ h := refill_alike h
  body i c d x hi h := hbody i c d x hi h
  close _ _ h := .some h
  whole c d xs h hlen := by
    refine rel_bind (refill_alike h) fun c₁ d₁ _ _ h₁ => ?_
    exact loop_matches (fun j _ hj c d x h => hbody j c d x (Or.inl (by omega)) h) h₁
  inside _ hi := Or.inl hi

/-- An offset in a unit, or one that is past the end of the buffers. -/
def Offset (f boff : Nat) : Prop := boff < f ∨ 32 ≤ boff ∧ boff < 2 ^ 64

/-- Two contexts that agree also in their offset. -/
structure Resumes (E : BlockCipher) (f : Nat) (c d : Cfb) : Prop where
  alike : Alike E f c d
  eq : c.boff = d.boff
  offset : Offset f c.boff

/-- The elements that the first phase of a call handles. -/
theorem inside_head (h : Setup E f c) {boff len j : Nat} (hboff : Offset f boff) (hj : boff ≤ j)
    (hjlt : j < boff + min (subSize f boff) len) : Inside f j := by
  have hle := h.le
  have hfits := h.fits
  rcases hboff with hlt | ⟨hge, -⟩
  · rw [subSize_of_le hlt.le (by omega)] at hjlt
    exact Or.inl (by omega)
  · exact Or.inr (by omega)

/-- Past the end of the buffers nothing is handled. -/
theorem loop_past {body : Nat → Cfb → UInt8 → Option (Cfb × UInt8)}
    (hbody : ∀ i c x, 32 ≤ i → body i c x = none) {boff : Nat} (hge : 32 ≤ boff) {xs : List UInt8}
    (h : (loop body boff c xs).isSome) : xs.length = 0 := by
  cases xs with
  | nil => rfl
  | cons x xs =>
    rw [loop, hbody boff c x hge] at h
    cases h

theorem encryptByte_past {i : Nat} (x : UInt8) (hi : 32 ≤ i) : encryptByte i c x = none := by
  simp [encryptByte, Buf.load_none c.buf hi]

theorem decryptByte_past {i : Nat} (x : UInt8) (hi : 32 ≤ i) : decryptByte i c x = none := by
  simp [decryptByte, Buf.load_none c.buf hi]

theorem encrypt_resumes (h : Resumes E f c d) (inp : List UInt8) :
    Matches (Resumes E f) (c.encrypt inp) (d.encrypt inp) := by
  have hs := h.alike.left
  have hle := hs.le
  have hfits := hs.fits
  have hops := ops_alike fun i c d x hi (h : Alike E f c d) => encryptByte_alike h hi x
  have hcall : Matches (Alike E f) ((unitOps encryptByte).call f c c.boff inp)
      ((unitOps encryptByte).call f d c.boff inp) :=
    hops.call hs.pos (fun j hj hjlt => inside_head hs h.offset hj hjlt) h.alike
  simp only [encrypt, hs.feedback, h.alike.right.feedback, ← h.eq]
  refine hcall.bind fun c₁ d₁ r hrun h₁ => ?_
  have hoffset : Offset f r.1 := by
    refine call_offset (Q := Offset f) hs.pos (fun i hi => Or.inl hi) (fun hne hloop => ?_) hrun
    rcases h.offset with hlt | ⟨hge, hlt⟩
    · rw [subSize_of_le hlt.le (by omega)] at hne ⊢
      exact Or.inl (by omega)
    · have hnil := loop_past (fun i c x hi => encryptByte_past x hi) hge hloop
      rw [List.length_take] at hnil
      exact Or.inr (by omega)
  exact Matches.some ⟨h₁.boff r.1, rfl, hoffset⟩ r.2

/-- The first phase of `cfb_decrypt`, and the offset that it leaves. -/
theorem decryptHead_alike (h : Alike E f c d) {boff : Nat} (hboff : Offset f boff) (inp : List UInt8) :
    Matches (Alike E f) (decryptHead c boff inp) (decryptHead d boff inp) ∧
      ∀ c₁ r, decryptHead c boff inp = some (c₁, r) → Offset f r.1 := by
  have hs := h.left
  have hle := hs.le
  have hfits := hs.fits
  have hpos := hs.pos
  unfold decryptHead
  split
  case isTrue =>
    refine ⟨Matches.some h _, ?_⟩
    rintro c₁ r ⟨⟩
    exact Or.inl hpos
  case isFalse =>
    rw [hs.feedback, h.right.feedback]
    have hloop : Matches (Alike E f) (loop decryptByte boff c (inp.take (min (subSize f boff) inp.length)))
        (loop decryptByte boff d (inp.take (min (subSize f boff) inp.length))) := by
      refine loop_matches (fun j hj hjlt c d x h => ?_) h
      rw [List.length_take] at hjlt
      have hjlt' : j < boff + min (subSize f boff) inp.length := by omega
      exact decryptByte_alike h (inside_head hs hboff hj hjlt') x
    refine ⟨hloop.bind fun c₁ d₁ ys _ h₁ => Matches.some h₁ _, ?_⟩
    intro c₁ r hrun
    rw [Option.bind_eq_bind, Option.bind_eq_some_iff] at hrun
    obtain ⟨⟨c₂, ys⟩, hloop, hpure⟩ := hrun
    cases hpure
    show Offset f (subSize boff (min (subSize f boff) inp.length))
    rcases hboff with hlt | ⟨hge, hlt⟩
    · rw [subSize_of_le hlt.le (by omega)]
      by_cases hb : min (f - boff) inp.length ≤ boff
      · rw [subSize_of_le hb (by omega)]
        exact Or.inl (by omega)
      · rw [subSize_of_lt (by omega) (by omega)]
        exact Or.inr (by omega)
    · have hnil := loop_past (fun i c x hi => decryptByte_past x hi) hge (by rw [hloop]; rfl)
      rw [List.length_take] at hnil
      rw [subSize_of_le (by omega) hlt]
      exact Or.inr (by omega)

theorem decrypt_resumes (h : Resumes E f c d) (inp : List UInt8) :
    Matches (Resumes E f) (c.decrypt inp) (d.decrypt inp) := by
  have hs := h.alike.left
  have hops := ops_alike fun i c d x hi (h : Alike E f c d) => decryptByte_alike h hi x
  obtain ⟨hhead, hoffset⟩ := decryptHead_alike h.alike h.offset inp
  simp only [decrypt, hs.feedback, h.alike.right.feedback, ← h.eq]
  refine hhead.bind fun c₁ d₁ r₁ hr₁ h₁ => ?_
  refine (hops.wholes _ _ h₁).bind fun c₂ d₂ r₂ hr₂ h₂ => ?_
  have hlen := wholes_rest hs.pos (le_refl _) hr₂
  refine (hops.tail r₁.1 hlen.le h₂).bind fun c₃ d₃ r₃ hr₃ h₃ => ?_
  have hoffset₃ : Offset f r₃.1 := by
    unfold UnitOps.tail at hr₃
    split at hr₃
    case isTrue =>
      cases hr₃
      exact hoffset _ _ hr₁
    case isFalse =>
      simp only [Option.bind_eq_bind, Option.bind_eq_some_iff] at hr₃
      obtain ⟨c₄, -, ⟨c₅, ys⟩, -, hpure⟩ := hr₃
      cases hpure
      exact Or.inl hlen
  exact Matches.some ⟨h₃.boff r₃.1, rfl, hoffset₃⟩ _

/-- The beginning of the keystream for a vector. -/
structure Begins (E : BlockCipher) (f : Nat) (iv : List UInt8) (c : Cfb) : Prop where
  setup : Setup E f c
  boff : c.boff = 0
  length : iv.length = E.blksize
  buf : c.buf.Holds 0 iv
  prev : c.prev.Holds 0 iv

theorem outputs_begins (hc : Begins E f iv c) (hd : Begins E f iv d) (calls : List Call) :
    functions.outputs c calls = functions.outputs d calls := by
  have hcrypt : ∀ (c d : Cfb) call, Resumes E f c d →
      Matches (Resumes E f) (functions.crypt c call) (functions.crypt d call) := by
    intro c d call h
    cases call with
    | encrypt inp => exact encrypt_resumes h inp
    | decrypt inp => exact decrypt_resumes h inp
  have hget : ∀ {v w : Buf UInt8 32}, v.Holds 0 iv → w.Holds 0 iv → ∀ i < E.blksize, v[i]? = w[i]? := by
    intro v w hv hw i hi
    rw [← hc.length] at hi
    have hvi := hv.2 i hi
    have hwi := hw.2 i hi
    rw [Nat.zero_add] at hvi hwi
    rw [hvi, hwi]
  refine outputs_eq hcrypt ⟨⟨hc.setup, hd.setup, hget hc.buf hd.buf, hget hc.prev hd.prev⟩,
    hc.boff.trans hd.boff.symm, Or.inl ?_⟩ calls
  rw [hc.boff]
  exact hc.setup.pos

theorem setiv_begins (h : Kept E f last c) (hlen : iv.length = E.blksize) :
    ∃ c', c.setiv iv = some (c', 0) ∧ c'.boff = c.boff ∧ c'.buf.Holds 0 iv ∧ c'.prev.Holds 0 iv ∧
      Kept E f (some iv) c' := by
  have hs := h.setup
  obtain ⟨old, hold, hlen', -⟩ := h.object
  obtain ⟨prev, buf, hset, hprev, hbuf⟩ := setiv_spec hs.blksize hlen hs.fits hold hlen'
  refine ⟨_, hset, rfl, Buf.holds_write hbuf, Buf.holds_write hprev,
    ⟨hs.algo, hs.blksize, hs.feedback, hs.pos, hs.le, hs.fits⟩, iv, rfl, hlen, ?_⟩
  rintro _ ⟨⟩
  rfl

theorem setiv_invalid (h : Kept E f last c) (hlen : iv.length ≠ E.blksize) :
    c.setiv iv = some (c, -drewErrInvalid) := by
  rw [setiv, if_pos (by rw [h.setup.blksize]; exact fun h => hlen h.symm)]

/-- A context is given back the vector that it has. -/
theorem reset_begins (h : Kept E f last c) :
    ∃ c' iv, c.reset = some (c', 0) ∧ Begins E f iv c' ∧ Kept E f (some iv) c' ∧
      ∀ iv', last = some iv' → iv = iv' := by
  obtain ⟨old, hold, hlen, hlast⟩ := h.object
  obtain ⟨c₁, hset, -, hbuf, hprev, hkept⟩ := setiv_begins h hlen
  have hs := hkept.setup
  have htake : old.take c.blksize = old := List.take_of_length_le (by rw [h.setup.blksize, hlen])
  refine ⟨{ c₁ with boff := 0 }, old, ?_, ⟨setup_boff hs, rfl, hlen, hbuf, hprev⟩,
    ⟨setup_boff hs, hkept.object⟩, hlast⟩
  have hlt : ¬old.length < c.blksize := by
    rw [h.setup.blksize, hlen]
    exact lt_irrefl _
  simp only [reset, hold, htake, hset, if_neg hlt, Option.bind_eq_bind, Option.bind_some]
  rfl

theorem sound {params : List (String × Nat)} (hle : feedbackFor params E ≤ E.blksize)
    (hsize : E.blksize ≤ 32) :
    Sound functions (New params E) AtBlock (fun _ => True) (fun iv => iv.length = E.blksize)
      (Kept E (feedbackFor params E)) (Begins E (feedbackFor params E)) where
  new := by
    rintro _ ⟨mem, ivMem, hmem, rfl⟩
    obtain ⟨halgo, hblk, hfb, hboff, hiv⟩ := setblock_feedback mem params ivMem E
    have hpos := feedbackFor_pos params E
    exact ⟨⟨⟨halgo, hblk, hfb, hpos, hle, hsize⟩, ivMem, hiv, hmem, fun _ h => nomatch h⟩, hboff⟩
  crypt _ _ call h := by
    cases call with
    | encrypt inp => exact encrypt_kept inp h
    | decrypt inp => exact decrypt_kept inp h
  other _ _ _ h hrun := other_kept h hrun
  setiv _ _ iv h hlen := by
    obtain ⟨c', hset, hboff, hbuf, hprev, hkept⟩ := setiv_begins h hlen
    exact ⟨c', hset, hkept, fun hcond => ⟨hkept.setup, hboff.trans hcond, hlen, hbuf, hprev⟩⟩
  refused _ c _ h hlen := ⟨c, setiv_invalid h hlen, fun _ => h⟩
  reset last c h := by
    intro c' res hrun
    obtain ⟨c₁, iv, hreset, -, hkept, hlast⟩ := reset_begins h
    cases hreset.symm.trans hrun
    obtain ⟨old, hold, hlen, hold'⟩ := hkept.object
    refine ⟨hkept.setup, old, hold, hlen, fun iv' hiv' => ?_⟩
    rw [hold' iv rfl, hlast iv' hiv']
  resets _ iv h := by
    obtain ⟨c', iv', hreset, hbegins, -, hlast⟩ := reset_begins h
    cases hlast iv rfl
    exact ⟨hbegins.length, c', hreset, hbegins⟩
  same _ _ _ hc hd := outputs_begins hc hd

end Restart

end Cfb

section Modes

variable {E : BlockCipher} {params : List (String × Nat)}

/-- A context after a vector of zeros and one byte of a block of two. -/
def oneByte : Ctr :=
  { (Ctr.init.setblock (some (BlockCipher.identity 1))).1 with
    ctr := (Vector.replicate 32 0).set 1 1
    boff := 1 }

theorem reach_oneByte :
    Reach Ctr.functions (Ctr.New (BlockCipher.identity 1)) (fun _ => True) oneByte (some [0, 0]) := by
  have hnew : Reach Ctr.functions (Ctr.New (BlockCipher.identity 1)) (fun _ => True) _ none := Reach.new rfl
  have hset := Reach.setiv hnew trivial (show Ctr.functions.setiv _ [0, 0] = some (_, 0) from rfl)
  exact Reach.crypt hset (show Ctr.functions.crypt _ (.encrypt [0]) = some (oneByte, [0]) from rfl)

end Modes

end Drew.Mode
