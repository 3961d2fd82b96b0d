import Drew.Stream.Run

/-!
# Texts processed in units of a fixed size

A buffering routine handles a text of any length with work that is done once for each
unit of `n` elements. The offset `boff` says how far into the current unit the previous
call went. A call first finishes that unit (`head`), then processes whole units
(`wholes`), and last begins a new unit with what is left (`tail`):

* `refill` is done when a unit is begun,
* `body i` handles the element at offset `i` of the unit,
* `close` is done when the last element of a unit that a call found begun was handled,
* `whole` handles a unit that lies entirely in one call.

`Refines` compares such a routine with a step on abstract states that handles one
element at a time. `Idle` relates the states between two units, and `Mid` those at an
offset within one. Then a call is the trace of that step over its piece
(`Refines.call`), so the three phases and the offsets are invisible from outside.
-/

namespace Drew.Stream

universe u

variable {σ τ α β : Type u}

/-- The operations of a buffering routine. -/
structure UnitOps (σ α β : Type u) where
  refill : σ → Option σ
  body : Nat → σ → α → Option (σ × β)
  close : σ → Option σ
  whole : σ → List α → Option (σ × List β)

/-- Subtraction of sizes, which are 64-bit words. -/
def subSize (a b : Nat) : Nat := (a + (2 ^ 64 - b % 2 ^ 64)) % 2 ^ 64

theorem subSize_of_le {a b : Nat} (h : b ≤ a) (ha : a < 2 ^ 64) : subSize a b = a - b := by
  unfold subSize
  omega

theorem subSize_of_lt {a b : Nat} (h : a < b) (hb : b < 2 ^ 64) :
    subSize a b = 2 ^ 64 - (b - a) := by
  unfold subSize
  omega

/-- Handle successive elements from offset `i` on. -/
def loop (body : Nat → σ → α → Option (σ × β)) : Nat → σ → List α → Option (σ × List β)
  | _, s, [] => some (s, [])
  | i, s, x :: xs => do
      let (s, y) ← body i s x
      let (s, ys) ← loop body (i + 1) s xs
      return (s, y :: ys)

namespace UnitOps

variable (M : UnitOps σ α β) (n : Nat)

/-- Finish the unit that an earlier call began. Gives the state, the new offset, the
output and the text that is left. -/
def head (s : σ) (boff : Nat) (xs : List α) : Option (σ × Nat × List β × List α) :=
  if boff = 0 then some (s, 0, [], xs) else do
    let b := min (subSize n boff) xs.length
    let (s, ys) ← loop M.body boff s (xs.take b)
    if boff + b = n then
      let s ← M.close s
      return (s, 0, ys, xs.drop b)
    else
      return (s, boff + b, ys, xs.drop b)

/-- Process whole units while there are any. -/
def wholes : Nat → σ → List α → Option (σ × List β × List α)
  | 0, s, xs => some (s, [], xs)
  | k + 1, s, xs =>
      if xs.length < n then some (s, [], xs) else do
        let (s, ys) ← M.whole s (xs.take n)
        let (s, zs, rest) ← wholes k s (xs.drop n)
        return (s, ys ++ zs, rest)

/-- Begin a new unit if text is left. -/
def tail (s : σ) (boff : Nat) (xs : List α) : Option (σ × Nat × List β) :=
  if xs.isEmpty then some (s, boff, []) else do
    let s ← M.refill s
    let (s, ys) ← loop M.body 0 s xs
    return (s, xs.length, ys)

/-- One call on a piece of the text. Every round of `wholes` takes `n` elements, so the
length of the text bounds their number. -/
def call (s : σ) (boff : Nat) (xs : List α) : Option (σ × Nat × List β) := do
  let (s, boff, ys, xs) ← M.head n s boff xs
  let (s, zs, xs) ← M.wholes n xs.length s xs
  let (s, boff, ws) ← M.tail s boff xs
  return (s, boff, ys ++ zs ++ ws)

/-- The whole unit handled element by element. -/
def wholeByLoop (s : σ) (xs : List α) : Option (σ × List β) := do
  let s ← M.refill s
  let (s, ys) ← loop M.body 0 s xs
  let s ← M.close s
  return (s, ys)

end UnitOps

/-! ## Refinement -/

variable {M : UnitOps σ α β} {n : Nat} {step : τ → α → τ × β}
  {Idle : σ → τ → Prop} {Mid : σ → Nat → τ → Prop}

/-- What the operations must do for a call to be a trace. -/
structure Refines (M : UnitOps σ α β) (n : Nat) (step : τ → α → τ × β) (Idle : σ → τ → Prop)
    (Mid : σ → Nat → τ → Prop) : Prop where
  refill : ∀ s t, Idle s t → ∃ s', M.refill s = some s' ∧ Mid s' 0 t
  body : ∀ s i t x, Mid s i t → i < n →
    ∃ s', M.body i s x = some (s', (step t x).2) ∧ Mid s' (i + 1) (step t x).1
  close : ∀ s t, Mid s n t → ∃ s', M.close s = some s' ∧ Idle s' t
  whole : ∀ s t xs, Idle s t → xs.length = n →
    ∃ s', M.whole s xs = some (s', (trace step t xs).2) ∧ Idle s' (trace step t xs).1

/-- The relation between two calls, at the offset where the first one stopped. -/
def At (n : Nat) (Idle : σ → τ → Prop) (Mid : σ → Nat → τ → Prop) (s : σ) (boff : Nat) (t : τ) :
    Prop :=
  if boff = 0 then Idle s t else boff < n ∧ Mid s boff t

theorem At.idle {s : σ} {t : τ} (h : Idle s t) : At n Idle Mid s 0 t := by
  simpa [At] using h

theorem at_zero {s : σ} {t : τ} : At n Idle Mid s 0 t ↔ Idle s t := by
  simp [At]

theorem At.mid {s : σ} {boff : Nat} {t : τ} (h0 : boff ≠ 0) (hn : boff < n)
    (h : Mid s boff t) : At n Idle Mid s boff t := by
  simpa [At, h0] using ⟨hn, h⟩

theorem At.lt {s : σ} {boff : Nat} {t : τ} (hn : 0 < n) (h : At n Idle Mid s boff t) : boff < n := by
  unfold At at h
  split at h
  · omega
  · exact h.1

/-- The relation follows from that between two units and that within one. -/
theorem At.imp {σ' τ' : Type u} {Idle' : σ' → τ' → Prop} {Mid' : σ' → Nat → τ' → Prop} {s : σ}
    {s' : σ'} {boff : Nat} {t : τ} {t' : τ'} (hIdle : Idle s t → Idle' s' t')
    (hMid : Mid s boff t → Mid' s' boff t') (h : At n Idle Mid s boff t) :
    At n Idle' Mid' s' boff t' := by
  by_cases h0 : boff = 0
  · subst h0
    exact At.idle (hIdle (at_zero.mp h))
  · unfold At at h
    rw [if_neg h0] at h
    exact At.mid h0 h.1 (hMid h.2)

/-- The element loop, as long as it stays within the unit. -/
theorem loop_spec (hbody : ∀ s i t x, Mid s i t → i < n →
      ∃ s', M.body i s x = some (s', (step t x).2) ∧ Mid s' (i + 1) (step t x).1)
    {s : σ} {i : Nat} {t : τ} (xs : List α) (h : Mid s i t) (hlen : i + xs.length ≤ n) :
    ∃ s', loop M.body i s xs = some (s', (trace step t xs).2) ∧
      Mid s' (i + xs.length) (trace step t xs).1 := by
  induction xs generalizing s i t with
  | nil => exact ⟨s, rfl, h⟩
  | cons x xs ih =>
    simp only [List.length_cons] at hlen
    obtain ⟨s₁, hb, hMid₁⟩ := hbody s i t x h (by omega)
    obtain ⟨s₂, hl, hMid₂⟩ := ih hMid₁ (by omega)
    refine ⟨s₂, ?_, ?_⟩
    · simp [loop, hb, hl]
    · simpa [Nat.add_assoc, Nat.add_comm 1] using hMid₂

/-- A unit handled element by element is a trace over the unit. -/
theorem wholeByLoop_spec
    (hrefill : ∀ s t, Idle s t → ∃ s', M.refill s = some s' ∧ Mid s' 0 t)
    (hbody : ∀ s i t x, Mid s i t → i < n →
      ∃ s', M.body i s x = some (s', (step t x).2) ∧ Mid s' (i + 1) (step t x).1)
    (hclose : ∀ s t, Mid s n t → ∃ s', M.close s = some s' ∧ Idle s' t)
    {s : σ} {t : τ} (xs : List α) (h : Idle s t) (hlen : xs.length = n) :
    ∃ s', M.wholeByLoop s xs = some (s', (trace step t xs).2) ∧ Idle s' (trace step t xs).1 := by
  obtain ⟨s₁, hr, hMid₁⟩ := hrefill s t h
  obtain ⟨s₂, hl, hMid₂⟩ := loop_spec hbody xs hMid₁ (by omega)
  rw [Nat.zero_add, hlen] at hMid₂
  obtain ⟨s₃, hc, hIdle⟩ := hclose s₂ _ hMid₂
  exact ⟨s₃, by simp [UnitOps.wholeByLoop, hr, hl, hc], hIdle⟩

/-- The first phase consumes a part of the text. If it does not end a unit, it consumes
all of it. -/
theorem Refines.head (hM : Refines M n step Idle Mid) (hsize : n < 2 ^ 64) {s : σ} {boff : Nat}
    {t : τ} (xs : List α) (hlt : boff < n) (h : At n Idle Mid s boff t) :
    ∃ s' as rest, xs = as ++ rest ∧
      M.head n s boff xs = some (s', (boff + as.length) % n, (trace step t as).2, rest) ∧
      At n Idle Mid s' ((boff + as.length) % n) (trace step t as).1 ∧
      ((boff + as.length) % n ≠ 0 → rest = []) := by
  by_cases h0 : boff = 0
  · subst h0
    exact ⟨s, [], xs, rfl, by simp [UnitOps.head], by simpa using h, by simp⟩
  · have hMid : Mid s boff t := by
      unfold At at h
      rw [if_neg h0] at h
      exact h.2
    have hsub : subSize n boff = n - boff := subSize_of_le hlt.le hsize
    obtain ⟨b, hb⟩ : ∃ b, b = min (n - boff) xs.length := ⟨_, rfl⟩
    have hlen : (xs.take b).length = b := by simp; omega
    obtain ⟨s₁, hl, hMid₁⟩ := loop_spec hM.body (xs.take b) hMid (by omega)
    rw [hlen] at hMid₁
    by_cases hfull : boff + b = n
    · rw [hfull] at hMid₁
      obtain ⟨s₂, hc, hIdle⟩ := hM.close s₁ _ hMid₁
      refine ⟨s₂, xs.take b, xs.drop b, (List.take_append_drop b xs).symm, ?_, ?_, ?_⟩
      · simp [UnitOps.head, h0, hsub, ← hb, hl, hlen, hfull, hc]
      · rw [hlen, hfull, Nat.mod_self]
        exact At.idle hIdle
      · simp [hlen, hfull]
    · have hmod : (boff + b) % n = boff + b := Nat.mod_eq_of_lt (by omega)
      refine ⟨s₁, xs.take b, xs.drop b, (List.take_append_drop b xs).symm, ?_, ?_, ?_⟩
      · simp [UnitOps.head, h0, hsub, ← hb, hl, hlen, hfull, hmod]
      · rw [hlen, hmod]
        exact At.mid (by omega) (by omega) hMid₁
      · intro _
        exact List.drop_eq_nil_of_le (by omega)

/-- Whole units leave less than a unit. -/
theorem Refines.wholes (hM : Refines M n step Idle Mid) (hn : 0 < n) {s : σ} {t : τ} (k : Nat)
    (xs : List α) (h : Idle s t) (hk : xs.length ≤ k) :
    ∃ s' bs rest, xs = bs ++ rest ∧ M.wholes n k s xs = some (s', (trace step t bs).2, rest) ∧
      Idle s' (trace step t bs).1 ∧ n ∣ bs.length ∧ rest.length < n := by
  induction k generalizing s t xs with
  | zero =>
    have hnil : xs = [] := List.eq_nil_of_length_eq_zero (by omega)
    subst hnil
    exact ⟨s, [], [], rfl, rfl, h, by simp, by simpa using hn⟩
  | succ k ih =>
    by_cases hlt : xs.length < n
    · exact ⟨s, [], xs, rfl, by simp [UnitOps.wholes, hlt], h, by simp, hlt⟩
    · have hlen : (xs.take n).length = n := by simp; omega
      obtain ⟨s₁, hw, hIdle₁⟩ := hM.whole s t (xs.take n) h hlen
      obtain ⟨s₂, bs, rest, hsplit, hrun, hIdle₂, hdvd, hrest⟩ :=
        ih (xs.drop n) hIdle₁ (by simp; omega)
      refine ⟨s₂, xs.take n ++ bs, rest, ?_, ?_, ?_, ?_, hrest⟩
      · rw [List.append_assoc, ← hsplit, List.take_append_drop]
      · simp [UnitOps.wholes, hlt, hw, hrun, trace_append]
      · rw [trace_append]
        exact hIdle₂
      · rw [List.length_append, hlen]
        exact Nat.dvd_add (Nat.dvd_refl n) hdvd

/-- The last phase begins a unit if it is given any text. -/
theorem Refines.tail (hM : Refines M n step Idle Mid) {s : σ} {boff : Nat} {t : τ} (xs : List α)
    (hlt : boff < n) (h : At n Idle Mid s boff t) (h0 : boff ≠ 0 → xs = [])
    (hlen : xs.length < n) :
    ∃ s', M.tail s boff xs = some (s', (boff + xs.length) % n, (trace step t xs).2) ∧
      At n Idle Mid s' ((boff + xs.length) % n) (trace step t xs).1 := by
  cases xs with
  | nil =>
    rw [List.length_nil, Nat.add_zero, Nat.mod_eq_of_lt hlt]
    exact ⟨s, by simp [UnitOps.tail], h⟩
  | cons x xs =>
    have hb : boff = 0 := by
      by_contra hne
      exact absurd (h0 hne) (by simp)
    subst hb
    obtain ⟨s₁, hr, hMid₁⟩ := hM.refill s t (at_zero.mp h)
    obtain ⟨s₂, hl, hMid₂⟩ := loop_spec hM.body (x :: xs) hMid₁ (by omega)
    rw [Nat.zero_add] at hMid₂ ⊢
    rw [Nat.mod_eq_of_lt hlen]
    refine ⟨s₂, ?_, At.mid (by simp) hlen hMid₂⟩
    simp only [UnitOps.tail, List.isEmpty_cons, Bool.false_eq_true, if_false, hr, hl,
      Option.bind_eq_bind, Option.bind_some, pure]

/-- The last two phases, from any offset that is left if they use up the text in whole
units. -/
theorem Refines.wholes_tail (hM : Refines M n step Idle Mid) (hn : 0 < n) {s : σ} {t : τ}
    (boff : Nat) (xs : List α) (h : Idle s t) :
    ∃ s₁ s₂ bs rest, xs = bs ++ rest ∧
      M.wholes n xs.length s xs = some (s₁, (trace step t bs).2, rest) ∧
      M.tail s₁ boff rest = some (s₂, if xs.length % n = 0 then boff else xs.length % n,
        (trace step (trace step t bs).1 rest).2) ∧
      At n Idle Mid s₂ (xs.length % n) (trace step t xs).1 := by
  obtain ⟨s₁, bs, rest, rfl, hwholes, hIdle, ⟨k, hk⟩, hrest⟩ := hM.wholes hn _ xs h le_rfl
  have hmod : (bs ++ rest).length % n = rest.length := by
    rw [List.length_append, hk, Nat.mul_add_mod, Nat.mod_eq_of_lt hrest]
  obtain ⟨s₂, htail, hAt⟩ := hM.tail rest hn (At.idle hIdle) (fun h => absurd rfl h) hrest
  rw [Nat.zero_add, Nat.mod_eq_of_lt hrest] at htail hAt
  rw [hmod, trace_append]
  cases rest with
  | nil =>
    refine ⟨s₁, s₁, bs, [], rfl, hwholes, by simp [UnitOps.tail], ?_⟩
    exact At.idle hIdle
  | cons x xs =>
    refine ⟨s₁, s₂, bs, x :: xs, rfl, hwholes, ?_, hAt⟩
    rw [if_neg (by simp), ← htail]
    rfl

/-- A call is the trace of the element step over its piece, and moves the offset by the
length of the piece, modulo the size of a unit. -/
theorem Refines.call (hM : Refines M n step Idle Mid) (hsize : n < 2 ^ 64) {s : σ} {boff : Nat}
    {t : τ} (xs : List α) (hlt : boff < n) (h : At n Idle Mid s boff t) :
    ∃ s', M.call n s boff xs = some (s', (boff + xs.length) % n, (trace step t xs).2) ∧
      At n Idle Mid s' ((boff + xs.length) % n) (trace step t xs).1 := by
  have hn : 0 < n := by omega
  obtain ⟨s₁, as, xs₁, rfl, hhead, hAt₁, hrest⟩ := hM.head hsize xs hlt h
  -- After the first phase the text is used up, or the next unit can be begun.
  obtain ⟨s₂, bs, ds, rfl, hwholes, hAt₂, hdvd, hds⟩ : ∃ s₂ bs ds, xs₁ = bs ++ ds ∧
      M.wholes n xs₁.length s₁ xs₁ =
        some (s₂, (trace step (trace step t as).1 bs).2, ds) ∧
      At n Idle Mid s₂ ((boff + as.length) % n) (trace step (trace step t as).1 bs).1 ∧
      n ∣ bs.length ∧ ds.length < n := by
    by_cases h1 : (boff + as.length) % n = 0
    · rw [h1] at hAt₁ ⊢
      obtain ⟨s₂, bs, ds, hsplit, hw, hIdle, hdvd, hds⟩ :=
        hM.wholes hn _ xs₁ (at_zero.mp hAt₁) le_rfl
      exact ⟨s₂, bs, ds, hsplit, hw, At.idle hIdle, hdvd, hds⟩
    · obtain rfl := hrest h1
      exact ⟨s₁, [], [], rfl, by simp [UnitOps.wholes], hAt₁, by simp, by simpa using hn⟩
  have h0 : (boff + as.length) % n ≠ 0 → ds = [] := fun hne =>
    (List.append_eq_nil_iff.mp (hrest hne)).2
  obtain ⟨s₃, htail, hAt₃⟩ := hM.tail ds (Nat.mod_lt _ hn) hAt₂ h0 hds
  have hboff : ((boff + as.length) % n + ds.length) % n =
      (boff + (as ++ (bs ++ ds)).length) % n := by
    obtain ⟨k, hk⟩ := hdvd
    rw [List.length_append, List.length_append, hk, Nat.mod_add_mod,
      show boff + (as.length + (n * k + ds.length)) = boff + as.length + ds.length + n * k by omega,
      Nat.add_mul_mod_self_left]
  rw [hboff] at htail hAt₃
  refine ⟨s₃, ?_, ?_⟩
  · simp only [UnitOps.call, hhead, hwholes, htail, Option.bind_eq_bind, Option.bind_some, pure,
      trace_append, List.append_assoc]
  · rw [trace_append, trace_append]
    exact hAt₃

/-! ## The offset as a part of the state -/

/-- The relation between two calls where the state keeps the offset. -/
def AtOffset (n : Nat) (Idle : σ → τ → Prop) (Mid : σ → Nat → τ → Prop) (boff : σ → Nat) (s : σ)
    (t : τ) : Prop :=
  boff s < n ∧ At n Idle Mid s (boff s) t

/-- A call that reads the offset from the state and stores the new one there. -/
theorem Refines.callRefines (hM : Refines M n step Idle Mid) (hsize : n < 2 ^ 64)
    {call : σ → List α → Option (σ × List β)} {boff : σ → Nat} (setBoff : σ → Nat → σ)
    (hcall : ∀ s t xs, AtOffset n Idle Mid boff s t →
      call s xs = (M.call n s (boff s) xs).map fun r => (setBoff r.1 r.2.1, r.2.2))
    (hget : ∀ s b, boff (setBoff s b) = b)
    (hIdle : ∀ s b t, Idle s t → Idle (setBoff s b) t)
    (hMid : ∀ s b i t, Mid s i t → Mid (setBoff s b) i t) :
    CallRefines call step (AtOffset n Idle Mid boff) := by
  intro s t xs hs
  obtain ⟨hlt, hAt⟩ := hs
  obtain ⟨s', hrun, hAt'⟩ := hM.call hsize xs hlt hAt
  refine ⟨setBoff s' ((boff s + xs.length) % n), ?_, ?_, ?_⟩
  · rw [hcall s t xs ⟨hlt, hAt⟩, hrun]
    rfl
  · rw [hget]
    exact Nat.mod_lt _ (by omega)
  · rw [hget]
    exact hAt'.imp (hIdle _ _ _) (hMid _ _ _ _)

end Drew.Stream
