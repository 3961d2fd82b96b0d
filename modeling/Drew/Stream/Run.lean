import Mathlib.Tactic

/-!
# Runs of stateful, possibly undefined steps

A step reads one input and a state, and either is undefined (`none`) or gives one
output and the next state. `run` feeds a list of inputs to a step, left to right.
A step whose inputs are themselves lists is a *call*: a function that is handed one
piece of a longer text. `run_calls` relates a sequence of calls to one run over the
whole text, so that a property proved of the run holds for every way of cutting the
text into calls.

A step that is never undefined and needs no memory other than an abstract state is a
*trace* (`trace`); it is what a run is compared with.
-/

namespace Drew.Stream

universe u

variable {σ τ α β : Type u}

/-! ## Runs -/

/-- Feed a list of inputs to a step, and collect the outputs. -/
def run (step : σ → α → Option (σ × β)) : σ → List α → Option (σ × List β)
  | s, [] => some (s, [])
  | s, x :: xs => do
      let (s, y) ← step s x
      let (s, ys) ← run step s xs
      return (s, y :: ys)

@[simp] theorem run_nil (step : σ → α → Option (σ × β)) (s : σ) :
    run step s [] = some (s, []) := rfl

theorem run_cons_some {step : σ → α → Option (σ × β)} {s s' : σ} {x : α} {y : β} (xs : List α)
    (h : step s x = some (s', y)) :
    run step s (x :: xs) = (run step s' xs).map (fun r => (r.1, y :: r.2)) := by
  simp only [run, h, Option.bind_eq_bind, Option.bind_some, pure]
  cases run step s' xs <;> rfl

theorem run_cons_none {step : σ → α → Option (σ × β)} {s : σ} {x : α} (xs : List α)
    (h : step s x = none) : run step s (x :: xs) = none := by
  simp [run, h]

theorem run_append (step : σ → α → Option (σ × β)) (s : σ) (xs ys : List α) :
    run step s (xs ++ ys) =
      (run step s xs).bind (fun r => (run step r.1 ys).map (fun q => (q.1, r.2 ++ q.2))) := by
  induction xs generalizing s with
  | nil => cases h : run step s ys <;> simp [h]
  | cons x xs ih =>
    cases hx : step s x with
    | none => simp [run_cons_none _ hx]
    | some p =>
      obtain ⟨s', y⟩ := p
      rw [List.cons_append, run_cons_some _ hx, run_cons_some _ hx, ih]
      cases run step s' xs with
      | none => rfl
      | some q => cases h : run step q.1 ys <;> simp [h]

theorem run_length {step : σ → α → Option (σ × β)} {s s' : σ} {xs : List α} {ys : List β}
    (h : run step s xs = some (s', ys)) : ys.length = xs.length := by
  induction xs generalizing s ys with
  | nil =>
    cases h
    rfl
  | cons x xs ih =>
    cases hx : step s x with
    | none => simp [run_cons_none _ hx] at h
    | some p =>
      rw [run_cons_some _ hx, Option.map_eq_some_iff] at h
      obtain ⟨r, hr, he⟩ := h
      cases he
      simp [ih hr]

/-- What one step preserves, a run preserves. -/
theorem run_invariant {step : σ → α → Option (σ × β)} {I : σ → Prop}
    (hstep : ∀ s x s' y, I s → step s x = some (s', y) → I s') {s s' : σ} {xs : List α}
    {ys : List β} (hI : I s) (h : run step s xs = some (s', ys)) : I s' := by
  induction xs generalizing s ys with
  | nil =>
    cases h
    exact hI
  | cons x xs ih =>
    cases hx : step s x with
    | none => simp [run_cons_none _ hx] at h
    | some p =>
      rw [run_cons_some _ hx, Option.map_eq_some_iff] at h
      obtain ⟨r, hr, he⟩ := h
      cases he
      exact ih (hstep s x _ _ hI hx) hr

/-- Two runs of one input list, from related states, whose steps keep the states related
and give the same outputs (or are both undefined). -/
theorem run_bisim {step : σ → α → Option (σ × β)} {step' : τ → α → Option (τ × β)}
    {R : σ → τ → Prop}
    (hstep : ∀ s t x, R s t → Option.Rel (fun p q => R p.1 q.1 ∧ p.2 = q.2) (step s x) (step' t x))
    {s : σ} {t : τ} (hR : R s t) (xs : List α) :
    Option.Rel (fun p q => R p.1 q.1 ∧ p.2 = q.2) (run step s xs) (run step' t xs) := by
  induction xs generalizing s t with
  | nil => exact .some ⟨hR, rfl⟩
  | cons x xs ih =>
    have hx := hstep s t x hR
    cases hs : step s x with
    | none =>
      cases ht : step' t x with
      | none =>
        rw [run_cons_none _ hs, run_cons_none _ ht]
        exact .none
      | some q => rw [hs, ht] at hx; cases hx
    | some p =>
      cases ht : step' t x with
      | none => rw [hs, ht] at hx; cases hx
      | some q =>
        obtain ⟨s', y⟩ := p
        obtain ⟨t', y'⟩ := q
        rw [hs, ht] at hx
        cases hx with
        | some hpq =>
          obtain ⟨hR', hy⟩ := hpq
          have hy : y = y' := hy
          subst hy
          rw [run_cons_some _ hs, run_cons_some _ ht]
          have hrest := ih hR'
          cases hs' : run step s' xs with
          | none =>
            cases ht' : run step' t' xs with
            | none => exact .none
            | some q => rw [hs', ht'] at hrest; cases hrest
          | some p =>
            cases ht' : run step' t' xs with
            | none => rw [hs', ht'] at hrest; cases hrest
            | some q =>
              rw [hs', ht'] at hrest
              cases hrest with
              | some hpq => exact .some ⟨hpq.1, by simp [hpq.2]⟩

/-! ## Traces of total steps -/

/-- Feed a list of inputs to a step that is always defined. -/
def trace (step : τ → α → τ × β) : τ → List α → τ × List β
  | t, [] => (t, [])
  | t, x :: xs =>
      let r := trace step (step t x).1 xs
      (r.1, (step t x).2 :: r.2)

@[simp] theorem trace_nil (step : τ → α → τ × β) (t : τ) : trace step t [] = (t, []) := rfl

@[simp] theorem trace_cons (step : τ → α → τ × β) (t : τ) (x : α) (xs : List α) :
    trace step t (x :: xs) =
      ((trace step (step t x).1 xs).1, (step t x).2 :: (trace step (step t x).1 xs).2) := rfl

theorem trace_append (step : τ → α → τ × β) (t : τ) (xs ys : List α) :
    trace step t (xs ++ ys) =
      ((trace step (trace step t xs).1 ys).1,
        (trace step t xs).2 ++ (trace step (trace step t xs).1 ys).2) := by
  induction xs generalizing t with
  | nil => rfl
  | cons x xs ih => simp [ih]

@[simp] theorem trace_length (step : τ → α → τ × β) (t : τ) (xs : List α) :
    (trace step t xs).2.length = xs.length := by
  induction xs generalizing t with
  | nil => rfl
  | cons x xs ih => simp [ih]

/-! ## Calls on pieces of a text -/

/-- A call refines a total step when, from related states, it is defined, gives the
outputs of the trace over its piece, and leaves related states. -/
def CallRefines (call : σ → List α → Option (σ × List β)) (step : τ → α → τ × β)
    (R : σ → τ → Prop) : Prop :=
  ∀ s t xs, R s t →
    ∃ s', call s xs = some (s', (trace step t xs).2) ∧ R s' (trace step t xs).1

/-- However a text is cut into calls, the calls give the outputs of the trace over the
whole text. -/
theorem run_calls {call : σ → List α → Option (σ × List β)} {step : τ → α → τ × β}
    {R : σ → τ → Prop} (hcall : CallRefines call step R) {s : σ} {t : τ} (hR : R s t)
    (xss : List (List α)) :
    ∃ s' yss, run call s xss = some (s', yss) ∧ yss.flatten = (trace step t xss.flatten).2 ∧
      R s' (trace step t xss.flatten).1 := by
  induction xss generalizing s t with
  | nil => exact ⟨s, [], rfl, rfl, hR⟩
  | cons xs xss ih =>
    obtain ⟨s₁, hcall₁, hR₁⟩ := hcall s t xs hR
    obtain ⟨s₂, yss, hrun, hflat, hR₂⟩ := ih hR₁
    refine ⟨s₂, (trace step t xs).2 :: yss, ?_, ?_, ?_⟩
    · rw [run_cons_some _ hcall₁, hrun]
      rfl
    · rw [List.flatten_cons, hflat, List.flatten_cons, trace_append]
    · rw [List.flatten_cons, trace_append]
      exact hR₂

/-- Every state between two calls is related to the trace of what was consumed so far. -/
theorem run_calls_take {call : σ → List α → Option (σ × List β)} {step : τ → α → τ × β}
    {R : σ → τ → Prop} (hcall : CallRefines call step R) {s : σ} {t : τ} (hR : R s t)
    (xss : List (List α)) (n : Nat) :
    ∃ s' yss, run call s (xss.take n) = some (s', yss) ∧
      R s' (trace step t (xss.take n).flatten).1 := by
  obtain ⟨s', yss, hrun, -, hR'⟩ := run_calls hcall hR (xss.take n)
  exact ⟨s', yss, hrun, hR'⟩

end Drew.Stream
