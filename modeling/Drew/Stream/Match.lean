import Drew.Stream.Units

/-!
# Programs that match

Two programs match if both are undefined, or if they give the same value and leave related states. There is a
rule for each way in which the routines of the modes are put together, so a call of a buffering routine matches
the same call in a related state if its operations do.

A relation that only holds between a state and itself says what a routine preserves.
-/

namespace Drew.Stream

universe u

variable {σ τ α β γ : Type u} {R : σ → σ → Prop}

/-- Related results, or none on either side. -/
theorem rel_bind {Q : σ → τ → Prop} {S : α → β → Prop} {x : Option σ} {y : Option τ} {f : σ → Option α}
    {g : τ → Option β} (h : Option.Rel Q x y)
    (hf : ∀ a b, x = some a → y = some b → Q a b → Option.Rel S (f a) (g b)) :
    Option.Rel S (x.bind f) (y.bind g) := by
  cases h with
  | none => exact .none
  | some hab => exact hf _ _ rfl rfl hab

/-- Two programs give the same value and leave related states, or are both undefined. -/
def Matches (R : σ → σ → Prop) (x y : Option (σ × β)) : Prop :=
  Option.Rel (fun p q => R p.1 q.1 ∧ p.2 = q.2) x y

theorem Matches.some {s t : σ} (h : R s t) (b : β) : Matches R (some (s, b)) (some (t, b)) :=
  Option.Rel.some ⟨h, rfl⟩

theorem Matches.none : Matches R (none : Option (σ × β)) none := Option.Rel.none

theorem Matches.bind {S : τ → τ → Prop} {x y : Option (σ × β)} {f g : σ × β → Option (τ × γ)}
    (h : Matches R x y)
    (hf : ∀ s t b, x = Option.some (s, b) → R s t → Matches S (f (s, b)) (g (t, b))) :
    Matches S (x.bind f) (y.bind g) := by
  refine rel_bind h ?_
  rintro ⟨s, b⟩ ⟨t, b'⟩ hx - ⟨hR, hb⟩
  cases hb
  exact hf s t b hx hR

/-- What a program preserves. -/
def Preserves (I : σ → Prop) (x : Option (σ × β)) : Prop := ∀ s b, x = Option.some (s, b) → I s

theorem preserves_iff {I : σ → Prop} {x : Option (σ × β)} :
    Preserves I x ↔ Matches (fun s t => s = t ∧ I s) x x := by
  constructor
  · intro h
    cases x with
    | none => exact Matches.none
    | some p => exact Matches.some ⟨rfl, h p.1 p.2 rfl⟩ p.2
  · intro h s b hx
    subst hx
    cases h with
    | some h => exact h.1.2

theorem loop_matches {body : Nat → σ → α → Option (σ × β)} {i : Nat} {xs : List α}
    (hbody : ∀ j, i ≤ j → j < i + xs.length → ∀ s t x, R s t → Matches R (body j s x) (body j t x))
    {s t : σ} (h : R s t) : Matches R (loop body i s xs) (loop body i t xs) := by
  induction xs generalizing i s t with
  | nil => exact Matches.some h []
  | cons x xs ih =>
    rw [List.length_cons] at hbody
    refine (hbody i (le_refl i) (by omega) s t x h).bind fun s₁ t₁ y _ h₁ => ?_
    have hrest := ih (i := i + 1) (fun j hj hjlt => hbody j (by omega) (by omega)) h₁
    exact hrest.bind fun s₂ t₂ ys _ h₂ => Matches.some h₂ (y :: ys)

theorem loop_preserves {I : σ → Prop} {body : Nat → σ → α → Option (σ × β)}
    (hbody : ∀ i s x, I s → Preserves I (body i s x)) (i : Nat) (xs : List α) {s : σ} (h : I s) :
    Preserves I (loop body i s xs) := by
  rw [preserves_iff]
  refine loop_matches (fun j _ _ s t x hst => ?_) ⟨rfl, h⟩
  obtain ⟨rfl, hs⟩ := hst
  exact preserves_iff.mp (hbody j s x hs)

/-! ## Buffering routines -/

section Units

variable {M : UnitOps σ α β} {n : Nat} {P : Nat → Prop} {s t : σ}

/-- The operations match, those on an element where the index has the property `P`. -/
structure UnitOps.Alike (M : UnitOps σ α β) (n : Nat) (R : σ → σ → Prop) (P : Nat → Prop) : Prop where
  refill : ∀ s t, R s t → Option.Rel R (M.refill s) (M.refill t)
  body : ∀ i s t x, P i → R s t → Matches R (M.body i s x) (M.body i t x)
  close : ∀ s t, R s t → Option.Rel R (M.close s) (M.close t)
  whole : ∀ s t xs, R s t → xs.length = n → Matches R (M.whole s xs) (M.whole t xs)
  inside : ∀ i < n, P i

theorem UnitOps.Alike.head (hM : M.Alike n R P) {boff : Nat} {xs : List α}
    (hP : ∀ j, boff ≤ j → j < boff + min (subSize n boff) xs.length → P j) (h : R s t) :
    Matches R (M.head n s boff xs) (M.head n t boff xs) := by
  unfold UnitOps.head
  split
  case isTrue => exact Matches.some h _
  case isFalse =>
    have hloop : Matches R (loop M.body boff s (xs.take (min (subSize n boff) xs.length)))
        (loop M.body boff t (xs.take (min (subSize n boff) xs.length))) := by
      refine loop_matches (fun j hj hjlt s t x hR => hM.body j s t x (hP j hj ?_) hR) h
      rw [List.length_take] at hjlt
      omega
    refine hloop.bind fun s₁ t₁ ys _ h₁ => ?_
    dsimp only
    split
    case isTrue => exact rel_bind (hM.close s₁ t₁ h₁) fun s₂ t₂ _ _ h₂ => Matches.some h₂ _
    case isFalse => exact Matches.some h₁ _

theorem UnitOps.Alike.wholes (hM : M.Alike n R P) (k : Nat) (xs : List α) (h : R s t) :
    Matches R (M.wholes n k s xs) (M.wholes n k t xs) := by
  induction k generalizing s t xs with
  | zero => exact Matches.some h _
  | succ k ih =>
    unfold UnitOps.wholes
    split
    case isTrue => exact Matches.some h _
    case isFalse hlen =>
      have hunit : (xs.take n).length = n := by
        rw [List.length_take]
        omega
      refine (hM.whole s t _ h hunit).bind fun s₁ t₁ ys _ h₁ => ?_
      exact (ih _ h₁).bind fun s₂ t₂ r _ h₂ => Matches.some h₂ _

/-- Less than a unit is left. -/
theorem wholes_rest {k : Nat} {s s' : σ} {xs : List α} {r : List β × List α} (hn : 0 < n)
    (hk : xs.length ≤ k) (h : M.wholes n k s xs = some (s', r)) : r.2.length < n := by
  induction k generalizing s xs r with
  | zero =>
    cases h
    exact lt_of_le_of_lt hk hn
  | succ k ih =>
    unfold UnitOps.wholes at h
    split at h
    case isTrue hlen =>
      cases h
      exact hlen
    case isFalse hlen =>
      rw [Option.bind_eq_bind, Option.bind_eq_some_iff] at h
      obtain ⟨⟨s₁, ys⟩, -, h⟩ := h
      rw [Option.bind_eq_bind, Option.bind_eq_some_iff] at h
      obtain ⟨⟨s₂, r'⟩, hrest, h⟩ := h
      cases h
      exact ih (r := r') (by rw [List.length_drop]; omega) hrest

theorem UnitOps.Alike.tail (hM : M.Alike n R P) (boff : Nat) {xs : List α} (hlen : xs.length ≤ n) (h : R s t) :
    Matches R (M.tail s boff xs) (M.tail t boff xs) := by
  unfold UnitOps.tail
  split
  case isTrue => exact Matches.some h _
  case isFalse =>
    refine rel_bind (hM.refill s t h) fun s₁ t₁ _ _ h₁ => ?_
    have hloop : Matches R (loop M.body 0 s₁ xs) (loop M.body 0 t₁ xs) :=
      loop_matches (fun j _ hj s t x hR => hM.body j s t x (hM.inside j (by omega)) hR) h₁
    exact hloop.bind fun s₂ t₂ ys _ h₂ => Matches.some h₂ _

theorem UnitOps.Alike.call (hM : M.Alike n R P) (hn : 0 < n) {boff : Nat} {xs : List α}
    (hP : ∀ j, boff ≤ j → j < boff + min (subSize n boff) xs.length → P j) (h : R s t) :
    Matches R (M.call n s boff xs) (M.call n t boff xs) := by
  unfold UnitOps.call
  refine (hM.head hP h).bind fun s₁ t₁ r₁ _ h₁ => ?_
  refine (hM.wholes r₁.2.2.length r₁.2.2 h₁).bind fun s₂ t₂ r₂ hr₂ h₂ => ?_
  have hlen := wholes_rest hn (le_refl _) hr₂
  exact (hM.tail r₁.1 hlen.le h₂).bind fun s₃ t₃ r₃ _ h₃ => Matches.some h₃ _

/-- Operations that preserve a property. -/
theorem alike_of_preserves {I : σ → Prop} (hrefill : ∀ s s', I s → M.refill s = some s' → I s')
    (hbody : ∀ i s x, I s → Preserves I (M.body i s x)) (hclose : ∀ s s', I s → M.close s = some s' → I s')
    (hwhole : ∀ s xs, I s → Preserves I (M.whole s xs)) :
    M.Alike n (fun s t => s = t ∧ I s) fun _ => True := by
  have hrel : ∀ x : Option σ, (∀ s', x = some s' → I s') → Option.Rel (fun s t => s = t ∧ I s) x x := by
    intro x hx
    cases x with
    | none => exact .none
    | some s => exact .some ⟨rfl, hx s rfl⟩
  refine ⟨?_, ?_, ?_, ?_, fun _ _ => trivial⟩
  · rintro s _ ⟨rfl, hs⟩
    exact hrel _ fun s' => hrefill s s' hs
  · rintro i s _ x - ⟨rfl, hs⟩
    exact preserves_iff.mp (hbody i s x hs)
  · rintro s _ ⟨rfl, hs⟩
    exact hrel _ fun s' => hclose s s' hs
  · rintro s _ xs ⟨rfl, hs⟩ -
    exact preserves_iff.mp (hwhole s xs hs)

/-- What the operations preserve, a call preserves. -/
theorem UnitOps.Alike.call_preserves {I : σ → Prop} (hM : M.Alike n (fun s t => s = t ∧ I s) fun _ => True)
    (hn : 0 < n) (boff : Nat) (xs : List α) (h : I s) : Preserves I (M.call n s boff xs) :=
  preserves_iff.mpr (hM.call hn (fun _ _ _ => trivial) ⟨rfl, h⟩)

/-- The offset after a call has each property of the offsets in a unit that the first phase keeps. -/
theorem call_offset {Q : Nat → Prop} (hn : 0 < n) (hQ : ∀ i < n, Q i) {boff boff' : Nat} {xs : List α} {s' : σ}
    {ys : List β} (hsum : boff + min (subSize n boff) xs.length ≠ n →
      (loop M.body boff s (xs.take (min (subSize n boff) xs.length))).isSome →
        Q (boff + min (subSize n boff) xs.length))
    (h : M.call n s boff xs = some (s', boff', ys)) : Q boff' := by
  unfold UnitOps.call at h
  rw [Option.bind_eq_bind, Option.bind_eq_some_iff] at h
  obtain ⟨⟨s₁, boff₁, ys₁, rest⟩, hhead, h⟩ := h
  rw [Option.bind_eq_bind, Option.bind_eq_some_iff] at h
  obtain ⟨⟨s₂, ys₂, rest'⟩, hwholes, h⟩ := h
  rw [Option.bind_eq_bind, Option.bind_eq_some_iff] at h
  obtain ⟨⟨s₃, boff₃, ys₃⟩, htail, h⟩ := h
  cases h
  have hfirst : Q boff₁ := by
    unfold UnitOps.head at hhead
    split at hhead
    case isTrue =>
      cases hhead
      exact hQ 0 hn
    case isFalse =>
      rw [Option.bind_eq_bind, Option.bind_eq_some_iff] at hhead
      obtain ⟨⟨s₄, ys₄⟩, hloop, hhead⟩ := hhead
      dsimp only at hhead
      split at hhead
      case isTrue =>
        rw [Option.bind_eq_bind, Option.bind_eq_some_iff] at hhead
        obtain ⟨s₅, -, hhead⟩ := hhead
        cases hhead
        exact hQ 0 hn
      case isFalse hne =>
        cases hhead
        exact hsum hne (by rw [hloop]; rfl)
  have hrest : rest'.length < n := wholes_rest hn (le_refl _) hwholes
  unfold UnitOps.tail at htail
  split at htail
  case isTrue =>
    cases htail
    exact hfirst
  case isFalse =>
    rw [Option.bind_eq_bind, Option.bind_eq_some_iff] at htail
    obtain ⟨s₄, -, htail⟩ := htail
    rw [Option.bind_eq_bind, Option.bind_eq_some_iff] at htail
    obtain ⟨⟨s₅, ys₅⟩, -, htail⟩ := htail
    cases htail
    exact hQ _ hrest

end Units

end Drew.Stream
