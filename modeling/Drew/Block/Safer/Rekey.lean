import Drew.Block.Recurrence
import Drew.Block.Safer.Schedule

/-!
# SAFER with a second key

The number of rounds is only chosen while it is still 0. After the first key it stays, so a later key of
the other length is used with the rounds of the first one.
-/

namespace Drew.Safer

open Drew.Block

/-- Contexts of a class, made with a number of rounds. -/
def keying (C : Class) (r : Nat) : Keying where
  Context := Safer
  Block := List UInt8
  Fresh c := c.rounds = r
  keysz := [8, 16]
  setkey c key :=
    match setKeyInternal C c key with
    | .done c' => some c'
    | _ => none
  encrypt c b := some (c.encrypt b)
  decrypt c b := some (c.decrypt b)

/-! ## The subkeys -/

/-- Arrays that agree on the first `n` subkeys. -/
def AgreeBelow (n : Nat) (k l : Vector Octet 33) : Prop := ∀ m : Fin 33, m.val < n → k.get m = l.get m

theorem AgreeBelow.set {n : Nat} {k l : Vector Octet 33} (h : AgreeBelow n k l) (o : Octet) :
    AgreeBelow (n + 1) (k.setIfInBounds n o) (l.setIfInBounds n o) := by
  intro m hm
  by_cases hmn : m.val = n
  · subst hmn
    exact (Vector.getElem_setIfInBounds_self m.isLt).trans (Vector.getElem_setIfInBounds_self m.isLt).symm
  · rw [get_setIfInBounds_ne k o hmn, get_setIfInBounds_ne l o hmn]
    exact h m (by omega)

theorem loop8_agree (C : Class) {n i : Nat} {r : List UInt8} {k l k' : Vector Octet 33} (h : AgreeBelow i k l)
    (hk : loop8 C n i r k = some k') : ∃ l', loop8 C n i r l = some l' ∧ AgreeBelow (i + n) k' l' := by
  induction n generalizing i r k l with
  | zero =>
    cases hk
    exact ⟨l, rfl, h⟩
  | succ n ih =>
    rw [loop8] at hk
    obtain ⟨o, ho, hrest⟩ := Option.bind_eq_some_iff.mp hk
    obtain ⟨l', hl', hagree⟩ := ih (h.set o) hrest
    refine ⟨l', ?_, ?_⟩
    · rw [loop8, ho]
      exact hl'
    · rwa [Nat.add_assoc, Nat.add_comm 1] at hagree

theorem loop16_agree (C : Class) {n i : Nat} {r1 r2 : List UInt8} {k l k' : Vector Octet 33}
    (h : AgreeBelow i k l) (hk : loop16 C n i r1 r2 k = some k') :
    ∃ l', loop16 C n i r1 r2 l = some l' ∧ AgreeBelow (i + 2 * n) k' l' := by
  induction n generalizing i r1 r2 k l with
  | zero =>
    cases hk
    exact ⟨l, rfl, h⟩
  | succ n ih =>
    rw [loop16] at hk
    obtain ⟨o1, ho1, hk⟩ := Option.bind_eq_some_iff.mp hk
    obtain ⟨o2, ho2, hrest⟩ := Option.bind_eq_some_iff.mp hk
    obtain ⟨l', hl', hagree⟩ := ih ((h.set o1).set o2) hrest
    refine ⟨l', ?_, ?_⟩
    · rw [loop16, ho1, Option.bind_eq_bind, Option.bind_some, ho2]
      exact hl'
    · rwa [show i + 1 + 1 + 2 * n = i + 2 * (n + 1) by omega] at hagree

/-- The subkeys of the rounds do not depend on what was in the array. -/
theorem fillKeys_agree (C : Class) {rounds : Nat} {key : List UInt8} {k k' : Vector Octet 33}
    (hk : fillKeys C rounds key k = some k') (l : Vector Octet 33) :
    ∃ l', fillKeys C rounds key l = some l' ∧ AgreeBelow (2 * rounds + 1) k' l' := by
  have hnone : AgreeBelow 0 k l := fun m hm => absurd hm (Nat.not_lt_zero _)
  rw [Nat.add_comm, fillKeys]
  rw [fillKeys] at hk
  by_cases h8 : key.length = 8
  · rw [if_pos h8] at hk ⊢
    exact loop8_agree C (hnone.set _) hk
  · rw [if_neg h8] at hk ⊢
    exact loop16_agree C (hnone.set _) hk

/-! ## The rounds -/

section Rounds

variable {c d : Safer} (hrounds : c.rounds = d.rounds)
  (hkeys : ∀ n ≤ 2 * c.rounds, c.key n = d.key n)

include hrounds hkeys

theorem encryptOctet_congr (x : Octet) : c.encryptOctet x = d.encryptOctet x := by
  have hindex := countUp_index (f := c.encryptRound) (d := 2) c.rounds x 0
  have hfold : countUp c.encryptRound 2 c.rounds (x, 0) = countUp d.encryptRound 2 c.rounds (x, 0) := by
    apply countUp_congr
    intro y j hj
    rw [encryptRound, hkeys _ (by omega), hkeys _ (by omega), encryptRound]
  rw [Nat.zero_add] at hindex
  show forwardA (countUp c.encryptRound 2 c.rounds (x, 0)).1 (c.key (countUp c.encryptRound 2 c.rounds (x, 0)).2) =
    forwardA (countUp d.encryptRound 2 d.rounds (x, 0)).1 (d.key (countUp d.encryptRound 2 d.rounds (x, 0)).2)
  rw [← hrounds, ← hfold, hindex, hkeys _ le_rfl]

theorem decryptOctet_congr (x : Octet) : c.decryptOctet x = d.decryptOctet x := by
  have hfold : ∀ y, countDown c.decryptRound 2 c.rounds (y, 2 * c.rounds - 2) =
      countDown d.decryptRound 2 c.rounds (y, 2 * c.rounds - 2) := by
    intro y
    apply countDown_congr
    intro z j hj
    rw [decryptRound, hkeys _ (by omega), hkeys _ (by omega), decryptRound]
  show (countDown c.decryptRound 2 c.rounds (inverseA x (c.key (2 * c.rounds)), 2 * c.rounds - 2)).1 =
    (countDown d.decryptRound 2 d.rounds (inverseA x (d.key (2 * d.rounds)), 2 * d.rounds - 2)).1
  rw [← hrounds, hkeys _ le_rfl, hfold]

end Rounds

/-! ## The number of rounds -/

variable {C : Class} {r : Nat}

theorem roundsFor_of_ne {rounds : Nat} (h : rounds ≠ 0) (len : Nat) : roundsFor rounds len = rounds := if_neg h

theorem roundsFor_ne_zero (rounds len : Nat) : roundsFor rounds len ≠ 0 := by
  unfold roundsFor
  split
  · split
    · decide
    · decide
  · assumption

/-- What a successful call has made of the members. -/
theorem setkey_cases {c c' : Safer} {key : List UInt8} (h : (keying C r).setkey c key = some c') :
    (key.length = 8 ∨ key.length = 16) ∧ c'.rounds = roundsFor c.rounds key.length ∧ c'.rounds ≤ maxRounds ∧
      fillKeys C c'.rounds key c.k = some c'.k := by
  have hset : setKeyInternal C c key = .done c' := by
    change (match setKeyInternal C c key with
      | .done c' => some c'
      | _ => none) = some c' at h
    split at h
    · rename_i d hd
      rw [hd, Option.some.inj h]
    · cases h
  unfold setKeyInternal at hset
  split at hset
  · rename_i hlen
    simp only at hset
    split at hset
    · cases hset
    · rename_i hmax
      split at hset
      · cases hset
      · rename_i k hfill
        cases hset
        exact ⟨hlen, rfl, Nat.le_of_not_lt hmax, hfill⟩
  · cases hset

theorem setkey_of_fill {c : Safer} {key : List UInt8} {k : Vector Octet 33} (hlen : key.length = 8 ∨ key.length = 16)
    (hmax : roundsFor c.rounds key.length ≤ maxRounds)
    (hfill : fillKeys C (roundsFor c.rounds key.length) key c.k = some k) :
    (keying C r).setkey c key = some ⟨k, roundsFor c.rounds key.length⟩ := by
  have hset := setKeyInternal_some hlen hmax hfill
  show (match setKeyInternal C c key with
    | .done c' => some c'
    | _ => none) = _
  rw [hset]
  rfl

/-- A key makes contexts alike for which it chooses the same number of rounds. -/
theorem setkey_alike {c c' d : Safer} {key : List UInt8} (h : (keying C r).setkey c key = some c')
    (hrounds : roundsFor c.rounds key.length = roundsFor d.rounds key.length) :
    ∃ d', (keying C r).setkey d key = some d' ∧ (keying C r).Alike c' d' := by
  obtain ⟨hlen, hc', hmax, hfill⟩ := setkey_cases h
  obtain ⟨l, hl, hagree⟩ := fillKeys_agree C hfill d.k
  rw [hrounds] at hc'
  refine ⟨⟨l, roundsFor d.rounds key.length⟩, setkey_of_fill hlen (hc' ▸ hmax) (hc' ▸ hl), ?_⟩
  have hkeys : ∀ n ≤ 2 * c'.rounds, c'.key n = Safer.key ⟨l, roundsFor d.rounds key.length⟩ n := by
    intro n hn
    have hval : (Fin.ofNat 33 n).val ≤ n := Nat.mod_le _ _
    exact hagree _ (by omega)
  intro b
  constructor
  · exact congrArg (fun g => some (onBlock g b)) (funext (encryptOctet_congr hc' hkeys))
  · exact congrArg (fun g => some (onBlock g b)) (funext (decryptOctet_congr hc' hkeys))

/-- A number of rounds that is not 0 stays. -/
theorem run_rounds {c c' : Safer} {keys : List (List UInt8)} (hrun : (keying C r).run c keys = some c')
    (hc : c.rounds ≠ 0) : c'.rounds = c.rounds := by
  apply Keying.run_invariant (P := fun d : Safer => d.rounds = c.rounds) _ hrun rfl
  intro d key d' hd hset
  obtain ⟨-, hd', -, -⟩ := setkey_cases hset
  rw [hd', hd, roundsFor_of_ne hc]

/-- The last key counts if the number of rounds was given, or the first key had the same length. -/
theorem forgets {keys : List (List UInt8)} {key : List UInt8}
    (h : r ≠ 0 ∨ ∀ first ∈ keys.head?, first.length = key.length) : (keying C r).Forgets keys key := by
  intro c d c₁ c₂ hc hd hrun hset
  change c.rounds = r at hc
  change d.rounds = r at hd
  apply setkey_alike hset
  cases keys with
  | nil =>
    cases hrun
    rw [hc, hd]
  | cons first keys =>
    obtain ⟨c₀, hfirst, hrest⟩ := Keying.run_cons hrun
    obtain ⟨-, hc₀, -, -⟩ := setkey_cases hfirst
    have hc₁ : c₁.rounds = c₀.rounds := run_rounds hrest (by rw [hc₀]; exact roundsFor_ne_zero _ _)
    rw [hc₁, hc₀, roundsFor_of_ne (roundsFor_ne_zero _ _), hc, hd]
    rcases h with hr | hlen
    · rw [roundsFor_of_ne hr, roundsFor_of_ne hr]
    · rw [hlen first rfl]

end Drew.Safer
