import Mathlib.Tactic
import Drew.Prng.Arc4.Objects

/-!
# Clones of ARC4Stir and ARC4Interleave

The copy constructors are those of the compiler, which copy the pointers to the keystream generators, and the
destructors delete what they point at. So a context and its clone share the keystream generators.

The runs after a clone are of operations on both contexts, in any order. As long as each operation that
touches the keystream finds that the other context has not done so, everything is as if there were no other
context.
-/

namespace Drew.Prng.Arc4

open Drew.Memory

/-! ## Runs on a context and its clone -/

/-- The context that is cloned and the clone. -/
inductive Side
  | old
  | new
  deriving DecidableEq

def Side.other : Side → Side
  | .old => .new
  | .new => .old

/-- What a caller does with a context. What the system gives to `Stir` meanwhile is part of the operation. -/
inductive Op
  | bytes (len : Nat) (env : Nat → Device)
  | seed (key : List UInt8) (entropy : UInt64)
  | fini

/-- The heap and the two objects, as far as they are not finalised. -/
structure Pair where
  heap : Heap
  obj : Side → Option Generator

/-- `a4s_clone`. -/
def a4s_clone (heap : Heap) (g : Generator) : Pair := ⟨heap, fun _ => some g⟩

variable (v : Kind)

/-- `a4s_bytes`, `a4s_seed` and `a4s_fini`: the heap, the object and the output. -/
def act (s : Heap × Generator) : Op → Option (Heap × Option Generator × List UInt8)
  | .bytes len env => do
      let (out, heap, g) ← v.getBytes len env s
      return (heap, some g, out)
  | .seed key entropy => do
      let (_, heap, g) ← v.addRandomData key entropy s
      return (heap, some g, [])
  | .fini => do
      let heap ← destruct s.1 s.2
      return (heap, none, [])

def step (s : Pair) (side : Side) (op : Op) : Option (Pair × List UInt8) := do
  let g ← s.obj side
  let (heap, g, out) ← act v (s.heap, g) op
  return (⟨heap, Function.update s.obj side g⟩, out)

/-- The operations one after the other, with the outputs of each context. -/
def run (s : Pair) (ops : List (Side × Op)) : Option (Pair × List (Side × List UInt8)) :=
  ops.foldlM (fun r op => do
    let (s, out) ← step v r.1 op.1 op.2
    return (s, r.2 ++ [(op.1, out)])) (s, [])

/-- What is on one side. -/
def only {α : Type} (side : Side) (l : List (Side × α)) : List (Side × α) :=
  l.filter fun x => x.1 = side

/-- States of a context that was initialised and used. The keystream generators are new. -/
inductive Reach (v : Kind) : Heap × Generator → Prop
  | init {heap : Heap} {ks : List Nat} (entropy : UInt64) :
      ks.length = v.count → ks.Nodup → Reach v (v.construct heap ks entropy)
  | bytes {s s' : Heap × Generator} {len : Nat} {env : Nat → Device} {out : List UInt8} :
      Reach v s → v.getBytes len env s = some (out, s') → Reach v s'
  | seed {s s' : Heap × Generator} {key : List UInt8} {entropy : UInt64} {u : PUnit} :
      Reach v s → v.addRandomData key entropy s = some (u, s') → Reach v s'

/-! ## The condition -/

/-- The operation does nothing: no bytes are asked for. -/
def Op.Idle : Op → Prop
  | .bytes len _ => len = 0
  | .seed _ _ => False
  | .fini => False

/-- Nothing was done with a context. -/
def Untouched (side : Side) (past : List (Side × Op)) : Prop := ∀ o ∈ past, o.1 = side → o.2.Idle

/-- Each call is on a context that is not finalised, and if it does anything, the other context was not touched
before, or for `fini`, not finalised. -/
inductive Apart : List (Side × Op) → Prop
  | nil : Apart []
  | call {past : List (Side × Op)} {side : Side} {op : Op} :
      Apart past → (side, Op.fini) ∉ past →
        op.Idle ∨ Untouched side.other past ∨ op = .fini ∧ (side.other, Op.fini) ∉ past →
        Apart (past ++ [(side, op)])

/-! ## Functions of one object -/

section Object

variable {v : Kind} {ks : List Nat}

theorem destruct_eq {heap : Heap} (hnd : ks.Nodup) (h : ∀ p ∈ ks, heap p ≠ none) :
    ∃ heap', ks.foldlM (fun h p => (h p).map fun _ => Function.update h p none) heap = some heap' := by
  induction ks generalizing heap with
  | nil => exact ⟨heap, rfl⟩
  | cons p ks ih =>
      rcases List.nodup_cons.mp hnd with ⟨hp, hnd⟩
      rcases Option.ne_none_iff_exists'.mp (h p List.mem_cons_self) with ⟨k, hk⟩
      have hrest : ∀ q ∈ ks, Function.update heap p none q ≠ none := by
        intro q hq
        have hqp : q ≠ p := fun hqp => hp (hqp ▸ hq)
        rw [Function.update_of_ne hqp]
        exact h q (List.mem_cons_of_mem _ hq)
      rcases ih hnd hrest with ⟨heap', hrun⟩
      refine ⟨heap', ?_⟩
      rw [List.foldlM_cons, hk]
      exact hrun

theorem act_idle {op : Op} (h : op.Idle) (s : Heap × Generator) :
    act v s op = some (s.1, some s.2, []) := by
  cases op with
  | bytes len env =>
      rw [show len = 0 from h]
      rfl
  | seed key entropy => exact h.elim
  | fini => exact h.elim

theorem act_fini {s : Heap × Generator} {heap : Heap} {g : Option Generator} {out : List UInt8}
    (h : act v s .fini = some (heap, g, out)) : g = none ∧ out = [] := by
  rcases Option.bind_eq_some_iff.mp h with ⟨heap', -, hpure⟩
  cases hpure
  exact ⟨rfl, rfl⟩

/-- An operation is defined as long as nothing was released, and only `fini` releases anything. -/
theorem act_of_alive (hks : ks.length = v.count) (hnd : ks.Nodup) {s : Heap × Generator}
    (hs : Alive ks s) (op : Op) :
    ∃ heap g out, act v s op = some (heap, g, out) ∧
      (op = .fini ∨ ∃ g', g = some g' ∧ Alive ks (heap, g')) := by
  cases op with
  | bytes len env =>
      rcases getBytes_keeps hks len env s hs with ⟨out, s', hrun, hs'⟩
      refine ⟨s'.1, some s'.2, out, ?_, Or.inr ⟨s'.2, rfl, hs'⟩⟩
      simp only [act, hrun, Option.bind_eq_bind, Option.bind_some]
      rfl
  | seed key entropy =>
      rcases addRandomData_keeps hks key entropy s hs with ⟨u, s', hrun, hs'⟩
      refine ⟨s'.1, some s'.2, [], ?_, Or.inr ⟨s'.2, rfl, hs'⟩⟩
      simp only [act, hrun, Option.bind_eq_bind, Option.bind_some]
      rfl
  | fini =>
      rcases hs with ⟨rfl, hheap⟩
      rcases destruct_eq hnd hheap with ⟨heap', hrun⟩
      refine ⟨heap', none, [], ?_, Or.inl rfl⟩
      rw [act, destruct, hrun]
      rfl

end Object

/-! ## Runs -/

section Runs

variable {v : Kind} {ks : List Nat} {s : Pair}

theorem run_snoc (past : List (Side × Op)) (side : Side) (op : Op) :
    run v s (past ++ [(side, op)]) = (run v s past).bind fun r =>
      (step v r.1 side op).map fun q => (q.1, r.2 ++ [(side, q.2)]) := by
  rw [run, List.foldlM_append]
  congr 1
  funext r
  cases h : step v r.1 side op with
  | none => simp [List.foldlM_cons, h]
  | some q => simp [List.foldlM_cons, h]

/-- A step on an object that is there. -/
theorem step_of_obj {side : Side} {g : Generator} (hg : s.obj side = some g) {op : Op} {heap : Heap}
    {g' : Option Generator} {out : List UInt8} (hact : act v (s.heap, g) op = some (heap, g', out)) :
    step v s side op = some (⟨heap, Function.update s.obj side g'⟩, out) := by
  simp only [step, hg, hact, Option.bind_eq_bind, Option.bind_some]
  rfl

theorem Side.other_ne (side : Side) : side.other ≠ side := by
  cases side <;> exact fun h => Side.noConfusion h

theorem Side.eq_or_other (side a : Side) : a = side ∨ a = side.other := by
  cases side <;> cases a <;> simp [Side.other]

theorem only_snoc_self {α : Type} (side : Side) (l : List (Side × α)) (x : α) :
    only side (l ++ [(side, x)]) = only side l ++ [(side, x)] := by
  simp [only]

theorem only_snoc_other {α : Type} {side a : Side} (h : a ≠ side) (l : List (Side × α)) (x : α) :
    only side (l ++ [(a, x)]) = only side l := by
  simp [only, h]

/-- Calls that meet nothing that was released: each is on a context that is not finalised, and if it does
anything, neither is the other context. -/
inductive Orderly : List (Side × Op) → Prop
  | nil : Orderly []
  | call {past : List (Side × Op)} {side : Side} {op : Op} :
      Orderly past → (side, Op.fini) ∉ past → op.Idle ∨ (side.other, Op.fini) ∉ past →
        Orderly (past ++ [(side, op)])

theorem Untouched.not_fini {side : Side} {past : List (Side × Op)} (h : Untouched side past) :
    (side, Op.fini) ∉ past := fun hmem => h _ hmem rfl

theorem Apart.orderly {ops : List (Side × Op)} (h : Apart ops) : Orderly ops := by
  induction h with
  | nil => exact Orderly.nil
  | call _ hside hop ih =>
      apply ih.call hside
      rcases hop with hidle | hother | ⟨-, hother⟩
      · exact Or.inl hidle
      · exact Or.inr hother.not_fini
      · exact Or.inr hother

theorem Orderly.only {ops : List (Side × Op)} (h : Orderly ops) (side : Side) :
    Orderly (only side ops) := by
  have hsub : ∀ past : List (Side × Op), ∀ o, o ∉ past → o ∉ Arc4.only side past := fun past o ho hmem =>
    ho (List.mem_of_mem_filter hmem)
  induction h with
  | nil => exact Orderly.nil
  | @call past a op _ hside hop ih =>
      by_cases ha : a = side
      · subst ha
        rw [only_snoc_self]
        exact ih.call (hsub _ _ hside) (hop.imp_right (hsub _ _))
      · rw [only_snoc_other ha]
        exact ih

/-- What is there after orderly calls: the objects that are not finalised, and the keystream generators if
none is. -/
structure Intact (ks : List Nat) (ops : List (Side × Op)) (s : Pair) : Prop where
  obj : ∀ side, (side, Op.fini) ∉ ops → ∃ g, s.obj side = some g ∧ g.ks = ks
  heap : (∀ side, (side, Op.fini) ∉ ops) → ∀ p ∈ ks, s.heap p ≠ none

/-- Orderly calls are defined. -/
theorem run_of_orderly (hks : ks.length = v.count) (hnd : ks.Nodup) {heap : Heap} {g : Generator}
    (hs : Alive ks (heap, g)) {ops : List (Side × Op)} (h : Orderly ops) :
    ∃ r, run v (a4s_clone heap g) ops = some r ∧ Intact ks ops r.1 := by
  induction h with
  | nil => exact ⟨(a4s_clone heap g, []), rfl, fun _ _ => ⟨g, rfl, hs.1⟩, fun _ => hs.2⟩
  | @call past side op _ hside hop ih =>
      rcases ih with ⟨r, hrun, hobj, hheap⟩
      rcases hobj side hside with ⟨g₁, hg₁, hks₁⟩
      have hpast : ∀ {a : Side}, (a, Op.fini) ∉ past ++ [(side, op)] → (a, Op.fini) ∉ past :=
        fun ha hmem => ha (List.mem_append_left _ hmem)
      have hnext : ∀ {heap' : Heap} {g' : Option Generator} {out : List UInt8},
          act v (r.1.heap, g₁) op = some (heap', g', out) →
            (op ≠ .fini → ∃ g₂, g' = some g₂ ∧ g₂.ks = ks) →
            ((∀ a, (a, Op.fini) ∉ past) → op ≠ .fini → ∀ p ∈ ks, heap' p ≠ none) →
            ∃ r', run v (a4s_clone heap g) (past ++ [(side, op)]) = some r' ∧
              Intact ks (past ++ [(side, op)]) r'.1 := by
        intro heap' g' out hact hg' hheap'
        have hrun' : run v (a4s_clone heap g) (past ++ [(side, op)]) =
            some (⟨heap', Function.update r.1.obj side g'⟩, r.2 ++ [(side, out)]) := by
          rw [run_snoc, hrun, Option.bind_some, step_of_obj hg₁ hact, Option.map_some]
        refine ⟨_, hrun', ?_, ?_⟩
        · intro a ha
          by_cases has : a = side
          · subst has
            have hne : op ≠ .fini := fun hop => ha (by simp [hop])
            rcases hg' hne with ⟨g₂, rfl, hks₂⟩
            exact ⟨g₂, Function.update_self .., hks₂⟩
          · rcases hobj a (hpast ha) with ⟨g₂, hg₂, hks₂⟩
            exact ⟨g₂, (Function.update_of_ne has ..).trans hg₂, hks₂⟩
        · intro hall
          have hne : op ≠ .fini := fun hop => hall side (by simp [hop])
          exact hheap' (fun a => hpast (hall a)) hne
      rcases hop with hidle | hother
      · exact hnext (act_idle hidle _) (fun _ => ⟨g₁, rfl, hks₁⟩) fun hall _ => hheap hall
      · have hall : ∀ a, (a, Op.fini) ∉ past := by
          intro a
          rcases Side.eq_or_other side a with rfl | rfl
          · exact hside
          · exact hother
        have halive₁ : Alive ks (r.1.heap, g₁) := ⟨hks₁, hheap hall⟩
        rcases act_of_alive hks hnd halive₁ op with ⟨heap', g', out, hact, hfini | halive⟩
        · exact hnext hact (fun hne => absurd hfini hne) fun _ hne => absurd hfini hne
        · rcases halive with ⟨g₂, hg₂, hks₂, hheap₂⟩
          exact hnext hact (fun _ => ⟨g₂, hg₂, hks₂⟩) fun _ _ => hheap₂

/-- What one context sees is what it sees if the calls on the other are left out. -/
theorem run_only_alike (s : Pair) {ops : List (Side × Op)} (h : Apart ops) (side : Side)
    {r rX : Pair × List (Side × List UInt8)} (hrun : run v s ops = some r)
    (hX : run v s (only side ops) = some rX) :
    rX.2 = only side r.2 ∧ rX.1.obj side = r.1.obj side ∧
      (Untouched side.other ops → rX.1.heap = r.1.heap) := by
  induction h generalizing r rX with
  | nil =>
      cases hrun
      cases hX
      exact ⟨rfl, rfl, fun _ => rfl⟩
  | @call past a op _ hside hop ih =>
      rw [run_snoc] at hrun
      rcases Option.bind_eq_some_iff.mp hrun with ⟨r₁, hrun₁, hstep⟩
      rcases Option.map_eq_some_iff.mp hstep with ⟨q, hq, rfl⟩
      rcases Option.bind_eq_some_iff.mp hq with ⟨g, hg, hrest⟩
      rcases Option.bind_eq_some_iff.mp hrest with ⟨⟨heap', g', out⟩, hact, hpure⟩
      clear hrest
      cases hpure
      have hpast : Untouched side.other (past ++ [(a, op)]) → Untouched side.other past :=
        fun hU o ho => hU o (List.mem_append_left _ ho)
      by_cases ha : a = side
      · subst ha
        rw [only_snoc_self, run_snoc] at hX
        rcases Option.bind_eq_some_iff.mp hX with ⟨rX₁, hX₁, hstepX⟩
        rcases Option.map_eq_some_iff.mp hstepX with ⟨qX, hqX, rfl⟩
        rcases Option.bind_eq_some_iff.mp hqX with ⟨gX, hgX, hrestX⟩
        rcases Option.bind_eq_some_iff.mp hrestX with ⟨⟨heapX', gX', outX⟩, hactX, hpureX⟩
        clear hrestX
        cases hpureX
        rcases ih hrun₁ hX₁ with ⟨hout, hobj, hheap⟩
        obtain rfl : gX = g := Option.some.inj (hgX.symm.trans (hobj.trans hg))
        have hsame : Untouched a.other past → heapX' = heap' ∧ gX' = g' ∧ outX = out := by
          intro hU
          rw [hheap hU, hact] at hactX
          cases hactX
          exact ⟨rfl, rfl, rfl⟩
        have hresult : gX' = g' ∧ outX = out := by
          rcases hop with hidle | hU | ⟨rfl, -⟩
          · rw [act_idle hidle] at hact hactX
            cases hact
            cases hactX
            exact ⟨rfl, rfl⟩
          · exact (hsame hU).2
          · rcases act_fini hact with ⟨rfl, rfl⟩
            exact act_fini hactX
        refine ⟨?_, ?_, fun hU => (hsame (hpast hU)).1⟩
        · rw [only_snoc_self, hout, hresult.2]
        · simp only [Function.update_self, hresult.1]
      · rw [only_snoc_other ha] at hX
        rcases ih hrun₁ hX with ⟨hout, hobj, hheap⟩
        refine ⟨?_, ?_, ?_⟩
        · rw [only_snoc_other ha]
          exact hout
        · exact hobj.trans (Function.update_of_ne (Ne.symm ha) ..).symm
        · intro hU
          have hother : a = side.other := (Side.eq_or_other side a).resolve_left ha
          have hidle : op.Idle := hU (a, op) (List.mem_append_right _ (by simp)) hother
          rw [act_idle hidle] at hact
          cases hact
          exact hheap (hpast hU)

end Runs

/-! ## Reachable states -/

section Reachable

variable {v : Kind}

theorem Reach.alive {s : Heap × Generator} (h : Reach v s) :
    s.2.ks.length = v.count ∧ s.2.ks.Nodup ∧ Alive s.2.ks s := by
  have hsucc : ∀ {s s' : Heap × Generator}, s.2.ks.length = v.count ∧ s.2.ks.Nodup ∧ Alive s.2.ks s →
      Alive s.2.ks s' → s'.2.ks.length = v.count ∧ s'.2.ks.Nodup ∧ Alive s'.2.ks s' := by
    intro s s' hs hs'
    have hks : s'.2.ks = s.2.ks := hs'.1
    rw [hks]
    exact ⟨hs.1, hs.2.1, hs'⟩
  induction h with
  | init entropy hlen hnd => exact ⟨hlen, hnd, construct_alive _ _ entropy hlen⟩
  | @bytes s s' len env out _ hrun ih =>
      rcases getBytes_keeps ih.1 len env s ih.2.2 with ⟨out', s'', hrun', hs'⟩
      cases hrun.symm.trans hrun'
      exact hsucc ih hs'
  | @seed s s' key entropy u _ hrun ih =>
      rcases addRandomData_keeps ih.1 key entropy s ih.2.2 with ⟨u', s'', hrun', hs'⟩
      cases hrun.symm.trans hrun'
      exact hsucc ih hs'

end Reachable

end Drew.Prng.Arc4
