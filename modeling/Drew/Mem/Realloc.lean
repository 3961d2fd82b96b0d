import Mathlib.Tactic
import Drew.Mem.Bookkeeping

/-!
# The contents of a block that is reallocated

Runs on the default pool and on another one, blocks that move included. A move leaves the entry of the
old block in the list, but the entry of a live block always comes before stale ones for its address,
so the right size is found for it. What `psrealloc` returns then has the old contents; only for the
default pool it never gets there, since the list is read through the pointer that was passed.
-/

namespace Drew.Mem

/-! ## Runs on both pools -/

/-- The other one of the two pools. -/
def Handle.other : Handle → Handle
  | .null => .given
  | .given => .null

/-- The pointer that an operation hands back to the allocator. -/
def Op.pointer : Op → Nat
  | .psrealloc ptr _ _ => ptr
  | .psfree ptr => ptr
  | _ => 0

/-- The pointer that is dead after an operation that returned another. -/
def Op.dead (ret : Nat) : Op → Nat
  | .psrealloc ptr size _ => if size = 0 ∨ ret ≠ 0 then ptr else 0
  | op => op.pointer

/-- The size of the block that is asked for. -/
def Op.wanted : Op → Nat
  | .psmalloc size _ => size
  | .pscalloc nmemb size _ => nmemb * size % 2 ^ 64
  | .psmemdup bs _ => bs.length
  | .psrealloc _ size _ => size
  | .psfree _ => 0
  | .store _ _ => 0

/-- Runs from two empty lists, with the live blocks of each pool. A pointer is not handed back to the
pool that it is not from. -/
inductive Run (cfg : Config) : State → (Handle → List (Nat × Nat)) → Prop
  | start {s : State} : (∀ h, (s.get h).alloc = []) → Run cfg s fun _ => []
  | next {s s' : State} {live : Handle → List (Nat × Nat)} {h : Handle} {op : Op} {ret : Nat}
      {rel : Released} :
      Run cfg s live → Allowed s op → (∀ b ∈ live h.other, b.1 ≠ op.pointer) →
        step cfg h s op = some (s', ret, rel) →
        Run cfg s' (Function.update live h (track (live h) ret op))

/-- `psrealloc` of a block returns a block with the old contents, as far as there is room for them, and
zeros after them, where null is the block without bytes; or it fails and the block, its contents and the
list are as before. -/
def ContentsKept (cfg : Config) (s : State) (h : Handle) (ptr : Nat) (old : List UInt8) (size : Nat)
    (env : Env) : Prop :=
  ∃ s' ret rel, drew_mem_psrealloc cfg s h ptr size env = some (s', ret, rel) ∧
    ((if size = 0 then ret = 0
      else ret ≠ 0 ∧ s'.heap ret = some (old.take size ++ List.replicate (size - old.length) 0)) ∨
      ret = 0 ∧ s'.heap ptr = some old ∧ (s'.get h).alloc = (s.get h).alloc)

/-- The invariant for a pool in which blocks move: each live block has memory, and the entry that is
found for its address is its own. -/
structure Live (s : State) (h : Handle) (live : List (Nat × Nat)) : Prop where
  nodup : (live.map Prod.fst).Nodup
  block : ∀ b ∈ live, b.1 ≠ 0 ∧ b.2 ≠ 0 ∧ ∃ bs, s.heap b.1 = some bs ∧ bs.length = b.2
  entry : ∀ b ∈ live, ∃ e, (s.get h).alloc.find? (fun e => e.mem == b.1) = some e ∧ e.size = b.2

/-- The invariant: no block of the default pool has moved. -/
structure Sound (s : State) (live : Handle → List (Nat × Nat)) : Prop where
  default : Inv s .null (live .null)
  given : Live s .given (live .given)
  apart : ∀ b ∈ live .null, ∀ b' ∈ live .given, b.1 ≠ b'.1

/-- What an operation on a pool does: other blocks keep their memory and what is found for their
addresses, the other pool is as before, and a block that is returned is new. -/
structure Effect (s : State) (h : Handle) (s' : State) (ret dead size : Nat) : Prop where
  heap : ∀ q bs, q ≠ 0 → q ≠ dead → s.heap q = some bs →
    ∃ bs', s'.heap q = some bs' ∧ bs'.length = bs.length
  other : s'.get h.other = s.get h.other
  find : ∀ q, q ≠ 0 → q ≠ dead → s.heap q ≠ none →
    (s'.get h).alloc.find? (fun e => e.mem == q) = (s.get h).alloc.find? fun e => e.mem == q
  fresh : ret ≠ 0 → size ≠ 0 ∧ s.heap ret = none ∧ (∃ bs, s'.heap ret = some bs ∧ bs.length = size) ∧
    ∃ e, (s'.get h).alloc.find? (fun e => e.mem == ret) = some e ∧ e.size = size

/-! ## What a function leaves alone -/

section Frames

variable {cfg : Config} {s : State} {h : Handle} {ptr : Nat}

theorem find?_eraseP_of_ne {a b : Nat} (hab : a ≠ b) :
    ∀ l : List Allocation, (l.eraseP fun e => e.mem == a).find? (fun e => e.mem == b) =
      l.find? fun e => e.mem == b := by
  intro l
  induction l with
  | nil => rfl
  | cons e l ih =>
      by_cases hea : e.mem = a
      · have hne : (e.mem == b) = false := by simpa [hea] using hab
        simp only [List.eraseP_cons, hea, beq_self_eq_true, cond_true, List.find?_cons]
        rw [← hea, hne]
      · have hne : (e.mem == a) = false := by simpa using hea
        simp only [List.eraseP_cons, hne, cond_false, List.find?_cons, ih]

theorem free_heap {r : State × Released} (hrun : free s ptr = some r) {q : Nat} (hq : q ≠ ptr) :
    r.1.heap q = s.heap q := by
  unfold free at hrun
  split at hrun
  · cases hrun
    rfl
  · rcases Option.map_eq_some_iff.mp hrun with ⟨bs, -, rfl⟩
    exact Function.update_of_ne hq ..

theorem free_get {r : State × Released} (hrun : free s ptr = some r) (h' : Handle) :
    r.1.get h' = s.get h' := by
  unfold free at hrun
  split at hrun
  · cases hrun
    rfl
  · rcases Option.map_eq_some_iff.mp hrun with ⟨bs, -, rfl⟩
    exact State.get_setBlock ..

/-- `psfree` of a pointer: other blocks are as before, and so is what is found for their addresses. -/
theorem psfree_frame {r : State × Released} (hrun : drew_mem_psfree s h ptr = some r) :
    (∀ q, q ≠ ptr → r.1.heap q = s.heap q) ∧ r.1.get h.other = s.get h.other ∧
      (r.1.get h = s.get h ∨
        (∃ e ∈ (s.get h).alloc, e.mem = ptr) ∧
          (r.1.get h).alloc = (s.get h).alloc.eraseP fun e => e.mem == ptr) := by
  unfold drew_mem_psfree at hrun
  split at hrun
  · cases hrun
    exact ⟨fun q _ => rfl, rfl, Or.inl rfl⟩
  split at hrun
  · exact ⟨fun q hq => free_heap hrun hq, free_get hrun _, Or.inl (free_get hrun _)⟩
  · next e hfind =>
      rcases Option.bind_eq_some_iff.mp hrun with ⟨s₁, hs₁, hfree⟩
      rcases Option.bind_eq_some_iff.mp hs₁ with ⟨bs, -, hs₁⟩
      split at hs₁
      · cases hs₁
        refine ⟨?_, ?_, Or.inr ⟨⟨e, List.mem_of_find?_eq_some hfind, ?_⟩, ?_⟩⟩
        · intro q hq
          rw [free_heap hfree hq, State.heap_setAlloc]
          exact Function.update_of_ne hq ..
        · rw [free_get hfree]
          cases h <;> rfl
        · simpa using List.find?_some hfind
        · rw [free_get hfree, State.get_setAlloc_self]
      · cases hs₁

theorem pfree_frame {r : State × Released} (hrun : drew_mem_pfree cfg s .null ptr = some r)
    (hptr : ∀ e ∈ s.mempool.alloc, e.mem ≠ ptr) :
    (∀ q, q ≠ ptr → r.1.heap q = s.heap q) ∧ ∀ h', r.1.get h' = s.get h' := by
  unfold drew_mem_pfree at hrun
  split at hrun
  · rcases psfree_frame hrun with ⟨hheap, hother, hself | ⟨⟨e, he, hkey⟩, -⟩⟩
    · refine ⟨hheap, ?_⟩
      intro h'
      cases h'
      · exact hself
      · exact hother
    · exact absurd hkey (hptr e he)
  · exact ⟨fun q hq => free_heap hrun hq, free_get hrun⟩

/-- The rest of a reallocation in a pool of its own: the lists are as before, and the old block stays if
null is returned. -/
theorem do_realloc_frame {new size : Nat} {fresh : List UInt8} {s' : State} {ret : Nat} {rel : Released}
    (hrun : do_realloc cfg s .given ptr new size = some (s', ret, rel))
    (hptr : ∀ e ∈ s.mempool.alloc, e.mem ≠ ptr) (hne : new ≠ ptr) (hfresh : s.heap new = some fresh)
    (hlen : fresh.length = size) :
    (∀ h', s'.get h' = s.get h') ∧
      (ret = 0 ∧ (∀ q, q ≠ new → s'.heap q = s.heap q) ∨
        ret = new ∧ (∀ q, q ≠ new → q ≠ ptr → s'.heap q = s.heap q) ∧
          ∃ bs, s'.heap new = some bs ∧ bs.length = size) := by
  unfold do_realloc at hrun
  simp only at hrun
  split at hrun
  · rcases Option.map_eq_some_iff.mp hrun with ⟨r, hr, heq⟩
    cases heq
    exact ⟨free_get hr, Or.inl ⟨rfl, fun q hq => free_heap hr hq⟩⟩
  · rcases Option.bind_eq_some_iff.mp hrun with ⟨old, -, hrun⟩
    rcases Option.bind_eq_some_iff.mp hrun with ⟨fresh', hfresh', hrun⟩
    rw [hfresh] at hfresh'
    cases hfresh'
    split at hrun
    · next hroom =>
        rcases Option.bind_eq_some_iff.mp hrun with ⟨r, hr, heq⟩
        cases heq
        rcases pfree_frame hr hptr with ⟨hheap, hget⟩
        have hat := (hheap new hne).trans (Function.update_self ..)
        refine ⟨fun h' => (hget h').trans (State.get_setBlock ..), Or.inr ⟨rfl, ?_, _, hat, ?_⟩⟩
        · intro q hq hqp
          exact (hheap q hqp).trans (Function.update_of_ne hq ..)
        · simp only [List.length_append, List.length_take, List.length_replicate, List.length_drop]
          omega
    · cases hrun

end Frames

/-! ## What an operation does -/

section Effects

variable {cfg : Config} {s s' : State} {h : Handle} {ret size : Nat} {rel : Released} {env : Env}

theorem Effect.refl (s : State) (h : Handle) (size : Nat) : Effect s h s 0 0 size where
  heap := fun _ bs _ _ hbs => ⟨bs, hbs, rfl⟩
  other := rfl
  find := fun _ _ _ _ => rfl
  fresh := fun h0 => absurd rfl h0

theorem do_allocate_effect {clear : Bool} (hF : Fits s size env)
    (hrun : do_allocate cfg s h size true clear env = some (s', ret, rel)) :
    Effect s h s' ret 0 size := by
  by_cases hG : Granted s h size env
  · rcases @do_allocate_of_granted cfg _ _ _ clear _ hG hF with ⟨p, bs, block, -, hp, hlen, hrun'⟩
    rw [hrun'] at hrun
    cases hrun
    have hnep : ∀ q, s.heap q ≠ none → q ≠ ret := fun q hq hqp => hq (hqp ▸ hp)
    refine ⟨?_, ?_, ?_, ?_⟩
    · intro q old _ _ hold
      rw [State.heap_setAlloc]
      exact ⟨old, (Function.update_of_ne (hnep q (by simp [hold])) ..).trans hold, rfl⟩
    · cases h <;> rfl
    · intro q _ _ hq
      have hne : (ret == q) = false := by simpa using (hnep q hq).symm
      rw [State.get_setAlloc_self, List.find?_cons, hne]
    · intro _
      refine ⟨hG.1, hp, ⟨bs, ?_, hlen⟩, ⟨ret, size, block⟩, ?_, rfl⟩
      · rw [State.heap_setAlloc]
        exact Function.update_self ..
      · rw [State.get_setAlloc_self]
        exact List.find?_cons_of_pos (beq_self_eq_true ret)
  · rcases @do_allocate_of_refused cfg _ _ _ clear _ hG hF with ⟨rel', hrun', -⟩
    rw [hrun'] at hrun
    cases hrun
    exact Effect.refl s h size

/-- A write to the block that was returned, or to one that there was. -/
theorem Effect.store (hE : Effect s h s' ret 0 size) {p : Nat} {old bs : List UInt8}
    (hp : s'.heap p = some old) (hlen : old.length = bs.length) :
    Effect s h (s'.setBlock p (some bs)) ret 0 size := by
  have hkeep : ∀ q bs', s'.heap q = some bs' →
      ∃ bs'', (s'.setBlock p (some bs)).heap q = some bs'' ∧ bs''.length = bs'.length := by
    intro q bs' hbs'
    by_cases hqp : q = p
    · subst hqp
      rw [hp] at hbs'
      cases hbs'
      exact ⟨bs, Function.update_self .., hlen.symm⟩
    · exact ⟨bs', (Function.update_of_ne hqp ..).trans hbs', rfl⟩
  refine ⟨?_, ?_, ?_, ?_⟩
  · intro q bs₀ hq0 hq hbs₀
    rcases hE.heap q bs₀ hq0 hq hbs₀ with ⟨bs₁, hbs₁, hlen₁⟩
    rcases hkeep q bs₁ hbs₁ with ⟨bs₂, hbs₂, hlen₂⟩
    exact ⟨bs₂, hbs₂, hlen₂.trans hlen₁⟩
  · rw [State.get_setBlock]
    exact hE.other
  · rw [State.get_setBlock]
    exact hE.find
  · intro hret
    rw [State.get_setBlock]
    rcases hE.fresh hret with ⟨hsize, hnone, ⟨bs₁, hbs₁, hlen₁⟩, hentry⟩
    rcases hkeep ret bs₁ hbs₁ with ⟨bs₂, hbs₂, hlen₂⟩
    exact ⟨hsize, hnone, ⟨bs₂, hbs₂, hlen₂.trans hlen₁⟩, hentry⟩

theorem psmemdup_effect {bs : List UInt8} (hF : Fits s bs.length env)
    (hrun : drew_mem_psmemdup cfg s h bs env = some (s', ret, rel)) :
    Effect s h s' ret 0 bs.length := by
  rcases Option.bind_eq_some_iff.mp hrun with ⟨⟨s₁, p, rel₁⟩, halloc, heq⟩
  have hE := do_allocate_effect hF halloc
  cases heq
  split
  · exact hE
  · next hp0 =>
      rcases (hE.fresh hp0).2.2.1 with ⟨old, hold, hlen⟩
      exact hE.store hold hlen

theorem psfree_effect {ptr : Nat} {r : State × Released}
    (hrun : drew_mem_psfree s h ptr = some r) : Effect s h r.1 0 ptr size := by
  rcases psfree_frame hrun with ⟨hheap, hother, hself⟩
  refine ⟨?_, hother, ?_, fun h0 => absurd rfl h0⟩
  · intro q bs _ hq hbs
    exact ⟨bs, (hheap q hq).trans hbs, rfl⟩
  · intro q _ hq _
    rcases hself with hsame | ⟨-, hlist⟩
    · rw [hsame]
    · rw [hlist]
      exact find?_eraseP_of_ne hq.symm _

/-- `psrealloc` of a block of a pool of its own or of the system's allocator. -/
theorem psrealloc_effect {ptr : Nat} (hptr : ptr = 0 ∨ ∃ bs, s.heap ptr = some bs)
    (hF : Fits s size env) (hdefault : h = .given → ∀ e ∈ s.mempool.alloc, e.mem ≠ ptr)
    (hrun : drew_mem_psrealloc cfg s h ptr size env = some (s', ret, rel)) :
    Effect s h s' ret (if size = 0 ∨ ret ≠ 0 then ptr else 0) size := by
  unfold drew_mem_psrealloc at hrun
  split at hrun
  · next hptr0 =>
      rw [hptr0, ite_self]
      exact do_allocate_effect hF hrun
  next hptr0 =>
  split at hrun
  · next hsize =>
      rcases Option.map_eq_some_iff.mp hrun with ⟨r, hr, heq⟩
      cases heq
      rw [if_pos (Or.inl hsize)]
      exact psfree_effect hr
  next hsize =>
  rcases Option.bind_eq_some_iff.mp hrun with ⟨⟨s₁, new, rel₁⟩, halloc, hrun⟩
  have hE := do_allocate_effect hF halloc
  simp only at hrun
  split at hrun
  · cases hrun
    rw [if_neg (by simp [hsize])]
    next hnew => exact hnew ▸ hE
  next hnew =>
  rcases Option.bind_eq_some_iff.mp hrun with ⟨⟨s₂, p, rel₂⟩, hrealloc, heq⟩
  cases heq
  cases h with
  | null => cases hrealloc
  | given =>
      rcases hE.fresh hnew with ⟨-, hnone, ⟨bs, hbs, hlen⟩, hentry⟩
      rcases hptr.resolve_left hptr0 with ⟨old, hold⟩
      have hne : new ≠ ptr := by
        intro hnp
        rw [hnp, hold] at hnone
        cases hnone
      have hmempool : s₁.mempool = s.mempool := hE.other
      have hdefault₁ : ∀ e ∈ s₁.mempool.alloc, e.mem ≠ ptr := hmempool ▸ hdefault rfl
      rcases do_realloc_frame hrealloc hdefault₁ hne hbs hlen with ⟨hget, hcase⟩
      have hnenew : ∀ q bs', s.heap q = some bs' → q ≠ new := by
        intro q bs' hq hqn
        rw [hqn, hnone] at hq
        cases hq
      have hother : s₂.mempool = s.mempool := (hget .null).trans hmempool
      have hfind : ∀ q, q ≠ 0 → s.heap q ≠ none → (s₂.pool.alloc.find? fun e => e.mem == q) =
          s.pool.alloc.find? fun e => e.mem == q := by
        intro q hq0 hq
        rw [show s₂.pool = s₁.pool from hget .given]
        exact hE.find q hq0 hq0 hq
      rcases hcase with ⟨rfl, hheap⟩ | ⟨rfl, hheap, bs₂, hbs₂, hlen₂⟩
      · refine ⟨?_, hother, fun q hq0 _ => hfind q hq0, fun h0 => absurd rfl h0⟩
        intro q bs' hq0 _ hbs'
        rcases hE.heap q bs' hq0 hq0 hbs' with ⟨bs₁, hbs₁, hlen₁⟩
        exact ⟨bs₁, (hheap q (hnenew q bs' hbs')).trans hbs₁, hlen₁⟩
      · rw [if_pos (Or.inr hnew)]
        refine ⟨?_, hother, fun q hq0 _ => hfind q hq0, fun _ => ⟨hsize, hnone, ⟨bs₂, hbs₂, hlen₂⟩, ?_⟩⟩
        · intro q bs' hq0 hq hbs'
          rcases hE.heap q bs' hq0 hq0 hbs' with ⟨bs₁, hbs₁, hlen₁⟩
          exact ⟨bs₁, (hheap q (hnenew q bs' hbs') hq).trans hbs₁, hlen₁⟩
        · rw [hget .given]
          exact hentry

theorem step_effect {op : Op} (hA : Allowed s op)
    (hdefault : h = .given → ∀ e ∈ s.mempool.alloc, e.mem ≠ op.pointer)
    (hrun : step cfg h s op = some (s', ret, rel)) : Effect s h s' ret (op.dead ret) op.wanted := by
  cases op with
  | psmalloc size env => exact do_allocate_effect hA hrun
  | pscalloc nmemb size env => exact do_allocate_effect hA hrun
  | psmemdup bs env => exact psmemdup_effect hA hrun
  | psrealloc ptr size env => exact psrealloc_effect hA.1 hA.2 hdefault hrun
  | psfree ptr =>
      rcases Option.map_eq_some_iff.mp hrun with ⟨r, hr, heq⟩
      cases heq
      exact psfree_effect hr
  | store p bs =>
      rcases hA with ⟨old, hold, hlen⟩
      cases hrun
      exact (Effect.refl s h 0).store hold hlen

/-- The live blocks after an operation, the same way for all of them. -/
theorem track_eq {live : List (Nat × Nat)} {op : Op} (hlive : ∀ b ∈ live, b.1 ≠ 0)
    (hret : ret ≠ 0 → op.wanted ≠ 0) :
    track live ret op = add (drop live (op.dead ret)) ret op.wanted := by
  have hdrop0 : drop live 0 = live := drop_eq_self hlive
  have hret0 : op.wanted = 0 → ret = 0 := fun h0 => by
    by_contra hne
    exact hret hne h0
  cases op with
  | psmalloc size env => exact congrArg (add · ret size) hdrop0.symm
  | pscalloc nmemb size env => exact congrArg (add · ret _) hdrop0.symm
  | psmemdup bs env => exact congrArg (add · ret bs.length) hdrop0.symm
  | psrealloc ptr size env =>
      by_cases hptr0 : ptr = 0
      · simp only [track, Op.dead, Op.wanted, hptr0, if_true, ite_self, hdrop0]
      by_cases hsize : size = 0
      · have hr : ret = 0 := hret0 hsize
        simp only [track, Op.dead, Op.wanted, hptr0, hsize, hr, if_true, if_false, true_or, add]
      by_cases hr : ret = 0
      · simp only [track, Op.dead, Op.wanted, hptr0, hsize, hr, if_true, if_false, ne_eq, not_true_eq_false,
          or_self, add, hdrop0]
      · simp only [track, Op.dead, Op.wanted, hptr0, hsize, hr, if_true, if_false, ne_eq,
          not_false_eq_true, or_true, add]
  | psfree ptr =>
      rw [hret0 rfl]
      rfl
  | store p bs =>
      rw [hret0 rfl]
      exact hdrop0.symm

end Effects

/-! ## Runs keep the invariant -/

section Runs

variable {cfg : Config} {s s' : State} {h : Handle} {live : List (Nat × Nat)}

theorem Live.step (hL : Live s h live) {ret dead size : Nat} (hE : Effect s h s' ret dead size) :
    Live s' h (add (drop live dead) ret size) := by
  have hkept : ∀ b ∈ drop live dead, b.1 ≠ 0 ∧ b.2 ≠ 0 ∧
      (∃ bs, s'.heap b.1 = some bs ∧ bs.length = b.2) ∧ s.heap b.1 ≠ none ∧
      ∃ e, (s'.get h).alloc.find? (fun e => e.mem == b.1) = some e ∧ e.size = b.2 := by
    intro b hb
    rcases mem_drop.mp hb with ⟨hb, hdead⟩
    rcases hL.block b hb with ⟨hb0, hsize, bs, hbs, hlen⟩
    rcases hE.heap b.1 bs hb0 hdead hbs with ⟨bs', hbs', hlen'⟩
    have hsome : s.heap b.1 ≠ none := by simp [hbs]
    refine ⟨hb0, hsize, ⟨bs', hbs', hlen'.trans hlen⟩, hsome, ?_⟩
    rw [hE.find b.1 hb0 hdead hsome]
    exact hL.entry b hb
  by_cases hret : ret = 0
  · rw [add, if_pos hret]
    exact ⟨nodup_drop dead hL.nodup, fun b hb => ⟨(hkept b hb).1, (hkept b hb).2.1, (hkept b hb).2.2.1⟩,
      fun b hb => (hkept b hb).2.2.2.2⟩
  · rw [add, if_neg hret]
    rcases hE.fresh hret with ⟨hsize, hnone, hblock, hentry⟩
    refine ⟨?_, ?_, ?_⟩
    · apply List.nodup_cons.mpr
      refine ⟨?_, nodup_drop dead hL.nodup⟩
      intro hmem
      rcases List.mem_map.mp hmem with ⟨b, hb, hbret⟩
      exact (hkept b hb).2.2.2.1 (hbret ▸ hnone)
    · intro b hb
      rcases List.mem_cons.mp hb with rfl | hb
      · exact ⟨hret, hsize, hblock⟩
      · exact ⟨(hkept b hb).1, (hkept b hb).2.1, (hkept b hb).2.2.1⟩
    · intro b hb
      rcases List.mem_cons.mp hb with rfl | hb
      · exact hentry
      · exact (hkept b hb).2.2.2.2

/-- The blocks of the other pool. -/
theorem Live.other (hL : Live s h.other live) {ret dead size : Nat}
    (hE : Effect s h s' ret dead size) (hdead : ∀ b ∈ live, b.1 ≠ dead) : Live s' h.other live where
  nodup := hL.nodup
  block := by
    intro b hb
    rcases hL.block b hb with ⟨hb0, hsize, bs, hbs, hlen⟩
    rcases hE.heap b.1 bs hb0 (hdead b hb) hbs with ⟨bs', hbs', hlen'⟩
    exact ⟨hb0, hsize, bs', hbs', hlen'.trans hlen⟩
  entry := by
    rw [hE.other]
    exact hL.entry

theorem Inv.other (hI : Inv s h.other live) {ret dead size : Nat}
    (hE : Effect s h s' ret dead size) (hdead : ∀ b ∈ live, b.1 ≠ dead) : Inv s' h.other live where
  entries_eq := by
    rw [entries, hE.other]
    exact hI.entries_eq
  nodup := hI.nodup
  block := by
    intro b hb
    rcases hI.block b hb with ⟨hb0, bs, hbs, hlen⟩
    rcases hE.heap b.1 bs hb0 (hdead b hb) hbs with ⟨bs', hbs', hlen'⟩
    exact ⟨hb0, bs', hbs', hlen'.trans hlen⟩

/-- In the default pool nothing moves: it is undefined. -/
theorem psrealloc_default {ptr size : Nat} {env : Env} (hptr0 : ptr ≠ 0) (hG : Granted s .null size env)
    (hF : Fits s size env) : drew_mem_psrealloc cfg s .null ptr size env = none := by
  rcases @do_allocate_of_granted cfg _ _ _ false _ hG hF with ⟨p, bs, block, hp0, hp, hlen, halloc⟩
  simp only [drew_mem_psrealloc, hptr0, hG.1, if_false, drew_mem_psmalloc, halloc, hp0,
    Option.bind_eq_bind, Option.bind_some, do_realloc, Option.bind_none]

theorem not_moves_of_default {op : Op} (hA : Allowed s op) {r : State × Nat × Released}
    (hrun : step cfg .null s op = some r) : ¬Moves s .null op := by
  intro hM
  cases op with
  | psrealloc ptr size env =>
      have hnone : step cfg .null s (.psrealloc ptr size env) = none :=
        psrealloc_default hM.1 hM.2 hA.2
      rw [hnone] at hrun
      cases hrun
  | psmalloc size env => exact hM
  | pscalloc nmemb size env => exact hM
  | psmemdup bs env => exact hM
  | psfree ptr => exact hM
  | store p bs => exact hM

theorem Op.ne_dead {op : Op} (ret : Nat) {q : Nat} (hq0 : q ≠ 0) (hq : q ≠ op.pointer) :
    q ≠ op.dead ret := by
  cases op with
  | psrealloc ptr size env =>
      simp only [Op.dead]
      split
      · exact hq
      · exact hq0
  | psmalloc size env => exact hq
  | pscalloc nmemb size env => exact hq
  | psmemdup bs env => exact hq
  | psfree ptr => exact hq
  | store p bs => exact hq

theorem fst_ne_of_effect {ret dead size : Nat} (hE : Effect s h s' ret dead size)
    {others : List (Nat × Nat)} (hothers : ∀ b ∈ others, s.heap b.1 ≠ none)
    (hapart : ∀ b ∈ live, ∀ b' ∈ others, b.1 ≠ b'.1) :
    ∀ b ∈ add (drop live dead) ret size, ∀ b' ∈ others, b.1 ≠ b'.1 := by
  intro b hb b' hb' heq
  have hold : b ∉ drop live dead := fun hb => hapart b (mem_drop.mp hb).1 b' hb' heq
  unfold add at hb
  split at hb
  · exact hold hb
  · next hret =>
      rcases List.mem_cons.mp hb with rfl | hb
      · apply hothers b' hb'
        rw [← heq]
        exact (hE.fresh hret).2.1
      · exact hold hb

/-- The step lemma. -/
theorem Sound.step {live : Handle → List (Nat × Nat)} (hS : Sound s live) {op : Op} {ret : Nat}
    {rel : Released} (hA : Allowed s op) (hown : ∀ b ∈ live h.other, b.1 ≠ op.pointer)
    (hrun : step cfg h s op = some (s', ret, rel)) :
    Sound s' (Function.update live h (track (live h) ret op)) := by
  have hdefault : h = .given → ∀ e ∈ s.mempool.alloc, e.mem ≠ op.pointer := by
    rintro rfl e he
    have hb : (e.mem, e.size) ∈ live .null := hS.default.entries_eq ▸ List.mem_map_of_mem he
    exact hown _ hb
  have hE := step_effect hA hdefault hrun
  have hwanted : ret ≠ 0 → op.wanted ≠ 0 := fun hret => (hE.fresh hret).1
  have hnull : ∀ b ∈ live .null, s.heap b.1 ≠ none := by
    intro b hb
    rcases hS.default.block b hb with ⟨-, bs, hbs, -⟩
    simp [hbs]
  have hgiven : ∀ b ∈ live .given, s.heap b.1 ≠ none := by
    intro b hb
    rcases hS.given.block b hb with ⟨-, -, bs, hbs, -⟩
    simp [hbs]
  cases h with
  | null =>
      have htrack := track_eq (fun b hb => (hS.default.block b hb).1) hwanted
      rcases @step_keeps cfg _ _ _ hS.default _ hA (not_moves_of_default hA hrun) with
        ⟨s'', ret', rel', hrun', hI, -⟩
      rw [hrun'] at hrun
      cases hrun
      refine ⟨hI, ?_, ?_⟩
      · have hdead : ∀ b ∈ live .given, b.1 ≠ op.dead ret := fun b hb =>
          Op.ne_dead ret (hS.given.block b hb).1 (hown b hb)
        exact hS.given.other hE hdead
      · rw [Function.update_self, htrack]
        exact fst_ne_of_effect hE hgiven hS.apart
  | given =>
      have htrack := track_eq (fun b hb => (hS.given.block b hb).1) hwanted
      refine ⟨?_, ?_, ?_⟩
      · have hdead : ∀ b ∈ live .null, b.1 ≠ op.dead ret := fun b hb =>
          Op.ne_dead ret (hS.default.block b hb).1 (hown b hb)
        exact hS.default.other hE hdead
      · rw [Function.update_self, htrack]
        exact hS.given.step hE
      · rw [Function.update_self, htrack]
        intro b hb b' hb'
        have hapart := fst_ne_of_effect hE hnull fun b hb b' hb' => (hS.apart b' hb' b hb).symm
        exact (hapart b' hb' b hb).symm

/-- The run lemma. -/
theorem Run.sound {live : Handle → List (Nat × Nat)} (hR : Run cfg s live) : Sound s live := by
  induction hR with
  | start hnil =>
      refine ⟨⟨?_, List.nodup_nil, by simp⟩, ⟨List.nodup_nil, by simp, by simp⟩, by simp⟩
      simp [entries, hnil]
  | next _ hA hown hrun ih => exact ih.step hA hown hrun

theorem Sound.block {owned : Handle → List (Nat × Nat)} (hS : Sound s owned) {b : Nat × Nat}
    (hb : b ∈ owned h) : b.1 ≠ 0 ∧ (∃ bs, s.heap b.1 = some bs ∧ bs.length = b.2) ∧
      ∃ e, (s.get h).alloc.find? (fun e => e.mem == b.1) = some e ∧ e.size = b.2 := by
  cases h with
  | null =>
      rcases hS.default.block b hb with ⟨hb0, hblock⟩
      exact ⟨hb0, hblock, hS.default.find hb⟩
  | given =>
      rcases hS.given.block b hb with ⟨hb0, -, hblock⟩
      exact ⟨hb0, hblock, hS.given.entry b hb⟩

end Runs

/-! ## Contents -/

section Contents

variable {cfg : Config} {s : State} {h : Handle} {env : Env}

/-- The old block is released as it is, or wiped if the default pool had it. -/
theorem pfree_default {ptr : Nat} (hptr0 : ptr ≠ 0) (hptr : ∀ e ∈ s.mempool.alloc, e.mem ≠ ptr)
    {old : List UInt8} (hold : s.heap ptr = some old) :
    drew_mem_pfree cfg s .null ptr = some (s.setBlock ptr none, [(ptr, old)]) := by
  have hfree : free s ptr = some (s.setBlock ptr none, [(ptr, old)]) := by
    simp only [free, hptr0, if_false, hold, Option.map_some]
  have hfind : (s.get .null).alloc.find? (fun e => e.mem == ptr) = none := by
    apply List.find?_eq_none.mpr
    intro e he hkey
    exact hptr e he (by simpa using hkey)
  unfold drew_mem_pfree
  split
  · simp only [drew_mem_psfree, hptr0, if_false, hfind, hfree]
  · exact hfree

theorem psfree_of_entry {ptr : Nat} {old : List UInt8} {e : Allocation} (hptr0 : ptr ≠ 0)
    (hfind : (s.get h).alloc.find? (fun e => e.mem == ptr) = some e) (hold : s.heap ptr = some old)
    (he : e.size = old.length) : ∃ r, drew_mem_psfree s h ptr = some r := by
  have hzero : memset0 s ptr e.size =
      some (s.setBlock ptr (some (List.replicate e.size 0 ++ old.drop e.size))) := by
    simp only [memset0, hold, Option.bind_eq_bind, Option.bind_some, if_pos he.le]
  have hat : ∀ l, ((s.setBlock ptr (some (List.replicate e.size 0 ++ old.drop e.size))).setAlloc h l).heap
      ptr = some (List.replicate e.size 0 ++ old.drop e.size) := by
    intro l
    rw [State.heap_setAlloc]
    exact Function.update_self ..
  simp only [drew_mem_psfree, hptr0, if_false, hfind, hzero, Option.bind_eq_bind, Option.bind_some, free,
    hat, Option.map_some]
  exact ⟨_, rfl⟩

/-- The block moves with its contents. -/
theorem do_realloc_contents (cfg : Config) {ptr new size : Nat} {old fresh : List UInt8} {e : Allocation}
    (hptr0 : ptr ≠ 0) (hptr : ∀ e ∈ s.mempool.alloc, e.mem ≠ ptr) (hold : s.heap ptr = some old)
    (hold0 : old.length ≠ 0) (hfind : s.pool.alloc.find? (fun e => e.mem == ptr) = some e)
    (he : e.size = old.length) (hne : new ≠ ptr) (hfresh : s.heap new = some fresh)
    (hlen : fresh.length = size) :
    ∃ s' rel, do_realloc cfg s .given ptr new size = some (s', new, rel) ∧
      s'.heap new = some (old.take size ++ List.replicate (size - old.length) 0) := by
  let s₁ := s.setBlock new (some (old.take (min size old.length) ++
    List.replicate (size - old.length) 0 ++ fresh.drop size))
  have hold₁ : s₁.heap ptr = some old := (Function.update_of_ne hne.symm ..).trans hold
  have hfree : drew_mem_pfree cfg s₁ .null ptr = some (s₁.setBlock ptr none, [(ptr, old)]) :=
    pfree_default hptr0 (s := s₁) hptr hold₁
  have hroom : min size old.length ≤ old.length ∧ size ≤ fresh.length :=
    ⟨min_le_right _ _, hlen.ge⟩
  refine ⟨s₁.setBlock ptr none, [(ptr, old)], ?_, ?_⟩
  · simp only [do_realloc, hfind, Option.map_some, Option.getD_some, he, hold0, if_false, hold, hfresh,
      Option.bind_eq_bind, Option.bind_some, if_pos hroom]
    rw [show drew_mem_pfree cfg _ .null ptr = _ from hfree]
    rfl
  · have hat : (s₁.setBlock ptr none).heap new = s₁.heap new := Function.update_of_ne hne ..
    have htake : old.take (min size old.length) = old.take size := by
      rw [List.take_eq_take_iff]
      omega
    have hdrop : fresh.drop size = [] := List.drop_eq_nil_of_le hlen.le
    rw [hat, show s₁.heap new = some _ from Function.update_self .., htake, hdrop, List.append_nil]

end Contents

/-- Reallocating a live block, in every run on the two pools: the contents are kept, or everything is
left as it was, unless the block is one of the default pool and the system grants a new block of a size
other than zero. Then it is undefined. -/
theorem contents_kept_iff (cfg : Config) (s : State) (live : Handle → List (Nat × Nat))
    (hR : Run cfg s live) (h : Handle) (b : Nat × Nat) (hb : b ∈ live h) (old : List UInt8)
    (hold : s.heap b.1 = some old) (size : Nat) (env : Env) (hF : Fits s size env) :
    ContentsKept cfg s h b.1 old size env ↔ ¬(h = .null ∧ Granted s .null size env) := by
  have hS := hR.sound
  rcases hS.block hb with ⟨hb0, ⟨old', hold', hlen⟩, e, hfind, he⟩
  rw [hold] at hold'
  cases hold'
  constructor
  · rintro ⟨s', ret, rel, hrun, -⟩ ⟨rfl, hG⟩
    rw [psrealloc_default hb0 hG hF] at hrun
    cases hrun
  intro hcond
  by_cases hsize : size = 0
  · rcases psfree_of_entry hb0 hfind hold (he.trans hlen.symm) with ⟨r, hfree⟩
    refine ⟨r.1, 0, r.2, ?_, Or.inl (by rw [if_pos hsize])⟩
    simp only [drew_mem_psrealloc, hb0, if_false, hsize, if_true, hfree, Option.map_some]
  by_cases hG : Granted s h size env
  · cases h with
    | null => exact absurd ⟨rfl, hG⟩ hcond
    | given =>
        rcases @do_allocate_of_granted cfg _ _ _ false _ hG hF with
          ⟨p, fresh, block, hp0, hp, hfresh, halloc⟩
        have hne : p ≠ b.1 := by
          rintro rfl
          rw [hold] at hp
          cases hp
        have hptr : ∀ e ∈ s.mempool.alloc, e.mem ≠ b.1 := by
          intro e' he'
          have hb' : (e'.mem, e'.size) ∈ live .null :=
            hS.default.entries_eq ▸ List.mem_map_of_mem he'
          exact hS.apart _ hb' b hb
        have hold0 : old.length ≠ 0 := hlen.trans_ne (hS.given.block b hb).2.1
        let s₁ := (s.setBlock p (some fresh)).setAlloc .given (⟨p, size, block⟩ :: (s.get .given).alloc)
        have hold₁ : s₁.heap b.1 = some old := (Function.update_of_ne hne.symm ..).trans hold
        have hfind₁ : s₁.pool.alloc.find? (fun e => e.mem == b.1) = some e :=
          (List.find?_cons_of_neg (by simpa using hne)).trans hfind
        rcases do_realloc_contents cfg (s := s₁) hb0 hptr hold₁ hold0 hfind₁
          (he.trans hlen.symm) hne (Function.update_self ..) hfresh with ⟨s', rel, hrealloc, hcontents⟩
        refine ⟨s', p, rel, ?_, Or.inl (by rw [if_neg hsize]; exact ⟨hp0, hcontents⟩)⟩
        simp only [drew_mem_psrealloc, hb0, hsize, if_false, drew_mem_psmalloc, halloc, hp0,
          Option.bind_eq_bind, Option.bind_some]
        rw [show do_realloc cfg _ .given b.1 p size = _ from hrealloc]
        rfl
  · rcases @do_allocate_of_refused cfg _ _ _ false _ hG hF with ⟨rel, hrun, -⟩
    refine ⟨s, 0, rel, ?_, Or.inr ⟨rfl, hold, rfl⟩⟩
    simp only [drew_mem_psrealloc, hb0, hsize, if_false, drew_mem_psmalloc, hrun, Option.bind_eq_bind,
      Option.bind_some, if_true]

/-- The live blocks after one block of one byte was allocated at 1. -/
def oneBlock (h : Handle) : Handle → List (Nat × Nat) :=
  Function.update (fun _ => []) h [(1, 1)]

theorem written_run (h : Handle) : Run linux (written h) (oneBlock h) := by
  have hstart : Run linux fresh fun _ => [] := Run.start (by intro h; cases h <;> rfl)
  have halloc : step linux h fresh (.psmalloc 1 (grant 1 1)) =
      some ((fresh.setBlock 1 (some [0])).setAlloc h [⟨1, 1, 1⟩], 1, []) := by
    cases h <;> rfl
  have hallowed : Allowed fresh (.psmalloc 1 (grant 1 1)) := fits_grant one_ne_zero rfl
  have hone : Run linux ((fresh.setBlock 1 (some [0])).setAlloc h [⟨1, 1, 1⟩]) (oneBlock h) :=
    hstart.next hallowed (by simp) halloc
  have hstore : Allowed ((fresh.setBlock 1 (some [0])).setAlloc h [⟨1, 1, 1⟩]) (.store 1 [7]) :=
    ⟨[0], by cases h <;> rfl, rfl⟩
  have hother : ∀ b ∈ oneBlock h h.other, b.1 ≠ Op.pointer (.store 1 [7]) := by
    cases h <;> simp [oneBlock, Handle.other]
  have hwritten : Run linux (written h) (Function.update (oneBlock h) h (oneBlock h h)) :=
    hone.next hstore hother rfl
  rwa [Function.update_eq_self] at hwritten

/-- Growing the only block of the default pool, which can be refused but not granted. -/
theorem psrealloc_default_undefined :
    (Run linux (written .null) (oneBlock .null) ∧ (1, 1) ∈ oneBlock .null .null ∧
      (written .null).heap 1 = some [7] ∧ Fits (written .null) 2 (grant 2 2)) ∧
    drew_mem_psrealloc linux (written .null) .null 1 2 (grant 2 2) = none ∧
      ¬ContentsKept linux (written .null) .null 1 [7] 2 (grant 2 2) := by
  have hnone : drew_mem_psrealloc linux (written .null) .null 1 2 (grant 2 2) = none := rfl
  refine ⟨⟨written_run .null, List.mem_singleton_self _, rfl, fits_grant two_ne_zero rfl⟩, hnone, ?_⟩
  rintro ⟨s', ret, rel, hrun, -⟩
  rw [hnone] at hrun
  cases hrun

/-- In another pool the block grows. -/
theorem contents_kept_iff_written :
    ContentsKept linux (written .given) .given 1 [7] 2 (grant 2 2) :=
  (contents_kept_iff linux (written .given) (oneBlock .given) (written_run .given) .given (1, 1)
    (List.mem_singleton_self _) [7] rfl 2 (grant 2 2) (fits_grant two_ne_zero rfl)).mpr
    fun h => Handle.noConfusion h.1

end Drew.Mem
