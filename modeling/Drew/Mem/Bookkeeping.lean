import Mathlib.Tactic
import Drew.Mem.Pool

/-!
# The list of a pool

A run carries the list of the live blocks beside the pool, each with its address and its size, as the
caller learns them from the results. Every function keeps the pool's list equal to it but one: when
`psrealloc` moves a block, the default pool is read through a null pointer, and another pool keeps
the entry of the old block, whose memory goes back to the system as it is.
-/

namespace Drew.Mem

/-! ## The live blocks -/

/-- The addresses and sizes in the list of a pool. -/
def entries (s : State) (h : Handle) : List (Nat × Nat) :=
  (s.get h).alloc.map fun e => (e.mem, e.size)

/-- The live blocks without the one at an address. -/
def drop (live : List (Nat × Nat)) (ptr : Nat) : List (Nat × Nat) :=
  live.filter fun b => b.1 ≠ ptr

/-- A block that was allocated is live, if there is one. -/
def add (live : List (Nat × Nat)) (ret size : Nat) : List (Nat × Nat) :=
  if ret = 0 then live else (ret, size) :: live

/-- The live blocks after an operation that returned a pointer. -/
def track (live : List (Nat × Nat)) (ret : Nat) : Op → List (Nat × Nat)
  | .psmalloc size _ => add live ret size
  | .pscalloc nmemb size _ => add live ret (nmemb * size % 2 ^ 64)
  | .psmemdup bs _ => add live ret bs.length
  | .psrealloc ptr size _ =>
      if ptr = 0 then add live ret size
      else if size = 0 then drop live ptr
      else if ret = 0 then live else (ret, size) :: drop live ptr
  | .psfree ptr => drop live ptr
  | .store _ _ => live

/-- The pool's list has exactly one entry for each live block and no other. -/
def Books (s : State) (h : Handle) (live : List (Nat × Nat)) : Prop :=
  (entries s h).Perm live ∧ (live.map Prod.fst).Nodup

/-- The live blocks that an operation leaves dead were released, and a live block is zero over its
whole size when it is. -/
def Wiped (live after : List (Nat × Nat)) (rel : Released) : Prop :=
  (∀ b ∈ live, b ∉ after → ∃ bs, (b.1, bs) ∈ rel) ∧
    ∀ b ∈ live, ∀ bs, (b.1, bs) ∈ rel → bs = List.replicate b.2 0

/-- An operation keeps the books and wipes what it releases. -/
def StepRight (cfg : Config) (h : Handle) (s : State) (live : List (Nat × Nat)) (op : Op) : Prop :=
  ∃ s' ret rel, step cfg h s op = some (s', ret, rel) ∧
    Books s' h (track live ret op) ∧ Wiped live (track live ret op) rel

/-- The system gives memory for the block and its entry, and `mlock` does not fail where it must not. -/
def Granted (s : State) (h : Handle) (size : Nat) (env : Env) : Prop :=
  size ≠ 0 ∧ env.mem ≠ none ∧ env.node = true ∧
    ¬((s.get h).noLock = false ∧ env.mlockFails = true ∧ (s.get h).failOk = false)

/-- The operation has a block moved. -/
def Moves (s : State) (h : Handle) : Op → Prop
  | .psrealloc ptr size env => ptr ≠ 0 ∧ Granted s h size env
  | _ => False

/-- Runs from a pool with an empty list, in which no block is moved. -/
inductive Reach (cfg : Config) (h : Handle) : State → List (Nat × Nat) → Prop
  | start {s : State} : (s.get h).alloc = [] → Reach cfg h s []
  | next {s s' : State} {live : List (Nat × Nat)} {op : Op} {ret : Nat} {rel : Released} :
      Reach cfg h s live → Allowed s op → ¬Moves s h op →
        step cfg h s op = some (s', ret, rel) → Reach cfg h s' (track live ret op)

/-- The invariant: the entries are the live blocks, which have distinct addresses and the memory that
their sizes say. -/
structure Inv (s : State) (h : Handle) (live : List (Nat × Nat)) : Prop where
  entries_eq : entries s h = live
  nodup : (live.map Prod.fst).Nodup
  block : ∀ b ∈ live, b.1 ≠ 0 ∧ ∃ bs, s.heap b.1 = some bs ∧ bs.length = b.2

namespace Inv

variable {s : State} {h : Handle} {live : List (Nat × Nat)}

theorem books (hI : Inv s h live) : Books s h live :=
  ⟨hI.entries_eq ▸ List.Perm.refl _, hI.nodup⟩

theorem nodup_mem (hI : Inv s h live) : ((s.get h).alloc.map Allocation.mem).Nodup := by
  have hnd := hI.nodup
  rw [← hI.entries_eq, entries, List.map_map] at hnd
  exact hnd

theorem ne_of_free (hI : Inv s h live) {p : Nat} (hp : s.heap p = none) : ∀ b ∈ live, b.1 ≠ p := by
  intro b hb hbp
  rcases hI.block b hb with ⟨-, bs, hbs, -⟩
  rw [hbp, hp] at hbs
  cases hbs

end Inv

/-! ## Lists with distinct keys -/

theorem eraseP_eq_filter {α : Type} (f : α → Nat) (a : Nat) :
    ∀ l : List α, (l.map f).Nodup →
      l.eraseP (fun e => f e == a) = l.filter fun e => f e ≠ a := by
  intro l
  induction l with
  | nil => intro _; rfl
  | cons x l ih =>
      intro h
      rcases List.nodup_cons.mp h with ⟨hx, hl⟩
      by_cases hxa : f x = a
      · have hkeep : ∀ e ∈ l, f e ≠ a := fun e he hea =>
          hx (hxa ▸ hea ▸ List.mem_map_of_mem he)
        have hall : l.filter (fun e => f e ≠ a) = l := by
          apply List.filter_eq_self.mpr
          intro e he
          simpa using hkeep e he
        simp only [List.eraseP_cons, hxa, beq_self_eq_true, cond_true, List.filter_cons,
          ne_eq, not_true_eq_false, decide_false, Bool.false_eq_true, if_false]
        exact hall.symm
      · have hne : (f x == a) = false := by simpa using hxa
        simp only [List.eraseP_cons, hne, cond_false, ih hl, List.filter_cons, ne_eq, hxa,
          not_false_eq_true, decide_true, if_true]

theorem drop_eq_self {live : List (Nat × Nat)} {ptr : Nat} (h : ∀ b ∈ live, b.1 ≠ ptr) :
    drop live ptr = live := by
  apply List.filter_eq_self.mpr
  intro b hb
  simpa using h b hb

theorem mem_drop {live : List (Nat × Nat)} {ptr : Nat} {b : Nat × Nat} :
    b ∈ drop live ptr ↔ b ∈ live ∧ b.1 ≠ ptr := by
  simp [drop]

theorem nodup_drop {live : List (Nat × Nat)} (ptr : Nat) (h : (live.map Prod.fst).Nodup) :
    ((drop live ptr).map Prod.fst).Nodup :=
  h.sublist (List.filter_sublist.map _)

/-! ## Allocation -/

section Allocation

variable {cfg : Config} {s : State} {h : Handle} {size : Nat} {clear : Bool} {env : Env}

theorem free_setBlock {p : Nat} (bs : List UInt8) (hp0 : p ≠ 0) (hp : s.heap p = none) :
    free (s.setBlock p (some bs)) p = some (s, [(p, bs)]) := by
  have hback : (s.setBlock p (some bs)).setBlock p none = s := by
    change ({ s with heap := Function.update (Function.update s.heap p (some bs)) p none } : State) = s
    rw [Function.update_idem, Function.update_eq_self_iff.mpr hp.symm]
  have hat : (s.setBlock p (some bs)).heap p = some bs := Function.update_self ..
  simp only [free, hp0, if_false, hat, Option.map_some, hback]

theorem create_entry_of_node (cfg : Config) (size : Nat) (secure : Bool) {p : Nat} (hp0 : p ≠ 0)
    (hnode : env.node = true) :
    ∃ block, create_entry cfg p size secure env = some ⟨p, size, block⟩ :=
  ⟨_, if_neg (not_or.mpr ⟨hp0, by simp [hnode]⟩)⟩

theorem create_entry_of_no_node {p : Nat} (hnode : env.node ≠ true) :
    create_entry cfg p size true env = none :=
  if_pos (Or.inr (Bool.eq_false_iff.mpr hnode))

/-- With memory for it there is a new block, whose entry comes first in the list. -/
theorem do_allocate_of_granted (hG : Granted s h size env) (hF : Fits s size env) :
    ∃ p bs block, p ≠ 0 ∧ s.heap p = none ∧ bs.length = size ∧
      do_allocate cfg s h size true clear env =
        some ((s.setBlock p (some bs)).setAlloc h (⟨p, size, block⟩ :: (s.get h).alloc), p, []) := by
  rcases hG with ⟨hsize, hmem, hnode, hlock⟩
  rcases Option.ne_none_iff_exists'.mp hmem with ⟨p, hp⟩
  rcases hF p hp with ⟨hp0, hfree, hlen⟩
  rcases create_entry_of_node cfg size true hp0 hnode with ⟨block, hentry⟩
  refine ⟨p, if clear then List.replicate size 0 else env.contents, block, hp0, hfree, ?_, ?_⟩
  · cases clear
    · exact hlen
    · exact List.length_replicate
  · simp only [do_allocate, hsize, if_false, hp, true_or, if_true, hentry, true_and, if_neg hlock]

/-- Otherwise null is returned and everything is as before. -/
theorem do_allocate_of_refused (hG : ¬Granted s h size env) (hF : Fits s size env) :
    ∃ rel, do_allocate cfg s h size true clear env = some (s, 0, rel) ∧
      ∀ r ∈ rel, s.heap r.1 = none := by
  by_cases hsize : size = 0
  · exact ⟨[], by simp [do_allocate, hsize], by simp⟩
  cases hp : env.mem with
  | none => exact ⟨[], by simp [do_allocate, hsize, hp], by simp⟩
  | some p =>
      rcases hF p hp with ⟨hp0, hfree, -⟩
      let bs := if clear then List.replicate size 0 else env.contents
      have hback : free (s.setBlock p (some bs)) p = some (s, [(p, bs)]) := free_setBlock bs hp0 hfree
      refine ⟨[(p, bs)], ?_, by simpa using hfree⟩
      by_cases hnode : env.node = true
      · have hlock : (s.get h).noLock = false ∧ env.mlockFails = true ∧ (s.get h).failOk = false := by
          by_contra hl
          exact hG ⟨hsize, by simp [hp], hnode, hl⟩
        rcases create_entry_of_node cfg size true hp0 hnode with ⟨block, hentry⟩
        simp only [do_allocate, hsize, if_false, hp, true_or, if_true, hentry, hlock, and_self, bs, hback,
          Option.map_some]
      · simp only [do_allocate, hsize, if_false, hp, true_or, if_true,
          create_entry_of_no_node hnode, bs, hback, Option.map_some]

end Allocation

/-! ## What keeps the invariant -/

section Invariant

variable {s : State} {h : Handle} {live : List (Nat × Nat)}

theorem entries_setAlloc (s : State) (h : Handle) (l : List Allocation) :
    entries (s.setAlloc h l) h = l.map fun e => (e.mem, e.size) := by
  simp [entries]

/-- A new block comes with its entry. -/
theorem Inv.add_block (hI : Inv s h live) {p size block : Nat} {bs : List UInt8} (hp0 : p ≠ 0)
    (hp : s.heap p = none) (hlen : bs.length = size) :
    Inv ((s.setBlock p (some bs)).setAlloc h (⟨p, size, block⟩ :: (s.get h).alloc)) h
      ((p, size) :: live) where
  entries_eq := by
    rw [entries_setAlloc, List.map_cons]
    exact congrArg _ hI.entries_eq
  nodup := by
    apply List.nodup_cons.mpr
    refine ⟨?_, hI.nodup⟩
    intro hmem
    rcases List.mem_map.mp hmem with ⟨b, hb, hbp⟩
    exact hI.ne_of_free hp b hb hbp
  block := by
    intro b hb
    rw [State.heap_setAlloc]
    rcases List.mem_cons.mp hb with rfl | hb
    · exact ⟨hp0, bs, Function.update_self .., hlen⟩
    · rcases hI.block b hb with ⟨hb0, old, hold, hlen⟩
      exact ⟨hb0, old, (Function.update_of_ne (hI.ne_of_free hp b hb) ..).trans hold, hlen⟩

/-- Writing to a block leaves the books alone. -/
theorem Inv.store (hI : Inv s h live) {p : Nat} {old bs : List UInt8} (hp : s.heap p = some old)
    (hlen : old.length = bs.length) : Inv (s.setBlock p (some bs)) h live where
  entries_eq := by
    rw [entries, State.get_setBlock]
    exact hI.entries_eq
  nodup := hI.nodup
  block := by
    intro b hb
    rcases hI.block b hb with ⟨hb0, bs', hbs', hsize⟩
    by_cases hbp : b.1 = p
    · rw [hbp, hp] at hbs'
      cases hbs'
      exact ⟨hb0, bs, hbp ▸ Function.update_self .., hlen.symm.trans hsize⟩
    · exact ⟨hb0, bs', (Function.update_of_ne hbp ..).trans hbs', hsize⟩

/-- A block that is released goes with its entry. -/
theorem Inv.drop_block (hI : Inv s h live) {s' : State} {ptr : Nat}
    (hentries : entries s' h = drop live ptr) (hheap : ∀ q, q ≠ ptr → s'.heap q = s.heap q) :
    Inv s' h (drop live ptr) where
  entries_eq := hentries
  nodup := nodup_drop ptr hI.nodup
  block := by
    intro b hb
    rcases mem_drop.mp hb with ⟨hb, hne⟩
    rcases hI.block b hb with ⟨hb0, bs, hbs, hsize⟩
    exact ⟨hb0, bs, (hheap _ hne).trans hbs, hsize⟩

/-- The entry of a live block is the one that is found. -/
theorem Inv.find (hI : Inv s h live) {b : Nat × Nat} (hb : b ∈ live) :
    ∃ e, (s.get h).alloc.find? (fun e => e.mem == b.1) = some e ∧ e.size = b.2 := by
  rw [← hI.entries_eq] at hb
  rcases List.mem_map.mp hb with ⟨e', he', rfl⟩
  cases hfind : (s.get h).alloc.find? (fun e => e.mem == e'.mem) with
  | none =>
      have hno := List.find?_eq_none.mp hfind e' he'
      simp at hno
  | some e =>
      have hkey : e.mem = e'.mem := by simpa using List.find?_some hfind
      have heq := List.inj_on_of_nodup_map hI.nodup_mem (List.mem_of_find?_eq_some hfind) he' hkey
      exact ⟨e, rfl, congrArg Allocation.size heq⟩

/-- No entry is found for memory that is not a live block of the pool. -/
theorem Inv.find_none (hI : Inv s h live) {ptr : Nat} (hptr : ∀ b ∈ live, b.1 ≠ ptr) :
    (s.get h).alloc.find? (fun e => e.mem == ptr) = none := by
  apply List.find?_eq_none.mpr
  intro e he hkey
  have hb : (e.mem, e.size) ∈ live := hI.entries_eq ▸ List.mem_map_of_mem he
  exact hptr _ hb (by simpa using hkey)

/-- `psfree` of a live block: the block is zero when it is released, and its entry is gone. -/
theorem psfree_live (hI : Inv s h live) {b : Nat × Nat} (hb : b ∈ live) :
    ∃ s', drew_mem_psfree s h b.1 = some (s', [(b.1, List.replicate b.2 0)]) ∧
      Inv s' h (drop live b.1) := by
  rcases hI.block b hb with ⟨hb0, bs, hbs, hsize⟩
  rcases hI.find hb with ⟨e, hfind, he⟩
  let rest := (s.get h).alloc.eraseP fun e => e.mem == b.1
  let s₀ := (s.setBlock b.1 (some (List.replicate b.2 0))).setAlloc h rest
  have hzero : memset0 s b.1 e.size = some (s.setBlock b.1 (some (List.replicate b.2 0))) := by
    have hdrop : bs.drop b.2 = [] := List.drop_eq_nil_of_le (le_of_eq hsize)
    simp only [memset0, hbs, Option.bind_eq_bind, Option.bind_some, he, if_pos (ge_of_eq hsize),
      hdrop, List.append_nil]
  have hat : s₀.heap b.1 = some (List.replicate b.2 0) := by
    rw [State.heap_setAlloc]
    exact Function.update_self ..
  have hfree : drew_mem_psfree s h b.1 =
      some (s₀.setBlock b.1 none, [(b.1, List.replicate b.2 0)]) := by
    simp only [drew_mem_psfree, hb0, if_false, hfind, hzero, Option.bind_eq_bind, Option.bind_some]
    exact (if_neg hb0).trans (by rw [hat]; rfl)
  refine ⟨_, hfree, hI.drop_block ?_ ?_⟩
  · have hentries : entries (s₀.setBlock b.1 none) h = rest.map fun e => (e.mem, e.size) := by
      simp [entries, s₀]
    rw [hentries, ← hI.entries_eq]
    simp only [rest, eraseP_eq_filter Allocation.mem b.1 _ hI.nodup_mem, entries, drop, List.filter_map]
    rfl
  · intro q hq
    change Function.update s₀.heap b.1 none q = s.heap q
    rw [Function.update_of_ne hq, State.heap_setAlloc]
    exact Function.update_of_ne hq ..

/-- `psfree` of memory from the system's allocator: it is released as it is. -/
theorem psfree_other (hI : Inv s h live) {ptr : Nat} {bs : List UInt8} (hptr0 : ptr ≠ 0)
    (hptr : ∀ b ∈ live, b.1 ≠ ptr) (hbs : s.heap ptr = some bs) :
    ∃ s', drew_mem_psfree s h ptr = some (s', [(ptr, bs)]) ∧ Inv s' h (drop live ptr) := by
  have hfree : drew_mem_psfree s h ptr = some (s.setBlock ptr none, [(ptr, bs)]) := by
    simp only [drew_mem_psfree, hptr0, if_false, hI.find_none hptr, free, hbs, Option.map_some]
  refine ⟨_, hfree, hI.drop_block ?_ ?_⟩
  · rw [drop_eq_self hptr, entries, State.get_setBlock]
    exact hI.entries_eq
  · intro q hq
    exact Function.update_of_ne hq ..

end Invariant

/-! ## Operations that move no block -/

section Steps

variable {cfg : Config} {s : State} {h : Handle} {live : List (Nat × Nat)}

theorem Inv.wiped_of_fresh (hI : Inv s h live) {after : List (Nat × Nat)} {rel : Released}
    (hkeep : ∀ b ∈ live, b ∈ after) (hrel : ∀ r ∈ rel, s.heap r.1 = none) : Wiped live after rel := by
  constructor
  · intro b hb hdead
    exact absurd (hkeep b hb) hdead
  · intro b hb bs hmem
    exact absurd rfl (hI.ne_of_free (hrel _ hmem) b hb)

theorem mem_add {b : Nat × Nat} (ret size : Nat) (hb : b ∈ live) : b ∈ add live ret size := by
  unfold add
  split
  · exact hb
  · exact List.mem_cons_of_mem _ hb

theorem do_allocate_keeps (hI : Inv s h live) {size : Nat} {clear : Bool} {env : Env}
    (hF : Fits s size env) :
    ∃ s' ret rel, do_allocate cfg s h size true clear env = some (s', ret, rel) ∧
      Inv s' h (add live ret size) ∧ Wiped live (add live ret size) rel := by
  by_cases hG : Granted s h size env
  · rcases @do_allocate_of_granted cfg _ _ _ clear _ hG hF with
      ⟨p, bs, block, hp0, hp, hlen, hrun⟩
    refine ⟨_, p, [], hrun, ?_, hI.wiped_of_fresh (fun b => mem_add p size) (by simp)⟩
    rw [add, if_neg hp0]
    exact hI.add_block hp0 hp hlen
  · rcases @do_allocate_of_refused cfg _ _ _ clear _ hG hF with ⟨rel, hrun, hrel⟩
    exact ⟨s, 0, rel, hrun, hI, hI.wiped_of_fresh (fun b => mem_add 0 size) hrel⟩

theorem psmemdup_keeps (hI : Inv s h live) {bs : List UInt8} {env : Env} (hF : Fits s bs.length env) :
    ∃ s' ret rel, drew_mem_psmemdup cfg s h bs env = some (s', ret, rel) ∧
      Inv s' h (add live ret bs.length) ∧ Wiped live (add live ret bs.length) rel := by
  rcases @do_allocate_keeps cfg _ _ _ hI _ false _ hF with ⟨s₁, p, rel, hrun, hI₁, hW⟩
  refine ⟨if p = 0 then s₁ else s₁.setBlock p (some bs), p, rel, ?_, ?_, hW⟩
  · simp only [drew_mem_psmemdup, hrun, Option.bind_eq_bind, Option.bind_some]
    rfl
  · split
    · exact hI₁
    · next hp0 =>
        have hmem : (p, bs.length) ∈ add live p bs.length := by
          rw [add, if_neg hp0]
          exact List.mem_cons_self
        rcases hI₁.block _ hmem with ⟨-, old, hold, hlen⟩
        exact hI₁.store hold hlen

theorem psfree_keeps (hI : Inv s h live) {ptr : Nat} (hptr : ptr = 0 ∨ ∃ bs, s.heap ptr = some bs) :
    ∃ s' rel, drew_mem_psfree s h ptr = some (s', rel) ∧
      Inv s' h (drop live ptr) ∧ Wiped live (drop live ptr) rel := by
  by_cases hptr0 : ptr = 0
  · have hdrop : drop live ptr = live := drop_eq_self fun b hb => hptr0 ▸ (hI.block b hb).1
    rw [hdrop]
    exact ⟨s, [], if_pos hptr0, hI, hI.wiped_of_fresh (fun b => id) (by simp)⟩
  rcases hptr.resolve_left hptr0 with ⟨bs, hbs⟩
  by_cases hlive : ∃ b ∈ live, b.1 = ptr
  · rcases hlive with ⟨b, hb, rfl⟩
    rcases psfree_live hI hb with ⟨s', hrun, hI'⟩
    have honly : ∀ b' ∈ live, b'.1 = b.1 → b' = b := fun b' hb' =>
      List.inj_on_of_nodup_map hI.nodup hb' hb
    refine ⟨s', _, hrun, hI', ?_, ?_⟩
    · intro b' hb' hdead
      have hkey : b'.1 = b.1 := by
        by_contra hne
        exact hdead (mem_drop.mpr ⟨hb', hne⟩)
      exact ⟨List.replicate b.2 0, List.mem_singleton.mpr (by rw [hkey])⟩
    · intro b' hb' bs' hmem
      rcases Prod.mk.inj (List.mem_singleton.mp hmem) with ⟨hkey, hzero⟩
      rw [honly b' hb' hkey]
      exact hzero
  · have hother : ∀ b ∈ live, b.1 ≠ ptr := fun b hb hbp => hlive ⟨b, hb, hbp⟩
    rcases psfree_other hI hptr0 hother hbs with ⟨s', hrun, hI'⟩
    refine ⟨s', _, hrun, hI', ?_, ?_⟩
    · intro b hb hdead
      exact absurd (mem_drop.mpr ⟨hb, hother b hb⟩) hdead
    · intro b hb bs' hmem
      exact absurd (congrArg Prod.fst (List.mem_singleton.mp hmem)) (hother b hb)

theorem step_keeps (hI : Inv s h live) {op : Op} (hA : Allowed s op) (hM : ¬Moves s h op) :
    ∃ s' ret rel, step cfg h s op = some (s', ret, rel) ∧
      Inv s' h (track live ret op) ∧ Wiped live (track live ret op) rel := by
  cases op with
  | psmalloc size env => exact do_allocate_keeps hI hA
  | pscalloc nmemb size env => exact do_allocate_keeps hI hA
  | psmemdup bs env => exact psmemdup_keeps hI hA
  | psfree ptr =>
      rcases psfree_keeps hI hA with ⟨s', rel, hrun, hkeep⟩
      exact ⟨s', 0, rel, by simp only [step, hrun, Option.map_some], hkeep⟩
  | store p bs =>
      rcases hA with ⟨old, hold, hlen⟩
      exact ⟨_, 0, [], rfl, hI.store hold hlen, hI.wiped_of_fresh (fun b => id) (by simp)⟩
  | psrealloc ptr size env =>
      rcases hA with ⟨hptr, hF⟩
      by_cases hptr0 : ptr = 0
      · simp only [step, drew_mem_psrealloc, track, hptr0, if_true]
        exact do_allocate_keeps hI hF
      by_cases hsize : size = 0
      · rcases psfree_keeps hI hptr with ⟨s', rel, hrun, hkeep⟩
        refine ⟨s', 0, rel, ?_, ?_⟩
        · simp only [step, drew_mem_psrealloc, hptr0, hsize, if_true, if_false, hrun, Option.map_some]
        · simpa only [track, hptr0, hsize, if_true, if_false] using hkeep
      · have hG : ¬Granted s h size env := fun hG => hM ⟨hptr0, hG⟩
        rcases @do_allocate_of_refused cfg _ _ _ false _ hG hF with ⟨rel, hrun, hrel⟩
        refine ⟨s, 0, rel, ?_, ?_⟩
        · simp only [step, drew_mem_psrealloc, hptr0, hsize, if_false, drew_mem_psmalloc, hrun,
            Option.bind_eq_bind, Option.bind_some, if_true]
        · simp only [track, hptr0, hsize, if_true, if_false]
          exact ⟨hI, hI.wiped_of_fresh (fun b => id) hrel⟩

/-- The run lemma. -/
theorem Reach.inv (hR : Reach cfg h s live) : Inv s h live := by
  induction hR with
  | start hnil => exact ⟨by simp [entries, hnil], List.nodup_nil, by simp⟩
  | next _ hA hM hrun ih =>
      rcases @step_keeps cfg _ _ _ ih _ hA hM with ⟨s', ret, rel, hrun', hI', -⟩
      rw [hrun] at hrun'
      cases hrun'
      exact hI'

end Steps

/-! ## Blocks that move -/

section Moved

variable {cfg : Config} {s : State} {h : Handle} {live : List (Nat × Nat)}

theorem free_pool {ptr : Nat} {r : State × Released} (hrun : free s ptr = some r) :
    r.1.pool = s.pool := by
  unfold free at hrun
  split at hrun
  · cases hrun
    rfl
  · rcases Option.map_eq_some_iff.mp hrun with ⟨bs, -, rfl⟩
    rfl

theorem pfree_pool {ptr : Nat} {r : State × Released} (hrun : drew_mem_pfree cfg s .null ptr = some r) :
    r.1.pool = s.pool := by
  unfold drew_mem_pfree at hrun
  split at hrun
  · unfold drew_mem_psfree at hrun
    split at hrun
    · cases hrun
      rfl
    · split at hrun
      · exact free_pool hrun
      · rcases Option.bind_eq_some_iff.mp hrun with ⟨s₁, hs₁, hrun⟩
        rcases Option.bind_eq_some_iff.mp hs₁ with ⟨bs, -, hs₁⟩
        split at hs₁
        · cases hs₁
          have hpool := free_pool hrun
          exact hpool
        · cases hs₁
  · exact free_pool hrun

/-- The list of the pool is as `psmalloc` left it, with an entry for the new block before all others. -/
theorem do_realloc_pool {ptr new size : Nat} {s' : State} {ret : Nat} {rel : Released}
    (hrun : do_realloc cfg s .given ptr new size = some (s', ret, rel)) :
    s'.pool = s.pool ∧ (ret = 0 ∨ ret = new ∧ ∃ e ∈ s.pool.alloc, e.mem = ptr) := by
  unfold do_realloc at hrun
  simp only at hrun
  split at hrun
  · rcases Option.map_eq_some_iff.mp hrun with ⟨r, hr, heq⟩
    cases heq
    exact ⟨free_pool hr, Or.inl rfl⟩
  · next hold =>
    have hentry : ∃ e ∈ s.pool.alloc, e.mem = ptr := by
      cases hfind : s.pool.alloc.find? (fun e => e.mem == ptr) with
      | none => exact absurd (by rw [hfind]; rfl) hold
      | some e => exact ⟨e, List.mem_of_find?_eq_some hfind, by simpa using List.find?_some hfind⟩
    rcases Option.bind_eq_some_iff.mp hrun with ⟨old, -, hrun⟩
    rcases Option.bind_eq_some_iff.mp hrun with ⟨fresh, -, hrun⟩
    split at hrun
    · rcases Option.bind_eq_some_iff.mp hrun with ⟨r, hr, heq⟩
      cases heq
      have hpool := pfree_pool hr
      exact ⟨hpool, Or.inr ⟨rfl, hentry⟩⟩
    · cases hrun

/-- A move is undefined for the default pool, and leaves the list of another pool with an entry too
many. -/
theorem not_stepRight_of_moves (hI : Inv s h live) {op : Op} (hA : Allowed s op) (hM : Moves s h op) :
    ¬StepRight cfg h s live op := by
  cases op with
  | psmalloc size env => exact hM.elim
  | pscalloc nmemb size env => exact hM.elim
  | psmemdup bs env => exact hM.elim
  | psfree ptr => exact hM.elim
  | store p bs => exact hM.elim
  | psrealloc ptr size env =>
      rcases hA with ⟨hptr, hF⟩
      rcases hM with ⟨hptr0, hG⟩
      rcases hptr.resolve_left hptr0 with ⟨old, hold⟩
      rcases @do_allocate_of_granted cfg _ _ _ false _ hG hF with
        ⟨p, bs, block, hp0, hp, hlen, halloc⟩
      let s₁ := (s.setBlock p (some bs)).setAlloc h (⟨p, size, block⟩ :: (s.get h).alloc)
      have hentries : entries s₁ h = (p, size) :: live := (hI.add_block hp0 hp hlen).entries_eq
      rintro ⟨s', ret, rel, hrun, ⟨hperm, -⟩, -⟩
      simp only [step, drew_mem_psrealloc, hptr0, hG.1, if_false, drew_mem_psmalloc, halloc, hp0,
        Option.bind_eq_bind, Option.bind_some] at hrun
      rcases Option.bind_eq_some_iff.mp hrun with ⟨⟨s₂, ret₂, rel₂⟩, hrealloc, heq⟩
      cases heq
      cases h with
      | null => cases hrealloc
      | given =>
          rcases do_realloc_pool hrealloc with ⟨hpool, hret⟩
          have hsame : entries s₂ .given = (p, size) :: live := by
            rw [← hentries]
            exact congrArg (fun q : Pool => q.alloc.map fun e => (e.mem, e.size)) hpool
          have hcount := hperm.length_eq
          rw [hsame, track, if_neg hptr0, if_neg hG.1] at hcount
          rcases hret with rfl | ⟨hret, e, he, hkey⟩
          · simp at hcount
          · have hne : e.mem ≠ p := by
              intro hep
              rw [← hkey, hep, hp] at hold
              cases hold
            have he' : e ∈ s.pool.alloc := by
              rcases List.mem_cons.mp he with rfl | he'
              · exact absurd rfl hne
              · exact he'
            have hb : (e.mem, e.size) ∈ live := hI.entries_eq ▸ List.mem_map_of_mem he'
            have hfewer : (drop live ptr).length < live.length :=
              List.length_filter_lt_length_iff_exists.mpr ⟨_, hb, by simpa using hkey⟩
            rw [hret, if_neg hp0, List.length_cons, List.length_cons] at hcount
            omega

end Moved

/-! ## Runs -/

/-- The list of a pool in every run: while no block is moved it has exactly one entry for each live
block, and blocks are wiped when they are released; an operation goes wrong when it moves a block,
and only then. -/
theorem bookkeeping_iff_no_move (cfg : Config) (h : Handle) (s : State) (live : List (Nat × Nat))
    (hR : Reach cfg h s live) :
    Books s h live ∧ (∀ b ∈ live, b.1 ≠ 0 ∧ ∃ bs, s.heap b.1 = some bs ∧ bs.length = b.2) ∧
      ∀ op, Allowed s op → (StepRight cfg h s live op ↔ ¬Moves s h op) := by
  have hI := hR.inv
  refine ⟨hI.books, hI.block, ?_⟩
  intro op hA
  constructor
  · exact fun hright hM => not_stepRight_of_moves hI hA hM hright
  · intro hM
    rcases step_keeps hI hA hM with ⟨s', ret, rel, hrun, hI', hW⟩
    exact ⟨s', ret, rel, hrun, hI'.books, hW⟩

/-- A state without any blocks. -/
def fresh : State :=
  ⟨⟨false, false, []⟩, ⟨false, false, []⟩, fun _ => none⟩

/-- An answer with memory at an address. -/
def grant (p size : Nat) : Env :=
  ⟨some p, List.replicate size 0, true, false⟩

/-- A build with `ODD_MLOCK_OK` and without `ALWAYS_ZERO`. -/
def linux : Config :=
  ⟨true, false, 4096⟩

/-- The state after a block of one byte was allocated at 1 and written. -/
def written (h : Handle) : State :=
  ((fresh.setBlock 1 (some [0])).setAlloc h [⟨1, 1, 1⟩]).setBlock 1 (some [7])

theorem fits_grant {s : State} {p size : Nat} (hp0 : p ≠ 0) (hp : s.heap p = none) :
    Fits s size (grant p size) := by
  intro q hq
  cases hq
  exact ⟨hp0, hp, List.length_replicate⟩

theorem written_reach (h : Handle) : Reach linux h (written h) [(1, 1)] := by
  have hstart : Reach linux h fresh [] := Reach.start (by cases h <;> rfl)
  have halloc : step linux h fresh (.psmalloc 1 (grant 1 1)) =
      some ((fresh.setBlock 1 (some [0])).setAlloc h [⟨1, 1, 1⟩], 1, []) := by
    cases h <;> rfl
  have hstore : Allowed ((fresh.setBlock 1 (some [0])).setAlloc h [⟨1, 1, 1⟩]) (.store 1 [7]) :=
    ⟨[0], by cases h <;> rfl, rfl⟩
  have hallowed : Allowed fresh (.psmalloc 1 (grant 1 1)) := fits_grant one_ne_zero rfl
  exact (hstart.next hallowed id halloc).next hstore id rfl

theorem written_allowed (h : Handle) : Allowed (written h) (.psrealloc 1 2 (grant 2 2)) :=
  ⟨Or.inr ⟨[7], by cases h <;> rfl⟩, fits_grant two_ne_zero (by cases h <;> rfl)⟩

/-- Growing a block: undefined for the default pool; in another pool the entry of the old block stays,
and its memory is released with what the caller wrote to it. -/
theorem psrealloc_keeps_old_entry :
    (Reach linux .null (written .null) [(1, 1)] ∧
      Allowed (written .null) (.psrealloc 1 2 (grant 2 2)) ∧
      step linux .null (written .null) (.psrealloc 1 2 (grant 2 2)) = none) ∧
    Reach linux .given (written .given) [(1, 1)] ∧
      Allowed (written .given) (.psrealloc 1 2 (grant 2 2)) ∧
      (∃ s', step linux .given (written .given) (.psrealloc 1 2 (grant 2 2)) =
          some (s', 2, [(1, [7])]) ∧ entries s' .given = [(2, 2), (1, 1)]) ∧
      ¬StepRight linux .given (written .given) [(1, 1)] (.psrealloc 1 2 (grant 2 2)) := by
  have hmoves : Moves (written .given) .given (.psrealloc 1 2 (grant 2 2)) :=
    ⟨one_ne_zero, two_ne_zero, Option.some_ne_none 2, rfl, by simp [grant]⟩
  refine ⟨⟨written_reach .null, written_allowed .null, rfl⟩, written_reach .given,
    written_allowed .given, ⟨_, rfl, rfl⟩, ?_⟩
  exact not_stepRight_of_moves (written_reach .given).inv (written_allowed .given) hmoves

/-- Freeing the block in that state is right. -/
theorem bookkeeping_iff_no_move_written :
    Books (written .given) .given [(1, 1)] ∧
      StepRight linux .given (written .given) [(1, 1)] (.psfree 1) := by
  rcases bookkeeping_iff_no_move linux .given (written .given) [(1, 1)] (written_reach .given) with
    ⟨hbooks, -, hstep⟩
  exact ⟨hbooks, (hstep (.psfree 1) (Or.inr ⟨[7], rfl⟩)).mpr id⟩

end Drew.Mem

/-!
## Cleared blocks

`pcalloc` and `pscalloc` multiply two words and hand the product, which is a word again, to the
common allocator. What the allocator returns is as large as that word says and cleared, so a caller
gets too little exactly when the product wraps around and the allocator serves the rest.
-/

namespace Drew.Mem

/-- The system gives what a request for a block needs: memory, an entry for the list if there is to
be one, and for a secure block `mlock`, where it must not fail. -/
def Served (cfg : Config) (s : State) (h : Handle) (size : Nat) (secure : Bool) (env : Env) : Prop :=
  size ≠ 0 ∧ env.mem ≠ none ∧ ((secure = true ∨ cfg.alwaysZero = true) → env.node = true) ∧
    ¬(secure = true ∧ (s.get h).noLock = false ∧ env.mlockFails = true ∧ (s.get h).failOk = false)

/-- A call failed or returned a cleared block of so many bytes at least. -/
def ClearedOrFailed (n : Nat) (r : Option (State × Nat × Released)) : Prop :=
  ∃ s p rel, r = some (s, p, rel) ∧
    (p = 0 ∨ ∃ bs, s.heap p = some bs ∧ n ≤ bs.length ∧ ∀ b ∈ bs, b = 0)

section Calloc

variable {cfg : Config} {s : State} {h : Handle} {size : Nat} {secure : Bool} {env : Env}

/-- A cleared block of a request that is served. -/
theorem do_allocate_of_served (hS : Served cfg s h size secure env) (hF : Fits s size env) :
    ∃ s' p, p ≠ 0 ∧ do_allocate cfg s h size secure true env = some (s', p, []) ∧
      s'.heap p = some (List.replicate size 0) := by
  rcases hS with ⟨hsize, hmem, hnode, hlock⟩
  rcases Option.ne_none_iff_exists'.mp hmem with ⟨p, hp⟩
  have hp0 : p ≠ 0 := (hF p hp).1
  let s₁ := s.setBlock p (some (List.replicate size 0))
  have hat : s₁.heap p = some (List.replicate size 0) := Function.update_self ..
  by_cases hentry : secure = true ∨ cfg.alwaysZero = true
  · rcases create_entry_of_node cfg size secure hp0 (hnode hentry) with ⟨block, he⟩
    refine ⟨s₁.setAlloc h (⟨p, size, block⟩ :: (s.get h).alloc), p, hp0, ?_, ?_⟩
    · simp only [do_allocate, hsize, if_false, hp, if_true, if_pos hentry, he, if_neg hlock, s₁]
    · rw [State.heap_setAlloc]
      exact hat
  · refine ⟨s₁, p, hp0, ?_, hat⟩
    simp only [do_allocate, hsize, if_false, hp, if_true, if_neg hentry, s₁]

/-- A request that is not served gives null. -/
theorem do_allocate_of_not_served (hS : ¬Served cfg s h size secure env) (hF : Fits s size env) :
    ∃ s' rel, do_allocate cfg s h size secure true env = some (s', 0, rel) := by
  by_cases hsize : size = 0
  · exact ⟨s, [], if_pos hsize⟩
  cases hp : env.mem with
  | none => exact ⟨s, [], by simp only [do_allocate, hsize, if_false, hp]⟩
  | some p =>
      rcases hF p hp with ⟨hp0, hfree, -⟩
      have hback := free_setBlock (List.replicate size 0) hp0 hfree
      have hentry : secure = true ∨ cfg.alwaysZero = true := by
        by_contra hno
        exact hS ⟨hsize, by simp [hp], fun h => absurd h hno, fun h => hno (Or.inl h.1)⟩
      refine ⟨s, [(p, List.replicate size 0)], ?_⟩
      by_cases hnode : env.node = true
      · have hlock : secure = true ∧ (s.get h).noLock = false ∧ env.mlockFails = true ∧
            (s.get h).failOk = false := by
          by_contra hl
          exact hS ⟨hsize, by simp [hp], fun _ => hnode, hl⟩
        rcases create_entry_of_node cfg size secure hp0 hnode with ⟨block, he⟩
        simp only [do_allocate, hsize, if_false, hp, if_true, if_pos hentry, he, if_pos hlock, hback,
          Option.map_some]
      · have hnew : p = 0 ∨ env.node = false := Or.inr (Bool.eq_false_iff.mpr hnode)
        simp only [do_allocate, hsize, if_false, hp, if_true, if_pos hentry, create_entry, if_pos hnew,
          hback, Option.map_some]

/-- The block is as large as the word says to which the product wraps around. -/
theorem do_allocate_clearedOrFailed (n : Nat) (hF : Fits s (n % 2 ^ 64) env) :
    ClearedOrFailed n (do_allocate cfg s h (n % 2 ^ 64) secure true env) ↔
      n < 2 ^ 64 ∨ ¬Served cfg s h (n % 2 ^ 64) secure env := by
  by_cases hS : Served cfg s h (n % 2 ^ 64) secure env
  · rcases do_allocate_of_served hS hF with ⟨s', p, hp0, hrun, hat⟩
    have hle : n ≤ n % 2 ^ 64 ↔ n < 2 ^ 64 := by omega
    rw [ClearedOrFailed, hrun]
    constructor
    · rintro ⟨s'', p', rel, heq, hright⟩
      cases heq
      rcases hright with hp | ⟨bs, hbs, hlen, -⟩
      · exact absurd hp hp0
      · rw [hat] at hbs
        cases hbs
        rw [List.length_replicate] at hlen
        exact Or.inl (hle.mp hlen)
    · rintro (hn | hno)
      · refine ⟨s', p, [], rfl, Or.inr ⟨_, hat, ?_, fun b => List.eq_of_mem_replicate⟩⟩
        rw [List.length_replicate]
        exact hle.mpr hn
      · exact absurd hS hno
  · rcases do_allocate_of_not_served hS hF with ⟨s', rel, hrun⟩
    exact iff_of_true ⟨s', 0, rel, hrun, Or.inl rfl⟩ (Or.inr hS)

end Calloc

/-- `pcalloc` and `pscalloc` fail or return a cleared block for the whole product exactly if the
product is a word or the request for what is left of it is refused, as one for zero bytes is. -/
theorem calloc_whole_iff (cfg : Config) (s : State) (h : Handle) (nmemb size : Nat) (env : Env)
    (hF : Fits s (nmemb * size % 2 ^ 64) env) :
    (ClearedOrFailed (nmemb * size) (drew_mem_pcalloc cfg s h nmemb size env) ↔
        nmemb * size < 2 ^ 64 ∨ ¬Served cfg s h (nmemb * size % 2 ^ 64) false env) ∧
      (ClearedOrFailed (nmemb * size) (drew_mem_pscalloc cfg s h nmemb size env) ↔
        nmemb * size < 2 ^ 64 ∨ ¬Served cfg s h (nmemb * size % 2 ^ 64) true env) :=
  ⟨do_allocate_clearedOrFailed _ hF, do_allocate_clearedOrFailed _ hF⟩

/-- Two bytes for 2⁶³ + 1 elements of two bytes. -/
theorem calloc_wraps :
    Fits fresh ((2 ^ 63 + 1) * 2 % 2 ^ 64) (grant 1 2) ∧
      ¬ClearedOrFailed ((2 ^ 63 + 1) * 2) (drew_mem_pcalloc linux fresh .null (2 ^ 63 + 1) 2 (grant 1 2)) ∧
      ¬ClearedOrFailed ((2 ^ 63 + 1) * 2)
        (drew_mem_pscalloc linux fresh .null (2 ^ 63 + 1) 2 (grant 1 2)) := by
  have hF : Fits fresh ((2 ^ 63 + 1) * 2 % 2 ^ 64) (grant 1 2) := fits_grant one_ne_zero rfl
  have hserved : ∀ secure, Served linux fresh .null ((2 ^ 63 + 1) * 2 % 2 ^ 64) secure (grant 1 2) :=
    fun secure => ⟨by norm_num, Option.some_ne_none 1, fun _ => rfl, by simp [grant]⟩
  refine ⟨hF, ?_, ?_⟩
  all_goals
    intro h
    rcases (do_allocate_clearedOrFailed _ hF).mp h with hlt | hno
    · norm_num at hlt
    · exact hno (hserved _)

/-- Two elements of three bytes. -/
theorem calloc_whole_iff_six :
    ClearedOrFailed (2 * 3) (drew_mem_pcalloc linux fresh .null 2 3 (grant 1 6)) ∧
      ClearedOrFailed (2 * 3) (drew_mem_pscalloc linux fresh .null 2 3 (grant 1 6)) := by
  have h := calloc_whole_iff linux fresh .null 2 3 (grant 1 6) (fits_grant one_ne_zero rfl)
  exact ⟨h.1.mpr (Or.inl (by norm_num)), h.2.mpr (Or.inl (by norm_num))⟩

end Drew.Mem
