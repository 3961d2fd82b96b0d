import Mathlib.Tactic
import Drew.Memory.Keeps
import Drew.Prng.Arc4.Model

/-!
# Functions of ARC4Stir and ARC4Interleave

They are defined as long as there is something where the pointers point. Only `AddRandomData` and `GetByte`
change the two counters.
-/

namespace Drew.Prng.Arc4

open Drew.Memory

variable {v : Kind} {ks : List Nat} {P : Int → UInt64 → Prop} {s : Heap × Generator}

/-- The object has these pointers, and there is something where they point. -/
def Alive (ks : List Nat) (s : Heap × Generator) : Prop := s.2.ks = ks ∧ ∀ p ∈ ks, s.1 p ≠ none

/-- That, and something about the counters. -/
def Counting (ks : List Nat) (P : Int → UInt64 → Prop) (s : Heap × Generator) : Prop :=
  Alive ks s ∧ P s.2.cnt s.2.entropy

theorem keystream_keeps {α : Type} {n : Nat} (f : KeystreamGenerator → KeystreamGenerator × α)
    (hn : n < ks.length) : Keeps (Counting ks P) (keystream n f) := by
  rintro ⟨heap, g⟩ ⟨⟨rfl, hheap⟩, hP⟩
  let p := g.ks[n]
  have hp : g.ks[n]? = some p := List.getElem?_eq_getElem hn
  rcases Option.ne_none_iff_exists'.mp (hheap p (List.getElem_mem hn)) with ⟨k, hk⟩
  have hrun : keystream n f (heap, g) = some ((f k).2, (Function.update heap p (some (f k).1), g)) := by
    simp only [keystream, hp, Option.bind_eq_bind, Option.bind_some]
    rw [show heap p = some k from hk]
    rfl
  refine ⟨_, _, hrun, ⟨rfl, ?_⟩, hP⟩
  intro q hq
  by_cases hqp : q = p
  · simp [hqp]
  · simpa [hqp] using hheap q hq

theorem internalGetByte_keeps (hks : ks.length = v.count) : Keeps (Counting ks P) v.internalGetByte := by
  cases v with
  | stir => exact keystream_keeps _ (hks ▸ Nat.one_pos)
  | interleave =>
      have hindex : ∀ i : UInt32, (i % 4).toNat < ks.length := by
        intro i
        rw [hks, UInt32.toNat_mod]
        exact Nat.mod_lt _ (by decide)
      unfold Kind.internalGetByte
      apply Keeps.read.bind
      intro s
      apply (keystream_keeps _ (hindex _)).bind
      intro b1
      refine Keeps.bind ?_ fun _ => ?_
      · exact Keeps.change fun _ hs => hs
      apply Keeps.read.bind
      intro s'
      apply (keystream_keeps _ (hindex _)).bind
      intro b2
      exact Keeps.pure _

theorem stirAll_keeps (hks : ks.length = v.count) (tmp : List UInt8) :
    Keeps (Counting ks P) (v.stirAll tmp) := by
  apply Keeps.mapM
  intro n hn
  have hlt : n < ks.length := hks ▸ List.mem_range.mp hn
  exact (internalGetByte_keeps hks).bind fun jval => keystream_keeps _ hlt

/-- The count is set, and the entropy is credited. -/
theorem addRandomData_spec (hks : ks.length = v.count) (hs : Alive ks s) (data : List UInt8)
    (entropy : UInt64) :
    ∃ s', v.addRandomData data entropy s = some (⟨⟩, s') ∧ Alive ks s' ∧ s'.2.cnt = NBYTES ∧
      s'.2.entropy = addEntropy s.2.entropy entropy := by
  have hbyte : Keeps (Counting ks fun _ e => e = s.2.entropy) v.internalGetByte := internalGetByte_keeps hks
  have hblocks : Keeps (Counting ks fun _ e => e = s.2.entropy) ((v.blocks data).mapM fun block => do
      let tmp ← v.mixed block
      v.stirAll tmp) := by
    apply Keeps.mapM
    intro block _
    have hmixed : Keeps (Counting ks fun _ e => e = s.2.entropy) (v.mixed block) :=
      Keeps.mapM fun i _ => hbyte.bind fun b => Keeps.pure _
    exact hmixed.bind fun tmp => stirAll_keeps hks tmp
  have hdrop : Keeps (Counting ks fun _ e => e = s.2.entropy)
      ((List.range NDROP).mapM fun _ => v.internalGetByte) := Keeps.mapM fun _ _ => hbyte
  rcases hblocks s ⟨hs, rfl⟩ with ⟨out, s₁, hrun₁, hs₁⟩
  rcases hdrop s₁ hs₁ with ⟨out', s₂, hrun₂, hs₂, he⟩
  refine ⟨(s₂.1, { s₂.2 with cnt := NBYTES, entropy := addEntropy s₂.2.entropy entropy }), ?_, hs₂, rfl, ?_⟩
  · unfold Kind.addRandomData
    rw [bind_run hrun₁, bind_run hrun₂]
    rfl
  · exact congrArg (addEntropy · entropy) he

/-- What `Stir` credits. -/
def credit (env : Device) : UInt64 := UInt64.ofNat ((min env.nbytes 0 * 8) % 2 ^ 64).toNat

/-- A byte counts down, and where the count is over, the generator is stirred first. -/
theorem getByte_spec (hks : ks.length = v.count) (hs : Alive ks s) (env : Device) :
    ∃ b s', v.getByte env s = some (b, s') ∧ Alive ks s' ∧
      s'.2.cnt = (if s.2.cnt - 1 ≤ 0 then NBYTES else s.2.cnt - 1) ∧
      s'.2.entropy =
        subEntropy (if s.2.cnt - 1 ≤ 0 then addEntropy s.2.entropy (credit env) else s.2.entropy) 8 := by
  let s₁ : Heap × Generator := (s.1, { s.2 with cnt := s.2.cnt - 1 })
  have hs₁ : Alive ks s₁ := hs
  have hdue : ∃ s₂, v.stirDue env s₁ = some (⟨⟩, s₂) ∧ Alive ks s₂ ∧
      s₂.2.cnt = (if s.2.cnt - 1 ≤ 0 then NBYTES else s.2.cnt - 1) ∧
      s₂.2.entropy =
        (if s.2.cnt - 1 ≤ 0 then addEntropy s.2.entropy (credit env) else s.2.entropy) := by
    have hif : v.stirDue env s₁ = (if s.2.cnt - 1 ≤ 0 then v.stirDevice env else pure ⟨⟩ : M PUnit) s₁ := rfl
    rw [hif]
    by_cases hcnt : s.2.cnt - 1 ≤ 0
    · rcases addRandomData_spec hks hs₁ env.rnd (credit env) with ⟨s₂, hrun, hs₂, hc, he⟩
      refine ⟨s₂, ?_, hs₂, by rw [if_pos hcnt, hc], by rw [if_pos hcnt, he]⟩
      rw [if_pos hcnt]
      exact hrun
    · refine ⟨s₁, ?_, hs₁, by rw [if_neg hcnt], by rw [if_neg hcnt]⟩
      rw [if_neg hcnt]
      rfl
  rcases hdue with ⟨s₂, hrun₂, hs₂, hc₂, he₂⟩
  let s₃ : Heap × Generator := (s₂.1, { s₂.2 with entropy := subEntropy s₂.2.entropy 8 })
  have hbyte : Keeps (Counting ks fun c e => c = s₃.2.cnt ∧ e = s₃.2.entropy) v.internalGetByte :=
    internalGetByte_keeps hks
  rcases hbyte s₃ ⟨hs₂, rfl, rfl⟩ with ⟨b, s₄, hrun₄, hs₄, hc₄, he₄⟩
  refine ⟨b, s₄, ?_, hs₄, hc₄.trans hc₂, ?_⟩
  · unfold Kind.getByte
    have hcount : (modify fun s => (s.1, { s.2 with cnt := s.2.cnt - 1 }) : M PUnit) s = some (⟨⟩, s₁) := rfl
    rw [bind_run hcount, bind_run hrun₂]
    exact hrun₄
  · rw [he₄, ← he₂]

theorem addRandomData_keeps (hks : ks.length = v.count) (data : List UInt8) (entropy : UInt64) :
    Keeps (Alive ks) (v.addRandomData data entropy) := by
  intro s hs
  rcases addRandomData_spec hks hs data entropy with ⟨s', hrun, hs', -⟩
  exact ⟨⟨⟩, s', hrun, hs'⟩

theorem getBytes_keeps (hks : ks.length = v.count) (n : Nat) (env : Nat → Device) :
    Keeps (Alive ks) (v.getBytes n env) := by
  apply Keeps.mapM
  intro i _ s hs
  rcases getByte_spec hks hs (env i) with ⟨b, s', hrun, hs', -⟩
  exact ⟨b, s', hrun, hs'⟩

theorem getBytes_succ (n : Nat) (env : Nat → Device) :
    v.getBytes (n + 1) env = do
      let b ← v.getByte (env 0)
      let bs ← v.getBytes n fun i => env (i + 1)
      return b :: bs := by
  rw [Kind.getBytes, List.range_succ_eq_map, List.mapM_cons]
  simp only [List.mapM_map]
  rfl

/-- The new keystream generators are where the pointers point. -/
theorem construct_alive (heap : Heap) (ks : List Nat) (entropy : UInt64) (hks : ks.length = v.count) :
    Alive ks (v.construct heap ks entropy) := by
  refine ⟨rfl, ?_⟩
  have hfold : ∀ (l : List (Nat × Nat)) (heap : Heap) (p : Nat),
      p ∈ l.map Prod.fst ∨ heap p ≠ none →
        l.foldl (fun (h : Heap) k => Function.update h k.1 (some (KeystreamGenerator.new k.2))) heap p ≠
          none := by
    intro l
    induction l with
    | nil => exact fun heap p h => h.resolve_left (List.not_mem_nil)
    | cons k l ih =>
        intro heap p h
        apply ih
        by_cases hp : p = k.1
        · simp [hp]
        · have hrest : p ∈ l.map Prod.fst ∨ heap p ≠ none := by simpa [hp] using h
          exact hrest.imp_right fun hheap => by simpa [hp] using hheap
  intro p hp
  apply hfold
  left
  rw [List.map_fst_zip (by simp [hks])]
  exact hp

end Drew.Prng.Arc4
