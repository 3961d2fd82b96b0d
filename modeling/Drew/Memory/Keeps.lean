import Mathlib.Tactic

/-!
# Programs that are defined

A program changes a state and may be undefined. `Keeps P x` says that the program `x` is defined in every
state with the property `P`, and that the state still has it afterwards. There is a rule for each way in which
programs are put together.
-/

namespace Drew.Memory

universe u

variable {σ α β : Type u} {P : σ → Prop}

/-- The program is defined where the property holds, and keeps it. -/
def Keeps (P : σ → Prop) (x : StateT σ Option α) : Prop :=
  ∀ s, P s → ∃ a s', x s = some (a, s') ∧ P s'

/-- A program goes on from where its first part left off. -/
theorem bind_run {x : StateT σ Option α} {f : α → StateT σ Option β} {s s' : σ} {a : α}
    (h : x s = some (a, s')) : (x >>= f) s = f a s' := by
  show (x s).bind (fun r => f r.1 r.2) = _
  rw [h]
  rfl

namespace Keeps

theorem pure (a : α) : Keeps P (Pure.pure a : StateT σ Option α) := fun s hs => ⟨a, s, rfl, hs⟩

theorem bind {x : StateT σ Option α} {f : α → StateT σ Option β} (hx : Keeps P x)
    (hf : ∀ a, Keeps P (f a)) : Keeps P (x >>= f) := by
  intro s hs
  rcases hx s hs with ⟨a, s₁, hrun, hs₁⟩
  rcases hf a s₁ hs₁ with ⟨b, s₂, hrun', hs₂⟩
  exact ⟨b, s₂, (bind_run hrun).trans hrun', hs₂⟩

theorem read : Keeps P (get : StateT σ Option σ) := fun s hs => ⟨s, s, rfl, hs⟩

theorem change {f : σ → σ} (hf : ∀ s, P s → P (f s)) :
    Keeps P (modify f : StateT σ Option PUnit) := fun s hs => ⟨⟨⟩, f s, rfl, hf s hs⟩

theorem ite {c : Prop} [Decidable c] {x y : StateT σ Option α} (hx : Keeps P x) (hy : Keeps P y) :
    Keeps P (if c then x else y) := by
  split
  · exact hx
  · exact hy

theorem mapM {f : α → StateT σ Option β} {l : List α} (hf : ∀ a ∈ l, Keeps P (f a)) :
    Keeps P (l.mapM f) := by
  induction l with
  | nil => exact pure []
  | cons a l ih =>
      rw [List.mapM_cons]
      have hrest := ih fun a' ha' => hf a' (List.mem_cons_of_mem _ ha')
      exact (hf a List.mem_cons_self).bind fun b => hrest.bind fun bs => pure (b :: bs)

end Keeps

end Drew.Memory
