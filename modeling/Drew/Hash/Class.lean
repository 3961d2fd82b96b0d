import Mathlib.Tactic

/-!
# Classes of hash functions

A class of the library is used through the functions that the plugin calls. A message is given
in calls of the plain and of the fast update; the latter may be used at the end of a block, with
whole blocks.
-/

namespace Drew

/-- The functions of a class. `getDigest` includes the padding. -/
structure HashClass where
  State : Type
  blockSize : Nat
  reset : State
  update : State → List UInt8 → Option State
  updateFast : State → List UInt8 → Option State
  getDigest : State → Option (List UInt8)

namespace HashClass

/-- A call of `Update`, or of `UpdateFast`. -/
structure Call where
  fast : Bool
  data : List UInt8
  deriving DecidableEq

/-- The fast calls come at the end of a block and have whole blocks. No object has `2 ^ 63`
bytes or more. -/
def Admissible (blockSize : Nat) : Nat → List Call → Prop
  | _, [] => True
  | n, c :: cs =>
      c.data.length < 2 ^ 63 ∧
        (c.fast = true → n % blockSize = 0 ∧ c.data.length % blockSize = 0) ∧
        Admissible blockSize (n + c.data.length) cs

variable (K : HashClass)

def step (s : K.State) (c : Call) : Option K.State :=
  if c.fast then K.updateFast s c.data else K.update s c.data

/-- The digest of a message that is given in calls. -/
def digest (calls : List Call) : Option (List UInt8) :=
  (calls.foldlM K.step K.reset).bind K.getDigest

/-- The same calls, without the fast update. -/
def plain (calls : List Call) : List Call := calls.map fun c => { c with fast := false }

/-- The fast update makes no difference. -/
def Agrees (calls : List Call) : Prop := K.digest calls = K.digest (plain calls)

variable {K}

/-- Two runs from related states. Fast calls are only made where they are allowed. -/
theorem run_rel {R : Nat → K.State → K.State → Prop}
    (hplain : ∀ n s t data, R n s t → Option.Rel (R (n + data.length)) (K.update s data) (K.update t data))
    (hfast : ∀ n s t data, R n s t → n % K.blockSize = 0 → data.length % K.blockSize = 0 →
      Option.Rel (R (n + data.length)) (K.updateFast s data) (K.update t data))
    {n : Nat} {s t : K.State} (hR : R n s t) {calls : List Call}
    (hcalls : Admissible K.blockSize n calls) :
    Option.Rel (fun s t => ∃ n, R n s t) (calls.foldlM K.step s) ((plain calls).foldlM K.step t) := by
  induction calls generalizing n s t with
  | nil => exact .some ⟨n, hR⟩
  | cons c cs ih =>
    obtain ⟨-, hc, hcs⟩ := hcalls
    have hstep : Option.Rel (R (n + c.data.length)) (K.step s c) (K.update t c.data) := by
      unfold step
      cases hfc : c.fast with
      | false => exact hplain n s t c.data hR
      | true => exact hfast n s t c.data hR (hc hfc).1 (hc hfc).2
    rw [List.foldlM_cons, plain, List.map_cons, List.foldlM_cons]
    change Option.Rel _ ((K.step s c).bind _) ((K.update t c.data).bind _)
    cases hs : K.step s c with
    | none =>
      cases ht : K.update t c.data with
      | none => exact .none
      | some t' =>
        rw [hs, ht] at hstep
        cases hstep
    | some s' =>
      cases ht : K.update t c.data with
      | none =>
        rw [hs, ht] at hstep
        cases hstep
      | some t' =>
        rw [hs, ht] at hstep
        cases hstep with
        | some hR' => exact ih hR' hcs

/-- Where related states have the same digest, the fast update makes no difference. -/
theorem agrees_of_rel {R : Nat → K.State → K.State → Prop} (hreset : R 0 K.reset K.reset)
    (hplain : ∀ n s t data, R n s t → Option.Rel (R (n + data.length)) (K.update s data) (K.update t data))
    (hfast : ∀ n s t data, R n s t → n % K.blockSize = 0 → data.length % K.blockSize = 0 →
      Option.Rel (R (n + data.length)) (K.updateFast s data) (K.update t data))
    (hdigest : ∀ n s t, R n s t → K.getDigest s = K.getDigest t) {calls : List Call}
    (hcalls : Admissible K.blockSize 0 calls) : K.Agrees calls := by
  have hrun := run_rel hplain hfast hreset hcalls
  unfold Agrees digest
  cases hs : calls.foldlM K.step K.reset with
  | none =>
    cases ht : (plain calls).foldlM K.step K.reset with
    | none => rfl
    | some t =>
      rw [hs, ht] at hrun
      cases hrun
  | some s =>
    cases ht : (plain calls).foldlM K.step K.reset with
    | none =>
      rw [hs, ht] at hrun
      cases hrun
    | some t =>
      rw [hs, ht] at hrun
      cases hrun with
      | some hR =>
        obtain ⟨n, hR⟩ := hR
        exact hdigest n s t hR

/-- A class whose fast update is the plain one. -/
theorem agrees_of_same (h : K.updateFast = K.update) (calls : List Call) : K.Agrees calls := by
  have hstep : ∀ s c, K.step s c = K.step s { c with fast := false } := by
    intro s c
    unfold step
    rw [h]
    cases c.fast <;> rfl
  have hrun : ∀ s, calls.foldlM K.step s = (plain calls).foldlM K.step s := by
    induction calls with
    | nil => intro s; rfl
    | cons c cs ih =>
      intro s
      rw [List.foldlM_cons, plain, List.map_cons, List.foldlM_cons, hstep]
      exact congrArg _ (funext ih)
  rw [Agrees, digest, hrun, digest]

end HashClass

end Drew
