import Drew.Hash.Class
import Drew.Hash.Skein.Update

/-!
# The fast update of Skein

The template's fast update counts all bytes before the first block, and it processes its blocks
even if an earlier one is held back. So it is right only for single blocks at the beginning of a
message that has more data in plain calls (`FastFirst`).

For the other direction the steps are noted: a step with a wrong position stays in the list,
whatever follows (`wrong_position`).
-/

namespace Drew.Skein

open Drew.Memory Drew.HashClass

variable {σ : Type} {ubi : σ → Step → σ} {s : σ} {m data : List UInt8} {h h' : Skein σ} {q : Nat}

/-- The class, as the plugin uses it. -/
abbrev hashClass (ubi : σ → Step → σ) (copy : σ → List UInt8) (s : σ) : HashClass where
  State := Skein σ
  blockSize := 64
  reset := reset s
  update := update ubi
  updateFast h data := some (updateFast ubi h data)
  getDigest := getDigest ubi copy

/-- The message of some calls. -/
def messageOf (calls : List Call) : List UInt8 := (calls.map Call.data).flatten

/-- Fast calls with data have one block each, come before all plain calls with data, and are
followed by one. `started` says that there were fast ones before. -/
def FastFirst : Bool → List Call → Prop
  | started, [] => started = false
  | started, c :: cs =>
      if c.data = [] then FastFirst started cs
      else if c.fast then c.data.length = 64 ∧ FastFirst true cs
      else ∀ d ∈ cs, d.fast = true → d.data = []

instance : (started : Bool) → (calls : List Call) → Decidable (FastFirst started calls)
  | started, [] => inferInstanceAs (Decidable (started = false))
  | started, c :: cs =>
      haveI := instDecidableFastFirst started cs
      haveI := instDecidableFastFirst true cs
      inferInstanceAs (Decidable (if c.data = [] then FastFirst started cs
        else if c.fast then c.data.length = 64 ∧ FastFirst true cs
        else ∀ d ∈ cs, d.fast = true → d.data = []))

/-- All steps of a message. -/
def allSteps (m : List UInt8) : List Step := steps (before m) m ++ [lastStep (before m) m]

def outStep : Step := ⟨List.replicate 64 0, 8, typeOut ||| bitFirst ||| bitFinal⟩

/-! ## Calls that make no difference -/

section Good

variable {copy : σ → List UInt8} {cs : List Call}

theorem updateFast_nil (h : Skein σ) : updateFast ubi h [] = h := by
  have hcount : count h 0 = h := by
    unfold count
    rw [show h.len0 + BitVec.ofNat 64 0 = h.len0 from BitVec.add_zero _]
  exact hcount

theorem step_nil {c : Call} (hc : c.data = []) : (hashClass ubi copy s).step h c = some h := by
  unfold HashClass.step
  rw [hc]
  cases c.fast with
  | false => rfl
  | true => exact congrArg some (updateFast_nil h)

theorem step_plain {c : Call} (hc : c.fast = false) :
    (hashClass ubi copy s).step h c = update ubi h c.data := by
  unfold HashClass.step
  rw [hc]
  rfl

theorem step_fast {c : Call} (hc : c.fast = true) :
    (hashClass ubi copy s).step h c = some (updateFast ubi h c.data) := by
  unfold HashClass.step
  rw [hc]
  rfl

theorem run_cons {h₁ : Skein σ} {c : Call} (hstep : (hashClass ubi copy s).step h c = some h₁) :
    (c :: cs).foldlM (hashClass ubi copy s).step h = cs.foldlM (hashClass ubi copy s).step h₁ := by
  rw [List.foldlM_cons]
  exact congrArg (Option.bind · _) hstep

theorem messageOf_cons (c : Call) (cs : List Call) :
    messageOf (c :: cs) = c.data ++ messageOf cs := rfl

/-- Once a block may be held back, no fast call has data. -/
theorem Held.run (hh : Held ubi s (before m) m h)
    (hcs : ∀ d ∈ cs, d.fast = true → d.data = []) :
    ∃ h', cs.foldlM (hashClass ubi copy s).step h = some h' ∧
      Held ubi s (before (m ++ messageOf cs)) (m ++ messageOf cs) h' := by
  induction cs generalizing m h with
  | nil => exact ⟨h, rfl, by rwa [messageOf, List.map_nil, List.flatten_nil, List.append_nil]⟩
  | cons c cs ih =>
    have hrest : ∀ d ∈ cs, d.fast = true → d.data = [] :=
      fun d hd => hcs d (List.mem_cons_of_mem c hd)
    rw [messageOf_cons, ← List.append_assoc]
    by_cases hnil : c.data = []
    · rw [run_cons (step_nil hnil), hnil, List.append_nil]
      exact ih hh hrest
    · have hplain : c.fast = false := by
        by_contra hfast
        exact hnil (hcs c List.mem_cons_self (Bool.eq_true_of_not_eq_false hfast))
      obtain ⟨h₁, hupdate, hh₁⟩ := hh.update c.data
      rw [run_cons ((step_plain hplain).trans hupdate)]
      exact ih hh₁ hrest

theorem Opened.held (ho : Opened ubi s [] h) : Held ubi s 0 [] h := by
  have hdone : Done ubi s 0 [] h := ho.done
  refine ⟨hdone, ?_, Nat.zero_le _, ho.full⟩
  rw [List.drop_nil]
  exact Buf.holds_nil (Nat.zero_le _)

/-- The single blocks that come first are processed as they would be later. -/
theorem Opened.run {started : Bool} (ho : Opened ubi s m h) (hm : m.length % 64 = 0)
    (hstarted : started = false → m = []) (hcs : FastFirst started cs) :
    ∃ h', cs.foldlM (hashClass ubi copy s).step h = some h' ∧
      Held ubi s (before (m ++ messageOf cs)) (m ++ messageOf cs) h' := by
  induction cs generalizing m h started with
  | nil =>
    obtain rfl := hstarted hcs
    exact ⟨h, rfl, ho.held⟩
  | cons c cs ih =>
    rw [messageOf_cons, ← List.append_assoc]
    unfold FastFirst at hcs
    by_cases hnil : c.data = []
    · rw [if_pos hnil] at hcs
      rw [run_cons (step_nil hnil), hnil, List.append_nil]
      exact ih ho hm hstarted hcs
    · rw [if_neg hnil] at hcs
      cases hfast : c.fast with
      | true =>
        rw [hfast, if_pos rfl] at hcs
        obtain ⟨hlen, hrest⟩ := hcs
        rw [run_cons (step_fast hfast)]
        refine ih (ho.updateFast hm hlen) ?_ (fun hf => by cases hf) hrest
        rw [List.length_append, hlen]
        omega
      | false =>
        rw [hfast, if_neg Bool.false_ne_true] at hcs
        obtain ⟨h₁, hupdate, hh₁⟩ := ho.update hnil
        rw [run_cons ((step_plain hfast).trans hupdate)]
        exact hh₁.run hcs

theorem Held.digest (hh : Held ubi s (before m) m h) :
    getDigest ubi copy h = some (copy (ubi ((allSteps m).foldl ubi s) outStep)) := by
  obtain ⟨h', hpad, hhash⟩ := hh.pad
  simp only [getDigest, hpad, hhash, Option.bind_eq_bind, Option.bind_some, pure]
  rfl

theorem digest_of_fastFirst (hcs : FastFirst false cs) : (hashClass ubi copy s).digest cs =
    some (copy (ubi ((allSteps (messageOf cs)).foldl ubi s) outStep)) := by
  obtain ⟨h', hrun, hh⟩ : ∃ h', cs.foldlM (hashClass ubi copy s).step (reset s) = some h' ∧
      Held ubi s (before (messageOf cs)) (messageOf cs) h' :=
    (opened_nil ubi s).run rfl (fun _ => rfl) hcs
  rw [HashClass.digest]
  change (cs.foldlM (hashClass ubi copy s).step (reset s)).bind _ = _
  rw [hrun]
  exact hh.digest

theorem messageOf_plain (cs : List Call) : messageOf (plain cs) = messageOf cs := by
  rw [messageOf, messageOf, plain, List.map_map]
  rfl

theorem fastFirst_plain (cs : List Call) : FastFirst false (plain cs) := by
  induction cs with
  | nil => rfl
  | cons c cs ih =>
    change FastFirst false (_ :: plain cs)
    unfold FastFirst
    by_cases hnil : c.data = []
    · rw [if_pos hnil]
      exact ih
    · rw [if_neg hnil, if_neg Bool.false_ne_true]
      intro d hd hfast
      obtain ⟨c', -, rfl⟩ := List.mem_map.mp hd
      cases hfast

theorem agrees_of_fastFirst (hcs : FastFirst false cs) : (hashClass ubi copy s).Agrees cs := by
  rw [Agrees, digest_of_fastFirst hcs, digest_of_fastFirst (fastFirst_plain cs), messageOf_plain]

end Good

/-! ## Calls that do -/

section Bad

/-- Note the steps. -/
def note (log : List Step) (e : Step) : List Step := log ++ [e]

theorem foldl_note (es log : List Step) : es.foldl note log = log ++ es := by
  induction es generalizing log with
  | nil => rw [List.foldl_nil, List.append_nil]
  | cons e es ih => rw [List.foldl_cons, ih, note, List.append_assoc, List.singleton_append]

variable {h h₁ h₂ : Skein (List Step)} {cs : List Call} {copy : List Step → List UInt8}

/-! ### Steps stay noted -/

theorem transform_keeps (h : Skein (List Step)) (data : List UInt8) (final : Bool) :
    h.hash <+: (transform note h data final).hash := List.prefix_append _ _

theorem wholeBlocks_keeps (k : Nat) (h : Skein (List Step)) (data : List UInt8) :
    h.hash <+: (wholeBlocks note k h data).1.hash := by
  induction k generalizing h data with
  | zero => exact List.prefix_rfl
  | succ k ih =>
    exact (transform_keeps (count h 64) (data.take 64) false).trans (ih _ _)

theorem release_keeps (h : Skein (List Step)) : h.hash <+: (release note h).hash := by
  unfold release
  dsimp only
  split
  · exact transform_keeps h _ false
  · exact List.prefix_rfl

theorem updateShort_keeps {off : Nat} (hu : updateShort h off data = some h₁) :
    h.hash <+: h₁.hash := by
  obtain ⟨w, -, hu⟩ := Option.bind_eq_some_iff.mp hu
  cases hu
  exact List.prefix_rfl

theorem fill_keeps {off : Nat} {rest : List UInt8} (hf : fill note h off data = some (h₁, rest)) :
    h.hash <+: h₁.hash := by
  unfold fill at hf
  split at hf
  · obtain ⟨w, -, hf⟩ := Option.bind_eq_some_iff.mp hf
    cases hf
    exact transform_keeps (count { h with buf := w } _) _ false
  · cases hf
    exact List.prefix_rfl

theorem updateLong_keeps {off : Nat} (hu : updateLong note h off data = some h₁) :
    h.hash <+: h₁.hash := by
  obtain ⟨⟨h', rest⟩, hfill, hu⟩ := Option.bind_eq_some_iff.mp hu
  obtain ⟨w, -, hu⟩ := Option.bind_eq_some_iff.mp hu
  cases hu
  exact (fill_keeps hfill).trans (wholeBlocks_keeps _ h' rest)

theorem update_keeps (hu : update note h data = some h₁) : h.hash <+: h₁.hash := by
  unfold update at hu
  split at hu
  · cases hu
    exact List.prefix_rfl
  · dsimp only at hu
    split at hu
    · exact (release_keeps h).trans (updateShort_keeps hu)
    · exact (release_keeps h).trans (updateLong_keeps hu)

/-- The position in all steps of a fast update is the end of its data. -/
theorem updateFast_hash (h : Skein (List Step)) (data : List UInt8) :
    ∃ es, (updateFast note h data).hash = h.hash ++ es ∧ es.length = data.length / 64 ∧
      ∀ e ∈ es, e.position = h.len0 + BitVec.ofNat 64 data.length := by
  unfold updateFast
  generalize data.length / 64 = k
  have hgen : ∀ k, ∃ es, ((List.range k).foldl
      (fun h i => transform note h ((data.drop (i * 64)).take 64) false)
        (count h data.length)).hash = h.hash ++ es ∧
      es.length = k ∧ (∀ e ∈ es, e.position = h.len0 + BitVec.ofNat 64 data.length) ∧
      ((List.range k).foldl (fun h i => transform note h ((data.drop (i * 64)).take 64) false)
        (count h data.length)).len0 = h.len0 + BitVec.ofNat 64 data.length := by
    intro k
    induction k with
    | zero => exact ⟨[], (List.append_nil _).symm, rfl, by simp, rfl⟩
    | succ k ih =>
      obtain ⟨es, hhash, hlen, hpos, hlen0⟩ := ih
      obtain ⟨h', hh'⟩ : ∃ h', h' = (List.range k).foldl
        (fun h i => transform note h ((data.drop (i * 64)).take 64) false)
        (count h data.length) := ⟨_, rfl⟩
      rw [List.range_succ, List.foldl_append, ← hh', List.foldl_cons, List.foldl_nil]
      rw [← hh'] at hhash hlen0
      refine ⟨es ++ [⟨(data.drop (k * 64)).take 64, h'.len0, h'.tweak1 ||| 0⟩], ?_, ?_, ?_, hlen0⟩
      · rw [← List.append_assoc, ← hhash]
        rfl
      · rw [List.length_append, hlen, List.length_singleton]
      · intro e he
        rcases List.mem_append.mp he with he | he
        · exact hpos e he
        · rw [List.mem_singleton.mp he]
          exact hlen0
  obtain ⟨es, hhash, hlen, hpos, -⟩ := hgen k
  exact ⟨es, hhash, hlen, hpos⟩

theorem step_keeps {c : Call} (hstep : (hashClass note copy []).step h c = some h₁) :
    h.hash <+: h₁.hash := by
  cases hfast : c.fast with
  | false =>
    rw [step_plain hfast] at hstep
    exact update_keeps hstep
  | true =>
    rw [step_fast hfast] at hstep
    cases hstep
    obtain ⟨es, hhash, -⟩ := updateFast_hash h c.data
    rw [hhash]
    exact List.prefix_append _ _

theorem run_keeps (hrun : cs.foldlM (hashClass note copy []).step h = some h₁) :
    h.hash <+: h₁.hash := by
  induction cs generalizing h with
  | nil =>
    cases hrun
    exact List.prefix_rfl
  | cons c cs ih =>
    obtain ⟨h', hstep, hrest⟩ := Option.bind_eq_some_iff.mp hrun
    exact (step_keeps hstep).trans (ih hrest)

theorem pad_keeps (hpad : pad note h = some h₁) : h.hash <+: h₁.hash := by
  obtain ⟨h', hfill, hpad⟩ := Option.bind_eq_some_iff.mp hpad
  cases hpad
  have hsame : h'.hash = h.hash := by
    unfold fillZeros at hfill
    split at hfill
    · obtain ⟨w, -, hfill⟩ := Option.bind_eq_some_iff.mp hfill
      cases hfill
      rfl
    · cases hfill
      rfl
  rw [← hsame]
  exact transform_keeps h' _ true

/-! ### Steps that are wrong -/

theorem getElem?_allSteps {i : Nat} (hi : (i + 1) * 64 < m.length) :
    (allSteps m)[i]? = some (stepAt m i) := by
  have hlt : i < before m := by
    rw [before]
    omega
  rw [allSteps, List.getElem?_append_left (by rw [length_steps]; exact hlt), steps,
    List.getElem?_map, List.getElem?_range hlt]
  rfl

/-- A fast call whose first block does not end where its data do. -/
theorem wrong_position (hd : Done note [] q m h) {c : Call} (hfast : c.fast = true)
    (hlen : 64 ≤ c.data.length) (hlt : c.data.length < 2 ^ 63) (hm : m.length ≤ (q + 1) * 64)
    (hend : (q + 1) * 64 < m.length + c.data.length)
    (hrun : (c :: cs).foldlM (hashClass note copy []).step h = some h₁) (hpad : pad note h₁ = some h₂) :
    h₂.hash ≠ allSteps (m ++ messageOf (c :: cs)) := by
  intro heq
  rw [run_cons (step_fast hfast)] at hrun
  have hprefix := (run_keeps hrun).trans (pad_keeps hpad)
  obtain ⟨es, hhash, heslen, hpos⟩ := updateFast_hash h c.data
  have hnoted : h.hash = steps q m := by rw [hd.hash, foldl_note, List.nil_append]
  obtain ⟨e, es', rfl⟩ := List.exists_cons_of_length_pos (l := es) (by omega)
  have hget : h₂.hash[q]? = some e := by
    have hq : (updateFast note h c.data).hash[q]? = some e := by
      rw [hhash, hnoted, List.getElem?_append_right (by rw [length_steps]), length_steps, Nat.sub_self]
      rfl
    obtain ⟨rest, hrest⟩ := hprefix
    rw [← hrest]
    have hlt' : q < (updateFast note h c.data).hash.length := by
      by_contra hge
      rw [List.getElem?_eq_none (by omega)] at hq
      cases hq
    rw [List.getElem?_append_left hlt', hq]
  rw [heq, getElem?_allSteps (by rw [messageOf_cons, List.length_append, List.length_append]; omega)]
    at hget
  have hposition := congrArg Step.position (Option.some.inj hget)
  rw [hpos e List.mem_cons_self, hd.len0, ← BitVec.ofNat_add] at hposition
  have hnat := congrArg BitVec.toNat hposition
  rw [stepAt, BitVec.toNat_ofNat, BitVec.toNat_ofNat] at hnat
  have hlo := hd.lo
  rw [Nat.add_mul] at hm hend hnat
  omega

/-- A fast call while a block is held back. -/
theorem Held.run_ne (hh : Held note [] (before m) m h) (hm : m ≠ [])
    (hadm : Admissible 64 m.length cs) (hfast : ∃ d ∈ cs, d.fast = true ∧ d.data ≠ [])
    (hrun : cs.foldlM (hashClass note copy []).step h = some h₁)
    (hpad : Skein.pad note h₁ = some h₂) : h₂.hash ≠ allSteps (m ++ messageOf cs) := by
  induction cs generalizing m h with
  | nil =>
    obtain ⟨d, hd, -⟩ := hfast
    cases hd
  | cons c cs ih =>
    obtain ⟨hlt, haligned, hadm'⟩ := hadm
    by_cases hnil : c.data = []
    · rw [run_cons (step_nil hnil)] at hrun
      rw [messageOf_cons, hnil, List.nil_append]
      rw [hnil, List.length_nil, Nat.add_zero] at hadm'
      refine ih hh hm hadm' ?_ hrun
      obtain ⟨d, hd, hdata⟩ := hfast
      rcases List.mem_cons.mp hd with rfl | hd
      · exact absurd hnil hdata.2
      · exact ⟨d, hd, hdata⟩
    · have hpos := List.length_pos_of_ne_nil hnil
      have hmpos := List.length_pos_of_ne_nil hm
      cases hcfast : c.fast with
      | true =>
        obtain ⟨hma, hca⟩ := haligned hcfast
        have hbefore : before m = (m.length - 1) / 64 := rfl
        exact wrong_position hh.done hcfast (by omega) hlt (by omega) (by omega) hrun hpad
      | false =>
        obtain ⟨h', hupdate, hh'⟩ := hh.update c.data
        rw [run_cons ((step_plain hcfast).trans hupdate)] at hrun
        rw [← List.length_append] at hadm'
        rw [messageOf_cons, ← List.append_assoc]
        refine ih hh' (List.append_ne_nil_of_left_ne_nil hm _) hadm' ?_ hrun
        obtain ⟨d, hd, hdata⟩ := hfast
        rcases List.mem_cons.mp hd with rfl | hd
        · rw [hcfast] at hdata
          exact absurd hdata.1 Bool.false_ne_true
        · exact ⟨d, hd, hdata⟩

/-- The first calls that are not as they should be. -/
theorem Opened.run_ne {started : Bool} (ho : Opened note [] m h) (hm : m.length % 64 = 0)
    (hstarted : started = true → m ≠ []) (hadm : Admissible 64 m.length cs)
    (hcs : ¬ FastFirst started cs)
    (hrun : cs.foldlM (hashClass note copy []).step h = some h₁)
    (hpad : Skein.pad note h₁ = some h₂) : h₂.hash ≠ allSteps (m ++ messageOf cs) := by
  induction cs generalizing m h started with
  | nil =>
    -- Only fast calls had data: a block of zeros follows.
    cases hrun
    have hne := hstarted (Bool.eq_true_of_not_eq_false hcs)
    have hpos := List.length_pos_of_ne_nil hne
    obtain ⟨h', hpad', hhash⟩ := ho.pad
    obtain rfl := Option.some.inj (hpad'.symm.trans hpad)
    rw [hhash, foldl_note, List.nil_append]
    intro heq
    have hlen := congrArg List.length heq
    change _ = (allSteps (m ++ [])).length at hlen
    rw [List.append_nil, allSteps, List.length_append, List.length_append, length_steps, length_steps,
      before] at hlen
    change m.length / 64 + 1 = (m.length - 1) / 64 + 1 at hlen
    omega
  | cons c cs ih =>
    obtain ⟨hlt, haligned, hadm'⟩ := hadm
    unfold FastFirst at hcs
    by_cases hnil : c.data = []
    · rw [if_pos hnil] at hcs
      rw [run_cons (step_nil hnil)] at hrun
      rw [messageOf_cons, hnil, List.nil_append]
      rw [hnil, List.length_nil, Nat.add_zero] at hadm'
      exact ih ho hm hstarted hadm' hcs hrun
    · rw [if_neg hnil] at hcs
      have hpos := List.length_pos_of_ne_nil hnil
      cases hcfast : c.fast with
      | true =>
        rw [hcfast, if_pos rfl] at hcs
        obtain ⟨-, hca⟩ := haligned hcfast
        by_cases hlen : c.data.length = 64
        · rw [run_cons (step_fast hcfast)] at hrun
          rw [← List.length_append] at hadm'
          rw [messageOf_cons, ← List.append_assoc]
          refine ih (ho.updateFast hm hlen) ?_ (fun _ => ?_) hadm' (fun h => hcs ⟨hlen, h⟩) hrun
          · rw [List.length_append, hlen]
            omega
          · exact List.append_ne_nil_of_right_ne_nil _ hnil
        · exact wrong_position ho.done hcfast (by omega) hlt (by omega) (by omega) hrun hpad
      | false =>
        rw [hcfast, if_neg Bool.false_ne_true] at hcs
        obtain ⟨h', hupdate, hh'⟩ := ho.update hnil
        rw [run_cons ((step_plain hcfast).trans hupdate)] at hrun
        rw [← List.length_append] at hadm'
        rw [messageOf_cons, ← List.append_assoc]
        refine hh'.run_ne (List.append_ne_nil_of_right_ne_nil _ hnil) hadm' ?_ hrun hpad
        by_contra hnone
        apply hcs
        intro d hd hfast
        by_contra hdata
        exact hnone ⟨d, hd, hfast, hdata⟩

/-- A digest that tells the right steps from all others. -/
def tells (es log : List Step) : List UInt8 := if log = es ++ [outStep] then [1] else [0]

theorem fastFirst_of_agrees (hadm : Admissible 64 0 cs)
    (hagrees : (hashClass note (tells (allSteps (messageOf cs))) []).Agrees cs) : FastFirst false cs := by
  by_contra hcs
  rw [Agrees, digest_of_fastFirst (fastFirst_plain cs), messageOf_plain, foldl_note, List.nil_append,
    note, tells, if_pos rfl] at hagrees
  obtain ⟨h₁, hrun, hdigest⟩ := Option.bind_eq_some_iff.mp hagrees
  obtain ⟨h₂, hpad, hdigest⟩ := Option.bind_eq_some_iff.mp hdigest
  have hne := (opened_nil note []).run_ne rfl (fun hf => by cases hf) hadm hcs hrun hpad
  rw [List.nil_append] at hne
  have htells : tells (allSteps (messageOf cs)) (note h₂.hash outStep) = [1] := Option.some.inj hdigest
  rw [tells, note, if_neg] at htells
  · exact absurd htells (by decide)
  · exact fun he => hne (List.append_cancel_right he)

end Bad

/-- Whatever the processing of a block is, the fast update makes no difference. -/
theorem agrees_iff {cs : List Call} (hadm : Admissible 64 0 cs) :
    (∀ (σ : Type) (ubi : σ → Step → σ) (copy : σ → List UInt8) (s : σ),
      (hashClass ubi copy s).Agrees cs) ↔ FastFirst false cs :=
  ⟨fun h => fastFirst_of_agrees hadm (h _ _ _ _), fun h _ _ _ _ => agrees_of_fastFirst h⟩

end Drew.Skein
