import Drew.StreamCipher.Reach

/-!
# Classes with nonces

What the members of a context say about its key and its nonce. Members that begin with the same key
and nonce make the same blocks, and `SetNonce` and `Reset` begin; `SetNonce` only does so from
members that `restarts` allows.
-/

namespace Drew.StreamCipher

open Drew.Memory Drew.Stream

section

variable {M : Type} {n : Nat} {o : Option M} {c c' : Ctx M n}

/-- The members are set, and the buffer is empty. -/
theorem nbytes_of_emptied (h : (o >>= fun m => some { c with m := m, nbytes := 0 }) = some c') :
    c'.nbytes = 0 := by
  obtain ⟨m, -, hm⟩ := Option.bind_eq_some_iff.mp h
  rw [← Option.some.inj hm]

/-- The members are set, and the buffer stays. -/
theorem nbytes_of_kept (h : (o >>= fun m => some { c with m := m }) = some c') :
    c'.nbytes = c.nbytes := by
  obtain ⟨m, -, hm⟩ := Option.bind_eq_some_iff.mp h
  rw [← Option.some.inj hm]

end

/-- The relations between the members, the key and the nonce, and what the functions do to them. -/
structure NonceLaws (C : Cipher) (restarts : C.M → Prop) where
  /-- What the constructor does and no function changes. -/
  Base : C.M → Prop
  /-- The key is set. -/
  Keyed : List UInt8 → C.M → Prop
  /-- Then the nonce was set, and blocks may have been made since. -/
  Ready : List UInt8 → List UInt8 → C.M → Prop
  /-- No block has been made. -/
  Begun : List UInt8 → List UInt8 → C.M → Prop
  Same : C.M → C.M → Prop
  fast : ∀ g, C.fast = some g → g = C.fillBuffer
  base_init : ∀ mem, Base (C.init mem).m
  base_of_keyed : ∀ {key m}, Keyed key m → Base m
  keyed_of_ready : ∀ {key iv m}, Ready key iv m → Keyed key m
  ready_of_begun : ∀ {key iv m}, Begun key iv m → Ready key iv m
  ready_fill : ∀ {key iv m}, Ready key iv m → Ready key iv (C.fillBuffer m).2
  same_of_begun : ∀ {key iv m m'}, Begun key iv m → Begun key iv m' → Same m m'
  makesSame : MakesSame C.fillBuffer Same
  has_nonces : C.ivSizes ≠ none
  setKey_nbytes : ∀ {c key c'}, C.setKey c key = some c' → c'.nbytes = 0
  setKey : ∀ {c key}, Base c.m → key.length ∈ C.keySizes →
    ∃ c', C.setKey c key = some c' ∧ Keyed key c'.m ∧ restarts c'.m
  setNonce_nbytes : ∀ {c iv c'}, C.setNonce c iv = some c' → c'.nbytes = c.nbytes
  setNonce : ∀ {c key iv}, Keyed key c.m → C.AcceptsIv (some iv) →
    ∃ c', C.setNonce c iv = some c' ∧ Ready key iv c'.m ∧ (restarts c.m → Begun key iv c'.m)
  reset_nbytes : ∀ {c c'}, C.reset c = some c' → c'.nbytes = 0
  reset : ∀ {c key iv}, Ready key iv c.m → ∃ c', C.reset c = some c' ∧ Begun key iv c'.m

namespace NonceLaws

variable {C : Cipher} {restarts : C.M → Prop} (L : NonceLaws C restarts) {c d : C.Context}
  {key iv : List UInt8}

include L

/-- The nonce is there. -/
theorem exists_iv {v : Option (List UInt8)} (hv : C.AcceptsIv v) :
    ∃ iv, v = some iv ∧ C.AcceptsIv (some iv) := by
  cases v with
  | none => exact absurd hv L.has_nonces
  | some iv => exact ⟨iv, rfl, hv⟩

/-! ## Contexts that begin -/

theorem start_spec (mem : C.Context) (h : C.Accepts key (some iv)) :
    ∃ c, C.start mem key (some iv) = some c ∧ c.nbytes = 0 ∧ L.Begun key iv c.m := by
  obtain ⟨c₁, hset, hkeyed, hrestarts⟩ := L.setKey (L.base_init mem) h.1
  obtain ⟨c₂, hiv, -, hbegun⟩ := L.setNonce hkeyed h.2
  refine ⟨c₂, ?_, ?_, hbegun hrestarts⟩
  · rw [Cipher.start, hset]
    exact hiv
  · rw [L.setNonce_nbytes hiv, L.setKey_nbytes hset]

/-- With the same key and nonce, and empty buffers. -/
theorem alike_of_begun (hc : L.Begun key iv c.m) (hd : L.Begun key iv d.m) (hc0 : c.nbytes = 0)
    (hd0 : d.nbytes = 0) : Alike L.Same c d :=
  ⟨L.same_of_begun hc hd, hc0.trans hd0.symm, fun h => absurd hc0 h⟩

/-- Fresh contexts. -/
theorem alike_of_start {mem mem' : C.Context} (h : C.Accepts key (some iv))
    (hc : C.start mem key (some iv) = some c) (hd : C.start mem' key (some iv) = some d) :
    Alike L.Same c d := by
  obtain ⟨c', hc', hc0, hbegun⟩ := L.start_spec mem h
  obtain ⟨d', hd', hd0, hbegun'⟩ := L.start_spec mem' h
  obtain rfl := Option.some.inj (hc'.symm.trans hc)
  obtain rfl := Option.some.inj (hd'.symm.trans hd)
  exact L.alike_of_begun hbegun hbegun' hc0 hd0

theorem keystream_eq (h : Alike L.Same c d) : C.keystream c = C.keystream d :=
  h.keystream L.makesSame

theorem sound : C.Sound where
  fast := L.fast
  setKey h := (L.setKey_nbytes h).trans_le (Nat.zero_le _)
  setNonce := L.setNonce_nbytes
  reset h := (L.reset_nbytes h).trans_le (Nat.zero_le _)
  start := by
    intro key v mem h
    obtain ⟨iv, rfl, -⟩ := L.exists_iv h.2
    obtain ⟨c, hstart, hc0, -⟩ := L.start_spec mem h
    exact ⟨c, hstart, hc0.trans_le (Nat.zero_le _)⟩
  keystream := by
    intro key v mem mem' c c' h hc hc'
    obtain ⟨iv, rfl, -⟩ := L.exists_iv h.2
    exact L.keystream_eq (L.alike_of_start h hc hc')

/-! ## Contexts that are reached -/

theorem ready_membersAt {m : C.M} (h : L.Ready key iv m) (q : Nat) :
    L.Ready key iv (membersAt C.fillBuffer m q) := by
  induction q with
  | zero => exact h
  | succ q ih =>
    rw [← membersAt_add, ← membersAt_one]
    exact L.ready_fill ih

theorem ready_call {c' : C.Context} {a : Call} {out : List UInt8} (h : L.Ready key iv c.m)
    (hcall : C.call c a = some (c', out)) : L.Ready key iv c'.m := by
  rw [L.sound.call_eq] at hcall
  split at hcall
  · rw [(alignedBlocks_members hcall).1]
    exact L.ready_membersAt h _
  · obtain ⟨q, hq⟩ := copyAndXor_members hcall
    rw [hq]
    exact L.ready_membersAt h q

/-- What the key and the nonce that are set say about the members. -/
def Has : Option (List UInt8) → Option (List UInt8) → C.M → Prop
  | some key, some iv, m => L.Ready key iv m
  | some key, none, m => L.Keyed key m
  | none, _, m => L.Base m

theorem has_reaches {k v : Option (List UInt8)} (h : C.Reaches k v c) : L.Has k v c.m := by
  induction h with
  | init mem => exact L.base_init mem
  | @setKey k v c key c' _ hkey hset ih =>
    have hbase : L.Base c.m := by
      cases k with
      | none => exact ih
      | some key' =>
        cases v with
        | none => exact L.base_of_keyed ih
        | some iv => exact L.base_of_keyed (L.keyed_of_ready ih)
    obtain ⟨c₁, hset₁, hkeyed, -⟩ := L.setKey hbase hkey
    obtain rfl := Option.some.inj (hset₁.symm.trans hset)
    exact hkeyed
  | @setNonce key v c iv c' _ hiv hset ih =>
    have hkeyed : L.Keyed key c.m := by
      cases v with
      | none => exact ih
      | some iv => exact L.keyed_of_ready ih
    obtain ⟨c₁, hset₁, hready, -⟩ := L.setNonce hkeyed hiv
    obtain rfl := Option.some.inj (hset₁.symm.trans hset)
    exact hready
  | reset _ hiv hreset ih =>
    obtain ⟨iv, rfl, -⟩ := L.exists_iv hiv
    obtain ⟨c₁, hreset₁, hbegun⟩ := L.reset ih
    obtain rfl := Option.some.inj (hreset₁.symm.trans hreset)
    exact L.ready_of_begun hbegun
  | call _ hiv hcall ih =>
    obtain ⟨iv, rfl, -⟩ := L.exists_iv hiv
    exact L.ready_call ih hcall

theorem keyed_reaches {v : Option (List UInt8)} (h : C.Reaches (some key) v c) : L.Keyed key c.m := by
  have hhas := L.has_reaches h
  cases v with
  | none => exact hhas
  | some iv => exact L.keyed_of_ready hhas

/-- The buffer is never full. -/
theorem nbytes_lt {v : Option (List UInt8)} (h : C.Reaches (some key) v c) : c.nbytes < C.bufsz := by
  generalize hk : some key = k at h
  induction h with
  | init => cases hk
  | setKey _ _ hset => exact (L.setKey_nbytes hset).trans_lt C.bufsz_pos
  | setNonce _ _ hset ih => exact (L.setNonce_nbytes hset).trans_lt (ih hk)
  | reset _ _ hreset => exact (L.reset_nbytes hreset).trans_lt C.bufsz_pos
  | call _ _ hcall ih =>
    rw [L.sound.call_eq] at hcall
    split at hcall
    · exact (alignedBlocks_members hcall).2.trans_lt (ih hk)
    · exact copyAndXor_nbytes C.bufsz_pos hcall

/-! ## Beginning again -/

/-- The same calls on alike contexts. -/
theorem call_rel (h : Alike L.Same c d) (a : Call) :
    Option.Rel (fun p q => Alike L.Same p.1 q.1 ∧ p.2 = q.2) (C.call c a) (C.call d a) := by
  rw [L.sound.call_eq, L.sound.call_eq]
  split
  · exact h.alignedBlocks L.makesSame _ _
  · exact h.copyAndXor L.makesSame C.bufsz_lt _

theorem outputs_eq (h : Alike L.Same c d) (calls : List Call) :
    (run C.call c calls).map Prod.snd = (run C.call d calls).map Prod.snd := by
  have hrun := run_bisim (R := Alike L.Same) (fun _ _ a halike => L.call_rel halike a) h calls
  generalize run C.call c calls = r at hrun ⊢
  generalize run C.call d calls = r' at hrun ⊢
  cases hrun with
  | none => rfl
  | some hp => exact congrArg some hp.2

end NonceLaws

end Drew.StreamCipher
