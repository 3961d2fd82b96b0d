import Drew.StreamCipher.Rc4.Packed

/-!
# The bytes that RC4 emits

The first bytes come from `Reset`, and those are the bytes of the generator. `FillBuffer` has an index
of its own that begins with 0, where the index of the generator would go on with 1: at the first
refill the generator is one step behind (`Prga.behind`), and so it goes on. The array is a permutation
all the time.
-/

namespace Drew.StreamCipher.Rc4

open Drew.Memory Drew.Stream

/-- The same permutation, with an index that is one less. -/
def Prga.behind (g : Prga) : Prga := { g with i := g.i - 1 }

/-- How many bytes the context begins with. -/
def first (drop : Nat) : Nat := 256 - drop % 256

/-- The bytes of a context that begins. -/
def emitted (drop : Nat) (key : List UInt8) (t : Nat) : UInt8 :=
  if t < first drop then (schedule key).byte (drop + t)
  else ((schedule key).after (drop + first drop)).behind.byte (t - first drop)

/-! ## Refills -/

/-- The next index is 0. -/
structure Behind (ks : Rc4Keystream) (g : Prga) : Prop where
  s : HasPerm ks.s g.S
  j : place ks.j = g.j
  i : g.i = 255

variable {ks : Rc4Keystream} {g : Prga}

theorem fillFrom_stepAt (k i : Nat) (hs : HasPerm ks.s g.S) (hj : place ks.j = g.j)
    (hi : g.i + 1 = Fin.ofNat 256 i) (hik : i + k ≤ 256) (buf : Buf UInt8 256) :
    HasPerm (fillFrom (fun ks i => stepAt ks (Fin.ofNat 256 i)) k i ks buf).1.s (g.after k).S ∧
      place (fillFrom (fun ks i => stepAt ks (Fin.ofNat 256 i)) k i ks buf).1.j = (g.after k).j ∧
      ∀ t < k, (fillFrom (fun ks i => stepAt ks (Fin.ofNat 256 i)) k i ks buf).2[i + t]? =
        some (g.byte t) := by
  induction k generalizing i ks g buf with
  | zero => exact ⟨hs, hj, fun t ht => absurd ht (Nat.not_lt_zero t)⟩
  | succ k ih =>
    obtain ⟨hs₁, hj₁, hout, -⟩ := stepAt_spec hs hj
    rw [hi] at hs₁ hj₁ hout
    have hi₁ : g.step.1.i + 1 = Fin.ofNat 256 (i + 1) := by
      change g.i + 1 + 1 = _
      rw [hi]
      apply Fin.ext
      rw [Fin.val_add]
      change (i % 256 + 1) % 256 = (i + 1) % 256
      omega
    obtain ⟨hs₂, hj₂, hbuf⟩ := ih (i + 1) hs₁ hj₁ hi₁ (by omega)
      (buf.setIfInBounds i (stepAt ks (Fin.ofNat 256 i)).2)
    refine ⟨hs₂, hj₂, fun t ht => ?_⟩
    change (fillFrom _ k (i + 1) (stepAt ks (Fin.ofNat 256 i)).1
      (buf.setIfInBounds i (stepAt ks (Fin.ofNat 256 i)).2)).2[i + t]? = _
    rcases Nat.eq_zero_or_pos t with rfl | hpos
    · rw [show i + 0 = i from rfl, fillFrom_keeps k _ _ _ (Nat.lt_succ_self i),
        Vector.getElem?_setIfInBounds_self_of_lt (by omega), hout]
      rfl
    · have hbyte := hbuf (t - 1) (by omega)
      rw [show i + 1 + (t - 1) = i + t by omega] at hbyte
      rw [hbyte, Prga.byte, ← Prga.after_succ, Nat.sub_add_cancel hpos]
      rfl

/-- What the parts of the result of `FillBuffer` are. -/
theorem fillBuffer_eq (r : Rc4) :
    ∃ filled, filled = fillFrom (fun ks i => stepAt ks (Fin.ofNat 256 i)) 256 0 r.ks
        (Vector.replicate 256 0) ∧ fillBuffer r = (filled.2, { r with ks := filled.1 }) :=
  ⟨_, rfl, by rw [fillBuffer]⟩

theorem fillBuffer_spec {r : Rc4} (h : Behind r.ks g) :
    Behind (fillBuffer r).2.ks (g.after 256) ∧ ∀ t < 256, (fillBuffer r).1[t]? = some (g.byte t) := by
  have hi : g.i + 1 = Fin.ofNat 256 0 := by
    rw [h.i]
    rfl
  obtain ⟨hs, hj, hbuf⟩ := fillFrom_stepAt 256 0 h.s h.j hi le_rfl (Vector.replicate 256 0)
  have hsame : (g.after 256).i = 255 := by
    apply Fin.ext
    rw [Prga.after_i, h.i]
    rfl
  obtain ⟨filled, hfilled, heq⟩ := fillBuffer_eq r
  rw [← hfilled] at hs hj hbuf
  rw [heq]
  refine ⟨⟨hs, hj, hsame⟩, fun t ht => ?_⟩
  have hbyte := hbuf t ht
  rw [Nat.zero_add] at hbyte
  exact hbyte

/-- The blocks go on with the generator from one to the next. -/
theorem behind_membersAt {r : Rc4} (h : Behind r.ks g) (q : Nat) :
    Behind (membersAt fillBuffer r q).ks (g.after (q * 256)) := by
  induction q with
  | zero =>
    rw [Nat.zero_mul]
    exact h
  | succ q ih =>
    rw [← membersAt_add, ← membersAt_one, Nat.add_mul, Nat.one_mul, ← Prga.after_after]
    exact (fillBuffer_spec ih).1

theorem blockByte_behind {r : Rc4} (h : Behind r.ks g) (t : Nat) :
    blockByte fillBuffer r t = g.byte t := by
  have hblock := (fillBuffer_spec (behind_membersAt h (t / 256))).2 (t % 256)
    (Nat.mod_lt t (by decide))
  rw [blockByte, hblock, Prga.byte_after, Nat.div_add_mod']
  rfl

/-! ## Beginning -/

/-- The members have the key. -/
structure Keyed (drop : Nat) (key : List UInt8) (r : Rc4) : Prop where
  drop_eq : r.drop = drop
  holds : r.key.Holds 0 key
  sz_eq : r.sz = key.length
  pos : 0 < key.length

variable {drop : Nat} {key : List UInt8}

/-- What is in the buffer, and where the generator is. -/
theorem reset_spec {c : Ctx Rc4 256} (h : Keyed drop key c.m) :
    ∃ c', reset c = some c' ∧ Keyed drop key c'.m ∧ c'.nbytes = first drop ∧
      Refines c'.m.ks ((schedule key).after (drop + first drop)) ∧
      ∀ t < first drop, c'.buf[256 - first drop + t]? = some ((schedule key).byte (drop + t)) := by
  have hlt : drop % 256 < 256 := Nat.mod_lt _ (by decide)
  have hfirst : 256 - first drop = drop % 256 := Nat.sub_sub_self hlt.le
  have hkey := ksSetKey_spec h.pos h.holds
  have hdropped := iterate_getValue_spec hkey drop
  obtain ⟨hks, hbuf⟩ := fillFrom_getValue (256 - drop % 256) (drop % 256) hdropped (by omega) c.buf
  rw [← h.sz_eq, ← h.drop_eq] at hks hbuf
  refine ⟨_, if_neg (by rw [h.sz_eq]; exact Nat.ne_of_gt h.pos), ⟨h.drop_eq, h.holds, h.sz_eq, h.pos⟩, ?_, ?_, ?_⟩
  · rw [first, ← h.drop_eq]
  · rw [first, ← h.drop_eq, ← Prga.after_after]
    exact hks
  · intro t ht
    rw [hfirst, ← h.drop_eq, ← Prga.byte_after]
    rw [first, ← h.drop_eq] at ht
    exact hbuf t ht

theorem setKey_spec {c : Ctx Rc4 256} (hdrop : c.m.drop = drop) (hpos : 0 < key.length)
    (hle : key.length ≤ 256) :
    ∃ c', setKey c key = some c' ∧ Keyed drop key c'.m ∧ c'.nbytes = first drop ∧
      Refines c'.m.ks ((schedule key).after (drop + first drop)) ∧
      ∀ t < first drop, c'.buf[256 - first drop + t]? = some ((schedule key).byte (drop + t)) := by
  obtain ⟨k, hk⟩ := Buf.exists_write_at c.m.key 0 key (by omega)
  obtain ⟨c', hreset, h⟩ := reset_spec (c := { c with m := { c.m with key := k, sz := key.length } })
    ⟨hdrop, Buf.holds_write hk, rfl, hpos⟩
  refine ⟨c', ?_, h⟩
  rw [setKey, hk]
  exact hreset

/-- After the first bytes the index of the generator is 0. -/
theorem behind_of_refines (h : Refines ks ((schedule key).after (drop + first drop))) :
    Behind ks ((schedule key).after (drop + first drop)).behind := by
  have hi : ((schedule key).after (drop + first drop)).i = 0 := by
    apply Fin.ext
    rw [Prga.after_i]
    change (0 + (drop + (256 - drop % 256))) % 256 = 0
    omega
  refine ⟨h.s, h.j, ?_⟩
  rw [Prga.behind, hi]
  rfl

theorem keystream_eq_emitted {c : Ctx Rc4 256} (hnbytes : c.nbytes = first drop)
    (hks : Refines c.m.ks ((schedule key).after (drop + first drop)))
    (hbuf : ∀ t < first drop, c.buf[256 - first drop + t]? = some ((schedule key).byte (drop + t))) :
    keystream fillBuffer c = emitted drop key := by
  funext t
  rw [keystream, emitted, hnbytes]
  split
  · rw [hbuf t ‹_›]
    rfl
  · exact blockByte_behind (behind_of_refines hks) _

/-! ## Contexts that are reached -/

theorem hasPerm_stepAt {ks : Rc4Keystream} {S : Equiv.Perm (Fin 256)} (h : HasPerm ks.s S) (x : Fin 256) :
    ∃ S', HasPerm (stepAt ks x).1.s S' := ⟨_, h.swap _ _⟩

theorem hasPerm_fillBuffer {r : Rc4} {S : Equiv.Perm (Fin 256)} (h : HasPerm r.ks.s S) :
    ∃ S', HasPerm (fillBuffer r).2.ks.s S' := by
  have hfill : ∀ (k i : Nat) (ks : Rc4Keystream) (buf : Buf UInt8 256) (S : Equiv.Perm (Fin 256)),
      HasPerm ks.s S →
      ∃ S', HasPerm (fillFrom (fun ks i => stepAt ks (Fin.ofNat 256 i)) k i ks buf).1.s S' := by
    intro k
    induction k with
    | zero => exact fun _ _ _ S h => ⟨S, h⟩
    | succ k ih =>
      intro i ks buf S h
      obtain ⟨S₁, h₁⟩ := hasPerm_stepAt h (Fin.ofNat 256 i)
      exact ih _ _ _ _ h₁
  obtain ⟨filled, hfilled, heq⟩ := fillBuffer_eq r
  rw [heq, hfilled]
  exact hfill _ _ _ _ _ h

theorem keyed_fillBuffer {r : Rc4} (h : Keyed drop key r) : Keyed drop key (fillBuffer r).2 := by
  obtain ⟨filled, -, heq⟩ := fillBuffer_eq r
  rw [heq]
  exact ⟨h.drop_eq, h.holds, h.sz_eq, h.pos⟩

/-- What is kept of the last key, and the permutation. -/
def Has (drop : Nat) : Option (List UInt8) → Rc4 → Prop
  | none, r => r.drop = drop
  | some key, r => Keyed drop key r ∧ ∃ S, HasPerm r.ks.s S

theorem has_membersAt {r : Rc4} (h : Has drop (some key) r) (q : Nat) :
    Has drop (some key) (membersAt fillBuffer r q) := by
  induction q with
  | zero => exact h
  | succ q ih =>
    rw [← membersAt_add, ← membersAt_one]
    obtain ⟨hkeyed, S, hS⟩ := ih
    exact ⟨keyed_fillBuffer hkeyed, hasPerm_fillBuffer hS⟩

theorem has_reaches {k v : Option (List UInt8)} {c : (rc4 drop).Context} (h : (rc4 drop).Reaches k v c) :
    Has drop k c.m := by
  induction h with
  | init mem => rfl
  | @setKey k v c key c' _ hkey hset ih =>
    have hdrop : c.m.drop = drop := by
      cases k with
      | none => exact ih
      | some key' => exact ih.1.drop_eq
    obtain ⟨hpos, hle⟩ := length_of_mem hkey
    obtain ⟨c₁, hset₁, hkeyed, -, hks, -⟩ := setKey_spec hdrop hpos hle
    obtain rfl := Option.some.inj (hset₁.symm.trans hset)
    exact ⟨hkeyed, _, hks.s⟩
  | setNonce _ hiv =>
    obtain ⟨sizes, hsizes, -⟩ := hiv
    cases hsizes
  | reset _ _ hreset ih =>
    obtain ⟨c₁, hreset₁, hkeyed, -, hks, -⟩ := reset_spec ih.1
    obtain rfl := Option.some.inj (hreset₁.symm.trans hreset)
    exact ⟨hkeyed, _, hks.s⟩
  | @call key v c a c' out _ _ hcall ih =>
    rw [(sound drop).call_eq] at hcall
    split at hcall
    · have hm : c'.m = membersAt fillBuffer c.m _ := (alignedBlocks_members hcall).1
      rw [hm]
      exact has_membersAt ih _
    · obtain ⟨q, hq⟩ := copyAndXor_members hcall
      have hm : c'.m = membersAt fillBuffer c.m q := hq
      rw [hm]
      exact has_membersAt ih q

/-- A context right after its key was set, or right after a reset. -/
def Begins (drop : Nat) (key : List UInt8) (c : (rc4 drop).Context) : Prop :=
  (∃ mem, (rc4 drop).start mem key none = some c) ∨
    ∃ c₀, (rc4 drop).Reaches (some key) none c₀ ∧ (rc4 drop).reset c₀ = some c

theorem keystream_of_begins {c : (rc4 drop).Context} (hkey : (rc4 drop).Accepts key none)
    (h : Begins drop key c) : c.nbytes ≤ 256 ∧ (rc4 drop).keystream c = emitted drop key := by
  have hle : first drop ≤ 256 := Nat.sub_le _ _
  rcases h with ⟨mem, hstart⟩ | ⟨c₀, hreach, hreset⟩
  · obtain ⟨hpos, hlen⟩ := length_of_mem hkey.1
    obtain ⟨c₁, hset, -, hnbytes, hks, hbuf⟩ :=
      setKey_spec (rfl : ((rc4 drop).init mem).m.drop = drop) hpos hlen
    obtain rfl := Option.some.inj ((congrArg (fun o => o >>= some) hset).symm.trans hstart)
    exact ⟨hnbytes.trans_le hle, keystream_eq_emitted hnbytes hks hbuf⟩
  · obtain ⟨c₁, hreset₁, -, hnbytes, hks, hbuf⟩ := reset_spec (has_reaches hreach).1
    obtain rfl := Option.some.inj (hreset₁.symm.trans hreset)
    exact ⟨hnbytes.trans_le hle, keystream_eq_emitted hnbytes hks hbuf⟩

/-! ## The emitted bytes -/

/-- The calls emit the bytes of the generator from the one after the dropped ones on, as long as there
are no more of them than in the first buffer; with more they are those of `emitted`. -/
theorem emits_prga (hkey : (rc4 drop).Accepts key none) :
    (∀ c, Begins drop key c → ∀ calls, (rc4 drop).RunOk c calls →
      ∃ c' outs, run (rc4 drop).call c calls = some (c', outs) ∧
        outs.flatten = maskWith (emitted drop key) (texts calls) ∧
        ((texts calls).length ≤ first drop →
          outs.flatten = maskWith (fun t => (schedule key).byte (drop + t)) (texts calls))) ∧
    ∀ k v c, (rc4 drop).Reaches (some k) v c → ∃ S, HasPerm c.m.ks.s S := by
  refine ⟨?_, fun k v c hreach => (has_reaches hreach).2⟩
  intro c hbegins calls hok
  obtain ⟨hc, hkeystream⟩ := keystream_of_begins hkey hbegins
  obtain ⟨c', outs, hrun, hout, -⟩ := (sound drop).masks hc calls hok
  rw [hkeystream] at hout
  refine ⟨c', outs, hrun, hout, fun hlen => ?_⟩
  rw [hout]
  apply maskWith_congr
  intro t ht
  rw [emitted, if_pos (by omega)]

theorem emits_prga_three :
    ∃ c : (rc4 0).Context, (rc4 0).StepOk c ⟨false, [0]⟩ ∧ ∃ S, HasPerm c.m.ks.s S := by
  have hkey : (rc4 0).Accepts [0x4b, 0x65, 0x79] none := ⟨by decide, rfl⟩
  obtain ⟨c, hstart, -⟩ := (sound 0).start ⟨⟨⟨Vector.replicate 256 0, 0, 0⟩, 0, Vector.replicate 256 0, 0⟩,
    Vector.replicate 256 0, 0⟩ hkey
  exact ⟨c, fun _ => List.cons_ne_nil _ _,
    (emits_prga hkey).2 _ _ c (Cipher.reaches_start hkey hstart)⟩

/-- The values of the key "Key" after the first 256 bytes, at the indices 0 and 1. -/
theorem packed_differs :
    UInt8.ofNat (packedOut (packedAfter (packedSchedule [0x4b, 0x65, 0x79], 0) 256) 0) ≠
      UInt8.ofNat (packedOut (packedAfter (packedSchedule [0x4b, 0x65, 0x79], 0) 256) 1) := by
  decide +kernel

theorem behind_differs :
    ((schedule [0x4b, 0x65, 0x79]).after 256).behind.step.2 ≠
      ((schedule [0x4b, 0x65, 0x79]).after 256).step.2 := by
  rcases packedAfter_spec [0x4b, 0x65, 0x79] 256 with ⟨hs, hj⟩
  have hi : ((schedule [0x4b, 0x65, 0x79]).after 256).i = 0 := Fin.ext (Prga.after_i _ 256)
  have hnext : (((schedule [0x4b, 0x65, 0x79]).after 256).i + 1 : Fin 256).val = 1 := by
    rw [hi]
    rfl
  have hzero : (((schedule [0x4b, 0x65, 0x79]).after 256).behind.i + 1 : Fin 256).val = 0 := by
    rw [Prga.behind, hi]
    rfl
  have hout := packedOut_spec hs hj
  have hbehind := @packedOut_spec _ _ ((schedule [0x4b, 0x65, 0x79]).after 256).behind hs hj
  rw [hnext] at hout
  rw [hzero] at hbehind
  rw [← hout, ← hbehind]
  exact packed_differs

/-- The first byte after a refill is made with the index 0 and not 1. -/
theorem key_refill_differs :
    ∃ c c' : (rc4 0).Context, ∃ outs, Begins 0 [0x4b, 0x65, 0x79] c ∧
      run (rc4 0).call c [⟨false, List.replicate 257 0⟩] = some (c', outs) ∧
      outs.flatten ≠
        maskWith (fun t => (schedule [0x4b, 0x65, 0x79]).byte (0 + t)) (List.replicate 257 0) := by
  have hkey : (rc4 0).Accepts [0x4b, 0x65, 0x79] none := ⟨by decide, rfl⟩
  obtain ⟨c, hstart, hc⟩ := (sound 0).start ⟨⟨⟨Vector.replicate 256 0, 0, 0⟩, 0, Vector.replicate 256 0, 0⟩,
    Vector.replicate 256 0, 0⟩ hkey
  have hbegins : Begins 0 [0x4b, 0x65, 0x79] c := Or.inl ⟨_, hstart⟩
  obtain ⟨c', outs, hrun, hout, -⟩ := (sound 0).masks hc [⟨false, List.replicate 257 0⟩]
    ⟨fun _ => List.cons_ne_nil _ _, fun _ _ _ => trivial⟩
  rw [(keystream_of_begins hkey hbegins).2] at hout
  refine ⟨c, c', outs, hbegins, hrun, fun hsame => ?_⟩
  have hbytes : emitted 0 [0x4b, 0x65, 0x79] 256 = (schedule [0x4b, 0x65, 0x79]).byte (0 + 256) := by
    have hbyte : ∀ k : Nat → UInt8, (maskWith k (List.replicate 257 0))[256]? = some (k 256) := by
      intro k
      rw [maskWith, List.getElem?_mapIdx, List.getElem?_replicate, if_pos (by omega), Option.map_some,
        UInt8.xor_zero]
    have htexts : texts [⟨false, List.replicate 257 0⟩] = List.replicate 257 0 := List.append_nil _
    rw [htexts, hsame] at hout
    have h256 := congrArg (fun bs => bs[256]?) hout
    simp only [hbyte] at h256
    exact (Option.some.inj h256).symm
  exact behind_differs hbytes

end Drew.StreamCipher.Rc4
