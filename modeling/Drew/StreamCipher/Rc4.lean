import Drew.StreamCipher.Reach

/-!
# RC4

The model of the classes `RC4Keystream<unsigned>` and `RC4`. `Reset` makes the first bytes of the
keystream, so a context begins with a buffer that is not empty.
-/

namespace Drew.StreamCipher

open Drew.Memory

/-- The members of `RC4Keystream`. -/
structure Rc4Keystream where
  s : Buf UInt32 256
  i : UInt32
  j : UInt32

/-- The members of `RC4`. -/
structure Rc4 where
  ks : Rc4Keystream
  drop : Nat
  key : Buf UInt8 256
  sz : Nat

namespace Rc4

/-- The entry at the low byte of a number. -/
def place (i : UInt32) : Fin 256 := ⟨i.toNat % 256, Nat.mod_lt _ (by decide)⟩

def ksReset : Rc4Keystream := ⟨Vector.ofFn fun i => UInt32.ofNat i, 0, 0⟩

def swap (s : Buf UInt32 256) (a b : Fin 256) : Buf UInt32 256 := (s.set a (s.get b)).set b (s.get a)

/-- A round of `SetKey`. -/
def keyStep (key : Buf UInt8 256) (sz : Nat) (r : Buf UInt32 256 × UInt32) (i : Fin 256) :
    Buf UInt32 256 × UInt32 :=
  let j := r.2 + (r.1.get i + ((key[i.val % sz]?).getD 0).toUInt32)
  (swap r.1 i (place j), j)

/-- `RC4Keystream::SetKey`. -/
def ksSetKey (key : Buf UInt8 256) (sz : Nat) : Rc4Keystream :=
  let r := (List.finRange 256).foldl (keyStep key sz) (ksReset.s, 0)
  { ksReset with s := r.1 }

/-- The step at an entry `x`: the state and the value. -/
def stepAt (ks : Rc4Keystream) (x : Fin 256) : Rc4Keystream × UInt8 :=
  let j := ks.j + ks.s.get x
  let s := swap ks.s x (place j)
  ({ ks with s := s, j := j }, (s.get (place (s.get x + s.get (place j)))).toUInt8)

def getValue (ks : Rc4Keystream) : Rc4Keystream × UInt8 :=
  stepAt { ks with i := ks.i + 1 } (place (ks.i + 1))

/-- The values at `k` more entries of the buffer. -/
def fillFrom (step : Rc4Keystream → Nat → Rc4Keystream × UInt8) :
    Nat → Nat → Rc4Keystream → Buf UInt8 256 → Rc4Keystream × Buf UInt8 256
  | 0, _, ks, buf => (ks, buf)
  | k + 1, i, ks, buf =>
      let (ks, v) := step ks i
      fillFrom step k (i + 1) ks (buf.setIfInBounds i v)

def fillBuffer (r : Rc4) : Buf UInt8 256 × Rc4 :=
  let (ks, buf) := fillFrom (fun ks i => stepAt ks (Fin.ofNat 256 i)) 256 0 r.ks (Vector.replicate 256 0)
  (buf, { r with ks := ks })

/-- Begin again, with the first values in the buffer. -/
def reset (c : Ctx Rc4 256) : Option (Ctx Rc4 256) :=
  if c.m.sz = 0 then none else
    let ks := (fun ks => (getValue ks).1)^[c.m.drop] (ksSetKey c.m.key c.m.sz)
    let i := c.m.drop % 256
    let (ks, buf) := fillFrom (fun ks _ => getValue ks) (256 - i) i ks c.buf
    some { m := { c.m with ks := ks }, buf := buf, nbytes := 256 - i }

def setKey (c : Ctx Rc4 256) (key : List UInt8) : Option (Ctx Rc4 256) := do
  let k ← c.m.key.write 0 key
  reset { c with m := { c.m with key := k, sz := key.length } }

end Rc4

/-- The class `RC4` with a number of values that are dropped. -/
def rc4 (drop : Nat) : Cipher where
  M := Rc4
  bufsz := 256
  bufsz_pos := by decide
  bufsz_lt := by decide
  fillBuffer := Rc4.fillBuffer
  fast := some Rc4.fillBuffer
  keySizes := (List.range 256).map (· + 1)
  ivSizes := none
  init c := { c with m := { c.m with drop := drop } }
  setKey := Rc4.setKey
  setNonce c _ := some c
  reset := Rc4.reset

/-! ## The key -/

namespace Rc4

variable {step : Rc4Keystream → Nat → Rc4Keystream × UInt8}

/-- Entries before the first one are not changed. -/
theorem fillFrom_keeps (k i : Nat) (ks : Rc4Keystream) (buf : Buf UInt8 256) {j : Nat} (hj : j < i) :
    (fillFrom step k i ks buf).2[j]? = buf[j]? := by
  induction k generalizing i ks buf with
  | zero => rfl
  | succ k ih =>
    change (fillFrom step k (i + 1) (step ks i).1 (buf.setIfInBounds i (step ks i).2)).2[j]? = _
    rw [ih (i + 1) _ _ (by omega), Vector.getElem?_setIfInBounds_ne (by omega)]

/-- What was in the buffer before does not matter. -/
theorem fillFrom_congr (k i : Nat) (ks : Rc4Keystream) (buf buf' : Buf UInt8 256) :
    (fillFrom step k i ks buf).1 = (fillFrom step k i ks buf').1 ∧
      ∀ j, i ≤ j → j < i + k →
        (fillFrom step k i ks buf).2[j]? = (fillFrom step k i ks buf').2[j]? := by
  induction k generalizing i ks buf buf' with
  | zero => exact ⟨rfl, fun j hij hji => absurd hji (by omega)⟩
  | succ k ih =>
    obtain ⟨hks, hbuf⟩ := ih (i + 1) (step ks i).1 (buf.setIfInBounds i (step ks i).2)
      (buf'.setIfInBounds i (step ks i).2)
    refine ⟨hks, fun j hij hji => ?_⟩
    rcases Nat.eq_or_lt_of_le hij with rfl | hlt
    · change (fillFrom step k (i + 1) (step ks i).1 (buf.setIfInBounds i (step ks i).2)).2[i]? =
        (fillFrom step k (i + 1) (step ks i).1 (buf'.setIfInBounds i (step ks i).2)).2[i]?
      rw [fillFrom_keeps k _ _ _ (Nat.lt_succ_self i), fillFrom_keeps k _ _ _ (Nat.lt_succ_self i)]
      rw [Vector.getElem?_setIfInBounds_self, Vector.getElem?_setIfInBounds_self]
    · exact hbuf j hlt (by omega)

/-- Only the bytes of the key are used. -/
theorem ksSetKey_congr {key key' : Buf UInt8 256} {sz : Nat} (hsz : 0 < sz)
    (h : ∀ i < sz, key[i]? = key'[i]?) : ksSetKey key sz = ksSetKey key' sz := by
  have hstep : keyStep key sz = keyStep key' sz := by
    funext r i
    rw [keyStep, keyStep, h _ (Nat.mod_lt _ hsz)]
  rw [ksSetKey, ksSetKey, hstep]

theorem reset_nbytes {c c' : Ctx Rc4 256} (h : reset c = some c') : c'.nbytes ≤ 256 := by
  unfold reset at h
  split at h
  · cases h
  · rw [← Option.some.inj h]
    exact Nat.sub_le _ _

/-- The context after a reset, whose members have the key. -/
theorem reset_congr {c d : Ctx Rc4 256} (hsz : 0 < c.m.sz) (hszd : c.m.sz = d.m.sz)
    (hdrop : c.m.drop = d.m.drop) (hkey : ∀ i < c.m.sz, c.m.key[i]? = d.m.key[i]?) :
    ∃ c' d', reset c = some c' ∧ reset d = some d' ∧ c'.nbytes = d'.nbytes ∧ c'.m.ks = d'.m.ks ∧
      ∀ i < c'.nbytes, c'.buf[256 - c'.nbytes + i]? = d'.buf[256 - c'.nbytes + i]? := by
  have hks := ksSetKey_congr hsz hkey
  have hlt : d.m.drop % 256 < 256 := Nat.mod_lt _ (by decide)
  obtain ⟨hmembers, hbuf⟩ := @fillFrom_congr (fun ks _ => getValue ks) (256 - d.m.drop % 256)
    (d.m.drop % 256) ((fun ks => (getValue ks).1)^[d.m.drop] (ksSetKey d.m.key d.m.sz)) c.buf d.buf
  refine ⟨_, _, if_neg (Nat.ne_of_gt hsz), if_neg (by omega), ?_, ?_, ?_⟩
  · dsimp only
    rw [hdrop]
  · dsimp only
    rw [hdrop, hks, hszd]
    exact hmembers
  · intro i hi
    dsimp only at hi ⊢
    rw [hdrop] at hi ⊢
    rw [hks, hszd]
    exact hbuf _ (by omega) (by omega)

theorem fillBuffer_congr {r r' : Rc4} (h : r.ks = r'.ks) :
    (fillBuffer r).1 = (fillBuffer r').1 ∧ (fillBuffer r).2.ks = (fillBuffer r').2.ks := by
  unfold fillBuffer
  rw [h]
  exact ⟨rfl, rfl⟩

theorem length_of_mem {drop : Nat} {key : List UInt8} (h : key.length ∈ (rc4 drop).keySizes) :
    0 < key.length ∧ key.length ≤ 256 := by
  obtain ⟨i, hi, hlen⟩ := List.mem_map.mp h
  have hlt := List.mem_range.mp hi
  omega

/-- Two contexts with the same key. -/
theorem setKey_congr {c d : Ctx Rc4 256} {key : List UInt8} (hpos : 0 < key.length)
    (hle : key.length ≤ 256) (hdrop : c.m.drop = d.m.drop) :
    ∃ c' d', setKey c key = some c' ∧ setKey d key = some d' ∧ c'.nbytes = d'.nbytes ∧
      c'.m.ks = d'.m.ks ∧
      ∀ i < c'.nbytes, c'.buf[256 - c'.nbytes + i]? = d'.buf[256 - c'.nbytes + i]? := by
  obtain ⟨k, hk⟩ := Buf.exists_write_at c.m.key 0 key (by omega)
  obtain ⟨k', hk'⟩ := Buf.exists_write_at d.m.key 0 key (by omega)
  obtain ⟨c', d', hc, hd, h⟩ := reset_congr
    (c := { c with m := { c.m with key := k, sz := key.length } })
    (d := { d with m := { d.m with key := k', sz := key.length } }) hpos rfl hdrop
    fun i hi => (Buf.holds_write hk).agree (Buf.holds_write hk') (Nat.zero_le i) (by rwa [Nat.zero_add])
  refine ⟨c', d', ?_, ?_, h⟩
  · rw [setKey, hk]
    exact hc
  · rw [setKey, hk']
    exact hd

theorem sound (drop : Nat) : (rc4 drop).Sound where
  fast _ h := (Option.some.inj h).symm
  setKey h := by
    obtain ⟨k, -, h⟩ := Option.bind_eq_some_iff.mp h
    exact reset_nbytes h
  setNonce h := by rw [Option.some.inj h]
  reset h := reset_nbytes h
  start := by
    rintro key (_ | iv) mem ⟨hkey, hiv⟩
    · obtain ⟨hpos, hle⟩ := length_of_mem hkey
      obtain ⟨c, -, hset, -⟩ := setKey_congr (c := (rc4 drop).init mem) hpos hle rfl
      obtain ⟨k, -, hreset⟩ := Option.bind_eq_some_iff.mp hset
      refine ⟨c, ?_, reset_nbytes hreset⟩
      exact congrArg (fun o => o >>= some) hset
    · obtain ⟨sizes, hsizes, -⟩ := hiv
      cases hsizes
  keystream := by
    rintro key (_ | iv) mem mem' c c' ⟨hkey, hiv⟩ hc hc'
    · obtain ⟨hpos, hle⟩ := length_of_mem hkey
      obtain ⟨d, d', hd, hd', hnbytes, hks, hbuf⟩ := setKey_congr (c := (rc4 drop).init mem)
        (d := (rc4 drop).init mem') hpos hle rfl
      obtain rfl := Option.some.inj ((congrArg (fun o => o >>= some) hd).symm.trans hc)
      obtain rfl := Option.some.inj ((congrArg (fun o => o >>= some) hd').symm.trans hc')
      exact keystream_congr (S := fun r r' => r.ks = r'.ks) (fun _ _ => fillBuffer_congr) hks hnbytes
        hbuf
    · obtain ⟨sizes, hsizes, -⟩ := hiv
      cases hsizes

end Rc4

end Drew.StreamCipher
