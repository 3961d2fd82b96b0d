import Drew.StreamCipher.Nonce
import Drew.StreamCipher.Words

/-!
# Sosemanuk

The model of the classes `SosemanukKeystream` and `Sosemanuk`. What they use of Serpent, and the two
tables of multiplication, are parameters. The key schedule of Serpent does not depend on an earlier
key, since `SetKeyInternal` clears it.
-/

namespace Drew.StreamCipher

open Drew.Memory

/-- Serpent as Sosemanuk uses it, and the tables. -/
structure SerpentParts where
  Key : Type
  setKey : List UInt8 → Key
  serpent24 : Key → List UInt8 → Buf UInt32 12
  serpent1 : Buf UInt32 4 → Buf UInt32 4
  tablea : UInt8 → UInt32
  tableainv : UInt8 → UInt32

/-- The members of `SosemanukKeystream` and of `Sosemanuk`. Of `m_s` the first ten words stay. -/
structure Sosemanuk (A : SerpentParts) where
  serpent : A.Key
  s : Buf UInt32 10
  r1 : UInt32
  r2 : UInt32
  k : Buf UInt8 32
  iv : Buf UInt8 16
  keysz : Nat

namespace Sosemanuk

variable {A : SerpentParts}

/-- `SosemanukKeystream::SetNonce`. A short nonce is filled up with zeros. -/
def ksSetNonce (c : Sosemanuk A) (iv : List UInt8) : Option (Sosemanuk A) :=
  if 16 < iv.length then none else
    let vals := A.serpent24 c.serpent (iv ++ List.replicate (16 - iv.length) 0)
    some { c with
      s := #v[vals[11], vals[10], vals[9], vals[8], vals[5], vals[7], vals[3], vals[2], vals[1], vals[0]]
      r1 := vals[4]
      r2 := vals[6] }

/-- A round of the loop in `FillBuffer`, which gives a word of `f` and one of `s`. -/
def round (c : Sosemanuk A) : Sosemanuk A × UInt32 × UInt32 :=
  let r1 := c.r2 + (if c.r1 &&& 1 = 1 then c.s[1] ^^^ c.s[8] else c.s[1])
  let r2 := rotateLeft (c.r1 * 0x54655307) 7
  let s0 := c.s[0]
  let s0a := s0 <<< 8 ^^^ A.tablea (s0 >>> 24).toUInt8
  let s2i := c.s[3] >>> 8 ^^^ A.tableainv c.s[3].toUInt8
  let s : Buf UInt32 10 := #v[c.s[1], c.s[2], c.s[3], c.s[4], c.s[5], c.s[6], c.s[7], c.s[8], c.s[9],
    c.s[9] ^^^ s0a ^^^ s2i]
  ({ c with s := s, r1 := r1, r2 := r2 }, (c.s[9] + r1) ^^^ r2, s0)

/-- Four rounds give four words of the keystream. -/
def fourWords (c : Sosemanuk A) : Sosemanuk A × Buf UInt32 4 :=
  let (c, f₀, s₀) := round c
  let (c, f₁, s₁) := round c
  let (c, f₂, s₂) := round c
  let (c, f₃, s₃) := round c
  (c, Vector.zipWith (· ^^^ ·) (A.serpent1 #v[f₀, f₁, f₂, f₃]) #v[s₀, s₁, s₂, s₃])

/-- The members after some groups of four rounds. -/
def groups (c : Sosemanuk A) (i : Nat) : Sosemanuk A := (fun c => (fourWords c).1)^[i] c

def fillBuffer (c : Sosemanuk A) : Buf UInt8 160 × Sosemanuk A :=
  let z : Buf UInt32 40 := Vector.ofFn fun i =>
    (fourWords (groups c (i.val / 4))).2.get ⟨i.val % 4, Nat.mod_lt _ (by decide)⟩
  (storeWords z, groups c 10)

def setKey (c : Sosemanuk A) (key : List UInt8) : Option (Sosemanuk A) := do
  let k ← c.k.write 0 key
  return { c with serpent := A.setKey key, k := k, keysz := key.length }

def setNonce (c : Sosemanuk A) (iv : List UInt8) : Option (Sosemanuk A) := do
  let v ← c.iv.write 0 iv
  ksSetNonce { c with iv := v } iv

def reset (c : Sosemanuk A) : Option (Sosemanuk A) := do
  let key ← c.k.read 0 c.keysz
  ksSetNonce { c with serpent := A.setKey key } c.iv.toList

end Sosemanuk

/-- The class `Sosemanuk`. -/
def sosemanuk (A : SerpentParts) : Cipher where
  M := Sosemanuk A
  bufsz := 160
  bufsz_pos := by decide
  bufsz_lt := by decide
  fillBuffer := Sosemanuk.fillBuffer
  fast := some Sosemanuk.fillBuffer
  keySizes := (List.range 32).map (· + 1)
  ivSizes := some [16]
  init c := c
  setKey c key := do
    let m ← c.m.setKey key
    return { c with m := m, nbytes := 0 }
  setNonce c iv := do
    let m ← c.m.setNonce iv
    return { c with m := m }
  reset c := do
    let m ← c.m.reset
    return { c with m := m, nbytes := 0 }

/-! ## The key and the nonce -/

namespace Sosemanuk

variable {A : SerpentParts} {c c' : Sosemanuk A} {key iv : List UInt8}

/-- The key is the last one, and so is the key schedule. -/
def Keyed (key : List UInt8) (c : Sosemanuk A) : Prop :=
  c.serpent = A.setKey key ∧ c.keysz = key.length ∧ c.k.Holds 0 key

def Ready (key iv : List UInt8) (c : Sosemanuk A) : Prop := Keyed key c ∧ c.iv.toList = iv

/-- The state is as `SetNonce` leaves it, so that it would leave it again. -/
def Begun (key iv : List UInt8) (c : Sosemanuk A) : Prop := Ready key iv c ∧ ksSetNonce c iv = some c

/-- The same shift register. -/
def Same (c c' : Sosemanuk A) : Prop := c.s = c'.s ∧ c.r1 = c'.r1 ∧ c.r2 = c'.r2

theorem round_congr (h : Same c c') : Same (round c).1 (round c').1 ∧ (round c).2 = (round c').2 := by
  obtain ⟨serpent, s, r1, r2, k, iv, keysz⟩ := c
  obtain ⟨serpent', s', r1', r2', k', iv', keysz'⟩ := c'
  obtain ⟨rfl, rfl, rfl⟩ : s = s' ∧ r1 = r1' ∧ r2 = r2' := h
  exact ⟨⟨rfl, rfl, rfl⟩, rfl⟩

theorem fourWords_congr (h : Same c c') :
    Same (fourWords c).1 (fourWords c').1 ∧ (fourWords c).2 = (fourWords c').2 := by
  obtain ⟨h₀, hw₀⟩ := round_congr h
  obtain ⟨h₁, hw₁⟩ := round_congr h₀
  obtain ⟨h₂, hw₂⟩ := round_congr h₁
  obtain ⟨h₃, hw₃⟩ := round_congr h₂
  obtain ⟨hf₀, hs₀⟩ := Prod.ext_iff.mp hw₀
  obtain ⟨hf₁, hs₁⟩ := Prod.ext_iff.mp hw₁
  obtain ⟨hf₂, hs₂⟩ := Prod.ext_iff.mp hw₂
  obtain ⟨hf₃, hs₃⟩ := Prod.ext_iff.mp hw₃
  refine ⟨h₃, ?_⟩
  unfold fourWords
  dsimp only
  rw [hf₀, hf₁, hf₂, hf₃, hs₀, hs₁, hs₂, hs₃]

theorem groups_congr (h : Same c c') (i : Nat) : Same (groups c i) (groups c' i) := by
  induction i generalizing c c' with
  | zero => exact h
  | succ i ih => exact ih (fourWords_congr h).1

theorem fillBuffer_congr (h : Same c c') :
    (fillBuffer c).1 = (fillBuffer c').1 ∧ Same (fillBuffer c).2 (fillBuffer c').2 := by
  refine ⟨?_, groups_congr h 10⟩
  unfold fillBuffer
  simp only [(fourWords_congr (groups_congr h _)).2]

/-- The rounds change the shift register only. -/
theorem ready_groups (h : Ready key iv c) (i : Nat) : Ready key iv (groups c i) := by
  induction i generalizing c with
  | zero => exact h
  | succ i ih => exact ih (c := (fourWords c).1) h

theorem ksSetNonce_spec (h : Ready key iv c) (hiv : iv.length = 16) :
    ∃ c', ksSetNonce c iv = some c' ∧ Begun key iv c' := by
  refine ⟨_, if_neg (by omega), h, ?_⟩
  exact if_neg (by omega)

theorem same_of_begun (h : Begun key iv c) (h' : Begun key iv c') : Same c c' := by
  have hset := h.2
  have hset' := h'.2
  unfold ksSetNonce at hset hset'
  split at hset
  · cases hset
  · rw [if_neg ‹_›] at hset'
    rw [h.1.1.1] at hset
    rw [h'.1.1.1] at hset'
    have hc := Option.some.inj hset
    have hc' := Option.some.inj hset'
    refine ⟨?_, ?_, ?_⟩
    · rw [← hc, ← hc']
    · rw [← hc, ← hc']
    · rw [← hc, ← hc']

theorem exists_setKey (c : Sosemanuk A) (hkey : key.length ≤ 32) :
    ∃ c', c.setKey key = some c' ∧ Keyed key c' := by
  obtain ⟨k, hk⟩ := Buf.exists_write_at c.k 0 key (by omega)
  refine ⟨{ c with serpent := A.setKey key, k := k, keysz := key.length }, ?_, rfl, rfl,
    Buf.holds_write hk⟩
  rw [setKey, hk]
  rfl

theorem exists_setNonce (h : Keyed key c) (hiv : iv.length = 16) :
    ∃ c', c.setNonce iv = some c' ∧ Begun key iv c' := by
  obtain ⟨v, hv⟩ := Buf.exists_write_at c.iv 0 iv (by omega)
  obtain ⟨c', hset, hbegun⟩ := ksSetNonce_spec (c := { c with iv := v })
    ⟨h, (Buf.holds_write hv).toList hiv⟩ hiv
  refine ⟨c', ?_, hbegun⟩
  rw [setNonce, hv]
  exact hset

theorem exists_reset (h : Ready key iv c) : ∃ c', c.reset = some c' ∧ Begun key iv c' := by
  obtain ⟨⟨hserpent, hkeysz, hk⟩, hv⟩ := h
  have hlen : iv.length = 16 := by rw [← hv, Vector.length_toList]
  have hready : Ready key iv { c with serpent := A.setKey key } := ⟨⟨rfl, hkeysz, hk⟩, hv⟩
  obtain ⟨c', hset, hbegun⟩ := ksSetNonce_spec hready hlen
  have hread : c.k.read 0 c.keysz = some key := by
    rw [hkeysz]
    exact hk.read
  refine ⟨c', ?_, hbegun⟩
  rw [reset, hread, hv]
  exact hset

def laws (A : SerpentParts) : NonceLaws (sosemanuk A) fun _ => True where
  Base _ := True
  Keyed := Keyed
  Ready := Ready
  Begun := Begun
  Same := Same
  fast _ h := (Option.some.inj h).symm
  base_init _ := trivial
  base_of_keyed _ := trivial
  keyed_of_ready h := h.1
  ready_of_begun h := h.1
  ready_fill h := ready_groups h 10
  same_of_begun := same_of_begun
  makesSame _ _ := fillBuffer_congr
  has_nonces h := nomatch h
  setKey_nbytes h := nbytes_of_emptied h
  setKey := by
    intro c key _ hkey
    obtain ⟨i, hi, hlen⟩ := List.mem_map.mp hkey
    have hlt := List.mem_range.mp hi
    obtain ⟨m, hset, hm⟩ := exists_setKey c.m (by omega : key.length ≤ 32)
    refine ⟨{ c with m := m, nbytes := 0 }, ?_, hm, trivial⟩
    change (c.m.setKey key >>= _) = _
    rw [hset]
    rfl
  setNonce_nbytes h := nbytes_of_kept h
  setNonce := by
    rintro c key iv hkeyed ⟨sizes, hsizes, hiv⟩
    obtain rfl := Option.some.inj hsizes
    obtain ⟨m, hset, hbegun⟩ := exists_setNonce hkeyed (List.mem_singleton.mp hiv)
    refine ⟨{ c with m := m }, ?_, hbegun.1, fun _ => hbegun⟩
    change (c.m.setNonce iv >>= _) = _
    rw [hset]
    rfl
  reset_nbytes h := nbytes_of_emptied h
  reset := by
    intro c key iv hready
    obtain ⟨m, hset, hbegun⟩ := exists_reset hready
    refine ⟨{ c with m := m, nbytes := 0 }, ?_, hbegun⟩
    change (c.m.reset >>= _) = _
    rw [hset]
    rfl

end Sosemanuk

end Drew.StreamCipher
