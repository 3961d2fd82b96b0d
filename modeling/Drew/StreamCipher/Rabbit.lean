import Drew.StreamCipher.Nonce
import Drew.StreamCipher.Words

/-!
# Rabbit

The model of the classes `RabbitKeystream` and `Rabbit`.
-/

namespace Drew.StreamCipher

open Drew.Memory

/-- The members of `RabbitKeystream`. -/
structure RabbitKeystream where
  x : Buf UInt32 8
  c : Buf UInt32 8
  b : Bool

/-- The members of `Rabbit`. -/
structure Rabbit where
  ks : RabbitKeystream
  key : Buf UInt8 16
  nonce : Buf UInt8 8

namespace Rabbit

def g (u v : UInt32) : UInt32 :=
  let s := (u + v).toUInt64
  let res := s * s
  (res >>> 32).toUInt32 ^^^ res.toUInt32

/-- The constants `a`. -/
def a : Buf UInt64 8 := #v[
  0x4d34d34d, 0xd34d34d3, 0x34d34d34, 0x4d34d34d, 0xd34d34d3, 0x34d34d34, 0x4d34d34d, 0xd34d34d3]

/-- The counters and the carry, which goes around. -/
def addCarry (cs : Buf UInt32 8) (b : Bool) (i : Fin 8) : Buf UInt32 8 × Bool :=
  let temp := (cs.get i).toUInt64 + a.get i + (if b then 1 else 0)
  (cs.set i temp.toUInt32 (lt_8 i), temp >>> 32 != 0)

def iterate (ks : RabbitKeystream) : RabbitKeystream :=
  let (cs, b) := (List.finRange 8).foldl (fun s i => addCarry s.1 s.2 i) (ks.c, ks.b)
  let g := Vector.ofFn fun i : Fin 8 => g (ks.x.get i) (cs.get i)
  let x := #v[
    g[0] + rotateLeft g[7] 16 + rotateLeft g[6] 16,
    g[1] + rotateLeft g[0] 8 + g[7],
    g[2] + rotateLeft g[1] 16 + rotateLeft g[0] 16,
    g[3] + rotateLeft g[2] 8 + g[1],
    g[4] + rotateLeft g[3] 16 + rotateLeft g[2] 16,
    g[5] + rotateLeft g[4] 8 + g[3],
    g[6] + rotateLeft g[5] 16 + rotateLeft g[4] 16,
    g[7] + rotateLeft g[6] 8 + g[5]]
  { x := x, c := cs, b := b }

/-- A word of 16 bits of the key. -/
def half (key : List UInt8) (i : Nat) : UInt32 :=
  (key.getD (2 * (i % 8)) 0).toUInt32 ||| (key.getD (2 * (i % 8) + 1) 0).toUInt32 <<< 8

def ksReset (ks : RabbitKeystream) : RabbitKeystream := { ks with b := false }

/-- The words of the key in `x` and `c`, four rounds, and the feedback of `x` to `c`. -/
def ksSetKey (ks : RabbitKeystream) (key : List UInt8) : Option RabbitKeystream :=
  if key.length < 16 then none else
    let k := half key
    let x := Vector.ofFn fun i : Fin 8 =>
      if i.val % 2 = 0 then k (i + 1) <<< 16 ||| k i else k (i + 5) <<< 16 ||| k (i + 4)
    let c := Vector.ofFn fun i : Fin 8 =>
      if i.val % 2 = 0 then k (i + 4) <<< 16 ||| k (i + 5) else k i <<< 16 ||| k (i + 1)
    let ks := iterate^[4] { ks with x := x, c := c }
    some { ks with c := Vector.ofFn fun i => ks.c.get i ^^^ ks.x.get (i + 4) }

/-- The words of the nonce are added to `c`, and four rounds follow. -/
def ksSetNonce (ks : RabbitKeystream) (iv : List UInt8) : Option RabbitKeystream :=
  match loadWords iv with
  | iv₀ :: iv₁ :: _ =>
      let words : Buf UInt32 4 := #v[iv₀, (iv₁ &&& (0xffff0000 : UInt32)) ||| iv₀ >>> 16, iv₁,
        iv₁ <<< 16 ||| (iv₀ &&& (0xffff : UInt32))]
      let c := Vector.ofFn fun i : Fin 8 => ks.c.get i ^^^ words.get ⟨i.val % 4, Nat.mod_lt _ (by decide)⟩
      some (iterate^[4] { ks with c := c })
  | _ => none

def fillBuffer (r : Rabbit) : Buf UInt8 16 × Rabbit :=
  let ks := iterate r.ks
  let x := ks.x
  let s : Buf UInt32 4 := #v[
    x[0] ^^^ x[5] >>> 16 ^^^ x[3] <<< 16, x[2] ^^^ x[7] >>> 16 ^^^ x[5] <<< 16,
    x[4] ^^^ x[1] >>> 16 ^^^ x[7] <<< 16, x[6] ^^^ x[3] >>> 16 ^^^ x[1] <<< 16]
  (storeWords s, { r with ks := ks })

def setKey (r : Rabbit) (key : List UInt8) : Option Rabbit := do
  let k ← r.key.write 0 key
  let ks ← ksSetKey (ksReset r.ks) key
  return { r with ks := ks, key := k }

def setNonce (r : Rabbit) (nonce : List UInt8) : Option Rabbit := do
  let n ← r.nonce.write 0 nonce
  let ks ← ksSetNonce r.ks nonce
  return { r with ks := ks, nonce := n }

def reset (r : Rabbit) : Option Rabbit := do
  let ks ← ksSetKey (ksReset r.ks) r.key.toList
  let ks ← ksSetNonce ks r.nonce.toList
  return { r with ks := ks }

end Rabbit

/-- The class `Rabbit`. -/
def rabbit : Cipher where
  M := Rabbit
  bufsz := 16
  bufsz_pos := pos_16
  bufsz_lt := by decide
  fillBuffer := Rabbit.fillBuffer
  fast := none
  keySizes := [16]
  ivSizes := some [8]
  init c := { c with m := { c.m with ks := Rabbit.ksReset c.m.ks } }
  setKey c key := do
    let r ← c.m.setKey key
    return { c with m := r, nbytes := 0 }
  setNonce c iv := do
    let r ← c.m.setNonce iv
    return { c with m := r }
  reset c := do
    let r ← c.m.reset
    return { c with m := r, nbytes := 0 }

/-! ## The key and the nonce -/

namespace Rabbit

/-- The key stream is as `SetKey` leaves it. -/
def Unused (r : Rabbit) : Prop := ksSetKey (ksReset r.ks) r.key.toList = some r.ks

/-- The key stream is as `SetNonce` leaves it after `SetKey`. -/
def Begun (key iv : List UInt8) (r : Rabbit) : Prop :=
  (r.key.toList = key ∧ r.nonce.toList = iv) ∧
    ((ksSetKey (ksReset r.ks) key).bind fun ks => ksSetNonce ks iv) = some r.ks

/-- Nothing stays of the key stream before. -/
theorem ksSetKey_ksReset (ks ks' : RabbitKeystream) (key : List UInt8) :
    ksSetKey (ksReset ks) key = ksSetKey (ksReset ks') key := rfl

/-- The blocks depend on the key stream only. -/
theorem fillBuffer_congr {r r' : Rabbit} (h : r.ks = r'.ks) :
    (fillBuffer r).1 = (fillBuffer r').1 ∧ (fillBuffer r).2.ks = (fillBuffer r').2.ks := by
  obtain ⟨ks, key, nonce⟩ := r
  obtain ⟨ks', key', nonce'⟩ := r'
  obtain rfl : ks = ks' := h
  exact ⟨rfl, rfl⟩

theorem exists_ksSetKey (ks : RabbitKeystream) {key : List UInt8} (hkey : key.length = 16) :
    ∃ ks', ksSetKey ks key = some ks' := by
  unfold ksSetKey
  rw [if_neg (by omega)]
  exact ⟨_, rfl⟩

theorem exists_ksSetNonce (ks : RabbitKeystream) {iv : List UInt8} (hiv : iv.length = 8) :
    ∃ ks', ksSetNonce ks iv = some ks' := by
  have hlen : (loadWords iv).length = 2 := by rw [length_loadWords, hiv]
  obtain ⟨iv₀, iv₁, hwords⟩ := List.length_eq_two.mp hlen
  unfold ksSetNonce
  rw [hwords]
  exact ⟨_, rfl⟩

theorem exists_setKey (r : Rabbit) {key : List UInt8} (hkey : key.length = 16) :
    ∃ r', r.setKey key = some r' ∧ r'.key.toList = key ∧ Unused r' := by
  obtain ⟨k, hk⟩ := Buf.exists_write_at r.key 0 key (by omega)
  obtain ⟨ks, hks⟩ := exists_ksSetKey (ksReset r.ks) hkey
  have htoList : k.toList = key := (Buf.holds_write hk).toList hkey
  refine ⟨{ r with ks := ks, key := k }, ?_, htoList, ?_⟩
  · rw [setKey, hk, hks]
    rfl
  · rw [Unused, htoList, ksSetKey_ksReset ks r.ks, hks]

theorem exists_setNonce (r : Rabbit) {iv : List UInt8} (hiv : iv.length = 8) :
    ∃ r', r.setNonce iv = some r' ∧ r'.key = r.key ∧ r'.nonce.toList = iv ∧
      ksSetNonce r.ks iv = some r'.ks := by
  obtain ⟨n, hn⟩ := Buf.exists_write_at r.nonce 0 iv (by omega)
  obtain ⟨ks, hks⟩ := exists_ksSetNonce r.ks hiv
  refine ⟨{ r with ks := ks, nonce := n }, ?_, rfl, (Buf.holds_write hn).toList hiv, hks⟩
  rw [setNonce, hn, hks]
  rfl

theorem exists_reset (r : Rabbit) :
    ∃ r', r.reset = some r' ∧ Begun r.key.toList r.nonce.toList r' := by
  obtain ⟨ks, hks⟩ := exists_ksSetKey (ksReset r.ks) (@Vector.length_toList _ _ r.key)
  obtain ⟨ks', hks'⟩ := exists_ksSetNonce ks (@Vector.length_toList _ _ r.nonce)
  refine ⟨{ r with ks := ks' }, ?_, ⟨rfl, rfl⟩, ?_⟩
  · rw [reset, hks]
    exact congrArg (fun o => o.bind fun ks => some { r with ks := ks }) hks'
  · rw [ksSetKey_ksReset ks' r.ks, hks]
    exact hks'

def laws : NonceLaws rabbit Unused where
  Base _ := True
  Keyed key r := r.key.toList = key
  Ready key iv r := r.key.toList = key ∧ r.nonce.toList = iv
  Begun := Begun
  Same r r' := r.ks = r'.ks
  fast _ h := nomatch h
  base_init _ := trivial
  base_of_keyed _ := trivial
  keyed_of_ready h := h.1
  ready_of_begun h := h.1
  ready_fill h := h
  same_of_begun := by
    intro key iv r r' h h'
    have hks := h.2
    rw [ksSetKey_ksReset r.ks r'.ks] at hks
    exact Option.some.inj (hks.symm.trans h'.2)
  makesSame _ _ := fillBuffer_congr
  has_nonces h := nomatch h
  setKey_nbytes h := nbytes_of_emptied h
  setKey := by
    intro c key _ hkey
    obtain ⟨r, hset, hr⟩ := exists_setKey c.m (List.mem_singleton.mp hkey)
    refine ⟨{ c with m := r, nbytes := 0 }, ?_, hr⟩
    change (c.m.setKey key >>= _) = _
    rw [hset]
    rfl
  setNonce_nbytes h := nbytes_of_kept h
  setNonce := by
    rintro c key iv hkeyed ⟨sizes, hsizes, hiv⟩
    obtain rfl := Option.some.inj hsizes
    obtain ⟨r, hset, hkey, hnonce, hks⟩ := exists_setNonce c.m (List.mem_singleton.mp hiv)
    have hready : r.key.toList = key ∧ r.nonce.toList = iv := ⟨by rw [hkey, hkeyed], hnonce⟩
    refine ⟨{ c with m := r }, ?_, hready, fun hunused => ⟨hready, ?_⟩⟩
    · change (c.m.setNonce iv >>= _) = _
      rw [hset]
      rfl
    · change c.m.key.toList = key at hkeyed
      change ksSetKey (ksReset c.m.ks) c.m.key.toList = some c.m.ks at hunused
      rw [hkeyed] at hunused
      rw [ksSetKey_ksReset r.ks c.m.ks, hunused]
      exact hks
  reset_nbytes h := nbytes_of_emptied h
  reset := by
    rintro c key iv ⟨rfl, rfl⟩
    obtain ⟨r, hreset, hr⟩ := exists_reset c.m
    refine ⟨{ c with m := r, nbytes := 0 }, ?_, hr⟩
    change (c.m.reset >>= _) = _
    rw [hreset]
    rfl

end Rabbit

end Drew.StreamCipher
