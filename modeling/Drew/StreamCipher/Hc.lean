import Drew.StreamCipher.Nonce
import Drew.StreamCipher.Words

/-!
# HC-128 and HC-256

The model of the classes `HC128Keystream`, `HC128`, `HC256Keystream` and `HC256`. Both have two
tables, `P` and `Q`, which are changed entry by entry, and the words of the key; the tables are made
from the key and the nonce, so they need not be kept for a restart. The member `ctr` is left out:
nothing reads it.
-/

namespace Drew.StreamCipher

open Drew.Memory

namespace Hc

def f1 (x : UInt32) : UInt32 := rotateRight x 7 ^^^ rotateRight x 18 ^^^ x >>> 3

def f2 (x : UInt32) : UInt32 := rotateRight x 17 ^^^ rotateRight x 19 ^^^ x >>> 10

/-- `E::GetByte`. -/
def byteOf (x : UInt32) (n : UInt32) : Fin 256 := ⟨(x >>> (8 * n)).toNat % 256, Nat.mod_lt _ (by decide)⟩

/-- The words from 16 on of `w`. -/
def expand (len : Nat) (w : Array UInt32) : Array UInt32 :=
  (List.range' 16 (len - 16)).foldl (fun w i =>
    w.push (f2 (w.getD (i - 2) 0) + w.getD (i - 7) 0 + f1 (w.getD (i - 15) 0) + w.getD (i - 16) 0 +
      UInt32.ofNat i)) w

end Hc

/-! ## HC-128 -/

/-- The members of `HC128Keystream` and of `HC128`. -/
structure Hc128 where
  k : Buf UInt32 4
  P : Buf UInt32 512
  Q : Buf UInt32 512
  iv : Buf UInt8 16

namespace Hc128

open Hc

def g1 (x y z : UInt32) : UInt32 := (rotateRight x 10 ^^^ rotateRight z 23) + rotateRight y 8

def g2 (x y z : UInt32) : UInt32 := (rotateLeft x 10 ^^^ rotateLeft z 23) + rotateLeft y 8

/-- `h1` with the table `Q`, and `h2` with `P`. -/
def h (T : Buf UInt32 512) (x : UInt32) : UInt32 :=
  T.get ⟨byteOf x 0, by omega⟩ + T.get ⟨256 + byteOf x 2, by omega⟩

/-- The next value of an entry is this sum with its old one. -/
def change (g : UInt32 → UInt32 → UInt32 → UInt32) (T : Buf UInt32 512) (j : Fin 512) : UInt32 :=
  T[j] + g T[j - 3] T[j - 10] T[j - 511]

/-- The tables of a key and a nonce. -/
def tables (k iv : List UInt32) : Buf UInt32 512 × Buf UInt32 512 :=
  let w := expand 1280 (k ++ k ++ iv ++ iv).toArray
  let P : Buf UInt32 512 := Vector.ofFn fun i => w.getD (256 + i) 0
  let Q : Buf UInt32 512 := Vector.ofFn fun i => w.getD (768 + i) 0
  let P := (List.finRange 512).foldl (fun P i => P.set i (change g1 P i ^^^ h Q P[i - 12])) P
  let Q := (List.finRange 512).foldl (fun Q i => Q.set i (change g2 Q i ^^^ h P Q[i - 12])) Q
  (P, Q)

/-- `HC128Keystream::SetNonce`. With fewer bytes some words would not be set. -/
def ksSetNonce (c : Hc128) (iv : List UInt8) : Option Hc128 :=
  if iv.length = 16 then
    let t := tables c.k.toList (loadWords iv)
    some { c with P := t.1, Q := t.2 }
  else none

def fillBuffer (c : Hc128) : Buf UInt8 4096 × Hc128 :=
  let s := (List.finRange 512).foldl (fun (s : Buf UInt32 512 × Buf UInt32 1024) (j : Fin 512) =>
    let P := s.1.set j (change g1 s.1 j)
    (P, s.2.set j.val (h c.Q P[j - 12] ^^^ P[j]))) (c.P, Vector.replicate 1024 0)
  let P := s.1
  let s := (List.finRange 512).foldl (fun (s : Buf UInt32 512 × Buf UInt32 1024) (j : Fin 512) =>
    let Q := s.1.set j (change g2 s.1 j)
    (Q, s.2.set (512 + j.val) (h P Q[j - 12] ^^^ Q[j]))) (c.Q, s.2)
  (storeWords s.2, { c with P := P, Q := s.1 })

def setNonce (c : Hc128) (iv : List UInt8) : Option Hc128 := do
  let v ← c.iv.write 0 iv
  ksSetNonce { c with iv := v } iv

def reset (c : Hc128) : Option Hc128 := ksSetNonce c c.iv.toList

end Hc128

/-- The class `HC128`. -/
def hc128 : Cipher where
  M := Hc128
  bufsz := 4096
  bufsz_pos := by decide
  bufsz_lt := by decide
  fillBuffer := Hc128.fillBuffer
  fast := none
  keySizes := [16]
  ivSizes := some [16]
  init c := c
  setKey c key := do
    let k ← copyWords c.m.k 0 key
    return { c with m := { c.m with k := k }, nbytes := 0 }
  setNonce c iv := do
    let m ← c.m.setNonce iv
    return { c with m := m }
  reset c := do
    let m ← c.m.reset
    return { c with m := m, nbytes := 0 }

/-! ### The key and the nonce -/

namespace Hc128

/-- The tables are as `SetNonce` leaves them. -/
def Begun (key iv : List UInt8) (c : Hc128) : Prop :=
  (c.k.toList = loadWords key ∧ c.iv.toList = iv) ∧
    (c.P, c.Q) = tables (loadWords key) (loadWords iv)

/-- The blocks depend on the tables only. -/
theorem fillBuffer_congr {c c' : Hc128} (h : c.P = c'.P ∧ c.Q = c'.Q) :
    (fillBuffer c).1 = (fillBuffer c').1 ∧
      (fillBuffer c).2.P = (fillBuffer c').2.P ∧ (fillBuffer c).2.Q = (fillBuffer c').2.Q := by
  obtain ⟨k, P, Q, iv⟩ := c
  obtain ⟨k', P', Q', iv'⟩ := c'
  obtain ⟨rfl, rfl⟩ : P = P' ∧ Q = Q' := h
  exact ⟨rfl, rfl, rfl⟩

/-- The key and the nonce stay. -/
theorem fillBuffer_keeps {c : Hc128} {key iv : List UInt8}
    (h : c.k.toList = loadWords key ∧ c.iv.toList = iv) :
    (fillBuffer c).2.k.toList = loadWords key ∧ (fillBuffer c).2.iv.toList = iv := by
  unfold fillBuffer
  exact h

theorem exists_copyWords (k : Buf UInt32 4) {key : List UInt8} (hkey : key.length = 16) :
    ∃ k', copyWords k 0 key = some k' ∧ k'.toList = loadWords key := by
  obtain ⟨k', hcopy, hwrite⟩ := copyWords_spec k 0 (by omega : key.length % 4 = 0) (by omega)
  have hlen : (loadWords key).length = 4 := by rw [length_loadWords, hkey]
  exact ⟨k', hcopy, (Buf.holds_write hwrite).toList hlen⟩

theorem ksSetNonce_spec (c : Hc128) {key iv : List UInt8} (hkey : c.k.toList = loadWords key)
    (hiv : iv.length = 16) (hv : c.iv.toList = iv) :
    ∃ c', ksSetNonce c iv = some c' ∧ Begun key iv c' := by
  refine ⟨_, if_pos hiv, ⟨hkey, hv⟩, ?_⟩
  rw [hkey]

theorem exists_setNonce (c : Hc128) {key iv : List UInt8} (hkey : c.k.toList = loadWords key)
    (hiv : iv.length = 16) : ∃ c', c.setNonce iv = some c' ∧ Begun key iv c' := by
  obtain ⟨v, hv⟩ := Buf.exists_write_at c.iv 0 iv (by omega)
  obtain ⟨c', hset, hbegun⟩ := ksSetNonce_spec { c with iv := v } hkey hiv
    ((Buf.holds_write hv).toList hiv)
  refine ⟨c', ?_, hbegun⟩
  rw [setNonce, hv]
  exact hset

def laws : NonceLaws hc128 fun _ => True where
  Base _ := True
  Keyed key c := c.k.toList = loadWords key
  Ready key iv c := c.k.toList = loadWords key ∧ c.iv.toList = iv
  Begun := Begun
  Same c c' := c.P = c'.P ∧ c.Q = c'.Q
  fast _ h := nomatch h
  base_init _ := trivial
  base_of_keyed _ := trivial
  keyed_of_ready h := h.1
  ready_of_begun h := h.1
  ready_fill h := fillBuffer_keeps h
  same_of_begun h h' := Prod.ext_iff.mp (h.2.trans h'.2.symm)
  makesSame _ _ := fillBuffer_congr
  has_nonces h := nomatch h
  setKey_nbytes h := by
    obtain ⟨k, -, h⟩ := Option.bind_eq_some_iff.mp h
    rw [← Option.some.inj h]
  setKey := by
    intro c key _ hkey
    obtain ⟨k, hcopy, hk⟩ := exists_copyWords c.m.k (List.mem_singleton.mp hkey)
    refine ⟨{ c with m := { c.m with k := k }, nbytes := 0 }, ?_, hk, trivial⟩
    change (copyWords c.m.k 0 key >>= _) = _
    rw [hcopy]
    rfl
  setNonce_nbytes h := nbytes_of_kept h
  setNonce := by
    rintro c key iv hkeyed ⟨sizes, hsizes, hiv⟩
    obtain rfl := Option.some.inj hsizes
    obtain ⟨m, hset, hbegun⟩ := exists_setNonce c.m hkeyed (List.mem_singleton.mp hiv)
    refine ⟨{ c with m := m }, ?_, hbegun.1, fun _ => hbegun⟩
    change (c.m.setNonce iv >>= _) = _
    rw [hset]
    rfl
  reset_nbytes h := nbytes_of_emptied h
  reset := by
    rintro c key iv ⟨hkey, rfl⟩
    obtain ⟨m, hset, hbegun⟩ := ksSetNonce_spec c.m hkey (@Vector.length_toList _ _ c.m.iv) rfl
    refine ⟨{ c with m := m, nbytes := 0 }, ?_, hbegun⟩
    change (ksSetNonce c.m c.m.iv.toList >>= _) = _
    rw [hset]
    rfl

end Hc128

/-! ## HC-256 -/

/-- The members of `HC256Keystream` and of `HC256`. -/
structure Hc256 where
  k : Buf UInt32 8
  P : Buf UInt32 1024
  Q : Buf UInt32 1024
  iv : Buf UInt8 32

namespace Hc256

open Hc

/-- `g1` with the table `Q`, and `g2` with `P`. -/
def g (T : Buf UInt32 1024) (x y : UInt32) : UInt32 :=
  (rotateRight x 10 ^^^ rotateRight y 23) + T.get ⟨(x ^^^ y).toNat % 1024, Nat.mod_lt _ (by decide)⟩

/-- `h1` with the table `Q`, and `h2` with `P`. -/
def h (T : Buf UInt32 1024) (x : UInt32) : UInt32 :=
  T.get ⟨byteOf x 0, by omega⟩ + T.get ⟨256 + byteOf x 1, by omega⟩ +
    T.get ⟨512 + byteOf x 2, by omega⟩ + T.get ⟨768 + byteOf x 3, by omega⟩

/-- The next value of an entry, where `U` is the other table. -/
def change (U T : Buf UInt32 1024) (j : Fin 1024) : UInt32 :=
  T[j] + (T[j - 10] + g U T[j - 3] T[j - 1023])

def fill (P Q : Buf UInt32 1024) : Buf UInt32 2048 × Buf UInt32 1024 × Buf UInt32 1024 :=
  let s := (List.finRange 1024).foldl (fun (s : Buf UInt32 1024 × Buf UInt32 2048) (j : Fin 1024) =>
    let P := s.1.set j (change Q s.1 j)
    (P, s.2.set j.val (h Q P[j - 12] ^^^ P[j]))) (P, Vector.replicate 2048 0)
  let P := s.1
  let s := (List.finRange 1024).foldl (fun (s : Buf UInt32 1024 × Buf UInt32 2048) (j : Fin 1024) =>
    let Q := s.1.set j (change P s.1 j)
    (Q, s.2.set (1024 + j.val) (h P Q[j - 12] ^^^ Q[j]))) (Q, s.2)
  (s.2, P, s.1)

/-- The tables of a key and a nonce, after two blocks that are not used. -/
def tables (k iv : List UInt32) : Buf UInt32 1024 × Buf UInt32 1024 :=
  let w := expand 2560 (k ++ iv).toArray
  let P : Buf UInt32 1024 := Vector.ofFn fun i => w.getD (512 + i) 0
  let Q : Buf UInt32 1024 := Vector.ofFn fun i => w.getD (1536 + i) 0
  let t := (fill P Q).2
  (fill t.1 t.2).2

/-- `HC256Keystream::SetNonce`. With fewer bytes some words would not be set. -/
def ksSetNonce (c : Hc256) (iv : List UInt8) : Option Hc256 :=
  if iv.length = 32 then
    let t := tables c.k.toList (loadWords iv)
    some { c with P := t.1, Q := t.2 }
  else none

def fillBuffer (c : Hc256) : Buf UInt8 8192 × Hc256 :=
  let r := fill c.P c.Q
  (storeWords r.1, { c with P := r.2.1, Q := r.2.2 })

def setNonce (c : Hc256) (iv : List UInt8) : Option Hc256 := do
  let v ← c.iv.write 0 iv
  ksSetNonce { c with iv := v } iv

def reset (c : Hc256) : Option Hc256 := ksSetNonce c c.iv.toList

end Hc256

/-- The class `HC256`. -/
def hc256 : Cipher where
  M := Hc256
  bufsz := 8192
  bufsz_pos := by decide
  bufsz_lt := by decide
  fillBuffer := Hc256.fillBuffer
  fast := none
  keySizes := [32]
  ivSizes := some [32]
  init c := c
  setKey c key := do
    let k ← copyWords c.m.k 0 key
    return { c with m := { c.m with k := k }, nbytes := 0 }
  setNonce c iv := do
    let m ← c.m.setNonce iv
    return { c with m := m }
  reset c := do
    let m ← c.m.reset
    return { c with m := m, nbytes := 0 }

/-! ### The key and the nonce -/

namespace Hc256

/-- The tables are as `SetNonce` leaves them. -/
def Begun (key iv : List UInt8) (c : Hc256) : Prop :=
  (c.k.toList = loadWords key ∧ c.iv.toList = iv) ∧
    (c.P, c.Q) = tables (loadWords key) (loadWords iv)

/-- The blocks depend on the tables only. -/
theorem fillBuffer_congr {c c' : Hc256} (h : c.P = c'.P ∧ c.Q = c'.Q) :
    (fillBuffer c).1 = (fillBuffer c').1 ∧
      (fillBuffer c).2.P = (fillBuffer c').2.P ∧ (fillBuffer c).2.Q = (fillBuffer c').2.Q := by
  obtain ⟨k, P, Q, iv⟩ := c
  obtain ⟨k', P', Q', iv'⟩ := c'
  obtain ⟨rfl, rfl⟩ : P = P' ∧ Q = Q' := h
  exact ⟨rfl, rfl, rfl⟩

/-- The key and the nonce stay. -/
theorem fillBuffer_keeps {c : Hc256} {key iv : List UInt8}
    (h : c.k.toList = loadWords key ∧ c.iv.toList = iv) :
    (fillBuffer c).2.k.toList = loadWords key ∧ (fillBuffer c).2.iv.toList = iv := by
  unfold fillBuffer
  exact h

theorem exists_copyWords (k : Buf UInt32 8) {key : List UInt8} (hkey : key.length = 32) :
    ∃ k', copyWords k 0 key = some k' ∧ k'.toList = loadWords key := by
  obtain ⟨k', hcopy, hwrite⟩ := copyWords_spec k 0 (by omega : key.length % 4 = 0) (by omega)
  have hlen : (loadWords key).length = 8 := by rw [length_loadWords, hkey]
  exact ⟨k', hcopy, (Buf.holds_write hwrite).toList hlen⟩

theorem ksSetNonce_spec (c : Hc256) {key iv : List UInt8} (hkey : c.k.toList = loadWords key)
    (hiv : iv.length = 32) (hv : c.iv.toList = iv) :
    ∃ c', ksSetNonce c iv = some c' ∧ Begun key iv c' := by
  refine ⟨_, if_pos hiv, ⟨hkey, hv⟩, ?_⟩
  rw [hkey]

theorem exists_setNonce (c : Hc256) {key iv : List UInt8} (hkey : c.k.toList = loadWords key)
    (hiv : iv.length = 32) : ∃ c', c.setNonce iv = some c' ∧ Begun key iv c' := by
  obtain ⟨v, hv⟩ := Buf.exists_write_at c.iv 0 iv (by omega)
  obtain ⟨c', hset, hbegun⟩ := ksSetNonce_spec { c with iv := v } hkey hiv
    ((Buf.holds_write hv).toList hiv)
  refine ⟨c', ?_, hbegun⟩
  rw [setNonce, hv]
  exact hset

def laws : NonceLaws hc256 fun _ => True where
  Base _ := True
  Keyed key c := c.k.toList = loadWords key
  Ready key iv c := c.k.toList = loadWords key ∧ c.iv.toList = iv
  Begun := Begun
  Same c c' := c.P = c'.P ∧ c.Q = c'.Q
  fast _ h := nomatch h
  base_init _ := trivial
  base_of_keyed _ := trivial
  keyed_of_ready h := h.1
  ready_of_begun h := h.1
  ready_fill h := fillBuffer_keeps h
  same_of_begun h h' := Prod.ext_iff.mp (h.2.trans h'.2.symm)
  makesSame _ _ := fillBuffer_congr
  has_nonces h := nomatch h
  setKey_nbytes h := by
    obtain ⟨k, -, h⟩ := Option.bind_eq_some_iff.mp h
    rw [← Option.some.inj h]
  setKey := by
    intro c key _ hkey
    obtain ⟨k, hcopy, hk⟩ := exists_copyWords c.m.k (List.mem_singleton.mp hkey)
    refine ⟨{ c with m := { c.m with k := k }, nbytes := 0 }, ?_, hk, trivial⟩
    change (copyWords c.m.k 0 key >>= _) = _
    rw [hcopy]
    rfl
  setNonce_nbytes h := nbytes_of_kept h
  setNonce := by
    rintro c key iv hkeyed ⟨sizes, hsizes, hiv⟩
    obtain rfl := Option.some.inj hsizes
    obtain ⟨m, hset, hbegun⟩ := exists_setNonce c.m hkeyed (List.mem_singleton.mp hiv)
    refine ⟨{ c with m := m }, ?_, hbegun.1, fun _ => hbegun⟩
    change (c.m.setNonce iv >>= _) = _
    rw [hset]
    rfl
  reset_nbytes h := nbytes_of_emptied h
  reset := by
    rintro c key iv ⟨hkey, rfl⟩
    obtain ⟨m, hset, hbegun⟩ := ksSetNonce_spec c.m hkey (@Vector.length_toList _ _ c.m.iv) rfl
    refine ⟨{ c with m := m, nbytes := 0 }, ?_, hbegun⟩
    change (ksSetNonce c.m c.m.iv.toList >>= _) = _
    rw [hset]
    rfl

end Hc256

end Drew.StreamCipher
