import Drew.Memory.Endian
import Drew.Block.Bytes
import Drew.Block.Rounds
import Drew.StreamCipher.Words

/-!
# MARS

The model of the class `MARS`. The table `sbox` is a parameter: nothing that is proved about the
cipher depends on what it holds. Rotations by an amount that depends on data can be by 0, where
`RotateLeft` shifts by the whole width; a shift by 32 is then by 0, as on the processors that mask
the amount.
-/

namespace Drew

open Drew.Memory Drew.StreamCipher Drew.Block

/-- The member `m_k`. -/
structure Mars where
  k : Vector UInt32 40

namespace Mars

/-- `static const uint32_t sbox[512]`. -/
abbrev Sbox := Vector UInt32 512

/-- The local variables `a`, `b`, `c`, `d`. -/
@[ext] structure Words where
  a : UInt32
  b : UInt32
  c : UInt32
  d : UInt32

/-- `sbox[x]` and `sbox[256 + x]`. -/
def sbox0 (s : Sbox) (x : UInt8) : UInt32 := s.get (Fin.ofNat 512 x.toNat)
def sbox1 (s : Sbox) (x : UInt8) : UInt32 := s.get (Fin.ofNat 512 (256 + x.toNat))

/-- `sbox[x & 0x1ff]`. -/
def sbox9 (s : Sbox) (x : UInt32) : UInt32 := s.get (Fin.ofNat 512 (x &&& 0x1ff).toNat)

/-! ## The key schedule -/

section Schedule

variable (s : Sbox)

/-- `t[n % 15]`. -/
def at15 (t : Vector UInt32 15) (n : Nat) : UInt32 := t.get (Fin.ofNat 15 n)

/-- The first loop over `i`. -/
def linear (j : Nat) (t : Vector UInt32 15) : Vector UInt32 15 :=
  (List.range 15).foldl (fun t i => t.setIfInBounds i (at15 t i ^^^
    (rotateLeft (at15 t (i + 8) ^^^ at15 t (i + 13)) 3 ^^^ UInt32.ofNat (4 * i + j)))) t

/-- The loops over `k` and `i`. -/
def stir (t : Vector UInt32 15) : Vector UInt32 15 :=
  (List.range 4).foldl (fun t _ => (List.range 15).foldl (fun t i =>
    t.setIfInBounds i (rotateLeft (at15 t i + sbox9 s (at15 t (i + 14))) 9)) t) t

/-- One pass of the loop over `j`: `t`, and ten words of `m_k`. -/
def expand (st : Vector UInt32 15 × Vector UInt32 40) (j : Nat) : Vector UInt32 15 × Vector UInt32 40 :=
  let t := stir s (linear j st.1)
  (t, (List.range 10).foldl (fun k i => k.setIfInBounds (10 * j + i) (at15 t (4 * i))) st.2)

/-- The table `b`. -/
def fixes : Vector UInt32 4 := #v[0xa4a8d57b, 0x5b5d193b, 0xc8a8309b, 0x73f9a978]

/-- `m`: where a run of ten equal bits of `w` is. -/
def runMask (w : UInt32) : UInt32 :=
  let m := (~~~w ^^^ w <<< 1) &&& (~~~w ^^^ w >>> 1) &&& 0x7ffffffe
  let m := m &&& m >>> 1
  let m := m &&& m >>> 2
  let m := m &&& m >>> 4
  let m := m ||| m <<< 1
  let m := m ||| m <<< 2
  let m := m ||| m <<< 4
  m &&& 0x7ffffffc

/-- A subkey that is multiplied with, made odd and without long runs. -/
def fixKey (k : Vector UInt32 40) (i : Nat) : Vector UInt32 40 :=
  let ki := k.get (Fin.ofNat 40 i)
  let w := ki ||| 3
  let p := rotateLeft (fixes.get (Fin.ofNat 4 (ki &&& 3).toNat)) (k.get (Fin.ofNat 40 (i - 1)) &&& 0x1f)
  k.setIfInBounds i (w ^^^ (p &&& runMask w))

/-- `SetKeyInternal`. A key of more than 14 words does not fit into `t`. -/
def setKeyInternal (c : Mars) (key : List UInt8) : Option Mars :=
  let n := key.length / 4
  if key.length % 4 = 0 ∧ n < 15 then
    let t := (copyIn word32 .little 15 key).setIfInBounds n (UInt32.ofNat n)
    let k := ((List.range 4).foldl (expand s) (t, c.k)).2
    some ⟨(List.range 16).foldl (fun k i => fixKey k (5 + 2 * i)) k⟩
  else none

end Schedule

/-! ## Encryption -/

section Cipher

variable (s : Sbox)

/-- `e`: its outputs `l`, `m`, `r`. -/
def e (inp k1 k2 : UInt32) : UInt32 × UInt32 × UInt32 :=
  let m := inp + k1
  let r := rotateLeft (rotateLeft inp 13 * k2) 5
  let l := sbox9 s m
  let m := rotateLeft m (r &&& 0x1f)
  let l := l ^^^ r
  let r := rotateLeft r 5
  let l := l ^^^ r
  (rotateLeft l (r &&& 0x1f), m, r)

def forwardMixing (w : Words) : Words where
  a := rotateRight w.a 24
  b := (w.b ^^^ sbox0 s (getByte w.a 0)) + sbox1 s (getByte w.a 1)
  c := w.c + sbox0 s (getByte w.a 2)
  d := w.d ^^^ sbox1 s (getByte w.a 3)

def reverseMixing (w : Words) : Words where
  a := rotateLeft w.a 24
  b := w.b ^^^ sbox1 s (getByte w.a 0)
  c := w.c - sbox0 s (getByte w.a 3)
  d := (w.d - sbox1 s (getByte w.a 2)) ^^^ sbox0 s (getByte w.a 1)

def encryptCoreA (k1 k2 : UInt32) (w : Words) : Words :=
  let v := e s w.a k1 k2
  { a := rotateLeft w.a 13, b := w.b + v.1, c := w.c + v.2.1, d := w.d ^^^ v.2.2 }

def encryptCoreB (k1 k2 : UInt32) (w : Words) : Words :=
  let v := e s w.a k1 k2
  { a := rotateLeft w.a 13, b := w.b ^^^ v.2.2, c := w.c + v.2.1, d := w.d + v.1 }

/-- A function called with `b, c, d, a`, with `c, d, a, b` and with `d, a, b, c`. -/
def bcda (g : Words → Words) (w : Words) : Words :=
  let r := g ⟨w.b, w.c, w.d, w.a⟩
  ⟨r.d, r.a, r.b, r.c⟩

def cdab (g : Words → Words) (w : Words) : Words :=
  let r := g ⟨w.c, w.d, w.a, w.b⟩
  ⟨r.c, r.d, r.a, r.b⟩

def dabc (g : Words → Words) (w : Words) : Words :=
  let r := g ⟨w.d, w.a, w.b, w.c⟩
  ⟨r.b, r.c, r.d, r.a⟩

/-- The body of the first loop of `Encrypt`. -/
def forwardFour (w : Words) : Words :=
  let w := forwardMixing s w
  let w := { w with a := w.a + w.d }
  let w := bcda (forwardMixing s) w
  let w := { w with b := w.b + w.c }
  let w := cdab (forwardMixing s) w
  dabc (forwardMixing s) w

/-- The body of the last loop. -/
def reverseFour (w : Words) : Words :=
  let w := reverseMixing s w
  let w := bcda (reverseMixing s) w
  let w := { w with c := w.c - w.b }
  let w := cdab (reverseMixing s) w
  let w := { w with d := w.d - w.a }
  dabc (reverseMixing s) w

variable (c : Mars)

/-- `m_k[n]`. -/
def key (n : Nat) : UInt32 := c.k.get (Fin.ofNat 40 n)

/-- Four calls of a core function, with `k` before them. -/
def coreFour (core : UInt32 → UInt32 → Words → Words) (st : Words × Nat) : Words × Nat :=
  let k := st.2
  let w := core (c.key (k + 2)) (c.key (k + 3)) st.1
  let w := bcda (core (c.key (k + 4)) (c.key (k + 5))) w
  let w := cdab (core (c.key (k + 6)) (c.key (k + 7))) w
  let w := dabc (core (c.key (k + 8)) (c.key (k + 9))) w
  (w, k + 8)

def addKey (w : Words) (n : Nat) : Words :=
  ⟨w.a + c.key n, w.b + c.key (n + 1), w.c + c.key (n + 2), w.d + c.key (n + 3)⟩

def subKey (w : Words) (n : Nat) : Words :=
  ⟨w.a - c.key n, w.b - c.key (n + 1), w.c - c.key (n + 2), w.d - c.key (n + 3)⟩

/-- `Encrypt` of words. -/
def encryptWords (w : Words) : Words :=
  let w := forwardFour s (forwardFour s (c.addKey w 0))
  let st := coreFour c (encryptCoreA s) (coreFour c (encryptCoreA s) (w, 2))
  let st := coreFour c (encryptCoreB s) (coreFour c (encryptCoreB s) st)
  c.subKey (reverseFour s (reverseFour s st.1)) 36

/-! ## Decryption -/

/-- `t = d; d = c; c = b; b = a; a = t`. -/
def turn (w : Words) : Words := ⟨w.d, w.a, w.b, w.c⟩

/-- The body of the first loop of `Decrypt`. -/
def undoReverse (w : Words) (i : Nat) : Words :=
  let w := turn w
  let a := rotateRight w.a 24
  let d := (w.d ^^^ sbox0 s (getByte a 1)) + sbox1 s (getByte a 2)
  let c := w.c + sbox0 s (getByte a 3)
  let b := w.b ^^^ sbox1 s (getByte a 0)
  if i % 4 = 2 then ⟨a + d, b, c, d⟩ else if i % 4 = 3 then ⟨a + b, b, c, d⟩ else ⟨a, b, c, d⟩

/-- The body of the loop over the core rounds, with `k`. -/
def undoCore (st : Words × Nat) (i : Nat) : Words × Nat :=
  let w := turn st.1
  let a := rotateRight w.a 13
  let v := e s a (c.key st.2) (c.key (st.2 + 1))
  if i / 8 % 2 = 1 then (⟨a, w.b ^^^ v.2.2, w.c - v.2.1, w.d - v.1⟩, st.2 - 2)
  else (⟨a, w.b - v.1, w.c - v.2.1, w.d ^^^ v.2.2⟩, st.2 - 2)

/-- The body of the last loop. -/
def undoForward (w : Words) (i : Nat) : Words :=
  let w := turn w
  let a := if i % 4 = 0 then w.a - w.d else if i % 4 = 1 then w.a - w.b else w.a
  let a := rotateLeft a 24
  { a
    b := (w.b - sbox1 s (getByte a 1)) ^^^ sbox0 s (getByte a 0)
    c := w.c - sbox0 s (getByte a 2)
    d := w.d ^^^ sbox1 s (getByte a 3) }

/-- `Decrypt` of words. -/
def decryptWords (w : Words) : Words :=
  let w := (List.range 8).reverse.foldl (undoReverse s) (c.addKey w 36)
  let st := (List.range 16).reverse.foldl (undoCore s c) (w, 34)
  c.subKey ((List.range 8).reverse.foldl (undoForward s) st.1) 0

/-- A function of four words on a block. -/
def onBlock (g : Words → Words) (block : List UInt8) : List UInt8 :=
  onWords word32 .little (fun v : Vector UInt32 4 =>
    let w := g ⟨v.get 0, v.get 1, v.get 2, v.get 3⟩
    #v[w.a, w.b, w.c, w.d]) block

def encrypt (block : List UInt8) : List UInt8 := onBlock (c.encryptWords s) block

def decrypt (block : List UInt8) : List UInt8 := onBlock (c.decryptWords s) block

end Cipher

end Mars

end Drew

/-!
## Decryption with MARS

Each phase of `Encrypt` names the words of the state in turn, four calls at a time. Seen from the word
that a call starts from, a phase is one step repeated: the call, and a turn of the four words. The
loops of `Decrypt` undo these steps, last step first.
-/

namespace Drew.Mars

open Drew.Memory Drew.StreamCipher Drew.Block

variable (s : Sbox) (c : Mars)

/-! ## Steps -/

/-- The words as the next call names them. -/
def unturn (w : Words) : Words := ⟨w.b, w.c, w.d, w.a⟩

/-- A call of `ForwardMixing` with the addition after it. -/
def forwardStep (w : Words) (i : Nat) : Words :=
  let w := forwardMixing s w
  unturn (if i % 4 = 0 then { w with a := w.a + w.d } else if i % 4 = 1 then { w with a := w.a + w.b } else w)

/-- A call of `ReverseMixing` with the subtraction before it. -/
def reverseStep (w : Words) (i : Nat) : Words :=
  unturn (reverseMixing s
    (if i % 4 = 2 then { w with a := w.a - w.d } else if i % 4 = 3 then { w with a := w.a - w.b } else w))

/-- A call of a core function. -/
def coreStep (w : Words) (i : Nat) : Words :=
  unturn ((if i / 8 % 2 = 1 then encryptCoreB s else encryptCoreA s)
    (c.key (2 * i + 4)) (c.key (2 * i + 5)) w)

/-! ## What `Decrypt` does to a step -/

theorem word_add_sub (x y : UInt32) : x + y - y = x := by simp

theorem word_sub_add (x y : UInt32) : x - y + y = x := by simp

theorem undoForward_step (w : Words) (i : Nat) : undoForward s (forwardStep s w i) i = w := by
  have hrot : rotateLeft (rotateRight w.a 24) 24 = w.a :=
    rotateLeft_rotateRight w.a (by decide) (by decide)
  have hturn : ∀ v, turn (unturn v) = v := fun v => rfl
  unfold undoForward forwardStep
  rw [hturn]
  by_cases h0 : i % 4 = 0
  · simp only [h0, if_true, forwardMixing, word_add_sub, hrot, xor32_cancel_right]
  · by_cases h1 : i % 4 = 1
    · simp only [h1, if_true, forwardMixing, word_add_sub, hrot, xor32_cancel_right, one_ne_zero,
        if_false]
    · simp only [h0, h1, forwardMixing, word_add_sub, hrot, xor32_cancel_right, if_false]

theorem undoReverse_step (w : Words) (i : Nat) : undoReverse s (reverseStep s w i) i = w := by
  have hrot : ∀ x, rotateRight (rotateLeft x 24) 24 = x := fun x =>
    rotateRight_rotateLeft x (by decide) (by decide)
  have hturn : ∀ v, turn (unturn v) = v := fun v => rfl
  unfold undoReverse reverseStep
  rw [hturn]
  by_cases h2 : i % 4 = 2
  · simp only [h2, if_true, reverseMixing, hrot, word_sub_add, xor32_cancel_right]
  · by_cases h3 : i % 4 = 3
    · simp only [h3, if_true, reverseMixing, hrot, word_sub_add, xor32_cancel_right,
        show ¬(3 = 2) by decide, if_false]
    · simp only [h2, h3, reverseMixing, hrot, word_sub_add, xor32_cancel_right, if_false]

/-- A core round on the way back, with the keys of the round. -/
theorem undoCore_step (w : Words) (i : Nat) :
    undoCore s c (coreStep s c w i, 2 * i + 4) i = (w, 2 * i + 4 - 2) := by
  have hrot : ∀ x, rotateRight (rotateLeft x 13) 13 = x := fun x =>
    rotateRight_rotateLeft x (by decide) (by decide)
  have hturn : ∀ v, turn (unturn v) = v := fun v => rfl
  unfold undoCore coreStep
  rw [hturn]
  by_cases h : i / 8 % 2 = 1
  · simp only [h, if_true, encryptCoreB, hrot, word_add_sub, xor32_cancel_right]
  · simp only [h, if_false, encryptCoreA, hrot, word_add_sub, xor32_cancel_right]

/-! ## The loops -/

/-- The keys of the core rounds go down by two. -/
theorem foldl_undoCore (n : Nat) (w : Words) :
    (List.range n).reverse.foldl (undoCore s c) ((List.range n).foldl (coreStep s c) w, 2 * n + 2) =
      (w, 2) := by
  induction n with
  | zero => rfl
  | succ n ih =>
    rw [List.range_succ, List.reverse_append, List.foldl_append, List.foldl_append, List.reverse_singleton,
      List.foldl_cons, List.foldl_nil, List.foldl_cons, List.foldl_nil,
      show 2 * (n + 1) + 2 = 2 * n + 4 by omega, undoCore_step]
    exact ih

theorem forwardFour_eq (w : Words) : forwardFour s w = [0, 1, 2, 3].foldl (forwardStep s) w := rfl

theorem reverseFour_eq (w : Words) : reverseFour s w = [0, 1, 2, 3].foldl (reverseStep s) w := rfl

theorem forwardPhase_eq (w : Words) :
    forwardFour s (forwardFour s w) = (List.range 8).foldl (forwardStep s) w := by
  rw [forwardFour_eq, forwardFour_eq, ← List.foldl_append]
  rfl

theorem reversePhase_eq (w : Words) :
    reverseFour s (reverseFour s w) = (List.range 8).foldl (reverseStep s) w := by
  rw [reverseFour_eq, reverseFour_eq, ← List.foldl_append]
  rfl

/-- Four calls, as steps from round `i` on. -/
theorem coreFour_eq (core : UInt32 → UInt32 → Words → Words) (w : Words) (i : Nat) :
    coreFour c core (w, 2 * i + 2) =
      ([i, i + 1, i + 2, i + 3].foldl (fun w j =>
        unturn (core (c.key (2 * j + 4)) (c.key (2 * j + 5)) w)) w, 2 * (i + 4) + 2) := rfl

theorem coreFour_A (w : Words) {i : Nat} (h : i + 3 < 8) :
    coreFour c (encryptCoreA s) (w, 2 * i + 2) =
      ([i, i + 1, i + 2, i + 3].foldl (coreStep s c) w, 2 * (i + 4) + 2) := by
  have hstep : ∀ w, ∀ j < 8, unturn (encryptCoreA s (c.key (2 * j + 4)) (c.key (2 * j + 5)) w) =
      coreStep s c w j := by
    intro w j hj
    rw [coreStep, if_neg (by omega)]
  rw [coreFour_eq]
  simp only [List.foldl_cons, List.foldl_nil]
  rw [hstep w i (by omega), hstep _ (i + 1) (by omega), hstep _ (i + 2) (by omega),
    hstep _ (i + 3) (by omega)]

theorem coreFour_B (w : Words) {i : Nat} (h8 : 8 ≤ i) (h : i + 3 < 16) :
    coreFour c (encryptCoreB s) (w, 2 * i + 2) =
      ([i, i + 1, i + 2, i + 3].foldl (coreStep s c) w, 2 * (i + 4) + 2) := by
  have hstep : ∀ w j, 8 ≤ j → j < 16 →
      unturn (encryptCoreB s (c.key (2 * j + 4)) (c.key (2 * j + 5)) w) = coreStep s c w j := by
    intro w j hj hlt
    rw [coreStep, if_pos (by omega)]
  rw [coreFour_eq]
  simp only [List.foldl_cons, List.foldl_nil]
  rw [hstep w i (by omega) (by omega), hstep _ (i + 1) (by omega) (by omega),
    hstep _ (i + 2) (by omega) (by omega), hstep _ (i + 3) (by omega) (by omega)]

theorem corePhase_eq (w : Words) :
    coreFour c (encryptCoreB s) (coreFour c (encryptCoreB s)
      (coreFour c (encryptCoreA s) (coreFour c (encryptCoreA s) (w, 2)))) =
      ((List.range 16).foldl (coreStep s c) w, 34) := by
  have h0 := coreFour_A s c w (i := 0) (by decide)
  have h4 := coreFour_A s c ([0, 1, 2, 3].foldl (coreStep s c) w) (i := 4) (by decide)
  have h8 := coreFour_B s c ([4, 5, 6, 7].foldl (coreStep s c) ([0, 1, 2, 3].foldl (coreStep s c) w))
    (i := 8) (by decide) (by decide)
  have h12 := coreFour_B s c ([8, 9, 10, 11].foldl (coreStep s c)
    ([4, 5, 6, 7].foldl (coreStep s c) ([0, 1, 2, 3].foldl (coreStep s c) w)))
    (i := 12) (by decide) (by decide)
  rw [show (w, 2) = (w, 2 * 0 + 2) from rfl, h0, h4, h8, h12, ← List.foldl_append, ← List.foldl_append,
    ← List.foldl_append]
  rfl

theorem subKey_addKey (w : Words) (n : Nat) : c.subKey (c.addKey w n) n = w := by
  simp only [subKey, addKey, word_add_sub]

theorem addKey_subKey (w : Words) (n : Nat) : c.addKey (c.subKey w n) n = w := by
  simp only [subKey, addKey, word_sub_add]

theorem decryptWords_encryptWords (w : Words) : c.decryptWords s (c.encryptWords s w) = w := by
  have hreverse := foldl_reverse_undo (undoReverse_step s) (List.range 8)
  have hforward := foldl_reverse_undo (undoForward_step s) (List.range 8)
  unfold decryptWords encryptWords
  simp only [forwardPhase_eq, corePhase_eq, reversePhase_eq, addKey_subKey, hreverse]
  rw [foldl_undoCore s c 16, hforward, subKey_addKey]

instance : Finite Words :=
  Finite.of_injective (fun w : Words => (w.a, w.b, w.c, w.d)) fun v w h => by
    obtain ⟨ha, hb, hc, hd⟩ : v.a = w.a ∧ v.b = w.b ∧ v.c = w.c ∧ v.d = w.d := by simpa using h
    exact Words.ext ha hb hc hd

theorem encryptWords_decryptWords (w : Words) : c.encryptWords s (c.decryptWords s w) = w :=
  undo_both (decryptWords_encryptWords s c) w

/-! ## Blocks -/

theorem length_onBlock (g : Words → Words) (block : List UInt8) : (onBlock g block).length = 16 := by
  rw [onBlock, length_onWords]
  rfl

theorem onBlock_onBlock {g h : Words → Words} (hinv : ∀ w, h (g w) = w) {block : List UInt8}
    (hlen : block.length = 16) : onBlock h (onBlock g block) = block := by
  unfold onBlock
  apply onWords_onWords _ hlen
  intro v
  have hwords : h (g ⟨v.get 0, v.get 1, v.get 2, v.get 3⟩) = ⟨v.get 0, v.get 1, v.get 2, v.get 3⟩ :=
    hinv _
  apply Vector.ext
  intro i hi
  match i, hi with
  | 0, _ => exact congrArg Words.a hwords
  | 1, _ => exact congrArg Words.b hwords
  | 2, _ => exact congrArg Words.c hwords
  | 3, _ => exact congrArg Words.d hwords

/-- After a key, decryption inverts encryption and encryption inverts decryption. -/
theorem mars_inverts {key : List UInt8} (hdvd : 4 ∣ key.length)
    (hmax : key.length ≤ 56) :
    ∃ c', setKeyInternal s c key = some c' ∧
      ∀ b : List UInt8, b.length = 16 →
        (c'.encrypt s b).length = 16 ∧ (c'.decrypt s b).length = 16 ∧
        c'.decrypt s (c'.encrypt s b) = b ∧ c'.encrypt s (c'.decrypt s b) = b := by
  have hfits : key.length % 4 = 0 ∧ key.length / 4 < 15 := by omega
  refine ⟨_, by rw [setKeyInternal, if_pos hfits], ?_⟩
  intro b hb
  refine ⟨length_onBlock _ _, length_onBlock _ _, ?_, ?_⟩
  · exact onBlock_onBlock (decryptWords_encryptWords s _) hb
  · exact onBlock_onBlock (encryptWords_decryptWords s _) hb

theorem mars_inverts_zero :
    ∃ c', setKeyInternal (Vector.ofFn fun i => UInt32.ofNat i) ⟨.replicate 40 0⟩ (List.replicate 16 0) =
        some c' ∧
      ∀ b : List UInt8, b.length = 16 →
        (c'.encrypt (Vector.ofFn fun i => UInt32.ofNat i) b).length = 16 ∧
        (c'.decrypt (Vector.ofFn fun i => UInt32.ofNat i) b).length = 16 ∧
        c'.decrypt (Vector.ofFn fun i => UInt32.ofNat i)
          (c'.encrypt (Vector.ofFn fun i => UInt32.ofNat i) b) = b ∧
        c'.encrypt (Vector.ofFn fun i => UInt32.ofNat i)
          (c'.decrypt (Vector.ofFn fun i => UInt32.ofNat i) b) = b := by
  have hlen : (List.replicate 16 (0 : UInt8)).length = 16 := List.length_replicate
  exact mars_inverts _ _ (hlen ▸ by decide) (hlen ▸ by decide)

end Drew.Mars
