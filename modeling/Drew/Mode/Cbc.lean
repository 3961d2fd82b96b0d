import Drew.Mode.Cfb.Model

/-!
# Cipher block chaining

The model of `cbc.c`. Input and output are pointers into one memory, so that they may also be the same; the
objects of a context are elsewhere. The chaining value is in `buf`, and decryption keeps its block of input in
`buf2`, since it may be overwritten.
-/

namespace Drew.Mode

open Drew.Memory Drew.Block

/-! ## The code -/

/-- The members `buf`, `buf2` and `iv` point to objects that are allocated for a cipher. -/
structure Cbc where
  functbl : Functbl
  algo : Option BlockCipher
  buf : Option (List UInt8)
  buf2 : Option (List UInt8)
  iv : Option (List UInt8)
  blksize : Nat

namespace Cbc

/-- Read the first `len` bytes of an object. -/
def readObject (obj : Option (List UInt8)) (len : Nat) : Option (List UInt8) := do
  let bytes ← obj
  if bytes.length < len then none else some (bytes.take len)

/-- Overwrite the first bytes of an object. -/
def writeObject (obj : Option (List UInt8)) (xs : List UInt8) : Option (Option (List UInt8)) := do
  let bytes ← obj
  if bytes.length < xs.length then none else some (some (xs ++ bytes.drop xs.length))

def init : Cbc where
  functbl := .plain
  algo := none
  buf := none
  buf2 := none
  iv := none
  blksize := 0

/-- The objects are what is allocated, and `none` where that fails. -/
def setblock (c : Cbc) (buf buf2 iv : Option (List UInt8)) : Option BlockCipher → Cbc × Int
  | none => (c, -drewErrInvalid)
  | some algo =>
      let c := { c with algo := some algo, blksize := algo.blksize, buf := buf }
      if buf.isNone then (c, -enomem) else
        let c := { c with buf2 := buf2 }
        if buf2.isNone then (c, -enomem) else
          let c := { c with iv := iv }
          if iv.isNone then (c, -enomem)
          else if algo.blksize = 16 then ({ c with functbl := .fast }, 0)
          else (c, 0)

/-- A context that is given its own `iv` does not copy it, and it would not change. -/
def setiv (c : Cbc) (iv : List UInt8) : Option (Cbc × Int) :=
  if c.blksize ≠ iv.length then some (c, -drewErrInvalid) else do
    let buf ← writeObject c.buf iv
    let iv ← writeObject c.iv iv
    return ({ c with buf := buf, iv := iv }, 0)

def reset (c : Cbc) : Option (Cbc × Int) := do
  let iv ← readObject c.iv c.blksize
  c.setiv iv

section Memory

variable {n : Nat}

/-- A round of encryption, where the first `len` bytes are combined. -/
def encryptBlock (len : Nat) (c : Cbc) (mem : Buf UInt8 n) (out inp : Nat) : Option (Cbc × Buf UInt8 n) := do
  let algo ← c.algo
  let old ← readObject c.buf len
  let xs ← mem.read inp len
  let buf ← writeObject c.buf (xorBytes old xs)
  let b ← readObject buf algo.blksize
  let buf ← writeObject buf (algo.encrypt b)
  let b ← readObject buf c.blksize
  let mem ← mem.write out b
  return ({ c with buf := buf }, mem)

/-- A round of decryption. -/
def decryptBlock (c : Cbc) (mem : Buf UInt8 n) (out inp : Nat) : Option (Cbc × Buf UInt8 n) := do
  let algo ← c.algo
  let xs ← mem.read inp c.blksize
  let buf2 ← writeObject c.buf2 xs
  let b ← mem.read inp algo.blksize
  let mem ← mem.write out (algo.decrypt b)
  let b ← mem.read out c.blksize
  let k ← readObject c.buf c.blksize
  let mem ← mem.write out (xorBytes b k)
  let saved ← readObject buf2 c.blksize
  let buf ← writeObject c.buf saved
  return ({ c with buf := buf, buf2 := buf2 }, mem)

/-- As many rounds as there are blocks. -/
def rounds (round : Cbc → Buf UInt8 n → Nat → Nat → Option (Cbc × Buf UInt8 n)) (bs : Nat) :
    Nat → Cbc → Buf UInt8 n → Nat → Nat → Option (Cbc × Buf UInt8 n)
  | 0, c, mem, _, _ => some (c, mem)
  | k + 1, c, mem, out, inp => do
      let (c, mem) ← round c mem out inp
      rounds round bs k c mem (out + bs) (inp + bs)

/-- The loop of the four functions. Without a cipher it does not end. -/
def blocksLoop (round : Cbc → Buf UInt8 n → Nat → Nat → Option (Cbc × Buf UInt8 n)) (c : Cbc)
    (mem : Buf UInt8 n) (out inp len : Nat) : Option (Cbc × Buf UInt8 n × Int) :=
  if c.blksize = 0 then none else do
    let (c, mem) ← rounds round c.blksize (len / c.blksize) c mem out inp
    return (c, mem, 0)

/-- The check of the plain functions. Without a cipher it divides by zero. -/
def wholeBlocks (round : Cbc → Buf UInt8 n → Nat → Nat → Option (Cbc × Buf UInt8 n)) (c : Cbc)
    (mem : Buf UInt8 n) (out inp len : Nat) : Option (Cbc × Buf UInt8 n × Int) :=
  if c.blksize = 0 then none
  else if len % c.blksize ≠ 0 then some (c, mem, -drewErrInvalid)
  else blocksLoop round c mem out inp len

/-- `cbc_encrypt`. -/
def encrypt (c : Cbc) : Buf UInt8 n → Nat → Nat → Nat → Option (Cbc × Buf UInt8 n × Int) :=
  wholeBlocks (encryptBlock c.blksize) c

/-- `cbc_decrypt`. -/
def decrypt (c : Cbc) : Buf UInt8 n → Nat → Nat → Nat → Option (Cbc × Buf UInt8 n × Int) :=
  wholeBlocks decryptBlock c

/-- `cbc_encryptfast`, which combines whole groups of 16 bytes. -/
def encryptfast (c : Cbc) : Buf UInt8 n → Nat → Nat → Nat → Option (Cbc × Buf UInt8 n × Int) :=
  blocksLoop (encryptBlock (c.blksize / 16 * 16)) c

/-- `cbc_decryptfast`. -/
def decryptfast (c : Cbc) : Buf UInt8 n → Nat → Nat → Nat → Option (Cbc × Buf UInt8 n × Int) :=
  blocksLoop decryptBlock c

end Memory

/-- A context as the library makes it: a new one, a cipher, an initialisation vector. The objects that are
allocated have some contents. -/
def fresh (buf buf2 ivMem : List UInt8) (algo : BlockCipher) (iv : List UInt8) : Option (Cbc × Int) :=
  (init.setblock (some buf) (some buf2) (some ivMem) (some algo)).1.setiv iv

/-! ## Chains of blocks -/

section Chains

variable {bs m : Nat} {f g : List UInt8 → List UInt8 → List UInt8 × List UInt8}

/-- Blocks one after the other, each with the value that the one before it left: the last value, and what
comes out. -/
def chained (bs : Nat) (f : List UInt8 → List UInt8 → List UInt8 × List UInt8) :
    Nat → List UInt8 → List UInt8 → List UInt8 × List UInt8
  | 0, k, _ => (k, [])
  | m + 1, k, xs =>
      let r := f k (xs.take bs)
      let s := chained bs f m r.1 (xs.drop bs)
      (s.1, r.2 ++ s.2)

theorem chained_cons {x : List UInt8} (hx : x.length = bs) (k xs : List UInt8) :
    chained bs f (m + 1) k (x ++ xs) =
      ((chained bs f m (f k x).1 xs).1, (f k x).2 ++ (chained bs f m (f k x).1 xs).2) := by
  rw [chained, List.take_left' hx, List.drop_left' hx]

theorem chained_append {xs : List UInt8} (hxs : xs.length = m * bs) (k : List UInt8) (j : Nat) (ys : List UInt8) :
    chained bs f (m + j) k (xs ++ ys) =
      ((chained bs f j (chained bs f m k xs).1 ys).1,
        (chained bs f m k xs).2 ++ (chained bs f j (chained bs f m k xs).1 ys).2) := by
  induction m generalizing k xs with
  | zero =>
    have hnil : xs = [] := List.eq_nil_of_length_eq_zero (by omega)
    simp [hnil, chained]
  | succ m ih =>
    rw [Nat.add_mul, Nat.one_mul] at hxs
    obtain ⟨x, zs, rfl, hx⟩ : ∃ x zs, xs = x ++ zs ∧ x.length = bs :=
      ⟨xs.take bs, xs.drop bs, (List.take_append_drop bs xs).symm, by simp; omega⟩
    rw [List.length_append, hx] at hxs
    rw [show m + 1 + j = (m + j) + 1 by omega, List.append_assoc, chained_cons hx, chained_cons hx,
      ih (by omega), List.append_assoc]

theorem length_chained (hf : ∀ k x, k.length = bs → x.length = bs → (f k x).1.length = bs ∧ (f k x).2.length = bs)
    {k xs : List UInt8} (hk : k.length = bs) (hxs : xs.length = m * bs) :
    (chained bs f m k xs).2.length = m * bs := by
  induction m generalizing k xs with
  | zero => simp [chained]
  | succ m ih =>
    rw [Nat.add_mul, Nat.one_mul] at hxs ⊢
    have htake : (xs.take bs).length = bs := by simp; omega
    obtain ⟨h₁, h₂⟩ := hf k (xs.take bs) hk htake
    rw [chained, List.length_append, h₂, ih h₁ (by simp; omega), Nat.add_comm]

/-- What one chain makes of its blocks, the other one undoes. -/
theorem chained_undo (hf : ∀ k x, k.length = bs → x.length = bs →
      (f k x).1.length = bs ∧ (f k x).2.length = bs ∧ g k (f k x).2 = ((f k x).1, x))
    {k xs : List UInt8} (hk : k.length = bs) (hxs : xs.length = m * bs) :
    (chained bs g m k (chained bs f m k xs).2).2 = xs := by
  induction m generalizing k xs with
  | zero =>
    have hnil : xs = [] := List.eq_nil_of_length_eq_zero (by omega)
    simp [hnil, chained]
  | succ m ih =>
    rw [Nat.add_mul, Nat.one_mul] at hxs
    obtain ⟨x, zs, rfl, hx⟩ : ∃ x zs, xs = x ++ zs ∧ x.length = bs :=
      ⟨xs.take bs, xs.drop bs, (List.take_append_drop bs xs).symm, by simp; omega⟩
    rw [List.length_append, hx] at hxs
    obtain ⟨h₁, h₂, hundo⟩ := hf k x hk hx
    rw [chained_cons hx, chained_cons h₂, hundo, ih h₁ (by omega)]

end Chains

/-- Encryption of a block after the chaining value `k`. -/
def sealBlock (E : BlockCipher) (k x : List UInt8) : List UInt8 × List UInt8 :=
  (E.encrypt (xorBytes k x), E.encrypt (xorBytes k x))

def openBlock (E : BlockCipher) (k y : List UInt8) : List UInt8 × List UInt8 :=
  (y, xorBytes (E.decrypt y) k)

section Blocks

variable {E : BlockCipher} {k x : List UInt8}

theorem length_sealBlock (hk : k.length = E.blksize) (hx : x.length = E.blksize) :
    (sealBlock E k x).1.length = E.blksize ∧ (sealBlock E k x).2.length = E.blksize := by
  have hlen : (E.encrypt (xorBytes k x)).length = E.blksize := E.length_encrypt _ (by simp [hk, hx])
  exact ⟨hlen, hlen⟩

theorem length_openBlock (hk : k.length = E.blksize) (hx : x.length = E.blksize) :
    (openBlock E k x).1.length = E.blksize ∧ (openBlock E k x).2.length = E.blksize :=
  ⟨hx, by simp [openBlock, E.length_decrypt x hx, hk]⟩

theorem openBlock_sealBlock (hE : E.Inverts) (hk : k.length = E.blksize) (hx : x.length = E.blksize) :
    openBlock E k (sealBlock E k x).2 = ((sealBlock E k x).1, x) := by
  have hcancel : xorBytes (xorBytes k x) k = x := by
    rw [xorBytes_comm, xorBytes_cancel (hk.trans hx.symm)]
  simp only [openBlock, sealBlock, hE (xorBytes k x) (by simp [hk, hx]), hcancel]

end Blocks

/-! ## Calls -/

section Calls

variable {E : BlockCipher} {c : Cbc} {n : Nat} {f : List UInt8 → List UInt8 → List UInt8 × List UInt8}
variable {round : Cbc → Buf UInt8 n → Nat → Nat → Option (Cbc × Buf UInt8 n)}

/-- The chaining value is `k`. -/
structure Ready (E : BlockCipher) (c : Cbc) (k : List UInt8) : Prop where
  algo : c.algo = some E
  blksize : c.blksize = E.blksize
  buf : c.buf = some k
  length : k.length = E.blksize
  buf2 : ∃ b, c.buf2 = some b ∧ b.length = E.blksize

/-- Output and input of `len` bytes are the same, or have nothing in common. -/
def Apart (out inp len : Nat) : Prop := out = inp ∨ out + len ≤ inp ∨ inp + len ≤ out

theorem readObject_all {b : List UInt8} {len : Nat} (h : b.length = len) :
    readObject (some b) len = some b := by
  rw [readObject, Option.bind_eq_bind, Option.bind_some, if_neg (by omega), List.take_of_length_le h.le]

theorem writeObject_all {b xs : List UInt8} (h : b.length = xs.length) :
    writeObject (some b) xs = some (some xs) := by
  rw [writeObject, Option.bind_eq_bind, Option.bind_some, if_neg (by omega),
    List.drop_eq_nil_of_le h.le, List.append_nil]

/-- A round does what `f` does to a block. -/
def Performs (E : BlockCipher) (f : List UInt8 → List UInt8 → List UInt8 × List UInt8)
    (round : Cbc → Buf UInt8 n → Nat → Nat → Option (Cbc × Buf UInt8 n)) : Prop :=
  ∀ (c : Cbc) (k x : List UInt8) (mem : Buf UInt8 n) (out inp : Nat), Ready E c k → mem.Holds inp x →
    x.length = E.blksize → out + E.blksize ≤ n →
    ∃ c' mem', round c mem out inp = some (c', mem') ∧ Ready E c' (f k x).1 ∧ c'.iv = c.iv ∧
      mem'.Holds out (f k x).2 ∧ mem.SameOutside mem' out E.blksize

theorem encryptBlock_performs {len : Nat} (hlen : len = E.blksize) :
    Performs (n := n) E (sealBlock E) (encryptBlock len) := by
  subst hlen
  intro c k x mem out inp hc hinp hx hout
  have hread := hinp.read
  rw [hx] at hread
  have hmix : (xorBytes k x).length = E.blksize := by simp [hc.length, hx]
  obtain ⟨hy, -⟩ := length_sealBlock hc.length hx
  obtain ⟨mem', hwrite⟩ := Buf.exists_write_at mem out (sealBlock E k x).2 (by rw [← hy] at hout; exact hout)
  refine ⟨{ c with buf := some (sealBlock E k x).1 }, mem', ?_, ⟨hc.algo, hc.blksize, rfl, hy, hc.buf2⟩, rfl,
    Buf.holds_write hwrite, ?_⟩
  · have hfirst : writeObject (some k) (xorBytes k x) = some (some (xorBytes k x)) :=
      writeObject_all (hc.length.trans hmix.symm)
    have hsecond : writeObject (some (xorBytes k x)) (E.encrypt (xorBytes k x)) =
        some (some (sealBlock E k x).1) := writeObject_all (hmix.trans hy.symm)
    simp only [encryptBlock, hc.algo, hc.buf, hread, readObject_all hc.length, hfirst, readObject_all hmix,
      hsecond, hc.blksize, readObject_all hy, Option.bind_eq_bind, Option.bind_some, pure]
    rw [show mem.write out (sealBlock E k x).1 = some mem' from hwrite]
    rfl
  · have hsame := Buf.sameOutside_write hwrite
    rwa [show (sealBlock E k x).2.length = E.blksize from hy] at hsame

theorem decryptBlock_performs : Performs (n := n) E (openBlock E) decryptBlock := by
  intro c k x mem out inp hc hinp hx hout
  have hread := hinp.read
  rw [hx] at hread
  obtain ⟨b₂, hbuf2, hb₂⟩ := hc.buf2
  have hplain : (E.decrypt x).length = E.blksize := E.length_decrypt x hx
  obtain ⟨mem₁, hwrite₁⟩ := Buf.exists_write_at mem out (E.decrypt x) (by rw [hplain]; exact hout)
  have hread₁ := (Buf.holds_write hwrite₁).read
  rw [hplain] at hread₁
  obtain ⟨-, hy⟩ := length_openBlock hc.length hx
  obtain ⟨mem₂, hwrite₂⟩ := Buf.exists_write_at mem₁ out (openBlock E k x).2 (by rw [hy]; exact hout)
  refine ⟨{ c with buf := some x, buf2 := some x }, mem₂, ?_, ⟨hc.algo, hc.blksize, rfl, hx, x, rfl, hx⟩, rfl,
    Buf.holds_write hwrite₂, ?_⟩
  · have hsave : writeObject (some b₂) x = some (some x) := writeObject_all (hb₂.trans hx.symm)
    have hback : writeObject (some k) x = some (some x) := writeObject_all (hc.length.trans hx.symm)
    simp only [decryptBlock, hc.algo, hc.buf, hbuf2, hc.blksize, hread, hsave, hwrite₁, hread₁,
      readObject_all hc.length, readObject_all hx, hback, Option.bind_eq_bind, Option.bind_some, pure]
    rw [show mem₁.write out (xorBytes (E.decrypt x) k) = some mem₂ from hwrite₂]
    rfl
  · have hsame₁ := Buf.sameOutside_write hwrite₁
    have hsame₂ := Buf.sameOutside_write hwrite₂
    rw [hplain] at hsame₁
    rw [hy] at hsame₂
    exact hsame₁.trans hsame₂

theorem rounds_spec (hround : Performs E f round)
    (hf : ∀ k x, k.length = E.blksize → x.length = E.blksize →
      (f k x).1.length = E.blksize ∧ (f k x).2.length = E.blksize)
    (m : Nat) {k xs : List UInt8} {mem : Buf UInt8 n} {out inp : Nat} (hc : Ready E c k)
    (hinp : mem.Holds inp xs) (hxs : xs.length = m * E.blksize) (hout : out + m * E.blksize ≤ n)
    (hapart : Apart out inp (m * E.blksize)) :
    ∃ c' mem', rounds round E.blksize m c mem out inp = some (c', mem') ∧
      Ready E c' (chained E.blksize f m k xs).1 ∧ c'.iv = c.iv ∧
      mem'.Holds out (chained E.blksize f m k xs).2 ∧ mem.SameOutside mem' out (m * E.blksize) := by
  induction m generalizing c k xs mem out inp with
  | zero => exact ⟨c, mem, rfl, hc, rfl, Buf.holds_nil (by omega), Buf.SameOutside.refl _ _ _⟩
  | succ m ih =>
    rw [Nat.add_mul, Nat.one_mul] at hxs hout hapart ⊢
    obtain ⟨x, zs, rfl, hx⟩ : ∃ x zs, xs = x ++ zs ∧ x.length = E.blksize :=
      ⟨xs.take E.blksize, xs.drop E.blksize, (List.take_append_drop _ xs).symm, by simp; omega⟩
    rw [List.length_append, hx] at hxs
    obtain ⟨c₁, mem₁, hrun₁, hc₁, hiv₁, hout₁, hsame₁⟩ := hround c k x mem out inp hc hinp.left hx (by omega)
    obtain ⟨-, hy⟩ := hf k x hc.length hx
    have hright := hinp.right
    rw [hx] at hright
    have hapart' : Apart (out + E.blksize) (inp + E.blksize) (m * E.blksize) := by
      unfold Apart at hapart ⊢
      omega
    have hinp₁ : mem₁.Holds (inp + E.blksize) zs := by
      apply hright.of_sameOutside hsame₁
      unfold Apart at hapart
      omega
    obtain ⟨c₂, mem₂, hrun₂, hc₂, hiv₂, hout₂, hsame₂⟩ :=
      ih hc₁ hinp₁ (by omega) (by omega) hapart'
    rw [chained_cons hx]
    refine ⟨c₂, mem₂, ?_, hc₂, hiv₂.trans hiv₁, ?_, ?_⟩
    · rw [rounds, hrun₁]
      exact hrun₂
    · refine (hout₁.of_sameOutside hsame₂ (Or.inr (by omega))).append ?_
      rwa [hy]
    · exact (hsame₁.mono (le_refl _) (by omega)).trans (hsame₂.mono (by omega) (by omega))

/-- A plain function on whole blocks. -/
theorem wholeBlocks_spec (hround : Performs E f round)
    (hf : ∀ k x, k.length = E.blksize → x.length = E.blksize →
      (f k x).1.length = E.blksize ∧ (f k x).2.length = E.blksize)
    (m : Nat) {k xs : List UInt8} {mem : Buf UInt8 n} {out inp : Nat} (hc : Ready E c k)
    (hinp : mem.Holds inp xs) (hxs : xs.length = m * E.blksize) (hout : out + m * E.blksize ≤ n)
    (hapart : Apart out inp (m * E.blksize)) :
    ∃ c' mem', wholeBlocks round c mem out inp (m * E.blksize) = some (c', mem', 0) ∧
      Ready E c' (chained E.blksize f m k xs).1 ∧ c'.iv = c.iv ∧
      mem'.Holds out (chained E.blksize f m k xs).2 ∧ mem.SameOutside mem' out (m * E.blksize) := by
  obtain ⟨c', mem', hrun, hspec⟩ := rounds_spec hround hf m hc hinp hxs hout hapart
  have hpos := E.blksize_pos
  refine ⟨c', mem', ?_, hspec⟩
  rw [wholeBlocks, blocksLoop, hc.blksize, if_neg (by omega), if_neg (by simp), if_neg (by omega),
    Nat.mul_div_cancel _ hpos, hrun]
  rfl

/-- Calls on successive pieces of a text, all of which succeed. -/
def runCalls (call : Cbc → Buf UInt8 n → Nat → Nat → Nat → Option (Cbc × Buf UInt8 n × Int)) :
    List Nat → Cbc → Buf UInt8 n → Nat → Nat → Option (Cbc × Buf UInt8 n)
  | [], c, mem, _, _ => some (c, mem)
  | len :: lens, c, mem, out, inp => do
      let (c, mem, res) ← call c mem out inp len
      if res ≠ 0 then none else runCalls call lens c mem (out + len) (inp + len)

/-- The pieces are chained as if they were one. -/
theorem runCalls_spec (hround : Performs E f round)
    (hf : ∀ k x, k.length = E.blksize → x.length = E.blksize →
      (f k x).1.length = E.blksize ∧ (f k x).2.length = E.blksize)
    {call : Cbc → Buf UInt8 n → Nat → Nat → Nat → Option (Cbc × Buf UInt8 n × Int)}
    (hcall : ∀ c, c.blksize = E.blksize → call c = wholeBlocks round c)
    {lens : List Nat} (hlens : ∀ len ∈ lens, E.blksize ∣ len) {k xs : List UInt8} {mem : Buf UInt8 n}
    {out inp : Nat} (hc : Ready E c k) (hinp : mem.Holds inp xs) (hxs : xs.length = lens.sum)
    (hout : out + lens.sum ≤ n) (hapart : Apart out inp lens.sum) :
    ∃ c' mem', runCalls call lens c mem out inp = some (c', mem') ∧
      mem'.Holds out (chained E.blksize f (xs.length / E.blksize) k xs).2 ∧
      mem.SameOutside mem' out lens.sum := by
  have hpos := E.blksize_pos
  induction lens generalizing c k xs mem out inp with
  | nil =>
    have hnil : xs = [] := List.eq_nil_of_length_eq_zero hxs
    subst hnil
    refine ⟨c, mem, rfl, ?_, Buf.SameOutside.refl _ _ _⟩
    rw [List.length_nil, Nat.zero_div]
    exact Buf.holds_nil hout
  | cons len lens ih =>
    obtain ⟨m, hm⟩ := hlens len List.mem_cons_self
    rw [Nat.mul_comm] at hm
    rw [List.sum_cons] at hxs hout hapart ⊢
    obtain ⟨x, zs, rfl, hx⟩ : ∃ x zs, xs = x ++ zs ∧ x.length = len :=
      ⟨xs.take len, xs.drop len, (List.take_append_drop _ xs).symm, by simp; omega⟩
    rw [List.length_append, hx] at hxs
    have hfirst : Apart out inp (m * E.blksize) := by
      unfold Apart at hapart ⊢
      omega
    obtain ⟨c₁, mem₁, hrun₁, hc₁, -, hout₁, hsame₁⟩ := wholeBlocks_spec hround hf m hc hinp.left
      (hx.trans hm) (by omega) hfirst
    have hright := hinp.right
    rw [hx] at hright
    have hinp₁ : mem₁.Holds (inp + len) zs := by
      apply hright.of_sameOutside hsame₁
      unfold Apart at hapart
      omega
    have hrest : Apart (out + len) (inp + len) lens.sum := by
      unfold Apart at hapart ⊢
      omega
    obtain ⟨c₂, mem₂, hrun₂, hout₂, hsame₂⟩ := ih (fun l hl => hlens l (List.mem_cons_of_mem _ hl)) hc₁ hinp₁
      (by omega) (by omega) hrest
    have hdiv : (x ++ zs).length / E.blksize = m + zs.length / E.blksize := by
      rw [List.length_append, hx, hm, Nat.mul_comm, Nat.mul_add_div hpos]
    have hlen := length_chained hf hc.length (hx.trans hm)
    rw [hdiv, chained_append (hx.trans hm)]
    refine ⟨c₂, mem₂, ?_, ?_, ?_⟩
    · rw [runCalls, hcall c hc.blksize, hm, hrun₁]
      rw [hm] at hrun₂
      exact hrun₂
    · refine (hout₁.of_sameOutside hsame₂ (Or.inr (by omega))).append ?_
      rwa [hlen, ← hm]
    · exact (hsame₁.mono (le_refl _) (by omega)).trans (hsame₂.mono (by omega) (by omega))

end Calls

/-! ## What the mode does -/

section Laws

/-- However the message is cut on both sides, the decryption of its encryption is the message, also where
output and input are the same. The contexts are new ones, and their objects have the size of a block. -/
def RoundTrips (E : BlockCipher) : Prop :=
  ∀ iv : List UInt8, iv.length = E.blksize →
  ∀ objects objects' : Fin 3 → List UInt8,
    (∀ i, (objects i).length = E.blksize) → (∀ i, (objects' i).length = E.blksize) →
  ∀ (message : List UInt8) (lens lens' : List Nat),
    (∀ len ∈ lens, E.blksize ∣ len) → (∀ len ∈ lens', E.blksize ∣ len) →
    message.length = lens.sum → message.length = lens'.sum →
  ∀ (n : Nat) (mem : Buf UInt8 n) (out inp : Nat), mem.Holds inp message → out + message.length ≤ n →
    Apart out inp message.length →
  ∃ c c' mem₁ cipher, fresh (objects 0) (objects 1) (objects 2) E iv = some (c, 0) ∧
    runCalls encrypt lens c mem out inp = some (c', mem₁) ∧ mem₁.read out message.length = some cipher ∧
  ∀ (n' : Nat) (mem' : Buf UInt8 n') (out' inp' : Nat), mem'.Holds inp' cipher →
    out' + message.length ≤ n' → Apart out' inp' message.length →
  ∃ d d' mem₂, fresh (objects' 0) (objects' 1) (objects' 2) E iv = some (d, 0) ∧
    runCalls decrypt lens' d mem' out' inp' = some (d', mem₂) ∧
    mem₂.read out' message.length = some message

/-- With blocks of 16 bytes, the fast functions give the same bytes and leave the same state. -/
def FastAgrees (E : BlockCipher) : Prop :=
  E.blksize = 16 → ∀ (c : Cbc) (k : List UInt8), Ready E c k →
  ∀ (n : Nat) (mem : Buf UInt8 n) (out inp len : Nat), 16 ∣ len →
    c.encryptfast mem out inp len = c.encrypt mem out inp len ∧
    c.decryptfast mem out inp len = c.decrypt mem out inp len

/-- A call on a length that is no multiple of the size of a block gives an error and changes nothing. -/
def Refuses (E : BlockCipher)
    (call : ∀ {n : Nat}, Cbc → Buf UInt8 n → Nat → Nat → Nat → Option (Cbc × Buf UInt8 n × Int)) : Prop :=
  ∀ (c : Cbc) (k : List UInt8), Ready E c k →
  ∀ (n : Nat) (mem : Buf UInt8 n) (out inp len : Nat), ¬E.blksize ∣ len →
    call c mem out inp len = some (c, mem, -drewErrInvalid)

/-- The fast functions do not look at the length: they handle the whole blocks. -/
def FastFloors (E : BlockCipher) : Prop :=
  E.blksize = 16 → ∀ (c : Cbc) (k : List UInt8), Ready E c k →
  ∀ (n : Nat) (mem : Buf UInt8 n) (out inp len : Nat),
    c.encryptfast mem out inp len = c.encryptfast mem out inp (len / 16 * 16) ∧
    c.decryptfast mem out inp len = c.decryptfast mem out inp (len / 16 * 16)

variable {E : BlockCipher} {c : Cbc} {k : List UInt8}

theorem fresh_ready {iv : List UInt8} (hiv : iv.length = E.blksize) (objects : Fin 3 → List UInt8)
    (hobjects : ∀ i, (objects i).length = E.blksize) :
    ∃ c, fresh (objects 0) (objects 1) (objects 2) E iv = some (c, 0) ∧ Ready E c iv := by
  let c₀ : Cbc := (init.setblock (some (objects 0)) (some (objects 1)) (some (objects 2)) (some E)).1
  have hset : c₀.algo = some E ∧ c₀.blksize = E.blksize ∧ c₀.buf = some (objects 0) ∧
      c₀.buf2 = some (objects 1) ∧ c₀.iv = some (objects 2) := by
    simp only [c₀, setblock, Option.isNone_some, Bool.false_eq_true, if_false]
    split <;> exact ⟨rfl, rfl, rfl, rfl, rfl⟩
  rcases hset with ⟨halgo, hblk, hbuf, hbuf2, hivMem⟩
  have hwrite : ∀ i, writeObject (some (objects i)) iv = some (some iv) := fun i =>
    writeObject_all ((hobjects i).trans hiv.symm)
  refine ⟨{ c₀ with buf := some iv, iv := some iv }, ?_, halgo, hblk, rfl, hiv, objects 1, hbuf2, hobjects 1⟩
  show c₀.setiv iv = _
  rw [setiv, if_neg (by rw [hblk, hiv]; exact fun h => h rfl), hbuf, hivMem, hwrite, hwrite]
  rfl

theorem roundTrips (hE : E.Inverts) : RoundTrips E := by
  intro iv hiv objects objects' hobjects hobjects' message lens lens' hlens hlens' hsum hsum' n mem out inp
    hinp hout hapart
  have hpos := E.blksize_pos
  have hdvd : E.blksize ∣ message.length := by
    rw [hsum]
    exact List.dvd_sum hlens
  have hcount : message.length = message.length / E.blksize * E.blksize := (Nat.div_mul_cancel hdvd).symm
  obtain ⟨c, hfresh, hc⟩ := fresh_ready hiv objects hobjects
  obtain ⟨d, hfresh', hd⟩ := fresh_ready hiv objects' hobjects'
  obtain ⟨c', mem₁, hrun, hcipher, -⟩ := runCalls_spec (encryptBlock_performs rfl)
    (fun k x hk hx => length_sealBlock hk hx) (fun c hc => by rw [← hc]) hlens hc hinp hsum
    (by omega) (hsum ▸ hapart)
  have hlen := length_chained (fun k x hk hx => length_sealBlock hk hx) hiv hcount
  have hread := hcipher.read
  rw [hlen, ← hcount] at hread
  refine ⟨c, c', mem₁, _, hfresh, hrun, hread, ?_⟩
  intro n' mem' out' inp' hinp' hout' hapart'
  rw [← hcount] at hlen
  obtain ⟨d', mem₂, hrun', hplain, -⟩ := runCalls_spec decryptBlock_performs
    (fun k x hk hx => length_openBlock hk hx) (fun c _ => rfl) hlens' hd hinp' (hlen.trans hsum')
    (by omega) (hsum' ▸ hapart')
  have hundo := chained_undo (g := openBlock E) (fun k x hk hx =>
    ⟨(length_sealBlock hk hx).1, (length_sealBlock hk hx).2, openBlock_sealBlock hE hk hx⟩) hiv hcount
  rw [hlen, hundo] at hplain
  exact ⟨d, d', mem₂, hfresh', hrun', hplain.read⟩

theorem refuses (round : ∀ {n : Nat}, Cbc → Cbc → Buf UInt8 n → Nat → Nat → Option (Cbc × Buf UInt8 n)) :
    Refuses E fun c => wholeBlocks (round c) c := by
  intro c k hc n mem out inp len hlen
  have hpos := E.blksize_pos
  have hmod : len % E.blksize ≠ 0 := fun h => hlen (Nat.dvd_of_mod_eq_zero h)
  show wholeBlocks (round c) c mem out inp len = _
  rw [wholeBlocks, hc.blksize, if_neg (by omega), if_pos hmod]

theorem wholeBlocks_eq {n : Nat} {round : Cbc → Buf UInt8 n → Nat → Nat → Option (Cbc × Buf UInt8 n)}
    (mem : Buf UInt8 n) (out inp : Nat) {len : Nat} (h : c.blksize ∣ len) :
    wholeBlocks round c mem out inp len = blocksLoop round c mem out inp len := by
  by_cases h0 : c.blksize = 0
  · rw [wholeBlocks, blocksLoop, if_pos h0, if_pos h0]
  · rw [wholeBlocks, if_neg h0, if_neg fun h' => h' (Nat.mod_eq_zero_of_dvd h)]

theorem fastAgrees : FastAgrees E := by
  intro hE c k hc n mem out inp len hlen
  have hblk : c.blksize = 16 := hc.blksize.trans hE
  have hdvd : c.blksize ∣ len := by rwa [hblk]
  refine ⟨?_, ?_⟩
  · rw [encryptfast, encrypt, wholeBlocks_eq mem out inp hdvd, hblk]
  · rw [decryptfast, decrypt, wholeBlocks_eq mem out inp hdvd]

theorem fastFloors : FastFloors E := by
  intro hE c k hc n mem out inp len
  have hblk : c.blksize = 16 := hc.blksize.trans hE
  have hdiv : len / 16 * 16 / 16 = len / 16 := Nat.mul_div_cancel _ (by decide)
  refine ⟨?_, ?_⟩
  · rw [encryptfast, blocksLoop, blocksLoop, hblk, hdiv]
  · rw [decryptfast, blocksLoop, blocksLoop, hblk, hdiv]

end Laws

/-- The decryption of an encryption is the message; the fast functions agree with the plain ones on whole
blocks and handle only these; and the plain functions refuse all other lengths. -/
theorem cbc_laws (E : BlockCipher) (hE : E.Inverts) :
    RoundTrips E ∧ FastAgrees E ∧ Refuses E encrypt ∧ Refuses E decrypt ∧ FastFloors E :=
  ⟨roundTrips hE, fastAgrees, refuses fun c => encryptBlock c.blksize, refuses fun _ => decryptBlock, fastFloors⟩

theorem cbc_laws_identity :
    RoundTrips (BlockCipher.identity 15) ∧ FastAgrees (BlockCipher.identity 15) ∧
      Refuses (BlockCipher.identity 15) encrypt ∧ Refuses (BlockCipher.identity 15) decrypt ∧
      FastFloors (BlockCipher.identity 15) :=
  cbc_laws (BlockCipher.identity 15) (BlockCipher.identity_inverts 15)

/-- A fast function on a single byte succeeds. -/
theorem cbc_fast_accepts : ¬ ∀ E : BlockCipher, E.Inverts → E.blksize = 16 → Refuses E encryptfast := by
  intro h
  have hiv : (List.replicate 16 (0 : UInt8)).length = (BlockCipher.identity 15).blksize := rfl
  obtain ⟨c, -, hc⟩ := fresh_ready hiv (fun _ => List.replicate 16 0) fun _ => rfl
  have hrefuse := h (BlockCipher.identity 15) (BlockCipher.identity_inverts 15) rfl c _ hc 1
    (Vector.replicate 1 0) 0 0 1 (by decide)
  have hblk : c.blksize = 16 := hc.blksize
  have haccept : c.encryptfast (Vector.replicate 1 0) 0 0 1 = some (c, Vector.replicate 1 0, 0) := by
    rw [encryptfast, blocksLoop, hblk]
    rfl
  cases haccept.symm.trans hrefuse

end Cbc

end Drew.Mode
