import Drew.StreamCipher.CopyAndXor
import Drew.Stream.Run

/-!
# Classes of stream ciphers

A class of the library is used through the functions that the plugin calls.
-/

namespace Drew.StreamCipher

open Drew.Memory Drew.Stream

/-- The functions of a class. Those that an object of the wrong size would make undefined are
options. -/
structure Cipher where
  /-- All members but `m_buf` and `m_nbytes`. -/
  M : Type
  /-- The size of `m_buf`. -/
  bufsz : Nat
  bufsz_pos : 0 < bufsz
  bufsz_lt : bufsz < 2 ^ 64
  fillBuffer : M → Buf UInt8 bufsz × M
  /-- `FillBufferAligned`, if the class has a fast function of its own. -/
  fast : Option (M → Buf UInt8 bufsz × M)
  /-- The sizes of keys that the class says it has. -/
  keySizes : List Nat
  /-- The sizes of nonces, if there are any. -/
  ivSizes : Option (List Nat)
  /-- The constructor. The memory of the context has any contents. -/
  init : Ctx M bufsz → Ctx M bufsz
  setKey : Ctx M bufsz → List UInt8 → Option (Ctx M bufsz)
  setNonce : Ctx M bufsz → List UInt8 → Option (Ctx M bufsz)
  reset : Ctx M bufsz → Option (Ctx M bufsz)

namespace Cipher

variable (C : Cipher)

/-- A context of the class. -/
abbrev Context : Type := Ctx C.M C.bufsz

/-- `Encrypt`, which decrypts as well. -/
def encrypt (c : C.Context) (data : List UInt8) : Option (C.Context × List UInt8) :=
  copyAndXor C.fillBuffer c data

/-- `EncryptFast`, or the function that the plugin has in its place. -/
def encryptfast (c : C.Context) (data : List UInt8) : Option (C.Context × List UInt8) :=
  match C.fast with
  | some fillBufferAligned => copyAndXorAligned fillBufferAligned c data
  | none => C.encrypt c data

end Cipher

end Drew.StreamCipher

/-!
## Contexts in use

A context is made in memory of any contents, gets a key, and a nonce if its class has nonces, and
then it encrypts. It may get another nonce or another key at any time, or be reset.

`StepOk` is what the buffering relies on. With it, any calls combine their texts with the keystream
of the context.
-/

namespace Drew.StreamCipher

open Drew.Memory Drew.Stream

/-- A text, and which of the two functions it is given to. -/
structure Call where
  fast : Bool
  text : List UInt8

/-- The texts of all calls. -/
def texts (calls : List Call) : List UInt8 := (calls.map Call.text).flatten

namespace Cipher

variable (C : Cipher)

/-! ## The states of a context -/

def call (c : C.Context) (a : Call) : Option (C.Context × List UInt8) :=
  if a.fast then C.encryptfast c a.text else C.encrypt c a.text

/-- The nonce has a size of the class; a class without nonces gets none. -/
def AcceptsIv : Option (List UInt8) → Prop
  | none => C.ivSizes = none
  | some iv => ∃ sizes, C.ivSizes = some sizes ∧ iv.length ∈ sizes

def Accepts (key : List UInt8) (iv : Option (List UInt8)) : Prop :=
  key.length ∈ C.keySizes ∧ C.AcceptsIv iv

def setIv (c : C.Context) : Option (List UInt8) → Option C.Context
  | none => some c
  | some iv => C.setNonce c iv

/-- A fresh context with a key and a nonce. -/
def start (mem : C.Context) (key : List UInt8) (iv : Option (List UInt8)) : Option C.Context := do
  let c ← C.setKey (C.init mem) key
  C.setIv c iv

/-- The contexts that some use leads to, with the key and the nonce that were last set. -/
inductive Reaches : Option (List UInt8) → Option (List UInt8) → C.Context → Prop
  | init (mem : C.Context) : Reaches none none (C.init mem)
  | setKey {k v c key c'} : Reaches k v c → key.length ∈ C.keySizes → C.setKey c key = some c' →
      Reaches (some key) none c'
  | setNonce {key v c iv c'} : Reaches (some key) v c → C.AcceptsIv (some iv) →
      C.setNonce c iv = some c' → Reaches (some key) (some iv) c'
  | reset {key v c c'} : Reaches (some key) v c → C.AcceptsIv v → C.reset c = some c' →
      Reaches (some key) v c'
  | call {key v c a c' out} : Reaches (some key) v c → C.AcceptsIv v →
      C.call c a = some (c', out) → Reaches (some key) v c'

/-! ## The condition of the buffering -/

/-- A fast function of the class itself has whole blocks, and no rest of an earlier block is in the
buffer. Any other call is not empty if the buffer is full. -/
def StepOk (c : C.Context) (a : Call) : Prop :=
  if a.fast = true ∧ C.fast.isSome = true then
    a.text = [] ∨ c.nbytes = 0 ∧ a.text.length % C.bufsz = 0
  else c.nbytes = C.bufsz → a.text ≠ []

/-- All the calls meet the condition, each in the context that it is made on. -/
def RunOk (c : C.Context) : List Call → Prop
  | [] => True
  | a :: calls => C.StepOk c a ∧ ∀ c' out, C.call c a = some (c', out) → RunOk c' calls

/-- What follows in the keystream. -/
def keystream (c : C.Context) : Nat → UInt8 := StreamCipher.keystream C.fillBuffer c

/-- The calls of any lengths are defined, and combine their texts with `k`. -/
def Masks (c : C.Context) (k : Nat → UInt8) : Prop :=
  ∀ calls, C.RunOk c calls → ∃ c' outs, run C.call c calls = some (c', outs) ∧
    outs.flatten = maskWith k (texts calls) ∧ C.keystream c' = advance k (texts calls).length

/-! ## What holds of a class -/

/-- The fast function makes the same blocks, the buffer never has more than a block, and the
keystream is that of the key and the nonce. -/
structure Sound : Prop where
  fast : ∀ g, C.fast = some g → g = C.fillBuffer
  setKey : ∀ {c key c'}, C.setKey c key = some c' → c'.nbytes ≤ C.bufsz
  setNonce : ∀ {c iv c'}, C.setNonce c iv = some c' → c'.nbytes = c.nbytes
  reset : ∀ {c c'}, C.reset c = some c' → c'.nbytes ≤ C.bufsz
  start : ∀ {key iv} mem, C.Accepts key iv → ∃ c, C.start mem key iv = some c ∧ c.nbytes ≤ C.bufsz
  keystream : ∀ {key iv mem mem' c c'}, C.Accepts key iv → C.start mem key iv = some c →
    C.start mem' key iv = some c' → C.keystream c = C.keystream c'

variable {C} {c c' : C.Context} {a : Call} {out : List UInt8}

/-- The keystream of a key and a nonce. -/
theorem Sound.exists_keystream (hC : C.Sound) {key : List UInt8} {iv : Option (List UInt8)}
    (h : C.Accepts key iv) : ∃ k, ∀ mem, ∃ c, C.start mem key iv = some c ∧ c.nbytes ≤ C.bufsz ∧
      C.keystream c = k := by
  by_cases hmem : Nonempty C.Context
  · obtain ⟨mem₀⟩ := hmem
    obtain ⟨d, hd, -⟩ := hC.start mem₀ h
    refine ⟨C.keystream d, fun mem => ?_⟩
    obtain ⟨c, hstart, hc⟩ := hC.start mem h
    exact ⟨c, hstart, hc, hC.keystream h hstart hd⟩
  · exact ⟨fun _ => 0, fun mem => absurd ⟨mem⟩ hmem⟩

theorem Sound.call_eq (hC : C.Sound) (c : C.Context) (a : Call) :
    C.call c a = if a.fast = true ∧ C.fast.isSome = true then copyAndXorAligned C.fillBuffer c a.text
      else copyAndXor C.fillBuffer c a.text := by
  rw [Cipher.call, encryptfast, encrypt]
  cases ha : a.fast with
  | false => rw [if_neg Bool.false_ne_true, if_neg fun h => Bool.false_ne_true h.1]
  | true =>
    rw [if_pos rfl]
    cases hg : C.fast with
    | none => rw [if_neg fun h => Bool.false_ne_true h.2]
    | some g => rw [if_pos ⟨rfl, rfl⟩, hC.fast g hg]

/-- A call leaves at most a block in the buffer. -/
theorem Sound.call_nbytes (hC : C.Sound) (hc : c.nbytes ≤ C.bufsz) (h : C.call c a = some (c', out)) :
    c'.nbytes ≤ C.bufsz := by
  rw [hC.call_eq] at h
  split at h
  · rw [(alignedBlocks_members h).2]
    exact hc
  · exact (copyAndXor_nbytes C.bufsz_pos h).le

theorem Sound.nbytes_le (hC : C.Sound) {key : List UInt8} {v : Option (List UInt8)}
    (h : C.Reaches (some key) v c) : c.nbytes ≤ C.bufsz := by
  generalize hk : some key = k at h
  induction h with
  | init => cases hk
  | setKey _ _ hset => exact hC.setKey hset
  | setNonce _ _ hset ih => exact (hC.setNonce hset).trans_le (ih hk)
  | reset _ _ hreset => exact hC.reset hreset
  | call _ _ hcall ih => exact hC.call_nbytes (ih hk) hcall

theorem reaches_start {mem : C.Context} {key : List UInt8} {iv : Option (List UInt8)}
    (h : C.Accepts key iv) (hstart : C.start mem key iv = some c) : C.Reaches (some key) iv c := by
  obtain ⟨c₁, hset, hiv⟩ := Option.bind_eq_some_iff.mp hstart
  have hkeyed : C.Reaches (some key) none c₁ := .setKey (.init mem) h.1 hset
  cases iv with
  | none =>
    obtain rfl := Option.some.inj hiv
    exact hkeyed
  | some iv => exact .setNonce hkeyed h.2 hiv

/-- One call. -/
theorem Sound.call_spec (hC : C.Sound) (hc : c.nbytes ≤ C.bufsz) (hok : C.StepOk c a) :
    ∃ c', C.call c a = some (c', maskWith (C.keystream c) a.text) ∧ c'.nbytes ≤ C.bufsz ∧
      C.keystream c' = advance (C.keystream c) a.text.length := by
  rw [hC.call_eq]
  unfold StepOk at hok
  split
  · rename_i hfast
    rw [if_pos hfast] at hok
    rcases hok with hnil | ⟨h0, hlen⟩
    · refine ⟨c, ?_, hc, ?_⟩
      · rw [hnil, copyAndXorAligned, List.length_nil, Nat.zero_add,
          Nat.div_eq_of_lt (Nat.sub_lt C.bufsz_pos Nat.one_pos)]
        rfl
      · rw [hnil, List.length_nil, advance_zero]
    · obtain ⟨c', hcall, hlt, hkey⟩ := copyAndXorAligned_spec (f := C.fillBuffer) C.bufsz_pos h0 hlen
      exact ⟨c', hcall, hlt.le, hkey⟩
  · rename_i hfast
    rw [if_neg hfast] at hok
    obtain ⟨c', hcall, hlt, hkey⟩ :=
      copyAndXor_spec (f := C.fillBuffer) C.bufsz_pos C.bufsz_lt hc hok
    exact ⟨c', hcall, hlt.le, hkey⟩

/-- Any number of calls. -/
theorem Sound.masks (hC : C.Sound) (hc : c.nbytes ≤ C.bufsz) : C.Masks c (C.keystream c) := by
  intro calls hok
  induction calls generalizing c with
  | nil => exact ⟨c, [], rfl, rfl, (advance_zero _).symm⟩
  | cons a calls ih =>
    obtain ⟨c₁, hcall, hc₁, hkey₁⟩ := hC.call_spec hc hok.1
    obtain ⟨c₂, outs, hrun, hout, hkey₂⟩ := ih hc₁ (hok.2 _ _ hcall)
    have htexts : texts (a :: calls) = a.text ++ texts calls := rfl
    refine ⟨c₂, maskWith (C.keystream c) a.text :: outs, ?_, ?_, ?_⟩
    · rw [run_cons_some _ hcall, hrun]
      rfl
    · rw [List.flatten_cons, hout, hkey₁, htexts, maskWith_append]
    · rw [hkey₂, hkey₁, advance_advance, htexts, List.length_append]

end Cipher

end Drew.StreamCipher
