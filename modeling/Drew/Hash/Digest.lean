import Drew.Hash.Fast
import Drew.Hash.Length
import Drew.Memory.ByteOrder

/-!
# Digests

The model of `GetDigest` of the template, for classes with any padding. What a standard calls the hash of a
message is a fold over the blocks of the padded message (`chain`). However a message is given in calls of `Update`
and `UpdateFast`, the digest has the words of this fold (`Algorithm.digest_eq`).

The constants of the standards are digits of roots. They are given here by the numbers that they are the roots of.
-/

namespace Drew.Hash

open Drew.Memory Drew.Stream Drew.HashClass

/-! ## Roots -/

/-- The largest number of `len` bits whose `n`-th power is not above `a`. -/
def root (n a len : Nat) : Nat :=
  (List.range len).reverse.foldl (fun x i => if (x + 2 ^ i) ^ n ≤ a then x + 2 ^ i else x) 0

/-- The first `len` bits behind the point of the `n`-th root of a number. -/
def rootBits (n p len : Nat) : Nat := root n (p * 2 ^ (n * len)) (len + 8) % 2 ^ len

/-- The bits that were looked at. -/
theorem root_loop {n a : Nat} (j : Nat) {x : Nat} (hle : x ^ n ≤ a) (hlt : a < (x + 2 ^ j) ^ n) :
    let y := (List.range j).reverse.foldl (fun x i => if (x + 2 ^ i) ^ n ≤ a then x + 2 ^ i else x) x
    y ^ n ≤ a ∧ a < (y + 1) ^ n := by
  induction j generalizing x with
  | zero => exact ⟨hle, hlt⟩
  | succ j ih =>
    rw [List.range_succ, List.reverse_append, List.reverse_singleton, List.singleton_append, List.foldl_cons]
    split
    · rename_i hnext
      exact ih hnext (by rwa [Nat.add_assoc, ← Nat.two_mul, ← Nat.pow_succ'])
    · rename_i hnext
      exact ih hle (Nat.lt_of_not_le hnext)

theorem root_spec {n a len : Nat} (hn : 0 < n) (ha : a < (2 ^ len) ^ n) :
    root n a len ^ n ≤ a ∧ a < (root n a len + 1) ^ n := by
  have hzero : 0 ^ n ≤ a := by rw [Nat.zero_pow hn]; exact Nat.zero_le a
  exact root_loop len hzero (by rwa [Nat.zero_add])

/-! ## The hash of a message -/

section Chain

variable {P : Params} {σ τ : Type}

/-- The compression function is applied to the blocks of the padded message. -/
def chain (D : Padding P) (compress : σ → List UInt8 → σ) (iv : σ) (m : List UInt8) : σ :=
  (blocksOf P (D.padded m)).foldl compress iv

/-- Two compression functions that do the same with blocks. -/
theorem chain_map (D : Padding P) {f : σ → List UInt8 → σ} {g : τ → List UInt8 → τ} {p : σ → τ}
    (h : ∀ s b, b.length = P.blkSize → p (f s b) = g (p s) b) (iv : σ) (m : List UInt8) :
    p (chain D f iv m) = chain D g (p iv) m := by
  apply List.foldl_rel (r := fun s t => p s = t) rfl
  rintro b hb s _ rfl
  exact h s b (length_of_mem_chunks (Nat.div_mul_le_self _ _) hb)

variable {f : σ → List UInt8 → σ} {s : σ} {m : List UInt8} {h : Hash P σ}

/-- `Pad` leaves the hash of the message, as long as the length in the two words is that of the message. -/
theorem pad_chain {D : Padding P} (ha : After f s m h) (hcounter : h.counter = m.length % 2 ^ (2 * P.wordBits))
    (hfits : D.LengthFits m.length) : ∃ h', pad f D h = some h' ∧ h'.hash = chain D f s m := by
  obtain ⟨h', hpad, hhash⟩ := pad_spec D ha
  refine ⟨h', hpad, ?_⟩
  have hlength := (copyLength_eq_iff D m.length).mpr hfits
  rw [hhash, bitLength_spec D hcounter, chain, Padding.padded, Padding.paddedWith, Padding.paddedWith, hlength]

end Chain

/-! ## Calls -/

section Calls

variable {P : Params} {σ : Type} (f : σ → List UInt8 → σ) (digest : Hash P σ → Option (List UInt8)) (s : σ)

/-- The pieces of a message that is given in plain calls. -/
theorem foldlM_plain (calls : List Call) (h : Hash P σ) :
    (plain calls).foldlM (hashClass f digest s).step h = (calls.map Call.data).foldlM (update f) h := by
  induction calls generalizing h with
  | nil => rfl
  | cons c cs ih =>
    rw [List.map_cons, List.foldlM_cons, plain, List.map_cons, List.foldlM_cons]
    exact congrArg ((update f h c.data).bind ·) (funext ih)

/-- However a message is given, its digest is made of a state behind its blocks that has counted its bytes. No call has
more bytes than one word counts. -/
theorem digest_after {calls : List Call} (hcalls : Admissible P.blkSize 0 calls)
    (hshort : ∀ c ∈ calls, c.data.length < 2 ^ P.wordBits) :
    ∃ h, After f s (calls.flatMap Call.data) h ∧
      h.counter = (calls.flatMap Call.data).length % 2 ^ (2 * P.wordBits) ∧
      (hashClass f digest s).digest calls = digest h := by
  have hplain : (hashClass f digest s).digest calls = (hashClass f digest s).digest (plain calls) :=
    agrees f digest s hcalls
  obtain ⟨h, hrun, ha⟩ := run_spec (after_nil (P := P) f s) (calls.map Call.data)
  have hpieces : ∀ p ∈ calls.map Call.data, p.length % 2 ^ (2 * P.wordBits) < 2 ^ P.wordBits := by
    intro p hp
    obtain ⟨c, hc, rfl⟩ := List.mem_map.mp hp
    exact lt_of_le_of_lt (Nat.mod_le _ _) (hshort c hc)
  have hcounter := counter_run (after_nil (P := P) f s) (counter_init s) hpieces hrun
  rw [List.nil_append, ← List.flatMap_def] at ha hcounter
  have hrun' := (foldlM_plain f digest s calls (init s)).trans hrun
  refine ⟨h, ha, hcounter, ?_⟩
  rw [hplain]
  exact congrArg (fun r : Option (Hash P σ) => r.bind digest) hrun'

/-- An object is not too long for words of 64 bits. -/
theorem short_of_admissible {bs k : Nat} {calls : List Call} (hcalls : Admissible bs k calls) :
    ∀ c ∈ calls, c.data.length < 2 ^ 64 := by
  induction calls generalizing k with
  | nil => exact fun c hc => absurd hc List.not_mem_nil
  | cons c cs ih =>
    obtain ⟨hlt, -, hcs⟩ := hcalls
    intro d hd
    rcases List.mem_cons.mp hd with rfl | hd
    · omega
    · exact ih hcs d hd

end Calls

/-! ## The class -/

/-- What a class adds to the template: the words of its hash, and how they change. -/
structure Algorithm (P : Params) (W σ : Type) (n : Nat) where
  word : WordType W
  /-- The byte order `E`. -/
  endian : Endian
  transform : σ → List UInt8 → σ
  /-- The array `m_hash`. -/
  words : σ → Vector W n
  /-- What `Reset` puts into it. -/
  initial : σ
  /-- What `Pad` adds, with words that the length fits into. -/
  padding : Padding P
  size_pos : 0 < word.size
  lengthFits : ∀ len, padding.LengthFits len

namespace Algorithm

variable {P : Params} {W σ : Type} {n : Nat} (A : Algorithm P W σ n)

/-- `GetDigest`, where the native byte order is `N`. -/
def getDigest (N : Endian) {m : Nat} (h : Hash P σ) (digest : Buf UInt8 m) (len : Nat) (nopad : Bool) :
    Option (Buf UInt8 m) := do
  let h ← if nopad then some h else pad A.transform A.padding h
  copyCarefully N A.endian digest (memory A.word N (A.words h.hash)) len A.word.size

/-- The class, where the digest goes into a buffer of its size. -/
abbrev hashClass (N : Endian) {len : Nat} (digest : Buf UInt8 len) : HashClass :=
  Hash.hashClass A.transform (fun h => (A.getDigest N h digest len false).map Vector.toList) A.initial

/-- The words of the hash of a message. -/
def value (m : List UInt8) : Vector W n := A.words (chain A.padding A.transform A.initial m)

theorem getDigest_spec (N : Endian) {len : Nat} (digest : Buf UInt8 len) (hlen : len ≤ A.word.size * n)
    {m : List UInt8} {h : Hash P σ} (ha : After A.transform A.initial m h)
    (hcounter : h.counter = m.length % 2 ^ (2 * P.wordBits)) :
    (A.getDigest N h digest len false).map Vector.toList = some ((copyOut A.word A.endian (A.value m)).take len) := by
  obtain ⟨h', hpad, hhash⟩ := pad_chain ha hcounter (A.lengthFits m.length)
  have hvalue : A.words h'.hash = A.value m := congrArg A.words hhash
  have htake : ((copyOut A.word A.endian (A.value m)).take len).length = len := by
    rw [List.length_take, length_copyOut]
    exact Nat.min_eq_left hlen
  obtain ⟨w, hw⟩ := Buf.exists_write_at digest 0 ((copyOut A.word A.endian (A.value m)).take len) (by omega)
  have hcopy := copyCarefully_to (N := N) (E := A.endian) A.size_pos (A.value m) digest hlen
  rw [getDigest]
  simp only [Bool.false_eq_true, if_false, hpad, Option.bind_eq_bind, Option.bind_some, hvalue, hcopy, hw,
    Option.map_some]
  rw [(Buf.holds_write hw).toList htake]

/-- However a message is given, its digest has the words of its hash. No call has more bytes than one word counts. -/
theorem digest_eq (N : Endian) {len : Nat} (digest : Buf UInt8 len) (hlen : len ≤ A.word.size * n)
    {calls : List Call} (hcalls : Admissible P.blkSize 0 calls)
    (hshort : ∀ c ∈ calls, c.data.length < 2 ^ P.wordBits) :
    (A.hashClass N digest).digest calls =
      some ((copyOut A.word A.endian (A.value (calls.flatMap Call.data))).take len) := by
  obtain ⟨h, ha, hcounter, hdigest⟩ := digest_after A.transform
    (fun h => (A.getDigest N h digest len false).map Vector.toList) A.initial hcalls hshort
  rw [hdigest, A.getDigest_spec N digest hlen ha hcounter]

/-- The same for a class whose `Transform` is another compression function on another state. -/
theorem digest_map {τ : Type} (p : σ → τ) (g : τ → List UInt8 → τ) (bytes : τ → List UInt8)
    (hstep : ∀ s b, b.length = P.blkSize → p (A.transform s b) = g (p s) b)
    (hbytes : ∀ s, copyOut A.word A.endian (A.words s) = bytes (p s)) (N : Endian) {len : Nat} (digest : Buf UInt8 len)
    (hlen : len ≤ A.word.size * n) {calls : List Call} (hcalls : Admissible P.blkSize 0 calls)
    (hshort : ∀ c ∈ calls, c.data.length < 2 ^ P.wordBits) :
    (A.hashClass N digest).digest calls =
      some ((bytes (chain A.padding g (p A.initial) (calls.flatMap Call.data))).take len) := by
  rw [A.digest_eq N digest hlen hcalls hshort, value, hbytes, chain_map A.padding hstep]

end Algorithm

end Drew.Hash
