import Drew.Mac.Hmac.Rfc2104

/-!
# Digests of files

The functions of `libmd` that give a digest as a string. `FileChunk` reads a part of a file in pieces, whose
lengths are up to the system.
-/

namespace Drew.Libmd

open Drew.Memory Drew.Mac

/-! ## Data -/

/-- A hash with its `Init`. -/
structure Algorithm extends HashAlgorithm where
  init : Ctx
  absorbed_init : Absorbed init []

/-- What the system does: whether the file can be opened, and what it has; `lseek` where `whence` is not one of
the three values; how many bytes besides the first a `read` gives at most, if it does not fail; and whether there
is memory of a size. -/
structure System where
  content : Option (List UInt8)
  lseekOther : Int → Int → Option Nat
  read : Nat → Option Nat
  malloc : Nat → Bool

def seekSet : Int := 0

def seekCur : Int := 1

def seekEnd : Int := 2

/-- `lseek` of a file that was just opened: the new position. -/
def lseek (other : Int → Int → Option Nat) (content : List UInt8) (offset whence : Int) : Option Nat :=
  if whence = seekSet ∨ whence = seekCur then
    if offset < 0 then none else some offset.toNat
  else if whence = seekEnd then
    if content.length + offset < 0 then none else some (content.length + offset).toNat
  else other offset whence

/-- The `k`-th `read` of `nbytes` bytes, at a position. -/
def System.readAt (sys : System) (content : List UInt8) (k pos nbytes : Nat) : Option (List UInt8) :=
  (sys.read k).map fun n => (content.drop pos).take (min (n + 1) nbytes)

/-! ## Functions -/

/-- `hex`. -/
def hexDigits : List Char := "0123456789abcdef".toList

def hexPair (b : UInt8) : Option (List Char) := do
  let hi ← hexDigits[(b >>> 4).toNat]?
  let lo ← hexDigits[(b &&& 0xf).toNat]?
  return [hi, lo]

/-- `End`. The result is `NULL`, or the string in the buffer, which the caller may have given. -/
def mdEnd (A : Algorithm) (sys : System) (given : Bool) (ctx : A.Ctx) : Option (Option (List Char)) :=
  if sys.malloc A.size = false then some none else
    let data := (A.final ctx A.size).2
    if given = false ∧ sys.malloc (A.size * 2 + 1) = false then some none else do
      let buf ← (List.range A.size).foldlM
        (fun buf i => do
          let b ← data[i]?
          let pair ← hexPair b
          return buf ++ pair) []
      return some buf

/-- The loop of `FileChunk`, which does not end if it takes more rounds than there are, and which fails if a
`read` does. -/
def readLoop (A : Algorithm) (sys : System) (content : List UInt8) :
    Nat → Nat → Nat → Int → A.Ctx → Option (Option A.Ctx)
  | rounds, k, pos, length, ctx =>
      if length = 0 then some (some ctx) else
        match rounds with
        | 0 => none
        | rounds + 1 =>
            let nbytes := if length < 0 then 512 else (min length 512).toNat
            match sys.readAt content k pos nbytes with
            | none => some none
            | some data =>
                if data.length = 0 then some (some ctx)
                else
                  readLoop A sys content rounds (k + 1) (pos + data.length) (length - data.length)
                    (A.update ctx data)

/-- An offset where `lseek` has an `int`. -/
def toInt (offset : Int) : Int := offset.bmod (2 ^ 32)

def fileChunk (A : Algorithm) (sys : System) (rounds : Nat) (given : Bool) (offset length : Int) :
    Option (Option (List Char)) :=
  let offset := if offset < 0 then 0 else offset
  let length := if length ≤ 0 then -1 else length
  match sys.content with
  | none => some none
  | some content =>
      match lseek sys.lseekOther content seekSet (toInt offset) with
      | none => some none
      | some pos =>
          match readLoop A sys content rounds 0 pos length A.init with
          | none => none
          | some none => some none
          | some (some ctx) => mdEnd A sys given ctx

def file (A : Algorithm) (sys : System) (rounds : Nat) (given : Bool) : Option (Option (List Char)) :=
  fileChunk A sys rounds given 0 0

/-! ## What they are for -/

/-- A number below 256 as two digits. -/
def lowerHex (bs : List UInt8) : List Char :=
  bs.flatMap fun b => [Nat.digitChar (b.toNat / 16), Nat.digitChar (b.toNat % 16)]

/-- As many elements as a length says, all of them if it is not positive. -/
def cut (length : Int) (xs : List UInt8) : List UInt8 := if length ≤ 0 then xs else xs.take length.toNat

/-- The part of a file that an offset and a length stand for. -/
def chunk (content : List UInt8) (offset length : Int) : List UInt8 := cut length (content.drop offset.toNat)

/-- A system that reads a file without failing, in pieces of any lengths. -/
def works (content : List UInt8) (other : Int → Int → Option Nat) (short : Nat → Nat) : System where
  content := some content
  lseekOther := other
  read n := some (short n)
  malloc _ := true

/-- `FileChunk` gives the digest of the part of the file, with every hash and however short the reads are. -/
def ChunkRight (content : List UInt8) (other : Int → Int → Option Nat) (offset length : Int) : Prop :=
  ∀ (A : Algorithm) (short : Nat → Nat) (given : Bool) (rounds : Nat), content.length < rounds →
    fileChunk A (works content other short) rounds given offset length =
      some (some (lowerHex (A.digest (chunk content offset length))))

/-- The position that `lseek` leads to if it takes the offset for `whence` is as good as the offset. -/
def StartRight (content : List UInt8) (other : Int → Int → Option Nat) (offset length : Int) : Prop :=
  ∃ pos, lseek other content 0 (toInt (max offset 0)) = some pos ∧
    cut length (content.drop pos) = chunk content offset length

/-! ## The string -/

theorem hexDigits_eq {n : Nat} (hn : n < 16) : hexDigits[n]? = some (Nat.digitChar n) := by
  have hall : ∀ i : Fin 16, hexDigits[i.val]? = some (Nat.digitChar i) := by decide
  exact hall ⟨n, hn⟩

theorem hexPair_eq (b : UInt8) :
    hexPair b = some [Nat.digitChar (b.toNat / 16), Nat.digitChar (b.toNat % 16)] := by
  have hb := b.toNat_lt
  have hhi : (b >>> 4).toNat = b.toNat / 16 := by
    rw [UInt8.toNat_shiftRight, Nat.shiftRight_eq_div_pow]
    rfl
  have hlo : (b &&& 0xf).toNat = b.toNat % 16 := by
    rw [UInt8.toNat_and]
    exact Nat.and_two_pow_sub_one_eq_mod b.toNat 4
  rw [hexPair, hhi, hlo, hexDigits_eq (by omega), hexDigits_eq (by omega)]
  rfl

theorem lowerHex_append (xs ys : List UInt8) : lowerHex (xs ++ ys) = lowerHex xs ++ lowerHex ys :=
  List.flatMap_append

variable {A : Algorithm} {sys : System} {content m xs : List UInt8} {ctx : A.Ctx}
  {other : Int → Int → Option Nat} {offset length : Int}

theorem mdEnd_eq (hmalloc : ∀ n, sys.malloc n = true) (given : Bool) (h : A.Absorbed ctx m) :
    mdEnd A sys given ctx = some (some (lowerHex (A.digest m))) := by
  have hlen := A.length_digest m
  have hstep : ∀ i < A.size, ∀ buf, buf = lowerHex ((A.digest m).take i) →
      ∃ buf', (do
        let b ← (A.digest m)[i]?
        let pair ← hexPair b
        return buf ++ pair) = some buf' ∧ buf' = lowerHex ((A.digest m).take (i + 1)) := by
    intro i hi buf hbuf
    have hi' : i < (A.digest m).length := by omega
    refine ⟨_, ?_, rfl⟩
    rw [List.getElem?_eq_getElem hi', Option.bind_eq_bind, Option.bind_some, hexPair_eq, hbuf,
      List.take_succ_eq_append_getElem hi', lowerHex_append]
    rfl
  obtain ⟨buf, hrun, rfl⟩ := foldlM_range (fun i buf => buf = lowerHex ((A.digest m).take i)) A.size [] rfl hstep
  rw [List.take_of_length_le hlen.le] at hrun
  unfold mdEnd
  simp only [hmalloc, A.final_of_absorbed h, Bool.true_eq_false, and_false, if_false]
  rw [hrun]
  rfl

/-! ## The loop -/

/-- What is left to be read, where the length is negative up to the end. -/
def rest (length : Int) (xs : List UInt8) : List UInt8 := if length < 0 then xs else xs.take length.toNat

/-- What was read and what is left then. -/
theorem take_append_rest {d : Nat} (hd : length < 0 ∨ (d : Int) ≤ length) (xs : List UInt8) :
    xs.take d ++ rest (length - d) (xs.drop d) = rest length xs := by
  unfold rest
  by_cases hneg : length < 0
  · rw [if_pos hneg, if_pos (by omega), List.take_append_drop]
  · have hle : (d : Int) ≤ length := hd.resolve_left hneg
    have hsum : length.toNat = d + (length - d).toNat := by omega
    rw [if_neg hneg, if_neg (by omega), hsum, List.take_add]

theorem readLoop_spec {short : Nat → Nat} (hread : ∀ n, sys.read n = some (short n)) {rounds k pos : Nat}
    (hctx : A.Absorbed ctx m) (hrounds : (content.drop pos).length < rounds) :
    ∃ ctx', readLoop A sys content rounds k pos length ctx = some (some ctx') ∧
      A.Absorbed ctx' (m ++ rest length (content.drop pos)) := by
  induction rounds generalizing k pos length ctx m with
  | zero => exact absurd hrounds (Nat.not_lt_zero _)
  | succ rounds ih =>
    by_cases h0 : length = 0
    · refine ⟨ctx, by rw [readLoop, if_pos h0], ?_⟩
      rw [h0, rest, if_neg (by decide), Int.toNat_zero, List.take_zero, List.append_nil]
      exact hctx
    · obtain ⟨nbytes, hnbytes⟩ : ∃ n, n = if length < 0 then 512 else (min length 512).toNat := ⟨_, rfl⟩
      have hpos : 0 < nbytes ∧ (length < 0 ∨ (nbytes : Int) ≤ length) := by
        rw [hnbytes]
        split <;> omega
      obtain ⟨data, hdata⟩ : ∃ d, d = (content.drop pos).take (min (short k + 1) nbytes) := ⟨_, rfl⟩
      have hlen : data.length = min (min (short k + 1) nbytes) (content.drop pos).length := by
        rw [hdata, List.length_take]
      have hat : sys.readAt content k pos nbytes = some data := by
        rw [System.readAt, hread, hdata]
        rfl
      rw [readLoop, if_neg h0]
      simp only [← hnbytes, hat]
      by_cases hend : data.length = 0
      · have hnil : content.drop pos = [] := List.eq_nil_of_length_eq_zero (by omega)
        refine ⟨ctx, by rw [if_pos hend], ?_⟩
        rw [hnil, rest, List.take_nil, ite_self, List.append_nil]
        exact hctx
      · have hsplit : data ++ rest (length - data.length) (content.drop (pos + data.length)) =
            rest length (content.drop pos) := by
          have htake : data = (content.drop pos).take data.length := by
            rw [hlen, hdata, List.take_eq_take_iff]
            omega
          rw [← List.drop_drop]
          nth_rewrite 1 [htake]
          exact take_append_rest (by omega) _
        obtain ⟨ctx', hrun, habs⟩ := @ih _ _ (length - data.length) (k + 1) (pos + data.length)
          (A.absorbed_update data hctx) (by rw [List.length_drop] at *; omega)
        refine ⟨ctx', by rw [if_neg hend]; exact hrun, ?_⟩
        rwa [List.append_assoc, hsplit] at habs

/-! ## Where it is right -/

section Right

variable {short : Nat → Nat} {given : Bool} {rounds : Nat}

theorem max_zero (offset : Int) : (if offset < 0 then 0 else offset) = max offset 0 := by
  split <;> omega

/-- What is left to be read at first. -/
theorem rest_eq_cut (length : Int) (xs : List UInt8) : rest (if length ≤ 0 then -1 else length) xs = cut length xs := by
  by_cases h : length ≤ 0
  · rw [if_pos h, rest, if_pos (by decide), cut, if_pos h]
  · rw [if_neg h, rest, if_neg (by omega), cut, if_neg h]

/-- The bytes from the position where `lseek` leads to. -/
theorem fileChunk_eq {pos : Nat} (hseek : lseek other content 0 (toInt (max offset 0)) = some pos)
    (hrounds : content.length < rounds) :
    fileChunk A (works content other short) rounds given offset length =
      some (some (lowerHex (A.digest (cut length (content.drop pos))))) := by
  have hread : ∀ n, (works content other short).read n = some (short n) := fun _ => rfl
  obtain ⟨ctx, hrun, habs⟩ := @readLoop_spec A _ content _ _ (if length ≤ 0 then -1 else length) _ hread rounds 0 pos
    A.absorbed_init (show (content.drop pos).length < rounds by rw [List.length_drop]; omega)
  rw [List.nil_append, rest_eq_cut] at habs
  unfold fileChunk
  simp only [works, max_zero, seekSet, hseek] at hrun ⊢
  rw [hrun]
  exact mdEnd_eq (fun _ => rfl) given habs

theorem fileChunk_null (hseek : lseek other content 0 (toInt (max offset 0)) = none) :
    fileChunk A (works content other short) rounds given offset length = some none := by
  unfold fileChunk
  simp only [works, max_zero, seekSet, hseek]

end Right

/-- The hash whose contexts are the texts they have absorbed, with the digest of MD5's size that tells whether the
text is a given one. -/
def tellingAlgorithm (m : List UInt8) : Algorithm where
  toHashAlgorithm := Hmac.textAlgorithm 64 64 16 pos_64 pos_16 fun t => if t = m then 1 else 0
  init := []
  absorbed_init := rfl

theorem tellingAlgorithm_inj {t : List UInt8}
    (h : lowerHex ((tellingAlgorithm m).digest t) = lowerHex ((tellingAlgorithm m).digest m)) : t = m := by
  by_contra hne
  have ht : (tellingAlgorithm m).digest t = List.replicate 16 0 := by
    show List.replicate 16 (if t = m then (1 : UInt8) else 0) = _
    rw [if_neg hne]
  have hm : (tellingAlgorithm m).digest m = List.replicate 16 1 := by
    show List.replicate 16 (if m = m then (1 : UInt8) else 0) = _
    rw [if_pos rfl]
  rw [ht, hm] at h
  exact absurd h (by decide)

theorem chunkRight_iff : ChunkRight content other offset length ↔ StartRight content other offset length := by
  cases hseek : lseek other content 0 (toInt (max offset 0)) with
  | none =>
    constructor
    · intro h
      have hright := h (tellingAlgorithm []) id true (content.length + 1) (Nat.lt_succ_self _)
      rw [fileChunk_null hseek] at hright
      cases hright
    · rintro ⟨pos, hpos, -⟩
      rw [hseek] at hpos
      cases hpos
  | some pos =>
    constructor
    · intro h
      have hright := h (tellingAlgorithm (chunk content offset length)) id true (content.length + 1)
        (Nat.lt_succ_self _)
      rw [fileChunk_eq hseek (Nat.lt_succ_self _)] at hright
      exact ⟨pos, hseek, tellingAlgorithm_inj (Option.some.inj (Option.some.inj hright))⟩
    · rintro ⟨pos', hpos', hcut⟩ A short given rounds hrounds
      rw [fileChunk_eq hpos' hrounds, hcut]

/-- The start of the file is where `lseek` leads to if the offset is not positive. -/
theorem startRight_of_nonpos (h : offset ≤ 0) : StartRight content other offset length := by
  have hmax : max offset 0 = 0 := max_eq_right h
  refine ⟨0, ?_, ?_⟩
  · rw [hmax]
    rfl
  · rw [chunk, Int.toNat_of_nonpos h]

/-- The digest of a part of a file is right if and only if the position that `lseek` leads to is as good as the
offset, which is the case for the whole file. -/
theorem fileChunk_right_iff (content : List UInt8) (other : Int → Int → Option Nat) (offset length : Int) :
    (ChunkRight content other offset length ↔ StartRight content other offset length) ∧
      ∀ (A : Algorithm) (short : Nat → Nat) (given : Bool) (rounds : Nat), content.length < rounds →
        file A (works content other short) rounds given = some (some (lowerHex (A.digest content))) :=
  ⟨chunkRight_iff, fun A short given rounds hrounds =>
    (chunkRight_iff.mpr (startRight_of_nonpos le_rfl)) A short given rounds hrounds⟩

theorem file_right_small :
    file (tellingAlgorithm [1]) (works [1] (fun _ _ => none) id) 2 true =
      some (some (lowerHex (List.replicate 16 1))) :=
  (fileChunk_right_iff [1] (fun _ _ => none) 0 0).2 (tellingAlgorithm [1]) id true 2 (by decide)

/-- The file `abcdef`. -/
def abcdef : List UInt8 := [97, 98, 99, 100, 101, 102]

/-- No other value of `whence` is accepted. -/
def einval (_ _ : Int) : Option Nat := none

/-- From the second byte on it is the digest of the whole file, from the third byte on that of nothing, and from the
sixth byte on there is none. -/
theorem fileChunk_offset :
    (∀ (A : Algorithm) (short : Nat → Nat) (given : Bool),
      fileChunk A (works abcdef einval short) 7 given 1 0 = some (some (lowerHex (A.digest abcdef))) ∧
      fileChunk A (works abcdef einval short) 7 given 2 0 = some (some (lowerHex (A.digest []))) ∧
      fileChunk A (works abcdef einval short) 7 given 5 0 = some none) ∧
    ¬ ChunkRight abcdef einval 1 0 ∧ ¬ ChunkRight abcdef einval 2 0 ∧ ¬ ChunkRight abcdef einval 5 0 := by
  refine ⟨fun A short given => ⟨?_, ?_, ?_⟩, ?_, ?_, ?_⟩
  · exact @fileChunk_eq _ _ _ _ _ _ _ _ 0 rfl (by decide)
  · exact @fileChunk_eq _ _ _ _ _ _ _ _ 6 rfl (by decide)
  · exact fileChunk_null rfl
  · rw [chunkRight_iff]
    rintro ⟨pos, hpos, hcut⟩
    obtain rfl : 0 = pos := Option.some.inj hpos
    exact absurd hcut (by decide)
  · rw [chunkRight_iff]
    rintro ⟨pos, hpos, hcut⟩
    obtain rfl : 6 = pos := Option.some.inj hpos
    exact absurd hcut (by decide)
  · rw [chunkRight_iff]
    rintro ⟨pos, hpos, -⟩
    cases hpos

end Drew.Libmd
